import Serval.Core.Memory
import Serval.Riscv.Regs
import Mathlib.Logic.Function.Basic

/-!
# Cpu — the processor state of `serval/riscv/base.rkt`

The state is generic in `XLEN`; pointers have the same width.  Registers are numbers below 32, with
the names `gpr->idx` knows; register 0 reads as zero and is never written.  A CSR name stands for its
own register, for a masked view of a machine register, or for a constant.  The masks are 64 bits wide
whatever `XLEN` is, so a view is an ill-typed operation on a 32-bit processor.

The counters `mcycle` and `minstret`, which no operation reads or writes, are left out.  The shims of
a processor are an argument of the interpreter.
-/

namespace Serval
namespace Riscv
namespace Interp

open Serval.Core

/-! ## General registers -/

/-- `gpr->idx`: a register by its number. -/
abbrev Reg := Fin 32

-- Numerals of the type refer to this instance instead of a proof of their own.
instance neZero_regs : NeZero 32 := ⟨by decide⟩

namespace Reg

abbrev zero : Reg := 0
abbrev ra : Reg := 1
abbrev sp : Reg := 2
abbrev gp : Reg := 3
abbrev tp : Reg := 4
abbrev t0 : Reg := 5
abbrev t1 : Reg := 6
abbrev t2 : Reg := 7
abbrev fp : Reg := 8
abbrev s1 : Reg := 9
abbrev a0 : Reg := 10
abbrev a1 : Reg := 11
abbrev a2 : Reg := 12
abbrev a3 : Reg := 13
abbrev a4 : Reg := 14
abbrev a5 : Reg := 15
abbrev a6 : Reg := 16
abbrev a7 : Reg := 17
abbrev s2 : Reg := 18
abbrev s3 : Reg := 19
abbrev s4 : Reg := 20
abbrev s5 : Reg := 21
abbrev s6 : Reg := 22
abbrev s7 : Reg := 23
abbrev s8 : Reg := 24
abbrev s9 : Reg := 25
abbrev s10 : Reg := 26
abbrev s11 : Reg := 27
abbrev t3 : Reg := 28
abbrev t4 : Reg := 29
abbrev t5 : Reg := 30
abbrev t6 : Reg := 31

end Reg

/-! ## CSRs -/

/-- The members of `struct csrs`. -/
inductive CsrReg
  | sedeleg | sideleg | stvec | scounteren | sscratch | sepc | scause | stval | satp
  | mstatus | misa | medeleg | mideleg | mie | mtvec | mcounteren
  | mscratch | mepc | mcause | mtval | mip
  | pmpcfg0 | pmpcfg2 | pmpaddr (i : Fin 16)
  deriving DecidableEq, Repr

/-- A CSR as an instruction names it. -/
inductive CsrName
  | own (r : CsrReg)
  | sstatus | sie | sip
  | marchid | mimpid | mvendorid | mhartid
  | mcycle | minstret | pmpcfg1 | pmpcfg3
  deriving DecidableEq, Repr

/-- `struct cpu`. -/
structure Cpu (xlen : Nat) where
  pc : BitVec xlen
  gprs : Reg → BitVec xlen
  csrs : CsrReg → BitVec xlen
  mregions : List (MRegion xlen)

namespace Cpu

variable {xlen : Nat}

/-- `gpr-ref`. -/
def gprRef (cpu : Cpu xlen) (g : Reg) : BitVec xlen :=
  if g = 0 then 0 else cpu.gprs g

/-- `gpr-set!`. -/
def gprSet (cpu : Cpu xlen) (g : Reg) (v : BitVec xlen) : Cpu xlen :=
  if g = 0 then cpu else { cpu with gprs := Function.update cpu.gprs g v }

/-- The mask of a view, for an operation on registers of `XLEN` bits. -/
def viewMask (mask : Word) : Except Bug (BitVec xlen) :=
  if xlen = 64 then .ok (mask.setWidth xlen) else .error .badWidth

/-- `csr-ref`. -/
def csrRef (cpu : Cpu xlen) : CsrName → Except Bug (BitVec xlen)
  | .own r => .ok (cpu.csrs r)
  | .sstatus => do return (← viewMask sstatusMask) &&& cpu.csrs .mstatus
  | .sie => do return (← viewMask sieMask) &&& cpu.csrs .mie
  | .sip => do return (← viewMask sipMask) &&& cpu.csrs .mip
  | .marchid => .ok (-1)
  | .mimpid => .ok 0
  | .mvendorid => .ok 0
  | .mhartid => .ok 1
  | .mcycle | .minstret | .pmpcfg1 | .pmpcfg3 => .error .unknownCsr

def setCsrReg (cpu : Cpu xlen) (r : CsrReg) (v : BitVec xlen) : Cpu xlen :=
  { cpu with csrs := Function.update cpu.csrs r v }

/-- `csr-set!`: a view replaces the whole register behind it by the masked value. -/
def csrSet (cpu : Cpu xlen) (c : CsrName) (v : BitVec xlen) : Except Bug (Cpu xlen) :=
  match c with
  | .own r => .ok (cpu.setCsrReg r v)
  | .sstatus => do return cpu.setCsrReg .mstatus (v &&& (← viewMask sstatusMask))
  | .sie => do return cpu.setCsrReg .mie ((← viewMask sieMask) &&& v)
  | .sip => do return cpu.setCsrReg .mip (v &&& (← viewMask sipMask))
  | .marchid | .mimpid | .mvendorid | .mhartid
  | .mcycle | .minstret | .pmpcfg1 | .pmpcfg3 => .error .unknownCsr

/-- `cpu-next!`. -/
def next (cpu : Cpu xlen) (size : Nat) : Cpu xlen :=
  { cpu with pc := BitVec.ofNat xlen size + cpu.pc }

/-! ### Reads after writes -/

@[simp] theorem gprRef_zero (cpu : Cpu xlen) : cpu.gprRef 0 = 0 := rfl

theorem gprRef_gprSet (cpu : Cpu xlen) (g h : Reg) (v : BitVec xlen) :
    (cpu.gprSet g v).gprRef h = if h = g ∧ g ≠ 0 then v else cpu.gprRef h := by
  by_cases hg : g = 0
  · simp [gprSet, hg]
  · by_cases hh : h = g
    · simp [gprSet, gprRef, hg, hh]
    · simp [gprSet, gprRef, hg, hh]

@[simp] theorem gprSet_pc (cpu : Cpu xlen) (g : Reg) (v : BitVec xlen) : (cpu.gprSet g v).pc = cpu.pc := by
  by_cases hg : g = 0
  · simp [gprSet, hg]
  · simp [gprSet, hg]

@[simp] theorem gprSet_mregions (cpu : Cpu xlen) (g : Reg) (v : BitVec xlen) :
    (cpu.gprSet g v).mregions = cpu.mregions := by
  by_cases hg : g = 0
  · simp [gprSet, hg]
  · simp [gprSet, hg]

@[simp] theorem gprSet_csrs (cpu : Cpu xlen) (g : Reg) (v : BitVec xlen) : (cpu.gprSet g v).csrs = cpu.csrs := by
  by_cases hg : g = 0
  · simp [gprSet, hg]
  · simp [gprSet, hg]

@[simp] theorem next_pc (cpu : Cpu xlen) (size : Nat) :
    (cpu.next size).pc = BitVec.ofNat xlen size + cpu.pc := rfl

@[simp] theorem next_gprRef (cpu : Cpu xlen) (size : Nat) (g : Reg) :
    (cpu.next size).gprRef g = cpu.gprRef g := rfl

@[simp] theorem next_mregions (cpu : Cpu xlen) (size : Nat) : (cpu.next size).mregions = cpu.mregions := rfl

end Cpu
end Interp
end Riscv
end Serval
