import Serval.Core.Bits
import Serval.Core.Memory
import Serval.Lib.Fragment
import Mathlib.Logic.Function.Basic

/-!
# Interp — the x86-32 interpreter of `serval/x32/base.rkt` and `serval/x32/interp.rkt`

Instructions on 32-bit registers, with operands in memory at a base register and an 8-bit displacement.
What the source leaves open about the flags it fills with fresh symbolic booleans; here a processor has
a stream of booleans for that, and a statement about all processors is about all streams.

The 16-bit registers, and the byte registers of `gpr-set!` that no instruction uses, are left out.
-/

namespace Serval
namespace X32

open Serval.Core

/-! ## Processors -/

inductive Gpr
  | eax | ecx | edx | ebx | esp | ebp | esi | edi
  deriving DecidableEq, Repr

/-- The byte registers that an instruction can name. -/
inductive Gpr8
  | al | cl | dl | bl | ah | ch | dh | bh
  deriving DecidableEq, Repr

/-- `gpr-full`. -/
def Gpr8.full : Gpr8 → Gpr
  | .al | .ah => .eax
  | .cl | .ch => .ecx
  | .dl | .dh => .edx
  | .bl | .bh => .ebx

/-- `gpr->idx`. -/
def Gpr8.idx : Gpr8 → BitVec 8
  | .al => 0
  | .cl => 1
  | .dl => 2
  | .bl => 3
  | .ah => 4
  | .ch => 5
  | .dh => 6
  | .bh => 7

/-- A register as an operand names it: all of it or one of its bytes. -/
inductive RegName
  | r32 (g : Gpr)
  | r8 (g : Gpr8)
  deriving DecidableEq, Repr

instance : Coe Gpr RegName := ⟨.r32⟩

inductive Flag
  | CF | PF | AF | ZF | SF | OF
  deriving DecidableEq, Repr

/-- `cpu`, with the values of the booleans that are still to be made up. -/
structure Cpu where
  pc : BitVec 32
  gprs : Gpr → BitVec 32
  flags : Flag → Bool
  mregions : List (MRegion 32)
  havoc : Nat → Bool

namespace Cpu

/-- `cpu-next!`. -/
def next (cpu : Cpu) (size : BitVec 32) : Cpu :=
  { cpu with pc := size + cpu.pc }

def gprSet (cpu : Cpu) (g : Gpr) (v : BitVec 32) : Cpu :=
  { cpu with gprs := Function.update cpu.gprs g v }

def gprRef (cpu : Cpu) (g : Gpr) : BitVec 32 :=
  cpu.gprs g

/-- `gpr-set!` of a byte register. -/
def gprSet8 (cpu : Cpu) (g : Gpr8) (v : BitVec 8) : Cpu :=
  let old := cpu.gprRef g.full
  match g with
  | .al | .cl | .dl | .bl => cpu.gprSet g.full (old.extractLsb' 8 24 ++ v)
  | .ah | .ch | .dh | .bh => cpu.gprSet g.full (old.extractLsb' 16 16 ++ v ++ old.extractLsb' 0 8)

/-- The low byte of what `gpr-ref` returns. -/
def byteRef (cpu : Cpu) : RegName → BitVec 8
  | .r32 g => (cpu.gprRef g).extractLsb' 0 8
  | .r8 g =>
      match g with
      | .ah | .ch | .dh | .bh => (cpu.gprRef g.full).extractLsb' 8 8
      | _ => (cpu.gprRef g.full).extractLsb' 0 8

def flagSet (cpu : Cpu) (f : Flag) (v : Bool) : Cpu :=
  { cpu with flags := Function.update cpu.flags f v }

def flagClear (cpu : Cpu) (f : Flag) : Cpu :=
  cpu.flagSet f false

def flagRef (cpu : Cpu) (f : Flag) : Bool :=
  cpu.flags f

def flagHavoc (cpu : Cpu) (f : Flag) : Cpu :=
  { cpu.flagSet f (cpu.havoc 0) with havoc := fun n => cpu.havoc (n + 1) }

section Fields

variable (cpu : Cpu) (f : Flag) (v : Bool)

@[simp] theorem pc_flagSet : (cpu.flagSet f v).pc = cpu.pc := rfl
@[simp] theorem gprs_flagSet : (cpu.flagSet f v).gprs = cpu.gprs := rfl
@[simp] theorem mregions_flagSet : (cpu.flagSet f v).mregions = cpu.mregions := rfl
@[simp] theorem flags_flagSet : (cpu.flagSet f v).flags = Function.update cpu.flags f v := rfl

@[simp] theorem pc_flagHavoc : (cpu.flagHavoc f).pc = cpu.pc := rfl
@[simp] theorem gprs_flagHavoc : (cpu.flagHavoc f).gprs = cpu.gprs := rfl
@[simp] theorem mregions_flagHavoc : (cpu.flagHavoc f).mregions = cpu.mregions := rfl
@[simp] theorem flags_flagHavoc : (cpu.flagHavoc f).flags = Function.update cpu.flags f (cpu.havoc 0) := rfl

end Fields

end Cpu

def parity (x : BitVec 8) : BitVec 1 :=
  ~~~((List.range 8).foldl (fun acc i => acc ^^^ x.extractLsb' i 1) 0)

/-- `shift-count`: five bits. -/
def shiftCount {w : Nat} (x : BitVec w) : BitVec 32 :=
  (x.extractLsb' 0 5).setWidth 32

namespace Cpu

/-- `flag-set-result!`. -/
def flagSetResult (cpu : Cpu) (val : BitVec 32) : Cpu :=
  ((cpu.flagSet .PF (parity (val.extractLsb' 0 8) ≠ 0)).flagSet .ZF (val = 0)).flagSet .SF
    (bvSign val ≠ 0)

@[simp] theorem pc_flagSetResult (cpu : Cpu) (val : BitVec 32) : (cpu.flagSetResult val).pc = cpu.pc := rfl
@[simp] theorem gprs_flagSetResult (cpu : Cpu) (val : BitVec 32) : (cpu.flagSetResult val).gprs = cpu.gprs := rfl
@[simp] theorem mregions_flagSetResult (cpu : Cpu) (val : BitVec 32) :
    (cpu.flagSetResult val).mregions = cpu.mregions := rfl

/-- The operations that set the flags for arithmetic. -/
inductive Arith
  | add | sub
  deriving DecidableEq, Repr

def Arith.eval : Arith → BitVec 32 → BitVec 32 → BitVec 32
  | .add, x, y => x + y
  | .sub, x, y => x - y

/-- `flag-set-arithmetic!`; nothing calls it for a product. -/
def flagSetArithmetic (cpu : Cpu) (proc : Arith) (v1 v2 : BitVec 32) : Cpu :=
  let cpu := cpu.flagSetResult (proc.eval v1 v2)
  let cpu :=
    match proc with
    | .add => (cpu.flagSet .OF (bvsaddOverflow v1 v2 false)).flagSet .CF (bvuaddOverflow v1 v2 false)
    | .sub => (cpu.flagSet .OF (bvssubOverflow v1 v2 false)).flagSet .CF (bvusubOverflow v1 v2 false)
  cpu.flagHavoc .AF

def interpretAdc (cpu : Cpu) (dst : Gpr) (v2 : BitVec 32) : Cpu :=
  let v1 := cpu.gprRef dst
  let cf := cpu.flagRef .CF
  let result := v1 + v2 + if cf then 1 else 0
  let cpu := (cpu.gprSet dst result).flagSetResult result
  ((cpu.flagSet .OF (bvsaddOverflow v1 v2 cf)).flagSet .CF (bvuaddOverflow v1 v2 cf)).flagHavoc .AF

def interpretSbb (cpu : Cpu) (dst : Gpr) (v2 : BitVec 32) : Cpu :=
  let v1 := cpu.gprRef dst
  let cf := cpu.flagRef .CF
  let result := v1 - v2 - if cf then 1 else 0
  let cpu := (cpu.gprSet dst result).flagSetResult result
  ((cpu.flagSet .OF (bvssubOverflow v1 v2 cf)).flagSet .CF (bvusubOverflow v1 v2 cf)).flagHavoc .AF

def interpretNeg (cpu : Cpu) (dst : Gpr) : Cpu :=
  let val := cpu.gprRef dst
  (cpu.gprSet dst (-val)).flagSetArithmetic .sub 0 val

def interpretBinaryOp (cpu : Cpu) (dst : Gpr) (v2 : BitVec 32) (proc : Arith) : Cpu :=
  let v1 := cpu.gprRef dst
  (cpu.gprSet dst (proc.eval v1 v2)).flagSetArithmetic proc v1 v2

def interpretLogical (cpu : Cpu) (dst : Gpr) (val : BitVec 32)
    (proc : BitVec 32 → BitVec 32 → BitVec 32) : Cpu :=
  let result := proc (cpu.gprRef dst) val
  ((((cpu.gprSet dst result).flagSetResult result).flagClear .CF).flagClear .OF).flagHavoc .AF

def interpretMul (cpu : Cpu) (v2 : BitVec 32) : Cpu :=
  let v1 := cpu.gprRef .eax
  let upper := (v1.setWidth 64 * v2.setWidth 64).extractLsb' 32 32
  let cpu := (cpu.gprSet .eax (v1 * v2)).gprSet .edx upper
  let cpu := (cpu.flagSet .OF (upper ≠ 0)).flagSet .CF (upper ≠ 0)
  (((cpu.flagHavoc .SF).flagHavoc .ZF).flagHavoc .AF).flagHavoc .PF

def flagSetShift (cpu : Cpu) (count result : BitVec 32) : Cpu :=
  if count = 0 then cpu
  else (((cpu.flagSetResult result).flagHavoc .CF).flagHavoc .OF).flagHavoc .AF

def interpretShift {w : Nat} (cpu : Cpu) (dst : Gpr) (count : BitVec w)
    (proc : BitVec 32 → BitVec 32 → BitVec 32) : Cpu :=
  let count := shiftCount count
  let result := proc (cpu.gprRef dst) count
  (cpu.gprSet dst result).flagSetShift count result

def interpretShld {w : Nat} (cpu : Cpu) (dst src : Gpr) (count : BitVec w) : Cpu :=
  let count := shiftCount count
  -- a count of zero shifts all bits of the source out
  let result := cpu.gprRef dst <<< count ||| cpu.gprRef src >>> (32 - count)
  (cpu.gprSet dst result).flagSetShift count result

def interpretShrd {w : Nat} (cpu : Cpu) (dst src : Gpr) (count : BitVec w) : Cpu :=
  let count := shiftCount count
  let result := cpu.gprRef dst >>> count ||| cpu.gprRef src <<< (32 - count)
  (cpu.gprSet dst result).flagSetShift count result

/-- `resolve-mem-path`: the region, with its position, and the path in its block. -/
def resolveMemPath (cpu : Cpu) (reg : Gpr) (disp : BitVec 8) (size : Nat) :
    Except Bug (Nat × MRegion 32 × Path 32) :=
  match guessMregionFromAddr cpu.mregions (cpu.gprRef reg) ⟨32, disp.signExtend 32⟩ with
  | none => .error .noMregion
  | some k =>
      match cpu.mregions[k]? with
      | none => .error .noMregion
      | some mr => do
          let addr := cpu.gprRef reg + disp.signExtend 32
          bugOn (¬ mr.inbounds addr (BitVec.ofNat 32 size)) .addressOutOfRange
          let path ← mr.block.path (addr - BitVec.ofNat 32 mr.start) (BitVec.ofNat 32 size)
          return (k, mr, path)

/-- `mblock-iload` of four bytes, whose value must be as wide as a register. -/
def load32 (cpu : Cpu) (reg : Gpr) (disp : BitVec 8) : Except Bug (BitVec 32) := do
  let (_, mr, path) ← cpu.resolveMemPath reg disp 4
  let v ← mr.block.iload path
  bugOn (v.width ≠ 32) .badWidth
  return v.val.setWidth 32

def store32 (cpu : Cpu) (reg : Gpr) (disp : BitVec 8) (v : BitVec 32) : Except Bug Cpu := do
  let (k, mr, path) ← cpu.resolveMemPath reg disp 4
  let block ← mr.block.istore ⟨32, v⟩ path
  return { cpu with mregions := cpu.mregions.set k { mr with block := block } }

end Cpu

/-! ## Instructions -/

/-- The instructions, under the names of their structs. -/
inductive Instr
  | adcR32Imm8 (dst : Gpr) (imm8 : BitVec 8)
  | adcR32R32 (dst src : Gpr)
  | addR32Imm8 (dst : Gpr) (imm8 : BitVec 8)
  | addR32R32 (dst src : Gpr)
  | andR32Imm8 (dst : Gpr) (imm8 : BitVec 8)
  | andRm32R32 (dst src : Gpr)
  | andR32Rm32 (dst src : Gpr)
  | cmpR32Imm8 (src : Gpr) (imm8 : BitVec 8)
  | movR8Imm8 (dst : Gpr8) (imm8 : BitVec 8)
  | movM32Imm32 (dst : Gpr) (disp : BitVec 8) (imm32 : BitVec 32)
  | movM32R32 (dst : Gpr) (disp : BitVec 8) (src : Gpr)
  | movR32Imm32 (dst : Gpr) (imm32 : BitVec 32)
  | movR32M32 (dst src : Gpr) (disp : BitVec 8)
  | movRm32R32 (dst src : Gpr)
  | movR32Rm32 (dst src : Gpr)
  | movzxR32R8 (dst : Gpr) (src : RegName)
  | jbRel8 (rel8 : BitVec 8)
  | mulR32 (src : Gpr)
  | mulM32 (src : Gpr) (disp : BitVec 8)
  | negR32 (dst : Gpr)
  | orR32Imm8 (dst : Gpr) (imm8 : BitVec 8)
  | orR32R32 (dst src : Gpr)
  | ret
  | sarR32Cl (dst : Gpr)
  | sarR32Imm8 (dst : Gpr) (imm8 : BitVec 8)
  | sbbR32R32 (dst src : Gpr)
  | sbbR32Imm8 (dst : Gpr) (imm8 : BitVec 8)
  | shlR32Cl (dst : Gpr)
  | shlR32Imm8 (dst : Gpr) (imm8 : BitVec 8)
  | shrR32Cl (dst : Gpr)
  | shrR32Imm8 (dst : Gpr) (imm8 : BitVec 8)
  | shldR32R32Cl (dst src : Gpr)
  | shldR32R32Imm8 (dst src : Gpr) (imm8 : BitVec 8)
  | shrdR32R32Cl (dst src : Gpr)
  | shrdR32R32Imm8 (dst src : Gpr) (imm8 : BitVec 8)
  | subR32Imm8 (dst : Gpr) (imm8 : BitVec 8)
  | subR32R32 (dst src : Gpr)
  | xorR32Imm8 (dst : Gpr) (imm8 : BitVec 8)
  | xorRm32R32 (dst src : Gpr)
  | xorR32Rm32 (dst src : Gpr)
  deriving DecidableEq, Repr

/-- A part of an encoded instruction. -/
inductive Item
  | opcode (b : BitVec 8)
  | modOpcodeRm (modOpcode : BitVec 8) (rm : Gpr)
  | modRm (mod : BitVec 8) (rm : RegName) (reg : Gpr)
  | imm8 (v : BitVec 8)
  | imm32 (v : BitVec 32)
  deriving DecidableEq, Repr

/-- `size-of`. -/
def Item.size : Item → Nat
  | .imm32 _ => 4
  | _ => 1

namespace Instr

/-- `instruction-encode`. -/
def encode : Instr → List Item
  | adcR32Imm8 dst imm8 => [.opcode 0x83, .modOpcodeRm 0xD0 dst, .imm8 imm8]
  | adcR32R32 dst src => [.opcode 0x11, .modRm 0xC0 dst src]
  | addR32Imm8 dst imm8 => [.opcode 0x83, .modOpcodeRm 0xC0 dst, .imm8 imm8]
  | addR32R32 dst src => [.opcode 0x01, .modRm 0xC0 dst src]
  | andR32Imm8 dst imm8 => [.opcode 0x83, .modOpcodeRm 0xE0 dst, .imm8 imm8]
  | andRm32R32 dst src => [.opcode 0x21, .modRm 0xC0 dst src]
  | andR32Rm32 dst src => [.opcode 0x23, .modRm 0xC0 src dst]
  | cmpR32Imm8 src imm8 => [.opcode 0x83, .modOpcodeRm 0xF8 src, .imm8 imm8]
  | movR8Imm8 dst imm8 => [.opcode (0xB0 + dst.idx), .imm8 imm8]
  | movM32Imm32 dst disp imm32 => [.opcode 0xC7, .modOpcodeRm 0x40 dst, .imm8 disp, .imm32 imm32]
  | movM32R32 dst disp src => [.opcode 0x89, .modRm 0x40 dst src, .imm8 disp]
  | movR32Imm32 dst imm32 => [.opcode 0xC7, .modOpcodeRm 0xC0 dst, .imm32 imm32]
  | movR32M32 dst src disp => [.opcode 0x8B, .modRm 0x40 src dst, .imm8 disp]
  | movRm32R32 dst src => [.opcode 0x89, .modRm 0xC0 dst src]
  | movR32Rm32 dst src => [.opcode 0x8B, .modRm 0xC0 src dst]
  | movzxR32R8 dst src => [.opcode 0x0F, .opcode 0xB6, .modRm 0xC0 src dst]
  | jbRel8 rel8 => [.opcode 0x72, .imm8 rel8]
  | mulR32 src => [.opcode 0xF7, .modOpcodeRm 0xE0 src]
  | mulM32 src disp => [.opcode 0xF7, .modOpcodeRm 0x60 src, .imm8 disp]
  | negR32 dst => [.opcode 0xF7, .modOpcodeRm 0xD8 dst]
  | orR32Imm8 dst imm8 => [.opcode 0x83, .modOpcodeRm 0xC8 dst, .imm8 imm8]
  | orR32R32 dst src => [.opcode 0x09, .modRm 0xC0 dst src]
  | ret => [.opcode 0xC3]
  | sarR32Cl dst => [.opcode 0xD3, .modOpcodeRm 0xF8 dst]
  | sarR32Imm8 dst imm8 => [.opcode 0xC1, .modOpcodeRm 0xF8 dst, .imm8 imm8]
  | sbbR32R32 dst src => [.opcode 0x19, .modRm 0xC0 dst src]
  | sbbR32Imm8 dst imm8 => [.opcode 0x83, .modOpcodeRm 0xD8 dst, .imm8 imm8]
  | shlR32Cl dst => [.opcode 0xD3, .modOpcodeRm 0xE0 dst]
  | shlR32Imm8 dst imm8 => [.opcode 0xC1, .modOpcodeRm 0xE0 dst, .imm8 imm8]
  | shrR32Cl dst => [.opcode 0xD3, .modOpcodeRm 0xE8 dst]
  | shrR32Imm8 dst imm8 => [.opcode 0xC1, .modOpcodeRm 0xE8 dst, .imm8 imm8]
  | shldR32R32Cl dst src => [.opcode 0x0F, .opcode 0xA5, .modRm 0xC0 dst src]
  | shldR32R32Imm8 dst src imm8 => [.opcode 0x0F, .opcode 0xA4, .modRm 0xC0 dst src, .imm8 imm8]
  | shrdR32R32Cl dst src => [.opcode 0x0F, .opcode 0xAD, .modRm 0xC0 dst src]
  | shrdR32R32Imm8 dst src imm8 => [.opcode 0x0F, .opcode 0xAC, .modRm 0xC0 dst src, .imm8 imm8]
  | subR32Imm8 dst imm8 => [.opcode 0x83, .modOpcodeRm 0xE8 dst, .imm8 imm8]
  | subR32R32 dst src => [.opcode 0x29, .modRm 0xC0 dst src]
  | xorR32Imm8 dst imm8 => [.opcode 0x83, .modOpcodeRm 0xF0 dst, .imm8 imm8]
  | xorRm32R32 dst src => [.opcode 0x31, .modRm 0xC0 dst src]
  | xorR32Rm32 dst src => [.opcode 0x33, .modRm 0xC0 src dst]

/-- `instruction-size`. -/
def size (i : Instr) : Nat :=
  (i.encode.map Item.size).sum

/-- `instruction-run`. -/
def run (cpu : Cpu) : Instr → Except Bug Cpu
  | adcR32Imm8 dst imm8 => .ok (cpu.interpretAdc dst (imm8.signExtend 32))
  | adcR32R32 dst src => .ok (cpu.interpretAdc dst (cpu.gprRef src))
  | addR32Imm8 dst imm8 => .ok (cpu.interpretBinaryOp dst (imm8.signExtend 32) .add)
  | addR32R32 dst src => .ok (cpu.interpretBinaryOp dst (cpu.gprRef src) .add)
  | andR32Imm8 dst imm8 => .ok (cpu.interpretLogical dst (imm8.signExtend 32) (· &&& ·))
  | andRm32R32 dst src => .ok (cpu.interpretLogical dst (cpu.gprRef src) (· &&& ·))
  | andR32Rm32 dst src => .ok (cpu.interpretLogical dst (cpu.gprRef src) (· &&& ·))
  | cmpR32Imm8 src imm8 => .ok (cpu.flagSetArithmetic .sub (cpu.gprRef src) (imm8.signExtend 32))
  | movR8Imm8 dst imm8 => .ok (cpu.gprSet8 dst imm8)
  | movM32Imm32 dst disp imm32 => cpu.store32 dst disp imm32
  | movM32R32 dst disp src => cpu.store32 dst disp (cpu.gprRef src)
  | movR32Imm32 dst imm32 => .ok (cpu.gprSet dst imm32)
  | movR32M32 dst src disp => do return cpu.gprSet dst (← cpu.load32 src disp)
  | movRm32R32 dst src => .ok (cpu.gprSet dst (cpu.gprRef src))
  | movR32Rm32 dst src => .ok (cpu.gprSet dst (cpu.gprRef src))
  | movzxR32R8 dst src => .ok (cpu.gprSet dst ((cpu.byteRef src).setWidth 32))
  | jbRel8 rel8 => .ok (if cpu.flagRef .CF then cpu.next (rel8.signExtend 32) else cpu)
  | mulR32 src => .ok (cpu.interpretMul (cpu.gprRef src))
  | mulM32 src disp => do return cpu.interpretMul (← cpu.load32 src disp)
  | negR32 dst => .ok (cpu.interpretNeg dst)
  | orR32Imm8 dst imm8 => .ok (cpu.interpretLogical dst (imm8.signExtend 32) (· ||| ·))
  | orR32R32 dst src => .ok (cpu.interpretLogical dst (cpu.gprRef src) (· ||| ·))
  | ret => .error .retReached
  | sarR32Cl dst => .ok (cpu.interpretShift dst (cpu.gprRef .ecx) (fun x n => x.sshiftRight n.toNat))
  | sarR32Imm8 dst imm8 => .ok (cpu.interpretShift dst imm8 (fun x n => x.sshiftRight n.toNat))
  | sbbR32R32 dst src => .ok (cpu.interpretSbb dst (cpu.gprRef src))
  | sbbR32Imm8 dst imm8 => .ok (cpu.interpretSbb dst (imm8.signExtend 32))
  | shlR32Cl dst => .ok (cpu.interpretShift dst (cpu.gprRef .ecx) (· <<< ·))
  | shlR32Imm8 dst imm8 => .ok (cpu.interpretShift dst imm8 (· <<< ·))
  | shrR32Cl dst => .ok (cpu.interpretShift dst (cpu.gprRef .ecx) (· >>> ·))
  | shrR32Imm8 dst imm8 => .ok (cpu.interpretShift dst imm8 (· >>> ·))
  | shldR32R32Cl dst src => .ok (cpu.interpretShld dst src (cpu.gprRef .ecx))
  | shldR32R32Imm8 dst src imm8 => .ok (cpu.interpretShld dst src imm8)
  | shrdR32R32Cl dst src => .ok (cpu.interpretShrd dst src (cpu.gprRef .ecx))
  | shrdR32R32Imm8 dst src imm8 => .ok (cpu.interpretShrd dst src imm8)
  | subR32Imm8 dst imm8 => .ok (cpu.interpretBinaryOp dst (imm8.signExtend 32) .sub)
  | subR32R32 dst src => .ok (cpu.interpretBinaryOp dst (cpu.gprRef src) .sub)
  | xorR32Imm8 dst imm8 => .ok (cpu.interpretLogical dst (imm8.signExtend 32) (· ^^^ ·))
  | xorRm32R32 dst src => .ok (cpu.interpretLogical dst (cpu.gprRef src) (· ^^^ ·))
  | xorR32Rm32 dst src => .ok (cpu.interpretLogical dst (cpu.gprRef src) (· ^^^ ·))

end Instr

/-- `decode`, by the opcode and the rest of the code. -/
def decode : List Item → Option Instr
  | [.opcode op, .modOpcodeRm mod r, .imm8 imm8] =>
      if op = 0x83 then
        if mod = 0xD0 then some (.adcR32Imm8 r imm8)
        else if mod = 0xC0 then some (.addR32Imm8 r imm8)
        else if mod = 0xE0 then some (.andR32Imm8 r imm8)
        else if mod = 0xF8 then some (.cmpR32Imm8 r imm8)
        else if mod = 0xC8 then some (.orR32Imm8 r imm8)
        else if mod = 0xD8 then some (.sbbR32Imm8 r imm8)
        else if mod = 0xE8 then some (.subR32Imm8 r imm8)
        else if mod = 0xF0 then some (.xorR32Imm8 r imm8)
        else none
      else if op = 0xF7 ∧ mod = 0x60 then some (.mulM32 r imm8)
      else if op = 0xC1 then
        if mod = 0xF8 then some (.sarR32Imm8 r imm8)
        else if mod = 0xE0 then some (.shlR32Imm8 r imm8)
        else if mod = 0xE8 then some (.shrR32Imm8 r imm8)
        else none
      else none
  | [.opcode op, .modRm mod (.r32 rm) reg] =>
      if mod = 0xC0 then
        if op = 0x11 then some (.adcR32R32 rm reg)
        else if op = 0x01 then some (.addR32R32 rm reg)
        else if op = 0x21 then some (.andRm32R32 rm reg)
        else if op = 0x23 then some (.andR32Rm32 reg rm)
        else if op = 0x89 then some (.movRm32R32 rm reg)
        else if op = 0x8B then some (.movR32Rm32 reg rm)
        else if op = 0x09 then some (.orR32R32 rm reg)
        else if op = 0x19 then some (.sbbR32R32 rm reg)
        else if op = 0x29 then some (.subR32R32 rm reg)
        else if op = 0x31 then some (.xorRm32R32 rm reg)
        else if op = 0x33 then some (.xorR32Rm32 reg rm)
        else none
      else none
  | [.opcode op, .imm8 imm8] =>
      if op = 0x72 then some (.jbRel8 imm8)
      else if op = 0xB0 then some (.movR8Imm8 .al imm8)
      else if op = 0xB1 then some (.movR8Imm8 .cl imm8)
      else if op = 0xB2 then some (.movR8Imm8 .dl imm8)
      else if op = 0xB3 then some (.movR8Imm8 .bl imm8)
      else if op = 0xB4 then some (.movR8Imm8 .ah imm8)
      else if op = 0xB5 then some (.movR8Imm8 .ch imm8)
      else if op = 0xB6 then some (.movR8Imm8 .dh imm8)
      else if op = 0xB7 then some (.movR8Imm8 .bh imm8)
      else none
  | [.opcode op, .modOpcodeRm mod dst, .imm8 disp, .imm32 imm32] =>
      if op = 0xC7 ∧ mod = 0x40 then some (.movM32Imm32 dst disp imm32) else none
  | [.opcode op, .modOpcodeRm mod dst, .imm32 imm32] =>
      if op = 0xC7 ∧ mod = 0xC0 then some (.movR32Imm32 dst imm32) else none
  | [.opcode op, .modRm mod (.r32 rm) reg, .imm8 disp] =>
      if op = 0x89 ∧ mod = 0x40 then some (.movM32R32 rm disp reg)
      else if op = 0x8B ∧ mod = 0x40 then some (.movR32M32 reg rm disp)
      else none
  | [.opcode op, .modOpcodeRm mod r] =>
      if op = 0xF7 then
        if mod = 0xE0 then some (.mulR32 r)
        else if mod = 0xD8 then some (.negR32 r)
        else none
      else if op = 0xD3 then
        if mod = 0xF8 then some (.sarR32Cl r)
        else if mod = 0xE0 then some (.shlR32Cl r)
        else if mod = 0xE8 then some (.shrR32Cl r)
        else none
      else none
  | [.opcode op, .opcode op', .modRm mod rm reg] =>
      if op = 0x0F ∧ mod = 0xC0 then
        if op' = 0xB6 then some (.movzxR32R8 reg rm)
        else
          match rm with
          | .r32 rm =>
              if op' = 0xA5 then some (.shldR32R32Cl rm reg)
              else if op' = 0xAD then some (.shrdR32R32Cl rm reg)
              else none
          | .r8 _ => none
      else none
  | [.opcode op, .opcode op', .modRm mod (.r32 rm) reg, .imm8 imm8] =>
      if op = 0x0F ∧ mod = 0xC0 then
        if op' = 0xA4 then some (.shldR32R32Imm8 rm reg imm8)
        else if op' = 0xAC then some (.shrdR32R32Imm8 rm reg imm8)
        else none
      else none
  | _ => none

/-- Every instruction but `ret` can be read back. -/
theorem decode_encode {i : Instr} (h : i ≠ .ret) : decode i.encode = some i := by
  cases i with
  | ret => exact absurd rfl h
  | movR8Imm8 dst imm8 => cases dst <;> rfl
  | _ => rfl

/-! ## Programs -/

structure Program where
  base : BitVec 32
  instructions : BitVec 32 → Option Instr

def interpretInstr (cpu : Cpu) (i : Instr) : Except Bug Cpu := do
  let cpu ← i.run cpu
  return cpu.next (BitVec.ofNat 32 i.size)

/-- `interpret-program`, for at most `fuel` instructions; `none` when they do not suffice. -/
def interpretProgram (program : Program) : Nat → Cpu → Except Bug (Option Cpu)
  | 0, _ => .ok none
  | fuel + 1, cpu =>
      match program.instructions cpu.pc with
      | some i =>
          if i = .ret then
            .ok (some cpu)
          else do
            interpretProgram program fuel (← interpretInstr cpu i)
      | none => .error .noInstruction

/-- The interpreter as a machine that runs placed code. -/
def machine : CodeMachine 32 Instr Cpu Bug where
  pc := Cpu.pc
  size := Instr.size
  halts := fun i => i = .ret
  exec := fun i cpu => interpretInstr cpu i
  missing := some .noInstruction

theorem interpretProgram_eq_run (program : Program) (fuel : Nat) (cpu : Cpu) :
    interpretProgram program fuel cpu = machine.run program.instructions fuel cpu := by
  induction fuel generalizing cpu with
  | zero => rfl
  | succ fuel ih =>
      simp only [interpretProgram, CodeMachine.run, machine]
      cases program.instructions cpu.pc with
      | none => rfl
      | some i =>
          by_cases hret : i = .ret
          · simp [hret]
          · simp only [hret, if_false, decide_false, Bool.false_eq_true]
            cases interpretInstr cpu i with
            | error b => rfl
            | ok cpu' => exact ih cpu'

end X32
end Serval
