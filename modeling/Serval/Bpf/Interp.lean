import Serval.Core.Memory
import Mathlib.Logic.Function.Basic

/-!
# Interp — the BPF interpreter of `serval/bpf.rkt`

Arithmetic, byte swaps and jumps on registers that hold integers.  A register that was never written
holds nothing, and reading it is a bug; R10 is read-only.  Pointers, the memory instructions, calls
and maps, the file descriptor table and the list of visited instructions are not part of the model.
-/

namespace Serval
namespace Bpf

open Serval.Core

/-- BPF registers R0 to R10. -/
abbrev Reg := Fin 11

-- Numerals of the type refer to this instance instead of a proof of their own.
instance neZero_regs : NeZero 11 := ⟨by decide⟩

/-- `BPF_REG_FP`. -/
def BPF_REG_FP : Reg := 10

inductive AluClass
  | alu | alu64
  deriving DecidableEq, Repr

inductive AluOp
  | add | sub | mul | div | mod | or | and | xor | lsh | rsh | arsh | mov | neg
  deriving DecidableEq, Repr

/-- Where the second operand comes from: a register (`BPF_X`) or the immediate (`BPF_K`). -/
inductive Source
  | x | k
  deriving DecidableEq, Repr

inductive Endian
  | fromBe | fromLe
  deriving DecidableEq, Repr

inductive JmpOp
  | jeq | jne | jgt | jlt | jge | jle | jset | jsgt | jslt | jsge | jsle
  deriving DecidableEq, Repr

/-- The code of an instruction: `'(BPF_ALU64 BPF_ADD BPF_X)`, or `'(BPF_ALU64 BPF_NEG)` with one
operand only. -/
inductive Code
  | binary (cls : AluClass) (op : AluOp) (source : Source)
  | neg (cls : AluClass)
  | endian (order : Endian)
  | ja
  | jmp (op : JmpOp) (source : Source)
  deriving DecidableEq, Repr

/-- `insn`. -/
structure Insn where
  code : Code
  dst : Reg
  src : Reg
  off : BitVec 16
  imm : BitVec 32
  deriving DecidableEq, Repr

/-- `cpu`. -/
structure Cpu where
  pc : BitVec 64
  regs : Reg → Option (BitVec 64)

namespace Cpu

/-- `reg-ref`. -/
def regRef (cpu : Cpu) (r : Reg) : Except Bug (BitVec 64) :=
  match cpu.regs r with
  | some v => .ok v
  | none => .error .uninitializedRegister

/-- `reg-set!`. -/
def regSet (cpu : Cpu) (r : Reg) (v : BitVec 64) : Except Bug Cpu := do
  bugOn (r = BPF_REG_FP) .readOnlyRegister
  return { cpu with regs := Function.update cpu.regs r (some v) }

/-- `cpu-next!`. -/
def next (cpu : Cpu) (size : BitVec 64) : Cpu :=
  { cpu with pc := size + cpu.pc }

end Cpu

/-- `evaluate-alu64`, which is used at 64 and at 32 bits. -/
def evaluateAlu64 {w : Nat} (op : AluOp) (v1 v2 : BitVec w) : Except Bug (BitVec w) :=
  match op with
  | .add => .ok (v1 + v2)
  | .sub => .ok (v1 - v2)
  | .mul => .ok (v1 * v2)
  | .div => do
      bugOn (v2 = 0) .divisionByZero
      return v1.smtUDiv v2
  | .mod => do
      bugOn (v2 = 0) .divisionByZero
      return v1 % v2
  | .or => .ok (v1 ||| v2)
  | .and => .ok (v1 &&& v2)
  | .xor => .ok (v1 ^^^ v2)
  | .lsh => .ok (v1 <<< v2)
  | .rsh => .ok (v1 >>> v2)
  | .arsh => .ok (v1.sshiftRight' v2)
  | .mov | .neg => .error .noSuchAluOp

/-- `evaluate-alu32`. -/
def evaluateAlu32 {w : Nat} (op : AluOp) (v1 : BitVec 64) (v2 : BitVec w) :
    Except Bug (BitVec 64) := do
  return (← evaluateAlu64 op (v1.setWidth 32) (v2.setWidth 32)).setWidth 64

/-- `evaluate-cond`, on integers. -/
def evaluateCond (op : JmpOp) (v1 v2 : BitVec 64) : Bool :=
  match op with
  | .jeq => v1 == v2
  | .jne => v1 != v2
  | .jgt => v2.ult v1
  | .jlt => v1.ult v2
  | .jge => v2.ule v1
  | .jle => v1.ule v2
  | .jset => v1 &&& v2 != 0
  | .jsgt => v2.slt v1
  | .jslt => v1.slt v2
  | .jsge => v2.sle v1
  | .jsle => v1.sle v2

/-- `endian-size`. -/
def endianSize (imm : BitVec 32) : Except Bug Nat :=
  if imm = 16 then .ok 2
  else if imm = 32 then .ok 4
  else if imm = 64 then .ok 8
  else .error .badEndianSize

/-- The byte swap of `BPF_END BPF_FROM_BE`. -/
def swapBytes (old : BitVec 64) (imm : BitVec 32) : Except Bug (BitVec 64) :=
  let byte (i : Nat) : BitVec 8 := old.extractLsb' (8 * i) 8
  if imm = 16 then
    .ok ((byte 0 ++ byte 1).setWidth 64)
  else if imm = 32 then
    .ok ((byte 0 ++ byte 1 ++ byte 2 ++ byte 3).setWidth 64)
  else if imm = 64 then
    .ok ((byte 0 ++ byte 1 ++ byte 2 ++ byte 3 ++ byte 4 ++ byte 5 ++ byte 6 ++ byte 7).setWidth 64)
  else
    .error .badEndianSize

/-- The body of `interpret-instr`; the program counter is advanced after it. -/
def interpretCode (cpu : Cpu) (i : Insn) : Except Bug Cpu :=
  match i.code with
  | .neg .alu64 => do cpu.regSet i.dst (-(← cpu.regRef i.dst))
  | .neg .alu => do cpu.regSet i.dst ((-(← cpu.regRef i.dst).setWidth 32).setWidth 64)
  | .binary .alu64 .mov .k => cpu.regSet i.dst (i.imm.signExtend 64)
  | .binary .alu .mov .k => cpu.regSet i.dst (i.imm.setWidth 64)
  | .binary .alu64 .mov .x => do cpu.regSet i.dst (← cpu.regRef i.src)
  | .binary .alu .mov .x => do cpu.regSet i.dst (((← cpu.regRef i.src).setWidth 32).setWidth 64)
  | .binary .alu64 op .k => do
      cpu.regSet i.dst (← evaluateAlu64 op (← cpu.regRef i.dst) (i.imm.signExtend 64))
  | .binary .alu op .k => do
      cpu.regSet i.dst (← evaluateAlu32 op (← cpu.regRef i.dst) i.imm)
  | .binary .alu64 op .x =>
      if (op = .sub ∨ op = .xor) ∧ i.dst = i.src then
        cpu.regSet i.dst 0
      else do
        cpu.regSet i.dst (← evaluateAlu64 op (← cpu.regRef i.dst) (← cpu.regRef i.src))
  | .binary .alu op .x =>
      if (op = .sub ∨ op = .xor) ∧ i.dst = i.src then
        cpu.regSet i.dst 0
      else do
        cpu.regSet i.dst (← evaluateAlu32 op (← cpu.regRef i.dst) (← cpu.regRef i.src))
  | .ja => .ok (cpu.next (i.off.signExtend 64))
  | .jmp op source => do
      let v1 ← cpu.regRef i.dst
      let v2 ← match source with
        | .k => .ok (i.imm.signExtend 64)
        | .x => cpu.regRef i.src
      return if evaluateCond op v1 v2 then cpu.next (i.off.signExtend 64) else cpu
  | .endian .fromBe => do cpu.regSet i.dst (← swapBytes (← cpu.regRef i.dst) i.imm)
  | .endian .fromLe => do
      let size ← endianSize i.imm
      cpu.regSet i.dst (((← cpu.regRef i.dst).setWidth (8 * size)).setWidth 64)

/-- `interpret-instr`. -/
def interpretInstr (cpu : Cpu) (i : Insn) : Except Bug Cpu := do
  return (← interpretCode cpu i).next 1

/-- Instructions one after the other. -/
def interpretInstrs : Cpu → List Insn → Except Bug Cpu
  | cpu, [] => .ok cpu
  | cpu, i :: insns => do interpretInstrs (← interpretInstr cpu i) insns

end Bpf
end Serval
