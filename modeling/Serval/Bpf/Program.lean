import Mathlib.Logic.Relation
import Serval.Bpf.Interp

/-!
# Program — whole BPF programs in `serval/bpf.rkt`

`interpret-program` runs a program from its first instruction to `BPF_EXIT`.  Besides integers, registers may hold
pointers: R10 points to the end of the stack, and moves, additions and subtractions make more pointers into it.  A
pointer is not a bitvector, so every other operation on one stops the run.

The arithmetic on integers is that of `Interp`; `interpretCode_ofCpu` says so.
-/

namespace Serval
namespace Bpf

open Serval.Core

/-- What a register holds: an integer, or a pointer into the stack with its offset. -/
inductive Val
  | int (v : BitVec 64)
  | ptr (offset : BitVec 64)
  deriving DecidableEq, Repr

/-- A bitvector operation applied to a register. -/
def Val.toBv : Val → Except Bug (BitVec 64)
  | int v => .ok v
  | ptr _ => .error .notABitvector

/-- `cpu`, with pointers. -/
structure Vm where
  pc : BitVec 64
  regs : Reg → Option Val

namespace Vm

/-- `reg-ref`. -/
def regRef (vm : Vm) (r : Reg) : Except Bug Val :=
  match vm.regs r with
  | some v => .ok v
  | none => .error .uninitializedRegister

/-- `reg-ref`, for an operation on bitvectors. -/
def bvRef (vm : Vm) (r : Reg) : Except Bug (BitVec 64) := do
  (← vm.regRef r).toBv

/-- `reg-set!`. -/
def regSet (vm : Vm) (r : Reg) (v : Val) : Except Bug Vm := do
  bugOn (r = BPF_REG_FP) .readOnlyRegister
  return { vm with regs := Function.update vm.regs r (some v) }

/-- `cpu-next!`. -/
def next (vm : Vm) (size : BitVec 64) : Vm :=
  { vm with pc := size + vm.pc }

end Vm

/-- `evaluate-alu64` at 64 bits.  There is one block only, so the difference of two pointers is always defined. -/
def evaluateAlu64Val (op : AluOp) (v1 v2 : Val) : Except Bug Val :=
  match op, v1, v2 with
  | .add, .ptr offset, v2 => do return .ptr (offset + (← v2.toBv))
  | .sub, .ptr offset, .int v => .ok (.ptr (offset - v))
  | .sub, .ptr offset, .ptr offset' => .ok (.int (offset - offset'))
  | .sub, .int _, .ptr _ => .error .badOperands
  | op, v1, v2 => do return .int (← evaluateAlu64 op (← v1.toBv) (← v2.toBv))

/-- `evaluate-cond` for `BPF_JEQ`: pointers can be compared with each other, and with 0, which they never equal. -/
def evaluateJeq : Val → Val → Except Bug Bool
  | .ptr offset, .ptr offset' => .ok (offset == offset')
  | .ptr _, .int v => do
      bugOn (v ≠ 0) .badOperands
      return false
  | .int v, .int v' => .ok (v == v')
  | .int _, .ptr _ => .error .badOperands

/-- `evaluate-cond`. -/
def evaluateCondVal (op : JmpOp) (v1 v2 : Val) : Except Bug Bool :=
  match op with
  | .jeq => evaluateJeq v1 v2
  | .jne => do return !(← evaluateJeq v1 v2)
  | op => do return evaluateCond op (← v1.toBv) (← v2.toBv)

namespace Vm

/-- The body of `interpret-instr`; the program counter is advanced after it. -/
def interpretCode (vm : Vm) (i : Insn) : Except Bug Vm :=
  match i.code with
  | .neg .alu64 => do vm.regSet i.dst (.int (-(← vm.bvRef i.dst)))
  | .neg .alu => do vm.regSet i.dst (.int ((-(← vm.bvRef i.dst).setWidth 32).setWidth 64))
  | .binary .alu64 .mov .k => vm.regSet i.dst (.int (i.imm.signExtend 64))
  | .binary .alu .mov .k => vm.regSet i.dst (.int (i.imm.setWidth 64))
  | .binary .alu64 .mov .x => do vm.regSet i.dst (← vm.regRef i.src)
  | .binary .alu .mov .x => do vm.regSet i.dst (.int (((← vm.bvRef i.src).setWidth 32).setWidth 64))
  | .binary .alu64 op .k => do
      vm.regSet i.dst (← evaluateAlu64Val op (← vm.regRef i.dst) (.int (i.imm.signExtend 64)))
  | .binary .alu op .k => do
      vm.regSet i.dst (.int (← evaluateAlu32 op (← vm.bvRef i.dst) i.imm))
  | .binary .alu64 op .x =>
      if (op = .sub ∨ op = .xor) ∧ i.dst = i.src then
        vm.regSet i.dst (.int 0)
      else do
        vm.regSet i.dst (← evaluateAlu64Val op (← vm.regRef i.dst) (← vm.regRef i.src))
  | .binary .alu op .x =>
      if (op = .sub ∨ op = .xor) ∧ i.dst = i.src then
        vm.regSet i.dst (.int 0)
      else do
        vm.regSet i.dst (.int (← evaluateAlu32 op (← vm.bvRef i.dst) (← vm.bvRef i.src)))
  | .ja => .ok (vm.next (i.off.signExtend 64))
  | .jmp op source => do
      let v1 ← vm.regRef i.dst
      let v2 ← match source with
        | .k => .ok (.int (i.imm.signExtend 64))
        | .x => vm.regRef i.src
      return if (← evaluateCondVal op v1 v2) then vm.next (i.off.signExtend 64) else vm
  | .endian .fromBe => do vm.regSet i.dst (.int (← swapBytes (← vm.bvRef i.dst) i.imm))
  | .endian .fromLe => do
      let size ← endianSize i.imm
      vm.regSet i.dst (.int (((← vm.bvRef i.dst).setWidth (8 * size)).setWidth 64))

end Vm

/-! ## Registers that hold integers only -/

/-- A machine without pointers. -/
def Vm.ofCpu (cpu : Cpu) : Vm :=
  ⟨cpu.pc, fun r => (cpu.regs r).map .int⟩

section OfCpu

theorem bind_map {α β γ : Type} (x : Except Bug α) (f : α → β) (g : β → Except Bug γ) :
    (x.map f >>= g) = x >>= fun a => g (f a) := by
  cases x with
  | error b => rfl
  | ok a => rfl

theorem map_bind {α β γ : Type} (x : Except Bug α) (f : β → γ) (g : α → Except Bug β) :
    (x >>= g).map f = x >>= fun a => (g a).map f := by
  cases x with
  | error b => rfl
  | ok a => rfl

variable (cpu : Cpu)

theorem regRef_ofCpu (r : Reg) : (Vm.ofCpu cpu).regRef r = (cpu.regRef r).map .int := by
  cases h : cpu.regs r with
  | none => simp [Vm.regRef, Cpu.regRef, Vm.ofCpu, h, Except.map]
  | some v => simp [Vm.regRef, Cpu.regRef, Vm.ofCpu, h, Except.map]

theorem bvRef_ofCpu (r : Reg) : (Vm.ofCpu cpu).bvRef r = cpu.regRef r := by
  rw [Vm.bvRef, regRef_ofCpu]
  cases cpu.regRef r with
  | error b => rfl
  | ok v => rfl

theorem regSet_ofCpu (r : Reg) (v : BitVec 64) :
    (Vm.ofCpu cpu).regSet r (.int v) = (cpu.regSet r v).map Vm.ofCpu := by
  unfold Vm.regSet Cpu.regSet bugOn
  split_ifs with hr
  · rfl
  · have hregs : Function.update (Vm.ofCpu cpu).regs r (some (.int v)) =
        fun r' => (Function.update cpu.regs r (some v) r').map Val.int := by
      funext r'
      by_cases h : r' = r
      · subst h
        simp
      · simp [h, Vm.ofCpu]
    simp only [ok_bind, hregs]
    rfl

theorem evaluateAlu64Val_int (op : AluOp) (v1 v2 : BitVec 64) :
    evaluateAlu64Val op (.int v1) (.int v2) = (evaluateAlu64 op v1 v2).map .int := by
  cases op <;> rfl

theorem evaluateCondVal_int (op : JmpOp) (v1 v2 : BitVec 64) :
    evaluateCondVal op (.int v1) (.int v2) = .ok (evaluateCond op v1 v2) := by
  cases op <;> rfl

/-- On integers the two interpreters are one. -/
theorem interpretCode_ofCpu (i : Insn) : (Vm.ofCpu cpu).interpretCode i = (interpretCode cpu i).map Vm.ofCpu := by
  obtain ⟨code, dst, src, off, imm⟩ := i
  cases code with
  | neg cls =>
      cases cls <;> simp only [Vm.interpretCode, interpretCode, bvRef_ofCpu, regSet_ofCpu, map_bind]
  | endian order =>
      cases order <;> simp only [Vm.interpretCode, interpretCode, bvRef_ofCpu, regSet_ofCpu, map_bind]
  | ja => rfl
  | jmp op source =>
      have hnext : ∀ taken : Bool, (if taken then (Vm.ofCpu cpu).next (off.signExtend 64) else Vm.ofCpu cpu) =
          Vm.ofCpu (if taken then cpu.next (off.signExtend 64) else cpu) := by
        intro taken
        cases taken <;> rfl
      cases source <;>
        simp only [Vm.interpretCode, interpretCode, regRef_ofCpu, bind_map, map_bind, ok_bind, evaluateCondVal_int,
          hnext] <;> rfl
  | binary cls op source =>
      cases cls <;> cases op <;> cases source <;>
        simp only [Vm.interpretCode, interpretCode, regRef_ofCpu, bvRef_ofCpu, regSet_ofCpu, bind_map, map_bind,
          evaluateAlu64Val_int, apply_ite (Except.map Vm.ofCpu)]

end OfCpu

/-! ## Programs -/

/-- One `insn` of a program; `BPF_LD_IMM64` takes two, the second of which has nothing but the upper half. -/
inductive Slot
  | insn (i : Insn)
  | ldImm64 (dst src : Reg) (lower : BitVec 32)
  | upper (imm : BitVec 32)
  | exit
  deriving DecidableEq, Repr

/-- `imm64-dw`. -/
def imm64Dw (lo hi : BitVec 32) : BitVec 64 :=
  lo.setWidth 64 ||| hi.setWidth 64 <<< 32

inductive Outcome
  | exit (result : BitVec 32)
  | next (vm : Vm)

/-- One round of `interpret-program`: the instruction at the program counter. -/
def stepProgram (prog : List Slot) (vm : Vm) : Except Bug Outcome :=
  match prog[vm.pc.toNat]? with
  | none => .error .noInstruction
  | some .exit => do return .exit ((← vm.bvRef 0).setWidth 32)
  | some (.ldImm64 dst _ lower) =>
      match prog[(vm.pc + 1).toNat]? with
      | some (.upper upper) => do return .next (((← vm.regSet dst (.int (imm64Dw lower upper))).next 1).next 1)
      | _ => .error .badInstructionAfterLd64
  | some (.insn i) => do return .next ((← vm.interpretCode i).next 1)
  | some (.upper _) => .error .noSemantics

/-- `interpret-program`, as far as the fuel goes. -/
def Vm.interpretProgram (prog : List Slot) : Nat → Vm → Option (Except Bug (BitVec 32))
  | 0, _ => none
  | n + 1, vm =>
      match stepProgram prog vm with
      | .error b => some (.error b)
      | .ok (.exit result) => some (.ok result)
      | .ok (.next vm') => Vm.interpretProgram prog n vm'

/-- The states that a run goes through. -/
def Visits (prog : List Slot) : Vm → Vm → Prop :=
  Relation.ReflTransGen fun vm vm' => stepProgram prog vm = .ok (.next vm')

end Bpf
end Serval
