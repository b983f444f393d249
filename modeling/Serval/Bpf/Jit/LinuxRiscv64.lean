import Serval.Bpf.Jit.Riscv64
import Serval.Bpf.Program

/-!
# LinuxRiscv64 — the JIT compiler of `bpf/jit/bpf_jit_riscv64.c`

This is the C code that `riscv64.rkt` translates a part of.  It has more of BPF: all operations with an immediate,
64-bit constants, and jumps, which find their targets in the table `offset`.  The entry of an instruction in the table
is the number of words up to its end.

As in `riscv64.rkt`, the words that the code emits stand for the instructions that they encode.  Loads, stores, atomic
additions and 32-bit jumps are left out, as in `Interp`; calls and `BPF_EXIT` are commented out in the source.
-/

namespace Serval
namespace Bpf
namespace Jit
namespace Linux64

open Riscv.Interp
open Rv64 (emitAlu emitZext32)

/-! ## Constants -/

/-- One test of `__ffs`: if the low `k` bits are zero they are skipped. -/
def ffsStep (k : Nat) (s : Nat × BitVec 64) : Nat × BitVec 64 :=
  if s.2 &&& BitVec.ofNat 64 (2 ^ k - 1) = 0 then (s.1 + k, s.2 >>> k) else s

/-- `__ffs`. -/
def ffs (word : BitVec 64) : Nat :=
  (ffsStep 1 (ffsStep 2 (ffsStep 4 (ffsStep 8 (ffsStep 16 (ffsStep 32 (0, word))))))).1

/-- The range of an `n`-bit number. -/
def isInt (n : Nat) (val : Int) : Prop :=
  -2 ^ (n - 1) ≤ val ∧ val < 2 ^ (n - 1)

instance (n : Nat) (val : Int) : Decidable (isInt n val) :=
  inferInstanceAs (Decidable (_ ∧ _))

/-- `is_13b_int`. -/
abbrev is13bInt (val : Int) : Prop := isInt 13 val

/-- `is_21b_int`. -/
abbrev is21bInt (val : Int) : Prop := isInt 21 val

/-- `is_32b_int`. -/
abbrev is32bInt (val : Int) : Prop := isInt 32 val

/-- `upper` of `emit_imm`. -/
def upperBits (val : BitVec 64) : BitVec 64 :=
  (val + 2048).sshiftRight 12

theorem toInt_upperBits (val : BitVec 64) : (upperBits val).toInt = (val.toInt + 2048).bmod (2 ^ 64) / 4096 := by
  rw [upperBits, BitVec.toInt_sshiftRight, BitVec.toInt_add, Int.shiftRight_eq_div_pow]
  rfl

/-- The part of a large constant that `emit_imm` calls itself with is smaller. -/
theorem natAbs_upperBits_lt {val : BitVec 64} (h : ¬ is32bInt val.toInt) (k : Nat) :
    ((upperBits val).sshiftRight k).toInt.natAbs < val.toInt.natAbs := by
  have hval : -(2 : Int) ^ 63 ≤ val.toInt ∧ val.toInt < 2 ^ 63 := ⟨BitVec.le_toInt _, BitVec.toInt_lt⟩
  have hupper := toInt_upperBits val
  have habs : ((upperBits val).sshiftRight k).toInt.natAbs ≤ (upperBits val).toInt.natAbs := by
    rw [BitVec.toInt_sshiftRight, Int.shiftRight_eq_div_pow]
    exact Int.natAbs_ediv_le_natAbs ..
  simp only [is32bInt, isInt] at h
  rw [Int.bmod_def] at hupper
  omega

/-- `emit_imm`. -/
def emitImm (rd : Gpr) (val : BitVec 64) : List Instr :=
  let upper := upperBits val
  let lower := val.setWidth 12
  if is32bInt val.toInt then
    if upper ≠ 0 then
      [rvLui rd (upper.setWidth 20), rvAddiw rd rd lower]
    else
      [rvAddi rd Reg.zero lower]
  else
    let shift := ffs upper
    emitImm rd (upper.sshiftRight shift) ++ [rvSlli rd rd (BitVec.ofNat 12 (shift + 12))] ++
      if lower ≠ 0 then [rvAddi rd rd lower] else []
termination_by val.toInt.natAbs
decreasing_by exact natAbs_upperBits_lt ‹_› _

/-! ## Arithmetic -/

/-- The register form of an operation, with the immediate in `t1`. -/
def emitViaT1 (cls : AluClass) (rd : Gpr) (imm : BitVec 32) (op64 op32 : Gpr → Gpr → Gpr → Instr) : List Instr :=
  emitImm Reg.t1 (imm.signExtend 64) ++ emitAlu cls rd (op64 rd rd Reg.t1) (op32 rd rd Reg.t1) true

/-- `dst = dst OP imm`. -/
def emitAluK (cls : AluClass) (rd : Gpr) (imm : BitVec 32) : AluOp → Option (List Instr)
  | .mov => some (emitImm rd (imm.signExtend 64) ++
      match cls with
      | .alu64 => []
      | .alu => emitZext32 rd)
  | .add => some <|
      if is12bInt imm then emitAlu cls rd (rvAddi rd rd (low12 imm)) (rvAddiw rd rd (low12 imm)) true
      else emitViaT1 cls rd imm rvAdd rvAddw
  | .sub => some <|
      if is12bInt (-imm) then emitAlu cls rd (rvAddi rd rd (low12 (-imm))) (rvAddiw rd rd (low12 (-imm))) true
      else emitViaT1 cls rd imm rvSub rvSubw
  | .and => some <|
      if is12bInt imm then emitAlu cls rd (rvAndi rd rd (low12 imm)) (rvAndi rd rd (low12 imm)) true
      else emitViaT1 cls rd imm rvAnd rvAnd
  | .or => some <|
      if is12bInt imm then emitAlu cls rd (rvOri rd rd (low12 imm)) (rvOri rd rd (low12 imm)) true
      else emitViaT1 cls rd imm rvOr rvOr
  | .xor => some <|
      if is12bInt imm then emitAlu cls rd (rvXori rd rd (low12 imm)) (rvXori rd rd (low12 imm)) true
      else emitViaT1 cls rd imm rvXor rvXor
  | .mul => some (emitViaT1 cls rd imm rvMul rvMulw)
  | .div => some (emitViaT1 cls rd imm rvDivu rvDivuw)
  | .mod => some (emitViaT1 cls rd imm rvRemu rvRemuw)
  | .lsh => some (emitAlu cls rd (rvSlli rd rd (low12 imm)) (rvSlliw rd rd (low12 imm)) false)
  | .rsh => some (emitAlu cls rd (rvSrli rd rd (low12 imm)) (rvSrliw rd rd (low12 imm)) false)
  | .arsh => some (emitAlu cls rd (rvSrai rd rd (low12 imm)) (rvSraiw rd rd (low12 imm)) false)
  | .neg => none

/-! ## Jumps -/

/-- `ctx->offset[k]`; outside the table it is undefined. -/
def offsetAt (offset : List (BitVec 32)) (k : Int) : Option (BitVec 32) :=
  if 0 ≤ k then offset[k.toNat]? else none

/-- `rv_offset`. -/
def rvOffset (offset : List (BitVec 32)) (bpfTo bpfFrom : Int) : Option (BitVec 32) := do
  let last := (← offsetAt offset bpfFrom) - 1
  let target ← offsetAt offset bpfTo
  return (target - last) <<< 2

/-- `rv_beq`, `rv_bne` and so on. -/
def rvBranch (op : Op) (rs1 rs2 : Gpr) (imm12_1 : BitVec 12) : Instr :=
  ⟨op, none, some (.gpr rs1), some rs2, some ⟨12, imm12_1⟩, DEFAULT_SIZE⟩

/-- What is compared, and the branch. -/
def emitBranch (rd rs : Gpr) (imm : BitVec 12) : JmpOp → List Instr × Instr
  | .jeq => ([], rvBranch .beq rd rs imm)
  | .jgt => ([], rvBranch .bltu rs rd imm)
  | .jlt => ([], rvBranch .bltu rd rs imm)
  | .jge => ([], rvBranch .bgeu rd rs imm)
  | .jle => ([], rvBranch .bgeu rs rd imm)
  | .jne => ([], rvBranch .bne rd rs imm)
  | .jsgt => ([], rvBranch .blt rs rd imm)
  | .jslt => ([], rvBranch .blt rd rs imm)
  | .jsge => ([], rvBranch .bge rd rs imm)
  | .jsle => ([], rvBranch .bge rs rd imm)
  | .jset => ([rvAnd Reg.t1 rd rs], rvBranch .bne Reg.t1 Reg.zero imm)

/-- The second operand of a comparison: the code that loads it, and its register. -/
def emitOperand (insn : Insn) : Source → List Instr × Gpr
  | .x => ([], Rv64.regmap insn.src)
  | .k => (emitImm Reg.t1 (insn.imm.signExtend 64), Reg.t1)

/-- `IF (dst COND src) JUMP off`. -/
def emitJmp (offset : List (BitVec 32)) (i : Nat) (op : JmpOp) (source : Source) (insn : Insn) :
    Option (List Instr) := do
  let rvoff ← rvOffset offset (i + insn.off.toInt) i
  if is13bInt rvoff.toInt then
    let operand := emitOperand insn source
    let branch := emitBranch (Rv64.regmap insn.dst) operand.2 (low12 (rvoff.sshiftRight 1)) op
    some (operand.1 ++ branch.1 ++ [branch.2])
  else
    none

/-! ## Instructions -/

/-- `emit_insn`, for an instruction of one slot; `none` is a result of -1.  What `riscv64.rkt` translates without a
change is taken from there, and without the patch. -/
def emitInsn (offset : List (BitVec 32)) (i : Nat) (insn : Insn) : Option (List Instr) :=
  match insn.code with
  | .binary _ _ .x | .neg _ | .endian _ => Rv64.runJit false insn
  | .binary cls op .k => emitAluK cls (Rv64.regmap insn.dst) insn.imm op
  | .ja => do
      let rvoff ← rvOffset offset (i + insn.off.toInt) i
      if is21bInt rvoff.toInt then some [rvJal Reg.zero ((rvoff.sshiftRight 1).extractLsb' 0 20)] else none
  | .jmp op source => emitJmp offset i op source insn

/-- `emit_insn` at a slot of a program.  `BPF_LD_IMM64` reads the slot behind it. -/
def emitSlot (offset : List (BitVec 32)) (prog : List Slot) (i : Nat) : Option (List Instr) :=
  match prog[i]? with
  | some (.insn insn) => emitInsn offset i insn
  | some (.ldImm64 dst _ lower) =>
      match prog[i + 1]? with
      | some (.upper upper) => some (emitImm (Rv64.regmap dst) (upper.signExtend 64 <<< 32 ||| lower.setWidth 64))
      | _ => none
  | _ => none

end Linux64
end Jit
end Bpf
end Serval
