import Serval.Riscv.Interp
import Serval.Riscv.Isa
import Mathlib.Tactic.Positivity
import Mathlib.Tactic.Ring
import Mathlib.Tactic.Zify

/-!
# Conformance — the interpreter against the unprivileged manual

For every instruction of `Isa`, `interpret-instr` changes the program counter and the registers as the manual says
and leaves CSRs and memory alone.  The one exception is `jalr` with the same register as source and as destination:
the interpreter writes the link address before it reads the source.
-/

namespace Serval
namespace Riscv
namespace Interp

open Serval.Core Isa

variable {imm : BitVec 12}

/-! ## Arithmetic -/

section Values

variable {w : Nat} (x y : BitVec w)

/-- The widths of registers are powers of two, so the mask takes the remainder. -/
theorem toNat_shiftMask (hw : w = 32 ∨ w = 64) : (shiftMask y).toNat = y.toNat % w := by
  rcases hw with rfl | rfl
  · rw [shiftMask, BitVec.toNat_and, Nat.and_comm]
    exact Nat.and_two_pow_sub_one_eq_mod y.toNat 5
  · rw [shiftMask, BitVec.toNat_and, Nat.and_comm]
    exact Nat.and_two_pow_sub_one_eq_mod y.toNat 6

theorem value_add : AluOp.add.value x y = x + y := by
  refine (BitVec.ofInt_add ..).trans ?_
  rw [BitVec.ofInt_toInt, BitVec.ofInt_toInt]

theorem value_sub : AluOp.sub.value x y = x - y := by
  refine BitVec.eq_of_toInt_eq ?_
  exact (BitVec.toInt_ofInt ..).trans (BitVec.toInt_sub ..).symm

theorem value_mul : AluOp.mul.value x y = x * y := by
  refine (BitVec.ofInt_mul ..).trans ?_
  rw [BitVec.ofInt_toInt, BitVec.ofInt_toInt]

theorem value_sll (hw : w = 32 ∨ w = 64) : AluOp.sll.value x y = x <<< shiftMask y := by
  refine (BitVec.ofInt_mul ..).trans ?_
  rw [BitVec.ofInt_toInt, BitVec.shiftLeft_eq', toNat_shiftMask y hw, BitVec.shiftLeft_eq_mul_twoPow]
  congr 1
  refine BitVec.eq_of_toNat_eq ?_
  rw [BitVec.toNat_ofInt, BitVec.toNat_twoPow]
  norm_cast

theorem value_srl (hw : w = 32 ∨ w = 64) : AluOp.srl.value x y = x >>> shiftMask y := by
  refine BitVec.eq_of_toNat_eq ?_
  have hle := Nat.div_le_self x.toNat (2 ^ (y.toNat % w))
  refine (BitVec.toNat_ofNat ..).trans ?_
  rw [BitVec.ushiftRight_eq', toNat_shiftMask y hw, BitVec.toNat_ushiftRight, Nat.shiftRight_eq_div_pow,
    Nat.mod_eq_of_lt (by have := x.isLt; omega)]

theorem value_sra (hw : w = 32 ∨ w = 64) : AluOp.sra.value x y = x.sshiftRight' (shiftMask y) := by
  have hint : (x.sshiftRight' (shiftMask y)).toInt = x.toInt / 2 ^ (y.toNat % w) := by
    rw [BitVec.toInt_sshiftRight', toNat_shiftMask y hw, Int.shiftRight_eq_div_pow]
    norm_cast
  exact (congrArg (BitVec.ofInt w) hint.symm).trans BitVec.ofInt_toInt

/-- Division and remainder by two factors. -/
theorem emod_mul_ediv (z c : Int) {b : Int} (hb : 0 < b) : z % (b * c) / b = z / b % c := by
  have hsplit : z = b * c * (z / b / c) + z % (b * c) := by
    rw [Int.ediv_ediv_of_nonneg (by omega)]
    exact (Int.mul_ediv_add_emod z (b * c)).symm
  have hquotient : z / b = c * (z / b / c) + z % (b * c) / b := by
    conv_lhs => rw [hsplit]
    rw [Int.mul_assoc, Int.add_comm, Int.add_mul_ediv_left _ _ (by omega)]
    omega
  have := Int.mul_ediv_add_emod (z / b) c
  omega

/-- The upper half of an integer that is kept in twice the width. -/
theorem extractLsb'_ofInt (z : Int) : (BitVec.ofInt (2 * w) z).extractLsb' w w = BitVec.ofInt w (z / 2 ^ w) := by
  have hpow : ((2 ^ (2 * w) : Nat) : Int) = 2 ^ w * 2 ^ w := by
    push_cast
    ring
  have hpos : (0 : Int) < 2 ^ w := by positivity
  have hnonneg : 0 ≤ z % (2 ^ w * 2 ^ w) := Int.emod_nonneg _ (by positivity)
  refine BitVec.eq_of_toNat_eq ?_
  rw [BitVec.extractLsb'_toNat, BitVec.toNat_ofInt, BitVec.toNat_ofInt, hpow, Nat.shiftRight_eq_div_pow]
  zify
  rw [Int.toNat_of_nonneg hnonneg, emod_mul_ediv z _ hpos, Int.emod_emod_of_dvd _ dvd_rfl,
    Int.toNat_of_nonneg (Int.emod_nonneg _ hpos.ne')]

theorem mulHighOp_eq (a b : Int) :
    (BitVec.ofInt (2 * w) a * BitVec.ofInt (2 * w) b).extractLsb' w w = BitVec.ofInt w (a * b / 2 ^ w) := by
  rw [← BitVec.ofInt_mul, extractLsb'_ofInt]

theorem setWidth_eq_ofInt {v : Nat} : x.setWidth v = BitVec.ofInt v x.toNat := by
  refine BitVec.eq_of_toNat_eq ?_
  rw [BitVec.toNat_setWidth, BitVec.toNat_ofInt]
  norm_cast

theorem value_mulh : AluOp.mulh.value x y = mulHighOp true true x y :=
  (mulHighOp_eq x.toInt y.toInt).symm

theorem value_mulhu : AluOp.mulhu.value x y = mulHighOp false false x y := by
  simp only [mulHighOp, Bool.false_eq_true, if_false, setWidth_eq_ofInt]
  exact (mulHighOp_eq x.toNat y.toNat).symm

theorem value_mulhsu : AluOp.mulhsu.value x y = mulHighOp true false x y := by
  simp only [mulHighOp, Bool.false_eq_true, if_false, if_true, setWidth_eq_ofInt]
  exact (mulHighOp_eq x.toInt y.toNat).symm

theorem toInt_neg_one (hy : y ≠ 0) (h : y = -1) : y.toInt = -1 := by
  subst h
  have hw : 0 < w := by
    rcases Nat.eq_zero_or_pos w with rfl | hw
    · exact absurd (BitVec.eq_nil _) hy
    · exact hw
  exact (congrArg BitVec.toInt BitVec.neg_one_eq_allOnes).trans (by rw [BitVec.toInt_allOnes, if_pos hw])

theorem value_div : AluOp.div.value x y = if y = 0 then -1 else x.sdiv y := by
  change ite _ _ _ = _
  split_ifs with hy hover
  · rfl
  · -- the negation of the most negative number is itself
    obtain ⟨hx, hy'⟩ := hover
    refine BitVec.eq_of_toInt_eq ?_
    rw [BitVec.toInt_sdiv, toInt_neg_one y hy hy', Int.tdiv_neg, Int.tdiv_one, ← BitVec.toInt_neg, hx,
      BitVec.neg_intMin]
  · refine BitVec.eq_of_toInt_eq ?_
    rw [BitVec.toInt_sdiv, BitVec.toInt_ofInt]

theorem value_rem : AluOp.rem.value x y = if y = 0 then x else x.srem y := by
  change ite _ _ _ = _
  split_ifs with hy hover
  · rfl
  · refine BitVec.eq_of_toInt_eq ?_
    rw [BitVec.toInt_srem, toInt_neg_one y hy hover.2, Int.tmod_neg, Int.tmod_one]
    exact BitVec.toInt_zero
  · rw [← BitVec.toInt_srem, BitVec.ofInt_toInt]

theorem value_divu : AluOp.divu.value x y = x.smtUDiv y := by
  rw [BitVec.smtUDiv_eq]
  refine if_congr Iff.rfl rfl (BitVec.eq_of_toNat_eq ?_)
  rw [BitVec.toNat_ofNat, BitVec.toNat_udiv, Nat.mod_eq_of_lt (Nat.lt_of_le_of_lt (Nat.div_le_self ..) x.isLt)]

theorem value_remu : AluOp.remu.value x y = x % y := by
  change ite _ _ _ = _
  split_ifs with hy
  · rw [hy]
    exact BitVec.umod_zero.symm
  · refine BitVec.eq_of_toNat_eq ?_
    rw [BitVec.toNat_ofNat, BitVec.toNat_umod, Nat.mod_eq_of_lt (Nat.lt_of_le_of_lt (Nat.mod_le ..) x.isLt)]

/-- The operation that `evaluate-binary-op` does for an opcode. -/
def Op.alu : Op → Option AluOp
  | .addi | .addw | .add => some .add
  | .subi | .subw | .sub => some .sub
  | .ori | .or => some .or
  | .andi | .and => some .and
  | .xori | .xor => some .xor
  | .slliw | .slli | .sllw | .sll => some .sll
  | .srliw | .srli | .srlw | .srl => some .srl
  | .sraiw | .srai | .sraw | .sra => some .sra
  | .muli | .mulw | .mul => some .mul
  | .divw | .div => some .div
  | .remw | .rem => some .rem
  | .divuw | .divu => some .divu
  | .remuw | .remu => some .remu
  | _ => none

theorem evaluateBinaryOp_eq (hw : w = 32 ∨ w = 64) (op : Op) :
    evaluateBinaryOp op x y =
      match op.alu with
      | some alu => .ok (alu.value x y)
      | none => .error .noSuchBinop := by
  have hadd := value_add x y
  have hsub := value_sub x y
  have hmul := value_mul x y
  have hsll := value_sll x y hw
  have hsrl := value_srl x y hw
  have hsra := value_sra x y hw
  have hdiv := value_div x y
  have hrem := value_rem x y
  have hdivu := value_divu x y
  have hremu := value_remu x y
  cases op <;> simp only [evaluateBinaryOp, Op.alu, *] <;> rfl

end Values

/-! ## Opcodes -/

/-- The opcode of the interpreter for an operation. -/
def aluOpcode : AluOp → Op
  | .add => .add
  | .sub => .sub
  | .and => .and
  | .or => .or
  | .xor => .xor
  | .sll => .sll
  | .srl => .srl
  | .sra => .sra
  | .mul => .mul
  | .mulh => .mulh
  | .mulhu => .mulhu
  | .mulhsu => .mulhsu
  | .div => .div
  | .divu => .divu
  | .rem => .rem
  | .remu => .remu

def immOpcode : ImmOp → Op
  | .addi => .addi
  | .andi => .andi
  | .ori => .ori
  | .xori => .xori
  | .slli => .slli
  | .srli => .srli
  | .srai => .srai

def wordOpcode : WordOp → Op
  | .addw => .addw
  | .subw => .subw
  | .sllw => .sllw
  | .srlw => .srlw
  | .sraw => .sraw
  | .mulw => .mulw
  | .divw => .divw
  | .divuw => .divuw
  | .remw => .remw
  | .remuw => .remuw

def wordImmOpcode : WordImmOp → Op
  | .addiw => .addiw
  | .slliw => .slliw
  | .srliw => .srliw
  | .sraiw => .sraiw

def branchOpcode : Cond → Op
  | .eq => .beq
  | .ne => .bne
  | .lt => .blt
  | .ge => .bge
  | .ltu => .bltu
  | .geu => .bgeu

/-- An `instr` of the interpreter stands for an instruction: it has the opcode and the operands, and may have
anything in the fields that the instruction does not use. -/
def Instr.Denotes (i : Instr) : Isa.Instr → Prop
  | .lui rd imm => i.op = .lui ∧ i.dst = some rd ∧ i.imm = some ⟨20, imm⟩
  | .auipc rd imm => i.op = .auipc ∧ i.dst = some rd ∧ i.imm = some ⟨20, imm⟩
  | .sltu rd rs1 rs2 => i.op = .sltu ∧ i.dst = some rd ∧ i.src1 = some (.gpr rs1) ∧ i.src2 = some rs2
  | .sltiu rd rs1 imm => i.op = .sltiu ∧ i.dst = some rd ∧ i.src1 = some (.gpr rs1) ∧ i.imm = some ⟨12, imm⟩
  | .alu op rd rs1 rs2 => i.op = aluOpcode op ∧ i.dst = some rd ∧ i.src1 = some (.gpr rs1) ∧ i.src2 = some rs2
  | .aluImm op rd rs1 imm =>
      i.op = immOpcode op ∧ i.dst = some rd ∧ i.src1 = some (.gpr rs1) ∧ i.imm = some ⟨12, imm⟩
  | .aluWord op rd rs1 rs2 =>
      i.op = wordOpcode op ∧ i.dst = some rd ∧ i.src1 = some (.gpr rs1) ∧ i.src2 = some rs2
  | .aluWordImm op rd rs1 imm =>
      i.op = wordImmOpcode op ∧ i.dst = some rd ∧ i.src1 = some (.gpr rs1) ∧ i.imm = some ⟨12, imm⟩
  | .jal rd imm => i.op = .jal ∧ i.dst = some rd ∧ i.imm = some ⟨20, imm⟩
  | .jalr rd rs1 imm => i.op = .jalr ∧ i.dst = some rd ∧ i.src1 = some (.gpr rs1) ∧ i.imm = some ⟨12, imm⟩
  | .branch cond rs1 rs2 imm =>
      i.op = branchOpcode cond ∧ i.src1 = some (.gpr rs1) ∧ i.src2 = some rs2 ∧ i.imm = some ⟨12, imm⟩

/-! ## States -/

section States

variable {xlen : Nat}

/-- The architectural state of a processor. -/
def Cpu.arch (cpu : Cpu xlen) : Isa.State xlen :=
  ⟨cpu.pc, cpu.gprRef⟩

theorem Cpu.arch_gprSet (cpu : Cpu xlen) (rd : Reg) (v : BitVec xlen) :
    (cpu.gprSet rd v).arch = cpu.arch.write rd v := by
  refine State.ext (Cpu.gprSet_pc ..) (funext fun g => ?_)
  refine (Cpu.gprRef_gprSet ..).trans (if_congr ?_ rfl rfl)
  refine and_congr_right ?_
  rintro rfl
  rfl

theorem Cpu.arch_next (cpu : Cpu xlen) (size : Nat) : (cpu.next size).arch = cpu.arch.next size :=
  State.ext (BitVec.add_comm ..) rfl

/-- An instruction ends in a processor with the architectural state `s` and the CSRs and the memory of `cpu`. -/
def EndsIn (cpu : Cpu xlen) (i : Instr) (s : Isa.State xlen) : Prop :=
  ∃ cpu', interpretInstr cpu i = .ok cpu' ∧ cpu'.arch = s ∧ cpu'.csrs = cpu.csrs ∧ cpu'.mregions = cpu.mregions

variable {cpu : Cpu xlen} {i : Instr} {rd rs1 rs2 : Reg}

/-- An instruction that writes one register and goes on to the next. -/
theorem endsIn_of_write {v : BitVec xlen} (h : interpretInstr cpu i = .ok ((cpu.gprSet rd v).next i.size)) :
    EndsIn cpu i ((cpu.arch.write rd v).next i.size) := by
  refine ⟨_, h, ?_, Cpu.gprSet_csrs .., Cpu.gprSet_mregions ..⟩
  rw [Cpu.arch_next, Cpu.arch_gprSet]

/-! ## Instructions -/

theorem interpretInstr_alu (hxlen : xlen = 32 ∨ xlen = 64) {op : AluOp} (h : i.Denotes (.alu op rd rs1 rs2)) :
    interpretInstr cpu i =
      .ok ((cpu.gprSet rd (op.value (cpu.gprRef rs1) (cpu.gprRef rs2))).next i.size) := by
  obtain ⟨opcode, dst, src1, src2, imm, size⟩ := i
  obtain ⟨rfl, rfl, rfl, rfl⟩ := h
  cases op <;>
    simp only [aluOpcode, interpretInstr, Instr.src1Reg, Instr.src2Reg, Instr.dstReg, ok_bind,
      evaluateBinaryOp_eq _ _ hxlen, Op.alu, value_mulh, value_mulhu, value_mulhsu] <;>
    rfl

theorem interpretInstr_aluImm (hxlen : xlen = 32 ∨ xlen = 64) {op : ImmOp} (h : i.Denotes (.aluImm op rd rs1 imm)) :
    interpretInstr cpu i =
      .ok ((cpu.gprSet rd (op.alu.value (cpu.gprRef rs1) (imm.signExtend xlen))).next i.size) := by
  obtain ⟨opcode, dst, src1, src2, imm', size⟩ := i
  obtain ⟨rfl, rfl, rfl, rfl⟩ := h
  have heval := evaluateBinaryOp_eq (cpu.gprRef rs1) (imm.signExtend xlen) hxlen (immOpcode op)
  -- for each opcode the interpreter computes to this bind
  have hrun := congrArg (· >>= fun v => .ok ((cpu.gprSet rd v).next size)) heval
  cases op <;> exact hrun

theorem interpretInstr_aluWord {cpu : Cpu 64} {op : WordOp} (h : i.Denotes (.aluWord op rd rs1 rs2)) :
    interpretInstr cpu i =
      .ok ((cpu.gprSet rd ((op.alu.value ((cpu.gprRef rs1).setWidth 32)
        ((cpu.gprRef rs2).setWidth 32)).signExtend 64)).next i.size) := by
  obtain ⟨opcode, dst, src1, src2, imm, size⟩ := i
  obtain ⟨rfl, rfl, rfl, rfl⟩ := h
  have heval := evaluateBinaryOp_eq ((cpu.gprRef rs1).setWidth 32) ((cpu.gprRef rs2).setWidth 32) (.inl rfl)
    (wordOpcode op)
  have hrun := congrArg (· >>= fun v => .ok ((cpu.gprSet rd (v.signExtend 64)).next size)) heval
  cases op <;> exact hrun

/-- The five low bits of an immediate are all that a shift of 32 bits uses. -/
theorem shift_masked (x y : BitVec 32) :
    AluOp.sll.value x (y &&& 0b11111#32) = AluOp.sll.value x y ∧
      AluOp.srl.value x (y &&& 0b11111#32) = AluOp.srl.value x y ∧
      AluOp.sra.value x (y &&& 0b11111#32) = AluOp.sra.value x y := by
  have hmask : (y &&& 0b11111#32).toNat % 32 = y.toNat % 32 := by
    rw [BitVec.toNat_and]
    exact (congrArg (· % 32) (Nat.and_two_pow_sub_one_eq_mod y.toNat 5)).trans (Nat.mod_mod ..)
  simp only [AluOp.value, hmask, and_self]

theorem interpretInstr_aluWordImm {cpu : Cpu 64} {op : WordImmOp} (h : i.Denotes (.aluWordImm op rd rs1 imm)) :
    interpretInstr cpu i =
      .ok ((cpu.gprSet rd ((op.alu.value ((cpu.gprRef rs1).setWidth 32)
        (imm.signExtend 32)).signExtend 64)).next i.size) := by
  obtain ⟨opcode, dst, src1, src2, imm', size⟩ := i
  obtain ⟨rfl, rfl, rfl, rfl⟩ := h
  have hxlen : bugOn (64 ≠ 64) Bug.wrongXlen = .ok () := rfl
  obtain ⟨hsll, hsrl, hsra⟩ := shift_masked ((cpu.gprRef rs1).setWidth 32) (imm.signExtend 32)
  cases op <;>
    simp only [wordImmOpcode, interpretInstr, Instr.src1Reg, Instr.immOfSize, Instr.dstReg, ok_bind, if_true, hxlen,
      evaluateBinaryOp_eq _ _ (.inl rfl), Op.alu, WordImmOp.alu, value_add, hsll, hsrl, hsra] <;>
    rfl

/-- The upper immediate, in the upper bits and as a multiple of `2 ^ 12`. -/
theorem upper_eq (imm : BitVec 20) : (imm ++ 0#12).signExtend xlen = BitVec.ofInt xlen (imm.toInt * 2 ^ 12) := by
  have htoInt : (imm ++ 0#12).toInt = imm.toInt * 2 ^ 12 := by
    rw [BitVec.toInt_append]
    simp [Int.mul_comm]
  rw [BitVec.signExtend, htoInt]

theorem interpretInstr_lui {imm : BitVec 20} (h : i.Denotes (.lui rd imm)) :
    interpretInstr cpu i = .ok ((cpu.gprSet rd (BitVec.ofInt xlen (imm.toInt * 2 ^ 12))).next i.size) := by
  obtain ⟨opcode, dst, src1, src2, imm', size⟩ := i
  obtain ⟨rfl, rfl, rfl⟩ := h
  rw [← upper_eq]
  rfl

theorem interpretInstr_auipc {imm : BitVec 20} (h : i.Denotes (.auipc rd imm)) :
    interpretInstr cpu i = .ok ((cpu.gprSet rd (cpu.pc + BitVec.ofInt xlen (imm.toInt * 2 ^ 12))).next i.size) := by
  obtain ⟨opcode, dst, src1, src2, imm', size⟩ := i
  obtain ⟨rfl, rfl, rfl⟩ := h
  rw [← upper_eq, BitVec.add_comm]
  rfl

theorem interpretInstr_sltu (h : i.Denotes (.sltu rd rs1 rs2)) :
    interpretInstr cpu i =
      .ok ((cpu.gprSet rd (if (cpu.gprRef rs1).toNat < (cpu.gprRef rs2).toNat then 1 else 0)).next i.size) := by
  obtain ⟨opcode, dst, src1, src2, imm, size⟩ := i
  obtain ⟨rfl, rfl, rfl, rfl⟩ := h
  rfl

theorem interpretInstr_sltiu (h : i.Denotes (.sltiu rd rs1 imm)) :
    interpretInstr cpu i =
      .ok ((cpu.gprSet rd (if (cpu.gprRef rs1).toNat < (imm.signExtend xlen).toNat then 1 else 0)).next i.size) := by
  obtain ⟨opcode, dst, src1, src2, imm', size⟩ := i
  obtain ⟨rfl, rfl, rfl, rfl⟩ := h
  rfl

/-! ## Jumps -/

/-- An offset that counts pairs of bytes. -/
theorem pairs_eq (hxlen : xlen = 32 ∨ xlen = 64) {n : Nat} (imm : BitVec n) :
    imm.signExtend xlen <<< (1 : BitVec xlen) = BitVec.ofInt xlen (imm.toInt * 2) := by
  have hone : (1 : BitVec xlen).toNat = 1 := by
    rcases hxlen with rfl | rfl <;> rfl
  have htwo : BitVec.twoPow xlen 1 = BitVec.ofInt xlen 2 := by
    rcases hxlen with rfl | rfl <;> rfl
  rw [BitVec.shiftLeft_eq', hone, BitVec.shiftLeft_eq_mul_twoPow, htwo, BitVec.signExtend, ← BitVec.ofInt_mul]

/-- A processor that writes a register and goes somewhere. -/
theorem arch_jump (rd : Reg) (v target : BitVec xlen) :
    Cpu.arch { cpu.gprSet rd v with pc := target } = { cpu.arch.write rd v with pc := target } := by
  have hregs := congrArg State.x (Cpu.arch_gprSet cpu rd v)
  exact State.ext rfl hregs

theorem jumpAndLink_arch (hxlen : xlen = 32 ∨ xlen = 64) {n : Nat} (imm : BitVec n) (size : Nat) :
    (jumpAndLink cpu rd ⟨n, imm⟩ size).arch =
      { cpu.arch.write rd (cpu.arch.next size).pc with pc := cpu.pc + .ofInt xlen (imm.toInt * 2) } := by
  rw [jumpAndLink, arch_jump, pairs_eq hxlen, BitVec.add_comm (BitVec.ofNat xlen size)]
  rfl

theorem endsIn_jal (hxlen : xlen = 32 ∨ xlen = 64) {imm : BitVec 20} (h : i.Denotes (.jal rd imm)) :
    EndsIn cpu i (cpu.arch.exec i.size (.jal rd imm)) := by
  obtain ⟨opcode, dst, src1, src2, imm', size⟩ := i
  obtain ⟨rfl, rfl, rfl⟩ := h
  exact ⟨jumpAndLink cpu rd ⟨20, imm⟩ size, rfl, jumpAndLink_arch hxlen imm size, Cpu.gprSet_csrs ..,
    Cpu.gprSet_mregions ..⟩

theorem evaluateBinaryConditional_eq (cond : Cond) (x y : BitVec xlen) :
    evaluateBinaryConditional (branchOpcode cond) x y = .ok (cond.holds x y) := by
  cases cond with
  | eq | ne => simp [branchOpcode, evaluateBinaryConditional, Cond.holds, bne, beq_eq_decide]
  | lt | ge | ltu | geu => rfl

/-- A taken branch links to register 0, which is no register. -/
theorem arch_write_zero (s : Isa.State xlen) (v : BitVec xlen) : s.write 0 v = s := by
  refine State.ext rfl (funext fun g => if_neg ?_)
  rintro ⟨rfl, hne⟩
  exact hne rfl

theorem interpretInstr_branch {cond : Cond} (h : i.Denotes (.branch cond rs1 rs2 imm)) :
    interpretInstr cpu i =
      if cond.holds (cpu.gprRef rs1) (cpu.gprRef rs2) then .ok (jumpAndLink cpu 0 ⟨12, imm⟩ i.size)
      else .ok (cpu.next i.size) := by
  obtain ⟨opcode, dst, src1, src2, imm', size⟩ := i
  obtain ⟨rfl, rfl, rfl, rfl⟩ := h
  have heval := evaluateBinaryConditional_eq cond (cpu.gprRef rs1) (cpu.gprRef rs2)
  have hrun := congrArg (· >>= fun taken =>
    if taken then .ok (jumpAndLink cpu 0 ⟨12, imm⟩ size) else .ok (cpu.next size)) heval
  cases cond <;> exact hrun

theorem endsIn_branch (hxlen : xlen = 32 ∨ xlen = 64) {cond : Cond} (h : i.Denotes (.branch cond rs1 rs2 imm)) :
    EndsIn cpu i (cpu.arch.exec i.size (.branch cond rs1 rs2 imm)) := by
  have hrun : interpretInstr cpu i = _ := interpretInstr_branch h
  have hread : cpu.arch.x = cpu.gprRef := rfl
  rw [State.exec, hread]
  split_ifs at hrun ⊢ with htaken
  · refine ⟨_, hrun, ?_, Cpu.gprSet_csrs .., Cpu.gprSet_mregions ..⟩
    rw [jumpAndLink_arch hxlen, arch_write_zero]
    rfl
  · exact ⟨_, hrun, Cpu.arch_next .., rfl, rfl⟩

/-- `jalr` with one register as source and destination goes where the link address leads; that has to be where the
register leads. -/
def LinkKeepsTarget (cpu : Cpu xlen) (size : Nat) : Isa.Instr → Prop
  | .jalr rd rs1 imm => rd = rs1 → rd ≠ 0 →
      (cpu.pc + BitVec.ofNat xlen size + imm.signExtend xlen) &&& ~~~1 =
        (cpu.gprRef rs1 + imm.signExtend xlen) &&& ~~~1
  | _ => True

theorem endsIn_jalr_iff (h : i.Denotes (.jalr rd rs1 imm)) :
    EndsIn cpu i (cpu.arch.exec i.size (.jalr rd rs1 imm)) ↔ LinkKeepsTarget cpu i.size (.jalr rd rs1 imm) := by
  obtain ⟨opcode, dst, src1, src2, imm', size⟩ := i
  obtain ⟨rfl, rfl, rfl, rfl⟩ := h
  let link := BitVec.ofNat xlen size + cpu.pc
  let target := ~~~(1 : BitVec xlen) &&& ((cpu.gprSet rd link).gprRef rs1 + imm.signExtend xlen)
  have hrun : interpretInstr cpu ⟨.jalr, some rd, some (.gpr rs1), src2, some ⟨12, imm⟩, size⟩ =
      .ok { cpu.gprSet rd link with pc := target } := rfl
  have hlink : (cpu.arch.next size).pc = link := BitVec.add_comm ..
  have hpc : EndsIn cpu ⟨.jalr, some rd, some (.gpr rs1), src2, some ⟨12, imm⟩, size⟩
        (cpu.arch.exec size (.jalr rd rs1 imm)) ↔
      target = (cpu.gprRef rs1 + imm.signExtend xlen) &&& ~~~1 := by
    constructor
    · rintro ⟨cpu', hcpu', harch, -, -⟩
      cases hrun.symm.trans hcpu'
      exact congrArg State.pc harch
    · intro htarget
      refine ⟨_, hrun, ?_, Cpu.gprSet_csrs .., Cpu.gprSet_mregions ..⟩
      rw [arch_jump, State.exec, hlink, htarget]
      rfl
  rw [hpc]
  simp only [target, Cpu.gprRef_gprSet, LinkKeepsTarget]
  rw [BitVec.and_comm (~~~1)]
  by_cases hsame : rs1 = rd ∧ rd ≠ 0
  · obtain ⟨rfl, hne⟩ := hsame
    simp [hne, link, BitVec.add_comm (BitVec.ofNat xlen size)]
  · rw [if_neg hsame]
    refine iff_of_true rfl fun heq hne => ?_
    exact absurd ⟨heq.symm, hne⟩ hsame

/-! ## Conformance -/

/-- The interpreter conforms to the manual on every register and control-transfer instruction, for any operands, any
size and any processor, exactly unless `jalr` has one register as source and destination and the link address leads
elsewhere than that register. -/
theorem interpretInstr_conforms_iff (hxlen : xlen = 32 ∨ xlen = 64) (cpu : Cpu xlen) (i : Instr) (u : Isa.Instr)
    (h : i.Denotes u) (hword : u.wordForm = true → xlen = 64) :
    EndsIn cpu i (cpu.arch.exec i.size u) ↔ LinkKeepsTarget cpu i.size u := by
  cases u with
  | jalr rd rs1 imm => exact endsIn_jalr_iff h
  | lui rd imm => exact iff_of_true (endsIn_of_write (interpretInstr_lui h)) trivial
  | auipc rd imm => exact iff_of_true (endsIn_of_write (interpretInstr_auipc h)) trivial
  | sltu rd rs1 rs2 => exact iff_of_true (endsIn_of_write (interpretInstr_sltu h)) trivial
  | sltiu rd rs1 imm => exact iff_of_true (endsIn_of_write (interpretInstr_sltiu h)) trivial
  | alu op rd rs1 rs2 => exact iff_of_true (endsIn_of_write (interpretInstr_alu hxlen h)) trivial
  | aluImm op rd rs1 imm => exact iff_of_true (endsIn_of_write (interpretInstr_aluImm hxlen h)) trivial
  | aluWord op rd rs1 rs2 =>
      obtain rfl := hword rfl
      exact iff_of_true (endsIn_of_write (interpretInstr_aluWord h)) trivial
  | aluWordImm op rd rs1 imm =>
      obtain rfl := hword rfl
      exact iff_of_true (endsIn_of_write (interpretInstr_aluWordImm h)) trivial
  | jal rd imm => exact iff_of_true (endsIn_jal hxlen h) trivial
  | branch cond rs1 rs2 imm => exact iff_of_true (endsIn_branch hxlen h) trivial

end States

/-! ## A far call -/

/-- A processor at `0x80000004` whose `ra` has been loaded by `auipc` with `0x80001000`. -/
def farCaller : Cpu 64 where
  pc := 0x80000004
  gprs := fun g => if g = 1 then 0x80001000 else 0
  csrs := fun _ => 0
  mregions := []

/-- `jalr t0, 8(ra)`: the target comes from `ra`, and `t0` gets the link address. -/
theorem interpretInstr_conforms_iff_farCaller :
    EndsIn farCaller ⟨.jalr, some 5, some (.gpr 1), none, some ⟨12, 8⟩, 4⟩
      (farCaller.arch.exec 4 (.jalr 5 1 8)) :=
  (interpretInstr_conforms_iff (.inr rfl) farCaller _ (.jalr 5 1 8) ⟨rfl, rfl, rfl, rfl⟩ (by decide)).mpr
    (fun h => absurd h (by decide))

/-- `jalr ra, 8(ra)`, as in a far call: the manual goes to `0x80001008`, the interpreter to the link address plus 8. -/
theorem jalr_reads_its_own_link :
    Instr.Denotes ⟨.jalr, some 1, some (.gpr 1), none, some ⟨12, 8⟩, 4⟩ (.jalr 1 1 8) ∧
      (interpretInstr farCaller ⟨.jalr, some 1, some (.gpr 1), none, some ⟨12, 8⟩, 4⟩).map Cpu.pc =
        .ok 0x80000010 ∧
      (farCaller.arch.exec 4 (.jalr 1 1 8)).pc = 0x80001008 :=
  ⟨⟨rfl, rfl, rfl, rfl⟩, rfl, rfl⟩

end Interp
end Riscv
end Serval
