import Serval.Riscv.Interp

/-!
# RiscvCommon — the instruction builders of `bpf/jit/riscv-common.rkt`

Every instruction is four bytes long.  The source passes immediates as integers or as 32-bit vectors
and cuts them to the width of the field; here the builder takes the field.

Beside each builder stands the rule that runs it: all but the jumps retire to the next instruction
with one register written.
-/

namespace Serval
namespace Bpf
namespace Jit

open Serval.Core Riscv.Interp

abbrev Gpr := Riscv.Interp.Reg

def DEFAULT_SIZE : Nat := 4

section Builders

def rvRInsn (rs2 rs1 rd : Gpr) (opcode : Op) : Instr :=
  ⟨opcode, some rd, some (.gpr rs1), some rs2, none, DEFAULT_SIZE⟩

def rvIInsn (imm : BitVec 12) (rs1 rd : Gpr) (opcode : Op) : Instr :=
  ⟨opcode, some rd, some (.gpr rs1), none, some ⟨12, imm⟩, DEFAULT_SIZE⟩

def rvUInsn (imm : BitVec 20) (rd : Gpr) (opcode : Op) : Instr :=
  ⟨opcode, some rd, none, none, some ⟨20, imm⟩, DEFAULT_SIZE⟩

def rvSInsn (imm : BitVec 12) (rs2 rs1 : Gpr) (opcode : Op) : Instr :=
  ⟨opcode, none, some (.gpr rs1), some rs2, some ⟨12, imm⟩, DEFAULT_SIZE⟩

def rvBlt (rs1 rs2 : Gpr) (offset : BitVec 12) : Instr :=
  ⟨.blt, none, some (.gpr rs1), some rs2, some ⟨12, offset⟩, 4⟩

def rvJal (dst : Gpr) (offset : BitVec 20) : Instr :=
  ⟨.jal, some dst, none, none, some ⟨20, offset⟩, 4⟩

def rvSltu (rd rs1 rs2 : Gpr) : Instr := rvRInsn rs2 rs1 rd .sltu
def rvAdd (rd rs1 rs2 : Gpr) : Instr := rvRInsn rs2 rs1 rd .add
def rvSub (rd rs1 rs2 : Gpr) : Instr := rvRInsn rs2 rs1 rd .sub
def rvAnd (rd rs1 rs2 : Gpr) : Instr := rvRInsn rs2 rs1 rd .and
def rvOr (rd rs1 rs2 : Gpr) : Instr := rvRInsn rs2 rs1 rd .or
def rvXor (rd rs1 rs2 : Gpr) : Instr := rvRInsn rs2 rs1 rd .xor
def rvMulhu (rd rs1 rs2 : Gpr) : Instr := rvRInsn rs2 rs1 rd .mulhu
def rvMul (rd rs1 rs2 : Gpr) : Instr := rvRInsn rs2 rs1 rd .mul
def rvDivu (rd rs1 rs2 : Gpr) : Instr := rvRInsn rs2 rs1 rd .divu
def rvRemu (rd rs1 rs2 : Gpr) : Instr := rvRInsn rs2 rs1 rd .remu
def rvSll (rd rs1 rs2 : Gpr) : Instr := rvRInsn rs2 rs1 rd .sll
def rvSrl (rd rs1 rs2 : Gpr) : Instr := rvRInsn rs2 rs1 rd .srl
def rvSra (rd rs1 rs2 : Gpr) : Instr := rvRInsn rs2 rs1 rd .sra

def rvAddi (rd rs1 : Gpr) (imm : BitVec 12) : Instr := rvIInsn imm rs1 rd .addi
def rvSlli (rd rs1 : Gpr) (imm : BitVec 12) : Instr := rvIInsn imm rs1 rd .slli
def rvAndi (rd rs1 : Gpr) (imm : BitVec 12) : Instr := rvIInsn imm rs1 rd .andi
def rvOri (rd rs1 : Gpr) (imm : BitVec 12) : Instr := rvIInsn imm rs1 rd .ori
def rvXori (rd rs1 : Gpr) (imm : BitVec 12) : Instr := rvIInsn imm rs1 rd .xori
def rvSrli (rd rs1 : Gpr) (imm : BitVec 12) : Instr := rvIInsn imm rs1 rd .srli
def rvSrai (rd rs1 : Gpr) (imm : BitVec 12) : Instr := rvIInsn imm rs1 rd .srai

def rvAddw (rd rs1 rs2 : Gpr) : Instr := rvRInsn rs2 rs1 rd .addw
def rvSubw (rd rs1 rs2 : Gpr) : Instr := rvRInsn rs2 rs1 rd .subw
def rvMulw (rd rs1 rs2 : Gpr) : Instr := rvRInsn rs2 rs1 rd .mulw
def rvDivuw (rd rs1 rs2 : Gpr) : Instr := rvRInsn rs2 rs1 rd .divuw
def rvRemuw (rd rs1 rs2 : Gpr) : Instr := rvRInsn rs2 rs1 rd .remuw
def rvSllw (rd rs1 rs2 : Gpr) : Instr := rvRInsn rs2 rs1 rd .sllw
def rvSrlw (rd rs1 rs2 : Gpr) : Instr := rvRInsn rs2 rs1 rd .srlw
def rvSraw (rd rs1 rs2 : Gpr) : Instr := rvRInsn rs2 rs1 rd .sraw

def rvAddiw (rd rs1 : Gpr) (imm : BitVec 12) : Instr := rvIInsn imm rs1 rd .addiw
def rvSlliw (rd rs1 : Gpr) (imm : BitVec 12) : Instr := rvIInsn imm rs1 rd .slliw
def rvSrliw (rd rs1 : Gpr) (imm : BitVec 12) : Instr := rvIInsn imm rs1 rd .srliw
def rvSraiw (rd rs1 : Gpr) (imm : BitVec 12) : Instr := rvIInsn imm rs1 rd .sraiw

def rvLui (rd : Gpr) (imm : BitVec 20) : Instr := rvUInsn imm rd .lui
def rvLw (rd : Gpr) (imm : BitVec 12) (rs1 : Gpr) : Instr := rvIInsn imm rs1 rd .lw
def rvSw (rs1 : Gpr) (imm : BitVec 12) (rs2 : Gpr) : Instr := rvSInsn imm rs2 rs1 .sw

/-- `is_12b_int`. -/
def is12bInt (imm : BitVec 32) : Prop :=
  (BitVec.ofInt 32 (-0x800)).sle imm ∧ imm.slt 0x800

instance (imm : BitVec 32) : Decidable (is12bInt imm) :=
  inferInstanceAs (Decidable (_ ∧ _))

/-- The low 12 bits of a 32-bit immediate, `extract 11 0`. -/
def low12 (imm : BitVec 32) : BitVec 12 :=
  imm.extractLsb' 0 12

end Builders

/-! ## Immediates -/

theorem toNat_low12 (val : BitVec 32) : (low12 val).toNat = val.toNat % 4096 := by
  simp [low12]

theorem toNat_signExtend12 (x : BitVec 12) :
    (x.signExtend 32).toNat = if x.toNat < 2048 then x.toNat else x.toNat + (2 ^ 32 - 4096) := by
  have hx := x.isLt
  rw [BitVec.toNat_signExtend, BitVec.toNat_setWidth, BitVec.msb_eq_decide]
  by_cases h : x.toNat < 2048
  · have h' : ¬ 2048 ≤ x.toNat := by omega
    simp [h, h']
    omega
  · have h' : 2048 ≤ x.toNat := by omega
    simp [h, h']
    omega

theorem toNat_upper (val : BitVec 32) :
    ((((val + (1#32 <<< 11)).sshiftRight 12).extractLsb' 0 20 ++ 0#12).signExtend 32).toNat =
      (val.toNat + 2048) % 2 ^ 32 / 4096 * 4096 := by
  have hextract : ((val + (1#32 <<< 11)).sshiftRight 12).extractLsb' 0 20 =
      (val + 2048#32).extractLsb' 12 20 := by
    apply BitVec.eq_of_getLsbD_eq
    intro i hi
    have hlt : 12 + i < 32 := by omega
    have hnot : ¬ 32 ≤ i := by omega
    simp [BitVec.getLsbD_sshiftRight, hlt, hi, hnot]
  rw [hextract, BitVec.signExtend_eq, BitVec.toNat_append, BitVec.extractLsb'_toNat,
    BitVec.toNat_add, Nat.shiftRight_eq_div_pow, Nat.shiftLeft_eq]
  simp
  omega

theorem upper_add_lower (val : BitVec 32) :
    ((((val + (1#32 <<< 11)).sshiftRight 12).extractLsb' 0 20 ++ 0#12).signExtend 32) +
      (low12 val).signExtend 32 = val := by
  apply BitVec.eq_of_toNat_eq
  have hval := val.isLt
  rw [BitVec.toNat_add, toNat_upper, toNat_signExtend12, toNat_low12]
  split <;> omega

theorem signExtend_low12 {imm : BitVec 32} (h : is12bInt imm) : (low12 imm).signExtend 32 = imm := by
  have himm := imm.isLt
  have hrange : imm.toNat < 2048 ∨ 2 ^ 32 - 2048 ≤ imm.toNat := by
    rcases h with ⟨hge, hlt⟩
    rw [BitVec.sle_iff_toInt_le] at hge
    rw [BitVec.slt_iff_toInt_lt] at hlt
    rw [show (BitVec.ofInt 32 (-0x800)).toInt = -0x800 from by decide, BitVec.toInt_eq_toNat_cond] at hge
    rw [show (0x800 : BitVec 32).toInt = 0x800 from by decide, BitVec.toInt_eq_toNat_cond] at hlt
    omega
  apply BitVec.eq_of_toNat_eq
  rw [toNat_signExtend12, toNat_low12]
  split <;> omega

theorem low12_and (val : BitVec 32) : low12 (val &&& 0xfff#32) = low12 val := by
  apply BitVec.eq_of_toNat_eq
  rw [toNat_low12, toNat_low12, BitVec.toNat_and]
  have hmod : val.toNat &&& (0xfff#32).toNat = val.toNat % 4096 := Nat.and_two_pow_sub_one_eq_mod _ 12
  rw [hmod, Nat.mod_mod]

/-! ## Shift amounts -/

theorem shiftMask_of_lt {xlen k : Nat} (hxlen : xlen = 2 ^ k) {y : BitVec xlen} (h : y.toNat < xlen) :
    shiftMask y = y := by
  have hmask : (BitVec.ofNat xlen (xlen - 1)).toNat = 2 ^ k - 1 := by
    rw [BitVec.toNat_ofNat, Nat.mod_eq_of_lt, hxlen]
    exact Nat.lt_of_le_of_lt (Nat.sub_le _ _) Nat.lt_two_pow_self
  apply BitVec.eq_of_toNat_eq
  rw [shiftMask, BitVec.and_comm, BitVec.toNat_and, hmask, Nat.and_two_pow_sub_one_eq_mod,
    Nat.mod_eq_of_lt (by omega)]

theorem shiftMask32_of_lt {y : BitVec 32} (h : y < 32) : shiftMask y = y :=
  shiftMask_of_lt (k := 5) rfl h

theorem shiftMask64_of_lt {y : BitVec 64} (h : y < 64) : shiftMask y = y :=
  shiftMask_of_lt (k := 6) rfl h

/-! ## Running the instructions -/

section Rules

variable {xlen : Nat}

/-- The state after an instruction that writes a register and goes on. -/
def retire (cpu : Riscv.Interp.Cpu xlen) (rd : Gpr) (v : BitVec xlen) : Riscv.Interp.Cpu xlen :=
  (cpu.gprSet rd v).next DEFAULT_SIZE

variable (cpu : Riscv.Interp.Cpu xlen) (rd rs1 rs2 : Gpr) (v : BitVec xlen)

theorem retire_gprRef (g : Gpr) :
    (retire cpu rd v).gprRef g = if g = rd ∧ rd ≠ 0 then v else cpu.gprRef g := by
  simp [retire, Cpu.gprRef_gprSet]

@[simp] theorem retire_mregions : (retire cpu rd v).mregions = cpu.mregions := by
  simp [retire]

variable (code : List Instr) (Q : Riscv.Interp.Cpu xlen → Prop)

/-- The rule for an instruction that retires. -/
theorem line_retire {cpu : Riscv.Interp.Cpu xlen} {i : Instr} {rd : Gpr} {v : BitVec xlen}
    (hexec : Riscv.Interp.interpretInstr cpu i = .ok (retire cpu rd v)) (hgoes : (machine xlen).halts i = false)
    (hsize : i.size = DEFAULT_SIZE) (code : List Instr) (Q : Riscv.Interp.Cpu xlen → Prop) :
    (machine xlen).line (i :: code) Q cpu ↔ (machine xlen).line code Q (retire cpu rd v) := by
  refine (machine xlen).line_cons hexec hgoes ?_ code Q
  simp [machine, retire, hsize, BitVec.add_comm]

@[simp] theorem line_rvSltu : (machine xlen).line (rvSltu rd rs1 rs2 :: code) Q cpu ↔
    (machine xlen).line code Q (retire cpu rd (if cpu.gprRef rs1 < cpu.gprRef rs2 then 1 else 0)) :=
  line_retire rfl rfl rfl code Q

@[simp] theorem line_rvAdd : (machine xlen).line (rvAdd rd rs1 rs2 :: code) Q cpu ↔
    (machine xlen).line code Q (retire cpu rd (cpu.gprRef rs1 + cpu.gprRef rs2)) :=
  line_retire rfl rfl rfl code Q

@[simp] theorem line_rvSub : (machine xlen).line (rvSub rd rs1 rs2 :: code) Q cpu ↔
    (machine xlen).line code Q (retire cpu rd (cpu.gprRef rs1 - cpu.gprRef rs2)) :=
  line_retire rfl rfl rfl code Q

@[simp] theorem line_rvAnd : (machine xlen).line (rvAnd rd rs1 rs2 :: code) Q cpu ↔
    (machine xlen).line code Q (retire cpu rd (cpu.gprRef rs1 &&& cpu.gprRef rs2)) :=
  line_retire rfl rfl rfl code Q

@[simp] theorem line_rvOr : (machine xlen).line (rvOr rd rs1 rs2 :: code) Q cpu ↔
    (machine xlen).line code Q (retire cpu rd (cpu.gprRef rs1 ||| cpu.gprRef rs2)) :=
  line_retire rfl rfl rfl code Q

@[simp] theorem line_rvXor : (machine xlen).line (rvXor rd rs1 rs2 :: code) Q cpu ↔
    (machine xlen).line code Q (retire cpu rd (cpu.gprRef rs1 ^^^ cpu.gprRef rs2)) :=
  line_retire rfl rfl rfl code Q

@[simp] theorem line_rvMulhu : (machine xlen).line (rvMulhu rd rs1 rs2 :: code) Q cpu ↔
    (machine xlen).line code Q
      (retire cpu rd (mulHighOp false false (cpu.gprRef rs1) (cpu.gprRef rs2))) :=
  line_retire rfl rfl rfl code Q

@[simp] theorem line_rvMul : (machine xlen).line (rvMul rd rs1 rs2 :: code) Q cpu ↔
    (machine xlen).line code Q (retire cpu rd (cpu.gprRef rs1 * cpu.gprRef rs2)) :=
  line_retire rfl rfl rfl code Q

@[simp] theorem line_rvDivu : (machine xlen).line (rvDivu rd rs1 rs2 :: code) Q cpu ↔
    (machine xlen).line code Q (retire cpu rd ((cpu.gprRef rs1).smtUDiv (cpu.gprRef rs2))) :=
  line_retire rfl rfl rfl code Q

@[simp] theorem line_rvRemu : (machine xlen).line (rvRemu rd rs1 rs2 :: code) Q cpu ↔
    (machine xlen).line code Q (retire cpu rd (cpu.gprRef rs1 % cpu.gprRef rs2)) :=
  line_retire rfl rfl rfl code Q

@[simp] theorem line_rvSll : (machine xlen).line (rvSll rd rs1 rs2 :: code) Q cpu ↔
    (machine xlen).line code Q (retire cpu rd (cpu.gprRef rs1 <<< shiftMask (cpu.gprRef rs2))) :=
  line_retire rfl rfl rfl code Q

@[simp] theorem line_rvSrl : (machine xlen).line (rvSrl rd rs1 rs2 :: code) Q cpu ↔
    (machine xlen).line code Q (retire cpu rd (cpu.gprRef rs1 >>> shiftMask (cpu.gprRef rs2))) :=
  line_retire rfl rfl rfl code Q

@[simp] theorem line_rvSra : (machine xlen).line (rvSra rd rs1 rs2 :: code) Q cpu ↔
    (machine xlen).line code Q
      (retire cpu rd ((cpu.gprRef rs1).sshiftRight' (shiftMask (cpu.gprRef rs2)))) :=
  line_retire rfl rfl rfl code Q

variable (imm : BitVec 12)

@[simp] theorem line_rvAddi : (machine xlen).line (rvAddi rd rs1 imm :: code) Q cpu ↔
    (machine xlen).line code Q (retire cpu rd (cpu.gprRef rs1 + imm.signExtend xlen)) :=
  line_retire rfl rfl rfl code Q

@[simp] theorem line_rvSlli : (machine xlen).line (rvSlli rd rs1 imm :: code) Q cpu ↔
    (machine xlen).line code Q
      (retire cpu rd (cpu.gprRef rs1 <<< shiftMask (imm.signExtend xlen))) :=
  line_retire rfl rfl rfl code Q

@[simp] theorem line_rvAndi : (machine xlen).line (rvAndi rd rs1 imm :: code) Q cpu ↔
    (machine xlen).line code Q (retire cpu rd (cpu.gprRef rs1 &&& imm.signExtend xlen)) :=
  line_retire rfl rfl rfl code Q

@[simp] theorem line_rvOri : (machine xlen).line (rvOri rd rs1 imm :: code) Q cpu ↔
    (machine xlen).line code Q (retire cpu rd (cpu.gprRef rs1 ||| imm.signExtend xlen)) :=
  line_retire rfl rfl rfl code Q

@[simp] theorem line_rvXori : (machine xlen).line (rvXori rd rs1 imm :: code) Q cpu ↔
    (machine xlen).line code Q (retire cpu rd (cpu.gprRef rs1 ^^^ imm.signExtend xlen)) :=
  line_retire rfl rfl rfl code Q

@[simp] theorem line_rvSrli : (machine xlen).line (rvSrli rd rs1 imm :: code) Q cpu ↔
    (machine xlen).line code Q
      (retire cpu rd (cpu.gprRef rs1 >>> shiftMask (imm.signExtend xlen))) :=
  line_retire rfl rfl rfl code Q

@[simp] theorem line_rvSrai : (machine xlen).line (rvSrai rd rs1 imm :: code) Q cpu ↔
    (machine xlen).line code Q
      (retire cpu rd ((cpu.gprRef rs1).sshiftRight' (shiftMask (imm.signExtend xlen)))) :=
  line_retire rfl rfl rfl code Q

@[simp] theorem line_rvLui (upper : BitVec 20) :
    (machine xlen).line (rvLui rd upper :: code) Q cpu ↔
      (machine xlen).line code Q (retire cpu rd ((upper ++ 0#12).signExtend xlen)) :=
  line_retire rfl rfl rfl code Q

/-- The state after a jump that leaves the registers alone. -/
def goto (cpu : Riscv.Interp.Cpu xlen) (pc : BitVec xlen) : Riscv.Interp.Cpu xlen :=
  { cpu with pc := pc }

@[simp] theorem goto_gprRef (pc : BitVec xlen) (g : Gpr) : (goto cpu pc).gprRef g = cpu.gprRef g := rfl

@[simp] theorem goto_mregions (pc : BitVec xlen) : (goto cpu pc).mregions = cpu.mregions := rfl

variable {cpu rs1 rs2 code Q} {c : List Instr}

/-- A branch that is taken, over the code `c`. -/
theorem wp_rvBlt_taken {offset : BitVec 12} (h : (cpu.gprRef rs1).slt (cpu.gprRef rs2) = true)
    (hoffset : offset.signExtend xlen <<< (1 : BitVec xlen) =
      BitVec.ofNat xlen (4 + (machine xlen).length c))
    (hrest : ∀ pc, (machine xlen).wp code Q (goto cpu pc)) :
    (machine xlen).wp (rvBlt rs1 rs2 offset :: (c ++ code)) Q cpu := by
  have hexec : Riscv.Interp.interpretInstr cpu (rvBlt rs1 rs2 offset) =
      .ok (goto cpu (cpu.pc + offset.signExtend xlen <<< (1 : BitVec xlen))) := by
    show (do if ← evaluateBinaryConditional .blt (cpu.gprRef rs1) (cpu.gprRef rs2) then
        return jumpAndLink cpu 0 ⟨12, offset⟩ 4 else return cpu.next 4) = _
    simp only [evaluateBinaryConditional, h, ok_bind, if_true]
    rfl
  refine CodeMachine.wp_jump rfl hexec ?_ (hrest _)
  show cpu.pc + _ = cpu.pc + _
  rw [hoffset]
  rfl

/-- A branch that is not taken. -/
theorem wp_rvBlt_next {offset : BitVec 12} (h : (cpu.gprRef rs1).slt (cpu.gprRef rs2) = false)
    (hrest : ∀ pc, (machine xlen).wp code Q (goto cpu pc)) :
    (machine xlen).wp (rvBlt rs1 rs2 offset :: code) Q cpu := by
  have hexec : Riscv.Interp.interpretInstr cpu (rvBlt rs1 rs2 offset) = .ok (cpu.next 4) := by
    show (do if ← evaluateBinaryConditional .blt (cpu.gprRef rs1) (cpu.gprRef rs2) then
        return jumpAndLink cpu 0 ⟨12, offset⟩ 4 else return cpu.next 4) = _
    simp only [evaluateBinaryConditional, h, ok_bind, if_false, Bool.false_eq_true]
    rfl
  refine CodeMachine.wp_cons rfl hexec ?_ (hrest _)
  exact BitVec.add_comm ..

/-- A jump over the code `c` that drops the link. -/
theorem wp_rvJal {offset : BitVec 20}
    (hoffset : offset.signExtend xlen <<< (1 : BitVec xlen) =
      BitVec.ofNat xlen (4 + (machine xlen).length c))
    (hrest : ∀ pc, (machine xlen).wp code Q (goto cpu pc)) :
    (machine xlen).wp (rvJal 0 offset :: (c ++ code)) Q cpu := by
  have hexec : Riscv.Interp.interpretInstr cpu (rvJal 0 offset) =
      .ok (goto cpu (cpu.pc + offset.signExtend xlen <<< (1 : BitVec xlen))) := rfl
  refine CodeMachine.wp_jump rfl hexec ?_ (hrest _)
  show cpu.pc + _ = cpu.pc + _
  rw [hoffset]
  rfl

/-- The code changes nothing but the listed registers. -/
def OnlyWrites (gs : List Gpr) (code : List Instr) : Prop :=
  ∀ i ∈ code, i.op.hasEffect = false ∧ ∀ d ∈ i.dst, d ≠ 0 → d ∈ gs

@[simp] theorem onlyWrites_nil (gs : List Gpr) : OnlyWrites gs [] := by
  simp [OnlyWrites]

@[simp] theorem onlyWrites_cons {gs : List Gpr} {i : Instr} {code : List Instr} :
    OnlyWrites gs (i :: code) ↔
      (i.op.hasEffect = false ∧ ∀ d ∈ i.dst, d ≠ 0 → d ∈ gs) ∧ OnlyWrites gs code :=
  List.forall_mem_cons

@[simp] theorem onlyWrites_append {gs : List Gpr} {c₁ c₂ : List Instr} :
    OnlyWrites gs (c₁ ++ c₂) ↔ OnlyWrites gs c₁ ∧ OnlyWrites gs c₂ :=
  List.forall_mem_append

theorem OnlyWrites.mono {gs hs : List Gpr} {code : List Instr} (h : OnlyWrites gs code)
    (hsub : gs ⊆ hs) : OnlyWrites hs code :=
  fun i hi => ⟨(h i hi).1, fun d hd hzero => hsub ((h i hi).2 d hd hzero)⟩

theorem OnlyWrites.step {gs : List Gpr} (h : OnlyWrites gs code) {i : Instr} (hi : i ∈ code)
    {s s' : Riscv.Interp.Cpu xlen} (hexec : Riscv.Interp.interpretInstr s i = .ok s') : SameBut gs s s' := by
  rcases h i hi with ⟨heffect, hdst⟩
  have hsame := interpretInstr_same hexec heffect
  refine ⟨fun g hg => ?_, hsame.memory⟩
  by_cases hzero : g = 0
  · rw [hzero, Cpu.gprRef_zero, Cpu.gprRef_zero]
  · exact hsame.gpr g fun hmem => hg (hdst g (by simpa using hmem) hzero)

theorem wp_sameBut {gs : List Gpr} (honly : OnlyWrites gs code) (h : (machine xlen).wp code Q cpu) :
    (machine xlen).wp code (fun cpu' => Q cpu' ∧ SameBut gs cpu cpu') cpu :=
  CodeMachine.wp_frame (SameBut.refl gs) SameBut.trans (fun _ hi _ _ => honly.step hi) h

end Rules

end Jit
end Bpf
end Serval
