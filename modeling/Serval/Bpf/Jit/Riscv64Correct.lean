import Serval.Bpf.Jit.Riscv64

/-!
# Riscv64Correct — the 64-bit RISC-V JIT compiler simulates the BPF interpreter

The code of an instruction has no jumps and writes the register of the destination, `t1` and `t2`
only.  What it leaves in the destination is computed by running it; the facts behind are that clearing
the upper half undoes the sign extension of the word instructions, and that the byte swap builds its
result byte by byte.
-/

namespace Serval
namespace Bpf
namespace Jit
namespace Rv64

open Serval.Core Riscv.Interp

variable {imm : BitVec 32} {n : Nat}

/-! ## Registers -/

theorem regmap_injective {i j : Bpf.Reg} (h : regmap i = regmap j) : i = j := by
  revert i j
  decide

theorem regmap_distinct (i : Bpf.Reg) :
    regmap i ≠ 0 ∧ regmap i ≠ Reg.t1 ∧ regmap i ≠ Reg.t2 ∧ Reg.t1 ≠ regmap i ∧ Reg.t2 ≠ regmap i := by
  revert i
  decide

/-- A write to the register of `d` and to the temporaries, seen from the BPF registers. -/
theorem cpuEqual_set {b : Bpf.Cpu} {d : Bpf.Reg} {v pc : BitVec 64} {r r' : Rv64Cpu}
    (h : cpuEqual b r) (hd : r'.gprRef (regmap d) = v)
    (hsame : SameBut [regmap d, Reg.t1, Reg.t2] r r') :
    cpuEqual ⟨pc, Function.update b.regs d (some v)⟩ r' := by
  intro i
  by_cases hi : i = d
  · subst hi
    rw [hd]
    exact Function.update_self ..
  · refine (Function.update_of_ne hi _ _).trans ?_
    rw [h i, hsame.gpr]
    rcases regmap_distinct i with ⟨_, h₁, h₂, _, _⟩
    simp only [List.mem_cons, List.not_mem_nil, or_false, not_or]
    exact ⟨fun heq => hi (regmap_injective heq), h₁, h₂⟩

/-! ## What the code may write -/

theorem emitImm_onlyWrites (rd : Gpr) (val : BitVec 32) : OnlyWrites [rd] (emitImm rd val) := by
  simp only [emitImm]
  split
  · simp [rvAddi, rvIInsn, Op.hasEffect]
  · simp [rvAddiw, rvIInsn, rvLui, rvUInsn, Op.hasEffect]

theorem onlyWrites_single {gs : List Gpr} {i : Instr} {d : Gpr} (heffect : i.op.hasEffect = false)
    (hdst : i.dst = some d) (hd : d ∈ gs) : OnlyWrites gs [i] := by
  simp [heffect, hdst, hd]

theorem emitZext32_onlyWrites (rd : Gpr) : OnlyWrites [rd] (emitZext32 rd) := by
  simp [emitZext32, rvSlli, rvSrli, rvIInsn, Op.hasEffect]

theorem emitAlu_onlyWrites {gs : List Gpr} {cls : AluClass} {rd : Gpr} {op64 op32 : Instr}
    {zext : Bool} (hrd : rd ∈ gs) (h64 : OnlyWrites gs [op64]) (h32 : OnlyWrites gs [op32]) :
    OnlyWrites gs (emitAlu cls rd op64 op32 zext) := by
  cases cls with
  | alu64 => exact h64
  | alu =>
      have hzext := (emitZext32_onlyWrites rd).mono (by simpa using hrd)
      cases zext with
      | false => exact h32
      | true => exact onlyWrites_append.mpr ⟨h32, hzext⟩

theorem emitSwapBytes_onlyWrites (rd : Gpr) (n : Nat) : OnlyWrites [rd, Reg.t1, Reg.t2] (emitSwapBytes rd n) := by
  induction n with
  | zero => exact onlyWrites_nil _
  | succ n ih =>
      rw [emitSwapBytes, List.replicate_succ, List.flatten_cons]
      refine onlyWrites_append.mpr ⟨?_, ih⟩
      simp [emitSwapByte, rvAndi, rvAdd, rvSlli, rvSrli, rvIInsn, rvRInsn, Op.hasEffect]

theorem emitFromBe_onlyWrites (rd : Gpr) (imm : BitVec 32) : OnlyWrites [rd, Reg.t1, Reg.t2] (emitFromBe rd imm) := by
  simp only [emitFromBe, onlyWrites_append]
  refine ⟨⟨⟨?_, emitSwapBytes_onlyWrites rd 1⟩, ?_⟩, ?_⟩
  · simp [rvAddi, rvIInsn, Op.hasEffect]
  · split
    · refine onlyWrites_append.mpr ⟨emitSwapBytes_onlyWrites rd 2, ?_⟩
      split
      · exact emitSwapBytes_onlyWrites rd 4
      · exact onlyWrites_nil _
    · exact onlyWrites_nil _
  · simp [rvAndi, rvAdd, rvAddi, rvIInsn, rvRInsn, Op.hasEffect]

/-! ## Extensions -/

/-- Shifting left and back cuts a value to `n` bits. -/
theorem zext_eq (hn : n ≤ 64) (x : BitVec 64) : x <<< (64 - n) >>> (64 - n) = (x.setWidth n).setWidth 64 := by
  apply BitVec.eq_of_getLsbD_eq
  intro i hi
  simp only [BitVec.getLsbD_ushiftRight, BitVec.getLsbD_shiftLeft, BitVec.getLsbD_setWidth, hi]
  by_cases h : i < n
  · have hlt : 64 - n + i < 64 := by omega
    simp [h, hlt]
  · have hge : ¬ 64 - n + i < 64 := by omega
    simp [h, hge]

theorem zext32_eq (x : BitVec 64) : x <<< 32 >>> 32 = (x.setWidth 32).setWidth 64 :=
  zext_eq (n := 32) (by decide) x

theorem shiftMask_32 : (shiftMask 32#64).toNat = 32 := by decide

section Operations

variable {cls : AluClass} {op : AluOp} {rd rs : Gpr} {r : Rv64Cpu} {i : Insn} {code : List Instr}
  {v₁ v₂ v : BitVec 64} {sizes : List (BitVec 32)}

/-- Clearing the upper half. -/
theorem runs_emitZext32 (hrd : rd ≠ 0) : runs (emitZext32 rd)
    (fun r' => r'.gprRef rd = ((r.gprRef rd).setWidth 32).setWidth 64) r := by
  apply runs_of_line
  simp [emitZext32, retire_gprRef, hrd, shiftMask_32, zext32_eq]

/-- An operation at its width: on 32 bits, only the low half of what the instruction leaves counts. -/
theorem runs_emitAlu {op64 op32 : Instr} (hrd : rd ≠ 0)
    (h64 : cls = .alu64 → (machine 64).line [op64] (fun r' => r'.gprRef rd = v) r)
    (h32 : cls = .alu →
      (machine 64).line [op32] (fun r' => ((r'.gprRef rd).setWidth 32).setWidth 64 = v) r) :
    runs (emitAlu cls rd op64 op32 true) (fun r' => r'.gprRef rd = v) r := by
  cases cls with
  | alu64 => exact runs_of_line (h64 rfl)
  | alu =>
      have hzext : runs ([op32] ++ emitZext32 rd) (fun r' => r'.gprRef rd = v) r := by
        refine runs_append (runs_mono (runs_of_line (h32 rfl)) fun r₁ h₁ => ?_)
        exact runs_mono (runs_emitZext32 hrd) fun r₂ h₂ => h₂.trans h₁
      exact hzext

theorem setWidth_lt {v : BitVec 64} (h : v < 32) : v.setWidth 32 < 32#32 := by
  have hlt : v.toNat < 32 := h
  show (v.setWidth 32).toNat < 32
  rw [BitVec.toNat_setWidth]
  omega

/-- Operations on registers. -/
theorem runs_aluX (hcode : i.code = .binary cls op .x) (hjit : runJit true i = some code)
    (hd : r.gprRef (regmap i.dst) = v₁) (hs : r.gprRef (regmap i.src) = v₂) (hpre : Pre sizes i v₂)
    (hv : i.result v₁ v₂ = .ok v) : runs code (fun r' => r'.gprRef (regmap i.dst) = v) r := by
  have hrd := (regmap_distinct i.dst).1
  have h64 : op ≠ .mov → cls = .alu64 → evaluateAlu64 op v₁ v₂ = .ok v := by
    rintro hmov rfl
    rwa [result_alu64 hcode hmov] at hv
  have h32 : op ≠ .mov → cls = .alu →
      ∃ z, evaluateAlu64 op (v₁.setWidth 32) (v₂.setWidth 32) = .ok z ∧ v = z.setWidth 64 := by
    rintro hmov rfl
    rw [result_alu32 hcode hmov] at hv
    exact evaluateAlu32_eq_ok hv
  cases op with
  | add | sub | mul | and | or | xor =>
      simp only [runJit, hcode, Option.some.injEq] at hjit
      rw [← hjit]
      refine runs_emitAlu hrd (fun hcls => ?_) (fun hcls => ?_)
      · cases h64 (by decide) hcls
        simp [retire_gprRef, hrd, hd, hs]
      · rcases h32 (by decide) hcls with ⟨z, hz, rfl⟩
        cases hz
        simp [retire_gprRef, hrd, hd, hs, setWidth_signExtend]
  | div | mod =>
      simp only [runJit, hcode, Option.some.injEq] at hjit
      rw [← hjit]
      refine runs_emitAlu hrd (fun hcls => ?_) (fun hcls => ?_)
      · rcases bind_eq_ok.mp (h64 (by decide) hcls) with ⟨_, _, hz⟩
        cases hz
        simp [retire_gprRef, hrd, hd, hs]
      · rcases h32 (by decide) hcls with ⟨z, hz, rfl⟩
        rcases bind_eq_ok.mp hz with ⟨_, _, hz⟩
        cases hz
        simp [retire_gprRef, hrd, hd, hs, setWidth_signExtend]
  | lsh | rsh | arsh =>
      have hshift := hpre.shift hcode (by decide)
      simp only [runJit, hcode, Option.some.injEq] at hjit
      rw [← hjit]
      refine runs_emitAlu hrd (fun hcls => ?_) (fun hcls => ?_)
      · cases h64 (by decide) hcls
        simp [retire_gprRef, hrd, hd, hs, shiftMask64_of_lt (hshift.2.1 hcls rfl)]
      · rcases h32 (by decide) hcls with ⟨z, hz, rfl⟩
        cases hz
        simp [retire_gprRef, hrd, hd, hs, setWidth_signExtend,
          shiftMask32_of_lt (setWidth_lt (hshift.1 hcls rfl))]
  | mov =>
      simp only [runJit, hcode, Option.some.injEq] at hjit
      rw [Insn.result, hcode] at hv
      rw [← hjit]
      refine runs_emitAlu hrd (fun hcls => ?_) (fun hcls => ?_)
      · subst hcls
        cases hv
        simp [retire_gprRef, hrd, hs, Insn.operand]
      · subst hcls
        cases hv
        simp [retire_gprRef, hrd, hs, Insn.operand, setWidth_signExtend]
  | neg => simp [runJit, hcode] at hjit

theorem runs_negation (hcode : i.code = .neg cls) (hjit : runJit true i = some code)
    (hd : r.gprRef (regmap i.dst) = v₁) (hv : i.result v₁ v₂ = .ok v) :
    runs code (fun r' => r'.gprRef (regmap i.dst) = v) r := by
  have hrd := (regmap_distinct i.dst).1
  simp only [runJit, hcode, Option.some.injEq] at hjit
  rw [Insn.result, hcode] at hv
  rw [← hjit]
  refine runs_emitAlu hrd (fun hcls => ?_) (fun hcls => ?_)
  · subst hcls
    cases hv
    simp [retire_gprRef, hrd, hd]
  · subst hcls
    cases hv
    simp [retire_gprRef, hrd, hd, setWidth_signExtend]

/-! ## Immediates -/

theorem signExtend_signExtend12 (x : BitVec 12) : (x.signExtend 32).signExtend 64 = x.signExtend 64 := by
  apply BitVec.eq_of_toInt_eq
  have h₁ : (x.signExtend 32).toInt = x.toInt := BitVec.toInt_signExtend_of_le (by omega)
  have h₂ : (x.signExtend 64).toInt = x.toInt := BitVec.toInt_signExtend_of_le (by omega)
  have h₃ : ((x.signExtend 32).signExtend 64).toInt = (x.signExtend 32).toInt :=
    BitVec.toInt_signExtend_of_le (by omega)
  rw [h₃, h₁, h₂]

theorem runs_emitImm {d : Gpr} (hd : d ≠ 0) (val : BitVec 32) (r : Rv64Cpu) :
    runs (emitImm d val) (fun r' => r'.gprRef d = val.signExtend 64 ∧ SameBut [d] r r') r := by
  refine runs_sameBut (emitImm_onlyWrites d val) (runs_of_line ?_)
  have hsum := upper_add_lower val
  simp only [emitImm, low12_and]
  generalize (val + (1#32 <<< 11)).sshiftRight 12 = upper at hsum ⊢
  by_cases hupper : upper = 0
  · have hzero : ((0 : BitVec 32).extractLsb' 0 20 ++ 0#12).signExtend 32 = 0#32 := by simp
    rw [hupper, hzero, BitVec.zero_add] at hsum
    simp only [hupper, if_true, line_rvAddi, CodeMachine.line_nil, retire_gprRef]
    rw [← signExtend_signExtend12, hsum]
    simp [hd]
  · simp only [hupper, if_false, line_rvAddiw, line_rvLui, CodeMachine.line_nil, retire_gprRef, hd,
      and_true, not_false_eq_true, ne_eq, if_true]
    rw [BitVec.signExtend_eq] at hsum
    rw [setWidth_signExtend, hsum]

/-- The immediate or the register form of a sum. -/
theorem runs_addK (hcode : i.code = .binary cls .add .k) (hjit : runJit true i = some code)
    (hd : r.gprRef (regmap i.dst) = v₁) (hv : i.result v₁ v₂ = .ok v) :
    runs code (fun r' => r'.gprRef (regmap i.dst) = v) r := by
  have hdistinct := regmap_distinct i.dst
  have h64 : cls = .alu64 → v = v₁ + i.imm.signExtend 64 := by
    rintro rfl
    rw [result_alu64 hcode (by decide)] at hv
    exact (Except.ok.inj hv).symm
  have h32 : cls = .alu → v = (v₁.setWidth 32 + i.imm).setWidth 64 := by
    rintro rfl
    rw [result_alu32 hcode (by decide)] at hv
    rcases evaluateAlu32_eq_ok hv with ⟨z, hz, rfl⟩
    rw [Insn.operand, setWidth_signExtend] at hz
    rw [← Except.ok.inj hz]
  simp only [runJit, hcode] at hjit
  by_cases h12 : is12bInt i.imm
  · simp only [h12, if_true, Option.some.injEq] at hjit
    rw [← hjit]
    refine runs_emitAlu hdistinct.1 (fun hcls => ?_) (fun hcls => ?_)
    · simp [retire_gprRef, hdistinct, hd, h64 hcls, ← signExtend_signExtend12, signExtend_low12 h12]
    · simp [retire_gprRef, hdistinct, hd, h32 hcls, signExtend_low12 h12, setWidth_signExtend]
  · simp only [h12, if_false, Option.some.injEq] at hjit
    rw [← hjit]
    refine runs_append (runs_mono (runs_emitImm (by decide) i.imm r) ?_)
    rintro r₁ ⟨ht1, hsame⟩
    have hd₁ : r₁.gprRef (regmap i.dst) = v₁ := by
      rw [hsame.gpr _ (by simp [hdistinct]), hd]
    refine runs_emitAlu hdistinct.1 (fun hcls => ?_) (fun hcls => ?_)
    · simp [retire_gprRef, hdistinct, hd₁, ht1, h64 hcls]
    · simp [retire_gprRef, hdistinct, hd₁, ht1, h32 hcls, setWidth_signExtend]

theorem runs_movK (hcode : i.code = .binary cls .mov .k) (hjit : runJit true i = some code)
    (hv : i.result v₁ v₂ = .ok v) : runs code (fun r' => r'.gprRef (regmap i.dst) = v) r := by
  have hrd := (regmap_distinct i.dst).1
  simp only [runJit, hcode, Option.some.injEq] at hjit
  rw [Insn.result, hcode] at hv
  rw [← hjit]
  refine runs_append (runs_mono (runs_emitImm hrd i.imm r) ?_)
  rintro r₁ ⟨h₁, _⟩
  cases cls with
  | alu64 =>
      cases hv
      exact ⟨r₁, rfl, h₁⟩
  | alu =>
      cases hv
      refine runs_mono (runs_emitZext32 hrd) fun r₂ h₂ => ?_
      rw [h₂, h₁]
      rfl

theorem is12bInt_of_lt (h : imm < 64) : is12bInt imm := by
  have hlt : imm.toNat < 64 := h
  have hint : imm.toInt = imm.toNat := BitVec.toInt_eq_toNat_of_lt (by omega)
  constructor
  · rw [BitVec.sle_iff_toInt_le, hint, show (BitVec.ofInt 32 (-0x800)).toInt = -0x800 from by decide]
    omega
  · rw [BitVec.slt_iff_toInt_lt, hint, show (0x800 : BitVec 32).toInt = 0x800 from by decide]
    omega

theorem signExtend_lt (h : imm < 64) : imm.signExtend 64 < 64 := by
  have hlt : imm.toNat < 64 := h
  have hmsb : imm.msb = false := by
    rw [BitVec.msb_eq_decide]
    exact decide_eq_false (by omega)
  show (imm.signExtend 64).toNat < 64
  rw [BitVec.signExtend_eq_setWidth_of_msb_false hmsb, BitVec.toNat_setWidth]
  omega

theorem and_of_lt (h : imm < 32) : imm &&& 0b11111#32 = imm := by
  have hlt : imm.toNat < 32 := h
  apply BitVec.eq_of_toNat_eq
  rw [BitVec.toNat_and]
  exact (Nat.and_two_pow_sub_one_eq_mod imm.toNat 5).trans (Nat.mod_eq_of_lt hlt)

/-- Shifts by an immediate. -/
theorem runs_shiftK (hop : op = .lsh ∨ op = .rsh ∨ op = .arsh) (hcode : i.code = .binary cls op .k)
    (hjit : runJit true i = some code) (hd : r.gprRef (regmap i.dst) = v₁) (hpre : Pre sizes i v₂)
    (hv : i.result v₁ v₂ = .ok v) : runs code (fun r' => r'.gprRef (regmap i.dst) = v) r := by
  have hrd := (regmap_distinct i.dst).1
  have hmov : op ≠ .mov := by rcases hop with rfl | rfl | rfl <;> decide
  have hshift := hpre.shift hcode hop
  -- at 64 bits the field is the immediate, and below 64 the mask changes nothing
  have h64 : cls = .alu64 → evaluateAlu64 op v₁ (i.imm.signExtend 64) = .ok v ∧
      shiftMask ((low12 i.imm).signExtend 64) = i.imm.signExtend 64 := by
    rintro rfl
    have hlt := hshift.2.2.2 rfl rfl
    rw [result_alu64 hcode hmov] at hv
    refine ⟨hv, ?_⟩
    rw [← signExtend_signExtend12, signExtend_low12 (is12bInt_of_lt hlt),
      shiftMask64_of_lt (signExtend_lt hlt)]
  have h32 : cls = .alu → (∃ z, evaluateAlu64 op (v₁.setWidth 32) i.imm = .ok z ∧ v = z.setWidth 64) ∧
      shiftMask ((low12 i.imm).signExtend 32 &&& 0b11111#32) = i.imm := by
    rintro rfl
    have hlt := hshift.2.2.1 rfl rfl
    rw [result_alu32 hcode hmov] at hv
    rcases evaluateAlu32_eq_ok hv with ⟨z, hz, hzv⟩
    rw [Insn.operand, setWidth_signExtend] at hz
    have hlt' : i.imm < 64 := Nat.lt_trans (show i.imm.toNat < 32 from hlt) (by decide)
    refine ⟨⟨z, hz, hzv⟩, ?_⟩
    rw [signExtend_low12 (is12bInt_of_lt hlt'), and_of_lt hlt, shiftMask32_of_lt hlt]
  rcases hop with rfl | rfl | rfl
  all_goals
    simp only [runJit, hcode, Option.some.injEq] at hjit
    rw [← hjit]
    refine runs_emitAlu hrd (fun hcls => ?_) (fun hcls => ?_)
    · rcases h64 hcls with ⟨hz, hmask⟩
      cases hz
      simp [retire_gprRef, hrd, hd, hmask]
    · rcases h32 hcls with ⟨⟨z, hz, rfl⟩, hmask⟩
      cases hz
      simp only [line_rvSlliw, line_rvSrliw, line_rvSraiw, hmask, CodeMachine.line_nil]
      simp [retire_gprRef, hrd, hd, setWidth_signExtend]

/-! ## Byte order -/

/-- Bytes as a number, the first one on top. -/
def ofBytes (bytes : List (BitVec 8)) : BitVec 64 :=
  bytes.foldl (fun acc b => acc <<< 8 + b.setWidth 64) 0

/-- The `n` lowest bytes of a value, from the lowest. -/
def lowBytes (v : BitVec 64) (n : Nat) : List (BitVec 8) :=
  (List.range n).map fun k => v.extractLsb' (8 * k) 8

theorem ofBytes_lowBytes_succ (v : BitVec 64) (n : Nat) :
    ofBytes (lowBytes v (n + 1)) =
      ofBytes (lowBytes v n) <<< 8 + (v.extractLsb' (8 * n) 8).setWidth 64 := by
  simp [ofBytes, lowBytes, List.range_succ]

theorem and_ff (v : BitVec 64) (n : Nat) : v >>> (8 * n) &&& 0xff#64 = (v.extractLsb' (8 * n) 8).setWidth 64 := by
  apply BitVec.eq_of_toNat_eq
  rw [BitVec.toNat_and, BitVec.toNat_setWidth, BitVec.extractLsb'_toNat, BitVec.toNat_ushiftRight]
  have hlt : v.toNat >>> (8 * n) % 2 ^ 8 < 2 ^ 64 := Nat.lt_of_lt_of_le (Nat.mod_lt _ (by decide)) (by decide)
  rw [Nat.mod_eq_of_lt hlt]
  exact Nat.and_two_pow_sub_one_eq_mod _ 8

/-- One more byte below. -/
theorem append_byte (acc : BitVec n) (b : BitVec 8) (h : n + 8 ≤ 64) :
    (acc.setWidth 64) <<< 8 + b.setWidth 64 = (acc ++ b).setWidth 64 := by
  have hacc : acc.toNat < 2 ^ 56 := Nat.lt_of_lt_of_le acc.isLt (Nat.pow_le_pow_right (by decide) (by omega))
  have hb := b.isLt
  apply BitVec.eq_of_toNat_eq
  rw [BitVec.toNat_setWidth, BitVec.toNat_append, ← Nat.shiftLeft_add_eq_or_of_lt b.isLt,
    BitVec.toNat_add, BitVec.toNat_shiftLeft, BitVec.toNat_setWidth, BitVec.toNat_setWidth,
    Nat.shiftLeft_eq, Nat.shiftLeft_eq]
  omega

/-- The byte swap of the interpreter. -/
theorem swapBytes_eq (h : (imm = 16 ∧ n = 2) ∨ (imm = 32 ∧ n = 4) ∨ (imm = 64 ∧ n = 8)) :
    swapBytes v imm = .ok (ofBytes (lowBytes v n)) := by
  have hone : ofBytes (lowBytes v 1) = (v.extractLsb' 0 8).setWidth 64 := by
    simp [ofBytes, lowBytes]
  rcases h with ⟨rfl, rfl⟩ | ⟨rfl, rfl⟩ | ⟨rfl, rfl⟩
  all_goals
    simp only [ofBytes_lowBytes_succ _ (_ + 1), hone]
    repeat rw [append_byte _ _ (by decide)]
    rfl

theorem shiftMask_8 : (shiftMask 8#64).toNat = 8 := by decide

/-- After `k` bytes the rest of the value is in `rd` and the bytes so far in `t2`, with room for one
more. -/
def Swapping (v : BitVec 64) (rd : Gpr) (k : Nat) (r : Rv64Cpu) : Prop :=
  r.gprRef Reg.t2 = ofBytes (lowBytes v k) <<< 8 ∧ r.gprRef rd = v >>> (8 * k)

variable (hrd : rd ≠ 0 ∧ rd ≠ Reg.t1 ∧ rd ≠ Reg.t2 ∧ Reg.t1 ≠ rd ∧ Reg.t2 ≠ rd)

include hrd

theorem runs_emitSwapByte {k : Nat} (h : Swapping v rd k r) : runs (emitSwapByte rd) (Swapping v rd (k + 1)) r := by
  have htemps : Reg.t1 ≠ 0 ∧ Reg.t2 ≠ 0 ∧ Reg.t1 ≠ Reg.t2 ∧ Reg.t2 ≠ Reg.t1 := by decide
  rcases h with ⟨ht2, hv⟩
  apply runs_of_line
  simp only [emitSwapByte, line_rvAndi, line_rvAdd, line_rvSlli, line_rvSrli, CodeMachine.line_nil]
  constructor
  · simp [retire_gprRef, hrd, htemps, ht2, hv, and_ff, shiftMask_8, ofBytes_lowBytes_succ]
  · simp [retire_gprRef, hrd, htemps, hv, shiftMask_8, Nat.mul_succ, BitVec.shiftRight_add]

theorem runs_emitSwapBytes {k : Nat} (n : Nat) (h : Swapping v rd k r) :
    runs (emitSwapBytes rd n) (Swapping v rd (k + n)) r := by
  induction n generalizing k r with
  | zero => exact ⟨r, rfl, h⟩
  | succ n ih =>
      have hsucc : emitSwapBytes rd (n + 1) = emitSwapByte rd ++ emitSwapBytes rd n := by
        simp [emitSwapBytes, List.replicate_succ]
      rw [hsucc]
      refine runs_append (runs_mono (runs_emitSwapByte hrd h) fun r₁ h₁ => ?_)
      have hnext := ih h₁
      rwa [Nat.add_right_comm, Nat.add_assoc k] at hnext

theorem runs_emitFromBe (himm : imm = 16 ∨ imm = 32 ∨ imm = 64) (hd : r.gprRef rd = v₁)
    (hv : swapBytes v₁ imm = .ok v) :
    runs (emitFromBe rd imm) (fun r' => r'.gprRef rd = v) r := by
  have htemps : Reg.t1 ≠ 0 ∧ Reg.t2 ≠ 0 ∧ Reg.t1 ≠ Reg.t2 ∧ Reg.t2 ≠ Reg.t1 := by decide
  -- the last byte, after `n` of them
  have hlast : ∀ {n r}, Swapping v₁ rd n r → ofBytes (lowBytes v₁ (n + 1)) = v →
      runs [rvAndi Reg.t1 rd 0xff, rvAdd Reg.t2 Reg.t2 Reg.t1, rvAddi rd Reg.t2 0]
        (fun r' => r'.gprRef rd = v) r := by
    rintro n r ⟨ht2, hrest⟩ hn
    apply runs_of_line
    rw [← hn]
    simp [retire_gprRef, hrd, htemps, ht2, hrest, and_ff, ofBytes_lowBytes_succ]
  have hstart : runs [rvAddi Reg.t2 Reg.zero 0] (Swapping v₁ rd 0) r := by
    apply runs_of_line
    simp only [line_rvAddi, CodeMachine.line_nil]
    constructor
    · simp [retire_gprRef, htemps, ofBytes, lowBytes]
    · simp [retire_gprRef, hrd, hd]
  have hfirst : runs ([rvAddi Reg.t2 Reg.zero 0] ++ emitSwapBytes rd 1) (Swapping v₁ rd 1) r :=
    runs_append (runs_mono hstart fun r₁ h₁ => runs_emitSwapBytes hrd 1 h₁)
  rw [emitFromBe]
  refine runs_append (runs_append (runs_mono hfirst fun r₁ h₁ => ?_))
  rcases himm with rfl | rfl | rfl
  · rw [swapBytes_eq (.inl ⟨rfl, rfl⟩)] at hv
    exact ⟨r₁, rfl, hlast h₁ (Except.ok.inj hv)⟩
  · rw [swapBytes_eq (.inr (.inl ⟨rfl, rfl⟩))] at hv
    refine runs_append (runs_mono (runs_emitSwapBytes hrd 2 h₁) fun r₂ h₂ => ?_)
    exact ⟨r₂, rfl, hlast h₂ (Except.ok.inj hv)⟩
  · rw [swapBytes_eq (.inr (.inr ⟨rfl, rfl⟩))] at hv
    refine runs_append (runs_mono (runs_emitSwapBytes hrd 2 h₁) fun r₂ h₂ => ?_)
    refine runs_mono (runs_emitSwapBytes hrd 4 h₂) fun r₃ h₃ => ?_
    exact hlast h₃ (Except.ok.inj hv)

omit hrd

/-- `BPF_FROM_LE` cuts the value. -/
theorem runs_fromLe (hcode : i.code = .endian .fromLe) (hjit : runJit true i = some code)
    (himm : i.imm = 16 ∨ i.imm = 32 ∨ i.imm = 64) (hd : r.gprRef (regmap i.dst) = v₁)
    (hv : i.result v₁ v₂ = .ok v) : runs code (fun r' => r'.gprRef (regmap i.dst) = v) r := by
  have hrd := (regmap_distinct i.dst).1
  have hsize : ∃ n ≤ 64, v = (v₁.setWidth n).setWidth 64 ∧
      (shiftMask ((low12 (64 - i.imm)).signExtend 64)).toNat = 64 - n := by
    rw [Insn.result, hcode] at hv
    rcases himm with h | h | h <;> rw [h] at hv ⊢ <;> cases hv
    · exact ⟨16, by decide, rfl, by decide⟩
    · exact ⟨32, by decide, rfl, by decide⟩
    · exact ⟨64, by decide, rfl, by decide⟩
  rcases hsize with ⟨n, hn, rfl, hmask⟩
  simp only [runJit, hcode, Option.some.injEq] at hjit
  rw [← hjit, ← zext_eq hn]
  apply runs_of_line
  simp only [line_rvSlli, line_rvSrli, CodeMachine.line_nil, BitVec.shiftLeft_eq',
    BitVec.ushiftRight_eq', hmask]
  simp [retire_gprRef, hrd, hd]

/-! ## Instructions and programs -/

/-- The code of an instruction leaves its result in the register of its destination. -/
theorem runs_runJit (hjit : runJit true i = some code) (hd : r.gprRef (regmap i.dst) = v₁)
    (hs : r.gprRef (regmap i.src) = v₂) (hpre : Pre [16, 32, 64] i v₂)
    (hv : i.result v₁ v₂ = .ok v) : runs code (fun r' => r'.gprRef (regmap i.dst) = v) r := by
  cases hcode : i.code with
  | binary cls op source =>
      cases source with
      | x => exact runs_aluX hcode hjit hd hs hpre hv
      | k =>
          cases op with
          | mov => exact runs_movK hcode hjit hv
          | add => exact runs_addK hcode hjit hd hv
          | lsh | rsh | arsh => exact runs_shiftK (by decide) hcode hjit hd hpre hv
          | sub | mul | div | mod | or | and | xor | neg => simp [runJit, hcode] at hjit
  | neg cls => exact runs_negation hcode hjit hd hv
  | endian order =>
      have himm : i.imm = 16 ∨ i.imm = 32 ∨ i.imm = 64 := by
        simpa using hpre.endian (by rw [hcode]; rfl)
      cases order with
      | fromBe =>
          rw [Insn.result, hcode] at hv
          simp only [runJit, hcode, Option.some.injEq] at hjit
          exact hjit ▸ runs_emitFromBe (regmap_distinct i.dst) himm hd hv
      | fromLe => exact runs_fromLe hcode hjit himm hd hv
  | ja => simp [runJit, hcode] at hjit
  | jmp op source => simp [runJit, hcode] at hjit

end Operations

theorem runJit_onlyWrites {i : Insn} {code : List Instr} (hjit : runJit true i = some code) :
    OnlyWrites [regmap i.dst, Reg.t1, Reg.t2] code := by
  have hrd : regmap i.dst ∈ [regmap i.dst, Reg.t1, Reg.t2] := by simp
  cases hcode : i.code with
  | binary cls op source =>
      cases source <;> cases op <;> simp only [runJit, hcode, Option.some.injEq, reduceCtorEq] at hjit
      -- An operand that does not fit in 12 bits goes through `t1`.
      case k.add =>
        split at hjit <;> rw [Option.some.injEq] at hjit <;> rw [← hjit]
        · exact emitAlu_onlyWrites hrd (onlyWrites_single rfl rfl hrd) (onlyWrites_single rfl rfl hrd)
        · refine onlyWrites_append.mpr ⟨(emitImm_onlyWrites Reg.t1 i.imm).mono (by simp), ?_⟩
          exact emitAlu_onlyWrites hrd (onlyWrites_single rfl rfl hrd) (onlyWrites_single rfl rfl hrd)
      case k.mov =>
        rw [← hjit]
        refine onlyWrites_append.mpr ⟨(emitImm_onlyWrites _ i.imm).mono (by simp), ?_⟩
        cases cls with
        | alu64 => exact onlyWrites_nil _
        | alu => exact (emitZext32_onlyWrites _).mono (by simp)
      all_goals
        rw [← hjit]
        exact emitAlu_onlyWrites hrd (onlyWrites_single rfl rfl hrd) (onlyWrites_single rfl rfl hrd)
  | neg cls =>
      simp only [runJit, hcode, Option.some.injEq] at hjit
      rw [← hjit]
      exact emitAlu_onlyWrites hrd (onlyWrites_single rfl rfl hrd) (onlyWrites_single rfl rfl hrd)
  | endian order =>
      cases order with
      | fromLe =>
          simp only [runJit, hcode, Option.some.injEq] at hjit
          rw [← hjit]
          exact onlyWrites_cons.mpr ⟨by simp [rvSlli, rvIInsn, Op.hasEffect],
            onlyWrites_single rfl rfl hrd⟩
      | fromBe =>
          simp only [runJit, hcode, Option.some.injEq] at hjit
          exact hjit ▸ emitFromBe_onlyWrites _ _
  | ja => simp [runJit, hcode] at hjit
  | jmp op source => simp [runJit, hcode] at hjit

theorem runJit_isAlu {patch : Bool} {i : Insn} {code : List Instr} (hjit : runJit patch i = some code) :
    i.code.isAlu :=
  isAlu_of_emit (fun cls source h => by cases source <;> simp [runJit, h]) (fun h => by simp [runJit, h])
    (fun op source h => by simp [runJit, h]) hjit

/-- The compiler is correct for programs of arithmetic instructions, with the patch enabled. -/
theorem riscv64_jit_correct {insns : List Insn} {code : List Instr}
    (hjit : runJits true insns = some code) {b : Bpf.Cpu} (hchecked : Checked [16, 32, 64] b insns)
    {r : Rv64Cpu} (hr : cpuEqual b r) :
    ∃ b' r', interpretInstrs b insns = .ok b' ∧ runJittedCode r code = .ok r' ∧ cpuEqual b' r' := by
  suffices h : ∃ b', interpretInstrs b insns = .ok b' ∧ runs code (cpuEqual b') r by
    rcases h with ⟨b', hb', r', hrun, hr'⟩
    exact ⟨b', r', hb', hrun, hr'⟩
  induction insns generalizing code b r with
  | nil =>
      cases hjit
      exact ⟨b, rfl, r, rfl, hr⟩
  | cons i insns ih =>
      rcases emitAll_cons hjit with ⟨c₁, c₂, h₁, h₂, rfl⟩
      have hpre := hchecked.1 _ (hr i.src)
      rcases result_ok hpre (runJit_isAlu h₁) (by simp) (r.gprRef (regmap i.dst)) with ⟨v, hv⟩
      have hstep := interpretInstr_of_result (hr i.dst) (hr i.src) (Fin.ne_of_lt hpre.dst) hv
      rcases runs_sameBut (runJit_onlyWrites h₁) (runs_runJit h₁ rfl rfl hpre hv) with
        ⟨r₁, hrun, hvalue, hsame⟩
      rcases ih h₂ (hchecked.2 _ hstep) (cpuEqual_set hr hvalue hsame) with ⟨b', hb', hrest⟩
      refine ⟨b', ?_, runs_append ⟨r₁, hrun, hrest⟩⟩
      rw [interpretInstrs, hstep]
      exact hb'

/-- R6 byte-swapped, which leaves the upper half clear, and then shifted right by R7. -/
theorem riscv64_jit_correct_swap_shift : ∃ (code : List Instr) (r r' : Rv64Cpu) (b' : Bpf.Cpu),
    runJits true [⟨.endian .fromBe, 6, 0, 0, 32⟩, ⟨.binary .alu64 .rsh .x, 6, 7, 0, 0⟩] = some code ∧
      cpuEqual ⟨0, fun _ => some 17⟩ r ∧ runJittedCode r code = .ok r' ∧
      interpretInstrs ⟨0, fun _ => some 17⟩
        [⟨.endian .fromBe, 6, 0, 0, 32⟩, ⟨.binary .alu64 .rsh .x, 6, 7, 0, 0⟩] = .ok b' ∧
      cpuEqual b' r' := by
  have hr : cpuEqual ⟨0, fun _ => some 17⟩ ⟨0, fun _ => 17, fun _ => 0, []⟩ := by
    intro i
    revert i
    decide
  have hchecked : Checked [16, 32, 64] ⟨0, fun _ => some 17⟩
      [⟨.endian .fromBe, 6, 0, 0, 32⟩, ⟨.binary .alu64 .rsh .x, 6, 7, 0, 0⟩] := by
    refine ⟨fun srcOp hsrc => ?_, fun b₁ hb₁ => ⟨fun srcOp hsrc => ?_, fun _ _ => trivial⟩⟩
    · cases hsrc
      constructor <;> decide
    · cases hb₁
      cases hsrc
      constructor <;> decide
  rcases riscv64_jit_correct rfl hchecked hr with ⟨b', r', hb', hrun, hr'⟩
  exact ⟨_, _, r', b', rfl, hr, hrun, hb', hr'⟩

end Rv64
end Jit
end Bpf
end Serval
