import Serval.Bpf.Jit.LinuxRiscv64
import Serval.Bpf.Jit.Riscv64Correct

/-!
# LinuxRiscv64Constants — `emit_imm` loads every constant

A 32-bit constant is loaded as in `riscv64.rkt`.  For a larger one `emit_imm` calls itself with the upper bits, without
the zeros at their end, and then shifts them into place and adds the lower twelve bits, which count as signed.
-/

namespace Serval
namespace Bpf
namespace Jit
namespace Linux64

open Serval.Core Riscv.Interp
open Rv64 (Rv64Cpu runs)

variable {x : BitVec 64} {k : Nat}

/-! ## Code without jumps -/

/-- All but the branches and jumps, the operations on CSRs, and `mret`. -/
def goesOn : Op → Bool
  | .beq | .bne | .blt | .bge | .bltu | .bgeu | .jal | .jalr => false
  | .csrrw | .csrrs | .csrrc | .csrrwi | .csrrsi | .csrrci | .mret => false
  | _ => true

theorem interpretInstr_pc {cpu cpu' : Rv64Cpu} {i : Instr} (h : Riscv.Interp.interpretInstr cpu i = .ok cpu')
    (hop : goesOn i.op) : cpu'.pc = cpu.pc + BitVec.ofNat 64 i.size := by
  cases heq : i.op <;>
    simp only [Riscv.Interp.interpretInstr, heq, bind_eq_ok, pure, Except.pure, Except.ok.injEq, reduceCtorEq] at h <;>
    first
      | exact absurd (heq ▸ hop) (by decide)
      | (repeat rcases h with ⟨_, _, h⟩)
        simp [BitVec.add_comm]

/-- Every instruction is one word long and goes on to the next one. -/
def Straight (code : List Instr) : Prop :=
  ∀ i ∈ code, goesOn i.op ∧ i.size = DEFAULT_SIZE

@[simp] theorem straight_nil : Straight [] := by
  simp [Straight]

@[simp] theorem straight_cons {i : Instr} {code : List Instr} :
    Straight (i :: code) ↔ (goesOn i.op ∧ i.size = DEFAULT_SIZE) ∧ Straight code :=
  List.forall_mem_cons

@[simp] theorem straight_append {c₁ c₂ : List Instr} : Straight (c₁ ++ c₂) ↔ Straight c₁ ∧ Straight c₂ :=
  List.forall_mem_append

section Straight

variable {code : List Instr} {Q : Rv64Cpu → Prop} {r : Rv64Cpu}

theorem Straight.length (h : Straight code) : (machine 64).length code = 4 * code.length := by
  induction code with
  | nil => rfl
  | cons i code ih =>
      rw [straight_cons] at h
      rw [CodeMachine.length_cons, ih h.2, List.length_cons, show (machine 64).size i = DEFAULT_SIZE from h.1.2,
        DEFAULT_SIZE]
      omega

theorem Straight.wp (h : Straight code) (hruns : runs code Q r) : (machine 64).wp code Q r := by
  induction code generalizing r with
  | nil =>
      rcases hruns with ⟨_, hrun, hq⟩
      cases hrun
      exact CodeMachine.wp_nil hq
  | cons i code ih =>
      rw [straight_cons] at h
      rcases hruns with ⟨r', hrun, hq⟩
      rcases bind_eq_ok.mp hrun with ⟨r₁, hexec, hrest⟩
      refine CodeMachine.wp_cons ?_ hexec (interpretInstr_pc hexec h.1.1) (ih h.2 ⟨r', hrest, hq⟩)
      exact decide_eq_false fun hmret => absurd (hmret ▸ h.1.1) (by decide)

end Straight

/-! ## The first bit -/

/-- The search for the first bit of `x` has skipped zeros only, and there is a one among the next `k` bits. -/
structure Narrowed (x : BitVec 64) (k : Nat) (s : Nat × BitVec 64) : Prop where
  rest : ∀ j, s.2.getLsbD j = x.getLsbD (s.1 + j)
  skipped : ∀ j < s.1, x.getLsbD j = false
  found : ∃ j < k, s.2.getLsbD j = true

theorem and_mask_eq_zero : x &&& BitVec.ofNat 64 (2 ^ k - 1) = 0 ↔ ∀ j < k, x.getLsbD j = false := by
  have hbit : ∀ j, (x &&& BitVec.ofNat 64 (2 ^ k - 1)).getLsbD j = (x.getLsbD j && decide (j < k)) := by
    intro j
    by_cases hj : j < 64
    · rw [BitVec.getLsbD_and, BitVec.getLsbD_ofNat, Nat.testBit_two_pow_sub_one]
      simp [hj]
    · rw [BitVec.getLsbD_of_ge _ _ (by omega), BitVec.getLsbD_of_ge _ _ (by omega), Bool.false_and]
  constructor
  · intro h j hj
    have := hbit j
    rw [h] at this
    simpa [hj] using this.symm
  · intro h
    apply BitVec.eq_of_getLsbD_eq
    intro j _
    rw [hbit]
    by_cases hj : j < k
    · simp [h j hj]
    · simp [hj]

theorem Narrowed.ffsStep {s : Nat × BitVec 64} (h : Narrowed x (k + k) s) : Narrowed x k (ffsStep k s) := by
  rcases h with ⟨hrest, hskipped, j, hj, hone⟩
  rw [Linux64.ffsStep]
  split_ifs with hzero
  · rw [and_mask_eq_zero] at hzero
    have hkj : k ≤ j := Nat.le_of_not_lt fun hlt => by simp [hzero j hlt] at hone
    refine ⟨fun l => ?_, fun l hl => ?_, j - k, by omega, ?_⟩
    · rw [BitVec.getLsbD_ushiftRight, hrest, Nat.add_assoc]
    · by_cases hlt : l < s.1
      · exact hskipped l hlt
      · have := hzero (l - s.1) (by simp at hl; omega)
        rwa [hrest, Nat.add_sub_cancel' (by omega)] at this
    · rwa [BitVec.getLsbD_ushiftRight, Nat.add_sub_cancel' hkj]
  · rw [and_mask_eq_zero] at hzero
    push Not at hzero
    rcases hzero with ⟨l, hl, hbit⟩
    exact ⟨hrest, hskipped, l, hl, by simpa using hbit⟩

/-- `__ffs` finds the first one. -/
theorem ffs_spec (h : x ≠ 0) : x.getLsbD (ffs x) = true ∧ ∀ j < ffs x, x.getLsbD j = false := by
  have hfound : ∃ j < 32 + 32, x.getLsbD j = true := by
    by_contra hnone
    push Not at hnone
    refine h (BitVec.eq_of_getLsbD_eq fun j hj => ?_)
    simpa using hnone j hj
  have hstart : Narrowed x (32 + 32) (0, x) := ⟨fun j => by rw [Nat.zero_add], by simp, hfound⟩
  have h16 : Narrowed x (16 + 16) _ := hstart.ffsStep
  have h8 : Narrowed x (8 + 8) _ := h16.ffsStep
  have h4 : Narrowed x (4 + 4) _ := h8.ffsStep
  have h2 : Narrowed x (2 + 2) _ := h4.ffsStep
  have h1 : Narrowed x (1 + 1) _ := h2.ffsStep
  rcases h1.ffsStep with ⟨hrest, hskipped, j, hj, hone⟩
  obtain rfl : j = 0 := by omega
  rw [hrest] at hone
  exact ⟨hone, hskipped⟩

/-! ## 32-bit constants -/

theorem is32bInt_signExtend (imm : BitVec 32) : is32bInt (imm.signExtend 64).toInt := by
  rw [BitVec.toInt_signExtend_of_le (by omega)]
  exact ⟨BitVec.le_toInt imm, BitVec.toInt_lt⟩

theorem signExtend_setWidth_of_is32bInt {val : BitVec 64} (h : is32bInt val.toInt) :
    (val.setWidth 32).signExtend 64 = val := by
  apply BitVec.eq_of_toInt_eq
  rw [BitVec.toInt_signExtend_of_le (by omega), BitVec.toInt_setWidth]
  have hval := BitVec.toInt_eq_toNat_bmod val
  simp only [is32bInt, isInt] at h
  rw [Int.bmod_def] at hval ⊢
  omega

/-- The upper bits of a 32-bit constant, from its 64 bits and from its 32 bits. -/
theorem upperBits_signExtend (imm : BitVec 32) :
    (upperBits (imm.signExtend 64)).setWidth 20 = ((imm + (1#32 <<< 11)).sshiftRight 12).extractLsb' 0 20 ∧
    (upperBits (imm.signExtend 64) = 0 ↔ (imm + (1#32 <<< 11)).sshiftRight 12 = 0) := by
  have hmin := BitVec.le_toInt imm
  have hmax : imm.toInt < 2 ^ 31 := BitVec.toInt_lt
  have h64 := toInt_upperBits (imm.signExtend 64)
  have h32 : ((imm + (1#32 <<< 11)).sshiftRight 12).toInt = (imm.toInt + 2048).bmod (2 ^ 32) / 4096 := by
    rw [BitVec.toInt_sshiftRight, BitVec.toInt_add, Int.shiftRight_eq_div_pow]
    rfl
  rw [BitVec.toInt_signExtend_of_le (by omega)] at h64
  rw [Int.bmod_def] at h64 h32
  generalize upperBits (imm.signExtend 64) = x at h64 ⊢
  generalize (imm + (1#32 <<< 11)).sshiftRight 12 = y at h32 ⊢
  constructor
  · apply BitVec.eq_of_toNat_eq
    have hx := BitVec.toInt_eq_toNat_cond x
    have hy := BitVec.toInt_eq_toNat_cond y
    rw [BitVec.toNat_setWidth, BitVec.extractLsb'_toNat, Nat.shiftRight_zero]
    omega
  · rw [← BitVec.toInt_inj, ← BitVec.toInt_inj, h64, h32]
    simp
    omega

/-- On 32-bit constants the two versions of `emit_imm` are one. -/
theorem emitImm_signExtend (rd : Gpr) (imm : BitVec 32) : emitImm rd (imm.signExtend 64) = Rv64.emitImm rd imm := by
  have hlower : (imm.signExtend 64).setWidth 12 = low12 (imm &&& 0xfff#32) := by
    have himm := congrArg BitVec.toNat (setWidth_signExtend imm)
    rw [BitVec.toNat_setWidth] at himm
    apply BitVec.eq_of_toNat_eq
    rw [low12_and, toNat_low12, BitVec.toNat_setWidth]
    omega
  rcases upperBits_signExtend imm with ⟨hbits, hzero⟩
  rw [emitImm, if_pos (is32bInt_signExtend imm), hbits, hlower, Rv64.emitImm, ite_not]
  exact if_congr hzero rfl rfl

/-! ## Large constants -/

/-- Shifting down by zeros only, and up again. -/
theorem sshiftRight_shiftLeft (hlow : ∀ j < k, x.getLsbD j = false) (n : Nat) :
    x.sshiftRight k <<< (k + n) = x <<< n := by
  apply BitVec.eq_of_getLsbD_eq
  intro i hi
  simp only [BitVec.getLsbD_shiftLeft, BitVec.getLsbD_sshiftRight, hi, decide_true, Bool.true_and]
  by_cases hn : i < n
  · simp [hn, show i < k + n by omega]
  · by_cases hk : i < k + n
    · simp [hk, hlow (i - n) (by omega)]
    · simp only [hn, hk, decide_false, Bool.not_false, Bool.true_and]
      grind

/-- What `emit_imm` adds at the end completes the constant. -/
theorem upperBits_shiftLeft_add (val : BitVec 64) : upperBits val <<< 12 + (val.setWidth 12).signExtend 64 = val := by
  have hupper : (upperBits val <<< 12).toNat = (val + 2048).toNat / 4096 * 4096 := by
    have hsame : upperBits val <<< 12 = (val + 2048) >>> 12 <<< 12 := by
      apply BitVec.eq_of_getLsbD_eq
      intro i hi
      simp only [upperBits, BitVec.getLsbD_shiftLeft, BitVec.getLsbD_sshiftRight, BitVec.getLsbD_ushiftRight]
      grind
    rw [hsame, BitVec.toNat_shiftLeft, BitVec.toNat_ushiftRight, Nat.shiftLeft_eq, Nat.shiftRight_eq_div_pow]
    have := (val + 2048).isLt
    omega
  have hlower : (val.setWidth 12).toNat = val.toNat % 4096 := BitVec.toNat_setWidth ..
  generalize val.setWidth 12 = l at hlower ⊢
  apply BitVec.eq_of_toNat_eq
  rw [BitVec.toNat_add, hupper, BitVec.toNat_signExtend, BitVec.toNat_setWidth, hlower, BitVec.msb_eq_decide, hlower]
  have hval : (val + 2048).toNat = (val.toNat + 2048) % 2 ^ 64 := BitVec.toNat_add ..
  have := val.isLt
  rw [hval]
  simp
  split <;> omega

theorem ffs_upperBits {val : BitVec 64} (h : ¬ is32bInt val.toInt) :
    ffs (upperBits val) < 52 ∧ ∀ j < ffs (upperBits val), (upperBits val).getLsbD j = false := by
  have hne : upperBits val ≠ 0 := by
    intro hzero
    apply h
    have hval := upperBits_shiftLeft_add val
    rw [hzero] at hval
    rw [← hval, show (0 : BitVec 64) <<< 12 = 0#64 from rfl, BitVec.zero_add, BitVec.toInt_signExtend_of_le (by omega)]
    generalize BitVec.setWidth 12 _ = l
    have := BitVec.le_toInt l
    have : l.toInt < 2 ^ 11 := BitVec.toInt_lt
    simp only [is32bInt, isInt]
    omega
  rcases ffs_spec hne with ⟨hone, hlow⟩
  generalize ffs (upperBits val) = k at hone hlow ⊢
  refine ⟨Nat.lt_of_not_le fun hle => ?_, hlow⟩
  -- bit 51 is a copy of the sign like the bits above it
  have hsign := hlow 51 (by omega)
  have hmsb := BitVec.msb_eq_getLsbD_last (val + 2048)
  rw [upperBits, BitVec.getLsbD_sshiftRight] at hone hsign
  rw [if_neg (by omega)] at hone
  simp_all

theorem shiftMask_ofNat {n : Nat} (h : n < 64) : (shiftMask ((BitVec.ofNat 12 n).signExtend 64)).toNat = n := by
  have hsmall : (BitVec.ofNat 12 n).toNat = n := Nat.mod_eq_of_lt (by omega)
  have hext : ((BitVec.ofNat 12 n).signExtend 64).toNat = n := by
    rw [BitVec.toNat_signExtend, BitVec.toNat_setWidth, hsmall, BitVec.msb_eq_decide, hsmall]
    simp
    split <;> omega
  have hlt : (BitVec.ofNat 12 n).signExtend 64 < 64 := by
    rw [BitVec.lt_def, hext]
    exact h
  rw [shiftMask64_of_lt hlt, hext]

theorem sameBut_retire (rd : Gpr) (v : BitVec 64) (r : Rv64Cpu) : SameBut [rd] r (retire r rd v) :=
  (SameBut.gprSet (.inr (by simp)) v).setPc _

theorem straight_emitImm (rd : Gpr) (val : BitVec 64) : Straight (emitImm rd val) := by
  fun_induction emitImm rd val with
  | case1 | case2 => simp [goesOn, rvAddi, rvAddiw, rvLui, rvIInsn, rvUInsn]
  | case3 val upper lower h32 shift ih =>
      refine straight_append.mpr ⟨straight_append.mpr ⟨ih, by simp [goesOn, rvSlli, rvIInsn]⟩, ?_⟩
      split_ifs <;> simp [goesOn, rvAddi, rvIInsn]

theorem wp_emitImm {rd : Gpr} (hrd : rd ≠ 0) (val : BitVec 64) (r : Rv64Cpu) :
    (machine 64).wp (emitImm rd val) (fun r' => r'.gprRef rd = val ∧ SameBut [rd] r r') r := by
  -- by the size of the constant, as in the definition
  induction hn : val.toInt.natAbs using Nat.strongRecOn generalizing val with
  | ind n ih =>
      by_cases h32 : is32bInt val.toInt
      · have hloads := Rv64.runs_emitImm hrd (val.setWidth 32) r
        rw [← emitImm_signExtend, signExtend_setWidth_of_is32bInt h32] at hloads
        exact (straight_emitImm rd val).wp hloads
      · rcases ffs_upperBits h32 with ⟨hshift, hlow⟩
        have hsmaller := natAbs_upperBits_lt h32 (ffs (upperBits val))
        rw [emitImm, if_neg h32, List.append_assoc]
        refine CodeMachine.wp_append (CodeMachine.wp_mono (ih _ (hn ▸ hsmaller) _ rfl) ?_)
        rintro r₁ ⟨h₁, hsame₁⟩
        generalize ffs (upperBits val) = k at hshift hlow h₁ ⊢
        apply CodeMachine.wp_of_line
        have hsame₂ := hsame₁.trans (sameBut_retire rd (upperBits val <<< 12) r₁)
        have hvalue : (retire r₁ rd (upperBits val <<< 12)).gprRef rd = upperBits val <<< 12 := by
          rw [retire_gprRef, if_pos ⟨rfl, hrd⟩]
        rw [List.singleton_append, line_rvSlli, BitVec.shiftLeft_eq', shiftMask_ofNat (by omega), h₁,
          sshiftRight_shiftLeft hlow]
        have hval := upperBits_shiftLeft_add val
        split_ifs with hlower
        · rw [line_rvAddi, hvalue, hval, CodeMachine.line_nil]
          exact ⟨by rw [retire_gprRef, if_pos ⟨rfl, hrd⟩], hsame₂.trans (sameBut_retire ..)⟩
        · rw [not_not] at hlower
          rw [hlower] at hval
          exact ⟨hvalue.trans ((BitVec.add_zero _).symm.trans hval), hsame₂⟩

/-- Running the code for any 64-bit constant leaves it in the register and changes nothing else. -/
theorem emitImm_loads {rd : Gpr} (hrd : rd ≠ 0) (val : BitVec 64) {fetch : BitVec 64 → Option Instr} {r : Rv64Cpu}
    (hsits : (machine 64).Sits fetch r.pc (emitImm rd val)) :
    ∃ r', (machine 64).Steps fetch r r' ∧ r'.pc = r.pc + BitVec.ofNat 64 (4 * (emitImm rd val).length) ∧
      r'.gprRef rd = val ∧ SameBut [rd] r r' := by
  rcases wp_emitImm hrd val r with ⟨r', hexec, hvalue⟩
  refine ⟨r', hexec.steps hsits, ?_, hvalue⟩
  rw [← (straight_emitImm rd val).length]
  exact hexec.pc_eq

/-- The smallest positive constant that needs a shift. -/
theorem emitImm_loads_shifted : ∃ (fetch : BitVec 64 → Option Instr) (r r' : Rv64Cpu),
    (machine 64).Steps fetch r r' ∧ r'.gprRef Reg.a0 = 0x80000000 := by
  let r : Rv64Cpu := ⟨0, fun _ => 0, fun _ => 0, []⟩
  have hcode : emitImm Reg.a0 0x80000000 = [rvAddi Reg.a0 Reg.zero 1, rvSlli Reg.a0 Reg.a0 31] := by
    have hrest : (upperBits 0x80000000).sshiftRight (ffs (upperBits 0x80000000)) = (1 : BitVec 32).signExtend 64 := by
      decide
    rw [emitImm, if_neg (by decide)]
    simp only [hrest, emitImm_signExtend]
    decide
  have hsits : (machine 64).Sits _ r.pc (emitImm Reg.a0 0x80000000) :=
    (machine 64).sits_place (fun _ => none) (by rw [hcode]; decide) (by rw [hcode]; decide)
  rcases emitImm_loads (by decide) _ hsits with ⟨r', hsteps, _, hvalue, _⟩
  exact ⟨_, r, r', hsteps, hvalue⟩

end Linux64
end Jit
end Bpf
end Serval
