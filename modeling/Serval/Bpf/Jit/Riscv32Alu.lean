import Serval.Bpf.Jit.Riscv32State

/-!
# Riscv32Alu — what the code of each operation computes

One lemma for each case of the four `switch` statements of `bpf/jit/riscv32.rkt`: with the operands in
the pairs `rd` and `rs`, the code leaves the result of the operation in `rd`.  The two pairs may be the
same.  That no operation changes anything but `rd`, `t0` and `t1` shows in the code alone.
-/

namespace Serval
namespace Bpf
namespace Jit

open Serval.Core Riscv.Interp DoubleWord

variable {v : BitVec 64} {op : AluOp} {x : BitVec 32} {opi : BitVec 12 → Instr} {n : Nat}

/-! ## Operands and results -/

/-- A pair of different registers that are neither `zero` nor temporaries of an operation. -/
def Pair.Work (p : Pair) : Prop :=
  p.hi ∉ [p.lo, 0, Reg.t0, Reg.t1] ∧ p.lo ∉ [0, Reg.t0, Reg.t1]

instance (p : Pair) : Decidable p.Work :=
  inferInstanceAs (Decidable (_ ∧ _))

/-- The disequalities `simp` needs to read a register after a write to one of the pair. -/
theorem Pair.Work.distinct {p : Pair} (h : p.Work) :
    (p.hi ≠ p.lo ∧ p.lo ≠ p.hi ∧ p.hi ≠ 0 ∧ p.lo ≠ 0) ∧
      (p.hi ≠ Reg.t0 ∧ p.lo ≠ Reg.t0 ∧ Reg.t0 ≠ p.hi ∧ Reg.t0 ≠ p.lo) ∧
      (p.hi ≠ Reg.t1 ∧ p.lo ≠ Reg.t1 ∧ Reg.t1 ≠ p.hi ∧ Reg.t1 ≠ p.lo) := by
  rcases h with ⟨hhi, hlo⟩
  simp only [List.mem_cons, List.not_mem_nil, or_false, not_or] at hhi hlo
  rcases hhi with ⟨h₁, h₂, h₃, h₄⟩
  rcases hlo with ⟨h₅, h₆, h₇⟩
  exact ⟨⟨h₁, Ne.symm h₁, h₂, h₅⟩, ⟨h₃, h₆, Ne.symm h₃, Ne.symm h₆⟩, h₄, h₇, Ne.symm h₄, Ne.symm h₇⟩

@[simp] theorem temporaries_distinct :
    Reg.t0 ≠ Reg.t1 ∧ Reg.t1 ≠ Reg.t0 ∧ Reg.t0 ≠ 0 ∧ Reg.t1 ≠ 0 := by decide

/-- The operands of an operation are in `rd` and `rs`, and no high half is the low half of the other
pair. -/
structure Operands (rd rs : Pair) (v₁ v₂ : BitVec 64) (r : RvCpu) : Prop where
  workDst : rd.Work
  workSrc : rs.Work
  cross : rs.hi ≠ rd.lo ∧ rs.lo ≠ rd.hi
  aliased : rs.lo = rd.lo → rs.hi = rd.hi
  dst : Holds r (.regs rd) v₁
  src : Holds r (.regs rs) v₂

/-- The registers an operation may write. -/
def Pair.written (rd : Pair) : List Gpr :=
  [rd.hi, rd.lo, Reg.t0, Reg.t1]

theorem emitImm_onlyWrites (rd : Gpr) (val : BitVec 32) : OnlyWrites [rd] (emitImm rd val) := by
  simp only [emitImm]
  split
  · simp [rvAddi, rvIInsn, Op.hasEffect]
  · simp [rvAddi, rvIInsn, rvLui, rvUInsn, Op.hasEffect]

theorem aluR64_onlyWrites (rd rs : Pair) (op : AluOp) : OnlyWrites rd.written (aluR64 rd rs op) := by
  cases op <;>
    simp [Pair.written, aluR64, shiftBranches, rvAddi, rvIInsn, rvRInsn, rvSltu, rvAdd,
      rvSub, rvAnd, rvOr, rvXor, rvMul, rvMulhu, rvBlt, rvJal, rvSll, rvSrl, rvSra, rvSrli, rvSlli,
      rvSrai, Op.hasEffect]

theorem aluR32_onlyWrites (rd rs : Pair) (op : AluOp) : OnlyWrites rd.written (aluR32 rd rs op) := by
  cases op <;>
    simp [Pair.written, aluR32, rvAddi, rvIInsn, rvRInsn, rvAdd, rvSub, rvAnd, rvOr, rvXor,
      rvMul, rvDivu, rvRemu, rvSll, rvSrl, rvSra, Op.hasEffect]

theorem emitImm32_onlyWrites (rd : Pair) (imm : BitVec 32) : OnlyWrites [rd.hi, rd.lo] (emitImm32 rd imm) := by
  refine onlyWrites_append.mpr ⟨(emitImm_onlyWrites rd.lo imm).mono (by simp), ?_⟩
  split
  · simp [rvAddi, rvIInsn, Op.hasEffect]
  · simp [rvAddi, rvIInsn, Op.hasEffect]

theorem emitWithImm_onlyWrites {gs : List Gpr} {op : Gpr → Instr} (imm : BitVec 32) (ht0 : Reg.t0 ∈ gs)
    (hopi : OnlyWrites gs [opi (low12 imm)]) (hop : OnlyWrites gs [op Reg.t0]) :
    OnlyWrites gs (emitWithImm opi op imm) := by
  unfold emitWithImm
  split
  · exact hopi
  · exact onlyWrites_append.mpr ⟨(emitImm_onlyWrites Reg.t0 imm).mono (by simpa using ht0), hop⟩

theorem aluI64_onlyWrites (rd : Pair) (imm : BitVec 32) (op : AluOp) : OnlyWrites rd.written (aluI64 rd imm op) := by
  cases op with
  | mov => exact (emitImm32_onlyWrites rd imm).mono (by simp [Pair.written])
  | and | or | xor =>
      refine onlyWrites_append.mpr ⟨emitWithImm_onlyWrites imm ?_ ?_ ?_, ?_⟩
      case refine_4 =>
        split <;> simp [Pair.written, rvAddi, rvOri, rvXori, rvIInsn, Op.hasEffect]
      all_goals
        simp [Pair.written, rvAndi, rvAnd, rvOri, rvOr, rvXori, rvXor, rvIInsn, rvRInsn, Op.hasEffect]
  | lsh | rsh | arsh =>
      simp only [aluI64]
      split
      · simp [Pair.written, rvAddi, rvSlli, rvSrli, rvSrai, rvIInsn, Op.hasEffect]
      · split
        · simp
        · simp [Pair.written, rvSlli, rvSrli, rvSrai, rvOr, rvRInsn, rvIInsn, Op.hasEffect]
  | add | sub | mul | div | mod | neg => exact onlyWrites_nil _

theorem aluI32_onlyWrites (rd : Pair) (imm : BitVec 32) (op : AluOp) : OnlyWrites rd.written (aluI32 rd imm op) := by
  cases op with
  | mov => exact (emitImm_onlyWrites rd.lo imm).mono (by simp [Pair.written])
  | sub =>
      simp only [aluI32]
      split
      · simp [Pair.written, rvAddi, rvIInsn, Op.hasEffect]
      · refine onlyWrites_append.mpr
          ⟨(emitImm_onlyWrites Reg.t0 imm).mono (by simp [Pair.written]), ?_⟩
        simp [Pair.written, rvSub, rvRInsn, Op.hasEffect]
  | add | and | or | xor | lsh | rsh | arsh =>
      refine emitWithImm_onlyWrites imm ?_ ?_ ?_ <;>
        simp [Pair.written, rvAddi, rvAndi, rvOri, rvXori, rvSlli, rvSrli, rvSrai, rvAdd, rvAnd, rvOr,
          rvXor, rvSll, rvSrl, rvSra, rvIInsn, rvRInsn, Op.hasEffect]
  | mul | div | mod | neg => exact onlyWrites_nil _

@[simp] theorem signExtend12_zero : (0#12).signExtend 32 = 0#32 := by simp

theorem mulhu_eq (x y : BitVec 32) : mulHighOp false false x y = mulHigh x y := rfl

/-! ## Operations on registers without a branch -/

section R64

variable {rd rs : Pair} {v₁ v₂ : BitVec 64} {r : RvCpu}

/-- Code without a branch that leaves the two words of a value. -/
theorem holds_line {code : List Instr} {y : BitVec 32} (hhi : hi (w := 32) v = x) (hlo : lo (w := 32) v = y)
    (hcode : (machine 32).line code (fun r' => r'.gprRef rd.hi = x ∧ r'.gprRef rd.lo = y) r) :
    (machine 32).line code (Holds · (.regs rd) v) r := by
  subst hhi hlo
  simpa only [holds_regs] using hcode

variable (h : Operands rd rs v₁ v₂ r)

include h

/-- The operations on two operands, word by word. -/
theorem wp_words64 (hv : evaluateAlu64 op v₁ v₂ = .ok v) (hop : op ∈ [.add, .sub, .mul, .or, .and, .xor]) :
    (machine 32).wp (aluR64 rd rs op) (Holds · (.regs rd) v) r := by
  have hd := h.workDst.distinct
  have hs := h.workSrc.distinct
  have h₁ := holds_regs.mp h.dst
  have h₂ := holds_regs.mp h.src
  apply CodeMachine.wp_of_line
  simp only [aluR64]
  cases op with
  | add =>
      cases hv
      refine holds_line (hi_add (w := 32) v₁ v₂) (lo_add (w := 32) v₁ v₂) ?_
      simp [retire_gprRef, hd, hs, h.cross, h₁, h₂]
  | sub =>
      cases hv
      refine holds_line (hi_sub (w := 32) v₁ v₂) (lo_sub (w := 32) v₁ v₂) ?_
      simp [retire_gprRef, hd, hs, h.cross, h₁, h₂]
  | mul =>
      cases hv
      refine holds_line (hi_mul (w := 32) v₁ v₂) (lo_mul (w := 32) v₁ v₂) ?_
      simp [retire_gprRef, hd, hs, h.cross, h₁, h₂, mulhu_eq]
  | or =>
      cases hv
      refine holds_line (hi_or (w := 32) v₁ v₂) (lo_or (w := 32) v₁ v₂) ?_
      simp [retire_gprRef, hd, h.cross, h₁, h₂]
  | and =>
      cases hv
      refine holds_line (hi_and (w := 32) v₁ v₂) (lo_and (w := 32) v₁ v₂) ?_
      simp [retire_gprRef, hd, h.cross, h₁, h₂]
  | xor =>
      cases hv
      refine holds_line (hi_xor (w := 32) v₁ v₂) (lo_xor (w := 32) v₁ v₂) ?_
      simp [retire_gprRef, hd, h.cross, h₁, h₂]
  | lsh | rsh | arsh | div | mod | mov | neg => simp at hop

theorem wp_mov64 : (machine 32).wp (aluR64 rd rs .mov) (Holds · (.regs rd) (v₂)) r := by
  have hd := h.workDst.distinct
  have h₂ := holds_regs.mp h.src
  apply CodeMachine.wp_of_line
  refine holds_line rfl rfl ?_
  simp [aluR64, retire_gprRef, hd, h.cross, h₂]

theorem wp_neg64 : (machine 32).wp (aluR64 rd rs .neg) (Holds · (.regs rd) (-v₁)) r := by
  have hd := h.workDst.distinct
  have h₁ := holds_regs.mp h.dst
  apply CodeMachine.wp_of_line
  refine holds_line (hi_neg (w := 32) v₁) (lo_neg (w := 32) v₁) ?_
  simp [aluR64, retire_gprRef, hd, h₁]

end R64

/-! ## Shifts by a register -/

@[simp] theorem toNat_shiftMask_one : (shiftMask 1#32).toNat = 1 := by decide

@[simp] theorem toNat_shiftMask_last : (shiftMask 31#32).toNat = 31 := by decide

/-- The amounts the code of a shift by `n < 64` computes. -/
theorem shift_amounts (hn : n < 64) :
    (BitVec.ofNat 32 n + (-32 : BitVec 12).signExtend 32).slt 0#32 = decide (n < 32) ∧
      (32 ≤ n → BitVec.ofNat 32 n + (-32 : BitVec 12).signExtend 32 = BitVec.ofNat 32 (n - 32)) ∧
      (32 ≤ n → (shiftMask (BitVec.ofNat 32 (n - 32))).toNat = n - 32) ∧
      (n < 32 → (shiftMask (BitVec.ofNat 32 n)).toNat = n ∧
        (shiftMask (31#32 - BitVec.ofNat 32 n)).toNat = 31 - n) := by
  have hall : ∀ n : Fin 64,
      (BitVec.ofNat 32 n + (-32 : BitVec 12).signExtend 32).slt 0#32 = decide ((n : Nat) < 32) ∧
        (32 ≤ (n : Nat) →
          BitVec.ofNat 32 n + (-32 : BitVec 12).signExtend 32 = BitVec.ofNat 32 (n - 32)) ∧
        (32 ≤ (n : Nat) → (shiftMask (BitVec.ofNat 32 (n - 32))).toNat = n - 32) ∧
        ((n : Nat) < 32 → (shiftMask (BitVec.ofNat 32 n)).toNat = n ∧
          (shiftMask (31#32 - BitVec.ofNat 32 n)).toNat = 31 - n) := by
    decide +kernel
  exact hall ⟨n, hn⟩

section Shifts

variable {rd rs : Pair} {v₁ v₂ : BitVec 64} {r : RvCpu} {large small : List Instr} {n : Nat}
  {Q : RvCpu → Prop}

theorem wp_shiftBranches (hn : n < 64) (hlo : r.gprRef rs.lo = BitVec.ofNat 32 n)
    (hlarge : (machine 32).length large = 8) (hsmall : (machine 32).length small = 28)
    (hgoto : ∀ r' pc, Q r' → Q (goto r' pc))
    (hge : 32 ≤ n → ∀ r', r'.gprRef Reg.t0 = BitVec.ofNat 32 (n - 32) → SameBut [Reg.t0] r r' →
      (machine 32).line large Q r')
    (hlt : n < 32 → ∀ r', SameBut [Reg.t0] r r' → (machine 32).line small Q r') :
    (machine 32).wp (shiftBranches rs large small) Q r := by
  rcases shift_amounts hn with ⟨hsign, hdiff, _, _⟩
  have hcode : shiftBranches rs large small = [rvAddi Reg.t0 rs.lo (-32)] ++
      (rvBlt Reg.t0 Reg.zero 8 :: ((large ++ [rvJal Reg.zero 16]) ++ small)) := by
    simp [shiftBranches]
  rw [hcode]
  refine CodeMachine.wp_append (CodeMachine.wp_of_line _ ?_)
  simp only [line_rvAddi, CodeMachine.line_nil]
  have ht0 : (retire r Reg.t0 (r.gprRef rs.lo + (-32 : BitVec 12).signExtend 32)).gprRef Reg.t0 =
      BitVec.ofNat 32 n + (-32 : BitVec 12).signExtend 32 := by
    simp [retire_gprRef, hlo]
  have hsame : ∀ pc, SameBut [Reg.t0] r
      (goto (retire r Reg.t0 (r.gprRef rs.lo + (-32 : BitVec 12).signExtend 32)) pc) := by
    refine fun pc => ⟨fun g hg => ?_, by simp⟩
    rw [goto_gprRef, retire_gprRef, if_neg fun hc => hg (by simp [hc.1])]
  by_cases hsmaller : n < 32
  · -- the branch goes over the code for large amounts and the jump behind it
    have hoffset : (8 : BitVec 12).signExtend 32 <<< (1 : BitVec 32) =
        BitVec.ofNat 32 (4 + (machine 32).length (large ++ [rvJal Reg.zero 16])) := by
      rw [CodeMachine.length_append, hlarge]
      decide
    refine wp_rvBlt_taken ?_ hoffset fun pc => CodeMachine.wp_of_line _ (hlt hsmaller _ (hsame pc))
    rw [ht0]
    exact hsign.trans (decide_eq_true hsmaller)
  · have hoffset : (16 : BitVec 20).signExtend 32 <<< (1 : BitVec 32) =
        BitVec.ofNat 32 (4 + (machine 32).length small) := by
      rw [hsmall]
      decide
    rw [List.append_assoc]
    refine wp_rvBlt_next ?_ fun pc => CodeMachine.wp_append (CodeMachine.wp_mono
      (CodeMachine.wp_of_line _ (hge (by omega) _ ?_ (hsame pc))) fun r' hq => ?_)
    · rw [ht0]
      exact hsign.trans (decide_eq_false hsmaller)
    · rw [goto_gprRef, ht0]
      exact hdiff (by omega)
    · have hjump : (machine 32).wp (rvJal 0 16 :: (small ++ [])) Q r' :=
        wp_rvJal hoffset fun pc => CodeMachine.wp_nil (hgoto r' pc hq)
      rwa [List.append_nil] at hjump

@[simp] theorem holds_goto {r : RvCpu} {pc : BitVec 32} {l : Loc} {v : BitVec 64} :
    Holds (goto r pc) l v ↔ Holds r l v := by
  cases l with
  | regs p => rfl
  | stack a b => rfl

/-- An amount below 64 is in the low word. -/
theorem exists_amount (h : v₂ < 64) : ∃ n < 64, v₂.toNat = n ∧
    lo (w := 32) v₂ = BitVec.ofNat 32 n ∧ hi (w := 32) v₂ = 0#32 := by
  have hlt : v₂.toNat < 64 := h
  refine ⟨v₂.toNat, hlt, rfl, ?_, ?_⟩
  · apply BitVec.eq_of_toNat_eq
    rw [toNat_lo, BitVec.toNat_ofNat]
  · apply BitVec.eq_of_toNat_eq
    rw [toNat_hi]
    exact Nat.div_eq_of_lt (by omega)

theorem shift_twice (hn : n < 32) : 1 + (31 - n) = 32 - n := by omega

theorem wp_shift64 (h : Operands rd rs v₁ v₂ r) (hv : evaluateAlu64 op v₁ v₂ = .ok v)
    (hop : op = .lsh ∨ op = .rsh ∨ op = .arsh) (hv₂ : v₂ < 64) :
    (machine 32).wp (aluR64 rd rs op) (Holds · (.regs rd) v) r := by
  have hd := h.workDst.distinct
  have hs := h.workSrc.distinct
  rcases holds_regs.mp h.dst with ⟨hhi, hlo⟩
  rcases holds_regs.mp h.src with ⟨hsrcHi, hsrc⟩
  rcases exists_amount hv₂ with ⟨n, hn, hn₂, hamount, hzero⟩
  rcases shift_amounts hn with ⟨_, _, hlarge, hsmall⟩
  rw [hamount] at hsrc
  have hgoto : ∀ r' pc, Holds r' (.regs rd) v → Holds (goto r' pc) (.regs rd) v := fun r' pc => holds_goto.mpr
  -- the low word may be the amount and is gone when the high word is shifted, but then the high word is zero
  have hzero' : rs.lo = rd.lo → hi (w := 32) v₁ = 0#32 := fun halias => by
    rw [← hhi, ← h.aliased halias, hsrcHi, hzero]
  rcases hop with rfl | rfl | rfl
  · obtain rfl : v₁ <<< n = v := by simpa [evaluateAlu64, BitVec.shiftLeft_eq', hn₂] using hv
    refine wp_shiftBranches hn hsrc rfl rfl hgoto (fun hge r' ht0 hsame => ?_) (fun hlt r' hsame => ?_)
    · refine holds_line (hi_shiftLeft_of_le (w := 32) v₁ hge) (lo_shiftLeft_of_le (w := 32) v₁ hge) ?_
      simp [retire_gprRef, hd, ht0, hsame.gpr, hlo, hlarge hge]
    · refine holds_line (hi_shiftLeft_of_lt (w := 32) v₁ hlt) (lo_shiftLeft_of_lt (w := 32) v₁ hlt) ?_
      simp [retire_gprRef, hd, hs, hsame.gpr, hhi, hlo, hsrc, hsmall hlt, h.cross, ← BitVec.shiftRight_add,
        shift_twice hlt]
  · obtain rfl : v₁ >>> n = v := by simpa [evaluateAlu64, BitVec.ushiftRight_eq', hn₂] using hv
    refine wp_shiftBranches hn hsrc rfl rfl hgoto (fun hge r' ht0 hsame => ?_) (fun hlt r' hsame => ?_)
    · refine holds_line (hi_ushiftRight_of_le (w := 32) v₁ hge) (lo_ushiftRight_of_le (w := 32) v₁ hge) ?_
      simp [retire_gprRef, hd, ht0, hsame.gpr, hhi, hlarge hge]
    · refine holds_line (hi_ushiftRight (w := 32) v₁ n) (lo_ushiftRight_of_lt (w := 32) v₁ hlt) ?_
      by_cases halias : rs.lo = rd.lo
      · simp [retire_gprRef, hd, hs, hsame.gpr, hhi, hlo, hsrc, hsmall hlt, hzero' halias]
      · simp [retire_gprRef, hd, hs, hsame.gpr, hhi, hlo, hsrc, hsmall hlt, ← BitVec.shiftLeft_add, shift_twice hlt,
          halias]
  · obtain rfl : v₁.sshiftRight n = v := by simpa [evaluateAlu64, BitVec.sshiftRight_eq', hn₂] using hv
    refine wp_shiftBranches hn hsrc rfl rfl hgoto (fun hge r' ht0 hsame => ?_) (fun hlt r' hsame => ?_)
    · refine holds_line (hi_sshiftRight_of_le (w := 32) v₁ hge) (lo_sshiftRight_of_le (w := 32) v₁ hge) ?_
      simp [retire_gprRef, hd, ht0, hsame.gpr, hhi, hlarge hge]
    · refine holds_line (hi_sshiftRight (w := 32) v₁ n) (lo_sshiftRight_of_lt (w := 32) v₁ hlt) ?_
      by_cases halias : rs.lo = rd.lo
      · simp [retire_gprRef, hd, hs, hsame.gpr, hhi, hlo, hsrc, hsmall hlt, hzero' halias]
      · simp [retire_gprRef, hd, hs, hsame.gpr, hhi, hlo, hsrc, hsmall hlt, ← BitVec.shiftLeft_add, shift_twice hlt,
          halias]

end Shifts

/-- Every operation of `emit_rv32_alu_r64` on two operands computes what the BPF interpreter does. -/
theorem wp_aluR64 {rd rs : Pair} {v₁ v₂ : BitVec 64} {r : RvCpu} (h : Operands rd rs v₁ v₂ r)
    (hv : evaluateAlu64 op v₁ v₂ = .ok v) (hdiv : op ≠ .div ∧ op ≠ .mod)
    (hshift : op = .lsh ∨ op = .rsh ∨ op = .arsh → v₂ < 64) :
    (machine 32).wp (aluR64 rd rs op) (Holds · (.regs rd) v) r := by
  cases op with
  | add | sub | mul | or | and | xor => exact wp_words64 h hv (by simp)
  | lsh | rsh | arsh => exact wp_shift64 h hv (by simp) (hshift (by simp))
  | div => exact absurd rfl hdiv.1
  | mod => exact absurd rfl hdiv.2
  | mov | neg => cases hv

/-! ## Operations on the low words -/

theorem wp_aluR32 {rd rs : Pair} {y z : BitVec 32} {r : RvCpu} (hd : rd.lo ≠ 0) (h₁ : r.gprRef rd.lo = x)
    (h₂ : r.gprRef rs.lo = y) (hz : evaluateAlu64 op x y = .ok z)
    (hshift : op = .lsh ∨ op = .rsh ∨ op = .arsh → y < 32) :
    (machine 32).wp (aluR32 rd rs op) (fun r' => r'.gprRef rd.lo = z) r := by
  apply CodeMachine.wp_of_line
  cases op with
  | div | mod =>
      rcases bind_eq_ok.mp hz with ⟨_, _, hz⟩
      cases hz
      simp [aluR32, retire_gprRef, hd, h₁, h₂]
  | lsh | rsh | arsh =>
      cases hz
      simp [aluR32, retire_gprRef, hd, h₁, h₂, shiftMask32_of_lt (hshift (by simp))]
  | mov | neg => cases hz
  | add | sub | mul | or | and | xor =>
      cases hz
      simp [aluR32, retire_gprRef, hd, h₁, h₂]

/-! ## Immediates in registers -/

section Imm

variable {rd : Pair} {r : RvCpu} {imm : BitVec 32}

theorem wp_emitImm {d : Gpr} (hd : d ≠ 0) (val : BitVec 32) :
    (machine 32).wp (emitImm d val) (fun r' => r'.gprRef d = val ∧ SameBut [d] r r') r := by
  refine wp_sameBut (emitImm_onlyWrites d val) (CodeMachine.wp_of_line _ ?_)
  have hsum := upper_add_lower val
  simp only [emitImm, low12_and]
  generalize (val + (1#32 <<< 11)).sshiftRight 12 = upper at hsum ⊢
  by_cases hupper : upper = 0
  · have hzero : ((0 : BitVec 32).extractLsb' 0 20 ++ 0#12).signExtend 32 = 0#32 := by simp
    rw [hupper, hzero, BitVec.zero_add] at hsum
    simp only [hupper, if_true, line_rvAddi, CodeMachine.line_nil, retire_gprRef, hsum]
    simp [hd]
  · simp only [hupper, if_false, line_rvAddi, line_rvLui, CodeMachine.line_nil, retire_gprRef, hd,
      and_true, not_false_eq_true, ne_eq, if_true, hsum]

/-- The high word of a sign-extended immediate. -/
theorem hi_imm (imm : BitVec 32) : hi (w := 32) (imm.signExtend 64) = if imm.msb then BitVec.allOnes 32 else 0#32 :=
  hi_signExtend imm

theorem lo_imm (imm : BitVec 32) : lo (w := 32) (imm.signExtend 64) = imm :=
  lo_signExtend imm

theorem signExtend12_ones : (-1 : BitVec 12).signExtend 32 = BitVec.allOnes 32 := by decide

theorem wp_emitImm32 (hrd : rd.Work) :
    (machine 32).wp (emitImm32 rd imm) (Holds · (.regs rd) (imm.signExtend 64)) r := by
  have hd := hrd.distinct
  refine CodeMachine.wp_append (CodeMachine.wp_mono (wp_emitImm hd.1.2.2.2 imm) fun r₁ h₁ => ?_)
  apply CodeMachine.wp_of_line
  have hhi := hi_imm imm
  rw [BitVec.zero_sle_eq_not_msb]
  cases hmsb : imm.msb with
  | false =>
      simp only [hmsb, Bool.not_false, if_true, line_rvAddi, CodeMachine.line_nil] at hhi ⊢
      refine holds_regs.mpr ⟨?_, ?_⟩
      · simp [retire_gprRef, hd, hhi]
      · simp [retire_gprRef, hd, h₁.1, lo_imm]
  | true =>
      simp only [hmsb, Bool.not_true, if_true, Bool.false_eq_true, if_false, line_rvAddi,
        CodeMachine.line_nil, signExtend12_ones] at hhi ⊢
      refine holds_regs.mpr ⟨?_, ?_⟩
      · simp [retire_gprRef, hd, hhi]
      · simp [retire_gprRef, hd, h₁.1, lo_imm]

/-- The immediate or the register form of an operation. -/
theorem wp_emitWithImm {d : Gpr} {op : Gpr → Instr} {f : BitVec 32 → BitVec 32 → BitVec 32} (hd : d ≠ 0 ∧ d ≠ Reg.t0)
    (hopi : ∀ i r Q, (machine 32).line [opi i] Q r ↔ Q (retire r d (f (r.gprRef d) (i.signExtend 32))))
    (hop : ∀ r Q, (machine 32).line [op Reg.t0] Q r ↔ Q (retire r d (f (r.gprRef d) (r.gprRef Reg.t0)))) :
    (machine 32).wp (emitWithImm opi op imm) (fun r' => r'.gprRef d = f (r.gprRef d) imm ∧
      SameBut [d, Reg.t0] r r') r := by
  unfold emitWithImm
  split
  next h12 =>
    refine CodeMachine.wp_of_line _ ((hopi ..).mpr ⟨?_, fun g hg => ?_, by simp⟩)
    · simp [retire_gprRef, hd, signExtend_low12 h12]
    · simp only [List.mem_cons, List.not_mem_nil, or_false, not_or] at hg
      simp [retire_gprRef, hg]
  next =>
    refine CodeMachine.wp_append (CodeMachine.wp_mono (wp_emitImm (by decide) imm) fun r₁ h₁ => ?_)
    rcases h₁ with ⟨ht0, hsame⟩
    refine CodeMachine.wp_of_line _ ((hop ..).mpr ⟨?_, fun g hg => ?_, ?_⟩)
    · simp [retire_gprRef, hd, ht0, hsame.gpr]
    · simp only [List.mem_cons, List.not_mem_nil, or_false, not_or] at hg
      simp [retire_gprRef, hg, hsame.gpr]
    · rw [retire_mregions, hsame.memory]

/-! ## Operations with an immediate on both words -/

variable {v₁ : BitVec 64}

section Bitwise

variable (hrd : rd.Work) (h : Holds r (.regs rd) v₁)

include hrd h

/-- A bitwise operation: the low words first, then the high word according to the sign. -/
theorem wp_bitwiseI64 {op : Gpr → Instr} {tail : List Instr} {f : BitVec 32 → BitVec 32 → BitVec 32}
    (hopi : ∀ i r Q, (machine 32).line [opi i] Q r ↔ Q (retire r rd.lo (f (r.gprRef rd.lo) (i.signExtend 32))))
    (hop : ∀ r Q, (machine 32).line [op Reg.t0] Q r ↔ Q (retire r rd.lo (f (r.gprRef rd.lo) (r.gprRef Reg.t0))))
    (hlo : lo (w := 32) v = f (lo (w := 32) v₁) (lo (w := 32) (imm.signExtend 64)))
    (hhi : hi (w := 32) v = f (hi (w := 32) v₁) (hi (w := 32) (imm.signExtend 64)))
    (htail : ∀ r₁, r₁.gprRef rd.hi = hi (w := 32) v₁ → (machine 32).line tail (fun r₂ =>
      r₂.gprRef rd.hi = f (hi (w := 32) v₁) (if imm.msb then BitVec.allOnes 32 else 0#32) ∧
        r₂.gprRef rd.lo = r₁.gprRef rd.lo) r₁) :
    (machine 32).wp (emitWithImm opi op imm ++ tail) (Holds · (.regs rd) v) r := by
  have hd := hrd.distinct
  rcases holds_regs.mp h with ⟨hhi₁, hlo₁⟩
  refine CodeMachine.wp_append (CodeMachine.wp_mono
    (wp_emitWithImm ⟨hd.1.2.2.2, hd.2.1.2.1⟩ hopi hop) fun r₁ h₁ => ?_)
  rcases h₁ with ⟨hvalue, hsame⟩
  have hkeep : r₁.gprRef rd.hi = hi (w := 32) v₁ := by
    rw [hsame.gpr rd.hi (by simp [hd]), hhi₁]
  refine CodeMachine.wp_mono (CodeMachine.wp_of_line _ (htail r₁ hkeep)) fun r₂ h₂ => ?_
  exact holds_regs.mpr ⟨by rw [h₂.1, hhi, hi_imm], by rw [h₂.2, hvalue, hlo₁, hlo, lo_imm]⟩

theorem wp_andI64 : (machine 32).wp (aluI64 rd imm .and) (Holds · (.regs rd) (v₁ &&& imm.signExtend 64)) r := by
  refine wp_bitwiseI64 hrd h (fun i r Q => line_rvAndi r _ _ [] Q i) (fun r Q => line_rvAnd r _ _ _ [] Q)
    (lo_and ..) (hi_and ..) fun r₁ hr₁ => ?_
  rw [BitVec.zero_sle_eq_not_msb]
  cases imm.msb with
  | false => simp [retire_gprRef, hrd.distinct]
  | true =>
      simp only [if_true, BitVec.and_allOnes]
      simp [hr₁]

theorem wp_orI64 : (machine 32).wp (aluI64 rd imm .or) (Holds · (.regs rd) (v₁ ||| imm.signExtend 64)) r := by
  refine wp_bitwiseI64 hrd h (fun i r Q => line_rvOri r _ _ [] Q i) (fun r Q => line_rvOr r _ _ _ [] Q)
    (lo_or ..) (hi_or ..) fun r₁ hr₁ => ?_
  rw [BitVec.ofNat_eq_ofNat, BitVec.slt_zero_eq_msb]
  cases imm.msb with
  | false => simp [hr₁]
  | true =>
      simp only [if_true, line_rvOri, CodeMachine.line_nil, signExtend12_ones, BitVec.or_allOnes]
      simp [retire_gprRef, hrd.distinct]

theorem wp_xorI64 : (machine 32).wp (aluI64 rd imm .xor) (Holds · (.regs rd) (v₁ ^^^ imm.signExtend 64)) r := by
  refine wp_bitwiseI64 hrd h (fun i r Q => line_rvXori r _ _ [] Q i) (fun r Q => line_rvXor r _ _ _ [] Q)
    (lo_xor ..) (hi_xor ..) fun r₁ hr₁ => ?_
  rw [BitVec.ofNat_eq_ofNat, BitVec.slt_zero_eq_msb]
  cases imm.msb with
  | false => simp [hr₁]
  | true =>
      simp only [if_true, line_rvXori, CodeMachine.line_nil, signExtend12_ones]
      simp [retire_gprRef, hrd.distinct, hr₁]

end Bitwise

/-- The amounts in the code of a shift by the immediate `n < 64`. -/
theorem shiftI_amounts (hn : n < 64) :
    (32 ≤ n → (shiftMask ((low12 (BitVec.ofNat 32 n - 32)).signExtend 32)).toNat = n - 32) ∧
      (n < 32 → (shiftMask ((low12 (BitVec.ofNat 32 n)).signExtend 32)).toNat = n ∧
        (n ≠ 0 → (shiftMask ((low12 (32 - BitVec.ofNat 32 n)).signExtend 32)).toNat = 32 - n)) := by
  have hall : ∀ n : Fin 64,
      (32 ≤ (n : Nat) →
        (shiftMask ((low12 (BitVec.ofNat 32 n - 32)).signExtend 32)).toNat = n - 32) ∧
      ((n : Nat) < 32 → (shiftMask ((low12 (BitVec.ofNat 32 n)).signExtend 32)).toNat = n ∧
        ((n : Nat) ≠ 0 →
          (shiftMask ((low12 (32 - BitVec.ofNat 32 n)).signExtend 32)).toNat = 32 - n)) := by
    decide +kernel
  exact hall ⟨n, hn⟩

theorem exists_immAmount (h : imm < 64) : ∃ n < 64, imm = BitVec.ofNat 32 n ∧
    (imm.signExtend 64).toNat = n ∧ (32 ≤ imm ↔ 32 ≤ n) ∧ (imm = 0 ↔ n = 0) := by
  have hlt : imm.toNat < 64 := h
  refine ⟨imm.toNat, hlt, (by simp), ?_, Iff.rfl, ?_⟩
  · rw [BitVec.toNat_signExtend, BitVec.toNat_setWidth, BitVec.msb_eq_decide]
    have hsmall : ¬ 2 ^ (32 - 1) ≤ imm.toNat := by omega
    simp only [hsmall, decide_false, Bool.false_eq_true, if_false]
    omega
  · exact ⟨fun heq => by rw [heq]; rfl, fun heq => BitVec.eq_of_toNat_eq heq⟩

theorem wp_shiftI64 (hrd : rd.Work) (h : Holds r (.regs rd) v₁) (hv : evaluateAlu64 op v₁ (imm.signExtend 64) = .ok v)
    (hop : op = .lsh ∨ op = .rsh ∨ op = .arsh) (himm : imm < 64) :
    (machine 32).wp (aluI64 rd imm op) (Holds · (.regs rd) v) r := by
  have hd := hrd.distinct
  rcases holds_regs.mp h with ⟨hhi, hlo⟩
  rcases exists_immAmount himm with ⟨n, hn, rfl, hamount, hlarge, hzero⟩
  rcases shiftI_amounts hn with ⟨hge, hlt⟩
  apply CodeMachine.wp_of_line
  -- nothing, more than a word, or less than one
  by_cases hn0 : n = 0
  · obtain rfl : v₁ = v := by
      rcases hop with rfl | rfl | rfl <;>
        simpa [evaluateAlu64, BitVec.shiftLeft_eq', BitVec.ushiftRight_eq', BitVec.sshiftRight_eq', hamount,
          hn0] using hv
    rcases hop with rfl | rfl | rfl <;> simpa [hn0, aluI64] using h
  have hshifts := And.intro (@BitVec.shiftLeft_eq' 32 32) (And.intro (@BitVec.ushiftRight_eq' 32 32)
    (@BitVec.sshiftRight_eq' 32 32))
  by_cases hn32 : 32 ≤ n
  · rcases hop with rfl | rfl | rfl
    · obtain rfl : v₁ <<< n = v := by simpa [evaluateAlu64, BitVec.shiftLeft_eq', hamount] using hv
      refine holds_line (hi_shiftLeft_of_le (w := 32) v₁ hn32) (lo_shiftLeft_of_le (w := 32) v₁ hn32) ?_
      simp only [aluI64, hlarge, hn32, if_true, line_rvSlli, line_rvAddi, CodeMachine.line_nil, hshifts, hge hn32]
      simp [retire_gprRef, hd, hlo]
    · obtain rfl : v₁ >>> n = v := by simpa [evaluateAlu64, BitVec.ushiftRight_eq', hamount] using hv
      refine holds_line (hi_ushiftRight_of_le (w := 32) v₁ hn32) (lo_ushiftRight_of_le (w := 32) v₁ hn32) ?_
      simp only [aluI64, hlarge, hn32, if_true, line_rvSrli, line_rvAddi, CodeMachine.line_nil, hshifts, hge hn32]
      simp [retire_gprRef, hd, hhi]
    · obtain rfl : v₁.sshiftRight n = v := by simpa [evaluateAlu64, BitVec.sshiftRight_eq', hamount] using hv
      refine holds_line (hi_sshiftRight_of_le (w := 32) v₁ hn32) (lo_sshiftRight_of_le (w := 32) v₁ hn32) ?_
      simp only [aluI64, hlarge, hn32, if_true, line_rvSrai, CodeMachine.line_nil, hshifts, hge hn32]
      simp [retire_gprRef, hd, hhi]
  · have hn' : n < 32 := by omega
    rcases hlt hn' with ⟨hmask, hrest⟩
    rcases hop with rfl | rfl | rfl
    · obtain rfl : v₁ <<< n = v := by simpa [evaluateAlu64, BitVec.shiftLeft_eq', hamount] using hv
      refine holds_line (hi_shiftLeft_of_lt (w := 32) v₁ hn') (lo_shiftLeft_of_lt (w := 32) v₁ hn') ?_
      simp only [aluI64, hlarge, hzero, hn32, hn0, if_false, line_rvSlli, line_rvSrli, line_rvOr,
        CodeMachine.line_nil, hshifts, hmask, hrest hn0]
      simp [retire_gprRef, hd, hhi, hlo]
    · obtain rfl : v₁ >>> n = v := by simpa [evaluateAlu64, BitVec.ushiftRight_eq', hamount] using hv
      refine holds_line (hi_ushiftRight (w := 32) v₁ n) (lo_ushiftRight_of_lt (w := 32) v₁ hn') ?_
      simp only [aluI64, hlarge, hzero, hn32, hn0, if_false, line_rvSlli, line_rvSrli, line_rvOr,
        CodeMachine.line_nil, hshifts, hmask, hrest hn0]
      simp [retire_gprRef, hd, hhi, hlo]
    · obtain rfl : v₁.sshiftRight n = v := by simpa [evaluateAlu64, BitVec.sshiftRight_eq', hamount] using hv
      refine holds_line (hi_sshiftRight (w := 32) v₁ n) (lo_sshiftRight_of_lt (w := 32) v₁ hn') ?_
      simp only [aluI64, hlarge, hzero, hn32, hn0, if_false, line_rvSlli, line_rvSrli, line_rvSrai, line_rvOr,
        CodeMachine.line_nil, hshifts, hmask, hrest hn0]
      simp [retire_gprRef, hd, hhi, hlo]

/-- Every operation of `emit_rv32_alu_i64` with two operands computes what the BPF interpreter does. -/
theorem wp_aluI64 (hrd : rd.Work) (h : Holds r (.regs rd) v₁) (hv : evaluateAlu64 op v₁ (imm.signExtend 64) = .ok v)
    (hop : op ∈ [.and, .or, .xor, .lsh, .rsh, .arsh]) (hshift : op = .lsh ∨ op = .rsh ∨ op = .arsh → imm < 64) :
    (machine 32).wp (aluI64 rd imm op) (Holds · (.regs rd) v) r := by
  cases op with
  | and => exact Except.ok.inj hv ▸ wp_andI64 hrd h
  | or => exact Except.ok.inj hv ▸ wp_orI64 hrd h
  | xor => exact Except.ok.inj hv ▸ wp_xorI64 hrd h
  | lsh | rsh | arsh => exact wp_shiftI64 hrd h hv (by simp) (hshift (by simp))
  | add | sub | mul | div | mod | mov | neg => simp at hop

/-! ## Operations with an immediate on the low words -/

theorem wp_aluI32 {z : BitVec 32} (hrd : rd.Work) (hx : r.gprRef rd.lo = x) (hz : evaluateAlu64 op x imm = .ok z)
    (hop : op ∈ [.add, .sub, .and, .or, .xor, .lsh, .rsh, .arsh])
    (hshift : op = .lsh ∨ op = .rsh ∨ op = .arsh → imm < 32) :
    (machine 32).wp (aluI32 rd imm op) (fun r' => r'.gprRef rd.lo = z) r := by
  have hd := hrd.distinct
  have hlo : rd.lo ≠ 0 ∧ rd.lo ≠ Reg.t0 := ⟨hd.1.2.2.2, hd.2.1.2.1⟩
  -- all but the difference go through the immediate or the register form of one operation
  have hform : ∀ {opi : BitVec 12 → Instr} {op : Gpr → Instr} (f : BitVec 32 → BitVec 32 → BitVec 32),
      (∀ i r Q, (machine 32).line [opi i] Q r ↔
        Q (retire r rd.lo (f (r.gprRef rd.lo) (i.signExtend 32)))) →
      (∀ r Q, (machine 32).line [op Reg.t0] Q r ↔
        Q (retire r rd.lo (f (r.gprRef rd.lo) (r.gprRef Reg.t0)))) → f x imm = z →
      (machine 32).wp (emitWithImm opi op imm) (fun r' => r'.gprRef rd.lo = z) r := by
    intro opi op f hopi hreg hf
    refine CodeMachine.wp_mono (wp_emitWithImm hlo hopi hreg) fun r' h' => ?_
    rw [h'.1, hx, hf]
  cases op with
  | add =>
      exact hform (· + ·) (fun i r Q => line_rvAddi r _ _ [] Q i) (fun r Q => line_rvAdd r _ _ _ [] Q)
        (Except.ok.inj hz)
  | and =>
      exact hform (· &&& ·) (fun i r Q => line_rvAndi r _ _ [] Q i)
        (fun r Q => line_rvAnd r _ _ _ [] Q) (Except.ok.inj hz)
  | or =>
      exact hform (· ||| ·) (fun i r Q => line_rvOri r _ _ [] Q i)
        (fun r Q => line_rvOr r _ _ _ [] Q) (Except.ok.inj hz)
  | xor =>
      exact hform (· ^^^ ·) (fun i r Q => line_rvXori r _ _ [] Q i)
        (fun r Q => line_rvXor r _ _ _ [] Q) (Except.ok.inj hz)
  | lsh =>
      refine hform (fun a b => a <<< shiftMask b) (fun i r Q => line_rvSlli r _ _ [] Q i)
        (fun r Q => line_rvSll r _ _ _ [] Q) ?_
      rw [shiftMask32_of_lt (hshift (by simp))]
      exact Except.ok.inj hz
  | rsh =>
      refine hform (fun a b => a >>> shiftMask b) (fun i r Q => line_rvSrli r _ _ [] Q i)
        (fun r Q => line_rvSrl r _ _ _ [] Q) ?_
      rw [shiftMask32_of_lt (hshift (by simp))]
      exact Except.ok.inj hz
  | arsh =>
      refine hform (fun a b => a.sshiftRight' (shiftMask b)) (fun i r Q => line_rvSrai r _ _ [] Q i)
        (fun r Q => line_rvSra r _ _ _ [] Q) ?_
      rw [shiftMask32_of_lt (hshift (by simp))]
      exact Except.ok.inj hz
  | sub =>
      cases hz
      simp only [aluI32]
      by_cases h12 : is12bInt (-imm)
      · simp only [h12, if_true]
        apply CodeMachine.wp_of_line
        simp [retire_gprRef, hlo, hx, signExtend_low12 h12, BitVec.sub_eq_add_neg]
      · simp only [h12, if_false]
        refine CodeMachine.wp_append (CodeMachine.wp_mono (wp_emitImm (by decide) imm)
          fun r₁ h₁ => CodeMachine.wp_of_line _ ?_)
        simp [retire_gprRef, hlo, h₁.1, h₁.2.gpr, hx]
  | mul | div | mod | mov | neg => simp at hop

/-! ## The byte swap -/

theorem rev16_eq (x : BitVec 32) :
    (x <<< 16 >>> 8 + x <<< 16 <<< 8) >>> 16 =
      (x.extractLsb' 0 8 ++ x.extractLsb' 8 8).setWidth 32 := by
  -- the summands have no bit in common
  have hdisjoint : x <<< 16 >>> 8 &&& x <<< 16 <<< 8 = 0#32 := by
    apply BitVec.eq_of_getLsbD_eq
    intro i hi
    simp only [BitVec.getLsbD_and, BitVec.getLsbD_ushiftRight, BitVec.getLsbD_shiftLeft,
      BitVec.getLsbD_zero]
    by_cases h : 8 + i < 32
    · have h' : i < 8 ∨ i - 8 < 16 := by omega
      rcases h' with h' | h'
      · simp [h']
      · simp [h']
    · simp [h]
  rw [BitVec.add_eq_or_of_and_eq_zero _ _ hdisjoint]
  apply BitVec.eq_of_getLsbD_eq
  intro i hi
  simp only [BitVec.getLsbD_or, BitVec.getLsbD_ushiftRight, BitVec.getLsbD_shiftLeft,
    BitVec.getLsbD_setWidth, BitVec.getLsbD_append, BitVec.getLsbD_extractLsb', hi]
  grind

theorem byte_lo (v : BitVec 64) {k : Nat} (hk : k + 8 ≤ 32) :
    (lo (w := 32) v).extractLsb' k 8 = v.extractLsb' k 8 := by
  apply BitVec.eq_of_getLsbD_eq
  intro i hi
  have hlt : k + i < 32 := by omega
  simp [hi, hlt]

theorem wp_fromBe16 (hrd : rd.Work) (h : Holds r (.regs rd) v₁) (hv : swapBytes v₁ 16 = .ok v) :
    (machine 32).wp (emitRv32Rev16 rd.lo ++ [rvAddi rd.hi Reg.zero 0]) (Holds · (.regs rd) v) r := by
  have hd := hrd.distinct
  rcases holds_regs.mp h with ⟨_, hlo⟩
  have hmask : (shiftMask 16#32).toNat = 16 ∧ (shiftMask 8#32).toNat = 8 := by decide
  have hvalue :
      v = ((lo (w := 32) v₁ <<< 16 >>> 8 + lo (w := 32) v₁ <<< 16 <<< 8) >>> 16).setWidth 64 := by
    rw [rev16_eq, byte_lo v₁ (by decide), byte_lo v₁ (by decide),
      BitVec.setWidth_setWidth (by omega)]
    exact (Except.ok.inj hv).symm
  apply CodeMachine.wp_of_line
  simp only [emitRv32Rev16, List.cons_append, List.nil_append, line_rvSlli, line_rvSrli, line_rvAdd,
    line_rvAddi, CodeMachine.line_nil]
  rw [hvalue]
  refine holds_regs.mpr ⟨Eq.trans ?_ (hi_zeroExtend _).symm, Eq.trans ?_ (lo_zeroExtend _).symm⟩
  · simp [retire_gprRef, hd]
  · simp [retire_gprRef, hd, hlo, hmask]

end Imm

end Jit
end Bpf
end Serval
