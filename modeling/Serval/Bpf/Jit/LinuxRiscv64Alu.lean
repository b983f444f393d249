import Serval.Bpf.Jit.LinuxRiscv64Constants

/-!
# LinuxRiscv64Alu — arithmetic in the C JIT compiler

Without the patch the code of some 32-bit operations does not clear the upper half of the result (`clearsUpper`).  Apart
from these, most code is that of `riscv64.rkt` with the patch; what is new are the other operations with an immediate.
-/

namespace Serval
namespace Bpf
namespace Jit
namespace Linux64

open Serval.Core Riscv.Interp
open Rv64 (Rv64Cpu runs emitAlu emitZext32)

/-- The code clears the upper half after a 32-bit operation.  In some cases the source does not, and the sign of the
result is left in it. -/
def clearsUpper : Code → Bool
  | .binary .alu op .x => op = .mov ∨ op = .mul ∨ op = .div ∨ op = .mod
  | .binary .alu op .k => op ≠ .lsh ∧ op ≠ .rsh ∧ op ≠ .arsh
  | .neg .alu => false
  | _ => true

/-- The operations with an immediate that `riscv64.rkt` does not translate. -/
def isNewK : Code → Bool
  | .binary _ op .k => op ∈ [.sub, .mul, .div, .mod, .or, .and, .xor]
  | _ => false

/-- Otherwise the code is that of `riscv64.rkt` with the patch. -/
theorem emitInsn_eq_runJit (offset : List (BitVec 32)) (k : Nat) {i : Insn} (halu : i.code.isAlu)
    (hclears : clearsUpper i.code) (hnew : isNewK i.code = false) : emitInsn offset k i = Rv64.runJit true i := by
  rcases i with ⟨code, dst, src, off, imm⟩
  cases code with
  | binary cls op source =>
      cases source with
      | x => cases cls <;> cases op <;> first | (simp [clearsUpper] at hclears; done) | rfl
      | k =>
          cases cls <;> cases op <;>
            first
              | (simp [clearsUpper] at hclears; done)
              | (simp [isNewK] at hnew; done)
              | (simp only [emitInsn, emitAluK, emitViaT1, emitImm_signExtend, Rv64.runJit, apply_ite some]; done)
              | rfl
  | neg cls =>
      cases cls with
      | alu64 => rfl
      | alu => simp [clearsUpper] at hclears
  | endian order => cases order <;> rfl
  | ja => simp [Code.isAlu] at halu
  | jmp op source => simp [Code.isAlu] at halu

/-! ## The shape of the code -/

/-- Straight code that writes `rd` and the temporaries only. -/
def Plain (rd : Gpr) (code : List Instr) : Prop :=
  Straight code ∧ OnlyWrites [rd, Reg.t1, Reg.t2] code

section Plain

variable {cls : AluClass} {rd : Gpr} {imm : BitVec 32} {op : AluOp} {code c₁ c₂ : List Instr}

theorem Plain.append (h₁ : Plain rd c₁) (h₂ : Plain rd c₂) : Plain rd (c₁ ++ c₂) :=
  ⟨straight_append.mpr ⟨h₁.1, h₂.1⟩, onlyWrites_append.mpr ⟨h₁.2, h₂.2⟩⟩

theorem plain_single {i : Instr} (hgoes : goesOn i.op) (hsize : i.size = DEFAULT_SIZE)
    (heffect : i.op.hasEffect = false) (hdst : i.dst = some rd) : Plain rd [i] :=
  ⟨by simp [hgoes, hsize], Rv64.onlyWrites_single heffect hdst (by simp)⟩

theorem plain_emitZext32 (rd : Gpr) : Plain rd (emitZext32 rd) :=
  ⟨by simp [emitZext32, goesOn, rvSlli, rvSrli, rvIInsn], (Rv64.emitZext32_onlyWrites rd).mono (by simp)⟩

theorem plain_emitImm {d : Gpr} (hd : d ∈ [rd, Reg.t1, Reg.t2]) (imm : BitVec 32) :
    Plain rd (emitImm d (imm.signExtend 64)) := by
  refine ⟨straight_emitImm _ _, ?_⟩
  rw [emitImm_signExtend]
  exact (Rv64.emitImm_onlyWrites d imm).mono (by simpa using hd)

theorem plain_emitAlu {op64 op32 : Instr} {zext : Bool} (h64 : Plain rd [op64]) (h32 : Plain rd [op32]) :
    Plain rd (emitAlu cls rd op64 op32 zext) := by
  cases cls with
  | alu64 => exact h64
  | alu =>
      cases zext with
      | false => exact h32
      | true => exact h32.append (plain_emitZext32 rd)

theorem plain_emitAluK (h : emitAluK cls rd imm op = some code) : Plain rd code := by
  have hvia : ∀ {op64 op32 : Gpr → Gpr → Gpr → Instr}, Plain rd [op64 rd rd Reg.t1] → Plain rd [op32 rd rd Reg.t1] →
      Plain rd (emitViaT1 cls rd imm op64 op32) :=
    fun h64 h32 => (plain_emitImm (by simp) imm).append (plain_emitAlu h64 h32)
  cases op <;> simp only [emitAluK, Option.some.injEq, reduceCtorEq] at h <;> rw [← h]
  case mov =>
    refine (plain_emitImm (by simp) imm).append ?_
    cases cls with
    | alu64 => exact ⟨straight_nil, onlyWrites_nil _⟩
    | alu => exact plain_emitZext32 rd
  case lsh | rsh | arsh => exact plain_emitAlu (plain_single rfl rfl rfl rfl) (plain_single rfl rfl rfl rfl)
  case mul | div | mod => exact hvia (plain_single rfl rfl rfl rfl) (plain_single rfl rfl rfl rfl)
  -- the operations that have an immediate form, for small immediates
  all_goals
    split
    · exact plain_emitAlu (plain_single rfl rfl rfl rfl) (plain_single rfl rfl rfl rfl)
    · exact hvia (plain_single rfl rfl rfl rfl) (plain_single rfl rfl rfl rfl)

end Plain

theorem straight_emitInsn {offset : List (BitVec 32)} {k : Nat} {i : Insn} {code : List Instr} (halu : i.code.isAlu)
    (h : emitInsn offset k i = some code) : Straight code := by
  rcases i with ⟨code, dst, src, off, imm⟩
  cases code with
  | binary cls op source =>
      cases source with
      | k => exact (plain_emitAluK h).1
      | x =>
          cases op <;> simp only [emitInsn, Rv64.runJit, Option.some.injEq, reduceCtorEq] at h <;> rw [← h]
          all_goals exact (plain_emitAlu (plain_single rfl rfl rfl rfl) (plain_single rfl rfl rfl rfl)).1
  | neg cls =>
      cases h
      exact (plain_emitAlu (plain_single rfl rfl rfl rfl) (plain_single rfl rfl rfl rfl)).1
  | endian order =>
      cases order with
      | fromLe =>
          cases h
          simp [goesOn, rvSlli, rvSrli, rvIInsn]
      | fromBe =>
          have hbyte : Straight (Rv64.emitSwapByte (Rv64.regmap dst)) := by
            simp [Rv64.emitSwapByte, goesOn, rvAndi, rvAdd, rvSlli, rvSrli, rvIInsn, rvRInsn]
          have hswap : ∀ n, Straight (Rv64.emitSwapBytes (Rv64.regmap dst) n) := by
            intro n i hi
            rcases List.mem_flatten.mp hi with ⟨c, hc, hic⟩
            exact hbyte i (List.eq_of_mem_replicate hc ▸ hic)
          cases h
          simp only [Rv64.emitFromBe, straight_append, hswap, and_true]
          refine ⟨⟨by simp [goesOn, rvAddi, rvIInsn], ?_⟩, by simp [goesOn, rvAndi, rvAdd, rvAddi, rvIInsn, rvRInsn]⟩
          split_ifs <;> simp [hswap]
  | ja => simp [Code.isAlu] at halu
  | jmp op source => simp [Code.isAlu] at halu

/-! ## Results -/

section NewK

variable {cls : AluClass} {op : AluOp} {rd : Gpr} {imm : BitVec 32} {code : List Instr} {r : Rv64Cpu} {v₁ v : BitVec 64}

theorem signExtend_neg {imm : BitVec 32} (h : is12bInt (-imm)) : (-imm).signExtend 64 = -imm.signExtend 64 := by
  apply BitVec.eq_of_toInt_eq
  rcases h with ⟨hge, hlt⟩
  rw [BitVec.sle_iff_toInt_le, show (BitVec.ofInt 32 (-0x800)).toInt = -0x800 from by decide, BitVec.toInt_neg] at hge
  rw [BitVec.slt_iff_toInt_lt, show (0x800 : BitVec 32).toInt = 0x800 from by decide, BitVec.toInt_neg] at hlt
  rw [BitVec.toInt_signExtend_of_le (by omega), BitVec.toInt_neg, BitVec.toInt_neg,
    BitVec.toInt_signExtend_of_le (by omega)]
  have hmin := BitVec.le_toInt imm
  have hmax : imm.toInt < 2 ^ 31 := BitVec.toInt_lt
  rw [Int.bmod_def] at hge hlt ⊢
  rw [Int.bmod_def]
  omega

/-- The register form of an operation leaves what the form with the immediate should. -/
theorem runs_emitViaT1 {op64 op32 : Gpr → Gpr → Gpr → Instr} (hrd : rd ≠ 0) (ht1 : rd ≠ Reg.t1)
    (hd : r.gprRef rd = v₁)
    (h64 : ∀ r₁ : Rv64Cpu, r₁.gprRef rd = v₁ → r₁.gprRef Reg.t1 = imm.signExtend 64 → cls = .alu64 →
      (machine 64).line [op64 rd rd Reg.t1] (fun r' => r'.gprRef rd = v) r₁)
    (h32 : ∀ r₁ : Rv64Cpu, r₁.gprRef rd = v₁ → r₁.gprRef Reg.t1 = imm.signExtend 64 → cls = .alu →
      (machine 64).line [op32 rd rd Reg.t1] (fun r' => ((r'.gprRef rd).setWidth 32).setWidth 64 = v) r₁) :
    runs (emitViaT1 cls rd imm op64 op32) (fun r' => r'.gprRef rd = v) r := by
  rw [emitViaT1, emitImm_signExtend]
  refine Rv64.runs_append (Rv64.runs_mono (Rv64.runs_emitImm (by decide) imm r) ?_)
  rintro r₁ ⟨h₁, hsame⟩
  have hd₁ : r₁.gprRef rd = v₁ := (hsame.gpr rd (by simpa using ht1)).trans hd
  exact Rv64.runs_emitAlu hrd (h64 r₁ hd₁ h₁) (h32 r₁ hd₁ h₁)

/-- The new operations with an immediate, which is in the instruction or goes through `t1`. -/
theorem runs_emitAluK (hop : isNewK (.binary cls op .k)) (hrd : rd ≠ 0) (ht1 : rd ≠ Reg.t1)
    (hcode : emitAluK cls rd imm op = some code) (hd : r.gprRef rd = v₁)
    (h64 : cls = .alu64 → evaluateAlu64 op v₁ (imm.signExtend 64) = .ok v)
    (h32 : cls = .alu → ∃ z, evaluateAlu64 op (v₁.setWidth 32) imm = .ok z ∧ v = z.setWidth 64) :
    runs code (fun r' => r'.gprRef rd = v) r := by
  cases op <;> simp only [isNewK, List.mem_cons, List.not_mem_nil, reduceCtorEq, or_self, decide_false,
    Bool.false_eq_true] at hop <;> simp only [emitAluK, Option.some.injEq] at hcode <;> rw [← hcode]
  case div | mod =>
    refine runs_emitViaT1 hrd ht1 hd ?_ ?_
    · intro r₁ hd₁ h₁ hcls
      rcases bind_eq_ok.mp (h64 hcls) with ⟨_, _, hz⟩
      cases hz
      simp [retire_gprRef, hrd, hd₁, h₁]
    · intro r₁ hd₁ h₁ hcls
      rcases h32 hcls with ⟨z, hz, rfl⟩
      rcases bind_eq_ok.mp hz with ⟨_, _, hz⟩
      cases hz
      simp [retire_gprRef, hrd, hd₁, h₁, setWidth_signExtend]
  case' sub =>
    split
    case isTrue h12 =>
      refine Rv64.runs_emitAlu hrd (fun hcls => ?_) (fun hcls => ?_)
      · cases h64 hcls
        simp [retire_gprRef, hrd, hd, ← Rv64.signExtend_signExtend12, signExtend_low12 h12, signExtend_neg h12,
          BitVec.sub_eq_add_neg]
      · rcases h32 hcls with ⟨z, hz, rfl⟩
        cases hz
        simp [retire_gprRef, hrd, hd, signExtend_low12 h12, setWidth_signExtend, BitVec.sub_eq_add_neg]
  case' and | or | xor =>
    split
    case isTrue h12 =>
      refine Rv64.runs_emitAlu hrd (fun hcls => ?_) (fun hcls => ?_)
      · cases h64 hcls
        simp [retire_gprRef, hrd, hd, ← Rv64.signExtend_signExtend12, signExtend_low12 h12]
      · rcases h32 hcls with ⟨z, hz, rfl⟩
        cases hz
        simp [retire_gprRef, hrd, hd, ← Rv64.signExtend_signExtend12, signExtend_low12 h12, setWidth_signExtend]
  -- what is left goes through `t1`
  all_goals
    refine runs_emitViaT1 hrd ht1 hd ?_ ?_
    · intro r₁ hd₁ h₁ hcls
      cases h64 hcls
      simp [retire_gprRef, hrd, hd₁, h₁]
    · intro r₁ hd₁ h₁ hcls
      rcases h32 hcls with ⟨z, hz, rfl⟩
      cases hz
      simp [retire_gprRef, hrd, hd₁, h₁, setWidth_signExtend]

end NewK

/-- The code of an arithmetic instruction leaves its result in the register of its destination. -/
theorem wp_emitInsn {offset : List (BitVec 32)} {k : Nat} {i : Insn} {code : List Instr} {r : Rv64Cpu}
    {v₁ v₂ v : BitVec 64} (halu : i.code.isAlu) (hclears : clearsUpper i.code) (hcode : emitInsn offset k i = some code)
    (hpre : Pre [16, 32, 64] i v₂) (hd : r.gprRef (Rv64.regmap i.dst) = v₁) (hs : r.gprRef (Rv64.regmap i.src) = v₂)
    (hv : i.result v₁ v₂ = .ok v) :
    (machine 64).wp code (fun r' => r'.gprRef (Rv64.regmap i.dst) = v ∧
      SameBut [Rv64.regmap i.dst, Reg.t1, Reg.t2] r r') r := by
  refine (straight_emitInsn halu hcode).wp ?_
  cases hnew : isNewK i.code with
  | false =>
      rw [emitInsn_eq_runJit offset k halu hclears hnew] at hcode
      exact Rv64.runs_sameBut (Rv64.runJit_onlyWrites hcode) (Rv64.runs_runJit hcode hd hs hpre hv)
  | true =>
      have hdistinct := Rv64.regmap_distinct i.dst
      cases hop : i.code with
      | binary cls op source =>
          rw [hop] at hnew
          cases source with
          | x => simp [isNewK] at hnew
          | k =>
              have hmov : op ≠ .mov := by
                rintro rfl
                simp [isNewK] at hnew
              simp only [emitInsn, hop] at hcode
              have h64 : cls = .alu64 → evaluateAlu64 op v₁ (i.imm.signExtend 64) = .ok v := by
                rintro rfl
                rwa [result_alu64 hop hmov] at hv
              have h32 : cls = .alu → ∃ z, evaluateAlu64 op (v₁.setWidth 32) i.imm = .ok z ∧ v = z.setWidth 64 := by
                rintro rfl
                rw [result_alu32 hop hmov] at hv
                have hz := evaluateAlu32_eq_ok hv
                rwa [Insn.operand, setWidth_signExtend] at hz
              exact Rv64.runs_sameBut (plain_emitAluK hcode).2
                (runs_emitAluK hnew hdistinct.1 hdistinct.2.1 hcode hd h64 h32)
      | neg | endian | ja | jmp => simp [isNewK, hop] at hnew

end Linux64
end Jit
end Bpf
end Serval
