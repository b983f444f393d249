import Serval.Bpf.Jit.Riscv32Alu

/-!
# Riscv32Correct — the 32-bit RISC-V JIT compiler simulates the BPF interpreter

An instruction is compiled to code that fetches its operands, works on registers and puts the result
back.  `wp_around` says this once for all operations; the rest is to find, for each
instruction, the operation that is in the middle.  Code of a program is the concatenation of the code
of its instructions, so that the simulation goes through by induction on the program.
-/

namespace Serval
namespace Bpf
namespace Jit

open Serval.Core Riscv.Interp DoubleWord

variable {code : List Instr} {r : RvCpu} {x : BitVec 32} {f : BitVec 32 → BitVec 32}

/-! ## The registers of an operation -/

/-- The pair an operand is in after it was fetched. -/
abbrev Loc.pair (l : Loc) (tmp : Pair) : Pair :=
  (riscvBpfGetReg64 l tmp).2

theorem getReg32_pair (l : Loc) (tmp : Pair) : (riscvBpfGetReg32 l tmp).2 = l.pair tmp := by
  cases l with
  | regs p => rfl
  | stack i j => rfl

/-- The registers an operation with a source may write. -/
def Pair.workRegs (rd : Pair) : List Gpr :=
  rd.written ++ [tmp2.hi, tmp2.lo]

theorem dst_work (d : Bpf.Reg) : ((bpfToRvRegs d).pair tmp1).Work := by
  revert d
  decide

theorem dst_workRegs (d : Bpf.Reg) : Reg.fp ∉ ((bpfToRvRegs d).pair tmp1).workRegs ∧
    ∀ i, i ≠ d → (bpfToRvRegs i).Avoids ((bpfToRvRegs d).pair tmp1).workRegs := by
  revert d
  decide

/-- A source operand of an operation on `d`: the fetch of the destination leaves it alone, and its pair
may be used with the one of the destination. -/
def Loc.FitsWith (l : Loc) (d : Bpf.Reg) : Prop :=
  (l.Wf ∧ l.Avoids [tmp1.hi, tmp1.lo]) ∧ (l.pair tmp2).Work ∧
    ((l.pair tmp2).hi ≠ ((bpfToRvRegs d).pair tmp1).lo ∧
      (l.pair tmp2).lo ≠ ((bpfToRvRegs d).pair tmp1).hi) ∧
    ((l.pair tmp2).lo = ((bpfToRvRegs d).pair tmp1).lo →
      (l.pair tmp2).hi = ((bpfToRvRegs d).pair tmp1).hi)

instance (l : Loc) (d : Bpf.Reg) : Decidable (l.FitsWith d) :=
  inferInstanceAs (Decidable (_ ∧ _))

/-- Two BPF registers fit in any combination of registers and slots, also if they are the same. -/
theorem reg_fits (s d : Bpf.Reg) : (bpfToRvRegs s).FitsWith d := by
  revert s d
  decide

theorem tmp2_fits (d : Bpf.Reg) : (Loc.regs tmp2).FitsWith d := by
  revert d
  decide

theorem dst_avoids_tmp2 (d : Bpf.Reg) : (Loc.regs ((bpfToRvRegs d).pair tmp1)).Avoids [tmp2.hi, tmp2.lo] := by
  revert d
  decide

/-- The temporaries are not part of any BPF register. -/
theorem avoids_temporaries (i : Bpf.Reg) :
    (bpfToRvRegs i).Avoids [tmp1.hi, tmp1.lo] ∧ (bpfToRvRegs i).Avoids [tmp2.hi, tmp2.lo] := by
  revert i
  decide

/-! ## Code around an operation -/

section Around

variable {b : Bpf.Cpu} {d : Bpf.Reg} {r : RvCpu} {v₁ v pc : BitVec 64} {body : List Instr}

theorem Represents.of_sameBut {r' : RvCpu} {gs : List Gpr} (h : Represents b r)
    (hsame : SameBut gs r r') (hfp : Reg.fp ∉ gs) (havoids : ∀ i, (bpfToRvRegs i).Avoids gs) :
    Represents b r' where
  stack := by
    rw [hsame.memory]
    exact h.stack
  fp := by
    rw [hsame.gpr _ hfp]
    exact h.fp
  regs i := by
    rcases h.regs i with ⟨u, hu, hholds⟩
    exact ⟨u, hu, hholds.of_sameBut hsame (havoids i)⟩

theorem Represents.holds (h : Represents b r) {i : Bpf.Reg} (hi : b.regs i = some v) : Holds r (bpfToRvRegs i) v := by
  rcases h.regs i with ⟨u, hu, hholds⟩
  rw [hi] at hu
  exact Option.some.inj hu ▸ hholds

theorem Represents.fetch (h : Represents b r) (i : Bpf.Reg) :
    Fetch r (bpfToRvRegs i) tmp1 ∧ Fetch r (bpfToRvRegs i) tmp2 :=
  ⟨⟨h.stack, h.fp, bpfToRvRegs_wf i, by decide⟩, ⟨h.stack, h.fp, bpfToRvRegs_wf i, by decide⟩⟩

/-- The code puts `v` into register `d`. -/
abbrev Puts (b : Bpf.Cpu) (d : Bpf.Reg) (v pc : BitVec 64) (code : List Instr) (r : RvCpu) : Prop :=
  (machine 32).wp code (Represents ⟨pc, Function.update b.regs d (some v)⟩) r

variable {get put : List Instr} {In Out : RvCpu → Prop}

/-- An operation between the fetch of its destination and the write of its result. -/
theorem wp_around (h : Represents b r)
    (hget : (machine 32).wp get (fun r₁ => In r₁ ∧ SameBut [tmp1.hi, tmp1.lo] r r₁) r)
    (hbody : ∀ r₁, Represents b r₁ → SameBut [tmp1.hi, tmp1.lo] r r₁ → In r₁ →
      (machine 32).wp body (fun r₂ => Out r₂ ∧ SameBut ((bpfToRvRegs d).pair tmp1).workRegs r₁ r₂) r₁)
    (hput : ∀ r₂, RepresentsBut b d r₂ → Out r₂ → Puts b d v pc put r₂) : Puts b d v pc (get ++ body ++ put) r := by
  refine CodeMachine.wp_append (CodeMachine.wp_append (CodeMachine.wp_mono hget ?_))
  rintro r₁ ⟨hin, hsame⟩
  have h₁ : Represents b r₁ := h.of_sameBut hsame (by decide) fun i => (avoids_temporaries i).1
  refine CodeMachine.wp_mono (hbody r₁ h₁ hsame hin) ?_
  rintro r₂ ⟨hout, hsame'⟩
  rcases dst_workRegs d with ⟨hfp, havoids⟩
  exact hput r₂ ((h₁.but d).of_sameBut hsame' hfp havoids) hout

variable (h : Represents b r) (hd : b.regs d = some v₁)

include h hd

theorem wp_around64 (hbody : ∀ r₁, Represents b r₁ → SameBut [tmp1.hi, tmp1.lo] r r₁ →
      Holds r₁ (.regs ((bpfToRvRegs d).pair tmp1)) v₁ → (machine 32).wp body (fun r₂ =>
        Holds r₂ (.regs ((bpfToRvRegs d).pair tmp1)) v ∧ SameBut ((bpfToRvRegs d).pair tmp1).workRegs r₁ r₂) r₁) :
    Puts b d v pc ((riscvBpfGetReg64 (bpfToRvRegs d) tmp1).1 ++ body ++
      riscvBpfPutReg64 (bpfToRvRegs d) ((bpfToRvRegs d).pair tmp1)) r :=
  wp_around h (wp_riscvBpfGetReg64 (h.fetch d).1 (h.holds hd)) hbody fun _ h₂ => wp_riscvBpfPutReg64 h₂

theorem wp_around32 (hbody : ∀ r₁, Represents b r₁ → SameBut [tmp1.hi, tmp1.lo] r r₁ →
      r₁.gprRef ((bpfToRvRegs d).pair tmp1).lo = lo (w := 32) v₁ → (machine 32).wp body (fun r₂ =>
        r₂.gprRef ((bpfToRvRegs d).pair tmp1).lo = x ∧ SameBut ((bpfToRvRegs d).pair tmp1).workRegs r₁ r₂) r₁) :
    Puts b d (x.setWidth 64) pc ((riscvBpfGetReg32 (bpfToRvRegs d) tmp1).1 ++ body ++
      riscvBpfPutReg32 (bpfToRvRegs d) (riscvBpfGetReg32 (bpfToRvRegs d) tmp1).2) r := by
  have hpair := getReg32_pair (bpfToRvRegs d) tmp1
  exact wp_around h (wp_riscvBpfGetReg32 (h.fetch d).1 (h.holds hd))
    (fun r₁ h₁ hsame hlo => hbody r₁ h₁ hsame (hpair ▸ hlo)) fun _ h₂ hout => wp_riscvBpfPutReg32 h₂ (hpair ▸ hout)

end Around

/-! ## The emitters -/

section Emit

variable {b : Bpf.Cpu} {d : Bpf.Reg} {r : RvCpu} {v₁ v₂ v pc : BitVec 64} {op : AluOp} {l : Loc}
  {imm : BitVec 32}

/-- An immediate as a source operand. -/
theorem wp_immSource (h : Represents b r) {Q : RvCpu → Prop}
    (hcode : ∀ r₁, Represents b r₁ → Holds r₁ (.regs tmp2) (imm.signExtend 64) → (machine 32).wp code Q r₁) :
    (machine 32).wp (emitImm32 tmp2 imm ++ code) Q r := by
  refine CodeMachine.wp_append (CodeMachine.wp_mono
    (wp_sameBut (emitImm32_onlyWrites tmp2 imm) (wp_emitImm32 (by decide))) ?_)
  rintro r₁ ⟨hholds, hsame⟩
  exact hcode r₁ (h.of_sameBut hsame (by decide) fun i => (avoids_temporaries i).2) hholds

variable (h : Represents b r) (hd : b.regs d = some v₁)

include h hd

theorem wp_emitRv32AluR64 (hfits : l.FitsWith d) (hl : Holds r l v₂) (hbody : ∀ {rd rs r}, Operands rd rs v₁ v₂ r →
      (machine 32).wp (aluR64 rd rs op) (Holds · (.regs rd) v) r) :
    Puts b d v pc (emitRv32AluR64 (bpfToRvRegs d) l op) r := by
  rcases hfits with ⟨⟨hwf, havoids⟩, hwork, hcross, haliased⟩
  simp only [emitRv32AluR64]
  rw [List.append_assoc (riscvBpfGetReg64 (bpfToRvRegs d) tmp1).1]
  refine wp_around64 h hd fun r₁ h₁ hsame hdst => ?_
  have hfetch : Fetch r₁ l tmp2 := ⟨h₁.stack, h₁.fp, hwf, by decide⟩
  refine CodeMachine.wp_append (CodeMachine.wp_mono (wp_riscvBpfGetReg64 hfetch (hl.of_sameBut hsame havoids)) ?_)
  rintro r₂ ⟨hsrc, hsame₂⟩
  have hoperands : Operands ((bpfToRvRegs d).pair tmp1) (l.pair tmp2) v₁ v₂ r₂ :=
    ⟨dst_work d, hwork, hcross, haliased, hdst.of_sameBut hsame₂ (dst_avoids_tmp2 d), hsrc⟩
  refine CodeMachine.wp_mono (wp_sameBut (aluR64_onlyWrites _ _ op) (hbody hoperands)) ?_
  rintro r₃ ⟨hresult, hsame₃⟩
  exact ⟨hresult, (hsame₂.mono (by simp [Pair.workRegs])).trans (hsame₃.mono (by simp [Pair.workRegs]))⟩

theorem wp_emitRv32AluI64 (hbody : ∀ {rd r}, rd.Work → Holds r (.regs rd) v₁ →
      (machine 32).wp (aluI64 rd imm op) (Holds · (.regs rd) v) r) :
    Puts b d v pc (emitRv32AluI64 (bpfToRvRegs d) imm op) r := by
  simp only [emitRv32AluI64]
  refine wp_around64 h hd fun r₁ _ _ hdst => ?_
  refine CodeMachine.wp_mono (wp_sameBut (aluI64_onlyWrites _ imm op) (hbody (dst_work d) hdst)) ?_
  rintro r₂ ⟨hresult, hsame⟩
  exact ⟨hresult, hsame.mono (by simp [Pair.workRegs])⟩

theorem wp_emitRv32AluR32 (hfits : l.FitsWith d) (hl : Holds r l v₂)
    (hbody : ∀ {rd rs r}, rd.Work → r.gprRef rd.lo = lo (w := 32) v₁ → r.gprRef rs.lo = lo (w := 32) v₂ →
      (machine 32).wp (aluR32 rd rs op) (fun r' => r'.gprRef rd.lo = x) r) :
    Puts b d (x.setWidth 64) pc (emitRv32AluR32 (bpfToRvRegs d) l op) r := by
  rcases hfits with ⟨⟨hwf, havoids⟩, _⟩
  simp only [emitRv32AluR32]
  rw [List.append_assoc (riscvBpfGetReg32 (bpfToRvRegs d) tmp1).1]
  refine wp_around32 h hd fun r₁ h₁ hsame hdst => ?_
  have hfetch : Fetch r₁ l tmp2 := ⟨h₁.stack, h₁.fp, hwf, by decide⟩
  refine CodeMachine.wp_append (CodeMachine.wp_mono (wp_riscvBpfGetReg32 hfetch (hl.of_sameBut hsame havoids)) ?_)
  rintro r₂ ⟨hsrc, hsame₂⟩
  rw [← hsame₂.gpr _ (dst_avoids_tmp2 d).2, ← getReg32_pair] at hdst
  refine CodeMachine.wp_mono (wp_sameBut (aluR32_onlyWrites _ _ op)
    (hbody (getReg32_pair (bpfToRvRegs d) tmp1 ▸ dst_work d) hdst hsrc)) ?_
  rintro r₃ ⟨hresult, hsame₃⟩
  rw [getReg32_pair] at hresult hsame₃
  exact ⟨hresult, (hsame₂.mono (by simp [Pair.workRegs])).trans (hsame₃.mono (by simp [Pair.workRegs]))⟩

theorem wp_emitRv32AluI32 (hbody : ∀ {rd r}, rd.Work → r.gprRef rd.lo = lo (w := 32) v₁ →
      (machine 32).wp (aluI32 rd imm op) (fun r' => r'.gprRef rd.lo = x) r) :
    Puts b d (x.setWidth 64) pc (emitRv32AluI32 (bpfToRvRegs d) imm op) r := by
  simp only [emitRv32AluI32]
  refine wp_around32 h hd fun r₁ _ _ hdst => ?_
  rw [← getReg32_pair] at hdst
  refine CodeMachine.wp_mono (wp_sameBut (aluI32_onlyWrites _ imm op)
    (hbody (getReg32_pair (bpfToRvRegs d) tmp1 ▸ dst_work d) hdst)) ?_
  rintro r₂ ⟨hresult, hsame⟩
  rw [getReg32_pair] at hresult hsame
  exact ⟨hresult, hsame.mono (by simp [Pair.workRegs])⟩

theorem wp_emitFromBe (hv : swapBytes v₁ 16 = .ok v) : Puts b d v pc (emitFromBe (bpfToRvRegs d) 16) r := by
  refine wp_around64 h hd fun r₁ _ _ hdst => ?_
  have honly : OnlyWrites ((bpfToRvRegs d).pair tmp1).written (emitRv32Rev16 ((bpfToRvRegs d).pair tmp1).lo ++
        [rvAddi ((bpfToRvRegs d).pair tmp1).hi Reg.zero 0]) := by
    simp [emitRv32Rev16, Pair.written, rvAddi, rvSlli, rvSrli, rvAdd, rvIInsn, rvRInsn, Op.hasEffect]
  refine CodeMachine.wp_mono (wp_sameBut honly (wp_fromBe16 (dst_work d) hdst hv)) ?_
  rintro r₂ ⟨hresult, hsame⟩
  exact ⟨hresult, hsame.mono (by simp [Pair.workRegs])⟩

end Emit

/-! ## One instruction -/

section Instruction

variable {b : Bpf.Cpu} {r : RvCpu} {i : Insn} {v₁ v₂ v pc : BitVec 64} {op : AluOp}

variable (h : Represents b r) (hd : b.regs i.dst = some v₁) (hv : i.result v₁ v₂ = .ok v)

include h hd hv

theorem wp_alu64X (hcode : i.code = .binary .alu64 op .x) (hs : b.regs i.src = some v₂) (hpre : Pre [16] i v₂)
    (hop : op ≠ .div ∧ op ≠ .mod) :
    Puts b i.dst v pc (emitRv32AluR64 (bpfToRvRegs i.dst) (bpfToRvRegs i.src) op) r := by
  refine wp_emitRv32AluR64 h hd (reg_fits ..) (h.holds hs) fun hoperands => ?_
  by_cases hmov : op = .mov
  · subst hmov
    rw [Insn.result, hcode] at hv
    exact Except.ok.inj hv ▸ wp_mov64 hoperands
  · rw [result_alu64 hcode hmov] at hv
    exact wp_aluR64 hoperands hv hop fun hshift => (hpre.shift hcode hshift).2.1 rfl rfl

/-- Sums, differences and products with an immediate go through a temporary. -/
theorem wp_alu64K (hcode : i.code = .binary .alu64 op .k) (hop : op ∈ [.add, .sub, .mul]) :
    Puts b i.dst v pc (emitImm32 tmp2 i.imm ++ emitRv32AluR64 (bpfToRvRegs i.dst) (.regs tmp2) op) r := by
  have hne : op ≠ .mov ∧ (op ≠ .div ∧ op ≠ .mod) ∧ ¬ (op = .lsh ∨ op = .rsh ∨ op = .arsh) := by
    cases op <;> simp at hop ⊢
  refine wp_immSource h fun r₁ h₁ hsrc => ?_
  refine wp_emitRv32AluR64 h₁ hd (tmp2_fits _) hsrc fun hoperands => ?_
  rw [result_alu64 hcode hne.1] at hv
  exact wp_aluR64 hoperands hv hne.2.1 fun hshift => absurd hshift hne.2.2

theorem wp_alu64I (hcode : i.code = .binary .alu64 op .k) (hpre : Pre [16] i v₂)
    (hop : op ∈ [.mov, .and, .or, .xor, .lsh, .rsh, .arsh]) :
    Puts b i.dst v pc (emitRv32AluI64 (bpfToRvRegs i.dst) i.imm op) r := by
  refine wp_emitRv32AluI64 h hd fun hwork hdst => ?_
  by_cases hmov : op = .mov
  · subst hmov
    rw [Insn.result, hcode] at hv
    exact Except.ok.inj hv ▸ wp_emitImm32 hwork
  · rw [result_alu64 hcode hmov] at hv
    have hop' : op ∈ [.and, .or, .xor, .lsh, .rsh, .arsh] := by simpa [hmov] using hop
    exact wp_aluI64 hwork hdst hv hop' fun hshift => (hpre.shift hcode hshift).2.2.2 rfl rfl

theorem wp_alu32X (hcode : i.code = .binary .alu op .x) (hs : b.regs i.src = some v₂) (hpre : Pre [16] i v₂) :
    Puts b i.dst v pc (emitRv32AluR32 (bpfToRvRegs i.dst) (bpfToRvRegs i.src) op) r := by
  by_cases hmov : op = .mov
  · subst hmov
    rw [Insn.result, hcode] at hv
    rw [← Except.ok.inj hv]
    refine wp_emitRv32AluR32 h hd (reg_fits ..) (h.holds hs) fun hwork _ hsrc => ?_
    have hd := hwork.distinct
    apply CodeMachine.wp_of_line
    simp only [aluR32, line_rvAddi, CodeMachine.line_nil]
    have hvalue : _ = (i.operand v₂ .x).setWidth 32 := hsrc
    simpa [retire_gprRef, hd] using hvalue
  · rw [result_alu32 hcode hmov] at hv
    rcases evaluateAlu32_eq_ok hv with ⟨z, hz, rfl⟩
    refine wp_emitRv32AluR32 h hd (reg_fits ..) (h.holds hs) fun hwork hdst hsrc => ?_
    refine wp_aluR32 hwork.distinct.1.2.2.2 hdst hsrc hz fun hshift => ?_
    have hlt : v₂.toNat < 32 := (hpre.shift hcode hshift).1 rfl rfl
    show (lo (w := 32) v₂).toNat < 32
    rw [toNat_lo]
    omega

theorem wp_alu32K (hcode : i.code = .binary .alu op .k) (hop : op ∈ [.div, .mod, .mul]) :
    Puts b i.dst v pc (emitImm32 tmp2 i.imm ++ emitRv32AluR32 (bpfToRvRegs i.dst) (.regs tmp2) op) r := by
  have hne : op ≠ .mov ∧ ¬ (op = .lsh ∨ op = .rsh ∨ op = .arsh) := by
    cases op <;> simp at hop ⊢
  rw [result_alu32 hcode hne.1] at hv
  rcases evaluateAlu32_eq_ok hv with ⟨z, hz, rfl⟩
  refine wp_immSource h fun r₁ h₁ hsrc => ?_
  refine wp_emitRv32AluR32 h₁ hd (tmp2_fits _) hsrc fun hwork hdst hsrc => ?_
  exact wp_aluR32 hwork.distinct.1.2.2.2 hdst hsrc hz fun hshift => absurd hshift hne.2

theorem wp_alu32I (hcode : i.code = .binary .alu op .k) (hpre : Pre [16] i v₂)
    (hop : op ∈ [.mov, .add, .sub, .and, .or, .xor, .lsh, .rsh, .arsh]) :
    Puts b i.dst v pc (emitRv32AluI32 (bpfToRvRegs i.dst) i.imm op) r := by
  by_cases hmov : op = .mov
  · subst hmov
    simp only [Insn.result, hcode, Insn.operand, setWidth_signExtend] at hv
    rw [← Except.ok.inj hv]
    refine wp_emitRv32AluI32 h hd fun hwork _ => ?_
    exact CodeMachine.wp_mono (wp_emitImm hwork.distinct.1.2.2.2 i.imm) fun r' h' => h'.1
  · rw [result_alu32 hcode hmov] at hv
    rcases evaluateAlu32_eq_ok hv with ⟨z, hz, rfl⟩
    rw [Insn.operand, setWidth_signExtend] at hz
    have hop' : op ∈ [.add, .sub, .and, .or, .xor, .lsh, .rsh, .arsh] := by simpa [hmov] using hop
    refine wp_emitRv32AluI32 h hd fun hwork hdst => ?_
    exact wp_aluI32 hwork hdst hz hop' fun hshift => (hpre.shift hcode hshift).2.2.1 rfl rfl

theorem wp_negation32 (hcode : i.code = .neg .alu) :
    Puts b i.dst v pc (emitRv32AluR32 (bpfToRvRegs i.dst) (bpfToRvRegs 0) .neg) r := by
  rw [Insn.result, hcode] at hv
  rw [← Except.ok.inj hv]
  rcases h.regs 0 with ⟨v₀, _, hsrc⟩
  refine wp_emitRv32AluR32 h hd (reg_fits ..) hsrc fun hwork hdst _ => ?_
  have hd := hwork.distinct
  apply CodeMachine.wp_of_line
  simp only [aluR32, line_rvSub, CodeMachine.line_nil]
  simp [retire_gprRef, hd, hdst]
  rfl

/-- The code of an instruction does what the instruction does. -/
theorem wp_runJit (hjit : runJit i = some code) (hs : b.regs i.src = some v₂) (hpre : Pre [16] i v₂) :
    Puts b i.dst v pc code r := by
  -- which emitter an instruction goes to is read off `runJit`
  cases hcode : i.code with
  | binary cls op source =>
      cases cls with
      | alu64 =>
          cases source with
          | x =>
              have hop : (op ≠ .div ∧ op ≠ .mod) ∧
                  emitRv32AluR64 (bpfToRvRegs i.dst) (bpfToRvRegs i.src) op = code := by
                cases op <;> simp [runJit, hcode] at hjit <;> exact ⟨by decide, hjit⟩
              exact hop.2 ▸ wp_alu64X h hd hv hcode hs hpre hop.1
          | k =>
              by_cases harith : op ∈ [.add, .sub, .mul]
              · have hop : emitImm32 tmp2 i.imm ++ emitRv32AluR64 (bpfToRvRegs i.dst) (.regs tmp2) op = code := by
                  cases op <;> simp at harith <;> simpa [runJit, hcode] using hjit
                exact hop ▸ wp_alu64K h hd hv hcode harith
              · have hop : op ∈ [.mov, .and, .or, .xor, .lsh, .rsh, .arsh] ∧
                    emitRv32AluI64 (bpfToRvRegs i.dst) i.imm op = code := by
                  cases op <;> simp [runJit, hcode] at hjit harith <;> exact ⟨by decide, hjit⟩
                exact hop.2 ▸ wp_alu64I h hd hv hcode hpre hop.1
      | alu =>
          cases source with
          | x =>
              have hop : emitRv32AluR32 (bpfToRvRegs i.dst) (bpfToRvRegs i.src) op = code := by
                cases op <;> simp [runJit, hcode] at hjit <;> exact hjit
              exact hop ▸ wp_alu32X h hd hv hcode hs hpre
          | k =>
              by_cases harith : op ∈ [.div, .mod, .mul]
              · have hop : emitImm32 tmp2 i.imm ++ emitRv32AluR32 (bpfToRvRegs i.dst) (.regs tmp2) op = code := by
                  cases op <;> simp at harith <;> simpa [runJit, hcode] using hjit
                exact hop ▸ wp_alu32K h hd hv hcode harith
              · have hop : op ∈ [.mov, .add, .sub, .and, .or, .xor, .lsh, .rsh, .arsh] ∧
                    emitRv32AluI32 (bpfToRvRegs i.dst) i.imm op = code := by
                  cases op <;> simp [runJit, hcode] at hjit harith <;> exact ⟨by decide, hjit⟩
                exact hop.2 ▸ wp_alu32I h hd hv hcode hpre hop.1
  | neg cls =>
      cases cls with
      | alu64 =>
          rw [Insn.result, hcode] at hv
          simp only [runJit, hcode, Option.some.injEq] at hjit
          rcases h.regs 0 with ⟨v₀, _, hsrc⟩
          exact hjit ▸ Except.ok.inj hv ▸ wp_emitRv32AluR64 h hd (reg_fits ..) hsrc wp_neg64
      | alu =>
          simp only [runJit, hcode, Option.some.injEq] at hjit
          exact hjit ▸ wp_negation32 h hd hv hcode
  | endian order =>
      cases order with
      | fromBe =>
          have himm : i.imm = 16 := List.mem_singleton.mp (hpre.endian (by rw [hcode]; rfl))
          simp only [runJit, hcode, Option.some.injEq, himm] at hjit
          rw [Insn.result, hcode, himm] at hv
          exact hjit ▸ wp_emitFromBe h hd hv
      | fromLe => simp [runJit, hcode] at hjit
  | ja => simp [runJit, hcode] at hjit
  | jmp op source => simp [runJit, hcode] at hjit

end Instruction

/-! ## The size of the code -/

/-- Every instruction has the default size. -/
def Sized (code : List Instr) : Prop :=
  ∀ i ∈ code, i.size = DEFAULT_SIZE

@[simp] theorem sized_nil : Sized [] := by
  simp [Sized]

@[simp] theorem sized_cons {i : Instr} {code : List Instr} : Sized (i :: code) ↔ i.size = DEFAULT_SIZE ∧ Sized code :=
  List.forall_mem_cons

@[simp] theorem sized_append {c₁ c₂ : List Instr} : Sized (c₁ ++ c₂) ↔ Sized c₁ ∧ Sized c₂ :=
  List.forall_mem_append

theorem Sized.length (h : Sized code) : (machine 32).length code = 4 * code.length := by
  induction code with
  | nil => rfl
  | cons i code ih =>
      rw [sized_cons] at h
      rw [CodeMachine.length_cons, ih h.2, List.length_cons, show (machine 32).size i = 4 from h.1]
      omega

theorem sized_emitImm (rd : Gpr) (val : BitVec 32) : Sized (emitImm rd val) := by
  simp only [emitImm]
  split
  · simp [rvAddi, rvIInsn]
  · simp [rvAddi, rvIInsn, rvLui, rvUInsn]

theorem sized_emitImm32 (rd : Pair) (imm : BitVec 32) : Sized (emitImm32 rd imm) := by
  refine sized_append.mpr ⟨sized_emitImm rd.lo imm, ?_⟩
  split <;> simp [rvAddi, rvIInsn]

theorem sized_emitWithImm {opi : BitVec 12 → Instr} {op : Gpr → Instr} (imm : BitVec 32)
    (hopi : (opi (low12 imm)).size = DEFAULT_SIZE) (hop : (op Reg.t0).size = DEFAULT_SIZE) :
    Sized (emitWithImm opi op imm) := by
  unfold emitWithImm
  split
  · simpa using hopi
  · simpa [sized_emitImm] using hop

theorem sized_getReg (l : Loc) (tmp : Pair) : Sized (riscvBpfGetReg64 l tmp).1 ∧ Sized (riscvBpfGetReg32 l tmp).1 := by
  cases l with
  | regs p => exact ⟨sized_nil, sized_nil⟩
  | stack i j => simp [riscvBpfGetReg64, riscvBpfGetReg32, rvLw, rvIInsn]

theorem sized_putReg (l : Loc) (p : Pair) : Sized (riscvBpfPutReg64 l p) ∧ Sized (riscvBpfPutReg32 l p) := by
  cases l with
  | regs q =>
      simp only [riscvBpfPutReg64, riscvBpfPutReg32]
      split <;> simp [rvAddi, rvIInsn]
  | stack i j => simp [riscvBpfPutReg64, riscvBpfPutReg32, rvSw, rvSInsn]

theorem sized_aluI64 (rd : Pair) (imm : BitVec 32) (op : AluOp) : Sized (aluI64 rd imm op) := by
  cases op with
  | mov => exact sized_emitImm32 rd imm
  | and | or | xor =>
      refine sized_append.mpr ⟨sized_emitWithImm imm rfl rfl, ?_⟩
      split <;> simp [rvAddi, rvOri, rvXori, rvIInsn]
  | lsh | rsh | arsh =>
      simp only [aluI64]
      split
      · simp [rvAddi, rvSlli, rvSrli, rvSrai, rvIInsn]
      · split <;> simp [rvSlli, rvSrli, rvSrai, rvOr, rvRInsn, rvIInsn]
  | add | sub | mul | div | mod | neg => exact sized_nil

theorem sized_aluI32 (rd : Pair) (imm : BitVec 32) (op : AluOp) : Sized (aluI32 rd imm op) := by
  cases op with
  | mov => exact sized_emitImm rd.lo imm
  | sub =>
      simp only [aluI32]
      split <;> simp [sized_emitImm, rvAddi, rvSub, rvIInsn, rvRInsn]
  | add | and | or | xor | lsh | rsh | arsh => exact sized_emitWithImm imm rfl rfl
  | mul | div | mod | neg => exact sized_nil

theorem sized_aluR (rd rs : Pair) (op : AluOp) : Sized (aluR64 rd rs op) ∧ Sized (aluR32 rd rs op) := by
  cases op <;>
    simp [aluR64, aluR32, shiftBranches, rvAddi, rvIInsn, rvRInsn, rvSltu, rvAdd, rvSub, rvAnd, rvOr,
      rvXor, rvMul, rvMulhu, rvDivu, rvRemu, rvBlt, rvJal, rvSll, rvSrl, rvSra, rvSrli, rvSlli, rvSrai,
      DEFAULT_SIZE]

theorem sized_runJit {i : Insn} (hjit : runJit i = some code) : Sized code := by
  have hR64 : ∀ d s op, Sized (emitRv32AluR64 d s op) := fun d s op => by
    simp [emitRv32AluR64, sized_getReg, sized_putReg, sized_aluR]
  have hR32 : ∀ d s op, Sized (emitRv32AluR32 d s op) := fun d s op => by
    simp [emitRv32AluR32, sized_getReg, sized_putReg, sized_aluR]
  have hI64 : ∀ d imm op, Sized (emitRv32AluI64 d imm op) := fun d imm op => by
    simp [emitRv32AluI64, sized_getReg, sized_putReg, sized_aluI64]
  have hI32 : ∀ d imm op, Sized (emitRv32AluI32 d imm op) := fun d imm op => by
    simp [emitRv32AluI32, sized_getReg, sized_putReg, sized_aluI32]
  have hBe : ∀ d imm, Sized (emitFromBe d imm) := fun d imm => by
    simp only [emitFromBe]
    split <;> simp [sized_getReg, sized_putReg, emitRv32Rev16, rvSlli, rvSrli, rvAdd, rvAddi, rvIInsn, rvRInsn]
  simp only [runJit] at hjit
  repeat' split at hjit
  all_goals simp only [Option.some.injEq, reduceCtorEq] at hjit
  all_goals
    simp only [← hjit, sized_append, sized_emitImm32, hR64, hR32, hI64, hI32, hBe, and_self]

/-! ## Programs -/

theorem runJit_isAlu {i : Insn} (hjit : runJit i = some code) : i.code.isAlu :=
  isAlu_of_emit (fun cls source h => by cases cls <;> cases source <;> simp [runJit, h]) (fun h => by simp [runJit, h])
    (fun op source h => by simp [runJit, h]) hjit

theorem sized_runJits {insns : List Insn} (hjit : runJits insns = some code) : Sized code := by
  induction insns generalizing code with
  | nil =>
      cases hjit
      exact sized_nil
  | cons i insns ih =>
      rcases emitAll_cons hjit with ⟨c₁, c₂, h₁, h₂, rfl⟩
      exact sized_append.mpr ⟨sized_runJit h₁, ih h₂⟩

/-- The simulation: the BPF run raises no bug, and the code ends in a state that represents its end. -/
theorem wp_runJits {insns : List Insn} {b : Bpf.Cpu} (hjit : runJits insns = some code) (h : Represents b r)
    (hchecked : Checked [16] b insns) :
    ∃ b', interpretInstrs b insns = .ok b' ∧ (machine 32).wp code (Represents b') r := by
  induction insns generalizing code b r with
  | nil =>
      cases hjit
      exact ⟨b, rfl, CodeMachine.wp_nil h⟩
  | cons i insns ih =>
      rcases emitAll_cons hjit with ⟨c₁, c₂, h₁, h₂, rfl⟩
      rcases h.regs i.dst with ⟨v₁, hd, _⟩
      rcases h.regs i.src with ⟨v₂, hs, _⟩
      have hpre := hchecked.1 v₂ hs
      rcases result_ok hpre (runJit_isAlu h₁) (by simp) v₁ with ⟨v, hv⟩
      have hstep := interpretInstr_of_result hd hs (Fin.ne_of_lt hpre.dst) hv
      rcases wp_runJit h hd hv h₁ hs hpre with ⟨r₁, hexec, hr₁⟩
      rcases ih h₂ hr₁ (hchecked.2 _ hstep) with ⟨b', hrun, hrest⟩
      exact ⟨b', by rw [interpretInstrs, hstep]; exact hrun, CodeMachine.wp_append ⟨r₁, hexec, hrest⟩⟩

/-! ## Initial states -/

/-- The writes of `init-rv32-cpu` for one register. -/
def initLoc (r : RvCpu) (l : Loc) (v : BitVec 64) : Except Bug RvCpu :=
  match l with
  | .regs p => .ok ((r.gprSet p.lo (lo (w := 32) v)).gprSet p.hi (hi (w := 32) v))
  | .stack i j => do
      let block ← findBlockByName r.mregions "stack"
      let block ← block.istore ⟨32, lo (w := 32) v⟩ ⟨[.index (slotIndex j)], none⟩
      let block ← block.istore ⟨32, hi (w := 32) v⟩ ⟨[.index (slotIndex i)], none⟩
      return { r with mregions := r.mregions.map fun mr =>
        if mr.name = "stack" then { mr with block := block } else mr }

/-- `init-rv32-cpu`, from a processor that has the stack as its memory. -/
def initRv32Cpu (r : RvCpu) (regs : Bpf.Reg → BitVec 64) : Except Bug RvCpu :=
  (List.finRange 11).foldlM (fun r i => initLoc r (bpfToRvRegs i) (regs i))
    (r.gprSet Reg.fp (BitVec.ofNat 32 stackTop))

theorem initLoc_ok (hstack : r.mregions = [stackRegion f]) {l : Loc} (hwf : l.Wf)
    (havoids : l.Avoids [Reg.zero, Reg.fp]) (v : BitVec 64) :
    ∃ r' f', initLoc r l v = .ok r' ∧ r'.mregions = [stackRegion f'] ∧
      r'.gprRef Reg.fp = r.gprRef Reg.fp ∧ Holds r' l v ∧
      ∀ l' u, l'.Apart l → Holds r l' u → Holds r' l' u := by
  cases l with
  | regs p =>
      have hhi := havoids.1
      have hlo := havoids.2
      simp only [List.mem_cons, List.not_mem_nil, or_false, not_or] at hhi hlo
      have hne : p.hi ≠ p.lo := hwf
      refine ⟨_, f, rfl, by simp [hstack], ?_, holds_regs.mpr ⟨?_, ?_⟩, fun l' u hapart hholds => ?_⟩
      · simp [Cpu.gprRef_gprSet, Ne.symm hhi.2, Ne.symm hlo.2]
      · simp [Cpu.gprRef_gprSet, hhi.1]
      · simp [Cpu.gprRef_gprSet, hlo.1, Ne.symm hne]
      · have hsame : SameBut [p.hi, p.lo] r ((r.gprSet p.lo (lo (w := 32) v)).gprSet p.hi (hi (w := 32) v)) :=
          (SameBut.gprSet (.inr (by simp)) _).trans (SameBut.gprSet (.inr (by simp)) _)
        refine hholds.of_sameBut hsame ?_
        cases l' with
        | regs q => exact hapart
        | stack _ _ => trivial
  | stack i j =>
      rcases hwf with ⟨_, _, hne⟩
      have hblock : findBlockByName r.mregions "stack" = .ok (stackRegion f).block := by
        rw [hstack]
        rfl
      refine ⟨{ r with mregions := [stackRegion (Function.update (Function.update f (slotIndex j)
        (lo (w := 32) v)) (slotIndex i) (hi (w := 32) v))] }, _, ?_, rfl, rfl, ?_, ?_⟩
      · simp only [initLoc, hblock, ok_bind, stackRegion_istore]
        rw [hstack]
        rfl
      · rw [holds_stack rfl, Function.update_self, Function.update_of_ne (Ne.symm hne), Function.update_self]
        exact ⟨rfl, rfl⟩
      · intro l' u hapart hholds
        cases l' with
        | regs q => exact hholds
        | stack a b =>
            rcases hapart with ⟨ha, hb⟩
            simp only [List.mem_cons, List.not_mem_nil, or_false, not_or] at ha hb
            rw [holds_stack hstack] at hholds
            rw [holds_stack rfl, Function.update_of_ne ha.1, Function.update_of_ne ha.2,
              Function.update_of_ne hb.1, Function.update_of_ne hb.2]
            exact hholds

/-- One register after the other: what was written stays. -/
theorem initLocs_ok (regs : Bpf.Reg → BitVec 64) (js : List Bpf.Reg) (hstack : r.mregions = [stackRegion f]) :
    ∃ r' f', js.foldlM (fun r i => initLoc r (bpfToRvRegs i) (regs i)) r = .ok r' ∧
      r'.mregions = [stackRegion f'] ∧ r'.gprRef Reg.fp = r.gprRef Reg.fp ∧
      ∀ i, i ∈ js ∨ Holds r (bpfToRvRegs i) (regs i) → Holds r' (bpfToRvRegs i) (regs i) := by
  induction js generalizing r f with
  | nil => exact ⟨r, f, rfl, hstack, rfl, fun i hi => hi.resolve_left (List.not_mem_nil)⟩
  | cons j js ih =>
      have havoids : (bpfToRvRegs j).Avoids [Reg.zero, Reg.fp] := (bpfToRvRegs_avoids j).mono (by simp)
      rcases initLoc_ok hstack (bpfToRvRegs_wf j) havoids (regs j) with
        ⟨r₁, f₁, hinit, hstack₁, hfp₁, hj, hothers⟩
      rcases ih hstack₁ with ⟨r', f', hfold, hstack', hfp', hall⟩
      refine ⟨r', f', ?_, hstack', hfp'.trans hfp₁, fun i hi => hall i ?_⟩
      · rw [List.foldlM_cons, hinit]
        exact hfold
      · -- the register just written, one that is still to come, or one that was written before
        by_cases hij : i = j
        · exact .inr (hij ▸ hj)
        · rcases hi with hmem | hholds
          · exact .inl ((List.mem_cons.mp hmem).resolve_left hij)
          · exact .inr (hothers _ _ (bpfToRvRegs_apart hij) hholds)

/-- The initial processor exists for all values of the registers and represents them. -/
theorem initRv32Cpu_represents (hstack : r.mregions = [stackRegion f]) (regs : Bpf.Reg → BitVec 64) (pc : BitVec 64) :
    ∃ r', initRv32Cpu r regs = .ok r' ∧ Represents ⟨pc, fun i => some (regs i)⟩ r' := by
  have hstack' : (r.gprSet Reg.fp (BitVec.ofNat 32 stackTop)).mregions = [stackRegion f] := by
    simp [hstack]
  rcases initLocs_ok regs (List.finRange 11) hstack' with ⟨r', f', hinit, hs, hfp, hall⟩
  refine ⟨r', hinit, ⟨f', hs⟩, ?_, fun i => ⟨regs i, rfl, hall i (.inl (List.mem_finRange i))⟩⟩
  rw [hfp, Cpu.gprRef_gprSet, if_pos ⟨rfl, by decide⟩]

/-- The compiler is correct for programs of arithmetic instructions, wherever the code is placed. -/
theorem riscv32_jit_correct {insns : List Insn} {code : List Instr} (hjit : runJits insns = some code)
    {b : Bpf.Cpu} (hchecked : Checked [16] b insns) {base : BitVec 32}
    (hfits : 4 * (code.length + 1) ≤ 2 ^ 32) {r : RvCpu} (hpc : r.pc = base) (hr : Represents b r) :
    ∃ b' r', interpretInstrs b insns = .ok b' ∧ (∀ fuel, code.length < fuel →
        interpretProgram (fun _ => none) (makeRiscvProgram base code) fuel r = .ok (some r')) ∧
      r'.pc = base + BitVec.ofNat 32 (4 * code.length) ∧ Represents b' r' := by
  subst hpc
  rcases wp_runJits hjit hr hchecked with ⟨b', hb', hwp⟩
  have hsized := sized_runJits hjit
  have hsits : (machine 32).Sits (makeRiscvProgram r.pc code).instructions r.pc (code ++ [mret]) := by
    refine CodeMachine.sits_place _ _ (fun i hi => ?_) ?_
    · have hsize : Sized (code ++ [mret]) := by simpa [mret, DEFAULT_SIZE] using hsized
      rw [show (machine 32).size i = DEFAULT_SIZE from hsize i hi]
      decide
    · rw [CodeMachine.length_append, hsized.length]
      exact hfits
  rw [CodeMachine.sits_append] at hsits
  have hstop : (machine 32).Stops (makeRiscvProgram r.pc code).instructions
      (r.pc + BitVec.ofNat 32 ((machine 32).length code)) :=
    ⟨mret, hsits.2.1, rfl⟩
  rcases CodeMachine.run_of_wp hwp hsits.1 hstop with ⟨r', hrun, hpc', hr'⟩
  refine ⟨b', r', hb', fun fuel hfuel => ?_, ?_, hr'⟩
  · rw [interpretProgram_eq_run]
    exact hrun fuel hfuel
  · rw [← hsized.length]
    exact hpc'

/-- R6 shifted left by R7, both on the stack, and then squared. -/
theorem riscv32_jit_correct_shift_square : ∃ (code : List Instr) (r r' : RvCpu) (b' : Bpf.Cpu),
    runJits [⟨.binary .alu64 .lsh .x, 6, 7, 0, 0⟩, ⟨.binary .alu64 .mul .x, 6, 6, 0, 0⟩] = some code ∧
      Represents ⟨0, fun _ => some 33⟩ r ∧
      interpretProgram (fun _ => none) (makeRiscvProgram r.pc code) (code.length + 1) r = .ok (some r') ∧
      interpretInstrs ⟨0, fun _ => some 33⟩
        [⟨.binary .alu64 .lsh .x, 6, 7, 0, 0⟩, ⟨.binary .alu64 .mul .x, 6, 6, 0, 0⟩] = .ok b' ∧
      Represents b' r' := by
  rcases initRv32Cpu_represents (r := ⟨0, fun _ => 0, fun _ => 0, [stackRegion fun _ => 0]⟩) rfl
    (fun _ => 33) 0 with ⟨r, _, hr⟩
  have hchecked : Checked [16] ⟨0, fun _ => some 33⟩
      [⟨.binary .alu64 .lsh .x, 6, 7, 0, 0⟩, ⟨.binary .alu64 .mul .x, 6, 6, 0, 0⟩] := by
    refine ⟨fun srcOp hsrc => ?_, fun b₁ _ => ⟨fun srcOp _ => ?_, fun _ _ => trivial⟩⟩
    · cases hsrc
      constructor <;> decide
    · constructor <;> simp [Code.isAlu32, Code.isDiv, Code.isShift, Code.isEndian]
  rcases riscv32_jit_correct rfl hchecked (by decide) rfl hr with ⟨b', r', hb', hrun, _, hr'⟩
  exact ⟨_, r, r', b', rfl, hr, hrun _ (Nat.lt_succ_self _), hb', hr'⟩

end Jit
end Bpf
end Serval
