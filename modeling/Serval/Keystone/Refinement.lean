import Serval.Keystone.Spec
import Serval.Keystone.Traps
import Serval.Keystone.Protection

/-!
# Refinement — the Keystone monitor implements its specification

In the verification build a call does not switch register contexts, so what it leaves behind is compared
with the specification's state as a whole.  The invariant is the one of `verif/impl.rkt`, which is weaker
than what reachable machines satisfy: secure regions may overlap, and free slots may have regions.
-/

namespace Serval
namespace Keystone

open Riscv

/-! ## Abstraction -/

/-- `mregions-abstract`, with the registers of `abs-function`. -/
def absFunction (m : Machine) : Spec.State where
  enclaveMode := m.enclaveMode ≠ 0
  currentEnclave := m.currentEnclave
  payload := m.payload
  regs := ⟨m.regs, readCsrs m.csrs⟩
  enclaveStatus := fun eid => (m.enclaves eid).status
  enclaveEntry := fun eid => (m.enclaves eid).entry
  enclaveSecureLower := fun eid => (m.enclaves eid).secureLower
  enclaveSecureUpper := fun eid => (m.enclaves eid).secureUpper
  enclaveSharedLower := fun eid => (m.enclaves eid).sharedLower
  enclaveSharedUpper := fun eid => (m.enclaves eid).sharedUpper

structure MregionsInvariants (m : Machine) : Prop where
  current : m.enclaveMode ≠ 0 → Spec.eidValid m.currentEnclave ∧
    (m.enclaves m.currentEnclave).status ≠ Status.free.val
  secure : ∀ eid, Spec.eidValid eid → (m.enclaves eid).status ≠ Status.free.val →
    Spec.regionValid (m.enclaves eid).secureLower (m.enclaves eid).secureUpper
  shared : ∀ eid, Spec.eidValid eid → (m.enclaves eid).status ≠ Status.free.val →
    Spec.regionValid (m.enclaves eid).sharedLower (m.enclaves eid).sharedUpper

theorem MregionsInvariants.callSafe {m : Machine} (h : MregionsInvariants m) : CallSafe m :=
  ⟨h.secure, fun hmode => (h.current hmode).1⟩

/-- The specification of a call. -/
def Call.spec : Call → Spec.State → Spec.State
  | .create eid entry secureLower secureUpper sharedLower sharedUpper, s =>
      Spec.specSysCreateEnclave s eid entry secureLower secureUpper sharedLower sharedUpper
  | .destroy eid, s => Spec.specSysDestroyEnclave s eid
  | .run eid, s => Spec.specSysRunEnclave s eid
  | .exit, s => Spec.specSysExitEnclave s
  | .resume eid, s => Spec.specSysResumeEnclave s eid

/-- `make-spec-func`: all calls but one step over the `ecall`. -/
def Call.makeSpecFunc (c : Call) (s : Spec.State) : Spec.State :=
  match c with
  | .run _ => c.spec s
  | _ => c.spec (Spec.advanceMepc s)

/-! ## Checks -/

section Checks

variable {m : Machine} {c : Call}

/-- The loop over the table finds what the quantifier of the specification speaks about. -/
theorem regionNonoverlap_iff (m : Machine) (lower upper : Word) :
    Spec.regionNonoverlap (absFunction m) lower upper ↔
      isRegionOverlap m.enclaves lower upper = false := by
  have hmem : ∀ eid, eid ∈ eids ↔ Spec.eidValid eid := by
    intro eid
    rw [Spec.eidValid_iff]
    show eid ∈ [0, 1, 2] ↔ _
    simp only [List.mem_cons, List.not_mem_nil, or_false]
  rw [isRegionOverlap, List.any_eq_false]
  simp only [Bool.and_eq_true, decide_eq_true_iff, hmem]
  rfl

/-- A call that fails one of its checks returns an error in the specification too. -/
theorem spec_of_not_enabled (hfail : ¬ c.Enabled m) :
    c.spec (absFunction m) = Spec.setReturn (absFunction m) (-EINVAL) := by
  have hmode : (absFunction m).enclaveMode = true ↔ m.enclaveMode ≠ 0 := decide_eq_true_iff
  cases c with
  | create eid entry secureLower secureUpper sharedLower sharedUpper =>
      simp only [Call.spec, Spec.specSysCreateEnclave, hmode, regionNonoverlap_iff]
      refine ite_eq_left_iff.mpr fun h₁ => ite_eq_left_iff.mpr fun h₂ => ite_eq_left_iff.mpr fun h₃ =>
        ite_eq_left_iff.mpr fun h₄ => ite_eq_left_iff.mpr fun h₅ => ite_eq_left_iff.mpr fun h₆ => ?_
      exact absurd ⟨not_not.mp h₁, not_not.mp h₂, not_not.mp h₃, not_not.mp h₄, not_not.mp h₅,
        not_not.mp h₆⟩ hfail
  | destroy eid =>
      simp only [Call.spec, Spec.specSysDestroyEnclave, hmode]
      refine ite_eq_left_iff.mpr fun h₁ => ite_eq_left_iff.mpr fun h₂ => ite_eq_left_iff.mpr fun h₃ =>
        ?_
      exact absurd ⟨not_not.mp h₁, not_not.mp h₂, not_running_iff.mp h₃⟩ hfail
  | run eid =>
      simp only [Call.spec, Spec.specSysRunEnclave, hmode]
      refine ite_eq_left_iff.mpr fun h₁ => ite_eq_left_iff.mpr fun h₂ => ite_eq_left_iff.mpr fun h₃ =>
        ?_
      exact absurd ⟨not_not.mp h₁, not_not.mp h₂, not_running_iff.mp h₃⟩ hfail
  | exit =>
      simp only [Call.spec, Spec.specSysExitEnclave, hmode]
      exact ite_eq_left_iff.mpr fun h₁ => absurd (not_not.mp h₁) hfail
  | resume eid =>
      simp only [Call.spec, Spec.specSysResumeEnclave, hmode]
      refine ite_eq_left_iff.mpr fun h₁ => ite_eq_left_iff.mpr fun h₂ => ite_eq_left_iff.mpr fun h₃ =>
        ?_
      exact absurd ⟨not_not.mp h₁, not_not.mp h₂, not_not.mp h₃⟩ hfail

end Checks

/-! ## Calls -/

section Effects

variable {L : Layout} {m m₁ : Machine} {c : Call} {r : Word}

/-- A column of the table after one slot has been written. -/
theorem column_update {β : Type} (f : Enclave → β) (enclaves : Word → Enclave) (eid : Word)
    (e : Enclave) :
    (fun i => f (Function.update enclaves eid e i)) =
      Function.update (fun i => f (enclaves i)) eid (f e) :=
  Function.comp_update f enclaves eid e

/-- A column that a write to a slot leaves alone. -/
theorem column_same {β : Type} (f : Enclave → β) (enclaves : Word → Enclave) (eid : Word)
    {e : Enclave} (he : f e = f (enclaves eid)) :
    (fun i => f (Function.update enclaves eid e i)) = fun i => f (enclaves i) := by
  rw [column_update, he]
  exact Function.update_eq_self eid _

/-- The context an enclave is resumed from is not part of the specification's state. -/
theorem absFunction_resumed (L : Layout) (m : Machine) (eid : Word) (state : CpuState) :
    absFunction (resumed true L m eid state) = Spec.enterEnclave (absFunction m) eid := by
  simp only [absFunction, resumed, Spec.enterEnclave, column_update Enclave.status,
    column_same Enclave.secureLower, column_same Enclave.secureUpper,
    column_same Enclave.entry, column_same Enclave.sharedLower, column_same Enclave.sharedUpper,
    if_true]
  rfl

/-- What a call returns and leaves behind is what the specification says. -/
theorem CallStep.abs (hstep : CallStep true L m c r m₁) :
    Spec.setReturn (absFunction m₁) r = c.spec (absFunction m) := by
  have hmode : (absFunction m).enclaveMode = true ↔ m.enclaveMode ≠ 0 := decide_eq_true_iff
  cases hstep with
  | failed hfail => exact (spec_of_not_enabled hfail).symm
  | @create eid entry secureLower secureUpper sharedLower sharedUpper h₁ h₂ h₃ h₄ h₅ h₆ =>
      simp only [Call.spec, Spec.specSysCreateEnclave, hmode, regionNonoverlap_iff]
      refine Eq.symm <| (if_neg (not_not.mpr h₁)).trans <| (if_neg (not_not.mpr h₂)).trans <|
        (if_neg (not_not.mpr h₃)).trans <| (if_neg (not_not.mpr h₄)).trans <|
        (if_neg (not_not.mpr h₅)).trans <| (if_neg (not_not.mpr h₆)).trans ?_
      simp only [absFunction, created, column_update Enclave.status, column_update Enclave.entry,
        column_update Enclave.secureLower, column_update Enclave.secureUpper,
        column_update Enclave.sharedLower, column_update Enclave.sharedUpper, if_true]
  | @destroy eid h₁ h₂ h₃ =>
      simp only [Call.spec, Spec.specSysDestroyEnclave, hmode]
      refine Eq.symm <| (if_neg (not_not.mpr h₁)).trans <| (if_neg (not_not.mpr h₂)).trans <|
        (if_neg (not_running_iff.mpr h₃)).trans ?_
      simp only [absFunction, destroyed, column_update Enclave.status,
        column_update Enclave.secureLower, column_update Enclave.secureUpper,
        column_same Enclave.entry, column_same Enclave.sharedLower, column_same Enclave.sharedUpper,
        if_true]
      rfl
  | @run eid h₁ h₂ h₃ =>
      simp only [Call.spec, Spec.specSysRunEnclave, hmode]
      refine Eq.symm <| (if_neg (not_not.mpr h₁)).trans <| (if_neg (not_not.mpr h₂)).trans <|
        (if_neg (not_running_iff.mpr h₃)).trans ?_
      rw [absFunction_resumed]
  | @exit h₁ h₂ =>
      simp only [Call.spec, Spec.specSysExitEnclave, hmode]
      refine Eq.symm <| (if_neg (not_not.mpr h₁)).trans ?_
      simp only [absFunction, exited, column_update Enclave.status,
        column_same Enclave.secureLower, column_same Enclave.secureUpper,
        column_same Enclave.entry, column_same Enclave.sharedLower, column_same Enclave.sharedUpper,
        if_true]
      rfl
  | @resume eid h₁ h₂ h₃ =>
      simp only [Call.spec, Spec.specSysResumeEnclave, hmode]
      refine Eq.symm <| (if_neg (not_not.mpr h₁)).trans <| (if_neg (not_not.mpr h₂)).trans <|
        (if_neg (not_not.mpr h₃)).trans ?_
      rw [absFunction_resumed]

/-- The invariant after one slot has been written. -/
theorem MregionsInvariants.setSlot (h : MregionsInvariants m) {eid : Word} {e : Enclave}
    (henclaves : m₁.enclaves = Function.update m.enclaves eid e)
    (hslot : e.status ≠ Status.free.val →
      Spec.regionValid e.secureLower e.secureUpper ∧ Spec.regionValid e.sharedLower e.sharedUpper)
    (hcurrent : m₁.enclaveMode ≠ 0 → Spec.eidValid m₁.currentEnclave ∧ m₁.currentEnclave = eid ∧
      e.status ≠ Status.free.val) :
    MregionsInvariants m₁ := by
  have hother : ∀ i, i ≠ eid → m₁.enclaves i = m.enclaves i := by
    intro i hi
    rw [henclaves, Function.update_of_ne hi]
  have hself : m₁.enclaves eid = e := by rw [henclaves, Function.update_self]
  refine ⟨fun hmode => ?_, fun i hi hlive => ?_, fun i hi hlive => ?_⟩
  · rcases hcurrent hmode with ⟨hvalid, heq, hlive⟩
    rw [heq, hself]
    exact ⟨heq ▸ hvalid, hlive⟩
  · by_cases heq : i = eid
    · rw [heq, hself] at hlive ⊢
      exact (hslot hlive).1
    · rw [hother i heq] at hlive ⊢
      exact h.secure i hi hlive
  · by_cases heq : i = eid
    · rw [heq, hself] at hlive ⊢
      exact (hslot hlive).2
    · rw [hother i heq] at hlive ⊢
      exact h.shared i hi hlive

theorem CallStep.mregionsInvariants {verification : Bool} (hstep : CallStep verification L m c r m₁)
    (h : MregionsInvariants m) : MregionsInvariants m₁ := by
  -- an enclave that is not free keeps the regions it was created with
  have hlive : ∀ eid, eidIsValid eid → (m.enclaves eid).status ≠ Status.free.val →
      Spec.regionValid (m.enclaves eid).secureLower (m.enclaves eid).secureUpper ∧
        Spec.regionValid (m.enclaves eid).sharedLower (m.enclaves eid).sharedUpper :=
    fun eid heid hne => ⟨h.secure eid heid hne, h.shared eid heid hne⟩
  have hstartable : ∀ {status : Word}, status = Status.idle.val ∨ status = Status.fresh.val →
      status ≠ Status.free.val := by
    rintro _ (rfl | rfl) <;> decide
  cases hstep with
  | failed => exact h
  | create hmode heid hfree hsecure hshared =>
      exact h.setSlot rfl (fun _ => ⟨hsecure, hshared⟩) (fun hne => absurd hmode hne)
  | destroy hmode heid hstatus =>
      exact h.setSlot rfl (fun hne => absurd rfl hne) (fun hne => absurd hmode hne)
  | run hmode heid hstatus =>
      exact h.setSlot rfl (fun _ => hlive _ heid (hstartable hstatus))
        (fun _ => ⟨heid, rfl, (by decide : Status.running.val ≠ Status.free.val)⟩)
  | exit hmode heid =>
      exact h.setSlot rfl (fun _ => hlive _ heid (h.current hmode).2) (fun hne => absurd rfl hne)
  | resume hmode heid hstatus =>
      exact h.setSlot rfl (fun _ => hlive _ heid (hstartable (.inl hstatus)))
        (fun _ => ⟨heid, rfl, (by decide : Status.running.val ≠ Status.free.val)⟩)

end Effects

/-! ## Traps -/

section Traps

variable {L : Layout} {m : Machine} {c : Call}

theorem MregionsInvariants.returned (h : MregionsInvariants m) (nr r : Word) :
    MregionsInvariants (returned m nr r) :=
  ⟨h.current, h.secure, h.shared⟩

/-- The specification of a call neither reads nor moves `mepc`. -/
theorem spec_advanceMepc (c : Call) (s : Spec.State) :
    c.spec (Spec.advanceMepc s) = Spec.advanceMepc (c.spec s) := by
  cases c <;>
    simp only [Call.spec, Spec.specSysCreateEnclave, Spec.specSysDestroyEnclave, Spec.specSysRunEnclave,
      Spec.specSysExitEnclave, Spec.specSysResumeEnclave, apply_ite Spec.advanceMepc] <;>
    rfl

theorem absFunction_returned {nr : Word} (hnr : nr ≠ NR_run_enclave) (m : Machine) (r : Word) :
    absFunction (returned m nr r) = Spec.advanceMepc (Spec.setReturn (absFunction m) r) := by
  have hregs := readCsrs_stepMepc (Function.update m.regs .a0 r) m.csrs
  simp only [absFunction, returned, if_pos hnr, hregs]
  rfl

theorem absFunction_returned_run (m : Machine) (r : Word) :
    absFunction (returned m NR_run_enclave r) = Spec.setReturn (absFunction m) r := by
  simp only [absFunction, returned, ne_eq, not_true_eq_false, if_false]
  rfl

/-- The dispatcher around a call is `make-spec-func` around its specification. -/
theorem CallStep.makeSpecFunc {r : Word} {m₁ : Machine} (hstep : CallStep true L m c r m₁) :
    absFunction (returned m₁ c.nr r) = c.makeSpecFunc (absFunction m) := by
  have habs := hstep.abs
  cases c with
  | run eid =>
      rw [Call.nr, absFunction_returned_run]
      exact habs
  | create eid entry secureLower secureUpper sharedLower sharedUpper | destroy eid | exit | resume eid =>
      rw [Call.nr, absFunction_returned (by decide), habs, ← spec_advanceMepc]
      rfl

/-- In the verification build, an `ecall` with the number of one of the five calls comes back with the
invariant intact, in a state that the specification of the call describes. -/
theorem doTrapEcallS_refines_makeSpecFunc (L : Layout) (m : Machine) (hinv : MregionsInvariants m)
    (input : Word) (c : Call) (hc : Call.ofRegs m.regs = some c) :
    ∃ m', doTrapEcallS true L input m = .ret () m' ∧ MregionsInvariants m' ∧
      absFunction m' = c.makeSpecFunc (absFunction m) := by
  rcases doTrapEcallS_call (L := L) hinv.callSafe hc input with ⟨r, m₁, hstep, hrun⟩
  exact ⟨_, hrun, (hstep.mregionsInvariants hinv).returned c.nr r, hstep.makeSpecFunc⟩

/-- An enclave is created on a machine out of reset, and then, being live, run. -/
theorem doTrapEcallS_refines_makeSpecFunc_create :
    ∃ m m₁ m₂, m = { resetMachine with regs := callRegs NR_create_enclave 0 0x80200000 0 0x1000 0x1000 0x2000 } ∧
      doTrapEcallS true imageLayout 0 m = .ret () m₁ ∧ MregionsInvariants m₁ ∧ (m₁.enclaves 0).status ≠ 0 ∧
      absFunction m₁ = (Call.create 0 0x80200000 0 0x1000 0x1000 0x2000).makeSpecFunc (absFunction m) ∧
      doTrapEcallS true imageLayout 0 { m₁ with regs := callRegs NR_run_enclave 0 0 0 0 0 0 } = .ret () m₂ ∧
      MregionsInvariants m₂ ∧ m₂.enclaveMode ≠ 0 ∧
      absFunction m₂ =
        (Call.run 0).makeSpecFunc (absFunction { m₁ with regs := callRegs NR_run_enclave 0 0 0 0 0 0 }) := by
  rcases doTrapEcallS_refines_makeSpecFunc imageLayout
    { resetMachine with regs := callRegs NR_create_enclave 0 0x80200000 0 0x1000 0x1000 0x2000 }
    ⟨fun hmode => absurd rfl hmode, fun _ _ hlive => absurd rfl hlive, fun _ _ hlive => absurd rfl hlive⟩ 0 _ rfl with
    ⟨m₁, hcreate, hinv₁, habs₁⟩
  rcases doTrapEcallS_refines_makeSpecFunc imageLayout { m₁ with regs := callRegs NR_run_enclave 0 0 0 0 0 0 }
    ⟨hinv₁.1, hinv₁.2, hinv₁.3⟩ 0 (.run 0) rfl with ⟨m₂, hrun, hinv₂, habs₂⟩
  refine ⟨_, m₁, m₂, rfl, hcreate, hinv₁, ?_, habs₁, hrun, hinv₂, ?_, habs₂⟩
  · cases hcreate
    decide
  · cases hcreate
    cases hrun
    decide

end Traps

end Keystone
end Serval
