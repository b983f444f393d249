import Serval.Keystone.Monitor

/-!
# Calls — what a call of the Keystone monitor can do

A call fails and changes nothing, or its checks have passed and it takes the machine to one of five
machines that are described here.  Everything said about runs later on is derived from this.
-/

namespace Serval
namespace Keystone

open Riscv

variable {eid : Word}

/-! ## Successful calls -/

section Machines

variable (verification : Bool) (L : Layout) (m : Machine)

/-- The CSRs after the entries of an enclave have been set. -/
def remappedCsrs (f : CsrFile) (eid lower upper : Word) : CsrFile :=
  let f := pmpaddrWrite f (Fin.ofNat 16 (2 * eid.toNat)) lower
  pmpaddrWrite f (Fin.ofNat 16 (2 * eid.toNat + 1)) upper

/-- The CSRs after the permissions of an enclave's entry have been set. -/
def chmodCsrs (f : CsrFile) (eid perm : Word) : CsrFile :=
  pmpcfgWrite f (2 * eid.toNat + 1) (PMPCFG_A_TOR ||| perm)

/-- The CSRs after the last two entries have been set. -/
def lastCsrs (f : CsrFile) (lower upper perm : Word) : CsrFile :=
  pmpcfgWrite (pmpaddrWrite (pmpaddrWrite f 6 lower) 7 upper) 7 (PMPCFG_A_TOR ||| perm)

def created (eid entry secureLower secureUpper sharedLower sharedUpper : Word) : Machine :=
  { m with
    enclaves := Function.update m.enclaves eid
      ⟨Status.fresh.val, entry, secureLower, secureUpper, sharedLower, sharedUpper,
        (m.enclaves eid).enclState⟩
    csrs := if verification then m.csrs else
      remappedCsrs (chmodCsrs m.csrs eid 0) eid (offsetToPhys L secureLower)
        (offsetToPhys L secureUpper) }

def destroyed (eid : Word) : Machine :=
  { m with
    enclaves := Function.update m.enclaves eid
      { m.enclaves eid with status := Status.free.val, secureLower := 0, secureUpper := 0 }
    payload := updateWhere m.payload
      (fun i => (m.enclaves eid).secureLower ≤ i && i < (m.enclaves eid).secureUpper) 0
    csrs := if verification then m.csrs else remappedCsrs m.csrs eid 0 0 }

/-- The machine on which an enclave runs from a saved context. -/
def resumed (eid : Word) (state : CpuState) : Machine :=
  let enclave := m.enclaves eid
  { m with
    enclaves := Function.update m.enclaves eid
      { enclave with status := Status.running.val, enclState := state }
    enclaveMode := 1
    currentEnclave := eid
    hostState := if verification then m.hostState else saveCpuState m.csrs m.regs m.hostState
    csrs := if verification then m.csrs else
      lastCsrs
        (chmodCsrs (restoreStateCsrs m.csrs state) eid (PMPCFG_R ||| PMPCFG_W ||| PMPCFG_X))
        (offsetToPhys L enclave.sharedLower) (offsetToPhys L enclave.sharedUpper)
        (PMPCFG_R ||| PMPCFG_W)
    regs := if verification then m.regs else copyPtRegs m.regs state.regs }

/-- The context in which an enclave starts. -/
def entryState (e : Enclave) : CpuState where
  csr := Function.update e.enclState.csr .mepc e.entry
  regs := fun _ => 0

def exited : Machine :=
  let eid := m.currentEnclave
  let enclave := m.enclaves eid
  { m with
    enclaves := Function.update m.enclaves eid
      { enclave with
        status := Status.idle.val
        enclState := if verification then enclave.enclState else
          saveCpuState m.csrs m.regs enclave.enclState }
    enclaveMode := 0
    currentEnclave := -1
    csrs := if verification then m.csrs else
      lastCsrs (chmodCsrs (restoreStateCsrs m.csrs m.hostState) eid 0) (offsetToPhys L 0)
        (offsetToPhys L MAX_PAYLOAD_SIZE) (PMPCFG_R ||| PMPCFG_W ||| PMPCFG_X)
    regs := if verification then m.regs else copyPtRegs m.regs m.hostState.regs }

end Machines

/-- The checks that a call makes. -/
def Call.Enabled (m : Machine) : Call → Prop
  | .create eid _ secureLower secureUpper sharedLower sharedUpper =>
      m.enclaveMode = 0 ∧ eidIsValid eid ∧ (m.enclaves eid).status = Status.free.val ∧
        isRegionValid secureLower secureUpper ∧ isRegionValid sharedLower sharedUpper ∧
        isRegionOverlap m.enclaves secureLower secureUpper = false
  | .destroy eid | .run eid =>
      m.enclaveMode = 0 ∧ eidIsValid eid ∧
        ((m.enclaves eid).status = Status.idle.val ∨ (m.enclaves eid).status = Status.fresh.val)
  | .exit => m.enclaveMode ≠ 0
  | .resume eid =>
      m.enclaveMode = 0 ∧ eidIsValid eid ∧ (m.enclaves eid).status = Status.idle.val

instance (m : Machine) : (c : Call) → Decidable (c.Enabled m)
  | .create _ _ _ _ _ _ => inferInstanceAs (Decidable (_ ∧ _))
  | .destroy _ => inferInstanceAs (Decidable (_ ∧ _))
  | .run _ => inferInstanceAs (Decidable (_ ∧ _))
  | .exit => inferInstanceAs (Decidable (_ ≠ _))
  | .resume _ => inferInstanceAs (Decidable (_ ∧ _))

/-- The effect of a call that returns. -/
inductive CallStep (verification : Bool) (L : Layout) (m : Machine) : Call → Word → Machine → Prop
  | failed {c : Call} (hfail : ¬ c.Enabled m) : CallStep verification L m c (-EINVAL) m
  | create {eid entry secureLower secureUpper sharedLower sharedUpper : Word}
      (hmode : m.enclaveMode = 0) (heid : eidIsValid eid)
      (hfree : (m.enclaves eid).status = Status.free.val)
      (hsecure : isRegionValid secureLower secureUpper)
      (hshared : isRegionValid sharedLower sharedUpper)
      (hoverlap : isRegionOverlap m.enclaves secureLower secureUpper = false) :
      CallStep verification L m
        (.create eid entry secureLower secureUpper sharedLower sharedUpper) 0
        (created verification L m eid entry secureLower secureUpper sharedLower sharedUpper)
  | destroy {eid : Word} (hmode : m.enclaveMode = 0) (heid : eidIsValid eid)
      (hstatus : (m.enclaves eid).status = Status.idle.val ∨
        (m.enclaves eid).status = Status.fresh.val) :
      CallStep verification L m (.destroy eid) 0 (destroyed verification m eid)
  | run {eid : Word} (hmode : m.enclaveMode = 0) (heid : eidIsValid eid)
      (hstatus : (m.enclaves eid).status = Status.idle.val ∨
        (m.enclaves eid).status = Status.fresh.val) :
      CallStep verification L m (.run eid) 0
        (resumed verification L m eid (entryState (m.enclaves eid)))
  | exit (hmode : m.enclaveMode ≠ 0) (heid : eidIsValid m.currentEnclave) :
      CallStep verification L m .exit 0 (exited verification L m)
  | resume {eid : Word} (hmode : m.enclaveMode = 0) (heid : eidIsValid eid)
      (hstatus : (m.enclaves eid).status = Status.idle.val) :
      CallStep verification L m (.resume eid) 0
        (resumed verification L m eid (m.enclaves eid).enclState)

/-! ## Rules -/

section Rules

variable {Q : Unit → Machine → Prop} {E : PtRegs → Machine → Prop} {m : Machine}

@[simp] theorem wp_loadEnclave {Q : Enclave → Machine → Prop} (eid : Word) :
    Ctl.wp (loadEnclave eid) Q E m ↔ eidIsValid eid ∧ Q (m.enclaves eid) m := by
  simp [loadEnclave]

@[simp] theorem wp_storeEnclave (eid : Word) (f : Enclave → Enclave) :
    Ctl.wp (storeEnclave eid f) Q E m ↔
      eidIsValid eid ∧
        Q () { m with enclaves := Function.update m.enclaves eid (f (m.enclaves eid)) } := by
  simp [storeEnclave]

@[simp] theorem wp_modifyCsrs (f : CsrFile → CsrFile) :
    Ctl.wp (modifyCsrs f) Q E m ↔ Q () { m with csrs := f m.csrs } :=
  Iff.rfl

@[simp] theorem wp_writePmpaddr {nr : Nat} (hnr : nr < 8) (addr : Word) :
    Ctl.wp (writePmpaddr nr addr) Q E m ↔
      Q () { m with csrs := pmpaddrWrite m.csrs (Fin.ofNat 16 nr) addr } := by
  simp [writePmpaddr, hnr]

section Slots

variable (h : eidIsValid eid)

include h

theorem eid_cases : eid = 0 ∨ eid = 1 ∨ eid = 2 := by
  have hlt : eid.toNat < 3 := h
  rcases Nat.lt_or_ge eid.toNat 1 with h0 | h0
  · exact .inl (BitVec.eq_of_toNat_eq (show eid.toNat = 0 by omega))
  rcases Nat.lt_or_ge eid.toNat 2 with h1 | h1
  · exact .inr (.inl (BitVec.eq_of_toNat_eq (show eid.toNat = 1 by omega)))
  · exact .inr (.inr (BitVec.eq_of_toNat_eq (show eid.toNat = 2 by omega)))

theorem wp_eidToPmpLower {Q : Nat → Machine → Prop} : Ctl.wp (eidToPmpLower eid) Q E m ↔ Q (2 * eid.toNat) m := by
  rcases eid_cases h with rfl | rfl | rfl <;> rfl

theorem wp_eidToPmpUpper {Q : Nat → Machine → Prop} : Ctl.wp (eidToPmpUpper eid) Q E m ↔ Q (2 * eid.toNat + 1) m := by
  simp only [eidToPmpUpper, Ctl.wp_bind, wp_eidToPmpLower h, Ctl.wp_pure]

theorem pmp_index_lt : 2 * eid.toNat + 1 < 8 := by
  have hlt : eid.toNat < 3 := h
  omega

/-- Both ways of writing the entries of an enclave. -/
theorem wp_writePair (lower upper : Word) :
    Ctl.wp (do
        writePmpaddr (← eidToPmpLower eid) lower
        writePmpaddr (← eidToPmpUpper eid) upper) Q E m ↔
      Q () { m with csrs := remappedCsrs m.csrs eid lower upper } := by
  have hlt := pmp_index_lt h
  simp only [Ctl.wp_bind, wp_eidToPmpLower h, wp_eidToPmpUpper h,
    wp_writePmpaddr (Nat.lt_of_succ_lt hlt), wp_writePmpaddr hlt, remappedCsrs]

theorem wp_freePmpRegion : Ctl.wp (freePmpRegion eid) Q E m ↔ Q () { m with csrs := remappedCsrs m.csrs eid 0 0 } :=
  wp_writePair h 0 0

end Slots

theorem wp_remapPmpRegion (L : Layout) (h : eidIsValid eid) (lower upper : Word) :
    Ctl.wp (remapPmpRegion L eid lower upper) Q E m ↔
      Q () { m with
        csrs := remappedCsrs m.csrs eid (offsetToPhys L lower) (offsetToPhys L upper) } :=
  wp_writePair h _ _

theorem wp_chmodPmpRegion (h : eidIsValid eid) (perm : Word) :
    Ctl.wp (chmodPmpRegion eid perm) Q E m ↔ Q () { m with csrs := chmodCsrs m.csrs eid perm } := by
  simp only [chmodPmpRegion, Ctl.wp_bind, wp_eidToPmpUpper h, wp_modifyCsrs, chmodCsrs]

theorem wp_remapOsRegion (L : Layout) :
    Ctl.wp (remapOsRegion L) Q E m ↔
      Q () { m with
        csrs := lastCsrs m.csrs (offsetToPhys L 0) (offsetToPhys L MAX_PAYLOAD_SIZE)
          (PMPCFG_R ||| PMPCFG_W ||| PMPCFG_X) } :=
  Iff.rfl

theorem wp_remapSharedRegion (L : Layout) (lower upper : Word) :
    Ctl.wp (remapSharedRegion L lower upper) Q E m ↔
      Q () { m with
        csrs := lastCsrs m.csrs (offsetToPhys L lower) (offsetToPhys L upper)
          (PMPCFG_R ||| PMPCFG_W) } :=
  Iff.rfl

end Rules

/-! ## The calls -/

section Calls

variable {verification : Bool} {L : Layout} {m : Machine}

theorem wp_sysCreateEnclave (eid entry secureLower secureUpper sharedLower sharedUpper : Word) :
    Ctl.wp (sysCreateEnclave verification L eid entry secureLower secureUpper sharedLower sharedUpper)
      (CallStep verification L m
        (.create eid entry secureLower secureUpper sharedLower sharedUpper))
      (fun _ _ => False) m := by
  simp only [sysCreateEnclave, Ctl.wp_bind, Ctl.wp_gets, Ctl.wp_ite, Ctl.wp_pure, wp_loadEnclave,
    wp_storeEnclave, Function.update_self, Function.update_idem]
  by_cases hmode : m.enclaveMode ≠ 0
  · rw [if_pos hmode]
    exact .failed (fun h => hmode h.1)
  rw [if_neg hmode]
  refine Ctl.guard_intro (fun heid => .failed (fun h => heid h.2.1)) (fun heid => ⟨heid, ?_⟩)
  by_cases hfree : (m.enclaves eid).status ≠ Status.free.val
  · rw [if_pos hfree]
    exact .failed (fun h => hfree h.2.2.1)
  rw [if_neg hfree]
  refine Ctl.guard_intro (fun hsecure => .failed (fun h => hsecure h.2.2.2.1)) (fun hsecure => ?_)
  refine Ctl.guard_intro (fun hshared => .failed (fun h => hshared h.2.2.2.2.1)) (fun hshared => ?_)
  by_cases hoverlap : isRegionOverlap m.enclaves secureLower secureUpper = true
  · rw [if_pos hoverlap]
    exact .failed (fun h => Bool.false_ne_true (h.2.2.2.2.2.symm.trans hoverlap))
  rw [if_neg hoverlap]
  refine ⟨heid, heid, heid, heid, heid, heid, ?_⟩
  have hstep : CallStep verification L m
      (.create eid entry secureLower secureUpper sharedLower sharedUpper) 0
      (created verification L m eid entry secureLower secureUpper sharedLower sharedUpper) :=
    .create (not_not.mp hmode) heid (not_not.mp hfree) hsecure hshared
      (Bool.eq_false_of_not_eq_true hoverlap)
  cases verification with
  | true => exact hstep
  | false =>
      rw [if_pos Bool.false_ne_true]
      simp only [wp_chmodPmpRegion heid, wp_remapPmpRegion L heid]
      exact hstep

/-- The bytes that `sys_destroy_enclave` clears are those of the secure region. -/
theorem region_size {lower upper : Word} (h : isRegionValid lower upper) :
    lower.toNat + (upper - lower).toNat = upper.toNat ∧ upper.toNat ≤ MAX_PAYLOAD_SIZE.toNat := by
  rcases h with ⟨_, _, hlt, hmax⟩
  have hle : lower.toNat ≤ upper.toNat := Nat.le_of_lt hlt
  rw [BitVec.toNat_sub_of_le hle]
  exact ⟨Nat.add_sub_cancel' hle, hmax⟩

/-- The enclaves that can be destroyed or run. -/
theorem not_running_iff {status : Word} :
    ¬ (status ≠ Status.idle.val ∧ status ≠ Status.fresh.val) ↔
      status = Status.idle.val ∨ status = Status.fresh.val := by
  tauto

theorem wp_sysDestroyEnclave (L : Layout) (eid : Word)
    (hregion : eidIsValid eid → (m.enclaves eid).status ≠ Status.free.val →
      isRegionValid (m.enclaves eid).secureLower (m.enclaves eid).secureUpper) :
    Ctl.wp (sysDestroyEnclave verification eid) (CallStep verification L m (.destroy eid))
      (fun _ _ => False) m := by
  simp only [sysDestroyEnclave, memsetPayload, Ctl.wp_bind, Ctl.wp_gets, Ctl.wp_ite, Ctl.wp_pure,
    Ctl.wp_bugOn, Ctl.wp_modify, wp_loadEnclave, wp_storeEnclave, Function.update_self,
    Function.update_idem, not_not]
  by_cases hmode : m.enclaveMode ≠ 0
  · rw [if_pos hmode]
    exact .failed (fun h => hmode h.1)
  rw [if_neg hmode]
  refine Ctl.guard_intro (fun heid => .failed (fun h => heid h.2.1)) (fun heid => ⟨heid, ?_⟩)
  by_cases hstatus : (m.enclaves eid).status ≠ Status.idle.val ∧
      (m.enclaves eid).status ≠ Status.fresh.val
  · rw [if_pos hstatus]
    exact .failed (fun h => not_running_iff.mpr h.2.2 hstatus)
  rw [if_neg hstatus]
  have hlive := not_running_iff.mp hstatus
  have hnotFree : (m.enclaves eid).status ≠ Status.free.val := by
    rcases hlive with h | h <;> rw [h] <;> decide
  rcases region_size (hregion heid hnotFree) with ⟨hsize, hmax⟩
  simp only [hsize]
  refine ⟨hmax, heid, heid, heid, ?_⟩
  have hstep : CallStep verification L m (.destroy eid) 0 (destroyed verification m eid) :=
    .destroy (not_not.mp hmode) heid hlive
  cases verification with
  | true => exact hstep
  | false =>
      rw [if_pos Bool.false_ne_true]
      simp only [wp_freePmpRegion heid]
      exact hstep

/-- Running an enclave from the context it has. -/
theorem wp_sysResumeEnclave {Q : Word → Machine → Prop} (eid : Word)
    (hfail : ¬ (m.enclaveMode = 0 ∧ eidIsValid eid ∧ (m.enclaves eid).status = Status.idle.val) →
      Q (-EINVAL) m)
    (hok : m.enclaveMode = 0 → eidIsValid eid → (m.enclaves eid).status = Status.idle.val →
      Q 0 (resumed verification L m eid (m.enclaves eid).enclState)) :
    Ctl.wp (sysResumeEnclave verification L eid) Q (fun _ _ => False) m := by
  simp only [sysResumeEnclave, saveHostState, restoreEnclState, restoreCpuState, Ctl.wp_bind,
    Ctl.wp_gets, Ctl.wp_ite, Ctl.wp_pure, Ctl.wp_modify, wp_loadEnclave, wp_storeEnclave,
    Function.update_self]
  by_cases hmode : m.enclaveMode ≠ 0
  · rw [if_pos hmode]
    exact hfail (fun h => hmode h.1)
  rw [if_neg hmode]
  refine Ctl.guard_intro (fun heid => hfail (fun h => heid h.2.1)) (fun heid => ⟨heid, ?_⟩)
  by_cases hstatus : (m.enclaves eid).status ≠ Status.idle.val
  · rw [if_pos hstatus]
    exact hfail (fun h => hstatus h.2.2)
  rw [if_neg hstatus]
  refine ⟨heid, ?_⟩
  have hok' := hok (not_not.mp hmode) heid (not_not.mp hstatus)
  cases verification with
  | true => exact hok'
  | false =>
      rw [if_pos Bool.false_ne_true]
      simp only [wp_chmodPmpRegion heid, wp_remapSharedRegion, Function.update_self]
      exact ⟨heid, heid, hok'⟩

theorem wp_sysRunEnclave (eid : Word) :
    Ctl.wp (sysRunEnclave verification L eid) (CallStep verification L m (.run eid))
      (fun _ _ => False) m := by
  simp only [sysRunEnclave, Ctl.wp_bind, Ctl.wp_gets, Ctl.wp_ite, Ctl.wp_pure, wp_loadEnclave,
    wp_storeEnclave, Function.update_self, Function.update_idem]
  by_cases hmode : m.enclaveMode ≠ 0
  · rw [if_pos hmode]
    exact .failed (fun h => hmode h.1)
  rw [if_neg hmode]
  refine Ctl.guard_intro (fun heid => .failed (fun h => heid h.2.1)) (fun heid => ⟨heid, ?_⟩)
  by_cases hstatus : (m.enclaves eid).status ≠ Status.idle.val ∧
      (m.enclaves eid).status ≠ Status.fresh.val
  · rw [if_pos hstatus]
    exact .failed (fun h => not_running_iff.mpr h.2.2 hstatus)
  rw [if_neg hstatus]
  refine ⟨heid, heid, heid, ?_⟩
  -- The checks of `sys_resume_enclave` pass, on a table whose entry has been prepared.
  have hstep : CallStep verification L m (.run eid) 0
      (resumed verification L m eid (entryState (m.enclaves eid))) :=
    .run (not_not.mp hmode) heid (not_running_iff.mp hstatus)
  apply wp_sysResumeEnclave
  · intro hfail
    refine absurd ⟨not_not.mp hmode, heid, ?_⟩ hfail
    exact congrArg Enclave.status (Function.update_self eid _ m.enclaves)
  · intro _ _ _
    simp only [resumed, Function.update_self, Function.update_idem]
    exact hstep

theorem wp_sysExitEnclave (hcurrent : m.enclaveMode ≠ 0 → eidIsValid m.currentEnclave) :
    Ctl.wp (sysExitEnclave verification L) (CallStep verification L m .exit) (fun _ _ => False) m := by
  simp only [sysExitEnclave, saveEnclState, restoreHostState, restoreCpuState, Ctl.wp_bind,
    Ctl.wp_get, Ctl.wp_gets, Ctl.wp_ite, Ctl.wp_pure, Ctl.wp_modify, wp_storeEnclave,
    Function.update_self, Function.update_idem]
  by_cases hmode : m.enclaveMode = 0
  · rw [if_pos hmode]
    exact .failed (fun h => h hmode)
  rw [if_neg hmode]
  have heid := hcurrent hmode
  refine ⟨heid, ?_⟩
  have hstep : CallStep verification L m .exit 0 (exited verification L m) := .exit hmode heid
  cases verification with
  | true => exact hstep
  | false =>
      rw [if_pos Bool.false_ne_true]
      simp only [wp_chmodPmpRegion heid, wp_remapOsRegion]
      exact ⟨heid, hstep⟩

/-- What `sys_destroy_enclave` and `sys_exit_enclave` rely on. -/
structure CallSafe (m : Machine) : Prop where
  region : ∀ eid, eidIsValid eid → (m.enclaves eid).status ≠ Status.free.val →
    isRegionValid (m.enclaves eid).secureLower (m.enclaves eid).secureUpper
  current : m.enclaveMode ≠ 0 → eidIsValid m.currentEnclave

/-- Every call returns, and does one of the things it can do. -/
theorem exec_cases (hsafe : CallSafe m) (verification : Bool) (L : Layout) (c : Call) :
    ∃ r m', c.exec verification L m = .ret r m' ∧ CallStep verification L m c r m' := by
  apply Ctl.exists_ret_of_wp
  cases c with
  | create eid entry secureLower secureUpper sharedLower sharedUpper =>
      exact wp_sysCreateEnclave _ _ _ _ _ _
  | destroy eid => exact wp_sysDestroyEnclave L eid (hsafe.region eid)
  | run eid => exact wp_sysRunEnclave eid
  | exit => exact wp_sysExitEnclave hsafe.current
  | resume eid => exact wp_sysResumeEnclave eid (fun hfail => .failed (c := .resume eid) hfail) .resume

end Calls

end Keystone
end Serval
