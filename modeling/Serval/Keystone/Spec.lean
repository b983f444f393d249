import Serval.Keystone.Monitor

/-!
# Spec — the Keystone state machine

The specification of the enclave calls as `verif/state.rkt` and `verif/spec.rkt` have it.  A state has
the registers of the trapped context, the payload by offset and one column per member of the table of
enclaves; the register contexts of enclaves that do not run are not part of it.  The constants are
those of the C headers, as `asm-offsets.c` hands them over.
-/

namespace Serval
namespace Keystone
namespace Spec

open Riscv

/-! ## State -/

@[ext] structure State where
  enclaveMode : Bool
  currentEnclave : Word
  payload : Word → BitVec 8
  regs : Regs
  enclaveStatus : Word → Word
  enclaveEntry : Word → Word
  enclaveSecureLower : Word → Word
  enclaveSecureUpper : Word → Word
  enclaveSharedLower : Word → Word
  enclaveSharedUpper : Word → Word

def eidValid (eid : Word) : Prop :=
  eid < NR_ENCLAVES

instance (eid : Word) : Decidable (eidValid eid) :=
  inferInstanceAs (Decidable (_ < _))

def regionValid (lower upper : Word) : Prop :=
  lower % 4 = 0 ∧ upper % 4 = 0 ∧ lower < upper ∧ upper ≤ MAX_PAYLOAD_SIZE

instance (lower upper : Word) : Decidable (regionValid lower upper) :=
  inferInstanceAs (Decidable (_ ∧ _))

/-- `region-nonoverlap?`: no slot has a secure region that meets the new one. -/
def regionNonoverlap (s : State) (lower upper : Word) : Prop :=
  ∀ eid, eidValid eid → ¬ (lower < s.enclaveSecureUpper eid ∧ s.enclaveSecureLower eid < upper)

theorem eidValid_iff {eid : Word} : eidValid eid ↔ eid = 0 ∨ eid = 1 ∨ eid = 2 := by
  have hnum : eidValid eid ↔ eid.toNat < 3 := Iff.rfl
  rw [hnum, ← BitVec.toNat_inj, ← BitVec.toNat_inj, ← BitVec.toNat_inj]
  show eid.toNat < 3 ↔ eid.toNat = 0 ∨ eid.toNat = 1 ∨ eid.toNat = 2
  omega

/-- The quantifier ranges over three slots. -/
instance (s : State) (lower upper : Word) : Decidable (regionNonoverlap s lower upper) :=
  decidable_of_iff
    (¬ (lower < s.enclaveSecureUpper 0 ∧ s.enclaveSecureLower 0 < upper) ∧
      ¬ (lower < s.enclaveSecureUpper 1 ∧ s.enclaveSecureLower 1 < upper) ∧
      ¬ (lower < s.enclaveSecureUpper 2 ∧ s.enclaveSecureLower 2 < upper)) <| by
    constructor
    · rintro ⟨h0, h1, h2⟩ eid heid
      rcases eidValid_iff.mp heid with rfl | rfl | rfl
      · exact h0
      · exact h1
      · exact h2
    · intro h
      exact ⟨h 0 (by decide), h 1 (by decide), h 2 (by decide)⟩

/-! ## Calls -/

/-- `set-return!`. -/
def setReturn (s : State) (val : Word) : State :=
  { s with regs := s.regs.setGpr .a0 val }

def specSysCreateEnclave (s : State)
    (eid entry secureLower secureUpper sharedLower sharedUpper : Word) : State :=
  if s.enclaveMode then setReturn s (-EINVAL)
  else if ¬ eidValid eid then setReturn s (-EINVAL)
  else if ¬ s.enclaveStatus eid = Status.free.val then setReturn s (-EINVAL)
  else if ¬ regionValid secureLower secureUpper then setReturn s (-EINVAL)
  else if ¬ regionValid sharedLower sharedUpper then setReturn s (-EINVAL)
  else if ¬ regionNonoverlap s secureLower secureUpper then setReturn s (-EINVAL)
  else setReturn
    { s with
      enclaveStatus := Function.update s.enclaveStatus eid Status.fresh.val
      enclaveEntry := Function.update s.enclaveEntry eid entry
      enclaveSecureLower := Function.update s.enclaveSecureLower eid secureLower
      enclaveSecureUpper := Function.update s.enclaveSecureUpper eid secureUpper
      enclaveSharedLower := Function.update s.enclaveSharedLower eid sharedLower
      enclaveSharedUpper := Function.update s.enclaveSharedUpper eid sharedUpper } 0

def specSysDestroyEnclave (s : State) (eid : Word) : State :=
  if s.enclaveMode then setReturn s (-EINVAL)
  else if ¬ eidValid eid then setReturn s (-EINVAL)
  else if ¬ s.enclaveStatus eid = Status.idle.val ∧ ¬ s.enclaveStatus eid = Status.fresh.val then
    setReturn s (-EINVAL)
  else
    let secureLower := s.enclaveSecureLower eid
    let secureUpper := s.enclaveSecureUpper eid
    setReturn
      { s with
        enclaveStatus := Function.update s.enclaveStatus eid Status.free.val
        enclaveSecureLower := Function.update s.enclaveSecureLower eid 0
        enclaveSecureUpper := Function.update s.enclaveSecureUpper eid 0
        payload := updateWhere s.payload (fun offset => secureLower ≤ offset && offset < secureUpper)
          0 } 0

/-- An enclave starts to run. -/
def enterEnclave (s : State) (eid : Word) : State :=
  { s with
    enclaveMode := true
    currentEnclave := eid
    enclaveStatus := Function.update s.enclaveStatus eid Status.running.val }

def specSysRunEnclave (s : State) (eid : Word) : State :=
  if s.enclaveMode then setReturn s (-EINVAL)
  else if ¬ eidValid eid then setReturn s (-EINVAL)
  else if ¬ s.enclaveStatus eid = Status.idle.val ∧ ¬ s.enclaveStatus eid = Status.fresh.val then
    setReturn s (-EINVAL)
  else setReturn (enterEnclave s eid) 0

def specSysExitEnclave (s : State) : State :=
  if ¬ s.enclaveMode then setReturn s (-EINVAL)
  else
    let eid := s.currentEnclave
    setReturn
      { s with
        enclaveMode := false
        enclaveStatus := Function.update s.enclaveStatus eid Status.idle.val
        currentEnclave := -1 } 0

def specSysResumeEnclave (s : State) (eid : Word) : State :=
  if s.enclaveMode then setReturn s (-EINVAL)
  else if ¬ eidValid eid then setReturn s (-EINVAL)
  else if ¬ s.enclaveStatus eid = Status.idle.val then setReturn s (-EINVAL)
  else setReturn (enterEnclave s eid) 0

/-- The part of `make-spec-func` before the call: `mepc` moves past the `ecall`. -/
def advanceMepc (s : State) : State :=
  { s with regs := s.regs.setCsr .mepc (4 + s.regs.csr .mepc) }

end Spec
end Keystone
end Serval
