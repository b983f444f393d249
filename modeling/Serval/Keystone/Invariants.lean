import Serval.Keystone.Calls

/-!
# Invariants — the table of enclaves over whole runs

Disjointness of the secure regions is inductive because free slots have empty regions at zero:
`is_region_overlap` compares a new region with every slot, free or not.
-/

namespace Serval
namespace Keystone

open Riscv

/-! ## Regions -/

/-- A slot of the table: the regions of an enclave are valid, a free slot has none. -/
structure Enclave.Ok (e : Enclave) : Prop where
  secure : e.status ≠ Status.free.val → isRegionValid e.secureLower e.secureUpper
  shared : e.status ≠ Status.free.val → isRegionValid e.sharedLower e.sharedUpper
  free : e.status = Status.free.val → e.secureLower = 0 ∧ e.secureUpper = 0

/-- The secure regions of two slots do not overlap. -/
def Enclave.Apart (e e' : Enclave) : Prop :=
  e.secureUpper ≤ e'.secureLower ∨ e'.secureUpper ≤ e.secureLower

theorem Enclave.Apart.symm {e e' : Enclave} (h : e.Apart e') : e'.Apart e :=
  Or.symm h

structure RegionsOk (enclaves : Word → Enclave) : Prop where
  slot : ∀ eid, eidIsValid eid → (enclaves eid).Ok
  apart : ∀ i j, eidIsValid i → eidIsValid j → i ≠ j → (enclaves i).Apart (enclaves j)

section Regions

variable {enclaves : Word → Enclave} {eid : Word} {e : Enclave}

theorem RegionsOk.update (h : RegionsOk enclaves) (hok : e.Ok)
    (hapart : ∀ j, eidIsValid j → j ≠ eid → e.Apart (enclaves j)) :
    RegionsOk (Function.update enclaves eid e) := by
  constructor
  · intro i hi
    by_cases hie : i = eid
    · subst hie
      rw [Function.update_self]
      exact hok
    · rw [Function.update_of_ne hie]
      exact h.slot i hi
  · intro i j hi hj hij
    by_cases hie : i = eid
    · subst hie
      rw [Function.update_self, Function.update_of_ne hij.symm]
      exact hapart j hj hij.symm
    rw [Function.update_of_ne hie]
    by_cases hje : j = eid
    · subst hje
      rw [Function.update_self]
      exact (hapart i hi hie).symm
    · rw [Function.update_of_ne hje]
      exact h.apart i j hi hj hij

/-- A change of status between two that are not free, and of the saved context. -/
theorem RegionsOk.setStatus (h : RegionsOk enclaves) (heid : eidIsValid eid) {status : Word}
    (hlive : (enclaves eid).status ≠ Status.free.val) (hstatus : status ≠ Status.free.val)
    (state : CpuState) :
    RegionsOk (Function.update enclaves eid
      { enclaves eid with status := status, enclState := state }) := by
  have hslot := h.slot eid heid
  refine h.update ⟨fun _ => hslot.secure hlive, fun _ => hslot.shared hlive,
    fun hfree => absurd hfree hstatus⟩ ?_
  intro j hj hne
  exact h.apart eid j heid hj hne.symm

theorem mem_eids {i : Word} (hi : eidIsValid i) : i ∈ eids := by
  rcases eid_cases hi with rfl | rfl | rfl <;> decide

/-- A region that passes the check is apart from every slot. -/
theorem apart_of_isRegionOverlap
    (hoverlap : isRegionOverlap enclaves e.secureLower e.secureUpper = false) {j : Word}
    (hj : eidIsValid j) : e.Apart (enclaves j) := by
  have hloop := List.any_eq_false.mp hoverlap j (mem_eids hj)
  rw [Bool.and_eq_true, not_and_or, decide_eq_true_iff, decide_eq_true_iff] at hloop
  rcases hloop with h | h
  · exact .inr (BitVec.not_lt.mp h)
  · exact .inl (BitVec.not_lt.mp h)

end Regions

/-! ## The table and the mode -/

/-- At most one enclave is running, and the mode says whether. -/
structure RunningOk (enclaves : Word → Enclave) (mode : BitVec 8) (cur : Word) : Prop where
  current : mode ≠ 0 → eidIsValid cur ∧ (enclaves cur).status = Status.running.val
  running : ∀ eid, eidIsValid eid → (enclaves eid).status = Status.running.val →
    mode ≠ 0 ∧ eid = cur

structure TableInvariants (m : Machine) : Prop where
  regions : RegionsOk m.enclaves
  running : RunningOk m.enclaves m.enclaveMode m.currentEnclave

theorem TableInvariants.callSafe {m : Machine} (h : TableInvariants m) : CallSafe m :=
  ⟨fun eid heid hlive => (h.regions.slot eid heid).secure hlive,
    fun hmode => (h.running.current hmode).1⟩

theorem Status.val_ne {s t : Status} (h : s ≠ t) : s.val ≠ t.val := by
  cases s <;> cases t <;> first | exact absurd rfl h | decide

section Step

variable {enclaves : Word → Enclave} {mode : BitVec 8} {cur eid : Word} {e : Enclave}

/-- Without a running enclave, a slot can be given any other status. -/
theorem RunningOk.setSlot (h : RunningOk enclaves mode cur) (hmode : mode = 0)
    (hstatus : e.status ≠ Status.running.val) :
    RunningOk (Function.update enclaves eid e) mode cur := by
  refine ⟨fun hmode' => absurd hmode hmode', fun i hi hrunning => ?_⟩
  by_cases hie : i = eid
  · rw [hie, Function.update_self] at hrunning
    exact absurd hrunning hstatus
  · rw [Function.update_of_ne hie] at hrunning
    exact h.running i hi hrunning

/-- Without a running enclave, one can be started. -/
theorem RunningOk.start (h : RunningOk enclaves mode cur) (hmode : mode = 0)
    (heid : eidIsValid eid) (hstatus : e.status = Status.running.val) :
    RunningOk (Function.update enclaves eid e) 1 eid := by
  refine ⟨fun _ => ⟨heid, by rw [Function.update_self, hstatus]⟩, fun i hi hrunning => ?_⟩
  refine ⟨by decide, ?_⟩
  by_contra hne
  rw [Function.update_of_ne hne] at hrunning
  exact (h.running i hi hrunning).1 hmode

/-- The running enclave can be stopped. -/
theorem RunningOk.stop (h : RunningOk enclaves mode cur) (hstatus : e.status ≠ Status.running.val)
    (next : Word) : RunningOk (Function.update enclaves cur e) 0 next := by
  refine ⟨fun hmode => absurd rfl hmode, fun i hi hrunning => ?_⟩
  by_cases hie : i = cur
  · rw [hie, Function.update_self] at hrunning
    exact absurd hrunning hstatus
  · rw [Function.update_of_ne hie] at hrunning
    exact absurd (h.running i hi hrunning).2 hie

variable {verification : Bool} {L : Layout} {m m' : Machine} {c : Call} {r : Word}

theorem not_free_of_startable {status : Word}
    (h : status = Status.idle.val ∨ status = Status.fresh.val) : status ≠ Status.free.val := by
  rcases h with rfl | rfl <;> decide

theorem CallStep.tableInvariants (hstep : CallStep verification L m c r m') (h : TableInvariants m) :
    TableInvariants m' := by
  cases hstep with
  | failed => exact h
  | create hmode heid hfree hsecure hshared hoverlap =>
      refine ⟨h.regions.update ?_ ?_, h.running.setSlot hmode (Status.val_ne (s := .fresh) (by decide))⟩
      · exact ⟨fun _ => hsecure, fun _ => hshared,
          fun hfree => absurd hfree (Status.val_ne (s := .fresh) (by decide))⟩
      · intro j hj _
        exact apart_of_isRegionOverlap hoverlap hj
  | destroy hmode heid hstatus =>
      refine ⟨h.regions.update ?_ ?_, h.running.setSlot hmode (Status.val_ne (s := .free) (by decide))⟩
      · exact ⟨fun hne => absurd rfl hne, fun hne => absurd rfl hne, fun _ => ⟨rfl, rfl⟩⟩
      · intro j _ _
        exact .inl (Nat.zero_le _)
  | run hmode heid hstatus =>
      exact ⟨h.regions.setStatus heid (not_free_of_startable hstatus) (by decide) _,
        h.running.start hmode heid rfl⟩
  | resume hmode heid hstatus =>
      exact ⟨h.regions.setStatus heid (not_free_of_startable (.inl hstatus)) (by decide) _,
        h.running.start hmode heid rfl⟩
  | exit hmode heid =>
      have hrunning := (h.running.current hmode).2
      refine ⟨h.regions.setStatus heid ?_ (by decide) _,
        h.running.stop (Status.val_ne (s := .idle) (by decide)) _⟩
      rw [hrunning]
      decide

end Step

/-! ## Runs -/

/-- A sequence of calls; `none` is a bug of the monitor. -/
def runCalls (verification : Bool) (L : Layout) : Machine → List Call → Option Machine
  | m, [] => some m
  | m, c :: cs =>
      match c.exec verification L m with
      | .ret _ m' => runCalls verification L m' cs
      | _ => none

/-- The machine after `init_enclave`, whatever was in memory. -/
def initialised (m : Machine) : Machine :=
  { m with
    enclaveMode := 0
    enclaves := fun eid => if eidIsValid eid then zeroEnclave else m.enclaves eid }

theorem initEnclave_eq (m : Machine) : initEnclave m = .ret () (initialised m) :=
  rfl

theorem initialised_enclave (m : Machine) {eid : Word} (heid : eidIsValid eid) :
    (initialised m).enclaves eid = zeroEnclave :=
  if_pos heid

theorem initialised_tableInvariants (m : Machine) : TableInvariants (initialised m) := by
  have hok : zeroEnclave.Ok :=
    ⟨fun h => absurd rfl h, fun h => absurd rfl h, fun _ => ⟨rfl, rfl⟩⟩
  refine ⟨⟨fun eid heid => ?_, fun i j hi hj _ => ?_⟩, fun h => absurd rfl h, fun eid heid h => ?_⟩
  · rw [initialised_enclave m heid]
    exact hok
  · rw [initialised_enclave m hi, initialised_enclave m hj]
    exact .inl (Nat.le_refl _)
  · rw [initialised_enclave m heid] at h
    exact absurd h (Status.val_ne (s := .free) (by decide))

theorem runCalls_tableInvariants {verification : Bool} {L : Layout} (cs : List Call) :
    ∀ {m : Machine}, TableInvariants m →
      ∃ m', runCalls verification L m cs = some m' ∧ TableInvariants m' := by
  induction cs with
  | nil =>
      intro m h
      exact ⟨m, rfl, h⟩
  | cons c cs ih =>
      intro m h
      rcases exec_cases h.callSafe verification L c with ⟨r, m₁, hexec, hstep⟩
      rcases ih (hstep.tableInvariants h) with ⟨m₂, hrun, h₂⟩
      refine ⟨m₂, ?_, h₂⟩
      rw [runCalls, hexec]
      exact hrun

/-- The table of enclaves in every reachable state, in both builds.  No call makes the monitor fail; in
particular `sys_exit_enclave` stays inside the table. -/
theorem reachable_enclaves (verification : Bool) (L : Layout) (m₀ : Machine) (cs : List Call) :
    ∃ m, runCalls verification L (initialised m₀) cs = some m ∧
      (∀ eid, eidIsValid eid → (m.enclaves eid).status ≠ Status.free.val →
        isRegionValid (m.enclaves eid).secureLower (m.enclaves eid).secureUpper ∧
          isRegionValid (m.enclaves eid).sharedLower (m.enclaves eid).sharedUpper) ∧
      (∀ i j, eidIsValid i → eidIsValid j → i ≠ j →
        (m.enclaves i).status ≠ Status.free.val → (m.enclaves j).status ≠ Status.free.val →
        (m.enclaves i).secureUpper ≤ (m.enclaves j).secureLower ∨
          (m.enclaves j).secureUpper ≤ (m.enclaves i).secureLower) ∧
      (∀ eid, eidIsValid eid → (m.enclaves eid).status = Status.free.val →
        (m.enclaves eid).secureLower = 0 ∧ (m.enclaves eid).secureUpper = 0) ∧
      (m.enclaveMode ≠ 0 ↔
        ∃! eid, eidIsValid eid ∧ (m.enclaves eid).status = Status.running.val) ∧
      (m.enclaveMode ≠ 0 → m.currentEnclave < NR_ENCLAVES ∧
        (m.enclaves m.currentEnclave).status = Status.running.val) := by
  rcases runCalls_tableInvariants (L := L) cs (initialised_tableInvariants m₀) with ⟨m, hrun, h⟩
  refine ⟨m, hrun, ?_, ?_, ?_, ?_, h.running.current⟩
  · intro eid heid hlive
    exact ⟨(h.regions.slot eid heid).secure hlive, (h.regions.slot eid heid).shared hlive⟩
  · intro i j hi hj hij _ _
    exact h.regions.apart i j hi hj hij
  · intro eid heid hfree
    exact (h.regions.slot eid heid).free hfree
  · constructor
    · intro hmode
      exact ⟨m.currentEnclave, h.running.current hmode,
        fun eid heid => (h.running.running eid heid.1 heid.2).2⟩
    · rintro ⟨eid, ⟨heid, hrunning⟩, _⟩
      exact (h.running.running eid heid hrunning).1

end Keystone
end Serval
