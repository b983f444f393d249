import Serval.Keystone.Protection

/-!
# Confinement — what an enclave's memory gives away and takes in

Calls, and the reads and writes of whoever runs, as one sequence of events.  Two runs whose events
differ in what an enclave writes to its own memory look the same to everybody else, and two runs whose
events differ in what is written while the enclave does not run look the same to the enclave.  Both
follow from one description of a pair of steps: the control state never depends on the payload, so two
runs differ in the payload only, and the difference stays on one side of the enclave's region.
-/

namespace Serval
namespace Keystone

open Riscv

variable {m m₁' : Machine} {q : Word → BitVec 8} {c : Call}

/-! ## Events -/

/-- A call, or an access of the operating system or the running enclave. -/
inductive Event
  | call (c : Call)
  | read (a : Word)
  | write (a : Word) (v : BitVec 8)
  deriving DecidableEq, Repr

def mayRead (m : Machine) (a : Word) : Prop :=
  pmpPerm m.csrs a &&& 1 ≠ 0

def mayWrite (m : Machine) (a : Word) : Prop :=
  pmpPerm m.csrs a &&& 2 ≠ 0

instance (m : Machine) (a : Word) : Decidable (mayRead m a) :=
  inferInstanceAs (Decidable (_ ≠ _))

instance (m : Machine) (a : Word) : Decidable (mayWrite m a) :=
  inferInstanceAs (Decidable (_ ≠ _))

/-- What a read returns; `none` is an access fault. -/
def readByte (L : Layout) (m : Machine) (a : Word) : Option (BitVec 8) :=
  if mayRead m a then some (m.payload (a - L.payloadStart)) else none

def Machine.withPayload (m : Machine) (q : Word → BitVec 8) : Machine :=
  { m with payload := q }

/-- A write that is not permitted has no effect. -/
def writeByte (L : Layout) (m : Machine) (a : Word) (v : BitVec 8) : Machine :=
  m.withPayload
    (if mayWrite m a then Function.update m.payload (a - L.payloadStart) v else m.payload)

def step (L : Layout) (m : Machine) : Event → Option Machine
  | .call c =>
      match c.exec false L m with
      | .ret _ m' => some m'
      | _ => none
  | .read _ => some m
  | .write a v => some (writeByte L m a v)

def runEvents (L : Layout) (m : Machine) (es : List Event) : Option Machine :=
  es.foldlM (step L) m

/-- The machine on which event `i` happens. -/
def stateAt (L : Layout) (m : Machine) (es : List Event) (i : Nat) : Option Machine :=
  runEvents L m (es.take i)

def Machine.runs (m : Machine) (e : Word) : Prop :=
  m.enclaveMode ≠ 0 ∧ m.currentEnclave = e

/-- The offsets of a secure region. -/
def Enclave.inRegion (e : Enclave) (o : Word) : Prop :=
  e.secureLower ≤ o ∧ o < e.secureUpper

/-- Event `i` is a call that succeeds. -/
def SucceedsAt (L : Layout) (s : Machine) (es : List Event) (i : Nat) (c : Call) : Prop :=
  es[i]? = some (.call c) ∧ ∃ m m', stateAt L s es i = some m ∧ c.exec false L m = .ret 0 m'

/-- Event `p` creates `e`. -/
def Creates (L : Layout) (s : Machine) (es : List Event) (e : Word) (p : Nat) : Prop :=
  ∃ entry secureLower secureUpper sharedLower sharedUpper,
    SucceedsAt L s es p (.create e entry secureLower secureUpper sharedLower sharedUpper)

/-- The events after `p` until the next time that `e` is destroyed. -/
def InLifetime (L : Layout) (s : Machine) (es : List Event) (e : Word) (p i : Nat) : Prop :=
  p < i ∧ ∀ j, p < j → j < i → ¬ SucceedsAt L s es j (.destroy e)

/-- Two sequences of events that are the same but for the values of some writes. -/
def SameBut (L : Layout) (s : Machine) (es es' : List Event) (P : Nat → Machine → Word → Prop) :
    Prop :=
  ∀ i, es[i]? = es'[i]? ∨
    ∃ m a v v', stateAt L s es i = some m ∧ es[i]? = some (.write a v) ∧
      es'[i]? = some (.write a v') ∧ P i m a

/-! ## Steps -/

structure Invariants (L : Layout) (m : Machine) : Prop where
  table : TableInvariants m
  pmp : PmpInvariants L m

/-- What an event does. -/
inductive EventStep (L : Layout) (m : Machine) : Event → Machine → Prop
  | call {c : Call} {r : Word} {m₁ : Machine} (hexec : c.exec false L m = .ret r m₁)
      (hstep : CallStep false L m c r m₁) : EventStep L m (.call c) m₁
  | read (a : Word) : EventStep L m (.read a) m
  | write (a : Word) (v : BitVec 8) : EventStep L m (.write a v) (writeByte L m a v)

section Steps

variable {L : Layout} {m m₁ : Machine} {q : Word → BitVec 8} {ev ev' : Event} {e a o : Word}

theorem step_cases (h : TableInvariants m) (ev : Event) : ∃ m₁, step L m ev = some m₁ ∧ EventStep L m ev m₁ := by
  cases ev with
  | call c =>
      rcases exec_cases h.callSafe false L c with ⟨r, m₁, hexec, hstep⟩
      refine ⟨m₁, ?_, .call hexec hstep⟩
      rw [step, hexec]
  | read a => exact ⟨m, rfl, .read a⟩
  | write a v => exact ⟨_, rfl, .write a v⟩

theorem TableInvariants.withPayload (h : TableInvariants m) (q : Word → BitVec 8) :
    TableInvariants (m.withPayload q) :=
  ⟨h.regions, h.running⟩

theorem PmpInvariants.withPayload (h : PmpInvariants L m) (q : Word → BitVec 8) : PmpInvariants L (m.withPayload q) :=
  ⟨h.slot, h.host, h.enclave, h.rest⟩

theorem EventStep.invariants (hstep : EventStep L m ev m₁) (h : Invariants L m) : Invariants L m₁ := by
  cases hstep with
  | call _ hstep => exact ⟨hstep.tableInvariants h.table, hstep.pmpInvariants h.table h.pmp⟩
  | read => exact h
  | write => exact ⟨h.table.withPayload _, h.pmp.withPayload _⟩

/-- An enclave keeps its region until it is destroyed. -/
structure Keeps (e : Word) (m m₁ : Machine) : Prop where
  live : (m₁.enclaves e).status ≠ Status.free.val
  region : ∀ o, (m₁.enclaves e).inRegion o ↔ (m.enclaves e).inRegion o

theorem keeps_update {eid : Word} {f : Enclave} (hlive : (m.enclaves e).status ≠ Status.free.val)
    (henclaves : m₁.enclaves = Function.update m.enclaves eid f)
    (hf : e = eid → f.status ≠ Status.free.val ∧ f.secureLower = (m.enclaves eid).secureLower ∧
      f.secureUpper = (m.enclaves eid).secureUpper) :
    Keeps e m m₁ := by
  by_cases heq : e = eid
  · rcases hf heq with ⟨hstatus, hlower, hupper⟩
    subst heq
    constructor
    · rw [henclaves, Function.update_self]
      exact hstatus
    · intro o
      rw [henclaves, Function.update_self, Enclave.inRegion, hlower, hupper]
      rfl
  · constructor
    · rw [henclaves, Function.update_of_ne heq]
      exact hlive
    · intro o
      rw [henclaves, Function.update_of_ne heq]

theorem CallStep.keeps {r : Word} (hstep : CallStep false L m c r m₁)
    (hlive : (m.enclaves e).status ≠ Status.free.val) (hdestroy : ¬ (c = .destroy e ∧ r = 0)) :
    Keeps e m m₁ := by
  cases hstep with
  | failed => exact ⟨hlive, fun _ => Iff.rfl⟩
  | create hmode heid hfree =>
      refine keeps_update hlive rfl (fun heq => ?_)
      subst heq
      exact absurd hfree hlive
  | destroy =>
      refine keeps_update hlive rfl (fun heq => ?_)
      subst heq
      exact absurd ⟨rfl, rfl⟩ hdestroy
  | run => exact keeps_update hlive rfl (fun _ => ⟨Status.val_ne (s := .running) (by decide), rfl, rfl⟩)
  | exit => exact keeps_update hlive rfl (fun _ => ⟨Status.val_ne (s := .idle) (by decide), rfl, rfl⟩)
  | resume =>
      exact keeps_update hlive rfl (fun _ => ⟨Status.val_ne (s := .running) (by decide), rfl, rfl⟩)

/-! ## Pairs of steps -/

/-- Two payloads after a step, at one offset: both as before, or both the same. -/
def Parallel (p q p₁ q₁ : Word → BitVec 8) (o : Word) : Prop :=
  (p₁ o = p o ∧ q₁ o = q o) ∨ p₁ o = q₁ o

theorem parallel_updateWhere (p q : Word → BitVec 8) (w : Word → Bool) (b : BitVec 8) (o : Word) :
    Parallel p q (updateWhere p w b) (updateWhere q w b) o := by
  cases hw : w o with
  | true => exact .inr ((updateWhere_of_true hw).trans (updateWhere_of_true hw).symm)
  | false => exact .inl ⟨updateWhere_of_false hw, updateWhere_of_false hw⟩

/-- Writes of two values, which are the same or at the offset in question. -/
theorem parallel_update (p q : Word → BitVec 8) {x o : Word} {v v' : BitVec 8} (h : o ≠ x ∨ v = v') :
    Parallel p q (Function.update p x v) (Function.update q x v') o := by
  by_cases hox : o = x
  · rcases h with h | rfl
    · exact absurd hox h
    · subst hox
      exact .inr (by rw [Function.update_self, Function.update_self])
  · exact .inl ⟨Function.update_of_ne hox _ _, Function.update_of_ne hox _ _⟩

/-- A call does the same whatever is in the payload. -/
theorem CallStep.pair {r r' : Word} (h : CallStep false L m c r m₁) (h' : CallStep false L (m.withPayload q) c r' m₁') :
    ∃ q₁, m₁' = m₁.withPayload q₁ ∧ ∀ o, Parallel m.payload q m₁.payload q₁ o := by
  have hkept : ∀ o, Parallel m.payload q m.payload q o := fun _ => .inl ⟨rfl, rfl⟩
  cases h with
  | failed hfail =>
      cases h' with
      | failed => exact ⟨q, rfl, hkept⟩
      | create hmode heid hfree hsecure hshared hoverlap =>
          exact absurd ⟨hmode, heid, hfree, hsecure, hshared, hoverlap⟩ hfail
      | destroy hmode heid hstatus | run hmode heid hstatus => exact absurd ⟨hmode, heid, hstatus⟩ hfail
      | exit hmode => exact absurd hmode hfail
      | resume hmode heid hstatus => exact absurd ⟨hmode, heid, hstatus⟩ hfail
  | create hmode heid hfree hsecure hshared hoverlap =>
      cases h' with
      | failed hfail => exact absurd ⟨hmode, heid, hfree, hsecure, hshared, hoverlap⟩ hfail
      | create => exact ⟨q, rfl, hkept⟩
  | destroy hmode heid hstatus =>
      cases h' with
      | failed hfail => exact absurd ⟨hmode, heid, hstatus⟩ hfail
      | destroy => exact ⟨_, rfl, parallel_updateWhere _ _ _ 0⟩
  | run hmode heid hstatus =>
      cases h' with
      | failed hfail => exact absurd ⟨hmode, heid, hstatus⟩ hfail
      | run => exact ⟨q, rfl, hkept⟩
  | exit hmode =>
      cases h' with
      | failed hfail => exact absurd hmode hfail
      | exit => exact ⟨q, rfl, hkept⟩
  | resume hmode heid hstatus =>
      cases h' with
      | failed hfail => exact absurd ⟨hmode, heid, hstatus⟩ hfail
      | resume => exact ⟨q, rfl, hkept⟩

/-- A successful `sys_destroy_enclave` leaves nothing behind. -/
theorem CallStep.wiped (h : CallStep false L m (.destroy e) 0 m₁)
    (ho : (m.enclaves e).inRegion o) : m₁.payload o = 0 := by
  cases h with
  | destroy =>
      simp only [destroyed]
      refine updateWhere_of_true ?_
      rw [Bool.and_eq_true, decide_eq_true_iff, decide_eq_true_iff]
      exact ho

theorem CallStep.wiped_pair {r' : Word} (h : CallStep false L m (.destroy e) 0 m₁)
    (h' : CallStep false L (m.withPayload q) (.destroy e) r' m₁') (ho : (m.enclaves e).inRegion o) :
    m₁.payload o = m₁'.payload o := by
  rw [h.wiped ho]
  cases h with
  | destroy hmode heid hstatus =>
      cases h' with
      | failed hfail => exact absurd ⟨hmode, heid, hstatus⟩ hfail
      | destroy hmode' heid' hstatus' =>
          exact (CallStep.wiped (L := L) (.destroy hmode' heid' hstatus') ho).symm

/-- Two writes to one address. -/
theorem writeByte_pair (a : Word) (v v' : BitVec 8) :
    ∃ q₁, writeByte L (m.withPayload q) a v' = (writeByte L m a v).withPayload q₁ ∧
      ∀ o, (mayWrite m a → o ≠ a - L.payloadStart ∨ v = v') →
        Parallel m.payload q (writeByte L m a v).payload q₁ o := by
  refine ⟨_, rfl, fun o ho => ?_⟩
  by_cases hmay : mayWrite m a
  · have hmay' : mayWrite (m.withPayload q) a := hmay
    simp only [writeByte, if_pos hmay, if_pos hmay']
    exact parallel_update _ _ (ho hmay)
  · have hmay' : ¬ mayWrite (m.withPayload q) a := hmay
    simp only [writeByte, if_neg hmay, if_neg hmay']
    exact .inl ⟨rfl, rfl⟩

/-- Two steps that differ in the value of a write at most. -/
theorem EventStep.pair (h : EventStep L m ev m₁) (h' : EventStep L (m.withPayload q) ev' m₁')
    (hev : ev = ev' ∨ ∃ a v v', ev = .write a v ∧ ev' = .write a v') :
    ∃ q₁, m₁' = m₁.withPayload q₁ ∧ ∀ o, Parallel m.payload q m₁.payload q₁ o ∨
      (ev ≠ ev' ∧ ∃ a v, ev = .write a v ∧ mayWrite m a ∧ o = a - L.payloadStart) := by
  rcases hev with rfl | ⟨a, v, v', rfl, rfl⟩
  · cases h with
    | call _ hstep =>
        cases h' with
        | call _ hstep' =>
            rcases hstep.pair hstep' with ⟨q₁, heq, hpar⟩
            exact ⟨q₁, heq, fun o => .inl (hpar o)⟩
    | read =>
        cases h' with
        | read => exact ⟨q, rfl, fun _ => .inl (.inl ⟨rfl, rfl⟩)⟩
    | write a v =>
        cases h' with
        | write =>
            rcases writeByte_pair (L := L) (m := m) (q := q) a v v with ⟨q₁, heq, hpar⟩
            exact ⟨q₁, heq, fun o => .inl (hpar o (fun _ => .inr rfl))⟩
  · cases h with
    | write =>
        cases h' with
        | write =>
            rcases writeByte_pair (L := L) (m := m) (q := q) a v v' with ⟨q₁, heq, hpar⟩
            refine ⟨q₁, heq, fun o => ?_⟩
            by_cases hdiffer : mayWrite m a ∧ o = a - L.payloadStart ∧ v ≠ v'
            · rcases hdiffer with ⟨hmay, ho, hv⟩
              refine .inr ⟨fun heq => ?_, a, v, rfl, hmay, ho⟩
              injection heq with _ hvv
              exact hv hvv
            · exact .inl (hpar o (fun hmay => by tauto))

end Steps

/-! ## Lifetimes -/

section Lifetimes

variable {L : Layout} {s m m₁ : Machine} {es : List Event} {ev : Event} {e : Word} {i p : Nat}

theorem stateAt_succ (hev : es[i]? = some ev) (hi : stateAt L s es i = some m) :
    stateAt L s es (i + 1) = step L m ev := by
  rw [stateAt, runEvents] at hi
  rw [stateAt, runEvents, List.take_add_one, hev, List.foldlM_append, hi]
  exact bind_pure (step L m ev)

theorem inLifetime_succ :
    InLifetime L s es e p (i + 1) ↔
      i = p ∨ (InLifetime L s es e p i ∧ ¬ SucceedsAt L s es i (.destroy e)) := by
  constructor
  · rintro ⟨hlt, hopen⟩
    by_cases heq : i = p
    · exact .inl heq
    · refine .inr ⟨⟨by omega, fun j hpj hji => hopen j hpj (by omega)⟩, hopen i (by omega) (by omega)⟩
  · rintro (rfl | ⟨⟨hlt, hopen⟩, hnot⟩)
    · exact ⟨by omega, fun j _ _ => by omega⟩
    · refine ⟨by omega, fun j hpj hji => ?_⟩
      by_cases heq : j = i
      · rw [heq]
        exact hnot
      · exact hopen j hpj (by omega)

/-- A call that succeeds takes the step of its success. -/
theorem SucceedsAt.step (h : SucceedsAt L s es i c) (hi : stateAt L s es i = some m) (hstep : EventStep L m ev m₁)
    (hev : es[i]? = some ev) :
    CallStep false L m c 0 m₁ := by
  rcases h with ⟨hcall, m', m₂, hm', hexec⟩
  obtain rfl : m' = m := Option.some.inj (hm'.symm.trans hi)
  obtain rfl : ev = .call c := Option.some.inj (hev.symm.trans hcall)
  cases hstep with
  | call hexec' hstep =>
      rw [hexec'] at hexec
      injection hexec with hr hm
      rw [← hr]
      exact hstep

theorem EventStep.keeps (hstep : EventStep L m ev m₁) (hi : stateAt L s es i = some m)
    (hev : es[i]? = some ev) (hlive : (m.enclaves e).status ≠ Status.free.val)
    (hdestroy : ¬ SucceedsAt L s es i (.destroy e)) : Keeps e m m₁ := by
  cases hstep with
  | call hexec hstep =>
      refine hstep.keeps hlive ?_
      rintro ⟨rfl, rfl⟩
      exact hdestroy ⟨hev, m, m₁, hi, hexec⟩
  | read => exact ⟨hlive, fun _ => Iff.rfl⟩
  | write => exact ⟨hlive, fun _ => Iff.rfl⟩

/-- The enclave exists throughout its lifetime. -/
theorem live_succ (hcreate : Creates L s es e p) (hi : stateAt L s es i = some m)
    (hev : es[i]? = some ev) (hstep : EventStep L m ev m₁)
    (hlive : InLifetime L s es e p i → eidIsValid e ∧ (m.enclaves e).status ≠ Status.free.val)
    (hin : InLifetime L s es e p (i + 1)) :
    eidIsValid e ∧ (m₁.enclaves e).status ≠ Status.free.val := by
  rcases inLifetime_succ.mp hin with rfl | ⟨hin, hdestroy⟩
  · rcases hcreate with ⟨entry, secureLower, secureUpper, sharedLower, sharedUpper, hcreate⟩
    cases hcreate.step hi hstep hev with
    | create _ heid =>
        refine ⟨heid, ?_⟩
        simp only [created, Function.update_self]
        exact Status.val_ne (s := .fresh) (by decide)
  · exact ⟨(hlive hin).1, (hstep.keeps hi hev (hlive hin).2 hdestroy).live⟩

end Lifetimes

/-! ## Two runs -/

/-- Event `i` of two runs, the first from `m` to `m₁` and the second with the payloads `q` and `q₁`. -/
structure PairAt (L : Layout) (s : Machine) (es : List Event) (e : Word) (p : Nat)
    (P : Nat → Machine → Word → Prop) (i : Nat) (m m₁ : Machine) (q q₁ : Word → BitVec 8) :
    Prop where
  inv : Invariants L m
  live : InLifetime L s es e p i → eidIsValid e ∧ (m.enclaves e).status ≠ Status.free.val
  keeps : InLifetime L s es e p i → ¬ SucceedsAt L s es i (.destroy e) → Keeps e m m₁
  wiped : SucceedsAt L s es i (.destroy e) → ∀ o, (m.enclaves e).inRegion o → m₁.payload o = q₁ o
  payload : ∀ o, Parallel m.payload q m₁.payload q₁ o ∨
    ∃ a, P i m a ∧ ¬ SucceedsAt L s es i (.destroy e) ∧ mayWrite m a ∧ o = a - L.payloadStart

section Runs

variable {L : Layout} {s : Machine} {es es' : List Event} {e : Word} {p : Nat}
variable {P : Nat → Machine → Word → Prop} {Q : Nat → Machine → (Word → BitVec 8) → Prop}

/-- Two runs have the same control state, and their payloads stay related. -/
theorem runs_pair (hs : Invariants L s) (hcreate : Creates L s es e p)
    (hsame : SameBut L s es es' P) (hinit : Q 0 s s.payload)
    (hstep : ∀ {i m m₁ q q₁}, PairAt L s es e p P i m m₁ q q₁ → Q i m q → Q (i + 1) m₁ q₁) :
    ∀ i ≤ es.length, ∃ m q, stateAt L s es i = some m ∧
      stateAt L s es' i = some (m.withPayload q) ∧ Invariants L m ∧
      (InLifetime L s es e p i → eidIsValid e ∧ (m.enclaves e).status ≠ Status.free.val) ∧
      Q i m q := by
  intro i
  induction i with
  | zero =>
      intro _
      exact ⟨s, s.payload, rfl, rfl, hs, fun hin => absurd hin.1 (Nat.not_lt_zero p), hinit⟩
  | succ i ih =>
      intro hlen
      rcases ih (Nat.le_of_succ_le hlen) with ⟨m, q, hm, hm', hinv, hlive, hQ⟩
      obtain ⟨ev, hev⟩ : ∃ ev, es[i]? = some ev := ⟨es[i], List.getElem?_eq_getElem hlen⟩
      -- The event of the other run.
      have hevents : ∃ ev', es'[i]? = some ev' ∧
          (ev = ev' ∨ ∃ a v v', ev = .write a v ∧ ev' = .write a v') ∧
          (ev ≠ ev' → ∀ a v, ev = .write a v → P i m a) := by
        rcases hsame i with heq | ⟨m', a, v, v', hat, hwrite, hwrite', hP⟩
        · exact ⟨ev, heq ▸ hev, .inl rfl, fun hne => absurd rfl hne⟩
        · obtain rfl : m' = m := Option.some.inj (hat.symm.trans hm)
          obtain rfl : ev = .write a v := Option.some.inj (hev.symm.trans hwrite)
          refine ⟨_, hwrite', .inr ⟨a, v, v', rfl, rfl⟩, fun _ b w hb => ?_⟩
          injection hb with hab
          exact hab ▸ hP
      rcases hevents with ⟨ev', hev', hshape, hP⟩
      rcases step_cases (L := L) hinv.table ev with ⟨m₁, hnext, hstep₁⟩
      rcases step_cases (L := L) (hinv.table.withPayload q) ev' with ⟨m₁', hnext', hstep₁'⟩
      rcases hstep₁.pair hstep₁' hshape with ⟨q₁, rfl, hpayload⟩
      have hpair : PairAt L s es e p P i m m₁ q q₁ := by
        refine ⟨hinv, hlive, fun hin hdestroy => ?_, fun hdestroy o ho => ?_, fun o => ?_⟩
        · exact hstep₁.keeps hm hev (hlive hin).2 hdestroy
        · have hwipe := hdestroy.step hm hstep₁ hev
          obtain rfl : ev = .call (.destroy e) := Option.some.inj (hev.symm.trans hdestroy.1)
          rcases hshape with rfl | ⟨a, v, v', hwrite, _⟩
          · cases hstep₁' with
            | call _ hwipe' => exact hwipe.wiped_pair hwipe' ho
          · cases hwrite
        · rcases hpayload o with hpar | ⟨hne, a, v, hwrite, hmay, ho⟩
          · exact .inl hpar
          · refine .inr ⟨a, hP hne a v hwrite, fun hdestroy => ?_, hmay, ho⟩
            have hcall := hev.symm.trans hdestroy.1
            rw [hwrite] at hcall
            cases hcall
      refine ⟨m₁, q₁, ?_, ?_, hstep₁.invariants hinv, live_succ hcreate hm hev hstep₁ hlive,
        hstep hpair hQ⟩
      · exact (stateAt_succ hev hm).trans hnext
      · exact (stateAt_succ hev' hm').trans hnext'

/-- The offsets of a region are those of its addresses. -/
theorem inSecure_iff {enclave : Enclave} (hok : enclave.Ok)
    (hlive : enclave.status ≠ Status.free.val) (a : Word) :
    enclave.inSecure L a ↔ enclave.inRegion (a - L.payloadStart) := by
  rcases hok.secure hlive with ⟨_, _, _, hmax⟩
  have hmax' : enclave.secureUpper.toNat ≤ MAX_PAYLOAD_SIZE.toNat := hmax
  have hfits := L.fits
  have ha := a.isLt
  rw [Enclave.inSecure, and_iff_right hlive, Layout.inRange, Enclave.inRegion, BitVec.le_def,
    BitVec.lt_def, BitVec.toNat_sub]
  omega

/-- Nobody else can use the region of an enclave. -/
theorem pmpPerm_of_not_runs (h : Invariants L m) (heid : eidIsValid e)
    (hlive : (m.enclaves e).status ≠ Status.free.val) (hruns : ¬ m.runs e) {a : Word}
    (ha : (m.enclaves e).inRegion (a - L.payloadStart)) : pmpPerm m.csrs a = 0 := by
  have hin := (inSecure_iff (h.table.regions.slot e heid) hlive a).mpr ha
  rw [h.pmp.pmpPerm_secure h.table heid hin]
  refine if_neg (fun hrunning => hruns ?_)
  rcases h.table.running.running e heid hrunning with ⟨hmode, hcur⟩
  exact ⟨hmode, hcur.symm⟩

/-- Differences between two runs stay inside the region of the enclave, as long as it exists. -/
theorem PairAt.inside {i : Nat} {m₁ : Machine} {q₁ : Word → BitVec 8} (hpair : PairAt L s es e p P i m m₁ q q₁)
    (hP : ∀ {a}, P i m a → InLifetime L s es e p i ∧ (m.enclaves e).inSecure L a)
    (h : ∀ o, m.payload o ≠ q o → InLifetime L s es e p i ∧ (m.enclaves e).inRegion o) :
    ∀ o, m₁.payload o ≠ q₁ o → InLifetime L s es e p (i + 1) ∧ (m₁.enclaves e).inRegion o := by
  intro o hne
  -- Wherever the difference comes from, it is in the region before the event.
  have hbefore : (InLifetime L s es e p i ∧ (m.enclaves e).inRegion o) ∧
      ¬ SucceedsAt L s es i (.destroy e) := by
    rcases hpair.payload o with (⟨hkept, hkept'⟩ | hsame) | ⟨a, ha, hdestroy, _, rfl⟩
    · have hin := h o (by rwa [← hkept, ← hkept'])
      exact ⟨hin, fun hdestroy => hne (hpair.wiped hdestroy o hin.2)⟩
    · exact absurd hsame hne
    · rcases hP ha with ⟨hin, hsecure⟩
      rcases hpair.live hin with ⟨heid, hlive⟩
      have hok := hpair.inv.table.regions.slot e heid
      exact ⟨⟨hin, (inSecure_iff hok hlive a).mp hsecure⟩, hdestroy⟩
  rcases hbefore with ⟨⟨hin, hregion⟩, hdestroy⟩
  exact ⟨inLifetime_succ.mpr (.inr ⟨hin, hdestroy⟩), ((hpair.keeps hin hdestroy).region o).mpr hregion⟩

/-- Differences between two runs stay outside the region of the enclave, as long as it exists. -/
theorem PairAt.outside {i : Nat} {m₁ : Machine} {q₁ : Word → BitVec 8} (hpair : PairAt L s es e p P i m m₁ q q₁)
    (hP : ∀ {a}, P i m a → InLifetime L s es e p i ∧ ¬ m.runs e)
    (h : ∀ o, m.payload o ≠ q o → p < i ∧ (InLifetime L s es e p i → ¬ (m.enclaves e).inRegion o)) :
    ∀ o, m₁.payload o ≠ q₁ o →
      p < i + 1 ∧ (InLifetime L s es e p (i + 1) → ¬ (m₁.enclaves e).inRegion o) := by
  intro o hne
  have hbefore : p < i ∧ (InLifetime L s es e p i → ¬ (m.enclaves e).inRegion o) := by
    rcases hpair.payload o with (⟨hkept, hkept'⟩ | hsame) | ⟨a, ha, _, hmay, rfl⟩
    · exact h o (by rwa [← hkept, ← hkept'])
    · exact absurd hsame hne
    · rcases hP ha with ⟨hin, hruns⟩
      rcases hpair.live hin with ⟨heid, hlive⟩
      refine ⟨hin.1, fun _ hregion => hmay ?_⟩
      rw [pmpPerm_of_not_runs hpair.inv heid hlive hruns hregion]
      rfl
  refine ⟨Nat.lt_succ_of_lt hbefore.1, fun hin hregion => ?_⟩
  rcases inLifetime_succ.mp hin with rfl | ⟨hin, hdestroy⟩
  · exact absurd hbefore.1 (Nat.lt_irrefl i)
  · exact hbefore.2 hin (((hpair.keeps hin hdestroy).region o).mp hregion)

/-- Two machines that differ in the payload only grant the same accesses. -/
theorem readByte_withPayload {a : Word} (h : mayRead m a → m.payload (a - L.payloadStart) = q (a - L.payloadStart)) :
    readByte L m a = readByte L (m.withPayload q) a := by
  by_cases hmay : mayRead m a
  · have hmay' : mayRead (m.withPayload q) a := hmay
    rw [readByte, readByte, if_pos hmay, if_pos hmay', h hmay]
    rfl
  · have hmay' : ¬ mayRead (m.withPayload q) a := hmay
    rw [readByte, readByte, if_neg hmay, if_neg hmay']

/-- Confidentiality and integrity of an enclave's memory, from its creation at event `p` until it is
destroyed.  First, what the enclave writes to its own region shows in no read but its own, neither
during its lifetime nor later.  Second, what is written while it does not run shows in no read of its
own region. -/
theorem enclave_confinement (L : Layout) (m₀ : Machine)
    (hreset : ∀ i, pmpEntry m₀.csrs i = ⟨0, 0⟩) (es es' : List Event) (e : Word) (p : Nat)
    (hcreate : Creates L (booted L m₀) es e p) :
    (SameBut L (booted L m₀) es es' (fun i m a =>
        InLifetime L (booted L m₀) es e p i ∧ m.runs e ∧ (m.enclaves e).inSecure L a) →
      ∀ i a, es[i]? = some (.read a) →
        ∃ m m', stateAt L (booted L m₀) es i = some m ∧ stateAt L (booted L m₀) es' i = some m' ∧
          (¬ (InLifetime L (booted L m₀) es e p i ∧ m.runs e) →
            readByte L m a = readByte L m' a)) ∧
    (SameBut L (booted L m₀) es es' (fun i m _ =>
        InLifetime L (booted L m₀) es e p i ∧ ¬ m.runs e) →
      ∀ i a, es[i]? = some (.read a) →
        ∃ m m', stateAt L (booted L m₀) es i = some m ∧ stateAt L (booted L m₀) es' i = some m' ∧
          (InLifetime L (booted L m₀) es e p i → m.runs e → (m.enclaves e).inSecure L a →
            readByte L m a = readByte L m' a)) := by
  have hs : Invariants L (booted L m₀) :=
    ⟨booted_tableInvariants L m₀, booted_pmpInvariants hreset⟩
  constructor
  · intro hsame i a hread
    have hlen : i ≤ es.length := Nat.le_of_lt (List.getElem?_eq_some_iff.mp hread).1
    rcases runs_pair hs hcreate hsame (fun _ hne => absurd rfl hne)
      (fun hpair => hpair.inside (fun hP => ⟨hP.1, hP.2.2⟩)) i hlen
      with ⟨m, q, hm, hm', hinv, hlive, hdiff⟩
    refine ⟨m, _, hm, hm', fun hruns => readByte_withPayload (fun hmay => ?_)⟩
    by_contra hne
    rcases hdiff _ hne with ⟨hin, hregion⟩
    rcases hlive hin with ⟨heid, hlive⟩
    refine hmay ?_
    rw [pmpPerm_of_not_runs hinv heid hlive (fun h => hruns ⟨hin, h⟩) hregion]
    rfl
  · intro hsame i a hread
    have hlen : i ≤ es.length := Nat.le_of_lt (List.getElem?_eq_some_iff.mp hread).1
    rcases runs_pair hs hcreate hsame (fun _ hne => absurd rfl hne)
      (fun hpair => hpair.outside (fun hP => hP)) i hlen
      with ⟨m, q, hm, hm', hinv, hlive, hdiff⟩
    refine ⟨m, _, hm, hm', fun hin _ hsecure => readByte_withPayload (fun _ => ?_)⟩
    by_contra hne
    rcases hlive hin with ⟨heid, hlive⟩
    have hregion := (inSecure_iff (hinv.table.regions.slot e heid) hlive a).mp hsecure
    exact (hdiff _ hne).2 hin hregion

/-- An enclave is created, writes a secret and is destroyed, and then the operating system looks. -/
def lifetimeEvents (secret : BitVec 8) : List Event :=
  [.call (.create 0 0x80200000 0 0x1000 0x1000 0x2000), .call (.run 0), .write 0x80200010 secret,
    .call .exit, .call (.destroy 0), .read 0x80200010]

theorem enclave_confinement_lifetime :
    ∃ m m', stateAt imageLayout (booted imageLayout resetMachine) (lifetimeEvents 1) 5 = some m ∧
      stateAt imageLayout (booted imageLayout resetMachine) (lifetimeEvents 2) 5 = some m' ∧
      readByte imageLayout m 0x80200010 = readByte imageLayout m' 0x80200010 := by
  have hreset : ∀ i, pmpEntry resetMachine.csrs i = ⟨0, 0⟩ := by decide
  have hcreate : Creates imageLayout (booted imageLayout resetMachine) (lifetimeEvents 1) 0 0 :=
    ⟨_, _, _, _, _, rfl, _, _, rfl, rfl⟩
  have hlifetime :
      InLifetime imageLayout (booted imageLayout resetMachine) (lifetimeEvents 1) 0 0 2 := by
    refine ⟨by decide, fun j hj hj' hdestroy => ?_⟩
    obtain rfl : j = 1 := by omega
    exact absurd hdestroy.1 (by decide)
  have hsame : SameBut imageLayout (booted imageLayout resetMachine) (lifetimeEvents 1)
      (lifetimeEvents 2) (fun i m a =>
        InLifetime imageLayout (booted imageLayout resetMachine) (lifetimeEvents 1) 0 0 i ∧
          m.runs 0 ∧ (m.enclaves 0).inSecure imageLayout a) := by
    intro i
    match i with
    | 0 | 1 | 3 | 4 | 5 => exact .inl rfl
    | 2 => exact .inr ⟨_, _, _, _, rfl, rfl, rfl, hlifetime, ⟨by decide, rfl⟩, by decide, by decide⟩
    | n + 6 => exact .inl rfl
  rcases (enclave_confinement imageLayout resetMachine hreset _ (lifetimeEvents 2) 0 0 hcreate).1
    hsame 5 0x80200010 rfl with ⟨m, m', hm, hm', hread⟩
  refine ⟨m, m', hm, hm', hread (fun hruns => hruns.2.1 ?_)⟩
  have hmode : (stateAt imageLayout (booted imageLayout resetMachine) (lifetimeEvents 1) 5).map
      Machine.enclaveMode = some 0 := rfl
  rw [hm] at hmode
  exact Option.some.inj hmode

end Runs

end Keystone
end Serval
