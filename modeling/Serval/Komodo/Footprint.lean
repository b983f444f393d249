import Serval.Komodo.Ownership

/-!
# Footprint — which pages a call touches

Every call names the few pages it may change.  All other pages keep their type, owner, words and ghost
entries, and all components of the state that are not about pages keep their values, but for the return
value of the call.
-/

namespace Serval
namespace Komodo

open Riscv

variable {p pt a : Word} {s : State}

/-- The ghost view of an entry of a page table. -/
@[ext] structure PgtableEntry where
  pn : Word
  secure : Bool
  present : Bool
  perm : Word

def State.pgtable (s : State) (p i : Word) : PgtableEntry :=
  ⟨s.pgtablePn p i, s.pgtableSecure p i, s.pgtablePresent p i, s.pgtablePerm p i⟩

/-- Two states have the same page `p`. -/
structure SamePage (s t : State) (p : Word) : Prop where
  type : s.pagedbType p = t.pagedbType p
  owner : s.pagedbAddrspace p = t.pagedbAddrspace p
  words : s.pages p = t.pages p
  pgtable : s.pgtable p = t.pgtable p

namespace SamePage

variable {s t r : State} {p : Word}

theorem refl (s : State) (p : Word) : SamePage s s p := ⟨rfl, rfl, rfl, rfl⟩

variable (h : SamePage s t p)

include h

theorem trans (h' : SamePage t r p) : SamePage s r p :=
  ⟨h.type.trans h'.type, h.owner.trans h'.owner, h.words.trans h'.words, h.pgtable.trans h'.pgtable⟩

theorem pageTyped (ty : PageType) : s.pageTyped p ty ↔ t.pageTyped p ty := by
  simp [State.pageTyped, h.type]

theorem ownerOf : s.ownerOf p = t.ownerOf p := by
  have hnonfree : s.pageNonfree p ↔ t.pageNonfree p := by simp [State.pageNonfree, h.type]
  simp only [State.ownerOf, hnonfree, h.owner]

theorem addrspaceIn (st : AddrspaceState) : s.addrspaceIn p st ↔ t.addrspaceIn p st := by
  simp [State.addrspaceIn, State.addrspaceState, h.words]

end SamePage

theorem setPage_samePage {q : Word} (w : Word → Word) (hne : q ≠ p) : SamePage s (s.setPage p w) q :=
  ⟨rfl, rfl, by simp [State.setPage, hne], rfl⟩

/-- The pages a call may change. -/
def Smc.touches (s : State) : Smc → List Word
  | .query => []
  | .getPhysPages => []
  | .initAddrspace a l => [a, l]
  | .initDispatcher p a _ => [p, a]
  | .initL2ptable p pt _ => [p, pt, s.pagedbAddrspace pt]
  | .initL3ptable p pt _ => [p, pt, s.pagedbAddrspace pt]
  | .mapSecure p pt _ _ _ => [p, pt, s.pagedbAddrspace pt]
  | .mapInsecure pt _ _ _ => [pt]
  | .remove p => [p, s.pagedbAddrspace p]
  | .finalise a => [a]
  | .stop a => [a]
  | .enter d _ _ _ => [d]
  | .resume _ => []

section Effects

variable (L : Layout) {s : State} {q : Word}

theorem grantPage_samePage (ty : PageType) (hp : q ≠ p) (ha : q ≠ a) : SamePage s (grantPage s p a ty) q :=
  ⟨by simp [grantPage, hp], by simp [grantPage, hp], by simp [grantPage, hp, ha], rfl⟩

theorem linkTable_samePage (i : Word) (hp : q ≠ p) (hpt : q ≠ pt) : SamePage s (linkTable L s p pt i) q := by
  refine ⟨rfl, rfl, by simp [linkTable, hpt], ?_⟩
  funext j
  simp [State.pgtable, linkTable, hp, hpt]

theorem linkLeaf_samePage (i pn pfn mapping : Word) (secure : Bool) (hpt : q ≠ pt) :
    SamePage s (linkLeaf s pt i pn pfn mapping secure) q := by
  refine ⟨rfl, rfl, by simp [linkLeaf, hpt], ?_⟩
  funext j
  simp [State.pgtable, linkLeaf, hpt]

theorem copyContent_samePage (content : Word) (hp : q ≠ p) : SamePage s (copyContent s p content) q :=
  ⟨rfl, rfl, by simp [copyContent, hp], rfl⟩

theorem createPtable_samePage (child : PageType) (i : Word) (hp : q ≠ p) (hpt : q ≠ pt)
    (ha : q ≠ s.pagedbAddrspace pt) : SamePage s (createPtable child L s p pt i) q :=
  (grantPage_samePage child hp ha).trans (linkTable_samePage L i hp hpt)

theorem addSecureMapping_samePage (i m c : Word) (hp : q ≠ p) (hpt : q ≠ pt) (ha : q ≠ s.pagedbAddrspace pt) :
    SamePage s (addSecureMapping L s p pt i m c) q :=
  (grantPage_samePage .data hp ha).trans
    ((linkLeaf_samePage i p (L.pageToPfn p) m true hpt).trans (copyContent_samePage c hp))

/-- To its owner, a new dispatcher is a page like any other. -/
theorem createDispatcher_samePage_owner (e : Word) (hne : a ≠ p) :
    SamePage (grantPage s p a .dispatcher) (createDispatcher L s p a e) a :=
  ⟨rfl, rfl, by simp [createDispatcher, grantPage, hne], rfl⟩

/-- A call leaves all pages alone that it does not name. -/
theorem effect_samePage {call : Smc} (hq : q ∉ call.touches s) : SamePage s (call.effect L s) q := by
  cases call with
  | query => exact ⟨rfl, rfl, rfl, rfl⟩
  | getPhysPages => exact ⟨rfl, rfl, rfl, rfl⟩
  | initAddrspace a l =>
      simp only [Smc.touches, List.mem_cons, List.not_mem_nil, or_false, not_or] at hq
      constructor
      · simp [Smc.effect, setReturn, createAddrspace, hq]
      · simp [Smc.effect, setReturn, createAddrspace, hq]
      · simp [Smc.effect, setReturn, createAddrspace, hq]
      · funext j
        simp [State.pgtable, Smc.effect, setReturn, createAddrspace, hq]
  | initDispatcher p a e =>
      simp only [Smc.touches, List.mem_cons, List.not_mem_nil, or_false, not_or] at hq
      constructor
      · simp [Smc.effect, setReturn, createDispatcher, hq]
      · simp [Smc.effect, setReturn, createDispatcher, hq]
      · simp [Smc.effect, setReturn, createDispatcher, hq]
      · rfl
  | initL2ptable p pt i =>
      simp only [Smc.touches, List.mem_cons, List.not_mem_nil, or_false, not_or] at hq
      exact (createPtable_samePage L .l2ptable i hq.1 hq.2.1 hq.2.2).trans ⟨rfl, rfl, rfl, rfl⟩
  | initL3ptable p pt i =>
      simp only [Smc.touches, List.mem_cons, List.not_mem_nil, or_false, not_or] at hq
      exact (createPtable_samePage L .l3ptable i hq.1 hq.2.1 hq.2.2).trans ⟨rfl, rfl, rfl, rfl⟩
  | mapSecure p pt i m c =>
      simp only [Smc.touches, List.mem_cons, List.not_mem_nil, or_false, not_or] at hq
      exact (addSecureMapping_samePage L i m c hq.1 hq.2.1 hq.2.2).trans ⟨rfl, rfl, rfl, rfl⟩
  | mapInsecure pt i m n =>
      simp only [Smc.touches, List.mem_cons, List.not_mem_nil, or_false] at hq
      exact (linkLeaf_samePage i n (L.insecurePageToPfn n) m false hq).trans ⟨rfl, rfl, rfl, rfl⟩
  | remove p =>
      simp only [Smc.touches, List.mem_cons, List.not_mem_nil, or_false, not_or] at hq
      constructor
      · simp [Smc.effect, setReturn, releasePage, hq]
      · simp [Smc.effect, setReturn, releasePage, hq]
      · simp [Smc.effect, setReturn, releasePage, hq]
      · funext j
        simp [State.pgtable, Smc.effect, setReturn, releasePage, hq]
  | finalise a | stop a =>
      simp only [Smc.touches, List.mem_cons, List.not_mem_nil, or_false] at hq
      refine ⟨rfl, rfl, ?_, rfl⟩
      simp [Smc.effect, setReturn, setAddrspaceState, hq]
  | enter d a0 a1 a2 =>
      simp only [Smc.touches, List.mem_cons, List.not_mem_nil, or_false] at hq
      refine ⟨rfl, rfl, ?_, rfl⟩
      simp [Smc.effect, specEnterSecureWorld, setDispatcherArgs, hq]
  | resume d => exact ⟨rfl, rfl, rfl, rfl⟩

end Effects

/-! ## Final address spaces

A final address space can only be stopped, or entered.  Every other call works for an address space
that is not final, and touches no page of a final one.
-/

/-- The calls that move an address space to another state. -/
def Smc.setsState : Smc → Bool
  | .finalise _ => true
  | .stop _ => true
  | _ => false

/-- The calls that switch to an enclave. -/
def Smc.enters : Smc → Bool
  | .enter _ _ _ _ => true
  | .resume _ => true
  | _ => false

theorem effect_enclaveMode (L : Layout) {call : Smc} (henters : call.enters = false) :
    (call.effect L s).enclaveMode = s.enclaveMode := by
  cases call with
  | enter d a0 a1 a2 => cases henters
  | resume d => cases henters
  | _ => rfl

theorem addrspaceIn_unique {st st' : AddrspaceState} (h : s.addrspaceIn a st) (h' : s.addrspaceIn a st') : st = st' :=
  AddrspaceState.val_inj.mp (h.symm.trans h')

/-- Only pages of stopped address spaces are removed. -/
theorem OwnershipInvariants.remove_stopped (hs : OwnershipInvariants s) (hcheck : checkRemove s p = none) :
    s.pageNonfree p ∧ s.addrspaceIn (s.pagedbAddrspace p) .stopped := by
  rcases checkRemove_eq_none.mp hcheck with ⟨_, hp, hfree, hself, hother⟩
  refine ⟨pageNonfree_iff.mpr ⟨hp, hfree⟩, ?_⟩
  by_cases ha : s.pageTyped p .addrspace
  · rw [hs.self_owned ha]
    exact (hself ha).2
  · exact hother ha

section Final

variable {s : State} {call : Smc} {q a : Word}

/-- The pages of a table's address space that a new entry touches. -/
theorem table_not_final (hs : OwnershipInvariants s) {parent : PageType} (hpt : s.pageTyped pt parent)
    (hfree : parent ≠ .free) (hp : s.pageFree p) (hinit : s.addrspaceIn (s.pagedbAddrspace pt) .init)
    (hq : q = p ∨ q = pt ∨ q = s.pagedbAddrspace pt) (ha : s.ownerOf q = some a) :
    ¬ s.addrspaceIn a .final := by
  have howner := hs.owner_addrspace (pageNonfree_of_pageTyped hpt hfree)
  have ha' := (ownerOf_eq_some.mp ha).2
  intro hfinal
  rcases hq with rfl | rfl | rfl
  · rw [ownerOf_of_pageFree hp] at ha
    cases ha
  · rw [← ha'] at hfinal
    cases addrspaceIn_unique hinit hfinal
  · rw [← ha', hs.self_owned howner] at hfinal
    cases addrspaceIn_unique hinit hfinal

theorem touches_not_final (hs : OwnershipInvariants s) (hstate : call.setsState = false)
    (henters : call.enters = false) (hcheck : call.check s = none) (hq : q ∈ call.touches s)
    (ha : s.ownerOf q = some a) : ¬ s.addrspaceIn a .final := by
  have ha' := (ownerOf_eq_some.mp ha).2
  cases call with
  | query => cases hq
  | getPhysPages => cases hq
  | initAddrspace b l =>
      rcases checkInitAddrspace_eq_none.mp hcheck with ⟨_, hb, hl⟩
      simp only [Smc.touches, List.mem_cons, List.not_mem_nil, or_false] at hq
      rcases hq with rfl | rfl
      · rw [ownerOf_of_pageFree hb] at ha
        cases ha
      · rw [ownerOf_of_pageFree hl] at ha
        cases ha
  | initDispatcher p b e =>
      rcases checkInitDispatcher_eq_none.mp hcheck with ⟨hb, hp, hinit⟩
      simp only [Smc.touches, List.mem_cons, List.not_mem_nil, or_false] at hq
      rcases hq with rfl | rfl
      · rw [ownerOf_of_pageFree hp] at ha
        cases ha
      · rw [hs.self_owned hb] at ha'
        subst ha'
        exact fun hfinal => by cases addrspaceIn_unique hinit hfinal
  | initL2ptable p pt i | initL3ptable p pt i =>
      rcases checkInitPtable_eq_none.mp hcheck with ⟨_, hpt, _, hp, hinit⟩
      exact table_not_final hs hpt (by decide) hp hinit (by simpa [Smc.touches] using hq) ha
  | mapSecure p pt i m c =>
      rcases checkMapSecure_eq_none.mp hcheck with ⟨_, _, hpt, _, hp, hinit⟩
      exact table_not_final hs hpt (by decide) hp hinit (by simpa [Smc.touches] using hq) ha
  | mapInsecure pt i m n =>
      rcases checkMapInsecure_eq_none.mp hcheck with ⟨_, _, hpt, _, hinit⟩
      rw [List.mem_singleton.mp hq] at ha'
      subst ha'
      exact fun hfinal => by cases addrspaceIn_unique hinit hfinal
  | remove p =>
      have hstopped := (hs.remove_stopped hcheck).2
      have hnonfree := (hs.remove_stopped hcheck).1
      simp only [Smc.touches, List.mem_cons, List.not_mem_nil, or_false] at hq
      have hap : a = s.pagedbAddrspace p := by
        rcases hq with rfl | rfl
        · exact ha'.symm
        · exact ha'.symm.trans (hs.self_owned (hs.owner_addrspace hnonfree))
      subst hap
      exact fun hfinal => by cases addrspaceIn_unique hstopped hfinal
  | finalise b => cases hstate
  | stop b => cases hstate
  | enter d a0 a1 a2 => cases henters
  | resume d => cases henters

/-- A page given to an address space does not change the state and the root of the address space. -/
theorem grantPage_fields {b : Word} (ty : PageType) (hne : b ≠ p) :
    (grantPage s p b ty).addrspaceState b = s.addrspaceState b ∧
      (grantPage s p b ty).addrspaceL1pt b = s.addrspaceL1pt b := by
  simp [State.addrspaceState, State.addrspaceL1pt, grantPage, hne, KOM_ADDRSPACE_REFCOUNT,
    KOM_ADDRSPACE_STATE, KOM_ADDRSPACE_L1PT_PAGE]

/-- After a page was given to an address space that is not final, neither the page nor the address
space nor its page tables belong to a final one. -/
theorem granted_not_final {u : State} {b : Word} {ty : PageType} (hb : s.pageTyped b .addrspace) (hp : s.pageFree p)
    (hinit : s.addrspaceIn b .init) (hq : q = p ∨ s.pagedbAddrspace q = b)
    (howner : u.pagedbAddrspace = (grantPage s p b ty).pagedbAddrspace) (hsame : SamePage (grantPage s p b ty) u b)
    (ha : u.ownerOf q = some a) :
    ¬ u.addrspaceIn a .final := by
  have hab : a = b := by
    rw [← (ownerOf_eq_some.mp ha).2, howner]
    by_cases hqp : q = p
    · simp [grantPage, hqp]
    · simpa [grantPage, hqp] using hq.resolve_left hqp
  have hinit' : u.addrspaceIn a .init := by
    rw [hab, ← hsame.addrspaceIn, State.addrspaceIn,
      (grantPage_fields ty (ne_of_pageTyped hb hp (by decide))).1]
    exact hinit
  exact fun hfinal => by cases addrspaceIn_unique hinit' hfinal

/-- The pages of a table's address space, after a new page was entered into the table. -/
theorem table_granted_not_final {u : State} (hs : OwnershipInvariants s) {parent ty : PageType}
    (hpt : s.pageTyped pt parent) (hparent : parent ≠ .free ∧ parent ≠ .addrspace) (hp : s.pageFree p)
    (hinit : s.addrspaceIn (s.pagedbAddrspace pt) .init) (hq : q = p ∨ q = pt ∨ q = s.pagedbAddrspace pt)
    (howner : u.pagedbAddrspace = (grantPage s p (s.pagedbAddrspace pt) ty).pagedbAddrspace)
    (hlink : ∀ b, b ≠ p → b ≠ pt → SamePage (grantPage s p (s.pagedbAddrspace pt) ty) u b) (ha : u.ownerOf q = some a) :
    ¬ u.addrspaceIn a .final := by
  have hb := hs.owner_addrspace (pageNonfree_of_pageTyped hpt hparent.1)
  have hq' : q = p ∨ s.pagedbAddrspace q = s.pagedbAddrspace pt := by
    rcases hq with rfl | rfl | rfl
    · exact .inl rfl
    · exact .inr rfl
    · exact .inr (hs.self_owned hb)
  exact granted_not_final hb hp hinit hq' howner
    (hlink _ (ne_of_pageTyped hb hp (by decide)) (ne_of_pageTyped hb hpt hparent.2.symm)) ha

theorem effect_not_final (hs : OwnershipInvariants s) (L : Layout) (hstate : call.setsState = false)
    (henters : call.enters = false) (hcheck : call.check s = none) (hq : q ∈ call.touches s)
    (ha : (call.effect L s).ownerOf q = some a) : ¬ (call.effect L s).addrspaceIn a .final := by
  have ha' := (ownerOf_eq_some.mp ha).2
  cases call with
  | query => cases hq
  | getPhysPages => cases hq
  | initAddrspace b l =>
      rcases checkInitAddrspace_eq_none.mp hcheck with ⟨hne, _, _⟩
      have hab : a = b := by
        simp only [Smc.touches, List.mem_cons, List.not_mem_nil, or_false] at hq
        rw [← ha']
        rcases hq with rfl | rfl
        · simp [Smc.effect, setReturn, createAddrspace, hne]
        · simp [Smc.effect, setReturn, createAddrspace]
      simp [hab, Smc.effect, setReturn, createAddrspace, hne, State.addrspaceIn,
        State.addrspaceState]
  | initDispatcher p b e =>
      rcases checkInitDispatcher_eq_none.mp hcheck with ⟨hb, hp, hinit⟩
      have hq' : q = p ∨ s.pagedbAddrspace q = b := by
        simp only [Smc.touches, List.mem_cons, List.not_mem_nil, or_false] at hq
        rcases hq with rfl | rfl
        · exact .inl rfl
        · exact .inr (hs.self_owned hb)
      exact granted_not_final hb hp hinit hq' rfl
        ((createDispatcher_samePage_owner L e (ne_of_pageTyped hb hp (by decide))).trans
          ⟨rfl, rfl, rfl, rfl⟩) ha
  | initL2ptable p pt i | initL3ptable p pt i =>
      rcases checkInitPtable_eq_none.mp hcheck with ⟨_, hpt, _, hp, hinit⟩
      exact table_granted_not_final hs hpt ⟨by decide, by decide⟩ hp hinit
        (by simpa [Smc.touches] using hq) rfl
        (fun _ hbp hbpt => (linkTable_samePage L i hbp hbpt).trans ⟨rfl, rfl, rfl, rfl⟩) ha
  | mapSecure p pt i m c =>
      rcases checkMapSecure_eq_none.mp hcheck with ⟨_, _, hpt, _, hp, hinit⟩
      exact table_granted_not_final hs hpt ⟨by decide, by decide⟩ hp hinit
        (by simpa [Smc.touches] using hq) rfl
        (fun _ hbp hbpt => (linkLeaf_samePage i p _ m true hbpt).trans
          ((copyContent_samePage c hbp).trans ⟨rfl, rfl, rfl, rfl⟩)) ha
  | mapInsecure pt i m n =>
      rcases checkMapInsecure_eq_none.mp hcheck with ⟨_, _, hpt, _, hinit⟩
      have hb := hs.owner_addrspace (pageNonfree_of_pageTyped hpt (by decide))
      have hab : a = s.pagedbAddrspace pt := by
        rw [List.mem_singleton.mp hq] at ha'
        exact ha'.symm
      have hsame : SamePage s (Smc.effect L s (.mapInsecure pt i m n)) (s.pagedbAddrspace pt) :=
        effect_samePage L (by simpa [Smc.touches] using ne_of_pageTyped hb hpt (by decide))
      rw [hab, ← hsame.addrspaceIn]
      exact fun hfinal => by cases addrspaceIn_unique hinit hfinal
  | remove p =>
      rcases hs.remove_stopped hcheck with ⟨hnonfree, hstopped⟩
      have hqp : q ≠ p := by
        rintro rfl
        exact (ownerOf_eq_some.mp ha).1.2 (by simp [Smc.effect, setReturn, releasePage])
      have hq' : q = s.pagedbAddrspace p := by
        simp only [Smc.touches, List.mem_cons, List.not_mem_nil, or_false] at hq
        exact hq.resolve_left hqp
      have haq : a = q := by
        have hself : s.pagedbAddrspace q = q := hq' ▸ hs.self_owned (hs.owner_addrspace hnonfree)
        simpa [Smc.effect, setReturn, releasePage, hqp, hself] using ha'.symm
      have hstopped' : (Smc.effect L s (.remove p)).addrspaceIn q .stopped := by
        simpa [Smc.effect, setReturn, releasePage, State.addrspaceIn, State.addrspaceState, ← hq',
          KOM_ADDRSPACE_REFCOUNT, KOM_ADDRSPACE_STATE] using hq' ▸ hstopped
      rw [haq]
      exact fun hfinal => by cases addrspaceIn_unique hstopped' hfinal
  | finalise b => cases hstate
  | stop b => cases hstate
  | enter d a0 a1 a2 => cases henters
  | resume d => cases henters

end Final

end Komodo
end Serval
