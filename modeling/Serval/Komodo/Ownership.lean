import Serval.Lib.Ownership
import Serval.Komodo.Invariants

/-!
# Ownership — who owns which page, and how many

The secure pages of the specification are a pool of counted objects: a page that is not free is held by
its address space, an address space holds itself, and its `refcount` word is the count.  The pool is
kept by every transition from the initial state on.  With it goes what is known of the running enclave:
its dispatcher is a dispatcher page of a final address space.
-/

namespace Serval
namespace Komodo

open Riscv

variable {p a : Word} {s : State}

/-! ## The pool of secure pages -/

/-- The page numbers below `KOM_SECURE_NPAGES`. -/
def securePagenos : Finset Word :=
  (Finset.range KOM_SECURE_NPAGES.toNat).image (fun n => BitVec.ofNat 64 n)

theorem mem_securePagenos : p ∈ securePagenos ↔ pageValid p := by
  have hnpages : KOM_SECURE_NPAGES.toNat = 1024 := rfl
  simp only [securePagenos, Finset.mem_image, Finset.mem_range, hnpages]
  constructor
  · rintro ⟨n, hn, rfl⟩
    show (BitVec.ofNat 64 n).toNat < 1024
    rw [BitVec.toNat_ofNat]
    omega
  · intro hp
    exact ⟨p.toNat, hp, by simp⟩

theorem card_securePagenos_le : securePagenos.card ≤ 1024 := by
  have hle := Finset.card_image_le (s := Finset.range KOM_SECURE_NPAGES.toNat)
    (f := fun n => BitVec.ofNat 64 n)
  rw [Finset.card_range] at hle
  exact hle

/-- The address space that holds a page. -/
def State.ownerOf (s : State) (p : Word) : Option Word :=
  if s.pageNonfree p then some (s.pagedbAddrspace p) else none

def State.refcountOf (s : State) (a : Word) : Nat :=
  (s.addrspaceRefcount a).toNat

theorem ownerOf_eq_some : s.ownerOf p = some a ↔ s.pageNonfree p ∧ s.pagedbAddrspace p = a := by
  unfold State.ownerOf
  split_ifs with h <;> simp [h]

theorem ownerOf_eq_none : s.ownerOf p = none ↔ ¬ s.pageNonfree p := by
  unfold State.ownerOf
  split_ifs with h <;> simp [h]

theorem ownerOf_of_pageFree (h : s.pageFree p) : s.ownerOf p = none :=
  ownerOf_eq_none.mpr (fun hnonfree => hnonfree.2 h.2)

theorem ownerOf_of_pageTyped {t : PageType} (h : s.pageTyped p t) (ht : t ≠ .free) :
    s.ownerOf p = some (s.pagedbAddrspace p) :=
  ownerOf_eq_some.mpr ⟨pageNonfree_of_pageTyped h ht, rfl⟩

theorem ownerOf_setPage (s : State) (p : Word) (words : Word → Word) :
    (s.setPage p words).ownerOf = s.ownerOf := rfl

theorem ownerOf_retype (s : State) {owner : Word} {t : PageType} (hp : pageValid p) (ht : t ≠ .free) :
    (s.retype p owner t).ownerOf = Function.update s.ownerOf p (some owner) := by
  funext q
  by_cases hq : q = p
  · subst hq
    rw [Function.update_self, ownerOf_eq_some]
    exact ⟨(retype_pageNonfree_self owner).mpr ⟨hp, ht⟩, retype_owner_self owner⟩
  · rw [Function.update_of_ne hq]
    simp [State.ownerOf, retype_pageNonfree_of_ne owner hq, retype_owner_of_ne owner hq]

theorem ownerOf_untype (s : State) (p : Word) : (s.untype p).ownerOf = Function.update s.ownerOf p none := by
  funext q
  by_cases hq : q = p
  · subst hq
    rw [Function.update_self, ownerOf_eq_none]
    exact untype_not_pageNonfree
  · rw [Function.update_of_ne hq]
    simp [State.ownerOf, untype_pageNonfree_of_ne hq, untype_owner_of_ne hq]

/-! ## The invariant -/

structure OwnershipInvariants (s : State) : Prop where
  counted : Counted securePagenos s.ownerOf s.refcountOf
  -- the owners of the pool are the pages of type ADDRSPACE
  addrspace : ∀ p, s.pageTyped p .addrspace ↔ s.ownerOf p = some p
  currentValid : pageValid s.currentDispatcher
  enclave : s.enclaveMode = true → s.pageTyped s.currentDispatcher .dispatcher ∧
    s.addrspaceIn (s.pagedbAddrspace s.currentDispatcher) .final ∧
    s.currentAddrspace = s.pagedbAddrspace s.currentDispatcher

namespace OwnershipInvariants

variable {s : State}

section Owners

variable (h : OwnershipInvariants s)

include h

/-- The owner of a page that is not free is an address space. -/
theorem owner_addrspace (hp : s.pageNonfree p) : s.pageTyped (s.pagedbAddrspace p) .addrspace :=
  (h.addrspace _).mpr (h.counted.alive (ownerOf_eq_some.mpr ⟨hp, rfl⟩))

theorem self_owned (ha : s.pageTyped a .addrspace) : s.pagedbAddrspace a = a :=
  (ownerOf_eq_some.mp ((h.addrspace a).mp ha)).2

theorem refcount_bounds (ha : s.pageTyped a .addrspace) : 0 < s.refcountOf a ∧ s.refcountOf a ≤ 1024 := by
  have howner := (h.addrspace a).mp ha
  exact ⟨h.counted.count_pos howner, (h.counted.count_le howner).trans card_securePagenos_le⟩

theorem congr {t : State} (hcore : t.core = s.core) : OwnershipInvariants t := by
  have hs : OwnershipInvariants s.core := ⟨h.1, h.2, h.3, h.4⟩
  rw [← hcore] at hs
  exact ⟨hs.1, hs.2, hs.3, hs.4⟩

theorem setReturn (v : Word) : OwnershipInvariants (setReturn s v) :=
  ⟨h.1, h.2, h.3, h.4⟩

theorem advanceMepc : OwnershipInvariants (advanceMepc s) :=
  ⟨h.1, h.2, h.3, h.4⟩

/-! ### Moves -/

/-- Words of pages that are not address spaces do not matter. -/
theorem setPage {t : PageType} (hp : s.pageTyped p t) (ht : t ≠ .addrspace) (words : Word → Word) :
    OwnershipInvariants (s.setPage p words) := by
  have hne : ∀ {a : Word}, s.pageTyped a .addrspace → a ≠ p :=
    fun ha => ne_of_pageTyped ha hp ht.symm
  refine ⟨?_, h.addrspace, h.currentValid, ?_⟩
  · apply h.counted.congr
    intro a ha
    have hap : a ≠ p := hne ((h.addrspace a).mpr ha)
    simp [State.refcountOf, State.addrspaceRefcount, State.setPage, hap]
  · intro hmode
    rcases h.enclave hmode with ⟨hcur, hfinal, haddrspace⟩
    have hap := hne (h.owner_addrspace (pageNonfree_of_pageTyped hcur (by decide)))
    refine ⟨hcur, ?_, haddrspace⟩
    simpa [State.addrspaceIn, State.addrspaceState, State.setPage, hap] using hfinal

/-- The state of an address space changes while no enclave runs. -/
theorem setState (hmode : s.enclaveMode = false) (a : Word) (st : AddrspaceState) :
    OwnershipInvariants (setAddrspaceState s a st) := by
  have hset : OwnershipInvariants
      (s.setPage a (Function.update (s.pages a) KOM_ADDRSPACE_STATE st.val)) := by
    refine ⟨?_, h.addrspace, h.currentValid, ?_⟩
    · apply h.counted.congr
      intro b _
      by_cases hba : b = a
      · subst hba
        simp [State.refcountOf, State.addrspaceRefcount, State.setPage, KOM_ADDRSPACE_REFCOUNT,
          KOM_ADDRSPACE_STATE]
      · simp [State.refcountOf, State.addrspaceRefcount, State.setPage, hba]
    · intro hmode'
      exact absurd (hmode.symm.trans hmode') Bool.false_ne_true
  exact hset.congr (setAddrspaceState_core s a st)

end Owners

theorem addrspace_retype (h : ∀ q, s.pageTyped q .addrspace ↔ s.ownerOf q = some q) {owner : Word} {t : PageType}
    (hp : pageValid p) (ht : t ≠ .free) (hself : t = .addrspace ↔ owner = p) (q : Word) :
    (s.retype p owner t).pageTyped q .addrspace ↔ (s.retype p owner t).ownerOf q = some q := by
  rw [ownerOf_retype s hp ht]
  by_cases hq : q = p
  · subst hq
    simp [hp, hself]
  · rw [retype_pageTyped_of_ne owner hq, Function.update_of_ne hq]
    exact h q

section Transfer

variable (h : OwnershipInvariants s)

include h

section HostMode

variable (hmode : s.enclaveMode = false)

include hmode

/-- A free page is given to an address space. -/
theorem grant {t : PageType} (hp : s.pageFree p) (ha : s.pageTyped a .addrspace) (ht : t ≠ .free ∧ t ≠ .addrspace) :
    OwnershipInvariants (s.grant p a t) := by
  have hpa : a ≠ p := ne_of_pageTyped ha hp (by decide)
  have hbound := (h.refcount_bounds ha).2
  refine ⟨?_, ?_, h.currentValid, fun hmode' => absurd (hmode.symm.trans hmode')
    Bool.false_ne_true⟩
  · have hown : (s.grant p a t).ownerOf = Function.update s.ownerOf p (some a) :=
      ownerOf_retype s hp.1 ht.1
    rw [hown]
    apply h.counted.acquire (ownerOf_of_pageFree hp) (mem_securePagenos.mpr hp.1)
      ((h.addrspace a).mp ha)
    · have hcount : (s.grant p a t).addrspaceRefcount a = s.addrspaceRefcount a + 1 := by
        simp [State.grant, State.retype, State.setPage, State.addrspaceRefcount, countUp, hpa]
      have hbound' : (s.addrspaceRefcount a).toNat ≤ 1024 := hbound
      rw [State.refcountOf, hcount, BitVec.toNat_add]
      exact Nat.mod_eq_of_lt (by simp; omega)
    · intro b hba hb
      have hbp : b ≠ p := ne_of_pageTyped ((h.addrspace b).mpr hb) hp (by decide)
      simp [State.refcountOf, State.grant, State.retype, State.setPage, State.addrspaceRefcount, hba,
        hbp]
  · have hself : t = .addrspace ↔ a = p := ⟨fun heq => absurd heq ht.2, fun heq => absurd heq hpa⟩
    exact addrspace_retype h.addrspace hp.1 ht.1 hself

/-- A page goes back to the free ones; an address space only when it counts nothing but itself. -/
theorem release (hp : s.pageNonfree p) (hlast : s.pageTyped p .addrspace → s.addrspaceRefcount p = 1) :
    OwnershipInvariants (releasePage s p) := by
  have howner : s.ownerOf p = some (s.pagedbAddrspace p) := ownerOf_eq_some.mpr ⟨hp, rfl⟩
  have hbounds := h.refcount_bounds (h.owner_addrspace hp)
  have hmoves : OwnershipInvariants
      ((s.setPage (s.pagedbAddrspace p) (countDown (s.pages (s.pagedbAddrspace p)))).untype p) := by
    refine ⟨?_, ?_, h.currentValid, fun hmode' => absurd (hmode.symm.trans hmode')
      Bool.false_ne_true⟩
    · rw [ownerOf_untype, ownerOf_setPage]
      apply h.counted.release howner
      · intro hself
        have htyped : s.pageTyped p .addrspace :=
          (h.addrspace p).mpr (howner.trans (congrArg some hself.symm))
        rw [← hself, State.refcountOf, hlast htyped]
        rfl
      · intro _
        have hpos : 0 < (s.addrspaceRefcount (s.pagedbAddrspace p)).toNat := hbounds.1
        have hone : (1 : Word) ≤ s.addrspaceRefcount (s.pagedbAddrspace p) := hpos
        simp only [State.refcountOf, State.addrspaceRefcount, State.untype, State.setPage,
          Function.update_self, countDown]
        exact BitVec.toNat_sub_of_le hone
      · intro b hb _
        simp [State.refcountOf, State.addrspaceRefcount, State.untype, State.setPage, hb]
    · intro q
      rw [ownerOf_untype, ownerOf_setPage]
      by_cases hq : q = p
      · subst hq
        simp
      · rw [untype_pageTyped_of_ne hq, Function.update_of_ne hq]
        exact h.addrspace q
  exact hmoves.congr (releasePage_core s p)

/-- Two free pages become an address space and its root table. -/
theorem createAddrspace {l : Word} (hne : a ≠ l) (ha : s.pageFree a) (hl : s.pageFree l) :
    OwnershipInvariants (createAddrspace s a l) := by
  have hfirst : (s.retype a a .addrspace).ownerOf = Function.update s.ownerOf a (some a) :=
    ownerOf_retype s ha.1 (by decide)
  have hsecond : ((s.retype a a .addrspace).retype l a .l1ptable).ownerOf
      = Function.update (Function.update s.ownerOf a (some a)) l (some a) := by
    rw [ownerOf_retype _ hl.1 (by decide), hfirst]
  have hmoves : OwnershipInvariants
      (((s.retype a a .addrspace).retype l a .l1ptable).setPage a (addrspaceWords (s.pages a) l)) := by
    refine ⟨?_, ?_, h.currentValid, fun hmode' => absurd (hmode.symm.trans hmode')
      Bool.false_ne_true⟩
    · rw [ownerOf_setPage, hsecond]
      -- the address space counts itself first, then its root table
      have hcreate : Counted securePagenos (Function.update s.ownerOf a (some a))
          (Function.update s.refcountOf a 1) := by
        apply h.counted.create (ownerOf_of_pageFree ha) (mem_securePagenos.mpr ha.1)
        · exact Function.update_self _ _ _
        · intro b hba _
          exact Function.update_of_ne hba _ _
      apply hcreate.acquire
      · rw [Function.update_of_ne hne.symm]
        exact ownerOf_of_pageFree hl
      · exact mem_securePagenos.mpr hl.1
      · exact Function.update_self _ _ _
      · simp [State.refcountOf, State.addrspaceRefcount, State.setPage, addrspaceWords,
          KOM_ADDRSPACE_REFCOUNT, KOM_ADDRSPACE_STATE]
      · intro b hba hb
        rw [Function.update_of_ne hba] at hb
        have hbl : b ≠ l := by
          rintro rfl
          rw [ownerOf_of_pageFree hl] at hb
          cases hb
        simp [State.refcountOf, State.addrspaceRefcount, State.setPage, State.retype, hba, hbl]
    · have hself : PageType.addrspace = .addrspace ↔ a = a := iff_of_true rfl rfl
      have hother : PageType.l1ptable = .addrspace ↔ a = l := iff_of_false (by decide) hne
      exact addrspace_retype (addrspace_retype h.addrspace ha.1 (by decide) hself) hl.1 (by decide)
        hother
  exact hmoves.congr (createAddrspace_core s hne)

theorem addSecureMapping (L : Layout) {l : Word} (i m c : Word) (hl : s.pageTyped l .l3ptable) (hp : s.pageFree p) :
    OwnershipInvariants (addSecureMapping L s p l i m c) := by
  have howner := h.owner_addrspace (pageNonfree_of_pageTyped hl (by decide))
  have hgrant := h.grant hmode (t := .data) hp howner ⟨by decide, by decide⟩
  have hentry := hgrant.setPage (TableInvariants.grant_pageTyped hp hl (by decide)) (by decide)
    (Function.update ((s.grant p (s.pagedbAddrspace l) .data).pages l) i
      (pfnToPte (L.pageToPfn p) (enclaveProt m)))
  have hdata : (s.grant p (s.pagedbAddrspace l) .data).pageTyped p .data :=
    (retype_pageTyped_self (s.pagedbAddrspace l)).mpr ⟨hp.1, rfl⟩
  exact (hentry.setPage (t := .data) hdata (by decide) _).congr rfl

end HostMode

theorem enter {d : Word} (hd : s.pageTyped d .dispatcher) (hfinal : s.addrspaceIn (s.pagedbAddrspace d) .final) :
    OwnershipInvariants (specEnterSecureWorld s d) :=
  ⟨h.counted, h.addrspace, hd.1, fun _ => ⟨hd, hfinal, rfl⟩⟩

theorem leave (hmode : s.enclaveMode = true) (entered : Bool) :
    OwnershipInvariants (specLeaveSecureWorld s s.currentDispatcher entered) := by
  have hsaved := h.setPage (h.enclave hmode).1 (by decide)
    (saveDispatcher (s.pages s.currentDispatcher) (if entered then 1 else 0) s.regs)
  exact ⟨hsaved.counted, hsaved.addrspace, show pageValid 0 by decide,
    fun hfalse => absurd hfalse Bool.false_ne_true⟩

/-! ### Transitions -/

theorem effect (hmode : s.enclaveMode = false) (L : Layout) {call : Smc} (hcheck : call.check s = none) :
    OwnershipInvariants (call.effect L s) := by
  -- the owner of a page table is an address space
  have howner : ∀ {pt : Word} {t : PageType}, s.pageTyped pt t → t ≠ .free →
      s.pageTyped (s.pagedbAddrspace pt) .addrspace :=
    fun hpt ht => h.owner_addrspace (pageNonfree_of_pageTyped hpt ht)
  cases call with
  | query => exact h.setReturn _
  | getPhysPages => exact h.setReturn _
  | initAddrspace a l =>
      rcases checkInitAddrspace_eq_none.mp hcheck with ⟨hne, ha, hl⟩
      exact (h.createAddrspace hmode hne ha hl).setReturn _
  | initDispatcher p a e =>
      rcases checkInitDispatcher_eq_none.mp hcheck with ⟨ha, hp, _⟩
      have hgrant := h.grant hmode (t := .dispatcher) hp ha ⟨by decide, by decide⟩
      have hdisp : (s.grant p a .dispatcher).pageTyped p .dispatcher :=
        (retype_pageTyped_self a).mpr ⟨hp.1, rfl⟩
      exact ((hgrant.setPage hdisp (by decide) _).congr
        (createDispatcher_core L s (ne_of_pageTyped hp ha (by decide)) e)).setReturn _
  | initL2ptable p l i =>
      rcases checkInitPtable_eq_none.mp hcheck with ⟨_, hl, _, hp, _⟩
      have hgrant := h.grant hmode (t := .l2ptable) hp (howner hl (by decide)) ⟨by decide, by decide⟩
      exact ((hgrant.setPage (TableInvariants.grant_pageTyped hp hl (by decide)) (by decide) _).congr
        (createPtable_core L s .l2ptable p l i)).setReturn _
  | initL3ptable p l i =>
      rcases checkInitPtable_eq_none.mp hcheck with ⟨_, hl, _, hp, _⟩
      have hgrant := h.grant hmode (t := .l3ptable) hp (howner hl (by decide)) ⟨by decide, by decide⟩
      exact ((hgrant.setPage (TableInvariants.grant_pageTyped hp hl (by decide)) (by decide) _).congr
        (createPtable_core L s .l3ptable p l i)).setReturn _
  | mapSecure p l i m c =>
      rcases checkMapSecure_eq_none.mp hcheck with ⟨_, _, hl, _, hp, _⟩
      exact (h.addSecureMapping hmode L i m c hl hp).setReturn _
  | mapInsecure l i m n =>
      rcases checkMapInsecure_eq_none.mp hcheck with ⟨_, _, hl, _, _⟩
      exact ((h.setPage hl (by decide) _).congr (addInsecureMapping_core L s l i m n)).setReturn _
  | remove p =>
      rcases checkRemove_eq_none.mp hcheck with ⟨_, hp, hfree, hlast, _⟩
      exact (h.release hmode (pageNonfree_iff.mpr ⟨hp, hfree⟩) (fun ha => (hlast ha).1)).setReturn _
  | finalise a => exact (h.setState hmode a .final).setReturn _
  | stop a => exact (h.setState hmode a .stopped).setReturn _
  | enter d a0 a1 a2 =>
      rcases checkEnter_eq_none.mp hcheck with ⟨hd, hfinal, _⟩
      have hargs := h.setPage hd (by decide) (withArgs (s.pages d) a0 a1 a2)
      have hne : s.pagedbAddrspace d ≠ d :=
        ne_of_pageTyped (howner hd (by decide)) hd (by decide)
      rw [← setDispatcherArgs_eq] at hargs
      apply hargs.enter hd
      rw [setDispatcherArgs_eq]
      simpa [State.addrspaceIn, State.addrspaceState, State.setPage, hne] using hfinal
  | resume d =>
      rcases checkResume_eq_none.mp hcheck with ⟨hd, hfinal, _⟩
      exact h.enter hd hfinal

end Transfer

theorem preserved (L : Layout) : Preserved L OwnershipInvariants where
  setReturn v h := h.setReturn v
  advanceMepc h := h.advanceMepc
  effect hmode hcheck h := h.effect hmode L hcheck
  leave a0 a1 entered hmode h := by
    have hhost : OwnershipInvariants (setHostReturn _ a0 a1) := ⟨h.1, h.2, h.3, h.4⟩
    exact hhost.leave hmode entered

/-- Every transition of the specification keeps the pool. -/
theorem specStep (h : OwnershipInvariants s) (L : Layout) (a : Action) : OwnershipInvariants (specStep L s a) := by
  cases a with
  | smc call => exact (preserved L).makeSmcSpec call h
  | svcExit v => exact (preserved L).specKomSvcExit v h
  | handleTrap cause => exact (preserved L).specKomHandleTrap cause h
  | enclaveRead p o =>
      show OwnershipInvariants (specEnclaveRead s p o)
      unfold specEnclaveRead
      split
      · exact ⟨h.1, h.2, h.3, h.4⟩
      · exact h
  | enclaveWrite p o v =>
      show OwnershipInvariants (specEnclaveWrite s p o v)
      unfold specEnclaveWrite
      split
      · next hmay => exact h.setPage hmay.2.2.1 (by decide) _
      · exact h
  | insecureRead p o =>
      show OwnershipInvariants (specInsecureRead s p o)
      unfold specInsecureRead
      split
      · exact ⟨h.1, h.2, h.3, h.4⟩
      · exact h
  | insecureWrite p o v =>
      show OwnershipInvariants (specInsecureWrite s p o v)
      unfold specInsecureWrite
      split
      · exact ⟨h.1, h.2, h.3, h.4⟩
      · exact h

end OwnershipInvariants

/-! ## Reachable states -/

/-- The states the specification starts from: all pages are free and cleared.  The registers, the
insecure pages and the address space of an enclave that does not run yet are arbitrary. -/
structure InitialState (s : State) : Prop where
  free : ∀ p, pageValid p → s.pageFree p
  owners : ∀ p, pageValid p → s.pagedbAddrspace p = 0
  pages : ∀ p i, pageValid p → pageIndexValid i → s.pages p i = 0
  mode : s.enclaveMode = false
  host : s.hostState = zeroRegs
  dispatcher : s.currentDispatcher = 0
  refcnt : s.pageRefcnt = .init
  pgtable : ∀ p i, s.pgtablePn p i = 0 ∧ s.pgtablePresent p i = false ∧ s.pgtablePerm p i = 0 ∧
    s.pgtableSecure p i = false

def specRun (L : Layout) (s : State) (as : List Action) : State :=
  as.foldl (specStep L) s

theorem InitialState.ownershipInvariants (h : InitialState s) : OwnershipInvariants s := by
  have hnone : ∀ p, s.ownerOf p = none := by
    intro p
    rw [ownerOf_eq_none]
    intro hp
    exact hp.2 (h.free p hp.1).2
  refine ⟨⟨?_, ?_, ?_⟩, ?_, ?_, ?_⟩
  · intro i a hi
    simp [hnone] at hi
  · intro i a hi
    simp [hnone] at hi
  · intro a ha
    simp [hnone] at ha
  · intro p
    rw [hnone]
    refine ⟨fun hp => ?_, fun hfalse => by cases hfalse⟩
    exact absurd (h.free p hp.1) (not_pageFree_of_pageTyped hp (by decide))
  · rw [h.dispatcher]
    decide
  · intro hmode
    exact absurd (h.mode.symm.trans hmode) Bool.false_ne_true

/-- The pool is as it should be in every reachable state. -/
theorem specRun_ownershipInvariants (L : Layout) (as : List Action) :
    ∀ {s : State}, OwnershipInvariants s → OwnershipInvariants (specRun L s as) := by
  induction as with
  | nil =>
      intro s h
      exact h
  | cons a as ih =>
      intro s h
      exact ih (h.specStep L a)

end Komodo
end Serval
