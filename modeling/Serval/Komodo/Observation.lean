import Serval.Komodo.Footprint

/-!
# Observation — what the operating system and the enclaves can tell apart

The three equivalences of `verif/nickel-ni.rkt`.  The operating system sees the page database, the
contents of page tables and the bookkeeping fields of address spaces and dispatchers; an enclave sees
the pages it owns once its address space is final, and the registers while it runs; everybody may see
the insecure pages.

Both page-wise views are stated for one page and lifted to states, so that a transition is treated page
by page: the pages in its footprint by hand, all others by `effect_samePage`.
-/

namespace Serval
namespace Komodo

open Riscv

variable {p q a pt i : Word} {s t : State} {call : Smc}

/-! ## Definitions -/

def InsecureEquiv (s t : State) : Prop :=
  ∀ p i, insecurePageValid p → pageIndexValid i → s.insecurePages p i = t.insecurePages p i

/-- What the operating system sees of a page. -/
structure OsPage (s t : State) (p : Word) : Prop where
  -- the type and the owner of each page
  type : s.pagedbType p = t.pagedbType p
  owner : s.pagedbAddrspace p = t.pagedbAddrspace p
  -- the contents of all L{1,2,3}PTABLE pages
  table : s.pageTyped p .l1ptable ∨ s.pageTyped p .l2ptable ∨ s.pageTyped p .l3ptable →
    ∀ i, pageIndexValid i → s.pages p i = t.pages p i ∧ s.pgtable p i = t.pgtable p i
  -- the state, l1pt, and refcount fields of each addrspace page
  addrspace : s.pageTyped p .addrspace → s.addrspaceState p = t.addrspaceState p ∧
    s.addrspaceRefcount p = t.addrspaceRefcount p ∧ s.addrspaceL1pt p = t.addrspaceL1pt p
  -- the entered field of dispatchers
  dispatcher : s.pageTyped p .dispatcher → s.dispatcherEntered p = t.dispatcherEntered p

structure OsEquiv (s t : State) : Prop where
  insecure : InsecureEquiv s t
  currentDispatcher : s.currentDispatcher = t.currentDispatcher
  currentAddrspace : s.currentAddrspace = t.currentAddrspace
  mode : s.enclaveMode = t.enclaveMode
  host : s.hostState = t.hostState
  regs : s.enclaveMode = false → s.regs = t.regs
  page : ∀ p, pageValid p → OsPage s t p

def encValid (obs : Word) (s : State) : Prop :=
  s.pageTyped obs .addrspace ∧ s.addrspaceIn obs .final

def isCurrent (obs : Word) (s : State) : Prop :=
  obs = s.currentAddrspace ∧ s.enclaveMode = true

def pageOwned (obs : Word) (s : State) (p : Word) : Prop :=
  pageValid p ∧ ¬ s.pageFree p ∧ obs = s.pagedbAddrspace p

/-- What an enclave sees of its pages. -/
structure EncPages (obs : Word) (s t : State) : Prop where
  valid : encValid obs s ↔ encValid obs t
  -- enclaves can observe which pages they own
  owned : encValid obs s → ∀ p, pageValid p → (pageOwned obs s p ↔ pageOwned obs t p)
  -- enclaves can see the type of pages they own
  type : encValid obs s → ∀ p, pageOwned obs s p → s.pagedbType p = t.pagedbType p
  -- enclaves can observe the contents of each page they own
  words : encValid obs s → ∀ p i, pageOwned obs s p → pageIndexValid i → s.pages p i = t.pages p i
  pgtable : encValid obs s → ∀ p i, pageOwned obs s p → pageIndexValid i →
    s.pgtable p i = t.pgtable p i

structure EncEquiv (obs : Word) (s t : State) : Prop extends EncPages obs s t where
  mode : s.enclaveMode = t.enclaveMode
  current : isCurrent obs s ↔ isCurrent obs t
  running : isCurrent obs s → s.regs = t.regs ∧ s.currentDispatcher = t.currentDispatcher

/-! ## Equivalence relations -/

theorem InsecureEquiv.refl (s : State) : InsecureEquiv s s := fun _ _ _ _ => rfl

theorem InsecureEquiv.symm (h : InsecureEquiv s t) : InsecureEquiv t s :=
  fun p i hp hi => (h p i hp hi).symm

theorem InsecureEquiv.trans {r : State} (h : InsecureEquiv s t) (h' : InsecureEquiv t r) : InsecureEquiv s r :=
  fun p i hp hi => (h p i hp hi).trans (h' p i hp hi)

namespace OsPage

variable {s t r s' t' : State} {p : Word}

theorem pageTyped (h : OsPage s t p) (ty : PageType) : s.pageTyped p ty ↔ t.pageTyped p ty := by
  simp [State.pageTyped, h.type]

/-- Pages that do not change stay equivalent. -/
theorem congr (h : OsPage s t p) (hs : SamePage s s' p) (ht : SamePage t t' p) : OsPage s' t' p := by
  have hown : ∀ {u u' : State} {i : Word}, SamePage u u' p → u'.pages p i = u.pages p i :=
    fun hsame => congrFun hsame.words.symm _
  refine ⟨hs.type.symm.trans (h.type.trans ht.type), hs.owner.symm.trans (h.owner.trans ht.owner),
    ?_, ?_, ?_⟩
  · intro htable i hi
    rw [← hs.words, ← ht.words, ← hs.pgtable, ← ht.pgtable]
    exact h.table (by simpa only [hs.pageTyped] using htable) i hi
  · intro haddrspace
    simp only [State.addrspaceState, State.addrspaceRefcount, State.addrspaceL1pt, hown hs, hown ht]
    exact h.addrspace ((hs.pageTyped _).mpr haddrspace)
  · intro hdispatcher
    simp only [State.dispatcherEntered, hown hs, hown ht]
    exact h.dispatcher ((hs.pageTyped _).mpr hdispatcher)

theorem refl (s : State) (p : Word) : OsPage s s p :=
  ⟨rfl, rfl, fun _ _ _ => ⟨rfl, rfl⟩, fun _ => ⟨rfl, rfl, rfl⟩, fun _ => rfl⟩

theorem symm (h : OsPage s t p) : OsPage t s p := by
  refine ⟨h.type.symm, h.owner.symm, ?_, ?_, ?_⟩
  · intro htable i hi
    rcases h.table (by simpa only [h.pageTyped] using htable) i hi with ⟨hword, hentry⟩
    exact ⟨hword.symm, hentry.symm⟩
  · intro haddrspace
    rcases h.addrspace ((h.pageTyped _).mpr haddrspace) with ⟨hstate, hcount, hl1pt⟩
    exact ⟨hstate.symm, hcount.symm, hl1pt.symm⟩
  · intro hdispatcher
    exact (h.dispatcher ((h.pageTyped _).mpr hdispatcher)).symm

theorem trans (h : OsPage s t p) (h' : OsPage t r p) : OsPage s r p := by
  refine ⟨h.type.trans h'.type, h.owner.trans h'.owner, ?_, ?_, ?_⟩
  · intro htable i hi
    rcases h.table htable i hi with ⟨hword, hentry⟩
    rcases h'.table (by simpa only [h.pageTyped] using htable) i hi with ⟨hword', hentry'⟩
    exact ⟨hword.trans hword', hentry.trans hentry'⟩
  · intro haddrspace
    rcases h.addrspace haddrspace with ⟨hstate, hcount, hl1pt⟩
    rcases h'.addrspace ((h.pageTyped _).mp haddrspace) with ⟨hstate', hcount', hl1pt'⟩
    exact ⟨hstate.trans hstate', hcount.trans hcount', hl1pt.trans hl1pt'⟩
  · intro hdispatcher
    exact (h.dispatcher hdispatcher).trans (h'.dispatcher ((h.pageTyped _).mp hdispatcher))

end OsPage

namespace OsEquiv

variable {s t r : State}

theorem refl (s : State) : OsEquiv s s :=
  ⟨.refl s, rfl, rfl, rfl, rfl, fun _ => rfl, fun p _ => .refl s p⟩

theorem symm (h : OsEquiv s t) : OsEquiv t s :=
  ⟨h.insecure.symm, h.currentDispatcher.symm, h.currentAddrspace.symm, h.mode.symm, h.host.symm,
    fun hmode => (h.regs (h.mode.trans hmode)).symm, fun p hp => (h.page p hp).symm⟩

theorem trans (h : OsEquiv s t) (h' : OsEquiv t r) : OsEquiv s r :=
  ⟨h.insecure.trans h'.insecure, h.currentDispatcher.trans h'.currentDispatcher,
    h.currentAddrspace.trans h'.currentAddrspace, h.mode.trans h'.mode, h.host.trans h'.host,
    fun hmode => (h.regs hmode).trans (h'.regs (h.mode.symm.trans hmode)),
    fun p hp => (h.page p hp).trans (h'.page p hp)⟩

end OsEquiv

namespace EncPages

variable {obs : Word} {s t r : State}

theorem refl (obs : Word) (s : State) : EncPages obs s s :=
  ⟨Iff.rfl, fun _ _ _ => Iff.rfl, fun _ _ _ => rfl, fun _ _ _ _ _ => rfl, fun _ _ _ _ _ => rfl⟩

theorem symm (h : EncPages obs s t) : EncPages obs t s := by
  have hback : encValid obs t → ∀ p, pageOwned obs t p → encValid obs s ∧ pageOwned obs s p :=
    fun hv p hp => ⟨h.valid.mpr hv, (h.owned (h.valid.mpr hv) p hp.1).mpr hp⟩
  refine ⟨h.valid.symm, fun hv p hp => (h.owned (h.valid.mpr hv) p hp).symm, ?_, ?_, ?_⟩
  · intro hv p hp
    exact (h.type (hback hv p hp).1 p (hback hv p hp).2).symm
  · intro hv p i hp hi
    exact (h.words (hback hv p hp).1 p i (hback hv p hp).2 hi).symm
  · intro hv p i hp hi
    exact (h.pgtable (hback hv p hp).1 p i (hback hv p hp).2 hi).symm

theorem trans (h : EncPages obs s t) (h' : EncPages obs t r) : EncPages obs s r := by
  have hforth : encValid obs s → ∀ p, pageOwned obs s p → encValid obs t ∧ pageOwned obs t p :=
    fun hv p hp => ⟨h.valid.mp hv, (h.owned hv p hp.1).mp hp⟩
  refine ⟨h.valid.trans h'.valid,
    fun hv p hp => (h.owned hv p hp).trans (h'.owned (h.valid.mp hv) p hp), ?_, ?_, ?_⟩
  · intro hv p hp
    exact (h.type hv p hp).trans (h'.type (hforth hv p hp).1 p (hforth hv p hp).2)
  · intro hv p i hp hi
    exact (h.words hv p i hp hi).trans (h'.words (hforth hv p hp).1 p i (hforth hv p hp).2 hi)
  · intro hv p i hp hi
    exact (h.pgtable hv p i hp hi).trans (h'.pgtable (hforth hv p hp).1 p i (hforth hv p hp).2 hi)

end EncPages

namespace EncEquiv

variable {obs : Word} {s t r : State}

theorem refl (obs : Word) (s : State) : EncEquiv obs s s :=
  ⟨.refl obs s, rfl, Iff.rfl, fun _ => ⟨rfl, rfl⟩⟩

theorem symm (h : EncEquiv obs s t) : EncEquiv obs t s := by
  refine ⟨h.toEncPages.symm, h.mode.symm, h.current.symm, ?_⟩
  intro hcur
  rcases h.running (h.current.mpr hcur) with ⟨hregs, hdisp⟩
  exact ⟨hregs.symm, hdisp.symm⟩

theorem trans (h : EncEquiv obs s t) (h' : EncEquiv obs t r) : EncEquiv obs s r := by
  refine ⟨h.toEncPages.trans h'.toEncPages, h.mode.trans h'.mode, h.current.trans h'.current, ?_⟩
  intro hcur
  rcases h.running hcur with ⟨hregs, hdisp⟩
  rcases h'.running (h.current.mp hcur) with ⟨hregs', hdisp'⟩
  exact ⟨hregs.trans hregs', hdisp.trans hdisp'⟩

end EncEquiv

/-! ## The operating system and the checks of its calls -/

namespace OsEquiv

variable {s t : State}

variable (h : OsEquiv s t)

include h

theorem pageTyped (p : Word) (ty : PageType) : s.pageTyped p ty ↔ t.pageTyped p ty := by
  by_cases hp : pageValid p
  · exact (h.page p hp).pageTyped ty
  · exact iff_of_false (fun htyped => hp htyped.1) (fun htyped => hp htyped.1)

theorem pageFree (p : Word) : s.pageFree p ↔ t.pageFree p :=
  h.pageTyped p .free

theorem owner (hp : pageValid p) : s.pagedbAddrspace p = t.pagedbAddrspace p :=
  (h.page p hp).owner

/-- The owner of a page that is not free, under the name it has in the other state. -/
theorem owner_addrspace (hs : OwnershipInvariants s) (hp : s.pageNonfree p) :
    s.pageTyped (t.pagedbAddrspace p) .addrspace := by
  rw [← h.owner hp.1]
  exact hs.owner_addrspace hp

theorem addrspaceIn (ha : s.pageTyped a .addrspace) (st : AddrspaceState) :
    s.addrspaceIn a st ↔ t.addrspaceIn a st := by
  simp only [State.addrspaceIn, ((h.page a ha.1).addrspace ha).1]

theorem checkAllocate (p : Word) (ha : s.pageTyped a .addrspace) : checkAllocate s p a = checkAllocate t p a := by
  simp only [Komodo.checkAllocate, h.pageFree p, h.addrspaceIn ha .init]

/-- The entry of a page table, and the owner of the table. -/
theorem table {ty : PageType} (hpt : s.pageTyped pt ty) (hty : ty = .l1ptable ∨ ty = .l2ptable ∨ ty = .l3ptable)
    (hi : pageIndexValid i) :
    s.pages pt i = t.pages pt i ∧ s.pgtable pt i = t.pgtable pt i := by
  apply (h.page pt hpt.1).table _ i hi
  rcases hty with rfl | rfl | rfl
  · exact .inl hpt
  · exact .inr (.inl hpt)
  · exact .inr (.inr hpt)

variable (hs : OwnershipInvariants s)

include hs

theorem checkInitPtable {parent : PageType} (hparent : parent = .l1ptable ∨ parent = .l2ptable ∨ parent = .l3ptable)
    (p pt i : Word) :
    checkInitPtable parent s p pt i = checkInitPtable parent t p pt i := by
  have hfree : parent ≠ .free := by
    rintro rfl
    simp at hparent
  by_cases hi : pageIndexValid i
  · by_cases hpt : s.pageTyped pt parent
    · have howner := h.owner_addrspace hs (pageNonfree_of_pageTyped hpt hfree)
      simp only [Komodo.checkInitPtable, h.pageTyped pt parent, (h.table hpt hparent hi).1,
        h.checkAllocate p howner, h.owner hpt.1]
    · simp [Komodo.checkInitPtable, hi, hpt, mt (h.pageTyped pt parent).mpr hpt]
  · simp [Komodo.checkInitPtable, hi]

theorem checkMapSecure (p pt i c : Word) : checkMapSecure s p pt i c = checkMapSecure t p pt i c := by
  by_cases hi : pageIndexValid i
  · by_cases hpt : s.pageTyped pt .l3ptable
    · have howner := h.owner_addrspace hs (pageNonfree_of_pageTyped hpt (by decide))
      simp only [Komodo.checkMapSecure, h.pageTyped pt .l3ptable,
        (h.table hpt (.inr (.inr rfl)) hi).1, h.checkAllocate p howner, h.owner hpt.1]
    · simp [Komodo.checkMapSecure, hi, hpt, mt (h.pageTyped pt _).mpr hpt]
  · simp [Komodo.checkMapSecure, hi]

theorem checkMapInsecure (pt i n : Word) : checkMapInsecure s pt i n = checkMapInsecure t pt i n := by
  by_cases hi : pageIndexValid i
  · by_cases hpt : s.pageTyped pt .l3ptable
    · have howner := h.owner_addrspace hs (pageNonfree_of_pageTyped hpt (by decide))
      simp only [Komodo.checkMapInsecure, h.pageTyped pt .l3ptable,
        (h.table hpt (.inr (.inr rfl)) hi).1, h.addrspaceIn howner .init, h.owner hpt.1]
    · simp [Komodo.checkMapInsecure, hi, hpt, mt (h.pageTyped pt _).mpr hpt]
  · simp [Komodo.checkMapInsecure, hi]

theorem checkRemove (p : Word) : checkRemove s p = checkRemove t p := by
  by_cases hp : pageValid p
  · by_cases hfree : s.pageFree p
    · simp [Komodo.checkRemove, h.mode, hp, hfree, (h.pageFree p).mp hfree]
    · have howner := h.owner_addrspace hs (pageNonfree_iff.mpr ⟨hp, hfree⟩)
      have hstopped := h.addrspaceIn howner .stopped
      by_cases ha : s.pageTyped p .addrspace
      · simp only [Komodo.checkRemove, h.mode, h.pageFree p, h.pageTyped p .addrspace,
          ((h.page p hp).addrspace ha).2.1, h.addrspaceIn ha .stopped, h.owner hp, hstopped]
      · have ha' := mt (h.pageTyped p .addrspace).mpr ha
        simp only [Komodo.checkRemove, h.mode, h.pageFree p, ha, ha', h.owner hp, hstopped,
          false_and, if_false]
  · simp [Komodo.checkRemove, h.mode, hp]

theorem dispatcherFinal {d : Word} (hd : s.pageTyped d .dispatcher) :
    s.addrspaceIn (s.pagedbAddrspace d) .final ↔ t.addrspaceIn (t.pagedbAddrspace d) .final := by
  rw [h.owner hd.1]
  exact h.addrspaceIn (h.owner_addrspace hs (pageNonfree_of_pageTyped hd (by decide))) .final

/-- The operating system sees everything its calls depend on. -/
theorem check (call : Smc) : call.check s = call.check t := by
  cases call with
  | query => rfl
  | getPhysPages => rfl
  | initAddrspace a l => simp only [Smc.check, checkInitAddrspace, h.pageFree]
  | initDispatcher p a e =>
      by_cases ha : s.pageTyped a .addrspace
      · simp only [Smc.check, checkInitDispatcher, h.pageTyped a .addrspace, h.checkAllocate p ha]
      · simp [Smc.check, checkInitDispatcher, ha, mt (h.pageTyped a _).mpr ha]
  | initL2ptable p pt i => exact h.checkInitPtable hs (.inl rfl) p pt i
  | initL3ptable p pt i => exact h.checkInitPtable hs (.inr (.inl rfl)) p pt i
  | mapSecure p pt i m c => exact h.checkMapSecure hs p pt i c
  | mapInsecure pt i m n => exact h.checkMapInsecure hs pt i n
  | remove p => exact h.checkRemove hs p
  | finalise a =>
      by_cases ha : s.pageTyped a .addrspace
      · simp only [Smc.check, checkFinalise, h.pageTyped a .addrspace, h.addrspaceIn ha .init]
      · simp [Smc.check, checkFinalise, ha, mt (h.pageTyped a _).mpr ha]
  | stop a => simp only [Smc.check, checkStop, h.pageTyped a .addrspace]
  | enter d a0 a1 a2 =>
      by_cases hd : s.pageTyped d .dispatcher
      · simp only [Smc.check, checkEnter, h.pageTyped d .dispatcher, h.dispatcherFinal hs hd,
          (h.page d hd.1).dispatcher hd]
      · simp [Smc.check, checkEnter, hd, mt (h.pageTyped d _).mpr hd]
  | resume d =>
      by_cases hd : s.pageTyped d .dispatcher
      · simp only [Smc.check, checkResume, h.pageTyped d .dispatcher, h.dispatcherFinal hs hd,
          (h.page d hd.1).dispatcher hd]
      · simp [Smc.check, checkResume, hd, mt (h.pageTyped d _).mpr hd]

end OsEquiv

/-! ## The operating system and the effects of its calls -/

/-- Two pages of one type are compared by what shows of that type. -/
theorem OsPage.of_typed {k : PageType} (hs : s.pageTyped p k) (ht : t.pageTyped p k)
    (howner : s.pagedbAddrspace p = t.pagedbAddrspace p)
    (htable : k = .l1ptable ∨ k = .l2ptable ∨ k = .l3ptable → ∀ i, pageIndexValid i →
      s.pages p i = t.pages p i ∧ s.pgtable p i = t.pgtable p i)
    (haddrspace : k = .addrspace → s.addrspaceState p = t.addrspaceState p ∧
      s.addrspaceRefcount p = t.addrspaceRefcount p ∧ s.addrspaceL1pt p = t.addrspaceL1pt p)
    (hdispatcher : k = .dispatcher → s.dispatcherEntered p = t.dispatcherEntered p) :
    OsPage s t p := by
  refine ⟨hs.2.trans ht.2.symm, howner, ?_, fun h => haddrspace (pageTyped_unique hs h),
    fun h => hdispatcher (pageTyped_unique hs h)⟩
  intro h
  apply htable
  rcases h with h | h | h
  · exact .inl (pageTyped_unique hs h)
  · exact .inr (.inl (pageTyped_unique hs h))
  · exact .inr (.inr (pageTyped_unique hs h))

namespace OsEquiv

variable {s t : State}

/-- The address space that a page is given to. -/
theorem grant_owner (h : OsEquiv s t) (ha : s.pageTyped a .addrspace) (hne : a ≠ p) (ty : PageType) :
    OsPage (grantPage s p a ty) (grantPage t p a ty) a := by
  have hview := (h.page a ha.1).addrspace ha
  have htyped : ∀ {u : State}, u.pageTyped a .addrspace → (grantPage u p a ty).pageTyped a .addrspace := by
    intro u hu
    exact (retype_pageTyped_of_ne a hne).mpr hu
  apply OsPage.of_typed (htyped ha) (htyped ((h.pageTyped a _).mp ha))
  · simpa [grantPage, hne] using h.owner ha.1
  · simp
  · intro _
    simp only [State.addrspaceState, State.addrspaceRefcount, State.addrspaceL1pt] at hview ⊢
    simpa [grantPage, hne, KOM_ADDRSPACE_REFCOUNT, KOM_ADDRSPACE_STATE, KOM_ADDRSPACE_L1PT_PAGE]
      using hview
  · simp

theorem createAddrspace_page {l : Word} (hne : a ≠ l) (ha : pageValid a) (hl : pageValid l) (hq : q = a ∨ q = l) :
    OsPage (createAddrspace s a l) (createAddrspace t a l) q := by
  rcases hq with rfl | rfl
  · apply OsPage.of_typed (k := .addrspace)
    · exact ⟨ha, by simp [createAddrspace, hne]⟩
    · exact ⟨ha, by simp [createAddrspace, hne]⟩
    · simp [createAddrspace, hne]
    · simp
    · intro _
      simp [createAddrspace, hne, State.addrspaceState, State.addrspaceRefcount,
        State.addrspaceL1pt, KOM_ADDRSPACE_REFCOUNT, KOM_ADDRSPACE_STATE, KOM_ADDRSPACE_L1PT_PAGE]
    · simp
  · apply OsPage.of_typed (k := .l1ptable)
    · exact ⟨hl, by simp [createAddrspace]⟩
    · exact ⟨hl, by simp [createAddrspace]⟩
    · simp [createAddrspace]
    · intro _ i hi
      simp [createAddrspace, State.pgtable, updateWhere, hi]
    · simp
    · simp

theorem createDispatcher_page (h : OsEquiv s t) (L : Layout) (e : Word) (ha : s.pageTyped a .addrspace)
    (hp : s.pageFree p) (hq : q = p ∨ q = a) :
    OsPage (createDispatcher L s p a e) (createDispatcher L t p a e) q := by
  have hne : a ≠ p := ne_of_pageTyped ha hp (by decide)
  rcases hq with rfl | rfl
  · apply OsPage.of_typed (k := .dispatcher)
    · exact ⟨hp.1, by simp [createDispatcher]⟩
    · exact ⟨hp.1, by simp [createDispatcher]⟩
    · simp [createDispatcher]
    · simp
    · simp
    · intro _
      simp [createDispatcher, State.dispatcherEntered, updateWhere,
        DispatcherField.entered.index_valid]
  · exact (h.grant_owner ha hne .dispatcher).congr (createDispatcher_samePage_owner L e hne)
      (createDispatcher_samePage_owner L e hne)

theorem createPtable_page (h : OsEquiv s t) (hs : OwnershipInvariants s) (L : Layout) {parent child : PageType}
    (hparent : parent = .l1ptable ∨ parent = .l2ptable ∨ parent = .l3ptable)
    (hchild : child ≠ .addrspace ∧ child ≠ .dispatcher) (hpt : s.pageTyped pt parent) (hp : s.pageFree p)
    (hq : q = p ∨ q = pt ∨ q = s.pagedbAddrspace pt) :
    OsPage (createPtable child L s p pt i) (createPtable child L t p pt i) q := by
  have hkind : parent ≠ .free ∧ parent ≠ .addrspace ∧ parent ≠ .dispatcher := by
    rcases hparent with rfl | rfl | rfl <;> decide
  have ha := hs.owner_addrspace (pageNonfree_of_pageTyped hpt hkind.1)
  have hptp : pt ≠ p := ne_of_pageTyped hpt hp hkind.1
  have hap : s.pagedbAddrspace pt ≠ p := ne_of_pageTyped ha hp (by decide)
  have hapt : s.pagedbAddrspace pt ≠ pt := ne_of_pageTyped ha hpt hkind.2.1.symm
  simp only [createPtable]
  rw [← h.owner hpt.1]
  rcases hq with rfl | rfl | rfl
  · apply OsPage.of_typed (k := child)
    · exact ⟨hp.1, by simp [linkTable, grantPage]⟩
    · exact ⟨hp.1, by simp [linkTable, grantPage]⟩
    · simp [linkTable, grantPage]
    · intro _ j hj
      simp [linkTable, grantPage, State.pgtable, updateWhere, hj, hptp.symm, hap.symm]
    · exact fun heq => absurd heq hchild.1
    · exact fun heq => absurd heq hchild.2
  · apply OsPage.of_typed (k := parent)
    · exact ⟨hpt.1, by simpa [linkTable, grantPage, hptp] using hpt.2⟩
    · exact ⟨hpt.1, by simpa [linkTable, grantPage, hptp] using ((h.pageTyped q parent).mp hpt).2⟩
    · simpa [linkTable, grantPage, hptp] using h.owner hpt.1
    · intro _ j hj
      have hcell := h.table hpt hparent hj
      simp only [State.pgtable, PgtableEntry.mk.injEq] at hcell
      by_cases hji : j = i
      · subst hji
        simp [linkTable, grantPage, State.pgtable, hptp, hcell]
      · simp [linkTable, grantPage, State.pgtable, hptp, hapt.symm, hji, hcell]
    · exact fun heq => absurd heq hkind.2.1
    · exact fun heq => absurd heq hkind.2.2
  · exact (h.grant_owner ha hap child).congr (linkTable_samePage L i hap hapt)
      (linkTable_samePage L i hap hapt)

/-- An entry of a leaf table. -/
theorem linkLeaf_page (h : OsPage s t pt) (hpt : s.pageTyped pt .l3ptable) (i pn pfn mapping : Word) (secure : Bool) :
    OsPage (linkLeaf s pt i pn pfn mapping secure) (linkLeaf t pt i pn pfn mapping secure) pt := by
  apply OsPage.of_typed (k := .l3ptable)
  · exact hpt
  · exact (h.pageTyped _).mp hpt
  · exact h.owner
  · intro _ j hj
    have hcell := h.table (.inr (.inr hpt)) j hj
    simp only [State.pgtable, PgtableEntry.mk.injEq] at hcell
    by_cases hji : j = i
    · subst hji
      simp [linkLeaf, State.pgtable]
    · simp [linkLeaf, State.pgtable, hji, hcell]
  · simp
  · simp

variable (h : OsEquiv s t)

include h

theorem addSecureMapping_page (hs : OwnershipInvariants s) (L : Layout) (m c : Word) (hpt : s.pageTyped pt .l3ptable)
    (hp : s.pageFree p) (hq : q = p ∨ q = pt ∨ q = s.pagedbAddrspace pt) :
    OsPage (addSecureMapping L s p pt i m c) (addSecureMapping L t p pt i m c) q := by
  have ha := hs.owner_addrspace (pageNonfree_of_pageTyped hpt (by decide))
  have hptp : pt ≠ p := ne_of_pageTyped hpt hp (by decide)
  have hap : s.pagedbAddrspace pt ≠ p := ne_of_pageTyped ha hp (by decide)
  have hapt : s.pagedbAddrspace pt ≠ pt := ne_of_pageTyped ha hpt (by decide)
  simp only [addSecureMapping]
  rw [← h.owner hpt.1]
  rcases hq with rfl | rfl | rfl
  · apply OsPage.of_typed (k := .data)
    · exact ⟨hp.1, by simp [copyContent, linkLeaf, grantPage]⟩
    · exact ⟨hp.1, by simp [copyContent, linkLeaf, grantPage]⟩
    · simp [copyContent, linkLeaf, grantPage]
    · simp
    · simp
    · simp
  · have hsame : ∀ u : State, SamePage u (grantPage u p (s.pagedbAddrspace q) .data) q :=
      fun u => grantPage_samePage .data hptp hapt.symm
    have hgrant := (h.page q hpt.1).congr (hsame s) (hsame t)
    exact (linkLeaf_page hgrant (((hsame s).pageTyped _).mp hpt) i p (L.pageToPfn p) m true).congr
      (copyContent_samePage c hptp) (copyContent_samePage c hptp)
  · have hsame : ∀ u : State,
        SamePage u (copyContent (linkLeaf u pt i p (L.pageToPfn p) m true) p c)
          (s.pagedbAddrspace pt) :=
      fun u => (linkLeaf_samePage i p _ m true hapt).trans (copyContent_samePage c hap)
    exact (h.grant_owner ha hap .data).congr (hsame _) (hsame _)

theorem releasePage_page (hs : OwnershipInvariants s) (hp : s.pageNonfree p) (hq : q = p ∨ q = s.pagedbAddrspace p) :
    OsPage (releasePage s p) (releasePage t p) q := by
  by_cases hqp : q = p
  · subst hqp
    apply OsPage.of_typed (k := .free)
    · exact ⟨hp.1, by simp [releasePage]⟩
    · exact ⟨hp.1, by simp [releasePage]⟩
    · simp [releasePage]
    · simp
    · simp
    · simp
  · have hqa : q = s.pagedbAddrspace p := hq.resolve_left hqp
    have ha : s.pageTyped q .addrspace := hqa ▸ hs.owner_addrspace hp
    have hview := (h.page q ha.1).addrspace ha
    have hqt : q = t.pagedbAddrspace p := hqa.trans (h.owner hp.1)
    apply OsPage.of_typed (k := .addrspace)
    · exact ⟨ha.1, by simpa [releasePage, hqp] using ha.2⟩
    · exact ⟨ha.1, by simpa [releasePage, hqp] using ((h.pageTyped q _).mp ha).2⟩
    · simpa [releasePage, hqp] using h.owner ha.1
    · simp
    · intro _
      simp only [State.addrspaceState, State.addrspaceRefcount, State.addrspaceL1pt] at hview ⊢
      simpa [releasePage, ← hqa, ← hqt, KOM_ADDRSPACE_REFCOUNT, KOM_ADDRSPACE_STATE,
        KOM_ADDRSPACE_L1PT_PAGE] using hview
    · simp

theorem setAddrspaceState_page (ha : s.pageTyped a .addrspace) (st : AddrspaceState) :
    OsPage (setAddrspaceState s a st) (setAddrspaceState t a st) a := by
  have hview := (h.page a ha.1).addrspace ha
  apply OsPage.of_typed (k := .addrspace)
  · exact ha
  · exact (h.pageTyped a _).mp ha
  · exact h.owner ha.1
  · simp
  · intro _
    simp only [State.addrspaceState, State.addrspaceRefcount, State.addrspaceL1pt] at hview ⊢
    simpa [setAddrspaceState, KOM_ADDRSPACE_REFCOUNT, KOM_ADDRSPACE_STATE, KOM_ADDRSPACE_L1PT_PAGE]
      using hview.2
  · simp

/-- The operating system sees of a dispatcher page only whether it has been entered. -/
theorem setDispatcher_page {d : Word} (hd : s.pageTyped d .dispatcher) {w w' : Word → Word}
    (hw : w DispatcherField.entered.index = w' DispatcherField.entered.index) :
    OsPage (s.setPage d w) (t.setPage d w') d := by
  apply OsPage.of_typed (k := .dispatcher)
  · exact hd
  · exact (h.pageTyped d _).mp hd
  · exact h.owner hd.1
  · simp
  · simp
  · intro _
    simpa [State.dispatcherEntered, State.setPage] using hw

/-- The operating system knows which pages its call touches. -/
theorem touches (hcheck : call.check s = none) : call.touches s = call.touches t := by
  cases call with
  | initL2ptable p pt i | initL3ptable p pt i =>
      rcases checkInitPtable_eq_none.mp hcheck with ⟨_, hpt, _⟩
      simp only [Smc.touches, h.owner hpt.1]
  | mapSecure p pt i m c =>
      rcases checkMapSecure_eq_none.mp hcheck with ⟨_, _, hpt, _⟩
      simp only [Smc.touches, h.owner hpt.1]
  | remove p =>
      rcases checkRemove_eq_none.mp hcheck with ⟨_, hp, _⟩
      simp only [Smc.touches, h.owner hp]
  | _ => rfl

/-- The pages a call touches look alike after it. -/
theorem effect_page (hs : OwnershipInvariants s) (L : Layout) (hcheck : call.check s = none) (hq : q ∈ call.touches s) :
    OsPage (call.effect L s) (call.effect L t) q := by
  have hreturn : ∀ {u v : State} (r : Word), OsPage u v q → OsPage (setReturn u r) (setReturn v r) q :=
    fun _ hpage => ⟨hpage.1, hpage.2, hpage.3, hpage.4, hpage.5⟩
  cases call with
  | query => cases hq
  | getPhysPages => cases hq
  | initAddrspace a l =>
      rcases checkInitAddrspace_eq_none.mp hcheck with ⟨hne, ha, hl⟩
      exact hreturn _ (createAddrspace_page hne ha.1 hl.1 (by simpa [Smc.touches] using hq))
  | initDispatcher p a e =>
      rcases checkInitDispatcher_eq_none.mp hcheck with ⟨ha, hp, _⟩
      exact hreturn _ (h.createDispatcher_page L e ha hp (by simpa [Smc.touches] using hq))
  | initL2ptable p pt i =>
      rcases checkInitPtable_eq_none.mp hcheck with ⟨_, hpt, _, hp, _⟩
      exact hreturn _ (h.createPtable_page hs L (.inl rfl) ⟨by decide, by decide⟩ hpt hp
        (by simpa [Smc.touches] using hq))
  | initL3ptable p pt i =>
      rcases checkInitPtable_eq_none.mp hcheck with ⟨_, hpt, _, hp, _⟩
      exact hreturn _ (h.createPtable_page hs L (.inr (.inl rfl)) ⟨by decide, by decide⟩ hpt hp
        (by simpa [Smc.touches] using hq))
  | mapSecure p pt i m c =>
      rcases checkMapSecure_eq_none.mp hcheck with ⟨_, _, hpt, _, hp, _⟩
      exact hreturn _ (h.addSecureMapping_page hs L m c hpt hp (by simpa [Smc.touches] using hq))
  | mapInsecure pt i m n =>
      rcases checkMapInsecure_eq_none.mp hcheck with ⟨_, _, hpt, _⟩
      rw [List.mem_singleton.mp hq]
      exact (linkLeaf_page (h.page pt hpt.1) hpt i n (L.insecurePageToPfn n) m false).congr
        ⟨rfl, rfl, rfl, rfl⟩ ⟨rfl, rfl, rfl, rfl⟩
  | remove p =>
      rcases checkRemove_eq_none.mp hcheck with ⟨_, hp, hfree, _⟩
      exact hreturn _ (h.releasePage_page hs (pageNonfree_iff.mpr ⟨hp, hfree⟩)
        (by simpa [Smc.touches] using hq))
  | finalise a =>
      rcases checkFinalise_eq_none.mp hcheck with ⟨ha, _⟩
      rw [List.mem_singleton.mp hq]
      exact (h.setAddrspaceState_page ha .final).congr ⟨rfl, rfl, rfl, rfl⟩ ⟨rfl, rfl, rfl, rfl⟩
  | stop a =>
      have ha := checkStop_eq_none.mp hcheck
      rw [List.mem_singleton.mp hq]
      exact (h.setAddrspaceState_page ha .stopped).congr ⟨rfl, rfl, rfl, rfl⟩ ⟨rfl, rfl, rfl, rfl⟩
  | enter d a0 a1 a2 =>
      rcases checkEnter_eq_none.mp hcheck with ⟨hd, _⟩
      rw [List.mem_singleton.mp hq]
      have hentered : withArgs (s.pages d) a0 a1 a2 DispatcherField.entered.index
          = withArgs (t.pages d) a0 a1 a2 DispatcherField.entered.index := by
        simpa [withArgs, State.dispatcherEntered] using (h.page d hd.1).dispatcher hd
      have hpage := h.setDispatcher_page hd hentered
      rw [← setDispatcherArgs_eq, ← setDispatcherArgs_eq] at hpage
      exact hpage.congr ⟨rfl, rfl, rfl, rfl⟩ ⟨rfl, rfl, rfl, rfl⟩
  | resume d => cases hq

/-- The effect of a call shows alike. -/
theorem effect (hs : OwnershipInvariants s) (hmode : s.enclaveMode = false) (L : Layout) (hcheck : call.check s = none) :
    OsEquiv (call.effect L s) (call.effect L t) := by
  have hpage : ∀ q, pageValid q → OsPage (call.effect L s) (call.effect L t) q := by
    intro q hvalid
    by_cases hq : q ∈ call.touches s
    · exact h.effect_page hs L hcheck hq
    · have hq' : q ∉ call.touches t := h.touches hcheck ▸ hq
      exact (h.page q hvalid).congr (effect_samePage L hq) (effect_samePage L hq')
  have hregs := h.regs hmode
  cases call with
  | enter d a0 a1 a2 =>
      rcases checkEnter_eq_none.mp hcheck with ⟨hd, _⟩
      exact ⟨h.insecure, rfl, h.owner hd.1, rfl, hregs, fun hfalse => absurd hfalse.symm Bool.false_ne_true,
        hpage⟩
  | resume d =>
      rcases checkResume_eq_none.mp hcheck with ⟨hd, _⟩
      exact ⟨h.insecure, rfl, h.owner hd.1, rfl, hregs, fun hfalse => absurd hfalse.symm Bool.false_ne_true,
        hpage⟩
  | query =>
      exact ⟨h.insecure, h.currentDispatcher, h.currentAddrspace, h.mode, h.host,
        fun _ => congrArg (fun r : Regs => r.setGpr .a0 KOM_MAGIC) hregs, hpage⟩
  | getPhysPages =>
      exact ⟨h.insecure, h.currentDispatcher, h.currentAddrspace, h.mode, h.host,
        fun _ => congrArg (fun r : Regs => r.setGpr .a0 KOM_SECURE_NPAGES) hregs, hpage⟩
  | _ =>
      exact ⟨h.insecure, h.currentDispatcher, h.currentAddrspace, h.mode, h.host,
        fun _ => congrArg (fun r : Regs => r.setGpr .a0 KomErr.success.val) hregs, hpage⟩

end OsEquiv

/-! ## The pages of an enclave -/

/-- The address space of the running enclave is final. -/
theorem OwnershipInvariants.current_valid (hs : OwnershipInvariants s) (hmode : s.enclaveMode = true) :
    encValid s.currentAddrspace s := by
  rcases hs.enclave hmode with ⟨hd, hfinal, hcur⟩
  rw [hcur]
  exact ⟨hs.owner_addrspace (pageNonfree_of_pageTyped hd (by decide)), hfinal⟩

theorem pageOwned_iff {obs : Word} : pageOwned obs s p ↔ s.ownerOf p = some obs := by
  rw [ownerOf_eq_some, pageNonfree_iff, pageOwned]
  tauto

namespace EncPages

variable {obs : Word} {s t : State}

/-- When all pages of the enclave are the same, it sees no difference. -/
theorem of_same (hs : OwnershipInvariants s) (ht : OwnershipInvariants t)
    (hforth : ∀ q, encValid obs s → s.ownerOf q = some obs → SamePage s t q)
    (hback : ∀ q, encValid obs t → t.ownerOf q = some obs → SamePage s t q) :
    EncPages obs s t := by
  have hvalid : encValid obs s ↔ encValid obs t := by
    constructor
    · intro hv
      have hsame := hforth obs hv ((hs.addrspace obs).mp hv.1)
      exact ⟨(hsame.pageTyped _).mp hv.1, (hsame.addrspaceIn _).mp hv.2⟩
    · intro hv
      have hsame := hback obs hv ((ht.addrspace obs).mp hv.1)
      exact ⟨(hsame.pageTyped _).mpr hv.1, (hsame.addrspaceIn _).mpr hv.2⟩
  have hpage : encValid obs s → ∀ p, pageOwned obs s p → SamePage s t p :=
    fun hv p hp => hforth p hv (pageOwned_iff.mp hp)
  refine ⟨hvalid, ?_, fun hv p hp => (hpage hv p hp).type,
    fun hv p i hp _ => congrFun (hpage hv p hp).words i,
    fun hv p i hp _ => congrFun (hpage hv p hp).pgtable i⟩
  intro hv p _
  rw [pageOwned_iff, pageOwned_iff]
  constructor
  · intro hp
    exact (hforth p hv hp).ownerOf ▸ hp
  · intro hp
    exact (hback p (hvalid.mp hv) hp).ownerOf ▸ hp

/-- Components of the state that are not about pages do not matter. -/
theorem congr {s' t' : State} (h : EncPages obs s t) (hs : ∀ q, SamePage s s' q)
    (ht : ∀ q, SamePage t t' q) : EncPages obs s' t' := by
  have hvalid : ∀ {u u' : State}, (∀ q, SamePage u u' q) → (encValid obs u' ↔ encValid obs u) :=
    fun hsame => and_congr ((hsame obs).pageTyped _).symm ((hsame obs).addrspaceIn _).symm
  have howned : ∀ {u u' : State}, (∀ q, SamePage u u' q) →
      ∀ p, pageOwned obs u' p ↔ pageOwned obs u p :=
    fun hsame p => by rw [pageOwned_iff, pageOwned_iff, (hsame p).ownerOf]
  constructor
  · rw [hvalid hs, hvalid ht]
    exact h.valid
  · intro hv p hp
    rw [howned hs, howned ht]
    exact h.owned ((hvalid hs).mp hv) p hp
  · intro hv p hp
    rw [← (hs p).type, ← (ht p).type]
    exact h.type ((hvalid hs).mp hv) p ((howned hs p).mp hp)
  · intro hv p i hp hi
    rw [← (hs p).words, ← (ht p).words]
    exact h.words ((hvalid hs).mp hv) p i ((howned hs p).mp hp) hi
  · intro hv p i hp hi
    rw [← (hs p).pgtable, ← (ht p).pgtable]
    exact h.pgtable ((hvalid hs).mp hv) p i ((howned hs p).mp hp) hi

/-- The words of a page that is no address space are replaced. -/
theorem setPage (h : EncPages obs s t) {w w' : Word → Word} {ty : PageType} (hs : s.pageTyped p ty)
    (ht : t.pageTyped p ty) (hty : ty ≠ .addrspace)
    (hw : encValid obs s → pageOwned obs s p → ∀ i, pageIndexValid i → w i = w' i) :
    EncPages obs (s.setPage p w) (t.setPage p w') := by
  have hvalid : ∀ {u : State} (x : Word → Word), u.pageTyped p ty →
      (encValid obs (u.setPage p x) ↔ encValid obs u) := by
    intro u x hu
    refine and_congr_right fun hobs => ?_
    have hne : obs ≠ p := ne_of_pageTyped hobs hu hty.symm
    simp [State.addrspaceIn, State.addrspaceState, State.setPage, hne]
  refine ⟨?_, fun hv q hq => h.owned ((hvalid w hs).mp hv) q hq,
    fun hv q hq => h.type ((hvalid w hs).mp hv) q hq, ?_,
    fun hv q i hq hi => h.pgtable ((hvalid w hs).mp hv) q i hq hi⟩
  · rw [hvalid w hs, hvalid w' ht]
    exact h.valid
  · intro hv q i hq hi
    have hv' := (hvalid w hs).mp hv
    by_cases hqp : q = p
    · subst hqp
      simpa [State.setPage] using hw hv' hq i hi
    · simpa [State.setPage, hqp] using h.words hv' q i hq hi

end EncPages

end Komodo
end Serval
