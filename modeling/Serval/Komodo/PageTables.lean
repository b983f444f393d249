import Serval.Komodo.Footprint

/-!
# PageTables — the page tables of live address spaces

What the words of page-table pages, address spaces and dispatchers say about each other, without the
ghost maps.  The invariant is about address spaces that are not stopped: pages of a stopped address
space are removed one by one, in any order, and entries that point to them are never cleared.  Since an
address space is only removed when it owns nothing else, a new address space starts without entries.
-/

namespace Serval
namespace Komodo

open Riscv

variable {p a q pt i : Word} {s s' : State} {L : Layout}

/-! ## The invariant -/

/-- An address space that has not been stopped. -/
def State.live (s : State) (a : Word) : Prop :=
  s.pageTyped a .addrspace ∧ ¬ s.addrspaceIn a .stopped

/-- What a non-zero entry of a page table of type `t` means in the address space `a`. -/
def TableEntry (L : Layout) (s : State) (a : Word) (t : PageType) (e : Word) : Prop :=
  match t with
  | .l1ptable => ∃ q, s.pageTyped q .l2ptable ∧ s.pagedbAddrspace q = a ∧
      e = pfnToPte (L.pageToPfn q) PAGE_TABLE
  | .l2ptable => ∃ q, s.pageTyped q .l3ptable ∧ s.pagedbAddrspace q = a ∧
      e = pfnToPte (L.pageToPfn q) PAGE_TABLE
  | .l3ptable =>
      (∃ q m, s.pageTyped q .data ∧ s.pagedbAddrspace q = a ∧
        e = pfnToPte (L.pageToPfn q) (enclaveProt m)) ∨
      ∃ n m, insecurePageValid n ∧ e = pfnToPte (L.insecurePageToPfn n) (enclaveProt m)
  | _ => True

/-- `satp` for the page tables of an address space. -/
def State.satpOf (L : Layout) (s : State) (a : Word) : Word :=
  SATP_MODE_SV39 ||| L.pageToPfn (s.addrspaceL1pt a)

/-- The words of a page of a live address space. -/
structure PageOk (L : Layout) (s : State) (p : Word) : Prop where
  root : s.pageTyped p .addrspace →
    s.pageTyped (s.addrspaceL1pt p) .l1ptable ∧ s.pagedbAddrspace (s.addrspaceL1pt p) = p
  entries : ∀ t i, s.pageTyped p t → pageIndexValid i →
    t = .l1ptable ∨ t = .l2ptable ∨ t = .l3ptable →
    s.pages p i = 0 ∨ TableEntry L s (s.pagedbAddrspace p) t (s.pages p i)
  satp : s.pageTyped p .dispatcher →
    s.pages p (DispatcherField.csr .satp).index = s.satpOf L (s.pagedbAddrspace p)

structure PgtableInvariants (L : Layout) (s : State) : Prop where
  page : ∀ p, s.pageNonfree p → s.live (s.pagedbAddrspace p) → PageOk L s p
  running : s.enclaveMode = true → s.regs.csr .satp = s.satpOf L s.currentAddrspace

/-! ## Pages that stay -/

/-- Everything an address space owns keeps its type and owner, and its root table stays. -/
structure Keeps (s s' : State) (a : Word) : Prop where
  page : ∀ {q : Word} {t : PageType}, s.pageTyped q t → t ≠ .free → s.pagedbAddrspace q = a →
    s'.pageTyped q t ∧ s'.pagedbAddrspace q = a
  root : s'.addrspaceL1pt a = s.addrspaceL1pt a

theorem TableEntry.mono {t : PageType} {e : Word} (h : TableEntry L s a t e) (hkeep : Keeps s s' a) :
    TableEntry L s' a t e := by
  cases t with
  | l1ptable | l2ptable =>
      rcases h with ⟨q, hq, howner, heq⟩
      rcases hkeep.page hq (by decide) howner with ⟨hq', howner'⟩
      exact ⟨q, hq', howner', heq⟩
  | l3ptable =>
      rcases h with ⟨q, m, hq, howner, heq⟩ | hinsecure
      · rcases hkeep.page hq (by decide) howner with ⟨hq', howner'⟩
        exact .inl ⟨q, m, hq', howner', heq⟩
      · exact .inr hinsecure
  | free | addrspace | dispatcher | data => trivial

/-- A page that does not change stays as it should be, as long as its address space keeps its pages. -/
theorem PageOk.of_same (h : PageOk L s p) (hsame : SamePage s s' p) (hkeep : Keeps s s' (s.pagedbAddrspace p))
    (hself : s.pageTyped p .addrspace → s.pagedbAddrspace p = p) : PageOk L s' p := by
  constructor
  · intro hp
    have hp' := (hsame.pageTyped _).mpr hp
    rcases h.root hp' with ⟨hroot, howner⟩
    rw [hself hp'] at hkeep
    rw [hkeep.root]
    exact hkeep.page hroot (by decide) howner
  · intro t i hp hi ht
    rw [← hsame.words, ← hsame.owner]
    rcases h.entries t i ((hsame.pageTyped t).mpr hp) hi ht with hzero | hentry
    · exact .inl hzero
    · exact .inr (hentry.mono hkeep)
  · intro hp
    rw [← hsame.words, ← hsame.owner, h.satp ((hsame.pageTyped _).mpr hp), State.satpOf,
      State.satpOf, hkeep.root]

/-- What has to be shown of a page depends on its type. -/
theorem PageOk.of_typed {t : PageType} (hp : s.pageTyped p t)
    (hroot : t = .addrspace → s.pageTyped (s.addrspaceL1pt p) .l1ptable ∧ s.pagedbAddrspace (s.addrspaceL1pt p) = p)
    (hentries : t = .l1ptable ∨ t = .l2ptable ∨ t = .l3ptable → ∀ i, pageIndexValid i →
      s.pages p i = 0 ∨ TableEntry L s (s.pagedbAddrspace p) t (s.pages p i))
    (hsatp : t = .dispatcher →
      s.pages p (DispatcherField.csr .satp).index = s.satpOf L (s.pagedbAddrspace p)) : PageOk L s p := by
  refine ⟨fun ha => hroot (pageTyped_unique hp ha), ?_, fun hd => hsatp (pageTyped_unique hp hd)⟩
  intro t' i hp' hi ht
  cases pageTyped_unique hp hp'
  exact hentries ht i hi

/-- An address space that keeps its pages keeps its root. -/
theorem PageOk.of_addrspace (h : PageOk L s a) (ha : s.pageTyped a .addrspace) (ha' : s'.pageTyped a .addrspace)
    (hkeep : Keeps s s' a) : PageOk L s' a := by
  refine .of_typed ha' (fun _ => ?_) (by simp) (by simp)
  rcases h.root ha with ⟨hroot, howner⟩
  rw [hkeep.root]
  exact hkeep.page hroot (by decide) howner

/-- A page table all of whose entries are fine. -/
theorem PageOk.of_table {t : PageType} (hp : s.pageTyped p t) (ht : t ≠ .addrspace ∧ t ≠ .dispatcher)
    (hentries : ∀ i, pageIndexValid i → s.pages p i = 0 ∨ TableEntry L s (s.pagedbAddrspace p) t (s.pages p i)) :
    PageOk L s p :=
  .of_typed hp (fun ha => absurd ha ht.1) (fun _ => hentries) (fun hd => absurd hd ht.2)

theorem PageOk.of_dispatcher {d : Word} (hd : s.pageTyped d .dispatcher)
    (hsatp : s.pages d (DispatcherField.csr .satp).index = s.satpOf L (s.pagedbAddrspace d)) : PageOk L s d :=
  .of_typed hd (by simp) (by simp) (fun _ => hsatp)

/-- A page without a word that matters. -/
theorem PageOk.of_data (hp : s.pageTyped p .data) : PageOk L s p :=
  .of_typed hp (by simp) (by simp) (by simp)

theorem PageOk.setReturn (h : PageOk L s p) (v : Word) : PageOk L (setReturn s v) p :=
  ⟨h.root, h.entries, h.satp⟩

/-! ## What calls do to address spaces that exist -/

section Effects

variable {L : Layout} {s : State} {call : Smc}

/-- Giving away a page changes the count of an address space only. -/
theorem grantPage_word {b : Word} (t : PageType) (hap : a ≠ p) (hi : i ≠ KOM_ADDRSPACE_REFCOUNT) :
    (grantPage s p b t).pages a i = s.pages a i := by
  by_cases hab : a = b
  · subst hab
    simp [grantPage, hap, hi]
  · simp [grantPage, hap, hab]

/-- Of the words of an address space a call changes the count, and the state if it is there for
that. -/
theorem effect_word (hcheck : call.check s = none) (ha : s.pageTyped a .addrspace)
    (hcount : i ≠ KOM_ADDRSPACE_REFCOUNT) (hstate : call.setsState = false ∨ i ≠ KOM_ADDRSPACE_STATE) :
    (call.effect L s).pages a i = s.pages a i := by
  cases call with
  | query => rfl
  | getPhysPages => rfl
  | initAddrspace b l =>
      rcases checkInitAddrspace_eq_none.mp hcheck with ⟨_, hb, hl⟩
      have hab : a ≠ b := ne_of_pageTyped ha hb (by decide)
      have hal : a ≠ l := ne_of_pageTyped ha hl (by decide)
      simp [Smc.effect, setReturn, createAddrspace, hab, hal]
  | initDispatcher p b e =>
      rcases checkInitDispatcher_eq_none.mp hcheck with ⟨hb, hp, _⟩
      have hap : a ≠ p := ne_of_pageTyped ha hp (by decide)
      by_cases hab : a = b
      · subst hab
        simp [Smc.effect, setReturn, createDispatcher, hap, hcount]
      · simp [Smc.effect, setReturn, createDispatcher, hap, hab]
  | initL2ptable p pt j | initL3ptable p pt j =>
      rcases checkInitPtable_eq_none.mp hcheck with ⟨_, hpt, _, hp, _⟩
      have hap : a ≠ p := ne_of_pageTyped ha hp (by decide)
      have hapt : a ≠ pt := ne_of_pageTyped ha hpt (by decide)
      simp [Smc.effect, setReturn, createPtable, linkTable, hapt, grantPage_word _ hap hcount]
  | mapSecure p pt j m c =>
      rcases checkMapSecure_eq_none.mp hcheck with ⟨_, _, hpt, _, hp, _⟩
      have hap : a ≠ p := ne_of_pageTyped ha hp (by decide)
      have hapt : a ≠ pt := ne_of_pageTyped ha hpt (by decide)
      simp [Smc.effect, setReturn, addSecureMapping, linkLeaf, copyContent, hap, hapt,
        grantPage_word _ hap hcount]
  | mapInsecure pt j m n =>
      rcases checkMapInsecure_eq_none.mp hcheck with ⟨_, _, hpt, _⟩
      have hapt : a ≠ pt := ne_of_pageTyped ha hpt (by decide)
      simp [Smc.effect, setReturn, addInsecureMapping, linkLeaf, hapt]
  | remove p =>
      by_cases hap : a = s.pagedbAddrspace p
      · subst hap
        simp [Smc.effect, setReturn, releasePage, hcount]
      · simp [Smc.effect, setReturn, releasePage, hap]
  | finalise b | stop b =>
      have hi : i ≠ KOM_ADDRSPACE_STATE := hstate.resolve_left (by simp [Smc.setsState])
      by_cases hab : a = b
      · subst hab
        simp [Smc.effect, setReturn, setAddrspaceState, hi]
      · simp [Smc.effect, setReturn, setAddrspaceState, hab]
  | enter d a0 a1 a2 =>
      rcases checkEnter_eq_none.mp hcheck with ⟨hd, _⟩
      have had : a ≠ d := ne_of_pageTyped ha hd (by decide)
      simp [Smc.effect, specEnterSecureWorld, setDispatcherArgs, had]
  | resume d => rfl

/-- Only `kom_smc_remove` takes a page away. -/
theorem effect_pageTyped (hcheck : call.check s = none) {t : PageType} (hq : s.pageTyped q t) (ht : t ≠ .free)
    (hremove : ∀ p, call = .remove p → q ≠ p) :
    (call.effect L s).pageTyped q t ∧ (call.effect L s).pagedbAddrspace q = s.pagedbAddrspace q := by
  cases call with
  | initAddrspace b l =>
      rcases checkInitAddrspace_eq_none.mp hcheck with ⟨_, hb, hl⟩
      have hqb : q ≠ b := ne_of_pageTyped hq hb ht
      have hql : q ≠ l := ne_of_pageTyped hq hl ht
      refine ⟨⟨hq.1, ?_⟩, ?_⟩
      · simpa [Smc.effect, setReturn, createAddrspace, hqb, hql] using hq.2
      · simp [Smc.effect, setReturn, createAddrspace, hqb, hql]
  | initDispatcher p b e =>
      rcases checkInitDispatcher_eq_none.mp hcheck with ⟨_, hp, _⟩
      have hqp : q ≠ p := ne_of_pageTyped hq hp ht
      exact ⟨(retype_pageTyped_of_ne b hqp).mpr hq, Function.update_of_ne hqp _ _⟩
  | initL2ptable p pt j | initL3ptable p pt j =>
      rcases checkInitPtable_eq_none.mp hcheck with ⟨_, _, _, hp, _⟩
      have hqp : q ≠ p := ne_of_pageTyped hq hp ht
      exact ⟨(retype_pageTyped_of_ne (s.pagedbAddrspace pt) hqp).mpr hq, Function.update_of_ne hqp _ _⟩
  | mapSecure p pt j m c =>
      rcases checkMapSecure_eq_none.mp hcheck with ⟨_, _, _, _, hp, _⟩
      have hqp : q ≠ p := ne_of_pageTyped hq hp ht
      exact ⟨(retype_pageTyped_of_ne (s.pagedbAddrspace pt) hqp).mpr hq, Function.update_of_ne hqp _ _⟩
  | remove p =>
      have hqp : q ≠ p := hremove p rfl
      exact ⟨(untype_pageTyped_of_ne hqp).mpr hq, Function.update_of_ne hqp _ _⟩
  | _ => exact ⟨hq, rfl⟩

/-- An address space that is live after a call was live before it and keeps its pages. -/
theorem effect_keeps (hs : OwnershipInvariants s) (hcheck : call.check s = none) (ha : s.pageTyped a .addrspace)
    (hlive : (call.effect L s).live a) :
    s.live a ∧ Keeps s (call.effect L s) a := by
  have hlive' : ¬ s.addrspaceIn a .stopped := by
    intro hstopped
    cases hset : call.setsState with
    | false =>
        have hword := effect_word (L := L) hcheck ha (by decide) (.inl hset)
          (i := KOM_ADDRSPACE_STATE)
        exact hlive.2 (hword.trans hstopped)
    | true =>
        cases call with
        | finalise b =>
            rcases checkFinalise_eq_none.mp hcheck with ⟨_, hinit⟩
            by_cases hab : a = b
            · subst hab
              cases addrspaceIn_unique hinit hstopped
            · have hsame : SamePage s (Smc.effect L s (.finalise b)) a :=
                effect_samePage L (by simpa [Smc.touches] using hab)
              exact hlive.2 ((hsame.addrspaceIn _).mp hstopped)
        | stop b =>
            by_cases hab : a = b
            · subst hab
              apply hlive.2
              simp [Smc.effect, setReturn, setAddrspaceState, State.addrspaceIn,
                State.addrspaceState]
            · have hsame : SamePage s (Smc.effect L s (.stop b)) a :=
                effect_samePage L (by simpa [Smc.touches] using hab)
              exact hlive.2 ((hsame.addrspaceIn _).mp hstopped)
        | _ => cases hset
  refine ⟨⟨ha, hlive'⟩, ?_, ?_⟩
  · intro q t hq ht howner
    rw [← howner]
    apply effect_pageTyped hcheck hq ht
    rintro p rfl rfl
    -- a removed page belongs to a stopped address space
    exact hlive' (howner ▸ (hs.remove_stopped hcheck).2)
  · exact effect_word hcheck ha (by decide) (.inr (by decide))

/-! ## New pages and entries -/

theorem createAddrspace_pageOk {l : Word} (hne : a ≠ l) (ha : s.pageFree a) (hl : s.pageFree l) (hp : p = a ∨ p = l) :
    PageOk L (createAddrspace s a l) p := by
  have hl' : (createAddrspace s a l).pageTyped l .l1ptable := ⟨hl.1, by simp [createAddrspace]⟩
  have ha' : (createAddrspace s a l).pageTyped a .addrspace := ⟨ha.1, by simp [createAddrspace, hne]⟩
  have hroot : (createAddrspace s a l).addrspaceL1pt a = l := by
    simp [createAddrspace, hne, State.addrspaceL1pt, KOM_ADDRSPACE_REFCOUNT, KOM_ADDRSPACE_STATE,
      KOM_ADDRSPACE_L1PT_PAGE]
  rcases hp with rfl | rfl
  · refine .of_typed ha' (fun _ => ?_) (by simp) (by simp)
    rw [hroot]
    exact ⟨hl', by simp [createAddrspace]⟩
  · apply PageOk.of_table hl' ⟨by decide, by decide⟩
    intro i hi
    left
    simp [createAddrspace, updateWhere, hi]

theorem createDispatcher_pageOk {e : Word} (ha : s.pageTyped a .addrspace) (hp : s.pageFree p)
    (hkeep : Keeps s (createDispatcher L s p a e) a) : PageOk L (createDispatcher L s p a e) p := by
  have hne : a ≠ p := ne_of_pageTyped ha hp (by decide)
  have howner : (createDispatcher L s p a e).pagedbAddrspace p = a := Function.update_self _ _ _
  apply PageOk.of_dispatcher ⟨hp.1, by simp [createDispatcher]⟩
  rw [howner, State.satpOf, hkeep.root]
  simp [createDispatcher, State.addrspaceL1pt, hne, KOM_ADDRSPACE_REFCOUNT, KOM_ADDRSPACE_L1PT_PAGE]

/-- The pages that become part of a page table, or get an entry. -/
theorem createPtable_pageOk (h : PageOk L s pt) {parent child : PageType} (hpt : s.pageTyped pt parent)
    (hp : s.pageFree p) (hlevel : parent = .l1ptable ∧ child = .l2ptable ∨ parent = .l2ptable ∧ child = .l3ptable)
    (howner : s.pageTyped (s.pagedbAddrspace pt) .addrspace)
    (hkeep : Keeps s (createPtable child L s p pt i) (s.pagedbAddrspace pt)) (hq : q = p ∨ q = pt) :
    PageOk L (createPtable child L s p pt i) q := by
  have hkind : parent ≠ .free ∧ parent ≠ .addrspace ∧ parent ≠ .dispatcher := by
    rcases hlevel with ⟨rfl, _⟩ | ⟨rfl, _⟩ <;> decide
  have hchild : child ≠ .addrspace ∧ child ≠ .dispatcher := by
    rcases hlevel with ⟨_, rfl⟩ | ⟨_, rfl⟩ <;> decide
  have hptp : pt ≠ p := ne_of_pageTyped hpt hp hkind.1
  have hap : s.pagedbAddrspace pt ≠ p := ne_of_pageTyped howner hp (by decide)
  have hapt : s.pagedbAddrspace pt ≠ pt := ne_of_pageTyped howner hpt hkind.2.1.symm
  have hnew : (createPtable child L s p pt i).pageTyped p child ∧
      (createPtable child L s p pt i).pagedbAddrspace p = s.pagedbAddrspace pt :=
    ⟨⟨hp.1, by simp [createPtable, linkTable, grantPage]⟩,
      by simp [createPtable, linkTable, grantPage]⟩
  rcases hq with rfl | rfl
  · apply PageOk.of_table hnew.1 hchild
    intro j hj
    left
    simp [createPtable, linkTable, grantPage, updateWhere, hj, hptp.symm, hap.symm]
  · rcases hkeep.page hpt hkind.1 rfl with ⟨hpt', howner'⟩
    apply PageOk.of_table hpt' hkind.2
    intro j hj
    rw [howner']
    by_cases hji : j = i
    · -- the new entry
      right
      have hword : (createPtable child L s p q i).pages q j
          = pfnToPte (L.pageToPfn p) PAGE_TABLE := by
        simp [createPtable, linkTable, hji]
      rw [hword]
      rcases hlevel with ⟨rfl, rfl⟩ | ⟨rfl, rfl⟩
      · exact ⟨p, hnew.1, hnew.2, rfl⟩
      · exact ⟨p, hnew.1, hnew.2, rfl⟩
    · have hword : (createPtable child L s p q i).pages q j = s.pages q j := by
        simp [createPtable, linkTable, grantPage, hji, hptp, hapt.symm]
      rw [hword]
      have htable : parent = .l1ptable ∨ parent = .l2ptable ∨ parent = .l3ptable := by
        rcases hlevel with ⟨rfl, _⟩ | ⟨rfl, _⟩ <;> simp
      exact (h.entries parent j hpt hj htable).imp_right (fun hentry => hentry.mono hkeep)

/-- A leaf table with one more entry. -/
theorem leaf_pageOk {e : Word} (h : PageOk L s pt) (hpt : s.pageTyped pt .l3ptable)
    (hkeep : Keeps s s' (s.pagedbAddrspace pt)) (hwords : ∀ j, s'.pages pt j = Function.update (s.pages pt) i e j)
    (hentry : TableEntry L s' (s.pagedbAddrspace pt) .l3ptable e) : PageOk L s' pt := by
  rcases hkeep.page hpt (by decide) rfl with ⟨hpt', howner'⟩
  apply PageOk.of_table hpt' ⟨by decide, by decide⟩
  intro j hj
  rw [howner', hwords j]
  by_cases hji : j = i
  · subst hji
    rw [Function.update_self]
    exact .inr hentry
  · rw [Function.update_of_ne hji]
    exact (h.entries _ j hpt hj (.inr (.inr rfl))).imp_right (fun hold => hold.mono hkeep)

theorem addSecureMapping_pageOk {m c : Word} (h : PageOk L s pt) (hpt : s.pageTyped pt .l3ptable) (hp : s.pageFree p)
    (howner : s.pageTyped (s.pagedbAddrspace pt) .addrspace)
    (hkeep : Keeps s (addSecureMapping L s p pt i m c) (s.pagedbAddrspace pt)) (hq : q = p ∨ q = pt) :
    PageOk L (addSecureMapping L s p pt i m c) q := by
  have hptp : pt ≠ p := ne_of_pageTyped hpt hp (by decide)
  have hapt : s.pagedbAddrspace pt ≠ pt := ne_of_pageTyped howner hpt (by decide)
  have hdata : (addSecureMapping L s p pt i m c).pageTyped p .data ∧
      (addSecureMapping L s p pt i m c).pagedbAddrspace p = s.pagedbAddrspace pt :=
    ⟨(retype_pageTyped_self (s.pagedbAddrspace pt)).mpr ⟨hp.1, rfl⟩, Function.update_self _ _ _⟩
  rcases hq with rfl | rfl
  · exact PageOk.of_data hdata.1
  · apply leaf_pageOk h hpt hkeep (i := i)
    · intro j
      simp [addSecureMapping, linkLeaf, copyContent, grantPage, hptp, hapt.symm]
      rfl
    · exact .inl ⟨p, m, hdata.1, hdata.2, rfl⟩

theorem addInsecureMapping_pageOk {m n : Word} (h : PageOk L s pt) (hpt : s.pageTyped pt .l3ptable)
    (hn : insecurePageValid n) (hkeep : Keeps s (addInsecureMapping L s pt i m n) (s.pagedbAddrspace pt)) :
    PageOk L (addInsecureMapping L s pt i m n) pt := by
  apply leaf_pageOk h hpt hkeep (i := i)
  · intro j
    simp [addInsecureMapping, linkLeaf]
    rfl
  · exact .inr ⟨n, m, hn, rfl⟩

theorem enter_pageOk {d a0 a1 a2 : Word} (h : PageOk L s d) (hd : s.pageTyped d .dispatcher)
    (hkeep : Keeps s (Smc.effect L s (.enter d a0 a1 a2)) (s.pagedbAddrspace d)) :
    PageOk L (Smc.effect L s (.enter d a0 a1 a2)) d := by
  refine PageOk.of_dispatcher hd ?_
  have hword : (Smc.effect L s (.enter d a0 a1 a2)).pages d (DispatcherField.csr .satp).index
      = s.pages d (DispatcherField.csr .satp).index := by
    simp [Smc.effect, specEnterSecureWorld, setDispatcherArgs]
  rw [hword, h.satp hd, State.satpOf, State.satpOf, ← hkeep.root]
  rfl

/-- Of the pages that a new entry touches, only the owner is an address space. -/
theorem entry_touched (ha : s.pageTyped (s.pagedbAddrspace pt) .addrspace) (hold : ¬ s.pageTyped p .addrspace)
    (hp : p = q ∨ p = pt ∨ p = s.pagedbAddrspace pt) :
    p = q ∨ p = pt :=
  hp.imp_right (fun h => h.resolve_right (fun heq => hold (heq ▸ ha)))

theorem granted_owner {t : PageType} (hpt : s.pageTyped pt t) (hq : s.pageFree q) (ht : t ≠ .free)
    (hp : p = q ∨ p = pt) :
    Function.update s.pagedbAddrspace q (s.pagedbAddrspace pt) p = s.pagedbAddrspace pt := by
  rcases hp with rfl | rfl
  · exact Function.update_self _ _ _
  · exact Function.update_of_ne (ne_of_pageTyped hpt hq ht) _ _

end Effects

/-! ## Transitions -/

namespace PgtableInvariants

variable {L : Layout} {s : State}

section Reachable

variable (h : PgtableInvariants L s)

include h

section Owned

variable (hs : OwnershipInvariants s)

include hs

/-- The page tables of an address space that is being built. -/
theorem init_page {t : PageType} (hp : s.pageTyped p t) (ht : t ≠ .free)
    (hinit : s.addrspaceIn (s.pagedbAddrspace p) .init) : PageOk L s p := by
  have hnonfree := pageNonfree_of_pageTyped hp ht
  refine h.page p hnonfree ⟨hs.owner_addrspace hnonfree, fun hstopped => ?_⟩
  cases addrspaceIn_unique hinit hstopped

theorem ptable_touched {parent child : PageType}
    (hlevel : parent = .l1ptable ∧ child = .l2ptable ∨ parent = .l2ptable ∧ child = .l3ptable)
    (hcheck : checkInitPtable parent s q pt i = none) (htouch : p = q ∨ p = pt ∨ p = s.pagedbAddrspace pt)
    (hold : ¬ s.pageTyped p .addrspace)
    (hkeep : ∀ {a : Word}, s.pageTyped a .addrspace → (createPtable child L s q pt i).pagedbAddrspace p = a →
      Keeps s (createPtable child L s q pt i) a) : PageOk L (createPtable child L s q pt i) p := by
  have hparent : parent ≠ .free := by
    rcases hlevel with ⟨rfl, _⟩ | ⟨rfl, _⟩ <;> decide
  rcases checkInitPtable_eq_none.mp hcheck with ⟨_, hpt, _, hq, hinit⟩
  have ha := hs.owner_addrspace (pageNonfree_of_pageTyped hpt hparent)
  have hp : p = q ∨ p = pt := entry_touched ha hold htouch
  exact createPtable_pageOk (h.init_page hs hpt hparent hinit) hpt hq hlevel ha
    (hkeep ha (granted_owner hpt hq hparent hp)) hp

/-- The pages a call touches are fine after it, if they are not address spaces that existed before. -/
theorem touched_page {call : Smc} (hcheck : call.check s = none) (htouch : p ∈ call.touches s)
    (hold : ¬ s.pageTyped p .addrspace) (hp : (call.effect L s).pageNonfree p)
    (hlive : (call.effect L s).live ((call.effect L s).pagedbAddrspace p)) :
    PageOk L (call.effect L s) p := by
  have hkeep : ∀ {a : Word}, s.pageTyped a .addrspace → (call.effect L s).pagedbAddrspace p = a →
      Keeps s (call.effect L s) a := by
    rintro a ha rfl
    exact (effect_keeps hs hcheck ha hlive).2
  cases call with
  | query | getPhysPages | resume d => cases htouch
  | initAddrspace a l =>
      rcases checkInitAddrspace_eq_none.mp hcheck with ⟨hne, ha, hl⟩
      exact (createAddrspace_pageOk hne ha hl (by simpa [Smc.touches] using htouch)).setReturn _
  | initDispatcher q a e =>
      rcases checkInitDispatcher_eq_none.mp hcheck with ⟨ha, hq, _⟩
      have hpq : p = q := by
        simp only [Smc.touches, List.mem_cons, List.not_mem_nil, or_false] at htouch
        exact htouch.resolve_right (fun hpa => hold (hpa ▸ ha))
      subst hpq
      have hk := hkeep ha (Function.update_self _ _ _)
      exact (createDispatcher_pageOk ha hq ⟨hk.page, hk.root⟩).setReturn _
  | initL2ptable q pt i =>
      exact (h.ptable_touched hs (.inl ⟨rfl, rfl⟩) hcheck (by simpa [Smc.touches] using htouch) hold
        fun ha howner => ⟨(hkeep ha howner).page, (hkeep ha howner).root⟩).setReturn _
  | initL3ptable q pt i =>
      exact (h.ptable_touched hs (.inr ⟨rfl, rfl⟩) hcheck (by simpa [Smc.touches] using htouch) hold
        fun ha howner => ⟨(hkeep ha howner).page, (hkeep ha howner).root⟩).setReturn _
  | mapSecure q pt i m c =>
      rcases checkMapSecure_eq_none.mp hcheck with ⟨_, _, hpt, _, hq, hinit⟩
      have ha := hs.owner_addrspace (pageNonfree_of_pageTyped hpt (by decide))
      have hp' : p = q ∨ p = pt := entry_touched ha hold (by simpa [Smc.touches] using htouch)
      have hk := hkeep ha (granted_owner hpt hq (by decide) hp')
      exact (addSecureMapping_pageOk (h.init_page hs hpt (by decide) hinit) hpt hq ha ⟨hk.page, hk.root⟩ hp').setReturn _
  | mapInsecure pt i m n =>
      rcases checkMapInsecure_eq_none.mp hcheck with ⟨hn, _, hpt, _, hinit⟩
      obtain rfl : p = pt := List.mem_singleton.mp htouch
      have hk := hkeep (hs.owner_addrspace (pageNonfree_of_pageTyped hpt (by decide))) rfl
      exact (addInsecureMapping_pageOk (h.init_page hs hpt (by decide) hinit) hpt hn ⟨hk.page, hk.root⟩).setReturn _
  | remove q =>
      have hpq : p ≠ q := by
        rintro rfl
        exact hp.2 (by simp [Smc.effect, Komodo.setReturn, Komodo.releasePage])
      have hpa : p = s.pagedbAddrspace q := by simpa [Smc.touches, hpq] using htouch
      exact absurd (hpa ▸ hs.owner_addrspace (hs.remove_stopped hcheck).1) hold
  | finalise a =>
      rcases checkFinalise_eq_none.mp hcheck with ⟨ha, _⟩
      exact absurd (List.mem_singleton.mp htouch ▸ ha) hold
  | stop a =>
      exact absurd (List.mem_singleton.mp htouch ▸ checkStop_eq_none.mp hcheck) hold
  | enter d a0 a1 a2 =>
      rcases checkEnter_eq_none.mp hcheck with ⟨hd, hfinal, _⟩
      obtain rfl : p = d := List.mem_singleton.mp htouch
      have ha := hs.owner_addrspace (pageNonfree_of_pageTyped hd (by decide))
      have hok := h.page p (pageNonfree_of_pageTyped hd (by decide))
        ⟨ha, fun hstopped => by cases addrspaceIn_unique hfinal hstopped⟩
      exact enter_pageOk hok hd (hkeep ha rfl)

/-- A call keeps the page tables of all address spaces that are live after it. -/
theorem effect (hmode : s.enclaveMode = false) {call : Smc} (hcheck : call.check s = none) :
    PgtableInvariants L (call.effect L s) := by
  constructor
  · intro p hp hlive
    by_cases hold : s.pageTyped p .addrspace
    · -- an address space that existed before owns itself
      have hself : (call.effect L s).pagedbAddrspace p = p := by
        by_cases hremove : ∃ q, call = .remove q ∧ p = q
        · rcases hremove with ⟨q, rfl, rfl⟩
          exact absurd (by simp [Smc.effect, Komodo.setReturn, Komodo.releasePage]) hp.2
        · have hkept := effect_pageTyped (L := L) hcheck hold (by decide)
            (fun q hq hpq => hremove ⟨q, hq, hpq⟩)
          exact hkept.2.trans (hs.self_owned hold)
      rw [hself] at hlive
      rcases effect_keeps hs hcheck hold hlive with ⟨hlive', hkeep⟩
      have hok := h.page p (pageNonfree_of_pageTyped hold (by decide))
        (by rw [hs.self_owned hold]; exact hlive')
      exact hok.of_addrspace hold hlive.1 hkeep
    · by_cases htouch : p ∈ call.touches s
      · exact h.touched_page hs hcheck htouch hold hp hlive
      · have hsame : SamePage s (call.effect L s) p := effect_samePage L htouch
        have hp' : s.pageNonfree p := by
          simpa [State.pageNonfree, hsame.type] using hp
        rw [← hsame.owner] at hlive
        rcases effect_keeps hs hcheck (hs.owner_addrspace hp') hlive with ⟨hlive', hkeep⟩
        exact (h.page p hp' hlive').of_same hsame hkeep (fun ha => hs.self_owned ha)
  · intro hmode'
    have hdispatcher : ∀ d, s.pageTyped d .dispatcher →
        s.addrspaceIn (s.pagedbAddrspace d) .final →
        s.pages d (DispatcherField.csr .satp).index = s.satpOf L (s.pagedbAddrspace d) := by
      intro d hd hfinal
      have hnonfree := pageNonfree_of_pageTyped hd (by decide)
      exact (h.page d hnonfree ⟨hs.owner_addrspace hnonfree,
        fun hstopped => by cases addrspaceIn_unique hfinal hstopped⟩).satp hd
    cases call with
    | enter d a0 a1 a2 =>
        rcases checkEnter_eq_none.mp hcheck with ⟨hd, hfinal, _⟩
        have ha := hs.owner_addrspace (pageNonfree_of_pageTyped hd (by decide))
        have hne : s.pagedbAddrspace d ≠ d := ne_of_pageTyped ha hd (by decide)
        have hword : (Smc.effect L s (.enter d a0 a1 a2)).regs.csr .satp
            = s.pages d (DispatcherField.csr .satp).index := by
          simp [Smc.effect, specEnterSecureWorld, setDispatcherArgs, dispatcherRegs]
        rw [hword, hdispatcher d hd hfinal]
        simp [State.satpOf, State.addrspaceL1pt, Smc.effect, specEnterSecureWorld,
          setDispatcherArgs, hne]
    | resume d =>
        rcases checkResume_eq_none.mp hcheck with ⟨hd, hfinal, _⟩
        exact hdispatcher d hd hfinal
    | _ => exact absurd (hmode.symm.trans hmode') Bool.false_ne_true

end Owned

/-- Registers other than `satp` do not matter. -/
theorem setRegs {r : Regs} (hr : s.enclaveMode = true → r.csr .satp = s.regs.csr .satp) :
    PgtableInvariants L { s with regs := r } :=
  ⟨fun p hp hlive => ⟨(h.page p hp hlive).1, (h.page p hp hlive).2, (h.page p hp hlive).3⟩,
    fun hmode => (hr hmode).trans (h.running hmode)⟩

theorem setReturn (v : Word) : PgtableInvariants L (setReturn s v) :=
  h.setRegs (fun _ => rfl)

theorem advanceMepc : PgtableInvariants L (advanceMepc s) :=
  h.setRegs (fun _ => by simp)

/-- New words in a page that is neither an address space nor a page table. -/
theorem setPage (hs : OwnershipInvariants s) {t : PageType} {w : Word → Word} (hp : s.pageTyped p t)
    (ht : t = .data ∨ t = .dispatcher)
    (hw : t = .dispatcher → s.live (s.pagedbAddrspace p) →
      w (DispatcherField.csr .satp).index = s.satpOf L (s.pagedbAddrspace p)) :
    PgtableInvariants L (s.setPage p w) := by
  have hne : ∀ {a : Word}, s.pageTyped a .addrspace → a ≠ p := by
    intro a ha
    exact ne_of_pageTyped ha hp (by rcases ht with rfl | rfl <;> decide)
  have hroot : ∀ {a : Word}, s.pageTyped a .addrspace →
      (s.setPage p w).addrspaceL1pt a = s.addrspaceL1pt a := by
    intro a ha
    simp [State.addrspaceL1pt, State.setPage, hne ha]
  have hkeep : ∀ {a : Word}, s.pageTyped a .addrspace → Keeps s (s.setPage p w) a :=
    fun ha => ⟨fun hq _ howner => ⟨hq, howner⟩, hroot ha⟩
  constructor
  · intro q hq hlive
    have hlive' : s.live (s.pagedbAddrspace q) := by
      have ha : s.pagedbAddrspace q ≠ p := hne hlive.1
      refine ⟨hlive.1, fun hstopped => hlive.2 ?_⟩
      simpa [State.addrspaceIn, State.addrspaceState, State.setPage, ha] using hstopped
    have hok := h.page q hq hlive'
    by_cases hqp : q = p
    · subst hqp
      rcases ht with rfl | rfl
      · exact PageOk.of_data hp
      · have hd : (s.setPage q w).pageTyped q .dispatcher := hp
        apply PageOk.of_dispatcher hd
        rw [State.satpOf, hroot hlive.1]
        simpa [State.setPage, State.satpOf] using hw rfl hlive'
    · exact hok.of_same (setPage_samePage w hqp) (hkeep hlive'.1) (fun ha => hs.self_owned ha)
  · intro hmode
    rcases hs.enclave hmode with ⟨hd, _, hcur⟩
    have ha := hs.owner_addrspace (pageNonfree_of_pageTyped hd (by decide))
    rw [← hcur] at ha
    have hsatp : (s.setPage p w).satpOf L s.currentAddrspace = s.satpOf L s.currentAddrspace := by
      rw [State.satpOf, hroot ha]
      rfl
    exact (h.running hmode).trans hsatp.symm

/-- Leaving an enclave saves the `satp` it ran with. -/
theorem leave (hs : OwnershipInvariants s) (hmode : s.enclaveMode = true) (entered : Bool) :
    PgtableInvariants L (specLeaveSecureWorld s s.currentDispatcher entered) := by
  rcases hs.enclave hmode with ⟨hd, _, hcur⟩
  have hsaved : PgtableInvariants L (s.setPage s.currentDispatcher
      (saveDispatcher (s.pages s.currentDispatcher) (if entered then 1 else 0) s.regs)) := by
    apply h.setPage hs hd (.inr rfl)
    intro _ _
    rw [saveDispatcher_index, ← hcur]
    exact h.running hmode
  exact ⟨fun p hp hlive => ⟨(hsaved.page p hp hlive).1, (hsaved.page p hp hlive).2,
      (hsaved.page p hp hlive).3⟩, fun hfalse => absurd hfalse Bool.false_ne_true⟩

theorem setHostReturn (a0 a1 : Word) : PgtableInvariants L (setHostReturn s a0 a1) :=
  ⟨fun p hp hlive => ⟨(h.page p hp hlive).1, (h.page p hp hlive).2, (h.page p hp hlive).3⟩, h.running⟩

end Reachable

/-- Together with the ownership invariants, on which they depend. -/
theorem preserved (L : Layout) : Preserved L (fun s => OwnershipInvariants s ∧ PgtableInvariants L s) where
  setReturn v h := ⟨h.1.setReturn v, h.2.setReturn v⟩
  advanceMepc h := ⟨h.1.advanceMepc, h.2.advanceMepc⟩
  effect hmode hcheck h := ⟨h.1.effect hmode L hcheck, h.2.effect h.1 hmode hcheck⟩
  leave a0 a1 entered hmode h := by
    rcases h with ⟨hs, h⟩
    exact ⟨(OwnershipInvariants.preserved L).leave a0 a1 entered hmode hs,
      (h.setHostReturn a0 a1).leave ⟨hs.1, hs.2, hs.3, hs.4⟩ hmode entered⟩

end PgtableInvariants

end Komodo
end Serval
