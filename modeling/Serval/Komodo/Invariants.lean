import Serval.Komodo.Calls

/-!
# Invariants — what every transition of the Komodo specification keeps

`TableInvariants` is the part of the representation invariant of `verif/impl.rkt` that speaks about the
monitor's globals, read off the abstract state.  It is weak on purpose: of the owner of a page it only
says that it is a valid page number.  It holds of the state around every call, whatever the arguments.
-/

namespace Serval
namespace Komodo

open Riscv

variable {p v q owner a : Word} {words : Word → Word} {s : State}

def State.pageNonfree (s : State) (pageno : Word) : Prop :=
  pageValid pageno ∧ s.pagedbType pageno ≠ PageType.free.val

instance (s : State) (pageno : Word) : Decidable (s.pageNonfree pageno) :=
  inferInstanceAs (Decidable (_ ∧ _))

structure TableInvariants (s : State) : Prop where
  ownerValid : ∀ p, s.pageNonfree p → pageValid (s.pagedbAddrspace p)
  l1ptValid : ∀ p, s.pageTyped p .addrspace → pageValid (s.addrspaceL1pt p)
  selfOwned : ∀ p, s.pageTyped p .addrspace → p = s.pagedbAddrspace p
  dispatcherMasked : ∀ p, s.pageTyped p .dispatcher → Masked (dispatcherRegs (s.pages p)).csr
  currentValid : pageValid s.currentDispatcher
  enclaveDispatcher : s.enclaveMode = true → s.pageTyped s.currentDispatcher .dispatcher
  hostMasked : Masked s.hostState.csr
  regsMasked : Masked s.regs.csr

theorem pageNonfree_of_pageTyped {t : PageType} (h : s.pageTyped p t) (hne : t ≠ .free) : s.pageNonfree p := by
  refine ⟨h.1, ?_⟩
  rw [h.2]
  exact fun heq => hne (PageType.val_injective heq)

theorem pageNonfree_iff : s.pageNonfree p ↔ pageValid p ∧ ¬ s.pageFree p := by
  simp only [State.pageNonfree, State.pageFree, State.pageTyped]
  tauto

@[simp] theorem retype_pageNonfree_self {s : State} {p : Word} (owner : Word) {t : PageType} :
    (s.retype p owner t).pageNonfree p ↔ pageValid p ∧ t ≠ .free := by
  simp [State.pageNonfree, State.retype]

theorem retype_pageNonfree_of_ne (owner : Word) {t : PageType} (hne : q ≠ p) :
    (s.retype p owner t).pageNonfree q ↔ s.pageNonfree q := by
  simp [State.pageNonfree, State.retype, hne]

theorem untype_not_pageNonfree : ¬ (s.untype p).pageNonfree p := by
  simp [State.pageNonfree, State.untype]

theorem untype_pageNonfree_of_ne (hne : q ≠ p) : (s.untype p).pageNonfree q ↔ s.pageNonfree q := by
  simp [State.pageNonfree, State.untype, hne]

/-! ## Masked words -/

/-- The CSRs in a page that has just been cleared. -/
theorem zeroWords_masked (words : Word → Word) : Masked (dispatcherRegs (zeroWords words)).csr := by
  intro c
  have hzero : (dispatcherRegs (zeroWords words)).csr c = 0 :=
    zeroWords_of_valid words (DispatcherField.csr c).index_valid
  simp [hzero]

section Words

variable (h : Masked (dispatcherRegs words).csr)

include h

/-- Words that no CSR of a dispatcher lives in do not matter. -/
theorem masked_update_of_ne {i : Word} (hi : ∀ c, (DispatcherField.csr c).index ≠ i) :
    Masked (dispatcherRegs (Function.update words i v)).csr := by
  intro c
  simpa only [dispatcherRegs, Function.update_of_ne (hi c)] using h c

theorem masked_update_csr {c : SavedCsr} (hv : v &&& c.toCsr.mask = v) :
    Masked (dispatcherRegs (Function.update words (DispatcherField.csr c).index v)).csr := by
  have hcsr : (dispatcherRegs (Function.update words (DispatcherField.csr c).index v)).csr
      = Function.update (dispatcherRegs words).csr c v := by
    funext d
    by_cases hd : d = c
    · subst hd
      simp [dispatcherRegs]
    · simp [dispatcherRegs, hd]
  rw [hcsr]
  exact h.update hv

theorem masked_update_gpr {r : Gpr} :
    Masked (dispatcherRegs (Function.update words (DispatcherField.gpr r).index v)).csr := by
  apply masked_update_of_ne h
  intro c
  simp

end Words

theorem dispatcherWords_masked (L : Layout) (words : Word → Word) (l1pt e : Word) :
    Masked (dispatcherRegs (dispatcherWords L words l1pt e)).csr := by
  refine masked_update_csr (masked_update_csr (masked_update_csr (zeroWords_masked words) ?_) ?_) ?_
  · exact BitVec.and_allOnes
  · exact BitVec.and_allOnes
  · decide

theorem countUp_masked (h : Masked (dispatcherRegs words).csr) : Masked (dispatcherRegs (countUp words)).csr := by
  apply masked_update_of_ne h
  intro c
  rw [addrspace_words.2.1]
  simp

/-! ## Moves -/

namespace TableInvariants

variable {s : State}

section Moves

variable (h : TableInvariants s)

include h

theorem congr {t : State} (hcore : t.core = s.core) : TableInvariants t := by
  have hs : TableInvariants s.core := ⟨h.1, h.2, h.3, h.4, h.5, h.6, h.7, h.8⟩
  rw [← hcore] at hs
  exact ⟨hs.1, hs.2, hs.3, hs.4, hs.5, hs.6, hs.7, hs.8⟩

theorem setPage (hl1pt : s.pageTyped p .addrspace → pageValid (words KOM_ADDRSPACE_L1PT_PAGE))
    (hmasked : s.pageTyped p .dispatcher → Masked (dispatcherRegs words).csr) :
    TableInvariants (s.setPage p words) := by
  refine ⟨h.ownerValid, ?_, h.selfOwned, ?_, h.currentValid, h.enclaveDispatcher, h.hostMasked,
    h.regsMasked⟩
  · intro q hq
    by_cases hqp : q = p
    · subst hqp
      simpa [State.addrspaceL1pt, State.setPage] using hl1pt hq
    · simpa [State.addrspaceL1pt, State.setPage, hqp] using h.l1ptValid q hq
  · intro q hq
    by_cases hqp : q = p
    · subst hqp
      simpa [State.setPage] using hmasked hq
    · simpa [State.setPage, hqp] using h.dispatcherMasked q hq

/-- A free page may be given to any valid page. -/
theorem retype {t : PageType} (hfree : s.pageFree p) (howner : pageValid owner) (hself : t = .addrspace → p = owner) :
    TableInvariants (s.retype p owner t) := by
  constructor
  · intro q hq
    by_cases hqp : q = p
    · subst hqp
      simpa [State.retype] using howner
    · rw [retype_pageNonfree_of_ne owner hqp] at hq
      simpa [State.retype, hqp] using h.ownerValid q hq
  · intro q hq
    by_cases hqp : q = p
    · subst hqp
      have hzero : (s.retype q owner t).addrspaceL1pt q = 0 := by
        simp only [State.addrspaceL1pt, State.retype, Function.update_self]
        exact zeroWords_of_valid _ (by decide)
      rw [hzero]
      decide
    · rw [retype_pageTyped_of_ne owner hqp] at hq
      simpa [State.addrspaceL1pt, State.retype, hqp] using h.l1ptValid q hq
  · intro q hq
    by_cases hqp : q = p
    · subst hqp
      rw [retype_pageTyped_self] at hq
      simpa [State.retype] using hself hq.2
    · rw [retype_pageTyped_of_ne owner hqp] at hq
      simpa [State.retype, hqp] using h.selfOwned q hq
  · intro q hq
    by_cases hqp : q = p
    · subst hqp
      simpa [State.retype] using zeroWords_masked (s.pages q)
    · rw [retype_pageTyped_of_ne owner hqp] at hq
      simpa [State.retype, hqp] using h.dispatcherMasked q hq
  · exact h.currentValid
  · intro hmode
    have hcur := h.enclaveDispatcher hmode
    exact (retype_pageTyped_of_ne owner (ne_of_pageTyped hcur hfree (by decide))).mpr hcur
  · exact h.hostMasked
  · exact h.regsMasked

theorem grant {t : PageType} (hfree : s.pageFree p) (howner : pageValid owner) (ht : t ≠ .addrspace) :
    TableInvariants (s.grant p owner t) := by
  have hretype := h.retype hfree howner (fun heq => absurd heq ht)
  apply hretype.setPage
  · intro htyped
    simpa [countUp, KOM_ADDRSPACE_L1PT_PAGE, KOM_ADDRSPACE_REFCOUNT, State.addrspaceL1pt]
      using hretype.l1ptValid owner htyped
  · intro htyped
    exact countUp_masked (hretype.dispatcherMasked owner htyped)

theorem untype (hmode : s.enclaveMode = false) : TableInvariants (s.untype p) := by
  have hne : ∀ {q : Word} {t : PageType}, t ≠ .free → (s.untype p).pageTyped q t → q ≠ p := by
    rintro q t ht hq rfl
    exact ht (untype_pageTyped_self.mp hq).2.symm
  constructor
  · intro q hq
    have hqp : q ≠ p := by
      rintro rfl
      exact untype_not_pageNonfree hq
    rw [untype_pageNonfree_of_ne hqp] at hq
    simpa [State.untype, hqp] using h.ownerValid q hq
  · intro q hq
    rw [untype_pageTyped_of_ne (hne (by decide) hq)] at hq
    exact h.l1ptValid q hq
  · intro q hq
    have hqp := hne (by decide) hq
    rw [untype_pageTyped_of_ne hqp] at hq
    simpa [State.untype, hqp] using h.selfOwned q hq
  · intro q hq
    rw [untype_pageTyped_of_ne (hne (by decide) hq)] at hq
    exact h.dispatcherMasked q hq
  · exact h.currentValid
  · intro hmode'
    exact absurd (hmode.symm.trans hmode') (by decide)
  · exact h.hostMasked
  · exact h.regsMasked

theorem setReturn (v : Word) : TableInvariants (setReturn s v) :=
  ⟨h.1, h.2, h.3, h.4, h.5, h.6, h.7, h.8⟩

theorem advanceMepc : TableInvariants (advanceMepc s) :=
  ⟨h.1, h.2, h.3, h.4, h.5, h.6, h.7, h.8.update BitVec.and_allOnes⟩

theorem enter {d : Word} (hd : s.pageTyped d .dispatcher) : TableInvariants (specEnterSecureWorld s d) :=
  ⟨h.ownerValid, h.l1ptValid, h.selfOwned, h.dispatcherMasked, hd.1, fun _ => hd, h.regsMasked,
    h.dispatcherMasked d hd⟩

theorem leave (hmode : s.enclaveMode = true) (entered : Bool) :
    TableInvariants (specLeaveSecureWorld s s.currentDispatcher entered) := by
  have hcur := h.enclaveDispatcher hmode
  have hsaved : TableInvariants (s.setPage s.currentDispatcher
      (saveDispatcher (s.pages s.currentDispatcher) (if entered then 1 else 0) s.regs)) := by
    apply h.setPage
    · intro haddrspace
      exact absurd (pageTyped_unique hcur haddrspace) (by decide)
    · intro _
      simpa using h.regsMasked
  exact ⟨hsaved.ownerValid, hsaved.l1ptValid, hsaved.selfOwned, hsaved.dispatcherMasked,
    show pageValid 0 by decide, fun hfalse => absurd hfalse Bool.false_ne_true, h.hostMasked, h.hostMasked⟩

/-! ## Transitions -/

/-- Entries of page tables live in pages that are neither address spaces nor dispatchers. -/
theorem setEntry {t : PageType} (hp : s.pageTyped p t) (ht : t ≠ .addrspace ∧ t ≠ .dispatcher) (words : Word → Word) :
    TableInvariants (s.setPage p words) := by
  apply h.setPage
  · intro haddrspace
    exact absurd (pageTyped_unique hp haddrspace) ht.1
  · intro hdispatcher
    exact absurd (pageTyped_unique hp hdispatcher) ht.2

theorem createAddrspace {l : Word} (hne : a ≠ l) (ha : s.pageFree a) (hl : s.pageFree l) :
    TableInvariants (createAddrspace s a l) := by
  have hfirst := h.retype (t := .addrspace) ha ha.1 (fun _ => rfl)
  have hfree : (s.retype a a .addrspace).pageFree l :=
    (retype_pageTyped_of_ne a hne.symm).mpr hl
  have hsecond := hfirst.retype (t := .l1ptable) hfree ha.1 (fun heq => by cases heq)
  refine TableInvariants.congr (hsecond.setPage ?_ ?_) (createAddrspace_core s hne)
  · intro _
    have hl1pt : addrspaceWords (s.pages a) l KOM_ADDRSPACE_L1PT_PAGE = l := by
      simp [addrspaceWords, KOM_ADDRSPACE_L1PT_PAGE, KOM_ADDRSPACE_REFCOUNT, KOM_ADDRSPACE_STATE]
    rw [hl1pt]
    exact hl.1
  · intro hdispatcher
    rw [retype_pageTyped_of_ne a hne, retype_pageTyped_self] at hdispatcher
    cases hdispatcher.2

theorem createDispatcher (L : Layout) (e : Word) (ha : s.pageTyped a .addrspace) (hp : s.pageFree p) :
    TableInvariants (createDispatcher L s p a e) := by
  have hne : p ≠ a := ne_of_pageTyped hp ha (by decide)
  refine TableInvariants.congr ((h.grant hp ha.1 (by decide)).setPage ?_ ?_)
    (createDispatcher_core L s hne e)
  · intro haddrspace
    cases (retype_pageTyped_self a).mp haddrspace |>.2
  · intro _
    exact dispatcherWords_masked L _ _ e

end Moves

/-- The type of a page that is not given away stays. -/
theorem grant_pageTyped {t u : PageType} (hp : s.pageFree p) (hq : s.pageTyped q u) (hu : u ≠ .free) :
    (s.grant p owner t).pageTyped q u :=
  (retype_pageTyped_of_ne owner (ne_of_pageTyped hq hp hu)).mpr hq

section Calls

variable (h : TableInvariants s)

include h

theorem createPtable (L : Layout) {parent child : PageType} {pt : Word} (i : Word)
    (hparent : parent ≠ .addrspace ∧ parent ≠ .dispatcher) (hnonfree : parent ≠ .free) (hchild : child ≠ .addrspace)
    (hpt : s.pageTyped pt parent) (hp : s.pageFree p) :
    TableInvariants (createPtable child L s p pt i) := by
  have howner : pageValid (s.pagedbAddrspace pt) :=
    h.ownerValid pt (pageNonfree_of_pageTyped hpt hnonfree)
  refine TableInvariants.congr ?_ (createPtable_core L s child p pt i)
  exact (h.grant hp howner hchild).setEntry (grant_pageTyped hp hpt hnonfree) hparent _

theorem addSecureMapping (L : Layout) {l : Word} (i m c : Word) (hl : s.pageTyped l .l3ptable) (hp : s.pageFree p) :
    TableInvariants (addSecureMapping L s p l i m c) := by
  have howner : pageValid (s.pagedbAddrspace l) :=
    h.ownerValid l (pageNonfree_of_pageTyped hl (by decide))
  have hgrant := h.grant (t := .data) hp howner (by decide)
  have hentry := hgrant.setEntry (grant_pageTyped hp hl (by decide)) ⟨by decide, by decide⟩
    (Function.update ((s.grant p (s.pagedbAddrspace l) .data).pages l) i
      (pfnToPte (L.pageToPfn p) (enclaveProt m)))
  have hdata : (s.grant p (s.pagedbAddrspace l) .data).pageTyped p .data :=
    (retype_pageTyped_self (s.pagedbAddrspace l)).mpr ⟨hp.1, rfl⟩
  exact (hentry.setEntry (t := .data) hdata ⟨by decide, by decide⟩ _).congr rfl

theorem releasePage (hmode : s.enclaveMode = false) : TableInvariants (releasePage s p) := by
  have hcount : TableInvariants
      (s.setPage (s.pagedbAddrspace p) (countDown (s.pages (s.pagedbAddrspace p)))) := by
    apply h.setPage
    · intro haddrspace
      simpa [countDown, KOM_ADDRSPACE_L1PT_PAGE, KOM_ADDRSPACE_REFCOUNT, State.addrspaceL1pt]
        using h.l1ptValid _ haddrspace
    · intro hdispatcher
      apply masked_update_of_ne (h.dispatcherMasked _ hdispatcher)
      intro c
      rw [addrspace_words.2.1]
      simp
  exact (hcount.untype hmode).congr (releasePage_core s p)

theorem setAddrspaceState (ha : s.pageTyped a .addrspace) (st : AddrspaceState) :
    TableInvariants (setAddrspaceState s a st) := by
  refine TableInvariants.congr (h.setPage ?_ ?_) (setAddrspaceState_core s a st)
  · intro _
    simpa [KOM_ADDRSPACE_L1PT_PAGE, KOM_ADDRSPACE_STATE, State.addrspaceL1pt]
      using h.l1ptValid a ha
  · intro hdispatcher
    exact absurd (pageTyped_unique ha hdispatcher) (by decide)

theorem setDispatcherArgs {d : Word} (hd : s.pageTyped d .dispatcher) (a0 a1 a2 : Word) :
    TableInvariants (setDispatcherArgs s d a0 a1 a2) := by
  rw [setDispatcherArgs_eq]
  apply h.setPage
  · intro haddrspace
    exact absurd (pageTyped_unique hd haddrspace) (by decide)
  · intro _
    exact masked_update_gpr (masked_update_gpr (masked_update_gpr (h.dispatcherMasked d hd)))

theorem effect (L : Layout) {call : Smc} (hcheck : call.check s = none) : TableInvariants (call.effect L s) := by
  cases call with
  | query => exact h.setReturn _
  | getPhysPages => exact h.setReturn _
  | initAddrspace a l =>
      rcases checkInitAddrspace_eq_none.mp hcheck with ⟨hne, ha, hl⟩
      exact (h.createAddrspace hne ha hl).setReturn _
  | initDispatcher p a e =>
      rcases checkInitDispatcher_eq_none.mp hcheck with ⟨ha, hp, _⟩
      exact (h.createDispatcher L e ha hp).setReturn _
  | initL2ptable p l i | initL3ptable p l i =>
      rcases checkInitPtable_eq_none.mp hcheck with ⟨_, hl, _, hp, _⟩
      exact (h.createPtable L i ⟨by decide, by decide⟩ (by decide) (by decide) hl hp).setReturn _
  | mapSecure p l i m c =>
      rcases checkMapSecure_eq_none.mp hcheck with ⟨_, _, hl, _, hp, _⟩
      exact (h.addSecureMapping L i m c hl hp).setReturn _
  | mapInsecure l i m n =>
      rcases checkMapInsecure_eq_none.mp hcheck with ⟨_, _, hl, _, _⟩
      exact ((h.setEntry hl ⟨by decide, by decide⟩ _).congr
        (addInsecureMapping_core L s l i m n)).setReturn _
  | remove p =>
      rcases checkRemove_eq_none.mp hcheck with ⟨hmode, _⟩
      exact (h.releasePage hmode).setReturn _
  | finalise a =>
      rcases checkFinalise_eq_none.mp hcheck with ⟨ha, _⟩
      exact (h.setAddrspaceState ha .final).setReturn _
  | stop a => exact (h.setAddrspaceState (checkStop_eq_none.mp hcheck) .stopped).setReturn _
  | enter d a0 a1 a2 =>
      rcases checkEnter_eq_none.mp hcheck with ⟨hd, _⟩
      exact (h.setDispatcherArgs hd a0 a1 a2).enter hd
  | resume d =>
      rcases checkResume_eq_none.mp hcheck with ⟨hd, _⟩
      exact h.enter hd

end Calls

/-- The invariants hold after every trap. -/
theorem preserved (L : Layout) : Preserved L TableInvariants where
  setReturn v h := h.setReturn v
  advanceMepc h := h.advanceMepc
  effect _ hcheck h := h.effect L hcheck
  leave a0 a1 entered hmode h := by
    have hhost : TableInvariants (setHostReturn _ a0 a1) := ⟨h.1, h.2, h.3, h.4, h.5, h.6, h.7, h.8⟩
    exact hhost.leave hmode entered

end TableInvariants

end Komodo
end Serval
