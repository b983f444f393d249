import Serval.Komodo.Spec

/-!
# Calls — what the transitions of the specification can do

Three kinds of facts the later modules share:

* the words of a dispatcher page: each member has its own word, and a save followed by a load gives the
  saved context back;
* what it means that all checks of a call pass;
* the effects as sequences of two primitive moves, `retype` (a page changes its type and owner and is
  cleared) and `setPage` (the words of one page are replaced).
-/

namespace Serval
namespace Komodo

open Riscv

/-! ## Dispatcher pages -/

namespace DispatcherField

/-- The position of a member in `struct kom_dispatcher`. -/
def position : DispatcherField → Nat
  | .entered => 0
  | .gpr r => 1 + Gpr.all.idxOf r
  | .csr c => 32 + SavedCsr.all.idxOf c

theorem index_eq (f : DispatcherField) : f.index = BitVec.ofNat 64 f.position := by
  cases f <;> rfl

theorem position_injective {f g : DispatcherField} (h : f.position = g.position) : f = g := by
  have hgpr : ∀ r : Gpr, Gpr.all.idxOf r < 31 := fun r => List.idxOf_lt_length_of_mem r.mem_all
  cases f with
  | entered =>
      cases g with
      | entered => rfl
      | gpr r | csr c =>
          simp only [position] at h
          omega
  | gpr r =>
      cases g with
      | entered => simp [position] at h
      | gpr r' =>
          have hidx : Gpr.all.idxOf r = Gpr.all.idxOf r' := by
            simpa [position] using h
          exact congrArg _ ((List.idxOf_inj r.mem_all).mp hidx)
      | csr c =>
          have := hgpr r
          simp only [position] at h
          omega
  | csr c =>
      cases g with
      | entered => simp [position] at h
      | gpr r =>
          have := hgpr r
          simp only [position] at h
          omega
      | csr c' =>
          have hidx : SavedCsr.all.idxOf c = SavedCsr.all.idxOf c' := by
            simpa [position] using h
          exact congrArg _ ((List.idxOf_inj c.mem_all).mp hidx)

theorem position_lt (f : DispatcherField) : f.position < 43 := by
  cases f with
  | entered => decide
  | gpr r =>
      have : Gpr.all.idxOf r < 31 := List.idxOf_lt_length_of_mem r.mem_all
      simp only [position]
      omega
  | csr c =>
      have : SavedCsr.all.idxOf c < 11 := List.idxOf_lt_length_of_mem c.mem_all
      simp only [position]
      omega

theorem index_toNat (f : DispatcherField) : f.index.toNat = f.position := by
  have hlt := f.position_lt
  rw [index_eq, BitVec.toNat_ofNat]
  exact Nat.mod_eq_of_lt (by omega)

@[simp] theorem index_inj {f g : DispatcherField} : f.index = g.index ↔ f = g := by
  refine ⟨fun h => position_injective ?_, fun h => h ▸ rfl⟩
  rw [← index_toNat, ← index_toNat, h]

theorem index_valid (f : DispatcherField) : pageIndexValid f.index := by
  have hlt := f.position_lt
  show f.index.toNat < 512
  rw [index_toNat]
  omega

end DispatcherField

/-- The words of an address space overlap the first members of a dispatcher. -/
theorem addrspace_words :
    KOM_ADDRSPACE_L1PT_PAGE = DispatcherField.entered.index ∧
      KOM_ADDRSPACE_REFCOUNT = (DispatcherField.gpr .ra).index ∧
      KOM_ADDRSPACE_STATE = (DispatcherField.gpr .sp).index := by
  decide

theorem specDispatcherFields_nodup : specDispatcherFields.Nodup := by
  decide

theorem mem_specDispatcherFields (f : DispatcherField) : f ∈ specDispatcherFields := by
  cases f with
  | entered => decide
  | gpr r => cases r <;> decide
  | csr c => cases c <;> decide

/-- Writing the members of a dispatcher page one after the other, in any order in which each occurs
once. -/
theorem writeFields_index {l : List DispatcherField} (hnodup : l.Nodup)
    (words : Word → Word) (val : DispatcherField → Word) {f : DispatcherField} (hf : f ∈ l) :
    writeAll DispatcherField.index (fun f _ => val f) l words f.index = val f := by
  have hdistinct : l.Pairwise (fun f g => f.index ≠ g.index) :=
    hnodup.imp (fun hne heq => hne (DispatcherField.index_inj.mp heq))
  exact writeAll_of_mem hdistinct hf

@[simp] theorem saveDispatcher_index (words : Word → Word) (entered : Word) (regs : Regs)
    (f : DispatcherField) : saveDispatcher words entered regs f.index = f.saved entered regs :=
  writeFields_index specDispatcherFields_nodup words _ (mem_specDispatcherFields f)

/-- The words behind the last member keep their values. -/
theorem saveDispatcher_of_ne (words : Word → Word) (entered : Word) (regs : Regs) {i : Word}
    (hi : ∀ f : DispatcherField, f.index ≠ i) : saveDispatcher words entered regs i = words i :=
  writeAll_of_not_mem (fun f _ => hi f)

/-- What a save stores is what a load finds. -/
@[simp] theorem dispatcherRegs_saveDispatcher (words : Word → Word) (entered : Word) (regs : Regs) :
    dispatcherRegs (saveDispatcher words entered regs) = regs := by
  simp [dispatcherRegs, DispatcherField.saved]

/-! ## Checks -/

section Checks

variable {s : State} {page addrspacePage l1ptPage ptPage index content : Word}

/-- A check that passes hands over to the next one. -/
theorem passed {α : Type} {c : Prop} [Decidable (¬ c)] {a b : α} (h : c) :
    (if ¬ c then a else b) = b :=
  if_neg (not_not.mpr h)

theorem pageFree_valid (h : s.pageFree page) : pageValid page := h.1

theorem checkInitAddrspace_eq_none :
    checkInitAddrspace s addrspacePage l1ptPage = none ↔
      addrspacePage ≠ l1ptPage ∧ s.pageFree addrspacePage ∧ s.pageFree l1ptPage := by
  have ha : s.pageFree addrspacePage → pageValid addrspacePage := pageFree_valid
  have hl : s.pageFree l1ptPage → pageValid l1ptPage := pageFree_valid
  unfold checkInitAddrspace
  split_ifs <;> simp_all
  tauto

theorem checkAllocate_eq_none :
    checkAllocate s page addrspacePage = none ↔
      s.pageFree page ∧ s.addrspaceIn addrspacePage .init := by
  have hp : s.pageFree page → pageValid page := pageFree_valid
  unfold checkAllocate
  split_ifs <;> simp_all

theorem checkInitDispatcher_eq_none :
    checkInitDispatcher s page addrspacePage = none ↔
      s.pageTyped addrspacePage .addrspace ∧ s.pageFree page ∧
        s.addrspaceIn addrspacePage .init := by
  unfold checkInitDispatcher
  split_ifs with h <;> simp [checkAllocate_eq_none, h]

theorem checkInitPtable_eq_none {parent : PageType} :
    checkInitPtable parent s page ptPage index = none ↔
      pageIndexValid index ∧ s.pageTyped ptPage parent ∧ s.pages ptPage index = 0 ∧
        s.pageFree page ∧ s.addrspaceIn (s.pagedbAddrspace ptPage) .init := by
  unfold checkInitPtable
  split_ifs <;> simp_all [checkAllocate_eq_none]

theorem checkMapSecure_eq_none :
    checkMapSecure s page ptPage index content = none ↔
      pageIndexValid index ∧ insecurePageValid content ∧ s.pageTyped ptPage .l3ptable ∧
        s.pages ptPage index = 0 ∧ s.pageFree page ∧
        s.addrspaceIn (s.pagedbAddrspace ptPage) .init := by
  unfold checkMapSecure
  split_ifs <;> simp_all [checkAllocate_eq_none]
  tauto

theorem checkMapInsecure_eq_none :
    checkMapInsecure s ptPage index content = none ↔
      insecurePageValid content ∧ pageIndexValid index ∧ s.pageTyped ptPage .l3ptable ∧
        s.pages ptPage index = 0 ∧ s.addrspaceIn (s.pagedbAddrspace ptPage) .init := by
  unfold checkMapInsecure
  split_ifs <;> simp_all

theorem checkRemove_eq_none :
    checkRemove s page = none ↔
      s.enclaveMode = false ∧ pageValid page ∧ ¬ s.pageFree page ∧
        (s.pageTyped page .addrspace → s.addrspaceRefcount page = 1 ∧ s.addrspaceIn page .stopped) ∧
        (¬ s.pageTyped page .addrspace →
          s.addrspaceIn (s.pagedbAddrspace page) .stopped) := by
  unfold checkRemove
  split_ifs <;> simp_all

theorem checkFinalise_eq_none :
    checkFinalise s addrspacePage = none ↔
      s.pageTyped addrspacePage .addrspace ∧ s.addrspaceIn addrspacePage .init := by
  unfold checkFinalise
  split_ifs <;> simp_all

theorem checkStop_eq_none :
    checkStop s addrspacePage = none ↔ s.pageTyped addrspacePage .addrspace := by
  unfold checkStop
  split_ifs <;> simp_all

theorem checkEnter_eq_none :
    checkEnter s page = none ↔
      s.pageTyped page .dispatcher ∧ s.addrspaceIn (s.pagedbAddrspace page) .final ∧
        s.dispatcherEntered page = 0 := by
  unfold checkEnter
  split_ifs <;> simp_all

theorem checkResume_eq_none :
    checkResume s page = none ↔
      s.pageTyped page .dispatcher ∧ s.addrspaceIn (s.pagedbAddrspace page) .final ∧
        s.dispatcherEntered page ≠ 0 := by
  unfold checkResume
  split_ifs <;> simp_all

end Checks

/-! ## Calls as checks and effects -/

/-- The checks of a call. -/
def Smc.check (s : State) : Smc → Option KomErr
  | .query => none
  | .getPhysPages => none
  | .initAddrspace a l => checkInitAddrspace s a l
  | .initDispatcher p a _ => checkInitDispatcher s p a
  | .initL2ptable p l i => checkInitPtable .l1ptable s p l i
  | .initL3ptable p l i => checkInitPtable .l2ptable s p l i
  | .mapSecure p l i _ c => checkMapSecure s p l i c
  | .mapInsecure l i _ p => checkMapInsecure s l i p
  | .remove p => checkRemove s p
  | .finalise a => checkFinalise s a
  | .stop a => checkStop s a
  | .enter d _ _ _ => checkEnter s d
  | .resume d => checkResume s d

/-- The effect of a call whose checks pass. -/
def Smc.effect (L : Layout) (s : State) : Smc → State
  | .query => setReturn s KOM_MAGIC
  | .getPhysPages => setReturn s KOM_SECURE_NPAGES
  | .initAddrspace a l => setReturn (createAddrspace s a l) KomErr.success.val
  | .initDispatcher p a e => setReturn (createDispatcher L s p a e) KomErr.success.val
  | .initL2ptable p l i => setReturn (createPtable .l2ptable L s p l i) KomErr.success.val
  | .initL3ptable p l i => setReturn (createPtable .l3ptable L s p l i) KomErr.success.val
  | .mapSecure p l i m c => setReturn (addSecureMapping L s p l i m c) KomErr.success.val
  | .mapInsecure l i m p => setReturn (addInsecureMapping L s l i m p) KomErr.success.val
  | .remove p => setReturn (releasePage s p) KomErr.success.val
  | .finalise a => setReturn (setAddrspaceState s a .final) KomErr.success.val
  | .stop a => setReturn (setAddrspaceState s a .stopped) KomErr.success.val
  | .enter d a0 a1 a2 => specEnterSecureWorld (setDispatcherArgs s d a0 a1 a2) d
  | .resume d => specEnterSecureWorld s d

theorem specSmc_eq_guarded (L : Layout) (call : Smc) (s : State) :
    specSmc L call s = guarded s (call.check s) (call.effect L s) := by
  cases call <;> rfl

/-- A rule for calls: what holds after returning an error and after the effect holds after the call. -/
theorem specSmc_induction {P : State → Prop} {L : Layout} {call : Smc} {s : State}
    (herror : ∀ err : KomErr, P (setReturn s err.val))
    (heffect : call.check s = none → P (call.effect L s)) : P (specSmc L call s) := by
  rw [specSmc_eq_guarded]
  cases hcheck : call.check s with
  | some err => exact herror err
  | none => exact heffect hcheck

/-! ## The two modes -/

section Modes

variable {s : State}

theorem makeSmcSpec_of_enclave (spec : State → State) (h : s.enclaveMode = true) :
    makeSmcSpec spec s = setReturn (advanceMepc s) (-ENOSYS) :=
  if_pos h

theorem makeSmcSpec_of_host (spec : State → State) (h : s.enclaveMode = false) :
    makeSmcSpec spec s = spec (advanceMepc s) :=
  if_neg (fun henclave => Bool.false_ne_true (h.symm.trans henclave))

theorem specKomSvcExit_of_enclave (v : Word) (h : s.enclaveMode = true) :
    specKomSvcExit s v =
      specLeaveSecureWorld (setHostReturn (advanceMepc s) 0 v) s.currentDispatcher false :=
  if_neg (not_not.mpr h)

theorem specKomSvcExit_of_host (v : Word) (h : s.enclaveMode = false) :
    specKomSvcExit s v = setReturn (advanceMepc s) (-ENOSYS) :=
  if_pos (fun henclave => Bool.false_ne_true (h.symm.trans henclave))

theorem specKomHandleTrap_of_enclave (cause : Word) (h : s.enclaveMode = true) :
    specKomHandleTrap s cause =
      specLeaveSecureWorld (setHostReturn s (trapError cause).val cause) s.currentDispatcher true :=
  if_pos h

theorem specKomHandleTrap_of_host (cause : Word) (h : s.enclaveMode = false) :
    specKomHandleTrap s cause = s :=
  if_neg (fun henclave => Bool.false_ne_true (h.symm.trans henclave))

/-- What the traps preserve: it is enough to look at returns, at calls whose checks pass, and at the ways out of an
enclave. -/
structure Preserved (L : Layout) (P : State → Prop) : Prop where
  setReturn : ∀ {s : State} (v : Word), P s → P (setReturn s v)
  advanceMepc : ∀ {s : State}, P s → P (advanceMepc s)
  effect : ∀ {s : State} {call : Smc}, s.enclaveMode = false → call.check s = none → P s → P (call.effect L s)
  leave : ∀ {s : State} (a0 a1 : Word) (entered : Bool), s.enclaveMode = true → P s →
    P (specLeaveSecureWorld (setHostReturn s a0 a1) s.currentDispatcher entered)

namespace Preserved

variable {L : Layout} {P : State → Prop}

variable (hP : Preserved L P)

include hP

theorem makeSmcSpec (call : Smc) (h : P s) : P (makeSmcSpec (specSmc L call) s) := by
  have hpast := hP.advanceMepc h
  cases hmode : s.enclaveMode with
  | true =>
      rw [makeSmcSpec_of_enclave _ hmode]
      exact hP.setReturn _ hpast
  | false =>
      rw [makeSmcSpec_of_host _ hmode]
      exact specSmc_induction (fun err => hP.setReturn err.val hpast) fun hcheck => hP.effect hmode hcheck hpast

theorem specKomSvcExit (v : Word) (h : P s) : P (specKomSvcExit s v) := by
  cases hmode : s.enclaveMode with
  | true =>
      rw [specKomSvcExit_of_enclave v hmode]
      exact hP.leave 0 v false hmode (hP.advanceMepc h)
  | false =>
      rw [specKomSvcExit_of_host v hmode]
      exact hP.setReturn _ (hP.advanceMepc h)

theorem specKomHandleTrap (cause : Word) (h : P s) : P (specKomHandleTrap s cause) := by
  cases hmode : s.enclaveMode with
  | true =>
      rw [specKomHandleTrap_of_enclave cause hmode]
      exact hP.leave _ cause true hmode h
  | false => rwa [specKomHandleTrap_of_host cause hmode]

theorem specTrap (cause : Word) (h : P s) : P (specTrap L cause s) := by
  unfold Komodo.specTrap specEcall
  split
  · split
    · exact hP.specKomSvcExit _ h
    · split
      · exact hP.makeSmcSpec _ h
      · exact hP.setReturn _ (hP.advanceMepc h)
  · exact hP.specKomHandleTrap cause h

end Preserved

end Modes

/-! ## Primitive moves -/

/-- The words of a page are replaced. -/
def State.setPage (s : State) (page : Word) (words : Word → Word) : State :=
  { s with pages := Function.update s.pages page words }

def zeroWords (words : Word → Word) : Word → Word :=
  updateWhere words (fun i => pageIndexValid i) 0

theorem zeroWords_of_valid (words : Word → Word) {i : Word} (hi : pageIndexValid i) :
    zeroWords words i = 0 :=
  updateWhere_of_true (decide_eq_true hi)

/-- A page gets a type and an owner and is cleared. -/
def State.retype (s : State) (page owner : Word) (type : PageType) : State :=
  { s with
    pagedbType := Function.update s.pagedbType page type.val
    pagedbAddrspace := Function.update s.pagedbAddrspace page owner
    pages := Function.update s.pages page (zeroWords (s.pages page)) }

/-- The words of a new address space. -/
def addrspaceWords (words : Word → Word) (l1ptPage : Word) : Word → Word :=
  Function.update
    (Function.update
      (Function.update (zeroWords words) KOM_ADDRSPACE_L1PT_PAGE l1ptPage)
      KOM_ADDRSPACE_REFCOUNT 2)
    KOM_ADDRSPACE_STATE AddrspaceState.init.val

/-- The words of a new dispatcher. -/
def dispatcherWords (L : Layout) (words : Word → Word) (l1ptPage entrypoint : Word) : Word → Word :=
  Function.update
    (Function.update
      (Function.update (zeroWords words) (DispatcherField.csr .mepc).index entrypoint)
      (DispatcherField.csr .satp).index (SATP_MODE_SV39 ||| L.pageToPfn l1ptPage))
    (DispatcherField.csr .sie).index (IE_SEIE ||| IE_STIE ||| IE_SSIE)

/-- An address space counts one page more. -/
def countUp (words : Word → Word) : Word → Word :=
  Function.update words KOM_ADDRSPACE_REFCOUNT (words KOM_ADDRSPACE_REFCOUNT + 1)

/-- An address space counts one page less. -/
def countDown (words : Word → Word) : Word → Word :=
  Function.update words KOM_ADDRSPACE_REFCOUNT (words KOM_ADDRSPACE_REFCOUNT - 1)

/-- A page goes back to the free pages, with its words as they are. -/
def State.untype (s : State) (page : Word) : State :=
  { s with
    pagedbType := Function.update s.pagedbType page PageType.free.val
    pagedbAddrspace := Function.update s.pagedbAddrspace page (-1) }

/-- The state without the ghost counts and page tables. -/
def State.core (s : State) : State :=
  { s with
    pageRefcnt := .init
    pgtablePn := fun _ _ => 0
    pgtablePresent := fun _ _ => false
    pgtablePerm := fun _ _ => 0
    pgtableSecure := fun _ _ => false }

/-- A page is given to an address space: the page is retyped, then the address space counts it. -/
def State.grant (s : State) (page addrspacePage : Word) (type : PageType) : State :=
  let s := s.retype page addrspacePage type
  s.setPage addrspacePage (countUp (s.pages addrspacePage))

section Moves

variable (L : Layout) (s : State)

theorem createAddrspace_core {a l : Word} (hne : a ≠ l) :
    (createAddrspace s a l).core =
      (((s.retype a a .addrspace).retype l a .l1ptable).setPage a
        (addrspaceWords (s.pages a) l)).core := by
  have hpages : (createAddrspace s a l).pages =
      (((s.retype a a .addrspace).retype l a .l1ptable).setPage a
        (addrspaceWords (s.pages a) l)).pages := by
    simp only [createAddrspace, updateCell, updateRow, State.retype, State.setPage,
      Function.update_self, Function.update_idem, Function.update_of_ne hne.symm]
    rw [Function.update_comm hne, Function.update_comm hne, Function.update_idem]
    rfl
  exact congrArg (fun pages => { (createAddrspace s a l).core with pages := pages }) hpages

theorem createDispatcher_core {p a : Word} (hne : p ≠ a) (e : Word) :
    (createDispatcher L s p a e).core =
      ((s.grant p a .dispatcher).setPage p
        (dispatcherWords L (s.pages p) (s.addrspaceL1pt a) e)).core := by
  have hpages : (createDispatcher L s p a e).pages =
      ((s.grant p a .dispatcher).setPage p
        (dispatcherWords L (s.pages p) (s.addrspaceL1pt a) e)).pages := by
    simp only [createDispatcher, updateCell, updateRow, State.grant, State.retype, State.setPage,
      Function.update_self, Function.update_idem, Function.update_of_ne hne,
      Function.update_of_ne hne.symm]
    rw [Function.update_comm hne, Function.update_idem]
    rfl
  exact congrArg (fun pages => { (createDispatcher L s p a e).core with pages := pages }) hpages

theorem createPtable_core (child : PageType) (p pt i : Word) :
    (createPtable child L s p pt i).core =
      ((s.grant p (s.pagedbAddrspace pt) child).setPage pt
        (Function.update ((s.grant p (s.pagedbAddrspace pt) child).pages pt) i
          (pfnToPte (L.pageToPfn p) PAGE_TABLE))).core :=
  rfl

theorem addInsecureMapping_core (l i m n : Word) :
    (addInsecureMapping L s l i m n).core =
      (s.setPage l
        (Function.update (s.pages l) i (pfnToPte (L.insecurePageToPfn n) (enclaveProt m)))).core :=
  rfl

theorem releasePage_core (p : Word) :
    (releasePage s p).core =
      ((s.setPage (s.pagedbAddrspace p) (countDown (s.pages (s.pagedbAddrspace p)))).untype p).core :=
  rfl

theorem setAddrspaceState_core (a : Word) (st : AddrspaceState) :
    (setAddrspaceState s a st).core =
      (s.setPage a (Function.update (s.pages a) KOM_ADDRSPACE_STATE st.val)).core :=
  rfl

/-- A dispatcher page with the arguments of a call in its registers. -/
def withArgs (words : Word → Word) (a0 a1 a2 : Word) : Word → Word :=
  Function.update
    (Function.update (Function.update words (DispatcherField.gpr .a0).index a0)
      (DispatcherField.gpr .a1).index a1)
    (DispatcherField.gpr .a2).index a2

theorem setDispatcherArgs_eq (d a0 a1 a2 : Word) :
    setDispatcherArgs s d a0 a1 a2 = s.setPage d (withArgs (s.pages d) a0 a1 a2) := by
  simp only [setDispatcherArgs, updateCell, State.setPage, withArgs, Function.update_self,
    Function.update_idem]

end Moves

section Types

variable {s : State} {p q : Word} {t u : PageType}

theorem pageTyped_unique (ht : s.pageTyped p t) (hu : s.pageTyped p u) : t = u :=
  PageType.val_injective (ht.2.symm.trans hu.2)

theorem not_pageFree_of_pageTyped (ht : s.pageTyped p t) (hne : t ≠ .free) : ¬ s.pageFree p :=
  fun hfree => hne (pageTyped_unique ht hfree)

/-- Pages of different types are different pages. -/
theorem ne_of_pageTyped (hp : s.pageTyped p t) (hq : s.pageTyped q u) (hne : t ≠ u) : p ≠ q := by
  rintro rfl
  exact hne (pageTyped_unique hp hq)

@[simp] theorem retype_pageTyped_self (owner : Word) :
    (s.retype p owner t).pageTyped p u ↔ pageValid p ∧ t = u := by
  simp [State.pageTyped, State.retype]

theorem retype_pageTyped_of_ne (owner : Word) (hne : q ≠ p) :
    (s.retype p owner t).pageTyped q u ↔ s.pageTyped q u := by
  simp [State.pageTyped, State.retype, hne]

@[simp] theorem retype_owner_self (owner : Word) :
    (s.retype p owner t).pagedbAddrspace p = owner :=
  Function.update_self _ _ _

theorem retype_owner_of_ne (owner : Word) (hne : q ≠ p) :
    (s.retype p owner t).pagedbAddrspace q = s.pagedbAddrspace q :=
  Function.update_of_ne hne _ _

theorem untype_owner_of_ne (hne : q ≠ p) :
    (s.untype p).pagedbAddrspace q = s.pagedbAddrspace q :=
  Function.update_of_ne hne _ _

@[simp] theorem untype_pageTyped_self : (s.untype p).pageTyped p u ↔ pageValid p ∧ .free = u := by
  simp [State.pageTyped, State.untype]

theorem untype_pageTyped_of_ne (hne : q ≠ p) : (s.untype p).pageTyped q u ↔ s.pageTyped q u := by
  simp [State.pageTyped, State.untype, hne]

end Types

end Komodo
end Serval
