import Serval.Komodo.Boot

/-!
# Refinement — the Komodo monitor implements its specification

For every call the code's checks are matched one by one with the specification's, and the machine
behind them is compared with the specification's effect.  `enter_secure_world` and `leave_secure_world`
are reduced to the machines they leave behind (`entered`, `left`).
-/

namespace Serval
namespace Komodo

open Riscv

variable {s : State} {err : KomErr} {check : Option KomErr} {Q : Unit → Machine → Prop}

/-- `satp` is protected while an enclave runs. -/
def EnclaveTvm (m : Machine) : Prop :=
  m.enclaveMode ≠ 0 → SR_TVM &&& m.csrs .mstatus ≠ 0

/-- No trap of an enclave is delegated to it. -/
def EnclaveTraps (m : Machine) : Prop :=
  m.enclaveMode ≠ 0 → m.csrs .mideleg = 0 ∧ m.csrs .medeleg = 0

/-- What is shown of every activation of the monitor: the machine it leaves behind represents the
specification's state, and the machine-level CSRs are as the representation invariant wants them, for
whatever trap vector and stack it names.  That an enclave can neither change `satp` nor handle a trap
does not depend on the other CSRs. -/
structure Implements (m : Machine) (s' : State) (m' : Machine) : Prop where
  abs : absFunction s'.ghost m' = s'
  csrs : ∀ K : Layout, CsrInvariants K (m.enclaveMode ≠ 0) m.csrs →
    CsrInvariants K (m'.enclaveMode ≠ 0) m'.csrs
  tvm : EnclaveTvm m → EnclaveTvm m'
  traps : EnclaveTraps m → EnclaveTraps m'
  -- the mode that `mret` returns to
  mpp : SR_MPP &&& m'.csrs .mstatus = SR_MPP &&& m.csrs .mstatus

/-- The machine that returns `r` in `a0`. -/
def withReturn (m : Machine) (r : Word) : Machine :=
  { m with regs := Function.update m.regs .a0 r }

/-- What is shown of a call: the machine implements `s'`, whether the call returns a value or leaves to
another context. -/
abbrev Performs (body : Monitor Word) (m : Machine) (s' : State) : Prop :=
  Ctl.wp body (fun r m' => Implements m s' (withReturn m' r)) (fun r m' => Implements m s' { m' with regs := r }) m

section Calls

variable {L : Layout} {m : Machine} {g : Ghost}

/-- A machine that only returns a value. -/
theorem implements_setReturn (g : Ghost) (m : Machine) (r : Word) :
    Implements m (setReturn (absFunction g m) r) (withReturn m r) :=
  ⟨rfl, fun _ => id, id, id, rfl⟩

/-- A check that fails leaves the machine alone. -/
theorem implements_error (h : check = some err) (effect : State) :
    Implements m (guarded (absFunction g m) check effect) (withReturn m err.val) := by
  subst h
  exact implements_setReturn g m err.val

/-- A call that succeeds after having changed the page database and the secure pages. -/
theorem implements_success (h : check = none) {s' : State} {pagedb : Word → PagedbEntry} {pages : Word → Word → Word}
    (habs : absFunction s'.ghost { m with gPagedb := pagedb, securePages := pages } = s') :
    Implements m (guarded (absFunction g m) check (setReturn s' KomErr.success.val))
      (withReturn { m with gPagedb := pagedb, securePages := pages } KomErr.success.val) := by
  subst h
  refine ⟨?_, fun _ => id, id, id, rfl⟩
  rw [guarded, setReturn]
  conv_rhs => rw [← habs]
  rfl

/-- A column of the page database after an update. -/
theorem pagedb_update {β : Type} (f : PagedbEntry → β) (db : Word → PagedbEntry) (p : Word)
    (e : PagedbEntry) :
    (fun q => f (Function.update db p e q)) = Function.update (fun q => f (db q)) p (f e) :=
  Function.comp_update f db p e

theorem komErr_val_ne_success (h : err ≠ .success) : err.val ≠ KomErr.success.val := by
  cases err <;> first | exact absurd rfl h | decide

theorem checkAllocate_ne_success {p a : Word} (h : checkAllocate s p a = some err) : err ≠ .success := by
  rintro rfl
  unfold checkAllocate at h
  split_ifs at h <;> cases h

/-- A call that allocates a page fails with the error of the allocation. -/
theorem wp_allocateOr (g : Ghost) {p a : Word} {t : PageType} (ha : pageValid a)
    (hcheck : check = checkAllocate (absFunction g m) p a) {effect : State} {rest : Machine → Prop}
    (hrest : (absFunction g m).pageFree p → (absFunction g m).addrspaceIn a .init → rest (allocated m p a t)) :
    Ctl.wp (allocatePage false p a t) (fun err m' => if err ≠ KomErr.success.val then
      Implements m (guarded (absFunction g m) check effect) (withReturn m' err) else rest m') E m := by
  refine wp_allocatePage g ha (fun err herr => ?_) fun hfree hinit => ?_
  · rw [if_pos (komErr_val_ne_success (checkAllocate_ne_success herr))]
    exact implements_error (hcheck.trans herr) _
  · rw [if_neg (not_not.mpr rfl)]
    exact hrest hfree hinit

/-! ## Building enclaves -/

theorem wp_komSmcInitAddrspace (g : Ghost) (m : Machine) (a l : Word) :
    Performs (komSmcInitAddrspace a l) m (specKomSmcInitAddrspace (absFunction g m) a l) := by
  rcases addrspace_index_valid with ⟨hl1pt, hcount, hstate⟩
  simp only [komSmcInitAddrspace, pageIsFree, Ctl.wp_ite, Ctl.wp_bind, Ctl.wp_pure, wp_pageIsTyped g,
    wp_pageMonvaddr, wp_memsetPage, wp_storeEntry, wp_storeWord, decide_eq_true_eq, hl1pt, hcount,
    hstate, and_true]
  by_cases hargs : a = l ∨ ¬ (pageValid a ∧ pageValid l)
  · have hargs' : a = l ∨ ¬ (pageIsValid a ∧ pageIsValid l) := hargs
    rw [if_pos hargs']
    apply implements_error
    unfold checkInitAddrspace
    rcases hargs with heq | hvalid
    · rw [if_pos heq]
    · by_cases heq : a = l
      · rw [if_pos heq]
      · rw [if_neg heq, if_pos hvalid]
  have hargs' : ¬ (a = l ∨ ¬ (pageIsValid a ∧ pageIsValid l)) := hargs
  rw [if_neg hargs']
  rcases not_or.mp hargs with ⟨hne, hvalid⟩
  rcases not_not.mp hvalid with ⟨ha, hl⟩
  refine Ctl.guard_intro (fun hfree => implements_error ?_ _) (fun hfree => ?_)
  · have hfree' : ¬ ((absFunction g m).pageFree a ∧ (absFunction g m).pageFree l) := hfree
    unfold checkInitAddrspace
    rw [if_neg hne, if_neg hvalid, if_pos hfree']
  refine ⟨ha, ha, hl, hl, ha, ha, hl, hl, ha, ha, ha, ?_⟩
  apply implements_success (checkInitAddrspace_eq_none.mpr ⟨hne, hfree⟩)
  apply absFunction_eq
  case htype =>
    simp only [pagedb_update PagedbEntry.type, Function.update_self, Function.update_idem,
      Function.update_of_ne (Ne.symm hne)]
    rfl
  case howner =>
    simp only [pagedb_update PagedbEntry.addrspacePage, Function.update_self, Function.update_idem,
      Function.update_of_ne (Ne.symm hne)]
    rfl
  case hpages =>
    -- the code clears the table before it fills in the address space
    simp only [createAddrspace, updateCell, updateRow, Function.update_self, Function.update_idem,
      Function.update_of_ne hne, Function.update_of_ne (Ne.symm hne)]
    rw [Function.update_comm hne, Function.update_idem, Function.update_comm (Ne.symm hne)]
    rfl
  all_goals rfl

theorem wp_komSmcInitDispatcher (g : Ghost) (hinv : MregionsInvariants m) (p a e : Word) :
    Performs (komSmcInitDispatcher L p a e) m (specKomSmcInitDispatcher L (absFunction g m) p a e) := by
  have hl1pt := addrspace_index_valid.1
  simp only [komSmcInitDispatcher, Ctl.wp_ite, Ctl.wp_bind, Ctl.wp_pure, wp_pageIsTyped g,
    wp_pageMonvaddr, wp_pagePaddr, wp_loadWord, wp_storeWord, decide_eq_true_eq, hl1pt,
    DispatcherField.index_valid, and_true]
  refine Ctl.guard_intro (fun htyped => implements_error (if_pos htyped) _) (fun htyped => ?_)
  refine wp_allocateOr g htyped.1 (passed htyped) fun hfree hinit => ?_
  have hne : p ≠ a := ne_of_pageTyped hfree htyped (by decide)
  -- the root table is read after the new page was cleared
  have hl1 : updateCell (allocated m p a .dispatcher).securePages p
      (DispatcherField.csr .mepc).index e a KOM_ADDRSPACE_L1PT_PAGE
        = m.securePages a KOM_ADDRSPACE_L1PT_PAGE := by
    simp [allocated, hne.symm, KOM_ADDRSPACE_L1PT_PAGE, KOM_ADDRSPACE_REFCOUNT]
  have hl1valid : pageValid (m.securePages a KOM_ADDRSPACE_L1PT_PAGE) := hinv.l1ptValid a htyped
  rw [hl1]
  refine ⟨htyped.1, hfree.1, hfree.1, htyped.1, hl1valid, hfree.1, hfree.1, ?_⟩
  rw [pfnDown_securePage L hl1valid]
  apply implements_success (checkInitDispatcher_eq_none.mpr ⟨htyped, hfree, hinit⟩)
  apply absFunction_eq
  case htype => exact pagedb_update PagedbEntry.type _ _ _
  case howner => exact pagedb_update PagedbEntry.addrspacePage _ _ _
  case hpages =>
    simp only [createDispatcher, allocated, updateCell, updateRow, Function.update_self,
      Function.update_idem, Function.update_of_ne hne, Function.update_of_ne hne.symm]
    rw [Function.update_comm hne, Function.update_idem]
    rfl
  all_goals rfl

theorem wp_komSmcInitPtable (g : Ghost) (hinv : MregionsInvariants m) {parent child : PageType}
    (hparent : parent ≠ .free) (p pt i : Word) :
    Performs (komSmcInitPtable parent child L p pt i) m (specInitPtable parent child L (absFunction g m) p pt i) := by
  simp only [komSmcInitPtable, Ctl.wp_ite, Ctl.wp_bind, Ctl.wp_pure, wp_pageIsTyped g,
    wp_pageMonvaddr, wp_pagePaddr, wp_loadWord, wp_loadEntry, wp_storeWord, decide_eq_true_eq]
  refine Ctl.guard_intro (fun hi => implements_error (if_pos hi) _) (fun hi => ?_)
  refine Ctl.guard_intro (fun htyped => implements_error ((passed hi).trans (if_pos htyped)) _)
    (fun htyped => ?_)
  refine ⟨htyped.1, ⟨htyped.1, hi⟩, ?_⟩
  refine Ctl.guard_intro
    (fun hzero => implements_error ((passed hi).trans ((passed htyped).trans (if_pos hzero))) _)
    (fun hzero => ?_)
  have hcheck : checkInitPtable parent (absFunction g m) p pt i
      = checkAllocate (absFunction g m) p (m.gPagedb pt).addrspacePage :=
    (passed hi).trans ((passed htyped).trans (passed hzero))
  have howner : pageValid (m.gPagedb pt).addrspacePage :=
    hinv.ownerValid pt (pageNonfree_of_pageTyped htyped hparent)
  refine ⟨htyped.1, ?_⟩
  refine wp_allocateOr g howner hcheck fun hfree hinit => ?_
  refine ⟨hfree.1, ⟨htyped.1, hi⟩, ?_⟩
  rw [pfnDown_securePage L hfree.1, pfnPte_eq]
  apply implements_success (hcheck.trans (checkAllocate_eq_none.mpr ⟨hfree, hinit⟩))
  apply absFunction_eq
  case htype => exact pagedb_update PagedbEntry.type _ _ _
  case howner => exact pagedb_update PagedbEntry.addrspacePage _ _ _
  all_goals rfl

theorem wp_komSmcMapSecure (g : Ghost) (hinv : MregionsInvariants m) (p l i map c : Word) :
    Performs (komSmcMapSecure L p l i map c) m (specKomSmcMapSecure L (absFunction g m) p l i map c) := by
  simp only [komSmcMapSecure, memcpyPage, Ctl.wp_ite, Ctl.wp_bind, Ctl.wp_pure, Ctl.wp_bugOn,
    Ctl.wp_modify, wp_pageIsTyped g, wp_pageMonvaddr, wp_pagePaddr, wp_loadWord, wp_loadEntry,
    wp_storeWord, decide_eq_true_eq, not_not]
  refine Ctl.guard_intro (fun hi => implements_error (if_pos hi) _) (fun hi => ?_)
  refine Ctl.guard_intro (fun hc => implements_error ((passed hi).trans (if_pos (Or.inl hc))) _)
    (fun hc => ?_)
  refine Ctl.guard_intro
    (fun htyped => implements_error ((passed hi).trans (if_pos (Or.inr htyped))) _)
    (fun htyped => ?_)
  have hargs : ¬ (¬ insecurePageValid c ∨ ¬ (absFunction g m).pageTyped l .l3ptable) :=
    not_or.mpr ⟨not_not.mpr hc, not_not.mpr htyped⟩
  refine ⟨htyped.1, ⟨htyped.1, hi⟩, ?_⟩
  refine Ctl.guard_intro
    (fun hzero => implements_error ((passed hi).trans ((if_neg hargs).trans (if_pos hzero))) _)
    (fun hzero => ?_)
  have hcheck : checkMapSecure (absFunction g m) p l i c
      = checkAllocate (absFunction g m) p (m.gPagedb l).addrspacePage :=
    (passed hi).trans ((if_neg hargs).trans (passed hzero))
  have howner : pageValid (m.gPagedb l).addrspacePage :=
    hinv.ownerValid l (pageNonfree_of_pageTyped htyped (by decide))
  refine ⟨htyped.1, ?_⟩
  refine wp_allocateOr g howner hcheck fun hfree hinit => ?_
  refine ⟨hfree.1, ⟨htyped.1, hi⟩, hfree.1, ⟨hfree.1, hc⟩, ?_⟩
  rw [pfnDown_securePage L hfree.1, pfnPte_eq, enclaveProt_eq]
  apply implements_success (hcheck.trans (checkAllocate_eq_none.mpr ⟨hfree, hinit⟩))
  apply absFunction_eq
  case htype => exact pagedb_update PagedbEntry.type _ _ _
  case howner => exact pagedb_update PagedbEntry.addrspacePage _ _ _
  all_goals rfl

theorem wp_komSmcMapInsecure (g : Ghost) (hinv : MregionsInvariants m) (l i map n : Word) :
    Performs (komSmcMapInsecure L l i map n) m (specKomSmcMapInsecure L (absFunction g m) l i map n) := by
  have hstate := addrspace_index_valid.2.2
  simp only [komSmcMapInsecure, Ctl.wp_ite, Ctl.wp_bind, Ctl.wp_pure, wp_pageIsTyped g,
    wp_pageMonvaddr, wp_loadWord, wp_loadEntry, wp_storeWord, decide_eq_true_eq, hstate, and_true]
  refine Ctl.guard_intro (fun hn => implements_error (if_pos hn) _) (fun hn => ?_)
  refine Ctl.guard_intro (fun hi => implements_error ((passed hn).trans (if_pos hi)) _)
    (fun hi => ?_)
  refine Ctl.guard_intro
    (fun htyped => implements_error ((passed hn).trans ((passed hi).trans (if_pos htyped))) _)
    (fun htyped => ?_)
  refine ⟨htyped.1, ⟨htyped.1, hi⟩, ?_⟩
  refine Ctl.guard_intro (fun hzero => implements_error ?_ _) (fun hzero => ?_)
  · exact (passed hn).trans ((passed hi).trans ((passed htyped).trans (if_pos hzero)))
  have howner : pageValid (m.gPagedb l).addrspacePage :=
    hinv.ownerValid l (pageNonfree_of_pageTyped htyped (by decide))
  refine ⟨htyped.1, howner, howner, ?_⟩
  refine Ctl.guard_intro (fun hinit => implements_error ?_ _) (fun hinit => ?_)
  · exact (passed hn).trans
      ((passed hi).trans ((passed htyped).trans ((passed hzero).trans (if_pos hinit))))
  refine ⟨⟨htyped.1, hi⟩, ?_⟩
  rw [pfnDown_insecurePage L hn, pfnPte_eq, enclaveProt_eq]
  apply implements_success (checkMapInsecure_eq_none.mpr ⟨hn, hi, htyped, hzero, hinit⟩)
  apply absFunction_eq <;> rfl

/-! ## Tearing enclaves down -/

theorem wp_dropPage (g : Ghost) {p a : Word} (hcheck : check = none) (hp : pageValid p) (ha : pageValid a)
    (howner : (m.gPagedb p).addrspacePage = a) :
    Performs (dropPage p a) m (guarded (absFunction g m) check
      (setReturn (releasePage (absFunction g m) p) KomErr.success.val)) := by
  subst howner
  simp only [dropPage, Ctl.wp_bind, Ctl.wp_pure, wp_loadWord, wp_storeWord, wp_storeEntry, hp, ha,
    addrspace_index_valid.2.1, and_self, true_and, Function.update_self, Function.update_idem]
  apply implements_success hcheck
  apply absFunction_eq
  case htype => exact pagedb_update PagedbEntry.type _ _ _
  case howner => exact pagedb_update PagedbEntry.addrspacePage _ _ _
  all_goals rfl

theorem wp_komSmcRemove (g : Ghost) (hinv : MregionsInvariants m)
    (hmode : m.enclaveMode = 0) (p : Word) :
    Performs (komSmcRemove p) m (specKomSmcRemove (absFunction g m) p) := by
  have hhost : (absFunction g m).enclaveMode = false := decide_eq_false (not_not.mpr hmode)
  have hhost' : ¬ (absFunction g m).enclaveMode = true := by
    rw [hhost]
    exact Bool.false_ne_true
  rcases addrspace_index_valid with ⟨-, hcount, hstate⟩
  simp only [komSmcRemove, Ctl.wp_ite, Ctl.wp_bind, Ctl.wp_pure, wp_pageMonvaddr, wp_loadWord,
    wp_loadEntry, hcount, hstate, and_true]
  refine Ctl.guard_intro (fun hp => implements_error ((if_neg hhost').trans (if_pos hp)) _)
    (fun hp => ?_)
  refine ⟨hp, ?_⟩
  have hfirst : ∀ {rest : Option KomErr},
      (if (absFunction g m).enclaveMode = true then some KomErr.alreadyEntered
        else if ¬ pageValid p then some .invalidPageno else rest) = rest :=
    (if_neg hhost').trans (passed hp)
  by_cases hfree : (m.gPagedb p).type = PageType.free.val
  · rw [if_pos hfree]
    exact implements_error (hfirst.trans (if_pos ⟨hp, hfree⟩)) _
  rw [if_neg hfree]
  have hfree' : ¬ (absFunction g m).pageFree p := fun h => hfree h.2
  by_cases haddrspace : (m.gPagedb p).type = PageType.addrspace.val
  · rw [if_pos haddrspace]
    have htyped : (absFunction g m).pageTyped p .addrspace := ⟨hp, haddrspace⟩
    refine ⟨hp, hp, ?_⟩
    refine Ctl.guard_intro
      (fun hone => implements_error (hfirst.trans ((if_neg hfree').trans (if_pos ⟨htyped, hone⟩))) _)
      (fun hone => ⟨hp, ?_⟩)
    refine Ctl.guard_intro (fun hstopped => implements_error ?_ _) (fun hstopped => ?_)
    · exact hfirst.trans ((if_neg hfree').trans
        ((if_neg (fun h => h.2 hone)).trans (if_pos ⟨htyped, hstopped⟩)))
    · have hcheck : checkRemove (absFunction g m) p = none :=
        checkRemove_eq_none.mpr
          ⟨hhost, hp, hfree', fun _ => ⟨hone, hstopped⟩, fun h => absurd htyped h⟩
      exact wp_dropPage g hcheck hp hp (hinv.selfOwned p htyped).symm
  · rw [if_neg haddrspace]
    have htyped : ¬ (absFunction g m).pageTyped p .addrspace := fun h => haddrspace h.2
    have howner : pageValid (m.gPagedb p).addrspacePage := hinv.ownerValid p ⟨hp, hfree⟩
    refine ⟨howner, howner, ?_⟩
    refine Ctl.guard_intro (fun hstopped => implements_error ?_ _) (fun hstopped => ?_)
    · exact hfirst.trans ((if_neg hfree').trans ((if_neg (fun h => htyped h.1)).trans
        ((if_neg (fun h => htyped h.1)).trans (if_pos ⟨htyped, hstopped⟩))))
    · have hcheck : checkRemove (absFunction g m) p = none :=
        checkRemove_eq_none.mpr
          ⟨hhost, hp, hfree', fun h => absurd h htyped, fun _ => hstopped⟩
      exact wp_dropPage g hcheck hp howner rfl

theorem wp_komSmcFinalise (g : Ghost) (m : Machine) (a : Word) :
    Performs (komSmcFinalise a) m (specKomSmcFinalise (absFunction g m) a) := by
  simp only [komSmcFinalise, Ctl.wp_ite, Ctl.wp_bind, Ctl.wp_pure, wp_pageIsTyped g,
    wp_pageMonvaddr, wp_loadWord, wp_storeWord, decide_eq_true_eq, addrspace_index_valid.2.2,
    and_true]
  refine Ctl.guard_intro (fun htyped => implements_error (if_pos htyped) _) (fun htyped => ?_)
  refine ⟨htyped.1, htyped.1, ?_⟩
  refine Ctl.guard_intro (fun hinit => implements_error ((passed htyped).trans (if_pos hinit)) _)
    (fun hinit => ⟨htyped.1, ?_⟩)
  apply implements_success (checkFinalise_eq_none.mpr ⟨htyped, hinit⟩)
  apply absFunction_eq <;> rfl

theorem wp_komSmcStop (g : Ghost) (m : Machine) (a : Word) :
    Performs (komSmcStop a) m (specKomSmcStop (absFunction g m) a) := by
  simp only [komSmcStop, Ctl.wp_ite, Ctl.wp_bind, Ctl.wp_pure, wp_pageIsTyped g,
    wp_pageMonvaddr, wp_storeWord, decide_eq_true_eq, addrspace_index_valid.2.2, and_true]
  refine Ctl.guard_intro (fun htyped => implements_error (if_pos htyped) _) (fun htyped => ?_)
  refine ⟨htyped.1, htyped.1, ?_⟩
  apply implements_success (checkStop_eq_none.mpr htyped)
  apply absFunction_eq <;> rfl

/-! ## Entering an enclave -/

/-- The CSRs of an enclave that runs from a saved context. -/
def enteredCsrs (f : CsrFile) (area : SavedCsr → Word) : CsrFile :=
  let f := restoreCsrs csrsH f area
  let f := pmpcfgWrite f 5 (PMPCFG_A_TOR ||| PMPCFG_R ||| PMPCFG_W ||| PMPCFG_X)
  let f := csrSet f .mstatus SR_TVM
  csrWrite (csrWrite f .mideleg 0) .medeleg 0

theorem readCsrs_enteredCsrs (f : CsrFile) {area : SavedCsr → Word} (h : Masked area) :
    readCsrs (enteredCsrs f area) = area := by
  rw [enteredCsrs, readCsrs_csrWrite_of_machineOnly _ _ rfl, readCsrs_csrWrite_of_machineOnly _ _ rfl,
    readCsrs_csrSet_mstatus _ (by decide), readCsrs_pmpcfgWrite, readCsrs_restoreCsrs csrsH f h]

theorem tvm_or (x : Word) : SR_TVM &&& (x ||| SR_TVM) ≠ 0 := by
  intro heq
  have habsorb : SR_TVM &&& (x ||| SR_TVM) = SR_TVM := by
    ext i hi
    simp only [BitVec.getElem_and, BitVec.getElem_or]
    cases SR_TVM[i] <;> simp
  rw [habsorb] at heq
  revert heq
  decide

theorem enteredCsrs_csrInvariants {enclave : Bool} {f : CsrFile} (h : CsrInvariants L enclave f)
    (area : SavedCsr → Word) : CsrInvariants L true (enteredCsrs f area) :=
  csrInvariants_switch h area true (fun _ => tvm_or _) 0 0

theorem enteredCsrs_tvm (f : CsrFile) (area : SavedCsr → Word) : SR_TVM &&& enteredCsrs f area .mstatus ≠ 0 := by
  rw [enteredCsrs, csrWrite_of_ne _ _ (by decide), csrWrite_of_ne _ _ (by decide), csrSet,
    csrWrite_mstatus_self]
  exact tvm_or _

theorem enteredCsrs_traps (f : CsrFile) (area : SavedCsr → Word) :
    enteredCsrs f area .mideleg = 0 ∧ enteredCsrs f area .medeleg = 0 := by
  constructor
  · rw [enteredCsrs, csrWrite_of_ne _ _ (by decide), csrWrite_of_machineOnly _ _ rfl]
    exact Function.update_self _ _ _
  · rw [enteredCsrs, csrWrite_of_machineOnly _ _ rfl]
    exact Function.update_self _ _ _

theorem enteredCsrs_mpp (f : CsrFile) (area : SavedCsr → Word) :
    SR_MPP &&& enteredCsrs f area .mstatus = SR_MPP &&& f .mstatus := by
  rw [enteredCsrs, csrWrite_of_ne _ _ (by decide), csrWrite_of_ne _ _ (by decide), csrSet,
    csrWrite_mstatus_self, csrRead_mstatus, BitVec.and_or_distrib_left, pmpcfgWrite_eq,
    Function.update_of_ne (by decide), and_restoreCsrs_mstatus csrsH f area (by decide)]
  have hdisjoint : SR_MPP &&& SR_TVM = 0 := by decide
  rw [hdisjoint]
  exact BitVec.or_zero

/-- The machine behind `enter_secure_world`. -/
def entered (m : Machine) (d : Word) : Machine :=
  { m with
    hostState := ⟨m.regs, readCsrs m.csrs⟩
    csrs := enteredCsrs m.csrs (dispatcherRegs (m.securePages d)).csr
    enclaveMode := 1
    gCurDispatcherPageno := d }

theorem wp_enterSecureWorld (d : Word) : Ctl.wp (enterSecureWorld d) Q E m ↔ pageValid d ∧ Q () (entered m d) := by
  simp only [enterSecureWorld, restoreDispatcherCsrs, Ctl.wp_bind, Ctl.wp_modify, wp_modifyCsrs,
    wp_pageMonvaddr, copyPtRegs_eq, saveCsrs_eq_readCsrs]
  rfl

theorem entered_implements (g : Ghost) {d : Word}
    (hmasked : Masked (dispatcherRegs (m.securePages d)).csr) :
    Implements m (specEnterSecureWorld (absFunction g m) d)
      { entered m d with regs := (dispatcherRegs (m.securePages d)).gpr } := by
  constructor
  · apply absFunction_eq
    case hregs =>
      have hread := readCsrs_enteredCsrs m.csrs hmasked
      simp only [entered, hread]
      rfl
    all_goals rfl
  · intro K hcsrs
    exact enteredCsrs_csrInvariants hcsrs _
  · intro _ _
    exact enteredCsrs_tvm _ _
  · intro _ _
    exact enteredCsrs_traps _ _
  · exact enteredCsrs_mpp _ _

/-- A call that enters an enclave when its checks pass. -/
theorem wp_enterAndMret (g : Ghost) {d : Word} (hd : (absFunction g m).pageTyped d .dispatcher)
    (hmasked : Masked (dispatcherRegs (m.securePages d)).csr) {Q : Word → Machine → Prop} :
    Ctl.wp (enterSecureWorld d >>= fun _ => mretDispatcher d) Q
      (fun r m' => Implements m (specEnterSecureWorld (absFunction g m) d) { m' with regs := r })
      m := by
  simp only [Ctl.wp_bind, wp_enterSecureWorld, mretDispatcher, Ctl.wp_get, Ctl.wp_leave]
  exact ⟨hd.1, entered_implements g hmasked⟩

theorem wp_komSmcEnter (g : Ghost) (hinv : MregionsInvariants m)
    (d a1 a2 a3 : Word) :
    Performs (komSmcEnter d a1 a2 a3) m (specKomSmcEnter (absFunction g m) d a1 a2 a3) := by
  have htable := (mregionsInvariants_iff g m).mp hinv
  unfold komSmcEnter
  simp only [Ctl.wp_ite, Ctl.wp_pure, wp_pageIsTyped g, wp_pageMonvaddr, wp_loadWord, wp_loadEntry,
    wp_storeWord, decide_eq_true_eq, addrspace_index_valid.2.2, DispatcherField.index_valid, and_true,
    Ctl.wp_bind (pageIsTyped _ _), Ctl.wp_bind (pageMonvaddr _), Ctl.wp_bind (loadEntry _),
    Ctl.wp_bind (loadWord _ _), Ctl.wp_bind (storeWord _ _ _)]
  refine Ctl.guard_intro (fun hd => implements_error (if_pos hd) _) (fun hd => ?_)
  have howner : pageValid (m.gPagedb d).addrspacePage :=
    hinv.ownerValid d (pageNonfree_of_pageTyped hd (by decide))
  refine ⟨hd.1, hd.1, howner, howner, ?_⟩
  refine Ctl.guard_intro (fun hfinal => implements_error ((passed hd).trans (if_pos hfinal)) _)
    (fun hfinal => ⟨hd.1, ?_⟩)
  refine Ctl.guard_intro
    (fun hin => implements_error ((passed hd).trans ((passed hfinal).trans (if_pos hin))) _)
    (fun hin => ⟨hd.1, hd.1, hd.1, ?_⟩)
  have hcheck : checkEnter (absFunction g m) d = none := checkEnter_eq_none.mpr ⟨hd, hfinal, hin⟩
  have hmasked := (htable.setDispatcherArgs hd a1 a2 a3).dispatcherMasked d hd
  rw [specKomSmcEnter, hcheck]
  -- the enclave is entered on the machine whose dispatcher page already holds the arguments
  let m₁ : Machine := { m with securePages := (setDispatcherArgs (absFunction g m) d a1 a2 a3).pages }
  have hd₁ : (absFunction g m₁).pageTyped d .dispatcher := hd
  refine Ctl.wp_mono (fun _ _ h => h) ?_ (wp_enterAndMret (m := m₁) g hd₁ hmasked)
  intro r m' h
  exact ⟨h.abs, h.csrs, h.tvm, h.traps, h.mpp⟩

theorem wp_komSmcResume (g : Ghost) (hinv : MregionsInvariants m) (d : Word) :
    Performs (komSmcResume d) m (specKomSmcResume (absFunction g m) d) := by
  have htable := (mregionsInvariants_iff g m).mp hinv
  unfold komSmcResume
  simp only [Ctl.wp_ite, Ctl.wp_pure, wp_pageIsTyped g, wp_pageMonvaddr, wp_loadWord, wp_loadEntry,
    decide_eq_true_eq, addrspace_index_valid.2.2, DispatcherField.index_valid, and_true,
    Ctl.wp_bind (pageIsTyped _ _), Ctl.wp_bind (pageMonvaddr _), Ctl.wp_bind (loadEntry _),
    Ctl.wp_bind (loadWord _ _)]
  refine Ctl.guard_intro (fun hd => implements_error (if_pos hd) _) (fun hd => ?_)
  have howner : pageValid (m.gPagedb d).addrspacePage :=
    hinv.ownerValid d (pageNonfree_of_pageTyped hd (by decide))
  refine ⟨hd.1, hd.1, howner, howner, ?_⟩
  refine Ctl.guard_intro (fun hfinal => implements_error ((passed hd).trans (if_pos hfinal)) _)
    (fun hfinal => ⟨hd.1, ?_⟩)
  by_cases hin : m.securePages d DispatcherField.entered.index = 0
  · rw [if_pos hin]
    exact implements_error ((passed hd).trans ((passed hfinal).trans (if_pos hin))) _
  rw [if_neg hin]
  have hcheck : checkResume (absFunction g m) d = none := checkResume_eq_none.mpr ⟨hd, hfinal, hin⟩
  rw [specKomSmcResume, hcheck]
  exact wp_enterAndMret g hd (htable.dispatcherMasked d hd)

/-! ## Leaving an enclave -/

/-- The code fills a dispatcher page in the order of `struct kom_dispatcher`; the order does not
matter. -/
theorem saveDispatcherRegs_eq (words : Word → Word) (entered : Word) (regs : Regs) :
    writeAll (fun c => (DispatcherField.csr c).index) (fun c _ => regs.csr c) SavedCsr.all
        (writeAll (fun r => (DispatcherField.gpr r).index) (fun r _ => regs.gpr r) Gpr.all
          (Function.update words DispatcherField.entered.index entered))
      = saveDispatcher words entered regs := by
  have hgprs : Gpr.all.Pairwise (fun r r' => (DispatcherField.gpr r).index
      ≠ (DispatcherField.gpr r').index) := by
    simp only [ne_eq, DispatcherField.index_inj, DispatcherField.gpr.injEq]
    decide
  have hcsrs : SavedCsr.all.Pairwise (fun c c' => (DispatcherField.csr c).index
      ≠ (DispatcherField.csr c').index) := by
    simp only [ne_eq, DispatcherField.index_inj, DispatcherField.csr.injEq]
    decide
  funext i
  by_cases hi : ∃ f : DispatcherField, f.index = i
  · rcases hi with ⟨f, rfl⟩
    rw [saveDispatcher_index]
    cases f with
    | csr c => exact writeAll_of_mem hcsrs c.mem_all
    | gpr r =>
        rw [writeAll_of_not_mem (by simp)]
        exact writeAll_of_mem hgprs r.mem_all
    | entered =>
        rw [writeAll_of_not_mem (by simp), writeAll_of_not_mem (by simp)]
        exact Function.update_self _ _ _
  · have hi' : ∀ f : DispatcherField, f.index ≠ i := fun f heq => hi ⟨f, heq⟩
    rw [saveDispatcher_of_ne words entered regs hi', writeAll_of_not_mem (fun c _ => hi' _),
      writeAll_of_not_mem (fun r _ => hi' _), Function.update_of_ne (hi' _).symm]

/-- The CSRs of the host, back from an enclave. -/
def leftCsrs (f : CsrFile) (area : SavedCsr → Word) : CsrFile :=
  let f := restoreCsrs csrsH f area
  let f := pmpcfgWrite f 5 PMPCFG_A_TOR
  let f := csrClear f .mstatus SR_TVM
  csrWrite (csrWrite f .mideleg (IDEL_SOFT_S ||| IDEL_TIMER_S ||| IDEL_EXT_S)) .medeleg
    delegatedExceptions

theorem readCsrs_leftCsrs (f : CsrFile) {area : SavedCsr → Word} (h : Masked area) :
    readCsrs (leftCsrs f area) = area := by
  rw [leftCsrs, readCsrs_csrWrite_of_machineOnly _ _ rfl, readCsrs_csrWrite_of_machineOnly _ _ rfl,
    readCsrs_csrClear_mstatus _ (by decide), readCsrs_pmpcfgWrite, readCsrs_restoreCsrs csrsH f h]

theorem leftCsrs_csrInvariants {enclave : Bool} {f : CsrFile} (h : CsrInvariants L enclave f)
    (area : SavedCsr → Word) : CsrInvariants L false (leftCsrs f area) :=
  csrInvariants_switch h area false (fun hfalse => absurd hfalse Bool.false_ne_true) _ _

theorem leftCsrs_mpp (f : CsrFile) (area : SavedCsr → Word) :
    SR_MPP &&& leftCsrs f area .mstatus = SR_MPP &&& f .mstatus := by
  rw [leftCsrs, csrWrite_of_ne _ _ (by decide), csrWrite_of_ne _ _ (by decide), csrClear,
    csrWrite_mstatus_self, csrRead_mstatus, pmpcfgWrite_eq, Function.update_of_ne (by decide),
    ← BitVec.and_assoc, BitVec.and_comm _ (~~~SR_TVM), ← BitVec.and_assoc]
  have hkept : ~~~SR_TVM &&& SR_MPP = SR_MPP := by decide
  rw [hkept, and_restoreCsrs_mstatus csrsH f area (by decide)]

/-- The machine behind `leave_secure_world`. -/
def left (m : Machine) (entered : Bool) : Machine :=
  { m with
    securePages := Function.update m.securePages m.gCurDispatcherPageno
      (saveDispatcher (m.securePages m.gCurDispatcherPageno) (if entered then 1 else 0)
        ⟨m.regs, readCsrs m.csrs⟩)
    csrs := leftCsrs m.csrs m.hostState.csr
    enclaveMode := 0
    gCurDispatcherPageno := 0 }

theorem wp_leaveSecureWorld (entered : Bool) :
    Ctl.wp (leaveSecureWorld entered) Q E m ↔
      pageValid m.gCurDispatcherPageno ∧ Q () (left m entered) := by
  simp only [leaveSecureWorld, saveDispatcherRegs, Ctl.wp_bind, Ctl.wp_gets, Ctl.wp_modify,
    wp_modifyCsrs, wp_pageMonvaddr, wp_storeWord, DispatcherField.index_valid, and_true, updateCell,
    Function.update_self, Function.update_idem]
  have hsave := saveDispatcherRegs_eq (m.securePages m.gCurDispatcherPageno)
    (if entered then 1 else 0) ⟨m.regs, readCsrs m.csrs⟩
  simp only [readCsrs] at hsave
  rw [hsave]
  constructor
  · rintro ⟨hcur, _, hQ⟩
    exact ⟨hcur, hQ⟩
  · rintro ⟨hcur, hQ⟩
    exact ⟨hcur, hcur, hQ⟩

theorem wp_returnToHost {Q : Word → Machine → Prop} (g : Ghost)
    (hinv : MregionsInvariants m) (a0 a1 : Word) (entered : Bool) :
    Ctl.wp (returnToHost a0 a1 entered) Q
      (fun r m' => Implements m
        (specLeaveSecureWorld (setHostReturn (absFunction g m) a0 a1) m.gCurDispatcherPageno entered)
        { m' with regs := r }) m := by
  have htable := (mregionsInvariants_iff g m).mp hinv
  simp only [returnToHost, Ctl.wp_bind, Ctl.wp_modify, wp_leaveSecureWorld, Ctl.wp_get,
    Ctl.wp_leave]
  refine ⟨hinv.currentValid, ?_⟩
  constructor
  · apply absFunction_eq
    case hregs =>
      have hread := readCsrs_leftCsrs m.csrs htable.hostMasked
      exact congrArg
        (Regs.mk ((m.hostState.setGpr .a0 a0).setGpr .a1 a1).gpr) hread
    all_goals rfl
  · intro K hcsrs
    exact leftCsrs_csrInvariants hcsrs _
  · intro _ hmode
    exact absurd rfl hmode
  · intro _ hmode
    exact absurd rfl hmode
  · exact leftCsrs_mpp _ _

end Calls

/-! ## The trap handler -/

section Trap

variable {L : Layout} {m : Machine} {g : Ghost}

/-- The machine after `mepc` has moved past the `ecall`. -/
def pastEcall (m : Machine) : Machine :=
  { m with csrs := csrWrite m.csrs .mepc (csrRead m.csrs .mepc + 4) }

theorem absFunction_pastEcall (g : Ghost) (m : Machine) :
    absFunction g (pastEcall m) = advanceMepc (absFunction g m) :=
  congrArg (fun r => { absFunction g m with regs := r }) (readCsrs_stepMepc m.regs m.csrs)

theorem MregionsInvariants.pastEcall (h : MregionsInvariants m) : MregionsInvariants (pastEcall m) :=
  ⟨h.ownerValid, h.l1ptValid, h.selfOwned, h.dispatcherMasked, h.currentValid, h.enclaveDispatcher,
    h.hostMasked⟩

theorem Implements.of_pastEcall {s' : State} {m' : Machine}
    (h : Implements (Komodo.pastEcall m) s' m') : Implements m s' m' :=
  ⟨h.abs, fun K hcsrs => h.csrs K (hcsrs.csrWrite_mepc _), h.tvm, h.traps, h.mpp⟩

theorem wp_doCalls {dispatch : PtRegs → Monitor Word} {E : PtRegs → Machine → Prop} :
    Ctl.wp (doCalls dispatch) Q E m ↔
      Ctl.wp (dispatch m.regs) (fun r m' => Q () (withReturn m' r)) E (pastEcall m) := by
  simp only [doCalls, Ctl.wp_bind, Ctl.wp_gets, wp_modifyCsrs, Ctl.wp_modify]
  rfl

/-- What the specification makes of a call outside enclave mode. -/
def specSmcCall (L : Layout) (call : Option Smc) (s : State) : State :=
  match call with
  | some call => specSmc L call s
  | none => setReturn s (-ENOSYS)

theorem performs_ite {c : Prop} [Decidable c] {b₁ b₂ : Monitor Word} {call₁ call₂ : Option Smc}
    (h₁ : Performs b₁ m (specSmcCall L call₁ (absFunction g m)))
    (h₂ : Performs b₂ m (specSmcCall L call₂ (absFunction g m))) :
    Performs (if c then b₁ else b₂) m (specSmcCall L (if c then call₁ else call₂) (absFunction g m)) := by
  split
  · exact h₁
  · exact h₂

theorem wp_smcDispatch (L : Layout) (g : Ghost) (hinv : MregionsInvariants m)
    (hmode : m.enclaveMode = 0) (r : PtRegs) :
    Performs (smcDispatch L r) m (specSmcCall L (Smc.ofRegs r) (absFunction g m)) := by
  unfold smcDispatch Smc.ofRegs
  refine performs_ite (implements_setReturn g m _) ?_
  refine performs_ite (implements_setReturn g m _) ?_
  refine performs_ite (wp_komSmcInitAddrspace g m _ _) ?_
  refine performs_ite (wp_komSmcInitDispatcher g hinv _ _ _) ?_
  refine performs_ite (wp_komSmcInitPtable g hinv (by decide) _ _ _) ?_
  refine performs_ite (wp_komSmcInitPtable g hinv (by decide) _ _ _) ?_
  refine performs_ite (wp_komSmcMapSecure g hinv _ _ _ _ _) ?_
  refine performs_ite (wp_komSmcMapInsecure g hinv _ _ _ _) ?_
  refine performs_ite (wp_komSmcRemove g hinv hmode _) ?_
  refine performs_ite (wp_komSmcFinalise g m _) ?_
  refine performs_ite (wp_komSmcEnter g hinv _ _ _ _) ?_
  refine performs_ite (wp_komSmcResume g hinv _) ?_
  refine performs_ite (wp_komSmcStop g m _) ?_
  exact implements_setReturn g m _

/-- `KOM_SVC_EXIT` is not a call of the operating system. -/
theorem ofRegs_svcExit {r : PtRegs} (h : r .a7 = KOM_SVC_EXIT) : Smc.ofRegs r = none := by
  unfold Smc.ofRegs
  rw [h]
  rfl

theorem specEcall_of_host (L : Layout) (h : s.enclaveMode = false) :
    specEcall L s = specSmcCall L (Smc.ofRegs s.regs.gpr) (advanceMepc s) := by
  unfold specEcall
  by_cases hexit : s.regs.gpr .a7 = KOM_SVC_EXIT
  · rw [if_pos hexit, ofRegs_svcExit hexit]
    exact specKomSvcExit_of_host _ h
  · rw [if_neg hexit]
    cases Smc.ofRegs s.regs.gpr with
    | some call => exact makeSmcSpec_of_host _ h
    | none => rfl

theorem specEcall_of_enclave (L : Layout) (h : s.enclaveMode = true) (hexit : s.regs.gpr .a7 ≠ KOM_SVC_EXIT) :
    specEcall L s = setReturn (advanceMepc s) (-ENOSYS) := by
  unfold specEcall
  rw [if_neg hexit]
  cases Smc.ofRegs s.regs.gpr with
  | some call => exact makeSmcSpec_of_enclave _ h
  | none => rfl

theorem wp_svcDispatch (L : Layout) (g : Ghost) (hinv : MregionsInvariants m)
    (hmode : m.enclaveMode ≠ 0) :
    Performs (svcDispatch m.regs) (pastEcall m) (specEcall L (absFunction g m)) := by
  have henclave : (absFunction g m).enclaveMode = true := decide_eq_true hmode
  unfold svcDispatch
  by_cases hexit : m.regs .a7 = KOM_SVC_EXIT
  · have hspec : specEcall L (absFunction g m) =
        specLeaveSecureWorld (setHostReturn (absFunction g (pastEcall m)) 0 (m.regs .a0))
          m.gCurDispatcherPageno false := by
      rw [absFunction_pastEcall]
      exact (if_pos hexit).trans (specKomSvcExit_of_enclave _ henclave)
    rw [if_pos hexit, hspec]
    exact wp_returnToHost g hinv.pastEcall 0 (m.regs .a0) false
  · rw [if_neg hexit, specEcall_of_enclave L henclave hexit, ← absFunction_pastEcall]
    exact implements_setReturn g (pastEcall m) _

theorem wp_doTrapEcallS (L : Layout) (g : Ghost) (hinv : MregionsInvariants m) :
    Ctl.wp (doTrapEcallS L) (fun _ m' => Implements m (specEcall L (absFunction g m)) m')
      (fun r m' => Implements m (specEcall L (absFunction g m)) { m' with regs := r }) m := by
  simp only [doTrapEcallS, Ctl.wp_bind, Ctl.wp_gets, Ctl.wp_ite, wp_doCalls]
  by_cases hmode : m.enclaveMode ≠ 0
  · rw [if_pos hmode]
    refine Ctl.wp_mono ?_ ?_ (wp_svcDispatch L g hinv hmode)
    · intro v m' h
      exact h.of_pastEcall
    · intro v m' h
      exact h.of_pastEcall
  · rw [if_neg hmode]
    have hhost : (absFunction g m).enclaveMode = false := decide_eq_false hmode
    have hdispatch := wp_smcDispatch L g hinv.pastEcall (not_not.mp hmode) m.regs
    rw [absFunction_pastEcall] at hdispatch
    rw [specEcall_of_host L hhost]
    refine Ctl.wp_mono ?_ ?_ hdispatch
    · intro v m' h
      exact h.of_pastEcall
    · intro v m' h
      exact h.of_pastEcall

/-- One activation of `do_trap` does what the specification does. -/
theorem wp_doTrap (L : Layout) (g : Ghost) (hinv : MregionsInvariants m) (cause : Word) :
    Ctl.wp (doTrap L cause) (fun _ m' => Implements m (specTrap L cause (absFunction g m)) m')
      (fun r m' => Implements m (specTrap L cause (absFunction g m)) { m' with regs := r }) m := by
  unfold doTrap specTrap
  by_cases hcause : cause = EXC_ECALL_S
  · rw [if_pos hcause, if_pos hcause]
    exact wp_doTrapEcallS L g hinv
  rw [if_neg hcause, if_neg hcause]
  simp only [Ctl.wp_bind, Ctl.wp_gets, Ctl.wp_ite]
  by_cases hmode : m.enclaveMode ≠ 0
  · have henclave : (absFunction g m).enclaveMode = true := decide_eq_true hmode
    have herror : (if cause.slt 0 then KomErr.interrupted.val else KomErr.fault.val)
        = (trapError cause).val := by
      unfold trapError
      split <;> rfl
    rw [if_pos hmode, specKomHandleTrap_of_enclave cause henclave, komHandleTrap, herror]
    exact wp_returnToHost g hinv (trapError cause).val cause true
  · have hhost : (absFunction g m).enclaveMode = false := decide_eq_false hmode
    rw [if_neg hmode, specKomHandleTrap_of_host cause hhost]
    exact ⟨rfl, fun _ => id, id, id, rfl⟩

/-- The activation as a whole: it never fails, and one step of the specification describes it. -/
theorem trap_implements (L : Layout) (g : Ghost) (hinv : MregionsInvariants m) (cause : Word) :
    ∃ m', trap L cause m = some m' ∧ MregionsInvariants m' ∧
      Implements m (specTrap L cause (absFunction g m)) m' := by
  rcases Ctl.exists_finish_of_wp (wp_doTrap L g hinv cause) with ⟨m', hrun, himpl⟩
  have htable : TableInvariants (specTrap L cause (absFunction g m)) :=
    (TableInvariants.preserved L).specTrap cause ((mregionsInvariants_iff g m).mp hinv)
  rw [← himpl.abs] at htable
  exact ⟨m', hrun, (mregionsInvariants_iff _ m').mpr htable, himpl⟩

/-- Refinement of the trap handler: from every state that satisfies the representation invariant,
whatever the cause and the trapped registers, `do_trap` ends, keeps the invariant, and takes the
abstraction where the specification takes it. -/
theorem doTrap_refines_specTrap (L : Layout) (m : Machine) (hrep : RepInvariant L m) (g : Ghost)
    (cause : Word) :
    ∃ m' g', trap L cause m = some m' ∧ RepInvariant L m' ∧
      absFunction g' m' = specTrap L cause (absFunction g m) := by
  rcases trap_implements L g hrep.mregions cause with ⟨m', hrun, hmregions, himpl⟩
  exact ⟨m', _, hrun, ⟨hmregions, himpl.csrs L hrep.csrs⟩, himpl.abs⟩

/-- The first `ecall` after boot makes an address space of pages 0 and 1. -/
theorem doTrap_refines_specTrap_booted :
    ∃ L m, L.securePages = 0x80400000 ∧ RepInvariant L m ∧
      m = { booted L (fun _ => 0) 0 0 (resetMachine L) with
        regs := fun r => if r = .a7 then KOM_SMC_INIT_ADDRSPACE else if r = .a1 then 1 else 0 } ∧
      ∃ m' g', trap L EXC_ECALL_S m = some m' ∧ (m'.gPagedb 0).type = PageType.addrspace.val ∧ RepInvariant L m' ∧
        absFunction g' m' = specTrap L EXC_ECALL_S (absFunction (initGhost 0) m) := by
  let L := imageLayout
  let m : Machine := { booted L (fun _ => 0) 0 0 (resetMachine L) with
    regs := fun r => if r = .a7 then KOM_SMC_INIT_ADDRSPACE else if r = .a1 then 1 else 0 }
  have hboot : RepInvariant L (booted L (fun _ => 0) 0 0 (resetMachine L)) :=
    booted_repInvariant (resetMachine_resetCsrs L) _ _ _
  rcases hboot with ⟨h, hcsrs⟩
  have hrep : RepInvariant L m := ⟨⟨h.1, h.2, h.3, h.4, h.5, h.6, h.7⟩, hcsrs⟩
  have htype : (trap L EXC_ECALL_S m).map (fun m' => (m'.gPagedb 0).type) = some PageType.addrspace.val := by
    decide +kernel
  rcases doTrap_refines_specTrap L m hrep (initGhost 0) EXC_ECALL_S with ⟨m', g', hrun, hrep', habs⟩
  rw [hrun] at htype
  exact ⟨L, m, rfl, hrep, rfl, m', g', hrun, Option.some.inj htype, hrep', habs⟩

end Trap

end Komodo
end Serval
