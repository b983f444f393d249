import Serval.Komodo.Invariants
import Serval.Komodo.Monitor

/-!
# Representation — how the Komodo monitor represents its specification

The abstraction function and the representation invariant follow `verif/impl.rkt` and
`verif/riscv.rkt`.  The abstraction takes the ghost components of the abstract state as an argument.

The rules at the end describe the monitor's accessors and `allocate_page` on the abstraction, so that
the calls are compared with the specification without looking into them again.
-/

namespace Serval
namespace Komodo

open Riscv

/-! ## Abstraction -/

/-- The components of the abstract state that the monitor does not store. -/
structure Ghost where
  currentAddrspace : Word
  pageRefcnt : Refcnt
  pgtablePn : Word → Word → Word
  pgtablePresent : Word → Word → Bool
  pgtablePerm : Word → Word → Word
  pgtableSecure : Word → Word → Bool

def absFunction (g : Ghost) (m : Machine) : State where
  regs := ⟨m.regs, readCsrs m.csrs⟩
  pagedbType := fun p => (m.gPagedb p).type
  pagedbAddrspace := fun p => (m.gPagedb p).addrspacePage
  pages := m.securePages
  insecurePages := m.payload
  enclaveMode := m.enclaveMode ≠ 0
  hostState := m.hostState
  currentDispatcher := m.gCurDispatcherPageno
  currentAddrspace := g.currentAddrspace
  pageRefcnt := g.pageRefcnt
  pgtablePn := g.pgtablePn
  pgtablePresent := g.pgtablePresent
  pgtablePerm := g.pgtablePerm
  pgtableSecure := g.pgtableSecure

def State.ghost (s : State) : Ghost :=
  ⟨s.currentAddrspace, s.pageRefcnt, s.pgtablePn, s.pgtablePresent, s.pgtablePerm, s.pgtableSecure⟩

/-- The monitor implements an abstract state when their stored components agree. -/
theorem absFunction_eq {m : Machine} {s : State} (hregs : ⟨m.regs, readCsrs m.csrs⟩ = s.regs)
    (htype : (fun p => (m.gPagedb p).type) = s.pagedbType)
    (howner : (fun p => (m.gPagedb p).addrspacePage) = s.pagedbAddrspace)
    (hpages : m.securePages = s.pages) (hinsecure : m.payload = s.insecurePages)
    (hmode : decide (m.enclaveMode ≠ 0) = s.enclaveMode) (hhost : m.hostState = s.hostState)
    (hdisp : m.gCurDispatcherPageno = s.currentDispatcher) : absFunction s.ghost m = s :=
  State.ext hregs htype howner hpages hinsecure hmode hhost hdisp rfl rfl rfl rfl rfl rfl

/-! ## Representation invariant -/

def implPageTyped (m : Machine) (pageno : Word) (type : PageType) : Prop :=
  pageValid pageno ∧ (m.gPagedb pageno).type = type.val

def implPageNonfree (m : Machine) (pageno : Word) : Prop :=
  pageValid pageno ∧ (m.gPagedb pageno).type ≠ PageType.free.val

/-- `mregions-invariants`. -/
structure MregionsInvariants (m : Machine) : Prop where
  ownerValid : ∀ p, implPageNonfree m p → pageValid (m.gPagedb p).addrspacePage
  l1ptValid : ∀ p, implPageTyped m p .addrspace → pageValid (m.securePages p KOM_ADDRSPACE_L1PT_PAGE)
  selfOwned : ∀ p, implPageTyped m p .addrspace → p = (m.gPagedb p).addrspacePage
  dispatcherMasked : ∀ p, implPageTyped m p .dispatcher →
    ~~~sstatusMask &&& m.securePages p (DispatcherField.csr .sstatus).index = 0 ∧
      ~~~sieMask &&& m.securePages p (DispatcherField.csr .sie).index = 0 ∧
      ~~~sipMask &&& m.securePages p (DispatcherField.csr .sip).index = 0
  currentValid : pageValid m.gCurDispatcherPageno
  enclaveDispatcher : m.enclaveMode ≠ 0 → implPageTyped m m.gCurDispatcherPageno .dispatcher
  hostMasked : ~~~sstatusMask &&& m.hostState.csr .sstatus = 0 ∧
    ~~~sieMask &&& m.hostState.csr .sie = 0 ∧ ~~~sipMask &&& m.hostState.csr .sip = 0

theorem mregionsInvariants_iff (g : Ghost) (m : Machine) :
    MregionsInvariants m ↔ TableInvariants (absFunction g m) := by
  have hmasked : ∀ p, Masked (dispatcherRegs (m.securePages p)).csr ↔ _ := fun p => masked_iff _
  constructor
  · intro h
    exact ⟨h.ownerValid, h.l1ptValid, h.selfOwned,
      fun p hp => (hmasked p).mpr (h.dispatcherMasked p hp), h.currentValid,
      fun hmode => h.enclaveDispatcher (of_decide_eq_true hmode), (masked_iff _).mpr h.hostMasked,
      readCsrs_masked m.csrs⟩
  · intro h
    exact ⟨h.ownerValid, h.l1ptValid, h.selfOwned,
      fun p hp => (hmasked p).mp (h.dispatcherMasked p hp), h.currentValid,
      fun hmode => h.enclaveDispatcher (decide_eq_true hmode), (masked_iff _).mp h.hostMasked⟩

/-- The permissions of the PMP entry for secure pages. -/
def securePerm (enclave : Bool) : Word :=
  if enclave then PMPCFG_R ||| PMPCFG_W ||| PMPCFG_X else 0

def komodoPmpcfg0 (enclave : Bool) : Word :=
  ((PMPCFG_A_TOR ||| securePerm enclave) <<< 40) |||
    ((PMPCFG_A_TOR ||| PMPCFG_R ||| PMPCFG_W ||| PMPCFG_X) <<< 24)

def komodoPmpaddr (L : Layout) (i : Fin 16) : Word :=
  if i = 2 then L.payloadStart >>> 2
  else if i = 3 then (L.payloadStart + KOM_INSECURE_RESERVE) >>> 2
  else if i = 4 then L.securePages >>> 2
  else if i = 5 then (L.securePages + KOM_SECURE_RESERVE) >>> 2
  else 0

/-- What the invariant says about the machine-level CSRs; it says nothing about the others. -/
def machineCsr (L : Layout) (enclave : Bool) : Csr → Option Word
  | .mtvec => some L.machineTrapVector
  | .mscratch => some (L.cpuStack + 0x7f00)
  | .pmpcfg0 => some (komodoPmpcfg0 enclave)
  | .pmpcfg2 => some 0
  | .pmpaddr i => some (komodoPmpaddr L i)
  | _ => none

structure CsrInvariants (L : Layout) (enclave : Bool) (f : CsrFile) : Prop where
  machine : ∀ c v, machineCsr L enclave c = some v → f c = v
  tvm : enclave = true → SR_TVM &&& f .mstatus ≠ 0

/-- `rep-invariant`. -/
structure RepInvariant (L : Layout) (m : Machine) : Prop where
  mregions : MregionsInvariants m
  csrs : CsrInvariants L (m.enclaveMode ≠ 0) m.csrs

/-! ## The CSR file -/

section Csrs

variable {L : Layout} {enclave : Bool} {f : CsrFile}

theorem machineCsr_machineOnly {c : Csr} {v : Word} (h : machineCsr L enclave c = some v) :
    c.machineOnly = true := by
  cases c <;> first | rfl | cases h

/-- Only the entry for secure pages depends on the mode. -/
theorem machineCsr_of_ne {c : Csr} (hc : c ≠ .pmpcfg0) (e e' : Bool) :
    machineCsr L e c = machineCsr L e' c := by
  cases c with
  | pmpcfg0 => exact absurd rfl hc
  | _ => rfl

theorem CsrInvariants.csrWrite_mepc (h : CsrInvariants L enclave f) (v : Word) :
    CsrInvariants L enclave (csrWrite f .mepc v) := by
  constructor
  · intro c w hc
    have hne : c ≠ Csr.mepc := (home_ne_of_machineOnly (machineCsr_machineOnly hc) .mepc).symm
    rw [csrWrite_of_ne f v hne]
    exact h.machine c w hc
  · exact h.tvm

/-- The CSRs after a switch into the world `enclave`: the saved CSRs are restored, the PMP entry of
the secure pages is set, and `mstatus` and the delegation registers get new values. -/
theorem csrInvariants_switch (h : CsrInvariants L enclave f) (area : SavedCsr → Word)
    (enclave' : Bool) {v : Word} (hv : enclave' = true → SR_TVM &&& v ≠ 0) (mideleg medeleg : Word) :
    CsrInvariants L enclave'
      (csrWrite
        (csrWrite
          (csrWrite
            (pmpcfgWrite (restoreCsrs csrsH f area) 5 (PMPCFG_A_TOR ||| securePerm enclave'))
            .mstatus v)
          .mideleg mideleg)
        .medeleg medeleg) := by
  constructor
  · intro c w hc
    have hmachine := machineCsr_machineOnly hc
    have hne : ∀ d : Csr, machineCsr L enclave' d = none → c ≠ d := by
      rintro d hd rfl
      rw [hd] at hc
      cases hc
    rw [csrWrite_of_ne _ _ (hne .medeleg rfl), csrWrite_of_ne _ _ (hne .mideleg rfl),
      csrWrite_of_ne _ _ (hne .mstatus rfl), pmpcfgWrite_eq, show pmpcfgReg 5 = .pmpcfg0 from rfl]
    have hrestore : ∀ d : Csr, d.machineOnly = true → restoreCsrs csrsH f area d = f d :=
      fun d hd => restoreCsrs_of_ne csrsH f area (home_ne_of_machineOnly hd)
    by_cases hpmp : c = .pmpcfg0
    · subst hpmp
      have hold : f .pmpcfg0 = komodoPmpcfg0 enclave := h.machine _ _ rfl
      have hnew : w = komodoPmpcfg0 enclave' := (Option.some.inj hc).symm
      rw [Function.update_self, hnew, hrestore .pmpcfg0 rfl, hold]
      cases enclave <;> cases enclave' <;> decide
    · rw [Function.update_of_ne hpmp, hrestore c hmachine]
      exact h.machine c w ((machineCsr_of_ne hpmp enclave enclave').trans hc)
  · intro henclave
    rw [csrWrite_of_ne _ _ (by decide), csrWrite_of_ne _ _ (by decide), csrWrite_mstatus_self]
    exact hv henclave

end Csrs

/-! ## Addresses -/

theorem pfnDown_eq {start page : Word} {n : Nat} (haligned : start.toNat % 4096 = 0)
    (hfits : start.toNat + n * 4096 ≤ 2 ^ 64) (hpage : page.toNat < n) :
    pfnDown (start + page * 4096) = page + start / 4096 := by
  apply BitVec.eq_of_toNat_eq
  have hmul : (page * 4096).toNat = page.toNat * 4096 := by
    rw [BitVec.toNat_mul]
    exact Nat.mod_eq_of_lt (by simp; omega)
  have hadd : (start + page * 4096).toNat = start.toNat + page.toNat * 4096 := by
    rw [BitVec.toNat_add, hmul]
    exact Nat.mod_eq_of_lt (by omega)
  have hpfn : (page + start / 4096).toNat = page.toNat + start.toNat / 4096 := by
    rw [BitVec.toNat_add, BitVec.toNat_udiv]
    exact Nat.mod_eq_of_lt (by simp; omega)
  rw [pfnDown, BitVec.toNat_ushiftRight, hadd, hpfn, Nat.shiftRight_eq_div_pow]
  omega

/-- The code computes the page frame number the specification uses. -/
theorem pfnDown_securePage (L : Layout) {page : Word} (h : pageValid page) :
    pfnDown (L.securePages + page * 4096) = L.pageToPfn page :=
  pfnDown_eq L.secure_aligned L.secure_fits h

theorem pfnDown_insecurePage (L : Layout) {page : Word} (h : insecurePageValid page) :
    pfnDown (insecurePagePaddr L page) = L.insecurePageToPfn page :=
  pfnDown_eq L.payload_aligned L.payload_fits h

/-- The code and the specification build the same page-table entries. -/
theorem pfnPte_eq (pfn prot : Word) : pfnPte pfn prot = pfnToPte pfn prot := rfl

theorem enclaveProt_eq (mapping : Word) : Monitor.enclaveProt mapping = enclaveProt mapping := by
  have hrwx : KOM_MAPPING_RWX = PAGE_RWX := by decide
  rw [Monitor.enclaveProt, hrwx, enclaveProt]

/-! ## Rules for the accessors -/

section Rules

variable {α : Type} {Q : α → Machine → Prop} {E : PtRegs → Machine → Prop} {m : Machine}

@[simp] theorem wp_loadEntry {Q : PagedbEntry → Machine → Prop} (p : Word) :
    Ctl.wp (loadEntry p) Q E m ↔ pageValid p ∧ Q (m.gPagedb p) m := by
  simp [loadEntry]

@[simp] theorem wp_storeEntry {Q : Unit → Machine → Prop} (p : Word)
    (f : PagedbEntry → PagedbEntry) :
    Ctl.wp (storeEntry p f) Q E m ↔
      pageValid p ∧
        Q () { m with gPagedb := Function.update m.gPagedb p (f (m.gPagedb p)) } := by
  simp [storeEntry]

@[simp] theorem wp_loadWord {Q : Word → Machine → Prop} (ptr i : Word) :
    Ctl.wp (loadWord ptr i) Q E m ↔
      (pageValid ptr ∧ pageIndexValid i) ∧ Q (m.securePages ptr i) m := by
  simp only [loadWord, Ctl.wp_bind, Ctl.wp_bugOn, Ctl.wp_gets, not_not]

@[simp] theorem wp_storeWord {Q : Unit → Machine → Prop} (ptr i v : Word) :
    Ctl.wp (storeWord ptr i v) Q E m ↔
      (pageValid ptr ∧ pageIndexValid i) ∧
        Q () { m with securePages := updateCell m.securePages ptr i v } := by
  simp only [storeWord, Ctl.wp_bind, Ctl.wp_bugOn, Ctl.wp_modify, not_not]

@[simp] theorem wp_memsetPage {Q : Unit → Machine → Prop} (ptr : Word) :
    Ctl.wp (memsetPage ptr) Q E m ↔
      pageValid ptr ∧
        Q () { m with
          securePages := updateRow m.securePages ptr (fun i => pageIndexValid i) 0 } := by
  simp only [memsetPage, Ctl.wp_bind, Ctl.wp_bugOn, Ctl.wp_modify, not_not]

@[simp] theorem wp_modifyCsrs {Q : Unit → Machine → Prop} (f : CsrFile → CsrFile) :
    Ctl.wp (modifyCsrs f) Q E m ↔ Q () { m with csrs := f m.csrs } :=
  Iff.rfl

@[simp] theorem wp_pageMonvaddr {Q : Word → Machine → Prop} (p : Word) :
    Ctl.wp (pageMonvaddr p) Q E m ↔ pageValid p ∧ Q p m := by
  simp only [pageMonvaddr, Ctl.wp_bind, Ctl.wp_bugOn, Ctl.wp_pure, not_not]
  rfl

@[simp] theorem wp_pagePaddr {Q : Word → Machine → Prop} (L : Layout) (p : Word) :
    Ctl.wp (pagePaddr L p) Q E m ↔ pageValid p ∧ Q (L.securePages + p * 4096) m := by
  simp [pagePaddr]

/-- A type test never fails, and is the specification's. -/
theorem wp_pageIsTyped {Q : Bool → Machine → Prop} (g : Ghost) (p : Word) (t : PageType) :
    Ctl.wp (pageIsTyped p t) Q E m ↔ Q (decide ((absFunction g m).pageTyped p t)) m := by
  by_cases hp : pageIsValid p
  · have hvalid : pageValid p := hp
    have htyped : (absFunction g m).pageTyped p t ↔ (m.gPagedb p).type = t.val :=
      ⟨fun h => h.2, fun h => ⟨hvalid, h⟩⟩
    simp [pageIsTyped, hp, hvalid, htyped]
  · have htyped : ¬ (absFunction g m).pageTyped p t := fun h => hp h.1
    simp [pageIsTyped, hp, htyped]

end Rules

/-! ## Allocation -/

/-- The machine after `allocate_page` has given a page away. -/
def allocated (m : Machine) (p a : Word) (t : PageType) : Machine :=
  let pages := updateRow m.securePages p (fun i => pageIndexValid i) 0
  { m with
    gPagedb := Function.update m.gPagedb p ⟨t.val, a⟩
    securePages := updateCell pages a KOM_ADDRSPACE_REFCOUNT (pages a KOM_ADDRSPACE_REFCOUNT + 1) }

theorem addrspace_index_valid :
    pageIndexValid KOM_ADDRSPACE_L1PT_PAGE ∧ pageIndexValid KOM_ADDRSPACE_REFCOUNT ∧
      pageIndexValid KOM_ADDRSPACE_STATE := by
  decide

/-- `allocate_page` makes the specification's checks in the specification's order. -/
theorem wp_allocatePage {Q : Word → Machine → Prop} {E : PtRegs → Machine → Prop} {m : Machine}
    (g : Ghost) {p a : Word} {t : PageType} (ha : pageValid a)
    (herror : ∀ err, checkAllocate (absFunction g m) p a = some err → Q err.val m)
    (hok : (absFunction g m).pageFree p → (absFunction g m).addrspaceIn a .init →
      Q KomErr.success.val (allocated m p a t)) :
    Ctl.wp (allocatePage false p a t) Q E m := by
  have hstate := addrspace_index_valid.2.2
  have hcount := addrspace_index_valid.2.1
  simp only [allocatePage, checkOwner, pageIsFree, Ctl.wp_ite, Ctl.wp_bind, Ctl.wp_pure,
    wp_pageIsTyped g, wp_pageMonvaddr, wp_loadWord, wp_memsetPage, wp_storeEntry, wp_storeWord,
    if_neg Bool.false_ne_true, decide_eq_true_eq, not_true_eq_false, if_false, ha, hstate, hcount,
    and_self, true_and, Function.update_self, Function.update_idem]
  refine Ctl.guard_intro (fun hvalid => herror .invalidPageno (if_pos hvalid)) (fun hvalid => ?_)
  have hvalid' : pageValid p := hvalid
  refine Ctl.guard_intro (fun hfree => herror .pageinuse ?_) (fun hfree => ?_)
  · have hfree' : ¬ (absFunction g m).pageFree p := hfree
    simp [checkAllocate, hvalid', hfree']
  have hfree' : (absFunction g m).pageFree p := hfree
  refine Ctl.guard_intro (fun hinit => herror .alreadyFinal ?_) (fun hinit => ?_)
  · have hinit' : ¬ (absFunction g m).addrspaceIn a .init := hinit
    simp [checkAllocate, hvalid', hfree', hinit']
  exact ⟨hvalid, hvalid, hvalid, hvalid, hok hfree hinit⟩

end Komodo
end Serval
