import Serval.Spec.Refcnt
import Serval.Riscv.Platform

/-!
# Spec — the Komodo state machine

The specification of the enclave monitor as `verif/state.rkt` and `verif/spec.rkt` have it.  Secure
memory is 1024 pages of 512 words; the page database gives each page a type and an owning address
space.  Address spaces, dispatchers and page tables are not separate objects: they are pages, whose
words are read under the layout of their type.

`currentAddrspace`, `pageRefcnt` and the four `pgtable` maps are ghost state, which no monitor call
reads.
-/

namespace Serval
namespace Komodo

open Riscv

/-! ## Parameters -/

def KOM_SECURE_NPAGES : Word := 1024
def KOM_INSECURE_NPAGES : Word := 256
def KOM_PAGE_WORDS : Word := 512

def KOM_MAGIC : Word := 0x4b6d646f

def ENOSYS : Word := 38

def KOM_SMC_QUERY : Word := 10
def KOM_SMC_GETPHYSPAGES : Word := 11
def KOM_SMC_INIT_ADDRSPACE : Word := 12
def KOM_SMC_INIT_DISPATCHER : Word := 13
def KOM_SMC_INIT_L2PTABLE : Word := 14
def KOM_SMC_INIT_L3PTABLE : Word := 15
def KOM_SMC_MAP_SECURE : Word := 16
def KOM_SMC_MAP_INSECURE : Word := 17
def KOM_SMC_REMOVE : Word := 20
def KOM_SMC_FINALISE : Word := 21
def KOM_SMC_ENTER : Word := 22
def KOM_SMC_RESUME : Word := 23
def KOM_SMC_STOP : Word := 29
def KOM_SVC_EXIT : Word := 30

inductive KomErr
  | success | invalidPageno | pageinuse | invalidAddrspace | alreadyFinal | notFinal
  | invalidMapping | addrinuse | notStopped | interrupted | fault | alreadyEntered | notEntered
  deriving DecidableEq, Repr

/-- `KOM_ERR_*`. -/
def KomErr.val : KomErr → Word
  | .success => 0
  | .invalidPageno => 1
  | .pageinuse => 2
  | .invalidAddrspace => 3
  | .alreadyFinal => 4
  | .notFinal => 5
  | .invalidMapping => 6
  | .addrinuse => 7
  | .notStopped => 8
  | .interrupted => 9
  | .fault => 10
  | .alreadyEntered => 11
  | .notEntered => 12

inductive PageType
  | free | addrspace | dispatcher | l1ptable | l2ptable | l3ptable | data
  deriving DecidableEq, Repr

/-- `kom_pagetype_t`, as it is stored in the page database. -/
def PageType.val : PageType → Word
  | .free => 0
  | .addrspace => 1
  | .dispatcher => 2
  | .l1ptable => 3
  | .l2ptable => 4
  | .l3ptable => 5
  | .data => 6

theorem PageType.val_injective {t u : PageType} (h : t.val = u.val) : t = u := by
  cases t <;> cases u <;> first | rfl | (exfalso; revert h; decide)

@[simp] theorem PageType.val_inj {t u : PageType} : t.val = u.val ↔ t = u :=
  ⟨PageType.val_injective, fun h => h ▸ rfl⟩

inductive AddrspaceState
  | init | final | stopped
  deriving DecidableEq, Repr

/-- `kom_addrspace_state_t`. -/
def AddrspaceState.val : AddrspaceState → Word
  | .init => 0
  | .final => 1
  | .stopped => 2

@[simp] theorem AddrspaceState.val_inj {t u : AddrspaceState} : t.val = u.val ↔ t = u := by
  refine ⟨fun h => ?_, fun h => h ▸ rfl⟩
  cases t <;> cases u <;> first | rfl | (exfalso; revert h; decide)

/-- The linker symbols the monitor's behaviour depends on: two page-aligned arrays that do not
overlap, the trap vector and the monitor's stack. -/
structure Layout where
  securePages : Word
  payloadStart : Word
  machineTrapVector : Word
  cpuStack : Word
  secure_aligned : securePages.toNat % 4096 = 0
  payload_aligned : payloadStart.toNat % 4096 = 0
  secure_fits : securePages.toNat + 1024 * 4096 ≤ 2 ^ 64
  payload_fits : payloadStart.toNat + 256 * 4096 ≤ 2 ^ 64
  disjoint : securePages.toNat + 1024 * 4096 ≤ payloadStart.toNat ∨
    payloadStart.toNat + 256 * 4096 ≤ securePages.toNat

namespace Layout

/-- `pfn-secure_pages`. -/
def pfnSecurePages (L : Layout) : Word := L.securePages / 4096

/-- `pfn-insecure_pages`. -/
def pfnInsecurePages (L : Layout) : Word := L.payloadStart / 4096

/-- `page->pfn`. -/
def pageToPfn (L : Layout) (page : Word) : Word := page + L.pfnSecurePages

/-- `insecure_page->pfn`. -/
def insecurePageToPfn (L : Layout) (page : Word) : Word := page + L.pfnInsecurePages

end Layout

/-! ## Page-table entries -/

def PAGE_PRESENT : Word := 1
def PAGE_RWX : Word := 0b1110
def PAGE_TABLE : Word := PAGE_PRESENT

/-- `_PAGE_ENCLAVE`: present, accessed and dirty. -/
def PAGE_ENCLAVE : Word := PAGE_PRESENT ||| (1 <<< 6) ||| (1 <<< 7)

def pfnToPte (pfn prot : Word) : Word :=
  (pfn <<< 10) ||| prot

def enclaveProt (mapping : Word) : Word :=
  (mapping &&& PAGE_RWX) ||| PAGE_ENCLAVE

/-! ## Layout of typed pages -/

def KOM_ADDRSPACE_L1PT_PAGE : Word := 0
def KOM_ADDRSPACE_REFCOUNT : Word := 1
def KOM_ADDRSPACE_STATE : Word := 2

/-- The members of `struct kom_dispatcher`. -/
inductive DispatcherField
  | entered
  | gpr (r : Gpr)
  | csr (c : SavedCsr)
  deriving DecidableEq, Repr

/-- The word of a dispatcher page that holds a member. -/
def DispatcherField.index : DispatcherField → Word
  | .entered => 0
  | .gpr r => BitVec.ofNat 64 (1 + Gpr.all.idxOf r)
  | .csr c => BitVec.ofNat 64 (32 + SavedCsr.all.idxOf c)

/-- The register context stored in a dispatcher page. -/
def dispatcherRegs (words : Word → Word) : Regs where
  gpr := fun r => words (DispatcherField.gpr r).index
  csr := fun c => words (DispatcherField.csr c).index

/-- The order in which `leave_secure_world` of the specification fills a dispatcher page. -/
def specDispatcherFields : List DispatcherField :=
  .entered ::
    ([.ra, .sp, .gp, .tp, .a0, .a1, .a2, .a3, .a4, .a5, .a6, .a7,
      .s0, .s1, .s2, .s3, .s4, .s5, .s6, .s7, .s8, .s9, .s10, .s11,
      .t0, .t1, .t2, .t3, .t4, .t5, .t6] : List Gpr).map .gpr ++
    ([.mepc, .satp, .stvec, .scounteren, .stval, .sip, .scause, .sepc, .sstatus, .sscratch,
      .sie] : List SavedCsr).map .csr

/-- What a save puts into a member. -/
def DispatcherField.saved (entered : Word) (regs : Regs) : DispatcherField → Word
  | .entered => entered
  | .gpr r => regs.gpr r
  | .csr c => regs.csr c

/-- The words of a dispatcher page after a save. -/
def saveDispatcher (words : Word → Word) (entered : Word) (regs : Regs) : Word → Word :=
  writeAll DispatcherField.index (fun f _ => f.saved entered regs) specDispatcherFields words

/-! ## State -/

@[ext] structure State where
  regs : Regs
  pagedbType : Word → Word
  pagedbAddrspace : Word → Word
  pages : Word → Word → Word
  insecurePages : Word → Word → Word
  enclaveMode : Bool
  hostState : Regs
  currentDispatcher : Word
  currentAddrspace : Word
  pageRefcnt : Refcnt
  pgtablePn : Word → Word → Word
  pgtablePresent : Word → Word → Bool
  pgtablePerm : Word → Word → Word
  pgtableSecure : Word → Word → Bool

def pageValid (pageno : Word) : Prop :=
  pageno < KOM_SECURE_NPAGES

instance (pageno : Word) : Decidable (pageValid pageno) :=
  inferInstanceAs (Decidable (_ < _))

def pageIndexValid (index : Word) : Prop :=
  index < KOM_PAGE_WORDS

instance (index : Word) : Decidable (pageIndexValid index) :=
  inferInstanceAs (Decidable (_ < _))

def insecurePageValid (pageno : Word) : Prop :=
  pageno < KOM_INSECURE_NPAGES

instance (pageno : Word) : Decidable (insecurePageValid pageno) :=
  inferInstanceAs (Decidable (_ < _))

namespace State

variable (s : State)

def pageTyped (pageno : Word) (type : PageType) : Prop :=
  pageValid pageno ∧ s.pagedbType pageno = type.val

instance (pageno : Word) (type : PageType) : Decidable (s.pageTyped pageno type) :=
  inferInstanceAs (Decidable (_ ∧ _))

def pageFree (pageno : Word) : Prop :=
  s.pageTyped pageno .free

instance (pageno : Word) : Decidable (s.pageFree pageno) :=
  inferInstanceAs (Decidable (s.pageTyped pageno .free))

def addrspaceL1pt (pageno : Word) : Word :=
  s.pages pageno KOM_ADDRSPACE_L1PT_PAGE

def addrspaceRefcount (pageno : Word) : Word :=
  s.pages pageno KOM_ADDRSPACE_REFCOUNT

def addrspaceState (pageno : Word) : Word :=
  s.pages pageno KOM_ADDRSPACE_STATE

/-- `addrspace-state?`. -/
def addrspaceIn (pageno : Word) (state : AddrspaceState) : Prop :=
  s.addrspaceState pageno = state.val

instance (pageno : Word) (state : AddrspaceState) : Decidable (s.addrspaceIn pageno state) :=
  inferInstanceAs (Decidable (_ = _))

def dispatcherEntered (pageno : Word) : Word :=
  s.pages pageno DispatcherField.entered.index

end State

/-- `set-return!`. -/
def setReturn (s : State) (val : Word) : State :=
  { s with regs := s.regs.setGpr .a0 val }

/-- The `mepc` of the trapped context moves past the `ecall`. -/
def advanceMepc (s : State) : State :=
  { s with regs := s.regs.setCsr .mepc (4 + s.regs.csr .mepc) }

/-! ## Building enclaves

A call of the specification is a `cond`: a sequence of checks, each with the error it returns, in front
of an effect.  For every call the checks and the effect are definitions of their own; the checks give
the error of the first one that fails.
-/

/-- A call that returns the error of its checks, or has its effect. -/
def guarded (s : State) (check : Option KomErr) (effect : State) : State :=
  match check with
  | some err => setReturn s err.val
  | none => effect

def specKomSmcQuery (s : State) : State :=
  setReturn s KOM_MAGIC

def specKomSmcGetPhysPages (s : State) : State :=
  setReturn s KOM_SECURE_NPAGES

/-- The effect of `kom_smc_init_addrspace`. -/
def createAddrspace (s : State) (addrspacePage l1ptPage : Word) : State :=
  let pages := updateRow s.pages addrspacePage (fun i => pageIndexValid i) 0
  let pages := updateCell pages addrspacePage KOM_ADDRSPACE_L1PT_PAGE l1ptPage
  let pages := updateCell pages addrspacePage KOM_ADDRSPACE_REFCOUNT 2
  let pages := updateCell pages addrspacePage KOM_ADDRSPACE_STATE AddrspaceState.init.val
  let pages := updateRow pages l1ptPage (fun i => pageIndexValid i) 0
  { s with
    pagedbType := Function.update
      (Function.update s.pagedbType addrspacePage PageType.addrspace.val)
      l1ptPage PageType.l1ptable.val
    pagedbAddrspace := Function.update
      (Function.update s.pagedbAddrspace addrspacePage addrspacePage) l1ptPage addrspacePage
    pages := pages
    pgtablePresent := updateRow s.pgtablePresent l1ptPage (fun i => pageIndexValid i) false
    pgtablePn := updateRow s.pgtablePn l1ptPage (fun i => pageIndexValid i) 0
    pgtablePerm := updateRow s.pgtablePerm l1ptPage (fun i => pageIndexValid i) 0
    pgtableSecure := updateRow s.pgtableSecure l1ptPage (fun i => pageIndexValid i) false
    pageRefcnt := (s.pageRefcnt.incr addrspacePage addrspacePage).incr addrspacePage l1ptPage }

def checkInitAddrspace (s : State) (addrspacePage l1ptPage : Word) : Option KomErr :=
  if addrspacePage = l1ptPage then some .invalidPageno
  else if ¬ (pageValid addrspacePage ∧ pageValid l1ptPage) then some .invalidPageno
  else if ¬ (s.pageFree addrspacePage ∧ s.pageFree l1ptPage) then some .pageinuse
  else none

def specKomSmcInitAddrspace (s : State) (addrspacePage l1ptPage : Word) : State :=
  guarded s (checkInitAddrspace s addrspacePage l1ptPage)
    (setReturn (createAddrspace s addrspacePage l1ptPage) KomErr.success.val)

/-- The effect of `kom_smc_init_dispatcher`. -/
def createDispatcher (L : Layout) (s : State) (page addrspacePage entrypoint : Word) : State :=
  let pages := updateCell s.pages addrspacePage KOM_ADDRSPACE_REFCOUNT
    (s.pages addrspacePage KOM_ADDRSPACE_REFCOUNT + 1)
  let pages := updateRow pages page (fun i => pageIndexValid i) 0
  let pages := updateCell pages page (DispatcherField.csr .mepc).index entrypoint
  let pages := updateCell pages page (DispatcherField.csr .satp).index
    (SATP_MODE_SV39 ||| L.pageToPfn (pages addrspacePage KOM_ADDRSPACE_L1PT_PAGE))
  let pages := updateCell pages page (DispatcherField.csr .sie).index
    (IE_SEIE ||| IE_STIE ||| IE_SSIE)
  { s with
    pagedbType := Function.update s.pagedbType page PageType.dispatcher.val
    pagedbAddrspace := Function.update s.pagedbAddrspace page addrspacePage
    pageRefcnt := s.pageRefcnt.incr addrspacePage page
    pages := pages }

/-- The checks of `allocate_page`. -/
def checkAllocate (s : State) (page addrspacePage : Word) : Option KomErr :=
  if ¬ pageValid page then some .invalidPageno
  else if ¬ s.pageFree page then some .pageinuse
  else if ¬ s.addrspaceIn addrspacePage .init then some .alreadyFinal
  else none

def checkInitDispatcher (s : State) (page addrspacePage : Word) : Option KomErr :=
  if ¬ s.pageTyped addrspacePage .addrspace then some .invalidAddrspace
  else checkAllocate s page addrspacePage

def specKomSmcInitDispatcher (L : Layout) (s : State) (page addrspacePage entrypoint : Word) :
    State :=
  guarded s (checkInitDispatcher s page addrspacePage)
    (setReturn (createDispatcher L s page addrspacePage entrypoint) KomErr.success.val)

/-- A page is given to an address space, cleared. -/
def grantPage (s : State) (page addrspacePage : Word) (type : PageType) : State :=
  let pages := updateRow s.pages page (fun i => pageIndexValid i) 0
  { s with
    pagedbType := Function.update s.pagedbType page type.val
    pagedbAddrspace := Function.update s.pagedbAddrspace page addrspacePage
    pages := updateCell pages addrspacePage KOM_ADDRSPACE_REFCOUNT
      (pages addrspacePage KOM_ADDRSPACE_REFCOUNT + 1)
    pageRefcnt := s.pageRefcnt.incr addrspacePage page }

/-- A new page of a page table is entered into its parent table. -/
def linkTable (L : Layout) (s : State) (page ptPage ptIndex : Word) : State :=
  { s with
    pgtablePn := updateCell (updateRow s.pgtablePn page (fun i => pageIndexValid i) 0)
      ptPage ptIndex page
    pgtablePresent := updateCell (updateRow s.pgtablePresent page (fun i => pageIndexValid i) false)
      ptPage ptIndex true
    pgtablePerm := updateRow s.pgtablePerm page (fun i => pageIndexValid i) 0
    pgtableSecure := updateRow s.pgtableSecure page (fun i => pageIndexValid i) false
    pages := updateCell s.pages ptPage ptIndex (pfnToPte (L.pageToPfn page) PAGE_TABLE) }

/-- The effect of `kom_smc_init_l2ptable` and `kom_smc_init_l3ptable`: a page of type `child` becomes
part of the page table. -/
def createPtable (child : PageType) (L : Layout) (s : State) (page ptPage ptIndex : Word) : State :=
  linkTable L (grantPage s page (s.pagedbAddrspace ptPage) child) page ptPage ptIndex

/-- The checks of `kom_smc_init_l2ptable` and `kom_smc_init_l3ptable`, for a parent table of type
`parent`. -/
def checkInitPtable (parent : PageType) (s : State) (page ptPage ptIndex : Word) : Option KomErr :=
  if ¬ pageIndexValid ptIndex then some .invalidMapping
  else if ¬ s.pageTyped ptPage parent then some .invalidPageno
  else if ¬ s.pages ptPage ptIndex = 0 then some .addrinuse
  else checkAllocate s page (s.pagedbAddrspace ptPage)

def specInitPtable (parent child : PageType) (L : Layout) (s : State)
    (page ptPage ptIndex : Word) : State :=
  guarded s (checkInitPtable parent s page ptPage ptIndex)
    (setReturn (createPtable child L s page ptPage ptIndex) KomErr.success.val)

def specKomSmcInitL2ptable (L : Layout) (s : State) (page l1ptPage l1ptIndex : Word) : State :=
  specInitPtable .l1ptable .l2ptable L s page l1ptPage l1ptIndex

def specKomSmcInitL3ptable (L : Layout) (s : State) (page l2ptPage l2ptIndex : Word) : State :=
  specInitPtable .l2ptable .l3ptable L s page l2ptPage l2ptIndex

/-- A leaf entry of a page table, for a secure or an insecure page. -/
def linkLeaf (s : State) (l3ptPage l3ptIndex pn pfn mapping : Word) (secure : Bool) : State :=
  { s with
    pages := updateCell s.pages l3ptPage l3ptIndex (pfnToPte pfn (enclaveProt mapping))
    pgtablePn := updateCell s.pgtablePn l3ptPage l3ptIndex pn
    pgtablePresent := updateCell s.pgtablePresent l3ptPage l3ptIndex true
    pgtablePerm := updateCell s.pgtablePerm l3ptPage l3ptIndex mapping
    pgtableSecure := updateCell s.pgtableSecure l3ptPage l3ptIndex secure }

/-- A secure page takes the contents of an insecure one. -/
def copyContent (s : State) (page content : Word) : State :=
  { s with
    pages := Function.update s.pages page
      (fun idx => if idx < 512 then s.insecurePages content idx else s.pages page idx) }

/-- The effect of `kom_smc_map_secure`. -/
def addSecureMapping (L : Layout) (s : State) (page l3ptPage l3ptIndex mapping content : Word) : State :=
  let s := grantPage s page (s.pagedbAddrspace l3ptPage) .data
  let s := linkLeaf s l3ptPage l3ptIndex page (L.pageToPfn page) mapping true
  copyContent s page content

def checkMapSecure (s : State) (page l3ptPage l3ptIndex content : Word) : Option KomErr :=
  if ¬ pageIndexValid l3ptIndex then some .invalidMapping
  else if ¬ insecurePageValid content ∨ ¬ s.pageTyped l3ptPage .l3ptable then some .invalidPageno
  else if ¬ s.pages l3ptPage l3ptIndex = 0 then some .addrinuse
  else checkAllocate s page (s.pagedbAddrspace l3ptPage)

def specKomSmcMapSecure (L : Layout) (s : State) (page l3ptPage l3ptIndex mapping content : Word) :
    State :=
  guarded s (checkMapSecure s page l3ptPage l3ptIndex content)
    (setReturn (addSecureMapping L s page l3ptPage l3ptIndex mapping content) KomErr.success.val)

/-- The effect of `kom_smc_map_insecure`. -/
def addInsecureMapping (L : Layout) (s : State) (l3ptPage l3ptIndex mapping insecurePageno : Word) :
    State :=
  linkLeaf s l3ptPage l3ptIndex insecurePageno (L.insecurePageToPfn insecurePageno) mapping false

def checkMapInsecure (s : State) (l3ptPage l3ptIndex insecurePageno : Word) : Option KomErr :=
  if ¬ insecurePageValid insecurePageno then some .invalidPageno
  else if ¬ pageIndexValid l3ptIndex then some .invalidMapping
  else if ¬ s.pageTyped l3ptPage .l3ptable then some .invalidPageno
  else if ¬ s.pages l3ptPage l3ptIndex = 0 then some .addrinuse
  else if ¬ s.addrspaceIn (s.pagedbAddrspace l3ptPage) .init then some .alreadyFinal
  else none

def specKomSmcMapInsecure (L : Layout) (s : State)
    (l3ptPage l3ptIndex mapping insecurePageno : Word) : State :=
  guarded s (checkMapInsecure s l3ptPage l3ptIndex insecurePageno)
    (setReturn (addInsecureMapping L s l3ptPage l3ptIndex mapping insecurePageno) KomErr.success.val)

/-! ## Tearing enclaves down -/

/-- The effect of `kom_smc_remove`: the contents of the page stay where they are. -/
def releasePage (s : State) (page : Word) : State :=
  let addrspacePage := s.pagedbAddrspace page
  { s with
    pages := updateCell s.pages addrspacePage KOM_ADDRSPACE_REFCOUNT
      (s.pages addrspacePage KOM_ADDRSPACE_REFCOUNT - 1)
    pageRefcnt := s.pageRefcnt.decr addrspacePage page
    pagedbType := Function.update s.pagedbType page PageType.free.val
    pagedbAddrspace := Function.update s.pagedbAddrspace page (-1)
    pgtablePresent := updateRow s.pgtablePresent page (fun i => pageIndexValid i) false
    pgtablePn := updateRow s.pgtablePn page (fun i => pageIndexValid i) 0
    pgtablePerm := updateRow s.pgtablePerm page (fun i => pageIndexValid i) 0
    pgtableSecure := updateRow s.pgtableSecure page (fun i => pageIndexValid i) false }

/-- Removing a free page succeeds and does nothing. -/
def checkRemove (s : State) (page : Word) : Option KomErr :=
  if s.enclaveMode then some .alreadyEntered
  else if ¬ pageValid page then some .invalidPageno
  else if s.pageFree page then some .success
  else if s.pageTyped page .addrspace ∧ ¬ s.addrspaceRefcount page = 1 then some .pageinuse
  else if s.pageTyped page .addrspace ∧ ¬ s.addrspaceIn page .stopped then some .notStopped
  -- page is not addrspace and its addrspace is not stopped
  else if ¬ s.pageTyped page .addrspace ∧ ¬ s.addrspaceIn (s.pagedbAddrspace page) .stopped then
    some .notStopped
  else none

def specKomSmcRemove (s : State) (page : Word) : State :=
  guarded s (checkRemove s page) (setReturn (releasePage s page) KomErr.success.val)

def setAddrspaceState (s : State) (addrspacePage : Word) (state : AddrspaceState) : State :=
  { s with pages := updateCell s.pages addrspacePage KOM_ADDRSPACE_STATE state.val }

def checkFinalise (s : State) (addrspacePage : Word) : Option KomErr :=
  if ¬ s.pageTyped addrspacePage .addrspace then some .invalidAddrspace
  else if ¬ s.addrspaceIn addrspacePage .init then some .alreadyFinal
  else none

def specKomSmcFinalise (s : State) (addrspacePage : Word) : State :=
  guarded s (checkFinalise s addrspacePage)
    (setReturn (setAddrspaceState s addrspacePage .final) KomErr.success.val)

def checkStop (s : State) (addrspacePage : Word) : Option KomErr :=
  if ¬ s.pageTyped addrspacePage .addrspace then some .invalidAddrspace
  else none

def specKomSmcStop (s : State) (addrspacePage : Word) : State :=
  guarded s (checkStop s addrspacePage)
    (setReturn (setAddrspaceState s addrspacePage .stopped) KomErr.success.val)

/-! ## Running enclaves -/

def specEnterSecureWorld (s : State) (dispatcherPageno : Word) : State :=
  { s with
    enclaveMode := true
    currentDispatcher := dispatcherPageno
    currentAddrspace := s.pagedbAddrspace dispatcherPageno
    hostState := s.regs
    regs := dispatcherRegs (s.pages dispatcherPageno) }

/-- The arguments of `kom_smc_enter` go into the dispatcher's `a0`, `a1` and `a2`. -/
def setDispatcherArgs (s : State) (dispPage a0 a1 a2 : Word) : State :=
  let pages := updateCell s.pages dispPage (DispatcherField.gpr .a0).index a0
  let pages := updateCell pages dispPage (DispatcherField.gpr .a1).index a1
  { s with pages := updateCell pages dispPage (DispatcherField.gpr .a2).index a2 }

def checkEnter (s : State) (dispPage : Word) : Option KomErr :=
  if ¬ s.pageTyped dispPage .dispatcher then some .invalidPageno
  else if ¬ s.addrspaceIn (s.pagedbAddrspace dispPage) .final then some .notFinal
  else if ¬ s.dispatcherEntered dispPage = 0 then some .alreadyEntered
  else none

def specKomSmcEnter (s : State) (dispPage a0 a1 a2 : Word) : State :=
  guarded s (checkEnter s dispPage)
    (specEnterSecureWorld (setDispatcherArgs s dispPage a0 a1 a2) dispPage)

def checkResume (s : State) (dispPage : Word) : Option KomErr :=
  if ¬ s.pageTyped dispPage .dispatcher then some .invalidPageno
  else if ¬ s.addrspaceIn (s.pagedbAddrspace dispPage) .final then some .notFinal
  else if s.dispatcherEntered dispPage = 0 then some .notEntered
  else none

def specKomSmcResume (s : State) (dispPage : Word) : State :=
  guarded s (checkResume s dispPage) (specEnterSecureWorld s dispPage)

def specLeaveSecureWorld (s : State) (dispatcherPageno : Word) (entered : Bool) : State :=
  { s with
    pages := Function.update s.pages dispatcherPageno
      (saveDispatcher (s.pages dispatcherPageno) (if entered then 1 else 0) s.regs)
    regs := s.hostState
    currentDispatcher := 0
    enclaveMode := false }

/-- The answer of an enclave to the host. -/
def setHostReturn (s : State) (a0 a1 : Word) : State :=
  { s with hostState := (s.hostState.setGpr .a0 a0).setGpr .a1 a1 }

def trapError (cause : Word) : KomErr :=
  if cause.slt 0 then .interrupted else .fault

def specKomHandleTrap (s : State) (cause : Word) : State :=
  if s.enclaveMode then
    specLeaveSecureWorld (setHostReturn s (trapError cause).val cause) s.currentDispatcher true
  else
    s

def specKomSvcExit (s : State) (exitvalue : Word) : State :=
  let s := advanceMepc s
  if ¬ s.enclaveMode then
    setReturn s (-ENOSYS)
  else
    specLeaveSecureWorld (setHostReturn s 0 exitvalue) s.currentDispatcher false

def specKomEnosys (s : State) : State :=
  setReturn (advanceMepc s) (-ENOSYS)

def makeSmcSpec (spec : State → State) (s : State) : State :=
  let s := advanceMepc s
  if s.enclaveMode then setReturn s (-ENOSYS) else spec s

/-! ## Memory accesses -/

/-- The data pages the running enclave may touch. -/
def State.enclaveMay (s : State) (page offset : Word) : Prop :=
  s.enclaveMode = true ∧ pageIndexValid offset ∧ s.pageTyped page .data ∧
    s.pagedbAddrspace page = s.currentAddrspace

instance (s : State) (page offset : Word) : Decidable (s.enclaveMay page offset) :=
  inferInstanceAs (Decidable (_ ∧ _))

def specEnclaveRead (s : State) (page offset : Word) : State :=
  if s.enclaveMay page offset then
    { s with regs := s.regs.setGpr .a0 (s.pages page offset) }
  else
    s

def specEnclaveWrite (s : State) (page offset value : Word) : State :=
  if s.enclaveMay page offset then
    { s with pages := updateCell s.pages page offset value }
  else
    s

def specInsecureRead (s : State) (page offset : Word) : State :=
  if insecurePageValid page ∧ pageIndexValid offset then
    { s with regs := s.regs.setGpr .a0 (s.insecurePages page offset) }
  else
    s

def specInsecureWrite (s : State) (page offset value : Word) : State :=
  if insecurePageValid page ∧ pageIndexValid offset then
    { s with insecurePages := updateCell s.insecurePages page offset value }
  else
    s

/-! ## Calls and traps -/

/-- The calls of the operating system. -/
inductive Smc
  | query
  | getPhysPages
  | initAddrspace (addrspacePage l1ptPage : Word)
  | initDispatcher (page addrspacePage entrypoint : Word)
  | initL2ptable (page l1ptPage l1ptIndex : Word)
  | initL3ptable (page l2ptPage l2ptIndex : Word)
  | mapSecure (page l3ptPage l3ptIndex mapping content : Word)
  | mapInsecure (l3ptPage l3ptIndex mapping insecurePageno : Word)
  | remove (page : Word)
  | finalise (addrspacePage : Word)
  | stop (addrspacePage : Word)
  | enter (dispPage a0 a1 a2 : Word)
  | resume (dispPage : Word)

def specSmc (L : Layout) : Smc → State → State
  | .query, s => specKomSmcQuery s
  | .getPhysPages, s => specKomSmcGetPhysPages s
  | .initAddrspace a l, s => specKomSmcInitAddrspace s a l
  | .initDispatcher p a e, s => specKomSmcInitDispatcher L s p a e
  | .initL2ptable p l i, s => specKomSmcInitL2ptable L s p l i
  | .initL3ptable p l i, s => specKomSmcInitL3ptable L s p l i
  | .mapSecure p l i m c, s => specKomSmcMapSecure L s p l i m c
  | .mapInsecure l i m p, s => specKomSmcMapInsecure L s l i m p
  | .remove p, s => specKomSmcRemove s p
  | .finalise a, s => specKomSmcFinalise s a
  | .stop a, s => specKomSmcStop s a
  | .enter d a0 a1 a2, s => specKomSmcEnter s d a0 a1 a2
  | .resume d, s => specKomSmcResume s d

/-- The call that `a7` selects, with its arguments. -/
def Smc.ofRegs (r : PtRegs) : Option Smc :=
  if r .a7 = KOM_SMC_QUERY then some .query
  else if r .a7 = KOM_SMC_GETPHYSPAGES then some .getPhysPages
  else if r .a7 = KOM_SMC_INIT_ADDRSPACE then some (.initAddrspace (r .a0) (r .a1))
  else if r .a7 = KOM_SMC_INIT_DISPATCHER then some (.initDispatcher (r .a0) (r .a1) (r .a2))
  else if r .a7 = KOM_SMC_INIT_L2PTABLE then some (.initL2ptable (r .a0) (r .a1) (r .a2))
  else if r .a7 = KOM_SMC_INIT_L3PTABLE then some (.initL3ptable (r .a0) (r .a1) (r .a2))
  else if r .a7 = KOM_SMC_MAP_SECURE then
    some (.mapSecure (r .a0) (r .a1) (r .a2) (r .a3) (r .a4))
  else if r .a7 = KOM_SMC_MAP_INSECURE then some (.mapInsecure (r .a0) (r .a1) (r .a2) (r .a3))
  else if r .a7 = KOM_SMC_REMOVE then some (.remove (r .a0))
  else if r .a7 = KOM_SMC_FINALISE then some (.finalise (r .a0))
  else if r .a7 = KOM_SMC_ENTER then some (.enter (r .a0) (r .a1) (r .a2) (r .a3))
  else if r .a7 = KOM_SMC_RESUME then some (.resume (r .a0))
  else if r .a7 = KOM_SMC_STOP then some (.stop (r .a0))
  else none

/-- What the specification makes of an S-mode `ecall`. -/
def specEcall (L : Layout) (s : State) : State :=
  if s.regs.gpr .a7 = KOM_SVC_EXIT then
    specKomSvcExit s (s.regs.gpr .a0)
  else
    match Smc.ofRegs s.regs.gpr with
    | some call => makeSmcSpec (specSmc L call) s
    | none => specKomEnosys s

/-- What the specification makes of a trap. -/
def specTrap (L : Layout) (cause : Word) (s : State) : State :=
  if cause = EXC_ECALL_S then specEcall L s else specKomHandleTrap s cause

/-- The actions of the state machine. -/
inductive Action
  | smc (call : Smc)
  | svcExit (exitvalue : Word)
  | handleTrap (cause : Word)
  | enclaveRead (page offset : Word)
  | enclaveWrite (page offset value : Word)
  | insecureRead (page offset : Word)
  | insecureWrite (page offset value : Word)

def specStep (L : Layout) (s : State) : Action → State
  | .smc call => makeSmcSpec (specSmc L call) s
  | .svcExit v => specKomSvcExit s v
  | .handleTrap cause => specKomHandleTrap s cause
  | .enclaveRead p o => specEnclaveRead s p o
  | .enclaveWrite p o v => specEnclaveWrite s p o v
  | .insecureRead p o => specInsecureRead s p o
  | .insecureWrite p o v => specInsecureWrite s p o v

end Komodo
end Serval
