import Serval.Lib.Control
import Serval.Komodo.Spec

/-!
# Monitor — the Komodo code

The functions of `monitor.c`, `traps.c` and `main.c` in the RISC-V verification build, over the
monitor's globals, the CSR file and the trap frame.  A pointer to a secure page is its page number;
reading or writing outside `g_pagedb`, `secure_pages` or `_payload_start` and a failed `BUG_ON` are
bugs.

Entering and leaving an enclave end in `mret_with_regs`, so code after them never runs.
-/

namespace Serval
namespace Komodo

open Riscv

/-- `struct kom_pagedb_entry`. -/
@[ext] structure PagedbEntry where
  type : Word
  addrspacePage : Word

/-- The monitor's memory, the insecure pages, the CSRs and the registers of the trapped context. -/
structure Machine where
  gPagedb : Word → PagedbEntry
  securePages : Word → Word → Word
  payload : Word → Word → Word
  hostState : Regs
  enclaveMode : BitVec 8
  gCurDispatcherPageno : Word
  csrs : CsrFile
  regs : PtRegs

/-- Monitor code; it leaves with the registers it hands to `mret`. -/
abbrev Monitor := Ctl PtRegs Machine

/-! ## Memory -/

def loadEntry (pageno : Word) : Monitor PagedbEntry := do
  Ctl.bugOn (¬ pageValid pageno)
  Ctl.gets (fun m => m.gPagedb pageno)

def storeEntry (pageno : Word) (f : PagedbEntry → PagedbEntry) : Monitor Unit := do
  Ctl.bugOn (¬ pageValid pageno)
  Ctl.modify (fun m => { m with gPagedb := Function.update m.gPagedb pageno (f (m.gPagedb pageno)) })

def loadWord (ptr index : Word) : Monitor Word := do
  Ctl.bugOn (¬ (pageValid ptr ∧ pageIndexValid index))
  Ctl.gets (fun m => m.securePages ptr index)

def storeWord (ptr index value : Word) : Monitor Unit := do
  Ctl.bugOn (¬ (pageValid ptr ∧ pageIndexValid index))
  Ctl.modify (fun m => { m with securePages := updateCell m.securePages ptr index value })

/-- `memset` of a secure page to zero. -/
def memsetPage (ptr : Word) : Monitor Unit := do
  Ctl.bugOn (¬ pageValid ptr)
  Ctl.modify (fun m =>
    { m with securePages := updateRow m.securePages ptr (fun i => pageIndexValid i) 0 })

/-- `memcpy` of an insecure page to a secure one. -/
def memcpyPage (dst src : Word) : Monitor Unit := do
  Ctl.bugOn (¬ (pageValid dst ∧ insecurePageValid src))
  Ctl.modify (fun m =>
    { m with
      securePages := Function.update m.securePages dst
        (fun i => if i < 512 then m.payload src i else m.securePages dst i) })

def modifyCsrs (f : CsrFile → CsrFile) : Monitor Unit :=
  Ctl.modify (fun m => { m with csrs := f m.csrs })

/-! ## monitor.c: pages -/

def pageIsValid (pageno : Word) : Prop :=
  pageno < KOM_SECURE_NPAGES

instance (pageno : Word) : Decidable (pageIsValid pageno) :=
  inferInstanceAs (Decidable (_ < _))

def pageIsTyped (pageno : Word) (type : PageType) : Monitor Bool :=
  if pageIsValid pageno then do
    let entry ← loadEntry pageno
    pure (entry.type = type.val)
  else
    pure false

def pageIsFree (pageno : Word) : Monitor Bool :=
  pageIsTyped pageno .free

def pageMonvaddr (pageno : Word) : Monitor Word := do
  Ctl.bugOn (¬ pageIsValid pageno)
  pure pageno

def pagePaddr (L : Layout) (pageno : Word) : Monitor Word := do
  let page ← pageMonvaddr pageno
  pure (L.securePages + page * 4096)

def insecurePagePaddr (L : Layout) (pageno : Word) : Word :=
  L.payloadStart + pageno * 4096

def pfnDown (addr : Word) : Word :=
  addr >>> 12

/-- `pfn_pgd`, `pfn_pmd` and `pfn_pte`. -/
def pfnPte (pfn prot : Word) : Word :=
  (pfn <<< 10) ||| prot

def KOM_MAPPING_RWX : Word := (1 <<< 1) ||| (1 <<< 2) ||| (1 <<< 3)

/-- `enclave_prot`. -/
def Monitor.enclaveProt (mapping : Word) : Word :=
  (mapping &&& KOM_MAPPING_RWX) ||| PAGE_ENCLAVE

def insecurePageIsValid (pageno : Word) : Prop :=
  pageno < KOM_INSECURE_NPAGES

instance (pageno : Word) : Decidable (insecurePageIsValid pageno) :=
  inferInstanceAs (Decidable (_ < _))

/-! ## monitor.c: switching worlds -/

/-- `csr_write(n, dispatcher->n)` for every CSR of `csrs.h`. -/
def restoreDispatcherCsrs (dispatcher : Word) : Monitor Unit :=
  Ctl.modify (fun m =>
    { m with
      csrs := restoreCsrs csrsH m.csrs
        (fun c => m.securePages dispatcher (DispatcherField.csr c).index) })

def enterSecureWorld (dispatcherPageno : Word) : Monitor Unit := do
  let dispatcher ← pageMonvaddr dispatcherPageno
  Ctl.modify (fun m =>
    { m with hostState := { m.hostState with gpr := copyPtRegs m.hostState.gpr m.regs } })
  Ctl.modify (fun m =>
    { m with hostState := { m.hostState with csr := saveCsrs csrsH m.csrs m.hostState.csr } })
  restoreDispatcherCsrs dispatcher
  -- enable access to secure pages
  modifyCsrs (fun f => pmpcfgWrite f 5 (PMPCFG_A_TOR ||| PMPCFG_R ||| PMPCFG_W ||| PMPCFG_X))
  -- disable access to satp
  modifyCsrs (fun f => csrSet f .mstatus SR_TVM)
  -- delegate no interrupts and no exceptions
  modifyCsrs (fun f => csrWrite f .mideleg 0)
  modifyCsrs (fun f => csrWrite f .medeleg 0)
  Ctl.modify (fun m => { m with enclaveMode := 1 })
  Ctl.modify (fun m => { m with gCurDispatcherPageno := dispatcherPageno })

/-- `copy_pt_regs(&dispatcher->regs, regs)` and `dispatcher->n = csr_read(n)` for every CSR. -/
def saveDispatcherRegs (dispatcher : Word) : Monitor Unit := do
  Ctl.modify (fun m =>
    { m with
      securePages := Function.update m.securePages dispatcher
        (writeAll (fun r => (DispatcherField.gpr r).index) (fun r _ => m.regs r) Gpr.all
          (m.securePages dispatcher)) })
  Ctl.modify (fun m =>
    { m with
      securePages := Function.update m.securePages dispatcher
        (writeAll (fun c => (DispatcherField.csr c).index) (fun c _ => csrRead m.csrs c.toCsr)
          SavedCsr.all (m.securePages dispatcher)) })

def leaveSecureWorld (entered : Bool) : Monitor Unit := do
  let dispatcher ← pageMonvaddr (← Ctl.gets Machine.gCurDispatcherPageno)
  storeWord dispatcher DispatcherField.entered.index (if entered then 1 else 0)
  saveDispatcherRegs dispatcher
  Ctl.modify (fun m => { m with csrs := restoreCsrs csrsH m.csrs m.hostState.csr })
  -- disable access to secure pages
  modifyCsrs (fun f => pmpcfgWrite f 5 PMPCFG_A_TOR)
  -- enable access to satp
  modifyCsrs (fun f => csrClear f .mstatus SR_TVM)
  modifyCsrs (fun f => csrWrite f .mideleg (IDEL_SOFT_S ||| IDEL_TIMER_S ||| IDEL_EXT_S))
  modifyCsrs (fun f => csrWrite f .medeleg delegatedExceptions)
  Ctl.modify (fun m => { m with enclaveMode := 0 })
  Ctl.modify (fun m => { m with gCurDispatcherPageno := 0 })

/-! ## monitor.c: calls -/

/-- The check of the owner that `allocate_page` has between `#if 0` and `#endif`. -/
def checkOwner (enabled : Bool) (addrspacePage : Word) : Monitor Bool :=
  if enabled then pageIsTyped addrspacePage .addrspace else pure true

/-- `allocate_page`; the source has the check of the owner switched off. -/
def allocatePage (checkAddrspace : Bool) (page addrspacePage : Word) (type : PageType) :
    Monitor Word := do
  if ¬ pageIsValid page then
    return KomErr.invalidPageno.val
  if ¬ (← pageIsFree page) then
    return KomErr.pageinuse.val
  if ¬ (← checkOwner checkAddrspace addrspacePage) then
    return KomErr.invalidAddrspace.val
  let addrspace ← pageMonvaddr addrspacePage
  if (← loadWord addrspace KOM_ADDRSPACE_STATE) ≠ AddrspaceState.init.val then
    return KomErr.alreadyFinal.val
  -- unlike Komodo, a new page is always cleared
  memsetPage (← pageMonvaddr page)
  storeEntry page (fun e => { e with type := type.val })
  storeEntry page (fun e => { e with addrspacePage := addrspacePage })
  storeWord addrspace KOM_ADDRSPACE_REFCOUNT ((← loadWord addrspace KOM_ADDRSPACE_REFCOUNT) + 1)
  return KomErr.success.val

def komSmcInitAddrspace (addrspacePage l1ptPage : Word) : Monitor Word := do
  if addrspacePage = l1ptPage ∨ ¬ (pageIsValid addrspacePage ∧ pageIsValid l1ptPage) then
    return KomErr.invalidPageno.val
  if ¬ ((← pageIsFree addrspacePage) ∧ (← pageIsFree l1ptPage)) then
    return KomErr.pageinuse.val
  let addrspace ← pageMonvaddr addrspacePage
  memsetPage addrspace
  memsetPage (← pageMonvaddr l1ptPage)
  storeEntry addrspacePage (fun e => { e with type := PageType.addrspace.val })
  storeEntry addrspacePage (fun e => { e with addrspacePage := addrspacePage })
  storeEntry l1ptPage (fun e => { e with type := PageType.l1ptable.val })
  storeEntry l1ptPage (fun e => { e with addrspacePage := addrspacePage })
  storeWord addrspace KOM_ADDRSPACE_L1PT_PAGE l1ptPage
  -- for the l1pt and addrspace itself
  storeWord addrspace KOM_ADDRSPACE_REFCOUNT 2
  storeWord addrspace KOM_ADDRSPACE_STATE AddrspaceState.init.val
  return KomErr.success.val

def komSmcInitDispatcher (L : Layout) (page addrspacePage entrypoint : Word) : Monitor Word := do
  if ¬ (← pageIsTyped addrspacePage .addrspace) then
    return KomErr.invalidAddrspace.val
  let err ← allocatePage false page addrspacePage .dispatcher
  if err ≠ KomErr.success.val then
    return err
  let addrspace ← pageMonvaddr addrspacePage
  let disp ← pageMonvaddr page
  storeWord disp (DispatcherField.csr .mepc).index entrypoint
  let l1pt ← pagePaddr L (← loadWord addrspace KOM_ADDRSPACE_L1PT_PAGE)
  storeWord disp (DispatcherField.csr .satp).index (SATP_MODE_SV39 ||| pfnDown l1pt)
  -- enable S-mode interrupts in enclave mode
  storeWord disp (DispatcherField.csr .sie).index (IE_SSIE ||| IE_STIE ||| IE_SEIE)
  return KomErr.success.val

/-- `kom_smc_init_l2ptable` and `kom_smc_init_l3ptable`. -/
def komSmcInitPtable (parent child : PageType) (L : Layout) (page ptPage index : Word) :
    Monitor Word := do
  if ¬ index < KOM_PAGE_WORDS then
    return KomErr.invalidMapping.val
  if ¬ (← pageIsTyped ptPage parent) then
    return KomErr.invalidPageno.val
  let pt ← pageMonvaddr ptPage
  if (← loadWord pt index) ≠ 0 then
    return KomErr.addrinuse.val
  let addrspacePage := (← loadEntry ptPage).addrspacePage
  let err ← allocatePage false page addrspacePage child
  if err ≠ KomErr.success.val then
    return err
  let paddr ← pagePaddr L page
  storeWord pt index (pfnPte (pfnDown paddr) PAGE_TABLE)
  return KomErr.success.val

def komSmcInitL2ptable (L : Layout) (page l1ptPage l1Index : Word) : Monitor Word :=
  komSmcInitPtable .l1ptable .l2ptable L page l1ptPage l1Index

def komSmcInitL3ptable (L : Layout) (page l2ptPage l2Index : Word) : Monitor Word :=
  komSmcInitPtable .l2ptable .l3ptable L page l2ptPage l2Index

def komSmcMapSecure (L : Layout) (page l3ptPage l3Index mapping content : Word) :
    Monitor Word := do
  if ¬ l3Index < KOM_PAGE_WORDS then
    return KomErr.invalidMapping.val
  if ¬ insecurePageIsValid content then
    return KomErr.invalidPageno.val
  if ¬ (← pageIsTyped l3ptPage .l3ptable) then
    return KomErr.invalidPageno.val
  let l3pt ← pageMonvaddr l3ptPage
  if (← loadWord l3pt l3Index) ≠ 0 then
    return KomErr.addrinuse.val
  let addrspacePage := (← loadEntry l3ptPage).addrspacePage
  -- no check on mapping: we don't require R
  let err ← allocatePage false page addrspacePage .data
  if err ≠ KomErr.success.val then
    return err
  let paddr ← pagePaddr L page
  storeWord l3pt l3Index (pfnPte (pfnDown paddr) (Monitor.enclaveProt mapping))
  memcpyPage (← pageMonvaddr page) content
  return KomErr.success.val

def komSmcMapInsecure (L : Layout) (l3ptPage l3Index mapping insecurePageno : Word) :
    Monitor Word := do
  if ¬ insecurePageIsValid insecurePageno then
    return KomErr.invalidPageno.val
  if ¬ l3Index < KOM_PAGE_WORDS then
    return KomErr.invalidMapping.val
  if ¬ (← pageIsTyped l3ptPage .l3ptable) then
    return KomErr.invalidPageno.val
  let l3pt ← pageMonvaddr l3ptPage
  if (← loadWord l3pt l3Index) ≠ 0 then
    return KomErr.addrinuse.val
  let addrspace ← pageMonvaddr (← loadEntry l3ptPage).addrspacePage
  if (← loadWord addrspace KOM_ADDRSPACE_STATE) ≠ AddrspaceState.init.val then
    return KomErr.alreadyFinal.val
  storeWord l3pt l3Index
    (pfnPte (pfnDown (insecurePagePaddr L insecurePageno)) (Monitor.enclaveProt mapping))
  return KomErr.success.val

/-- The part of `kom_smc_remove` after its checks. -/
def dropPage (pageno addrspace : Word) : Monitor Word := do
  -- page tables keep their entries: a stopped addrspace can never execute again
  storeWord addrspace KOM_ADDRSPACE_REFCOUNT ((← loadWord addrspace KOM_ADDRSPACE_REFCOUNT) - 1)
  storeEntry pageno (fun e => { e with type := PageType.free.val })
  storeEntry pageno (fun e => { e with addrspacePage := ~~~0 })
  return KomErr.success.val

def komSmcRemove (pageno : Word) : Monitor Word := do
  if ¬ pageIsValid pageno then
    return KomErr.invalidPageno.val
  let entry ← loadEntry pageno
  if entry.type = PageType.free.val then
    return KomErr.success.val
  if entry.type = PageType.addrspace.val then do
    let addrspace ← pageMonvaddr pageno
    if (← loadWord addrspace KOM_ADDRSPACE_REFCOUNT) ≠ 1 then
      return KomErr.pageinuse.val
    if (← loadWord addrspace KOM_ADDRSPACE_STATE) ≠ AddrspaceState.stopped.val then
      return KomErr.notStopped.val
    dropPage pageno addrspace
  else do
    let addrspace ← pageMonvaddr entry.addrspacePage
    if (← loadWord addrspace KOM_ADDRSPACE_STATE) ≠ AddrspaceState.stopped.val then
      return KomErr.notStopped.val
    dropPage pageno addrspace

def komSmcFinalise (addrspacePage : Word) : Monitor Word := do
  if ¬ (← pageIsTyped addrspacePage .addrspace) then
    return KomErr.invalidAddrspace.val
  let addrspace ← pageMonvaddr addrspacePage
  if (← loadWord addrspace KOM_ADDRSPACE_STATE) ≠ AddrspaceState.init.val then
    return KomErr.alreadyFinal.val
  storeWord addrspace KOM_ADDRSPACE_STATE AddrspaceState.final.val
  return KomErr.success.val

def komSmcStop (addrspacePage : Word) : Monitor Word := do
  if ¬ (← pageIsTyped addrspacePage .addrspace) then
    return KomErr.invalidAddrspace.val
  let addrspace ← pageMonvaddr addrspacePage
  storeWord addrspace KOM_ADDRSPACE_STATE AddrspaceState.stopped.val
  return KomErr.success.val

/-- `mret_with_regs(&dispatcher->regs)`. -/
def mretDispatcher (dispatcher : Word) : Monitor Word := do
  let m ← Ctl.get
  Ctl.leave (dispatcherRegs (m.securePages dispatcher)).gpr

def komSmcEnter (dispPage arg1 arg2 arg3 : Word) : Monitor Word := do
  if ¬ (← pageIsTyped dispPage .dispatcher) then
    return KomErr.invalidPageno.val
  let dispatcher ← pageMonvaddr dispPage
  let addrspace ← pageMonvaddr (← loadEntry dispPage).addrspacePage
  if (← loadWord addrspace KOM_ADDRSPACE_STATE) ≠ AddrspaceState.final.val then
    return KomErr.notFinal.val
  if (← loadWord dispatcher DispatcherField.entered.index) ≠ 0 then
    return KomErr.alreadyEntered.val
  storeWord dispatcher (DispatcherField.gpr .a0).index arg1
  storeWord dispatcher (DispatcherField.gpr .a1).index arg2
  storeWord dispatcher (DispatcherField.gpr .a2).index arg3
  enterSecureWorld dispPage
  mretDispatcher dispatcher

def komSmcResume (dispPage : Word) : Monitor Word := do
  if ¬ (← pageIsTyped dispPage .dispatcher) then
    return KomErr.invalidPageno.val
  let dispatcher ← pageMonvaddr dispPage
  let addrspace ← pageMonvaddr (← loadEntry dispPage).addrspacePage
  if (← loadWord addrspace KOM_ADDRSPACE_STATE) ≠ AddrspaceState.final.val then
    return KomErr.notFinal.val
  if (← loadWord dispatcher DispatcherField.entered.index) = 0 then
    return KomErr.notEntered.val
  enterSecureWorld dispPage
  mretDispatcher dispatcher

/-- Set `a0` and `a1` of the host, leave the enclave and return to the host. -/
def returnToHost (a0 a1 : Word) (entered : Bool) : Monitor Word := do
  Ctl.modify (fun m => { m with hostState := m.hostState.setGpr .a0 a0 })
  Ctl.modify (fun m => { m with hostState := m.hostState.setGpr .a1 a1 })
  leaveSecureWorld entered
  let m ← Ctl.get
  Ctl.leave m.hostState.gpr

def komSvcExit (exitvalue : Word) : Monitor Word :=
  returnToHost KomErr.success.val exitvalue false

def komHandleTrap (cause : Word) : Monitor Word :=
  returnToHost (if cause.slt 0 then KomErr.interrupted.val else KomErr.fault.val) cause true

/-! ## traps.c -/

/-- The `switch` of `do_smc_calls`. -/
def smcDispatch (L : Layout) (r : PtRegs) : Monitor Word :=
  if r .a7 = KOM_SMC_QUERY then pure KOM_MAGIC
  else if r .a7 = KOM_SMC_GETPHYSPAGES then pure KOM_SECURE_NPAGES
  else if r .a7 = KOM_SMC_INIT_ADDRSPACE then komSmcInitAddrspace (r .a0) (r .a1)
  else if r .a7 = KOM_SMC_INIT_DISPATCHER then komSmcInitDispatcher L (r .a0) (r .a1) (r .a2)
  else if r .a7 = KOM_SMC_INIT_L2PTABLE then komSmcInitL2ptable L (r .a0) (r .a1) (r .a2)
  else if r .a7 = KOM_SMC_INIT_L3PTABLE then komSmcInitL3ptable L (r .a0) (r .a1) (r .a2)
  else if r .a7 = KOM_SMC_MAP_SECURE then
    komSmcMapSecure L (r .a0) (r .a1) (r .a2) (r .a3) (r .a4)
  else if r .a7 = KOM_SMC_MAP_INSECURE then komSmcMapInsecure L (r .a0) (r .a1) (r .a2) (r .a3)
  else if r .a7 = KOM_SMC_REMOVE then komSmcRemove (r .a0)
  else if r .a7 = KOM_SMC_FINALISE then komSmcFinalise (r .a0)
  else if r .a7 = KOM_SMC_ENTER then komSmcEnter (r .a0) (r .a1) (r .a2) (r .a3)
  else if r .a7 = KOM_SMC_RESUME then komSmcResume (r .a0)
  else if r .a7 = KOM_SMC_STOP then komSmcStop (r .a0)
  else pure (-ENOSYS)

/-- The `switch` of `do_svc_calls`. -/
def svcDispatch (r : PtRegs) : Monitor Word :=
  if r .a7 = KOM_SVC_EXIT then komSvcExit (r .a0) else pure (-ENOSYS)

/-- `do_smc_calls` and `do_svc_calls`: step over the `ecall`, then put the result in `a0`. -/
def doCalls (dispatch : PtRegs → Monitor Word) : Monitor Unit := do
  let regs ← Ctl.gets Machine.regs
  modifyCsrs (fun f => csrWrite f .mepc (csrRead f .mepc + 4))
  let r ← dispatch regs
  Ctl.modify (fun m => { m with regs := Function.update m.regs .a0 r })

def doTrapEcallS (L : Layout) : Monitor Unit := do
  if (← Ctl.gets Machine.enclaveMode) ≠ 0 then
    doCalls svcDispatch
  else
    doCalls (smcDispatch L)

def doTrap (L : Layout) (cause : Word) : Monitor Unit := do
  if cause = EXC_ECALL_S then
    doTrapEcallS L
  else if (← Ctl.gets Machine.enclaveMode) ≠ 0 then do
    let _ ← komHandleTrap cause
    pure ()
  else
    pure ()

/-! ## main.c -/

def initMonitor : Monitor Unit := do
  Ctl.modify (fun m => { m with enclaveMode := 0 })
  Ctl.modify (fun m => { m with gCurDispatcherPageno := 0 })
  Ctl.modify (fun m =>
    { m with gPagedb := fun p => if pageValid p then ⟨0, 0⟩ else m.gPagedb p })
  Ctl.modify (fun m =>
    { m with
      securePages := updateWhere₂ m.securePages (fun p => pageValid p) (fun i => pageIndexValid i)
        0 })
  Ctl.modify (fun m => { m with hostState := zeroRegs })

def KOM_INSECURE_RESERVE : Word := 0x100000
def KOM_SECURE_RESERVE : Word := 0x400000

def pmpInit (L : Layout) (f : CsrFile) : CsrFile :=
  let rwx := PMPCFG_R ||| PMPCFG_W ||| PMPCFG_X
  -- allow insecure regions
  let f := pmpaddrWrite f 2 L.payloadStart
  let f := pmpaddrWrite f 3 (L.payloadStart + KOM_INSECURE_RESERVE)
  let f := pmpcfgWrite f 2 PMPCFG_A_OFF
  let f := pmpcfgWrite f 3 (PMPCFG_A_TOR ||| rwx)
  -- allow secure pages only for enclaves
  let f := pmpaddrWrite f 4 L.securePages
  let f := pmpaddrWrite f 5 (L.securePages + KOM_SECURE_RESERVE)
  let f := pmpcfgWrite f 4 PMPCFG_A_OFF
  pmpcfgWrite f 5 PMPCFG_A_TOR

/-- The CSR writes of `supervisor_init`, in order. -/
def supervisorInitCsrs (L : Layout) (f : CsrFile) : CsrFile :=
  let f := pmpInit L f
  -- prepare for S-mode (interrupts disabled in M-mode)
  let f := csrWrite f .mstatus SR_MPP_S
  -- enable counters for S-mode
  let f := csrWrite f .mcounteren 0xffffffff
  let f := csrWrite f .medeleg delegatedExceptions
  let f := csrWrite f .mideleg (IDEL_SOFT_S ||| IDEL_TIMER_S ||| IDEL_EXT_S)
  csrWrite f .mepc L.payloadStart

/-- `supervisor_init`; the other registers of its frame are not initialised. -/
def supervisorInit (L : Layout) (frame : PtRegs) (hartid dtb : Word) : Monitor Unit := do
  let regs := Function.update (Function.update frame .a0 hartid) .a1 dtb
  modifyCsrs (supervisorInitCsrs L)
  Ctl.leave regs

/-- `main`, past the discovery of the platform. -/
def boot (L : Layout) (frame : PtRegs) (hartid dtb : Word) : Monitor Unit := do
  initMonitor
  supervisorInit L frame hartid dtb

/-! ## Whole activations -/

/-- The machine the interrupted or entered context finds; `none` is a bug. -/
def resume : Outcome PtRegs Machine Unit → Option Machine :=
  Outcome.finish (fun r m => { m with regs := r })

def trap (L : Layout) (cause : Word) (m : Machine) : Option Machine :=
  resume (doTrap L cause m)

end Komodo
end Serval
