import Serval.Lib.Control
import Serval.Riscv.Platform

/-!
# Monitor — the Keystone code

The functions of `enclave.c`, `pmp.c` and `cpu.h`, over the monitor's globals, the payload, the CSR
file and the trap frame.  Reading or writing outside `enclaves` or `_payload_start` and `BUG()` are
bugs.  The verification build leaves out everything that touches CSRs and the trap frame; both builds
are one definition with a flag.
-/

namespace Serval
namespace Keystone

open Riscv

/-! ## Data -/

def NR_PMP_ENTRIES : Nat := 8

/-- Two PMP entries for each enclave, the last two for the operating system. -/
def NR_ENCLAVES : Word := BitVec.ofNat 64 ((NR_PMP_ENTRIES - 2) / 2)

/-- `SZ_1G`. -/
def MAX_PAYLOAD_SIZE : Word := 0x40000000

def EINVAL : Word := 22

/-- `enum enclave_status`. -/
inductive Status
  | free | fresh | running | idle
  deriving DecidableEq, Repr

def Status.val : Status → Word
  | .free => 0
  | .fresh => 1
  | .running => 2
  | .idle => 3

/-- The CSRs of `csrs.h`, in order. -/
inductive StateCsr
  | mepc | mcounteren | mcycle | minstret
  | satp | stvec | scounteren | stval | sip | scause | sepc | sstatus
  deriving DecidableEq, Repr

namespace StateCsr

def all : List StateCsr :=
  [mepc, mcounteren, mcycle, minstret, satp, stvec, scounteren, stval, sip, scause, sepc, sstatus]

theorem mem_all (c : StateCsr) : c ∈ all := by
  cases c <;> decide

def toCsr : StateCsr → Csr
  | .mepc => .mepc
  | .mcounteren => .mcounteren
  | .mcycle => .mcycle
  | .minstret => .minstret
  | .satp => .satp
  | .stvec => .stvec
  | .scounteren => .scounteren
  | .stval => .stval
  | .sip => .sip
  | .scause => .scause
  | .sepc => .sepc
  | .sstatus => .sstatus

end StateCsr

/-- `struct cpu_state`. -/
structure CpuState where
  csr : StateCsr → Word
  regs : PtRegs

def zeroCpuState : CpuState where
  csr := fun _ => 0
  regs := fun _ => 0

/-- `struct enclave`. -/
structure Enclave where
  status : Word
  entry : Word
  secureLower : Word
  secureUpper : Word
  sharedLower : Word
  sharedUpper : Word
  enclState : CpuState

def zeroEnclave : Enclave :=
  ⟨0, 0, 0, 0, 0, 0, zeroCpuState⟩

/-- Where the payload is; it is an array of `MAX_PAYLOAD_SIZE` bytes, and its end is an address. -/
structure Layout where
  payloadStart : Word
  aligned : payloadStart.toNat % 4 = 0
  fits : payloadStart.toNat + MAX_PAYLOAD_SIZE.toNat < 2 ^ 64

/-- The monitor's memory, the payload by offset, the CSRs and the registers of the trapped context. -/
structure Machine where
  enclaves : Word → Enclave
  enclaveMode : BitVec 8
  currentEnclave : Word
  hostState : CpuState
  payload : Word → BitVec 8
  csrs : CsrFile
  regs : PtRegs

abbrev Monitor := Ctl PtRegs Machine

/-! ## Memory -/

def eidIsValid (eid : Word) : Prop :=
  eid < NR_ENCLAVES

instance (eid : Word) : Decidable (eidIsValid eid) :=
  inferInstanceAs (Decidable (_ < _))

def loadEnclave (eid : Word) : Monitor Enclave := do
  Ctl.bugOn (¬ eidIsValid eid)
  Ctl.gets (fun m => m.enclaves eid)

def storeEnclave (eid : Word) (f : Enclave → Enclave) : Monitor Unit := do
  Ctl.bugOn (¬ eidIsValid eid)
  Ctl.modify (fun m => { m with enclaves := Function.update m.enclaves eid (f (m.enclaves eid)) })

/-- `memset(offset_to_virt(offset), 0, size)`. -/
def memsetPayload (offset size : Word) : Monitor Unit := do
  Ctl.bugOn (¬ offset.toNat + size.toNat ≤ MAX_PAYLOAD_SIZE.toNat)
  Ctl.modify (fun m =>
    { m with
      payload := updateWhere m.payload
        (fun i => offset.toNat ≤ i.toNat && i.toNat < offset.toNat + size.toNat) 0 })

def modifyCsrs (f : CsrFile → CsrFile) : Monitor Unit :=
  Ctl.modify (fun m => { m with csrs := f m.csrs })

/-! ## cpu.h -/

def saveCpuState (f : CsrFile) (regs : PtRegs) (state : CpuState) : CpuState where
  csr := writeAll id (fun c _ => csrRead f c.toCsr) StateCsr.all state.csr
  regs := copyPtRegs state.regs regs

/-- The CSRs that `restore_cpu_state` leaves behind; it also copies the registers. -/
def restoreStateCsrs (f : CsrFile) (state : CpuState) : CsrFile :=
  StateCsr.all.foldl (fun g c => csrWrite g c.toCsr (state.csr c)) f

def restoreCpuState (state : CpuState) : Monitor Unit :=
  Ctl.modify (fun m =>
    { m with
      csrs := restoreStateCsrs m.csrs state
      regs := copyPtRegs m.regs state.regs })

def saveHostState : Monitor Unit :=
  Ctl.modify (fun m => { m with hostState := saveCpuState m.csrs m.regs m.hostState })

def restoreHostState : Monitor Unit := do
  restoreCpuState (← Ctl.gets Machine.hostState)

def saveEnclState (eid : Word) : Monitor Unit := do
  let m ← Ctl.get
  storeEnclave eid (fun e => { e with enclState := saveCpuState m.csrs m.regs e.enclState })

def restoreEnclState (eid : Word) : Monitor Unit := do
  restoreCpuState (← loadEnclave eid).enclState

/-! ## pmp.h, pmp.c -/

def isRegionValid (lower upper : Word) : Prop :=
  lower % 4 = 0 ∧ upper % 4 = 0 ∧ lower < upper ∧ upper ≤ MAX_PAYLOAD_SIZE

instance (lower upper : Word) : Decidable (isRegionValid lower upper) :=
  inferInstanceAs (Decidable (_ ∧ _))

def offsetToPhys (L : Layout) (offset : Word) : Word :=
  L.payloadStart + offset

/-- `__pmpaddr_write`. -/
def writePmpaddr (nr : Nat) (addr : Word) : Monitor Unit := do
  Ctl.bugOn (¬ nr < 8)
  modifyCsrs (fun f => pmpaddrWrite f (Fin.ofNat 16 nr) addr)

def eidToPmpLower (eid : Word) : Monitor Nat :=
  if eid = 0 then pure 0
  else if eid = 1 then pure 2
  else if eid = 2 then pure 4
  else do
    Ctl.bugOn True
    pure 0

def eidToPmpUpper (eid : Word) : Monitor Nat := do
  return (← eidToPmpLower eid) + 1

def freePmpRegion (i : Word) : Monitor Unit := do
  writePmpaddr (← eidToPmpLower i) 0
  writePmpaddr (← eidToPmpUpper i) 0

def chmodPmpRegion (i perm : Word) : Monitor Unit := do
  let nr ← eidToPmpUpper i
  modifyCsrs (fun f => pmpcfgWrite f nr (PMPCFG_A_TOR ||| perm))

def remapPmpRegion (L : Layout) (i lower upper : Word) : Monitor Unit := do
  writePmpaddr (← eidToPmpLower i) (offsetToPhys L lower)
  writePmpaddr (← eidToPmpUpper i) (offsetToPhys L upper)

def remapOsRegion (L : Layout) : Monitor Unit := do
  writePmpaddr (NR_PMP_ENTRIES - 2) (offsetToPhys L 0)
  writePmpaddr (NR_PMP_ENTRIES - 1) (offsetToPhys L MAX_PAYLOAD_SIZE)
  modifyCsrs (fun f =>
    pmpcfgWrite f (NR_PMP_ENTRIES - 1) (PMPCFG_A_TOR ||| PMPCFG_R ||| PMPCFG_W ||| PMPCFG_X))

def remapSharedRegion (L : Layout) (lower upper : Word) : Monitor Unit := do
  writePmpaddr (NR_PMP_ENTRIES - 2) (offsetToPhys L lower)
  writePmpaddr (NR_PMP_ENTRIES - 1) (offsetToPhys L upper)
  modifyCsrs (fun f => pmpcfgWrite f (NR_PMP_ENTRIES - 1) (PMPCFG_A_TOR ||| PMPCFG_R ||| PMPCFG_W))

/-! ## enclave.c -/

def eids : List Word :=
  (List.range NR_ENCLAVES.toNat).map (BitVec.ofNat 64)

/-- The loop over `enclaves` looks at free slots too. -/
def isRegionOverlap (enclaves : Word → Enclave) (lower upper : Word) : Bool :=
  eids.any fun i =>
    lower < (enclaves i).secureUpper && (enclaves i).secureLower < upper

def initEnclave : Monitor Unit := do
  Ctl.modify (fun m => { m with enclaveMode := 0 })
  Ctl.modify (fun m =>
    { m with enclaves := fun eid => if eidIsValid eid then zeroEnclave else m.enclaves eid })

section Calls

variable (verification : Bool) (L : Layout)

def sysCreateEnclave (eid entry secureLower secureUpper sharedLower sharedUpper : Word) :
    Monitor Word := do
  if (← Ctl.gets Machine.enclaveMode) ≠ 0 then
    return -EINVAL
  if ¬ eidIsValid eid then
    return -EINVAL
  if (← loadEnclave eid).status ≠ Status.free.val then
    return -EINVAL
  if ¬ isRegionValid secureLower secureUpper then
    return -EINVAL
  if ¬ isRegionValid sharedLower sharedUpper then
    return -EINVAL
  -- a secure region may overlap with another enclave's shared region
  if isRegionOverlap (← Ctl.gets Machine.enclaves) secureLower secureUpper then
    return -EINVAL
  storeEnclave eid (fun e => { e with secureLower := secureLower })
  storeEnclave eid (fun e => { e with secureUpper := secureUpper })
  storeEnclave eid (fun e => { e with sharedLower := sharedLower })
  storeEnclave eid (fun e => { e with sharedUpper := sharedUpper })
  storeEnclave eid (fun e => { e with entry := entry })
  storeEnclave eid (fun e => { e with status := Status.fresh.val })
  if ¬ verification then
    -- block accesses to the newly created enclave
    chmodPmpRegion eid 0
    remapPmpRegion L eid secureLower secureUpper
  return 0

def sysDestroyEnclave (eid : Word) : Monitor Word := do
  if (← Ctl.gets Machine.enclaveMode) ≠ 0 then
    return -EINVAL
  if ¬ eidIsValid eid then
    return -EINVAL
  let enclave ← loadEnclave eid
  if enclave.status ≠ Status.idle.val ∧ enclave.status ≠ Status.fresh.val then
    return -EINVAL
  let size := enclave.secureUpper - enclave.secureLower
  memsetPayload enclave.secureLower size
  storeEnclave eid (fun e => { e with status := Status.free.val })
  storeEnclave eid (fun e => { e with secureLower := 0 })
  storeEnclave eid (fun e => { e with secureUpper := 0 })
  if ¬ verification then
    freePmpRegion eid
  return 0

def sysResumeEnclave (eid : Word) : Monitor Word := do
  if (← Ctl.gets Machine.enclaveMode) ≠ 0 then
    return -EINVAL
  if ¬ eidIsValid eid then
    return -EINVAL
  if (← loadEnclave eid).status ≠ Status.idle.val then
    return -EINVAL
  Ctl.modify (fun m => { m with enclaveMode := 1 })
  Ctl.modify (fun m => { m with currentEnclave := eid })
  storeEnclave eid (fun e => { e with status := Status.running.val })
  if ¬ verification then
    saveHostState
    restoreEnclState eid
    -- enable RWX accesses to the secure region
    chmodPmpRegion eid (PMPCFG_R ||| PMPCFG_W ||| PMPCFG_X)
    -- enable RW accesses to the shared region
    let enclave ← loadEnclave eid
    remapSharedRegion L enclave.sharedLower enclave.sharedUpper
  return 0

def sysRunEnclave (eid : Word) : Monitor Word := do
  if (← Ctl.gets Machine.enclaveMode) ≠ 0 then
    return -EINVAL
  if ¬ eidIsValid eid then
    return -EINVAL
  let enclave ← loadEnclave eid
  if enclave.status ≠ Status.idle.val ∧ enclave.status ≠ Status.fresh.val then
    return -EINVAL
  storeEnclave eid (fun e =>
    { e with enclState := { e.enclState with csr := Function.update e.enclState.csr .mepc e.entry } })
  storeEnclave eid (fun e => { e with enclState := { e.enclState with regs := fun _ => 0 } })
  storeEnclave eid (fun e => { e with status := Status.idle.val })
  sysResumeEnclave verification L eid

def sysExitEnclave : Monitor Word := do
  let eid ← Ctl.gets Machine.currentEnclave
  if (← Ctl.gets Machine.enclaveMode) = 0 then
    return -EINVAL
  Ctl.modify (fun m => { m with enclaveMode := 0 })
  Ctl.modify (fun m => { m with currentEnclave := -1 })
  storeEnclave eid (fun e => { e with status := Status.idle.val })
  if ¬ verification then
    saveEnclState eid
    restoreHostState
    -- block this secure region
    chmodPmpRegion eid 0
    -- enable everything else for the operating system
    remapOsRegion L
  return 0

/-- The calls, with their arguments. -/
inductive Call
  | create (eid entry secureLower secureUpper sharedLower sharedUpper : Word)
  | destroy (eid : Word)
  | run (eid : Word)
  | exit
  | resume (eid : Word)
  deriving DecidableEq, Repr

def Call.exec : Call → Monitor Word
  | .create eid entry secureLower secureUpper sharedLower sharedUpper =>
      sysCreateEnclave verification L eid entry secureLower secureUpper sharedLower sharedUpper
  | .destroy eid => sysDestroyEnclave verification eid
  | .run eid => sysRunEnclave verification L eid
  | .exit => sysExitEnclave verification L
  | .resume eid => sysResumeEnclave verification L eid

/-! ## main.c -/

/-- `pmp_init`: the last entries are for everything that is neither an enclave nor the monitor. -/
def pmpInit : Monitor Unit :=
  if ¬ verification then remapOsRegion L else pure ()

end Calls

end Keystone
end Serval
