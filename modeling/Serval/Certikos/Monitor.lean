import Serval.Lib.Control
import Serval.Certikos.Spec

/-!
# Monitor — the CertiKOS code

The functions of `proc.c`, `traps.c` and `main.c` over the monitor's globals, the CSR file and the
trap frame.  A pointer into `procs` is the index of its element; reading or writing an element
outside the array, a failed `BUG_ON` and a `memset` beyond `pages` are bugs.

`procSwitch` leaves by `mret` with the registers of the process it switches to, so code after a
call of it never runs.
-/

namespace Serval
namespace Certikos

open Riscv

/-- `struct proc`, with its eleven CSR members as one map. -/
structure Proc where
  state : Word
  owner : Word
  next : Word
  lower : Word
  upper : Word
  csr : SavedCsr → Word
  cpu : PtRegs

/-- The monitor's memory, the CSRs and the registers of the trapped process. -/
structure Machine where
  procs : Word → Proc
  pages : Word → Word → BitVec 8
  currentPid : Word
  csrs : CsrFile
  regs : PtRegs

/-- Monitor code; it leaves with the registers it hands to `mret`. -/
abbrev Monitor := Ctl PtRegs Machine

/-! ## Memory -/

def loadProc (pid : Word) : Monitor Proc := do
  Ctl.bugOn (¬ pid < NR_PROCS)
  Ctl.gets (fun m => m.procs pid)

def storeProc (pid : Word) (f : Proc → Proc) : Monitor Unit := do
  Ctl.bugOn (¬ pid < NR_PROCS)
  Ctl.modify (fun m => { m with procs := Function.update m.procs pid (f (m.procs pid)) })

/-- Position of a byte of `pages` relative to its start. -/
def byteOffset (pindex poffset : Word) : Nat :=
  pindex.toNat * 4096 + poffset.toNat

/-- `memset` of `len` bytes of `pages` from byte `start` on. -/
def memsetPages (start len : Word) : Monitor Unit := do
  Ctl.bugOn (¬ start.toNat + len.toNat ≤ 256 * 4096)
  Ctl.modify (fun m =>
    { m with
      pages := fun i j =>
        if poffsetValid j ∧ start.toNat ≤ byteOffset i j ∧
            byteOffset i j < start.toNat + len.toNat then
          0
        else
          m.pages i j })

def modifyCsrs (f : CsrFile → CsrFile) : Monitor Unit :=
  Ctl.modify (fun m => { m with csrs := f m.csrs })

/-! ## proc.c -/

/-- The order of `proc_save_csrs` and of `proc_restore_csrs`. -/
def procCsrs : SaveOrder where
  order := [.satp, .scause, .scounteren, .sepc, .sscratch, .sstatus, .stvec, .stval, .mepc, .sie,
    .sip]
  nodup := by decide
  complete := by
    intro c
    cases c <;> decide

/-- One iteration of the loop of `proc_init`: neither `mepc` nor `cpu` is set. -/
def procInitEntry (i : Nat) (p : Proc) : Proc :=
  { p with
    state := ProcState.free.val
    owner := if NR_CHILDREN ≤ BitVec.ofNat 64 i then BitVec.ofNat 64 i / NR_CHILDREN else PID_IDLE
    next := 0
    lower := 0
    upper := 0
    csr := fun c => if c = .mepc then p.csr .mepc else 0 }

def procInit : Monitor Unit := do
  Ctl.modify (fun m =>
    { m with procs := writeAll (fun i => BitVec.ofNat 64 i) procInitEntry (List.range 64) m.procs })
  -- initially run idle
  Ctl.modify (fun m => { m with currentPid := PID_IDLE })

def procNew (L : Layout) (pid next fileid lower upper : Word) : Monitor Unit := do
  Ctl.bugOn (¬ pid < NR_PROCS)
  let proc ← loadProc pid
  Ctl.bugOn (proc.state ≠ ProcState.free.val)
  storeProc pid (fun p => { p with state := ProcState.run.val, next := next })
  storeProc pid (fun p => { p with lower := lower, upper := upper })
  storeProc pid (fun p => { p with csr := Function.update p.csr .mepc L.payloadStart })
  storeProc pid (fun p => { p with cpu := fun _ => 0 })
  storeProc pid (fun p => { p with cpu := Function.update p.cpu .a0 fileid })
  storeProc pid (fun p => { p with cpu := Function.update p.cpu .a1 (L.pages + lower * 4096) })
  -- otherwise data might leak from parent to child
  memsetPages (lower * 4096) ((upper - lower) * 4096)

def procSwitch {α : Type} (L : Layout) (pid : Word) : Monitor α := do
  Ctl.bugOn (¬ pid < NR_PROCS)
  let proc ← loadProc pid
  modifyCsrs (fun f => pmpaddrWrite f 0 (L.pages + proc.lower * 4096))
  modifyCsrs (fun f => pmpaddrWrite f 1 (L.pages + proc.upper * 4096))
  modifyCsrs (fun f => restoreCsrs procCsrs f proc.csr)
  Ctl.leave proc.cpu

def procGet (pid : Word) : Monitor Word :=
  pure pid

def procCurrent : Monitor Word := do
  procGet (← Ctl.gets Machine.currentPid)

def isPidValid (pid : Word) : Prop :=
  0 < pid ∧ pid < NR_PROCS

instance (pid : Word) : Decidable (isPidValid pid) :=
  inferInstanceAs (Decidable (_ ∧ _))

def isProcFree (pid : Word) : Monitor Bool := do
  let proc ← loadProc pid
  pure (proc.state = ProcState.free.val)

def isPidOwnedByCurrent (pid : Word) : Monitor Bool := do
  let proc ← loadProc pid
  let currentPid ← Ctl.gets Machine.currentPid
  pure (proc.owner = currentPid)

/-! ## traps.c -/

def sysGetQuota : Monitor Word := do
  let proc ← loadProc (← procCurrent)
  pure (proc.upper - proc.lower)

/-- The part of `sys_spawn` after its checks. -/
def spawnChild (L : Layout) (cur fileid pid quota : Word) : Monitor Word := do
  -- child takes this new top
  let upper := (← loadProc cur).upper
  -- take quota off the current process
  storeProc cur (fun p => { p with upper := p.upper - quota })
  let proc ← loadProc cur
  procNew L pid proc.next fileid proc.upper upper
  storeProc cur (fun p => { p with next := pid })
  let proc ← loadProc cur
  modifyCsrs (fun f => pmpaddrWrite f 0 (L.pages + proc.lower * 4096))
  modifyCsrs (fun f => pmpaddrWrite f 1 (L.pages + proc.upper * 4096))
  pure 0

def sysSpawn (L : Layout) (fileid quota pid : Word) : Monitor Word := do
  let cur ← procCurrent
  let proc ← loadProc cur
  if proc.upper - proc.lower < quota then
    pure (-EINVAL)
  else if ¬ isPidValid pid then
    pure (-EINVAL)
  else do
    let pid := arrayIndexNospec pid NR_PROCS
    if ¬ (← isPidOwnedByCurrent pid) then
      pure (-EINVAL)
    else do
      if ¬ (← isProcFree pid) then
        pure (-EINVAL)
      else
        spawnChild L cur fileid pid quota

def doYield : Monitor Word := do
  let proc ← loadProc (← procCurrent)
  Ctl.modify (fun m => { m with currentPid := proc.next })
  pure 0

def sysYield (L : Layout) : Monitor Word := do
  let cur ← procCurrent
  let m ← Ctl.get
  storeProc cur (fun p => { p with cpu := copyPtRegs p.cpu m.regs })
  storeProc cur (fun p => { p with csr := saveCsrs procCsrs m.csrs p.csr })
  let _ ← doYield
  procSwitch L (← Ctl.gets Machine.currentPid)

def sysGetpid : Monitor Word :=
  Ctl.gets Machine.currentPid

/-- The `switch` of `do_trap_ecall_s`, in the verification build. -/
def dispatch (L : Layout) (regs : PtRegs) : Monitor Word :=
  if regs .a7 = NR_get_quota then sysGetQuota
  else if regs .a7 = NR_spawn then sysSpawn L (regs .a0) (regs .a1) (regs .a2)
  else if regs .a7 = NR_yield then sysYield L
  else if regs .a7 = NR_getpid then sysGetpid
  else pure (-ENOSYS)

def doTrapEcallS (L : Layout) : Monitor Unit := do
  let regs ← Ctl.gets Machine.regs
  modifyCsrs (fun f => csrWrite f .mepc (csrRead f .mepc + 4))
  let r ← dispatch L regs
  Ctl.modify (fun m => { m with regs := Function.update m.regs .a0 r })

/-! ## main.c -/

/-- The CSR writes of `user_init`, in order. -/
def userInitCsrs (L : Layout) (f : CsrFile) : CsrFile :=
  -- set previous privilege to S-mode
  let f := csrClear f .mstatus SR_MPP
  let f := csrSet f .mstatus SR_MPP_S
  let f := csrClear f .mstatus SR_SXL
  let f := csrSet f .mstatus SR_SXL_64
  let f := csrClear f .mstatus SR_UXL
  let f := csrSet f .mstatus SR_UXL_64
  -- disable counters in S-mode
  let f := csrWrite f .mcounteren 0
  let f := csrWrite f .medeleg delegatedExceptions
  -- disable interrupts in S-mode
  let f := csrWrite f .mideleg 0
  let f := csrWrite f .satp SATP_MODE_BARE
  -- RWX process
  let f := pmpcfgWrite f 0 PMPCFG_A_OFF
  let f := pmpcfgWrite f 1 (PMPCFG_A_TOR ||| PMPCFG_R ||| PMPCFG_W ||| PMPCFG_X)
  -- RX initrd
  let f := pmpcfgWrite f 2 PMPCFG_A_OFF
  let f := pmpcfgWrite f 3 (PMPCFG_A_TOR ||| PMPCFG_R ||| PMPCFG_X)
  let f := pmpaddrWrite f 2 L.payloadStart
  pmpaddrWrite f 3 L.payloadEnd

def userInit (L : Layout) : Monitor Unit := do
  let pid := PID_IDLE
  procNew L pid pid ELF_FILE_IDLE 0 NR_PAGES
  modifyCsrs (userInitCsrs L)
  procSwitch L pid

/-- `main`, past the discovery of the platform. -/
def boot (L : Layout) : Monitor Unit := do
  procInit
  userInit L

/-! ## Whole activations -/

/-- The machine a process finds when the monitor has finished: the trap frame is restored on a
return, and `mret_with_regs` installs the registers it was given.  `none` is a bug. -/
def resume : Outcome PtRegs Machine Unit → Option Machine
  | .ret _ m => some m
  | .leave r m => some { m with regs := r }
  | .bug => none

def trapEcallS (L : Layout) (m : Machine) : Option Machine :=
  resume (doTrapEcallS L m)

theorem resume_of_wp {c : Monitor Unit} {P : Machine → Prop} {m : Machine}
    (h : Ctl.wp c (fun _ m' => P m') (fun r m' => P { m' with regs := r }) m) :
    ∃ m', resume (c m) = some m' ∧ P m' := by
  have hfinish : resume (c m) = (c m).finish (fun r m' => { m' with regs := r }) := by
    cases c m <;> rfl
  rw [hfinish]
  exact Ctl.exists_finish_of_wp h

end Certikos
end Serval
