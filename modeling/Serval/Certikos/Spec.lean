import Serval.Riscv.Platform

/-!
# Spec — the CertiKOS state machine

The specification of the monitor as `verif/state.rkt` and `verif/spec.rkt` have it: a process
table, the bytes of the pages handed out to processes, the register context of the running process
and one saved context per process.  `pageOwner` is ghost state: no transition reads it.

Pids, page numbers and offsets are 64-bit words throughout, so that every transition is defined for
the arguments a process may really pass.
-/

namespace Serval
namespace Certikos

open Riscv

/-! ## Parameters -/

def NR_PROCS : Word := 64
def NR_CHILDREN : Word := 4
def NR_PAGES : Word := 256

def PID_IDLE : Word := 1

def ELF_FILE_IDLE : Word := 0

def NR_get_quota : Word := 10
def NR_spawn : Word := 11
def NR_yield : Word := 12
def NR_getpid : Word := 13

def EINVAL : Word := 22
def ENOSYS : Word := 38

inductive ProcState
  | free
  | run
  deriving DecidableEq, Repr

/-- The word stored in the process table. -/
def ProcState.val : ProcState → Word
  | .free => 0
  | .run => 1

/-- The linker symbols the monitor's behaviour depends on. -/
structure Layout where
  pages : Word
  payloadStart : Word
  payloadEnd : Word
  machineTrapVector : Word
  cpuStack : Word

/-! ## State -/

@[ext] structure State where
  currentPid : Word
  pages : Word → Word → BitVec 8
  procState : Word → Word
  procNext : Word → Word
  procOwner : Word → Word
  procLower : Word → Word
  procUpper : Word → Word
  pageOwner : Word → Word
  savedRegs : Word → Regs
  regs : Regs

def pidValid (pid : Word) : Prop :=
  0 < pid ∧ pid < NR_PROCS

instance (pid : Word) : Decidable (pidValid pid) :=
  inferInstanceAs (Decidable (_ ∧ _))

def pindexValid (pindex : Word) : Prop :=
  pindex < NR_PAGES

instance (pindex : Word) : Decidable (pindexValid pindex) :=
  inferInstanceAs (Decidable (_ < _))

def poffsetValid (poffset : Word) : Prop :=
  poffset < 4096

instance (poffset : Word) : Decidable (poffsetValid poffset) :=
  inferInstanceAs (Decidable (_ < _))

namespace State

def procParent (s : State) (parent child : Word) : Prop :=
  s.procOwner child = parent

instance (s : State) (parent child : Word) : Decidable (s.procParent parent child) :=
  inferInstanceAs (Decidable (_ = _))

def procRunnable (s : State) (pid : Word) : Prop :=
  s.procState pid = ProcState.run.val

instance (s : State) (pid : Word) : Decidable (s.procRunnable pid) :=
  inferInstanceAs (Decidable (_ = _))

/-- The pages between a process's `lower` and its `upper`. -/
def inRegion (s : State) (pid page : Word) : Prop :=
  s.procLower pid ≤ page ∧ page < s.procUpper pid

instance (s : State) (pid page : Word) : Decidable (s.inRegion pid page) :=
  inferInstanceAs (Decidable (_ ∧ _))

end State

/-! ## System calls -/

def specReturn (s : State) (val : Word) : State :=
  { s with regs := s.regs.setGpr .a0 val }

def specSysGetQuota (s : State) : State :=
  specReturn s (s.procUpper s.currentPid - s.procLower s.currentPid)

def specSysGetpid (s : State) : State :=
  specReturn s s.currentPid

def specDoYield (s : State) : State :=
  specReturn { s with currentPid := s.procNext s.currentPid } 0

def specSysYield (s : State) : State :=
  let saved := { s with savedRegs := Function.update s.savedRegs s.currentPid s.regs }
  let switched := specDoYield saved
  { switched with regs := switched.savedRegs switched.currentPid }

/-- The context a new process starts in. -/
def childRegs (L : Layout) (fileid childLower : Word) : Regs :=
  ((zeroRegs.setGpr .a0 fileid).setGpr .a1 (L.pages + childLower <<< 12)).setCsr .mepc
    L.payloadStart

/-- The effect of a spawn whose checks have passed. -/
def specSpawnChild (L : Layout) (s : State) (fileid quota pid : Word) : State :=
  let parentPid := s.currentPid
  let parentUpper := s.procUpper parentPid
  let childLower := parentUpper - quota
  let pindexChild : Word → Bool := fun pindex => childLower ≤ pindex && pindex < parentUpper
  { s with
    procState := Function.update s.procState pid ProcState.run.val
    procLower := Function.update s.procLower pid childLower
    procUpper :=
      Function.update (Function.update s.procUpper pid parentUpper) parentPid childLower
    savedRegs := Function.update s.savedRegs pid (childRegs L fileid childLower)
    -- memset pages for the child process
    pages := updateWhere₂ s.pages pindexChild (fun off => poffsetValid off) 0
    procNext :=
      Function.update (Function.update s.procNext pid (s.procNext parentPid)) parentPid pid
    -- update page ownership
    pageOwner := updateWhere s.pageOwner pindexChild pid }

def specSysSpawn (L : Layout) (s : State) (fileid quota pid : Word) : State :=
  let parentPid := s.currentPid
  let parentLower := s.procLower parentPid
  let parentUpper := s.procUpper parentPid
  if ¬ quota ≤ parentUpper - parentLower then
    specReturn s (-EINVAL)
  else if ¬ pidValid pid then
    specReturn s (-EINVAL)
  else if ¬ s.procOwner pid = parentPid then
    specReturn s (-EINVAL)
  else if ¬ s.procState pid = ProcState.free.val then
    specReturn s (-EINVAL)
  else
    specReturn (specSpawnChild L s fileid quota pid) 0

/-- The four checks of a spawn. -/
def SpawnOk (s : State) (quota pid : Word) : Prop :=
  quota ≤ s.procUpper s.currentPid - s.procLower s.currentPid ∧ pidValid pid ∧
    s.procOwner pid = s.currentPid ∧ s.procState pid = ProcState.free.val

instance (s : State) (quota pid : Word) : Decidable (SpawnOk s quota pid) :=
  inferInstanceAs (Decidable (_ ∧ _))

theorem specSysSpawn_of_ok {L : Layout} {s : State} {fileid quota pid : Word}
    (h : SpawnOk s quota pid) :
    specSysSpawn L s fileid quota pid = specReturn (specSpawnChild L s fileid quota pid) 0 := by
  rcases h with ⟨hquota, hpid, howner, hfree⟩
  simp [specSysSpawn, hquota, hpid, howner, hfree]

theorem specSysSpawn_of_not_ok {L : Layout} {s : State} {fileid quota pid : Word}
    (h : ¬ SpawnOk s quota pid) :
    specSysSpawn L s fileid quota pid = specReturn s (-EINVAL) := by
  simp only [specSysSpawn]
  split_ifs with hquota hpid howner hfree
  · exact absurd ⟨hquota, hpid, howner, hfree⟩ h
  · rfl
  · rfl
  · rfl
  · rfl

/-! ## Memory accesses and register changes of the running process -/

def specRead (s : State) (page off : Word) : State :=
  if s.inRegion s.currentPid page ∧ poffsetValid off then
    { s with regs := s.regs.setGpr .a0 ((s.pages page off).signExtend 64) }
  else
    s

def specWrite (s : State) (page off : Word) (value : BitVec 8) : State :=
  if s.inRegion s.currentPid page ∧ poffsetValid off then
    { s with pages := updateWhere₂ s.pages (fun p => p = page) (fun o => o = off) value }
  else
    s

def specWriteRegs (s : State) (regs : Regs) : State :=
  { s with regs := regs }

/-! ## Traps and steps -/

/-- `mepc` moves past the `ecall`. -/
def advanceMepc (s : State) : State :=
  { s with regs := s.regs.setCsr .mepc (4 + s.regs.csr .mepc) }

def specStepTrap (L : Layout) (s : State) : State :=
  let callno := s.regs.gpr .a7
  let arg0 := s.regs.gpr .a0
  let arg1 := s.regs.gpr .a1
  let arg2 := s.regs.gpr .a2
  let s := advanceMepc s
  if callno = NR_spawn then
    specSysSpawn L s arg0 arg1 arg2
  else if callno = NR_yield then
    specSysYield s
  else if callno = NR_getpid then
    specSysGetpid s
  else if callno = NR_get_quota then
    specSysGetQuota s
  else
    specReturn s (-ENOSYS)

/-- What the running process may do next. -/
inductive Choice
  | syscall
  | write (page off : Word) (value : BitVec 8)
  | read (page off : Word)
  | havocRegs (regs : Regs)

def specStep (L : Layout) (s : State) : Choice → State
  | .syscall => specStepTrap L s
  | .write page off value => specWrite s page off value
  | .read page off => specRead s page off
  | .havocRegs regs => specWriteRegs s regs

def specRun (L : Layout) (s : State) (cs : List Choice) : State :=
  cs.foldl (specStep L) s

@[simp] theorem specRun_nil (L : Layout) (s : State) : specRun L s [] = s := rfl

@[simp] theorem specRun_cons (L : Layout) (s : State) (c : Choice) (cs : List Choice) :
    specRun L s (c :: cs) = specRun L (specStep L s c) cs := rfl

/-- Invariants of the specification's steps hold along its runs. -/
theorem specRun_induction {P : State → Prop} {L : Layout}
    (hstep : ∀ s c, P s → P (specStep L s c)) :
    ∀ (cs : List Choice) {s : State}, P s → P (specRun L s cs) := by
  intro cs
  induction cs with
  | nil =>
      intro s hs
      exact hs
  | cons c cs ih =>
      intro s hs
      exact ih (hstep s c hs)

end Certikos
end Serval
