import Serval.Certikos.Runs

/-!
# User — the library that CertiKOS processes are linked with

`user/lib.c` runs inside a process.  It keeps its own account of the pages that are left, in `avail_quota` and
`alloc_next`, and takes pages from there for page tables and for page faults; it asks the monitor for new processes.
A failed `assert` never returns, so here it is a bug.  So is an access that leaves the region of the process, which
physical memory protection stops.

The library addresses its page tables by physical addresses, for which it sets up an identity mapping.  The static
variables are not part of `pages`; `printf` and the TLB are left out.
-/

namespace Serval
namespace Certikos

open Riscv

/-! ## Parameters -/

def SZ_4K : Word := 4096

def KERNEL_VIRTUAL_START : Word := 0xffffffe000000000

def PAGE_TABLE : Word := 1

/-- `_PAGE_KERNEL | _PAGE_EXEC`. -/
def PAGE_KERNEL_EXEC : Word := 0b11001111

def SATP_PPN : Word := 0xfffffffffff

def EXC_LOAD_PAGE_FAULT : Word := 13
def EXC_STORE_PAGE_FAULT : Word := 15

def roundup (x y : Word) : Word := (x + (y - 1)) / y * y
def rounddown (x y : Word) : Word := x - x % y

def pgdIndex (addr : Word) : Word := addr >>> 30 &&& 511
def pmdIndex (addr : Word) : Word := addr >>> 21 &&& 511
def pteIndex (addr : Word) : Word := addr >>> 12 &&& 511

/-- `pfn_pgd`, `pfn_pmd` and `pfn_pte`. -/
def pfnEntry (pfn prot : Word) : Word := pfn <<< 10 ||| prot

/-! ## State -/

/-- A page that `boot_alloc` has returned, and the region of the process at that time. -/
structure Handout where
  page : Word
  lower : Word
  upper : Word
  deriving DecidableEq, Repr

/-- The machine and the static variables of `lib.c`; `handedOut` is ghost state, the last page first. -/
structure Process where
  machine : Machine
  availQuota : Word
  allocNext : Word
  nextPid : Word
  inprogress : Word
  handedOut : List Handout

/-- The static variables as the loader finds them. -/
def Process.loaded (m : Machine) : Process where
  machine := m
  availQuota := -1
  allocNext := -1
  nextPid := -1
  inprogress := 1
  handedOut := []

/-- Code of a process; it never leaves. -/
abbrev User := Ctl Empty Process

/-- `assert`. -/
def assert (c : Prop) [Decidable c] : User Unit :=
  Ctl.bugOn (¬ c)

def modifyMachine (f : Machine → Machine) : User Unit :=
  Ctl.modify (fun s => { s with machine := f s.machine })

/-! ## Memory -/

/-- The entry of the process that runs. -/
def Machine.current (m : Machine) : Proc :=
  m.procs m.currentPid

def pageIndex (L : Layout) (a : Word) : Word := (a - L.pages) / SZ_4K
def pageOffset (L : Layout) (a : Word) : Word := (a - L.pages) % SZ_4K

/-- The pages that physical memory protection opens to the process that runs. -/
def Machine.reaches (L : Layout) (m : Machine) (a : Word) : Prop :=
  m.current.lower ≤ pageIndex L a ∧ pageIndex L a < m.current.upper

instance (L : Layout) (m : Machine) (a : Word) : Decidable (m.reaches L a) :=
  inferInstanceAs (Decidable (_ ∧ _))

/-- Eight bytes of a page, the first one least significant. -/
def readWord (pages : Word → Word → BitVec 8) (page off : Word) : Word :=
  pages page (off + 7) ++ pages page (off + 6) ++ pages page (off + 5) ++ pages page (off + 4) ++
    pages page (off + 3) ++ pages page (off + 2) ++ pages page (off + 1) ++ pages page off

def writeWord (pages : Word → Word → BitVec 8) (page off value : Word) : Word → Word → BitVec 8 :=
  fun i j => if i = page ∧ j - off < 8 then value.extractLsb' (8 * (j - off).toNat) 8 else pages i j

def loadWord (L : Layout) (a : Word) : User Word := do
  let m ← Ctl.gets Process.machine
  Ctl.bugOn (¬ m.reaches L a)
  pure (readWord m.pages (pageIndex L a) (pageOffset L a))

def storeWord (L : Layout) (a value : Word) : User Unit := do
  let m ← Ctl.gets Process.machine
  Ctl.bugOn (¬ m.reaches L a)
  modifyMachine (fun m => { m with pages := writeWord m.pages (pageIndex L a) (pageOffset L a) value })

/-! ## System calls -/

/-- `ecall` with the registers as they are set; the value returned. -/
def ecall (L : Layout) (set : PtRegs → PtRegs) : User Word :=
  fun s =>
    match trapEcallS L { s.machine with regs := set s.machine.regs } with
    | some m => .ret (m.regs .a0) { s with machine := m }
    | none => .bug

def userSysGetpid (L : Layout) : User Word :=
  ecall L (fun r => Function.update r .a7 NR_getpid)

def userSysSpawn (L : Layout) (fileid quota pid : Word) : User Word :=
  ecall L (fun r => Function.update (Function.update (Function.update (Function.update r .a0 fileid) .a1 quota) .a2
    pid) .a7 NR_spawn)

/-- `yield`: the process goes on when the monitor switches back to it. -/
def yield (L : Layout) : User Unit := do
  let _ ← ecall L (fun r => Function.update r .a7 NR_yield)

/-! ## lib.c -/

/-- `get_quota`. -/
def getQuota : User Word := do
  let availQuota ← Ctl.gets Process.availQuota
  assert (¬ availQuota.slt 0)
  pure availQuota

/-- `spawn`. -/
def spawn (L : Layout) (fileid quota : Word) : User Word := do
  let nextPid ← Ctl.gets Process.nextPid
  -- first time
  if nextPid.slt 0 then do
    let pid ← userSysGetpid L
    Ctl.modify (fun s => { s with nextPid := pid * NR_CHILDREN })
  let pid ← Ctl.gets Process.nextPid
  Ctl.modify (fun s => { s with nextPid := pid + 1 })
  let r ← userSysSpawn L fileid quota pid
  pure (if r.slt 0 then r else pid)

/-- `boot_alloc`. -/
def bootAlloc : User Word := do
  let s ← Ctl.get
  let result := s.allocNext
  assert ((0 : Word).slt s.availQuota)
  Ctl.modify (fun s =>
    { s with
      allocNext := s.allocNext + SZ_4K
      availQuota := s.availQuota - 1
      handedOut := ⟨result, s.machine.current.lower, s.machine.current.upper⟩ :: s.handedOut })
  pure result

/-- The table that an entry of `vm_map` leads to, which is allocated if there is none. -/
def nextTable (L : Layout) (slot : Word) : User Word := do
  let entry ← loadWord L slot
  if entry = 0 then do
    let table ← bootAlloc
    storeWord L slot (pfnEntry (table / SZ_4K) PAGE_TABLE)
    pure table
  else
    pure ((entry >>> 10) * SZ_4K)

/-- `vm_map`. -/
def vmMap (L : Layout) (pgd va pa : Word) : User Unit := do
  assert (va % SZ_4K = 0)
  assert (pa % SZ_4K = 0)
  let pmd ← nextTable L (pgd + pgdIndex va * 8)
  let pte ← nextTable L (pmd + pmdIndex va * 8)
  let entry ← loadWord L (pte + pteIndex va * 8)
  assert (entry = 0)
  storeWord L (pte + pteIndex va * 8) (pfnEntry (pa / SZ_4K) PAGE_KERNEL_EXEC)

/-- `vm_map` of `n` pages, one after the other. -/
def vmMapRange (L : Layout) (pgd va pa : Word) : Nat → User Unit
  | 0 => pure ()
  | n + 1 => do
      vmMap L pgd va pa
      vmMapRange L pgd (va + SZ_4K) (pa + SZ_4K) n

/-- `lib_setup`.  Its loops go from one multiple of the page size to another. -/
def libSetup (L : Layout) (physStart physMid physEnd : Word) : User Unit := do
  assert (physStart % SZ_4K = 0)
  assert (physEnd % SZ_4K = 0)
  let physMid := roundup physMid SZ_4K
  assert (physStart ≤ physMid)
  assert (physMid ≤ physEnd)
  Ctl.modify (fun s => { s with availQuota := (physEnd - physMid) / SZ_4K, allocNext := physMid })
  let pgd ← bootAlloc
  -- an identity mapping, for the page-fault handling later
  vmMapRange L pgd physStart physStart ((physEnd - physStart) / SZ_4K).toNat
  -- code and data
  vmMapRange L pgd KERNEL_VIRTUAL_START physStart ((physMid - physStart) / SZ_4K).toNat
  modifyMachine (fun m => { m with csrs := csrWrite m.csrs .satp (pgd / SZ_4K ||| SATP_MODE_SV39) })

/-- `do_page_fault`. -/
def doPageFault (L : Layout) : User Unit := do
  let csrs ← Ctl.gets (fun s => s.machine.csrs)
  let pgd := (csrRead csrs .satp &&& SATP_PPN) * SZ_4K
  let va := rounddown (csrRead csrs .stval) SZ_4K
  let pa ← bootAlloc
  vmMap L pgd va pa

/-- `do_supervisor_trap`. -/
def doSupervisorTrap (L : Layout) : User Unit := do
  let inprogress ← Ctl.gets Process.inprogress
  -- no reentry
  assert (inprogress ≠ 0)
  Ctl.modify (fun s => { s with inprogress := 0 })
  let scause ← Ctl.gets (fun s => csrRead s.machine.csrs .scause)
  if scause = EXC_LOAD_PAGE_FAULT ∨ scause = EXC_STORE_PAGE_FAULT then
    doPageFault L
  else
    assert False
  Ctl.modify (fun s => { s with inprogress := 1 })

/-! ## Runs of a process -/

inductive UserEvent
  | spawn (fileid quota : Word)
  -- a trap that the monitor has delegated
  | trap (scause stval : Word)
  | yield
  -- the process computes, or another process does anything
  | machine (e : Event)

def Event.isEcall : Event → Bool
  | .ecall => true
  | _ => false

/-- The state after code of the process that has returned. -/
def User.run {α : Type} (c : User α) (s : Process) : Option Process :=
  (c s).finish (fun r _ => r.elim)

/-- The start of a process: `lib_setup` with the bounds of the region that the kernel has for it. -/
def Process.setUp (L : Layout) (m : Machine) (physMid : Word) : Option Process :=
  User.run (libSetup L (L.pages + m.current.lower * SZ_4K) physMid (L.pages + m.current.upper * SZ_4K))
    (.loaded m)

/-- One event of a run of the process `pid`; `none` is a failed `assert`, or an event that cannot happen now. -/
def Process.step (L : Layout) (pid : Word) (s : Process) : UserEvent → Option Process
  | .spawn fileid quota => if s.machine.currentPid = pid then (spawn L fileid quota).run s else none
  | .trap scause stval =>
      if s.machine.currentPid = pid then
        User.run (do
          modifyMachine (fun m => { m with csrs := csrWrite (csrWrite m.csrs .scause scause) .stval stval })
          doSupervisorTrap L) s
      else
        none
  | .yield => if s.machine.currentPid = pid then (yield L).run s else none
  | .machine e =>
      if s.machine.currentPid = pid ∧ e.isEcall then
        none
      else
        (s.machine.step L e).map (fun m => { s with machine := m })

end Certikos
end Serval
