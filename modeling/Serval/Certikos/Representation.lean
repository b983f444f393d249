import Serval.Certikos.Monitor
import Serval.Certikos.Invariants

/-!
# Representation — how the CertiKOS monitor represents its specification

The abstraction function and the representation invariant follow `verif/impl.rkt` and
`verif/riscv.rkt`.  The invariant has two parts: what the globals satisfy (`MregionsInvariants`),
which is inductive by itself, and what the machine-level CSRs hold (`CsrInvariants`).  Page ownership
is ghost state, so the abstraction takes it as an argument.

The file also has the rules for the monitor's accessors and for `procNew`, which both booting and
spawning use.
-/

namespace Serval
namespace Certikos

open Riscv

/-! ## Abstraction -/

def absFunction (pageOwner : Word → Word) (m : Machine) : State where
  currentPid := m.currentPid
  pages := m.pages
  procState := fun pid => (m.procs pid).state
  procNext := fun pid => (m.procs pid).next
  procOwner := fun pid => (m.procs pid).owner
  procLower := fun pid => (m.procs pid).lower
  procUpper := fun pid => (m.procs pid).upper
  pageOwner := pageOwner
  savedRegs := fun pid => ⟨(m.procs pid).cpu, (m.procs pid).csr⟩
  regs := ⟨m.regs, readCsrs m.csrs⟩

/-! ## Representation invariant -/

def pidRun (m : Machine) (pid : Word) : Prop :=
  (m.procs pid).state = ProcState.run.val

structure MregionsInvariants (m : Machine) : Prop where
  currentValid : pidValid m.currentPid
  currentRun : pidRun m m.currentPid
  ownerValid : ∀ pid, pidValid pid → pidValid (m.procs pid).owner
  bounded : ∀ pid, pidValid pid →
    (m.procs pid).upper ≤ NR_PAGES ∧ (m.procs pid).lower ≤ (m.procs pid).upper
  nextRun : ∀ pid, pidValid pid → pidRun m pid →
    pidValid (m.procs pid).next ∧ pidRun m (m.procs pid).next
  -- non-running processes have zeroed CSRs
  freeCsrs : ∀ pid, pidValid pid → ¬ pidRun m pid → ∀ c, c ≠ .mepc → (m.procs pid).csr c = 0
  -- saved CSRs are only ever the masked versions
  maskedCsrs : ∀ pid, pidValid pid →
    ~~~sstatusMask &&& (m.procs pid).csr .sstatus = 0 ∧
      ~~~sieMask &&& (m.procs pid).csr .sie = 0 ∧ ~~~sipMask &&& (m.procs pid).csr .sip = 0

/-- `init-pmpcfg0`: entry 1 lets the process use its region, entry 3 lets it run the payload. -/
def initPmpcfg0 : Word :=
  ((PMPCFG_A_TOR ||| PMPCFG_R ||| PMPCFG_X) <<< 24) |||
    ((PMPCFG_A_TOR ||| PMPCFG_R ||| PMPCFG_W ||| PMPCFG_X) <<< 8)

/-- What the machine-level CSRs hold while a process with the region `[lower, upper)` runs. -/
def machineCsr (L : Layout) (lower upper : Word) : Csr → Word
  | .mtvec => L.machineTrapVector
  | .mscratch => L.cpuStack + 0x7f00
  | .medeleg => delegatedExceptions
  | .pmpcfg0 => initPmpcfg0
  | .pmpaddr 0 => (L.pages + lower <<< 12) >>> 2
  | .pmpaddr 1 => (L.pages + upper <<< 12) >>> 2
  | .pmpaddr 2 => L.payloadStart >>> 2
  | .pmpaddr 3 => L.payloadEnd >>> 2
  | _ => 0

def CsrsFor (L : Layout) (lower upper : Word) (f : CsrFile) : Prop :=
  ∀ c : Csr, c.machineOnly = true → f c = machineCsr L lower upper c

def CsrInvariants (L : Layout) (m : Machine) : Prop :=
  CsrsFor L (m.procs m.currentPid).lower (m.procs m.currentPid).upper m.csrs

structure RepInvariant (L : Layout) (m : Machine) : Prop where
  mregions : MregionsInvariants m
  csrs : CsrInvariants L m

theorem pidValid.lt {pid : Word} (h : pidValid pid) : pid < NR_PROCS := h.2

/-! ## The CSR file -/

/-- Writing the two region registers establishes the invariant for a new region when all other
registers hold what they should. -/
theorem csrsFor_switch {L : Layout} {lower upper : Word} {f : CsrFile}
    (h : ∀ c : Csr, c.machineOnly = true → c ≠ .pmpaddr 0 → c ≠ .pmpaddr 1 →
      f c = machineCsr L lower upper c) (lower' upper' : Word) :
    CsrsFor L lower' upper'
      (pmpaddrWrite (pmpaddrWrite f 0 (L.pages + lower' * 4096)) 1 (L.pages + upper' * 4096)) := by
  intro c hc
  simp only [pmpaddrWrite_eq]
  by_cases h1 : c = .pmpaddr 1
  · subst h1
    simp [machineCsr, shift_twelve]
  by_cases h0 : c = .pmpaddr 0
  · subst h0
    simp [machineCsr, shift_twelve]
  · rw [Function.update_of_ne h1, Function.update_of_ne h0, h c hc h0 h1]
    -- the other registers do not depend on the region
    unfold machineCsr
    split <;> simp_all

theorem CsrsFor.switch {L : Layout} {lower upper : Word} {f : CsrFile}
    (h : CsrsFor L lower upper f) (lower' upper' : Word) :
    CsrsFor L lower' upper'
      (pmpaddrWrite (pmpaddrWrite f 0 (L.pages + lower' * 4096)) 1 (L.pages + upper' * 4096)) :=
  csrsFor_switch (fun c hc _ _ => h c hc) lower' upper'

theorem CsrsFor.restoreCsrs {L : Layout} {lower upper : Word} {f : CsrFile}
    (h : CsrsFor L lower upper f) (o : SaveOrder) (area : SavedCsr → Word) :
    CsrsFor L lower upper (restoreCsrs o f area) := by
  intro c hc
  rw [restoreCsrs_of_ne o f area (home_ne_of_machineOnly hc)]
  exact h c hc

theorem CsrsFor.csrWrite_saved {L : Layout} {lower upper : Word} {f : CsrFile}
    (h : CsrsFor L lower upper f) (d : SavedCsr) (v : Word) :
    CsrsFor L lower upper (csrWrite f d.toCsr v) := by
  intro c hc
  rw [csrWrite, Function.update_of_ne (home_ne_of_machineOnly hc d).symm]
  exact h c hc

/-! ## Rules for the accessors -/

section Rules

variable {Q : Proc → Machine → Prop} {R : Unit → Machine → Prop} {E : PtRegs → Machine → Prop}
variable {m : Machine}

@[simp] theorem wp_loadProc (pid : Word) :
    Ctl.wp (loadProc pid) Q E m ↔ pid < NR_PROCS ∧ Q (m.procs pid) m := by
  simp [loadProc]

@[simp] theorem wp_storeProc (pid : Word) (f : Proc → Proc) :
    Ctl.wp (storeProc pid f) R E m ↔
      pid < NR_PROCS ∧
        R () { m with procs := Function.update m.procs pid (f (m.procs pid)) } := by
  simp [storeProc]

@[simp] theorem wp_modifyCsrs (f : CsrFile → CsrFile) :
    Ctl.wp (modifyCsrs f) R E m ↔ R () { m with csrs := f m.csrs } := by
  simp [modifyCsrs]

@[simp] theorem wp_procCurrent {Q : Word → Machine → Prop} :
    Ctl.wp procCurrent Q E m ↔ Q m.currentPid m := by
  simp [procCurrent, procGet]

end Rules

/-! ## Creating a process -/

/-- The table entry `proc_new` leaves behind. -/
def newProc (L : Layout) (old : Proc) (next fileid lower upper : Word) : Proc where
  state := ProcState.run.val
  owner := old.owner
  next := next
  lower := lower
  upper := upper
  csr := Function.update old.csr .mepc L.payloadStart
  cpu := Function.update (Function.update (fun _ => 0) .a0 fileid) .a1 (L.pages + lower * 4096)

/-- Which page numbers lie in `[lower, upper)`. -/
def between (lower upper : Word) : Word → Bool :=
  fun page => lower ≤ page && page < upper

/-- The byte range `proc_new` clears is the child's pages. -/
theorem byteOffset_mem_iff {lower upper i j : Word} (hle : lower ≤ upper) (hup : upper ≤ NR_PAGES) :
    (poffsetValid j ∧ (lower * 4096).toNat ≤ byteOffset i j ∧
        byteOffset i j < (lower * 4096).toNat + ((upper - lower) * 4096).toNat) ↔
      (lower ≤ i ∧ i < upper) ∧ poffsetValid j := by
  have hle' : lower.toNat ≤ upper.toNat := hle
  have hup' : upper.toNat ≤ 256 := hup
  have hstart : (lower * 4096).toNat = lower.toNat * 4096 := by
    rw [BitVec.toNat_mul]
    exact Nat.mod_eq_of_lt (by simp; omega)
  have hlen : ((upper - lower) * 4096).toNat = (upper.toNat - lower.toNat) * 4096 := by
    rw [BitVec.toNat_mul, BitVec.toNat_sub_of_le hle]
    exact Nat.mod_eq_of_lt (by simp; omega)
  rw [hstart, hlen]
  simp only [poffsetValid, byteOffset, BitVec.lt_def, BitVec.le_def]
  constructor
  · rintro ⟨hj, hlow, hhigh⟩
    have hj' : j.toNat < 4096 := hj
    refine ⟨⟨?_, ?_⟩, hj⟩ <;> omega
  · rintro ⟨⟨hlow, hhigh⟩, hj⟩
    have hj' : j.toNat < 4096 := hj
    refine ⟨hj, ?_, ?_⟩ <;> omega

theorem memset_in_bounds {lower upper : Word} (hle : lower ≤ upper) (hup : upper ≤ NR_PAGES) :
    (lower * 4096).toNat + ((upper - lower) * 4096).toNat ≤ 256 * 4096 := by
  have hle' : lower.toNat ≤ upper.toNat := hle
  have hup' : upper.toNat ≤ 256 := hup
  rw [BitVec.toNat_mul, BitVec.toNat_mul, BitVec.toNat_sub_of_le hle]
  rw [Nat.mod_eq_of_lt (by simp; omega), Nat.mod_eq_of_lt (by simp; omega)]
  simp
  omega

theorem wp_procNew {L : Layout} {pid next fileid lower upper : Word} {m : Machine}
    {Q : Unit → Machine → Prop} {E : PtRegs → Machine → Prop}
    (hpid : pid < NR_PROCS) (hfree : (m.procs pid).state = ProcState.free.val)
    (hle : lower ≤ upper) (hup : upper ≤ NR_PAGES)
    (hQ : Q () { m with
      procs := Function.update m.procs pid (newProc L (m.procs pid) next fileid lower upper)
      pages := updateWhere₂ m.pages (between lower upper) (fun off => poffsetValid off) 0 }) :
    Ctl.wp (procNew L pid next fileid lower upper) Q E m := by
  have hpages : (fun i j =>
      if poffsetValid j ∧ (lower * 4096).toNat ≤ byteOffset i j ∧
          byteOffset i j < (lower * 4096).toNat + ((upper - lower) * 4096).toNat then
        0
      else
        m.pages i j)
      = updateWhere₂ m.pages (between lower upper) (fun off => poffsetValid off) 0 := by
    funext i j
    simp only [byteOffset_mem_iff hle hup, updateWhere₂, between]
    simp
  simp only [procNew, memsetPages, Ctl.wp_bind, Ctl.wp_bugOn, Ctl.wp_modify, wp_loadProc,
    wp_storeProc, hpid, hfree, not_true_eq_false, not_false_eq_true, true_and, ne_eq,
    Function.update_self, Function.update_idem, memset_in_bounds hle hup, hpages]
  exact hQ

/-! ## The invariant, split -/

/-- The clauses of `MregionsInvariants` about saved CSRs. -/
def SavedCsrsOk (procs : Word → Proc) : Prop :=
  ∀ pid, pidValid pid → Masked (procs pid).csr ∧
    ((procs pid).state ≠ ProcState.run.val → ∀ c, c ≠ .mepc → (procs pid).csr c = 0)

theorem MregionsInvariants.table {m : Machine} (h : MregionsInvariants m)
    (pageOwner : Word → Word) : TableInvariants (absFunction pageOwner m) :=
  ⟨h.currentValid, h.currentRun, h.nextRun, h.ownerValid, h.bounded⟩

theorem MregionsInvariants.savedCsrsOk {m : Machine} (h : MregionsInvariants m) :
    SavedCsrsOk m.procs := by
  intro pid hpid
  exact ⟨(masked_iff _).mpr (h.maskedCsrs pid hpid), h.freeCsrs pid hpid⟩

theorem MregionsInvariants.of_table {m : Machine} {pageOwner : Word → Word}
    (htable : TableInvariants (absFunction pageOwner m)) (hsaved : SavedCsrsOk m.procs) :
    MregionsInvariants m where
  currentValid := htable.currentValid
  currentRun := htable.currentRun
  ownerValid := htable.ownerValid
  bounded := htable.bounded
  nextRun := htable.nextRun
  freeCsrs := fun pid hpid => (hsaved pid hpid).2
  maskedCsrs := fun pid hpid => (masked_iff _).mp (hsaved pid hpid).1

/-- Only entries of running processes are ever written after boot. -/
theorem SavedCsrsOk.update {procs : Word → Proc} (h : SavedCsrsOk procs) {p : Proc}
    (pid : Word) (hmasked : Masked p.csr) (hrun : p.state = ProcState.run.val) :
    SavedCsrsOk (Function.update procs pid p) := by
  intro x hx
  by_cases hxp : x = pid
  · subst hxp
    simp only [Function.update_self]
    exact ⟨hmasked, fun hne => absurd hrun hne⟩
  · simpa only [Function.update_of_ne hxp] using h x hx

end Certikos
end Serval
