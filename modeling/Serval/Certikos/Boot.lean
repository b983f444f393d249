import Serval.Certikos.Representation
import Serval.Riscv.Pmp

/-!
# Boot — the monitor reaches a state that satisfies its invariants

`proc_init` overwrites the whole process table, so the first process starts in the same table
whatever memory held before.  The CSR part of the invariant also needs what `entry.S` and the reset
of the hart leave behind.
-/

namespace Serval
namespace Certikos

open Riscv

variable {pid : Word} {L : Layout}

/-! ## The process table -/

/-- The table after `proc_init`. -/
def initProcs (procs : Word → Proc) : Word → Proc :=
  writeAll (fun i => BitVec.ofNat 64 i) procInitEntry (List.range 64) procs

theorem initProcs_apply (procs : Word → Proc) (hpid : pid < NR_PROCS) :
    initProcs procs pid = procInitEntry pid.toNat (procs pid) := by
  have hlt : pid.toNat < 64 := hpid
  have hdistinct : (List.range 64).Pairwise
      (fun a b => BitVec.ofNat 64 a ≠ BitVec.ofNat 64 b) := by
    decide
  have hkey : BitVec.ofNat 64 pid.toNat = pid := by simp
  have hentry : initProcs procs (BitVec.ofNat 64 pid.toNat)
      = procInitEntry pid.toNat (procs (BitVec.ofNat 64 pid.toNat)) :=
    writeAll_of_mem hdistinct (List.mem_range.mpr hlt)
  rwa [hkey] at hentry

/-- The table the first process starts with. -/
def bootProcs (L : Layout) (procs : Word → Proc) : Word → Proc :=
  Function.update (initProcs procs) PID_IDLE
    (newProc L (initProcs procs PID_IDLE) PID_IDLE ELF_FILE_IDLE 0 NR_PAGES)

theorem bootProcs_idle (L : Layout) (procs : Word → Proc) :
    bootProcs L procs PID_IDLE
      = newProc L (initProcs procs PID_IDLE) PID_IDLE ELF_FILE_IDLE 0 NR_PAGES :=
  Function.update_self _ _ _

theorem bootProcs_other (L : Layout) (procs : Word → Proc) (hpid : pid < NR_PROCS) (hne : pid ≠ PID_IDLE) :
    bootProcs L procs pid = procInitEntry pid.toNat (procs pid) := by
  rw [bootProcs, Function.update_of_ne hne, initProcs_apply procs hpid]

/-- The static partition of the pids: pid `i` belongs to `i / NR_CHILDREN`, the first few to idle. -/
theorem bootProcs_owner_valid (L : Layout) (procs : Word → Proc) (hpid : pidValid pid) :
    pidValid (bootProcs L procs pid).owner := by
  have hentry : (bootProcs L procs pid).owner = (procInitEntry pid.toNat (procs pid)).owner := by
    by_cases hne : pid = PID_IDLE
    · subst hne
      rw [bootProcs_idle, newProc, initProcs_apply procs hpid.lt]
    · rw [bootProcs_other L procs hpid.lt hne]
  have hofNat : BitVec.ofNat 64 pid.toNat = pid := by simp
  rw [hentry, procInitEntry, hofNat]
  have hlt : pid.toNat < 64 := hpid.2
  dsimp only
  split
  · rename_i hge
    have hge' : 4 ≤ pid.toNat := hge
    have hdiv : (pid / NR_CHILDREN).toNat = pid.toNat / 4 := BitVec.toNat_udiv
    constructor
    · show (0 : Word).toNat < (pid / NR_CHILDREN).toNat
      rw [hdiv]
      simp
      omega
    · show (pid / NR_CHILDREN).toNat < 64
      rw [hdiv]
      omega
  · decide

/-- No saved CSR but `mepc` is non-zero. -/
theorem bootProcs_csr (L : Layout) (procs : Word → Proc) (hpid : pid < NR_PROCS) {c : SavedCsr} (hc : c ≠ .mepc) :
    (bootProcs L procs pid).csr c = 0 := by
  by_cases hne : pid = PID_IDLE
  · subst hne
    rw [bootProcs_idle, newProc, initProcs_apply procs hpid]
    simp [procInitEntry, hc]
  · rw [bootProcs_other L procs hpid hne]
    simp [procInitEntry, hc]

theorem bootProcs_savedCsrsOk (L : Layout) (procs : Word → Proc) : SavedCsrsOk (bootProcs L procs) := by
  intro pid hpid
  refine ⟨?_, fun _ c hc => bootProcs_csr L procs hpid.lt hc⟩
  intro c
  by_cases hc : c = .mepc
  · subst hc
    exact BitVec.and_allOnes
  · rw [bootProcs_csr L procs hpid.lt hc]
    exact BitVec.zero_and

/-! ## The machine the first process finds -/

def booted (L : Layout) (m : Machine) : Machine :=
  let idle := bootProcs L m.procs PID_IDLE
  { procs := bootProcs L m.procs
    pages := updateWhere₂ m.pages (between 0 NR_PAGES) (fun off => poffsetValid off) 0
    currentPid := PID_IDLE
    csrs := restoreCsrs procCsrs
      (pmpaddrWrite (pmpaddrWrite (userInitCsrs L m.csrs) 0 (L.pages + idle.lower * 4096)) 1
        (L.pages + idle.upper * 4096)) idle.csr
    regs := idle.cpu }

theorem boot_eq_booted (L : Layout) (m : Machine) : resume (boot L m) = some (booted L m) := by
  have hidle : PID_IDLE < NR_PROCS := by decide
  have hfree : (initProcs m.procs PID_IDLE).state = ProcState.free.val := by
    rw [initProcs_apply m.procs hidle]
    rfl
  have hwp : Ctl.wp (boot L) (fun _ m' => m' = booted L m)
      (fun r m' => { m' with regs := r } = booted L m) m := by
    simp only [boot, procInit, userInit, Ctl.wp_bind, Ctl.wp_modify]
    apply wp_procNew hidle hfree (by decide) (by decide)
    simp only [procSwitch, Ctl.wp_bind, wp_modifyCsrs, Ctl.wp_bugOn, wp_loadProc, Ctl.wp_leave,
      hidle, not_true_eq_false, not_false_eq_true, true_and]
    rfl
  rcases resume_of_wp hwp with ⟨m', hrun, rfl⟩
  exact hrun

theorem booted_mregionsInvariants (L : Layout) (m : Machine) : MregionsInvariants (booted L m) := by
  have hstate : ∀ pid, pid < NR_PROCS → pid ≠ PID_IDLE → ¬ pidRun (booted L m) pid := by
    intro pid hpid hne hrun
    have hfree : (bootProcs L m.procs pid).state = ProcState.free.val := by
      rw [bootProcs_other L m.procs hpid hne]
      rfl
    exact absurd (hfree.symm.trans hrun) (by decide)
  have htable : TableInvariants (absFunction (fun _ => PID_IDLE) (booted L m)) := by
    have hvalid : pidValid PID_IDLE := by decide
    refine ⟨hvalid, ?_, ?_, ?_, ?_⟩
    · exact congrArg Proc.state (bootProcs_idle L m.procs)
    · intro pid hpid hrun
      -- only idle runs, and it is its own successor
      have hidle : pid = PID_IDLE := by
        by_contra hne
        exact hstate pid hpid.lt hne hrun
      subst hidle
      have hnext : (bootProcs L m.procs PID_IDLE).next = PID_IDLE :=
        congrArg Proc.next (bootProcs_idle L m.procs)
      exact ⟨hnext ▸ hpid, hnext ▸ hrun⟩
    · intro pid hpid
      exact bootProcs_owner_valid L m.procs hpid
    · intro pid hpid
      show (bootProcs L m.procs pid).upper ≤ NR_PAGES ∧
        (bootProcs L m.procs pid).lower ≤ (bootProcs L m.procs pid).upper
      by_cases hne : pid = PID_IDLE
      · rw [hne, bootProcs_idle]
        exact ⟨BitVec.le_refl _, Nat.zero_le _⟩
      · rw [bootProcs_other L m.procs hpid.lt hne]
        exact ⟨Nat.zero_le _, BitVec.le_refl _⟩
  exact .of_table htable (bootProcs_savedCsrsOk L m.procs)

/-- With all pages assigned to the first process, the abstraction of the booted machine satisfies
the invariants of the specification. -/
theorem booted_specInvariants (L : Layout) (m : Machine) :
    SpecInvariants (absFunction (fun _ => PID_IDLE) (booted L m)) where
  toTableInvariants := (booted_mregionsInvariants L m).table _
  freeEmpty := by
    intro pid hpid hfree
    have hne : pid ≠ PID_IDLE := by
      rintro rfl
      exact hfree (congrArg Proc.state (bootProcs_idle L m.procs))
    show (bootProcs L m.procs pid).upper = 0 ∧ (bootProcs L m.procs pid).lower = 0
    rw [bootProcs_other L m.procs hpid.lt hne]
    exact ⟨rfl, rfl⟩
  pageOwned := by
    intro page pid hpid _ hreg
    -- a region without pages owns none
    by_contra hne
    have hreg' : (bootProcs L m.procs pid).lower ≤ page ∧
        page < (bootProcs L m.procs pid).upper := hreg
    rw [bootProcs_other L m.procs hpid.lt (Ne.symm hne)] at hreg'
    exact absurd hreg'.2 (Nat.not_lt_zero _)

/-! ## The CSRs -/

/-- What the monitor relies on before `main`: `entry.S` has set the trap vector and the stack, and
the hart came out of reset with the PMP entries that the monitor does not use switched off. -/
structure ResetCsrs (L : Layout) (f : CsrFile) : Prop where
  mtvec : f .mtvec = L.machineTrapVector
  mscratch : f .mscratch = L.cpuStack + 0x7f00
  unused : ∀ i : Fin 16, 4 ≤ i → pmpEntry f i = ⟨0, 0⟩

/-- The configuration of an entry. -/
def certikosPmpcfg (i : Fin 16) : BitVec 8 :=
  if i = 1 then 0xf else if i = 3 then 0xd else 0

/-- `user_init` configures four entries and sets the addresses of the payload. -/
theorem userInitCsrs_entry {f : CsrFile} (h : ResetCsrs L f) (i : Fin 16) :
    (pmpEntry (userInitCsrs L f) i).cfg = certikosPmpcfg i ∧
      (i ≠ 0 → i ≠ 1 →
        (pmpEntry (userInitCsrs L f) i).addr = machineCsr L 0 NR_PAGES (.pmpaddr i)) := by
  simp (disch := decide) only [userInitCsrs, csrSet, csrClear, pmpEntry_pmpaddrWrite,
    pmpEntry_pmpcfgWrite, pmpEntry_csrWrite]
  by_cases hi : 4 ≤ i
  · -- an unused entry
    have hval : i.val ≠ 0 ∧ i.val ≠ 1 ∧ i.val ≠ 2 ∧ i.val ≠ 3 := by omega
    have hne : i ≠ 1 ∧ i ≠ 2 ∧ i ≠ 3 := by omega
    simp only [hval, hne, if_false, h.unused i hi, certikosPmpcfg]
    refine ⟨trivial, fun h0 h1 => ?_⟩
    unfold machineCsr
    split <;> simp_all
  · have hcases : i = 0 ∨ i = 1 ∨ i = 2 ∨ i = 3 := by omega
    rcases hcases with rfl | rfl | rfl | rfl
    · exact ⟨rfl, fun h0 => absurd rfl h0⟩
    · exact ⟨rfl, fun _ h1 => absurd rfl h1⟩
    · exact ⟨rfl, fun _ _ => rfl⟩
    · exact ⟨rfl, fun _ _ => rfl⟩

theorem userInitCsrs_csrsFor {f : CsrFile} (h : ResetCsrs L f) {c : Csr} (hc : c.machineOnly = true)
    (h0 : c ≠ .pmpaddr 0) (h1 : c ≠ .pmpaddr 1) :
    userInitCsrs L f c = machineCsr L 0 NR_PAGES c := by
  cases c with
  | pmpcfg0 =>
      have hbytes : ∀ k (hk : k < 8), byteOf initPmpcfg0 k = certikosPmpcfg ⟨k, by omega⟩ := by
        decide
      refine eq_of_byteOf_eq fun k hk => ?_
      rw [byteOf_pmpcfg0 _ hk, (userInitCsrs_entry h _).1]
      exact (hbytes k hk).symm
  | pmpcfg2 =>
      have hbytes : ∀ k (hk : k < 8), byteOf 0 k = certikosPmpcfg ⟨8 + k, by omega⟩ := by
        decide
      refine eq_of_byteOf_eq fun k hk => ?_
      rw [byteOf_pmpcfg2 _ hk, (userInitCsrs_entry h _).1]
      exact (hbytes k hk).symm
  | pmpaddr i =>
      exact (userInitCsrs_entry h i).2 (fun heq => h0 (congrArg Csr.pmpaddr heq))
        (fun heq => h1 (congrArg Csr.pmpaddr heq))
  | mtvec | mscratch =>
      simp [userInitCsrs, csrSet, csrClear, csrWrite, pmpcfgWrite, pmpaddrWrite, Csr.home,
        machineCsr, h.mtvec, h.mscratch]
  | medeleg | mideleg | mcounteren =>
      simp only [userInitCsrs, csrSet, csrClear, pmpcfgWrite, pmpaddrWrite]
      simp [csrWrite, mergeCsr, Csr.home, Csr.mask, machineCsr, delegatedExceptions]
  | _ => cases hc

theorem booted_csrInvariants {m : Machine} (h : ResetCsrs L m.csrs) : CsrInvariants L (booted L m) := by
  have hidle := bootProcs_idle L m.procs
  have hregion : CsrsFor L 0 NR_PAGES
      (pmpaddrWrite (pmpaddrWrite (userInitCsrs L m.csrs) 0 (L.pages + 0 * 4096)) 1
        (L.pages + NR_PAGES * 4096)) :=
    csrsFor_switch (fun c hc h0 h1 => userInitCsrs_csrsFor h hc h0 h1) 0 NR_PAGES
  simp only [CsrInvariants, booted, hidle]
  exact hregion.restoreCsrs _ _

/-- A hart fresh out of reset, with zeroed memory. -/
def resetMachine (L : Layout) : Machine where
  procs := fun _ => ⟨0, 0, 0, 0, 0, fun _ => 0, fun _ => 0⟩
  pages := fun _ _ => 0
  currentPid := 0
  csrs := fun c =>
    if c = .mtvec then L.machineTrapVector
    else if c = .mscratch then L.cpuStack + 0x7f00
    else 0
  regs := fun _ => 0

theorem resetMachine_pmpEntry (L : Layout) (i : Fin 16) : pmpEntry (resetMachine L).csrs i = ⟨0, 0⟩ := by
  have hzero : ∀ j, pmpEntry (fun _ => 0) j = ⟨0, 0⟩ := by decide
  have hsame : pmpEntry (resetMachine L).csrs i = pmpEntry (fun _ => 0) i :=
    pmpEntry_congr (f := (resetMachine L).csrs) (g := fun _ => 0) rfl rfl (fun _ => rfl) i
  exact hsame.trans (hzero i)

theorem resetMachine_resetCsrs (L : Layout) : ResetCsrs L (resetMachine L).csrs := by
  refine ⟨?_, ?_, fun i _ => resetMachine_pmpEntry L i⟩ <;> simp [resetMachine]

theorem booted_repInvariant {m : Machine} (h : ResetCsrs L m.csrs) : RepInvariant L (booted L m) :=
  ⟨booted_mregionsInvariants L m, booted_csrInvariants h⟩

end Certikos
end Serval
