import Serval.Certikos.Boot

/-!
# Refinement — the CertiKOS monitor implements its specification

Each system call is first reduced to the machine it produces (`spawned`, `yielded`), whose
abstraction is then compared with the specification's next state.
-/

namespace Serval
namespace Certikos

open Riscv

/-- What is shown of every activation of the monitor: it does what the specification does, up to
ghost ownership, and keeps both parts of the representation invariant. -/
structure Implements (L : Layout) (m : Machine) (s' : State) (m' : Machine) : Prop where
  abs : ∃ pageOwner', absFunction pageOwner' m' = s'
  saved : SavedCsrsOk m'.procs
  csrs : ∀ K : Layout, K.pages = L.pages → CsrInvariants K m → CsrInvariants K m'

/-! ## Spawn -/

section Spawn

variable {L : Layout} {m : Machine} {pageOwner : Word → Word} {fileid quota pid : Word}

/-- The machine after a spawn whose checks passed. -/
def spawned (L : Layout) (m : Machine) (fileid quota pid : Word) : Machine :=
  let parent := m.procs m.currentPid
  let lower := parent.upper - quota
  { m with
    procs := Function.update
      (Function.update m.procs pid
        (newProc L (m.procs pid) parent.next fileid lower parent.upper))
      m.currentPid { parent with upper := lower, next := pid }
    pages := updateWhere₂ m.pages (between lower parent.upper) (fun off => poffsetValid off) 0
    csrs := pmpaddrWrite (pmpaddrWrite m.csrs 0 (L.pages + parent.lower * 4096)) 1
      (L.pages + lower * 4096) }

theorem wp_spawnChild {E : PtRegs → Machine → Prop} (hinv : MregionsInvariants m)
    (hok : SpawnOk (absFunction pageOwner m) quota pid) :
    Ctl.wp (spawnChild L m.currentPid fileid pid quota)
      (fun r m' => r = 0 ∧ m' = spawned L m fileid quota pid) E m := by
  have htable := hinv.table pageOwner
  have hne : pid ≠ m.currentPid := hok.ne_currentPid htable
  have hmem := hok.childLower_mem htable
  have hfree : (m.procs pid).state = ProcState.free.val := hok.2.2.2
  have hcur : m.currentPid < NR_PROCS := hinv.currentValid.lt
  simp only [spawnChild, Ctl.wp_bind, wp_loadProc, wp_storeProc, hcur, true_and,
    Function.update_self]
  -- `proc_new` runs on a table whose parent entry has already given up its quota
  apply wp_procNew
  · exact hok.2.1.lt
  · simpa only [Function.update_of_ne hne] using hfree
  · exact hmem.2
  · exact (hinv.bounded _ hinv.currentValid).1
  · simp only [wp_modifyCsrs, Ctl.wp_pure, true_and, Function.update_self,
      Function.update_of_ne hne, Function.update_of_ne hne.symm]
    rw [Function.update_comm hne.symm, Function.update_idem]
    rfl

/-- A column of the table after a spawn, by its value at the parent, the child and elsewhere. -/
theorem spawned_column {β : Type} (hne : pid ≠ m.currentPid) (g : Proc → β) {col : Word → β}
    (hparent : col m.currentPid = g { m.procs m.currentPid with
      upper := (m.procs m.currentPid).upper - quota, next := pid })
    (hchild : col pid = g (newProc L (m.procs pid) (m.procs m.currentPid).next fileid
      ((m.procs m.currentPid).upper - quota) (m.procs m.currentPid).upper))
    (hother : ∀ x, x ≠ m.currentPid → x ≠ pid → col x = g (m.procs x)) :
    (fun x => g ((spawned L m fileid quota pid).procs x)) = col := by
  funext x
  by_cases hcur : x = m.currentPid
  · subst hcur
    simp only [spawned, Function.update_self]
    exact hparent.symm
  by_cases hpid : x = pid
  · subst hpid
    simp only [spawned, Function.update_of_ne hne, Function.update_self]
    exact hchild.symm
  · simp only [spawned, Function.update_of_ne hcur, Function.update_of_ne hpid]
    exact (hother x hcur hpid).symm

/-- A free entry has no CSR value of its own, so a new process starts from the zero context. -/
theorem newProc_regs (hinv : MregionsInvariants m) (hpid : pidValid pid) (hrun : ¬ pidRun m pid)
    (next lower upper : Word) :
    Regs.mk (newProc L (m.procs pid) next fileid lower upper).cpu
        (newProc L (m.procs pid) next fileid lower upper).csr
      = childRegs L fileid lower := by
  have hcsr : Function.update (m.procs pid).csr .mepc L.payloadStart
      = Function.update zeroRegs.csr .mepc L.payloadStart := by
    funext c
    by_cases hc : c = .mepc
    · rw [hc, Function.update_self, Function.update_self]
    · rw [Function.update_of_ne hc, Function.update_of_ne hc]
      exact hinv.freeCsrs pid hpid hrun c hc
  simp only [newProc, childRegs, hcsr, shift_twelve]
  rfl

/-- The code's spawn is the specification's. -/
theorem absFunction_spawned (hinv : MregionsInvariants m)
    (hok : SpawnOk (absFunction pageOwner m) quota pid) :
    absFunction
        (updateWhere pageOwner
          (between ((m.procs m.currentPid).upper - quota) (m.procs m.currentPid).upper) pid)
        (spawned L m fileid quota pid)
      = specSpawnChild L (absFunction pageOwner m) fileid quota pid := by
  have hne : pid ≠ m.currentPid := hok.ne_currentPid (hinv.table pageOwner)
  have hnotRun : ¬ pidRun m pid := hok.not_procRunnable
  have hregs : ∀ next lower upper,
      Regs.mk (newProc L (m.procs pid) next fileid lower upper).cpu
          (newProc L (m.procs pid) next fileid lower upper).csr
        = childRegs L fileid lower :=
    newProc_regs hinv hok.2.1 hnotRun
  apply State.ext
  case currentPid => rfl
  case pages => rfl
  case procState =>
    apply spawned_column hne Proc.state <;> simp +contextual [specSpawnChild, absFunction, newProc, hne.symm]
  case procNext =>
    apply spawned_column hne Proc.next <;> simp +contextual [specSpawnChild, absFunction, newProc, hne]
  case procOwner =>
    apply spawned_column hne Proc.owner <;> simp [specSpawnChild, absFunction, newProc]
  case procLower =>
    apply spawned_column hne Proc.lower <;> simp +contextual [specSpawnChild, absFunction, newProc, hne.symm]
  case procUpper =>
    apply spawned_column hne Proc.upper <;> simp +contextual [specSpawnChild, absFunction, newProc, hne]
  case pageOwner => rfl
  case savedRegs =>
    apply spawned_column hne (fun p => Regs.mk p.cpu p.csr)
    · simp [specSpawnChild, absFunction, hne.symm]
    · rw [hregs]
      simp [specSpawnChild, absFunction]
    · simp +contextual [specSpawnChild, absFunction]
  case regs =>
    simp [spawned, absFunction, specSpawnChild]

theorem spawned_savedCsrsOk (hinv : MregionsInvariants m) (hpid : pidValid pid) :
    SavedCsrsOk (spawned L m fileid quota pid).procs := by
  have hsaved := hinv.savedCsrsOk
  refine (hsaved.update pid ?_ rfl).update m.currentPid ?_ hinv.currentRun
  · exact (hsaved pid hpid).1.update BitVec.and_allOnes
  · exact (hsaved m.currentPid hinv.currentValid).1

theorem spawned_csrInvariants {K : Layout} (hpages : K.pages = L.pages) (hcsr : CsrInvariants K m) :
    CsrInvariants K (spawned L m fileid quota pid) := by
  have hswitch := hcsr.switch (m.procs m.currentPid).lower ((m.procs m.currentPid).upper - quota)
  simpa only [CsrInvariants, spawned, Function.update_self, hpages] using hswitch

theorem wp_sysSpawn {E : PtRegs → Machine → Prop} (hinv : MregionsInvariants m) :
    Ctl.wp (sysSpawn L fileid quota pid)
      (fun r m' => Implements L m (specSysSpawn L (absFunction pageOwner m) fileid quota pid)
        { m' with regs := Function.update m'.regs .a0 r }) E m := by
  have hcur : m.currentPid < NR_PROCS := hinv.currentValid.lt
  -- a failed check leaves the machine alone
  have hfail : ¬ SpawnOk (absFunction pageOwner m) quota pid →
      Implements L m (specSysSpawn L (absFunction pageOwner m) fileid quota pid)
        { m with regs := Function.update m.regs .a0 (-EINVAL) } := by
    intro hbad
    rw [specSysSpawn_of_not_ok hbad]
    exact ⟨⟨pageOwner, rfl⟩, hinv.savedCsrsOk, fun _ _ => id⟩
  simp only [sysSpawn, Ctl.wp_bind, wp_procCurrent, wp_loadProc, hcur, true_and, Ctl.wp_ite]
  by_cases hquota : (m.procs m.currentPid).upper - (m.procs m.currentPid).lower < quota
  · rw [if_pos hquota]
    exact hfail (fun hok => absurd hok.1 (BitVec.not_le.mpr hquota))
  rw [if_neg hquota]
  by_cases hvalid : isPidValid pid
  case neg =>
    rw [if_pos hvalid]
    exact hfail (fun hok => hvalid hok.2.1)
  rw [if_neg (not_not.mpr hvalid)]
  have hpid : pid < NR_PROCS := hvalid.2
  -- the clamp is the identity on a checked pid
  simp only [arrayIndexNospec_of_lt hpid (by decide), isPidOwnedByCurrent, isProcFree, Ctl.wp_bind,
    wp_loadProc, Ctl.wp_gets, Ctl.wp_pure, hpid, true_and, decide_eq_true_eq]
  by_cases howner : (m.procs pid).owner = m.currentPid
  case neg =>
    rw [if_pos howner]
    exact hfail (fun hok => howner hok.2.2.1)
  rw [if_neg (not_not.mpr howner)]
  by_cases hfree : (m.procs pid).state = ProcState.free.val
  case neg =>
    rw [if_pos hfree]
    exact hfail (fun hok => hfree hok.2.2.2)
  rw [if_neg (not_not.mpr hfree)]
  have hok : SpawnOk (absFunction pageOwner m) quota pid :=
    ⟨BitVec.not_lt.mp hquota, hvalid, howner, hfree⟩
  refine Ctl.wp_mono ?_ (fun _ _ h => h) (wp_spawnChild hinv hok)
  rintro r m' ⟨rfl, rfl⟩
  rw [specSysSpawn_of_ok hok, ← absFunction_spawned hinv hok]
  exact ⟨⟨_, rfl⟩, spawned_savedCsrsOk hinv hok.2.1, fun _ => spawned_csrInvariants⟩

end Spawn

/-! ## Yield -/

section Yield

variable {L : Layout} {m : Machine} {pageOwner : Word → Word}

/-- The process table after the current process has been saved. -/
def savedProcs (m : Machine) : Word → Proc :=
  Function.update m.procs m.currentPid
    { m.procs m.currentPid with cpu := m.regs, csr := readCsrs m.csrs }

/-- The machine after a switch to the next process. -/
def yielded (L : Layout) (m : Machine) : Machine :=
  let procs := savedProcs m
  let next := (m.procs m.currentPid).next
  { m with
    procs := procs
    currentPid := next
    csrs := restoreCsrs procCsrs
      (pmpaddrWrite (pmpaddrWrite m.csrs 0 (L.pages + (procs next).lower * 4096)) 1
        (L.pages + (procs next).upper * 4096)) (procs next).csr
    regs := (procs next).cpu }

theorem wp_sysYield {Q : Word → Machine → Prop} (hinv : MregionsInvariants m) :
    Ctl.wp (sysYield L) Q (fun r m' => { m' with regs := r } = yielded L m) m := by
  have hcur : m.currentPid < NR_PROCS := hinv.currentValid.lt
  have hnext : (m.procs m.currentPid).next < NR_PROCS :=
    (hinv.nextRun _ hinv.currentValid hinv.currentRun).1.lt
  simp only [sysYield, doYield, procSwitch, Ctl.wp_bind, wp_procCurrent, Ctl.wp_get, wp_storeProc,
    wp_loadProc, Ctl.wp_modify, Ctl.wp_pure, Ctl.wp_gets, Ctl.wp_bugOn, wp_modifyCsrs,
    Ctl.wp_leave, Function.update_self, Function.update_idem, copyPtRegs_eq, saveCsrs_eq_readCsrs, hcur, hnext,
    not_true_eq_false, not_false_eq_true, true_and]
  rfl

theorem savedProcs_savedCsrsOk (hinv : MregionsInvariants m) : SavedCsrsOk (savedProcs m) :=
  hinv.savedCsrsOk.update _ (readCsrs_masked m.csrs) hinv.currentRun

/-- Saving the current process changes its saved context and nothing else of the table. -/
theorem savedProcs_regs (m : Machine) (pageOwner : Word → Word) (pid : Word) :
    Regs.mk (savedProcs m pid).cpu (savedProcs m pid).csr
      = Function.update (absFunction pageOwner m).savedRegs m.currentPid
          (absFunction pageOwner m).regs pid := by
  by_cases hpid : pid = m.currentPid
  · subst hpid
    simp only [savedProcs, Function.update_self]
    rfl
  · simp only [savedProcs, Function.update_of_ne hpid]
    rfl

/-- The code's yield is the specification's. -/
theorem absFunction_yielded (hinv : MregionsInvariants m) :
    absFunction pageOwner (yielded L m) = specSysYield (absFunction pageOwner m) := by
  have hnextValid : pidValid (m.procs m.currentPid).next :=
    (hinv.nextRun _ hinv.currentValid hinv.currentRun).1
  have hmasked : Masked (savedProcs m (m.procs m.currentPid).next).csr :=
    (savedProcs_savedCsrsOk hinv _ hnextValid).1
  have hcolumn : ∀ {β : Type} (g : Proc → β),
      (∀ p : Proc, ∀ cpu csr, g { p with cpu := cpu, csr := csr } = g p) →
      (fun pid => g (savedProcs m pid)) = fun pid => g (m.procs pid) := by
    intro β g hg
    funext pid
    by_cases hpid : pid = m.currentPid
    · subst hpid
      simp [savedProcs, hg]
    · simp [savedProcs, hpid]
  apply State.ext
  case currentPid => rfl
  case pages => rfl
  case procState => exact hcolumn Proc.state (fun _ _ _ => rfl)
  case procNext => exact hcolumn Proc.next (fun _ _ _ => rfl)
  case procOwner => exact hcolumn Proc.owner (fun _ _ _ => rfl)
  case procLower => exact hcolumn Proc.lower (fun _ _ _ => rfl)
  case procUpper => exact hcolumn Proc.upper (fun _ _ _ => rfl)
  case pageOwner => rfl
  case savedRegs =>
    funext pid
    exact savedProcs_regs m pageOwner pid
  case regs =>
    have hlive := savedProcs_regs m pageOwner (m.procs m.currentPid).next
    simp only [absFunction, yielded, readCsrs_restoreCsrs _ _ hmasked]
    exact hlive

theorem yielded_csrInvariants {K : Layout} (hpages : K.pages = L.pages) (hcsr : CsrInvariants K m) :
    CsrInvariants K (yielded L m) := by
  have hswitch := hcsr.switch (savedProcs m (m.procs m.currentPid).next).lower
    (savedProcs m (m.procs m.currentPid).next).upper
  rw [hpages] at hswitch
  exact hswitch.restoreCsrs _ _

theorem yielded_implements (hinv : MregionsInvariants m) :
    Implements L m (specSysYield (absFunction pageOwner m)) (yielded L m) :=
  ⟨⟨pageOwner, absFunction_yielded hinv⟩, savedProcs_savedCsrsOk hinv, fun _ => yielded_csrInvariants⟩

end Yield

/-! ## The trap handler -/

section Trap

variable {L : Layout} {m : Machine} {pageOwner : Word → Word}

/-- The machine after `mepc` has moved past the `ecall`. -/
def pastEcall (m : Machine) : Machine :=
  { m with csrs := csrWrite m.csrs .mepc (csrRead m.csrs .mepc + 4) }

theorem absFunction_pastEcall :
    absFunction pageOwner (pastEcall m) = advanceMepc (absFunction pageOwner m) := by
  exact congrArg (fun r => { absFunction pageOwner m with regs := r })
    (readCsrs_stepMepc m.regs m.csrs)

theorem MregionsInvariants.pastEcall (hinv : MregionsInvariants m) :
    MregionsInvariants (pastEcall m) :=
  ⟨hinv.currentValid, hinv.currentRun, hinv.ownerValid, hinv.bounded, hinv.nextRun, hinv.freeCsrs,
    hinv.maskedCsrs⟩

theorem CsrInvariants.pastEcall (hcsr : CsrInvariants L m) : CsrInvariants L (pastEcall m) :=
  CsrsFor.csrWrite_saved hcsr .mepc _

/-- The specification of a call that only returns a value. -/
theorem implements_specReturn (hinv : MregionsInvariants m) (r : Word) :
    Implements L m (specReturn (absFunction pageOwner m) r)
      { m with regs := Function.update m.regs .a0 r } :=
  ⟨⟨pageOwner, rfl⟩, hinv.savedCsrsOk, fun _ _ => id⟩

/-- One activation of `do_trap_ecall_s` does what the specification does. -/
theorem wp_doTrapEcallS (L : Layout) (pageOwner : Word → Word) (hinv : MregionsInvariants m) :
    Ctl.wp (doTrapEcallS L)
      (fun _ m' => Implements L (pastEcall m) (specStepTrap L (absFunction pageOwner m)) m')
      (fun r m' => Implements L (pastEcall m) (specStepTrap L (absFunction pageOwner m))
        { m' with regs := r }) m := by
  have hpast := hinv.pastEcall
  have hcur : (pastEcall m).currentPid < NR_PROCS := hinv.currentValid.lt
  have hnr : (absFunction pageOwner m).regs.gpr .a7 = m.regs .a7 := rfl
  simp only [doTrapEcallS, Ctl.wp_bind, Ctl.wp_gets, wp_modifyCsrs, Ctl.wp_modify, specStepTrap,
    ← absFunction_pastEcall, dispatch, hnr]
  change Ctl.wp _ _ _ (pastEcall m)
  -- the code and the specification test the call number in different orders
  by_cases hquota : m.regs .a7 = NR_get_quota
  · rw [if_pos hquota, if_neg (by rw [hquota]; decide), if_neg (by rw [hquota]; decide),
      if_neg (by rw [hquota]; decide), if_pos hquota]
    simp only [sysGetQuota, Ctl.wp_bind, wp_procCurrent, wp_loadProc, Ctl.wp_pure]
    exact ⟨hcur, implements_specReturn hpast _⟩
  rw [if_neg hquota, if_neg hquota]
  by_cases hspawn : m.regs .a7 = NR_spawn
  · rw [if_pos hspawn, if_pos hspawn]
    exact wp_sysSpawn hpast
  rw [if_neg hspawn, if_neg hspawn]
  by_cases hyield : m.regs .a7 = NR_yield
  · rw [if_pos hyield, if_pos hyield]
    refine Ctl.wp_mono (fun _ _ h => h) ?_ (wp_sysYield hpast)
    intro r m' hm'
    rw [hm']
    exact yielded_implements hpast
  rw [if_neg hyield, if_neg hyield]
  by_cases hgetpid : m.regs .a7 = NR_getpid
  · rw [if_pos hgetpid, if_pos hgetpid]
    exact implements_specReturn hpast _
  · rw [if_neg hgetpid, if_neg hgetpid]
    exact implements_specReturn hpast _

/-- The activation as a whole: it never fails, and one step of the specification describes it. -/
theorem trapEcallS_implements (L : Layout) (pageOwner : Word → Word) (hinv : MregionsInvariants m) :
    ∃ m', trapEcallS L m = some m' ∧ MregionsInvariants m' ∧
      (∀ K : Layout, K.pages = L.pages → CsrInvariants K m → CsrInvariants K m') ∧
      ∃ pageOwner', absFunction pageOwner' m' = specStepTrap L (absFunction pageOwner m) := by
  rcases resume_of_wp (wp_doTrapEcallS L pageOwner hinv) with
    ⟨m', hrun, ⟨⟨pageOwner', habs⟩, hsaved, hcsr⟩⟩
  have htable : TableInvariants (absFunction pageOwner' m') := by
    rw [habs]
    exact (hinv.table pageOwner).specStepTrap L
  exact ⟨m', hrun, .of_table htable hsaved, fun K hK h => hcsr K hK h.pastEcall, pageOwner',
    habs⟩

/-- Refinement of the trap handler: from every state that satisfies the representation invariant,
whatever the trapped registers hold, `do_trap_ecall_s` ends, keeps the invariant, and takes the
abstraction where `spec-step-trap` takes it. -/
theorem doTrapEcallS_refines_specStepTrap (L : Layout) (m : Machine) (hrep : RepInvariant L m)
    (pageOwner : Word → Word) :
    ∃ m' pageOwner', trapEcallS L m = some m' ∧ RepInvariant L m' ∧
      absFunction pageOwner' m' = specStepTrap L (absFunction pageOwner m) := by
  rcases trapEcallS_implements L pageOwner hrep.mregions with
    ⟨m', hrun, hmregions, hcsrs, pageOwner', habs⟩
  exact ⟨m', pageOwner', hrun, ⟨hmregions, hcsrs L rfl hrep.csrs⟩, habs⟩

/-- The first trap after boot spawns process 4 with the last eight pages. -/
theorem doTrapEcallS_refines_specStepTrap_booted :
    ∃ L m, RepInvariant L m ∧ L.pages = 0x80100000 ∧
      m = { booted L (resetMachine L) with
        regs := fun r => if r = .a1 then 8 else if r = .a2 then 4 else NR_spawn } ∧
      ∃ m' pageOwner', trapEcallS L m = some m' ∧ (m'.procs 4).lower = 248 ∧ RepInvariant L m' ∧
        absFunction pageOwner' m' = specStepTrap L (absFunction (fun _ => PID_IDLE) m) := by
  let L : Layout := ⟨0x80100000, 0x80200000, 0x80400000, 0x80000100, 0x80010000⟩
  let m : Machine := { booted L (resetMachine L) with
    regs := fun r => if r = .a1 then 8 else if r = .a2 then 4 else NR_spawn }
  have hboot : RepInvariant L (booted L (resetMachine L)) := booted_repInvariant (resetMachine_resetCsrs L)
  rcases hboot with ⟨h, hcsrs⟩
  have hrep : RepInvariant L m := ⟨⟨h.1, h.2, h.3, h.4, h.5, h.6, h.7⟩, hcsrs⟩
  have hlower : (trapEcallS L m).map (fun m' => (m'.procs 4).lower) = some 248 := by
    decide +kernel
  rcases doTrapEcallS_refines_specStepTrap L m hrep (fun _ => PID_IDLE) with ⟨m', pageOwner', hrun, hrep', habs⟩
  rw [hrun] at hlower
  exact ⟨L, m, hrep, rfl, rfl, m', pageOwner', hrun, Option.some.inj hlower, hrep', habs⟩

end Trap

end Certikos
end Serval
