import Serval.Certikos.Runs
import Serval.Lib.Tiling

/-!
# Quota — the pages are conserved

The regions of the running processes tile the page numbers below `NR_PAGES`.  Boot starts with one
piece, a spawn cuts the top off the parent's piece, and nothing else touches a region; coverage,
disjointness and the sum of the quotas all follow from the tiling.
-/

namespace Serval
namespace Certikos

open Riscv

variable {s t : State} {pid : Word}

/-- The indices of `procs`. -/
def allPids : Finset Word :=
  (Finset.range 64).image (BitVec.ofNat 64)

theorem mem_allPids : pid ∈ allPids ↔ pid < NR_PROCS := by
  simp only [allPids, Finset.mem_image, Finset.mem_range]
  constructor
  · rintro ⟨i, hi, rfl⟩
    show (BitVec.ofNat 64 i).toNat < 64
    rw [BitVec.toNat_ofNat]
    exact Nat.lt_of_le_of_lt (Nat.mod_le _ _) hi
  · intro hpid
    exact ⟨pid.toNat, hpid, by simp⟩

def State.runningPids (s : State) : Finset Word :=
  allPids.filter s.procRunnable

theorem State.mem_runningPids : pid ∈ s.runningPids ↔ pid < NR_PROCS ∧ s.procRunnable pid := by
  rw [State.runningPids, Finset.mem_filter, mem_allPids]

/-- The inductive invariant: every slot is free or running, slot 0 is never used, free slots are
empty, and the running processes tile the pages. -/
structure QuotaInvariants (s : State) : Prop extends TableInvariants s where
  stateCases : ∀ pid, pid < NR_PROCS →
    s.procState pid = ProcState.free.val ∨ s.procState pid = ProcState.run.val
  zeroFree : ¬ s.procRunnable 0
  freeEmpty : ∀ pid, pid < NR_PROCS → s.procState pid = ProcState.free.val →
    s.procLower pid = 0 ∧ s.procUpper pid = 0
  tiling : Tiling s.runningPids (fun pid => (s.procLower pid).toNat)
    (fun pid => (s.procUpper pid).toNat) 256

theorem QuotaInvariants.of_sameTable (h : QuotaInvariants s) (heq : SameTable s t) : QuotaInvariants t := by
  have htable := h.toTableInvariants.of_sameTable heq
  rcases heq with ⟨_, hstate, _, _, hlower, hupper, _⟩
  have hrunning : t.runningPids = s.runningPids := by
    ext x
    simp only [State.mem_runningPids, State.procRunnable, hstate]
  refine ⟨htable, ?_, ?_, ?_, ?_⟩
  · simpa only [hstate] using h.stateCases
  · simpa only [State.procRunnable, hstate] using h.zeroFree
  · simpa only [hstate, hlower, hupper] using h.freeEmpty
  · simpa only [hrunning, hlower, hupper] using h.tiling

theorem QuotaInvariants.specSysYield (h : QuotaInvariants s) : QuotaInvariants (specSysYield s) :=
  ⟨h.toTableInvariants.specSysYield, h.stateCases, h.zeroFree, h.freeEmpty, h.tiling⟩

section Spawn

variable {L : Layout} {s : State} {fileid quota pid : Word}

theorem specSpawnChild_runningPids (hok : SpawnOk s quota pid) :
    (specSpawnChild L s fileid quota pid).runningPids = insert pid s.runningPids := by
  ext x
  rw [Finset.mem_insert, State.mem_runningPids, State.mem_runningPids,
    specSpawnChild_procRunnable_iff]
  constructor
  · rintro ⟨hlt, rfl | hrun⟩
    · exact Or.inl rfl
    · exact Or.inr ⟨hlt, hrun⟩
  · rintro (rfl | ⟨hlt, hrun⟩)
    · exact ⟨hok.2.1.2, Or.inl rfl⟩
    · exact ⟨hlt, Or.inr hrun⟩

/-- A spawn is a cut of the parent's piece. -/
theorem specSpawnChild_tiling (hinv : QuotaInvariants s) (hok : SpawnOk s quota pid) :
    Tiling (specSpawnChild L s fileid quota pid).runningPids
      (fun x => ((specSpawnChild L s fileid quota pid).procLower x).toNat)
      (fun x => ((specSpawnChild L s fileid quota pid).procUpper x).toNat) 256 := by
  have hcur : s.currentPid ∈ s.runningPids :=
    State.mem_runningPids.mpr ⟨hinv.currentValid.2, hinv.currentRun⟩
  have hpid : pid ∉ s.runningPids := fun h => hok.not_procRunnable (State.mem_runningPids.mp h).2
  have hcut := hok.childLower_mem hinv.toTableInvariants
  have hsplit := hinv.tiling.split hcur hpid hcut.1 hcut.2
  rw [specSpawnChild_runningPids hok]
  refine hsplit.congr (fun x _ => ?_) (fun x _ => ?_)
  · by_cases hx : x = pid
    · simp [specSpawnChild, hx]
    · simp [specSpawnChild, hx]
  · by_cases hx : x = s.currentPid
    · simp [specSpawnChild, hx]
    by_cases hxp : x = pid
    · simp [specSpawnChild, hxp, hok.ne_currentPid hinv.toTableInvariants]
    · simp [specSpawnChild, hx, hxp]

theorem QuotaInvariants.specSpawnChild (hinv : QuotaInvariants s) (hok : SpawnOk s quota pid) :
    QuotaInvariants (specSpawnChild L s fileid quota pid) where
  toTableInvariants := hinv.toTableInvariants.specSpawnChild hok
  stateCases := by
    intro x hx
    by_cases hxp : x = pid
    · simp [Certikos.specSpawnChild, hxp]
    · simpa [Certikos.specSpawnChild, hxp] using hinv.stateCases x hx
  zeroFree := by
    rw [specSpawnChild_procRunnable_iff]
    rintro (hzero | hrun)
    · exact absurd hok.2.1.1 (by rw [← hzero]; decide)
    · exact hinv.zeroFree hrun
  freeEmpty := by
    intro x hx hfree
    have hxp : x ≠ pid := by
      rintro rfl
      simp only [Certikos.specSpawnChild, Function.update_self] at hfree
      exact absurd hfree (by decide)
    simp only [Certikos.specSpawnChild, Function.update_of_ne hxp] at hfree ⊢
    have hcur : x ≠ s.currentPid := by
      rintro rfl
      exact absurd (hfree.symm.trans hinv.currentRun) (by decide)
    simpa only [Function.update_of_ne hcur, Function.update_of_ne hxp] using
      hinv.freeEmpty x hx hfree
  tiling := specSpawnChild_tiling hinv hok

end Spawn

theorem QuotaInvariants.specStep (h : QuotaInvariants s) (L : Layout) (c : Choice) : QuotaInvariants (specStep L s c) :=
  specStep_preserves (fun hsame h => h.of_sameTable hsame) (fun _ h => h.specSysYield)
    (fun _ _ _ _ h hok => h.specSpawnChild hok) h c

theorem booted_runningPids (L : Layout) (m : Machine) (pageOwner : Word → Word) :
    (absFunction pageOwner (booted L m)).runningPids = {PID_IDLE} := by
  ext x
  rw [State.mem_runningPids, Finset.mem_singleton]
  constructor
  · rintro ⟨hx, hrun⟩
    by_contra hne
    have hfree : (bootProcs L m.procs x).state = ProcState.free.val := by
      rw [bootProcs_other L m.procs hx hne]
      rfl
    exact absurd (hfree.symm.trans hrun) (by decide)
  · rintro rfl
    exact ⟨by decide, congrArg Proc.state (bootProcs_idle L m.procs)⟩

theorem booted_quotaInvariants (L : Layout) (m : Machine) (pageOwner : Word → Word) :
    QuotaInvariants (absFunction pageOwner (booted L m)) where
  toTableInvariants := (booted_mregionsInvariants L m).table pageOwner
  stateCases := by
    intro pid hpid
    show (bootProcs L m.procs pid).state = _ ∨ (bootProcs L m.procs pid).state = _
    by_cases hne : pid = PID_IDLE
    · rw [hne, bootProcs_idle]
      exact Or.inr rfl
    · rw [bootProcs_other L m.procs hpid hne]
      exact Or.inl rfl
  zeroFree := by
    intro hrun
    have hfree : (bootProcs L m.procs 0).state = ProcState.free.val := by
      rw [bootProcs_other L m.procs (by decide) (by decide)]
      rfl
    exact absurd (hfree.symm.trans hrun) (by decide)
  freeEmpty := by
    intro pid hpid hfree
    show (bootProcs L m.procs pid).lower = 0 ∧ (bootProcs L m.procs pid).upper = 0
    have hne : pid ≠ PID_IDLE := by
      rintro rfl
      have hrun : (bootProcs L m.procs PID_IDLE).state = ProcState.run.val :=
        congrArg Proc.state (bootProcs_idle L m.procs)
      exact absurd (hfree.symm.trans hrun) (by decide)
    rw [bootProcs_other L m.procs hpid hne]
    exact ⟨rfl, rfl⟩
  tiling := by
    rw [booted_runningPids]
    apply Tiling.singleton
    · show (bootProcs L m.procs PID_IDLE).lower.toNat = 0
      rw [bootProcs_idle]
      rfl
    · show (bootProcs L m.procs PID_IDLE).upper.toNat = 256
      rw [bootProcs_idle]
      rfl

/-! ## Regions only shrink -/

/-- Running processes keep running, with the same `lower` and no larger `upper`. -/
def Shrinks (s t : State) : Prop :=
  ∀ pid, pid < NR_PROCS → s.procRunnable pid →
    t.procRunnable pid ∧ t.procLower pid = s.procLower pid ∧ t.procUpper pid ≤ s.procUpper pid

theorem Shrinks.refl (s : State) : Shrinks s s :=
  fun _ _ hrun => ⟨hrun, rfl, BitVec.le_refl _⟩

theorem Shrinks.trans {r : State} (hst : Shrinks s t) (htr : Shrinks t r) : Shrinks s r := by
  intro pid hpid hrun
  rcases hst pid hpid hrun with ⟨hrun₁, hlower₁, hupper₁⟩
  rcases htr pid hpid hrun₁ with ⟨hrun₂, hlower₂, hupper₂⟩
  exact ⟨hrun₂, hlower₂.trans hlower₁, BitVec.le_trans hupper₂ hupper₁⟩

theorem SameTable.shrinks (h : SameTable s t) : Shrinks s t := by
  intro pid _ hrun
  refine ⟨?_, congrFun h.procLower pid, ?_⟩
  · rw [State.procRunnable, h.procState]
    exact hrun
  · rw [h.procUpper]
    exact BitVec.le_refl _

theorem specSpawnChild_shrinks {L : Layout} {fileid quota : Word} (hinv : TableInvariants s)
    (hok : SpawnOk s quota pid) :
    Shrinks s (specSpawnChild L s fileid quota pid) := by
  intro x _ hrun
  have hxp : x ≠ pid := fun heq => hok.not_procRunnable (heq ▸ hrun)
  refine ⟨specSpawnChild_procRunnable_iff x |>.mpr (Or.inr hrun), ?_, ?_⟩
  · simp [specSpawnChild, hxp]
  · by_cases hx : x = s.currentPid
    · subst hx
      simpa [specSpawnChild] using (hok.childLower_mem hinv).2
    · simp [specSpawnChild, hx, hxp]

theorem specStep_shrinks (h : TableInvariants s) (L : Layout) (c : Choice) : Shrinks s (specStep L s c) := by
  cases c with
  | syscall =>
      rcases specStepTrap_cases L s with ⟨regs, heq⟩ | ⟨_, heq⟩ | ⟨fileid, quota, pid, hok, heq⟩
      · rw [specStep, heq]
        exact (specWriteRegs_sameTable s regs).shrinks
      · rw [specStep, heq]
        exact fun _ _ hrun => ⟨hrun, rfl, BitVec.le_refl _⟩
      · have hadv := advanceMepc_sameTable s
        rw [specStep, heq]
        exact (hadv.shrinks.trans (specSpawnChild_shrinks (h.of_sameTable hadv) hok)).trans
          (specReturn_sameTable _ _).shrinks
  | write page off value =>
      exact (specWrite_sameTable s page off value).shrinks
  | read page off =>
      exact (specRead_sameTable s page off).shrinks
  | havocRegs regs =>
      exact (specWriteRegs_sameTable s regs).shrinks

theorem specRun_shrinks (L : Layout) (cs : List Choice) :
    ∀ {s : State}, QuotaInvariants s → Shrinks s (specRun L s cs) := by
  induction cs with
  | nil =>
      intro s _
      exact Shrinks.refl s
  | cons c cs ih =>
      intro s hs
      exact (specStep_shrinks hs.toTableInvariants L c).trans (ih (hs.specStep L c))

/-! ## The code -/

/-- The pids whose processes run. -/
def runningPids (m : Machine) : Finset Word :=
  allPids.filter (fun pid => (m.procs pid).state = ProcState.run.val)

/-- What the invariant says about the process table of the machine. -/
structure QuotasConserved (m : Machine) : Prop where
  everyPageOnce : ∀ page, pindexValid page →
    ∃! pid, (pid < NR_PROCS ∧ pidRun m pid) ∧
      (m.procs pid).lower ≤ page ∧ page < (m.procs pid).upper
  freeOrRun : ∀ pid, pid < NR_PROCS → (m.procs pid).state = ProcState.free.val ∨ pidRun m pid
  freeEmpty : ∀ pid, pid < NR_PROCS → (m.procs pid).state = ProcState.free.val →
    (m.procs pid).lower = 0 ∧ (m.procs pid).upper = 0
  bounded : ∀ pid, pid < NR_PROCS → pidRun m pid →
    (m.procs pid).lower ≤ (m.procs pid).upper ∧ (m.procs pid).upper ≤ NR_PAGES
  sum : ∑ pid ∈ runningPids m, ((m.procs pid).upper - (m.procs pid).lower).toNat = NR_PAGES.toNat

theorem QuotaInvariants.conserved {m : Machine} {pageOwner : Word → Word}
    (h : QuotaInvariants (absFunction pageOwner m)) : QuotasConserved m where
  everyPageOnce := by
    intro page hpage
    have hunique := h.tiling.existsUnique (k := page.toNat) hpage
    simp only [State.mem_runningPids] at hunique
    exact hunique
  freeOrRun := h.stateCases
  freeEmpty := h.freeEmpty
  bounded := by
    intro pid hpid hrun
    have hmem : pid ∈ (absFunction pageOwner m).runningPids :=
      State.mem_runningPids.mpr ⟨hpid, hrun⟩
    exact ⟨h.tiling.ordered pid hmem, h.tiling.bounded pid hmem⟩
  sum := by
    calc
      ∑ pid ∈ (absFunction pageOwner m).runningPids,
          ((m.procs pid).upper - (m.procs pid).lower).toNat
        = ∑ pid ∈ (absFunction pageOwner m).runningPids,
            ((m.procs pid).upper.toNat - (m.procs pid).lower.toNat) := by
          refine Finset.sum_congr rfl (fun pid hpid => ?_)
          exact BitVec.toNat_sub_of_le (h.tiling.ordered pid hpid)
      _ = 256 := h.tiling.sum_size

/-- Every run of the booted machine goes through and reaches a state of the specification. -/
theorem runEvents_booted (L : Layout) (m₀ : Machine) (evs : List Event) :
    ∃ m pageOwner, runEvents L (booted L m₀) evs = some m ∧ MregionsInvariants m ∧
      absFunction pageOwner m =
        specRun L (absFunction (fun _ => PID_IDLE) (booted L m₀)) (evs.map Event.choice) ∧
      QuotaInvariants (absFunction pageOwner m) := by
  rcases runEvents_simulates L evs (booted_mregionsInvariants L m₀) (fun _ => PID_IDLE) with
    ⟨m, pageOwner, hrun, hinv, habs⟩
  refine ⟨m, pageOwner, hrun, hinv, habs, ?_⟩
  rw [habs]
  exact specRun_induction (fun s c hs => hs.specStep L c) _ (booted_quotaInvariants L m₀ _)

/-- Quota conservation.  Whatever memory held before boot, `proc_init` and `user_init` go through,
and so does every later run; in the state it reaches the pages are conserved, and from there on the
regions of running processes can only shrink from above. -/
theorem quotas_conserved (L : Layout) (m₀ : Machine) :
    ∃ mb, resume (boot L m₀) = some mb ∧
      ∀ evs, ∃ m, runEvents L mb evs = some m ∧ QuotasConserved m ∧
        ∀ evs', ∃ m', runEvents L m evs' = some m' ∧
          ∀ pid, pid < NR_PROCS → pidRun m pid →
            pidRun m' pid ∧ (m'.procs pid).lower = (m.procs pid).lower ∧
              (m'.procs pid).upper ≤ (m.procs pid).upper := by
  refine ⟨booted L m₀, boot_eq_booted L m₀, ?_⟩
  intro evs
  rcases runEvents_booted L m₀ evs with ⟨m, pageOwner, hrun, hinv, -, hquota⟩
  refine ⟨m, hrun, hquota.conserved, ?_⟩
  intro evs'
  rcases runEvents_simulates L evs' hinv pageOwner with ⟨m', pageOwner', hrun', _, habs'⟩
  have hshrinks : Shrinks (absFunction pageOwner m) (absFunction pageOwner' m') := by
    rw [habs']
    exact specRun_shrinks L _ hquota
  exact ⟨m', hrun', hshrinks⟩

end Certikos
end Serval
