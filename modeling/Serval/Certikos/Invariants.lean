import Serval.Certikos.Spec

/-!
# Invariants — what every CertiKOS transition keeps

`SpecInvariants` is the predicate of `verif/invariants.rkt`.  Five of its clauses form an invariant
by themselves, which the representation invariant of the code shares (`TableInvariants`); the other
two say that free processes have no pages and that ghost ownership follows the regions.

Most transitions touch neither the process table nor page ownership, so their preservation is one
congruence lemma; the two that do are `specSysYield` and a spawn whose checks pass.
-/

namespace Serval
namespace Certikos

open Riscv

variable {s : State} {x page : Word}

structure TableInvariants (s : State) : Prop where
  currentValid : pidValid s.currentPid
  currentRun : s.procRunnable s.currentPid
  nextRun : ∀ pid, pidValid pid → s.procRunnable pid →
    pidValid (s.procNext pid) ∧ s.procRunnable (s.procNext pid)
  ownerValid : ∀ pid, pidValid pid → pidValid (s.procOwner pid)
  bounded : ∀ pid, pidValid pid → s.procUpper pid ≤ NR_PAGES ∧ s.procLower pid ≤ s.procUpper pid

structure SpecInvariants (s : State) : Prop extends TableInvariants s where
  freeEmpty : ∀ pid, pidValid pid → ¬ s.procRunnable pid → s.procUpper pid = 0 ∧ s.procLower pid = 0
  pageOwned : ∀ page pid, pidValid pid → pindexValid page → s.inRegion pid page →
    s.pageOwner page = pid

/-! ## Transitions that leave the table alone -/

/-- The part of the state the invariants speak about. -/
structure SameTable (s t : State) : Prop where
  currentPid : t.currentPid = s.currentPid
  procState : t.procState = s.procState
  procNext : t.procNext = s.procNext
  procOwner : t.procOwner = s.procOwner
  procLower : t.procLower = s.procLower
  procUpper : t.procUpper = s.procUpper
  pageOwner : t.pageOwner = s.pageOwner

theorem TableInvariants.of_sameTable {t : State} (h : TableInvariants s) (heq : SameTable s t) :
    TableInvariants t := by
  rcases heq with ⟨hcur, hstate, hnext, howner, hlower, hupper, _⟩
  rcases h with ⟨hvalid, hrun, hnextRun, hownerValid, hbounded⟩
  constructor <;>
    simpa only [State.procRunnable, hcur, hstate, hnext, howner, hlower, hupper]

theorem SpecInvariants.of_sameTable {t : State} (h : SpecInvariants s) (heq : SameTable s t) : SpecInvariants t := by
  have htable := h.toTableInvariants.of_sameTable heq
  rcases heq with ⟨_, hstate, _, _, hlower, hupper, hpage⟩
  refine ⟨htable, ?_, ?_⟩
  · simpa only [State.procRunnable, hstate, hlower, hupper] using h.freeEmpty
  · simpa only [State.inRegion, hlower, hupper, hpage] using h.pageOwned

theorem specReturn_sameTable (s : State) (val : Word) : SameTable s (specReturn s val) :=
  ⟨rfl, rfl, rfl, rfl, rfl, rfl, rfl⟩

theorem advanceMepc_sameTable (s : State) : SameTable s (advanceMepc s) :=
  ⟨rfl, rfl, rfl, rfl, rfl, rfl, rfl⟩

theorem specWriteRegs_sameTable (s : State) (regs : Regs) : SameTable s (specWriteRegs s regs) :=
  ⟨rfl, rfl, rfl, rfl, rfl, rfl, rfl⟩

theorem specRead_sameTable (s : State) (page off : Word) : SameTable s (specRead s page off) := by
  rw [specRead]
  split <;> exact ⟨rfl, rfl, rfl, rfl, rfl, rfl, rfl⟩

theorem specWrite_sameTable (s : State) (page off : Word) (value : BitVec 8) :
    SameTable s (specWrite s page off value) := by
  rw [specWrite]
  split <;> exact ⟨rfl, rfl, rfl, rfl, rfl, rfl, rfl⟩

/-! ## Yield -/

theorem TableInvariants.specSysYield (h : TableInvariants s) : TableInvariants (specSysYield s) := by
  rcases h.nextRun _ h.currentValid h.currentRun with ⟨hvalid, hrun⟩
  exact ⟨hvalid, hrun, h.nextRun, h.ownerValid, h.bounded⟩

theorem SpecInvariants.specSysYield (h : SpecInvariants s) : SpecInvariants (specSysYield s) :=
  ⟨h.toTableInvariants.specSysYield, h.freeEmpty, h.pageOwned⟩

/-! ## Spawn -/

section Spawn

variable {L : Layout} {s : State} {fileid quota pid : Word}

/-- A child is carved off the top: its region starts inside the parent's. -/
theorem SpawnOk.childLower_mem (hok : SpawnOk s quota pid) (hinv : TableInvariants s) :
    s.procLower s.currentPid ≤ s.procUpper s.currentPid - quota ∧
      s.procUpper s.currentPid - quota ≤ s.procUpper s.currentPid := by
  have hquota := hok.1
  have hle := (hinv.bounded _ hinv.currentValid).2
  constructor <;> bv_omega

theorem SpawnOk.not_procRunnable (hok : SpawnOk s quota pid) : ¬ s.procRunnable pid := by
  intro hrun
  have hfree : s.procState pid = ProcState.free.val := hok.2.2.2
  rw [State.procRunnable, hfree] at hrun
  exact absurd hrun (by decide)

/-- The child is not the parent: one is free, the other runs. -/
theorem SpawnOk.ne_currentPid (hok : SpawnOk s quota pid) (hinv : TableInvariants s) : pid ≠ s.currentPid := by
  intro heq
  exact hok.not_procRunnable (heq ▸ hinv.currentRun)

theorem specSpawnChild_procRunnable_iff (x : Word) :
    (specSpawnChild L s fileid quota pid).procRunnable x ↔ x = pid ∨ s.procRunnable x := by
  by_cases hx : x = pid <;> simp [State.procRunnable, specSpawnChild, hx]

/-- After a spawn the child has the top of what its parent had. -/
theorem specSpawnChild_inRegion_child (hne : pid ≠ s.currentPid) (page : Word) :
    (specSpawnChild L s fileid quota pid).inRegion pid page ↔
      s.procUpper s.currentPid - quota ≤ page ∧ page < s.procUpper s.currentPid := by
  simp [State.inRegion, specSpawnChild, hne]

/-- After a spawn the parent has the rest. -/
theorem specSpawnChild_inRegion_parent (hne : pid ≠ s.currentPid) (page : Word) :
    (specSpawnChild L s fileid quota pid).inRegion s.currentPid page ↔
      s.procLower s.currentPid ≤ page ∧ page < s.procUpper s.currentPid - quota := by
  simp [State.inRegion, specSpawnChild, hne.symm]

theorem specSpawnChild_inRegion_other (hpid : x ≠ pid) (hcur : x ≠ s.currentPid) (page : Word) :
    (specSpawnChild L s fileid quota pid).inRegion x page ↔ s.inRegion x page := by
  simp [State.inRegion, specSpawnChild, hpid, hcur]

theorem specSpawnChild_pageOwner_of_child
    (hpage : s.procUpper s.currentPid - quota ≤ page ∧ page < s.procUpper s.currentPid) :
    (specSpawnChild L s fileid quota pid).pageOwner page = pid := by
  simp only [specSpawnChild]
  exact updateWhere_of_true (by simpa using hpage)

theorem specSpawnChild_pageOwner_of_not_child
    (hpage : ¬ (s.procUpper s.currentPid - quota ≤ page ∧ page < s.procUpper s.currentPid)) :
    (specSpawnChild L s fileid quota pid).pageOwner page = s.pageOwner page := by
  simp only [specSpawnChild]
  exact updateWhere_of_false (by simpa using hpage)

/-- Ghost ownership follows the regions through a spawn. -/
theorem specSpawnChild_pageOwned (hok : SpawnOk s quota pid) (hinv : SpecInvariants s) (hx : pidValid x)
    (hpage : pindexValid page) (hreg : (specSpawnChild L s fileid quota pid).inRegion x page) :
    (specSpawnChild L s fileid quota pid).pageOwner page = x := by
  have hne := hok.ne_currentPid hinv.toTableInvariants
  have hmem := hok.childLower_mem hinv.toTableInvariants
  by_cases hpid : x = pid
  · subst hpid
    exact specSpawnChild_pageOwner_of_child ((specSpawnChild_inRegion_child hne page).mp hreg)
  by_cases hcur : x = s.currentPid
  · subst hcur
    rcases (specSpawnChild_inRegion_parent hne page).mp hreg with ⟨hlow, hup⟩
    rw [specSpawnChild_pageOwner_of_not_child (fun h => absurd h.1 (by bv_omega))]
    exact hinv.pageOwned page _ hx hpage ⟨hlow, by bv_omega⟩
  · have hold := (specSpawnChild_inRegion_other hpid hcur page).mp hreg
    have howner : s.pageOwner page = x := hinv.pageOwned page x hx hpage hold
    -- a page of the child's region belonged to the parent
    rw [specSpawnChild_pageOwner_of_not_child, howner]
    intro hchild
    have hpar : s.pageOwner page = s.currentPid :=
      hinv.pageOwned page _ hinv.currentValid hpage ⟨by bv_omega, hchild.2⟩
    exact hcur (howner.symm.trans hpar)

theorem specSpawnChild_nextRun (hok : SpawnOk s quota pid) (hinv : TableInvariants s) (hx : pidValid x)
    (hrun : (specSpawnChild L s fileid quota pid).procRunnable x) :
    pidValid ((specSpawnChild L s fileid quota pid).procNext x) ∧
      (specSpawnChild L s fileid quota pid).procRunnable
        ((specSpawnChild L s fileid quota pid).procNext x) := by
  have hne := hok.ne_currentPid hinv
  have hcurNext := hinv.nextRun _ hinv.currentValid hinv.currentRun
  simp only [specSpawnChild_procRunnable_iff] at hrun ⊢
  by_cases hcur : x = s.currentPid
  · have hnext : (specSpawnChild L s fileid quota pid).procNext x = pid := by
      simp [specSpawnChild, hcur]
    rw [hnext]
    exact ⟨hok.2.1, Or.inl rfl⟩
  by_cases hpid : x = pid
  · have hnext : (specSpawnChild L s fileid quota pid).procNext x
        = s.procNext s.currentPid := by
      simp [specSpawnChild, hpid, hne]
    rw [hnext]
    exact ⟨hcurNext.1, Or.inr hcurNext.2⟩
  · have hnext : (specSpawnChild L s fileid quota pid).procNext x = s.procNext x := by
      simp [specSpawnChild, hpid, hcur]
    rw [hnext]
    have hold := hinv.nextRun x hx (hrun.resolve_left hpid)
    exact ⟨hold.1, Or.inr hold.2⟩

theorem specSpawnChild_bounded (hok : SpawnOk s quota pid) (hinv : TableInvariants s) (hx : pidValid x) :
    (specSpawnChild L s fileid quota pid).procUpper x ≤ NR_PAGES ∧
      (specSpawnChild L s fileid quota pid).procLower x
        ≤ (specSpawnChild L s fileid quota pid).procUpper x := by
  have hne := hok.ne_currentPid hinv
  have hmem := hok.childLower_mem hinv
  have hcurBound := hinv.bounded _ hinv.currentValid
  by_cases hcur : x = s.currentPid
  · subst hcur
    simp only [specSpawnChild, Function.update_self, Function.update_of_ne hne.symm]
    exact ⟨BitVec.le_trans hmem.2 hcurBound.1, hmem.1⟩
  by_cases hpid : x = pid
  · subst hpid
    simp only [specSpawnChild, Function.update_self, Function.update_of_ne hne]
    exact ⟨hcurBound.1, hmem.2⟩
  · simp only [specSpawnChild, Function.update_of_ne hcur, Function.update_of_ne hpid]
    exact hinv.bounded x hx

theorem TableInvariants.specSpawnChild (hinv : TableInvariants s) (hok : SpawnOk s quota pid) :
    TableInvariants (specSpawnChild L s fileid quota pid) where
  currentValid := hinv.currentValid
  currentRun := specSpawnChild_procRunnable_iff _ |>.mpr (Or.inr hinv.currentRun)
  nextRun := fun _ hx hrun => specSpawnChild_nextRun hok hinv hx hrun
  ownerValid := hinv.ownerValid
  bounded := fun _ hx => specSpawnChild_bounded hok hinv hx

theorem SpecInvariants.specSpawnChild (hinv : SpecInvariants s) (hok : SpawnOk s quota pid) :
    SpecInvariants (specSpawnChild L s fileid quota pid) where
  toTableInvariants := hinv.toTableInvariants.specSpawnChild hok
  freeEmpty := by
    intro x hx hfree
    rw [specSpawnChild_procRunnable_iff, not_or] at hfree
    have hcur : x ≠ s.currentPid := fun heq => hfree.2 (heq ▸ hinv.currentRun)
    simpa [Certikos.specSpawnChild, hcur, hfree.1] using hinv.freeEmpty x hx hfree.2
  pageOwned := fun _ _ hx hpage hreg => specSpawnChild_pageOwned hok hinv hx hpage hreg

end Spawn

theorem SpecInvariants.specSysSpawn (h : SpecInvariants s) (L : Layout) (fileid quota pid : Word) :
    SpecInvariants (specSysSpawn L s fileid quota pid) := by
  by_cases hok : SpawnOk s quota pid
  · rw [specSysSpawn_of_ok hok]
    exact (h.specSpawnChild hok).of_sameTable (specReturn_sameTable _ _)
  · rw [specSysSpawn_of_not_ok hok]
    exact h.of_sameTable (specReturn_sameTable _ _)

/-! ## Steps -/

/-- What a trap can do: change the registers, yield, or spawn with all checks passed.  Every
property of whole runs is derived from this lemma. -/
theorem specStepTrap_cases (L : Layout) (s : State) :
    (∃ regs, specStepTrap L s = specWriteRegs s regs) ∨
      (s.regs.gpr .a7 = NR_yield ∧ specStepTrap L s = specSysYield (advanceMepc s)) ∨
      ∃ fileid quota pid, SpawnOk s quota pid ∧
        specStepTrap L s = specReturn (specSpawnChild L (advanceMepc s) fileid quota pid) 0 := by
  simp only [specStepTrap]
  split_ifs with hspawn hyield
  · by_cases hok : SpawnOk (advanceMepc s) (s.regs.gpr .a1) (s.regs.gpr .a2)
    · exact Or.inr (Or.inr ⟨_, _, _, hok, specSysSpawn_of_ok hok⟩)
    · rw [specSysSpawn_of_not_ok hok]
      exact Or.inl ⟨_, rfl⟩
  · exact Or.inr (Or.inl ⟨hyield, rfl⟩)
  · exact Or.inl ⟨_, rfl⟩
  · exact Or.inl ⟨_, rfl⟩
  · exact Or.inl ⟨_, rfl⟩

section Preserved

variable {P : State → Prop} {L : Layout} (hsame : ∀ {s t : State}, SameTable s t → P s → P t)
  (hyield : ∀ s, P s → P (specSysYield s))
  (hspawn : ∀ s fileid quota pid, P s → SpawnOk s quota pid → P (specSpawnChild L s fileid quota pid))
include hsame hyield hspawn

/-- A property of the table that yields and spawns keep is kept by every trap. -/
theorem specStepTrap_preserves (h : P s) : P (specStepTrap L s) := by
  have hadv : P (advanceMepc s) := hsame (advanceMepc_sameTable s) h
  rcases specStepTrap_cases L s with ⟨regs, heq⟩ | ⟨_, heq⟩ | ⟨fileid, quota, pid, hok, heq⟩
  · rw [heq]
    exact hsame (specWriteRegs_sameTable s regs) h
  · rw [heq]
    exact hyield _ hadv
  · rw [heq]
    exact hsame (specReturn_sameTable _ _) (hspawn _ fileid quota pid hadv hok)

theorem specStep_preserves (h : P s) (c : Choice) : P (specStep L s c) := by
  cases c with
  | syscall =>
      exact specStepTrap_preserves hsame hyield hspawn h
  | write page off value =>
      exact hsame (specWrite_sameTable s page off value) h
  | read page off =>
      exact hsame (specRead_sameTable s page off) h
  | havocRegs regs =>
      exact hsame (specWriteRegs_sameTable s regs) h

end Preserved

theorem TableInvariants.specStepTrap (h : TableInvariants s) (L : Layout) : TableInvariants (specStepTrap L s) :=
  specStepTrap_preserves (fun hsame h => h.of_sameTable hsame) (fun _ h => h.specSysYield)
    (fun _ _ _ _ h hok => h.specSpawnChild hok) h

theorem SpecInvariants.specStep (h : SpecInvariants s) (L : Layout) (c : Choice) : SpecInvariants (specStep L s c) :=
  specStep_preserves (fun hsame h => h.of_sameTable hsame) (fun _ h => h.specSysYield)
    (fun _ _ _ _ h hok => h.specSpawnChild hok) h c

/-- No process ever stops. -/
theorem specStep_procRunnable (L : Layout) (c : Choice) {u : Word} (hrun : s.procRunnable u) :
    (specStep L s c).procRunnable u := by
  have hsame : ∀ {t : State}, SameTable s t → t.procRunnable u := by
    intro t h
    rw [State.procRunnable, h.procState]
    exact hrun
  cases c with
  | syscall =>
      rw [specStep]
      rcases specStepTrap_cases L s with ⟨regs, heq⟩ | ⟨_, heq⟩ | ⟨fileid, quota, pid, _, heq⟩
      · rw [heq]
        exact hsame (specWriteRegs_sameTable s regs)
      · rw [heq]
        exact hrun
      · rw [heq]
        show (specSpawnChild L (advanceMepc s) fileid quota pid).procRunnable u
        rw [specSpawnChild_procRunnable_iff]
        exact Or.inr hrun
  | write page off value =>
      exact hsame (specWrite_sameTable s page off value)
  | read page off =>
      exact hsame (specRead_sameTable s page off)
  | havocRegs regs =>
      exact hsame (specWriteRegs_sameTable s regs)

end Certikos
end Serval
