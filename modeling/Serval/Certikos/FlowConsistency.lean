import Serval.Certikos.NickelNi

/-!
# FlowConsistency — when states that look alike give an action the same flows

The check `verify-dom-respect` is meant for the law that an observer who cannot tell two states apart
is influenced by an action in both or in neither.  It computes both domains in the same state, so it
never meets the law, and the law depends on what an observer's view leaves out: an `antiyield` view
hides who is running, a `yield` view hides the table entries a spawn is judged by, and a `spawn` view
hides the owner of its own process and is empty when its child is no process id.

The flows of an action are first put as statements about the state, one per kind of observer; of
these the view and the invariants decide all but what it hides, and the law holds exactly when the
two states agree on that.
-/

namespace Serval
namespace Certikos
namespace Nickel

open Riscv

/-! ## Flows as statements about the state -/

/-- An action has `pid` as a party when `pid` performs it or is the child it may create. -/
def Action.involves (a : Action) (s : State) (pid : Word) : Prop :=
  pid = s.currentPid ∨ ∃ fileid quota, a = .spawn fileid quota pid ∧ childAvailable s pid

/-- An action may change the ring of processes next to `pid`. -/
def Action.links (a : Action) (s : State) (pid : Word) : Prop :=
  ∃ fileid quota child, a = .spawn fileid quota child ∧ childAvailable s child ∧
    (pid = s.currentPid ∨ pid = child)

theorem involves_spawn (s : State) (fileid quota child pid : Word) :
    (Action.spawn fileid quota child).involves s pid ↔
      pid = s.currentPid ∨ pid = child ∧ childAvailable s child := by
  refine or_congr Iff.rfl ⟨?_, ?_⟩
  · rintro ⟨_, _, heq, havail⟩
    cases heq
    exact ⟨rfl, havail⟩
  · rintro ⟨rfl, havail⟩
    exact ⟨fileid, quota, rfl, havail⟩

theorem links_spawn (s : State) (fileid quota child pid : Word) :
    (Action.spawn fileid quota child).links s pid ↔
      childAvailable s child ∧ (pid = s.currentPid ∨ pid = child) := by
  constructor
  · rintro ⟨_, _, _, heq, hlink⟩
    cases heq
    exact hlink
  · exact fun hlink => ⟨fileid, quota, child, rfl, hlink⟩

/-- The parties of an action are processes. -/
theorem Action.involves.valid {a : Action} {s : State} {pid : Word} (hs : SpecInvariants s)
    (h : a.involves s pid) : pidValid pid := by
  rcases h with rfl | ⟨_, _, _, havail⟩
  · exact hs.currentValid
  · exact havail.1

theorem Action.links.valid {a : Action} {s : State} {pid : Word} (hs : SpecInvariants s)
    (h : a.links s pid) : pidValid pid := by
  rcases h with ⟨_, _, child, _, havail, rfl | rfl⟩
  · exact hs.currentValid
  · exact havail.1

/-- What a process sees of its own table entry and of who is running decides what it is party to. -/
theorem Eqv.involves_iff {u : Word} {s t : State} (h : Eqv u s t) (a : Action) :
    a.involves s u ↔ a.involves t u := by
  have havail : childAvailable s u ↔ childAvailable t u := by
    simp only [childAvailable, State.procParent, State.procRunnable, h.owner, h.state,
      h.currentPid]
  simp only [Action.involves, h.currentPid, havail]

theorem flowsTo_antiyield_iff (a : Action) (s : State) (v : Word) :
    flowsTo (dom a s) (.antiyield v) = true ↔ (a = .yield → v = s.currentPid) := by
  cases a with
  | yield => simp [dom, flowsTo]
  | spawn fileid quota child =>
      by_cases havail : childAvailable s child <;> simp [dom, flowsTo, havail]
  | getQuota | getpid | read page off | write page off value | writeRegs regs =>
      simp [dom, flowsTo]

theorem flowsTo_yield_iff (a : Action) (s : State) (v : Word) :
    flowsTo (dom a s) (.yield v) = true ↔ a = .yield ∨ a.links s v := by
  cases a with
  | yield => simp [dom, flowsTo]
  | spawn fileid quota child =>
      by_cases havail : childAvailable s child <;> simp [dom, flowsTo, links_spawn, havail]
  | getQuota | getpid | read page off | write page off value | writeRegs regs =>
      simp [dom, flowsTo, Action.links]

theorem flowsTo_regular_iff (a : Action) (s : State) (v : Word) :
    flowsTo (dom a s) (.regular v) = true ↔ a = .yield ∨ a.involves s v := by
  cases a with
  | yield => simp [dom, flowsTo]
  | spawn fileid quota child =>
      rw [involves_spawn]
      by_cases havail : childAvailable s child
      · simp [dom, flowsTo, havail]
      · simp [dom, flowsTo, havail, eq_comm]
  | getQuota | getpid | read page off | write page off value | writeRegs regs =>
      simp [dom, flowsTo, Action.involves, eq_comm]

/-- A spawn observer is influenced as its own process is. -/
theorem flowsTo_spawn_iff (a : Action) (s : State) (v w : Word) :
    flowsTo (dom a s) (.spawn v w) = true ↔ a = .yield ∨ a.involves s v := by
  rw [← flowsTo_regular_iff]
  cases dom a s <;> rfl

/-! ## The law -/

/-- What two states that look alike to an observer must still agree on for an action to influence the observer in both
or in neither. -/
def FlowAgreement (a : Action) (s t : State) : Domain → Prop
  -- which of the runnable processes is running
  | .antiyield v => a = .yield → pidValid v → s.procRunnable v → (v = s.currentPid ↔ v = t.currentPid)
  -- a spawn reaches the scheduler parts of parent and child if the child's slot is available
  | .yield v => pidValid v → ∀ fileid quota child, a = .spawn fileid quota child →
      v = s.currentPid ∨ v = child → (childAvailable s child ↔ childAvailable t child)
  -- the owner of `v`, when `v` is the child to create; without a valid child the view shows nothing
  | .spawn v w => pidValid v →
      if pidValid w then ∀ fileid quota, a = .spawn fileid quota v → ¬ s.procRunnable v →
        (s.procParent s.currentPid v ↔ t.procParent s.currentPid v)
      else a ≠ .yield → (a.involves s v ↔ a.involves t v)
  | .regular _ => True

/-- The running process is a runnable one, so an observer that sees its own state knows when it does not run. -/
theorem currentPid_iff_of_not_runnable {s t : State} {v : Word} (hs : SpecInvariants s) (ht : SpecInvariants t)
    (hstate : s.procState v = t.procState v) (hv : ¬ s.procRunnable v) : v = s.currentPid ↔ v = t.currentPid := by
  have hv' : ¬ t.procRunnable v := by rwa [State.procRunnable, ← hstate]
  exact iff_of_false (fun h => hv (h ▸ hs.currentRun)) (fun h => hv' (h ▸ ht.currentRun))

/-- What a `spawn` view shows of its process decides what it is party to, up to its owner. -/
theorem SpawnEqv.involves_iff {s t : State} {v w : Word} (h : SpawnEqv v w s t) (hs : SpecInvariants s)
    (hv : pidValid v) (a : Action) :
    (a.involves s v ↔ a.involves t v) ↔ ∀ fileid quota, a = .spawn fileid quota v → ¬ s.procRunnable v →
      (s.procParent s.currentPid v ↔ t.procParent s.currentPid v) := by
  have hrun : t.procRunnable v ↔ s.procRunnable v := by simp only [State.procRunnable, h.state]
  have hcur : v = s.currentPid → s.procRunnable v := fun heq => heq ▸ hs.currentRun
  simp only [Action.involves, childAvailable, ← h.currentPid, hrun, hv, true_and]
  constructor
  · rintro hiff fileid quota rfl hidle
    have hne : v ≠ s.currentPid := fun heq => hidle (hcur heq)
    simpa [hne, hidle] using hiff
  · intro howner
    refine or_congr Iff.rfl (exists_congr fun fileid => exists_congr fun quota => and_congr_right fun ha => ?_)
    exact and_congr_left fun hidle => howner fileid quota ha hidle

/-- Two states that an observer cannot tell apart agree on whether an action influences the observer
exactly when they agree on what `FlowAgreement` names. -/
theorem flows_consistent_iff (s t : State) (hs : SpecInvariants s) (ht : SpecInvariants t)
    (u : Domain) (h : unwinding u s t) (a : Action) :
    (flowsTo (dom a s) u = true ↔ flowsTo (dom a t) u = true) ↔ FlowAgreement a s t u := by
  cases u with
  | antiyield v =>
      rw [flowsTo_antiyield_iff, flowsTo_antiyield_iff, FlowAgreement]
      refine ⟨fun hiff ha _ _ => by simpa [ha] using hiff, fun hiff => forall_congr' fun ha => ?_⟩
      by_cases hv : pidValid v
      · by_cases hrun : s.procRunnable v
        · exact hiff ha hv hrun
        · exact currentPid_iff_of_not_runnable hs ht (h hv).state hrun
      · exact iff_of_false (fun heq => hv (heq ▸ hs.currentValid)) (fun heq => hv (heq ▸ ht.currentValid))
  | regular v =>
      rw [flowsTo_regular_iff, flowsTo_regular_iff, FlowAgreement, iff_true]
      by_cases hv : pidValid v
      · exact or_congr Iff.rfl ((h hv).involves_iff a)
      · -- no action has an invalid id as a party
        exact or_congr Iff.rfl
          ⟨fun hinv => absurd (hinv.valid hs) hv, fun hinv => absurd (hinv.valid ht) hv⟩
  | spawn v w =>
      rw [flowsTo_spawn_iff, flowsTo_spawn_iff, FlowAgreement]
      by_cases hv : pidValid v
      · simp only [hv, true_imp_iff]
        split_ifs with hw
        · by_cases ha : a = .yield
          · exact iff_of_true (by simp [ha]) fun _ _ hspawn => by cases ha.symm.trans hspawn
          · rw [← (h ⟨hv, hw⟩).involves_iff hs hv]
            simp only [ha, false_or]
        · exact ⟨fun hiff ha => by simpa [ha] using hiff, fun hiff => or_congr_right' hiff⟩
      · refine iff_of_true (or_congr Iff.rfl ?_) (fun hvalid => absurd hvalid hv)
        exact iff_of_false (fun hinv => hv (hinv.valid hs)) (fun hinv => hv (hinv.valid ht))
  | yield v =>
      rw [flowsTo_yield_iff, flowsTo_yield_iff, FlowAgreement]
      constructor
      · rintro hiff hv fileid quota child rfl hparty
        have hparty' : v = t.currentPid ∨ v = child := (h hv).currentPid ▸ hparty
        simpa [links_spawn, hparty, hparty'] using hiff
      · intro hagree
        refine or_congr Iff.rfl ⟨fun hlink => ?_, fun hlink => ?_⟩
        · have hv := hlink.valid hs
          rcases hlink with ⟨fileid, quota, child, rfl, havail, hparty⟩
          rw [links_spawn, ← (h hv).currentPid]
          exact ⟨(hagree hv fileid quota child rfl hparty).mp havail, hparty⟩
        · have hv := hlink.valid ht
          rcases hlink with ⟨fileid, quota, child, rfl, havail, hparty⟩
          rw [← (h hv).currentPid] at hparty
          rw [links_spawn]
          exact ⟨(hagree hv fileid quota child rfl hparty).mpr havail, hparty⟩

/-- The first process of a booted machine asks for its pid and then spawns a child. -/
theorem flows_consistent_iff_booted :
    ∃ L s, SpecInvariants s ∧ s = absFunction (fun _ => PID_IDLE) (booted L (resetMachine L)) ∧
      unwinding (.yield PID_IDLE) s (specSysGetpid s) ∧
      ((flowsTo (dom (.spawn 0 16 4) s) (.yield PID_IDLE) = true ↔
        flowsTo (dom (.spawn 0 16 4) (specSysGetpid s)) (.yield PID_IDLE) = true) ↔
        FlowAgreement (.spawn 0 16 4) s (specSysGetpid s) (.yield PID_IDLE)) := by
  let L : Layout := ⟨0x80100000, 0x80200000, 0x80400000, 0x80000100, 0x80010000⟩
  let s := absFunction (fun _ => PID_IDLE) (booted L (resetMachine L))
  have hs : SpecInvariants s := booted_specInvariants L (resetMachine L)
  have hview : unwinding (.yield PID_IDLE) s (specSysGetpid s) := fun _ => ⟨rfl, rfl⟩
  exact ⟨L, s, hs, rfl, hview,
    flows_consistent_iff s _ hs (specInvariants_apply hs L .getpid) _ hview _⟩

/-- A process that has spawned a child yields: its `antiyield` view is the same before and after, but
only before is it the process whose yield reaches that view. -/
theorem flows_inconsistent_after_yield :
    ¬ ∀ s t, SpecInvariants s → SpecInvariants t → ∀ u, unwinding u s t → ∀ a,
      (flowsTo (dom a s) u = true ↔ flowsTo (dom a t) u = true) := by
  intro hlaw
  let L : Layout := ⟨0x80100000, 0x80200000, 0x80400000, 0x80000100, 0x80010000⟩
  let s := specSysSpawn L (absFunction (fun _ => PID_IDLE) (booted L (resetMachine L))) 0 16 4
  have hs : SpecInvariants s :=
    specInvariants_apply (booted_specInvariants L (resetMachine L)) L (.spawn 0 16 4)
  have hview : unwinding (.antiyield PID_IDLE) s (specSysYield s) :=
    fun _ => (specSysYield_sameProcs s).view PID_IDLE
  have hflow := hlaw s (specSysYield s) hs hs.specSysYield _ hview .yield
  rw [flowsTo_antiyield_iff, flowsTo_antiyield_iff] at hflow
  have hcur : s.currentPid = PID_IDLE := by decide
  have hcur' : (specSysYield s).currentPid = 4 := by decide
  rw [hcur, hcur'] at hflow
  exact absurd (hflow.mp (fun _ => rfl) rfl) (by decide)

end Nickel
end Certikos
end Serval
