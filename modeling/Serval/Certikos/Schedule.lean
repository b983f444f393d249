import Serval.Certikos.Quota
import Serval.Lib.RoundRobin

/-!
# Schedule — the running processes take turns

The `next` pointers of the running processes form one cycle.  A yield moves one step along it and a
spawn inserts the child right behind its parent, so a process that gives up the hart gets it back
after every other running process has had it once.
-/

namespace Serval
namespace Certikos

open Riscv

/-- The cycle, read from the current process on. -/
def Scheduled (s : State) : Prop :=
  ∃ l, RoundRobin s.procNext (s.currentPid :: l) ∧
    ∀ pid, pid ∈ s.currentPid :: l ↔ pid ∈ s.runningPids

theorem Scheduled.of_sameTable {s t : State} (h : Scheduled s) (heq : SameTable s t) :
    Scheduled t := by
  rcases h with ⟨l, hring, hmem⟩
  refine ⟨l, ?_, ?_⟩
  · rw [heq.procNext, heq.currentPid]
    exact hring
  · intro pid
    rw [heq.currentPid, hmem, State.mem_runningPids, State.mem_runningPids, State.procRunnable,
      State.procRunnable, heq.procState]

theorem Scheduled.specSysYield {s : State} (h : Scheduled s) : Scheduled (specSysYield s) := by
  rcases h with ⟨l, hring, hmem⟩
  -- one step along the cycle puts the next process at the head
  have hrotate : (s.currentPid :: l).rotate 1 = s.procNext s.currentPid :: l.map s.procNext := by
    rw [← hring.step, List.map_cons]
  refine ⟨l.map s.procNext, ?_, ?_⟩
  · have hring' := hring.rotate 1
    rw [hrotate] at hring'
    exact hring'
  · intro pid
    show pid ∈ s.procNext s.currentPid :: l.map s.procNext ↔ pid ∈ s.runningPids
    rw [← hrotate, List.mem_rotate]
    exact hmem pid

theorem Scheduled.specSpawnChild {L : Layout} {s : State} {fileid quota pid : Word}
    (h : Scheduled s) (hok : SpawnOk s quota pid) :
    Scheduled (specSpawnChild L s fileid quota pid) := by
  rcases h with ⟨l, hring, hmem⟩
  have hpid : pid ∉ s.currentPid :: l := by
    rw [hmem, State.mem_runningPids]
    exact fun hrun => hok.not_procRunnable hrun.2
  refine ⟨pid :: l, hring.insert hpid, ?_⟩
  intro x
  rw [specSpawnChild_runningPids hok, Finset.mem_insert, ← hmem]
  show x ∈ s.currentPid :: pid :: l ↔ _
  simp only [List.mem_cons]
  constructor
  · rintro (hcur | hx | hl)
    · exact Or.inr (Or.inl hcur)
    · exact Or.inl hx
    · exact Or.inr (Or.inr hl)
  · rintro (hx | hcur | hl)
    · exact Or.inr (Or.inl hx)
    · exact Or.inl hcur
    · exact Or.inr (Or.inr hl)

theorem Scheduled.specStep {s : State} (h : Scheduled s) (L : Layout) (c : Choice) : Scheduled (specStep L s c) :=
  specStep_preserves (fun hsame h => h.of_sameTable hsame) (fun _ h => h.specSysYield)
    (fun _ _ _ _ h hok => h.specSpawnChild hok) h c

theorem booted_scheduled (L : Layout) (m : Machine) (pageOwner : Word → Word) :
    Scheduled (absFunction pageOwner (booted L m)) := by
  have hnext : (bootProcs L m.procs PID_IDLE).next = PID_IDLE :=
    congrArg Proc.next (bootProcs_idle L m.procs)
  refine ⟨[], ⟨List.nodup_singleton _, ?_⟩, ?_⟩
  · rw [List.rotate_singleton]
    show [(bootProcs L m.procs PID_IDLE).next] = [PID_IDLE]
    rw [hnext]
  · intro pid
    rw [booted_runningPids, Finset.mem_singleton, List.mem_singleton]
    rfl

/-- The number of entries of the cycle is the number of running processes. -/
theorem length_eq_card {s : State} {l : List Word} (hring : RoundRobin s.procNext (s.currentPid :: l))
    (hmem : ∀ pid, pid ∈ s.currentPid :: l ↔ pid ∈ s.runningPids) :
    (s.currentPid :: l).length = s.runningPids.card := by
  have heq : (s.currentPid :: l).toFinset = s.runningPids := by
    ext pid
    rw [List.mem_toFinset]
    exact hmem pid
  rw [← heq, List.toFinset_card_of_nodup hring.nodup]

/-! ## Runs in which every process only yields -/

/-- A process that gets control computes something and then yields. -/
def yieldEvents (rs : List (PtRegs × (SavedCsr → Word))) : List Event :=
  rs.flatMap (fun r => [.run (Function.update r.1 .a7 NR_yield) r.2, .ecall])

/-- The table stays as it is and the current pid moves along the `next` pointers. -/
theorem specRun_yieldEvents (L : Layout) (rs : List (PtRegs × (SavedCsr → Word))) :
    ∀ s : State,
      (specRun L s ((yieldEvents rs).map Event.choice)).procNext = s.procNext ∧
        (specRun L s ((yieldEvents rs).map Event.choice)).currentPid
          = s.procNext^[rs.length] s.currentPid := by
  induction rs with
  | nil =>
      intro s
      exact ⟨rfl, rfl⟩
  | cons r rs ih =>
      intro s
      -- the registers are set up for a yield, so the trap is one
      have hstep : specRun L s ((yieldEvents (r :: rs)).map Event.choice)
          = specRun L (specSysYield (advanceMepc (specWriteRegs s
              ⟨Function.update r.1 .a7 NR_yield, fun c => r.2 c &&& c.toCsr.mask⟩)))
            ((yieldEvents rs).map Event.choice) := by
        simp only [yieldEvents, List.flatMap_cons, List.cons_append, List.nil_append, List.map_cons,
          specRun_cons, Event.choice, specStep, specStepTrap]
        rfl
      rw [hstep]
      rcases ih (specSysYield (advanceMepc (specWriteRegs s
        ⟨Function.update r.1 .a7 NR_yield, fun c => r.2 c &&& c.toCsr.mask⟩))) with ⟨hnext, hcur⟩
      refine ⟨hnext, ?_⟩
      rw [hcur, List.length_cons, Function.iterate_succ_apply]
      rfl

/-! ## The code -/

/-- The next pointers of the machine's process table. -/
def nextPid (m : Machine) (pid : Word) : Word :=
  (m.procs pid).next

/-- Following `next` from the current pid visits every running process exactly once before the
current pid recurs, and never a free process or pid 0. -/
structure SingleCycle (m : Machine) : Prop where
  staysRunning : ∀ k, pidValid ((nextPid m)^[k] m.currentPid) ∧
    (nextPid m)^[k] m.currentPid ∈ runningPids m
  visitsOnce : ∀ pid ∈ runningPids m, ∃! k, k < (runningPids m).card ∧
    (nextPid m)^[k] m.currentPid = pid
  recurs : ∀ k, (nextPid m)^[k] m.currentPid = m.currentPid ↔ (runningPids m).card ∣ k

/-- In every window of as many steps as there are running processes, each of them is met once. -/
theorem Scheduled.existsUnique_window {m : Machine} {pageOwner : Word → Word}
    (h : Scheduled (absFunction pageOwner m)) (w : Nat) {pid : Word} (hpid : pid ∈ runningPids m) :
    ∃! j, (w ≤ j ∧ j < w + (runningPids m).card) ∧ (nextPid m)^[j] m.currentPid = pid := by
  rcases h with ⟨l, hring, hmem⟩
  have hlen : (m.currentPid :: l).length = (runningPids m).card := length_eq_card hring hmem
  rw [← hlen]
  exact hring.existsUnique_window ((hmem pid).mpr hpid) w

theorem Scheduled.singleCycle {m : Machine} {pageOwner : Word → Word}
    (h : Scheduled (absFunction pageOwner m)) (hquota : QuotaInvariants (absFunction pageOwner m)) :
    SingleCycle m := by
  have hvisits : ∀ pid ∈ runningPids m, ∃! k, k < (runningPids m).card ∧
      (nextPid m)^[k] m.currentPid = pid := by
    intro pid hpid
    simpa only [Nat.zero_le, true_and, Nat.zero_add] using h.existsUnique_window 0 hpid
  rcases h with ⟨l, hring, hmem⟩
  have hlen : (m.currentPid :: l).length = (runningPids m).card := length_eq_card hring hmem
  refine ⟨?_, hvisits, ?_⟩
  · intro k
    have hrun : (nextPid m)^[k] m.currentPid ∈ (absFunction pageOwner m).runningPids :=
      (hmem _).mp (hring.iterate_mem k)
    rcases State.mem_runningPids.mp hrun with ⟨hlt, hrunnable⟩
    refine ⟨⟨?_, hlt⟩, hrun⟩
    -- slot 0 is never used
    have hzero : (nextPid m)^[k] m.currentPid ≠ 0 := fun h0 => hquota.zeroFree (h0 ▸ hrunnable)
    bv_omega
  · intro k
    rw [← hlen]
    exact hring.iterate_eq_self_iff k

/-- The `next` pointers form a single cycle in every reachable state.  Hence, from there on, if
every process that gets control only yields, each running process is scheduled exactly once in every
window of as many yields as there are running processes. -/
theorem next_single_cycle (L : Layout) (m₀ : Machine) :
    ∃ mb, resume (boot L m₀) = some mb ∧
      ∀ evs, ∃ m, runEvents L mb evs = some m ∧ SingleCycle m ∧
        ∀ rs : Nat → PtRegs × (SavedCsr → Word), ∃ ms : Nat → Machine,
          (∀ j, runEvents L m (yieldEvents ((List.range j).map rs)) = some (ms j)) ∧
            ∀ w, ∀ pid ∈ runningPids m,
              ∃! j, (w ≤ j ∧ j < w + (runningPids m).card) ∧ (ms j).currentPid = pid := by
  refine ⟨booted L m₀, boot_eq_booted L m₀, ?_⟩
  intro evs
  rcases runEvents_booted L m₀ evs with ⟨m, pageOwner, hrun, hinv, habs, hquota⟩
  have hsched : Scheduled (absFunction pageOwner m) := by
    rw [habs]
    exact specRun_induction (fun s c hs => hs.specStep L c) _ (booted_scheduled L m₀ _)
  refine ⟨m, hrun, hsched.singleCycle hquota, ?_⟩
  intro rs
  have hyields : ∀ j, ∃ m', runEvents L m (yieldEvents ((List.range j).map rs)) = some m' ∧
      m'.currentPid = (nextPid m)^[j] m.currentPid := by
    intro j
    rcases runEvents_simulates L (yieldEvents ((List.range j).map rs)) hinv pageOwner with
      ⟨m', pageOwner', hrun', _, habs'⟩
    have hcur := (specRun_yieldEvents L ((List.range j).map rs) (absFunction pageOwner m)).2
    rw [← habs', List.length_map, List.length_range] at hcur
    exact ⟨m', hrun', hcur⟩
  choose ms hms hcur using hyields
  refine ⟨ms, hms, ?_⟩
  intro w pid hpid
  simpa only [hcur] using hsched.existsUnique_window w hpid

end Certikos
end Serval
