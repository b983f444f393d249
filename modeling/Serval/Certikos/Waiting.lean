import Serval.Certikos.Schedule

/-!
# Waiting — every running process gets its turn

A yield takes a process one place forward in the cycle.  A spawn puts the child right behind the parent, and so one
place in front of everyone else, but it also takes one of the free pids, and no pid becomes free again.  So the place
of a process together with the number of free pids bounds the yields until its turn, whatever the others do.
-/

namespace Serval
namespace Certikos

open Riscv

/-! ## Places in the cycle -/

/-- The number of pids that can run: all but 0. -/
def usablePids : Nat := 63

/-- The turn of `pid` comes within `k` yields: its place in the cycle and the free pids, together. -/
def DueWithin (s : State) (pid : Word) (k : Nat) : Prop :=
  ∃ l i, RoundRobin s.procNext (s.currentPid :: l) ∧ (∀ p, p ∈ s.currentPid :: l ↔ p ∈ s.runningPids) ∧
    (s.currentPid :: l)[i]? = some pid ∧ i + (usablePids - s.runningPids.card) ≤ k

section Due

variable {L : Layout} {s t : State} {pid : Word} {k : Nat}

theorem card_runningPids_le (hzero : ¬ s.procRunnable 0) : s.runningPids.card ≤ usablePids := by
  have hsubset : s.runningPids ⊆ (Finset.Icc 1 63).image (BitVec.ofNat 64) := by
    intro p hp
    rcases State.mem_runningPids.mp hp with ⟨hlt, hrun⟩
    have hne : p ≠ 0 := fun h0 => hzero (h0 ▸ hrun)
    refine Finset.mem_image.mpr ⟨p.toNat, Finset.mem_Icc.mpr ⟨?_, ?_⟩, by simp⟩
    · exact Nat.pos_of_ne_zero fun h0 => hne (BitVec.eq_of_toNat_eq h0)
    · exact Nat.le_of_lt_succ hlt
  calc s.runningPids.card
      ≤ ((Finset.Icc 1 63).image (BitVec.ofNat 64)).card := Finset.card_le_card hsubset
    _ ≤ (Finset.Icc 1 63).card := Finset.card_image_le
    _ = usablePids := rfl

/-- Nobody waits for more than 62 yields. -/
theorem Scheduled.dueWithin (h : Scheduled s) (hzero : ¬ s.procRunnable 0) (hrun : pid ∈ s.runningPids) :
    DueWithin s pid 62 := by
  rcases h with ⟨l, hring, hmem⟩
  rcases List.mem_iff_getElem?.mp ((hmem pid).mpr hrun) with ⟨i, hi⟩
  have hlt := (List.getElem?_eq_some_iff.mp hi).1
  have hcard := card_runningPids_le hzero
  rw [length_eq_card hring hmem] at hlt
  refine ⟨l, i, hring, hmem, hi, ?_⟩
  rw [usablePids] at hcard ⊢
  omega

/-- Who is due now has the hart. -/
theorem DueWithin.current (h : DueWithin s pid 0) : s.currentPid = pid := by
  rcases h with ⟨l, i, _, _, hi, hle⟩
  have hfirst : i = 0 := by omega
  subst hfirst
  exact Option.some.inj hi

theorem DueWithin.of_sameTable (h : DueWithin s pid k) (heq : SameTable s t) : DueWithin t pid k := by
  rcases h with ⟨l, i, hring, hmem, hi, hle⟩
  have hrunning : t.runningPids = s.runningPids := by
    ext p
    simp only [State.mem_runningPids, State.procRunnable, heq.procState]
  refine ⟨l, i, ?_, ?_, ?_, ?_⟩
  · rw [heq.procNext, heq.currentPid]
    exact hring
  · rw [heq.currentPid, hrunning]
    exact hmem
  · rw [heq.currentPid]
    exact hi
  · rw [hrunning]
    exact hle

theorem DueWithin.specSysYield (h : DueWithin s pid (k + 1)) (hne : s.currentPid ≠ pid) :
    DueWithin (specSysYield s) pid k := by
  rcases h with ⟨l, i, hring, hmem, hi, hle⟩
  have hrotate : (s.currentPid :: l).rotate 1 = s.procNext s.currentPid :: l.map s.procNext := by
    rw [← hring.step, List.map_cons]
  have hring' := hring.rotate 1
  cases i with
  | zero => exact absurd (Option.some.inj hi) hne
  | succ i =>
      -- every other place is one further up
      have hplace : ((s.currentPid :: l).rotate 1)[i]? = some pid := by
        have hlt := (List.getElem?_eq_some_iff.mp hi).1
        have hrest : l[i]? = some pid := hi
        rw [List.rotate_cons_succ, List.rotate_zero, List.getElem?_append_left (by simpa using hlt)]
        exact hrest
      rw [hrotate] at hring' hplace
      refine ⟨l.map s.procNext, i, hring', fun p => ?_, hplace, ?_⟩
      · show p ∈ s.procNext s.currentPid :: l.map s.procNext ↔ p ∈ s.runningPids
        rw [← hrotate, List.mem_rotate]
        exact hmem p
      · show i + (usablePids - s.runningPids.card) ≤ k
        omega

/-- The child takes a place in front of `pid`, and a free pid. -/
theorem DueWithin.specSpawnChild {fileid quota child : Word} (h : DueWithin s pid k) (hok : SpawnOk s quota child)
    (hzero : ¬ s.procRunnable 0) (hne : s.currentPid ≠ pid) :
    DueWithin (specSpawnChild L s fileid quota child) pid k := by
  rcases h with ⟨l, i, hring, hmem, hi, hle⟩
  have hnew : child ∉ s.runningPids := by
    rw [State.mem_runningPids]
    exact fun hrun => hok.not_procRunnable hrun.2
  have hchild : child ∉ s.currentPid :: l := by
    rw [hmem]
    exact hnew
  have hrunning : (Certikos.specSpawnChild L s fileid quota child).runningPids = insert child s.runningPids :=
    specSpawnChild_runningPids hok
  have hcard : (Certikos.specSpawnChild L s fileid quota child).runningPids.card = s.runningPids.card + 1 := by
    rw [hrunning, Finset.card_insert_of_notMem hnew]
  have hroom : s.runningPids.card + 1 ≤ usablePids := by
    rw [← hcard]
    refine card_runningPids_le ?_
    have hchild0 : (0 : Word) ≠ child := fun h0 => absurd (h0 ▸ hok.2.1) (by decide)
    rw [State.procRunnable]
    show ¬ Function.update s.procState child _ 0 = _
    rw [Function.update_of_ne hchild0]
    exact hzero
  cases i with
  | zero => exact absurd (Option.some.inj hi) hne
  | succ i =>
      refine ⟨child :: l, i + 2, hring.insert hchild, fun p => ?_, hi, ?_⟩
      · rw [hrunning, Finset.mem_insert, ← hmem]
        show p ∈ s.currentPid :: child :: l ↔ _
        simp only [List.mem_cons]
        tauto
      · rw [hcard]
        omega

end Due

/-! ## One step -/

/-- The step is a yield of the current process. -/
def Choice.isYield (s : State) : Choice → Bool
  | .syscall => s.regs.gpr .a7 = NR_yield
  | _ => false

/-- A step of the others brings `pid` closer if it is a yield, and never takes it further away. -/
theorem DueWithin.specStep {s : State} {pid : Word} {k : Nat} (L : Layout) (h : DueWithin s pid (k + 1))
    (hzero : ¬ s.procRunnable 0) (hne : s.currentPid ≠ pid) (c : Choice) :
    DueWithin (specStep L s c) pid (if c.isYield s then k else k + 1) := by
  cases c with
  | syscall =>
      have hadv := h.of_sameTable (advanceMepc_sameTable s)
      rw [Certikos.specStep]
      by_cases hcall : s.regs.gpr .a7 = NR_yield
      · have hstep : specStepTrap L s = Certikos.specSysYield (advanceMepc s) := by
          have hspawn : ¬ NR_yield = NR_spawn := by decide
          simp only [specStepTrap, hcall, hspawn, if_false, if_true]
        rw [hstep, Choice.isYield, decide_eq_true hcall, if_pos rfl]
        exact hadv.specSysYield hne
      · rw [Choice.isYield, decide_eq_false hcall, if_neg Bool.false_ne_true]
        rcases specStepTrap_cases L s with ⟨regs, heq⟩ | ⟨habs, _⟩ | ⟨fileid, quota, child, hok, heq⟩
        · rw [heq]
          exact h.of_sameTable (specWriteRegs_sameTable s regs)
        · exact absurd habs hcall
        · rw [heq]
          exact (hadv.specSpawnChild hok hzero hne).of_sameTable (specReturn_sameTable _ _)
  | write page off value => exact h.of_sameTable (specWrite_sameTable s page off value)
  | read page off => exact h.of_sameTable (specRead_sameTable s page off)
  | havocRegs regs => exact h.of_sameTable (specWriteRegs_sameTable s regs)

/-! ## Runs -/

/-- The event is a yield of the current process. -/
def Event.isYield (m : Machine) : Event → Bool
  | .ecall => m.regs .a7 = NR_yield
  | _ => false

/-- The number of yields in a run. -/
def yieldCount (L : Layout) : Machine → List Event → Nat
  | _, [] => 0
  | m, e :: es =>
      match m.step L e with
      | some m' => (if e.isYield m then 1 else 0) + yieldCount L m' es
      | none => 0

theorem isYield_choice (m : Machine) (pageOwner : Word → Word) (e : Event) :
    e.choice.isYield (absFunction pageOwner m) = e.isYield m := by
  cases e <;> rfl

/-- As many yields as a process may have to wait for bring its turn. -/
theorem exists_turn (L : Layout) {m : Machine} {pageOwner : Word → Word} {pid : Word} {k : Nat} {es : List Event}
    (hinv : MregionsInvariants m) (hquota : QuotaInvariants (absFunction pageOwner m))
    (hdue : DueWithin (absFunction pageOwner m) pid k) (hk : k ≤ yieldCount L m es) :
    ∃ first m', first <+: es ∧ runEvents L m first = some m' ∧ m'.currentPid = pid := by
  induction es generalizing m pageOwner k with
  | nil =>
      have hzero : k = 0 := Nat.le_zero.mp hk
      subst hzero
      exact ⟨[], m, List.prefix_rfl, rfl, hdue.current⟩
  | cons e es ih =>
      by_cases hcur : m.currentPid = pid
      · exact ⟨[], m, List.nil_prefix, rfl, hcur⟩
      cases k with
      | zero => exact absurd hdue.current hcur
      | succ k =>
          rcases step_simulates L hinv pageOwner e with ⟨m₁, pageOwner₁, hstep, hinv₁, habs⟩
          have hdue₁ := hdue.specStep L hquota.zeroFree hcur e.choice
          rw [← habs, isYield_choice] at hdue₁
          rw [yieldCount, hstep] at hk
          have hk₁ : (if e.isYield m then k else k + 1) ≤ yieldCount L m₁ es := by
            simp only at hk
            split_ifs at hk ⊢ <;> omega
          rcases ih hinv₁ (habs ▸ hquota.specStep L e.choice) hdue₁ hk₁ with ⟨first, m', hprefix, hrun, hturn⟩
          refine ⟨e :: first, m', (List.prefix_cons_inj e).mpr hprefix, ?_, hturn⟩
          rw [runEvents, hstep]
          exact hrun

/-- No process starves: in every run from a reachable state, a process that runs gets the hart within 62 yields,
whatever system calls the processes make in between and however many they spawn. -/
theorem no_starvation (L : Layout) (m₀ : Machine) :
    ∃ mb, resume (boot L m₀) = some mb ∧
      ∀ evs, ∃ m, runEvents L mb evs = some m ∧
        ∀ pid ∈ runningPids m, ∀ es, 62 ≤ yieldCount L m es →
          ∃ first m', first <+: es ∧ runEvents L m first = some m' ∧ m'.currentPid = pid := by
  refine ⟨booted L m₀, boot_eq_booted L m₀, fun evs => ?_⟩
  rcases runEvents_booted L m₀ evs with ⟨m, pageOwner, hrun, hinv, habs, hquota⟩
  have hsched : Scheduled (absFunction pageOwner m) := by
    rw [habs]
    exact specRun_induction (fun s c hs => hs.specStep L c) _ (booted_scheduled L m₀ _)
  refine ⟨m, hrun, fun pid hpid es hes => ?_⟩
  exact exists_turn L hinv hquota (hsched.dueWithin hquota.zeroFree hpid) hes

end Certikos
end Serval
