import Serval.Certikos.Observation
import Serval.Certikos.Boot

/-!
# Isolation — a process cannot tell what the others do

Two runs in which process `u` makes the same choices, while all other processes may do different
things for different numbers of steps.  Between two stretches of its own steps, `u` is related to
itself through its *context*: the live registers while it runs, the saved ones while it does not.
The runs are aligned on the steps of `u`: a step of another process is invisible to `u` on either
side, and a step of `u` is the same on both.
-/

namespace Serval
namespace Certikos
namespace Ni

open Riscv

instance (u : Word) (s : State) : Decidable (active u s) :=
  inferInstanceAs (Decidable (_ = _))

/-- The relation of `verif/ni.rkt`. -/
structure Unwinding (u : Word) (s t : State) : Prop extends ProcView u s t where
  savedRegs : s.savedRegs u = t.savedRegs u
  active : active u s ↔ active u t
  regs : Certikos.active u s → s.regs = t.regs

/-- The choices made while `u` is current, along a run. -/
def ownChoices (L : Layout) (u : Word) : State → List Choice → List Choice
  | _, [] => []
  | s, c :: cs =>
      if active u s then
        c :: ownChoices L u (specStep L s c) cs
      else
        ownChoices L u (specStep L s c) cs

/-! ## Contexts -/

/-- The registers of `u`, live or saved. -/
def context (u : Word) (s : State) : Regs :=
  if active u s then s.regs else s.savedRegs u

/-- What relates the two runs whether or not `u` runs in them. -/
structure Aligned (u : Word) (s t : State) : Prop extends ProcView u s t where
  savedRegs : s.savedRegs u = t.savedRegs u
  context : context u s = context u t

theorem Aligned.symm {u : Word} {s t : State} (h : Aligned u s t) : Aligned u t s :=
  ⟨h.toProcView.symm, h.savedRegs.symm, h.context.symm⟩

theorem Aligned.trans {u : Word} {s t r : State} (hst : Aligned u s t) (htr : Aligned u t r) :
    Aligned u s r :=
  ⟨hst.toProcView.trans htr.toProcView, hst.savedRegs.trans htr.savedRegs,
    hst.context.trans htr.context⟩

/-! ## Steps of the other processes -/

section Others

variable {L : Layout} {u : Word} {s : State}

/-- A step that changes neither the current pid nor saved registers is seen through `ProcView`. -/
theorem aligned_of_view {s' : State} (hidle : ¬ active u s) (hview : ProcView u s s')
    (hcur : s'.currentPid = s.currentPid) (hsaved : s'.savedRegs u = s.savedRegs u) :
    Aligned u s s' := by
  have hidle' : ¬ active u s' := by
    rw [active, hcur]
    exact hidle
  refine ⟨hview, hsaved.symm, ?_⟩
  rw [context, context, if_neg hidle, if_neg hidle', hsaved]

/-- A switch away from another process saves that process and may resume `u`, with the registers
saved for it. -/
theorem specSysYield_aligned (hidle : ¬ active u s) : Aligned u s (specSysYield s) := by
  have hsaved : (specSysYield s).savedRegs u = s.savedRegs u := Function.update_of_ne hidle _ _
  refine ⟨(specSysYield_sameProcs s).view u, hsaved.symm, ?_⟩
  rw [context, context, if_neg hidle]
  by_cases hact : active u (specSysYield s)
  · rw [if_pos hact, ← hsaved]
    show (specSysYield s).savedRegs u = (specSysYield s).savedRegs (specSysYield s).currentPid
    rw [← hact]
  · rw [if_neg hact, hsaved]

/-- Integrity: what another process does is invisible to `u`. -/
theorem specStep_aligned_other (hs : SpecInvariants s) (hu : pidValid u) (hrun : s.procRunnable u)
    (hidle : ¬ active u s) (c : Choice) : Aligned u s (specStep L s c) := by
  have hregs : ∀ regs, Aligned u s (specWriteRegs s regs) := fun regs =>
    aligned_of_view hidle ((specWriteRegs_sameProcs s regs).view u) rfl rfl
  cases c with
  | syscall =>
      rw [specStep]
      rcases specStepTrap_cases L s with ⟨regs, heq⟩ | ⟨_, heq⟩ | ⟨fileid, quota, pid, hok, heq⟩
      · rw [heq]
        exact hregs regs
      · rw [heq]
        have hadv : Aligned u s (advanceMepc s) := hregs _
        exact hadv.trans (specSysYield_aligned (s := advanceMepc s) hidle)
      · -- a running process is not the child of a spawn
        have hadv : SpecInvariants (advanceMepc s) := hs.of_sameTable (advanceMepc_sameTable s)
        have hne : u ≠ pid := fun h => hok.not_procRunnable (h ▸ hrun)
        have hview : ProcView u (advanceMepc s)
            (specSpawnChild L (advanceMepc s) fileid quota pid) :=
          specSpawnChild_view_other hadv hok hu hidle hne
        rw [heq]
        refine aligned_of_view hidle ?_ rfl ?_
        · exact ((specWriteRegs_sameProcs s _).view u).trans
            (hview.trans ((specWriteRegs_sameProcs _ _).view u))
        · show Function.update s.savedRegs pid _ u = s.savedRegs u
          rw [Function.update_of_ne hne]
  | write page off value =>
      have htable := specWrite_sameTable s page off value
      have hsaved := (specWrite_regs s page off value).2
      exact aligned_of_view hidle (specWrite_view_other hs hu hidle page off value)
        htable.currentPid (congrFun hsaved u)
  | read page off =>
      rw [specStep, specRead]
      split
      · exact hregs _
      · exact hregs s.regs
  | havocRegs regs =>
      exact hregs regs

end Others

/-! ## Steps of the process itself -/

section Own

variable {L : Layout} {u : Word} {s t : State}

theorem context_of_active (hact : active u s) : context u s = s.regs := if_pos hact

theorem Aligned.regs (h : Aligned u s t) (hs : active u s) (ht : active u t) : s.regs = t.regs := by
  have hcontext := h.context
  rwa [context_of_active hs, context_of_active ht] at hcontext

theorem Aligned.specWriteRegs (h : Aligned u s t) (hs : active u s) (ht : active u t) (r : Regs) :
    Aligned u (specWriteRegs s r) (specWriteRegs t r) := by
  refine ⟨?_, h.savedRegs, ?_⟩
  · exact h.toProcView.of_sameProcs (specWriteRegs_sameProcs s r) (specWriteRegs_sameProcs t r)
  · rw [context_of_active (s := Certikos.specWriteRegs s r) hs,
      context_of_active (s := Certikos.specWriteRegs t r) ht]
    rfl

/-- After its own yield the context of `u` is what its registers were, also when it is its own
successor. -/
theorem context_specSysYield (hact : active u s) : context u (specSysYield s) = s.regs := by
  have hsaved : (specSysYield s).savedRegs u = s.regs := by
    show Function.update s.savedRegs s.currentPid s.regs u = s.regs
    rw [hact, Function.update_self]
  rw [context]
  split
  · rename_i hact'
    show (specSysYield s).savedRegs (specSysYield s).currentPid = s.regs
    rw [← hact', hsaved]
  · exact hsaved

variable (h : Aligned u s t)

include h

theorem Aligned.specSysYield (hs : active u s) (ht : active u t) : Aligned u (specSysYield s) (specSysYield t) := by
  have hregs := h.regs hs ht
  refine ⟨?_, ?_, ?_⟩
  · exact h.toProcView.of_sameProcs (specSysYield_sameProcs s) (specSysYield_sameProcs t)
  · show Function.update s.savedRegs s.currentPid s.regs u
      = Function.update t.savedRegs t.currentPid t.regs u
    rw [← hs, ← ht, Function.update_self, Function.update_self, hregs]
  · rw [context_specSysYield hs, context_specSysYield ht, hregs]

/-- The process sees whether its spawn succeeds. -/
theorem Aligned.spawnOk_iff (hs : active u s) (ht : active u t) (quota pid : Word) :
    SpawnOk s quota pid ↔ SpawnOk t quota pid := by
  have hs' : s.currentPid = u := hs.symm
  have ht' : t.currentPid = u := ht.symm
  simp only [SpawnOk, hs', ht', h.upper, h.lower]
  constructor
  · rintro ⟨hquota, hvalid, howner, hfree⟩
    exact ⟨hquota, hvalid, (h.children pid hvalid).mp howner,
      (h.childState pid hvalid howner).symm.trans hfree⟩
  · rintro ⟨hquota, hvalid, howner, hfree⟩
    have howner' := (h.children pid hvalid).mpr howner
    exact ⟨hquota, hvalid, howner', (h.childState pid hvalid howner').trans hfree⟩

theorem Aligned.specSysSpawn (hinv : SpecInvariants s) (hs : active u s) (ht : active u t) (fileid quota pid : Word) :
    Aligned u (specSysSpawn L s fileid quota pid) (specSysSpawn L t fileid quota pid) := by
  have hregs := h.regs hs ht
  have hcur : t.currentPid = s.currentPid := ht.symm.trans hs
  by_cases hok : SpawnOk s quota pid
  · rw [specSysSpawn_of_ok hok, specSysSpawn_of_ok ((h.spawnOk_iff hs ht quota pid).mp hok)]
    have hupper : t.procUpper s.currentPid = s.procUpper s.currentPid := by
      rw [← hs, h.upper]
    have hnext : t.procNext s.currentPid = s.procNext s.currentPid := by
      rw [← hs, h.next]
    have hchild : Aligned u (specSpawnChild L s fileid quota pid)
        (specSpawnChild L t fileid quota pid) := by
      refine ⟨h.toProcView.specSpawnChild hinv.toTableInvariants hok hcur hupper hnext, ?_, ?_⟩
      · simp only [specSpawnChild, hcur, hupper, Function.update_apply, h.savedRegs]
      · rw [context_of_active (s := specSpawnChild L s fileid quota pid) hs,
          context_of_active (s := specSpawnChild L t fileid quota pid) ht]
        exact hregs
    have hret := hchild.specWriteRegs hs ht (s.regs.setGpr .a0 0)
    show Aligned u (Certikos.specWriteRegs _ (s.regs.setGpr .a0 0))
      (Certikos.specWriteRegs _ (t.regs.setGpr .a0 0))
    rw [← hregs]
    exact hret
  · rw [specSysSpawn_of_not_ok hok,
      specSysSpawn_of_not_ok (fun hbad => hok ((h.spawnOk_iff hs ht quota pid).mpr hbad))]
    show Aligned u (Certikos.specWriteRegs _ (s.regs.setGpr .a0 (-EINVAL)))
      (Certikos.specWriteRegs _ (t.regs.setGpr .a0 (-EINVAL)))
    rw [← hregs]
    exact h.specWriteRegs hs ht _

theorem Aligned.specStepTrap (hinv : SpecInvariants s) (hs : active u s) (ht : active u t) :
    Aligned u (specStepTrap L s) (specStepTrap L t) := by
  have hregs := h.regs hs ht
  have hinv' : SpecInvariants (advanceMepc s) := hinv.of_sameTable (advanceMepc_sameTable s)
  have hadv : Aligned u (advanceMepc s) (advanceMepc t) := by
    show Aligned u (Certikos.specWriteRegs s _) (Certikos.specWriteRegs t _)
    rw [← hregs]
    exact h.specWriteRegs hs ht _
  have hret : ∀ v v', v = v' →
      Aligned u (specReturn (advanceMepc s) v) (specReturn (advanceMepc t) v') := by
    rintro v _ rfl
    have hregs' : (advanceMepc s).regs = (advanceMepc t).regs := hadv.regs hs ht
    show Aligned u (Certikos.specWriteRegs _ ((advanceMepc s).regs.setGpr .a0 v))
      (Certikos.specWriteRegs _ ((advanceMepc t).regs.setGpr .a0 v))
    rw [← hregs']
    exact hadv.specWriteRegs hs ht _
  simp only [Certikos.specStepTrap, ← hregs]
  split_ifs
  · exact hadv.specSysSpawn hinv' hs ht _ _ _
  · exact hadv.specSysYield hs ht
  · exact hret _ _ (hs.symm.trans ht)
  · apply hret
    show s.procUpper s.currentPid - s.procLower s.currentPid
      = t.procUpper t.currentPid - t.procLower t.currentPid
    rw [← hs, ← ht, h.upper, h.lower]
  · exact hret _ _ rfl

/-- Confidentiality: equal choices of `u` in aligned states lead to aligned states. -/
theorem Aligned.specStep (hinv : SpecInvariants s) (hs : active u s) (ht : active u t) (c : Choice) :
    Aligned u (specStep L s c) (specStep L t c) := by
  have hregs := h.regs hs ht
  have hreg : ∀ page, s.inRegion s.currentPid page ↔ t.inRegion t.currentPid page := by
    intro page
    rw [← hs, ← ht]
    exact h.inRegion_iff page
  cases c with
  | syscall =>
      exact h.specStepTrap hinv hs ht
  | write page off value =>
      rcases specWrite_regs s page off value with ⟨hsregs, hssaved⟩
      rcases specWrite_regs t page off value with ⟨htregs, htsaved⟩
      have hs' : active u (specWrite s page off value) := by
        rw [active, (specWrite_sameTable s page off value).currentPid]
        exact hs
      have ht' : active u (specWrite t page off value) := by
        rw [active, (specWrite_sameTable t page off value).currentPid]
        exact ht
      refine ⟨h.toProcView.specWrite hreg page off value, ?_, ?_⟩
      · rw [Certikos.specStep, Certikos.specStep, hssaved, htsaved, h.savedRegs]
      · rw [Certikos.specStep, Certikos.specStep, context_of_active hs', context_of_active ht',
          hsregs, htregs, hregs]
  | read page off =>
      rw [Certikos.specStep, Certikos.specStep, specRead, specRead]
      by_cases hok : s.inRegion s.currentPid page ∧ poffsetValid off
      · have hok' : t.inRegion t.currentPid page ∧ poffsetValid off :=
          ⟨(hreg page).mp hok.1, hok.2⟩
        have hbyte : s.pages page off = t.pages page off :=
          h.pages page off (by rw [hs]; exact hok.1) hok.2
        rw [if_pos hok, if_pos hok', ← hregs, ← hbyte]
        exact h.specWriteRegs hs ht _
      · rw [if_neg hok, if_neg (fun hbad => hok ⟨(hreg page).mpr hbad.1, hbad.2⟩)]
        exact h
  | havocRegs regs =>
      exact h.specWriteRegs hs ht regs

end Own

/-! ## Runs -/

section Runs

variable {L : Layout} {u : Word}

theorem ownChoices_append (cs cs' : List Choice) :
    ∀ s : State, ownChoices L u s (cs ++ cs')
      = ownChoices L u s cs ++ ownChoices L u (specRun L s cs) cs' := by
  induction cs with
  | nil =>
      intro s
      rfl
  | cons c cs ih =>
      intro s
      by_cases hact : active u s
      · simp [ownChoices, hact, ih]
      · simp [ownChoices, hact, ih]

/-- Runs with the same steps of `u` end in aligned states.  The induction is on the steps of both
runs together: a step of another process is taken on its own side, and only when `u` is next on both
sides, or finished, do the two runs move together. -/
theorem Aligned.specRun :
    ∀ (n : Nat) {s t : State} {cs₁ cs₂ : List Choice}, cs₁.length + cs₂.length ≤ n →
      pidValid u → SpecInvariants s → SpecInvariants t → s.procRunnable u → t.procRunnable u →
      Aligned u s t → ownChoices L u s cs₁ = ownChoices L u t cs₂ →
      Aligned u (specRun L s cs₁) (specRun L t cs₂) := by
  intro n
  induction n with
  | zero =>
      intro s t cs₁ cs₂ hlen _ _ _ _ _ h _
      have h₁ : cs₁ = [] := List.length_eq_zero_iff.mp (by omega)
      have h₂ : cs₂ = [] := List.length_eq_zero_iff.mp (by omega)
      subst h₁ h₂
      exact h
  | succ n ih =>
      intro s t cs₁ cs₂ hlen hu hs ht hrunS hrunT h hown
      -- another process moves in the first run
      have hleft : ∀ c cs, cs₁ = c :: cs → ¬ active u s →
          Aligned u (Certikos.specRun L s cs₁) (Certikos.specRun L t cs₂) := by
        rintro c cs rfl hidle
        have hstep : Aligned u s (Certikos.specStep L s c) :=
          specStep_aligned_other hs hu hrunS hidle c
        rw [specRun_cons]
        refine ih (by simp at hlen; omega) hu (hs.specStep L c) ht
          (specStep_procRunnable L c hrunS) hrunT (hstep.symm.trans h) ?_
        rw [← hown, ownChoices, if_neg hidle]
      -- another process moves in the second run
      have hright : ∀ c cs, cs₂ = c :: cs → ¬ active u t →
          Aligned u (Certikos.specRun L s cs₁) (Certikos.specRun L t cs₂) := by
        rintro c cs rfl hidle
        have hstep : Aligned u t (Certikos.specStep L t c) :=
          specStep_aligned_other ht hu hrunT hidle c
        rw [specRun_cons]
        refine ih (by simp at hlen; omega) hu hs (ht.specStep L c) hrunS
          (specStep_procRunnable L c hrunT) (h.trans hstep) ?_
        rw [hown, ownChoices, if_neg hidle]
      cases cs₁ with
      | nil =>
          cases cs₂ with
          | nil =>
              exact h
          | cons c cs =>
              by_cases hact : active u t
              · rw [ownChoices, ownChoices, if_pos hact] at hown
                cases hown
              · exact hright c cs rfl hact
      | cons c₁ cs₁ =>
          by_cases hactS : active u s
          case neg =>
            exact hleft c₁ cs₁ rfl hactS
          cases cs₂ with
          | nil =>
              rw [ownChoices, ownChoices, if_pos hactS] at hown
              cases hown
          | cons c₂ cs₂ =>
              by_cases hactT : active u t
              case neg =>
                exact hright c₂ cs₂ rfl hactT
              rw [ownChoices, ownChoices, if_pos hactS, if_pos hactT] at hown
              rcases List.cons.inj hown with ⟨rfl, hown'⟩
              rw [specRun_cons, specRun_cons]
              exact ih (by simp at hlen; omega) hu (hs.specStep L c₁) (ht.specStep L c₁)
                (specStep_procRunnable L c₁ hrunS) (specStep_procRunnable L c₁ hrunT)
                (h.specStep hs hactS hactT c₁) hown'

end Runs

/-- Process isolation over two runs: if `u` is current and sees the same in both start states and
makes the same choices in both runs, then whenever it is current in both after the same number of
its own steps, it again sees the same. -/
theorem same_own_choices_unwinding (L : Layout) (u : Word) (s t : State)
    (hs : SpecInvariants s) (ht : SpecInvariants t) (hactS : active u s) (hactT : active u t)
    (h : Unwinding u s t) (cs₁ cs₂ : List Choice)
    (hown : ownChoices L u s cs₁ = ownChoices L u t cs₂)
    (p₁ p₂ : List Choice) (hp₁ : p₁ <+: cs₁) (hp₂ : p₂ <+: cs₂)
    (hk : (ownChoices L u s p₁).length = (ownChoices L u t p₂).length)
    (hact₁ : active u (specRun L s p₁)) (hact₂ : active u (specRun L t p₂)) :
    Unwinding u (specRun L s p₁) (specRun L t p₂) := by
  have hprefix : ownChoices L u s p₁ = ownChoices L u t p₂ := by
    rcases hp₁ with ⟨q₁, rfl⟩
    rcases hp₂ with ⟨q₂, rfl⟩
    rw [ownChoices_append, ownChoices_append] at hown
    exact (List.append_inj hown hk).1
  have halign : Aligned u s t := by
    refine ⟨h.toProcView, h.savedRegs, ?_⟩
    rw [context_of_active hactS, context_of_active hactT]
    exact h.regs hactS
  have hu : pidValid u := hactS ▸ hs.currentValid
  have hrunS : s.procRunnable u := hactS ▸ hs.currentRun
  have hrunT : t.procRunnable u := hactT ▸ ht.currentRun
  have hend : Aligned u (specRun L s p₁) (specRun L t p₂) :=
    Aligned.specRun _ (Nat.le_refl _) hu hs ht hrunS hrunT halign hprefix
  exact ⟨hend.toProcView, hend.savedRegs, iff_of_true hact₁ hact₂,
    fun _ => hend.regs hact₁ hact₂⟩

/-- The first process spawns process 4 and yields to it; the child yields back at once, or after it has
stored a byte and read it.  The first process then sees the same, in two states that differ. -/
theorem same_own_choices_unwinding_booted :
    ∃ L s start child₁ child₂, s = absFunction (fun _ => PID_IDLE) (booted L (resetMachine L)) ∧
      (specRun L s start).currentPid = 4 ∧ child₁.length = 2 ∧ child₂.length = 4 ∧
      Unwinding PID_IDLE (specRun L s (start ++ child₁)) (specRun L s (start ++ child₂)) ∧
      (specRun L s (start ++ child₁)).pages 250 0 ≠ (specRun L s (start ++ child₂)).pages 250 0 := by
  let L : Layout := ⟨0x80100000, 0x80200000, 0x80400000, 0x80000100, 0x80010000⟩
  let s := absFunction (fun _ => PID_IDLE) (booted L (resetMachine L))
  let call (nr quota pid : Word) : List Choice :=
    [.havocRegs (((zeroRegs.setGpr .a7 nr).setGpr .a1 quota).setGpr .a2 pid), .syscall]
  let start := call NR_spawn 16 4 ++ call NR_yield 0 0
  let child₁ := call NR_yield 0 0
  let child₂ := [.write 250 0 0xff, .read 250 0] ++ call NR_yield 0 0
  have hs : SpecInvariants s := booted_specInvariants L (resetMachine L)
  -- the choices of the child are not those of the first process
  have hown : ∀ child ∈ [child₁, child₂], ownChoices L PID_IDLE s (start ++ child) = ownChoices L PID_IDLE s start ∧
      active PID_IDLE (specRun L s (start ++ child)) := by
    have hquiet : ∀ child ∈ [child₁, child₂],
        (ownChoices L PID_IDLE (specRun L s start) child).length = 0 ∧
          active PID_IDLE (specRun L s (start ++ child)) := by
      decide +kernel
    intro child hchild
    rcases hquiet child hchild with ⟨hnone, hact⟩
    rw [ownChoices_append, List.length_eq_zero_iff.mp hnone, List.append_nil]
    exact ⟨rfl, hact⟩
  rcases hown child₁ (by simp) with ⟨hown₁, hact₁⟩
  rcases hown child₂ (by simp) with ⟨hown₂, hact₂⟩
  have hsame := hown₁.trans hown₂.symm
  refine ⟨L, s, start, child₁, child₂, rfl, by decide +kernel, rfl, rfl, ?_, by decide +kernel⟩
  exact same_own_choices_unwinding L PID_IDLE s s hs hs rfl rfl
    ⟨ProcView.refl _ _, rfl, Iff.rfl, fun _ => rfl⟩ (start ++ child₁) (start ++ child₂) hsame
    (start ++ child₁) (start ++ child₂) List.prefix_rfl List.prefix_rfl
    (congrArg List.length hsame) hact₁ hact₂

end Ni
end Certikos
end Serval
