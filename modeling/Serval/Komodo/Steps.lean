import Serval.Lib.Runs
import Serval.Komodo.Runs
import Serval.Komodo.Footprint

/-!
# Steps — what one event does to the state of the specification

An event changes registers only, or stores one word, or is a call of the host whose checks pass, or
leaves the running enclave, by its exit call or by a trap.  Everything about runs is read off these
cases.
-/

namespace Serval
namespace Komodo

open Riscv

variable {m m' : Machine} {L : Layout} {g : Ghost}

/-- What an event makes of the state of the specification. -/
inductive StateStep (L : Layout) (s : State) : Event → State → Prop
  -- ordinary execution, a store or a call that is refused, a trap that is not for the monitor
  | quiet (e : Event) (r : Regs) : StateStep L s e { s with regs := r }
  | insecureWrite (page off value : Word) :
      StateStep L s (.insecureWrite page off value)
        { s with insecurePages := updateCell s.insecurePages page off value }
  | enclaveWrite {page off : Word} (value : Word) (hmay : s.enclaveMay page off) :
      StateStep L s (.enclaveWrite page off value)
        { s with pages := updateCell s.pages page off value }
  | call {call : Smc} (hhost : s.enclaveMode = false) (hcall : Smc.ofRegs s.regs.gpr = some call)
      (hcheck : call.check s = none) :
      StateStep L s (.trap EXC_ECALL_S) (call.effect L (advanceMepc s))
  | exit (henclave : s.enclaveMode = true) (hexit : s.regs.gpr .a7 = KOM_SVC_EXIT) :
      StateStep L s (.trap EXC_ECALL_S)
        (specLeaveSecureWorld (setHostReturn (advanceMepc s) 0 (s.regs.gpr .a0))
          s.currentDispatcher false)
  | suspend {cause : Word} (henclave : s.enclaveMode = true) (hcause : cause ≠ EXC_ECALL_S) :
      StateStep L s (.trap cause)
        (specLeaveSecureWorld (setHostReturn s (trapError cause).val cause) s.currentDispatcher true)

/-- Moving past the `ecall` does not decide a call. -/
theorem check_advanceMepc (call : Smc) (s : State) : call.check (advanceMepc s) = call.check s := by
  cases call <;> rfl

theorem specSmcCall_stateStep (L : Layout) {s : State} (hhost : s.enclaveMode = false) :
    StateStep L s (.trap EXC_ECALL_S)
      (specSmcCall L (Smc.ofRegs s.regs.gpr) (advanceMepc s)) := by
  cases hcall : Smc.ofRegs s.regs.gpr with
  | none => exact .quiet _ _
  | some call =>
      rw [specSmcCall, specSmc_eq_guarded, check_advanceMepc]
      cases hcheck : call.check s with
      | some err => exact .quiet _ _
      | none => exact .call hhost hcall hcheck

theorem specTrap_stateStep (L : Layout) (cause : Word) (s : State) :
    StateStep L s (.trap cause) (specTrap L cause s) := by
  unfold specTrap
  by_cases hcause : cause = EXC_ECALL_S
  · subst hcause
    rw [if_pos rfl]
    cases hmode : s.enclaveMode with
    | false =>
        rw [specEcall_of_host L hmode]
        exact specSmcCall_stateStep L hmode
    | true =>
        by_cases hexit : s.regs.gpr .a7 = KOM_SVC_EXIT
        · rw [specEcall, if_pos hexit, specKomSvcExit_of_enclave _ hmode]
          exact .exit hmode hexit
        · rw [specEcall_of_enclave L hmode hexit]
          exact .quiet _ _
  · rw [if_neg hcause]
    cases hmode : s.enclaveMode with
    | false =>
        rw [specKomHandleTrap_of_host cause hmode]
        exact .quiet _ s.regs
    | true =>
        rw [specKomHandleTrap_of_enclave cause hmode]
        exact .suspend hmode hcause

/-- A call of the host, with what its checks say. -/
theorem specTrap_of_issued (L : Layout) {s : State} {call : Smc} (hhost : s.enclaveMode = false)
    (hcall : Smc.ofRegs s.regs.gpr = some call) :
    specTrap L EXC_ECALL_S s
      = guarded (advanceMepc s) (call.check s) (call.effect L (advanceMepc s)) := by
  rw [specTrap, if_pos rfl, specEcall_of_host L hhost, hcall, specSmcCall, specSmc_eq_guarded,
    check_advanceMepc]

/-- The stores of the running enclave, in the terms of the specification. -/
theorem enclaveMay_abs (hown : OwnershipInvariants (absFunction g m)) {page off : Word} (hmay : m.enclaveMay page off) :
    (absFunction g m).enclaveMay page off := by
  rcases hmay with ⟨hmode, hoff, hdata, howner⟩
  have hcur := (hown.enclave (decide_eq_true hmode)).2.2
  exact ⟨decide_eq_true hmode, hoff, hdata, howner.trans hcur.symm⟩

/-- Every event of the machine is one of these steps. -/
theorem step_stateStep {e : Event} (h : RunInvariants L m) (hown : OwnershipInvariants (absFunction g m))
    (hstep : m.step L e = some m') :
    ∃ g', StateStep L (absFunction g m) e (absFunction g' m') := by
  cases e with
  | run gpr csr =>
      cases hstep
      exact ⟨g, .quiet _ _⟩
  | trap cause =>
      rcases trap_implements L g h.mregions cause with ⟨m₁, hrun, _, himpl⟩
      cases hrun.symm.trans hstep
      refine ⟨(specTrap L cause (absFunction g m)).ghost, ?_⟩
      rw [himpl.abs]
      exact specTrap_stateStep L cause _
  | enclaveWrite page off value =>
      rw [Machine.step] at hstep
      split at hstep
      · next hmay =>
          cases hstep
          exact ⟨g, .enclaveWrite value (enclaveMay_abs hown hmay)⟩
      · cases hstep
        exact ⟨g, .quiet _ (absFunction g m).regs⟩
  | insecureWrite page off value =>
      rw [Machine.step] at hstep
      split at hstep
      · cases hstep
        exact ⟨g, .insecureWrite page off value⟩
      · cases hstep
        exact ⟨g, .quiet _ (absFunction g m).regs⟩

/-! ## Runs with a condition -/

/-- The state after an event satisfies the invariants. -/
theorem RunInvariants.of_step {e : Event} (h : RunInvariants L m) (hstep : m.step L e = some m') :
    RunInvariants L m' := by
  rcases step_runInvariants h e with ⟨m₁, hrun, h₁⟩
  cases hrun.symm.trans hstep
  exact h₁

theorem reachable_runInvariants {frame : PtRegs} {hartid dtb : Word} {m₀ : Machine} {es : List Event}
    (hreach : runEvents L (booted L frame hartid dtb m₀) es = some m) :
    RunInvariants L m := by
  rcases runEvents_runInvariants es (booted_runInvariants L frame hartid dtb m₀) with ⟨m', hrun, h⟩
  cases hrun.symm.trans hreach
  exact h

/-- What every admitted step of the specification keeps holds along a run of the machine.  The
property is about the stored components of the state. -/
theorem run_keeps {allowed : Machine → Event → Prop} {Q : State → Prop}
    (hghost : ∀ {g g' : Ghost} {m : Machine}, Q (absFunction g m) → Q (absFunction g' m))
    (hkeep : ∀ {m : Machine} {g : Ghost} {e : Event} {s' : State}, allowed m e → RunInvariants L m →
      OwnershipInvariants (absFunction g m) → StateStep L (absFunction g m) e s' → Q (absFunction g m) → Q s')
    {es : List Event} (hrun : RunIn (Machine.step L) allowed m es m') (h : RunInvariants L m)
    (hQ : Q (absFunction g m)) :
    RunInvariants L m' ∧ ∀ g', Q (absFunction g' m') := by
  refine hrun.invariant (I := fun m => RunInvariants L m ∧ ∀ g, Q (absFunction g m)) ?_
    ⟨h, fun _ => hghost hQ⟩
  rintro m e m₁ hallowed hstep ⟨hinv, hQ⟩
  rcases hinv.state with ⟨g, hown, _⟩
  rcases step_stateStep hinv hown hstep with ⟨g', hspec⟩
  exact ⟨hinv.of_step hstep, fun _ => hghost (hkeep hallowed hinv hown hspec (hQ g))⟩

/-- The host makes a call. -/
def Machine.issues (m : Machine) (e : Event) (call : Smc) : Prop :=
  m.enclaveMode = 0 ∧ e = .trap EXC_ECALL_S ∧ Smc.ofRegs m.regs = some call

/-- A call of the host on the machine, with what its checks say. -/
theorem issued_implements {call : Smc} (g : Ghost) (h : RunInvariants L m) (hcall : m.issues (.trap EXC_ECALL_S) call) :
    ∃ m' g', trap L EXC_ECALL_S m = some m' ∧
      absFunction g' m' = guarded (advanceMepc (absFunction g m)) (call.check (absFunction g m))
        (call.effect L (advanceMepc (absFunction g m))) := by
  rcases trap_implements L g h.mregions EXC_ECALL_S with ⟨m', hrun, _, himpl⟩
  refine ⟨m', _, hrun, himpl.abs.trans ?_⟩
  exact specTrap_of_issued L (decide_eq_false (not_not.mpr hcall.1)) hcall.2.2

/-- The registers of a call with up to three arguments. -/
def smcRegs (nr a0 a1 a2 : Word) : PtRegs
  | .a7 => nr
  | .a0 => a0
  | .a1 => a1
  | .a2 => a2
  | _ => 0

/-- The host loads the registers of a call and makes it. -/
def smcEvents (nr a0 a1 a2 : Word) : List Event :=
  [.run (smcRegs nr a0 a1 a2) (fun _ => 0), .trap EXC_ECALL_S]

/-- Page 0 becomes a final address space with its root table in page 1 and a dispatcher in page 2. -/
def buildEvents : List Event :=
  smcEvents KOM_SMC_INIT_ADDRSPACE 0 1 0 ++ smcEvents KOM_SMC_INIT_DISPATCHER 2 0 0 ++
    smcEvents KOM_SMC_FINALISE 0 0 0

/-- The host only computes in this event. -/
theorem not_issues_run (m : Machine) (gpr : PtRegs) (csr : SavedCsr → Word) (call : Smc) :
    ¬ m.issues (.run gpr csr) call :=
  fun hcall => by cases hcall.2.1

/-! ## Final address spaces -/

section Final

variable {L : Layout} {s : State} {call : Smc} {a p : Word}

/-- A call leaves every page of a final address space alone, but for stopping the address space and for
entering at that page. -/
theorem effect_samePage_of_final (hs : OwnershipInvariants s) (hfinal : s.addrspaceIn a .final)
    (hp : s.ownerOf p = some a) (hcheck : call.check s = none) (hstop : call ≠ .stop a)
    (henter : ∀ a0 a1 a2, call ≠ .enter p a0 a1 a2) : SamePage s (call.effect L s) p := by
  have htyped : s.pageTyped p .addrspace → p = a := fun h =>
    (hs.self_owned h).symm.trans (ownerOf_eq_some.mp hp).2
  apply effect_samePage
  intro hmem
  cases call with
  | finalise b =>
      -- a page that is finalised is an address space that is not final yet
      rcases checkFinalise_eq_none.mp hcheck with ⟨hb, hinit⟩
      rw [← List.mem_singleton.mp hmem] at hb hinit
      rw [htyped hb] at hinit
      cases addrspaceIn_unique hinit hfinal
  | stop b =>
      have hb := checkStop_eq_none.mp hcheck
      rw [← List.mem_singleton.mp hmem] at hb
      exact hstop (by rw [← List.mem_singleton.mp hmem, htyped hb])
  | enter d a0 a1 a2 =>
      exact henter a0 a1 a2 (by rw [List.mem_singleton.mp hmem])
  | resume d => cases hmem
  | _ => exact touches_not_final hs rfl rfl hcheck hmem hp hfinal

/-- No call gives a page to a final address space. -/
theorem effect_ownerOf_of_final (hs : OwnershipInvariants s) (hfinal : s.addrspaceIn a .final)
    (ha : s.ownerOf a = some a) (hcheck : call.check s = none) (hstop : call ≠ .stop a)
    (hp : (call.effect L s).ownerOf p = some a) : s.ownerOf p = some a := by
  by_cases hmem : p ∈ call.touches s
  · cases call with
    | finalise b => exact hp
    | stop b => exact hp
    | enter d a0 a1 a2 => exact hp
    | resume d => exact hp
    | _ =>
        -- the address space itself stays as it is, hence final
        have hsame := effect_samePage_of_final (L := L) hs hfinal ha hcheck hstop
          (fun _ _ _ heq => by cases heq)
        exact absurd ((hsame.addrspaceIn .final).mp hfinal)
          (effect_not_final hs L rfl rfl hcheck hmem hp)
  · rw [(effect_samePage L hmem).ownerOf]
    exact hp

end Final

end Komodo
end Serval
