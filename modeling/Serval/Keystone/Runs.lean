import Serval.Lib.Runs
import Serval.Keystone.Confinement
import Serval.Keystone.Traps

/-!
# Runs — the Keystone monitor together with the host and its enclaves

Between two calls the host or the running enclave computes: it sets its registers and S-mode CSRs and
writes to the memory it may write to.  A call is an `ecall` whose number and arguments are in the
registers.  A run is a sequence of such activities from the machine that `main` hands over.
-/

namespace Serval
namespace Keystone

open Riscv

/-! ## Activities -/

inductive Activity
  -- the current context computes, ending with these registers and CSRs
  | compute (gpr : PtRegs) (csr : SavedCsr → Word)
  | write (a : Word) (v : BitVec 8)
  -- `input` is for the console
  | ecall (input : Word)

section Activities

variable (verification : Bool) (L : Layout)

/-- One activity; nothing comes after a shutdown or a bug. -/
def act (m : Machine) : Activity → Option Machine
  | .compute gpr csr => some { m with regs := gpr, csrs := restoreCsrs csrsH m.csrs csr }
  | .write a v => some (writeByte L m a v)
  | .ecall input =>
      match doTrapEcallS verification L input m with
      | .ret _ m' => some m'
      | _ => none

def runActivities (m : Machine) (as : List Activity) : Option Machine :=
  as.foldlM (act verification L) m

/-- The machine that `main` hands over; only one of the builds protects memory. -/
def started (m : Machine) : Machine :=
  if verification then initialised m else booted L m

end Activities

section Steps

variable {verification : Bool} {L : Layout} {m m₁ m₂ : Machine}

/-- What an activity does. -/
inductive ActStep (verification : Bool) (L : Layout) (m : Machine) : Activity → Machine → Prop
  | compute (gpr : PtRegs) (csr : SavedCsr → Word) :
      ActStep verification L m (.compute gpr csr)
        { m with regs := gpr, csrs := restoreCsrs csrsH m.csrs csr }
  | write (a : Word) (v : BitVec 8) : ActStep verification L m (.write a v) (writeByte L m a v)
  | ecall (input : Word) {m₁ : Machine} (hstep : TrapStep verification L m m₁) :
      ActStep verification L m (.ecall input) m₁

theorem act_ecall {input : Word} (hact : act verification L m (.ecall input) = some m₁) :
    doTrapEcallS verification L input m = .ret () m₁ := by
  simp only [act] at hact
  cases htrap : doTrapEcallS verification L input m with
  | ret u m' =>
      rw [htrap] at hact
      cases hact
      rfl
  | leave r m' =>
      rw [htrap] at hact
      cases hact
  | bug =>
      rw [htrap] at hact
      cases hact

theorem act_cases (h : TableInvariants m) {a : Activity} (hact : act verification L m a = some m₁) :
    ActStep verification L m a m₁ := by
  cases a with
  | compute gpr csr =>
      cases hact
      exact .compute gpr csr
  | write a v =>
      cases hact
      exact .write a v
  | ecall input => exact .ecall input (doTrapEcallS_cases h.callSafe input (act_ecall hact))

theorem TableInvariants.returned (h : TableInvariants m) (nr r : Word) :
    TableInvariants (returned m nr r) :=
  ⟨h.regions, h.running⟩

theorem ActStep.tableInvariants {a : Activity} (hstep : ActStep verification L m a m₁)
    (h : TableInvariants m) : TableInvariants m₁ := by
  cases hstep with
  | compute => exact ⟨h.regions, h.running⟩
  | write => exact h.withPayload _
  | ecall _ htrap =>
      cases htrap with
      | call _ hcall => exact (hcall.tableInvariants h).returned _ _
      | other => exact h.returned _ _

/-- A property that every activity keeps holds along a run. -/
theorem run_keeps {P : Machine → Activity → Prop} {Q : Machine → Prop}
    (hstep : ∀ {m m₁ : Machine} {a : Activity}, TableInvariants m → P m a →
      ActStep verification L m a m₁ → Q m → Q m₁) {as : List Activity}
    (hrun : RunIn (act verification L) P m as m₁) (h : TableInvariants m) (hQ : Q m) :
    TableInvariants m₁ ∧ Q m₁ := by
  refine hrun.invariant (I := fun m => TableInvariants m ∧ Q m) ?_ ⟨h, hQ⟩
  rintro m a m₁ hallowed hact ⟨h, hQ⟩
  have hact := act_cases h hact
  exact ⟨hact.tableInvariants h, hstep h hallowed hact hQ⟩

theorem started_tableInvariants (verification : Bool) (L : Layout) (m : Machine) :
    TableInvariants (started verification L m) := by
  cases verification with
  | true => exact initialised_tableInvariants m
  | false => exact booted_tableInvariants L m

theorem runActivities_tableInvariants {as : List Activity} :
    ∀ {m : Machine}, TableInvariants m → runActivities verification L m as = some m₁ →
      TableInvariants m₁ := by
  induction as with
  | nil =>
      intro m h hrun
      cases hrun
      exact h
  | cons a as ih =>
      intro m h hrun
      rw [runActivities, List.foldlM_cons] at hrun
      rcases Option.bind_eq_some_iff.mp hrun with ⟨m', hact, hrest⟩
      exact ih ((act_cases h hact).tableInvariants h) hrest

theorem reachable_tableInvariants {m₀ : Machine} {as : List Activity}
    (hrun : runActivities verification L (started verification L m₀) as = some m) :
    TableInvariants m :=
  runActivities_tableInvariants (started_tableInvariants verification L m₀) hrun

end Steps

/-! ## Calls that fail -/

/-- The caller goes on behind its `ecall`, and finds nothing changed but `a0`. -/
structure ReturnsToCaller (m m' : Machine) : Prop where
  mepc : csrRead m'.csrs .mepc = csrRead m.csrs .mepc + 4
  regs : ∀ r, r ≠ .a0 → m'.regs r = m.regs r
  csrs : ∀ c, c ≠ .mepc → m'.csrs c = m.csrs c
  enclaves : m'.enclaves = m.enclaves
  currentEnclave : m'.currentEnclave = m.currentEnclave
  enclaveMode : m'.enclaveMode = m.enclaveMode
  payload : m'.payload = m.payload

section Errors

variable {verification : Bool} {L : Layout} {m m₁ : Machine} {c : Call} {r : Word}

theorem returned_returnsToCaller {nr : Word} (hnr : nr ≠ NR_run_enclave) (m : Machine) (r : Word) :
    ReturnsToCaller m (returned m nr r) := by
  have hcsrs : (returned m nr r).csrs = csrWrite m.csrs .mepc (csrRead m.csrs .mepc + 4) :=
    if_pos hnr
  refine ⟨?_, ?_, ?_, rfl, rfl, rfl, rfl⟩
  · rw [hcsrs, csrRead_csrWrite_self]
    exact BitVec.and_allOnes
  · intro g hg
    exact Function.update_of_ne hg _ _
  · intro d hd
    rw [hcsrs]
    exact csrWrite_of_ne m.csrs _ hd

/-- A run that fails is tried again. -/
theorem returned_run_not_returnsToCaller (m : Machine) (r : Word) :
    ¬ ReturnsToCaller m (returned m NR_run_enclave r) := by
  intro h
  have hcsrs : (returned m NR_run_enclave r).csrs = m.csrs := by simp [returned]
  have hmepc := h.mepc
  rw [hcsrs] at hmepc
  bv_omega

def isError (r : Word) : Prop :=
  r = -EINVAL ∨ r = -ENOSYS

theorem CallStep.enabled_or (hstep : CallStep verification L m c r m₁) :
    (¬ c.Enabled m ∧ r = -EINVAL ∧ m₁ = m) ∨ (c.Enabled m ∧ r = 0) := by
  cases hstep with
  | failed hfail => exact .inl ⟨hfail, rfl, rfl⟩
  | create h₁ h₂ h₃ h₄ h₅ h₆ => exact .inr ⟨⟨h₁, h₂, h₃, h₄, h₅, h₆⟩, rfl⟩
  | destroy h₁ h₂ h₃ => exact .inr ⟨⟨h₁, h₂, h₃⟩, rfl⟩
  | run h₁ h₂ h₃ => exact .inr ⟨⟨h₁, h₂, h₃⟩, rfl⟩
  | exit h₁ => exact .inr ⟨h₁, rfl⟩
  | resume h₁ h₂ h₃ => exact .inr ⟨⟨h₁, h₂, h₃⟩, rfl⟩

theorem ofRegs_run {r : PtRegs} (hnr : r .a7 = NR_run_enclave) :
    Call.ofRegs r = some (.run (r .a0)) := by
  simp only [Call.ofRegs, hnr]
  rfl

/-- In every reachable state an `ecall` outside the SBI range comes back; when it comes back with an
error, its caller goes on behind it with nothing changed, except for `sys_run_enclave`, whose caller is
sent back to the `ecall` that has just failed. -/
theorem error_returns_to_caller_iff (verification : Bool) (L : Layout) (m₀ : Machine)
    (as : List Activity) (m : Machine)
    (hreach : runActivities verification L (started verification L m₀) as = some m)
    (hnr : ¬ m.regs .a7 ≤ SBI_LAST) (input : Word) :
    ∃ m', doTrapEcallS verification L input m = .ret () m' ∧
      ((isError (m'.regs .a0) → ReturnsToCaller m m') ↔
        (m.regs .a7 = NR_run_enclave → (Call.run (m.regs .a0)).Enabled m)) := by
  have hinv := reachable_tableInvariants hreach
  cases hc : Call.ofRegs m.regs with
  | none =>
      have hne : m.regs .a7 ≠ NR_run_enclave := by
        intro heq
        rw [ofRegs_run heq] at hc
        cases hc
      refine ⟨_, doTrapEcallS_unknown hc hnr input, ?_⟩
      exact iff_of_true (fun _ => returned_returnsToCaller hne m _) (fun heq => absurd heq hne)
  | some c =>
      rcases doTrapEcallS_call (L := L) hinv.callSafe hc input with ⟨r, m₁, hstep, hrun⟩
      refine ⟨_, hrun, ?_⟩
      have ha0 : (returned m₁ c.nr r).regs .a0 = r := by simp [returned]
      rw [ha0, Call.nr_of_ofRegs hc]
      rcases hstep.enabled_or with ⟨hfail, rfl, rfl⟩ | ⟨henabled, rfl⟩
      · -- nothing has happened, and the number decides where the caller goes on
        by_cases hrunNr : c.nr = NR_run_enclave
        · have hcall : c = .run (m₁.regs .a0) := by
            rw [ofRegs_run ((Call.nr_of_ofRegs hc).trans hrunNr)] at hc
            exact (Option.some.inj hc).symm
          rw [hrunNr]
          refine iff_of_false (fun hback => ?_) (fun henabled => ?_)
          · exact returned_run_not_returnsToCaller _ _ (hback (.inl rfl))
          · rw [hcall] at hfail
            exact hfail (henabled rfl)
        · exact iff_of_true (fun _ => returned_returnsToCaller hrunNr _ _)
            (fun heq => absurd heq hrunNr)
      · -- zero is no error
        refine iff_of_true (fun herror => ?_) (fun hrunNr => ?_)
        · rcases herror with h | h <;> exact absurd h (by decide)
        · rw [ofRegs_run ((Call.nr_of_ofRegs hc).trans hrunNr)] at hc
          rw [Option.some.inj hc]
          exact henabled

/-- The host asks for an enclave that does not exist. -/
theorem error_returns_to_caller_iff_image :
    ∃ m m', runActivities false imageLayout (started false imageLayout resetMachine)
        [.compute (callRegs NR_resume_enclave 7 0 0 0 0 0) (fun _ => 0)] = some m ∧
      doTrapEcallS false imageLayout 0 m = .ret () m' ∧ isError (m'.regs .a0) ∧
      ReturnsToCaller m m' := by
  rcases error_returns_to_caller_iff false imageLayout resetMachine
    [.compute (callRegs NR_resume_enclave 7 0 0 0 0 0) (fun _ => 0)] _ rfl (by decide) 0 with
    ⟨m', hrun, hiff⟩
  have herror : isError (m'.regs .a0) := by
    have hret := hrun
    cases hret
    exact .inl rfl
  exact ⟨_, m', rfl, hrun, herror, hiff.mpr (fun heq => absurd heq (by decide)) herror⟩

/-- The host runs an enclave that does not exist, and is to do so again. -/
theorem failed_run_repeats :
    ∃ m m', runActivities false imageLayout (started false imageLayout resetMachine)
        [.compute (callRegs NR_run_enclave 7 0 0 0 0 0) (fun _ => 0)] = some m ∧
      ¬ m.regs .a7 ≤ SBI_LAST ∧ doTrapEcallS false imageLayout 0 m = .ret () m' ∧
      isError (m'.regs .a0) ∧ ¬ ReturnsToCaller m m' :=
  ⟨_, _, rfl, by decide, rfl, .inl rfl, returned_run_not_returnsToCaller _ _⟩

end Errors

end Keystone
end Serval
