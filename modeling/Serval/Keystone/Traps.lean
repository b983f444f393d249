import Serval.Keystone.Calls

/-!
# Traps — how a call reaches the Keystone monitor and how its result gets back

`do_trap_ecall_s` of `traps.c` with the part of `bios/mcall.c` it uses.  The result goes into `a0` of
whatever context the call leaves in the trap frame, and `mepc` is moved on for every call number but
one.  Every other trap that reaches the monitor ends the machine.
-/

namespace Serval
namespace Keystone

open Riscv

def ENOSYS : Word := 38

def SBI_CONSOLE_PUTCHAR : Word := 1
def SBI_CONSOLE_GETCHAR : Word := 2
def SBI_SHUTDOWN : Word := 8

/-- The SBI calls have the numbers from zero up to here. -/
def SBI_LAST : Word := SBI_SHUTDOWN

def NR_create_enclave : Word := 9
def NR_destroy_enclave : Word := 10
def NR_run_enclave : Word := 11
def NR_exit_enclave : Word := 12
def NR_resume_enclave : Word := 13

/-! ## mcall.c -/

/-- `mcall_console_getchar`; `input` is what the console has. -/
def mcallConsoleGetchar (verification : Bool) (input : Word) : Word :=
  if verification then -ENOSYS else input

/-- `do_mcall`; what is sent to the console is not part of the machine. -/
def doMcall (verification : Bool) (input : Word) (regs : PtRegs) : Monitor Word :=
  if regs .a7 = SBI_CONSOLE_PUTCHAR then pure 0
  else if regs .a7 = SBI_CONSOLE_GETCHAR then pure (mcallConsoleGetchar verification input)
  -- the machine is switched off
  else if regs .a7 = SBI_SHUTDOWN then Ctl.leave regs
  else pure (-ENOSYS)

/-! ## traps.c -/

section Dispatch

variable (verification : Bool) (L : Layout)

/-- The `switch` of `do_trap_ecall_s`. -/
def ecallDispatch (input : Word) (r : PtRegs) : Monitor Word :=
  if r .a7 ≤ SBI_LAST then doMcall verification input r
  else if r .a7 = NR_create_enclave then
    sysCreateEnclave verification L (r .a0) (r .a1) (r .a2) (r .a3) (r .a4) (r .a5)
  else if r .a7 = NR_destroy_enclave then sysDestroyEnclave verification (r .a0)
  else if r .a7 = NR_run_enclave then sysRunEnclave verification L (r .a0)
  else if r .a7 = NR_exit_enclave then sysExitEnclave verification L
  else if r .a7 = NR_resume_enclave then sysResumeEnclave verification L (r .a0)
  else pure (-ENOSYS)

def doTrapEcallS (input : Word) : Monitor Unit := do
  let regs ← Ctl.gets Machine.regs
  let r ← ecallDispatch verification L input regs
  -- the frame may hold another context by now
  Ctl.modify (fun m => { m with regs := Function.update m.regs .a0 r })
  if regs .a7 ≠ NR_run_enclave then
    modifyCsrs (fun f => csrWrite f .mepc (csrRead f .mepc + 4))

end Dispatch

/-- The call that `a7` selects, with its arguments. -/
def Call.ofRegs (r : PtRegs) : Option Call :=
  if r .a7 = NR_create_enclave then
    some (.create (r .a0) (r .a1) (r .a2) (r .a3) (r .a4) (r .a5))
  else if r .a7 = NR_destroy_enclave then some (.destroy (r .a0))
  else if r .a7 = NR_run_enclave then some (.run (r .a0))
  else if r .a7 = NR_exit_enclave then some .exit
  else if r .a7 = NR_resume_enclave then some (.resume (r .a0))
  else none

/-- The registers of a caller. -/
def callRegs (a7 a0 a1 a2 a3 a4 a5 : Word) : PtRegs
  | .a7 => a7
  | .a0 => a0
  | .a1 => a1
  | .a2 => a2
  | .a3 => a3
  | .a4 => a4
  | .a5 => a5
  | _ => 0

/-! ## What the dispatcher does -/

/-- The machine after the result has been put in place. -/
def returned (m : Machine) (nr r : Word) : Machine :=
  { m with
    regs := Function.update m.regs .a0 r
    csrs := if nr ≠ NR_run_enclave then csrWrite m.csrs .mepc (csrRead m.csrs .mepc + 4)
      else m.csrs }

/-- The effect of an `ecall` that comes back. -/
inductive TrapStep (verification : Bool) (L : Layout) (m : Machine) : Machine → Prop
  | call {c : Call} {r : Word} {m₁ : Machine} (hc : Call.ofRegs m.regs = some c)
      (hstep : CallStep verification L m c r m₁) :
      TrapStep verification L m (returned m₁ (m.regs .a7) r)
  | other (hc : Call.ofRegs m.regs = none) (r : Word) :
      TrapStep verification L m (returned m (m.regs .a7) r)

section Dispatcher

variable {verification : Bool} {L : Layout} {m : Machine} {r : PtRegs} {c : Call}

/-- The number of a call. -/
def Call.nr : Call → Word
  | .create _ _ _ _ _ _ => NR_create_enclave
  | .destroy _ => NR_destroy_enclave
  | .run _ => NR_run_enclave
  | .exit => NR_exit_enclave
  | .resume _ => NR_resume_enclave

theorem Call.nr_of_ofRegs (hc : Call.ofRegs r = some c) : r .a7 = c.nr := by
  unfold Call.ofRegs at hc
  split_ifs at hc <;> cases hc <;> assumption

theorem Call.sbi_lt_nr (c : Call) : ¬ c.nr ≤ SBI_LAST := by
  cases c <;> simp only [Call.nr] <;> decide

theorem ecallDispatch_of_call (hc : Call.ofRegs r = some c) (input : Word) :
    ecallDispatch verification L input r = c.exec verification L := by
  have hsbi : ¬ r .a7 ≤ SBI_LAST := by
    rw [Call.nr_of_ofRegs hc]
    exact c.sbi_lt_nr
  unfold Call.ofRegs at hc
  rw [ecallDispatch, if_neg hsbi]
  split_ifs at hc ⊢ <;> (cases hc; rfl)

/-- The numbers that are neither an SBI call nor one of the five calls. -/
theorem ecallDispatch_of_none (hc : Call.ofRegs r = none) (hsbi : ¬ r .a7 ≤ SBI_LAST)
    (input : Word) : ecallDispatch verification L input r = pure (-ENOSYS) := by
  unfold Call.ofRegs at hc
  rw [ecallDispatch, if_neg hsbi]
  split_ifs at hc ⊢
  rfl

/-- Once the call has returned, only its result is put in place. -/
theorem doTrapEcallS_of_ret {input v : Word} {m₁ : Machine}
    (h : ecallDispatch verification L input m.regs m = .ret v m₁) :
    doTrapEcallS verification L input m = .ret () (returned m₁ (m.regs .a7) v) := by
  show (ecallDispatch verification L input m.regs >>= _) m = _
  rw [Ctl.bind_ret h]
  by_cases hnr : m.regs .a7 ≠ NR_run_enclave
  · simp only [returned, if_pos hnr]
    rfl
  · simp only [returned, if_neg hnr]
    rfl

/-- One of the five calls always comes back. -/
theorem doTrapEcallS_call (hsafe : CallSafe m) (hc : Call.ofRegs m.regs = some c) (input : Word) :
    ∃ v m₁, CallStep verification L m c v m₁ ∧
      doTrapEcallS verification L input m = .ret () (returned m₁ c.nr v) := by
  rcases exec_cases hsafe verification L c with ⟨v, m₁, hexec, hstep⟩
  refine ⟨v, m₁, hstep, ?_⟩
  rw [← Call.nr_of_ofRegs hc]
  apply doTrapEcallS_of_ret
  rw [ecallDispatch_of_call hc]
  exact hexec

theorem doTrapEcallS_unknown (hc : Call.ofRegs m.regs = none) (hsbi : ¬ m.regs .a7 ≤ SBI_LAST)
    (input : Word) :
    doTrapEcallS verification L input m = .ret () (returned m (m.regs .a7) (-ENOSYS)) := by
  apply doTrapEcallS_of_ret
  rw [ecallDispatch_of_none hc hsbi]
  rfl

/-- What is left of an SBI call: a value in `a0`, unless it is a shutdown. -/
theorem doMcall_cases (verification : Bool) (input : Word) (r : PtRegs) :
    (∃ v, doMcall verification input r = pure v) ∨ doMcall verification input r = Ctl.leave r := by
  unfold doMcall
  split_ifs
  · exact .inl ⟨_, rfl⟩
  · exact .inl ⟨_, rfl⟩
  · exact .inr rfl
  · exact .inl ⟨_, rfl⟩

theorem doTrapEcallS_cases (hsafe : CallSafe m) (input : Word) {m' : Machine}
    (h : doTrapEcallS verification L input m = .ret () m') : TrapStep verification L m m' := by
  cases hc : Call.ofRegs m.regs with
  | some c =>
      rcases doTrapEcallS_call (L := L) hsafe hc input with
        ⟨v, m₁, hstep, hrun⟩
      rw [hrun, ← Call.nr_of_ofRegs hc] at h
      cases h
      exact .call hc hstep
  | none =>
      by_cases hsbi : m.regs .a7 ≤ SBI_LAST
      · have hdispatch : ecallDispatch verification L input m.regs
            = doMcall verification input m.regs := if_pos hsbi
        rcases doMcall_cases verification input m.regs with ⟨v, hv⟩ | hleave
        · have hret : ecallDispatch verification L input m.regs m = .ret v m := by
            rw [hdispatch, hv]
            rfl
          rw [doTrapEcallS_of_ret hret] at h
          cases h
          exact .other hc v
        · have hleft : doTrapEcallS verification L input m = .leave m.regs m := by
            show (ecallDispatch verification L input m.regs >>= _) m = _
            rw [hdispatch, hleave]
            rfl
          rw [hleft] at h
          cases h
      · rw [doTrapEcallS_unknown hc hsbi input] at h
        cases h
        exact .other hc _

end Dispatcher

end Keystone
end Serval
