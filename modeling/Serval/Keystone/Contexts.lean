import Serval.Keystone.Runs

/-!
# Contexts — what a context finds when it is switched back in

The monitor has one save area for the host and one in each slot of the table, and both sweeps of `cpu.h`
go through the CSRs of `csrs.h`.  `sscratch` and `sie` are not among them: they stay as they are when
the context is switched.  The general registers and all other S-mode CSRs of a context come back, for
the host after the enclave has left and for an enclave after any run that leaves its slot alone.
-/

namespace Serval
namespace Keystone

open Riscv

variable {d : StateCsr} {c : SavedCsr}

/-! ## Save areas -/

namespace StateCsr

/-- No two of the CSRs share a register. -/
theorem home_injective {c : StateCsr} (h : c.toCsr.home = d.toCsr.home) : c = d := by
  cases c <;> cases d <;> first | rfl | cases h

end StateCsr

section Areas

variable {f : CsrFile} {state : CpuState}

theorem saveCpuState_csr (f : CsrFile) (regs : PtRegs) (state : CpuState) (c : StateCsr) :
    (saveCpuState f regs state).csr c = csrRead f c.toCsr := by
  have hdistinct : StateCsr.all.Pairwise (fun a b => id a ≠ id b) := by decide
  show writeAll id (fun c _ => csrRead f c.toCsr) StateCsr.all state.csr (id c) = _
  rw [writeAll_of_mem hdistinct c.mem_all]

theorem saveCpuState_regs (f : CsrFile) (regs : PtRegs) (state : CpuState) :
    (saveCpuState f regs state).regs = regs :=
  copyPtRegs_eq _ _

theorem restoreStateCsrs_eq_writeAll (f : CsrFile) (state : CpuState) :
    restoreStateCsrs f state =
      writeAll (fun c : StateCsr => c.toCsr.home) (fun c => mergeCsr c.toCsr (state.csr c))
        StateCsr.all f := rfl

/-- What an area puts into a CSR. -/
def CpuState.shown (state : CpuState) (c : StateCsr) : Word :=
  state.csr c &&& c.toCsr.mask

theorem csrRead_restoreStateCsrs (f : CsrFile) (state : CpuState) (c : StateCsr) :
    csrRead (restoreStateCsrs f state) c.toCsr = state.shown c := by
  have hdistinct : StateCsr.all.Pairwise (fun a b => a.toCsr.home ≠ b.toCsr.home) := by
    have hnodup : StateCsr.all.Nodup := by decide
    exact hnodup.imp (fun hne heq => hne (StateCsr.home_injective heq))
  have hhome : restoreStateCsrs f state c.toCsr.home = mergeCsr c.toCsr (state.csr c) (f c.toCsr.home) := by
    rw [restoreStateCsrs_eq_writeAll]
    exact writeAll_of_mem hdistinct c.mem_all
  rw [csrRead, hhome, mergeCsr_and_mask, CpuState.shown]

/-- Registers that the sweep does not go through. -/
theorem csrRead_restoreStateCsrs_of_ne (f : CsrFile) (state : CpuState) {d : Csr}
    (hd : ∀ c : StateCsr, c.toCsr.home ≠ d.home) :
    csrRead (restoreStateCsrs f state) d = csrRead f d := by
  have hhome : restoreStateCsrs f state d.home = f d.home := by
    rw [restoreStateCsrs_eq_writeAll]
    exact writeAll_of_not_mem (fun c _ => hd c)
  rw [csrRead, csrRead, hhome]

/-- What was saved comes back. -/
theorem saveCpuState_shown (f : CsrFile) (regs : PtRegs) (state : CpuState) (c : StateCsr) :
    (saveCpuState f regs state).shown c = csrRead f c.toCsr := by
  rw [CpuState.shown, saveCpuState_csr, csrRead, BitVec.and_assoc, BitVec.and_self]

/-- The CSR of `csrs.h` that a CSR of a context is. -/
def switched : SavedCsr → Option StateCsr
  | .mepc => some .mepc
  | .satp => some .satp
  | .stvec => some .stvec
  | .scounteren => some .scounteren
  | .stval => some .stval
  | .sip => some .sip
  | .scause => some .scause
  | .sepc => some .sepc
  | .sstatus => some .sstatus
  | .sscratch => none
  | .sie => none

theorem toCsr_of_switched (h : switched c = some d) : c.toCsr = d.toCsr := by
  cases c <;> cases h <;> rfl

theorem home_ne_of_not_switched (h : switched c = none) (d : StateCsr) : d.toCsr.home ≠ c.toCsr.home := by
  cases c with
  | sscratch => cases d <;> decide
  | sie => cases d <;> decide
  | _ => cases h

theorem readCsrs_restoreStateCsrs_of_some (f : CsrFile) (state : CpuState) (h : switched c = some d) :
    readCsrs (restoreStateCsrs f state) c = state.shown d := by
  rw [readCsrs, toCsr_of_switched h]
  exact csrRead_restoreStateCsrs f state d

theorem readCsrs_restoreStateCsrs_of_none (f : CsrFile) (state : CpuState) (h : switched c = none) :
    readCsrs (restoreStateCsrs f state) c = readCsrs f c :=
  csrRead_restoreStateCsrs_of_ne f state (home_ne_of_not_switched h)

@[simp] theorem readCsrs_chmodCsrs (f : CsrFile) (eid perm : Word) :
    readCsrs (chmodCsrs f eid perm) = readCsrs f :=
  readCsrs_pmpcfgWrite f _ _

@[simp] theorem readCsrs_lastCsrs (f : CsrFile) (lower upper perm : Word) :
    readCsrs (lastCsrs f lower upper perm) = readCsrs f := by
  simp only [lastCsrs, readCsrs_pmpcfgWrite, readCsrs_pmpaddrWrite]

end Areas

/-! ## Contexts -/

/-- The S-mode CSRs of a context; no interrupt is pending in any of them. -/
def contextCsrs : List SavedCsr :=
  [.satp, .stvec, .scounteren, .stval, .scause, .sepc, .sstatus, .sscratch, .sie]

/-- A context goes on behind its `ecall`, with its registers and zero in `a0`. -/
structure Continues (m m' : Machine) : Prop where
  regs : m'.regs = Function.update m.regs .a0 0
  csrs : ∀ c ∈ contextCsrs, readCsrs m'.csrs c = readCsrs m.csrs c
  mepc : readCsrs m'.csrs .mepc = readCsrs m.csrs .mepc + 4

/-- Two machines agree on the CSRs that no switch saves or restores. -/
def SameUnswitched (m m' : Machine) : Prop :=
  readCsrs m'.csrs .sscratch = readCsrs m.csrs .sscratch ∧
    readCsrs m'.csrs .sie = readCsrs m.csrs .sie

/-- An area holds the context of a machine. -/
structure CpuState.Holds (state : CpuState) (m : Machine) : Prop where
  regs : state.regs = m.regs
  csrs : ∀ c d, switched c = some d → state.shown d = readCsrs m.csrs c

section Switches

variable {L : Layout} {m m₁ m₂ : Machine} {state : CpuState} {e : Word}

theorem saveCpuState_holds (m : Machine) (state : CpuState) : (saveCpuState m.csrs m.regs state).Holds m := by
  refine ⟨saveCpuState_regs _ _ _, fun c d hcd => ?_⟩
  rw [saveCpuState_shown, readCsrs, toCsr_of_switched hcd]

/-- A machine on which a saved context has been put back, behind its `ecall`. -/
structure SwitchedTo (state : CpuState) (m m' : Machine) : Prop where
  regs : m'.regs = Function.update state.regs .a0 0
  csrs : ∀ c, c ≠ .mepc → readCsrs m'.csrs c = readCsrs (restoreStateCsrs m.csrs state) c
  mepc : readCsrs m'.csrs .mepc = readCsrs (restoreStateCsrs m.csrs state) .mepc + 4

/-- All of the context is back, if nobody has touched what is not switched. -/
theorem SwitchedTo.continues_iff (h : SwitchedTo state m₁ m₂) (hholds : state.Holds m) :
    Continues m m₂ ↔ SameUnswitched m m₁ := by
  have hkept : ∀ c, c ≠ .mepc → switched c = none →
      readCsrs m₂.csrs c = readCsrs m₁.csrs c := by
    intro c hc hnone
    rw [h.csrs c hc, readCsrs_restoreStateCsrs_of_none _ _ hnone]
  have hback : ∀ c d, switched c = some d →
      readCsrs (restoreStateCsrs m₁.csrs state) c = readCsrs m.csrs c := by
    intro c d hsome
    rw [readCsrs_restoreStateCsrs_of_some _ _ hsome, hholds.csrs c d hsome]
  constructor
  · intro hcont
    have hscratch := hcont.csrs .sscratch (by decide)
    have hsie := hcont.csrs .sie (by decide)
    rw [hkept _ (by decide) rfl] at hscratch hsie
    exact ⟨hscratch, hsie⟩
  · rintro ⟨hscratch, hsie⟩
    refine ⟨by rw [h.regs, hholds.regs], fun c hc => ?_, ?_⟩
    · have hmepc : c ≠ .mepc := by
        rintro rfl
        revert hc
        decide
      cases hsw : switched c with
      | some d => rw [h.csrs c hmepc, hback c d hsw]
      | none =>
          rw [hkept c hmepc hsw]
          cases c with
          | sscratch => exact hscratch
          | sie => exact hsie
          | _ => cases hsw
    · rw [h.mepc, hback .mepc .mepc rfl]

/-- The last steps of a call that switches contexts. -/
theorem switchedTo_returned {nr : Word} (hnr : nr ≠ NR_run_enclave)
    (hregs : m₁.regs = state.regs)
    (hcsrs : readCsrs m₁.csrs = readCsrs (restoreStateCsrs m.csrs state)) :
    SwitchedTo state m (returned m₁ nr 0) := by
  have hstep := congrArg Regs.csr (readCsrs_stepMepc m₁.regs m₁.csrs)
  have hread : readCsrs (returned m₁ nr 0).csrs
      = Function.update (readCsrs m₁.csrs) .mepc (4 + readCsrs m₁.csrs .mepc) := by
    simp only [returned, if_pos hnr]
    exact hstep
  refine ⟨?_, fun c hc => ?_, ?_⟩
  · rw [← hregs]
    rfl
  · rw [hread, Function.update_of_ne hc, hcsrs]
  · rw [hread, Function.update_self, hcsrs, BitVec.add_comm]

theorem exited_switchedTo (L : Layout) (m : Machine) :
    SwitchedTo m.hostState m (returned (exited false L m) NR_exit_enclave 0) := by
  apply switchedTo_returned (by decide)
  · exact copyPtRegs_eq _ _
  · simp only [exited, Bool.false_eq_true, if_false, readCsrs_lastCsrs, readCsrs_chmodCsrs]

theorem resumed_switchedTo (L : Layout) (m : Machine) (eid : Word) (state : CpuState) :
    SwitchedTo state m (returned (resumed false L m eid state) NR_resume_enclave 0) := by
  apply switchedTo_returned (by decide)
  · exact copyPtRegs_eq _ _
  · simp only [resumed, Bool.false_eq_true, if_false, readCsrs_lastCsrs, readCsrs_chmodCsrs]

end Switches

/-! ## Calls that switch -/

section Calls

variable {L : Layout} {m m₁ : Machine} {e input : Word}

variable (h : TableInvariants m)

include h

theorem act_call {c : Call} (hc : Call.ofRegs m.regs = some c) (hact : act false L m (.ecall input) = some m₁) :
    ∃ r m₂, CallStep false L m c r m₂ ∧ m₁ = returned m₂ c.nr r := by
  rcases doTrapEcallS_call (L := L) h.callSafe hc input with ⟨r, m₂, hstep, hrun⟩
  rw [act_ecall hact] at hrun
  cases hrun
  exact ⟨r, m₂, hstep, rfl⟩

theorem act_run (hmode : m.enclaveMode = 0) (hc : Call.ofRegs m.regs = some (.run e))
    (hact : act false L m (.ecall input) = some m₁) (hin : m₁.enclaveMode ≠ 0) :
    m₁ = returned (resumed false L m e (entryState (m.enclaves e))) NR_run_enclave 0 := by
  rcases act_call h hc hact with ⟨r, m₂, hstep, rfl⟩
  cases hstep with
  | failed => exact absurd hmode hin
  | run => rfl

theorem act_resume (hmode : m.enclaveMode = 0) (hc : Call.ofRegs m.regs = some (.resume e))
    (hact : act false L m (.ecall input) = some m₁) (hin : m₁.enclaveMode ≠ 0) :
    m₁ = returned (resumed false L m e (m.enclaves e).enclState) NR_resume_enclave 0 := by
  rcases act_call h hc hact with ⟨r, m₂, hstep, rfl⟩
  cases hstep with
  | failed => exact absurd hmode hin
  | resume => rfl

theorem act_exit (hin : m.enclaveMode ≠ 0) (hc : Call.ofRegs m.regs = some .exit)
    (hact : act false L m (.ecall input) = some m₁) :
    m₁ = returned (exited false L m) NR_exit_enclave 0 := by
  rcases act_call h hc hact with ⟨r, m₂, hstep, rfl⟩
  cases hstep with
  | failed hfail => exact absurd hin hfail
  | exit => rfl

end Calls

/-! ## Runs that leave a context alone -/

section Kept

variable {L : Layout} {m m₁ : Machine} {a : Activity} {e : Word} {as : List Activity}

/-- While an enclave runs, nobody writes to the save area of the host. -/
theorem ActStep.host_kept (hstep : ActStep false L m a m₁) (hmode : m.enclaveMode ≠ 0) :
    m₁.hostState = m.hostState ∧
      (m₁.enclaveMode ≠ 0 → m₁.currentEnclave = m.currentEnclave) := by
  cases hstep with
  | compute => exact ⟨rfl, fun _ => rfl⟩
  | write => exact ⟨rfl, fun _ => rfl⟩
  | ecall _ htrap =>
      cases htrap with
      | other => exact ⟨rfl, fun _ => rfl⟩
      | call _ hcall =>
          cases hcall with
          | failed => exact ⟨rfl, fun _ => rfl⟩
          | create hhost => exact absurd hhost hmode
          | destroy hhost => exact absurd hhost hmode
          | run hhost => exact absurd hhost hmode
          | resume hhost => exact absurd hhost hmode
          | exit => exact ⟨rfl, fun hin => absurd rfl hin⟩

theorem run_host_kept (hrun : RunIn (act false L) (fun m _ => m.enclaveMode ≠ 0) m as m₁)
    (h : TableInvariants m) :
    TableInvariants m₁ ∧ m₁.hostState = m.hostState ∧
      (m₁.enclaveMode ≠ 0 → m₁.currentEnclave = m.currentEnclave) := by
  refine run_keeps (Q := fun m' => m'.hostState = m.hostState ∧
    (m'.enclaveMode ≠ 0 → m'.currentEnclave = m.currentEnclave)) ?_ hrun h ⟨rfl, fun _ => rfl⟩
  rintro m' m'' a - hmode hstep ⟨hhost, hcur⟩
  rcases hstep.host_kept hmode with ⟨hhost', hcur'⟩
  exact ⟨hhost'.trans hhost, fun hin => (hcur' hin).trans (hcur hmode)⟩

/-- The activity does not run, resume or destroy `e`. -/
def Spares (e : Word) (m : Machine) : Activity → Prop
  | .ecall _ => ∀ c, Call.ofRegs m.regs = some c →
      c = .run e ∨ c = .resume e ∨ c = .destroy e → ¬ c.Enabled m
  | _ => True

/-- A slot that is neither free nor running is written to by no other call. -/
theorem ActStep.slot_kept (hstep : ActStep false L m a m₁) (h : TableInvariants m)
    (hspares : Spares e m a)
    (hstatus : (m.enclaves e).status = Status.idle.val ∨ (m.enclaves e).status = Status.fresh.val) :
    m₁.enclaves e = m.enclaves e := by
  cases hstep with
  | compute => rfl
  | write => rfl
  | ecall _ htrap =>
      cases htrap with
      | other => rfl
      | @call c r m₂ hc hcall =>
          have hspared := hspares c hc
          cases hcall with
          | failed => rfl
          | @create eid entry secureLower secureUpper sharedLower sharedUpper hmode heid hfree =>
              have hne : e ≠ eid := by
                rintro rfl
                exact not_free_of_startable hstatus hfree
              exact Function.update_of_ne hne _ _
          | @destroy eid hmode heid hlive =>
              have hne : e ≠ eid := by
                rintro rfl
                exact hspared (.inr (.inr rfl)) ⟨hmode, heid, hlive⟩
              exact Function.update_of_ne hne _ _
          | @run eid hmode heid hlive =>
              have hne : e ≠ eid := by
                rintro rfl
                exact hspared (.inl rfl) ⟨hmode, heid, hlive⟩
              exact Function.update_of_ne hne _ _
          | @resume eid hmode heid hidle =>
              have hne : e ≠ eid := by
                rintro rfl
                exact hspared (.inr (.inl rfl)) ⟨hmode, heid, hidle⟩
              exact Function.update_of_ne hne _ _
          | exit hmode heid =>
              have hrunning := (h.running.current hmode).2
              have hne : e ≠ m.currentEnclave := by
                rintro rfl
                rw [hrunning] at hstatus
                rcases hstatus with hbad | hbad <;> exact absurd hbad (by decide)
              exact Function.update_of_ne hne _ _

theorem run_slot_kept (hrun : RunIn (act false L) (Spares e) m as m₁) (h : TableInvariants m)
    (hstatus : (m.enclaves e).status = Status.idle.val ∨ (m.enclaves e).status = Status.fresh.val) :
    TableInvariants m₁ ∧ m₁.enclaves e = m.enclaves e := by
  refine run_keeps (Q := fun m' => m'.enclaves e = m.enclaves e) ?_ hrun h rfl
  intro m' m'' a h' hspares hstep hkept
  rw [← hkept] at hstatus ⊢
  exact hstep.slot_kept h' hspares hstatus

end Kept

/-! ## Round trips -/

/-- The host calls an enclave, which runs until it calls `sys_exit_enclave`. -/
structure Excursion (L : Layout) (e : Word) (m m₁ m₂ m₃ : Machine) : Prop where
  host : m.enclaveMode = 0
  call : Call.ofRegs m.regs = some (.run e) ∨ Call.ofRegs m.regs = some (.resume e)
  enter : ∃ input, act false L m (.ecall input) = some m₁
  entered : m₁.enclaveMode ≠ 0
  execute : ∃ es, RunIn (act false L) (fun m _ => m.enclaveMode ≠ 0) m₁ es m₂
  running : m₂.enclaveMode ≠ 0
  exitCall : Call.ofRegs m₂.regs = some .exit
  exit : ∃ input, act false L m₂ (.ecall input) = some m₃

/-- The host and other enclaves do what they like, and the host resumes the enclave. -/
structure Return (L : Layout) (e : Word) (m m₁ m₂ : Machine) : Prop where
  between : ∃ es, RunIn (act false L) (Spares e) m es m₁
  host : m₁.enclaveMode = 0
  call : Call.ofRegs m₁.regs = some (.resume e)
  enter : ∃ input, act false L m₁ (.ecall input) = some m₂
  entered : m₂.enclaveMode ≠ 0

section RoundTrips

variable {L : Layout} {e : Word} {m m₁ m₂ m₃ : Machine}

/-- The host's save area and the enclave's number, when the enclave is about to leave. -/
theorem Excursion.hostState (h : Excursion L e m m₁ m₂ m₃) (hinv : TableInvariants m) :
    TableInvariants m₂ ∧ m₂.hostState.Holds m ∧ m₂.currentEnclave = e := by
  rcases h.enter with ⟨input, hact⟩
  have hinv₁ := (act_cases hinv hact).tableInvariants hinv
  have hsaved : m₁.hostState = saveCpuState m.csrs m.regs m.hostState ∧ m₁.currentEnclave = e := by
    rcases h.call with hc | hc
    · rw [act_run hinv h.host hc hact h.entered]
      exact ⟨rfl, rfl⟩
    · rw [act_resume hinv h.host hc hact h.entered]
      exact ⟨rfl, rfl⟩
  rcases h.execute with ⟨es, hrun⟩
  rcases run_host_kept hrun hinv₁ with ⟨hinv₂, hhost, hcur⟩
  refine ⟨hinv₂, ?_, (hcur h.running).trans hsaved.2⟩
  rw [hhost, hsaved.1]
  exact saveCpuState_holds m _

/-- What the host and the enclave find when they are switched back in.  For the host, after an enclave
it has run or resumed has left; for the enclave, when it is resumed after the host and the other
enclaves have done anything but run, resume or destroy it.  Each finds its registers and CSRs as they
were, behind its `ecall`, exactly when `sscratch` and `sie` have been left as they were. -/
theorem contexts_continue_iff (L : Layout) (m₀ : Machine) (as : List Activity)
    (m m₁ m₂ m₃ : Machine) (e : Word)
    (hreach : runActivities false L (started false L m₀) as = some m)
    (hexcursion : Excursion L e m m₁ m₂ m₃) :
    (Continues m m₃ ↔ SameUnswitched m m₂) ∧
      ∀ m₄ m₅, Return L e m₃ m₄ m₅ → (Continues m₂ m₅ ↔ SameUnswitched m₂ m₄) := by
  have hinv := reachable_tableInvariants hreach
  rcases hexcursion.hostState hinv with ⟨hinv₂, hholds, hcur⟩
  rcases hexcursion.exit with ⟨input, hact⟩
  have hm₃ := act_exit hinv₂ hexcursion.running hexcursion.exitCall hact
  have hinv₃ := (act_cases hinv₂ hact).tableInvariants hinv₂
  refine ⟨?_, fun m₄ m₅ hreturn => ?_⟩
  · rw [hm₃]
    exact (exited_switchedTo L m₂).continues_iff hholds
  · -- the slot has the context of the exit, until the enclave is resumed
    have hslot : m₃.enclaves e =
        { m₂.enclaves e with
          status := Status.idle.val
          enclState := saveCpuState m₂.csrs m₂.regs (m₂.enclaves e).enclState } := by
      rw [hm₃, ← hcur]
      exact Function.update_self _ _ _
    rcases hreturn.between with ⟨es, hrun⟩
    rcases run_slot_kept hrun hinv₃ (.inl (by rw [hslot])) with ⟨hinv₄, hkept⟩
    rcases hreturn.enter with ⟨input', hact'⟩
    rw [act_resume hinv₄ hreturn.host hreturn.call hact' hreturn.entered, hkept, hslot]
    exact (resumed_switchedTo L m₄ e _).continues_iff (saveCpuState_holds m₂ _)

/-- The host creates an enclave and is about to run it. -/
def creation : List Activity :=
  [.compute (callRegs NR_create_enclave 0 0x80200000 0 0x1000 0x1000 0x2000) (fun _ => 0), .ecall 0,
    .compute (callRegs NR_run_enclave 0 0 0 0 0 0) (fun _ => 0)]

/-- An enclave that leaves `sscratch` and `sie` alone and sets the other CSRs gives the host its context back. -/
theorem contexts_continue_iff_leave :
    ∃ m m₁ m₂ m₃, runActivities false imageLayout (started false imageLayout resetMachine) (creation ++
        [.compute (callRegs NR_run_enclave 0 0 0 0 0 0) (fun _ => 0x200)]) = some m ∧
      Excursion imageLayout 0 m m₁ m₂ m₃ ∧ csrRead m.csrs .stvec = 0x200 ∧ csrRead m.csrs .sie = 0x200 ∧
      csrRead m₂.csrs .stvec = 0x400 ∧ Continues m m₃ := by
  have hexcursion : ∃ m m₁ m₂ m₃, runActivities false imageLayout (started false imageLayout resetMachine)
        (creation ++ [.compute (callRegs NR_run_enclave 0 0 0 0 0 0) (fun _ => 0x200)]) = some m ∧
      Excursion imageLayout 0 m m₁ m₂ m₃ ∧ csrRead m.csrs .stvec = 0x200 ∧ csrRead m.csrs .sie = 0x200 ∧
      csrRead m₂.csrs .stvec = 0x400 ∧ SameUnswitched m m₂ := by
    refine ⟨_, _, _, _, rfl, ⟨rfl, .inl rfl, ⟨0, rfl⟩, by decide, ⟨[.compute (callRegs NR_exit_enclave 0 0 0 0 0 0)
      (fun c => if c = .sscratch ∨ c = .sie then 0x200 else 0x400)], .cons (by decide) rfl (.nil _)⟩, by decide, rfl,
      ⟨0, rfl⟩⟩, ?_⟩
    exact ⟨by decide, by decide, by decide, by decide, by decide⟩
  rcases hexcursion with ⟨m, m₁, m₂, m₃, hreach, hexcursion, hstvec, hsie, hset, hsame⟩
  have hiff := contexts_continue_iff imageLayout resetMachine _ m m₁ m₂ m₃ 0 hreach hexcursion
  exact ⟨m, m₁, m₂, m₃, hreach, hexcursion, hstvec, hsie, hset, hiff.1.mpr hsame⟩

/-- An enclave that sets `sscratch` sets it for the host. -/
theorem enclave_changes_host_sscratch :
    ∃ m m₁ m₂ m₃, runActivities false imageLayout (started false imageLayout resetMachine) creation
        = some m ∧ Excursion imageLayout 0 m m₁ m₂ m₃ ∧ ¬ Continues m m₃ := by
  refine ⟨_, _, _, _, rfl, ⟨rfl, .inl rfl, ⟨0, rfl⟩, by decide, ⟨[.compute
    (callRegs NR_exit_enclave 0 0 0 0 0 0) (fun c => if c = .sscratch then 1 else 0)],
    .cons (by decide) rfl (.nil _)⟩, by decide, rfl, ⟨0, rfl⟩⟩, fun hcontinues => ?_⟩
  exact absurd (hcontinues.csrs .sscratch (by decide)) (by decide)

end RoundTrips

/-! ## Fresh enclaves -/

/-- The host creates an enclave, spares it for a while and runs it. -/
structure Launch (L : Layout) (e entry secureLower secureUpper sharedLower sharedUpper : Word)
    (m m₁ m₂ m₃ : Machine) : Prop where
  createCall : Call.ofRegs m.regs =
    some (.create e entry secureLower secureUpper sharedLower sharedUpper)
  created : (Call.create e entry secureLower secureUpper sharedLower sharedUpper).Enabled m
  create : ∃ input, act false L m (.ecall input) = some m₁
  between : ∃ es, RunIn (act false L) (Spares e) m₁ es m₂
  host : m₂.enclaveMode = 0
  runCall : Call.ofRegs m₂.regs = some (.run e)
  run : ∃ input, act false L m₂ (.ecall input) = some m₃
  running : m₃.enclaveMode ≠ 0

/-- Two machines have the same context. -/
structure SameContext (m m' : Machine) : Prop where
  regs : m.regs = m'.regs
  mepc : readCsrs m.csrs .mepc = readCsrs m'.csrs .mepc
  csrs : ∀ c ∈ contextCsrs, readCsrs m.csrs c = readCsrs m'.csrs c

section Launches

variable {L : Layout} {e entry secureLower secureUpper sharedLower sharedUpper : Word}
  {m m₁ m₂ m₃ m' m₁' m₂' m₃' : Machine}

theorem entryState_shown_mepc (enclave : Enclave) : (entryState enclave).shown .mepc = enclave.entry := by
  simp only [CpuState.shown, entryState, Function.update_self]
  exact BitVec.and_allOnes

theorem entryState_shown_of_ne (enclave : Enclave) (hd : d ≠ .mepc) :
    (entryState enclave).shown d = enclave.enclState.shown d := by
  simp only [CpuState.shown, entryState, Function.update_of_ne hd]

/-- The context in which an enclave starts: what its slot was left with, and what the host has in the
CSRs that are not switched. -/
theorem Launch.context
    (h : Launch L e entry secureLower secureUpper sharedLower sharedUpper m m₁ m₂ m₃)
    (hinv : TableInvariants m) :
    m₃.regs = (fun _ => 0) ∧ readCsrs m₃.csrs .mepc = entry ∧
      (∀ c d, c ∈ contextCsrs → switched c = some d →
        readCsrs m₃.csrs c = (m.enclaves e).enclState.shown d) ∧
      ∀ c, switched c = none → readCsrs m₃.csrs c = readCsrs m₂.csrs c := by
  rcases h.create with ⟨input, hact⟩
  have hinv₁ := (act_cases hinv hact).tableInvariants hinv
  have hslot : m₁.enclaves e = ⟨Status.fresh.val, entry, secureLower, secureUpper, sharedLower,
      sharedUpper, (m.enclaves e).enclState⟩ := by
    rcases act_call hinv h.createCall hact with ⟨r, m', hstep, rfl⟩
    cases hstep with
    | failed hfail => exact absurd h.created hfail
    | create => exact Function.update_self _ _ _
  rcases h.between with ⟨es, hrun⟩
  rcases run_slot_kept hrun hinv₁ (.inr (by rw [hslot])) with ⟨hinv₂, hkept⟩
  rcases h.run with ⟨input', hact'⟩
  have hm₃ := act_run hinv₂ h.host h.runCall hact' h.running
  rw [hkept, hslot] at hm₃
  have hregs : m₃.regs = (fun _ => 0) := by
    rw [hm₃]
    show Function.update (copyPtRegs m₂.regs (fun _ => 0)) .a0 0 = _
    rw [copyPtRegs_eq]
    exact Function.update_eq_self _ _
  have hcsrs : readCsrs m₃.csrs = readCsrs (restoreStateCsrs m₂.csrs
      (entryState ⟨Status.fresh.val, entry, secureLower, secureUpper, sharedLower, sharedUpper,
        (m.enclaves e).enclState⟩)) := by
    rw [hm₃]
    simp only [returned, resumed, ne_eq, not_true_eq_false, Bool.false_eq_true, if_false,
      readCsrs_lastCsrs, readCsrs_chmodCsrs]
  refine ⟨hregs, ?_, fun c d hc hsw => ?_, fun c hsw => ?_⟩
  · rw [hcsrs, readCsrs_restoreStateCsrs_of_some _ _ (d := .mepc) rfl, entryState_shown_mepc]
  · have hne : d ≠ .mepc := by
      rintro rfl
      revert hc
      cases c <;> cases hsw
      decide
    rw [hcsrs, readCsrs_restoreStateCsrs_of_some _ _ hsw, entryState_shown_of_ne _ hne]
  · rw [hcsrs, readCsrs_restoreStateCsrs_of_none _ _ hsw]

/-- The S-mode CSRs that an earlier occupant of a slot leaves in its save area. -/
def leftBehind : List StateCsr :=
  [.satp, .stvec, .scounteren, .stval, .scause, .sepc, .sstatus]

/-- Two enclaves that are created alike under one number start alike exactly when the slots' save areas
hold the same S-mode CSRs, from whoever had the slots before, and the two hosts have the same in
`sscratch` and `sie`.  The general registers and the entry point are always the same. -/
theorem fresh_context_iff (L : Layout) (m₀ m₀' : Machine) (as as' : List Activity)
    (m m₁ m₂ m₃ m' m₁' m₂' m₃' : Machine)
    (e entry secureLower secureUpper sharedLower sharedUpper : Word)
    (hreach : runActivities false L (started false L m₀) as = some m)
    (hreach' : runActivities false L (started false L m₀') as' = some m')
    (hlaunch : Launch L e entry secureLower secureUpper sharedLower sharedUpper m m₁ m₂ m₃)
    (hlaunch' : Launch L e entry secureLower secureUpper sharedLower sharedUpper m' m₁' m₂' m₃') :
    SameContext m₃ m₃' ↔
      (∀ d ∈ leftBehind,
        (m.enclaves e).enclState.shown d = (m'.enclaves e).enclState.shown d) ∧
      SameUnswitched m₂' m₂ := by
  rcases hlaunch.context (reachable_tableInvariants hreach) with ⟨hregs, hmepc, hsw, hun⟩
  rcases hlaunch'.context (reachable_tableInvariants hreach') with ⟨hregs', hmepc', hsw', hun'⟩
  have hname : ∀ d ∈ leftBehind, ∃ c, c ∈ contextCsrs ∧ switched c = some d := by
    intro d hd
    cases d <;> first
      | exact ⟨.satp, by decide, rfl⟩
      | exact ⟨.stvec, by decide, rfl⟩
      | exact ⟨.scounteren, by decide, rfl⟩
      | exact ⟨.stval, by decide, rfl⟩
      | exact ⟨.scause, by decide, rfl⟩
      | exact ⟨.sepc, by decide, rfl⟩
      | exact ⟨.sstatus, by decide, rfl⟩
      | (revert hd; decide)
  constructor
  · intro h
    refine ⟨fun d hd => ?_, ?_, ?_⟩
    · rcases hname d hd with ⟨c, hc, hcd⟩
      rw [← hsw c d hc hcd, ← hsw' c d hc hcd]
      exact h.csrs c hc
    · rw [← hun .sscratch rfl, ← hun' .sscratch rfl]
      exact h.csrs .sscratch (by decide)
    · rw [← hun .sie rfl, ← hun' .sie rfl]
      exact h.csrs .sie (by decide)
  · rintro ⟨hleft, hscratch, hsie⟩
    refine ⟨hregs.trans hregs'.symm, hmepc.trans hmepc'.symm, fun c hc => ?_⟩
    cases hcd : switched c with
    | some d =>
        rw [hsw c d hc hcd, hsw' c d hc hcd]
        apply hleft
        revert hc
        cases c <;> cases hcd <;> decide
    | none =>
        rw [hun c hcd, hun' c hcd]
        cases c with
        | sscratch => exact hscratch
        | sie => exact hsie
        | _ => cases hcd

/-- The host is about to create an enclave. -/
def beforeCreation : List Activity :=
  [.compute (callRegs NR_create_enclave 0 0x80200000 0 0x1000 0x1000 0x2000) (fun _ => 0)]

/-- The same, after an enclave with the same number has set its trap vector, left and been destroyed. -/
def beforeRecreation : List Activity :=
  creation ++
    [.ecall 0,
      .compute (callRegs NR_exit_enclave 0 0 0 0 0 0) (fun c => if c = .stvec then 4 else 0), .ecall 0,
      .compute (callRegs NR_destroy_enclave 0 0 0 0 0 0) (fun _ => 0), .ecall 0] ++
    beforeCreation

/-- The first enclave of a machine starts the same whenever it is run. -/
theorem fresh_context_iff_first :
    ∃ m m₁ m₂ m₃ m₂' m₃', runActivities false imageLayout (started false imageLayout resetMachine)
        beforeCreation = some m ∧
      Launch imageLayout 0 0x80200000 0 0x1000 0x1000 0x2000 m m₁ m₂ m₃ ∧
      Launch imageLayout 0 0x80200000 0 0x1000 0x1000 0x2000 m m₁ m₂' m₃' ∧ SameContext m₃ m₃' := by
  have hlaunches : ∃ m m₁ m₂ m₃ m₂' m₃', runActivities false imageLayout
      (started false imageLayout resetMachine) beforeCreation = some m ∧
      Launch imageLayout 0 0x80200000 0 0x1000 0x1000 0x2000 m m₁ m₂ m₃ ∧
      Launch imageLayout 0 0x80200000 0 0x1000 0x1000 0x2000 m m₁ m₂' m₃' ∧
      SameUnswitched m₂' m₂ := by
    refine ⟨_, _, _, _, _, _, rfl,
      ⟨rfl, by decide, ⟨0, rfl⟩, ⟨[.compute (callRegs NR_run_enclave 0 0 0 0 0 0) (fun _ => 0)],
        .cons trivial rfl (.nil _)⟩, rfl, rfl, ⟨0, rfl⟩, by decide⟩,
      ⟨rfl, by decide, ⟨0, rfl⟩, ⟨[.write 0x80201000 1,
        .compute (callRegs NR_run_enclave 0 0 0 0 0 0) (fun c => if c = .stvec then 4 else 0)],
        .cons trivial rfl (.cons trivial rfl (.nil _))⟩, rfl, rfl, ⟨0, rfl⟩, by decide⟩, ?_⟩
    exact ⟨by decide, by decide⟩
  rcases hlaunches with ⟨m, m₁, m₂, m₃, m₂', m₃', hreach, hlaunch, hlaunch', hsame⟩
  have hiff := fresh_context_iff imageLayout resetMachine resetMachine beforeCreation beforeCreation
    m m₁ m₂ m₃ m m₁ m₂' m₃' 0 0x80200000 0 0x1000 0x1000 0x2000 hreach hreach hlaunch hlaunch'
  exact ⟨m, m₁, m₂, m₃, m₂', m₃', hreach, hlaunch, hlaunch', hiff.mpr ⟨fun _ _ => rfl, hsame⟩⟩

/-- An enclave starts with the trap vector of an enclave that has been destroyed. -/
theorem fresh_context_depends_on_past :
    ∃ m m₁ m₂ m₃ m' m₁' m₂' m₃', runActivities false imageLayout
        (started false imageLayout resetMachine) beforeCreation = some m ∧
      runActivities false imageLayout (started false imageLayout resetMachine) beforeRecreation
        = some m' ∧
      Launch imageLayout 0 0x80200000 0 0x1000 0x1000 0x2000 m m₁ m₂ m₃ ∧
      Launch imageLayout 0 0x80200000 0 0x1000 0x1000 0x2000 m' m₁' m₂' m₃' ∧
      ¬ SameContext m₃ m₃' := by
  refine ⟨_, _, _, _, _, _, _, _, rfl, rfl,
    ⟨rfl, by decide, ⟨0, rfl⟩, ⟨[.compute (callRegs NR_run_enclave 0 0 0 0 0 0) (fun _ => 0)],
      .cons trivial rfl (.nil _)⟩, rfl, rfl, ⟨0, rfl⟩, by decide⟩,
    ⟨rfl, by decide, ⟨0, rfl⟩, ⟨[.compute (callRegs NR_run_enclave 0 0 0 0 0 0) (fun _ => 0)],
      .cons trivial rfl (.nil _)⟩, rfl, rfl, ⟨0, rfl⟩, by decide⟩, fun hsame => ?_⟩
  exact absurd (hsame.csrs .stvec (by decide)) (by decide)

end Launches

end Keystone
end Serval
