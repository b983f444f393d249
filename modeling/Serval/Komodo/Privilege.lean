import Serval.Komodo.Steps

/-!
# Privilege — the mode in which the host and an enclave continue

The machine of `Runs` has no privilege mode.  Here a hart has one, as the hardware keeps it: a trap to
the monitor records the interrupted mode in `mstatus.MPP`, `mret` returns to the mode found there, and
code in S-mode drops to U-mode with `sret`.  Neither `enter_secure_world` nor `leave_secure_world` saves
or restores `MPP`, so whoever continues does so in the mode of whoever trapped last.
-/

namespace Serval
namespace Komodo

open Riscv

/-! ## Modes -/

inductive Mode
  | u | s | m
  deriving DecidableEq, Repr

def SR_SIE : Word := 1 <<< 1
def SR_SPIE : Word := 1 <<< 5
def SR_SPP : Word := 1 <<< 8

def EXC_ECALL_U : Word := 8
def EXC_INST_PAGE_FAULT : Word := 12

/-- A mode as the field `MPP` holds it. -/
def Mode.mpp : Mode → Word
  | .u => 0
  | .s => SR_MPP_S
  | .m => SR_MPP

/-- The mode in the field `MPP` of a value of `mstatus`. -/
def Mode.ofMpp (mstatus : Word) : Mode :=
  if SR_MPP &&& mstatus = SR_MPP_S then .s else if SR_MPP &&& mstatus = SR_MPP then .m else .u

def setMpp (f : CsrFile) (mode : Mode) : CsrFile :=
  csrWrite f .mstatus ((f .mstatus &&& ~~~SR_MPP) ||| mode.mpp)

/-- The CSRs of a context after `sret`: it continues at `sepc`. -/
def sretCsr (csr : SavedCsr → Word) : SavedCsr → Word :=
  let sie := if SR_SPIE &&& csr .sstatus ≠ 0 then SR_SIE else 0
  let sstatus := (csr .sstatus &&& ~~~(SR_SPP ||| SR_SIE)) ||| sie ||| SR_SPIE
  Function.update (Function.update csr .sstatus sstatus) .mepc (csr .sepc)

/-- The CSRs of a context whose trap is delegated: its handler starts at `stvec`. -/
def strapCsr (mode : Mode) (cause stval : Word) (csr : SavedCsr → Word) : SavedCsr → Word :=
  let spp := if mode = .u then 0 else SR_SPP
  let spie := if SR_SIE &&& csr .sstatus ≠ 0 then SR_SPIE else 0
  let sstatus := (csr .sstatus &&& ~~~(SR_SPP ||| SR_SPIE ||| SR_SIE)) ||| spp ||| spie
  let csr' := Function.update (Function.update csr .scause cause) .stval stval
  Function.update (Function.update (Function.update csr' .sepc (csr .mepc)) .sstatus sstatus) .mepc
    (csr .stvec)

/-- Interrupts have the top bit of their cause set. -/
def delegated (f : CsrFile) (cause : Word) : Bool :=
  if cause.msb then (f .mideleg).getLsbD (cause.toNat % 2 ^ 63) else (f .medeleg).getLsbD cause.toNat

/-- An `ecall` says in its cause which mode it comes from. -/
def Mode.raises (mode : Mode) (cause : Word) : Prop :=
  (cause = EXC_ECALL_S → mode = .s) ∧ (cause = EXC_ECALL_U → mode = .u)

instance (mode : Mode) (cause : Word) : Decidable (mode.raises cause) :=
  inferInstanceAs (Decidable (_ ∧ _))

/-! ## Harts -/

structure Hart where
  mode : Mode
  machine : Machine

inductive HartEvent
  -- the current context computes in its mode
  | run (gpr : PtRegs) (csr : SavedCsr → Word)
  | sret
  | delegatedTrap (cause stval : Word)
  | trap (cause : Word)
  | enclaveWrite (page off value : Word)
  | insecureWrite (page off value : Word)

/-- `mret`: the hart takes the mode of `MPP`, and `MPP` becomes U. -/
def mret (m : Machine) : Hart :=
  ⟨.ofMpp (m.csrs .mstatus), { m with csrs := setMpp m.csrs .u }⟩

/-- An event of the machine that does not change the mode. -/
def Hart.keepMode (L : Layout) (h : Hart) (e : Event) : Option Hart :=
  (h.machine.step L e).map (fun m => ⟨h.mode, m⟩)

/-- One event.  An event that cannot happen in the state of the hart does not happen. -/
def Hart.step (L : Layout) (h : Hart) : HartEvent → Option Hart
  | .run gpr csr =>
      -- U-mode has no CSRs but its program counter
      h.keepMode L (.run gpr
        (if h.mode = .u then Function.update (readCsrs h.machine.csrs) .mepc (csr .mepc) else csr))
  | .sret =>
      if h.mode = .s then
        let csr := readCsrs h.machine.csrs
        let mode := if SR_SPP &&& csr .sstatus ≠ 0 then Mode.s else .u
        Hart.keepMode L ⟨mode, h.machine⟩ (.run h.machine.regs (sretCsr csr))
      else
        some h
  | .delegatedTrap cause stval =>
      if h.mode ≠ .m ∧ h.mode.raises cause ∧ delegated h.machine.csrs cause = true then
        Hart.keepMode L ⟨.s, h.machine⟩
          (.run h.machine.regs (strapCsr h.mode cause stval (readCsrs h.machine.csrs)))
      else
        some h
  | .trap cause =>
      if h.mode ≠ .m ∧ h.mode.raises cause ∧ delegated h.machine.csrs cause = false then
        (trap L cause { h.machine with csrs := setMpp h.machine.csrs h.mode }).map mret
      else
        some h
  | .enclaveWrite page off value => h.keepMode L (.enclaveWrite page off value)
  | .insecureWrite page off value => h.keepMode L (.insecureWrite page off value)

def runHart (L : Layout) : Hart → List HartEvent → Option Hart
  | h, [] => some h
  | h, e :: es =>
      match h.step L e with
      | some h' => runHart L h' es
      | none => none

/-- The hart that starts the payload. -/
def started (L : Layout) (frame : PtRegs) (hartid dtb : Word) (m : Machine) : Hart :=
  mret (booted L frame hartid dtb m)

/-! ## The field `MPP` -/

theorem mpp_setMpp (f : CsrFile) (mode : Mode) : SR_MPP &&& setMpp f mode .mstatus = mode.mpp := by
  have hclear : SR_MPP &&& ~~~SR_MPP = 0#64 := by decide
  have hmode : SR_MPP &&& mode.mpp = mode.mpp := by cases mode <;> decide
  rw [setMpp, csrWrite_mstatus_self, BitVec.and_or_distrib_left, hmode,
    BitVec.and_comm (f .mstatus), ← BitVec.and_assoc, hclear, BitVec.zero_and, BitVec.zero_or]

/-- Bits of `mstatus` other than `MPP` keep their values. -/
theorem and_setMpp (f : CsrFile) (mode : Mode) {k : Word} (hk : SR_MPP &&& k = 0#64) :
    setMpp f mode .mstatus &&& k = f .mstatus &&& k := by
  have hclear : ~~~SR_MPP &&& k = k := by
    ext i hi
    have hbit : (SR_MPP[i] && k[i]) = false := by
      rw [← BitVec.getElem_and, hk, BitVec.getElem_zero]
    simp only [BitVec.getElem_and, BitVec.getElem_not]
    cases hm : SR_MPP[i] with
    | false => simp
    | true => simpa [hm] using hbit
  have hmode : mode.mpp &&& k = 0#64 := by
    have hle : mode.mpp &&& SR_MPP = mode.mpp := by cases mode <;> decide
    rw [← hle, BitVec.and_assoc, hk, BitVec.and_zero]
  rw [setMpp, csrWrite_mstatus_self, BitVec.and_or_distrib_right, BitVec.and_assoc, hclear, hmode,
    BitVec.or_zero]

theorem ofMpp_eq {w : Word} {mode : Mode} (h : SR_MPP &&& w = mode.mpp) : Mode.ofMpp w = mode := by
  rw [Mode.ofMpp, h]
  cases mode <;> decide

/-- `MPP` is not part of a context. -/
theorem readCsrs_setMpp (f : CsrFile) (mode : Mode) : readCsrs (setMpp f mode) = readCsrs f := by
  apply readCsrs_csrWrite_mstatus
  have hkeep := and_setMpp f mode (k := sstatusMask) (by decide)
  rwa [setMpp, csrWrite_mstatus_self] at hkeep

theorem absFunction_setMpp (g : Ghost) (m : Machine) (mode : Mode) :
    absFunction g { m with csrs := setMpp m.csrs mode } = absFunction g m :=
  congrArg (fun csr => { absFunction g m with regs := ⟨m.regs, csr⟩ }) (readCsrs_setMpp m.csrs mode)

theorem RunInvariants.setMpp {L : Layout} {m : Machine} (h : RunInvariants L m) (mode : Mode) :
    RunInvariants L { m with csrs := setMpp m.csrs mode } := by
  rcases h.state with ⟨g, hstate⟩
  refine ⟨?_, ?_, g, ?_⟩
  · exact ⟨h.mregions.1, h.mregions.2, h.mregions.3, h.mregions.4, h.mregions.5, h.mregions.6,
      h.mregions.7⟩
  · intro hmode
    have hkeep := and_setMpp m.csrs mode (k := SR_TVM) (by decide)
    rw [BitVec.and_comm, hkeep, BitVec.and_comm]
    exact h.tvm hmode
  · rw [absFunction_setMpp]
    exact hstate

/-! ## Runs of a hart -/

section Steps

variable {L : Layout} {h h' : Hart}

theorem keepMode_runInvariants {e : Event} (hstep : h.keepMode L e = some h')
    (hinv : RunInvariants L h.machine) : RunInvariants L h'.machine := by
  rcases step_runInvariants hinv e with ⟨m', hrun, h₁⟩
  rw [Hart.keepMode, hrun] at hstep
  cases hstep
  exact h₁

/-- A trap that the monitor takes: it handles the trap with the interrupted mode in `MPP`, and the hart
continues in that mode. -/
theorem trap_cases {cause : Word} (hinv : RunInvariants L h.machine)
    (hstep : h.step L (.trap cause) = some h') :
    h' = h ∨ (h.mode.raises cause ∧ h'.mode = h.mode ∧ RunInvariants L h'.machine) := by
  rw [Hart.step] at hstep
  split at hstep
  · next hguard =>
      right
      have hinv₁ := hinv.setMpp h.mode
      rcases hinv₁.state with ⟨g, _⟩
      rcases trap_implements L g hinv₁.mregions cause with ⟨m', hrun, _, himpl⟩
      have hinv' : RunInvariants L m' := hinv₁.of_step (e := .trap cause) hrun
      rw [hrun] at hstep
      cases hstep
      refine ⟨hguard.2.1, ofMpp_eq ?_, hinv'.setMpp .u⟩
      exact himpl.mpp.trans (mpp_setMpp _ _)
  · left
    cases hstep
    rfl

theorem step_hart_runInvariants {e : HartEvent} (hinv : RunInvariants L h.machine)
    (hstep : h.step L e = some h') : RunInvariants L h'.machine := by
  cases e with
  | run gpr csr => exact keepMode_runInvariants hstep hinv
  | sret | delegatedTrap cause stval =>
      rw [Hart.step] at hstep
      split at hstep
      · exact keepMode_runInvariants hstep hinv
      · cases hstep
        exact hinv
  | trap cause =>
      rcases trap_cases hinv hstep with rfl | ⟨_, _, hinv'⟩
      · exact hinv
      · exact hinv'
  | enclaveWrite page off value | insecureWrite page off value => exact keepMode_runInvariants hstep hinv

theorem runHart_runInvariants (es : List HartEvent) :
    ∀ {h : Hart}, RunInvariants L h.machine → runHart L h es = some h' →
      RunInvariants L h'.machine := by
  induction es with
  | nil =>
      intro h hinv hrun
      cases hrun
      exact hinv
  | cons e es ih =>
      intro h hinv hrun
      rw [runHart] at hrun
      split at hrun
      · next h₁ hstep => exact ih (step_hart_runInvariants hinv hstep) hrun
      · cases hrun

end Steps

theorem started_runInvariants (L : Layout) (frame : PtRegs) (hartid dtb : Word) (m : Machine) :
    RunInvariants L (started L frame hartid dtb m).machine :=
  (booted_runInvariants L frame hartid dtb m).setMpp .u

/-- The host asks for the dispatcher `d` to be resumed. -/
def Hart.resumes (h : Hart) (e : HartEvent) (d : Word) : Prop :=
  e = .trap EXC_ECALL_S ∧ h.machine.issues (.trap EXC_ECALL_S) (.resume d)

/-- When a trap ends the execution of an enclave, the host continues in S-mode exactly if the enclave
was in S-mode; and a later resume of the enclave continues in the mode of that trap exactly if it was
S-mode. -/
theorem privilege_restored_iff (L : Layout) (frame : PtRegs) (hartid dtb : Word) (m₀ : Machine)
    (es₀ : List HartEvent) (h : Hart) (hreach : runHart L (started L frame hartid dtb m₀) es₀ = some h)
    (henclave : h.machine.enclaveMode ≠ 0) (cause : Word) (h₁ : Hart)
    (hstep : h.step L (.trap cause) = some h₁) (hleft : h₁.machine.enclaveMode = 0) :
    (h₁.mode = .s ↔ h.mode = .s) ∧
      ∀ es h₂ h₃,
        RunIn (Hart.step L) (fun h' e => ¬ h'.resumes e h.machine.gCurDispatcherPageno) h₁ es h₂ →
        h₂.resumes (.trap EXC_ECALL_S) h.machine.gCurDispatcherPageno →
        h₂.step L (.trap EXC_ECALL_S) = some h₃ → h₃.machine.enclaveMode ≠ 0 →
        (h₃.mode = h.mode ↔ h.mode = .s) := by
  have hinv := runHart_runInvariants es₀ (started_runInvariants L frame hartid dtb m₀) hreach
  rcases trap_cases hinv hstep with rfl | ⟨_, hmode, hinv₁⟩
  · exact absurd hleft henclave
  refine ⟨by rw [hmode], ?_⟩
  intro es h₂ h₃ hrun hcall hresume hin
  have hinv₂ := hrun.invariant (I := fun h => RunInvariants L h.machine)
    (fun _ hstep hinv => step_hart_runInvariants hinv hstep) hinv₁
  rcases trap_cases hinv₂ hresume with rfl | ⟨hraises, hmode₃, _⟩
  · exact absurd hcall.2.1 hin
  · -- the call came from S-mode, and so does the enclave continue
    rw [hmode₃, hraises.1 rfl, eq_comm]

/-- The events of a call of the host. -/
def smcHartEvents (nr a0 a1 a2 : Word) : List HartEvent :=
  [.run (smcRegs nr a0 a1 a2) (fun _ => 0), .trap EXC_ECALL_S]

/-- An enclave is built in pages 0 to 2, entered, and runs. -/
def enclaveHartEvents : List HartEvent :=
  smcHartEvents KOM_SMC_INIT_ADDRSPACE 0 1 0 ++ smcHartEvents KOM_SMC_INIT_DISPATCHER 2 0 0 ++
    smcHartEvents KOM_SMC_FINALISE 0 0 0 ++ smcHartEvents KOM_SMC_ENTER 2 7 0

/-- An enclave that stays in S-mode is interrupted by the timer. -/
theorem privilege_restored_iff_timer :
    ∃ h h₁,
      runHart imageLayout (started imageLayout (fun _ => 0) 0 0 (resetMachine imageLayout))
        enclaveHartEvents = some h ∧ h.machine.enclaveMode ≠ 0 ∧ h.mode = .s ∧
      h.step imageLayout (.trap 0x8000000000000005) = some h₁ ∧ h₁.machine.enclaveMode = 0 ∧
      (h₁.mode = .s ↔ h.mode = .s) := by
  refine ⟨_, _, rfl, ?_, rfl, rfl, rfl, ?_⟩
  · decide
  · refine (privilege_restored_iff imageLayout (fun _ => 0) 0 0 (resetMachine imageLayout)
      enclaveHartEvents _ rfl ?_ 0x8000000000000005 _ rfl rfl).1
    decide

/-- An enclave drops to U-mode, where its next fetch faults: the host continues in U-mode.  When the
host is back in S-mode and resumes the enclave, the enclave continues in S-mode. -/
theorem enclave_changes_host_mode :
    ∃ h h₁ h₂ h₃,
      runHart imageLayout (started imageLayout (fun _ => 0) 0 0 (resetMachine imageLayout))
        (enclaveHartEvents ++ [.run (fun _ => 0) (fun _ => 0), .sret]) = some h ∧
      h.machine.enclaveMode ≠ 0 ∧ h.machine.gCurDispatcherPageno = 2 ∧
      h.step imageLayout (.trap EXC_INST_PAGE_FAULT) = some h₁ ∧ h₁.machine.enclaveMode = 0 ∧
      h₁.mode ≠ .s ∧
      RunIn (Hart.step imageLayout) (fun h' e => ¬ h'.resumes e 2) h₁
        [.delegatedTrap EXC_ECALL_U 0, .run (smcRegs KOM_SMC_RESUME 2 0 0) (fun _ => 0)] h₂ ∧
      h₂.resumes (.trap EXC_ECALL_S) 2 ∧ h₂.step imageLayout (.trap EXC_ECALL_S) = some h₃ ∧
      h₃.machine.enclaveMode ≠ 0 ∧ h₃.mode ≠ h.mode := by
  refine ⟨_, _, _, _, rfl, ?_, rfl, rfl, rfl, ?_, .cons ?_ rfl (.cons ?_ rfl (.nil _)),
    ⟨rfl, rfl, rfl, rfl⟩, rfl, ?_, ?_⟩
  · decide
  · decide
  · exact fun hcall => by cases hcall.1
  · exact fun hcall => by cases hcall.1
  · decide
  · decide

end Komodo
end Serval
