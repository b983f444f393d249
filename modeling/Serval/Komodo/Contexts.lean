import Serval.Komodo.Steps

/-!
# Contexts — what the host and its enclaves find when they continue

The monitor keeps two contexts: the host's in `host_state` while an enclave runs, and an enclave's in
its dispatcher page while it is suspended.  The first is out of reach in enclave mode, where no call of
the host is served.  The second lies in a page of a final address space, which no call reaches but a
stop of the address space and a resume of the dispatcher.
-/

namespace Serval
namespace Komodo

open Riscv

variable {d : Word} {m : Machine}

/-! ## The host's context -/

/-- While an enclave runs, the monitor holds `host` for the host and `d` is the dispatcher. -/
def HostWaits (host : Regs) (d : Word) (s : State) : Prop :=
  s.enclaveMode = true → s.hostState = host ∧ s.currentDispatcher = d

theorem HostWaits.stateStep {L : Layout} {host : Regs} {s s' : State} {e : Event} (h : HostWaits host d s)
    (hmode : s.enclaveMode = true) (hstep : StateStep L s e s') :
    HostWaits host d s' := by
  cases hstep with
  | quiet e r => exact h
  | insecureWrite page off value => exact h
  | enclaveWrite value hmay => exact h
  | call hhost hcall hcheck => exact absurd (hhost.symm.trans hmode) Bool.false_ne_true
  -- the enclave has been left
  | exit henclave hexit | suspend henclave hcause => exact fun hfalse => absurd hfalse Bool.false_ne_true

/-- The calls that switch to the enclave of a dispatcher. -/
def Smc.entersAt (d : Word) (call : Smc) : Prop :=
  call = .resume d ∨ ∃ a0 a1 a2, call = .enter d a0 a1 a2

/-- A switch to an enclave puts the host's context aside. -/
theorem HostWaits.of_entersAt (L : Layout) {call : Smc} (hcall : call.entersAt d) (s : State) :
    HostWaits s.regs d (call.effect L s) := by
  rcases hcall with rfl | ⟨a0, a1, a2, rfl⟩
  · exact fun _ => ⟨rfl, rfl⟩
  · exact fun _ => ⟨rfl, rfl⟩

/-- What the host finds when the monitor leaves the enclave of `d`, and what the dispatcher is marked
with. -/
inductive Leaves (host : Regs) (d : Word) (s : State) : Event → State → Prop
  | exit {s' : State} (hexit : s.regs.gpr .a7 = KOM_SVC_EXIT)
      (hregs : s'.regs = (host.setGpr .a0 KomErr.success.val).setGpr .a1 (s.regs.gpr .a0))
      (hentered : s'.dispatcherEntered d = 0) : Leaves host d s (.trap EXC_ECALL_S) s'
  | suspend {s' : State} {cause : Word} (hcause : cause ≠ EXC_ECALL_S)
      (hregs : s'.regs = (host.setGpr .a0 (trapError cause).val).setGpr .a1 cause)
      (hentered : s'.dispatcherEntered d = 1) : Leaves host d s (.trap cause) s'

theorem specLeaveSecureWorld_entered (s : State) (d : Word) (entered : Bool) :
    (specLeaveSecureWorld s d entered).dispatcherEntered d = if entered then 1 else 0 := by
  simp [State.dispatcherEntered, specLeaveSecureWorld, DispatcherField.saved]

/-- The step that leaves the enclave gives the host its context back. -/
theorem HostWaits.leaves {L : Layout} {host : Regs} {s s' : State} {e : Event} (h : HostWaits host d s)
    (hin : s.enclaveMode = true) (hout : s'.enclaveMode = false) (hstep : StateStep L s e s') :
    Leaves host d s e s' := by
  have hstay : s.enclaveMode ≠ false := fun hfalse => Bool.false_ne_true (hfalse.symm.trans hin)
  cases hstep with
  | quiet e r => exact absurd hout hstay
  | insecureWrite page off value => exact absurd hout hstay
  | enclaveWrite value hmay => exact absurd hout hstay
  | call hhost hcall hcheck => exact absurd hhost hstay
  | exit henclave hexit =>
      rw [(h hin).2]
      refine .exit hexit ?_ (specLeaveSecureWorld_entered _ d false)
      rw [← (h hin).1]
      rfl
  | suspend henclave hcause =>
      rw [(h hin).2]
      refine .suspend hcause ?_ (specLeaveSecureWorld_entered _ d true)
      rw [← (h hin).1]
      rfl

/-- The host's context survives the enclave.  From every reachable state of the host, after every call
that switches to the enclave of `d` and every run of the enclave, the step that leaves the enclave
gives the host the registers and CSRs it called with, past its `ecall`, with the answer in `a0` and
`a1`. -/
theorem host_context_restored (L : Layout) (frame : PtRegs) (hartid dtb : Word) (m₀ m : Machine)
    (es₀ : List Event) (hreach : runEvents L (booted L frame hartid dtb m₀) es₀ = some m)
    (call : Smc) (d : Word) (hcall : m.issues (.trap EXC_ECALL_S) call) (hd : call.entersAt d)
    (m₁ : Machine) (henter : m.step L (.trap EXC_ECALL_S) = some m₁) (hin : m₁.enclaveMode ≠ 0)
    (es : List Event) (m₂ : Machine)
    (hrun : RunIn (Machine.step L) (fun m _ => m.enclaveMode ≠ 0) m₁ es m₂)
    (hstill : m₂.enclaveMode ≠ 0) (e : Event) (m₃ : Machine) (hleave : m₂.step L e = some m₃)
    (hout : m₃.enclaveMode = 0) :
    readCsrs m₃.csrs = Function.update (readCsrs m.csrs) .mepc (4 + readCsrs m.csrs .mepc) ∧
      ((e = .trap EXC_ECALL_S ∧ m₂.regs .a7 = KOM_SVC_EXIT ∧
          m₃.regs = Function.update (Function.update m.regs .a0 KomErr.success.val) .a1
            (m₂.regs .a0) ∧
          m₃.securePages d DispatcherField.entered.index = 0) ∨
        ∃ cause, e = .trap cause ∧ cause ≠ EXC_ECALL_S ∧
          m₃.regs = Function.update (Function.update m.regs .a0 (trapError cause).val) .a1 cause ∧
          m₃.securePages d DispatcherField.entered.index = 1) := by
  have h := reachable_runInvariants hreach
  rcases h.state with ⟨g, hown, _⟩
  rcases step_stateStep h hown henter with ⟨g₁, hspec⟩
  have hhost : (absFunction g m).enclaveMode = false := decide_eq_false (not_not.mpr hcall.1)
  -- the call succeeded, so the host's context was put aside
  have hwaits : HostWaits (advanceMepc (absFunction g m)).regs d (absFunction g₁ m₁) := by
    have hin' : (absFunction g₁ m₁).enclaveMode = true := decide_eq_true hin
    generalize absFunction g₁ m₁ = s₁ at hspec hin' ⊢
    cases hspec with
    | quiet e r => exact absurd (hhost.symm.trans hin') Bool.false_ne_true
    | call _ hcall' _ =>
        cases hcall'.symm.trans hcall.2.2
        exact .of_entersAt L hd _
    | exit henclave _ => exact absurd (hhost.symm.trans henclave) Bool.false_ne_true
    | suspend henclave hcause => exact absurd rfl hcause
  have hkept := run_keeps (Q := HostWaits (advanceMepc (absFunction g m)).regs d)
    (fun hQ => hQ)
    (fun hallowed _ _ hstep hQ => hQ.stateStep (decide_eq_true hallowed) hstep)
    hrun (h.of_step henter) hwaits
  rcases hkept.1.state with ⟨g₂, hown₂, _⟩
  rcases step_stateStep hkept.1 hown₂ hleave with ⟨g₃, hspec₃⟩
  have hleaves := (hkept.2 g₂).leaves (decide_eq_true hstill)
    (decide_eq_false (not_not.mpr hout)) hspec₃
  cases hleaves with
  | exit hexit hregs hentered =>
      exact ⟨congrArg Regs.csr hregs, .inl ⟨rfl, hexit, congrArg Regs.gpr hregs, hentered⟩⟩
  | suspend hcause hregs hentered =>
      exact ⟨congrArg Regs.csr hregs, .inr ⟨_, rfl, hcause, congrArg Regs.gpr hregs, hentered⟩⟩

/-- A small enclave is built and entered, and exits with 42. -/
theorem host_context_restored_exit :
    ∃ m m₁ m₂ m₃,
      runEvents imageLayout (booted imageLayout (fun _ => 0) 0 0 (resetMachine imageLayout))
        (buildEvents ++ [.run (smcRegs KOM_SMC_ENTER 2 7 0) (fun _ => 5)]) = some m ∧
      m.step imageLayout (.trap EXC_ECALL_S) = some m₁ ∧ m₁.enclaveMode ≠ 0 ∧
      RunIn (Machine.step imageLayout) (fun m _ => m.enclaveMode ≠ 0) m₁
        [.run (smcRegs KOM_SVC_EXIT 42 0 0) (fun _ => 6)] m₂ ∧
      m₂.step imageLayout (.trap EXC_ECALL_S) = some m₃ ∧ m₃.enclaveMode = 0 ∧
      readCsrs m₃.csrs = Function.update (readCsrs m.csrs) .mepc (4 + readCsrs m.csrs .mepc) := by
  refine ⟨_, _, _, _, rfl, rfl, ?_, .cons ?_ rfl (.nil _), rfl, rfl, ?_⟩
  · decide
  · decide
  · refine (host_context_restored imageLayout (fun _ => 0) 0 0 (resetMachine imageLayout) _
      (buildEvents ++ [.run (smcRegs KOM_SMC_ENTER 2 7 0) (fun _ => 5)]) rfl
      (.enter 2 7 0 0) 2 ⟨rfl, rfl, rfl⟩ (.inr ⟨7, 0, 0, rfl⟩) _ rfl ?_
      [.run (smcRegs KOM_SVC_EXIT 42 0 0) (fun _ => 6)] _ (.cons ?_ rfl (.nil _)) ?_
      (.trap EXC_ECALL_S) _ rfl rfl).1
    · decide
    · decide
    · decide

/-! ## The context of a suspended enclave -/

/-- `d` is a dispatcher of the final address space `a`, its page holds `words`, and its enclave does
not run. -/
structure Suspended (a d : Word) (words : Word → Word) (s : State) : Prop where
  typed : s.pageTyped d .dispatcher
  owner : s.pagedbAddrspace d = a
  final : s.addrspaceIn a .final
  words : s.pages d = words
  notRunning : s.enclaveMode = true → s.currentDispatcher ≠ d

section Suspended

variable {L : Layout} {a d : Word} {words : Word → Word} {s s' : State} {e : Event}

theorem Suspended.of_samePage (h : Suspended a d words s) (hd : SamePage s s' d)
    (ha : SamePage s s' a) (hrun : s'.enclaveMode = true → s'.currentDispatcher ≠ d) :
    Suspended a d words s' :=
  ⟨(hd.pageTyped _).mp h.typed, hd.owner.symm.trans h.owner, (ha.addrspaceIn _).mp h.final,
    hd.words.symm.trans h.words, hrun⟩

theorem Suspended.of_ghost {g g' : Ghost} (h : Suspended a d words (absFunction g m)) :
    Suspended a d words (absFunction g' m) :=
  ⟨h.typed, h.owner, h.final, h.words, h.notRunning⟩

/-- A trap suspends the running enclave. -/
theorem Suspended.of_suspend (hs : OwnershipInvariants s) (hmode : s.enclaveMode = true)
    (a0 a1 : Word) :
    Suspended (s.pagedbAddrspace s.currentDispatcher) s.currentDispatcher
      (saveDispatcher (s.pages s.currentDispatcher) 1 s.regs)
      (specLeaveSecureWorld (setHostReturn s a0 a1) s.currentDispatcher true) := by
  rcases hs.enclave hmode with ⟨hdisp, hfinal, _⟩
  have hne : s.pagedbAddrspace s.currentDispatcher ≠ s.currentDispatcher :=
    ne_of_pageTyped (hs.owner_addrspace (pageNonfree_of_pageTyped hdisp (by decide))) hdisp
      (by decide)
  refine ⟨hdisp, rfl, ?_, ?_, fun hfalse => absurd hfalse Bool.false_ne_true⟩
  · simpa [State.addrspaceIn, State.addrspaceState, specLeaveSecureWorld, setHostReturn, hne]
      using hfinal
  · simp [specLeaveSecureWorld, setHostReturn]

variable (h : Suspended a d words s)

include h

variable (hs : OwnershipInvariants s)

include hs

/-- The address space of a suspended enclave. -/
theorem Suspended.addrspace : s.pageTyped a .addrspace := by
  rw [← h.owner]
  exact hs.owner_addrspace (pageNonfree_of_pageTyped h.typed (by decide))

/-- A call of the host leaves a suspended enclave alone, unless it stops the address space or resumes
the enclave. -/
theorem Suspended.effect (hentered : words DispatcherField.entered.index ≠ 0) {call : Smc}
    (hhost : s.enclaveMode = false) (hcheck : call.check s = none) (hstop : call ≠ .stop a)
    (hresume : call ≠ .resume d) :
    Suspended a d words (call.effect L s) := by
  have haddrspace := h.addrspace hs
  -- the dispatcher is marked as entered, so it is not entered again
  have henter : ∀ a0 a1 a2, call ≠ .enter d a0 a1 a2 := by
    rintro a0 a1 a2 rfl
    have hzero := (checkEnter_eq_none.mp hcheck).2.2
    rw [State.dispatcherEntered, h.words] at hzero
    exact hentered hzero
  have hd : SamePage s (call.effect L s) d :=
    effect_samePage_of_final hs h.final
      (ownerOf_eq_some.mpr ⟨pageNonfree_of_pageTyped h.typed (by decide), h.owner⟩) hcheck hstop
      henter
  have ha : SamePage s (call.effect L s) a := by
    refine effect_samePage_of_final hs h.final ((hs.addrspace a).mp haddrspace) hcheck hstop ?_
    rintro a0 a1 a2 rfl
    cases pageTyped_unique haddrspace (checkEnter_eq_none.mp hcheck).1
  refine h.of_samePage hd ha ?_
  intro hmode
  cases call with
  | enter d' a0 a1 a2 =>
      rintro (rfl : d' = d)
      exact henter a0 a1 a2 rfl
  | resume d' =>
      rintro (rfl : d' = d)
      exact hresume rfl
  | _ => exact absurd (hhost.symm.trans hmode) Bool.false_ne_true

/-- Leaving another enclave fills the page of another dispatcher. -/
theorem Suspended.leave (hmode : s.enclaveMode = true) (hpages : ∀ q, q ≠ s.currentDispatcher → SamePage s s' q)
    (hout : s'.enclaveMode = false) : Suspended a d words s' := by
  refine h.of_samePage (hpages d (h.notRunning hmode).symm) (hpages a ?_) ?_
  · exact ne_of_pageTyped (h.addrspace hs) (hs.enclave hmode).1 (by decide)
  · exact fun hin => absurd (hout.symm.trans hin) Bool.false_ne_true

theorem Suspended.stateStep (hentered : words DispatcherField.entered.index ≠ 0) (hstep : StateStep L s e s')
    (hstop : ¬ (s.enclaveMode = false ∧ e = .trap EXC_ECALL_S ∧ Smc.ofRegs s.regs.gpr = some (.stop a)))
    (hresume : ¬ (s.enclaveMode = false ∧ e = .trap EXC_ECALL_S ∧ Smc.ofRegs s.regs.gpr = some (.resume d))) :
    Suspended a d words s' := by
  cases hstep with
  | quiet e r | insecureWrite page off value => exact ⟨h.typed, h.owner, h.final, h.words, h.notRunning⟩
  | @enclaveWrite page off value hmay =>
      -- the store goes to a data page
      have hne : ∀ {q : Word} {t : PageType}, s.pageTyped q t → t ≠ .data → SamePage s
          { s with pages := updateCell s.pages page off value } q := by
        intro q t hq ht
        exact ⟨rfl, rfl, by simp [ne_of_pageTyped hq hmay.2.2.1 ht], rfl⟩
      exact h.of_samePage (hne h.typed (by decide)) (hne (h.addrspace hs) (by decide)) h.notRunning
  | call hhost hcall hcheck =>
      have hpast : Suspended a d words (advanceMepc s) :=
        ⟨h.typed, h.owner, h.final, h.words, h.notRunning⟩
      refine hpast.effect hs.advanceMepc hentered hhost
        ((check_advanceMepc _ s).trans hcheck) ?_ ?_
      · rintro rfl
        exact hstop ⟨hhost, rfl, hcall⟩
      · rintro rfl
        exact hresume ⟨hhost, rfl, hcall⟩
  | exit henclave hexit =>
      refine h.leave hs henclave (fun q hq => ?_) rfl
      exact ⟨rfl, rfl, by simp [specLeaveSecureWorld, setHostReturn, advanceMepc, hq], rfl⟩
  | suspend henclave hcause =>
      refine h.leave hs henclave (fun q hq => ?_) rfl
      exact ⟨rfl, rfl, by simp [specLeaveSecureWorld, setHostReturn, hq], rfl⟩

end Suspended

/-- `kom_smc_enter` on a dispatcher that is marked as entered returns before it has changed anything. -/
theorem wp_komSmcEnter_refused (hinv : MregionsInvariants m) (hd : implPageTyped m d .dispatcher)
    (hfinal : m.securePages (m.gPagedb d).addrspacePage KOM_ADDRSPACE_STATE = AddrspaceState.final.val)
    (hentered : m.securePages d DispatcherField.entered.index ≠ 0) (a1 a2 a3 : Word) :
    Ctl.wp (komSmcEnter d a1 a2 a3) (fun r m' => r = KomErr.alreadyEntered.val ∧ m' = m)
      (fun _ _ => False) m := by
  have hd' : (absFunction (initGhost 0) m).pageTyped d .dispatcher := hd
  have howner : pageValid (m.gPagedb d).addrspacePage :=
    hinv.ownerValid d (pageNonfree_of_pageTyped hd' (by decide))
  unfold komSmcEnter
  simp only [Ctl.wp_ite, Ctl.wp_pure, wp_pageIsTyped (initGhost 0), wp_pageMonvaddr, wp_loadWord,
    wp_loadEntry, decide_eq_true_eq, addrspace_index_valid.2.2, DispatcherField.index_valid, and_true,
    Ctl.wp_bind (pageIsTyped _ _), Ctl.wp_bind (pageMonvaddr _), Ctl.wp_bind (loadEntry _),
    Ctl.wp_bind (loadWord _ _)]
  rw [passed hd']
  refine ⟨hd.1, hd.1, howner, howner, ?_⟩
  rw [passed hfinal, if_pos hentered]
  exact ⟨hd.1, trivial⟩

/-- The same, as the host sees it. -/
theorem trap_enter_refused (L : Layout) (hinv : MregionsInvariants m) (hhost : m.enclaveMode = 0)
    (hnr : m.regs .a7 = KOM_SMC_ENTER) (hd : implPageTyped m (m.regs .a0) .dispatcher)
    (hfinal : m.securePages (m.gPagedb (m.regs .a0)).addrspacePage KOM_ADDRSPACE_STATE = AddrspaceState.final.val)
    (hentered : m.securePages (m.regs .a0) DispatcherField.entered.index ≠ 0) :
    trap L EXC_ECALL_S m = some (withReturn (pastEcall m) KomErr.alreadyEntered.val) := by
  have hdispatch : smcDispatch L m.regs
      = komSmcEnter (m.regs .a0) (m.regs .a1) (m.regs .a2) (m.regs .a3) := by
    unfold smcDispatch
    rw [hnr]
    rfl
  have hwp : Ctl.wp (doTrap L EXC_ECALL_S)
      (fun _ m' => m' = withReturn (pastEcall m) KomErr.alreadyEntered.val)
      (fun r m' => { m' with regs := r } = withReturn (pastEcall m) KomErr.alreadyEntered.val)
      m := by
    simp only [doTrap, if_true, doTrapEcallS, Ctl.wp_bind, Ctl.wp_gets, Ctl.wp_ite, wp_doCalls,
      hhost, ne_eq, not_true_eq_false, if_false, hdispatch]
    refine Ctl.wp_mono ?_ (fun _ _ hfalse => hfalse.elim)
      (wp_komSmcEnter_refused hinv.pastEcall hd hfinal hentered _ _ _)
    rintro r m' ⟨rfl, rfl⟩
    rfl
  rcases Ctl.exists_finish_of_wp hwp with ⟨m', hrun, rfl⟩
  exact hrun

theorem ofRegs_resume {r : PtRegs} (hnr : r .a7 = KOM_SMC_RESUME) : Smc.ofRegs r = some (.resume (r .a0)) := by
  unfold Smc.ofRegs
  rw [hnr]
  rfl

/-- A trap of an enclave is transparent to it.  From every reachable state in which the enclave of a
dispatcher runs, after any trap that is not an `ecall` and any run in which the host does not stop the
address space and does not resume the dispatcher: the dispatcher cannot be entered, and the attempt
has no effect but its error; and resuming it installs the registers and CSRs of the trap. -/
theorem suspended_enclave_resumes (L : Layout) (frame : PtRegs) (hartid dtb : Word) (m₀ m : Machine)
    (es₀ : List Event) (hreach : runEvents L (booted L frame hartid dtb m₀) es₀ = some m)
    (hmode : m.enclaveMode ≠ 0) (cause : Word) (hcause : cause ≠ EXC_ECALL_S) (m₁ : Machine)
    (htrap : m.step L (.trap cause) = some m₁) (es : List Event) (m₂ : Machine)
    (hrun : RunIn (Machine.step L)
      (fun m' e => ¬ m'.issues e (.stop m.curAddrspace) ∧
        ¬ m'.issues e (.resume m.gCurDispatcherPageno)) m₁ es m₂)
    (hout : m₂.enclaveMode = 0) (hd : m₂.regs .a0 = m.gCurDispatcherPageno) :
    (m₂.regs .a7 = KOM_SMC_ENTER →
      m₂.step L (.trap EXC_ECALL_S)
        = some (withReturn (pastEcall m₂) KomErr.alreadyEntered.val)) ∧
    (m₂.regs .a7 = KOM_SMC_RESUME →
      ∃ m₃, m₂.step L (.trap EXC_ECALL_S) = some m₃ ∧ m₃.enclaveMode ≠ 0 ∧
        m₃.gCurDispatcherPageno = m.gCurDispatcherPageno ∧ m₃.regs = m.regs ∧
        readCsrs m₃.csrs = readCsrs m.csrs) := by
  have h := reachable_runInvariants hreach
  rcases h.state with ⟨g, hown, _⟩
  have henclave : (absFunction g m).enclaveMode = true := decide_eq_true hmode
  -- the trap saves the context in the dispatcher page, marked as entered
  let words := saveDispatcher (m.securePages m.gCurDispatcherPageno) 1 (absFunction g m).regs
  have hentered : words DispatcherField.entered.index ≠ 0 := by
    simp [words, DispatcherField.saved]
  have hsuspended : Suspended m.curAddrspace m.gCurDispatcherPageno words (absFunction g m₁) := by
    rcases trap_implements L g h.mregions cause with ⟨m', hstep, _, himpl⟩
    cases hstep.symm.trans htrap
    have hleave : specTrap L cause (absFunction g m) = _ :=
      (if_neg hcause).trans (specKomHandleTrap_of_enclave cause henclave)
    have hspec := Suspended.of_suspend hown henclave (trapError cause).val cause
    rw [← hleave, ← himpl.abs] at hspec
    exact hspec.of_ghost
  -- nothing in the run reaches it
  have hkept := run_keeps (fun hQ => hQ.of_ghost)
    (fun hallowed _ hs hstep hQ => hQ.stateStep hs hentered hstep
      (fun hcall => hallowed.1 ⟨not_not.mp (of_decide_eq_false hcall.1), hcall.2⟩)
      (fun hcall => hallowed.2 ⟨not_not.mp (of_decide_eq_false hcall.1), hcall.2⟩))
    hrun (h.of_step htrap) hsuspended
  have hkept₂ := hkept.2 g
  constructor
  · intro hnr
    have hfinal := hkept₂.final
    rw [← hkept₂.owner, ← hd] at hfinal
    refine trap_enter_refused L hkept.1.mregions hout hnr ?_ hfinal ?_
    · rw [hd]
      exact hkept₂.typed
    · rw [hd]
      exact (congrFun hkept₂.words _).trans_ne hentered
  · intro hnr
    have hcall : m₂.issues (.trap EXC_ECALL_S) (.resume m.gCurDispatcherPageno) :=
      ⟨hout, rfl, by rw [ofRegs_resume hnr, hd]⟩
    rcases issued_implements g hkept.1 hcall with ⟨m₃, g₃, hstep, habs⟩
    have hcheck : Smc.check (absFunction g m₂) (.resume m.gCurDispatcherPageno) = none := by
      refine checkResume_eq_none.mpr ⟨hkept₂.typed, ?_, ?_⟩
      · rw [hkept₂.owner]
        exact hkept₂.final
      · exact (congrFun hkept₂.words _).trans_ne hentered
    rw [hcheck] at habs
    have hregs : (absFunction g₃ m₃).regs = (absFunction g m).regs := by
      rw [habs]
      show dispatcherRegs ((absFunction g m₂).pages m.gCurDispatcherPageno) = _
      rw [hkept₂.words, dispatcherRegs_saveDispatcher]
    refine ⟨m₃, hstep, ?_, ?_, congrArg Regs.gpr hregs, congrArg Regs.csr hregs⟩
    · exact of_decide_eq_true (congrArg State.enclaveMode habs)
    · exact congrArg State.currentDispatcher habs

/-- A small enclave is entered, computes and is interrupted by the timer; the host resumes it. -/
theorem suspended_enclave_resumes_timer :
    ∃ m m₁ m₂,
      runEvents imageLayout (booted imageLayout (fun _ => 0) 0 0 (resetMachine imageLayout))
        (buildEvents ++ smcEvents KOM_SMC_ENTER 2 7 0 ++ [.run (fun _ => 3) (fun _ => 5)]) = some m ∧
      m.enclaveMode ≠ 0 ∧ m.step imageLayout (.trap 0x8000000000000005) = some m₁ ∧
      RunIn (Machine.step imageLayout)
        (fun m' e => ¬ m'.issues e (.stop m.curAddrspace) ∧
          ¬ m'.issues e (.resume m.gCurDispatcherPageno)) m₁
        [.run (smcRegs KOM_SMC_RESUME 2 0 0) (fun _ => 6)] m₂ ∧
      m₂.enclaveMode = 0 ∧
      ∃ m₃, m₂.step imageLayout (.trap EXC_ECALL_S) = some m₃ ∧ m₃.enclaveMode ≠ 0 ∧
        m₃.gCurDispatcherPageno = m.gCurDispatcherPageno ∧ m₃.regs = m.regs ∧
        readCsrs m₃.csrs = readCsrs m.csrs := by
  refine ⟨_, _, _, rfl, ?_, rfl,
    .cons ⟨not_issues_run _ _ _ _, not_issues_run _ _ _ _⟩ rfl (.nil _), rfl, ?_⟩
  · decide
  · refine (suspended_enclave_resumes imageLayout (fun _ => 0) 0 0 (resetMachine imageLayout) _
      (buildEvents ++ smcEvents KOM_SMC_ENTER 2 7 0 ++ [.run (fun _ => 3) (fun _ => 5)]) rfl ?_
      0x8000000000000005 ?_ _ rfl [.run (smcRegs KOM_SMC_RESUME 2 0 0) (fun _ => 6)] _
      (.cons ⟨not_issues_run _ _ _ _, not_issues_run _ _ _ _⟩ rfl (.nil _)) rfl rfl).2 rfl
    · decide
    · decide

end Komodo
end Serval
