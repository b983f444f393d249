import Serval.Komodo.Steps

/-!
# Integrity — a final address space changes only by its own execution

Once an address space is final, the host can stop it and can switch to its enclave.  A run in which it
does neither leaves the address space, the pages it owns and all their words as they are, whatever
else the host and other enclaves do.
-/

namespace Serval
namespace Komodo

open Riscv

/-- The enclave of the address space `a` runs. -/
def Machine.executes (m : Machine) (a : Word) : Prop :=
  m.enclaveMode ≠ 0 ∧ m.curAddrspace = a

/-- An event of the host or of another enclave that neither stops `a` nor switches to its enclave. -/
structure Event.Spares (L : Layout) (a : Word) (m : Machine) (e : Event) : Prop where
  other : ¬ m.executes a
  notStopped : ¬ m.issues e (.stop a)
  notEntered : ∀ m', m.step L e = some m' → ¬ m'.executes a

/-- The address space `a` is final, and its pages are those of `s₀`, with the same types and words. -/
structure Intact (a : Word) (s₀ s : State) : Prop where
  final : s.addrspaceIn a .final
  owned : ∀ p, s.ownerOf p = some a ↔ s₀.ownerOf p = some a
  type : ∀ p, s₀.ownerOf p = some a → s.pagedbType p = s₀.pagedbType p
  words : ∀ p, s₀.ownerOf p = some a → s.pages p = s₀.pages p

namespace Intact

variable {L : Layout} {a : Word} {s₀ s s' : State} {e : Event}

theorem refl (hfinal : s.addrspaceIn a .final) : Intact a s s :=
  ⟨hfinal, fun _ => Iff.rfl, fun _ _ => rfl, fun _ _ => rfl⟩

/-- A step that leaves the pages of `a` alone and gives no page to it. -/
theorem of_samePage (h : Intact a s₀ s) (ha : s.ownerOf a = some a)
    (hsame : ∀ p, s.ownerOf p = some a → SamePage s s' p)
    (hnew : ∀ p, s'.ownerOf p = some a → s.ownerOf p = some a) : Intact a s₀ s' := by
  have hkept : ∀ p, s₀.ownerOf p = some a → SamePage s s' p :=
    fun p hp => hsame p ((h.owned p).mpr hp)
  refine ⟨((hsame a ha).addrspaceIn _).mp h.final, fun p => ⟨fun hp => ?_, fun hp => ?_⟩,
    fun p hp => (hkept p hp).type.symm.trans (h.type p hp),
    fun p hp => (hkept p hp).words.symm.trans (h.words p hp)⟩
  · exact (h.owned p).mp (hnew p hp)
  · rw [← (hkept p hp).ownerOf]
    exact (h.owned p).mpr hp

/-- A step that changes the words of one page only, which `a` does not own. -/
theorem of_setPage (h : Intact a s₀ s) (ha : s.ownerOf a = some a) {p : Word}
    (hp : s.pagedbAddrspace p ≠ a) (hsame : ∀ q, q ≠ p → SamePage s s' q)
    (howner : s'.ownerOf = s.ownerOf) : Intact a s₀ s' := by
  refine h.of_samePage ha (fun q hq => hsame q ?_) (fun q hq => howner ▸ hq)
  rintro rfl
  exact hp (ownerOf_eq_some.mp hq).2

theorem stateStep (h : Intact a s₀ s) (hs : OwnershipInvariants s) (ha : s.ownerOf a = some a)
    (hstep : StateStep L s e s')
    (hother : s.enclaveMode = true → s.pagedbAddrspace s.currentDispatcher ≠ a)
    (hstop : ¬ (s.enclaveMode = false ∧ e = .trap EXC_ECALL_S ∧
      Smc.ofRegs s.regs.gpr = some (.stop a)))
    (henter : ∀ {d a0 a1 a2}, s.enclaveMode = false → e = .trap EXC_ECALL_S →
      Smc.ofRegs s.regs.gpr = some (.enter d a0 a1 a2) → checkEnter s d = none →
      s.pagedbAddrspace d ≠ a) : Intact a s₀ s' := by
  cases hstep with
  | quiet e r | insecureWrite page off value => exact ⟨h.final, h.owned, h.type, h.words⟩
  | @enclaveWrite page off value hmay =>
      have howner : s.pagedbAddrspace page ≠ a := by
        rw [hmay.2.2.2, (hs.enclave hmay.1).2.2]
        exact hother hmay.1
      exact h.of_setPage ha howner (fun q hq => ⟨rfl, rfl, by simp [hq], rfl⟩) rfl
  | @call call hhost hcall hcheck =>
      have hpast : Intact a s₀ (advanceMepc s) := ⟨h.final, h.owned, h.type, h.words⟩
      have hcheck' := (check_advanceMepc call s).trans hcheck
      have hne : call ≠ .stop a := by
        rintro rfl
        exact hstop ⟨hhost, rfl, hcall⟩
      refine hpast.of_samePage ha (fun p hp => ?_) (fun p hp => ?_)
      · refine effect_samePage_of_final hs.advanceMepc h.final hp hcheck' hne ?_
        rintro a0 a1 a2 rfl
        exact henter hhost rfl hcall hcheck (ownerOf_eq_some.mp hp).2
      · exact effect_ownerOf_of_final hs.advanceMepc h.final ha hcheck' hne hp
  | exit henclave hexit =>
      refine h.of_setPage ha (hother henclave) (fun q hq => ?_) rfl
      exact ⟨rfl, rfl, by simp [specLeaveSecureWorld, setHostReturn, advanceMepc, hq], rfl⟩
  | suspend henclave hcause =>
      refine h.of_setPage ha (hother henclave) (fun q hq => ?_) rfl
      exact ⟨rfl, rfl, by simp [specLeaveSecureWorld, setHostReturn, hq], rfl⟩

end Intact

/-- A successful switch to an enclave of `a` is one that an event sparing `a` does not make. -/
theorem Event.Spares.enter {L : Layout} {a : Word} {m : Machine} {e : Event} {g : Ghost}
    (h : e.Spares L a m) (hinv : RunInvariants L m) {d a0 a1 a2 : Word}
    (hcall : m.issues e (.enter d a0 a1 a2)) (hcheck : checkEnter (absFunction g m) d = none) :
    (m.gPagedb d).addrspacePage ≠ a := by
  rcases hcall with ⟨hhost, rfl, hcall⟩
  rcases issued_implements g hinv ⟨hhost, rfl, hcall⟩ with ⟨m', g', hrun, habs⟩
  have hcheck' : Smc.check (absFunction g m) (.enter d a0 a1 a2) = none := hcheck
  rw [hcheck'] at habs
  have hmode : m'.enclaveMode ≠ 0 := of_decide_eq_true (congrArg State.enclaveMode habs)
  have hcur : m'.curAddrspace = (m.gPagedb d).addrspacePage := by
    have hdisp : m'.gCurDispatcherPageno = d := congrArg State.currentDispatcher habs
    rw [Machine.curAddrspace, hdisp]
    exact congrFun (congrArg State.pagedbAddrspace habs) d
  intro howner
  exact h.notEntered m' hrun ⟨hmode, hcur.trans howner⟩

theorem mem_ownedPages {m : Machine} {a p : Word} (g : Ghost) :
    p ∈ ownedPages m a ↔ (absFunction g m).ownerOf p = some a := by
  rw [ownedPages_eq_holdings g, mem_holdings, mem_securePagenos]
  exact and_iff_right_of_imp (fun hp => (ownerOf_eq_some.mp hp).1.1)

/-- Integrity of final address spaces: from every reachable state, a run of events that spare a final
address space leaves it final, and leaves it the same pages with the same entries in the page
database and the same words. -/
theorem final_addrspace_kept (L : Layout) (frame : PtRegs) (hartid dtb : Word) (m₀ m : Machine)
    (es₀ : List Event) (hreach : runEvents L (booted L frame hartid dtb m₀) es₀ = some m) (a : Word)
    (ha : implPageTyped m a .addrspace)
    (hfinal : m.securePages a KOM_ADDRSPACE_STATE = AddrspaceState.final.val) (es : List Event)
    (m' : Machine) (hrun : RunIn (Machine.step L) (fun m e => e.Spares L a m) m es m') :
    m'.securePages a KOM_ADDRSPACE_STATE = AddrspaceState.final.val ∧
      ownedPages m' a = ownedPages m a ∧
      ∀ p ∈ ownedPages m a, m'.gPagedb p = m.gPagedb p ∧
        ∀ i, m'.securePages p i = m.securePages p i := by
  have h := reachable_runInvariants hreach
  rcases h.state with ⟨g, hown, _⟩
  have hself : (absFunction g m).ownerOf a = some a := (hown.addrspace a).mp ha
  have hkept := (run_keeps (Q := Intact a (absFunction g m))
    (fun hQ => ⟨hQ.final, hQ.owned, hQ.type, hQ.words⟩)
    (fun hspares hinv hs hstep hQ => hQ.stateStep hs ((hQ.owned a).mpr hself) hstep
      (fun henclave hcur => hspares.other ⟨of_decide_eq_true henclave, hcur⟩)
      (fun hcall => hspares.notStopped ⟨not_not.mp (of_decide_eq_false hcall.1), hcall.2⟩)
      (fun hhost he hcall hcheck =>
        hspares.enter hinv ⟨not_not.mp (of_decide_eq_false hhost), he, hcall⟩ hcheck))
    hrun h (.refl hfinal)).2 g
  refine ⟨hkept.final, ?_, ?_⟩
  · ext p
    rw [mem_ownedPages g, mem_ownedPages g]
    exact hkept.owned p
  · intro p hp
    have hp₀ := (mem_ownedPages g).mp hp
    have howner := (ownerOf_eq_some.mp ((hkept.owned p).mpr hp₀)).2
    have howner₀ := (ownerOf_eq_some.mp hp₀).2
    refine ⟨PagedbEntry.ext (hkept.type p hp₀) (howner.trans howner₀.symm), fun i => ?_⟩
    exact congrFun (hkept.words p hp₀) i

/-- Events of the host that keep it running and are no stop spare every address space. -/
theorem spares_of_host {L : Layout} {a : Word} {m m' : Machine} {e : Event}
    (hstep : m.step L e = some m') (hout : m.enclaveMode = 0) (hout' : m'.enclaveMode = 0)
    (hstop : ¬ m.issues e (.stop a)) : e.Spares L a m := by
  refine ⟨fun hexec => hexec.1 hout, hstop, fun m₁ hstep₁ hexec => ?_⟩
  cases hstep.symm.trans hstep₁
  exact hexec.1 hout'

/-- A small enclave is built; the host then stores to insecure memory and makes another address
space. -/
theorem final_addrspace_kept_other :
    ∃ m m',
      runEvents imageLayout (booted imageLayout (fun _ => 0) 0 0 (resetMachine imageLayout))
        buildEvents = some m ∧
      implPageTyped m 0 .addrspace ∧
      m.securePages 0 KOM_ADDRSPACE_STATE = AddrspaceState.final.val ∧
      RunIn (Machine.step imageLayout) (fun m e => e.Spares imageLayout 0 m) m
        (.insecureWrite 0 0 1 :: smcEvents KOM_SMC_INIT_ADDRSPACE 3 4 0) m' ∧
      ownedPages m' 0 = ownedPages m 0 := by
  have hrun : ∃ m m',
      runEvents imageLayout (booted imageLayout (fun _ => 0) 0 0 (resetMachine imageLayout))
        buildEvents = some m ∧
      implPageTyped m 0 .addrspace ∧
      m.securePages 0 KOM_ADDRSPACE_STATE = AddrspaceState.final.val ∧
      RunIn (Machine.step imageLayout) (fun m e => e.Spares imageLayout 0 m) m
        (.insecureWrite 0 0 1 :: smcEvents KOM_SMC_INIT_ADDRSPACE 3 4 0) m' := by
    refine ⟨_, _, rfl, ⟨by decide, rfl⟩, rfl, .cons ?_ rfl (.cons ?_ rfl (.cons ?_ rfl (.nil _)))⟩
    · exact spares_of_host rfl rfl rfl (fun hcall => by cases hcall.2.1)
    · exact spares_of_host rfl rfl rfl (not_issues_run _ _ _ _)
    · refine spares_of_host rfl rfl rfl (fun hcall => ?_)
      cases (rfl : Smc.ofRegs (smcRegs KOM_SMC_INIT_ADDRSPACE 3 4 0) = _).symm.trans hcall.2.2
  rcases hrun with ⟨m, m', hreach, ha, hfinal, hspares⟩
  exact ⟨m, m', hreach, ha, hfinal, hspares,
    (final_addrspace_kept imageLayout (fun _ => 0) 0 0 (resetMachine imageLayout) m buildEvents
      hreach 0 ha hfinal _ m' hspares).2.1⟩

end Komodo
end Serval
