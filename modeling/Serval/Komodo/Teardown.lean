import Serval.Komodo.Integrity

/-!
# Teardown — a stopped address space can always be taken apart

The host stops an address space, removes its other pages in any order and then removes the address
space.  The count of the address space is exact, so the last call succeeds when the other pages are
gone, and not before.
-/

namespace Serval
namespace Komodo

open Riscv

variable {p a : Word} {m : Machine} {g : Ghost} {L : Layout}

/-! ## Calls of the host -/

/-- What the host has in its registers and CSRs when it makes a call. -/
structure CallContext where
  gpr : PtRegs
  csr : SavedCsr → Word

/-- The host makes a call with one argument. -/
def Machine.smc (L : Layout) (m : Machine) (nr arg : Word) (ctx : CallContext) : Option Machine :=
  runEvents L m [.run (Function.update (Function.update ctx.gpr .a7 nr) .a0 arg) ctx.csr,
    .trap EXC_ECALL_S]

/-- The host removes pages one after the other; with the machine it gets the values returned. -/
def removeAll (L : Layout) : Machine → List (Word × CallContext) → Option (Machine × List Word)
  | m, [] => some (m, [])
  | m, (page, ctx) :: calls =>
      match m.smc L KOM_SMC_REMOVE page ctx with
      | none => none
      | some m' =>
          match removeAll L m' calls with
          | none => none
          | some (m'', rets) => some (m'', m'.regs .a0 :: rets)

theorem check_setRegs (call : Smc) (s : State) (r : Regs) : call.check { s with regs := r } = call.check s := by
  cases call <;> rfl

/-- A call of the host, in the terms of the specification. -/
theorem smc_implements (h : RunInvariants L m) (hhost : m.enclaveMode = 0) {nr arg : Word} {call : Smc}
    (ctx : CallContext) (hcall : ∀ r : PtRegs, r .a7 = nr → r .a0 = arg → Smc.ofRegs r = some call) (g : Ghost) :
    ∃ m' g' r, m.smc L nr arg ctx = some m' ∧ RunInvariants L m' ∧
      absFunction g' m' = guarded { absFunction g m with regs := r } (call.check (absFunction g m))
        (call.effect L { absFunction g m with regs := r }) := by
  let gpr := Function.update (Function.update ctx.gpr .a7 nr) .a0 arg
  let m₁ : Machine := { m with regs := gpr, csrs := writeCsrs m.csrs ctx.csr }
  have h₁ : RunInvariants L m₁ := h.of_step (e := .run gpr ctx.csr) rfl
  have hissued : m₁.issues (.trap EXC_ECALL_S) call :=
    ⟨hhost, rfl, hcall gpr (by simp [gpr]) (by simp [gpr])⟩
  rcases issued_implements g h₁ hissued with ⟨m', g', hrun, habs⟩
  have hsmc : m.smc L nr arg ctx = some m' := by
    have hload : m.step L (.run gpr ctx.csr) = some m₁ := rfl
    have htrap : m₁.step L (.trap EXC_ECALL_S) = some m' := hrun
    calc m.smc L nr arg ctx
      _ = runEvents L m₁ [.trap EXC_ECALL_S] := runEvents_cons hload _
      _ = runEvents L m' [] := runEvents_cons htrap _
      _ = some m' := rfl
  refine ⟨m', g', (advanceMepc (absFunction g m₁)).regs, hsmc,
    h₁.of_step (e := .trap EXC_ECALL_S) hrun, habs.trans ?_⟩
  rw [show call.check (absFunction g m₁) = call.check (absFunction g m) from
    check_setRegs call (absFunction g m) ⟨gpr, readCsrs (writeCsrs m.csrs ctx.csr)⟩]
  rfl

/-- What the specification returns is what the host finds in `a0`. -/
theorem returned_of_abs {s : State} {v : Word} (h : absFunction g m = setReturn s v) : m.regs .a0 = v := by
  have hregs : m.regs = (setReturn s v).regs.gpr := congrArg (fun s => s.regs.gpr) h
  rw [hregs]
  exact Function.update_self Gpr.a0 v s.regs.gpr

theorem ofRegs_remove {r : PtRegs} (hnr : r .a7 = KOM_SMC_REMOVE) (hp : r .a0 = p) :
    Smc.ofRegs r = some (.remove p) := by
  unfold Smc.ofRegs
  rw [hnr, hp]
  rfl

theorem ofRegs_stop {r : PtRegs} (hnr : r .a7 = KOM_SMC_STOP) (ha : r .a0 = a) : Smc.ofRegs r = some (.stop a) := by
  unfold Smc.ofRegs
  rw [hnr, ha]
  rfl

/-! ## Between the stop and the last call -/

/-- The address space `a` of `s₀` has been stopped, and of its other pages `rest` are left. -/
structure Dismantling (a : Word) (s₀ s : State) (rest : List Word) : Prop where
  host : s.enclaveMode = false
  stopped : s.addrspaceIn a .stopped
  owned : ∀ p, s.ownerOf p = some a ↔ p = a ∨ p ∈ rest
  freed : ∀ p, s₀.ownerOf p = some a → s.ownerOf p = some a ∨ s.pageFree p
  entries : ∀ p, s₀.ownerOf p ≠ some a →
    s.pagedbType p = s₀.pagedbType p ∧ s.pagedbAddrspace p = s₀.pagedbAddrspace p
  counts : ∀ b, b ≠ a → s.addrspaceRefcount b = s₀.addrspaceRefcount b

namespace Dismantling

variable {a : Word} {s₀ s : State} {rest : List Word}

theorem setRegs (h : Dismantling a s₀ s rest) (r : Regs) : Dismantling a s₀ { s with regs := r } rest :=
  ⟨h.host, h.stopped, h.owned, h.freed, h.entries, h.counts⟩

theorem self (h : Dismantling a s₀ s rest) : s.ownerOf a = some a :=
  (h.owned a).mpr (.inl rfl)

/-- Pages that are left were there at the start. -/
theorem owned_start (h : Dismantling a s₀ s rest) (hp : s.ownerOf p = some a) : s₀.ownerOf p = some a := by
  by_contra hne
  rcases h.entries p hne with ⟨htype, howner⟩
  rcases ownerOf_eq_some.mp hp with ⟨hnonfree, howner'⟩
  exact hne (ownerOf_eq_some.mpr ⟨⟨hnonfree.1, htype ▸ hnonfree.2⟩, howner ▸ howner'⟩)

/-- The state after the stop. -/
theorem start (hs : OwnershipInvariants s) (hhost : s.enclaveMode = false)
    (ha : s.pageTyped a .addrspace) (hrest : ∀ p, p ∈ rest ↔ s.ownerOf p = some a ∧ p ≠ a) :
    Dismantling a s (setAddrspaceState s a .stopped) rest := by
  refine ⟨hhost, ?_, fun p => ?_, fun p hp => .inl hp, fun p _ => ⟨rfl, rfl⟩, fun b hb => ?_⟩
  · simp [State.addrspaceIn, State.addrspaceState, setAddrspaceState]
  · have hself := (hs.addrspace a).mp ha
    rw [hrest]
    constructor
    · intro hp
      by_cases hpa : p = a
      · exact .inl hpa
      · exact .inr ⟨hp, hpa⟩
    · rintro (rfl | hp)
      · exact hself
      · exact hp.1
  · simp [State.addrspaceRefcount, setAddrspaceState, hb]

theorem ownerOf_releasePage (s : State) (p : Word) : (releasePage s p).ownerOf = Function.update s.ownerOf p none :=
  ownerOf_untype (s.setPage (s.pagedbAddrspace p) (countDown (s.pages (s.pagedbAddrspace p)))) p

/-- What the release of one of its pages does, whether it is the address space or another one. -/
theorem release_frame (h : Dismantling a s₀ s rest) (hp : s.ownerOf p = some a) :
    (∀ q, s₀.ownerOf q = some a →
      (q ≠ p ∧ s.ownerOf q = some a) ∨ (releasePage s p).pageFree q) ∧
    (∀ q, s₀.ownerOf q ≠ some a → (releasePage s p).pagedbType q = s₀.pagedbType q ∧
      (releasePage s p).pagedbAddrspace q = s₀.pagedbAddrspace q) ∧
    ∀ b, b ≠ a → (releasePage s p).addrspaceRefcount b = s₀.addrspaceRefcount b := by
  rcases ownerOf_eq_some.mp hp with ⟨hnonfree, howner⟩
  refine ⟨fun q hq => ?_, fun q hq => ?_, fun b hb => ?_⟩
  · by_cases hqp : q = p
    · subst hqp
      exact .inr ⟨hnonfree.1, by simp [releasePage]⟩
    · rcases h.freed q hq with howned | hfree
      · exact .inl ⟨hqp, howned⟩
      · exact .inr ⟨hfree.1, by simpa [releasePage, hqp] using hfree.2⟩
  · have hqp : q ≠ p := by
      rintro rfl
      exact hq (h.owned_start hp)
    simpa [releasePage, hqp] using h.entries q hq
  · have hbp : b ≠ s.pagedbAddrspace p := howner ▸ hb
    rw [← h.counts b hb]
    simp [State.addrspaceRefcount, releasePage, hbp]

/-- Another page of the address space is removed. -/
theorem release (h : Dismantling a s₀ s (p :: rest)) (hpa : p ≠ a) (hp : p ∉ rest) :
    Dismantling a s₀ (releasePage s p) rest := by
  have hown : s.ownerOf p = some a := (h.owned p).mpr (.inr List.mem_cons_self)
  have howner := (ownerOf_eq_some.mp hown).2
  rcases h.release_frame hown with ⟨hfreed, hentries, hcounts⟩
  refine ⟨h.host, ?_, fun q => ?_, fun q hq => ?_, hentries, hcounts⟩
  · simpa [State.addrspaceIn, State.addrspaceState, releasePage, howner, KOM_ADDRSPACE_STATE,
      KOM_ADDRSPACE_REFCOUNT] using h.stopped
  · rw [ownerOf_releasePage]
    by_cases hqp : q = p
    · subst hqp
      simp [hpa, hp]
    · rw [Function.update_of_ne hqp, h.owned, List.mem_cons]
      simp [hqp]
  · rcases hfreed q hq with ⟨hqp, howned⟩ | hfree
    · left
      rw [ownerOf_releasePage, Function.update_of_ne hqp]
      exact howned
    · exact .inr hfree

theorem addrspace (h : Dismantling a s₀ s rest) (hs : OwnershipInvariants s) : s.pageTyped a .addrspace :=
  (hs.addrspace a).mpr h.self

/-- The checks of a removal pass for the other pages. -/
theorem checkRemove_other (h : Dismantling a s₀ s rest) (hs : OwnershipInvariants s) (hp : p ∈ rest) (hpa : p ≠ a) :
    checkRemove s p = none := by
  rcases ownerOf_eq_some.mp ((h.owned p).mpr (.inr hp)) with ⟨hnonfree, howner⟩
  have hother : ¬ s.pageTyped p .addrspace :=
    fun htyped => hpa ((hs.self_owned htyped).symm.trans howner)
  refine checkRemove_eq_none.mpr ⟨h.host, hnonfree.1, (pageNonfree_iff.mp hnonfree).2,
    fun htyped => absurd htyped hother, fun _ => ?_⟩
  rw [howner]
  exact h.stopped

/-- While other pages are left, the address space is in use. -/
theorem checkRemove_early (h : Dismantling a s₀ s rest) (hs : OwnershipInvariants s) (hp : p ∈ rest) (hpa : p ≠ a) :
    checkRemove s a = some .pageinuse := by
  have htyped := h.addrspace hs
  have hfree := not_pageFree_of_pageTyped htyped (by decide)
  have hcount : s.addrspaceRefcount a ≠ 1 := by
    intro hone
    have hexact := hs.counted.eq_of_count_eq_one (a := a) (congrArg BitVec.toNat hone)
      ((h.owned p).mpr (.inr hp))
    exact hpa hexact
  unfold checkRemove
  rw [if_neg (Bool.eq_false_iff.mp h.host), if_neg (not_not.mpr htyped.1), if_neg hfree,
    if_pos ⟨htyped, hcount⟩]

/-- When the other pages are gone, the address space counts only itself. -/
theorem checkRemove_last (h : Dismantling a s₀ s []) (hs : OwnershipInvariants s) : checkRemove s a = none := by
  have htyped := h.addrspace hs
  have hholds : holdings securePagenos s.ownerOf a = {a} := by
    ext p
    rw [mem_holdings, mem_securePagenos, Finset.mem_singleton]
    constructor
    · rintro ⟨_, hp⟩
      simpa using (h.owned p).mp hp
    · rintro rfl
      exact ⟨htyped.1, h.self⟩
  have hcount : s.addrspaceRefcount a = 1 := by
    apply BitVec.eq_of_toNat_eq
    show s.refcountOf a = 1
    rw [hs.counted.exact h.self, hholds, Finset.card_singleton]
  exact checkRemove_eq_none.mpr ⟨h.host, htyped.1, not_pageFree_of_pageTyped htyped (by decide),
    fun _ => ⟨hcount, h.stopped⟩, fun hother => absurd htyped hother⟩

end Dismantling

/-! ## The calls -/

/-- A machine of which the address space `a` is being taken apart. -/
structure Dismantled (L : Layout) (a : Word) (s₀ : State) (m : Machine) (rest : List Word) :
    Prop where
  inv : RunInvariants L m
  abs : ∀ g, Dismantling a s₀ (absFunction g m) rest

namespace Dismantled

variable {L : Layout} {a : Word} {s₀ : State} {m : Machine} {rest : List Word}

/-- The property is about the stored components of the state. -/
theorem of_abs {m' : Machine} (hinv : RunInvariants L m') (habs : Dismantling a s₀ (absFunction g m') rest) :
    Dismantled L a s₀ m' rest :=
  ⟨hinv, fun _ => ⟨habs.host, habs.stopped, habs.owned, habs.freed, habs.entries, habs.counts⟩⟩

theorem host (h : Dismantled L a s₀ m rest) (g : Ghost) : m.enclaveMode = 0 :=
  not_not.mp (of_decide_eq_false (h.abs g).host)

/-- What `kom_smc_remove` returns, and what it does when its checks pass. -/
theorem smc_remove (h : Dismantled L a s₀ m rest) (p : Word) (ctx : CallContext) :
    ∃ m' g g' r, OwnershipInvariants (absFunction g m) ∧ m.smc L KOM_SMC_REMOVE p ctx = some m' ∧
      RunInvariants L m' ∧
      absFunction g' m' = guarded { absFunction g m with regs := r } (checkRemove (absFunction g m) p)
        (setReturn (releasePage { absFunction g m with regs := r } p) KomErr.success.val) := by
  rcases h.inv.state with ⟨g, hown, _⟩
  rcases smc_implements h.inv (h.host g) ctx (fun r hnr hp => ofRegs_remove hnr hp) g with
    ⟨m', g', r, hsmc, hinv, habs⟩
  exact ⟨m', g, g', r, hown, hsmc, hinv, habs⟩

theorem remove_other (h : Dismantled L a s₀ m (p :: rest)) (hpa : p ≠ a) (hp : p ∉ rest) (ctx : CallContext) :
    ∃ m', m.smc L KOM_SMC_REMOVE p ctx = some m' ∧ m'.regs .a0 = KomErr.success.val ∧
      Dismantled L a s₀ m' rest := by
  rcases h.smc_remove p ctx with ⟨m', g, g', r, hown, hsmc, hinv, habs⟩
  rw [(h.abs g).checkRemove_other hown List.mem_cons_self hpa] at habs
  refine ⟨m', hsmc, returned_of_abs habs, .of_abs hinv (g := g') ?_⟩
  rw [habs]
  exact (((h.abs g).setRegs r).release hpa hp).setRegs _

theorem remove_early (h : Dismantled L a s₀ m rest) (hp : p ∈ rest) (hpa : p ≠ a) (ctx : CallContext) :
    ∃ m', m.smc L KOM_SMC_REMOVE a ctx = some m' ∧ m'.regs .a0 = KomErr.pageinuse.val := by
  rcases h.smc_remove a ctx with ⟨m', g, g', r, hown, hsmc, hinv, habs⟩
  rw [(h.abs g).checkRemove_early hown hp hpa] at habs
  exact ⟨m', hsmc, returned_of_abs habs⟩

theorem remove_last (h : Dismantled L a s₀ m []) (ctx : CallContext) :
    ∃ m' g', m.smc L KOM_SMC_REMOVE a ctx = some m' ∧ m'.regs .a0 = KomErr.success.val ∧
      (∀ p, s₀.ownerOf p = some a → (absFunction g' m').pageFree p) ∧
      (∀ p, s₀.ownerOf p ≠ some a → (absFunction g' m').pagedbType p = s₀.pagedbType p ∧
        (absFunction g' m').pagedbAddrspace p = s₀.pagedbAddrspace p) ∧
      ∀ b, b ≠ a → (absFunction g' m').addrspaceRefcount b = s₀.addrspaceRefcount b := by
  rcases h.smc_remove a ctx with ⟨m', g, g', r, hown, hsmc, hinv, habs⟩
  have hd := (h.abs g).setRegs r
  rw [(h.abs g).checkRemove_last hown] at habs
  refine ⟨m', g', hsmc, returned_of_abs habs, ?_⟩
  rw [habs]
  rcases hd.release_frame hd.self with ⟨hfreed, hentries, hcounts⟩
  refine ⟨fun p hp => ?_, hentries, hcounts⟩
  rcases hfreed p hp with ⟨hpa, howned⟩ | hfree
  · exact absurd (by simpa using (hd.owned p).mp howned) hpa
  · exact hfree

/-- The host removes the first of the pages that are left, in the order it likes. -/
theorem removeAll {done : List (Word × CallContext)} :
    ∀ {m : Machine}, Dismantled L a s₀ m (done.map Prod.fst ++ rest) →
      (a :: (done.map Prod.fst ++ rest)).Nodup →
      ∃ m' rets, removeAll L m done = some (m', rets) ∧
        (∀ ret ∈ rets, ret = KomErr.success.val) ∧ Dismantled L a s₀ m' rest := by
  induction done with
  | nil =>
      intro m h _
      exact ⟨m, [], rfl, by simp, h⟩
  | cons call done ih =>
      intro m h hnodup
      rcases call with ⟨p, ctx⟩
      simp only [List.map_cons, List.cons_append, List.nodup_cons, List.mem_cons, not_or] at hnodup
      rcases hnodup with ⟨⟨hap, ha⟩, hp, hrest⟩
      rcases h.remove_other (Ne.symm hap) hp ctx with ⟨m₁, hsmc, hret, h₁⟩
      rcases ih h₁ (List.nodup_cons.mpr ⟨ha, hrest⟩) with ⟨m', rets, hall, hrets, h'⟩
      refine ⟨m', m₁.regs .a0 :: rets, ?_, ?_, h'⟩
      · simp only [Komodo.removeAll, hsmc, hall]
      · intro ret hmem
        rcases List.mem_cons.mp hmem with rfl | hmem
        · exact hret
        · exact hrets ret hmem

end Dismantled

/-- The stop of an address space. -/
theorem dismantled_of_stop {rest : List Word} (h : RunInvariants L m) (hown : OwnershipInvariants (absFunction g m))
    (hhost : m.enclaveMode = 0) (ha : implPageTyped m a .addrspace)
    (hrest : ∀ p, p ∈ rest ↔ (absFunction g m).ownerOf p = some a ∧ p ≠ a) (ctx : CallContext) :
    ∃ m', m.smc L KOM_SMC_STOP a ctx = some m' ∧
      Dismantled L a (absFunction g m) m' rest := by
  rcases smc_implements h hhost ctx (fun r hnr harg => ofRegs_stop hnr harg) g with
    ⟨m', g', r, hsmc, hinv, habs⟩
  have hcheck : Smc.check (absFunction g m) (.stop a) = none := checkStop_eq_none.mpr ha
  rw [hcheck] at habs
  refine ⟨m', hsmc, .of_abs hinv (g := g') ?_⟩
  rw [habs]
  have hstart := Dismantling.start hown (decide_eq_false (not_not.mpr hhost)) ha hrest
  exact hstart.setRegs _

/-- An address space can always be taken apart.  From every reachable state of the host, after a stop
of `a` the other pages of `a` can be removed in any order, and then `a` itself; until the last other
page is gone `a` is refused as in use.  In the end the pages of `a` are free, and nothing else in the
page database and no other count has changed. -/
theorem teardown_succeeds (L : Layout) (frame : PtRegs) (hartid dtb : Word) (m₀ m : Machine)
    (es₀ : List Event) (hreach : runEvents L (booted L frame hartid dtb m₀) es₀ = some m)
    (hhost : m.enclaveMode = 0) (a : Word) (ha : implPageTyped m a .addrspace)
    (calls : List (Word × CallContext)) (hnodup : (calls.map Prod.fst).Nodup)
    (hall : ∀ p, p ∈ calls.map Prod.fst ↔ p ∈ ownedPages m a ∧ p ≠ a) (stopCtx ctx : CallContext) :
    ∃ m₁, m.smc L KOM_SMC_STOP a stopCtx = some m₁ ∧
      (∀ done rest, calls = done ++ rest → rest ≠ [] →
        ∃ m₂ rets m₃, removeAll L m₁ done = some (m₂, rets) ∧
          m₂.smc L KOM_SMC_REMOVE a ctx = some m₃ ∧ m₃.regs .a0 = KomErr.pageinuse.val) ∧
      ∃ m₂ rets m₃, removeAll L m₁ calls = some (m₂, rets) ∧
        (∀ ret ∈ rets, ret = KomErr.success.val) ∧
        m₂.smc L KOM_SMC_REMOVE a ctx = some m₃ ∧ m₃.regs .a0 = KomErr.success.val ∧
        (∀ p ∈ ownedPages m a, implPageTyped m₃ p .free) ∧
        (∀ p, p ∉ ownedPages m a → m₃.gPagedb p = m.gPagedb p) ∧
        ∀ b, implPageTyped m b .addrspace → b ≠ a →
          m₃.securePages b KOM_ADDRSPACE_REFCOUNT = m.securePages b KOM_ADDRSPACE_REFCOUNT := by
  have h := reachable_runInvariants hreach
  rcases h.state with ⟨g, hown, _⟩
  have hrest : ∀ p, p ∈ calls.map Prod.fst ↔ (absFunction g m).ownerOf p = some a ∧ p ≠ a := by
    intro p
    rw [hall, mem_ownedPages g]
  have hnodup' : (a :: calls.map Prod.fst).Nodup :=
    List.nodup_cons.mpr ⟨fun hmem => ((hall a).mp hmem).2 rfl, hnodup⟩
  rcases dismantled_of_stop h hown hhost ha hrest stopCtx with ⟨m₁, hstop, h₁⟩
  refine ⟨m₁, hstop, ?_, ?_⟩
  · rintro done rest rfl hne
    rw [List.map_append] at h₁ hnodup'
    rcases h₁.removeAll hnodup' with ⟨m₂, rets, hremove, _, h₂⟩
    rcases List.exists_mem_of_ne_nil rest hne with ⟨call, hcall⟩
    have hp : call.1 ∈ rest.map Prod.fst := List.mem_map_of_mem hcall
    have hpa : call.1 ≠ a := by
      rintro heq
      exact (List.nodup_cons.mp hnodup').1 (List.mem_append_right _ (heq ▸ hp))
    rcases h₂.remove_early hp hpa ctx with ⟨m₃, hsmc, hret⟩
    exact ⟨m₂, rets, m₃, hremove, hsmc, hret⟩
  · have h₁' : Dismantled L a (absFunction g m) m₁ (calls.map Prod.fst ++ []) := by
      rw [List.append_nil]
      exact h₁
    rcases h₁'.removeAll (by rw [List.append_nil]; exact hnodup') with
      ⟨m₂, rets, hremove, hrets, h₂⟩
    rcases h₂.remove_last ctx with ⟨m₃, g₃, hsmc, hret, hfree, hentries, hcounts⟩
    refine ⟨m₂, rets, m₃, hremove, hrets, hsmc, hret, ?_, ?_, ?_⟩
    · exact fun p hp => hfree p ((mem_ownedPages g).mp hp)
    · intro p hp
      rcases hentries p (fun hown' => hp ((mem_ownedPages g).mpr hown')) with ⟨htype, howner⟩
      exact PagedbEntry.ext htype howner
    · exact fun b _ hb => hcounts b hb

/-- In every reachable state the pages an address space counts are all there are. -/
theorem ownedPages_eq_of_count (h : RunInvariants L m) {ps : Finset Word} (ha : a ∈ ps)
    (hps : ∀ p ∈ ps, implPageNonfree m p ∧ (m.gPagedb p).addrspacePage = a)
    (hcount : (m.securePages a KOM_ADDRSPACE_REFCOUNT).toNat ≤ ps.card) : ownedPages m a = ps := by
  rcases h.state with ⟨g, hown, _⟩
  have howner : ∀ p ∈ ps, (absFunction g m).ownerOf p = some a :=
    fun p hp => ownerOf_eq_some.mpr (hps p hp)
  have hcard : (ownedPages m a).card = (m.securePages a KOM_ADDRSPACE_REFCOUNT).toNat := by
    rw [ownedPages_eq_holdings g]
    exact (hown.counted.exact (howner a ha)).symm
  refine (Finset.eq_of_subset_of_card_le (fun p hp => ?_) (hcard.trans_le hcount)).symm
  exact (mem_ownedPages g).mpr (howner p hp)

/-- A small enclave is taken apart, its dispatcher in page 2 first and its root table in page 1
next. -/
theorem teardown_succeeds_small :
    ∃ m m₁ m₂ rets m₃,
      runEvents imageLayout (booted imageLayout (fun _ => 0) 0 0 (resetMachine imageLayout))
        buildEvents = some m ∧ m.enclaveMode = 0 ∧ implPageTyped m 0 .addrspace ∧
      ownedPages m 0 = {0, 1, 2} ∧
      m.smc imageLayout KOM_SMC_STOP 0 ⟨fun _ => 0, fun _ => 0⟩ = some m₁ ∧
      removeAll imageLayout m₁ [(2, ⟨fun _ => 0, fun _ => 0⟩), (1, ⟨fun _ => 7, fun _ => 0⟩)]
        = some (m₂, rets) ∧
      (∀ ret ∈ rets, ret = KomErr.success.val) ∧
      m₂.smc imageLayout KOM_SMC_REMOVE 0 ⟨fun _ => 0, fun _ => 0⟩ = some m₃ ∧
      ∀ p ∈ ownedPages m 0, implPageTyped m₃ p .free := by
  obtain ⟨m, hreach, hhost, ha, hcount, hps⟩ : ∃ m,
      runEvents imageLayout (booted imageLayout (fun _ => 0) 0 0 (resetMachine imageLayout))
        buildEvents = some m ∧ m.enclaveMode = 0 ∧ implPageTyped m 0 .addrspace ∧
      (m.securePages 0 KOM_ADDRSPACE_REFCOUNT).toNat ≤ ({0, 1, 2} : Finset Word).card ∧
      ∀ p ∈ ({0, 1, 2} : Finset Word), implPageNonfree m p ∧ (m.gPagedb p).addrspacePage = 0 := by
    refine ⟨_, rfl, rfl, ⟨?_, rfl⟩, ?_, ?_⟩
    · decide
    · decide
    · intro p hp
      simp only [Finset.mem_insert, Finset.mem_singleton] at hp
      rcases hp with rfl | rfl | rfl
      · exact ⟨⟨by decide, by decide⟩, rfl⟩
      · exact ⟨⟨by decide, by decide⟩, rfl⟩
      · exact ⟨⟨by decide, by decide⟩, rfl⟩
  have howned := ownedPages_eq_of_count (reachable_runInvariants hreach) (by decide) hps hcount
  have hall : ∀ p : Word, p ∈ [2, 1] ↔ p ∈ ownedPages m 0 ∧ p ≠ 0 := by
    intro p
    simp only [howned, List.mem_cons, List.not_mem_nil, or_false, Finset.mem_insert,
      Finset.mem_singleton]
    bv_omega
  rcases teardown_succeeds imageLayout (fun _ => 0) 0 0 (resetMachine imageLayout) m buildEvents
    hreach hhost 0 ha [(2, ⟨fun _ => 0, fun _ => 0⟩), (1, ⟨fun _ => 7, fun _ => 0⟩)] (by decide)
    hall ⟨fun _ => 0, fun _ => 0⟩ ⟨fun _ => 0, fun _ => 0⟩ with
    ⟨m₁, hstop, _, m₂, rets, m₃, hremove, hrets, hlast, _, hfree, _⟩
  exact ⟨m, m₁, m₂, rets, m₃, hreach, hhost, ha, howned, hstop, hremove, hrets, hlast, hfree⟩

end Komodo
end Serval
