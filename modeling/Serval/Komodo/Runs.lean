import Serval.Komodo.PageTables
import Serval.Komodo.Refinement

/-!
# Runs — the monitor together with the host and its enclaves

Between two traps the host or the running enclave computes.  It may change its registers and S-mode
CSRs, though not `satp` while `SR_TVM` is set, and store to insecure memory; an enclave may also store
to its data pages.  A run is a sequence of such events and of traps, from the machine `main` hands to
the payload.
-/

namespace Serval
namespace Komodo

open Riscv

/-! ## Events -/

inductive Event
  -- the current context computes, ending with these registers and S-mode CSRs
  | run (gpr : PtRegs) (csr : SavedCsr → Word)
  | trap (cause : Word)
  | enclaveWrite (page off value : Word)
  | insecureWrite (page off value : Word)

/-- S-mode code writes its CSRs.  With `SR_TVM` set, an attempt to write `satp` traps. -/
def writeCsrs (f : CsrFile) (csr : SavedCsr → Word) : CsrFile :=
  restoreCsrs csrsH f
    (if SR_TVM &&& f .mstatus ≠ 0 then Function.update csr .satp (csrRead f .satp) else csr)

instance (m : Machine) (pageno : Word) (type : PageType) : Decidable (implPageTyped m pageno type) :=
  inferInstanceAs (Decidable (_ ∧ _))

instance (m : Machine) (pageno : Word) : Decidable (implPageNonfree m pageno) :=
  inferInstanceAs (Decidable (_ ∧ _))

/-- The address space of the running enclave. -/
def Machine.curAddrspace (m : Machine) : Word :=
  (m.gPagedb m.gCurDispatcherPageno).addrspacePage

/-- The stores of an enclave that the specification permits. -/
def Machine.enclaveMay (m : Machine) (page off : Word) : Prop :=
  m.enclaveMode ≠ 0 ∧ pageIndexValid off ∧ implPageTyped m page .data ∧
    (m.gPagedb page).addrspacePage = m.curAddrspace

instance (m : Machine) (page off : Word) : Decidable (m.enclaveMay page off) :=
  inferInstanceAs (Decidable (_ ∧ _))

/-- One event; `none` is a bug of the monitor.  Stores that are not permitted do not happen. -/
def Machine.step (L : Layout) (m : Machine) : Event → Option Machine
  | .run gpr csr => some { m with regs := gpr, csrs := writeCsrs m.csrs csr }
  | .trap cause => Komodo.trap L cause m
  | .enclaveWrite page off value =>
      if m.enclaveMay page off then
        some { m with securePages := updateCell m.securePages page off value }
      else
        some m
  | .insecureWrite page off value =>
      if insecurePageValid page ∧ pageIndexValid off then
        some { m with payload := updateCell m.payload page off value }
      else
        some m

def runEvents (L : Layout) : Machine → List Event → Option Machine
  | m, [] => some m
  | m, e :: es =>
      match m.step L e with
      | some m' => runEvents L m' es
      | none => none

theorem runEvents_cons {L : Layout} {m m' : Machine} {e : Event} (h : m.step L e = some m')
    (es : List Event) : runEvents L m (e :: es) = runEvents L m' es := by
  rw [runEvents, h]

/-! ## What every run keeps -/

structure RunInvariants (L : Layout) (m : Machine) : Prop where
  mregions : MregionsInvariants m
  tvm : EnclaveTvm m
  state : ∃ g, OwnershipInvariants (absFunction g m) ∧ PgtableInvariants L (absFunction g m)

theorem writeCsrs_tvm (f : CsrFile) (csr : SavedCsr → Word) :
    SR_TVM &&& writeCsrs f csr .mstatus = SR_TVM &&& f .mstatus :=
  and_restoreCsrs_mstatus csrsH f _ (by decide)

/-- `satp` keeps its value while it is protected. -/
theorem writeCsrs_satp {f : CsrFile} (htvm : SR_TVM &&& f .mstatus ≠ 0) (csr : SavedCsr → Word) :
    readCsrs (writeCsrs f csr) .satp = readCsrs f .satp := by
  rw [writeCsrs, if_pos htvm, readCsrs_restoreCsrs_mask]
  show Function.update csr .satp (csrRead f .satp) .satp &&& BitVec.allOnes 64 = csrRead f .satp
  rw [Function.update_self, BitVec.and_allOnes]

theorem booted_runInvariants (L : Layout) (frame : PtRegs) (hartid dtb : Word) (m : Machine) :
    RunInvariants L (booted L frame hartid dtb m) := by
  have hinit := booted_initialState L frame hartid dtb m 0
  refine ⟨(mregionsInvariants_iff (initGhost 0) _).mpr (booted_tableInvariants L frame hartid dtb m _),
    fun hmode => absurd rfl hmode, initGhost 0, hinit.ownershipInvariants, ?_⟩
  refine ⟨fun p hp _ => ?_, fun hmode => absurd hmode Bool.false_ne_true⟩
  exact absurd (hinit.free p hp.1) (pageNonfree_iff.mp hp).2

/-- One event: the monitor does not fail, and the invariants are kept. -/
theorem step_runInvariants {L : Layout} {m : Machine} (h : RunInvariants L m) (e : Event) :
    ∃ m', m.step L e = some m' ∧ RunInvariants L m' := by
  rcases h.state with ⟨g, hown, hpgtable⟩
  have hmode : (absFunction g m).enclaveMode = true ↔ m.enclaveMode ≠ 0 := decide_eq_true_iff
  have htable := (mregionsInvariants_iff g m).mp h.mregions
  cases e with
  | run gpr csr =>
      refine ⟨_, rfl, ?_, ?_, g, ⟨hown.1, hown.2, hown.3, hown.4⟩, ?_⟩
      · exact ⟨h.mregions.1, h.mregions.2, h.mregions.3, h.mregions.4, h.mregions.5, h.mregions.6,
          h.mregions.7⟩
      · intro henclave
        rw [writeCsrs_tvm]
        exact h.tvm henclave
      · exact hpgtable.setRegs (r := ⟨gpr, readCsrs (writeCsrs m.csrs csr)⟩)
          (fun henclave => writeCsrs_satp (h.tvm (hmode.mp henclave)) csr)
  | trap cause =>
      rcases trap_implements L g h.mregions cause with ⟨m', hrun, hmregions, himpl⟩
      refine ⟨m', hrun, hmregions, himpl.tvm h.tvm, (specTrap L cause (absFunction g m)).ghost, ?_⟩
      rw [himpl.abs]
      exact (PgtableInvariants.preserved L).specTrap cause ⟨hown, hpgtable⟩
  | enclaveWrite p o v =>
      by_cases hmay : m.enclaveMay p o
      · have hdata : (absFunction g m).pageTyped p .data := hmay.2.2.1
        let w := Function.update (m.securePages p) o v
        have htable' := htable.setEntry hdata ⟨by decide, by decide⟩ w
        refine ⟨_, if_pos hmay, (mregionsInvariants_iff g _).mpr htable', h.tvm, g,
          hown.setPage hdata (by decide) w, ?_⟩
        exact hpgtable.setPage hown hdata (.inl rfl) (fun heq => by cases heq)
      · exact ⟨m, if_neg hmay, h⟩
  | insecureWrite p o v =>
      by_cases hvalid : insecurePageValid p ∧ pageIndexValid o
      · refine ⟨_, if_pos hvalid, ?_, h.tvm, g, ⟨hown.1, hown.2, hown.3, hown.4⟩, ?_⟩
        · exact ⟨h.mregions.1, h.mregions.2, h.mregions.3, h.mregions.4, h.mregions.5,
            h.mregions.6, h.mregions.7⟩
        · exact ⟨fun q hq hlive => ⟨(hpgtable.page q hq hlive).1, (hpgtable.page q hq hlive).2,
            (hpgtable.page q hq hlive).3⟩, hpgtable.running⟩
      · exact ⟨m, if_neg hvalid, h⟩

/-- Every run goes through and keeps the invariants. -/
theorem runEvents_runInvariants {L : Layout} (es : List Event) :
    ∀ {m : Machine}, RunInvariants L m → ∃ m', runEvents L m es = some m' ∧ RunInvariants L m' := by
  induction es with
  | nil =>
      intro m h
      exact ⟨m, rfl, h⟩
  | cons e es ih =>
      intro m h
      rcases step_runInvariants h e with ⟨m₁, hstep, h₁⟩
      rcases ih h₁ with ⟨m₂, hruns, h₂⟩
      refine ⟨m₂, ?_, h₂⟩
      rw [runEvents_cons hstep]
      exact hruns

/-! ## Page ownership -/

/-- The pages that an address space owns. -/
def ownedPages (m : Machine) (a : Word) : Finset Word :=
  securePagenos.filter (fun p => implPageNonfree m p ∧ (m.gPagedb p).addrspacePage = a)

theorem ownedPages_eq_holdings (g : Ghost) (m : Machine) (a : Word) :
    ownedPages m a = holdings securePagenos (absFunction g m).ownerOf a := by
  ext p
  rw [mem_holdings, ownerOf_eq_some, ownedPages, Finset.mem_filter]
  rfl

theorem pageIsTyped_run (m : Machine) (p : Word) (t : PageType) :
    pageIsTyped p t m = .ret (decide (implPageTyped m p t)) m := by
  by_cases hp : pageIsValid p
  · have hp' : pageValid p := hp
    simp [pageIsTyped, loadEntry, Ctl.bugOn, Ctl.gets, Bind.bind, Pure.pure, implPageTyped, hp, hp']
  · have hp' : ¬ pageValid p := hp
    simp [pageIsTyped, Pure.pure, implPageTyped, hp, hp']

/-- The check that `allocate_page` leaves out changes nothing for the pages it would accept. -/
theorem allocatePage_check {m : Machine} {a : Word} (ha : implPageTyped m a .addrspace) (p : Word)
    (t : PageType) : allocatePage true p a t m = allocatePage false p a t m := by
  have hcheck : ∀ b : Bool, checkOwner b a m = .ret true m := by
    intro b
    cases b with
    | false => rfl
    | true => simpa [checkOwner, ha] using pageIsTyped_run m a .addrspace
  unfold allocatePage
  by_cases hp : ¬ pageIsValid p
  · rw [if_pos hp, if_pos hp]
  · rw [if_neg hp, if_neg hp]
    have hfree : pageIsFree p m = .ret (decide (implPageTyped m p .free)) m :=
      pageIsTyped_run m p .free
    refine (Ctl.bind_ret hfree).trans (Eq.trans ?_ (Ctl.bind_ret hfree).symm)
    by_cases hused : ¬ decide (implPageTyped m p .free) = true
    · rw [if_pos hused, if_pos hused]
    · rw [if_neg hused, if_neg hused]
      refine (Ctl.bind_ret (hcheck true)).trans (Eq.trans ?_ (Ctl.bind_ret (hcheck false)).symm)
      rfl

/-- What the page database and the counts say in every reachable state: every page that is not free
belongs to an address space, address spaces own themselves, each counts exactly the pages it owns, and
the dispatcher of a running enclave belongs to a final address space.  No event makes the monitor fail,
and the check that `allocate_page` leaves out would pass for every owner it is called with: an address
space, or the owner of a page that is not free. -/
theorem reachable_ownership (L : Layout) (frame : PtRegs) (hartid dtb : Word) (m₀ : Machine)
    (es : List Event) :
    ∃ m, runEvents L (booted L frame hartid dtb m₀) es = some m ∧
      (∀ p, implPageNonfree m p → implPageTyped m (m.gPagedb p).addrspacePage .addrspace) ∧
      (∀ a, implPageTyped m a .addrspace → (m.gPagedb a).addrspacePage = a ∧
        (m.securePages a KOM_ADDRSPACE_REFCOUNT).toNat = (ownedPages m a).card ∧
        1 ≤ (ownedPages m a).card ∧ (ownedPages m a).card ≤ 1024) ∧
      (m.enclaveMode ≠ 0 → implPageTyped m m.gCurDispatcherPageno .dispatcher ∧
        m.securePages m.curAddrspace KOM_ADDRSPACE_STATE = AddrspaceState.final.val) ∧
      ∀ a, (implPageTyped m a .addrspace ∨
          ∃ p, implPageNonfree m p ∧ (m.gPagedb p).addrspacePage = a) →
        ∀ csrs page type, allocatePage true page a type { m with csrs := csrs }
          = allocatePage false page a type { m with csrs := csrs } := by
  rcases runEvents_runInvariants es (booted_runInvariants L frame hartid dtb m₀) with ⟨m, hrun, h⟩
  rcases h.state with ⟨g, hown, _⟩
  have howner : ∀ p, implPageNonfree m p →
      implPageTyped m (m.gPagedb p).addrspacePage .addrspace := fun p hp => hown.owner_addrspace hp
  refine ⟨m, hrun, howner, ?_, ?_, ?_⟩
  · intro a ha
    have hself := hown.self_owned (a := a) ha
    have hcount : (m.securePages a KOM_ADDRSPACE_REFCOUNT).toNat = (ownedPages m a).card := by
      rw [ownedPages_eq_holdings g]
      exact hown.counted.exact ((hown.addrspace a).mp ha)
    have hbounds := hown.refcount_bounds (a := a) ha
    have hpos : 0 < (m.securePages a KOM_ADDRSPACE_REFCOUNT).toNat := hbounds.1
    have hle : (m.securePages a KOM_ADDRSPACE_REFCOUNT).toNat ≤ 1024 := hbounds.2
    rw [hcount] at hpos hle
    exact ⟨hself, hcount, hpos, hle⟩
  · intro hmode
    rcases hown.enclave (decide_eq_true hmode) with ⟨hd, hfinal, _⟩
    exact ⟨hd, hfinal⟩
  · intro a ha csrs page type
    have ha' : implPageTyped { m with csrs := csrs } a .addrspace := by
      rcases ha with ha | ⟨p, hp, rfl⟩
      · exact ha
      · exact howner p hp
    exact allocatePage_check ha' page type

end Komodo
end Serval
