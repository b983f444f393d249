import Serval.Lib.Noninterference
import Serval.Komodo.Boot
import Serval.Komodo.Observation

/-!
# NickelNi — noninterference of Komodo under the Nickel policy

The policy of `verif/nickel-ni.rkt` separates the operating system from the enclaves.  Entering an
enclave and leaving it are attributed to domains of their own, through which the two sides may
influence each other; insecure memory is open to everybody.  Finalising and stopping an address space
change what its enclave sees and are not covered: the traces that are compared do not contain them.

The one-step conditions are proved per kind of action: calls of the operating system, what an enclave
does while it runs, entering, leaving, and accesses to insecure memory.
-/

namespace Serval
namespace Komodo
namespace Nickel

open Riscv
open Noninterference (System Unwinding)

variable {s t : State} {a : Action} {obs d : Word} {w' w : Word → Word}

/-! ## Policy -/

inductive Domain
  | os
  | entry
  | enclave (obs : Word)
  | exit (enc : Word)
  | insecure
  deriving DecidableEq

def flowsTo (u v : Domain) : Bool :=
  u = v ||
    match u, v with
    | .insecure, _ => true
    | _, .insecure => true
    | .os, v => v = .entry
    | .entry, _ => true
    | .exit _, _ => true
    | .enclave obs, .exit enc => obs = enc
    | .enclave _, _ => false

def unwinding : Domain → State → State → Prop
  | .os, s, t => OsEquiv s t
  | .entry, s, t => OsEquiv s t
  | .enclave obs, s, t => EncEquiv obs s t
  | .exit enc, s, t => EncEquiv enc s t
  | .insecure, s, t => InsecureEquiv s t

/-- The domain of an action while an enclave runs. -/
def enclaveDom (s : State) : Action → Domain
  | .svcExit _ => .exit s.currentAddrspace
  | .handleTrap _ => .exit s.currentAddrspace
  | .insecureWrite _ _ _ => .insecure
  | .insecureRead _ _ => .insecure
  | _ => .enclave s.currentAddrspace

/-- The domain of an action while no enclave runs. -/
def hostDom : Action → Domain
  | .insecureRead _ _ => .insecure
  | .insecureWrite _ _ _ => .insecure
  | .smc call => if call.enters then .entry else .os
  | _ => .os

def dom (a : Action) (s : State) : Domain :=
  if s.enclaveMode then enclaveDom s a else hostDom a

def system (L : Layout) : System State Action Domain where
  step := specStep L
  dom := dom
  flowsTo := flowsTo

/-- The actions of the traces that are compared. -/
def allowed : Action → Prop
  | .smc call => call.setsState = false
  | _ => True

/-! ## Equivalence and domain consistency -/

theorem unwinding_refl (u : Domain) (s : State) : unwinding u s s := by
  cases u with
  | os | entry => exact OsEquiv.refl s
  | enclave obs | exit obs => exact EncEquiv.refl obs s
  | insecure => exact InsecureEquiv.refl s

theorem unwinding_symm {u : Domain} (h : unwinding u s t) : unwinding u t s := by
  cases u with
  | os | entry => exact OsEquiv.symm h
  | enclave obs | exit obs => exact EncEquiv.symm h
  | insecure => exact InsecureEquiv.symm h

theorem unwinding_trans {u : Domain} {r : State} (h : unwinding u s t) (h' : unwinding u t r) : unwinding u s r := by
  cases u with
  | os | entry => exact OsEquiv.trans h h'
  | enclave obs | exit obs => exact EncEquiv.trans h h'
  | insecure => exact InsecureEquiv.trans h h'

theorem dom_of_enclave (hmode : s.enclaveMode = true) (a : Action) : dom a s = enclaveDom s a :=
  if_pos hmode

theorem dom_of_host (hmode : s.enclaveMode = false) (a : Action) : dom a s = hostDom a := by
  simp [dom, hmode]

/-- The running enclave is known to itself. -/
theorem current_eq (hmode : s.enclaveMode = true) (h : EncEquiv s.currentAddrspace s t) :
    s.currentAddrspace = t.currentAddrspace :=
  (h.current.mp ⟨rfl, hmode⟩).1

theorem dom_consistent (h : unwinding (dom a s) s t) : dom a s = dom a t := by
  cases hmode : s.enclaveMode with
  | true =>
      rw [dom_of_enclave hmode] at h
      cases a with
      | insecureRead p o | insecureWrite p o v =>
          cases ht : t.enclaveMode <;> simp [dom, hmode, ht, enclaveDom, hostDom]
      | svcExit v | handleTrap v | smc call | enclaveRead p o | enclaveWrite p o v =>
          have hcur := current_eq hmode h
          have ht : t.enclaveMode = true := (EncEquiv.mode h).symm.trans hmode
          rw [dom_of_enclave hmode, dom_of_enclave ht]
          simp only [enclaveDom, hcur]
  | false =>
      rw [dom_of_host hmode] at h
      cases a with
      | insecureRead p o | insecureWrite p o v =>
          cases ht : t.enclaveMode <;> simp [dom, hmode, ht, enclaveDom, hostDom]
      | svcExit v | handleTrap v | enclaveRead p o | enclaveWrite p o v =>
          have ht : t.enclaveMode = false := (OsEquiv.mode h).symm.trans hmode
          rw [dom_of_host hmode, dom_of_host ht]
      | smc call =>
          have hos : OsEquiv s t := by
            cases henters : call.enters <;> simpa [hostDom, henters, unwinding] using h
          have ht : t.enclaveMode = false := hos.mode.symm.trans hmode
          rw [dom_of_host hmode, dom_of_host ht]

/-! ## While no enclave runs -/

/-- Outside enclave mode an enclave sees its pages only. -/
theorem encEquiv_of_host (h : EncPages obs s t) (hs : s.enclaveMode = false) (ht : t.enclaveMode = false) :
    EncEquiv obs s t := by
  have hnot : ∀ {u : State}, u.enclaveMode = false → ¬ isCurrent obs u :=
    fun hu hcur => Bool.false_ne_true (hu.symm.trans hcur.2)
  exact ⟨h, hs.trans ht.symm, iff_of_false (hnot hs) (hnot ht), fun hcur => absurd hcur (hnot hs)⟩

/-- A call of the operating system leaves the pages of final address spaces alone. -/
theorem effect_encPages (hs : OwnershipInvariants s) (hmode : s.enclaveMode = false) (L : Layout) {call : Smc}
    (hstate : call.setsState = false) (henters : call.enters = false) (hcheck : call.check s = none) (obs : Word) :
    EncPages obs s (call.effect L s) := by
  apply EncPages.of_same hs (hs.effect hmode L hcheck)
  · intro q hv hq
    apply effect_samePage L
    intro htouch
    exact touches_not_final hs hstate henters hcheck htouch hq hv.2
  · intro q hv hq
    apply effect_samePage L
    intro htouch
    exact effect_not_final hs L hstate henters hcheck htouch hq hv.2

/-- What the operating system does alone is invisible to enclaves. -/
theorem host_respects_enclave (hs : OwnershipInvariants s) (hmode : s.enclaveMode = false) (L : Layout)
    (ha : allowed a) (hdom : hostDom a = .os) (obs : Word) : EncEquiv obs s (specStep L s a) := by
  have hregs : ∀ r : Regs, EncEquiv obs s { s with regs := r } := by
    intro r
    exact encEquiv_of_host ((EncPages.refl obs s).congr (.refl s) (fun q => ⟨rfl, rfl, rfl, rfl⟩))
      hmode hmode
  cases a with
  | smc call =>
      have henters : call.enters = false := by
        simpa [hostDom] using hdom
      show EncEquiv obs s (makeSmcSpec (specSmc L call) s)
      rw [makeSmcSpec_of_host _ hmode]
      apply specSmc_induction
      · exact fun err => hregs _
      · intro hcheck
        have hmode' : ((call.effect L (advanceMepc s))).enclaveMode = false :=
          (effect_enclaveMode L henters).trans hmode
        have hpages := effect_encPages hs.advanceMepc hmode L ha henters hcheck obs
        exact (hregs _).trans (encEquiv_of_host hpages hmode hmode')
  | svcExit v =>
      show EncEquiv obs s (specKomSvcExit s v)
      rw [specKomSvcExit_of_host v hmode]
      exact hregs _
  | handleTrap cause =>
      show EncEquiv obs s (specKomHandleTrap s cause)
      rw [specKomHandleTrap_of_host cause hmode]
      exact EncEquiv.refl obs s
  | enclaveRead p o =>
      have hmay : ¬ s.enclaveMay p o := fun h => Bool.false_ne_true (hmode.symm.trans h.1)
      simpa [specStep, specEnclaveRead, hmay] using EncEquiv.refl obs s
  | enclaveWrite p o v =>
      have hmay : ¬ s.enclaveMay p o := fun h => Bool.false_ne_true (hmode.symm.trans h.1)
      simpa [specStep, specEnclaveWrite, hmay] using EncEquiv.refl obs s
  | insecureRead p o => cases hdom
  | insecureWrite p o v => cases hdom

/-- States that look alike to the operating system look alike after what it does. -/
theorem host_osEquiv (h : OsEquiv s t) (hs : OwnershipInvariants s) (hmode : s.enclaveMode = false) (L : Layout)
    (hdom : hostDom a ≠ .insecure) :
    OsEquiv (specStep L s a) (specStep L t a) := by
  have hmode' : t.enclaveMode = false := h.mode.symm.trans hmode
  have hregs : ∀ {u v : State} (f : Regs → Regs), OsEquiv u v → u.enclaveMode = false →
      OsEquiv { u with regs := f u.regs } { v with regs := f v.regs } := by
    intro u v f huv hu
    exact ⟨huv.insecure, huv.currentDispatcher, huv.currentAddrspace, huv.mode, huv.host,
      fun _ => congrArg f (huv.regs hu),
      fun q hq => (huv.page q hq).congr ⟨rfl, rfl, rfl, rfl⟩ ⟨rfl, rfl, rfl, rfl⟩⟩
  have hadvance : OsEquiv (advanceMepc s) (advanceMepc t) :=
    hregs (fun r => r.setCsr .mepc (4 + r.csr .mepc)) h hmode
  have hreturn : ∀ v : Word, OsEquiv (setReturn (advanceMepc s) v) (setReturn (advanceMepc t) v) :=
    fun v => hregs (fun r => r.setGpr .a0 v) hadvance hmode
  cases a with
  | smc call =>
      show OsEquiv (makeSmcSpec (specSmc L call) s) (makeSmcSpec (specSmc L call) t)
      rw [makeSmcSpec_of_host _ hmode, makeSmcSpec_of_host _ hmode', specSmc_eq_guarded,
        specSmc_eq_guarded, ← hadvance.check hs.advanceMepc call]
      cases hcheck : call.check (advanceMepc s) with
      | some err => exact hreturn err.val
      | none => exact hadvance.effect hs.advanceMepc hmode L hcheck
  | svcExit v =>
      show OsEquiv (specKomSvcExit s v) (specKomSvcExit t v)
      rw [specKomSvcExit_of_host v hmode, specKomSvcExit_of_host v hmode']
      exact hreturn _
  | handleTrap cause =>
      show OsEquiv (specKomHandleTrap s cause) (specKomHandleTrap t cause)
      rw [specKomHandleTrap_of_host cause hmode, specKomHandleTrap_of_host cause hmode']
      exact h
  | enclaveRead p o =>
      have hmay : ∀ {u : State}, u.enclaveMode = false → ¬ u.enclaveMay p o :=
        fun hu h => Bool.false_ne_true (hu.symm.trans h.1)
      simpa [specStep, specEnclaveRead, hmay hmode, hmay hmode'] using h
  | enclaveWrite p o v =>
      have hmay : ∀ {u : State}, u.enclaveMode = false → ¬ u.enclaveMay p o :=
        fun hu h => Bool.false_ne_true (hu.symm.trans h.1)
      simpa [specStep, specEnclaveWrite, hmay hmode, hmay hmode'] using h
  | insecureRead p o => exact absurd rfl hdom
  | insecureWrite p o v => exact absurd rfl hdom

/-! ## While an enclave runs -/

/-- What an enclave does alone: it changes the registers, or a word of one of its data pages. -/
theorem enclaveStep_cases (hmode : s.enclaveMode = true) (L : Layout)
    (hdom : enclaveDom s a = .enclave s.currentAddrspace) :
    (∃ r : Regs, specStep L s a = { s with regs := r }) ∨
      ∃ p o v, s.enclaveMay p o ∧
        specStep L s a = s.setPage p (Function.update (s.pages p) o v) := by
  cases a with
  | smc call => exact .inl ⟨_, makeSmcSpec_of_enclave _ hmode⟩
  | enclaveRead p o =>
      left
      by_cases hmay : s.enclaveMay p o
      · exact ⟨_, if_pos hmay⟩
      · exact ⟨s.regs, if_neg hmay⟩
  | enclaveWrite p o v =>
      by_cases hmay : s.enclaveMay p o
      · exact .inr ⟨p, o, v, hmay, if_pos hmay⟩
      · exact .inl ⟨s.regs, if_neg hmay⟩
  | svcExit v => cases hdom
  | handleTrap cause => cases hdom
  | insecureRead p o => cases hdom
  | insecureWrite p o v => cases hdom

/-- In enclave mode the operating system does not see the registers. -/
theorem osEquiv_setRegs (h : OsEquiv s t) (hmode : s.enclaveMode = true) (r r' : Regs) :
    OsEquiv { s with regs := r } { t with regs := r' } :=
  ⟨h.insecure, h.currentDispatcher, h.currentAddrspace, h.mode, h.host,
    fun hfalse => absurd (hfalse.symm.trans hmode) Bool.false_ne_true,
    fun q hq => (h.page q hq).congr ⟨rfl, rfl, rfl, rfl⟩ ⟨rfl, rfl, rfl, rfl⟩⟩

theorem enclave_respects_os (hmode : s.enclaveMode = true) (L : Layout)
    (hdom : enclaveDom s a = .enclave s.currentAddrspace) : OsEquiv s (specStep L s a) := by
  rcases enclaveStep_cases hmode L hdom with ⟨r, heq⟩ | ⟨p, o, v, hmay, heq⟩
  · rw [heq]
    exact osEquiv_setRegs (OsEquiv.refl s) hmode s.regs r
  · rw [heq]
    refine ⟨.refl s, rfl, rfl, rfl, rfl, fun _ => rfl, ?_⟩
    intro q hq
    by_cases hqp : q = p
    · subst hqp
      -- data pages do not show
      apply OsPage.of_typed (k := .data)
      · exact hmay.2.2.1
      · exact hmay.2.2.1
      · rfl
      · simp
      · simp
      · simp
    · exact (OsPage.refl s q).congr (.refl s q) (setPage_samePage _ hqp)

theorem enclave_respects_enclave (hs : OwnershipInvariants s) (hmode : s.enclaveMode = true) (L : Layout)
    (hdom : enclaveDom s a = .enclave s.currentAddrspace) (hobs : s.currentAddrspace ≠ obs) :
    EncEquiv obs s (specStep L s a) := by
  have hnot : ¬ isCurrent obs s := fun hcur => hobs hcur.1.symm
  rcases enclaveStep_cases hmode L hdom with ⟨r, heq⟩ | ⟨p, o, v, hmay, heq⟩
  · rw [heq]
    exact ⟨(EncPages.refl obs s).congr (.refl s) (fun q => ⟨rfl, rfl, rfl, rfl⟩), rfl, Iff.rfl,
      fun hcur => absurd hcur hnot⟩
  · rw [heq]
    have howner : s.ownerOf p = some s.currentAddrspace := by
      rw [ownerOf_of_pageTyped hmay.2.2.1 (by decide), hmay.2.2.2]
    have hother : ∀ q, s.ownerOf q = some obs →
        SamePage s (s.setPage p (Function.update (s.pages p) o v)) q := by
      intro q hq
      apply setPage_samePage
      rintro rfl
      exact hobs (Option.some.inj (howner.symm.trans hq))
    have hpages := EncPages.of_same hs
      (hs.setPage hmay.2.2.1 (by decide) (Function.update (s.pages p) o v))
      (fun q _ hq => hother q hq) (fun q _ hq => hother q hq)
    exact ⟨hpages, rfl, Iff.rfl, fun hcur => absurd hcur hnot⟩

/-- The running enclave may touch the same words. -/
theorem enclaveMay_iff (hs : OwnershipInvariants s) (hmode : s.enclaveMode = true)
    (h : EncEquiv s.currentAddrspace s t) (p o : Word) : s.enclaveMay p o ↔ t.enclaveMay p o := by
  have hvalid := hs.current_valid hmode
  have hmode' : t.enclaveMode = true := h.mode.symm.trans hmode
  have hcur := current_eq hmode h
  have hown : ∀ {u : State}, u.pageTyped p .data → u.pagedbAddrspace p = s.currentAddrspace →
      pageOwned s.currentAddrspace u p :=
    fun hdata howner => ⟨hdata.1, not_pageFree_of_pageTyped hdata (by decide), howner.symm⟩
  constructor
  · rintro ⟨_, ho, hdata, howner⟩
    have howned := hown hdata howner
    have howned' := (h.owned hvalid p hdata.1).mp howned
    exact ⟨hmode', ho, ⟨hdata.1, (h.type hvalid p howned).symm.trans hdata.2⟩,
      howned'.2.2.symm.trans hcur⟩
  · rintro ⟨_, ho, hdata, howner⟩
    have howned := (h.owned hvalid p hdata.1).mpr (hown hdata (howner.trans hcur.symm))
    exact ⟨hmode, ho, ⟨hdata.1, (h.type hvalid p howned).trans hdata.2⟩, howned.2.2.symm⟩

/-- The running enclave does the same to states that look alike to it. -/
theorem enclave_encEquiv (hs : OwnershipInvariants s) (hmode : s.enclaveMode = true)
    (h : EncEquiv s.currentAddrspace s t) (L : Layout) (hdom : enclaveDom s a = .enclave s.currentAddrspace) :
    EncEquiv s.currentAddrspace (specStep L s a) (specStep L t a) := by
  rcases h.running ⟨rfl, hmode⟩ with ⟨hregs, hdisp⟩
  have hmode' : t.enclaveMode = true := h.mode.symm.trans hmode
  have hsetRegs : ∀ {r r' : Regs}, r = r' →
      EncEquiv s.currentAddrspace { s with regs := r } { t with regs := r' } :=
    fun hr => ⟨h.toEncPages.congr (fun q => ⟨rfl, rfl, rfl, rfl⟩) (fun q => ⟨rfl, rfl, rfl, rfl⟩),
      h.mode, h.current, fun _ => ⟨hr, hdisp⟩⟩
  cases a with
  | smc call =>
      show EncEquiv _ (makeSmcSpec (specSmc L call) s) (makeSmcSpec (specSmc L call) t)
      rw [makeSmcSpec_of_enclave _ hmode, makeSmcSpec_of_enclave _ hmode']
      apply hsetRegs
      rw [advanceMepc, advanceMepc, hregs]
  | enclaveRead p o =>
      have hmay := enclaveMay_iff hs hmode h p o
      by_cases hs' : s.enclaveMay p o
      · have ht' := hmay.mp hs'
        have hword : s.pages p o = t.pages p o := by
          refine h.words (hs.current_valid hmode) p o ?_ hs'.2.1
          exact ⟨hs'.2.2.1.1, not_pageFree_of_pageTyped hs'.2.2.1 (by decide), hs'.2.2.2.symm⟩
        simp only [specStep, specEnclaveRead, if_pos hs', if_pos ht']
        apply hsetRegs
        rw [hregs, hword]
      · simpa only [specStep, specEnclaveRead, if_neg hs', if_neg (mt hmay.mpr hs')] using h
  | enclaveWrite p o v =>
      have hmay := enclaveMay_iff hs hmode h p o
      by_cases hs' : s.enclaveMay p o
      · have ht' := hmay.mp hs'
        have hpages : EncPages s.currentAddrspace
            (s.setPage p (Function.update (s.pages p) o v))
            (t.setPage p (Function.update (t.pages p) o v)) := by
          apply h.toEncPages.setPage hs'.2.2.1 ht'.2.2.1 (by decide)
          intro hv hp i hi
          by_cases hio : i = o
          · subst hio
            simp
          · simpa [hio] using h.words hv p i hp hi
        simp only [specStep, specEnclaveWrite, if_pos hs', if_pos ht']
        exact ⟨hpages, h.mode, h.current, h.running⟩
      · simpa only [specStep, specEnclaveWrite, if_neg hs', if_neg (mt hmay.mpr hs')] using h
  | svcExit v => cases hdom
  | handleTrap cause => cases hdom
  | insecureRead p o => cases hdom
  | insecureWrite p o v => cases hdom

/-! ## Entering an enclave -/

theorem withArgs_congr (a0 a1 a2 : Word) {i : Word} (h : w i = w' i) :
    withArgs w a0 a1 a2 i = withArgs w' a0 a1 a2 i := by
  simp only [withArgs, Function.update_apply, h]

theorem dispatcherRegs_congr (h : ∀ i, pageIndexValid i → w i = w' i) : dispatcherRegs w = dispatcherRegs w' := by
  have hgpr : ∀ r : Gpr, w (DispatcherField.gpr r).index = w' (DispatcherField.gpr r).index :=
    fun r => h _ (DispatcherField.index_valid _)
  have hcsr : ∀ c : SavedCsr, w (DispatcherField.csr c).index = w' (DispatcherField.csr c).index :=
    fun c => h _ (DispatcherField.index_valid _)
  simp only [dispatcherRegs, hgpr, hcsr]

theorem enter_encEquiv (h : EncPages obs s t) (hs : OwnershipInvariants s) (hd : s.pageTyped d .dispatcher)
    (howner : s.pagedbAddrspace d = t.pagedbAddrspace d) (hfinal : s.addrspaceIn (s.pagedbAddrspace d) .final) :
    EncEquiv obs (specEnterSecureWorld s d) (specEnterSecureWorld t d) := by
  refine ⟨h.congr (fun q => ⟨rfl, rfl, rfl, rfl⟩) (fun q => ⟨rfl, rfl, rfl, rfl⟩), rfl, ?_, ?_⟩
  · show obs = s.pagedbAddrspace d ∧ true = true ↔ obs = t.pagedbAddrspace d ∧ true = true
    rw [howner]
  · rintro ⟨hobs, _⟩
    -- the enclave sees the context it is resumed with: it is stored in a page of its own
    have hobs' : obs = s.pagedbAddrspace d := hobs
    have haddrspace := hs.owner_addrspace (pageNonfree_of_pageTyped hd (by decide))
    have hvalid : encValid obs s := hobs' ▸ ⟨haddrspace, hfinal⟩
    have howned : pageOwned obs s d :=
      ⟨hd.1, not_pageFree_of_pageTyped hd (by decide), hobs'⟩
    exact ⟨dispatcherRegs_congr (fun i hi => h.words hvalid d i howned hi), rfl⟩

theorem withArgs_encPages (h : EncPages obs s t) (hd : s.pageTyped d .dispatcher) (hd' : t.pageTyped d .dispatcher)
    (a0 a1 a2 : Word) :
    EncPages obs (s.setPage d (withArgs (s.pages d) a0 a1 a2))
      (t.setPage d (withArgs (t.pages d) a0 a1 a2)) := by
  apply h.setPage hd hd' (by decide)
  intro hv hown i hi
  exact withArgs_congr a0 a1 a2 (h.words hv d i hown hi)

/-- An enclave sees alike whether and how it is entered. -/
theorem entry_encEquiv (hos : OsEquiv s t) (h : EncEquiv obs s t) (hs : OwnershipInvariants s)
    (hmode : s.enclaveMode = false) (L : Layout) {call : Smc} (henters : call.enters = true) :
    EncEquiv obs (specStep L s (.smc call)) (specStep L t (.smc call)) := by
  have hmode' : t.enclaveMode = false := hos.mode.symm.trans hmode
  have hpages : EncPages obs (advanceMepc s) (advanceMepc t) :=
    h.toEncPages.congr (fun q => ⟨rfl, rfl, rfl, rfl⟩) (fun q => ⟨rfl, rfl, rfl, rfl⟩)
  have hcheck_eq : call.check (advanceMepc s) = call.check (advanceMepc t) := by
    have heq := hos.check hs call
    cases call <;> exact heq
  show EncEquiv obs (makeSmcSpec (specSmc L call) s) (makeSmcSpec (specSmc L call) t)
  rw [makeSmcSpec_of_host _ hmode, makeSmcSpec_of_host _ hmode', specSmc_eq_guarded,
    specSmc_eq_guarded, ← hcheck_eq]
  cases hcheck : call.check (advanceMepc s) with
  | some err =>
      exact encEquiv_of_host
        (hpages.congr (fun q => ⟨rfl, rfl, rfl, rfl⟩) (fun q => ⟨rfl, rfl, rfl, rfl⟩)) hmode hmode'
  | none =>
      cases call with
      | enter d a0 a1 a2 =>
          rcases checkEnter_eq_none.mp hcheck with ⟨hd, hfinal, _⟩
          have hd' := (hos.pageTyped d _).mp hd
          have hne : s.pagedbAddrspace d ≠ d :=
            ne_of_pageTyped (hs.owner_addrspace (pageNonfree_of_pageTyped hd (by decide))) hd
              (by decide)
          simp only [guarded, Smc.effect, setDispatcherArgs_eq]
          apply enter_encEquiv (withArgs_encPages hpages hd hd' a0 a1 a2)
            (hs.advanceMepc.setPage hd (by decide) _) hd (hos.owner hd.1)
          simpa [State.addrspaceIn, State.addrspaceState, State.setPage, advanceMepc, hne]
            using hfinal
      | resume d =>
          rcases checkResume_eq_none.mp hcheck with ⟨hd, hfinal, _⟩
          exact enter_encEquiv hpages hs.advanceMepc hd (hos.owner hd.1) hfinal
      | _ => cases henters

/-! ## Leaving an enclave -/

theorem saveDispatcher_congr (entered : Word) (r : Regs) {i : Word} (h : w i = w' i) :
    saveDispatcher w entered r i = saveDispatcher w' entered r i := by
  by_cases hf : ∃ f : DispatcherField, f.index = i
  · rcases hf with ⟨f, rfl⟩
    simp
  · have hne : ∀ f : DispatcherField, f.index ≠ i := fun f hfi => hf ⟨f, hfi⟩
    rw [saveDispatcher_of_ne _ _ _ hne, saveDispatcher_of_ne _ _ _ hne, h]

section Leave

variable {s t : State} (a0 a1 : Word) (entered : Bool)

theorem leave_samePage {q : Word} (hq : q ≠ d) :
    SamePage s (specLeaveSecureWorld (setHostReturn s a0 a1) d entered) q :=
  ⟨rfl, rfl, by simp [specLeaveSecureWorld, setHostReturn, hq], rfl⟩

theorem leave_osEquiv (h : OsEquiv s t) (hs : OwnershipInvariants s) (hmode : s.enclaveMode = true) :
    OsEquiv (specLeaveSecureWorld (setHostReturn s a0 a1) s.currentDispatcher entered)
      (specLeaveSecureWorld (setHostReturn t a0 a1) t.currentDispatcher entered) := by
  rcases hs.enclave hmode with ⟨hd, _, _⟩
  have hhost : (setHostReturn s a0 a1).hostState = (setHostReturn t a0 a1).hostState := by
    rw [setHostReturn, setHostReturn, h.host]
  rw [← h.currentDispatcher]
  refine ⟨h.insecure, rfl, h.currentAddrspace, rfl, hhost, fun _ => hhost, ?_⟩
  intro q hq
  by_cases hqd : q = s.currentDispatcher
  · rw [hqd]
    have hpage : OsPage
        (s.setPage s.currentDispatcher
          (saveDispatcher (s.pages s.currentDispatcher) (if entered then 1 else 0) s.regs))
        (t.setPage s.currentDispatcher
          (saveDispatcher (t.pages s.currentDispatcher) (if entered then 1 else 0) t.regs))
        s.currentDispatcher := by
      apply h.setDispatcher_page hd
      simp [DispatcherField.saved]
    exact hpage.congr ⟨rfl, rfl, rfl, rfl⟩ ⟨rfl, rfl, rfl, rfl⟩
  · exact (h.page q hq).congr (leave_samePage a0 a1 entered hqd) (leave_samePage a0 a1 entered hqd)

theorem leave_encEquiv (h : EncPages obs s t) (hc : EncEquiv s.currentAddrspace s t) (hs : OwnershipInvariants s)
    (ht : OwnershipInvariants t) (hmode : s.enclaveMode = true) :
    EncEquiv obs (specLeaveSecureWorld (setHostReturn s a0 a1) s.currentDispatcher entered)
      (specLeaveSecureWorld (setHostReturn t a0 a1) t.currentDispatcher entered) := by
  rcases hc.running ⟨rfl, hmode⟩ with ⟨hregs, hdisp⟩
  rcases hs.enclave hmode with ⟨hd, _, _⟩
  rcases ht.enclave (hc.mode.symm.trans hmode) with ⟨hd', _, _⟩
  rw [← hdisp] at hd' ⊢
  have hpages : EncPages obs
      (s.setPage s.currentDispatcher
        (saveDispatcher (s.pages s.currentDispatcher) (if entered then 1 else 0) s.regs))
      (t.setPage s.currentDispatcher
        (saveDispatcher (t.pages s.currentDispatcher) (if entered then 1 else 0) t.regs)) := by
    apply h.setPage hd hd' (by decide)
    intro hv hown i hi
    rw [hregs]
    exact saveDispatcher_congr _ _ (h.words hv _ i hown hi)
  exact encEquiv_of_host
    (hpages.congr (fun q => ⟨rfl, rfl, rfl, rfl⟩) (fun q => ⟨rfl, rfl, rfl, rfl⟩)) rfl rfl

end Leave

theorem exit_osEquiv (h : OsEquiv s t) (hs : OwnershipInvariants s) (hmode : s.enclaveMode = true) (L : Layout)
    (hdom : enclaveDom s a = .exit s.currentAddrspace) :
    OsEquiv (specStep L s a) (specStep L t a) := by
  have hmode' : t.enclaveMode = true := h.mode.symm.trans hmode
  cases a with
  | svcExit v =>
      show OsEquiv (specKomSvcExit s v) (specKomSvcExit t v)
      rw [specKomSvcExit_of_enclave v hmode, specKomSvcExit_of_enclave v hmode']
      have hadvance : OsEquiv (advanceMepc s) (advanceMepc t) := osEquiv_setRegs h hmode _ _
      exact leave_osEquiv 0 v false hadvance hs.advanceMepc hmode
  | handleTrap cause =>
      show OsEquiv (specKomHandleTrap s cause) (specKomHandleTrap t cause)
      rw [specKomHandleTrap_of_enclave cause hmode, specKomHandleTrap_of_enclave cause hmode']
      exact leave_osEquiv _ cause true h hs hmode
  | smc call => cases hdom
  | enclaveRead p o => cases hdom
  | enclaveWrite p o v => cases hdom
  | insecureRead p o => cases hdom
  | insecureWrite p o v => cases hdom

theorem exit_encEquiv (h : EncEquiv obs s t) (hc : EncEquiv s.currentAddrspace s t) (hs : OwnershipInvariants s)
    (ht : OwnershipInvariants t) (hmode : s.enclaveMode = true) (L : Layout)
    (hdom : enclaveDom s a = .exit s.currentAddrspace) :
    EncEquiv obs (specStep L s a) (specStep L t a) := by
  have hmode' : t.enclaveMode = true := h.mode.symm.trans hmode
  cases a with
  | svcExit v =>
      show EncEquiv obs (specKomSvcExit s v) (specKomSvcExit t v)
      rw [specKomSvcExit_of_enclave v hmode, specKomSvcExit_of_enclave v hmode']
      have hadvance : ∀ {c : Word}, EncEquiv c s t → EncEquiv c (advanceMepc s) (advanceMepc t) := by
        intro c h
        refine ⟨h.toEncPages.congr (fun q => ⟨rfl, rfl, rfl, rfl⟩) (fun q => ⟨rfl, rfl, rfl, rfl⟩),
          h.mode, h.current, fun hcur => ⟨?_, (h.running hcur).2⟩⟩
        rw [advanceMepc, advanceMepc, (h.running hcur).1]
      exact leave_encEquiv 0 v false (hadvance h).toEncPages (hadvance hc) hs.advanceMepc
        ht.advanceMepc hmode
  | handleTrap cause =>
      show EncEquiv obs (specKomHandleTrap s cause) (specKomHandleTrap t cause)
      rw [specKomHandleTrap_of_enclave cause hmode, specKomHandleTrap_of_enclave cause hmode']
      exact leave_encEquiv _ cause true h.toEncPages hc hs ht hmode
  | smc call => cases hdom
  | enclaveRead p o => cases hdom
  | enclaveWrite p o v => cases hdom
  | insecureRead p o => cases hdom
  | insecureWrite p o v => cases hdom

/-! ## Insecure memory -/

theorem step_insecurePages (L : Layout) (s : State) (ha : dom a s ≠ .insecure) :
    (specStep L s a).insecurePages = s.insecurePages := by
  have hkept : Preserved L (fun u => u.insecurePages = s.insecurePages) :=
    ⟨fun _ h => h, fun h => h, fun {_ call} _ _ h => by cases call <;> exact h, fun _ _ _ _ h => h⟩
  cases a with
  | smc call => exact hkept.makeSmcSpec call rfl
  | svcExit v => exact hkept.specKomSvcExit v rfl
  | handleTrap cause => exact hkept.specKomHandleTrap cause rfl
  | enclaveRead p o =>
      simp only [specStep, specEnclaveRead]
      split <;> rfl
  | enclaveWrite p o v =>
      simp only [specStep, specEnclaveWrite]
      split <;> rfl
  | insecureRead p o | insecureWrite p o v =>
      cases hmode : s.enclaveMode <;> simp [dom, hmode, enclaveDom, hostDom] at ha

/-- Reading an insecure word into a register. -/
theorem insecureRead_unwinding {u : Domain} (h : unwinding u s t) (hinsecure : InsecureEquiv s t) (p o : Word) :
    unwinding u (specInsecureRead s p o) (specInsecureRead t p o) := by
  by_cases hpo : insecurePageValid p ∧ pageIndexValid o
  · have hword := hinsecure p o hpo.1 hpo.2
    simp only [specInsecureRead, if_pos hpo]
    cases u with
    | os | entry =>
        have h : OsEquiv s t := h
        refine ⟨h.insecure, h.currentDispatcher, h.currentAddrspace, h.mode, h.host, ?_,
          fun q hq => (h.page q hq).congr ⟨rfl, rfl, rfl, rfl⟩ ⟨rfl, rfl, rfl, rfl⟩⟩
        intro hmode
        rw [h.regs hmode, hword]
    | enclave obs | exit obs =>
        have h : EncEquiv obs s t := h
        refine ⟨h.toEncPages.congr (fun q => ⟨rfl, rfl, rfl, rfl⟩) (fun q => ⟨rfl, rfl, rfl, rfl⟩),
          h.mode, h.current, fun hcur => ⟨?_, (h.running hcur).2⟩⟩
        rw [(h.running hcur).1, hword]
    | insecure => exact hinsecure
  · simpa only [specInsecureRead, if_neg hpo] using h

/-- Writing an insecure word. -/
theorem insecureWrite_unwinding {u : Domain} (h : unwinding u s t) (hinsecure : InsecureEquiv s t) (p o v : Word) :
    unwinding u (specInsecureWrite s p o v) (specInsecureWrite t p o v) := by
  by_cases hpo : insecurePageValid p ∧ pageIndexValid o
  · simp only [specInsecureWrite, if_pos hpo]
    have hafter : InsecureEquiv
        { s with insecurePages := updateCell s.insecurePages p o v }
        { t with insecurePages := updateCell t.insecurePages p o v } := by
      intro q i hq hi
      by_cases hqp : q = p
      · subst hqp
        by_cases hio : i = o
        · subst hio
          simp
        · simpa [hio] using hinsecure q i hq hi
      · simpa [hqp] using hinsecure q i hq hi
    cases u with
    | os | entry =>
        have h : OsEquiv s t := h
        exact ⟨hafter, h.currentDispatcher, h.currentAddrspace, h.mode, h.host, h.regs,
          fun q hq => (h.page q hq).congr ⟨rfl, rfl, rfl, rfl⟩ ⟨rfl, rfl, rfl, rfl⟩⟩
    | enclave obs | exit obs =>
        have h : EncEquiv obs s t := h
        exact ⟨h.toEncPages.congr (fun q => ⟨rfl, rfl, rfl, rfl⟩) (fun q => ⟨rfl, rfl, rfl, rfl⟩),
          h.mode, h.current, h.running⟩
    | insecure => exact hafter
  · simpa only [specInsecureWrite, if_neg hpo] using h

/-! ## One-step conditions -/

/-- The domains an action of a running enclave can have. -/
theorem enclaveDom_cases (s : State) (a : Action) :
    enclaveDom s a = .insecure ∨ enclaveDom s a = .exit s.currentAddrspace ∨
      enclaveDom s a = .enclave s.currentAddrspace := by
  cases a <;> simp [enclaveDom]

/-- The domains an action of the operating system can have. -/
theorem hostDom_cases (a : Action) :
    hostDom a = .insecure ∨ hostDom a = .os ∨
      ∃ call : Smc, a = .smc call ∧ call.enters = true ∧ hostDom a = .entry := by
  cases a with
  | smc call => cases henters : call.enters <;> simp [hostDom, henters]
  | _ => simp [hostDom]

theorem local_respect {u : Domain} (L : Layout) (ha : allowed a) (hs : OwnershipInvariants s)
    (hflow : flowsTo (dom a s) u = false) :
    unwinding u s (specStep L s a) := by
  cases hmode : s.enclaveMode with
  | true =>
      rw [dom_of_enclave hmode] at hflow
      rcases enclaveDom_cases s a with hdom | hdom | hdom
      · simp [hdom, flowsTo] at hflow
      · cases u <;> simp [hdom, flowsTo] at hflow
      · rw [hdom] at hflow
        cases u with
        | os | entry => exact enclave_respects_os hmode L hdom
        | enclave obs | exit obs =>
            have hobs : s.currentAddrspace ≠ obs := by
              rintro rfl
              simp [flowsTo] at hflow
            exact enclave_respects_enclave hs hmode L hdom hobs
        | insecure => simp [flowsTo] at hflow
  | false =>
      rw [dom_of_host hmode] at hflow
      rcases hostDom_cases a with hdom | hdom | ⟨call, rfl, _, hdom⟩
      · simp [hdom, flowsTo] at hflow
      · rw [hdom] at hflow
        cases u with
        | os | entry | insecure => simp [flowsTo] at hflow
        | enclave obs | exit obs => exact host_respects_enclave hs hmode L ha hdom obs
      · cases u <;> simp [hdom, flowsTo] at hflow

theorem insecureStep_unwinding {u : Domain} (L : Layout) (h : unwinding u s t) (hinsecure : InsecureEquiv s t)
    (hdom : dom a s = .insecure) :
    unwinding u (specStep L s a) (specStep L t a) := by
  cases a with
  | insecureRead p o => exact insecureRead_unwinding h hinsecure p o
  | insecureWrite p o v => exact insecureWrite_unwinding h hinsecure p o v
  | smc call =>
      cases hmode : s.enclaveMode <;> cases henters : call.enters <;>
        simp [dom, hmode, henters, enclaveDom, hostDom] at hdom
  | _ => cases hmode : s.enclaveMode <;> simp [dom, hmode, enclaveDom, hostDom] at hdom

theorem weak_step {u : Domain} (L : Layout) (hs : OwnershipInvariants s) (ht : OwnershipInvariants t)
    (h : unwinding u s t) (hd : unwinding (dom a s) s t) (hflow : flowsTo (dom a s) u = true) :
    unwinding u (specStep L s a) (specStep L t a) := by
  by_cases hins : dom a s = .insecure
  · rw [hins] at hd
    exact insecureStep_unwinding L h hd hins
  -- everybody may influence insecure memory, but only accesses to it do
  have hmemory : InsecureEquiv s t → InsecureEquiv (specStep L s a) (specStep L t a) := by
    intro hst p i hp hi
    have hins' : dom a t ≠ .insecure := dom_consistent hd ▸ hins
    rw [step_insecurePages L s hins, step_insecurePages L t hins']
    exact hst p i hp hi
  cases hmode : s.enclaveMode with
  | true =>
      rw [dom_of_enclave hmode] at hd hflow hins
      rcases enclaveDom_cases s a with hdom | hdom | hdom
      · exact absurd hdom hins
      · rw [hdom] at hd
        cases u with
        | os | entry => exact exit_osEquiv h hs hmode L hdom
        | enclave obs | exit obs => exact exit_encEquiv h hd hs ht hmode L hdom
        | insecure => exact hmemory h
      · rw [hdom] at hd hflow
        cases u with
        | os | entry => simp [flowsTo] at hflow
        | enclave obs | exit obs =>
            have hobs : obs = s.currentAddrspace := by
              simpa [flowsTo, eq_comm] using hflow
            subst hobs
            exact enclave_encEquiv hs hmode hd L hdom
        | insecure => exact hmemory h
  | false =>
      rw [dom_of_host hmode] at hd hflow hins
      rcases hostDom_cases a with hdom | hdom | ⟨call, rfl, henters, hdom⟩
      · exact absurd hdom hins
      · rw [hdom] at hd hflow
        cases u with
        | os | entry => exact host_osEquiv hd hs hmode L hins
        | enclave obs | exit obs => simp [flowsTo] at hflow
        | insecure => exact hmemory h
      · rw [hdom] at hd
        cases u with
        | os | entry => exact host_osEquiv hd hs hmode L hins
        | enclave obs | exit obs => exact entry_encEquiv hd h hs hmode L henters
        | insecure => exact hmemory h

theorem unwinding_holds (L : Layout) :
    Unwinding (system L) OwnershipInvariants allowed unwinding where
  refl := unwinding_refl
  symm := unwinding_symm
  trans := unwinding_trans
  inv_step := fun hs => hs.specStep L _
  dom_consistent := fun _ _ h => dom_consistent h
  local_respect := fun ha hs hflow => local_respect L ha hs hflow
  weak_step := fun _ hs ht h hd hflow => weak_step L hs ht h hd hflow

/-- From every reachable state, removing the actions that may not influence a domain does not change
what the domain sees, whatever the operating system and the enclaves do. -/
theorem reachable_purge_unwinding (L : Layout) {s₀ : State} (h₀ : InitialState s₀)
    (before tr : List Action)
    (htr : ∀ a ∈ tr, ∀ b, a ≠ .smc (.finalise b) ∧ a ≠ .smc (.stop b)) (u : Domain) :
    let s := (system L).run s₀ before
    unwinding u ((system L).run s tr) ((system L).run s ((system L).purge tr u s)) := by
  have hs : OwnershipInvariants ((system L).run s₀ before) :=
    specRun_ownershipInvariants L before h₀.ownershipInvariants
  have hall : ∀ a ∈ tr, allowed a := by
    intro a ha
    cases a with
    | smc call =>
        cases call with
        | finalise b => exact absurd rfl (htr _ ha b).1
        | stop b => exact absurd rfl (htr _ ha b).2
        | _ => rfl
    | _ => trivial
  exact (unwinding_holds L).noninterference u hall hs

/-- A booted machine builds an enclave and enters it; the enclave asks for something it may not have and
exits. -/
theorem reachable_purge_unwinding_booted :
    ∃ L s₀, InitialState s₀ ∧
      let before : List Action :=
        [.smc (.initAddrspace 0 1), .smc (.initDispatcher 2 0 0x1000), .smc (.finalise 0)]
      let tr : List Action :=
        [.smc (.enter 2 7 8 9), .enclaveWrite 3 0 1, .insecureWrite 0 0 5, .svcExit 6, .smc .query]
      let s := (system L).run s₀ before
      (∀ a ∈ tr, ∀ b, a ≠ .smc (.finalise b) ∧ a ≠ .smc (.stop b)) ∧
        unwinding (.enclave 0) ((system L).run s tr)
          ((system L).run s ((system L).purge tr (.enclave 0) s)) := by
  let L := imageLayout
  have h₀ := booted_initialState L (fun _ => 0) 0 0 (resetMachine L) 0
  refine ⟨L, _, h₀, ?_⟩
  intro before tr s
  have htr : ∀ a ∈ tr, ∀ b, a ≠ .smc (.finalise b) ∧ a ≠ .smc (.stop b) := by
    simp [tr]
  exact ⟨htr, reachable_purge_unwinding L h₀ before tr htr (.enclave 0)⟩

end Nickel
end Komodo
end Serval
