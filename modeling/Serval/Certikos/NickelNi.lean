import Serval.Lib.Noninterference
import Serval.Certikos.Observation
import Serval.Certikos.Boot

/-!
# NickelNi — noninterference of CertiKOS under the Nickel policy

The policy of `verif/nickel-ni.rkt` has four kinds of domains.  A yield is attributed to the
scheduler part of the current process and may influence everybody's registers, but nobody else's
table entry or memory, which the `antiyield` domains stand for.  A spawn that could succeed is
attributed to parent and child; every other action to the current process.

The one-step conditions are proved per kind of effect: most actions change registers only, one
stores, one switches and one spawns.
-/

namespace Serval
namespace Certikos
namespace Nickel

open Riscv

variable {s t : State}

/-! ## Policy -/

inductive Domain
  | yield (pid : Word)
  | spawn (parent child : Word)
  | regular (pid : Word)
  | antiyield (pid : Word)
  deriving DecidableEq

inductive Action
  | yield
  | spawn (fileid quota pid : Word)
  | getQuota
  | getpid
  | read (page off : Word)
  | write (page off : Word) (value : BitVec 8)
  | writeRegs (regs : Regs)

def Action.apply (L : Layout) (s : State) : Action → State
  | .yield => specSysYield s
  | .spawn fileid quota pid => specSysSpawn L s fileid quota pid
  | .getQuota => specSysGetQuota s
  | .getpid => specSysGetpid s
  | .read page off => specRead s page off
  | .write page off value => specWrite s page off value
  | .writeRegs regs => specWriteRegs s regs

/-- A spawn belongs to parent and child when the child's slot is the parent's to use. -/
def childAvailable (s : State) (child : Word) : Prop :=
  pidValid child ∧ s.procParent s.currentPid child ∧ ¬ s.procRunnable child

instance (s : State) (child : Word) : Decidable (childAvailable s child) :=
  inferInstanceAs (Decidable (_ ∧ _))

def dom : Action → State → Domain
  | .yield, s => .yield s.currentPid
  | .spawn _ _ child, s =>
      if childAvailable s child then .spawn s.currentPid child else .regular s.currentPid
  | _, s => .regular s.currentPid

def flowsTo : Domain → Domain → Bool
  -- yield interferes with everyone except others' antiyield domains
  | .yield u, .antiyield v => v = u
  | .yield _, _ => true
  -- any domain except yield can interfere with antiyield
  | _, .antiyield _ => true
  | .spawn parent child, .yield reader => reader = parent || reader = child
  | .spawn parent child, .regular reader => reader = parent || reader = child
  | .spawn parent child, .spawn reader _ => reader = parent || reader = child
  | .regular _, .yield _ => false
  | .regular u, .regular v => u = v
  | .regular u, .spawn v _ => u = v
  -- no clause of the policy applies, and the value of an empty `cond` counts as true
  | .antiyield _, _ => true

/-! ## Unwinding -/

structure Eqv (u : Word) (s t : State) : Prop extends ProcView u s t where
  currentPid : s.currentPid = t.currentPid
  savedRegs : s.savedRegs u = t.savedRegs u
  active : active u s ↔ active u t
  regs : Certikos.active u s → s.regs = t.regs

structure SpawnEqv (u child : Word) (s t : State) : Prop where
  currentPid : s.currentPid = t.currentPid
  active : active u s ↔ active u t
  upper : s.procUpper u = t.procUpper u
  lower : s.procLower u = t.procLower u
  state : s.procState u = t.procState u
  next : s.procNext u = t.procNext u
  parent : s.procParent u child ↔ t.procParent u child
  childState : s.procParent u child → s.procState child = t.procState child

structure YieldEqv (u : Word) (s t : State) : Prop where
  currentPid : s.currentPid = t.currentPid
  next : s.procNext u = t.procNext u

def unwinding : Domain → State → State → Prop
  | .spawn u child, s, t => pidValid u ∧ pidValid child → SpawnEqv u child s t
  | .yield u, s, t => pidValid u → YieldEqv u s t
  | .regular u, s, t => pidValid u → Eqv u s t
  | .antiyield u, s, t => pidValid u → ProcView u s t

theorem unwinding_refl (d : Domain) (s : State) : unwinding d s s := by
  cases d with
  | yield u =>
      exact fun _ => ⟨rfl, rfl⟩
  | spawn u child =>
      exact fun _ => ⟨rfl, Iff.rfl, rfl, rfl, rfl, rfl, Iff.rfl, fun _ => rfl⟩
  | regular u =>
      exact fun _ => ⟨ProcView.refl u s, rfl, rfl, Iff.rfl, fun _ => rfl⟩
  | antiyield u =>
      exact fun _ => ProcView.refl u s

theorem unwinding_symm {d : Domain} (h : unwinding d s t) : unwinding d t s := by
  cases d with
  | yield u =>
      intro hu
      have h := h hu
      exact ⟨h.currentPid.symm, h.next.symm⟩
  | spawn u child =>
      intro hu
      have h := h hu
      exact ⟨h.currentPid.symm, h.active.symm, h.upper.symm, h.lower.symm, h.state.symm,
        h.next.symm, h.parent.symm, fun hpar => (h.childState (h.parent.mpr hpar)).symm⟩
  | regular u =>
      intro hu
      have h := h hu
      exact ⟨h.toProcView.symm, h.currentPid.symm, h.savedRegs.symm, h.active.symm,
        fun hact => (h.regs (h.active.mpr hact)).symm⟩
  | antiyield u =>
      exact fun hu => (h hu).symm

theorem unwinding_trans {d : Domain} {r : State} (hst : unwinding d s t) (htr : unwinding d t r) :
    unwinding d s r := by
  cases d with
  | yield u =>
      intro hu
      have h₁ := hst hu
      have h₂ := htr hu
      exact ⟨h₁.currentPid.trans h₂.currentPid, h₁.next.trans h₂.next⟩
  | spawn u child =>
      intro hu
      have h₁ := hst hu
      have h₂ := htr hu
      exact ⟨h₁.currentPid.trans h₂.currentPid, h₁.active.trans h₂.active,
        h₁.upper.trans h₂.upper, h₁.lower.trans h₂.lower, h₁.state.trans h₂.state,
        h₁.next.trans h₂.next, h₁.parent.trans h₂.parent,
        fun hpar => (h₁.childState hpar).trans (h₂.childState (h₁.parent.mp hpar))⟩
  | regular u =>
      intro hu
      have h₁ := hst hu
      have h₂ := htr hu
      exact ⟨h₁.toProcView.trans h₂.toProcView, h₁.currentPid.trans h₂.currentPid,
        h₁.savedRegs.trans h₂.savedRegs, h₁.active.trans h₂.active,
        fun hact => (h₁.regs hact).trans (h₂.regs (h₁.active.mp hact))⟩
  | antiyield u =>
      exact fun hu => (hst hu).trans (htr hu)

/-! ## Steps that change registers only -/

/-- Only the current process sees its registers. -/
theorem unwinding_specWriteRegs_local {d : Domain} (hd : flowsTo (.regular s.currentPid) d = false) (regs : Regs) :
    unwinding d s (specWriteRegs s regs) := by
  cases d with
  | yield u =>
      exact fun _ => ⟨rfl, rfl⟩
  | spawn u child =>
      exact fun _ => ⟨rfl, Iff.rfl, rfl, rfl, rfl, rfl, Iff.rfl, fun _ => rfl⟩
  | regular u =>
      have hne : s.currentPid ≠ u := by simpa [flowsTo] using hd
      exact fun _ => ⟨(specWriteRegs_sameProcs s regs).view u, rfl, rfl, Iff.rfl,
        fun hact => absurd hact.symm hne⟩
  | antiyield u =>
      exact fun _ => (specWriteRegs_sameProcs s regs).view u

/-- Register changes that agree where the registers did keep agreement. -/
theorem unwinding_specWriteRegs {d : Domain} {r r' : Regs} (h : unwinding d s t) (hr : s.regs = t.regs → r = r') :
    unwinding d (specWriteRegs s r) (specWriteRegs t r') := by
  cases d with
  | yield u =>
      exact fun hu => ⟨(h hu).currentPid, (h hu).next⟩
  | spawn u child =>
      intro hu
      have h := h hu
      exact ⟨h.currentPid, h.active, h.upper, h.lower, h.state, h.next, h.parent, h.childState⟩
  | regular u =>
      intro hu
      have h := h hu
      exact ⟨h.toProcView.of_sameProcs (specWriteRegs_sameProcs s r) (specWriteRegs_sameProcs t r'),
        h.currentPid, h.savedRegs, h.active, fun hact => hr (h.regs hact)⟩
  | antiyield u =>
      exact fun hu => (h hu).of_sameProcs (specWriteRegs_sameProcs s r)
        (specWriteRegs_sameProcs t r')

/-! ## Stores -/

theorem unwinding_specWrite_local {d : Domain} (hinv : SpecInvariants s)
    (hd : flowsTo (.regular s.currentPid) d = false) (page off : Word) (value : BitVec 8) :
    unwinding d s (specWrite s page off value) := by
  have htable := specWrite_sameTable s page off value
  rcases specWrite_regs s page off value with ⟨hregs, hsaved⟩
  cases d with
  | yield u =>
      exact fun _ => ⟨htable.currentPid.symm, (congrFun htable.procNext u).symm⟩
  | spawn u child =>
      intro _
      constructor <;>
        simp [active, State.procParent, htable.currentPid, htable.procUpper, htable.procLower,
          htable.procState, htable.procNext, htable.procOwner]
  | regular u =>
      have hne : u ≠ s.currentPid := by
        have hne : s.currentPid ≠ u := by simpa [flowsTo] using hd
        exact hne.symm
      intro hu
      refine ⟨specWrite_view_other hinv hu hne page off value, htable.currentPid.symm, ?_, ?_, ?_⟩
      · rw [hsaved]
      · rw [active, active, htable.currentPid]
      · exact fun _ => hregs.symm
  | antiyield u =>
      simp [flowsTo] at hd

theorem unwinding_specWrite {d : Domain} (h : unwinding d s t)
    (hreg : ∀ page, s.inRegion s.currentPid page ↔ t.inRegion t.currentPid page) (page off : Word) (value : BitVec 8) :
    unwinding d (specWrite s page off value) (specWrite t page off value) := by
  have hs := specWrite_sameTable s page off value
  have ht := specWrite_sameTable t page off value
  rcases specWrite_regs s page off value with ⟨hsregs, hssaved⟩
  rcases specWrite_regs t page off value with ⟨htregs, htsaved⟩
  cases d with
  | yield u =>
      intro hu
      have h := h hu
      refine ⟨?_, ?_⟩
      · rw [hs.currentPid, ht.currentPid, h.currentPid]
      · rw [hs.procNext, ht.procNext, h.next]
  | spawn u child =>
      intro hu
      have h := h hu
      constructor <;>
        simp only [active, State.procParent, hs.currentPid, hs.procUpper, hs.procLower,
          hs.procState, hs.procNext, hs.procOwner, ht.currentPid, ht.procUpper, ht.procLower,
          ht.procState, ht.procNext, ht.procOwner]
      · exact h.currentPid
      · exact h.active
      · exact h.upper
      · exact h.lower
      · exact h.state
      · exact h.next
      · exact h.parent
      · exact h.childState
  | regular u =>
      intro hu
      have h := h hu
      refine ⟨h.toProcView.specWrite hreg page off value, ?_, ?_, ?_, ?_⟩
      · rw [hs.currentPid, ht.currentPid, h.currentPid]
      · rw [hssaved, htsaved, h.savedRegs]
      · rw [active, active, hs.currentPid, ht.currentPid]
        exact h.active
      · rw [active, hs.currentPid, hsregs, htregs]
        exact h.regs
  | antiyield u =>
      exact fun hu => (h hu).specWrite hreg page off value

/-! ## Yields -/

theorem unwinding_specSysYield_local {d : Domain} (hd : flowsTo (.yield s.currentPid) d = false) :
    unwinding d s (specSysYield s) := by
  cases d with
  | antiyield u =>
      exact fun _ => (specSysYield_sameProcs s).view u
  | _ =>
      simp [flowsTo] at hd

theorem unwinding_specSysYield {d : Domain} (h : unwinding d s t) (hcur : s.currentPid = t.currentPid)
    (hnext : s.procNext s.currentPid = t.procNext s.currentPid) :
    unwinding d (specSysYield s) (specSysYield t) := by
  have hcur' : (specSysYield s).currentPid = (specSysYield t).currentPid := by
    show s.procNext s.currentPid = t.procNext t.currentPid
    rw [← hcur, hnext]
  have hactive : ∀ u, active u (specSysYield s) ↔ active u (specSysYield t) := by
    intro u
    rw [active, active, hcur']
  cases d with
  | yield u =>
      exact fun hu => ⟨hcur', (h hu).next⟩
  | spawn u child =>
      intro hu
      have h := h hu
      exact ⟨hcur', hactive u, h.upper, h.lower, h.state, h.next, h.parent, h.childState⟩
  | regular u =>
      intro hu
      have h := h hu
      -- what is saved for `u` agrees, whether it was running or not
      have hsaved : (specSysYield s).savedRegs u = (specSysYield t).savedRegs u := by
        show Function.update s.savedRegs s.currentPid s.regs u
          = Function.update t.savedRegs t.currentPid t.regs u
        rw [← hcur]
        by_cases hact : u = s.currentPid
        · subst hact
          rw [Function.update_self, Function.update_self, h.regs rfl]
        · rw [Function.update_of_ne hact, Function.update_of_ne hact, h.savedRegs]
      refine ⟨?_, hcur', hsaved, hactive u, ?_⟩
      · exact h.toProcView.of_sameProcs (specSysYield_sameProcs s) (specSysYield_sameProcs t)
      · intro hact
        have hact' := (hactive u).mp hact
        show (specSysYield s).savedRegs (specSysYield s).currentPid
          = (specSysYield t).savedRegs (specSysYield t).currentPid
        rw [← hact, ← hact', hsaved]
  | antiyield u =>
      exact fun hu => (h hu).of_sameProcs (specSysYield_sameProcs s) (specSysYield_sameProcs t)

/-! ## Spawns -/

section Spawn

variable {L : Layout} {s t : State} {fileid quota pid : Word} {d : Domain}

theorem unwinding_specSpawnChild_local (hinv : SpecInvariants s) (hok : SpawnOk s quota pid)
    (hd : flowsTo (.spawn s.currentPid pid) d = false) :
    unwinding d s (specSpawnChild L s fileid quota pid) := by
  cases d with
  | yield u =>
      have hne : u ≠ s.currentPid ∧ u ≠ pid := by simpa [flowsTo] using hd
      exact fun _ => ⟨rfl, by simp [specSpawnChild, hne.1, hne.2]⟩
  | spawn u child =>
      have hne : u ≠ s.currentPid ∧ u ≠ pid := by simpa [flowsTo] using hd
      intro hu
      have hview : ProcView u s (specSpawnChild L s fileid quota pid) :=
        specSpawnChild_view_other hinv hok hu.1 hne.1 hne.2
      exact ⟨rfl, Iff.rfl, hview.upper, hview.lower, hview.state, hview.next, Iff.rfl,
        hview.childState child hu.2⟩
  | regular u =>
      have hne : u ≠ s.currentPid ∧ u ≠ pid := by simpa [flowsTo] using hd
      intro hu
      refine ⟨specSpawnChild_view_other hinv hok hu hne.1 hne.2, rfl, ?_, Iff.rfl, fun _ => rfl⟩
      simp [specSpawnChild, hne.2]
  | antiyield u =>
      simp [flowsTo] at hd

/-- The parent's view decides whether a spawn succeeds. -/
theorem SpawnEqv.spawnOk_iff (h : SpawnEqv s.currentPid pid s t) : SpawnOk s quota pid ↔ SpawnOk t quota pid := by
  simp only [SpawnOk, ← h.currentPid, ← h.upper, ← h.lower]
  constructor
  · rintro ⟨hquota, hvalid, howner, hfree⟩
    exact ⟨hquota, hvalid, h.parent.mp howner, (h.childState howner).symm.trans hfree⟩
  · rintro ⟨hquota, hvalid, howner, hfree⟩
    have howner' := h.parent.mpr howner
    exact ⟨hquota, hvalid, howner', (h.childState howner').trans hfree⟩

theorem unwinding_specSpawnChild (hs : TableInvariants s) (hok : SpawnOk s quota pid)
    (hpar : SpawnEqv s.currentPid pid s t) (h : unwinding d s t) :
    unwinding d (specSpawnChild L s fileid quota pid) (specSpawnChild L t fileid quota pid) := by
  have hcur : t.currentPid = s.currentPid := hpar.currentPid.symm
  have hupper := hpar.upper.symm
  have hnext := hpar.next.symm
  cases d with
  | yield u =>
      intro hu
      refine ⟨hpar.currentPid, ?_⟩
      simp only [specSpawnChild, hcur, hnext, Function.update_apply, (h hu).next]
  | spawn u child =>
      intro hu
      have h := h hu
      refine ⟨hpar.currentPid, h.active, ?_, ?_, ?_, ?_, h.parent, ?_⟩
      · simp only [specSpawnChild, hcur, hupper, Function.update_apply, h.upper]
      · simp only [specSpawnChild, hcur, hupper, Function.update_apply, h.lower]
      · simp only [specSpawnChild, Function.update_apply, h.state]
      · simp only [specSpawnChild, hcur, hnext, Function.update_apply, h.next]
      · intro hchild
        simp only [specSpawnChild, Function.update_apply, h.childState hchild]
  | regular u =>
      intro hu
      have h := h hu
      refine ⟨h.toProcView.specSpawnChild hs hok hcur hupper hnext, hpar.currentPid, ?_, h.active,
        h.regs⟩
      simp only [specSpawnChild, hcur, hupper, Function.update_apply, h.savedRegs]
  | antiyield u =>
      exact fun hu => (h hu).specSpawnChild hs hok hcur hupper hnext

end Spawn

/-! ## The one-step conditions -/

/-- Actions of a regular domain other than stores change registers only, as a function of what their
process sees. -/
theorem specRead_eq_specWriteRegs (s : State) (page off : Word) :
    specRead s page off = specWriteRegs s
      (if s.inRegion s.currentPid page ∧ poffsetValid off then
        s.regs.setGpr .a0 ((s.pages page off).signExtend 64)
      else
        s.regs) := by
  rw [specRead]
  split <;> rfl

theorem not_spawnOk_of_not_childAvailable {quota pid : Word} (h : ¬ childAvailable s pid) : ¬ SpawnOk s quota pid :=
  fun hok => h ⟨hok.2.1, hok.2.2.1, hok.not_procRunnable⟩

theorem flowsTo_regular_of_spawn {u pid : Word} {d : Domain}
    (hd : flowsTo (.spawn u pid) d = false) : flowsTo (.regular u) d = false := by
  cases d with
  | yield v => rfl
  | spawn v child | regular v =>
      have hne : v ≠ u ∧ v ≠ pid := by simpa [flowsTo] using hd
      simpa [flowsTo] using hne.1.symm
  | antiyield v => simp [flowsTo] at hd

theorem dom_consistent {a : Action} (hs : SpecInvariants s) (h : unwinding (dom a s) s t) : dom a s = dom a t := by
  have hregular : unwinding (.regular s.currentPid) s t → s.currentPid = t.currentPid :=
    fun h => (h hs.currentValid).currentPid
  cases a with
  | yield =>
      exact congrArg Domain.yield (h hs.currentValid).currentPid
  | spawn fileid quota child =>
      simp only [dom] at h ⊢
      by_cases havail : childAvailable s child
      · rw [if_pos havail] at h ⊢
        have h := h ⟨hs.currentValid, havail.1⟩
        have havail' : childAvailable t child := by
          refine ⟨havail.1, ?_, ?_⟩
          · rw [← h.currentPid]
            exact h.parent.mp havail.2.1
          · rw [State.procRunnable, ← h.childState havail.2.1]
            exact havail.2.2
        rw [if_pos havail', h.currentPid]
      · rw [if_neg havail] at h ⊢
        have h := h hs.currentValid
        have havail' : ¬ childAvailable t child := by
          rintro ⟨hvalid, hpar, hrun⟩
          rw [← h.currentPid] at hpar
          have hpar' := (h.children child hvalid).mpr hpar
          rw [State.procRunnable, ← h.childState child hvalid hpar'] at hrun
          exact havail ⟨hvalid, hpar', hrun⟩
        rw [if_neg havail', h.currentPid]
  | getQuota | getpid | read page off | write page off value | writeRegs regs =>
      exact congrArg Domain.regular (hregular h)

theorem local_respect {L : Layout} {a : Action} {d : Domain} (hs : SpecInvariants s)
    (hd : flowsTo (dom a s) d = false) : unwinding d s (a.apply L s) := by
  cases a with
  | yield =>
      exact unwinding_specSysYield_local hd
  | spawn fileid quota child =>
      simp only [dom] at hd
      simp only [Action.apply]
      by_cases hok : SpawnOk s quota child
      · have havail : childAvailable s child := ⟨hok.2.1, hok.2.2.1, hok.not_procRunnable⟩
        rw [if_pos havail] at hd
        rw [specSysSpawn_of_ok hok]
        exact unwinding_trans (unwinding_specSpawnChild_local hs hok hd)
          (unwinding_specWriteRegs_local (s := specSpawnChild L s fileid quota child)
            (flowsTo_regular_of_spawn hd) _)
      · rw [specSysSpawn_of_not_ok hok]
        apply unwinding_specWriteRegs_local
        split at hd
        · exact flowsTo_regular_of_spawn hd
        · exact hd
  | read page off =>
      rw [Action.apply, specRead_eq_specWriteRegs]
      exact unwinding_specWriteRegs_local hd _
  | write page off value =>
      exact unwinding_specWrite_local hs hd page off value
  | getQuota | getpid | writeRegs regs =>
      exact unwinding_specWriteRegs_local hd _

theorem weak_step {L : Layout} {a : Action} {d : Domain} (hs : SpecInvariants s) (h : unwinding d s t)
    (hdom : unwinding (dom a s) s t) :
    unwinding d (a.apply L s) (a.apply L t) := by
  have hconsistent := dom_consistent hs hdom
  cases a with
  | yield =>
      have hyield := hdom hs.currentValid
      exact unwinding_specSysYield h hyield.currentPid hyield.next
  | spawn fileid quota child =>
      simp only [dom] at hdom hconsistent
      simp only [Action.apply]
      by_cases havail : childAvailable s child
      · rw [if_pos havail] at hdom
        have hpar := hdom ⟨hs.currentValid, havail.1⟩
        by_cases hok : SpawnOk s quota child
        · rw [specSysSpawn_of_ok hok, specSysSpawn_of_ok (hpar.spawnOk_iff.mp hok)]
          apply unwinding_specWriteRegs
            (unwinding_specSpawnChild hs.toTableInvariants hok hpar h)
          intro hregs
          rw [hregs]
        · rw [specSysSpawn_of_not_ok hok,
            specSysSpawn_of_not_ok (fun hbad => hok (hpar.spawnOk_iff.mpr hbad))]
          apply unwinding_specWriteRegs h
          intro hregs
          rw [hregs]
      · have havail' : ¬ childAvailable t child := by
          intro hbad
          rw [if_neg havail, if_pos hbad] at hconsistent
          cases hconsistent
        rw [specSysSpawn_of_not_ok (not_spawnOk_of_not_childAvailable havail),
          specSysSpawn_of_not_ok (not_spawnOk_of_not_childAvailable havail')]
        apply unwinding_specWriteRegs h
        intro hregs
        rw [hregs]
  | getQuota =>
      have hreg := hdom hs.currentValid
      apply unwinding_specWriteRegs h
      intro hregs
      rw [hregs, hreg.upper, hreg.lower, hreg.currentPid]
  | getpid =>
      have hreg := hdom hs.currentValid
      apply unwinding_specWriteRegs h
      intro hregs
      rw [hregs, hreg.currentPid]
  | read page off =>
      have hreg := hdom hs.currentValid
      rw [Action.apply, Action.apply, specRead_eq_specWriteRegs, specRead_eq_specWriteRegs]
      apply unwinding_specWriteRegs h
      intro hregs
      have hmem := hreg.inRegion_iff page
      rw [← hreg.currentPid]
      by_cases hok : s.inRegion s.currentPid page ∧ poffsetValid off
      · rw [if_pos hok, if_pos ⟨hmem.mp hok.1, hok.2⟩, hregs, hreg.pages page off hok.1 hok.2]
      · rw [if_neg hok, if_neg (fun hbad => hok ⟨hmem.mpr hbad.1, hbad.2⟩), hregs]
  | write page off value =>
      have hreg := hdom hs.currentValid
      apply unwinding_specWrite h
      intro p
      rw [← hreg.currentPid]
      exact hreg.inRegion_iff p
  | writeRegs regs =>
      exact unwinding_specWriteRegs h (fun _ => rfl)

/-! ## Whole traces -/

/-- The specification as a machine with state-dependent domains. -/
def system (L : Layout) : Noninterference.System State Action Domain where
  step := fun s a => a.apply L s
  dom := dom
  flowsTo := flowsTo

theorem specInvariants_apply (hs : SpecInvariants s) (L : Layout) (a : Action) : SpecInvariants (a.apply L s) := by
  cases a with
  | yield => exact hs.specSysYield
  | spawn fileid quota pid => exact hs.specSysSpawn L fileid quota pid
  | getQuota | getpid => exact hs.of_sameTable (specReturn_sameTable s _)
  | read page off => exact hs.of_sameTable (specRead_sameTable s page off)
  | write page off value => exact hs.of_sameTable (specWrite_sameTable s page off value)
  | writeRegs regs => exact hs.of_sameTable (specWriteRegs_sameTable s regs)

theorem system_unwinding (L : Layout) :
    Noninterference.Unwinding (system L) SpecInvariants (fun _ => True) unwinding where
  refl := unwinding_refl
  symm := unwinding_symm
  trans := unwinding_trans
  inv_step := fun hs => specInvariants_apply hs L _
  dom_consistent := fun hs _ h => dom_consistent hs h
  local_respect := fun _ hs hd => local_respect hs hd
  weak_step := fun _ hs _ h hdom _ => weak_step hs h hdom

/-- Whole-trace intransitive noninterference: from any state that satisfies the invariants, an
observer cannot tell a run from the run of its purge. -/
theorem purge_noninterference (L : Layout) (s : State) (hs : SpecInvariants s) (u : Domain)
    (tr : List Action) :
    unwinding u ((system L).run s tr) ((system L).run s ((system L).purge tr u s)) :=
  (system_unwinding L).noninterference u (fun _ _ => trivial) hs

/-- The first process of a booted machine spawns a child, stores a byte and yields to it. -/
theorem purge_noninterference_booted :
    ∃ L s, SpecInvariants s ∧ s = absFunction (fun _ => PID_IDLE) (booted L (resetMachine L)) ∧
      unwinding (.regular 4)
        ((system L).run s [.write 3 0 0xff, .spawn 0 16 4, .yield, .getpid])
        ((system L).run s
          ((system L).purge [.write 3 0 0xff, .spawn 0 16 4, .yield, .getpid] (.regular 4) s)) := by
  let L : Layout := ⟨0x80100000, 0x80200000, 0x80400000, 0x80000100, 0x80010000⟩
  have hs := booted_specInvariants L (resetMachine L)
  exact ⟨L, _, hs, rfl, purge_noninterference L _ hs (.regular 4) _⟩

end Nickel
end Certikos
end Serval
