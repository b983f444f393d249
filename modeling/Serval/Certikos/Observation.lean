import Serval.Certikos.Invariants

/-!
# Observation — what a process can see of the state

`ProcView u` relates two states that agree on everything process `u` owns or may ask about, apart
from registers: its table entry, which pids it is the owner of and whether these run, and the bytes
of its region.  Both unwinding relations of the repository (`verif/ni.rkt`, `verif/nickel-ni.rkt`)
are built from it, so this file shows once how it behaves under each transition: for other processes
a step of the current one is invisible, and equal steps keep agreement.
-/

namespace Serval
namespace Certikos

open Riscv

variable {u : Word} {s t : State}

def active (u : Word) (s : State) : Prop :=
  u = s.currentPid

structure ProcView (u : Word) (s t : State) : Prop where
  upper : s.procUpper u = t.procUpper u
  lower : s.procLower u = t.procLower u
  state : s.procState u = t.procState u
  owner : s.procOwner u = t.procOwner u
  next : s.procNext u = t.procNext u
  children : ∀ pid, pidValid pid → (s.procParent u pid ↔ t.procParent u pid)
  pages : ∀ page off, s.inRegion u page → poffsetValid off → s.pages page off = t.pages page off
  childState : ∀ pid, pidValid pid → s.procParent u pid → s.procState pid = t.procState pid

namespace ProcView

variable {u : Word} {s t r : State}

theorem refl (u : Word) (s : State) : ProcView u s s :=
  ⟨rfl, rfl, rfl, rfl, rfl, fun _ _ => Iff.rfl, fun _ _ _ _ => rfl, fun _ _ _ => rfl⟩

theorem inRegion_iff (h : ProcView u s t) (page : Word) : s.inRegion u page ↔ t.inRegion u page := by
  rw [State.inRegion, State.inRegion, h.lower, h.upper]

theorem symm (h : ProcView u s t) : ProcView u t s where
  upper := h.upper.symm
  lower := h.lower.symm
  state := h.state.symm
  owner := h.owner.symm
  next := h.next.symm
  children := fun pid hpid => (h.children pid hpid).symm
  pages := fun page off hreg hoff => (h.pages page off ((h.inRegion_iff page).mpr hreg) hoff).symm
  childState := fun pid hpid hpar => (h.childState pid hpid ((h.children pid hpid).mpr hpar)).symm

theorem trans (hst : ProcView u s t) (htr : ProcView u t r) : ProcView u s r where
  upper := hst.upper.trans htr.upper
  lower := hst.lower.trans htr.lower
  state := hst.state.trans htr.state
  owner := hst.owner.trans htr.owner
  next := hst.next.trans htr.next
  children := fun pid hpid => (hst.children pid hpid).trans (htr.children pid hpid)
  pages := fun page off hreg hoff =>
    (hst.pages page off hreg hoff).trans (htr.pages page off ((hst.inRegion_iff page).mp hreg) hoff)
  childState := fun pid hpid hpar =>
    (hst.childState pid hpid hpar).trans
      (htr.childState pid hpid ((hst.children pid hpid).mp hpar))

end ProcView

/-! ## Steps that change registers only -/

/-- The columns and the bytes `ProcView` speaks about. -/
structure SameProcs (s t : State) : Prop where
  procState : t.procState = s.procState
  procNext : t.procNext = s.procNext
  procOwner : t.procOwner = s.procOwner
  procLower : t.procLower = s.procLower
  procUpper : t.procUpper = s.procUpper
  pages : t.pages = s.pages

theorem SameProcs.view (h : SameProcs s t) (u : Word) : ProcView u s t := by
  rcases h with ⟨hstate, hnext, howner, hlower, hupper, hpages⟩
  constructor <;> simp [hstate, hnext, howner, hlower, hupper, hpages, State.procParent]

theorem specWriteRegs_sameProcs (s : State) (regs : Regs) : SameProcs s (specWriteRegs s regs) :=
  ⟨rfl, rfl, rfl, rfl, rfl, rfl⟩

theorem specSysYield_sameProcs (s : State) : SameProcs s (specSysYield s) :=
  ⟨rfl, rfl, rfl, rfl, rfl, rfl⟩

/-- Changes of registers alone keep agreement, whatever they are. -/
theorem ProcView.of_sameProcs {s' t' : State} (h : ProcView u s t) (hs : SameProcs s s') (ht : SameProcs t t') :
    ProcView u s' t' :=
  ((hs.view u).symm.trans h).trans (ht.view u)

/-! ## Regions are disjoint -/

theorem SpecInvariants.inRegion_unique (h : SpecInvariants s) {p q page : Word} (hp : pidValid p) (hq : pidValid q)
    (hpage : s.inRegion p page) (hqpage : s.inRegion q page) :
    p = q := by
  have hvalid : pindexValid page := by
    have hup := (h.bounded p hp).1
    exact Nat.lt_of_lt_of_le hpage.2 hup
  exact (h.pageOwned page p hp hvalid hpage).symm.trans (h.pageOwned page q hq hvalid hqpage)

/-! ## Stores -/

theorem specWrite_regs (s : State) (page off : Word) (value : BitVec 8) :
    (specWrite s page off value).regs = s.regs ∧
      (specWrite s page off value).savedRegs = s.savedRegs := by
  rw [specWrite]
  split <;> exact ⟨rfl, rfl⟩

/-- A store of the current process is invisible to the others. -/
theorem specWrite_view_other (h : SpecInvariants s) (hu : pidValid u) (hne : u ≠ s.currentPid) (page off : Word)
    (value : BitVec 8) :
    ProcView u s (specWrite s page off value) := by
  rw [specWrite]
  split
  · rename_i hok
    refine ⟨rfl, rfl, rfl, rfl, rfl, fun _ _ => Iff.rfl, ?_, fun _ _ _ => rfl⟩
    intro p o hreg _
    have hp : p ≠ page := by
      rintro rfl
      exact hne (h.inRegion_unique hu h.currentValid hreg hok.1)
    simp [updateWhere₂, hp]
  · exact ProcView.refl u s

/-- Equal stores keep agreement. -/
theorem ProcView.specWrite (h : ProcView u s t)
    (hreg : ∀ page, s.inRegion s.currentPid page ↔ t.inRegion t.currentPid page) (page off : Word) (value : BitVec 8) :
    ProcView u (specWrite s page off value) (specWrite t page off value) := by
  rw [Certikos.specWrite, Certikos.specWrite]
  by_cases hok : s.inRegion s.currentPid page ∧ poffsetValid off
  · have hok' : t.inRegion t.currentPid page ∧ poffsetValid off := ⟨(hreg page).mp hok.1, hok.2⟩
    rw [if_pos hok, if_pos hok']
    refine ⟨h.upper, h.lower, h.state, h.owner, h.next, h.children, ?_, h.childState⟩
    intro p o hp ho
    simp only [updateWhere₂]
    rw [h.pages p o hp ho]
  · have hok' : ¬ (t.inRegion t.currentPid page ∧ poffsetValid off) :=
      fun hbad => hok ⟨(hreg page).mpr hbad.1, hbad.2⟩
    rw [if_neg hok, if_neg hok']
    exact h

/-! ## Spawns -/

section Spawn

variable {L : Layout} {s t : State} {fileid quota pid : Word}

/-- A spawn is invisible to everyone but the parent and the child. -/
theorem specSpawnChild_view_other (h : SpecInvariants s) (hok : SpawnOk s quota pid) (hu : pidValid u)
    (hcur : u ≠ s.currentPid) (hpid : u ≠ pid) :
    ProcView u s (specSpawnChild L s fileid quota pid) where
  upper := by simp [specSpawnChild, hcur, hpid]
  lower := by simp [specSpawnChild, hpid]
  state := by simp [specSpawnChild, hpid]
  owner := rfl
  next := by simp [specSpawnChild, hcur, hpid]
  children := fun _ _ => Iff.rfl
  pages := by
    intro page off hreg _
    -- the cleared pages were the parent's
    have hmem := hok.childLower_mem h.toTableInvariants
    have hout : ¬ (s.procUpper s.currentPid - quota ≤ page ∧ page < s.procUpper s.currentPid) := by
      rintro ⟨hlow, hhigh⟩
      exact hcur (h.inRegion_unique hu h.currentValid hreg
        ⟨BitVec.le_trans hmem.1 hlow, hhigh⟩)
    simp only [specSpawnChild, updateWhere₂]
    rw [if_neg]
    simpa using fun hlow hhigh => absurd ⟨hlow, hhigh⟩ hout
  childState := by
    intro x _ hpar
    have hx : x ≠ pid := by
      rintro rfl
      have howner : s.procOwner x = s.currentPid := hok.2.2.1
      exact hcur (hpar.symm.trans howner)
    simp [specSpawnChild, hx]

/-- Equal spawns by equal parents keep agreement. -/
theorem ProcView.specSpawnChild (h : ProcView u s t) (hs : TableInvariants s) (hok : SpawnOk s quota pid)
    (hcur : t.currentPid = s.currentPid) (hupper : t.procUpper s.currentPid = s.procUpper s.currentPid)
    (hnext : t.procNext s.currentPid = s.procNext s.currentPid) :
    ProcView u (specSpawnChild L s fileid quota pid) (specSpawnChild L t fileid quota pid) := by
  have hne := hok.ne_currentPid hs
  have hmem := hok.childLower_mem hs
  refine ⟨?_, ?_, ?_, h.owner, ?_, h.children, ?_, ?_⟩
  · simp only [Certikos.specSpawnChild, hcur, hupper, Function.update_apply, h.upper]
  · simp only [Certikos.specSpawnChild, hcur, hupper, Function.update_apply, h.lower]
  · simp only [Certikos.specSpawnChild, Function.update_apply, h.state]
  · simp only [Certikos.specSpawnChild, hcur, hnext, Function.update_apply, h.next]
  · intro page off hreg hoff
    simp only [Certikos.specSpawnChild, updateWhere₂, hcur, hupper]
    split
    · rfl
    -- outside the cleared pages nothing changed, and they are all of the child's region
    · rename_i hout
      apply h.pages page off _ hoff
      by_cases hucur : u = s.currentPid
      · subst hucur
        rcases (specSpawnChild_inRegion_parent hne page).mp hreg with ⟨hlow, hhigh⟩
        exact ⟨hlow, Nat.lt_of_lt_of_le hhigh hmem.2⟩
      by_cases hupid : u = pid
      · subst hupid
        have hchild := (specSpawnChild_inRegion_child hne page).mp hreg
        exact absurd (by simpa using ⟨hchild, hoff⟩) hout
      · exact (specSpawnChild_inRegion_other hupid hucur page).mp hreg
  · intro x hx hpar
    simp only [Certikos.specSpawnChild, Function.update_apply, h.childState x hx hpar]

end Spawn

end Certikos
end Serval
