import Mathlib.Logic.Relation
import Mathlib.Data.Set.Basic

/-!
# Post-dominators of a directed graph

A graph is a relation `edge` together with a set `roots` of vertices where a path may end.  A vertex `d`
post-dominates `v` when every path from `v` to a root visits `d`; the nearest common post-dominator of two
vertices is the one that every other common post-dominator post-dominates in turn.

The last result is the one a program analysis needs: when `m` post-dominates `v` and `d` post-dominates `m`,
one can walk from `v` to `m` without meeting `d` on the way.
-/

namespace Serval
namespace PostDominance

variable {V : Type} (edge : V → V → Prop) (roots : Set V)

/-! ## Paths to a root -/

/-- `RootPath edge roots v π`: the vertices of `π` are those of a path from `v` to a root, both ends included. -/
inductive RootPath : V → List V → Prop where
  | root {v : V} : v ∈ roots → RootPath v [v]
  | step {v w : V} {π : List V} : edge v w → RootPath w π → RootPath v (v :: π)

/-- `d` post-dominates `v`. -/
def PostDom (d v : V) : Prop :=
  ∀ π, RootPath edge roots v π → d ∈ π

/-- `d` is the nearest common post-dominator of `s` and `t`. -/
structure NearestCommon (d s t : V) : Prop where
  left : PostDom edge roots d s
  right : PostDom edge roots d t
  nearest : ∀ e, PostDom edge roots e s → PostDom edge roots e t → PostDom edge roots e d

/-- `Avoiding edge d v w`: a walk from `v` to `w` no step of which leads to `d`. -/
def Avoiding (d : V) : V → V → Prop :=
  Relation.ReflTransGen fun v w => edge v w ∧ w ≠ d

variable {edge roots} {d m v w : V}

theorem RootPath.mem_self {π : List V} (h : RootPath edge roots v π) : v ∈ π := by
  cases h with
  | root _ => exact List.mem_singleton_self v
  | step _ _ => exact List.mem_cons_self

theorem postDom_self (d : V) : PostDom edge roots d d :=
  fun _ hπ => hπ.mem_self

section Merging

variable (h : PostDom edge roots d v)

include h

/-- A vertex that post-dominates the other successor is the merge vertex of a branch that skips to it. -/
theorem NearestCommon.of_postDom : NearestCommon edge roots d v d :=
  ⟨h, postDom_self d, fun _ _ he => he⟩

/-! ## Moving along an edge -/

theorem PostDom.succ (hne : v ≠ d) (he : edge v w) : PostDom edge roots d w := by
  intro π hπ
  rcases List.mem_cons.mp (h _ (.step he hπ)) with rfl | hmem
  · exact absurd rfl hne
  · exact hmem

/-- A root is post-dominated by nothing but itself. -/
theorem PostDom.eq_of_root (hv : v ∈ roots) : d = v :=
  List.mem_singleton.mp (h _ (.root hv))

theorem PostDom.of_avoiding (hne : v ≠ d) (hw : Avoiding edge d v w) : PostDom edge roots d w ∧ w ≠ d := by
  induction hw with
  | refl => exact ⟨h, hne⟩
  | tail _ he ih => exact ⟨ih.1.succ ih.2 he.1, he.2⟩

end Merging

/-! ## Antisymmetry -/

/-- A vertex on a path has a path of its own, shorter unless it is where the path begins. -/
theorem RootPath.suffix {π : List V} (h : RootPath edge roots v π) (hd : d ∈ π) (hne : d ≠ v) :
    ∃ π', RootPath edge roots d π' ∧ π'.length < π.length := by
  induction h with
  | root hv => exact absurd (List.mem_singleton.mp hd) hne
  | @step v u π he hπ ih =>
      rcases List.mem_cons.mp hd with rfl | hmem
      · exact absurd rfl hne
      · by_cases hdu : d = u
        · exact ⟨π, hdu ▸ hπ, by simp⟩
        · obtain ⟨π', hπ', hlt⟩ := ih hmem hdu
          exact ⟨π', hπ', by simp only [List.length_cons]; omega⟩

/-- Two vertices that post-dominate each other are one, as long as a root can be reached at all. -/
theorem PostDom.antisymm {π : List V} (hdv : PostDom edge roots d v) (hvd : PostDom edge roots v d)
    (hπ : RootPath edge roots v π) : d = v := by
  -- otherwise the path from `v` holds a shorter one from `d`, and that one a shorter one from `v`
  induction hn : π.length using Nat.strong_induction_on generalizing π with
  | _ n ih =>
      by_contra hne
      obtain ⟨π₁, hπ₁, hlt₁⟩ := hπ.suffix (hdv π hπ) hne
      obtain ⟨π₂, hπ₂, hlt₂⟩ := hπ₁.suffix (hvd π₁ hπ₁) (Ne.symm hne)
      exact hne (ih π₂.length (by omega) hπ₂ rfl)

/-! ## The order of post-dominators on a path -/

/-- When `m` post-dominates `v` and `d` post-dominates `m`, some walk reaches `m` from `v` before `d`. -/
theorem RootPath.avoiding_of_postDom {π : List V} (hπ : RootPath edge roots v π) (hv : v ≠ d) (hmd : m ≠ d)
    (hm : PostDom edge roots m v) (hd : PostDom edge roots d m) : Avoiding edge d v m := by
  induction hπ with
  | root hr => exact hm.eq_of_root hr ▸ .refl
  | @step v w π he hw ih =>
      by_cases hvm : v = m
      · exact hvm ▸ .refl
      · have hmw : PostDom edge roots m w := hm.succ hvm he
        -- the next vertex cannot be `d`: it would then be `m` as well
        have hwd : w ≠ d := by
          rintro rfl
          exact hmd (hmw.antisymm hd hw)
        exact Relation.ReflTransGen.head ⟨he, hwd⟩ (ih hwd hmw)

end PostDominance
end Serval
