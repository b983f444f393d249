import Mathlib.Data.List.Induction
import Mathlib.Data.List.Sort
import Mathlib.Data.Set.BooleanAlgebra
import Mathlib.Order.CompletePartialOrder

/-!
# Assignments with witnesses

An assignment gives a value to every variable.  Each of several goals binds some variables and may be met by giving
them other values.  If the goals can be put into an order such that no goal depends on what a later one binds, then one
assignment meets all the goals that can be met from it, and differs from a given one on bound variables only.
-/

namespace Serval
namespace Lib

variable {V : Type*} {D : V → Type*}

/-- The assignments agree on the variables that are not in `s`. -/
def AgreeOff (s : Set V) (σ τ : ∀ v, D v) : Prop :=
  ∀ v, v ∉ s → σ v = τ v

theorem AgreeOff.refl (s : Set V) (σ : ∀ v, D v) : AgreeOff s σ σ :=
  fun _ _ => rfl

theorem AgreeOff.trans {s t : Set V} {σ τ ρ : ∀ v, D v} (h : AgreeOff s σ τ) (h' : AgreeOff t τ ρ) :
    AgreeOff (s ∪ t) σ ρ := by
  intro v hv
  rw [h v fun hs => hv (.inl hs), h' v fun ht => hv (.inr ht)]

/-- A predicate looks only at the variables of `s`. -/
def DependsOn (P : (∀ v, D v) → Prop) (s : Set V) : Prop :=
  ∀ σ τ, (∀ v ∈ s, σ v = τ v) → (P σ ↔ P τ)

theorem DependsOn.mono {P : (∀ v, D v) → Prop} {s t : Set V} (h : DependsOn P s) (hst : s ⊆ t) : DependsOn P t :=
  fun σ τ hag => h σ τ fun v hv => hag v (hst hv)

theorem DependsOn.not {P : (∀ v, D v) → Prop} {s : Set V} (h : DependsOn P s) : DependsOn (fun σ => ¬ P σ) s :=
  fun σ τ hag => not_congr (h σ τ hag)

/-- Variables that a predicate does not look at can change. -/
theorem DependsOn.iff_of_agreeOff {P : (∀ v, D v) → Prop} {s t : Set V} (h : DependsOn P s) (hdisj : Disjoint s t)
    {σ τ : ∀ v, D v} (hag : AgreeOff t σ τ) : P σ ↔ P τ :=
  h σ τ fun v hv => hag v fun ht => Set.disjoint_left.mp hdisj hv ht

open Classical in
/-- `τ` on `s`, `σ` elsewhere. -/
noncomputable def splice (s : Set V) (τ σ : ∀ v, D v) : ∀ v, D v :=
  fun v => if v ∈ s then τ v else σ v

theorem splice_of_mem {s : Set V} {τ σ : ∀ v, D v} {v : V} (h : v ∈ s) : splice s τ σ v = τ v := by
  simp [splice, h]

theorem splice_of_notMem {s : Set V} {τ σ : ∀ v, D v} {v : V} (h : v ∉ s) : splice s τ σ v = σ v := by
  simp [splice, h]

theorem agreeOff_splice (s : Set V) (τ σ : ∀ v, D v) : AgreeOff s σ (splice s τ σ) :=
  fun _ hv => (splice_of_notMem hv).symm

/-- To bind variables takes them out of what a predicate looks at. -/
theorem DependsOn.exists {P : (∀ v, D v) → Prop} {s t : Set V} (h : DependsOn P (s ∪ t)) :
    DependsOn (fun σ => ∃ τ, AgreeOff t σ τ ∧ P τ) s := by
  have hone : ∀ σ σ' : ∀ v, D v, (∀ v ∈ s, σ v = σ' v) →
      (∃ τ, AgreeOff t σ τ ∧ P τ) → ∃ τ, AgreeOff t σ' τ ∧ P τ := by
    rintro σ σ' hag ⟨τ, hoff, hP⟩
    refine ⟨splice t τ σ', agreeOff_splice t τ σ', (h τ _ ?_).mp hP⟩
    intro v hv
    by_cases ht : v ∈ t
    · exact (splice_of_mem ht).symm
    · rw [splice_of_notMem ht, ← hoff v ht]
      exact hag v (hv.resolve_right ht)
  intro σ σ' hag
  exact ⟨hone σ σ' hag, hone σ' σ fun v hv => (hag v hv).symm⟩

theorem DependsOn.forall {P : (∀ v, D v) → Prop} {s t : Set V} (h : DependsOn P (s ∪ t)) :
    DependsOn (fun σ => ∀ τ, AgreeOff t σ τ → P τ) s := by
  intro σ σ' hag
  have hex := (h.not.exists σ σ' hag).not
  simpa using hex

/-! ## Goals -/

/-- A goal with the variables that it may choose. -/
structure Goal (D : V → Type*) where
  bound : Set V
  goal : (∀ v, D v) → Prop

/-- The goal is met, if it can be met by other values of its variables. -/
def Goal.Met (g : Goal D) (σ : ∀ v, D v) : Prop :=
  (∃ τ, AgreeOff g.bound σ τ ∧ g.goal τ) → g.goal σ

/-- The goal does not look at the variables of `s`. -/
def Goal.Ignores (g : Goal D) (s : Set V) : Prop :=
  ∀ σ τ, AgreeOff s σ τ → (g.goal σ ↔ g.goal τ)

/-- A goal stays met when variables change that it does not look at. -/
theorem Goal.Met.of_agreeOff {g : Goal D} {s : Set V} (hign : g.Ignores s) {σ τ : ∀ v, D v} (hmet : g.Met σ)
    (hag : AgreeOff s σ τ) : g.Met τ := by
  rintro ⟨ρ, hoff, hgoal⟩
  refine (hign σ τ hag).mp (hmet ⟨splice s σ ρ, ?_, (hign ρ _ (agreeOff_splice s σ ρ)).mp hgoal⟩)
  intro v hv
  by_cases hs : v ∈ s
  · exact (splice_of_mem hs).symm
  · rw [splice_of_notMem hs, hag v hs, hoff v hv]

theorem Goal.exists_met (g : Goal D) (σ : ∀ v, D v) : ∃ τ, AgreeOff g.bound σ τ ∧ g.Met τ := by
  by_cases h : ∃ τ, AgreeOff g.bound σ τ ∧ g.goal τ
  · obtain ⟨τ, hoff, hgoal⟩ := h
    exact ⟨τ, hoff, fun _ => hgoal⟩
  · exact ⟨σ, .refl _ _, fun hex => absurd hex h⟩

/-- Goals in an order such that none looks at what a later one binds are met together. -/
theorem exists_allMet (goals : List (Goal D)) (hord : goals.Pairwise fun g g' => g.Ignores g'.bound) (σ : ∀ v, D v) :
    ∃ τ, AgreeOff {v | ∃ g ∈ goals, v ∈ g.bound} σ τ ∧ ∀ g ∈ goals, g.Met τ := by
  -- from the end of the list: the last goal is met after all the others
  induction goals using List.reverseRecOn with
  | nil => exact ⟨σ, .refl _ _, fun g hg => absurd hg List.not_mem_nil⟩
  | append_singleton goals last ih =>
      obtain ⟨hinit, -, hlast⟩ := List.pairwise_append.mp hord
      obtain ⟨τ, hoff, hmet⟩ := ih hinit
      obtain ⟨ρ, hoff', hmet'⟩ := last.exists_met τ
      refine ⟨ρ, ?_, ?_⟩
      · intro v hv
        refine hoff.trans hoff' v ?_
        rintro (⟨g, hg, hmem⟩ | hmem)
        · exact hv ⟨g, List.mem_append_left _ hg, hmem⟩
        · exact hv ⟨last, by simp, hmem⟩
      · intro g hg
        rcases List.mem_append.mp hg with hg | hg
        · exact (hmet g hg).of_agreeOff (hlast g hg last List.mem_cons_self) hoff'
        · rw [List.mem_singleton.mp hg]
          exact hmet'

/-- The same for goals with different numbers, in any order: none looks at what a goal of a greater number binds. -/
theorem exists_allMet_of_numbered (goals : List (Nat × Goal D)) (hnodup : (goals.map Prod.fst).Nodup)
    (hign : ∀ g ∈ goals, ∀ g' ∈ goals, g.1 < g'.1 → g.2.Ignores g'.2.bound) (σ : ∀ v, D v) :
    ∃ τ, AgreeOff {v | ∃ g ∈ goals, v ∈ g.2.bound} σ τ ∧ ∀ g ∈ goals, g.2.Met τ := by
  let sorted := goals.insertionSort fun g g' => g.1 ≤ g'.1
  have hperm : sorted.Perm goals := goals.perm_insertionSort _
  have hmem : ∀ g, g ∈ sorted ↔ g ∈ goals := fun g => hperm.mem_iff
  have hle : sorted.Pairwise fun g g' => g.1 ≤ g'.1 := goals.pairwise_insertionSort _
  have hne : sorted.Pairwise fun g g' => g.1 ≠ g'.1 :=
    List.pairwise_map.mp ((hperm.map Prod.fst).nodup_iff.mpr hnodup)
  have hord : (sorted.map Prod.snd).Pairwise fun g g' => g.Ignores g'.bound := by
    refine List.pairwise_map.mpr ((hle.and hne).imp_of_mem ?_)
    intro g g' hg hg' hlt
    exact hign g ((hmem g).mp hg) g' ((hmem g').mp hg') (lt_of_le_of_ne hlt.1 hlt.2)
  obtain ⟨τ, hoff, hmet⟩ := exists_allMet (sorted.map Prod.snd) hord σ
  refine ⟨τ, ?_, fun g hg => hmet g.2 (List.mem_map_of_mem ((hmem g).mpr hg))⟩
  intro v hv
  refine hoff v ?_
  rintro ⟨g, hg, hbound⟩
  obtain ⟨g', hg', rfl⟩ := List.mem_map.mp hg
  exact hv ⟨g', (hmem g').mp hg', hbound⟩

end Lib
end Serval
