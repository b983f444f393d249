import Mathlib.Algebra.BigOperators.Group.Finset.Basic
import Mathlib.Algebra.Order.Interval.Finset.Basic
import Mathlib.Order.Interval.Finset.Nat

/-!
# Tiling — a range cut into consecutive pieces

Owners `i ∈ I` hold the half-open pieces `[lo i, hi i)` of `[0, n)`.  The pieces tile the range when
every number below `n` lies in exactly one of them; empty pieces are allowed anywhere.  Cutting the
top off one piece for a new owner keeps a tiling, and the sizes of the pieces of a tiling add up to
the size of the range.
-/

namespace Serval

universe u

structure Tiling {ι : Type u} (I : Finset ι) (lo hi : ι → Nat) (n : Nat) : Prop where
  ordered : ∀ i ∈ I, lo i ≤ hi i
  bounded : ∀ i ∈ I, hi i ≤ n
  covered : ∀ k, k < n → ∃ i ∈ I, lo i ≤ k ∧ k < hi i
  disjoint : ∀ k, ∀ i ∈ I, ∀ j ∈ I, lo i ≤ k → k < hi i → lo j ≤ k → k < hi j → i = j

namespace Tiling

variable {ι : Type u} {I : Finset ι} {lo hi : ι → Nat} {n : Nat}

/-- One owner holds everything. -/
theorem singleton (i : ι) (hlo : lo i = 0) (hhi : hi i = n) : Tiling {i} lo hi n where
  ordered := by
    intro j hj
    rw [Finset.mem_singleton.mp hj, hlo]
    exact Nat.zero_le _
  bounded := by
    intro j hj
    rw [Finset.mem_singleton.mp hj, hhi]
  covered := by
    intro k hk
    exact ⟨i, Finset.mem_singleton_self i, by omega, by omega⟩
  disjoint := by
    intro k j hj j' hj' _ _ _ _
    rw [Finset.mem_singleton.mp hj, Finset.mem_singleton.mp hj']

variable (h : Tiling I lo hi n)

include h

theorem congr {lo' hi' : ι → Nat} (hlo : ∀ i ∈ I, lo' i = lo i) (hhi : ∀ i ∈ I, hi' i = hi i) : Tiling I lo' hi' n where
  ordered := by
    intro i hi
    rw [hlo i hi, hhi i hi]
    exact h.ordered i hi
  bounded := by
    intro i hi
    rw [hhi i hi]
    exact h.bounded i hi
  covered := by
    intro k hk
    rcases h.covered k hk with ⟨i, hi, hmem⟩
    refine ⟨i, hi, ?_⟩
    rw [hlo i hi, hhi i hi]
    exact hmem
  disjoint := by
    intro k i hi j hj
    rw [hlo i hi, hhi i hi, hlo j hj, hhi j hj]
    exact h.disjoint k i hi j hj

/-- Cut the pieces above `cut` off owner `p` and hand them to the new owner `c`. -/
theorem split [DecidableEq ι] {p c : ι} {cut : Nat} (hp : p ∈ I) (hc : c ∉ I) (hlo : lo p ≤ cut) (hhi : cut ≤ hi p) :
    Tiling (insert c I) (Function.update lo c cut)
      (Function.update (Function.update hi c (hi p)) p cut) n := by
  have hne : c ≠ p := fun heq => hc (heq ▸ hp)
  have hold : ∀ i ∈ I, i ≠ c := fun i hi heq => hc (heq ▸ hi)
  -- a number lies in a new piece exactly when its owner is as the cut says
  have hpiece : ∀ k, ∀ i ∈ insert c I,
      (Function.update lo c cut i ≤ k ∧
          k < Function.update (Function.update hi c (hi p)) p cut i) ↔
        (i = c ∧ cut ≤ k ∧ k < hi p) ∨ (i = p ∧ lo p ≤ k ∧ k < cut) ∨
          (i ≠ c ∧ i ≠ p ∧ lo i ≤ k ∧ k < hi i) := by
    intro k i hi
    by_cases hic : i = c
    · subst hic
      simp [hne]
    by_cases hip : i = p
    · subst hip
      simp [hic]
    · simp [hic, hip]
  constructor
  · intro i hi
    rcases Finset.mem_insert.mp hi with rfl | hi
    · simpa [hne] using hhi
    by_cases hip : i = p
    · subst hip
      simpa [hne.symm] using hlo
    · simpa [hip, hold i hi] using h.ordered i hi
  · intro i hi
    rcases Finset.mem_insert.mp hi with rfl | hi
    · simpa [hne] using h.bounded p hp
    by_cases hip : i = p
    · subst hip
      simpa using Nat.le_trans hhi (h.bounded i hp)
    · simpa [hip, hold i hi] using h.bounded i hi
  · intro k hk
    rcases h.covered k hk with ⟨i, hi, hlow, hhigh⟩
    by_cases hip : i = p
    · subst hip
      by_cases hcut : k < cut
      · have hmem := Finset.mem_insert_of_mem (a := i) (b := c) hi
        exact ⟨i, hmem, (hpiece k i hmem).mpr (Or.inr (Or.inl ⟨rfl, hlow, hcut⟩))⟩
      · have hmem := Finset.mem_insert_self c I
        exact ⟨c, hmem, (hpiece k c hmem).mpr (Or.inl ⟨rfl, by omega, hhigh⟩)⟩
    · have hmem := Finset.mem_insert_of_mem (a := i) (b := c) hi
      exact ⟨i, hmem,
        (hpiece k i hmem).mpr (Or.inr (Or.inr ⟨hold i hi, hip, hlow, hhigh⟩))⟩
  · intro k i hiI j hjI hilo hihi hjlo hjhi
    -- both pieces were part of old ones, which met in `k`
    have howner : ∀ x ∈ insert c I, Function.update lo c cut x ≤ k →
        k < Function.update (Function.update hi c (hi p)) p cut x →
        (x = c ∧ cut ≤ k ∧ k < hi p) ∨ (x ∈ I ∧ lo x ≤ k ∧ k < hi x ∧ (x = p → k < cut)) := by
      intro x hx hxlo hxhi
      rcases (hpiece k x hx).mp ⟨hxlo, hxhi⟩ with hxc | ⟨rfl, hxl, hxh⟩ | ⟨hxc, hxp, hxl, hxh⟩
      · exact Or.inl hxc
      · exact Or.inr ⟨hp, hxl, by omega, fun _ => hxh⟩
      · exact Or.inr ⟨Finset.mem_of_mem_insert_of_ne hx hxc, hxl, hxh, fun heq => absurd heq hxp⟩
    have hparent : cut ≤ k → k < hi p → ∀ x ∈ I, lo x ≤ k → k < hi x → x = p := by
      intro hcut hk x hx hxlo hxhi
      exact h.disjoint k x hx p hp hxlo hxhi (by omega) hk
    rcases howner i hiI hilo hihi with ⟨rfl, hci, hpi⟩ | ⟨hiI', hil, hih, hicut⟩
    · rcases howner j hjI hjlo hjhi with ⟨rfl, _, _⟩ | ⟨hjI', hjl, hjh, hjcut⟩
      · rfl
      · have := hjcut (hparent hci hpi j hjI' hjl hjh)
        omega
    · rcases howner j hjI hjlo hjhi with ⟨rfl, hcj, hpj⟩ | ⟨hjI', hjl, hjh, _⟩
      · have := hicut (hparent hcj hpj i hiI' hil hih)
        omega
      · exact h.disjoint k i hiI' j hjI' hil hih hjl hjh

theorem existsUnique {k : Nat} (hk : k < n) : ∃! i, i ∈ I ∧ lo i ≤ k ∧ k < hi i := by
  rcases h.covered k hk with ⟨i, hi, hlow, hhigh⟩
  refine ⟨i, ⟨hi, hlow, hhigh⟩, ?_⟩
  rintro j ⟨hj, hjlow, hjhigh⟩
  exact h.disjoint k j hj i hi hjlow hjhigh hlow hhigh

/-- The sizes of the pieces add up to the size of the range. -/
theorem sum_size : ∑ i ∈ I, (hi i - lo i) = n := by
  have hpieces : I.biUnion (fun i => Finset.Ico (lo i) (hi i)) = Finset.range n := by
    ext k
    simp only [Finset.mem_biUnion, Finset.mem_Ico, Finset.mem_range]
    constructor
    · rintro ⟨i, hi, _, hhigh⟩
      exact Nat.lt_of_lt_of_le hhigh (h.bounded i hi)
    · exact h.covered k
  have hdisj : (I : Set ι).PairwiseDisjoint (fun i => Finset.Ico (lo i) (hi i)) := by
    intro i hi j hj hij
    refine Finset.disjoint_left.mpr ?_
    intro k hki hkj
    rw [Finset.mem_Ico] at hki hkj
    exact hij (h.disjoint k i hi j hj hki.1 hki.2 hkj.1 hkj.2)
  calc
    ∑ i ∈ I, (hi i - lo i) = ∑ i ∈ I, (Finset.Ico (lo i) (hi i)).card := by simp
    _ = (I.biUnion (fun i => Finset.Ico (lo i) (hi i))).card := (Finset.card_biUnion hdisj).symm
    _ = n := by rw [hpieces, Finset.card_range]

end Tiling

end Serval
