import Mathlib.Data.Finset.Card
import Mathlib.Tactic.Common

/-!
# Ownership — pools of objects with counted owners

Every object of a finite pool is free or held by an owner.  Owners are objects themselves: an owner is
an object that holds itself, and it carries a count of what it holds.  Objects are taken from the free
ones and given back; an owner may be given back when its count says that it holds nothing but itself.

`Counted` is the invariant of such a pool.  That no object is left behind when its owner is given back
follows from the counts being exact.
-/

namespace Serval

universe u

variable {ι : Type u} [DecidableEq ι]

/-- The objects of the pool that `a` holds. -/
def holdings (pool : Finset ι) (own : ι → Option ι) (a : ι) : Finset ι :=
  pool.filter (fun i => own i = some a)

structure Counted (pool : Finset ι) (own : ι → Option ι) (cnt : ι → Nat) : Prop where
  inPool : ∀ {i a}, own i = some a → i ∈ pool
  -- what holds an object is an owner
  alive : ∀ {i a}, own i = some a → own a = some a
  exact : ∀ {a}, own a = some a → cnt a = (holdings pool own a).card

section Holdings

variable {pool : Finset ι} {own : ι → Option ι} {i a b : ι}

theorem mem_holdings : i ∈ holdings pool own a ↔ i ∈ pool ∧ own i = some a := by
  simp [holdings]

theorem holdings_update_of_ne (o : Option ι) (hold : own i ≠ some b) (hnew : o ≠ some b) :
    holdings pool (Function.update own i o) b = holdings pool own b := by
  ext j
  rw [mem_holdings, mem_holdings]
  by_cases hj : j = i
  · subst hj
    simp [hold, hnew]
  · simp [hj]

theorem holdings_acquire (hpool : i ∈ pool) :
    holdings pool (Function.update own i (some a)) a = insert i (holdings pool own a) := by
  ext j
  rw [Finset.mem_insert, mem_holdings, mem_holdings]
  by_cases hj : j = i
  · subst hj
    simp [hpool]
  · simp [hj]

theorem holdings_release :
    holdings pool (Function.update own i none) a = (holdings pool own a).erase i := by
  ext j
  rw [Finset.mem_erase, mem_holdings, mem_holdings]
  by_cases hj : j = i
  · subst hj
    simp
  · simp [hj]

end Holdings

namespace Counted

variable {pool : Finset ι} {own : ι → Option ι} {cnt cnt' : ι → Nat} {i a : ι}

variable (h : Counted pool own cnt)

include h

theorem self_mem (ha : own a = some a) : a ∈ holdings pool own a :=
  mem_holdings.mpr ⟨h.inPool ha, ha⟩

theorem count_pos (ha : own a = some a) : 0 < cnt a := by
  rw [h.exact ha]
  exact Finset.card_pos.mpr ⟨a, h.self_mem ha⟩

theorem count_le (ha : own a = some a) : cnt a ≤ pool.card := by
  rw [h.exact ha]
  exact Finset.card_filter_le _ _

/-- An owner that counts one object holds nothing but itself. -/
theorem eq_of_count_eq_one (hone : cnt a = 1) (hi : own i = some a) : i = a := by
  have ha := h.alive hi
  have hcard : (holdings pool own a).card = 1 := (h.exact ha).symm.trans hone
  have hmem : i ∈ holdings pool own a := mem_holdings.mpr ⟨h.inPool hi, hi⟩
  exact Finset.card_le_one.mp hcard.le i hmem a (h.self_mem ha)

/-- A free object holds nothing. -/
theorem free_holds_nothing (ha : own a = none) (hi : own i = some a) : False := by
  have := h.alive hi
  rw [ha] at this
  cases this

/-- Only the counts of owners matter. -/
theorem congr (hcnt : ∀ b, own b = some b → cnt' b = cnt b) :
    Counted pool own cnt' where
  inPool := h.inPool
  alive := h.alive
  exact := fun hb => (hcnt _ hb).trans (h.exact hb)

/-- A free object becomes an owner. -/
theorem create (ha : own a = none) (hpool : a ∈ pool) (hone : cnt' a = 1)
    (hother : ∀ b, b ≠ a → own b = some b → cnt' b = cnt b) :
    Counted pool (Function.update own a (some a)) cnt' := by
  constructor
  · intro i b hi
    by_cases hia : i = a
    · exact hia ▸ hpool
    · rw [Function.update_of_ne hia] at hi
      exact h.inPool hi
  · intro i b hi
    by_cases hia : i = a
    · subst hia
      rw [Function.update_self] at hi
      cases hi
      exact Function.update_self _ _ _
    · rw [Function.update_of_ne hia] at hi
      have hb := h.alive hi
      have hba : b ≠ a := by
        rintro rfl
        rw [ha] at hb
        cases hb
      rw [Function.update_of_ne hba]
      exact hb
  · intro b hb
    by_cases hba : b = a
    · subst hba
      rw [hone, holdings_acquire hpool]
      -- a free object has held nothing so far
      have hnone : holdings pool own b = ∅ := by
        apply Finset.eq_empty_of_forall_notMem
        intro j hj
        exact h.free_holds_nothing ha (mem_holdings.mp hj).2
      simp [hnone]
    · rw [Function.update_of_ne hba] at hb
      rw [hother b hba hb, h.exact hb, holdings_update_of_ne]
      · rw [ha]
        simp
      · simpa using Ne.symm hba

/-- A free object is given to an owner. -/
theorem acquire (hi : own i = none) (hpool : i ∈ pool) (ha : own a = some a) (hup : cnt' a = cnt a + 1)
    (hother : ∀ b, b ≠ a → own b = some b → cnt' b = cnt b) :
    Counted pool (Function.update own i (some a)) cnt' := by
  have hia : a ≠ i := by
    rintro rfl
    rw [hi] at ha
    cases ha
  constructor
  · intro j b hj
    by_cases hji : j = i
    · exact hji ▸ hpool
    · rw [Function.update_of_ne hji] at hj
      exact h.inPool hj
  · intro j b hj
    by_cases hji : j = i
    · subst hji
      rw [Function.update_self] at hj
      cases hj
      rw [Function.update_of_ne hia]
      exact ha
    · rw [Function.update_of_ne hji] at hj
      have hb := h.alive hj
      have hbi : b ≠ i := by
        rintro rfl
        rw [hi] at hb
        cases hb
      rw [Function.update_of_ne hbi]
      exact hb
  · intro b hb
    have hbi : b ≠ i := by
      rintro rfl
      rw [Function.update_self] at hb
      cases hb
      exact hia rfl
    rw [Function.update_of_ne hbi] at hb
    by_cases hba : b = a
    · subst hba
      have hnew : i ∉ holdings pool own b := by
        intro hmem
        have := (mem_holdings.mp hmem).2
        rw [hi] at this
        cases this
      rw [hup, h.exact hb, holdings_acquire hpool, Finset.card_insert_of_notMem hnew]
    · rw [hother b hba hb, h.exact hb, holdings_update_of_ne]
      · rw [hi]
        simp
      · simpa using Ne.symm hba

/-- An object is given back; an owner only when it holds nothing else. -/
theorem release (hi : own i = some a) (hlast : i = a → cnt a = 1) (hdown : i ≠ a → cnt' a = cnt a - 1)
    (hother : ∀ b, b ≠ a → own b = some b → cnt' b = cnt b) :
    Counted pool (Function.update own i none) cnt' := by
  constructor
  · intro j b hj
    by_cases hji : j = i
    · subst hji
      rw [Function.update_self] at hj
      cases hj
    · rw [Function.update_of_ne hji] at hj
      exact h.inPool hj
  · intro j b hj
    by_cases hji : j = i
    · subst hji
      rw [Function.update_self] at hj
      cases hj
    · rw [Function.update_of_ne hji] at hj
      have hb := h.alive hj
      -- an owner that is given back has counted itself only
      have hbi : b ≠ i := by
        rintro rfl
        have hba : b = a := Option.some.inj (hb.symm.trans hi)
        subst hba
        exact hji (h.eq_of_count_eq_one (hlast rfl) hj)
      rw [Function.update_of_ne hbi]
      exact hb
  · intro b hb
    have hbi : b ≠ i := by
      rintro rfl
      rw [Function.update_self] at hb
      cases hb
    rw [Function.update_of_ne hbi] at hb
    by_cases hba : b = a
    · subst hba
      have hmem : i ∈ holdings pool own b := mem_holdings.mpr ⟨h.inPool hi, hi⟩
      rw [hdown (Ne.symm hbi), h.exact hb, holdings_release, Finset.card_erase_of_mem hmem]
    · rw [hother b hba hb, h.exact hb, holdings_update_of_ne]
      · rw [hi]
        simpa using Ne.symm hba
      · simp

end Counted

end Serval
