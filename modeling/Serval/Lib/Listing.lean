import Mathlib.Data.Set.Card
import Mathlib.Data.Set.Function

/-!
# Listings of a set

A listing of `S` by the positions `I` is a function from positions to elements with its inverse.  The elements at the
positions below a bound form a subset that has as many elements as there are such positions; putting an element at the
position of the bound, in exchange for the one that stands there, moves the bound over that element only.
-/

namespace Serval
namespace Lib

variable {ι α : Type*}

/-- `perm` and `inv` are inverse to each other between `I` and `S`. -/
structure Listing (perm : ι → α) (inv : α → ι) (I : Set ι) (S : Set α) : Prop where
  perm_mem : ∀ i ∈ I, perm i ∈ S
  inv_mem : ∀ x ∈ S, inv x ∈ I
  inv_perm : ∀ i ∈ I, inv (perm i) = i
  perm_inv : ∀ x ∈ S, perm (inv x) = x

theorem Listing.inv_inj {perm : ι → α} {inv : α → ι} {I : Set ι} {S : Set α} (h : Listing perm inv I S) {x y : α}
    (hx : x ∈ S) (hy : y ∈ S) (heq : inv x = inv y) : x = y := by
  rw [← h.perm_inv x hx, heq, h.perm_inv y hy]

/-- On a finite set, an inverse from the left suffices. -/
theorem Listing.of_finite {perm inv : α → α} {S : Set α} (hfin : S.Finite) (hmem : ∀ x ∈ S, inv x ∈ S)
    (hinv : ∀ x ∈ S, perm (inv x) = x) : Listing perm inv S S := by
  have hinj : Set.InjOn inv S := by
    intro x hx y hy heq
    rw [← hinv x hx, heq, hinv y hy]
  have hbij : Set.BijOn inv S S := (hfin.injOn_iff_bijOn_of_mapsTo hmem).mp hinj
  -- every position is that of an element, so `perm` leads back to it
  have hpos : ∀ i ∈ S, ∃ x ∈ S, inv x = i := fun i hi => hbij.surjOn hi
  refine ⟨?_, hmem, ?_, hinv⟩
  · intro i hi
    obtain ⟨x, hx, rfl⟩ := hpos i hi
    rwa [hinv x hx]
  · intro i hi
    obtain ⟨x, hx, rfl⟩ := hpos i hi
    rw [hinv x hx]

/-- The elements at some of the positions are as many as those positions. -/
theorem Listing.ncard_eq {perm : ι → α} {inv : α → ι} {I : Set ι} {S : Set α} (h : Listing perm inv I S) {J : Set ι}
    (hJ : J ⊆ I) : {x | x ∈ S ∧ inv x ∈ J}.ncard = J.ncard := by
  have himage : {x | x ∈ S ∧ inv x ∈ J} = perm '' J := by
    ext x
    constructor
    · rintro ⟨hx, hpos⟩
      exact ⟨inv x, hpos, h.perm_inv x hx⟩
    · rintro ⟨i, hi, rfl⟩
      refine ⟨h.perm_mem i (hJ hi), ?_⟩
      rwa [h.inv_perm i (hJ hi)]
  have hinj : Set.InjOn perm J := by
    intro i hi j hj heq
    rw [← h.inv_perm i (hJ hi), heq, h.inv_perm j (hJ hj)]
  rw [himage, hinj.ncard_image]

section Place

variable [DecidableEq ι] [DecidableEq α]

/-- Put `a` at position `i`, and what stood there at the old position of `a`. -/
def placePerm (perm : ι → α) (inv : α → ι) (i : ι) (a : α) : ι → α := fun j =>
  if j = i then a else if j = inv a then perm i else perm j

def placeInv (perm : ι → α) (inv : α → ι) (i : ι) (a : α) : α → ι := fun x =>
  if x = a then i else if x = perm i then inv a else inv x

variable {perm : ι → α} {inv : α → ι} {I : Set ι} {S : Set α} {i : ι} {a : α}

theorem Listing.place (h : Listing perm inv I S) (hi : i ∈ I) (ha : a ∈ S) :
    Listing (placePerm perm inv i a) (placeInv perm inv i a) I S := by
  have hstood := h.perm_mem i hi
  have hold := h.inv_mem a ha
  refine ⟨?_, ?_, ?_, ?_⟩
  · intro j hj
    have hperm := h.perm_mem j hj
    grind [placePerm]
  · intro x hx
    have hinv := h.inv_mem x hx
    grind [placeInv]
  · intro j hj
    have hj' := h.inv_perm j hj
    have hi' := h.inv_perm i hi
    have ha' := h.perm_inv a ha
    grind [placePerm, placeInv]
  · intro x hx
    have hx' := h.perm_inv x hx
    have hi' := h.inv_perm i hi
    have ha' := h.perm_inv a ha
    grind [placePerm, placeInv]

/-- Another element than `a` is where it was, or it stood at `i` and is where `a` was. -/
theorem Listing.placeInv_of_ne (h : Listing perm inv I S) (hi : i ∈ I) {x : α} (hx : x ∈ S) (hne : x ≠ a) :
    placeInv perm inv i a x = if inv x = i then inv a else inv x := by
  have hx' := h.perm_inv x hx
  have hi' := h.inv_perm i hi
  grind [placeInv]

end Place

end Lib
end Serval
