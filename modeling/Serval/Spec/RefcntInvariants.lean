import Serval.Lib.Listing
import Serval.Spec.Refcnt

/-!
# RefcntInvariants — the ghost permutation counts references

`refcnt-invariants` says of every valid owner that its two tables are inverse to each other and that the objects it
owns are those at positions below its count.  Where the valid objects are the numbers below `max-refs`, the tables list
them, so the count is the number of objects owned.  Taking and dropping a reference both put the object at the boundary
and move the boundary over it.
-/

namespace Serval
namespace Refcnt

open Riscv Lib

/-- `refcnt-invariants`. -/
structure Invariants (ref : Refcnt) (ownerValid objectValid : Word → Prop) (maxRefs : Word)
    (ownedBy : Word → Word → Prop) : Prop where
  inv_lt : ∀ owner object, ownerValid owner ∧ objectValid object → ref.permInv owner object < maxRefs
  inverse : ∀ owner object idx, ownerValid owner ∧ objectValid object ∧ idx < maxRefs →
    idx = ref.permInv owner (ref.perm owner idx) ∧ ref.perm owner (ref.permInv owner object) = object
  /-- The owner is always the first page to allocate and the last one to go. -/
  owner_first : ∀ owner, ownerValid owner ∧ ownedBy owner owner →
    ref.permInv owner owner = 0 ∧ ref.perm owner 0 = owner
  owned_iff : ∀ owner object, ownerValid owner ∧ objectValid object →
    (ownedBy owner object ↔ ref.permInv owner object < ref.cnt owner)
  cnt_le : ∀ owner, ownerValid owner → ref.cnt owner ≤ maxRefs

/-- The numbers below a bound. -/
def below (bound : Word) : Set Word := {x | x < bound}

theorem image_below (bound : Word) : BitVec.toNat '' below bound = (Finset.range bound.toNat : Set Nat) := by
  ext n
  constructor
  · rintro ⟨x, hx, rfl⟩
    exact Finset.mem_coe.mpr (Finset.mem_range.mpr hx)
  · intro hn
    have hlt : n < bound.toNat := Finset.mem_range.mp (Finset.mem_coe.mp hn)
    have htoNat : (BitVec.ofNat 64 n).toNat = n := by
      rw [BitVec.toNat_ofNat, Nat.mod_eq_of_lt (lt_trans hlt bound.isLt)]
    exact ⟨BitVec.ofNat 64 n, BitVec.lt_def.mpr (htoNat.symm ▸ hlt), htoNat⟩

theorem injOn_toNat (s : Set Word) : Set.InjOn BitVec.toNat s :=
  fun _ _ _ _ heq => BitVec.eq_of_toNat_eq heq

theorem finite_below (bound : Word) : (below bound).Finite := by
  refine Set.Finite.of_finite_image ?_ (injOn_toNat (below bound))
  rw [image_below]
  exact Finset.finite_toSet _

theorem ncard_below (bound : Word) : (below bound).ncard = bound.toNat := by
  rw [← (injOn_toNat (below bound)).ncard_image, image_below, Set.ncard_coe_finset, Finset.card_range]

/-! ## One owner -/

/-- What the invariants say of one owner, with the objects below `maxRefs`: its tables list them, those it owns
first. -/
structure Tallies (ref : Refcnt) (maxRefs : Word) (owned : Word → Prop) (owner : Word) : Prop where
  listing : Listing (ref.perm owner) (ref.permInv owner) (below maxRefs) (below maxRefs)
  owner_first : owned owner → ref.permInv owner owner = 0 ∧ ref.perm owner 0 = owner
  owned_iff : ∀ object < maxRefs, (owned object ↔ ref.permInv owner object < ref.cnt owner)
  cnt_le : ref.cnt owner ≤ maxRefs

section

variable {ref : Refcnt} {ownerValid objectValid : Word → Prop} {maxRefs : Word} {ownedBy : Word → Word → Prop}

/-- The invariants are a statement about each valid owner. -/
theorem invariants_iff (hobject : ∀ x, objectValid x ↔ x < maxRefs) :
    Invariants ref ownerValid objectValid maxRefs ownedBy ↔
      ∀ owner, ownerValid owner → Tallies ref maxRefs (ownedBy owner) owner := by
  constructor
  · intro h owner howner
    refine ⟨?_, ?_, ?_, h.cnt_le owner howner⟩
    · -- a position serves as an object here: both are the numbers below the bound
      refine Listing.of_finite (finite_below maxRefs) ?_ ?_
      · intro x hx
        exact h.inv_lt owner x ⟨howner, (hobject x).mpr hx⟩
      · intro x hx
        exact (h.inverse owner x x ⟨howner, (hobject x).mpr hx, hx⟩).2
    · intro howned
      exact h.owner_first owner ⟨howner, howned⟩
    · intro object hlt
      exact h.owned_iff owner object ⟨howner, (hobject object).mpr hlt⟩
  · intro h
    refine ⟨?_, ?_, ?_, ?_, fun owner howner => (h owner howner).cnt_le⟩
    · rintro owner object ⟨howner, hobj⟩
      exact (h owner howner).listing.inv_mem object ((hobject object).mp hobj)
    · rintro owner object idx ⟨howner, hobj, hidx⟩
      have hlisting := (h owner howner).listing
      exact ⟨(hlisting.inv_perm idx hidx).symm, hlisting.perm_inv object ((hobject object).mp hobj)⟩
    · rintro owner ⟨howner, howned⟩
      exact (h owner howner).owner_first howned
    · rintro owner object ⟨howner, hobj⟩
      exact (h owner howner).owned_iff object ((hobject object).mp hobj)

end

/-! ## Counting -/

/-- The count is the number of objects owned. -/
theorem Tallies.cnt_eq_ncard {ref : Refcnt} {maxRefs owner : Word} {owned : Word → Prop}
    (h : Tallies ref maxRefs owned owner) :
    (ref.cnt owner).toNat = {object | object < maxRefs ∧ owned object}.ncard := by
  have hsub : below (ref.cnt owner) ⊆ below maxRefs := fun x hx => Nat.lt_of_lt_of_le hx h.cnt_le
  have hset : {object | object < maxRefs ∧ owned object} =
      {x | x ∈ below maxRefs ∧ ref.permInv owner x ∈ below (ref.cnt owner)} := by
    ext x
    exact and_congr_right fun hx => h.owned_iff x hx
  rw [hset, h.listing.ncard_eq hsub, ncard_below]

/-! ## Taking and dropping a reference -/

section Steps

variable {ref : Refcnt} {maxRefs owner object : Word} {owned : Word → Prop}

theorem incr_perm : (ref.incr owner object).perm owner =
    placePerm (ref.perm owner) (ref.permInv owner) (ref.cnt owner) object := by
  funext idx
  simp [incr, placePerm]

theorem incr_permInv : (ref.incr owner object).permInv owner =
    placeInv (ref.perm owner) (ref.permInv owner) (ref.cnt owner) object := by
  funext obj
  simp [incr, placeInv]

theorem decr_perm : (ref.decr owner object).perm owner =
    placePerm (ref.perm owner) (ref.permInv owner) (ref.cnt owner - 1) object := by
  funext idx
  simp [decr, placePerm]

theorem decr_permInv : (ref.decr owner object).permInv owner =
    placeInv (ref.perm owner) (ref.permInv owner) (ref.cnt owner - 1) object := by
  funext obj
  simp [decr, placeInv]

/-- Below the bound, adding one does not wrap around. -/
theorem lt_one_add_iff {n bound x : Word} (h : n < bound) : x < 1 + n ↔ x < n ∨ x = n := by
  bv_omega

theorem one_add_le {n bound : Word} (h : n < bound) : 1 + n ≤ bound := by
  bv_omega

section Tally

variable (h : Tallies ref maxRefs owned owner)

include h

/-- An owner that it owns itself is an object, and its count is not zero. -/
theorem Tallies.cnt_pos (hmax : 0 < maxRefs) (howned : owned owner) : owner < maxRefs ∧ 0 < ref.cnt owner := by
  obtain ⟨hinv, hperm⟩ := h.owner_first howned
  have hlt : owner < maxRefs := by
    have hmem := h.listing.perm_mem 0 hmax
    rwa [hperm] at hmem
  refine ⟨hlt, ?_⟩
  have hpos := (h.owned_iff owner hlt).mp howned
  rwa [hinv] at hpos

variable (hobj : object < maxRefs)

include hobj

/-- The object at the first position is the owner, where the owner owns itself. -/
theorem Tallies.eq_owner (howned : owned owner) (hinv : ref.permInv owner object = 0) : object = owner := by
  have hperm := h.listing.perm_inv object hobj
  rw [hinv, (h.owner_first howned).2] at hperm
  exact hperm.symm

/-- An object that is not owned leaves room for one more. -/
theorem Tallies.cnt_lt (hnot : ¬ owned object) : ref.cnt owner < maxRefs := by
  have hpos : ¬ ref.permInv owner object < ref.cnt owner := fun hlt => hnot ((h.owned_iff object hobj).mpr hlt)
  have hmem : ref.permInv owner object < maxRefs := h.listing.inv_mem object hobj
  bv_omega

theorem Tallies.incr (hnot : ¬ owned object) (hfirst : object = owner ∧ ref.cnt owner = 0 ∨ object ≠ owner) :
    Tallies (ref.incr owner object) maxRefs (fun x => owned x ∨ x = object) owner := by
  have hlt := h.cnt_lt hobj hnot
  have hcnt : (ref.incr owner object).cnt owner = 1 + ref.cnt owner := by simp [Refcnt.incr]
  have hpos : ¬ ref.permInv owner object < ref.cnt owner := fun hlt => hnot ((h.owned_iff object hobj).mpr hlt)
  refine ⟨?_, ?_, ?_, ?_⟩
  · rw [incr_perm, incr_permInv]
    exact h.listing.place hlt hobj
  · intro howned
    rw [incr_perm, incr_permInv]
    rcases hfirst with ⟨rfl, hzero⟩ | hne
    · simp [placeInv, placePerm, hzero]
    · have howned : owned owner := howned.resolve_right hne.symm
      obtain ⟨hinv, hperm⟩ := h.owner_first howned
      obtain ⟨howner, hcount⟩ := h.cnt_pos (by bv_omega) howned
      have hzero : (0 : Word) ≠ ref.cnt owner := by bv_omega
      have hother : ref.permInv owner object ≠ 0 := fun heq => hne (h.eq_owner hobj howned heq)
      refine ⟨?_, ?_⟩
      · rw [h.listing.placeInv_of_ne hlt howner hne.symm, hinv, if_neg hzero]
      · rw [placePerm, if_neg hzero, if_neg hother.symm, hperm]
  · intro x hx
    rw [incr_permInv, hcnt, lt_one_add_iff hlt]
    by_cases hxo : x = object
    · simp [hxo, placeInv]
    · rw [h.listing.placeInv_of_ne hlt hx hxo, h.owned_iff x hx]
      by_cases hat : ref.permInv owner x = ref.cnt owner
      · -- it stood at the boundary and gives its place up
        have hdiff : ref.permInv owner object ≠ ref.cnt owner := fun heq =>
          hxo (h.listing.inv_inj hx hobj (hat.trans heq.symm))
        simp [hat, hxo, hpos, hdiff]
      · simp [hat, hxo]
  · rw [hcnt]
    exact one_add_le hlt

theorem Tallies.decr (howned : owned object) :
    Tallies (ref.decr owner object) maxRefs (fun x => owned x ∧ x ≠ object) owner := by
  have hle := h.cnt_le
  have hpos := (h.owned_iff object hobj).mp howned
  obtain ⟨n, hn⟩ : ∃ n, ref.cnt owner = 1 + n := ⟨ref.cnt owner - 1, by bv_omega⟩
  have hlast : ref.cnt owner - 1 = n := by bv_omega
  have hlt : n < maxRefs := by bv_omega
  have hcnt : (ref.decr owner object).cnt owner = n := by
    rw [← hlast]
    simp [Refcnt.decr]
  rw [hn, lt_one_add_iff hlt] at hpos
  refine ⟨?_, ?_, ?_, ?_⟩
  · rw [decr_perm, decr_permInv, hlast]
    exact h.listing.place hlt hobj
  · rintro ⟨howner, hne⟩
    rw [decr_perm, decr_permInv, hlast]
    obtain ⟨hinv, hperm⟩ := h.owner_first howner
    obtain ⟨hownerLt, -⟩ := h.cnt_pos (by bv_omega) howner
    have hother : ref.permInv owner object ≠ 0 := fun heq => hne (h.eq_owner hobj howner heq).symm
    have hzero : (0 : Word) ≠ n := by bv_omega
    refine ⟨?_, ?_⟩
    · rw [h.listing.placeInv_of_ne hlt hownerLt hne, hinv, if_neg hzero]
    · rw [placePerm, if_neg hzero, if_neg hother.symm, hperm]
  · intro x hx
    rw [decr_permInv, hcnt, hlast]
    by_cases hxo : x = object
    · simp [hxo, placeInv]
    · rw [h.listing.placeInv_of_ne hlt hx hxo, h.owned_iff x hx, hn, lt_one_add_iff hlt]
      by_cases hat : ref.permInv owner x = n
      · have hdiff : ref.permInv owner object ≠ n := fun heq =>
          hxo (h.listing.inv_inj hx hobj (hat.trans heq.symm))
        simp [hat, hxo, hpos.resolve_right hdiff]
      · simp [hat, hxo]
  · rw [hcnt]
    bv_omega

end Tally

/-- The other owners keep their tables. -/
theorem Tallies.frame {ref' : Refcnt} {own : Word} {owned' : Word → Prop} (h : Tallies ref maxRefs owned own)
    (hcnt : ref'.cnt own = ref.cnt own) (hperm : ref'.perm own = ref.perm own)
    (hinv : ref'.permInv own = ref.permInv own) (howned : ∀ x, owned' x ↔ owned x) :
    Tallies ref' maxRefs owned' own := by
  refine ⟨?_, ?_, ?_, ?_⟩
  · rw [hperm, hinv]
    exact h.listing
  · intro hself
    rw [hperm, hinv]
    exact h.owner_first ((howned own).mp hself)
  · intro x hx
    rw [howned x, hinv, hcnt]
    exact h.owned_iff x hx
  · rw [hcnt]
    exact h.cnt_le

theorem Tallies.incr_of_ne {own : Word} (h : Tallies ref maxRefs owned own) (hne : own ≠ owner) :
    Tallies (ref.incr owner object) maxRefs (fun x => owned x ∨ own = owner ∧ x = object) own :=
  h.frame (by simp [Refcnt.incr, hne]) (by funext idx; simp [Refcnt.incr, hne])
    (by funext obj; simp [Refcnt.incr, hne]) (fun x => by simp [hne])

theorem Tallies.decr_of_ne {own : Word} (h : Tallies ref maxRefs owned own) (hne : own ≠ owner) :
    Tallies (ref.decr owner object) maxRefs (fun x => owned x ∧ ¬ (own = owner ∧ x = object)) own :=
  h.frame (by simp [Refcnt.decr, hne]) (by funext idx; simp [Refcnt.decr, hne])
    (by funext obj; simp [Refcnt.decr, hne]) (fun x => by simp [hne])

end Steps

/-! ## The invariants -/

/-- `init-refcnt`: nobody owns anything. -/
theorem init_invariants (ownerValid : Word → Prop) (maxRefs : Word) :
    Invariants init ownerValid (· < maxRefs) maxRefs (fun _ _ => False) where
  inv_lt := fun _ _ h => h.2
  inverse := fun _ _ _ _ => ⟨rfl, rfl⟩
  owner_first := fun _ h => absurd h.2 not_false
  owned_iff := fun _ _ _ => ⟨False.elim, fun h => absurd h (BitVec.not_lt_zero)⟩
  cnt_le := fun _ _ => BitVec.le_def.mpr (Nat.zero_le _)

/-- With the numbers below `max-refs` as objects, the invariants make the count of a valid owner the number of objects
that it owns, and taking and dropping a reference keep them. -/
theorem ghost_permutation_counts {ref : Refcnt} {ownerValid objectValid : Word → Prop} {maxRefs : Word}
    {ownedBy : Word → Word → Prop} (h : Invariants ref ownerValid objectValid maxRefs ownedBy)
    (hobject : ∀ x, objectValid x ↔ x < maxRefs) :
    (∀ owner, ownerValid owner →
        (ref.cnt owner).toNat = {object | objectValid object ∧ ownedBy owner object}.ncard) ∧
      (∀ owner object, ownerValid owner → objectValid object → ¬ ownedBy owner object →
        (object = owner ∧ ref.cnt owner = 0 ∨ object ≠ owner) →
        Invariants (ref.incr owner object) ownerValid objectValid maxRefs
          (fun own obj => ownedBy own obj ∨ own = owner ∧ obj = object)) ∧
      ∀ owner object, objectValid object → ownedBy owner object →
        Invariants (ref.decr owner object) ownerValid objectValid maxRefs
          (fun own obj => ownedBy own obj ∧ ¬ (own = owner ∧ obj = object)) := by
  have htallies := (invariants_iff hobject).mp h
  refine ⟨?_, ?_, ?_⟩
  · intro owner howner
    simp only [hobject]
    exact (htallies owner howner).cnt_eq_ncard
  · intro owner object howner hobj hnot hfirst
    refine (invariants_iff hobject).mpr fun own hown => ?_
    by_cases heq : own = owner
    · subst heq
      simpa using (htallies own hown).incr ((hobject object).mp hobj) hnot hfirst
    · exact (htallies own hown).incr_of_ne heq
  · intro owner object hobj howned
    refine (invariants_iff hobject).mpr fun own hown => ?_
    by_cases heq : own = owner
    · subst heq
      simpa using (htallies own hown).decr ((hobject object).mp hobj) howned
    · exact (htallies own hown).decr_of_ne heq

/-- Two pages: the first takes itself and then the second, which makes its count two, and drops the second. -/
theorem ghost_permutation_counts_init :
    ∃ ownedBy, Invariants ((init.incr 0 0).incr 0 1) (· < 2) (· < 2) 2 ownedBy ∧
      ((init.incr 0 0).incr 0 1).cnt 0 = 2 ∧ {object : Word | object < 2 ∧ ownedBy 0 object}.ncard = 2 ∧
      Invariants (((init.incr 0 0).incr 0 1).decr 0 1) (· < 2) (· < 2) 2
        (fun own obj => ownedBy own obj ∧ ¬ (own = 0 ∧ obj = 1)) := by
  have hinit := ghost_permutation_counts (init_invariants (· < 2) 2) (fun _ => Iff.rfl)
  have hfirst := ghost_permutation_counts
    (hinit.2.1 0 0 (by decide) (by decide) not_false (.inl ⟨rfl, rfl⟩)) fun _ => Iff.rfl
  have hsecond := hfirst.2.1 0 1 (by decide) (by decide) (by decide) (.inr (by decide))
  have hcounts := ghost_permutation_counts hsecond fun _ => Iff.rfl
  have hcnt : ((init.incr 0 0).incr 0 1).cnt 0 = 2 := by decide
  refine ⟨_, hsecond, hcnt, ?_, hcounts.2.2 0 1 (by decide) (.inr ⟨rfl, rfl⟩)⟩
  rw [← hcounts.1 0 (by decide), hcnt]
  rfl

end Refcnt
end Serval
