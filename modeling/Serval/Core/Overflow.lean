import Serval.Core.Bits
import Mathlib.Tactic.Ring
import Mathlib.Tactic.Linarith

/-!
# Overflow — what the overflow predicates of `serval/lib/core.rkt` say

A predicate should hold exactly when the result over the integers does not fit the width.  For sums and differences
the sign of the wrapped result tells it, since the result is less than one turn away from the range.  For products the
upper half of a product of twice the width is looked at.  The one for signed products expects a negative product from
operands of different signs, and forgets that one of them may be zero.
-/

namespace Serval
namespace Core

variable {n : Nat}

/-- The integers that a signed vector can have. -/
def FitsSigned (n : Nat) (z : Int) : Prop :=
  -2 ^ (n - 1) ≤ z ∧ z < 2 ^ (n - 1)

/-- The integers that an unsigned vector can have. -/
def FitsUnsigned (n : Nat) (z : Int) : Prop :=
  0 ≤ z ∧ z < 2 ^ n

/-! ## Signs -/

/-- Two vectors have the same sign bit when both are negative or none is. -/
theorem bvSign_eq_iff (x y : BitVec n) : bvSign x = bvSign y ↔ (x.toInt < 0 ↔ y.toInt < 0) := by
  have hsign : ∀ z : BitVec n, bvSign z = BitVec.ofBool z.msb := by
    intro z
    apply BitVec.eq_of_getLsbD_eq
    intro i hi
    obtain rfl : i = 0 := by omega
    simp [bvSign, BitVec.msb_eq_getLsbD_last]
  have hmsb : ∀ z : BitVec n, z.toInt < 0 ↔ z.msb = true := by
    intro z
    rw [BitVec.msb_eq_toInt, decide_eq_true_iff]
  rw [hsign, hsign, hmsb, hmsb]
  cases x.msb <;> cases y.msb <;> decide

theorem two_pow_eq (hn : 0 < n) : (2 : Int) ^ n = 2 * 2 ^ (n - 1) := by
  obtain ⟨m, rfl⟩ : ∃ m, n = m + 1 := ⟨n - 1, by omega⟩
  rw [Nat.add_sub_cancel, pow_succ]
  ring

/-- One turn changes nothing. -/
theorem ofInt_add_two_pow (z : Int) : BitVec.ofInt n (z + 2 ^ n) = BitVec.ofInt n z := by
  have hturn : BitVec.ofInt n (2 ^ n) = 0#n := by
    apply BitVec.eq_of_toNat_eq
    rw [BitVec.toNat_ofInt]
    simp
  rw [BitVec.ofInt_add, hturn, BitVec.add_zero]

/-- The sign of an integer that is at most one turn away from the range. -/
theorem toInt_ofInt_neg (hn : 0 < n) {z : Int} (hlow : -2 ^ n ≤ z) (hhigh : z < 2 ^ n) :
    (BitVec.ofInt n z).toInt < 0 ↔ (-2 ^ (n - 1) ≤ z ∧ z < 0) ∨ 2 ^ (n - 1) ≤ z := by
  have hpow := two_pow_eq hn
  rcases lt_or_ge z (-2 ^ (n - 1)) with hbelow | hge
  · rw [← ofInt_add_two_pow, BitVec.toInt_ofInt_eq_self hn (by omega) (by omega)]
    omega
  · rcases lt_or_ge z (2 ^ (n - 1)) with hlt | habove
    · rw [BitVec.toInt_ofInt_eq_self hn hge hlt]
      omega
    · have hturn : BitVec.ofInt n z = BitVec.ofInt n (z - 2 ^ n) := by
        rw [← ofInt_add_two_pow (z - 2 ^ n), Int.sub_add_cancel]
      rw [hturn, BitVec.toInt_ofInt_eq_self hn (by omega) (by omega)]
      omega

/-! ## Sums and differences -/

section Sums

variable (x y : BitVec n) (c : Bool)

theorem toInt_carry : 0 ≤ c.toInt ∧ c.toInt ≤ 1 := by
  cases c <;> decide

theorem add_carry_eq :
    (x + y + if c then 1#n else 0#n) = BitVec.ofInt n (x.toInt + y.toInt + c.toInt) := by
  rw [BitVec.ofInt_add, BitVec.ofInt_add, BitVec.ofInt_toInt, BitVec.ofInt_toInt]
  cases c <;> rfl

theorem sub_borrow_eq :
    (x - y - if c then 1#n else 0#n) = BitVec.ofInt n (x.toInt - y.toInt - c.toInt) := by
  have hx : BitVec.ofInt n (x.toInt - y.toInt - c.toInt) + (y + if c then 1#n else 0#n) = x := by
    have hcarry : (if c then 1#n else 0#n) = BitVec.ofInt n c.toInt := by cases c <;> rfl
    calc BitVec.ofInt n (x.toInt - y.toInt - c.toInt) + (y + if c then 1#n else 0#n)
        = BitVec.ofInt n (x.toInt - y.toInt - c.toInt) +
            (BitVec.ofInt n y.toInt + BitVec.ofInt n c.toInt) := by rw [hcarry, BitVec.ofInt_toInt]
      _ = BitVec.ofInt n x.toInt := by
          rw [← BitVec.ofInt_add, ← BitVec.ofInt_add]
          congr 1
          ring
      _ = x := BitVec.ofInt_toInt
  rw [BitVec.sub_sub]
  exact BitVec.sub_eq_iff_eq_add.mpr hx.symm

theorem bvsaddOverflow_exact (hn : 0 < n) :
    bvsaddOverflow x y c = true ↔ ¬ FitsSigned n (x.toInt + y.toInt + c.toInt) := by
  have hpow := two_pow_eq hn
  have hx := BitVec.le_toInt x
  have hx' := BitVec.toInt_lt (x := x)
  have hy := BitVec.le_toInt y
  have hy' := BitVec.toInt_lt (x := y)
  have hc := toInt_carry c
  have hresult := toInt_ofInt_neg hn (z := x.toInt + y.toInt + c.toInt) (by omega) (by omega)
  simp only [bvsaddOverflow, Bool.and_eq_true, decide_eq_true_iff, ne_eq, bvSign_eq_iff, add_carry_eq, hresult,
    FitsSigned]
  omega

theorem bvssubOverflow_exact (hn : 0 < n) :
    bvssubOverflow x y c = true ↔ ¬ FitsSigned n (x.toInt - y.toInt - c.toInt) := by
  have hpow := two_pow_eq hn
  have hx := BitVec.le_toInt x
  have hx' := BitVec.toInt_lt (x := x)
  have hy := BitVec.le_toInt y
  have hy' := BitVec.toInt_lt (x := y)
  have hc := toInt_carry c
  have hresult := toInt_ofInt_neg hn (z := x.toInt - y.toInt - c.toInt) (by omega) (by omega)
  simp only [bvssubOverflow, Bool.and_eq_true, decide_eq_true_iff, ne_eq, bvSign_eq_iff, sub_borrow_eq, hresult,
    FitsSigned]
  omega

theorem bvuaddOverflow_exact :
    bvuaddOverflow x y c = true ↔ ¬ FitsUnsigned n (x.toNat + y.toNat + c.toNat) := by
  rw [bvuaddOverflow_iff, FitsUnsigned]
  have hpow : ((2 ^ n : Nat) : Int) = 2 ^ n := by norm_cast
  omega

theorem bvusubOverflow_exact :
    bvusubOverflow x y c = true ↔ ¬ FitsUnsigned n (x.toNat - y.toNat - c.toNat) := by
  have hx := x.isLt
  have hpow : ((2 ^ n : Nat) : Int) = 2 ^ n := by norm_cast
  cases c <;> simp [bvusubOverflow, FitsUnsigned, BitVec.lt_def, BitVec.le_def] <;> omega

end Sums

/-! ## Products -/

section Products

variable (x y : BitVec n)

theorem bvumulOverflow_exact : bvumulOverflow x y = true ↔ ¬ FitsUnsigned n (x.toNat * y.toNat) := by
  have hwide : x.toNat * y.toNat < 2 ^ n * 2 ^ n := Nat.mul_lt_mul'' x.isLt y.isLt
  have hprod : (x.setWidth (n * 2) * y.setWidth (n * 2)).toNat = x.toNat * y.toNat := by
    rw [BitVec.toNat_mul, BitVec.toNat_setWidth_of_le (by omega), BitVec.toNat_setWidth_of_le (by omega),
      Nat.mod_eq_of_lt (by rwa [Nat.mul_two, Nat.pow_add])]
  have hupper : ((x.setWidth (n * 2) * y.setWidth (n * 2)).extractLsb' n n).toNat = x.toNat * y.toNat / 2 ^ n := by
    rw [BitVec.extractLsb'_toNat, hprod, Nat.shiftRight_eq_div_pow, Nat.mod_eq_of_lt (Nat.div_lt_of_lt_mul hwide)]
  have hzero : (x.setWidth (n * 2) * y.setWidth (n * 2)).extractLsb' n n = 0#n ↔ x.toNat * y.toNat < 2 ^ n := by
    rw [← BitVec.toNat_inj, hupper, BitVec.toNat_ofNat, Nat.zero_mod, Nat.div_eq_zero_iff]
    have hpos := Nat.two_pow_pos n
    omega
  rw [bvumulOverflow, decide_eq_true_iff, ne_eq, hzero, FitsUnsigned]
  have hcast : ((x.toNat : Int) * y.toNat < 2 ^ n) ↔ x.toNat * y.toNat < 2 ^ n := by norm_cast
  rw [hcast]
  have hnonneg : (0 : Int) ≤ x.toNat * y.toNat := by positivity
  simp [hnonneg]

/-- The upper bits of the wide product, as far as the predicate looks at them: they are all equal when the product
fits, and tell its sign. -/
theorem upper_eq_iff (hn : 0 < n) (p : BitVec (n * 2)) :
    (p.extractLsb' (n - 1) (n + 1) = 0#(n + 1) ↔ 0 ≤ p.toInt ∧ p.toInt < 2 ^ (n - 1)) ∧
      (p.extractLsb' (n - 1) (n + 1) = -1 ↔ -2 ^ (n - 1) ≤ p.toInt ∧ p.toInt < 0) := by
  obtain ⟨m, rfl⟩ : ∃ m, n = m + 1 := ⟨n - 1, by omega⟩
  have hlt := p.isLt
  have htop : 2 ^ (m + 1 + 1) = 4 * 2 ^ m := by ring
  have hwide : 2 ^ ((m + 1) * 2) = 2 ^ m * (4 * 2 ^ m) := by ring
  have hpos := Nat.two_pow_pos m
  have hsquare : 2 ^ m ≤ 2 ^ m * 2 ^ m := Nat.le_mul_of_pos_left _ hpos
  have hupper : (p.extractLsb' m (m + 1 + 1)).toNat = p.toNat / 2 ^ m := by
    rw [BitVec.extractLsb'_toNat, Nat.shiftRight_eq_div_pow, Nat.mod_eq_of_lt]
    rw [htop]
    exact Nat.div_lt_of_lt_mul (by omega)
  have hones : (-1 : BitVec (m + 1 + 1)).toNat = 4 * 2 ^ m - 1 := by
    rw [show (-1 : BitVec (m + 1 + 1)) = BitVec.allOnes _ from BitVec.neg_one_eq_allOnes, BitVec.toNat_allOnes, htop]
  have hall : p.toNat / 2 ^ m = 4 * 2 ^ m - 1 ↔ 2 ^ m * (4 * 2 ^ m) - 2 ^ m ≤ p.toNat := by
    rw [Nat.div_eq_iff hpos]
    rw [hwide] at hlt
    have hmul : (4 * 2 ^ m - 1) * 2 ^ m = 2 ^ m * (4 * 2 ^ m) - 2 ^ m := by
      rw [Nat.mul_comm, Nat.mul_sub_one]
    omega
  have hint := BitVec.toInt_eq_toNat_cond p
  rw [hwide] at hint hlt
  rw [Nat.add_sub_cancel, ← BitVec.toNat_inj, ← BitVec.toNat_inj, hupper, hones, hall, BitVec.toNat_ofNat, Nat.zero_mod,
    Nat.div_eq_zero_iff]
  have hcast : ((2 ^ m : Nat) : Int) = 2 ^ m := by norm_cast
  rw [← hcast]
  generalize 2 ^ m = k at *
  have hassoc : k * (4 * k) = 4 * (k * k) := by ring
  rw [hassoc] at hint hlt ⊢
  split_ifs at hint <;> omega

theorem toInt_signedProduct (hn : 0 < n) :
    (x.signExtend (n * 2) * y.signExtend (n * 2)).toInt = x.toInt * y.toInt := by
  have hprod : x.signExtend (n * 2) * y.signExtend (n * 2) = BitVec.ofInt (n * 2) (x.toInt * y.toInt) :=
    (BitVec.ofInt_mul ..).symm
  have hpow : (2 : Int) ^ (n * 2 - 1) = 2 * (2 ^ (n - 1) * 2 ^ (n - 1)) := by
    obtain ⟨m, rfl⟩ : ∃ m, n = m + 1 := ⟨n - 1, by omega⟩
    rw [show (m + 1) * 2 - 1 = 1 + (m + m) by omega, Nat.add_sub_cancel]
    ring
  have hpos : (0 : Int) < 2 ^ (n - 1) := by positivity
  have hx := BitVec.le_toInt x
  have hx' := BitVec.toInt_lt (x := x)
  have hy := BitVec.le_toInt y
  have hy' := BitVec.toInt_lt (x := y)
  rw [hprod, BitVec.toInt_ofInt_eq_self (by omega)]
  · rw [hpow]
    nlinarith
  · rw [hpow]
    nlinarith

theorem bvsmulOverflow_exact_iff (hn : 0 < n) :
    (bvsmulOverflow x y = true ↔ ¬ FitsSigned n (x.toInt * y.toInt)) ↔
      ¬ ((x.toInt = 0 ∧ y.toInt < 0) ∨ (x.toInt < 0 ∧ y.toInt = 0)) := by
  rcases upper_eq_iff hn (x.signExtend (n * 2) * y.signExtend (n * 2)) with ⟨hzero, hones⟩
  rw [toInt_signedProduct x y hn] at hzero hones
  have hpos : (0 : Int) < 2 ^ (n - 1) := by positivity
  rw [bvsmulOverflow, decide_eq_true_iff, ne_eq, eq_comm, FitsSigned]
  by_cases hsign : x.toInt < 0 ↔ y.toInt < 0
  · -- the product is not negative
    have hprod : 0 ≤ x.toInt * y.toInt := by
      by_cases hx : x.toInt < 0
      · exact (mul_pos_of_neg_of_neg hx (hsign.mp hx)).le
      · exact mul_nonneg (not_lt.mp hx) (not_lt.mp (hsign.not.mp hx))
    rw [if_pos ((bvSign_eq_iff x y).mpr hsign), hzero]
    omega
  · -- the product is negative, unless one of the operands is zero
    have hprod : x.toInt * y.toInt < 0 ∨ (x.toInt = 0 ∧ y.toInt < 0) ∨ (x.toInt < 0 ∧ y.toInt = 0) := by
      rcases lt_trichotomy x.toInt 0 with hx | hx | hx
      · rcases lt_trichotomy y.toInt 0 with hy | hy | hy
        · exact absurd (iff_of_true hx hy) hsign
        · exact .inr (.inr ⟨hx, hy⟩)
        · exact .inl (mul_neg_of_neg_of_pos hx hy)
      · exact .inr (.inl ⟨hx, by omega⟩)
      · exact .inl (mul_neg_of_pos_of_neg hx (by omega))
    have hzero' : (x.toInt = 0 ∧ y.toInt < 0) ∨ (x.toInt < 0 ∧ y.toInt = 0) → x.toInt * y.toInt = 0 := by
      rintro (h | h)
      · rw [h.1, Int.zero_mul]
      · rw [h.2, Int.mul_zero]
    rw [if_neg (fun h => hsign ((bvSign_eq_iff x y).mp h)), hones]
    omega

end Products

end Core
end Serval
