import Mathlib.Tactic.Ring
import Mathlib.Tactic.Common

/-!
# DoubleWord — arithmetic on two words from arithmetic on one

A vector of `w + w` bits is a high and a low word of `w` bits.  The lemmas say what an operation on
the whole vector does to the two words, in terms of operations on words alone: a sum needs the
carry, which shows as the low word of the sum being below either summand, a product the high half of
a word product, and a shift moves bits from one word to the other.
-/

namespace Serval
namespace DoubleWord

variable {n : Nat}

variable {w : Nat}

/-- The low word. -/
def lo (v : BitVec (w + w)) : BitVec w :=
  v.setWidth w

/-- The high word. -/
def hi (v : BitVec (w + w)) : BitVec w :=
  v.extractLsb' w w

theorem toNat_lo (v : BitVec (w + w)) : (lo v).toNat = v.toNat % 2 ^ w :=
  BitVec.toNat_setWidth ..

theorem toNat_hi (v : BitVec (w + w)) : (hi v).toNat = v.toNat / 2 ^ w := by
  rw [hi, BitVec.extractLsb'_toNat, Nat.shiftRight_eq_div_pow]
  refine Nat.mod_eq_of_lt (Nat.div_lt_of_lt_mul ?_)
  rw [← Nat.pow_add]
  exact v.isLt

/-- A vector as a number in base `2 ^ w`. -/
theorem toNat_eq (v : BitVec (w + w)) : v.toNat = 2 ^ w * (hi v).toNat + (lo v).toNat := by
  rw [toNat_hi, toNat_lo, Nat.div_add_mod]

theorem getLsbD_lo (v : BitVec (w + w)) (i : Nat) : (lo v).getLsbD i = (decide (i < w) && v.getLsbD i) := by
  simp [lo]

theorem getLsbD_hi (v : BitVec (w + w)) (i : Nat) : (hi v).getLsbD i = (decide (i < w) && v.getLsbD (w + i)) := by
  simp [hi]

@[simp] theorem getElem_lo (v : BitVec (w + w)) {i : Nat} (h : i < w) : (lo v)[i] = v.getLsbD i := by
  rw [BitVec.getElem_eq_testBit_toNat, ← BitVec.getLsbD, getLsbD_lo]
  simp [h]

@[simp] theorem getElem_hi (v : BitVec (w + w)) {i : Nat} (h : i < w) : (hi v)[i] = v.getLsbD (w + i) := by
  rw [BitVec.getElem_eq_testBit_toNat, ← BitVec.getLsbD, getLsbD_hi]
  simp [h]

@[simp] theorem hi_append_lo (v : BitVec (w + w)) : hi v ++ lo v = v := by
  apply BitVec.eq_of_getLsbD_eq
  intro i hi'
  rw [BitVec.getLsbD_append]
  by_cases h : i < w
  · simp [h]
  · have hback : w + (i - w) = i := by omega
    have hlt : i - w < w := by omega
    simp [h, hback, hlt]

@[simp] theorem hi_append (h l : BitVec w) : hi (h ++ l) = h := by
  apply BitVec.eq_of_getLsbD_eq
  intro i hi'
  rw [getLsbD_hi, BitVec.getLsbD_append]
  simp [hi']

@[simp] theorem lo_append (h l : BitVec w) : lo (h ++ l) = l := by
  apply BitVec.eq_of_getLsbD_eq
  intro i hi'
  rw [getLsbD_lo, BitVec.getLsbD_append]
  simp [hi']

/-! ## Sums, differences and products -/

theorem lo_add (a b : BitVec (w + w)) : lo (a + b) = lo a + lo b :=
  BitVec.setWidth_add a b (Nat.le_add_right w w)

theorem lo_mul (a b : BitVec (w + w)) : lo (a * b) = lo a * lo b :=
  BitVec.setWidth_mul a b (Nat.le_add_right w w)

theorem lo_sub (a b : BitVec (w + w)) : lo (a - b) = lo a - lo b := by
  have h := lo_add (a - b) b
  rw [BitVec.sub_add_cancel] at h
  rw [h, BitVec.add_sub_cancel]

/-- The carry out of a word sum. -/
theorem carry_eq (x y : BitVec w) : (x.toNat + y.toNat) / 2 ^ w = (if x + y < x then 1#w else 0#w).toNat := by
  have hx := x.isLt
  have hy := y.isLt
  have hsum : (x + y).toNat = (x.toNat + y.toNat) % 2 ^ w := BitVec.toNat_add x y
  by_cases hover : x.toNat + y.toNat < 2 ^ w
  · have hnot : ¬ x + y < x := by
      rw [BitVec.lt_def, hsum, Nat.mod_eq_of_lt hover]
      omega
    rw [if_neg hnot, Nat.div_eq_of_lt hover]
    simp
  · have hmod : (x.toNat + y.toNat) % 2 ^ w = x.toNat + y.toNat - 2 ^ w := by
      rw [Nat.mod_eq_sub_mod (by omega), Nat.mod_eq_of_lt (by omega)]
    have hlt : x + y < x := by
      rw [BitVec.lt_def, hsum, hmod]
      omega
    have hdiv : (x.toNat + y.toNat) / 2 ^ w = 1 :=
      Nat.div_eq_of_lt_le (by omega) (by omega)
    rw [if_pos hlt, hdiv, BitVec.toNat_ofNat, Nat.mod_eq_of_lt]
    omega

/-- The high word of a vector whose value is known modulo `2 ^ (w + w)`. -/
theorem toNat_hi_of_mod {v : BitVec (w + w)} (h : v.toNat = n % 2 ^ (w + w)) : (hi v).toNat = n / 2 ^ w % 2 ^ w := by
  rw [toNat_hi, h, Nat.pow_add, Nat.mod_mul_right_div_self]

theorem hi_add (a b : BitVec (w + w)) : hi (a + b) = hi a + hi b + if lo a + lo b < lo a then 1#w else 0#w := by
  apply BitVec.eq_of_toNat_eq
  have hsplit : a.toNat + b.toNat =
      (lo a).toNat + (lo b).toNat + 2 ^ w * ((hi a).toNat + (hi b).toNat) := by
    rw [toNat_eq a, toNat_eq b]
    ring
  rw [toNat_hi_of_mod (BitVec.toNat_add a b), hsplit,
    Nat.add_mul_div_left _ _ (Nat.two_pow_pos w), carry_eq, BitVec.toNat_add, BitVec.toNat_add,
    Nat.mod_add_mod, Nat.add_comm]

theorem hi_sub (a b : BitVec (w + w)) : hi (a - b) = hi a - hi b - if lo a < lo a - lo b then 1#w else 0#w := by
  have h := hi_add (a - b) b
  rw [BitVec.sub_add_cancel, lo_sub, BitVec.sub_add_cancel] at h
  rw [h, BitVec.sub_sub, BitVec.add_assoc, BitVec.add_sub_cancel]

theorem lo_neg (a : BitVec (w + w)) : lo (-a) = 0#w - lo a := by
  have h := lo_sub 0#(w + w) a
  have hlo : lo 0#(w + w) = 0#w := by simp [lo]
  rwa [hlo, BitVec.zero_sub] at h

theorem hi_neg (a : BitVec (w + w)) : hi (-a) = 0#w - hi a - if 0#w < 0#w - lo a then 1#w else 0#w := by
  have h := hi_sub 0#(w + w) a
  have hlo : lo 0#(w + w) = 0#w := by simp [lo]
  have hhi : hi 0#(w + w) = 0#w := by simp [hi]
  rwa [hlo, hhi, BitVec.zero_sub] at h

/-- The high word of the product of two words. -/
def mulHigh (x y : BitVec w) : BitVec w :=
  (x.setWidth (2 * w) * y.setWidth (2 * w)).extractLsb' w w

theorem toNat_mulHigh (x y : BitVec w) : (mulHigh x y).toNat = x.toNat * y.toNat / 2 ^ w % 2 ^ w := by
  have hwide : 2 ^ w ≤ 2 ^ (2 * w) := Nat.pow_le_pow_right (by decide) (by omega)
  have hx : x.toNat < 2 ^ (2 * w) := Nat.lt_of_lt_of_le x.isLt hwide
  have hy : y.toNat < 2 ^ (2 * w) := Nat.lt_of_lt_of_le y.isLt hwide
  rw [mulHigh, BitVec.extractLsb'_toNat, BitVec.toNat_mul, BitVec.toNat_setWidth,
    BitVec.toNat_setWidth, Nat.mod_eq_of_lt hx, Nat.mod_eq_of_lt hy, Nat.shiftRight_eq_div_pow,
    Nat.two_mul, Nat.pow_add, Nat.mod_mul_right_div_self, Nat.mod_mod]

theorem hi_mul (a b : BitVec (w + w)) : hi (a * b) = hi a * lo b + hi b * lo a + mulHigh (lo a) (lo b) := by
  apply BitVec.eq_of_toNat_eq
  have hsplit : a.toNat * b.toNat = (lo a).toNat * (lo b).toNat +
      2 ^ w * ((hi a).toNat * (lo b).toNat + (hi b).toNat * (lo a).toNat +
        2 ^ w * ((hi a).toNat * (hi b).toNat)) := by
    rw [toNat_eq a, toNat_eq b]
    ring
  rw [toNat_hi_of_mod (BitVec.toNat_mul a b), hsplit,
    Nat.add_mul_div_left _ _ (Nat.two_pow_pos w), ← Nat.add_assoc, Nat.add_mul_mod_self_left]
  simp only [BitVec.toNat_add, BitVec.toNat_mul, toNat_mulHigh, Nat.mod_add_mod, Nat.add_mod_mod]
  rw [Nat.add_comm]

/-! ## Bitwise operations -/

theorem lo_and (a b : BitVec (w + w)) : lo (a &&& b) = lo a &&& lo b :=
  BitVec.setWidth_and

theorem lo_or (a b : BitVec (w + w)) : lo (a ||| b) = lo a ||| lo b :=
  BitVec.setWidth_or

theorem lo_xor (a b : BitVec (w + w)) : lo (a ^^^ b) = lo a ^^^ lo b :=
  BitVec.setWidth_xor

theorem hi_and (a b : BitVec (w + w)) : hi (a &&& b) = hi a &&& hi b :=
  BitVec.extractLsb'_and

theorem hi_or (a b : BitVec (w + w)) : hi (a ||| b) = hi a ||| hi b :=
  BitVec.extractLsb'_or

theorem hi_xor (a b : BitVec (w + w)) : hi (a ^^^ b) = hi a ^^^ hi b :=
  BitVec.extractLsb'_xor

/-! ## Shifts -/

theorem lo_shiftLeft_of_lt (v : BitVec (w + w)) (hn : n < w) : lo (v <<< n) = lo v <<< n := by
  apply BitVec.eq_of_getLsbD_eq
  intro i hi'
  have hwide : i < w + w := by omega
  have hback : i - n < w := by omega
  simp only [getLsbD_lo, BitVec.getLsbD_shiftLeft, hi', hwide, hback, decide_true, Bool.true_and]

theorem hi_shiftLeft_of_lt (v : BitVec (w + w)) (hn : n < w) : hi (v <<< n) = lo v >>> (w - n) ||| hi v <<< n := by
  apply BitVec.eq_of_getLsbD_eq
  intro i hi'
  have hwide : w + i < w + w := by omega
  have hnot : ¬ w + i < n := by omega
  simp only [getLsbD_lo, getLsbD_hi, BitVec.getLsbD_or, BitVec.getLsbD_shiftLeft,
    BitVec.getLsbD_ushiftRight, hi', hwide, hnot, decide_true, decide_false, Bool.true_and,
    Bool.not_false]
  -- below `n` the bit comes from the low word, from `n` on from the high one
  by_cases hin : i < n
  · have hlow : w - n + i < w := by omega
    have hindex : w + i - n = w - n + i := by omega
    simp [hin, hlow, hindex]
  · have hlow : ¬ w - n + i < w := by omega
    have hhigh : i - n < w := by omega
    have hindex : w + i - n = w + (i - n) := by omega
    simp [hin, hlow, hhigh, hindex]

theorem lo_shiftLeft_of_le (v : BitVec (w + w)) (hn : w ≤ n) : lo (v <<< n) = 0#w := by
  apply BitVec.eq_of_getLsbD_eq
  intro i hi'
  have hin : i < n := by omega
  simp only [getLsbD_lo, BitVec.getLsbD_shiftLeft, hin, decide_true, Bool.not_true, Bool.and_false,
    Bool.false_and, BitVec.getLsbD_zero]

theorem hi_shiftLeft_of_le (v : BitVec (w + w)) (hn : w ≤ n) : hi (v <<< n) = lo v <<< (n - w) := by
  apply BitVec.eq_of_getLsbD_eq
  intro i hi'
  have hwide : w + i < w + w := by omega
  simp only [getLsbD_lo, getLsbD_hi, BitVec.getLsbD_shiftLeft, hi', hwide, decide_true,
    Bool.true_and]
  by_cases hin : w + i < n
  · have hin' : i < n - w := by omega
    simp [hin, hin']
  · have hin' : ¬ i < n - w := by omega
    have hlow : i - (n - w) < w := by omega
    have hindex : w + i - n = i - (n - w) := by omega
    simp [hin, hin', hlow, hindex]

theorem lo_ushiftRight_of_lt (v : BitVec (w + w)) (hn : n < w) : lo (v >>> n) = hi v <<< (w - n) ||| lo v >>> n := by
  apply BitVec.eq_of_getLsbD_eq
  intro i hi'
  simp only [getLsbD_lo, getLsbD_hi, BitVec.getLsbD_or, BitVec.getLsbD_shiftLeft,
    BitVec.getLsbD_ushiftRight, hi', decide_true, Bool.true_and]
  by_cases hin : n + i < w
  · have hlow : i < w - n := by omega
    simp [hin, hlow]
  · have hlow : ¬ i < w - n := by omega
    have hhigh : i - (w - n) < w := by omega
    have hindex : n + i = w + (i - (w - n)) := by omega
    simp only [hin, hlow, hhigh, decide_true, decide_false, Bool.true_and, Bool.false_and,
      Bool.or_false, Bool.not_false]
    rw [hindex]

theorem hi_ushiftRight (v : BitVec (w + w)) (n : Nat) : hi (v >>> n) = hi v >>> n := by
  apply BitVec.eq_of_getLsbD_eq
  intro i hi'
  simp only [getLsbD_hi, BitVec.getLsbD_ushiftRight, hi', decide_true, Bool.true_and]
  have hindex : n + (w + i) = w + (n + i) := by omega
  rw [hindex]
  by_cases hin : n + i < w
  · simp [hin]
  · simp [hin, BitVec.getLsbD_of_ge v (w + (n + i)) (by omega)]

theorem lo_ushiftRight_of_le (v : BitVec (w + w)) (hn : w ≤ n) : lo (v >>> n) = hi v >>> (n - w) := by
  apply BitVec.eq_of_getLsbD_eq
  intro i hi'
  have hindex : w + (n - w + i) = n + i := by omega
  simp only [getLsbD_lo, getLsbD_hi, BitVec.getLsbD_ushiftRight, hi', decide_true, Bool.true_and,
    hindex]
  by_cases hin : n - w + i < w
  · simp [hin]
  · simp [hin, BitVec.getLsbD_of_ge v (n + i) (by omega)]

theorem hi_ushiftRight_of_le (v : BitVec (w + w)) (hn : w ≤ n) : hi (v >>> n) = 0#w := by
  rw [hi_ushiftRight, BitVec.ushiftRight_eq_zero hn]

theorem msb_hi (v : BitVec (w + w)) : (hi v).msb = v.msb := by
  cases w with
  | zero => simp [BitVec.msb_eq_getLsbD_last]
  | succ w =>
      have hindex : w + 1 + (w + 1 - 1) = w + 1 + (w + 1) - 1 := by omega
      rw [BitVec.msb_eq_getLsbD_last, BitVec.msb_eq_getLsbD_last, getLsbD_hi, hindex]
      simp

theorem lo_sshiftRight_of_lt (v : BitVec (w + w)) (hn : n < w) :
    lo (v.sshiftRight n) = hi v <<< (w - n) ||| lo v >>> n := by
  rw [← lo_ushiftRight_of_lt v hn]
  apply BitVec.eq_of_getLsbD_eq
  intro i hi'
  have hwide : n + i < w + w := by omega
  have hnot : ¬ w + w ≤ i := by omega
  simp only [getLsbD_lo, BitVec.getLsbD_sshiftRight, BitVec.getLsbD_ushiftRight, hi', hwide, hnot,
    decide_true, decide_false, Bool.true_and, Bool.not_false, if_true]

theorem hi_sshiftRight (v : BitVec (w + w)) (n : Nat) : hi (v.sshiftRight n) = (hi v).sshiftRight n := by
  apply BitVec.eq_of_getLsbD_eq
  intro i hi'
  have hwide : ¬ w + w ≤ w + i := by omega
  have hnot : ¬ w ≤ i := by omega
  simp only [getLsbD_hi, BitVec.getLsbD_sshiftRight, hi', hwide, hnot, decide_true, decide_false,
    Bool.true_and, Bool.not_false, msb_hi]
  have hindex : n + (w + i) = w + (n + i) := by omega
  rw [hindex]
  by_cases hin : n + i < w
  · simp [hin]
  · simp [hin]

theorem lo_sshiftRight_of_le (v : BitVec (w + w)) (hn : w ≤ n) :
    lo (v.sshiftRight n) = (hi v).sshiftRight (n - w) := by
  apply BitVec.eq_of_getLsbD_eq
  intro i hi'
  have hwide : ¬ w + w ≤ i := by omega
  have hnot : ¬ w ≤ i := by omega
  have hindex : w + (n - w + i) = n + i := by omega
  simp only [getLsbD_lo, getLsbD_hi, BitVec.getLsbD_sshiftRight, hi', hwide, hnot, decide_true,
    decide_false, Bool.true_and, Bool.not_false, msb_hi, hindex]
  by_cases hin : n - w + i < w
  · have hin' : n + i < w + w := by omega
    simp [hin, hin']
  · have hin' : ¬ n + i < w + w := by omega
    simp [hin, hin']

/-- Once all bits of the high word are out, only its sign is left. -/
theorem hi_sshiftRight_of_le (v : BitVec (w + w)) (hn : w ≤ n) :
    hi (v.sshiftRight n) = (hi v).sshiftRight (w - 1) := by
  rw [hi_sshiftRight]
  apply BitVec.eq_of_getLsbD_eq
  intro i hi'
  have hnot : ¬ w ≤ i := by omega
  have hout : ¬ n + i < w := by omega
  simp only [BitVec.getLsbD_sshiftRight, hnot, hout, decide_false, Bool.true_and, Bool.not_false,
    if_false]
  by_cases hin : w - 1 + i < w
  · have hzero : i = 0 := by omega
    simp [hzero, BitVec.msb_eq_getLsbD_last]
  · simp [hin]

/-! ## Extensions of a word -/

@[simp] theorem lo_zeroExtend (x : BitVec w) : lo (x.setWidth (w + w)) = x := by
  simp [lo]

@[simp] theorem hi_zeroExtend (x : BitVec w) : hi (x.setWidth (w + w)) = 0#w := by
  apply BitVec.eq_of_getLsbD_eq
  intro i hi'
  simp [getLsbD_hi]

@[simp] theorem lo_signExtend (x : BitVec w) : lo (x.signExtend (w + w)) = x := by
  apply BitVec.eq_of_getLsbD_eq
  intro i hi'
  have hwide : i < w + w := by omega
  simp only [getLsbD_lo, BitVec.getLsbD_signExtend, hi', hwide, decide_true, Bool.true_and, if_true]

theorem hi_signExtend (x : BitVec w) : hi (x.signExtend (w + w)) = if x.msb then BitVec.allOnes w else 0#w := by
  apply BitVec.eq_of_getLsbD_eq
  intro i hi'
  have hwide : w + i < w + w := by omega
  have hnot : ¬ w + i < w := by omega
  simp only [getLsbD_hi, BitVec.getLsbD_signExtend, hi', hwide, hnot, decide_true, Bool.true_and,
    if_false]
  cases x.msb with
  | true => simp [hi']
  | false => simp

end DoubleWord
end Serval
