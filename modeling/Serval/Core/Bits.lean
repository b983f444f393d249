import Mathlib.Algebra.Group.Nat.Defs
import Mathlib.Algebra.Group.Int.Defs
import Mathlib.Tactic.Common

/-!
# Bits — the overflow predicates of `serval/lib/core.rkt`

The predicates follow the source bit by bit: signed overflow is told from the signs, unsigned overflow
of a sum from the extra bit of a wider sum, and overflow of a product from its upper half.
-/

namespace Serval
namespace Core

variable {n : Nat}

/-- `bv-sign`. -/
def bvSign (x : BitVec n) : BitVec 1 :=
  x.extractLsb' (n - 1) 1

/-- `bvsadd-overflow?`. -/
def bvsaddOverflow (x y : BitVec n) (carry : Bool) : Bool :=
  let result := x + y + if carry then 1#n else 0#n
  bvSign x = bvSign y && bvSign x ≠ bvSign result

/-- `bvuadd-overflow?`. -/
def bvuaddOverflow (x y : BitVec n) (carry : Bool) : Bool :=
  1#1 = bvSign (x.setWidth (n + 1) + y.setWidth (n + 1) + if carry then 1#(n + 1) else 0#(n + 1))

/-- `bvssub-overflow?`. -/
def bvssubOverflow (x y : BitVec n) (borrow : Bool) : Bool :=
  let result := x - y - if borrow then 1#n else 0#n
  bvSign x ≠ bvSign y && bvSign x ≠ bvSign result

/-- `bvusub-overflow?`. -/
def bvusubOverflow (x y : BitVec n) (borrow : Bool) : Bool :=
  if borrow then x ≤ y else x < y

/-- `bvsmul-overflow?`. -/
def bvsmulOverflow (x y : BitVec n) : Bool :=
  (if bvSign x = bvSign y then 0#(n + 1) else -1) ≠
    (x.signExtend (n * 2) * y.signExtend (n * 2)).extractLsb' (n - 1) (n + 1)

/-- `bvumul-overflow?`. -/
def bvumulOverflow (x y : BitVec n) : Bool :=
  (x.setWidth (n * 2) * y.setWidth (n * 2)).extractLsb' n n ≠ 0#n

/-- A carry as a number. -/
theorem toNat_carry (carry : Bool) :
    (if carry then 1#(n + 1) else 0#(n + 1)).toNat = carry.toNat := by
  cases carry with
  | true => simp
  | false => rfl

/-- The wider sum does not wrap. -/
theorem toNat_wideSum (x y : BitVec n) (carry : Bool) :
    (x.setWidth (n + 1) + y.setWidth (n + 1) + if carry then 1#(n + 1) else 0#(n + 1)).toNat =
      x.toNat + y.toNat + carry.toNat := by
  have hx := x.isLt
  have hy := y.isLt
  have hcarry : carry.toNat ≤ 1 := Bool.toNat_le carry
  have hpow : 2 ^ (n + 1) = 2 ^ n + 2 ^ n := by rw [Nat.pow_succ, Nat.mul_two]
  have hx' : (x.setWidth (n + 1)).toNat = x.toNat := by
    rw [BitVec.toNat_setWidth, Nat.mod_eq_of_lt (by omega)]
  have hy' : (y.setWidth (n + 1)).toNat = y.toNat := by
    rw [BitVec.toNat_setWidth, Nat.mod_eq_of_lt (by omega)]
  rw [BitVec.toNat_add, BitVec.toNat_add, toNat_carry, hx', hy', Nat.mod_add_mod]
  exact Nat.mod_eq_of_lt (by omega)

/-- The extra bit of the wider sum is the carry out of the sum. -/
theorem bvuaddOverflow_iff (x y : BitVec n) (carry : Bool) :
    bvuaddOverflow x y carry = true ↔ 2 ^ n ≤ x.toNat + y.toNat + carry.toNat := by
  have hlt := (x.setWidth (n + 1) + y.setWidth (n + 1) +
    if carry then 1#(n + 1) else 0#(n + 1)).isLt
  rw [toNat_wideSum, Nat.pow_succ] at hlt
  rw [bvuaddOverflow, decide_eq_true_iff, bvSign, ← BitVec.toNat_inj, BitVec.extractLsb'_toNat,
    toNat_wideSum, Nat.add_sub_cancel, Nat.shiftRight_eq_div_pow]
  generalize x.toNat + y.toNat + carry.toNat = s at hlt ⊢
  rw [Nat.pow_one, Nat.mod_eq_of_lt (Nat.div_lt_of_lt_mul hlt)]
  by_cases h : 2 ^ n ≤ s
  · have hdiv : s / 2 ^ n = 1 := Nat.div_eq_of_lt_le (by omega) (by omega)
    simp [hdiv, h]
  · simp [Nat.div_eq_of_lt (Nat.lt_of_not_le h), h]

end Core
end Serval
