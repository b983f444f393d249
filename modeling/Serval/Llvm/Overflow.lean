import Serval.Core.Overflow
import Serval.X32.Interp

/-!
# Overflow — where overflow is reported

The builtins `llvm.*.with.overflow` of `serval/llvm.rkt` pair a result with an overflow predicate of `core.rkt`, and the
carry and overflow flags of x86-32 are set to the same predicates.
-/

namespace Serval
namespace Llvm

open Serval.Core

/-- `bool->bitvector`. -/
def boolToBitvector (x : Bool) : BitVec 1 :=
  if x then 1 else 0

section Builtins

variable {n : Nat} (x y : BitVec n)

/-- `llvm.sadd.with.overflow`, and the other builtins under their names. -/
def saddWithOverflow : BitVec n × BitVec 1 := (x + y, boolToBitvector (bvsaddOverflow x y false))

def uaddWithOverflow : BitVec n × BitVec 1 := (x + y, boolToBitvector (bvuaddOverflow x y false))

def ssubWithOverflow : BitVec n × BitVec 1 := (x - y, boolToBitvector (bvssubOverflow x y false))

def usubWithOverflow : BitVec n × BitVec 1 := (x - y, boolToBitvector (bvusubOverflow x y false))

def smulWithOverflow : BitVec n × BitVec 1 := (x * y, boolToBitvector (bvsmulOverflow x y))

def umulWithOverflow : BitVec n × BitVec 1 := (x * y, boolToBitvector (bvumulOverflow x y))

/-- The predicates and the builtins report overflow exactly. -/
structure ReportsOverflow (c : Bool) : Prop where
  sadd : bvsaddOverflow x y c = true ↔ ¬ FitsSigned n (x.toInt + y.toInt + c.toInt)
  uadd : bvuaddOverflow x y c = true ↔ ¬ FitsUnsigned n (x.toNat + y.toNat + c.toNat)
  ssub : bvssubOverflow x y c = true ↔ ¬ FitsSigned n (x.toInt - y.toInt - c.toInt)
  usub : bvusubOverflow x y c = true ↔ ¬ FitsUnsigned n (x.toNat - y.toNat - c.toNat)
  smul : bvsmulOverflow x y = true ↔ ¬ FitsSigned n (x.toInt * y.toInt)
  umul : bvumulOverflow x y = true ↔ ¬ FitsUnsigned n (x.toNat * y.toNat)
  saddWith : (saddWithOverflow x y).2 = 1 ↔ ¬ FitsSigned n (x.toInt + y.toInt)
  uaddWith : (uaddWithOverflow x y).2 = 1 ↔ ¬ FitsUnsigned n (x.toNat + y.toNat)
  ssubWith : (ssubWithOverflow x y).2 = 1 ↔ ¬ FitsSigned n (x.toInt - y.toInt)
  usubWith : (usubWithOverflow x y).2 = 1 ↔ ¬ FitsUnsigned n (x.toNat - y.toNat)
  smulWith : (smulWithOverflow x y).2 = 1 ↔ ¬ FitsSigned n (x.toInt * y.toInt)
  umulWith : (umulWithOverflow x y).2 = 1 ↔ ¬ FitsUnsigned n (x.toNat * y.toNat)

theorem boolToBitvector_eq_one (b : Bool) : boolToBitvector b = 1 ↔ b = true := by
  cases b <;> decide

/-- Everything but the signed product is exact. -/
theorem reportsOverflow_iff_smul (hn : 0 < n) (c : Bool) :
    ReportsOverflow x y c ↔ (bvsmulOverflow x y = true ↔ ¬ FitsSigned n (x.toInt * y.toInt)) := by
  refine ⟨fun h => h.smul, fun hsmul => ?_⟩
  have hsadd := bvsaddOverflow_exact x y false hn
  have huadd := bvuaddOverflow_exact x y false
  have hssub := bvssubOverflow_exact x y false hn
  have husub := bvusubOverflow_exact x y false
  simp only [Bool.toInt_false, Bool.toNat_false, Nat.cast_zero, Int.add_zero, Int.sub_zero] at hsadd huadd hssub husub
  exact
    { sadd := bvsaddOverflow_exact x y c hn
      uadd := bvuaddOverflow_exact x y c
      ssub := bvssubOverflow_exact x y c hn
      usub := bvusubOverflow_exact x y c
      smul := hsmul
      umul := bvumulOverflow_exact x y
      saddWith := (boolToBitvector_eq_one _).trans hsadd
      uaddWith := (boolToBitvector_eq_one _).trans huadd
      ssubWith := (boolToBitvector_eq_one _).trans hssub
      usubWith := (boolToBitvector_eq_one _).trans husub
      smulWith := (boolToBitvector_eq_one _).trans hsmul
      umulWith := (boolToBitvector_eq_one _).trans (bvumulOverflow_exact x y) }

end Builtins

/-! ## Flags -/

/-- The flags after `adc` and `sbb` report overflow exactly. -/
structure ReportsFlags (cpu : X32.Cpu) (dst : X32.Gpr) (v : BitVec 32) : Prop where
  adcCF : (cpu.interpretAdc dst v).flagRef .CF = true ↔
    ¬ FitsUnsigned 32 ((cpu.gprRef dst).toNat + v.toNat + (cpu.flagRef .CF).toNat)
  adcOF : (cpu.interpretAdc dst v).flagRef .OF = true ↔
    ¬ FitsSigned 32 ((cpu.gprRef dst).toInt + v.toInt + (cpu.flagRef .CF).toInt)
  sbbCF : (cpu.interpretSbb dst v).flagRef .CF = true ↔
    ¬ FitsUnsigned 32 ((cpu.gprRef dst).toNat - v.toNat - (cpu.flagRef .CF).toNat)
  sbbOF : (cpu.interpretSbb dst v).flagRef .OF = true ↔
    ¬ FitsSigned 32 ((cpu.gprRef dst).toInt - v.toInt - (cpu.flagRef .CF).toInt)

theorem reportsFlags (cpu : X32.Cpu) (dst : X32.Gpr) (v : BitVec 32) : ReportsFlags cpu dst v := by
  have hadcCF : (cpu.interpretAdc dst v).flagRef .CF = bvuaddOverflow (cpu.gprRef dst) v (cpu.flagRef .CF) := by
    simp [X32.Cpu.interpretAdc, X32.Cpu.flagRef]
  have hadcOF : (cpu.interpretAdc dst v).flagRef .OF = bvsaddOverflow (cpu.gprRef dst) v (cpu.flagRef .CF) := by
    simp [X32.Cpu.interpretAdc, X32.Cpu.flagRef]
  have hsbbCF : (cpu.interpretSbb dst v).flagRef .CF = bvusubOverflow (cpu.gprRef dst) v (cpu.flagRef .CF) := by
    simp [X32.Cpu.interpretSbb, X32.Cpu.flagRef]
  have hsbbOF : (cpu.interpretSbb dst v).flagRef .OF = bvssubOverflow (cpu.gprRef dst) v (cpu.flagRef .CF) := by
    simp [X32.Cpu.interpretSbb, X32.Cpu.flagRef]
  refine ⟨?_, ?_, ?_, ?_⟩
  · rw [hadcCF, bvuaddOverflow_exact]
  · rw [hadcOF, bvsaddOverflow_exact _ _ _ (by decide)]
  · rw [hsbbCF, bvusubOverflow_exact]
  · rw [hsbbOF, bvssubOverflow_exact _ _ _ (by decide)]

/-- Overflow is reported exactly, except for a signed product of zero and a negative number. -/
theorem reportsOverflow_iff {n : Nat} (hn : 0 < n) (x y : BitVec n) (c : Bool) :
    (ReportsOverflow x y c ↔ ¬ ((x = 0#n ∧ y.toInt < 0) ∨ (x.toInt < 0 ∧ y = 0#n))) ∧
      ∀ (cpu : X32.Cpu) (dst : X32.Gpr) (v : BitVec 32), ReportsFlags cpu dst v := by
  have hzero : ∀ z : BitVec n, z = 0#n ↔ z.toInt = 0 := by
    intro z
    rw [← BitVec.toInt_inj, BitVec.toInt_zero]
  refine ⟨?_, reportsFlags⟩
  rw [reportsOverflow_iff_smul x y hn c, bvsmulOverflow_exact_iff x y hn, hzero, hzero]

theorem reportsOverflow_iff_seven : 0 < 8 ∧ ReportsOverflow 7#8 (-3#8) true :=
  ⟨by decide, (reportsOverflow_iff (by decide) 7#8 (-3#8) true).1.mpr (by decide)⟩

/-- Zero times minus one is zero, and is reported as an overflow. -/
theorem smul_of_zero_overflows :
    (smulWithOverflow 0#32 (-1#32)) = (0#32, 1#1) ∧ FitsSigned 32 ((0#32).toInt * (-1#32).toInt) := by
  refine ⟨by decide, ?_⟩
  rw [BitVec.toInt_zero, Int.zero_mul, FitsSigned]
  decide

end Llvm
end Serval
