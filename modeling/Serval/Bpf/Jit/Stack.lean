import Serval.Core.Memory
import Serval.Lib.DoubleWord
import Mathlib.Logic.Function.Basic

/-!
# Stack — the memory that compiled code for 32-bit processors uses

The checkers for 32-bit processors keep BPF registers in an array of cells of four bytes.  An aligned
access within bounds reaches the cell with the index of the word, and two words make a register.
-/

namespace Serval
namespace Bpf
namespace Jit

open Serval.Core DoubleWord

/-- The cells of the stack, for contents by index. -/
def stackCell (f : BitVec 32 → BitVec 32) : Cell 32 where
  size := 4
  func
    | [i] => ⟨32, f i⟩
    | _ => ⟨32, 0⟩
  free := false

/-- `(marray n (mcell 4))`. -/
def stackBlock (n : Nat) (f : BitVec 32 → BitVec 32) : MBlock 32 :=
  .marray n (.mcell (stackCell f))

section Accesses

variable {n : Nat} {f : BitVec 32 → BitVec 32} {offset : BitVec 32}

theorem stackBlock_path (hin : MBlock.inbounds (n * 4) offset 4#32) (haligned : offset % 4#32 = 0#32) :
    (stackBlock n f).path offset 4#32 =
      .ok ⟨[.index (offset.smtUDiv 4#32)], some (0#32, 4#32)⟩ := by
  have hcell : (MBlock.mcell (stackCell f)).path (offset % 4#32) 4#32 =
      .ok ⟨[], some (0#32, 4#32)⟩ := by
    rw [haligned]
    have hmultiple : 4#32 % 4#32 = 0#32 := by decide
    have hzero : 0#32 % 4#32 = 0#32 := by decide
    have hlt : 0#32 < 4#32 := by decide
    exact MBlock.path_mcell hmultiple hzero hlt
  exact MBlock.path_marray hin hcell

theorem stackBlock_iload (i : BitVec 32) (last : Option (BitVec 32 × BitVec 32)) :
    (stackBlock n f).iload ⟨[.index i], last⟩ = .ok ⟨32, f i⟩ := by
  cases last <;> rfl

theorem stackCell_store (f : BitVec 32 → BitVec 32) (i v : BitVec 32) :
    (stackCell f).store ⟨32, v⟩ [i] = .ok (stackCell (Function.update f i v)) := by
  have hfunc : (fun args => if args = [i] then (⟨32, v⟩ : Bv) else (stackCell f).func args) =
      (stackCell (Function.update f i v)).func := by
    funext args
    match args with
    | [] => rfl
    | [j] =>
        by_cases hj : j = i
        · simp [stackCell, hj]
        · simp [stackCell, hj]
    | _ :: _ :: _ => simp [stackCell]
  rw [Cell.store_of_live rfl, hfunc]
  rfl

theorem stackBlock_istore (i v : BitVec 32) (last : Option (BitVec 32 × BitVec 32)) :
    (stackBlock n f).istore ⟨32, v⟩ ⟨[.index i], last⟩ =
      .ok (stackBlock n (Function.update f i v)) := by
  simp only [MBlock.istore, stackBlock, MBlock.storeAt, stackCell_store f i v, ok_bind, pure,
    Except.pure]

end Accesses

/-- `concat`. -/
def concat (hi lo : Bv) : Bv :=
  ⟨hi.width + lo.width, hi.val ++ lo.val⟩

theorem append_eq_iff (h l : BitVec 32) (v : BitVec 64) :
    concat ⟨32, h⟩ ⟨32, l⟩ = ⟨64, v⟩ ↔ h = hi (w := 32) v ∧ l = lo (w := 32) v := by
  have hbv : concat ⟨32, h⟩ ⟨32, l⟩ = ⟨64, v⟩ ↔ h ++ l = v :=
    ⟨fun heq => eq_of_heq (Bv.mk.inj heq).2, fun heq => by rw [← heq]; rfl⟩
  rw [hbv]
  constructor
  · intro heq
    exact ⟨by rw [← heq, hi_append], by rw [← heq, lo_append]⟩
  · rintro ⟨rfl, rfl⟩
    exact hi_append_lo (w := 32) v

end Jit
end Bpf
end Serval
