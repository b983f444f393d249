import Mathlib.Algebra.Group.Int.Defs
import Mathlib.Algebra.GroupWithZero.Nat
import Mathlib.Data.List.GetD
import Mathlib.Logic.Function.Basic
import Mathlib.Tactic.Common

/-!
# Loops — counting loops, and buffers that they write

A buffer is what is at each index, so that a pointer into it is a shift of the index.  The rule for a loop is its
invariant, stated at the value of the counter.
-/

namespace Serval

universe u v

/-! ## Counting loops -/

/-- `for (i = lo; i < hi; i++)`. -/
def forLoop {σ : Type u} (lo hi : Nat) (body : Nat → σ → σ) (s : σ) : σ :=
  (List.range' lo (hi - lo)).foldl (fun s i => body i s) s

section ForLoop

variable {σ : Type u} {lo hi : Nat} {body : Nat → σ → σ} {s : σ}

@[simp] theorem forLoop_self : forLoop lo lo body s = s := by
  simp [forLoop]

theorem forLoop_succ (h : lo ≤ hi) : forLoop lo (hi + 1) body s = body hi (forLoop lo hi body s) := by
  have hlen : hi + 1 - lo = hi - lo + 1 := by omega
  have hlast : lo + (hi - lo) = hi := by omega
  rw [forLoop, hlen, List.range'_concat, List.foldl_append, Nat.one_mul, hlast]
  rfl

/-- What holds before the loop and is kept by each turn holds after it. -/
theorem forLoop_invariant {I : Nat → σ → Prop} (h : lo ≤ hi) (hstart : I lo s)
    (hstep : ∀ i s, lo ≤ i → i < hi → I i s → I (i + 1) (body i s)) : I hi (forLoop lo hi body s) := by
  induction h with
  | refl =>
      rw [forLoop_self]
      exact hstart
  | @step hi hle ih =>
      rw [Nat.succ_eq_add_one, forLoop_succ hle]
      exact hstep hi _ hle (Nat.lt_succ_self hi) (ih (fun i s hlo hlt => hstep i s hlo (Nat.lt_succ_of_lt hlt)))

end ForLoop

/-! ## Buffers -/

/-- What is at each index of a buffer. -/
abbrev Buffer (α : Type v) := Nat → α

namespace Buffer

variable {α : Type v}

/-- The buffer `p + n`. -/
def offset (p : Buffer α) (n : Nat) : Buffer α :=
  fun i => p (n + i)

/-- `p[i] = x`. -/
def store (p : Buffer α) (i : Nat) (x : α) : Buffer α :=
  Function.update p i x

/-- `memcpy(p + start, q, n)`. -/
def copy (p : Buffer α) (start : Nat) (q : Buffer α) (n : Nat) : Buffer α :=
  fun i => if start ≤ i ∧ i < start + n then q (i - start) else p i

/-- Assignments to `p[start]`, `p[start + 1]` and so on. -/
def storeAll (p : Buffer α) (start : Nat) : List α → Buffer α
  | [] => p
  | x :: l => (p.store start x).storeAll (start + 1) l

/-- The first `n` elements. -/
def toList (p : Buffer α) (n : Nat) : List α :=
  (List.range n).map p

section Lemmas

variable {p q : Buffer α} {i j n start : Nat} {x : α}

@[simp] theorem offset_apply : p.offset n i = p (n + i) := rfl

theorem offset_offset (p : Buffer α) (n m : Nat) : (p.offset n).offset m = p.offset (n + m) := by
  funext i
  rw [offset_apply, offset_apply, offset_apply, Nat.add_assoc]

@[simp] theorem store_self : p.store i x i = x :=
  Function.update_self _ _ _

theorem store_of_ne (h : j ≠ i) : p.store i x j = p j :=
  Function.update_of_ne h _ _

theorem copy_of_mem (hlo : start ≤ i) (hhi : i < start + n) : p.copy start q n i = q (i - start) :=
  if_pos ⟨hlo, hhi⟩

theorem copy_of_le (h : start + n ≤ i) : p.copy start q n i = p i :=
  if_neg (by omega)

/-- After a sequence of assignments an index has the element assigned to it, or what it had before. -/
theorem storeAll_apply {l : List α} :
    p.storeAll start l i = if start ≤ i then l.getD (i - start) (p i) else p i := by
  induction l generalizing p start with
  | nil => simp [storeAll]
  | cons y l ih =>
      rw [storeAll, ih]
      rcases Nat.lt_trichotomy i start with hlt | rfl | hgt
      · rw [if_neg (by omega), if_neg (by omega), store_of_ne (by omega)]
      · rw [if_neg (by omega), if_pos (Nat.le_refl _), store_self]
        simp
      · have hsub : i - start = i - (start + 1) + 1 := by omega
        rw [if_pos (by omega), if_pos (by omega), store_of_ne (by omega), hsub, List.getD_cons_succ]

theorem storeAll_of_lt {l : List α} (h : i < start) : p.storeAll start l i = p i := by
  rw [storeAll_apply, if_neg (by omega)]

theorem storeAll_of_le {l : List α} (h : start + l.length ≤ i) : p.storeAll start l i = p i := by
  rw [storeAll_apply, if_pos (by omega), List.getD_eq_default _ _ (by omega)]

theorem storeAll_append (l l' : List α) :
    p.storeAll start (l ++ l') = (p.storeAll start l).storeAll (start + l.length) l' := by
  induction l generalizing p start with
  | nil => rfl
  | cons x l ih =>
      have hindex : start + 1 + l.length = start + (x :: l).length := by
        rw [List.length_cons]
        omega
      rw [List.cons_append, storeAll, ih, hindex]
      rfl

@[simp] theorem length_toList : (p.toList n).length = n := by
  simp [toList]

theorem getElem_toList (h : i < (p.toList n).length) : (p.toList n)[i] = p i := by
  simp [toList]

theorem toList_congr (h : ∀ i < n, p i = q i) : p.toList n = q.toList n := by
  apply List.map_congr_left
  intro i hi
  exact h i (List.mem_range.mp hi)

theorem toList_const (x : α) (n : Nat) : Buffer.toList (fun _ => x) n = List.replicate n x := by
  rw [toList, List.map_const', List.length_range]

theorem toList_one (p : Buffer α) : p.toList 1 = [p 0] := rfl

theorem toList_add (p : Buffer α) (n m : Nat) : p.toList (n + m) = p.toList n ++ (p.offset n).toList m := by
  rw [toList, List.range_add, List.map_append, List.map_map]
  rfl

theorem take_toList (h : i ≤ n) : (p.toList n).take i = p.toList i := by
  have hsplit := toList_add p i (n - i)
  rw [Nat.add_sub_cancel' h] at hsplit
  rw [hsplit, List.take_left' length_toList]

theorem drop_toList (h : i ≤ n) : (p.toList n).drop i = (p.offset i).toList (n - i) := by
  have hsplit := toList_add p i (n - i)
  rw [Nat.add_sub_cancel' h] at hsplit
  rw [hsplit, List.drop_left' length_toList]

/-- What was assigned can be read back. -/
theorem toList_offset_storeAll {l : List α} (h : l.length = n) : ((p.storeAll start l).offset start).toList n = l := by
  apply List.ext_getElem (length_toList.trans h.symm)
  intro i hi hl
  rw [getElem_toList, offset_apply, storeAll_apply, if_pos (Nat.le_add_right start i), Nat.add_sub_cancel_left,
    List.getD_eq_getElem _ _ hl]

/-- A loop that changes one index each turn, by what it has there. -/
theorem forLoop_modify (base : Nat) (f : Nat → α → α) (n : Nat) (p : Buffer α) :
    forLoop 0 n (fun i p => Buffer.store p (base + i) (f i (p (base + i)))) p =
      fun j => if base ≤ j ∧ j < base + n then f (j - base) (p j) else p j := by
  refine forLoop_invariant
    (I := fun i b => b = fun j => if base ≤ j ∧ j < base + i then f (j - base) (p j) else p j) (Nat.zero_le n) ?_ ?_
  · funext j
    rw [if_neg (by omega)]
  · rintro i b _ _ rfl
    funext j
    by_cases hj : j = base + i
    · have hout : ¬ (base ≤ base + i ∧ base + i < base + i) := by omega
      have hin : base ≤ base + i ∧ base + i < base + (i + 1) := by omega
      simp only [hj, store_self, if_neg hout, if_pos hin, Nat.add_sub_cancel_left]
    · rw [store_of_ne hj]
      by_cases hin : base ≤ j ∧ j < base + i
      · rw [if_pos hin, if_pos (by omega)]
      · rw [if_neg hin, if_neg (by omega)]

end Lemmas

end Buffer

end Serval
