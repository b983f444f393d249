import Mathlib.Data.List.Rotate
import Mathlib.Logic.Function.Iterate

/-!
# RoundRobin — one cycle of a successor function

`RoundRobin f l` says that `l` lists one cycle of `f`: `f` sends every entry to the one after it and
the last entry to the first.  In one equation, mapping `f` over `l` rotates it.

Starting at the head of `l`, iterating `f` visits the entries in order, so every window of
`l.length` consecutive iterates meets each of them exactly once.  Inserting a new element behind the
head keeps the cycle, with two entries of `f` changed.
-/

namespace Serval

universe u

structure RoundRobin {α : Type u} (f : α → α) (l : List α) : Prop where
  nodup : l.Nodup
  step : l.map f = l.rotate 1

/-! ## Windows of residues -/

theorem eq_of_mod_eq_of_window {n w j k : Nat} (hj : w ≤ j ∧ j < w + n) (hk : w ≤ k ∧ k < w + n)
    (hmod : j % n = k % n) : j = k := by
  rcases Nat.le_total j k with hle | hle
  · have hzero : (k - j) % n = 0 := Nat.sub_mod_eq_zero_of_mod_eq hmod.symm
    rw [Nat.mod_eq_of_lt (by omega)] at hzero
    omega
  · have hzero : (j - k) % n = 0 := Nat.sub_mod_eq_zero_of_mod_eq hmod
    rw [Nat.mod_eq_of_lt (by omega)] at hzero
    omega

/-- Among `n` consecutive numbers each residue occurs exactly once. -/
theorem existsUnique_mod_window {n : Nat} (hn : 0 < n) (w i : Nat) :
    ∃! j, (w ≤ j ∧ j < w + n) ∧ j % n = i % n := by
  have hwmod := Nat.mod_lt w hn
  have hlt := Nat.mod_lt (n - w % n + i) hn
  have hwindow : w ≤ w + (n - w % n + i) % n ∧ w + (n - w % n + i) % n < w + n := by
    omega
  have hmod : (w + (n - w % n + i) % n) % n = i % n := by
    have hsum : w + (n - w % n + i) = n * (w / n + 1) + i := by
      have hdiv := Nat.div_add_mod w n
      rw [Nat.mul_add, Nat.mul_one]
      omega
    calc
      (w + (n - w % n + i) % n) % n = (w + (n - w % n + i)) % n := Nat.add_mod_mod _ _ _
      _ = i % n := by rw [hsum, Nat.mul_add_mod]
  refine ⟨_, ⟨hwindow, hmod⟩, ?_⟩
  rintro j ⟨hj, hji⟩
  exact eq_of_mod_eq_of_window hj hwindow (hji.trans hmod.symm)

/-! ## Cycles -/

namespace RoundRobin

variable {α : Type u} {f : α → α} {l : List α} {a : α}

/-- The same cycle, read from another entry. -/
theorem rotate (h : RoundRobin f l) (k : Nat) : RoundRobin f (l.rotate k) where
  nodup := List.nodup_rotate.mpr h.nodup
  step := by
    calc
      (l.rotate k).map f = (l.map f).rotate k := List.map_rotate f l k
      _ = (l.rotate 1).rotate k := by rw [h.step]
      _ = (l.rotate k).rotate 1 := by rw [List.rotate_rotate, List.rotate_rotate, Nat.add_comm]

/-- A new element takes its place right behind the head. -/
theorem insert [DecidableEq α] (h : RoundRobin f (a :: l)) {c : α} (hc : c ∉ a :: l) :
    RoundRobin (Function.update (Function.update f c (f a)) a c) (a :: c :: l) where
  nodup := by
    have hca : c ≠ a := fun heq => hc (heq ▸ List.mem_cons_self)
    have hal : a ∉ l := (List.nodup_cons.mp h.nodup).1
    have hl : l.Nodup := (List.nodup_cons.mp h.nodup).2
    have hcl : c ∉ l := fun hmem => hc (List.mem_cons_of_mem _ hmem)
    refine List.nodup_cons.mpr ⟨?_, List.nodup_cons.mpr ⟨hcl, hl⟩⟩
    simp [hca.symm, hal]
  step := by
    have hca : c ≠ a := fun heq => hc (heq ▸ List.mem_cons_self)
    have hrest : l.map (Function.update (Function.update f c (f a)) a c) = l.map f := by
      apply List.map_congr_left
      intro x hx
      have hxa : x ≠ a := fun heq => (List.nodup_cons.mp h.nodup).1 (heq ▸ hx)
      have hxc : x ≠ c := fun heq => hc (heq ▸ List.mem_cons_of_mem _ hx)
      rw [Function.update_of_ne hxa, Function.update_of_ne hxc]
    -- the old cycle says where the head and the rest go
    have hold : f a :: l.map f = l ++ [a] := by
      simpa using h.step
    simp [hrest, hca, hold]

theorem map_iterate (h : RoundRobin f l) (k : Nat) : l.map f^[k] = l.rotate k := by
  induction k with
  | zero =>
      simp
  | succ k ih =>
      calc
        l.map f^[k + 1] = (l.map f).map f^[k] := by rw [List.map_map, Function.iterate_succ]
        _ = (l.map f^[k]).rotate 1 := by rw [h.step, List.map_rotate]
        _ = l.rotate (k + 1) := by rw [ih, List.rotate_rotate]

variable (h : RoundRobin f (a :: l))

include h

/-- The iterates of the head run through the list, over and over. -/
theorem iterate_head (k : Nat) : (a :: l)[k % (a :: l).length]? = some (f^[k] a) := by
  have hmap := congrArg (fun l' => l'[0]?) (h.map_iterate k)
  have hlen : 0 < (a :: l).length := by simp
  have hhead : ((a :: l).map f^[k])[0]? = some (f^[k] a) := by simp
  rw [← hhead, h.map_iterate k, List.getElem?_rotate hlen, Nat.zero_add]

theorem iterate_mem (k : Nat) : f^[k] a ∈ a :: l :=
  List.mem_of_getElem? (h.iterate_head k)

/-- Two iterates of the head agree exactly when the numbers of steps do, modulo the length. -/
theorem iterate_eq_iff (j k : Nat) : f^[j] a = f^[k] a ↔ j % (a :: l).length = k % (a :: l).length := by
  have hpos : 0 < (a :: l).length := by simp
  have hj := h.iterate_head j
  have hk := h.iterate_head k
  constructor
  · intro heq
    rw [heq, ← hk] at hj
    exact (List.getElem?_inj (Nat.mod_lt _ hpos) h.nodup).mp hj
  · intro heq
    rw [heq, hk] at hj
    exact (Option.some.inj hj).symm

/-- After as many steps as there are entries, and not before, the head recurs. -/
theorem iterate_eq_self_iff (k : Nat) : f^[k] a = a ↔ (a :: l).length ∣ k := by
  have hzero := h.iterate_eq_iff k 0
  rw [Function.iterate_zero_apply, Nat.zero_mod] at hzero
  rw [hzero, Nat.dvd_iff_mod_eq_zero]

/-- Every window of `l.length` steps meets each entry exactly once. -/
theorem existsUnique_window {x : α} (hx : x ∈ a :: l) (w : Nat) :
    ∃! j, (w ≤ j ∧ j < w + (a :: l).length) ∧ f^[j] a = x := by
  have hpos : 0 < (a :: l).length := by simp
  rcases List.mem_iff_getElem?.mp hx with ⟨i, hi⟩
  have hilt : i < (a :: l).length := (List.getElem?_eq_some_iff.mp hi).1
  have hxi : x = f^[i] a := by
    have hhead := h.iterate_head i
    rw [Nat.mod_eq_of_lt hilt, hi] at hhead
    exact Option.some.inj hhead
  subst hxi
  simp only [h.iterate_eq_iff]
  exact existsUnique_mod_window hpos w i

end RoundRobin

end Serval
