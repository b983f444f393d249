import Mathlib.Data.List.Induction
import Mathlib.Data.List.Nodup
import Mathlib.Logic.Function.Basic
import Mathlib.Logic.Function.Iterate

/-!
# Parallel copies

A list of copies `x₁ := v₁, …, xₙ := vₙ` has two readings.  Run in sequence, a copy sees the targets that the copies
before it have written; run at once, every copy sees the state before the first.  This module says when the two
agree, for one list and for a loop that runs the list in every iteration.
-/

namespace Serval
namespace Lib

/-! ## Copies -/

/-- What is copied: a variable or a constant. -/
inductive Source (ι α : Type*) where
  | var (i : ι)
  | const (a : α)
  deriving DecidableEq

structure Copy (ι α : Type*) where
  target : ι
  source : Source ι α

variable {ι α : Type*}

def Source.eval (s : ι → α) : Source ι α → α
  | .var i => s i
  | .const a => a

section Run

variable [DecidableEq ι]

def Copy.run (s : ι → α) (c : Copy ι α) : ι → α :=
  Function.update s c.target (c.source.eval s)

def sequential (cs : List (Copy ι α)) (s : ι → α) : ι → α :=
  cs.foldl Copy.run s

/-- Every source is read in `s`. -/
def simultaneous (cs : List (Copy ι α)) (s : ι → α) : ι → α := fun i =>
  match cs.find? fun c => c.target = i with
  | some c => c.source.eval s
  | none => s i

variable {cs : List (Copy ι α)} {c : Copy ι α} {s : ι → α}

theorem find?_target_eq_none {i : ι} (h : i ∉ cs.map Copy.target) : (cs.find? fun c => c.target = i) = none := by
  rw [List.find?_eq_none]
  intro c hc htarget
  exact h (List.mem_map.mpr ⟨c, hc, of_decide_eq_true htarget⟩)

theorem simultaneous_of_not_mem {i : ι} (h : i ∉ cs.map Copy.target) : simultaneous cs s i = s i := by
  rw [simultaneous, find?_target_eq_none h]

theorem simultaneous_of_mem (hnodup : (cs.map Copy.target).Nodup) (hc : c ∈ cs) :
    simultaneous cs s c.target = c.source.eval s := by
  cases hfind : cs.find? fun d => d.target = c.target with
  | none => exact absurd (decide_eq_true rfl) (List.find?_eq_none.mp hfind c hc)
  | some d =>
      have htarget : d.target = c.target := by simpa using List.find?_some hfind
      obtain rfl : d = c := List.inj_on_of_nodup_map hnodup (List.mem_of_find?_eq_some hfind) hc htarget
      rw [simultaneous, hfind]

theorem simultaneous_append (h : c.target ∉ cs.map Copy.target) :
    simultaneous (cs ++ [c]) s = Function.update (simultaneous cs s) c.target (c.source.eval s) := by
  funext i
  by_cases hi : i = c.target
  · subst hi
    simp [simultaneous, List.find?_append, find?_target_eq_none h]
  · rw [Function.update_of_ne hi]
    have hlast : ([c].find? fun d => d.target = i) = none := by simp [Ne.symm hi]
    simp only [simultaneous, List.find?_append, hlast, Option.or_none]

theorem sequential_append : sequential (cs ++ [c]) s = (c.run (sequential cs s)) := by
  rw [sequential, List.foldl_append]
  rfl

theorem sequential_of_not_mem {i : ι} (h : i ∉ cs.map Copy.target) : sequential cs s i = s i := by
  induction cs generalizing s with
  | nil => rfl
  | cons d cs ih =>
      simp only [List.map_cons, List.mem_cons, not_or] at h
      rw [sequential, List.foldl_cons]
      exact (ih h.2).trans (Function.update_of_ne h.1 _ _)

/-! ## When the two readings agree -/

/-- `d`, later in the list, does not read the target of `c`, or `c` leaves it as it is. -/
def Undisturbed (s : ι → α) (c d : Copy ι α) : Prop :=
  d.source = .var c.target → c.source.eval s = s c.target

instance [DecidableEq α] (c d : Copy ι α) : Decidable (Undisturbed s c d) :=
  inferInstanceAs (Decidable (_ → _))

/-- A copy reads after `cs` what it reads before exactly if no copy of `cs` disturbs it. -/
theorem eval_simultaneous_iff (hnodup : (cs.map Copy.target).Nodup) :
    c.source.eval (simultaneous cs s) = c.source.eval s ↔ ∀ d ∈ cs, Undisturbed s d c := by
  cases hsource : c.source with
  | const a => simp [Undisturbed, hsource, Source.eval]
  | var i =>
      constructor
      · intro hsame d hd hread
        obtain rfl : i = d.target := by simpa [hsource] using hread
        rw [← simultaneous_of_mem hnodup hd]
        exact hsame
      · intro hall
        by_cases hi : i ∈ cs.map Copy.target
        · obtain ⟨d, hd, rfl⟩ := List.mem_map.mp hi
          exact (simultaneous_of_mem hnodup hd).trans (hall d hd hsource)
        · exact simultaneous_of_not_mem hi

theorem sequential_eq_append_iff (h : c.target ∉ cs.map Copy.target) :
    sequential (cs ++ [c]) s = simultaneous (cs ++ [c]) s ↔
      sequential cs s = simultaneous cs s ∧ c.source.eval (simultaneous cs s) = c.source.eval s := by
  rw [sequential_append, simultaneous_append h, Copy.run]
  constructor
  · intro hsame
    have hbefore : sequential cs s = simultaneous cs s := by
      funext i
      by_cases hi : i = c.target
      · rw [hi, sequential_of_not_mem h, simultaneous_of_not_mem h]
      · simpa [Function.update_of_ne hi] using congrFun hsame i
    refine ⟨hbefore, ?_⟩
    simpa [hbefore] using congrFun hsame c.target
  · rintro ⟨hbefore, hread⟩
    rw [hbefore, hread]

/-- A list of copies to distinct targets does the same in sequence and at once exactly if no copy reads a target
that an earlier one changes. -/
theorem sequential_eq_iff (hnodup : (cs.map Copy.target).Nodup) :
    sequential cs s = simultaneous cs s ↔ cs.Pairwise (Undisturbed s) := by
  induction cs using List.reverseRecOn with
  | nil => exact iff_of_true rfl List.Pairwise.nil
  | append_singleton cs c ih =>
      rw [List.map_append, List.nodup_append] at hnodup
      obtain ⟨hnodup, -, hdisjoint⟩ := hnodup
      have hfresh : c.target ∉ cs.map Copy.target := fun hmem =>
        hdisjoint _ hmem _ (by simp) rfl
      rw [sequential_eq_append_iff hfresh, ih hnodup, eval_simultaneous_iff hnodup, List.pairwise_append]
      simp

end Run

/-! ## Loops -/

section Loops

variable {σ τ : Type*} (f g : σ → τ) (body : τ → σ)

/-- Two loops with the same body and different headers pass through the same states for `n` iterations exactly if
the headers do the same on the states of the second. -/
theorem headers_agree_iff (st : σ) (n : Nat) :
    (∀ k < n, f ((body ∘ f)^[k] st) = g ((body ∘ g)^[k] st)) ↔
      ∀ k < n, f ((body ∘ g)^[k] st) = g ((body ∘ g)^[k] st) := by
  have hstep : ∀ k, (body ∘ f)^[k] st = (body ∘ g)^[k] st → f ((body ∘ g)^[k] st) = g ((body ∘ g)^[k] st) →
      (body ∘ f)^[k + 1] st = (body ∘ g)^[k + 1] st := by
    intro k hstates hheaders
    rw [Function.iterate_succ_apply', Function.iterate_succ_apply', hstates]
    exact congrArg body hheaders
  induction n with
  | zero => simp
  | succ n ih =>
      -- up to the last iteration the states are the same, so the two sides ask the same of it
      have hstates : (∀ k < n, f ((body ∘ g)^[k] st) = g ((body ∘ g)^[k] st)) →
          (body ∘ f)^[n] st = (body ∘ g)^[n] st := by
        intro h
        clear ih
        induction n with
        | zero => rfl
        | succ n ihn => exact hstep n (ihn fun k hk => h k (by omega)) (h n (by omega))
      rw [Nat.forall_lt_succ_right, Nat.forall_lt_succ_right]
      refine (and_congr_left' ih).trans (and_congr_right fun h => ?_)
      rw [hstates h]

end Loops

end Lib
end Serval
