import Mathlib.Data.List.Basic

/-!
# Noninterference — intransitive policies over state-dependent domains

A deterministic machine takes actions; every action is attributed to a domain that may depend on
the state it is taken in, and a policy says which domain may flow to which.  This file provides:

* `sources` — the domains that may influence an observer through the rest of a trace;
* `purge` — the trace with every action outside its own source set removed;
* `Unwinding` — the one-step conditions (equivalence, domain consistency, local respect and weak
  step consistency);
* `noninterference` — the one-step conditions bound what purging can change, for whole traces.

The development is parametric in the state, action and domain types.
-/

namespace Serval
namespace Noninterference

universe u v w

/-- A machine whose actions carry a state-dependent domain, together with a flow policy. -/
structure System (S : Type u) (A : Type v) (D : Type w) where
  step : S → A → S
  dom : A → S → D
  flowsTo : D → D → Bool

namespace System

variable {S : Type u} {A : Type v} {D : Type w} (M : System S A D)

/-- Run a trace from a state. -/
def run (s : S) (tr : List A) : S :=
  tr.foldl M.step s

@[simp] theorem run_nil (s : S) : M.run s [] = s := rfl

@[simp] theorem run_cons (s : S) (a : A) (tr : List A) :
    M.run s (a :: tr) = M.run (M.step s a) tr := rfl

/-- The domains that may influence `u` through `tr`, computed along the run of `tr` from `s`. -/
def sources : List A → D → S → List D
  | [], u, _ => [u]
  | a :: tr, u, s =>
      let later := sources tr u (M.step s a)
      if later.any (M.flowsTo (M.dom a s)) then M.dom a s :: later else later

/-- Drop from `tr` every action whose domain is not a source, along the run of `tr` from `s`. -/
def purge [DecidableEq D] : List A → D → S → List A
  | [], _, _ => []
  | a :: tr, u, s =>
      if M.dom a s ∈ M.sources (a :: tr) u s then
        a :: purge tr u (M.step s a)
      else
        purge tr u (M.step s a)

theorem mem_sources_cons_of_mem {a : A} {tr : List A} {u v : D} {s : S}
    (hv : v ∈ M.sources tr u (M.step s a)) : v ∈ M.sources (a :: tr) u s := by
  simp only [sources]
  split
  · exact List.mem_cons_of_mem _ hv
  · exact hv

theorem dom_mem_sources_of_flowsTo {a : A} {tr : List A} {u v : D} {s : S}
    (hv : v ∈ M.sources tr u (M.step s a)) (hflow : M.flowsTo (M.dom a s) v = true) :
    M.dom a s ∈ M.sources (a :: tr) u s := by
  have hany : (M.sources tr u (M.step s a)).any (M.flowsTo (M.dom a s)) = true :=
    List.any_eq_true.mpr ⟨v, hv, hflow⟩
  simp [sources, hany]

end System

/-- The one-step conditions.  `inv` restricts the states they are asked of, and `allowed` the
actions that may occur in the traces that are compared. -/
structure Unwinding {S : Type u} {A : Type v} {D : Type w} (M : System S A D)
    (inv : S → Prop) (allowed : A → Prop) (rel : D → S → S → Prop) : Prop where
  refl : ∀ u s, rel u s s
  symm : ∀ {u s t}, rel u s t → rel u t s
  trans : ∀ {u s t r}, rel u s t → rel u t r → rel u s r
  inv_step : ∀ {s a}, inv s → inv (M.step s a)
  dom_consistent : ∀ {s t a}, inv s → inv t → rel (M.dom a s) s t → M.dom a s = M.dom a t
  local_respect : ∀ {s a u}, allowed a → inv s → M.flowsTo (M.dom a s) u = false →
    rel u s (M.step s a)
  weak_step : ∀ {s t a u}, allowed a → inv s → inv t → rel u s t → rel (M.dom a s) s t →
    M.flowsTo (M.dom a s) u = true → rel u (M.step s a) (M.step t a)

namespace Unwinding

variable {S : Type u} {A : Type v} {D : Type w} {M : System S A D}
variable {inv : S → Prop} {allowed : A → Prop} {rel : D → S → S → Prop}

/-- A kept action preserves agreement on every domain that is still a source after it. -/
theorem rel_step_of_kept (U : Unwinding M inv allowed rel) {s t : S} {a : A} {tr : List A} {u : D}
    (ha : allowed a) (hs : inv s) (ht : inv t)
    (hrel : ∀ v ∈ M.sources (a :: tr) u s, rel v s t)
    (hkept : M.dom a s ∈ M.sources (a :: tr) u s) :
    ∀ v ∈ M.sources tr u (M.step s a), rel v (M.step s a) (M.step t a) := by
  intro v hv
  have hdom : rel (M.dom a s) s t := hrel _ hkept
  have hvrel : rel v s t := hrel v (M.mem_sources_cons_of_mem hv)
  cases hflow : M.flowsTo (M.dom a s) v with
  | true =>
      exact U.weak_step ha hs ht hvrel hdom hflow
  | false =>
      -- Neither step is visible to `v`: by domain consistency both runs attribute it alike.
      have hflow' : M.flowsTo (M.dom a t) v = false := by
        rw [← U.dom_consistent hs ht hdom]
        exact hflow
      have hleft : rel v s (M.step s a) := U.local_respect ha hs hflow
      have hright : rel v t (M.step t a) := U.local_respect ha ht hflow'
      exact U.trans (U.symm hleft) (U.trans hvrel hright)

/-- A purged action is invisible to every domain that is still a source after it. -/
theorem rel_step_of_purged (U : Unwinding M inv allowed rel) {s t : S} {a : A} {tr : List A} {u : D}
    (ha : allowed a) (hs : inv s)
    (hrel : ∀ v ∈ M.sources (a :: tr) u s, rel v s t)
    (hpurged : M.dom a s ∉ M.sources (a :: tr) u s) :
    ∀ v ∈ M.sources tr u (M.step s a), rel v (M.step s a) t := by
  intro v hv
  have hflow : M.flowsTo (M.dom a s) v = false := by
    by_contra hne
    exact hpurged (M.dom_mem_sources_of_flowsTo hv (by simpa using hne))
  exact U.trans (U.symm (U.local_respect ha hs hflow)) (hrel v (M.mem_sources_cons_of_mem hv))

/-- Two states that agree on every source end in states that agree for the observer, when one
runs the whole trace and the other its purge. -/
theorem run_purge_rel [DecidableEq D] (U : Unwinding M inv allowed rel) :
    ∀ {tr : List A} {u : D} {s t : S}, (∀ a ∈ tr, allowed a) → inv s → inv t →
      (∀ v ∈ M.sources tr u s, rel v s t) →
      rel u (M.run s tr) (M.run t (M.purge tr u s)) := by
  intro tr
  induction tr with
  | nil =>
      intro u s t _ _ _ hrel
      exact hrel u (by simp [System.sources])
  | cons a tr ih =>
      intro u s t hall hs ht hrel
      have ha : allowed a := hall a (by simp)
      have hall' : ∀ b ∈ tr, allowed b := fun b hb => hall b (List.mem_cons_of_mem _ hb)
      by_cases hkept : M.dom a s ∈ M.sources (a :: tr) u s
      · have hnext := U.rel_step_of_kept ha hs ht hrel hkept
        simpa [System.purge, hkept] using ih hall' (U.inv_step hs) (U.inv_step ht) hnext
      · have hnext := U.rel_step_of_purged ha hs hrel hkept
        simpa [System.purge, hkept] using ih hall' (U.inv_step hs) ht hnext

/-- Whole-trace intransitive noninterference from the one-step conditions. -/
theorem noninterference [DecidableEq D] (U : Unwinding M inv allowed rel) {tr : List A} {s : S}
    (u : D) (hall : ∀ a ∈ tr, allowed a) (hs : inv s) :
    rel u (M.run s tr) (M.run s (M.purge tr u s)) :=
  U.run_purge_rel hall hs hs (fun v _ => U.refl v s)

end Unwinding

end Noninterference
end Serval
