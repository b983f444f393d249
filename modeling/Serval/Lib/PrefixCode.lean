import Mathlib.Data.List.Basic

/-!
# Codes that can be read off a stream

A code maps symbols to words.  If a function takes the first symbol off any stream that starts with its word and
leaves the rest, then a concatenation of words can be read back: different lists of symbols have different codes.
-/

namespace Serval
namespace Lib

variable {α β : Type*}

/-- `read` takes the symbols of `P` off the front of a stream. -/
def Reads (code : α → List β) (read : List β → Option (α × List β)) (P : α → Prop) : Prop :=
  ∀ a, P a → ∀ rest, read (code a ++ rest) = some (a, rest)

section

variable {code : α → List β} {read : List β → Option (α × List β)} {P : α → Prop}

/-- The first symbol of a stream is determined, and so is what follows it. -/
theorem Reads.inj (h : Reads code read P) {a b : α} (ha : P a) (hb : P b) {r s : List β}
    (heq : code a ++ r = code b ++ s) : a = b ∧ r = s := by
  have hread : some (a, r) = some (b, s) := by
    rw [← h a ha r, heq, h b hb s]
  exact Prod.mk.inj (Option.some.inj hread)

/-- A concatenation of words determines the list of symbols. -/
theorem Reads.flatMap_inj (h : Reads code read P) (hne : ∀ a, P a → code a ≠ []) {as bs : List α}
    (has : ∀ a ∈ as, P a) (hbs : ∀ b ∈ bs, P b) (heq : as.flatMap code = bs.flatMap code) : as = bs := by
  induction as generalizing bs with
  | nil =>
      cases bs with
      | nil => rfl
      | cons b bs =>
          rw [List.flatMap_nil, List.flatMap_cons] at heq
          exact absurd (List.append_eq_nil_iff.mp heq.symm).1 (hne b (hbs b List.mem_cons_self))
  | cons a as ih =>
      cases bs with
      | nil =>
          rw [List.flatMap_nil, List.flatMap_cons] at heq
          exact absurd (List.append_eq_nil_iff.mp heq).1 (hne a (has a List.mem_cons_self))
      | cons b bs =>
          rw [List.flatMap_cons, List.flatMap_cons] at heq
          obtain ⟨rfl, hrest⟩ := h.inj (has a List.mem_cons_self) (hbs b List.mem_cons_self) heq
          rw [ih (fun c hc => has c (List.mem_cons_of_mem _ hc)) (fun c hc => hbs c (List.mem_cons_of_mem _ hc)) hrest]

end

end Lib
end Serval
