import Mathlib.Data.List.Nodup
import Mathlib.Logic.Function.Basic

/-!
# Update — bulk and sequential updates of total maps

`Function.update` changes a total map at one key.  Two further shapes recur when memory is a map
from indices to values:

* `updateWhere` changes every key that satisfies a predicate;
* `writeAll` performs one read-modify-write per entry of a list, in order, as a sequence of
  assignments to the members of a record does.

For pairwise distinct keys a `writeAll` is determined pointwise: a listed key holds what its own
write made of the initial value, every other key is unchanged.
-/

namespace Serval

universe u v w

section UpdateWhere

variable {α : Type u} {β : Type v}

/-- Replace the value at every key satisfying `p`. -/
def updateWhere (f : α → β) (p : α → Bool) (b : β) : α → β :=
  fun x => if p x then b else f x

theorem updateWhere_of_true {f : α → β} {p : α → Bool} {b : β} {x : α} (h : p x = true) :
    updateWhere f p b x = b := by
  simp [updateWhere, h]

theorem updateWhere_of_false {f : α → β} {p : α → Bool} {b : β} {x : α} (h : p x = false) :
    updateWhere f p b x = f x := by
  simp [updateWhere, h]

/-- Replace the value at every pair of keys satisfying `p` and `q`. -/
def updateWhere₂ {γ : Type w} (f : α → β → γ) (p : α → Bool) (q : β → Bool) (c : γ) : α → β → γ :=
  fun x y => if p x && q y then c else f x y

end UpdateWhere

section Rows

variable {α : Type u} {β : Type v} {γ : Type w} [DecidableEq α]

/-- Replace one cell of a table. -/
def updateCell [DecidableEq β] (f : α → β → γ) (x : α) (y : β) (c : γ) : α → β → γ :=
  Function.update f x (Function.update (f x) y c)

/-- Replace the cells of one row whose column satisfies `q`. -/
def updateRow (f : α → β → γ) (x : α) (q : β → Bool) (c : γ) : α → β → γ :=
  Function.update f x (updateWhere (f x) q c)

@[simp] theorem updateCell_row [DecidableEq β] (f : α → β → γ) (x : α) (y : β) (c : γ) :
    updateCell f x y c x = Function.update (f x) y c :=
  Function.update_self _ _ _

@[simp] theorem updateCell_row_of_ne [DecidableEq β] (f : α → β → γ) {x x' : α} (y : β) (c : γ)
    (h : x' ≠ x) : updateCell f x y c x' = f x' :=
  Function.update_of_ne h _ _

@[simp] theorem updateRow_row (f : α → β → γ) (x : α) (q : β → Bool) (c : γ) :
    updateRow f x q c x = updateWhere (f x) q c :=
  Function.update_self _ _ _

@[simp] theorem updateRow_row_of_ne (f : α → β → γ) {x x' : α} (q : β → Bool) (c : γ)
    (h : x' ≠ x) : updateRow f x q c x' = f x' :=
  Function.update_of_ne h _ _

end Rows

section WriteAll

variable {ι : Type u} {α : Type v} {β : Type w} [DecidableEq α]

/-- One read-modify-write at `key i` for each `i` of the list, in order. -/
def writeAll (key : ι → α) (write : ι → β → β) (l : List ι) (f : α → β) : α → β :=
  l.foldl (fun g i => Function.update g (key i) (write i (g (key i)))) f

@[simp] theorem writeAll_nil (key : ι → α) (write : ι → β → β) (f : α → β) :
    writeAll key write [] f = f := rfl

@[simp] theorem writeAll_cons (key : ι → α) (write : ι → β → β) (i : ι) (l : List ι) (f : α → β) :
    writeAll key write (i :: l) f =
      writeAll key write l (Function.update f (key i) (write i (f (key i)))) := rfl

/-- A key that is not written keeps its value. -/
theorem writeAll_of_not_mem {key : ι → α} {write : ι → β → β} {x : α} :
    ∀ {l : List ι} {f : α → β}, (∀ i ∈ l, key i ≠ x) → writeAll key write l f x = f x := by
  intro l
  induction l with
  | nil =>
      intro f _
      rfl
  | cons j l ih =>
      intro f hx
      have hj : key j ≠ x := hx j (by simp)
      rw [writeAll_cons, ih (fun i hi => hx i (List.mem_cons_of_mem _ hi))]
      exact Function.update_of_ne (Ne.symm hj) _ _

/-- A key written once holds what that write made of the initial value. -/
theorem writeAll_of_mem {key : ι → α} {write : ι → β → β} :
    ∀ {l : List ι} {f : α → β} {i : ι}, l.Pairwise (fun a b => key a ≠ key b) → i ∈ l →
      writeAll key write l f (key i) = write i (f (key i)) := by
  intro l
  induction l with
  | nil =>
      intro f i _ hi
      cases hi
  | cons j l ih =>
      intro f i hl hi
      rcases List.pairwise_cons.mp hl with ⟨hj, hl'⟩
      rw [writeAll_cons]
      rcases List.mem_cons.mp hi with rfl | hi'
      · rw [writeAll_of_not_mem (fun a ha => (hj a ha).symm)]
        exact Function.update_self _ _ _
      · rw [ih hl' hi', Function.update_of_ne (hj i hi').symm]

end WriteAll

end Serval
