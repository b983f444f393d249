import Mathlib.Tactic.Common

/-!
# Control — stateful code that returns, leaves for good, or fails

Low-level code may end in three ways: it returns to its caller, it transfers control away without
ever returning (handing over a value of type `ρ`), or it hits a failed assertion.  `Ctl ρ σ` is the
monad of such code over a state `σ`, and `wp` its weakest precondition: the code does not fail, and
each of the two ways of ending establishes its own postcondition.

`wlp` is the liberal form: it speaks about returning only, so code may rely on its assertions.
-/

namespace Serval

/-- How a piece of code ends. -/
inductive Outcome (ρ σ α : Type) where
  | ret (a : α) (s : σ)
  | leave (r : ρ) (s : σ)
  | bug

/-- The state in which control arrives elsewhere, where leaving installs the value handed over;
`none` is a failure. -/
def Outcome.finish {ρ σ α : Type} (install : ρ → σ → σ) : Outcome ρ σ α → Option σ
  | .ret _ s => some s
  | .leave r s => some (install r s)
  | .bug => none

/-- Stateful code that may leave without returning, or fail. -/
def Ctl (ρ σ α : Type) : Type :=
  σ → Outcome ρ σ α

namespace Ctl

variable {ρ σ α β : Type}

instance : Monad (Ctl ρ σ) where
  pure a := fun s => .ret a s
  bind m f := fun s =>
    match m s with
    | .ret a s' => f a s'
    | .leave r s' => .leave r s'
    | .bug => .bug

/-- Read the state. -/
def get : Ctl ρ σ σ :=
  fun s => .ret s s

/-- Read a component of the state. -/
def gets (f : σ → α) : Ctl ρ σ α :=
  fun s => .ret (f s) s

/-- Change the state. -/
def modify (f : σ → σ) : Ctl ρ σ Unit :=
  fun s => .ret () (f s)

/-- Transfer control away, never to return. -/
def leave (r : ρ) : Ctl ρ σ α :=
  fun s => .leave r s

/-- Fail when the condition holds. -/
def bugOn (c : Prop) [Decidable c] : Ctl ρ σ Unit :=
  fun s => if c then .bug else .ret () s

/-- Weakest precondition: `Q` for a return, `E` for leaving; failure is excluded. -/
def wp (m : Ctl ρ σ α) (Q : α → σ → Prop) (E : ρ → σ → Prop) (s : σ) : Prop :=
  match m s with
  | .ret a s' => Q a s'
  | .leave r s' => E r s'
  | .bug => False

section Rules

variable {Q : α → σ → Prop} {E : ρ → σ → Prop} {s : σ}

@[simp] theorem wp_pure (a : α) : wp (pure a : Ctl ρ σ α) Q E s ↔ Q a s :=
  Iff.rfl

@[simp] theorem wp_bind (m : Ctl ρ σ β) (f : β → Ctl ρ σ α) :
    wp (m >>= f) Q E s ↔ wp m (fun b s' => wp (f b) Q E s') E s := by
  simp only [wp, Bind.bind]
  cases m s with
  | ret b s' => rfl
  | leave r s' => rfl
  | bug => rfl

@[simp] theorem wp_get {Q : σ → σ → Prop} : wp (get : Ctl ρ σ σ) Q E s ↔ Q s s :=
  Iff.rfl

@[simp] theorem wp_gets (f : σ → α) : wp (gets f : Ctl ρ σ α) Q E s ↔ Q (f s) s :=
  Iff.rfl

@[simp] theorem wp_modify {Q : Unit → σ → Prop} (f : σ → σ) :
    wp (modify f : Ctl ρ σ Unit) Q E s ↔ Q () (f s) :=
  Iff.rfl

@[simp] theorem wp_leave (r : ρ) : wp (leave r : Ctl ρ σ α) Q E s ↔ E r s :=
  Iff.rfl

@[simp] theorem wp_bugOn {Q : Unit → σ → Prop} (c : Prop) [Decidable c] :
    wp (bugOn c : Ctl ρ σ Unit) Q E s ↔ ¬ c ∧ Q () s := by
  by_cases hc : c <;> simp [wp, bugOn, hc]

@[simp] theorem wp_ite (c : Prop) [Decidable c] (m₁ m₂ : Ctl ρ σ α) :
    wp (if c then m₁ else m₂) Q E s ↔ if c then wp m₁ Q E s else wp m₂ Q E s := by
  by_cases hc : c <;> simp [hc]

/-- Code that returns hands over to what follows it. -/
theorem bind_ret {m : Ctl ρ σ β} {f : β → Ctl ρ σ α} {b : β} {s' : σ} (h : m s = .ret b s') :
    (m >>= f) s = f b s' := by
  simp only [Bind.bind, h]

/-- A check that sends the code back when `c` does not hold. -/
theorem guard_intro {c : Prop} [Decidable (¬ c)] {A B : Prop} (hfail : ¬ c → A) (hpass : c → B) :
    if ¬ c then A else B := by
  by_cases hc : c
  · rw [if_neg (not_not.mpr hc)]
    exact hpass hc
  · rw [if_pos hc]
    exact hfail hc

/-- Consequence rule. -/
theorem wp_mono {m : Ctl ρ σ α} {Q' : α → σ → Prop} {E' : ρ → σ → Prop}
    (hQ : ∀ a s', Q a s' → Q' a s') (hE : ∀ r s', E r s' → E' r s') :
    wp m Q E s → wp m Q' E' s := by
  simp only [wp]
  cases m s with
  | ret a s' => exact hQ a s'
  | leave r s' => exact hE r s'
  | bug => exact id

/-- Code that meets a postcondition on both ways of ending arrives in a state that meets it. -/
theorem exists_finish_of_wp {install : ρ → σ → σ} {m : Ctl ρ σ α} {P : σ → Prop}
    (h : wp m (fun _ s' => P s') (fun r s' => P (install r s')) s) :
    ∃ s', (m s).finish install = some s' ∧ P s' := by
  unfold wp at h
  cases hm : m s with
  | ret a s' =>
      rw [hm] at h
      exact ⟨s', rfl, h⟩
  | leave r s' =>
      rw [hm] at h
      exact ⟨install r s', rfl, h⟩
  | bug =>
      rw [hm] at h
      exact h.elim

/-- Code that never leaves and meets a postcondition returns. -/
theorem exists_ret_of_wp {m : Ctl ρ σ α} (h : wp m Q (fun _ _ => False) s) :
    ∃ a s', m s = .ret a s' ∧ Q a s' := by
  unfold wp at h
  cases hm : m s with
  | ret a s' =>
      rw [hm] at h
      exact ⟨a, s', rfl, h⟩
  | leave r s' =>
      rw [hm] at h
      exact h.elim
  | bug =>
      rw [hm] at h
      exact h.elim

end Rules

/-- Weakest liberal precondition: if the code returns, then with `Q`. -/
def wlp (m : Ctl ρ σ α) (Q : α → σ → Prop) (s : σ) : Prop :=
  ∀ a s', m s = .ret a s' → Q a s'

section LiberalRules

variable {Q : α → σ → Prop} {s : σ}

@[simp] theorem wlp_pure (a : α) : wlp (pure a : Ctl ρ σ α) Q s ↔ Q a s := by
  constructor
  · intro h
    exact h a s rfl
  · rintro h _ _ ⟨⟩
    exact h

@[simp] theorem wlp_bind (m : Ctl ρ σ β) (f : β → Ctl ρ σ α) :
    wlp (m >>= f) Q s ↔ wlp m (fun b s' => wlp (f b) Q s') s := by
  constructor
  · intro h b s' hm a s'' hf
    exact h a s'' ((bind_ret hm).trans hf)
  · intro h a s'' hmf
    cases hm : m s with
    | ret b s' =>
        rw [bind_ret hm] at hmf
        exact h b s' hm a s'' hmf
    | leave r s' =>
        simp [Bind.bind, hm] at hmf
    | bug =>
        simp [Bind.bind, hm] at hmf

@[simp] theorem wlp_get {Q : σ → σ → Prop} : wlp (get : Ctl ρ σ σ) Q s ↔ Q s s :=
  wlp_pure s

@[simp] theorem wlp_gets (f : σ → α) : wlp (gets f : Ctl ρ σ α) Q s ↔ Q (f s) s :=
  wlp_pure (f s)

@[simp] theorem wlp_modify {Q : Unit → σ → Prop} (f : σ → σ) :
    wlp (modify f : Ctl ρ σ Unit) Q s ↔ Q () (f s) := by
  constructor
  · intro h
    exact h () (f s) rfl
  · rintro h _ _ ⟨⟩
    exact h

@[simp] theorem wlp_bugOn {Q : Unit → σ → Prop} (c : Prop) [Decidable c] :
    wlp (bugOn c : Ctl ρ σ Unit) Q s ↔ (¬ c → Q () s) := by
  by_cases hc : c
  · simp [wlp, bugOn, hc]
  · constructor
    · intro h _
      exact h () s (if_neg hc)
    · intro h a s' hret
      rw [bugOn, if_neg hc] at hret
      cases hret
      exact h hc

/-- Consequence rule. -/
theorem wlp_mono {m : Ctl ρ σ α} {Q' : α → σ → Prop} (hQ : ∀ a s', Q a s' → Q' a s')
    (h : wlp m Q s) : wlp m Q' s :=
  fun a s' hret => hQ a s' (h a s' hret)

theorem wlp_of_wp {m : Ctl ρ σ α} {E : ρ → σ → Prop} (h : wp m Q E s) : wlp m Q s := by
  intro a s' hret
  simpa only [wp, hret] using h

end LiberalRules

/-- Code that keeps `I` whenever it returns. -/
def Preserves (I : σ → Prop) (m : Ctl ρ σ α) : Prop :=
  ∀ s, I s → wlp m (fun _ s' => I s') s

namespace Preserves

variable {I : σ → Prop}

theorem pure (a : α) : Preserves I (Pure.pure a : Ctl ρ σ α) :=
  fun _ hs => (wlp_pure a).mpr hs

theorem bind {m : Ctl ρ σ β} {f : β → Ctl ρ σ α} (hm : Preserves I m) (hf : ∀ b, Preserves I (f b)) :
    Preserves I (m >>= f) := by
  intro s hs
  rw [wlp_bind]
  exact wlp_mono (fun b s' hs' => hf b s' hs') (hm s hs)

theorem gets (f : σ → α) : Preserves I (Ctl.gets f : Ctl ρ σ α) :=
  fun _ hs => (wlp_gets f).mpr hs

theorem modify {f : σ → σ} (hf : ∀ s, I s → I (f s)) : Preserves I (Ctl.modify f : Ctl ρ σ Unit) :=
  fun s hs => (wlp_modify f).mpr (hf s hs)

theorem bugOn (c : Prop) [Decidable c] : Preserves I (Ctl.bugOn c : Ctl ρ σ Unit) :=
  fun _ hs => (wlp_bugOn c).mpr (fun _ => hs)

theorem ite (c : Prop) [Decidable c] {m₁ m₂ : Ctl ρ σ α} (h₁ : Preserves I m₁)
    (h₂ : Preserves I m₂) : Preserves I (if c then m₁ else m₂) := by
  by_cases hc : c
  · rw [if_pos hc]
    exact h₁
  · rw [if_neg hc]
    exact h₂

end Preserves

end Ctl

end Serval
