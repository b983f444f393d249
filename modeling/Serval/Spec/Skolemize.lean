import Serval.Spec.Quantifiers

/-!
# Skolemize — the prover of the specification language accepts no false theorem

If the expansion of a term is satisfiable, then so is what `skolemize` makes of it.  The values of dropped variables
are chosen in the order in which the variables were made: a body mentions no variable that is made after those of its
quantifier and outlives it.  Under the chosen values every step of `skolemize` keeps a true formula true, with the
booleans that it leaves standing for the truth of their quantifiers.
-/

namespace Serval
namespace SpecLang

open Lib

variable {κ : Type} {C : κ → Type}

/-! ## Lists -/

theorem Smt.holdsAll_iff (σ : Assignment C) (β : Nat → Prop) (es : List (Smt C)) :
    Smt.HoldsAll σ β es ↔ ∀ e ∈ es, e.Holds σ β := by
  induction es with
  | nil => simp [Smt.HoldsAll]
  | cons e es ih => simp [Smt.HoldsAll, ih]

theorem Smt.holdsAny_iff (σ : Assignment C) (β : Nat → Prop) (es : List (Smt C)) :
    Smt.HoldsAny σ β es ↔ ∃ e ∈ es, e.Holds σ β := by
  induction es with
  | nil => simp [Smt.HoldsAny]
  | cons e es ih => simp [Smt.HoldsAny, ih]

theorem Term.substituteAll_eq_map (f : Nat → Smt C) (es : List (Term C)) :
    Term.substituteAll f es = es.map (Term.substitute f) := by
  induction es with
  | nil => rfl
  | cons e es ih => simp [Term.substituteAll, ih]

/-! ## Names -/

mutual

/-- The booleans of quantifiers in a term. -/
def Term.names : Term C → List Nat
  | .atom _ => []
  | .not e => e.names
  | .and es => Term.namesAll es
  | .or es => Term.namesAll es
  | .quantified b => [b]

def Term.namesAll : List (Term C) → List Nat
  | [] => []
  | e :: es => e.names ++ Term.namesAll es

end

theorem Term.namesAll_eq_flatMap (es : List (Term C)) : Term.namesAll es = es.flatMap Term.names := by
  induction es with
  | nil => rfl
  | cons e es ih => simp [Term.namesAll, ih]

mutual

theorem Term.substitute_congr {f g : Nat → Smt C} :
    ∀ e : Term C, (∀ b ∈ e.names, f b = g b) → e.substitute f = e.substitute g
  | .atom _, _ => rfl
  | .not e, h => congrArg Smt.not (Term.substitute_congr e h)
  | .and es, h => congrArg Smt.and (Term.substituteAll_congr es h)
  | .or es, h => congrArg Smt.or (Term.substituteAll_congr es h)
  | .quantified b, h => h b List.mem_cons_self

theorem Term.substituteAll_congr {f g : Nat → Smt C} :
    ∀ es : List (Term C), (∀ b ∈ Term.namesAll es, f b = g b) → Term.substituteAll f es = Term.substituteAll g es
  | [], _ => rfl
  | e :: es, h =>
      congrArg₂ List.cons (Term.substitute_congr e fun b hb => h b (List.mem_append_left _ hb))
        (Term.substituteAll_congr es fun b hb => h b (List.mem_append_right _ hb))

end

mutual

/-- A term has the same value under substitutions that give its booleans the same values. -/
theorem Term.holds_congr {f g : Nat → Smt C} {σ : Assignment C} {β β' : Nat → Prop} :
    ∀ e : Term C, (∀ b ∈ e.names, ((f b).Holds σ β ↔ (g b).Holds σ β')) →
      ((e.substitute f).Holds σ β ↔ (e.substitute g).Holds σ β')
  | .atom _, _ => Iff.rfl
  | .not e, h => not_congr (Term.holds_congr e h)
  | .and es, h => (Term.holdsAll_congr es h).1
  | .or es, h => (Term.holdsAll_congr es h).2
  | .quantified b, h => h b List.mem_cons_self

theorem Term.holdsAll_congr {f g : Nat → Smt C} {σ : Assignment C} {β β' : Nat → Prop} :
    ∀ es : List (Term C), (∀ b ∈ Term.namesAll es, ((f b).Holds σ β ↔ (g b).Holds σ β')) →
      (Smt.HoldsAll σ β (Term.substituteAll f es) ↔ Smt.HoldsAll σ β' (Term.substituteAll g es)) ∧
        (Smt.HoldsAny σ β (Term.substituteAll f es) ↔ Smt.HoldsAny σ β' (Term.substituteAll g es))
  | [], _ => ⟨Iff.rfl, Iff.rfl⟩
  | e :: es, h =>
      have he := Term.holds_congr e fun b hb => h b (List.mem_append_left _ hb)
      have hes := Term.holdsAll_congr es fun b hb => h b (List.mem_append_right _ hb)
      ⟨and_congr he hes.1, or_congr he hes.2⟩

end

/-! ## Tables -/

namespace Quantifier

/-- The first number that is given out after the variables. -/
def stop (q : Quantifier C) : Nat :=
  q.name + 1 + q.vars.length

theorem name_lt_stop (q : Quantifier C) : q.name < q.stop := by
  unfold stop
  omega

end Quantifier

def Table.names (T : Table C) : List Nat :=
  T.map Quantifier.name

/-- The value of a formula depends on the constants of `s` only. -/
def Smt.DependsOn (e : Smt C) (s : Set (Var κ)) : Prop :=
  ∀ β, Lib.DependsOn (fun σ : Assignment C => e.Holds σ β) s

/-- What evaluation makes sure of: a body mentions older entries, the numbers of a quantifier and of its variables are
its own, and a body looks at no constant that is made after the variables of its quantifier. -/
inductive Table.WellFormed : Table C → Prop
  | nil : Table.WellFormed []
  | cons {q : Quantifier C} {T : Table C} (older : Table.WellFormed T)
      (known : ∀ b ∈ q.body.names, b ∈ Table.names T)
      (apart : ∀ q' ∈ T, q'.stop ≤ q.name ∨ q.stop ≤ q'.name)
      (own : ∀ v ∈ q.vars, v.Within q.name q.stop)
      (body : (expandQuantifiers T q.body).DependsOn {v | v.Before q.stop}) : Table.WellFormed (q :: T)

theorem Table.name_ne {q : Quantifier C} {T : Table C} (apart : ∀ q' ∈ T, q'.stop ≤ q.name ∨ q.stop ≤ q'.name) {b : Nat}
    (hb : b ∈ Table.names T) : b ≠ q.name := by
  rintro rfl
  obtain ⟨q', hq', heq⟩ := List.mem_map.mp hb
  have h' := q'.name_lt_stop
  have h := q.name_lt_stop
  have := apart q' hq'
  omega

theorem expansion_self (q : Quantifier C) (T : Table C) :
    expansion (q :: T) q.name = .quant q.qfr q.vars (expandQuantifiers T q.body) := by
  simp [expansion, expandQuantifiers]

theorem expansion_of_ne {q : Quantifier C} {b : Nat} (h : b ≠ q.name) (T : Table C) :
    expansion (q :: T) b = expansion T b := by
  simp [expansion, h]

theorem skolemAt_of_ne {q : Quantifier C} {b : Nat} (h : b ≠ q.name) (T : Table C) (positive : Bool) :
    skolemAt (q :: T) positive b = skolemAt T positive b := by
  simp [skolemAt, h]

/-- An expansion has no boolean of a quantifier left. -/
theorem expansion_holds_iff {T : Table C} (hT : T.WellFormed) {b : Nat} (hb : b ∈ T.names) (σ : Assignment C)
    (β β' : Nat → Prop) : (expansion T b).Holds σ β ↔ (expansion T b).Holds σ β' := by
  induction hT generalizing b σ with
  | nil => exact absurd hb List.not_mem_nil
  | @cons q T older known apart own body ih =>
      by_cases heq : b = q.name
      · have hbody : ∀ τ, (expandQuantifiers T q.body).Holds τ β ↔ (expandQuantifiers T q.body).Holds τ β' :=
          fun τ => q.body.holds_congr fun b' hb' => ih (known b' hb') τ
        rw [heq, expansion_self]
        cases q.qfr with
        | all => exact forall_congr' fun τ => imp_congr_right fun _ => hbody τ
        | ex => exact exists_congr fun τ => and_congr_right fun _ => hbody τ
      · rw [expansion_of_ne heq]
        exact ih ((List.mem_cons.mp hb).resolve_left heq) σ

/-! ## Values for the dropped variables -/

/-- What the variables of a quantifier are chosen for: to make an existential true, or a universal false. -/
def Quantifier.goal (q : Quantifier C) (T : Table C) (β : Nat → Prop) : Goal (fun v : Var κ => C v.sort) where
  bound := {v | v ∈ q.vars}
  goal := fun σ =>
    match q.qfr with
    | .ex => (expandQuantifiers T q.body).Holds σ β
    | .all => ¬ (expandQuantifiers T q.body).Holds σ β

/-- The goals of all quantifiers, with their numbers. -/
def Table.goals (β : Nat → Prop) : Table C → List (Nat × Goal (fun v : Var κ => C v.sort))
  | [] => []
  | q :: T => (q.name, q.goal T β) :: Table.goals β T

/-- The values of the constants are chosen for all quantifiers. -/
def Table.Witnessed (σ : Assignment C) (β : Nat → Prop) (T : Table C) : Prop :=
  ∀ g ∈ T.goals β, g.2.Met σ

theorem Quantifier.goal_dependsOn {q : Quantifier C} {T : Table C} {s : Set (Var κ)}
    (h : (expandQuantifiers T q.body).DependsOn s) (β : Nat → Prop) : Lib.DependsOn (q.goal T β).goal s := by
  unfold Quantifier.goal
  cases q.qfr with
  | ex => exact h β
  | all => exact (h β).not

theorem Quantifier.holds_of_met {q : Quantifier C} {T : Table C} {σ : Assignment C} {β : Nat → Prop} (hq : q.qfr = .ex)
    (hmet : (q.goal T β).Met σ)
    (hex : ∃ τ, AgreeOff {v | v ∈ q.vars} σ τ ∧ (expandQuantifiers T q.body).Holds τ β) :
    (expandQuantifiers T q.body).Holds σ β := by
  simpa [Goal.Met, Quantifier.goal, hq] using hmet (by simpa [Quantifier.goal, hq] using hex)

theorem Quantifier.not_holds_of_met {q : Quantifier C} {T : Table C} {σ : Assignment C} {β : Nat → Prop}
    (hq : q.qfr = .all) (hmet : (q.goal T β).Met σ)
    (hex : ∃ τ, AgreeOff {v | v ∈ q.vars} σ τ ∧ ¬ (expandQuantifiers T q.body).Holds τ β) :
    ¬ (expandQuantifiers T q.body).Holds σ β := by
  simpa [Goal.Met, Quantifier.goal, hq] using hmet (by simpa [Quantifier.goal, hq] using hex)

/-- The numbers of a goal: what it binds is made from its number on, and it looks at nothing made after `stop`. -/
structure Numbered (g : Nat × Goal (fun v : Var κ => C v.sort)) (stop : Nat) : Prop where
  own : ∀ v ∈ g.2.bound, v.Within g.1 stop
  looks : Lib.DependsOn g.2.goal {v | v.Before stop}

theorem Table.goals_numbered {T : Table C} (hT : T.WellFormed) (β : Nat → Prop) :
    ∀ g ∈ T.goals β, ∃ q ∈ T, q.name = g.1 ∧ Numbered g q.stop := by
  induction hT with
  | nil => exact fun g hg => absurd hg List.not_mem_nil
  | @cons q T older known apart own body ih =>
      intro g hg
      rcases List.mem_cons.mp hg with rfl | hg
      · exact ⟨q, List.mem_cons_self, rfl, own, Quantifier.goal_dependsOn body β⟩
      · obtain ⟨q', hq', hname, hnum⟩ := ih g hg
        exact ⟨q', List.mem_cons_of_mem _ hq', hname, hnum⟩

theorem Table.names_goals (T : Table C) (β : Nat → Prop) : (T.goals β).map Prod.fst = T.names := by
  induction T with
  | nil => rfl
  | cons q T ih => simpa [Table.goals, Table.names] using ih

theorem Table.names_nodup {T : Table C} (hT : T.WellFormed) : T.names.Nodup := by
  induction hT with
  | nil => exact List.nodup_nil
  | cons older known apart own body ih =>
      exact List.nodup_cons.mpr ⟨fun hmem => Table.name_ne apart hmem rfl, ih⟩

/-- A quantifier of a smaller number has ended its variables before one of a greater number begins. -/
theorem Table.stop_le {T : Table C} (hT : T.WellFormed) {q q' : Quantifier C} (hq : q ∈ T) (hq' : q' ∈ T)
    (hlt : q.name < q'.name) : q.stop ≤ q'.name := by
  induction hT with
  | nil => exact absurd hq List.not_mem_nil
  | cons older known apart own body ih =>
      rcases List.mem_cons.mp hq with rfl | hold
      · rcases List.mem_cons.mp hq' with rfl | hold'
        · exact absurd hlt (lt_irrefl _)
        · have happart := apart q' hold'
          have hend := q'.name_lt_stop
          omega
      · rcases List.mem_cons.mp hq' with rfl | hold'
        · have happart := apart q hold
          have hend := q'.name_lt_stop
          omega
        · exact ih hold hold'

/-- Every assignment can be changed on fresh constants to one that is chosen for all quantifiers. -/
theorem Table.exists_witnessed {T : Table C} (hT : T.WellFormed) (β : Nat → Prop) (σ : Assignment C) :
    ∃ τ, (∀ v : Var κ, v.IsDeclared → σ v = τ v) ∧ T.Witnessed τ β := by
  have hnum := Table.goals_numbered hT β
  have hnodup : ((T.goals β).map Prod.fst).Nodup := by
    rw [Table.names_goals]
    exact Table.names_nodup hT
  have hign : ∀ g ∈ T.goals β, ∀ g' ∈ T.goals β, g.1 < g'.1 → g.2.Ignores g'.2.bound := by
    intro g hg g' hg' hlt τ ρ hag
    obtain ⟨q, hq, hname, hg⟩ := hnum g hg
    obtain ⟨q', hq', hname', hg'⟩ := hnum g' hg'
    have hstop : q.stop ≤ q'.name := Table.stop_le hT hq hq' (by omega)
    refine hg.looks.iff_of_agreeOff (Set.disjoint_left.mpr ?_) hag
    intro v hbefore hbound
    have hwithin := hg'.own v hbound
    cases v with
    | declared s n => exact hwithin
    | fresh s n =>
        have hn : n < q.stop := hbefore
        have hn' : g'.1 ≤ n := hwithin.1
        omega
  obtain ⟨τ, hoff, hmet⟩ := exists_allMet_of_numbered (T.goals β) hnodup hign σ
  refine ⟨τ, fun v hdecl => hoff v ?_, hmet⟩
  rintro ⟨g, hg, hbound⟩
  obtain ⟨q, -, -, hg⟩ := hnum g hg
  have hwithin := hg.own v hbound
  cases v with
  | declared s n => exact hwithin
  | fresh s n => exact hdecl

/-! ## `skolemize` keeps true formulas true -/

/-- The results for the boolean of a quantifier and for its negation follow from its value, for which it stands. -/
structure Keeps (f pos neg : Nat → Smt C) (σ : Assignment C) (β : Nat → Prop) (b : Nat) : Prop where
  pos : (f b).Holds σ β → (pos b).Holds σ β
  neg : ¬ (f b).Holds σ β → (neg b).Holds σ β
  bool : β b ↔ (f b).Holds σ β

section Terms

variable {f pos neg : Nat → Smt C} {σ : Assignment C} {β : Nat → Prop}

/-- A term that is left as it is has the value of its expansion. -/
theorem Term.leave_holds_iff (e : Term C) (h : ∀ b ∈ e.names, Keeps f pos neg σ β b) :
    e.leave.Holds σ β ↔ (e.substitute f).Holds σ β :=
  e.holds_congr fun b hb => (h b hb).bool

mutual

theorem Term.skolem_holds : ∀ e : Term C, (∀ b ∈ e.names, Keeps f pos neg σ β b) →
    (e.substitute f).Holds σ β → (e.skolem pos neg).Holds σ β
  | .atom _, _, he => he
  | .not e, h, he => Term.skolemNot_holds e h he
  | .and es, h, he => ((Term.and es).leave_holds_iff h).mpr he
  | .or es, h, he => ((Term.or es).leave_holds_iff h).mpr he
  | .quantified b, h, he => (h b List.mem_cons_self).pos he

theorem Term.skolemNot_holds : ∀ e : Term C, (∀ b ∈ e.names, Keeps f pos neg σ β b) →
    ¬ (e.substitute f).Holds σ β → (e.skolemNot pos neg).Holds σ β
  | .atom _, _, he => he
  | .not e, h, he => Term.skolem_holds e h (not_not.mp he)
  | .and es, h, he => (Term.skolemNotAll_holds es h).1 he
  | .or es, h, he => (Term.skolemNotAll_holds es h).2 he
  | .quantified b, h, he => (h b List.mem_cons_self).neg he

/-- De Morgan, argument by argument. -/
theorem Term.skolemNotAll_holds : ∀ es : List (Term C), (∀ b ∈ Term.namesAll es, Keeps f pos neg σ β b) →
    (¬ Smt.HoldsAll σ β (Term.substituteAll f es) → Smt.HoldsAny σ β (Term.skolemNotAll pos neg es)) ∧
      (¬ Smt.HoldsAny σ β (Term.substituteAll f es) → Smt.HoldsAll σ β (Term.skolemNotAll pos neg es))
  | [], _ => ⟨fun he => he trivial, fun _ => trivial⟩
  | e :: es, h =>
      have he := Term.skolemNot_holds e fun b hb => h b (List.mem_append_left _ hb)
      have hes := Term.skolemNotAll_holds es fun b hb => h b (List.mem_append_right _ hb)
      ⟨fun hall => (not_and_or.mp hall).imp he hes.1,
        fun hany => ⟨he fun h' => hany (.inl h'), hes.2 fun h' => hany (.inr h')⟩⟩

end

end Terms

theorem expandQuantifiers_holds_iff {T : Table C} (hT : T.WellFormed) {e : Term C} (he : ∀ b ∈ e.names, b ∈ T.names)
    (σ : Assignment C) (β β' : Nat → Prop) :
    (expandQuantifiers T e).Holds σ β ↔ (expandQuantifiers T e).Holds σ β' :=
  e.holds_congr fun b hb => expansion_holds_iff hT (he b hb) σ β β'

/-- One quantifier, when those in its body are kept. -/
theorem keeps_self {q : Quantifier C} {T : Table C} {σ : Assignment C} {β : Nat → Prop}
    (hbody : ∀ b ∈ q.body.names, Keeps (expansion T) (skolemAt T true) (skolemAt T false) σ β b)
    (hmet : (q.goal T β).Met σ) (hbool : β q.name ↔ (expansion (q :: T) q.name).Holds σ β) :
    Keeps (expansion (q :: T)) (skolemAt (q :: T) true) (skolemAt (q :: T) false) σ β q.name := by
  refine ⟨?_, ?_, hbool⟩
  · intro hq
    rw [expansion_self] at hq
    cases hqfr : q.qfr with
    | ex =>
        rw [hqfr] at hq
        simp only [skolemAt, if_pos, hqfr]
        exact q.body.skolem_holds hbody (Quantifier.holds_of_met hqfr hmet hq)
    | all =>
        rw [hqfr] at hq
        simp only [skolemAt, if_pos, hqfr]
        exact hq
  · intro hq
    rw [expansion_self] at hq
    cases hqfr : q.qfr with
    | ex =>
        rw [hqfr] at hq
        simp only [skolemAt, if_pos, hqfr]
        exact fun τ hag hτ => hq ⟨τ, hag, hτ⟩
    | all =>
        rw [hqfr] at hq
        simp only [skolemAt, if_pos, hqfr]
        obtain ⟨τ, hτ⟩ := not_forall.mp hq
        have hex := Classical.not_imp.mp hτ
        exact q.body.skolemNot_holds hbody (Quantifier.not_holds_of_met hqfr hmet ⟨τ, hex⟩)

/-- Under values that are chosen for all quantifiers, `skolemize` of a quantifier follows from its truth, and of its
negation from its falsity. -/
theorem keeps_of_witnessed {T : Table C} (hT : T.WellFormed) {σ : Assignment C} {β β₀ : Nat → Prop}
    (hw : T.Witnessed σ β₀) (hβ : ∀ b ∈ T.names, (β b ↔ (expansion T b).Holds σ β)) :
    ∀ b ∈ T.names, Keeps (expansion T) (skolemAt T true) (skolemAt T false) σ β b := by
  induction hT with
  | nil => exact fun b hb => absurd hb List.not_mem_nil
  | @cons q T older known apart own body ih =>
      have hne : ∀ b ∈ Table.names T, b ≠ q.name := fun b hb => Table.name_ne apart hb
      have hold : ∀ b ∈ Table.names T, Keeps (expansion T) (skolemAt T true) (skolemAt T false) σ β b := by
        refine ih (fun g hg => hw g (List.mem_cons_of_mem _ hg)) fun b hb => ?_
        rw [hβ b (List.mem_cons_of_mem _ hb), expansion_of_ne (hne b hb)]
      intro b hb
      by_cases heq : b = q.name
      · subst heq
        have hbool := hβ q.name hb
        have hkeeps : ∀ b ∈ q.body.names, Keeps (expansion T) (skolemAt T true) (skolemAt T false) σ β b :=
          fun b hb => hold b (known b hb)
        -- the goal does not look at the booleans
        have hgoal : q.goal T β = q.goal T β₀ := by
          have hbody : ∀ τ, (expandQuantifiers T q.body).Holds τ β = (expandQuantifiers T q.body).Holds τ β₀ :=
            fun τ => propext (expandQuantifiers_holds_iff older known τ β β₀)
          simp only [Quantifier.goal, hbody]
        have hmet : (q.goal T β).Met σ := by
          rw [hgoal]
          exact hw _ List.mem_cons_self
        exact keeps_self hkeeps hmet hbool
      · have hmem : b ∈ Table.names T := (List.mem_cons.mp hb).resolve_left heq
        obtain ⟨hpos, hneg, -⟩ := hold b hmem
        refine ⟨?_, ?_, hβ b hb⟩
        · rw [expansion_of_ne heq, skolemAt_of_ne heq]
          exact hpos
        · rw [expansion_of_ne heq, skolemAt_of_ne heq]
          exact hneg

/-- A term whose expansion looks at declared constants only stays satisfiable. -/
theorem satisfiable_skolemize {T : Table C} (hT : T.WellFormed) {e : Term C} (hknown : ∀ b ∈ e.names, b ∈ T.names)
    (hdecl : (expandQuantifiers T e).DependsOn {v | v.IsDeclared}) (hsat : (expandQuantifiers T e).Satisfiable) :
    (skolemize T e).Satisfiable := by
  obtain ⟨σ, β₀, he⟩ := hsat
  obtain ⟨τ, hag, hw⟩ := Table.exists_witnessed hT β₀ σ
  -- a boolean that is left stands for the truth of its quantifier
  let β : Nat → Prop := fun b => (expansion T b).Holds τ β₀
  have hβ : ∀ b ∈ T.names, (β b ↔ (expansion T b).Holds τ β) :=
    fun b hb => expansion_holds_iff hT hb τ β₀ β
  have heτ : (expandQuantifiers T e).Holds τ β := by
    rw [← expandQuantifiers_holds_iff hT hknown τ β₀ β]
    exact (hdecl β₀ σ τ hag).mp he
  exact ⟨τ, β, e.skolem_holds (fun b hb => keeps_of_witnessed hT hw hβ b (hknown b hb)) heτ⟩

end SpecLang
end Serval
