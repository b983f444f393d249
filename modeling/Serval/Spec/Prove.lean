import Serval.Spec.Skolemize

/-!
# Prove — what evaluation makes is fit for `skolemize`

Evaluation gives each quantifier numbers of its own: the number of its boolean, then those of its variables, then all
that its body takes.  What a term looks at is in scope: declared constants and the variables of the quantifiers around
it.  So every table that evaluation makes is well formed, and `prove` is sound for every expression of the language.
-/

namespace Serval
namespace SpecLang

open Lib

variable {κ : Type} {C : κ → Type}

/-! ## Scope -/

/-- What an expression may mention. -/
def scope (env : List (Var κ)) : Set (Var κ) :=
  {v | v ∈ env ∨ v.IsDeclared}

theorem scope_append (vars env : List (Var κ)) : scope (vars ++ env) ⊆ scope env ∪ {v | v ∈ vars} := by
  rintro v (hmem | hdecl)
  · rcases List.mem_append.mp hmem with hvars | henv
    · exact .inr hvars
    · exact .inl (.inl henv)
  · exact .inl (.inr hdecl)

theorem scope_subset_append (vars env : List (Var κ)) : scope env ⊆ scope (vars ++ env) := by
  rintro v (hmem | hdecl)
  · exact .inl (List.mem_append_right _ hmem)
  · exact .inr hdecl

/-- The booleans of a term are in the table, and its expansion looks at what is in scope. -/
structure Term.InScope (t : Term C) (T : Table C) (env : List (Var κ)) : Prop where
  known : ∀ b ∈ t.names, b ∈ T.names
  looks : (expandQuantifiers T t).DependsOn (scope env)

section Connectives

variable {T : Table C} {env : List (Var κ)}

theorem Term.InScope.not {t : Term C} (h : t.InScope T env) : (Term.not t).InScope T env :=
  ⟨h.known, fun β => (h.looks β).not⟩

theorem Term.known_all {ts : List (Term C)} (h : ∀ t ∈ ts, t.InScope T env) : ∀ b ∈ Term.namesAll ts, b ∈ T.names := by
  intro b hb
  rw [Term.namesAll_eq_flatMap] at hb
  obtain ⟨t, ht, hb⟩ := List.mem_flatMap.mp hb
  exact (h t ht).known b hb

theorem Term.InScope.and {ts : List (Term C)} (h : ∀ t ∈ ts, t.InScope T env) : (Term.and ts).InScope T env := by
  refine ⟨Term.known_all h, fun β σ τ hag => ?_⟩
  simp only [expandQuantifiers, Term.substitute, Smt.Holds, Smt.holdsAll_iff, Term.substituteAll_eq_map,
    List.forall_mem_map]
  exact forall₂_congr fun t ht => (h t ht).looks β σ τ hag

theorem Term.InScope.or {ts : List (Term C)} (h : ∀ t ∈ ts, t.InScope T env) : (Term.or ts).InScope T env := by
  refine ⟨Term.known_all h, fun β σ τ hag => ?_⟩
  simp only [expandQuantifiers, Term.substitute, Smt.Holds, Smt.holdsAny_iff, Term.substituteAll_eq_map, List.mem_map,
    exists_exists_and_eq_and]
  exact exists_congr fun t => and_congr_right fun ht => (h t ht).looks β σ τ hag

theorem Term.InScope.mono {t : Term C} (h : t.InScope T env) (vars : List (Var κ)) : t.InScope T (vars ++ env) :=
  ⟨h.known, fun β => (h.looks β).mono (scope_subset_append vars env)⟩

end Connectives

/-! ## States -/

/-- The numbers that the quantifiers of the table use have been given out. -/
structure State.Valid (st : State C) : Prop where
  wellFormed : st.table.WellFormed
  before : ∀ q ∈ st.table, q.stop ≤ st.next

/-- The table has grown by quantifiers with new numbers. -/
structure State.Extends (st st' : State C) : Prop where
  next_le : st.next ≤ st'.next
  table : ∃ new, st'.table = new ++ st.table ∧ ∀ q ∈ new, st.next ≤ q.name

theorem State.Extends.refl (st : State C) : st.Extends st :=
  ⟨le_rfl, [], rfl, fun _ hq => absurd hq List.not_mem_nil⟩

theorem State.Extends.trans {st st' st'' : State C} (h : st.Extends st') (h' : st'.Extends st'') : st.Extends st'' := by
  obtain ⟨hle, new, htable, hnew⟩ := h
  obtain ⟨hle', new', htable', hnew'⟩ := h'
  refine ⟨hle.trans hle', new' ++ new, by rw [htable', htable, List.append_assoc], ?_⟩
  intro q hq
  rcases List.mem_append.mp hq with hq | hq
  · exact hle.trans (hnew' q hq)
  · exact hnew q hq

theorem expansion_append {new T : Table C} {b : Nat} (h : b ∉ Table.names new) :
    expansion (new ++ T) b = expansion T b := by
  induction new with
  | nil => rfl
  | cons q new ih =>
      obtain ⟨hne, hrest⟩ := not_or.mp fun hor => h (List.mem_cons.mpr hor)
      rw [List.cons_append, expansion_of_ne hne, ih hrest]

/-- A term stays in scope as the table grows. -/
theorem Term.InScope.extend {st st' : State C} (hst : st.Valid) (hext : st.Extends st') {t : Term C}
    {env : List (Var κ)} (h : t.InScope st.table env) : t.InScope st'.table env := by
  obtain ⟨-, new, htable, hnew⟩ := hext
  have hstable : ∀ b ∈ t.names, expansion st'.table b = expansion st.table b := by
    intro b hb
    obtain ⟨q, hq, rfl⟩ := List.mem_map.mp (h.known b hb)
    rw [htable]
    refine expansion_append fun hmem => ?_
    obtain ⟨q', hq', hname⟩ := List.mem_map.mp hmem
    have hlt := q.name_lt_stop
    have hstop := hst.before q hq
    have hle := hnew q' hq'
    omega
  refine ⟨?_, ?_⟩
  · intro b hb
    rw [htable, Table.names, List.map_append]
    exact List.mem_append_right _ (h.known b hb)
  · intro β σ τ hag
    rw [show expandQuantifiers st'.table t = expandQuantifiers st.table t from t.substitute_congr hstable]
    exact h.looks β σ τ hag

/-! ## Entering a quantifier -/

theorem length_makeFresh (n : Nat) (sorts : List κ) : (makeFresh n sorts).length = sorts.length := by
  induction sorts generalizing n with
  | nil => rfl
  | cons s sorts ih => simp [makeFresh, ih]

theorem makeFresh_within (n : Nat) (sorts : List κ) : ∀ v ∈ makeFresh n sorts, v.Within n (n + sorts.length) := by
  induction sorts generalizing n with
  | nil => exact fun v hv => absurd hv List.not_mem_nil
  | cons s sorts ih =>
      intro v hv
      rcases List.mem_cons.mp hv with rfl | hv
      · exact ⟨le_rfl, by simp⟩
      · have hwithin := ih (n + 1) v hv
        cases v with
        | declared s n => exact hwithin
        | fresh s k =>
            obtain ⟨hlow, hhigh⟩ := hwithin
            exact ⟨by omega, by simp only [List.length_cons]; omega⟩

theorem Var.Within.before {v : Var κ} {m n : Nat} (h : v.Within m n) : v.Before n := by
  cases v with
  | declared s k => trivial
  | fresh s k => exact h.2

theorem Var.Within.mono {v : Var κ} {m m' n : Nat} (h : v.Within m n) (hle : m' ≤ m) : v.Within m' n := by
  cases v with
  | declared s k => exact h
  | fresh s k => exact ⟨hle.trans h.1, h.2⟩

theorem Var.Before.mono {v : Var κ} {m n : Nat} (h : v.Before m) (hle : m ≤ n) : v.Before n := by
  cases v with
  | declared s k => trivial
  | fresh s k => exact Nat.lt_of_lt_of_le h hle

/-- The state in which the body of a quantifier is evaluated. -/
def State.enter (st : State C) (sorts : List κ) : State C :=
  ⟨st.next + 1 + sorts.length, st.table⟩

/-- The state after a quantifier has been entered into the table. -/
def State.close (st : State C) (b : Nat) (qfr : Qfr) (vars : List (Var κ)) (t : Term C) : State C :=
  ⟨st.next, ⟨b, qfr, vars, t⟩ :: st.table⟩

theorem State.Valid.enter {st : State C} (h : st.Valid) (sorts : List κ) : (st.enter sorts).Valid := by
  refine ⟨h.wellFormed, fun q hq => ?_⟩
  have hstop := h.before q hq
  show q.stop ≤ st.next + 1 + sorts.length
  omega

/-- What evaluating an expression in an environment comes to. -/
structure Evaluated (st : State C) (env : List (Var κ)) (t : Term C) (st' : State C) : Prop where
  valid : st'.Valid
  grows : st.Extends st'
  inScope : t.InScope st'.table env

theorem Evaluated.quantifier {st st' : State C} (hst : st.Valid) {env : List (Var κ)}
    (henv : ∀ v ∈ env, v.Before st.next) (qfr : Qfr) {sorts : List κ} {t : Term C}
    (h : Evaluated (st.enter sorts) (makeFresh (st.next + 1) sorts ++ env) t st') :
    Evaluated st env (.quantified st.next) (st'.close st.next qfr (makeFresh (st.next + 1) sorts) t) := by
  obtain ⟨hvalid, ⟨hle, new, htable, hnew⟩, hscope⟩ := h
  have hle : st.next + 1 + sorts.length ≤ st'.next := hle
  have hnew : ∀ q ∈ new, st.next + 1 + sorts.length ≤ q.name := hnew
  have htable : st'.table = new ++ st.table := htable
  have hwithin := makeFresh_within (st.next + 1) sorts
  let q : Quantifier C := ⟨st.next, qfr, makeFresh (st.next + 1) sorts, t⟩
  have hstop : q.stop = st.next + 1 + sorts.length := by
    simp [q, Quantifier.stop, length_makeFresh]
  have hwf : Table.WellFormed (q :: st'.table) := by
    refine .cons hvalid.wellFormed hscope.known ?_ ?_ ?_
    · intro q' hq'
      rw [hstop]
      rw [htable] at hq'
      rcases List.mem_append.mp hq' with hq' | hq'
      · exact .inr (hnew q' hq')
      · exact .inl (hst.before q' hq')
    · intro v hv
      rw [hstop]
      exact (hwithin v hv).mono (Nat.le_succ st.next)
    · intro β
      rw [hstop]
      refine (hscope.looks β).mono ?_
      rintro v (hmem | hdecl)
      · rcases List.mem_append.mp hmem with hvars | houter
        · exact (hwithin v hvars).before
        · exact (henv v houter).mono (by omega)
      · cases v with
        | declared s k => trivial
        | fresh s k => exact absurd hdecl not_false
  refine ⟨⟨hwf, ?_⟩, ⟨?_, q :: new, ?_, ?_⟩, ?_, ?_⟩
  · intro q' hq'
    rcases List.mem_cons.mp hq' with rfl | hq'
    · exact hstop.le.trans hle
    · exact hvalid.before q' hq'
  · show st.next ≤ st'.next
    omega
  · show q :: st'.table = q :: new ++ st.table
    rw [htable, List.cons_append]
  · intro q' hq'
    rcases List.mem_cons.mp hq' with rfl | hq'
    · exact le_rfl
    · exact le_trans (by omega) (hnew q' hq')
  · intro b hb
    rw [List.mem_singleton.mp hb]
    exact List.mem_cons_self
  · intro β
    -- binding the variables takes them out of the scope
    have hbody := (hscope.looks β).mono (scope_append _ env)
    have hexp : expandQuantifiers (q :: st'.table) (.quantified st.next) =
        .quant qfr q.vars (expandQuantifiers st'.table t) := expansion_self q st'.table
    show Lib.DependsOn (fun σ => (expandQuantifiers (q :: st'.table) (.quantified st.next)).Holds σ β) (scope env)
    rw [hexp]
    cases qfr with
    | all => exact hbody.forall
    | ex => exact hbody.exists

/-! ## Expressions -/

mutual

theorem evaluate_evaluated : ∀ (e : Expr C) (env : List (Var κ)) (terms : List (Term C)) (st : State C), st.Valid →
    (∀ v ∈ env, v.Before st.next) → (∀ t ∈ terms, t.InScope st.table env) →
    Evaluated st env (evaluate env terms e st).1 (evaluate env terms e st).2
  | .atom a, env, terms, st, hst, henv, hterms =>
      ⟨hst, .refl st, fun b hb => absurd hb List.not_mem_nil, fun β σ τ hag => by
        have hatom := (a.inScope env).only σ τ fun v hv => hag v (a.mentions env v hv)
        show (a.inScope env).holds σ = true ↔ (a.inScope env).holds τ = true
        rw [hatom]⟩
  | .not e, env, terms, st, hst, henv, hterms =>
      have h := evaluate_evaluated e env terms st hst henv hterms
      ⟨h.valid, h.grows, h.inScope.not⟩
  | .and es, env, terms, st, hst, henv, hterms =>
      have h := evaluateAll_evaluated es env terms st hst henv hterms
      ⟨h.1, h.2.1, .and h.2.2⟩
  | .or es, env, terms, st, hst, henv, hterms =>
      have h := evaluateAll_evaluated es env terms st hst henv hterms
      ⟨h.1, h.2.1, .or h.2.2⟩
  | .quantifier qfr sorts body, env, terms, st, hst, henv, hterms =>
      have hvars : ∀ v ∈ makeFresh (st.next + 1) sorts ++ env, v.Before (st.enter sorts).next := by
        intro v hv
        rcases List.mem_append.mp hv with hv | hv
        · exact (makeFresh_within _ _ v hv).before
        · exact (henv v hv).mono (by show st.next ≤ st.next + 1 + sorts.length; omega)
      have h := evaluate_evaluated body _ terms (st.enter sorts) (hst.enter sorts) hvars
        fun t ht => (hterms t ht).mono _
      .quantifier hst henv qfr h
  | .letIn e body, env, terms, st, hst, henv, hterms => by
      have h := evaluate_evaluated e env terms st hst henv hterms
      have hterms' : ∀ t ∈ (evaluate env terms e st).1 :: terms, t.InScope (evaluate env terms e st).2.table env := by
        intro t ht
        rcases List.mem_cons.mp ht with rfl | ht
        · exact h.inScope
        · exact (hterms t ht).extend hst h.grows
      have hbody := evaluate_evaluated body env _ _ h.valid (fun v hv => (henv v hv).mono h.grows.next_le) hterms'
      exact ⟨hbody.valid, h.grows.trans hbody.grows, hbody.inScope⟩
  | .ref i, env, terms, st, hst, henv, hterms => by
      refine ⟨hst, .refl st, ?_⟩
      show (terms.getD i (.and [])).InScope st.table env
      rw [List.getD_eq_getElem?_getD]
      cases hi : terms[i]? with
      | none => exact .and fun t ht => absurd ht List.not_mem_nil
      | some t => exact hterms t (List.mem_of_getElem? hi)

theorem evaluateAll_evaluated : ∀ (es : List (Expr C)) (env : List (Var κ)) (terms : List (Term C)) (st : State C),
    st.Valid → (∀ v ∈ env, v.Before st.next) → (∀ t ∈ terms, t.InScope st.table env) →
    (evaluateAll env terms es st).2.Valid ∧ st.Extends (evaluateAll env terms es st).2 ∧
      ∀ t ∈ (evaluateAll env terms es st).1, t.InScope (evaluateAll env terms es st).2.table env
  | [], env, terms, st, hst, henv, hterms => ⟨hst, .refl st, fun t ht => absurd ht List.not_mem_nil⟩
  | e :: es, env, terms, st, hst, henv, hterms => by
      have h := evaluate_evaluated e env terms st hst henv hterms
      have hes := evaluateAll_evaluated es env terms _ h.valid (fun v hv => (henv v hv).mono h.grows.next_le)
        fun t ht => (hterms t ht).extend hst h.grows
      refine ⟨hes.1, h.grows.trans hes.2.1, ?_⟩
      intro t ht
      rcases List.mem_cons.mp ht with rfl | ht
      · exact h.inScope.extend h.valid hes.2.1
      · exact hes.2.2 t ht

end

/-- An expression of the top level looks at declared constants only. -/
theorem run_evaluated (e : Expr C) : Evaluated ⟨0, []⟩ [] (run e).1 (run e).2 := by
  refine evaluate_evaluated e [] [] ⟨0, []⟩ ⟨.nil, ?_⟩ ?_ ?_
  · exact fun q hq => absurd hq List.not_mem_nil
  · exact fun v hv => absurd hv List.not_mem_nil
  · exact fun t ht => absurd ht List.not_mem_nil

theorem satisfiable_of_evaluated {st st' : State C} {t : Term C} (h : Evaluated st [] t st')
    (hsat : (expandQuantifiers st'.table t).Satisfiable) : (skolemize st'.table t).Satisfiable := by
  refine satisfiable_skolemize h.valid.wellFormed h.inScope.known (fun β => (h.inScope.looks β).mono ?_) hsat
  rintro v (hmem | hdecl)
  · exact absurd hmem List.not_mem_nil
  · exact hdecl

/-- `prove` accepts no false theorem: what `skolemize` makes of an expression is satisfiable if its expansion is, so a
theorem whose negation `skolemize` makes unsatisfiable is valid. -/
theorem prove_sound (e : Expr C) :
    ((expandQuantifiers (run e).2.table (run e).1).Satisfiable → (skolemize (run e).2.table (run e).1).Satisfiable) ∧
      (¬ (proveQuery (run e).2.table (run e).1).Satisfiable →
        (expandQuantifiers (run e).2.table (run e).1).Valid) := by
  have h := run_evaluated e
  refine ⟨satisfiable_of_evaluated h, ?_⟩
  intro hunsat σ β
  by_contra hfalse
  have hnot : Evaluated ⟨0, []⟩ [] (.not (run e).1) (run e).2 := ⟨h.valid, h.grows, h.inScope.not⟩
  exact hunsat (satisfiable_of_evaluated hnot ⟨σ, β, hfalse⟩)

/-- A boolean implies itself: `(forall ([x boolean?]) (let ([p x]) (=> p p)))`. -/
def reflexivity : Expr (fun _ : Unit => Bool) :=
  .quantifier .all [()] (.letIn (.atom
    { inScope := fun env =>
        { vars := env
          holds := fun σ => env.all fun v => σ v
          only := fun σ τ hag => by
            have hall : ∀ v ∈ env, (σ v = true ↔ τ v = true) := fun v hv => by rw [hag v hv]
            rw [Bool.eq_iff_iff, List.all_eq_true, List.all_eq_true]
            exact forall₂_congr hall }
      mentions := fun env v hv => .inl hv }) (.implies (.ref 0) (.ref 0)))

theorem prove_sound_reflexivity :
    (skolemize (run reflexivity).2.table (run reflexivity).1).Satisfiable ∧
      (expandQuantifiers (run reflexivity).2.table (run reflexivity).1).Valid := by
  have hunsat : ¬ (proveQuery (run reflexivity).2.table (run reflexivity).1).Satisfiable := by
    rintro ⟨σ, β, hp, hnot, -⟩
    exact hnot hp
  have hvalid := (prove_sound reflexivity).2 hunsat
  exact ⟨(prove_sound reflexivity).1 ⟨fun _ => false, fun _ => True, hvalid _ _⟩, hvalid⟩

end SpecLang
end Serval
