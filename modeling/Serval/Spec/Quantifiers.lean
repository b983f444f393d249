import Serval.Lib.Witnesses

/-!
# Quantifiers — the specification language of `serval/spec/lang/expander.rkt`

A quantifier of the language evaluates to a fresh boolean; `quantifier-hash` says which quantified formula the boolean
stands for.  The variables of a quantifier are fresh constants, made before its body is evaluated.  `expand-quantifiers`
puts the formulas back; `skolemize` drops existential quantifiers where it can and leaves some booleans as they are.

A term is built from its parts as they are: what Rosette simplifies when it builds one, which keeps the value of the
term, is left out, and so are the native quantifiers of Rosette, which the language does not offer.
-/

namespace Serval
namespace SpecLang

open Lib

/-! ## Variables and atoms -/

/-- A symbolic constant: one that a specification declares, or one that `make-fresh` makes. -/
inductive Var (κ : Type)
  | declared (sort : κ) (n : Nat)
  | fresh (sort : κ) (n : Nat)
  deriving DecidableEq

variable {κ : Type}

namespace Var

def sort : Var κ → κ
  | declared s _ => s
  | fresh s _ => s

def IsDeclared : Var κ → Prop
  | declared _ _ => True
  | fresh _ _ => False

/-- Made before the number `n` was given out. -/
def Before (n : Nat) : Var κ → Prop
  | declared _ _ => True
  | fresh _ k => k < n

/-- Made with a number from `m` on, before `n`. -/
def Within (m n : Nat) : Var κ → Prop
  | declared _ _ => False
  | fresh _ k => m ≤ k ∧ k < n

end Var

/-- The values of all constants, in the carriers of their sorts. -/
abbrev Assignment (C : κ → Type) := ∀ v : Var κ, C v.sort

/-- A formula without quantifiers, with the constants that it mentions. -/
structure Atom (C : κ → Type) where
  vars : List (Var κ)
  holds : Assignment C → Bool
  only : ∀ σ τ : Assignment C, (∀ v ∈ vars, σ v = τ v) → holds σ = holds τ

variable {C : κ → Type}

/-! ## Terms -/

inductive Qfr
  | all | ex
  deriving DecidableEq, Repr

/-- What an expression of the language evaluates to; `quantified b` is the boolean of a quantifier. -/
inductive Term (C : κ → Type)
  | atom (a : Atom C)
  | not (e : Term C)
  | and (es : List (Term C))
  | or (es : List (Term C))
  | quantified (b : Nat)

/-- `quantifier`, with the boolean under which `quantifier-hash` has it. -/
structure Quantifier (C : κ → Type) where
  name : Nat
  qfr : Qfr
  vars : List (Var κ)
  body : Term C

/-- `quantifier-hash`, the newest entry first: a body mentions older entries only. -/
abbrev Table (C : κ → Type) := List (Quantifier C)

/-- A formula for the solver, to which the boolean of a quantifier is a constant like others. -/
inductive Smt (C : κ → Type)
  | atom (a : Atom C)
  | bool (b : Nat)
  | not (e : Smt C)
  | and (es : List (Smt C))
  | or (es : List (Smt C))
  | quant (qfr : Qfr) (vars : List (Var κ)) (body : Smt C)

mutual

/-- The value of a formula. -/
def Smt.Holds (σ : Assignment C) (β : Nat → Prop) : Smt C → Prop
  | .atom a => a.holds σ = true
  | .bool b => β b
  | .not e => ¬ e.Holds σ β
  | .and es => Smt.HoldsAll σ β es
  | .or es => Smt.HoldsAny σ β es
  | .quant .all vars e => ∀ τ, AgreeOff {v | v ∈ vars} σ τ → e.Holds τ β
  | .quant .ex vars e => ∃ τ, AgreeOff {v | v ∈ vars} σ τ ∧ e.Holds τ β

def Smt.HoldsAll (σ : Assignment C) (β : Nat → Prop) : List (Smt C) → Prop
  | [] => True
  | e :: es => e.Holds σ β ∧ Smt.HoldsAll σ β es

def Smt.HoldsAny (σ : Assignment C) (β : Nat → Prop) : List (Smt C) → Prop
  | [] => False
  | e :: es => e.Holds σ β ∨ Smt.HoldsAny σ β es

end

def Smt.Satisfiable (e : Smt C) : Prop :=
  ∃ σ β, e.Holds σ β

def Smt.Valid (e : Smt C) : Prop :=
  ∀ σ β, e.Holds σ β

/-! ## `expand-quantifiers` -/

mutual

/-- A term as a formula, with formulas for the booleans of quantifiers. -/
def Term.substitute (f : Nat → Smt C) : Term C → Smt C
  | .atom a => .atom a
  | .not e => .not (e.substitute f)
  | .and es => .and (Term.substituteAll f es)
  | .or es => .or (Term.substituteAll f es)
  | .quantified b => f b

def Term.substituteAll (f : Nat → Smt C) : List (Term C) → List (Smt C)
  | [] => []
  | e :: es => e.substitute f :: Term.substituteAll f es

end

/-- The term as it is. -/
def Term.leave (e : Term C) : Smt C :=
  e.substitute .bool

/-- What the boolean of a quantifier stands for. -/
def expansion : Table C → Nat → Smt C
  | [], b => .bool b
  | q :: T, b =>
      if b = q.name then .quant q.qfr q.vars (q.body.substitute (expansion T)) else expansion T b

/-- `expand-quantifiers`. -/
def expandQuantifiers (T : Table C) (e : Term C) : Smt C :=
  e.substitute (expansion T)

/-! ## `skolemize` -/

mutual

/-- `skolemize`, given its results for the boolean of a quantifier and for the negation of one. -/
def Term.skolem (pos neg : Nat → Smt C) : Term C → Smt C
  | .not e => e.skolemNot pos neg
  | .quantified b => pos b
  | .atom a => .atom a
  | .and es => (Term.and es).leave
  | .or es => (Term.or es).leave

/-- `skolemize` of a negation. -/
def Term.skolemNot (pos neg : Nat → Smt C) : Term C → Smt C
  | .or es => .and (Term.skolemNotAll pos neg es)
  | .and es => .or (Term.skolemNotAll pos neg es)
  | .not e => e.skolem pos neg
  | .quantified b => neg b
  | .atom a => .not (.atom a)

def Term.skolemNotAll (pos neg : Nat → Smt C) : List (Term C) → List (Smt C)
  | [] => []
  | e :: es => e.skolemNot pos neg :: Term.skolemNotAll pos neg es

end

/-- `skolemize` of the boolean of a quantifier, or of its negation.  A negated quantifier is entered as its dual, with
the negated body, under a fresh boolean that is then skolemized; here that entry is used right away. -/
def skolemAt : Table C → Bool → Nat → Smt C
  | [], true, b => .bool b
  | [], false, b => .not (.bool b)
  | q :: T, positive, b =>
      if b = q.name then
        match q.qfr, positive with
        | .ex, true => q.body.skolem (skolemAt T true) (skolemAt T false)
        | .all, true => .quant .all q.vars (expandQuantifiers T q.body)
        -- a negation turns one quantifier into the other
        | .ex, false => .quant .all q.vars (expandQuantifiers T (.not q.body))
        | .all, false => (Term.not q.body).skolem (skolemAt T true) (skolemAt T false)
      else skolemAt T positive b

/-- `skolemize`. -/
def skolemize (T : Table C) (e : Term C) : Smt C :=
  e.skolem (skolemAt T true) (skolemAt T false)

/-- The formula that `prove` hands to the solver, which has to find it unsatisfiable. -/
def proveQuery (T : Table C) (thm : Term C) : Smt C :=
  skolemize T (.not thm)

/-! ## Evaluation -/

/-- An atom of an expression: it mentions declared constants and the variables of the quantifiers around it, the
innermost first. -/
structure ScopedAtom (C : κ → Type) where
  inScope : List (Var κ) → Atom C
  mentions : ∀ env, ∀ v ∈ (inScope env).vars, v ∈ env ∨ v.IsDeclared

/-- An expression of the language.  `letIn` evaluates its first part once, and `ref` shares the result. -/
inductive Expr (C : κ → Type)
  | atom (a : ScopedAtom C)
  | not (e : Expr C)
  | and (es : List (Expr C))
  | or (es : List (Expr C))
  | quantifier (qfr : Qfr) (sorts : List κ) (body : Expr C)
  | letIn (e body : Expr C)
  | ref (i : Nat)

/-- `=>` of Rosette. -/
def Expr.implies (e e' : Expr C) : Expr C :=
  .or [.not e, e']

/-- The next number of the oracle, and `quantifier-hash`. -/
structure State (C : κ → Type) where
  next : Nat
  table : Table C

/-- `make-fresh` of one constant for each sort. -/
def makeFresh (n : Nat) : List κ → List (Var κ)
  | [] => []
  | s :: sorts => .fresh s n :: makeFresh (n + 1) sorts

mutual

/-- The term of an expression, and the quantifiers that it enters. -/
def evaluate (env : List (Var κ)) (terms : List (Term C)) : Expr C → State C → Term C × State C
  | .atom a, st => (.atom (a.inScope env), st)
  | .not e, st =>
      let (t, st) := evaluate env terms e st
      (.not t, st)
  | .and es, st =>
      let (ts, st) := evaluateAll env terms es st
      (.and ts, st)
  | .or es, st =>
      let (ts, st) := evaluateAll env terms es st
      (.or ts, st)
  | .quantifier qfr sorts body, st =>
      let b := st.next
      let vars := makeFresh (st.next + 1) sorts
      let (t, st) := evaluate (vars ++ env) terms body ⟨st.next + 1 + sorts.length, st.table⟩
      (.quantified b, ⟨st.next, ⟨b, qfr, vars, t⟩ :: st.table⟩)
  | .letIn e body, st =>
      let (t, st) := evaluate env terms e st
      evaluate env (t :: terms) body st
  | .ref i, st => (terms.getD i (.and []), st)

def evaluateAll (env : List (Var κ)) (terms : List (Term C)) : List (Expr C) → State C → List (Term C) × State C
  | [], st => ([], st)
  | e :: es, st =>
      let (t, st) := evaluate env terms e st
      let (ts, st) := evaluateAll env terms es st
      (t :: ts, st)

end

/-- Evaluate an expression of the top level. -/
def run (e : Expr C) : Term C × State C :=
  evaluate [] [] e ⟨0, []⟩

end SpecLang
end Serval
