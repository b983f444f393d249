import Mathlib.Order.Filter.AtTopBot.Basic
import Serval.Lib.PostDominance
import Serval.Llvm.Control

/-!
# Merge points

A block that ends in a conditional branch is annotated with the nearest common post-dominator of its two
successors.  At run time the branch pushes that name on the merge stack, runs the chosen successor until a label
of that name takes it off again, and then calls the merge block.

The merge stack belongs to the machine and its entries are bare names, while a block name is unique within its
function only.  This module says what the translator emits, which blocks lie between a branch and its merge block,
and what it means that a run keeps the names of its functions apart: plain execution with an account of the merge
blocks that branches wait for meets no block that has the name a caller waits for.  For the converse it describes
programs whose memory says what is to run next.
-/

namespace Serval
namespace Llvm

open Filter PostDominance

variable {Val Mem Blk : Type}

/-! ## What the translator emits -/

/-- The control-flow graph of a function. -/
def Func.edge (f : Func Val Mem Blk) (l l' : Name) : Prop :=
  ∃ b, f.block? l = some b ∧ l' ∈ b.term.succs

/-- The merge annotation of a block, for post-dominance with the given roots. -/
def Func.Annotated (f : Func Val Mem Blk) (roots : Set Name) (b : Block Val Mem Blk) : Prop :=
  match b.term, b.merge with
  | .brIf _ s t, some y => NearestCommon f.edge roots y s t
  | _, some _ => False
  | _, none => True

/-- A function as the translator emits it.  The roots of the post-dominator tree are the blocks without
successors and possibly more, such as a block of each endless loop. -/
def Func.Emitted (f : Func Val Mem Blk) (roots : Set Name) : Prop :=
  ∀ l b, f.block? l = some b → (b.term.succs = [] → l ∈ roots) ∧ f.Annotated roots b

/-- Block `l` lies between a conditional branch and its merge block `y`. -/
def Func.Between (f : Func Val Mem Blk) (y l : Name) : Prop :=
  ∃ l₀ b s, f.block? l₀ = some b ∧ b.merge = some y ∧ s ∈ b.term.succs ∧ s ≠ y ∧ Avoiding f.edge y s l

section Graph

variable {f : Func Val Mem Blk} {roots : Set Name} {l l' y z : Name} {b : Block Val Mem Blk}

/-- Only a conditional branch is annotated, with the nearest common post-dominator of its successors. -/
theorem Func.Emitted.nearestCommon (hf : f.Emitted roots) (hb : f.block? l = some b) (hy : b.merge = some y) :
    ∃ test s t, b.term = .brIf test s t ∧ NearestCommon f.edge roots y s t := by
  have h := (hf l b hb).2
  unfold Func.Annotated at h
  cases ht : b.term with
  | brIf test s t => exact ⟨test, s, t, rfl, by simpa [ht, hy] using h⟩
  | ret _ => simp [ht, hy] at h
  | br _ => simp [ht, hy] at h
  | switch _ _ _ => simp [ht, hy] at h
  | unreachable => simp [ht, hy] at h

theorem Func.Emitted.postDom_succ (hf : f.Emitted roots) (hb : f.block? l = some b) (hy : b.merge = some y)
    (hl' : l' ∈ b.term.succs) : PostDom f.edge roots y l' := by
  obtain ⟨test, s, t, ht, hcommon⟩ := hf.nearestCommon hb hy
  have hmem : l' = s ∨ l' = t := by simpa [ht, Term.succs] using hl'
  rcases hmem with rfl | rfl
  · exact hcommon.left
  · exact hcommon.right

theorem Func.Between.postDom (hf : f.Emitted roots) (h : f.Between y l) : PostDom f.edge roots y l ∧ l ≠ y := by
  obtain ⟨l₀, b, s, hb, hy, hs, hne, hwalk⟩ := h
  exact (hf.postDom_succ hb hy hs).of_avoiding hne hwalk

theorem Func.Between.step (h : f.Between y l) (he : f.edge l l') : l' = y ∨ f.Between y l' := by
  obtain ⟨l₀, b, s, hb, hy, hs, hne, hwalk⟩ := h
  by_cases hl' : l' = y
  · exact .inl hl'
  · exact .inr ⟨l₀, b, s, hb, hy, hs, hne, hwalk.tail ⟨he, hl'⟩⟩

theorem Func.between_of_succ (hb : f.block? l = some b) (hy : b.merge = some y) (hs : l' ∈ b.term.succs) :
    l' = y ∨ f.Between y l' := by
  by_cases hl' : l' = y
  · exact .inl hl'
  · exact .inr ⟨l, b, l', hb, hy, hs, hl', .refl⟩

/-- The merge block of a branch inside lies between the outer branch and its merge block, or is that block. -/
theorem Func.Between.inner {π : List Name} (hf : f.Emitted roots) (h : f.Between y l) (hb : f.block? l = some b)
    (hz : b.merge = some z) (hs : l' ∈ b.term.succs) (hπ : RootPath f.edge roots l' π) :
    z = y ∨ f.Between y z := by
  obtain ⟨test, s, t, ht, hcommon⟩ := hf.nearestCommon hb hz
  obtain ⟨hpd, hne⟩ := h.postDom hf
  have hedge : ∀ u ∈ b.term.succs, f.edge l u := fun u hu => ⟨b, hb, hu⟩
  -- the outer merge block post-dominates both successors, hence the inner merge block
  have hyz : PostDom f.edge roots y z :=
    hcommon.nearest y (hpd.succ hne (hedge s (by simp [ht, Term.succs])))
      (hpd.succ hne (hedge t (by simp [ht, Term.succs])))
  have hzl' : PostDom f.edge roots z l' := hf.postDom_succ hb hz hs
  rcases h.step (hedge l' hs) with rfl | ⟨l₀, b₀, s₀, hb₀, hy₀, hs₀, hne₀, hwalk⟩
  · exact .inl (hzl'.antisymm hyz hπ)
  · by_cases hzy : z = y
    · exact .inl hzy
    · have hl' : l' ≠ y := (Func.Between.postDom hf ⟨l₀, b₀, s₀, hb₀, hy₀, hs₀, hne₀, hwalk⟩).2
      exact .inr ⟨l₀, b₀, s₀, hb₀, hy₀, hs₀, hne₀, hwalk.trans (hπ.avoiding_of_postDom hl' hzy hzl' hyz)⟩

end Graph

/-! ## Erasing the annotations -/

theorem Func.block?_erase (f : Func Val Mem Blk) (l : Name) :
    f.erase.block? l = (f.block? l).map fun b => { b with merge := none } := by
  unfold Func.block? Func.erase
  induction f.blocks with
  | nil => rfl
  | cons b bs ih =>
      simp only [List.map_cons, List.find?_cons]
      cases b.name == l
      · exact ih
      · rfl

namespace Machine

variable (m : Machine Val Mem Blk) (stack : List Name) (point : Option Closure)

/-- The same machine with another merge stack and merge point. -/
def withMerge : Machine Val Mem Blk :=
  { m with mergeStack := stack, mergePoint := point }

variable {m}

theorem withMerge_setReg (act : Nat) (dst : Option Name) (v : Option Val) :
    (m.setReg act dst v).withMerge stack point = (m.withMerge stack point).setReg act dst v := by
  cases dst with
  | none => rfl
  | some x => rfl

theorem mergeStack_setReg (act : Nat) (dst : Option Name) (v : Option Val) :
    (m.setReg act dst v).mergeStack = m.mergeStack := by
  cases dst with
  | none => rfl
  | some x => rfl

theorem mergePoint_setReg (act : Nat) (dst : Option Name) (v : Option Val) :
    (m.setReg act dst v).mergePoint = m.mergePoint := by
  cases dst with
  | none => rfl
  | some x => rfl

theorem mem_setReg (act : Nat) (dst : Option Name) (v : Option Val) : (m.setReg act dst v).mem = m.mem := by
  cases dst with
  | none => rfl
  | some x => rfl

end Machine

/-! ## The account of waiting merge blocks -/

def Instr.isCall : Instr Val Mem Blk → Bool
  | .op _ => false
  | .call _ _ _ => true

/-- The merge block that the branch at the end of a block waits for.  A call leaves the machine without merge point,
because the last block of the callee was one that returns. -/
def Block.waitsFor (b : Block Val Mem Blk) : List Name :=
  if b.instrs.any Instr.isCall then [] else b.merge.toList

theorem Block.waitsFor_cases (b : Block Val Mem Blk) : b.waitsFor = [] ∨ ∃ z, b.waitsFor = [z] ∧ b.merge = some z := by
  unfold Block.waitsFor
  split_ifs
  · exact .inl rfl
  · cases hmerge : b.merge with
    | none => exact .inl rfl
    | some z => exact .inr ⟨z, rfl, rfl⟩

section Account

variable [DecidableEq Val] (host : Host Val Mem Blk) (prog : Program Val Mem Blk)

/-- Plain execution with an account of the merge blocks that branches wait for: `own` are those of this activation,
innermost first, and `outer` is the innermost one of its callers.  It stops at a block that has the name its callers
wait for. -/
def invokeApart : Nat → Option Name → List Name → Invoke Val Mem Blk
  | 0, _, _, _, _ => none
  | n + 1, outer, own, c, m =>
      -- the branches of this activation that wait for this block wait no longer
      let own := own.dropWhile (· == c.label)
      let waiting := own.head?.or outer
      if waiting = some c.label then none
      else
        ((prog c.fn).bind fun f => f.block? c.label).bind fun b =>
          (runInstrs host prog (invokeApart n waiting []) c b.instrs { m with mergePoint := none }).bind
            (runTerm host (invokeApart n outer (b.waitsFor ++ own)) c b.term)

/-- In the run of a function no callee comes to a block that has the name of the merge block its callers wait for. -/
def RunsApart (n : Nat) (fn : Name) (args : List (Option Val)) (mem : Mem) : Prop :=
  (apply prog (invokeApart host prog n none []) fn args (makeMachine mem)).isSome

instance (n : Nat) (fn : Name) (args : List (Option Val)) (mem : Mem) :
    Decidable (RunsApart host prog n fn args mem) :=
  inferInstanceAs (Decidable (_ = true))

end Account

/-! ## Programs that check their turn -/

section Turns

variable (host : Host Val Mem Blk) (prog : Program Val Mem Blk) (next : Mem → Option (Option Name))

/-- The instruction runs only when memory says that `e` is next. -/
def RunsAt (e : Option Name) (g : Regs Val → Option Name → Mem → Option (Regs Val × List Blk × Mem)) : Prop :=
  ∀ regs pred mem r, g regs pred mem = some r → next mem = some e

/-- What follows a call runs only when a return is next. -/
def ReturnsInTurn : List (Instr Val Mem Blk) → Prop
  | [] => True
  | .op _ :: is => ReturnsInTurn is
  | .call _ _ _ :: is => (∃ g is', is = .op g :: is' ∧ RunsAt next none g) ∧ ReturnsInTurn is

/-- Memory says what is to come, the name of a block or a return, and every block and what follows every call checks
that it is its turn. -/
structure ChecksTurns : Prop where
  fini : ∀ blk mem, next (host.fini blk mem) = next mem
  returns : ∀ fn f l b, prog fn = some f → f.block? l = some b → ReturnsInTurn next b.instrs
  named : ∀ fn f l b, prog fn = some f → f.block? l = some b → ∃ g is, b.instrs = .op g :: is ∧ RunsAt next (some l) g

/-- Where the program checks its turns, execution with merge points gets stuck. -/
def Stuck {R : Type} (x : Nat → Option R) : Prop :=
  ChecksTurns host prog next → ∀ᶠ k in atTop, x k = none

/-- A whole execution of a label procedure that ends plainly with value `v` in `p'`.  Either the account `a` comes to
its end and execution with merge points ends in the same way; or the account stops, and execution with merge points
gets stuck or returns to a caller when a block is next. -/
def Compares (stack : List Name) (v : Option Val) (p' : Machine Val Mem Blk)
    (a : Option (Option Val × Machine Val Mem Blk)) (x : Nat → Option (Option Val × Machine Val Mem Blk)) : Prop :=
  (a = some (v, p') ∧ ∀ᶠ k in atTop, x k = some (v, p'.withMerge stack none)) ∨
    (a = none ∧ (ChecksTurns host prog next → ∀ᶠ k in atTop, ∀ r, x k = some r →
      stack ≠ [] ∧ ∃ l, next r.2.mem = some (some l)))

variable {host prog next} {R R' : Type} {x y : Nat → Option R} {v : Option Val} {p' : Machine Val Mem Blk}
  {stack : List Name} {a a' : Option (Option Val × Machine Val Mem Blk)}
  {run run' : Nat → Option (Option Val × Machine Val Mem Blk)}

theorem ChecksTurns.next_fini (h : ChecksTurns host prog next) (blks : List Blk) (mem : Mem) :
    next (blks.foldl (fun mem blk => host.fini blk mem) mem) = next mem := by
  induction blks generalizing mem with
  | nil => rfl
  | cons blk blks ih => exact (ih _).trans (h.fini blk mem)

theorem eventually_of_succ {P : Nat → Prop} (h : ∀ᶠ k in atTop, P (k + 1)) : ∀ᶠ k in atTop, P k := by
  rwa [← map_add_atTop_eq_nat 1, eventually_map]

theorem Stuck.of_succ (h : Stuck host prog next fun k => x (k + 1)) : Stuck host prog next x :=
  fun hturns => eventually_of_succ (h hturns)

theorem Stuck.congr (h : Stuck host prog next x) (hy : ∀ᶠ k in atTop, y k = x k) : Stuck host prog next y :=
  fun hturns => (hy.and (h hturns)).mono fun _ hk => hk.1.trans hk.2

theorem Stuck.bind (h : Stuck host prog next x) (f : Nat → R → Option R') :
    Stuck host prog next fun k => (x k).bind (f k) :=
  fun hturns => (h hturns).mono fun k hk => congrArg (Option.bind · (f k)) hk

theorem Stuck.compares (h : Stuck host prog next run) (ha : a = none) :
    Compares host prog next stack v p' a run :=
  .inr ⟨ha, fun hturns => (h hturns).mono fun _ hk _ hr => by cases hk.symm.trans hr⟩

theorem Compares.congr (h : Compares host prog next stack v p' a run) (ha : a' = a)
    (hrun : ∀ᶠ k in atTop, run' k = run k) : Compares host prog next stack v p' a' run' := by
  rcases h with ⟨hend, hsame⟩ | ⟨hstop, hlost⟩
  · exact .inl ⟨ha.trans hend, (hrun.and hsame).mono fun k hk => hk.1.trans hk.2⟩
  · exact .inr ⟨ha.trans hstop, fun hturns => (hrun.and (hlost hturns)).mono fun k hk r hr => hk.2 r (hk.1 ▸ hr)⟩

theorem Compares.of_succ (h : Compares host prog next stack v p' a fun k => run (k + 1)) :
    Compares host prog next stack v p' a run :=
  h.imp (And.imp_right eventually_of_succ) (And.imp_right fun hlost hturns => eventually_of_succ (hlost hturns))

end Turns

end Llvm
end Serval
