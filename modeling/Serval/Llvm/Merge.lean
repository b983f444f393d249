import Serval.Llvm.MergePoints

/-!
# Execution with merge points

A function called between a branch and its merge block that comes to a block of the merge block's name takes the
caller's entry off the stack: its own block is skipped and the caller's merge block runs twice.  The main result is
that this is the only way to go wrong: when no callee comes to such a block, execution with merge points returns
the value and leaves the memory of plain execution of the control-flow graph, and when one does, a program that
checks its turns gets stuck.
-/

namespace Serval
namespace Llvm

open Filter PostDominance

variable {Val Mem Blk : Type}

/-! ## One block -/

section Simulation

variable {host : Host Val Mem Blk} {prog : Program Val Mem Blk} {inv : Invoke Val Mem Blk} {n k : Nat} {c : Closure}
  {next : Mem → Option (Option Name)} {roots : Name → Set Name} {f : Func Val Mem Blk} {b : Block Val Mem Blk}
  {is : List (Instr Val Mem Blk)} {t : Term Val} {dst : Option Name} {fn y s z : Name} {stack own : List Name}
  {args : List (Regs Val → Option Val)} {m m' p p₁ p' : Machine Val Mem Blk} {v : Option Val}
  {r : Option Val × Machine Val Mem Blk}

theorem runInstrs_op {g : Regs Val → Option Name → Mem → Option (Regs Val × List Blk × Mem)}
    {r : Regs Val × List Blk × Mem} (h : g (m.regs c.act) (m.predecessor c.act) m.mem = some r) :
    runInstrs host prog inv c (.op g :: is) m = runInstrs host prog inv c is
      { m with
        regs := Function.update m.regs c.act r.1
        frame := { m.frame with allocas := r.2.1 ++ m.frame.allocas }
        mem := r.2.2 } := by
  rw [runInstrs, runInstr, h]
  rfl

theorem runInstrs_call (h : call host prog inv fn (args.map fun arg => arg (m.regs c.act)) m = some r) :
    runInstrs host prog inv c (.call dst fn args :: is) m =
      runInstrs host prog inv c is (r.2.setReg c.act dst r.1) := by
  rw [runInstrs, runInstr, h]
  rfl

variable [DecidableEq Val]

/-- A terminator with a next label, in a machine without merge point. -/
theorem runTerm_none (hs : t.next host (m.regs c.act) = some s) (hm : m.mergePoint = none) :
    runTerm host inv c t m = enter inv { c with label := s } m := by
  cases t with
  | brIf test s₁ s₂ => simp [runTerm, hs, hm]
  | br s₁ => simp [runTerm, hs]
  | switch val d cases => simp [runTerm, hs]
  | ret val => cases hs
  | unreachable => cases hs

/-- A conditional branch in a machine with a merge point. -/
theorem runTerm_merge (ht : ∃ test s₁ s₂, t = .brIf test s₁ s₂) (hs : t.next host (m.regs c.act) = some s)
    (hm : m.mergePoint = some { c with label := z }) :
    runTerm host inv c t m =
      (enter inv { c with label := s } { m with mergeStack := z :: m.mergeStack }).bind fun r =>
        inv { c with label := z } r.2 := by
  obtain ⟨test, s₁, s₂, rfl⟩ := ht
  rw [runTerm, hs, Option.bind_some, hm]

/-- What a terminator does in a machine without merge point: it returns, or it enters one of its successors. -/
theorem runTerm_cases (h : runTerm host inv c t m = some r) (hm : m.mergePoint = none) :
    (∃ val, t = .ret val ∧ r = (val (m.regs c.act), m)) ∨
      ∃ s, t.next host (m.regs c.act) = some s ∧ s ∈ t.succs ∧ enter inv { c with label := s } m = some r := by
  have hnext : ∀ s, t.next host (m.regs c.act) = some s → enter inv { c with label := s } m = some r :=
    fun s hs => (runTerm_none hs hm).symm.trans h
  cases t with
  | ret val => exact .inl ⟨val, rfl, by simpa [runTerm] using h.symm⟩
  | unreachable => cases h
  | br s => exact .inr ⟨s, rfl, by simp [Term.succs], hnext s rfl⟩
  | brIf test s₁ s₂ =>
      cases htest : (test (m.regs c.act)).bind host.toBool with
      | none => simp [runTerm, Term.next, htest] at h
      | some taken =>
          have hs : Term.next host (m.regs c.act) (.brIf test s₁ s₂) = some (if taken then s₁ else s₂) := by
            simp [Term.next, htest]
          refine .inr ⟨_, hs, ?_, hnext _ hs⟩
          cases taken <;> simp [Term.succs]
  | switch val d cases =>
      refine .inr ⟨_, rfl, ?_, hnext _ rfl⟩
      cases hfind : cases.find? fun p => val (m.regs c.act) = some p.1 with
      | none => simp [Term.succs]
      | some p =>
          have hp : p ∈ cases := List.mem_of_find?_eq_some hfind
          simpa [Term.succs] using .inl ⟨p.1, hp⟩

/-- A label procedure that runs its block. -/
theorem invoke_block (host : Host Val Mem Blk) (hf : prog c.fn = some f) (hb : f.block? c.label = some b)
    (hhead : m.mergeStack.head? ≠ some c.label) (k : Nat) :
    invoke host prog (k + 1) c m =
      (runInstrs host prog (invoke host prog k) c b.instrs
        { m with mergePoint := b.merge.map fun y => { c with label := y } }).bind
        (runTerm host (invoke host prog k) c b.term) := by
  rw [invoke, if_neg hhead, hf, Option.bind_some, hb, Option.bind_some]

/-- The account at a block that no branch of this activation waits for. -/
theorem invokeApart_block (hf : prog c.fn = some f) (hb : f.block? c.label = some b) (hown : own.head? ≠ some c.label)
    (n : Nat) (outer : Option Name) (m : Machine Val Mem Blk) :
    invokeApart host prog (n + 1) outer own c m =
      if own.head?.or outer = some c.label then none
      else
        (runInstrs host prog (invokeApart host prog n (own.head?.or outer) []) c b.instrs
          { m with mergePoint := none }).bind
          (runTerm host (invokeApart host prog n outer (b.waitsFor ++ own)) c b.term) := by
  have hdrop : own.dropWhile (· == c.label) = own := by
    cases own with
    | nil => rfl
    | cons y own => exact List.dropWhile_cons_of_neg (by simpa using hown)
  rw [invokeApart, hdrop, hf, Option.bind_some, hb, Option.bind_some]

/-- What plain execution of a label procedure did. -/
theorem invoke_erase_cases (h : invoke host prog.erase (n + 1) c p = some r) (hp : p.mergeStack = []) :
    ∃ f b p₁, prog c.fn = some f ∧ f.block? c.label = some b ∧
      runInstrs host prog.erase (invoke host prog.erase n) c b.instrs { p with mergePoint := none } = some p₁ ∧
      runTerm host (invoke host prog.erase n) c b.term p₁ = some r := by
  rw [invoke, if_neg (by simp [hp])] at h
  obtain ⟨b', hb', hrun⟩ := Option.bind_eq_some_iff.mp h
  obtain ⟨f', hf', hblock⟩ := Option.bind_eq_some_iff.mp hb'
  obtain ⟨f, hf, rfl⟩ := Option.map_eq_some_iff.mp hf'
  rw [Func.block?_erase] at hblock
  obtain ⟨b, hb, rfl⟩ := Option.map_eq_some_iff.mp hblock
  obtain ⟨p₁, hbody, hterm⟩ := Option.bind_eq_some_iff.mp hrun
  exact ⟨f, b, p₁, hf, hb, hbody, hterm⟩

/-! ## Execution with merge points and plain execution -/

/-- An execution with a branch of the same activation waiting for block `y`.  Either it comes to `y` in some `q`, from
where plain execution goes on to the same end, or the account stops and execution with merge points gets stuck. -/
def ComesTo (host : Host Val Mem Blk) (prog : Program Val Mem Blk) (next : Mem → Option (Option Name)) (n : Nat)
    (c : Closure) (p : Machine Val Mem Blk) (v : Option Val) (p' : Machine Val Mem Blk) (y : Name)
    (own stack : List Name) (point : Option Closure) : Prop :=
  (∃ q k₀ point', k₀ ≤ n ∧ q.mergeStack = [] ∧ invoke host prog.erase k₀ { c with label := y } q = some (v, p') ∧
      invokeApart host prog n stack.head? (y :: own) c p =
        invokeApart host prog k₀ stack.head? own { c with label := y } q ∧
      ∀ᶠ k in atTop, invoke host prog k c (p.withMerge (y :: (own ++ stack)) point) =
        some (none, q.withMerge (own ++ stack) point')) ∨
    (invokeApart host prog n stack.head? (y :: own) c p = none ∧
      Stuck host prog next fun k => invoke host prog k c (p.withMerge (y :: (own ++ stack)) point))

/-- Plain execution of label `c` from `p` ended with value `v` in `p'`; how execution with merge points follows it. -/
structure Follows (host : Host Val Mem Blk) (prog : Program Val Mem Blk) (next : Mem → Option (Option Name))
    (roots : Name → Set Name) (n : Nat) (c : Closure) (p : Machine Val Mem Blk) (v : Option Val)
    (p' : Machine Val Mem Blk) : Prop where
  plain : p'.mergeStack = [] ∧ p'.mergePoint = none
  /-- the blocks it went through -/
  path : ∀ f, prog c.fn = some f → ∃ π, RootPath f.edge (roots c.fn) c.label π
  /-- with no branch of the same activation waiting, it runs to its end -/
  whole : ∀ stack point, Compares host prog next stack v p' (invokeApart host prog n stack.head? [] c p)
    fun k => invoke host prog k c (p.withMerge stack point)
  /-- with one that waits for block `y`, it runs until it reaches that block -/
  upTo : ∀ f y own stack point, prog c.fn = some f → c.label = y ∨ f.Between y c.label →
    ComesTo host prog next n c p v p' y own stack point

section Calls

variable (ih : ∀ c p v p', p.mergeStack = [] → invoke host prog.erase n c p = some (v, p') →
    Follows host prog next roots n c p v p')
include ih

theorem apply_follows {args : List (Option Val)} (stack : List Name) (point : Option Closure) (hp : p.mergeStack = [])
    (h : apply prog.erase (invoke host prog.erase n) fn args p = some (v, p')) :
    (p'.mergeStack = [] ∧ p'.mergePoint = none) ∧
      Compares host prog next stack v p' (apply prog (invokeApart host prog n stack.head? []) fn args p)
        fun k => apply prog (invoke host prog k) fn args (p.withMerge stack point) := by
  obtain ⟨f', hf', hrun⟩ := Option.bind_eq_some_iff.mp h
  obtain ⟨f, hf, rfl⟩ := Option.map_eq_some_iff.mp hf'
  split_ifs at hrun with hlen
  have hlen' : args.length = f.params.length := hlen
  rw [enter] at hrun
  have hentry := ih _ _ v p' (by exact hp) hrun
  refine ⟨hentry.plain, (hentry.whole stack point).congr ?_ (.of_forall fun k => ?_)⟩
  · rw [apply, hf, Option.bind_some, if_pos hlen']
    rfl
  · rw [apply, hf, Option.bind_some, if_pos hlen']
    rfl

theorem call_follows {args : List (Option Val)} (stack : List Name) (point : Option Closure) (hp : p.mergeStack = [])
    (h : call host prog.erase (invoke host prog.erase n) fn args p = some (v, p')) :
    (p'.mergeStack = [] ∧ p'.mergePoint = none) ∧
      Compares host prog next stack v p' (call host prog (invokeApart host prog n stack.head? []) fn args p)
        fun k => call host prog (invoke host prog k) fn args (p.withMerge stack point) := by
  obtain ⟨⟨v', p₁⟩, happly, hr⟩ := Option.map_eq_some_iff.mp h
  cases hr
  obtain ⟨hplain, hrun⟩ := apply_follows ih stack point
    (p := { p with frame := {}, outer := p.frame :: p.outer }) hp happly
  refine ⟨hplain, ?_⟩
  rcases hrun with ⟨hend, hrun⟩ | ⟨hstop, hlost⟩
  · exact .inl ⟨congrArg (Option.map _) hend, hrun.mono fun k hk => congrArg (Option.map _) hk⟩
  · -- freeing the stack memory of the callee does not change what is next
    refine .inr ⟨congrArg (Option.map _) hstop, fun hturns => (hlost hturns).mono fun k hk r hr => ?_⟩
    obtain ⟨r₁, hr₁, rfl⟩ := Option.map_eq_some_iff.mp hr
    obtain ⟨hstack, l, hl⟩ := hk r₁ hr₁
    exact ⟨hstack, l, (hturns.next_fini ..).trans hl⟩

/-- The instructions of a block.  After a call the merge point is none: the last block of the callee was one that
returns. -/
theorem runInstrs_follows (stack : List Name) (point : Option Closure) (hp : p.mergeStack = [] ∧ p.mergePoint = none)
    (h : runInstrs host prog.erase (invoke host prog.erase n) c is p = some p') :
    (p'.mergeStack = [] ∧ p'.mergePoint = none) ∧
      ((runInstrs host prog (invokeApart host prog n stack.head? []) c is p = some p' ∧
          ∀ᶠ k in atTop, runInstrs host prog (invoke host prog k) c is (p.withMerge stack point)
            = some (p'.withMerge stack (if is.any Instr.isCall then none else point))) ∨
        (runInstrs host prog (invokeApart host prog n stack.head? []) c is p = none ∧
          (ReturnsInTurn next is → Stuck host prog next
            fun k => runInstrs host prog (invoke host prog k) c is (p.withMerge stack point)))) := by
  induction is generalizing p point with
  | nil =>
      cases h
      exact ⟨hp, .inl ⟨rfl, .of_forall fun k => rfl⟩⟩
  | cons i is ihs =>
      obtain ⟨p₁, hfirst, hrest⟩ := Option.bind_eq_some_iff.mp h
      cases i with
      | op g =>
          obtain ⟨r, hr, rfl⟩ := Option.map_eq_some_iff.mp hfirst
          obtain ⟨hp', hrun⟩ := ihs point (by exact hp) hrest
          refine ⟨hp', ?_⟩
          rcases hrun with ⟨hend, hrun⟩ | ⟨hstop, hlost⟩
          · exact .inl ⟨(runInstrs_op hr).trans hend,
              hrun.mono fun k hk => (runInstrs_op (m := p.withMerge stack point) hr).trans hk⟩
          · exact .inr ⟨(runInstrs_op hr).trans hstop, fun hreturns =>
              (hlost hreturns).congr (.of_forall fun k => runInstrs_op (m := p.withMerge stack point) hr)⟩
      | call dst fn args =>
          obtain ⟨⟨v, p₁⟩, hcall, rfl⟩ := Option.map_eq_some_iff.mp hfirst
          obtain ⟨⟨hstack, hpoint⟩, hrun⟩ := call_follows ih stack point hp.1 hcall
          obtain ⟨hp', hrest'⟩ := ihs none
            ⟨(Machine.mergeStack_setReg ..).trans hstack, (Machine.mergePoint_setReg ..).trans hpoint⟩ hrest
          refine ⟨hp', ?_⟩
          rcases hrun with ⟨hend, hrun⟩ | ⟨hstop, hlost⟩
          · have happly : ∀ᶠ k in atTop, runInstrs host prog (invoke host prog k) c (.call dst fn args :: is)
                (p.withMerge stack point) = runInstrs host prog (invoke host prog k) c is
                  ((p₁.setReg c.act dst v).withMerge stack none) :=
              hrun.mono fun k hk => by rw [runInstrs_call hk, Machine.withMerge_setReg]
            rcases hrest' with ⟨hend', hrun'⟩ | ⟨hstop', hlost'⟩
            · refine .inl ⟨(runInstrs_call hend).trans hend', (happly.and hrun').mono fun k hk => ?_⟩
              exact hk.1.trans (hk.2.trans (by simp [Instr.isCall]))
            · exact .inr ⟨(runInstrs_call hend).trans hstop', fun hreturns =>
                (hlost' hreturns.2).congr happly⟩
          · -- the call has returned when a block is next, so what follows it does not run
            refine .inr ⟨by rw [runInstrs, runInstr, hstop]; rfl, fun hreturns hturns => ?_⟩
            obtain ⟨⟨g, is', rfl, hreturn⟩, -⟩ := hreturns
            refine (hlost hturns).mono fun k hk => Option.bind_eq_none_iff.mpr fun m₁ hm₁ => ?_
            obtain ⟨r, hr, rfl⟩ := Option.map_eq_some_iff.mp hm₁
            obtain ⟨-, l, hl⟩ := hk r hr
            refine Option.bind_eq_none_iff.mpr fun m₂ hm₂ => ?_
            obtain ⟨r', hr', rfl⟩ := Option.map_eq_some_iff.mp hm₂
            have hnone := hreturn _ _ _ r' hr'
            rw [Machine.mem_setReg, hl] at hnone
            cases hnone

/-- A block that no branch waits for, up to its terminator. -/
theorem block_follows (own stack : List Name) (point : Option Closure) (hp : p.mergeStack = [])
    (hf : prog c.fn = some f) (hb : f.block? c.label = some b) (hhead : (own ++ stack).head? ≠ some c.label)
    (hbody : runInstrs host prog.erase (invoke host prog.erase n) c b.instrs { p with mergePoint := none } = some p₁) :
    (invokeApart host prog (n + 1) stack.head? own c p =
          runTerm host (invokeApart host prog n stack.head? (b.waitsFor ++ own)) c b.term p₁ ∧
        ∀ᶠ k in atTop, invoke host prog (k + 1) c (p.withMerge (own ++ stack) point) =
          runTerm host (invoke host prog k) c b.term
            (p₁.withMerge (own ++ stack) (b.waitsFor.head?.map fun y => { c with label := y }))) ∨
      (invokeApart host prog (n + 1) stack.head? own c p = none ∧
        Stuck host prog next fun k => invoke host prog k c (p.withMerge (own ++ stack) point)) := by
  have hown : own.head? ≠ some c.label := fun h => hhead (by simp [List.head?_append, h])
  have hpoint : (b.waitsFor.head?.map fun y => { c with label := y }) =
      if b.instrs.any Instr.isCall then none else b.merge.map fun y => { c with label := y } := by
    unfold Block.waitsFor
    split_ifs
    · rfl
    · cases b.merge <;> rfl
  have hblock := invoke_block host (m := p.withMerge (own ++ stack) point) hf hb hhead
  rw [invokeApart_block hf hb hown, ← List.head?_append, if_neg hhead, hpoint]
  rcases (runInstrs_follows ih (p := { p with mergePoint := none }) (own ++ stack)
    (b.merge.map fun y => { c with label := y }) ⟨hp, rfl⟩ hbody).2 with ⟨hend, hrun⟩ | ⟨hstop, hlost⟩
  · refine .inl ⟨by rw [hend, Option.bind_some], hrun.mono fun k hk => (hblock k).trans ?_⟩
    exact congrArg (Option.bind · _) hk
  · refine .inr ⟨by rw [hstop, Option.bind_none], fun hturns => ?_⟩
    exact (((hlost (hturns.returns _ f _ b hf hb)).bind _).congr (.of_forall hblock)).of_succ hturns

end Calls

/-! ## The main induction -/

section Main

/-- The block that a waiting branch of the same activation waits for: nothing has run yet, and the entry is taken
off. -/
theorem upTo_here (hy : c.label = y) (hp : p.mergeStack = []) (h : invoke host prog.erase (n + 1) c p = some (v, p'))
    (own stack : List Name) (point : Option Closure) :
    ComesTo host prog next (n + 1) c p v p' y own stack point := by
  subst hy
  refine .inl ⟨p, n + 1, point, le_rfl, hp, h, ?_, eventually_of_succ (.of_forall fun k => if_pos rfl)⟩
  simp [invokeApart]

/-- The block that a caller waits for: plain execution runs it, and execution with merge points returns. -/
theorem clash_compares (hclash : stack.head? = some c.label) (hp : p.mergeStack = [])
    (h : invoke host prog.erase (n + 1) c p = some (v, p')) (point : Option Closure) :
    Compares host prog next stack v p' (invokeApart host prog (n + 1) stack.head? [] c p)
      fun k => invoke host prog k c (p.withMerge stack point) := by
  refine .inr ⟨by simp [invokeApart, hclash], fun hturns => eventually_of_succ (.of_forall fun k r hr => ?_)⟩
  obtain rfl : (none, { p.withMerge stack point with mergeStack := stack.tail }) = r :=
    Option.some.inj ((if_pos hclash).symm.trans hr)
  obtain ⟨f, b, p₁, hf, hb, hbody, -⟩ := invoke_erase_cases h hp
  obtain ⟨g, is, his, hname⟩ := hturns.named _ f _ b hf hb
  rw [his] at hbody
  obtain ⟨m₁, hfirst, -⟩ := Option.bind_eq_some_iff.mp hbody
  obtain ⟨r, hr, -⟩ := Option.map_eq_some_iff.mp hfirst
  have hne : stack ≠ [] := by
    rintro rfl
    cases hclash
  exact ⟨hne, c.label, hname _ _ _ r hr⟩

variable (ih : ∀ c p v p', p.mergeStack = [] → invoke host prog.erase n c p = some (v, p') →
  Follows host prog next roots n c p v p')
include ih

/-- A block that returns. -/
theorem follows_ret {val : Regs Val → Option Val} (hp : p.mergeStack = []) (hf : prog c.fn = some f)
    (hb : f.block? c.label = some b) (hemit : f.Emitted (roots c.fn)) (ht : b.term = .ret val)
    (hbody : runInstrs host prog.erase (invoke host prog.erase n) c b.instrs { p with mergePoint := none } = some p₁)
    (h : invoke host prog.erase (n + 1) c p = some (val (p₁.regs c.act), p₁)) :
    Follows host prog next roots (n + 1) c p (val (p₁.regs c.act)) p₁ := by
  have hroot : c.label ∈ roots c.fn := (hemit c.label b hb).1 (by simp [ht, Term.succs])
  have hwaits : b.waitsFor = [] := by
    rcases b.waitsFor_cases with hnone | ⟨z, -, hz⟩
    · exact hnone
    · obtain ⟨test, s, t, hbr, -⟩ := hemit.nearestCommon hb hz
      cases hbr.symm.trans ht
  refine ⟨?_, ?_, ?_, ?_⟩
  · exact (runInstrs_follows ih (p := { p with mergePoint := none }) [] none ⟨hp, rfl⟩ hbody).1
  · exact fun f' _ => ⟨_, .root hroot⟩
  · intro stack point
    by_cases hclash : stack.head? = some c.label
    · exact clash_compares hclash hp h point
    · rcases block_follows ih [] stack point hp hf hb hclash hbody with ⟨hend, hrun⟩ | ⟨hstop, hlost⟩
      · refine .inl ⟨hend.trans (by rw [ht]; rfl), eventually_of_succ (hrun.mono fun k hk => hk.trans ?_)⟩
        rw [ht, hwaits]
        rfl
      · exact hlost.compares hstop
  · intro f' y own stack point hf' hy
    rcases hy with hy | hy
    · exact upTo_here hy hp h own stack point
    · -- a block that returns is post-dominated by itself only
      obtain rfl : f = f' := Option.some.inj (hf.symm.trans hf')
      obtain ⟨hpd, hne⟩ := hy.postDom hemit
      exact absurd (hpd.eq_of_root hroot).symm hne

section Next

-- a block that goes on to label `s`
variable (hp : p.mergeStack = []) (hf : prog c.fn = some f) (hb : f.block? c.label = some b)
  (hemit : f.Emitted (roots c.fn)) (hs : b.term.next host (p₁.regs c.act) = some s)
  (hbody : runInstrs host prog.erase (invoke host prog.erase n) c b.instrs { p with mergePoint := none } = some p₁)
include hp hf hb hemit hs hbody

/-- It enters `s` with the stack as it is, or with its merge block `z` pushed, and then calls `z` when that returns;
or a call has gone astray. -/
theorem next_cases (own stack : List Name) (point : Option Closure) (hhead : (own ++ stack).head? ≠ some c.label) :
    (invokeApart host prog (n + 1) stack.head? own c p =
          invokeApart host prog n stack.head? own { c with label := s } (p₁.moveTo { c with label := s }) ∧
        ∀ᶠ k in atTop, invoke host prog (k + 1) c (p.withMerge (own ++ stack) point) =
          invoke host prog k { c with label := s } ((p₁.moveTo { c with label := s }).withMerge (own ++ stack) none)) ∨
      (∃ z, b.merge = some z ∧
        invokeApart host prog (n + 1) stack.head? own c p =
          invokeApart host prog n stack.head? (z :: own) { c with label := s } (p₁.moveTo { c with label := s }) ∧
        ∀ᶠ k in atTop, invoke host prog (k + 1) c (p.withMerge (own ++ stack) point) =
          (invoke host prog k { c with label := s } ((p₁.moveTo { c with label := s }).withMerge
            (z :: (own ++ stack)) (some { c with label := z }))).bind
              fun r => invoke host prog k { c with label := z } r.2) ∨
      (invokeApart host prog (n + 1) stack.head? own c p = none ∧
        Stuck host prog next fun k => invoke host prog k c (p.withMerge (own ++ stack) point)) := by
  have hp₁ := (runInstrs_follows ih (p := { p with mergePoint := none }) [] none ⟨hp, rfl⟩ hbody).1
  rcases block_follows ih own stack point hp hf hb hhead hbody with ⟨hend, hrun⟩ | hlost
  · rw [runTerm_none hs hp₁.2] at hend
    rcases b.waitsFor_cases with hz | ⟨z, hz, hmerge⟩
    · rw [hz] at hend hrun
      refine .inl ⟨hend, hrun.mono fun k hk => hk.trans ?_⟩
      exact runTerm_none (m := p₁.withMerge (own ++ stack) none) hs rfl
    · rw [hz] at hend hrun
      obtain ⟨test, s₁, s₂, ht, -⟩ := hemit.nearestCommon hb hmerge
      refine .inr (.inl ⟨z, hmerge, hend, hrun.mono fun k hk => hk.trans ?_⟩)
      exact runTerm_merge (m := p₁.withMerge (own ++ stack) (some { c with label := z })) ⟨test, s₁, s₂, ht⟩ hs rfl
  · exact .inr (.inr hlost)

variable (ihs : ∀ k ≤ n, ∀ c p v p', p.mergeStack = [] → invoke host prog.erase k c p = some (v, p') →
    Follows host prog next roots k c p v p')
  (hmem : s ∈ b.term.succs)
  (hfollow : Follows host prog next roots n { c with label := s } (p₁.moveTo { c with label := s }) v p')
include ihs hmem hfollow

theorem next_whole (stack : List Name) (point : Option Closure) (hhead : stack.head? ≠ some c.label) :
    Compares host prog next stack v p' (invokeApart host prog (n + 1) stack.head? [] c p)
      fun k => invoke host prog k c (p.withMerge stack point) := by
  rcases next_cases ih hp hf hb hemit hs hbody [] stack point hhead with
    ⟨hend, hgo⟩ | ⟨z, hz, hend, hpush⟩ | ⟨hstop, hlost⟩
  · exact ((hfollow.whole stack none).congr hend hgo).of_succ
  · -- up to the merge block `z`, and from there to the end
    rcases hfollow.upTo f z [] stack (some { c with label := z }) hf (Func.between_of_succ hb hz hmem) with
      ⟨q, k₀, point', hk₀, hq, hplain, hsame, hupTo⟩ | ⟨hstop, hlost⟩
    · refine (((ihs k₀ hk₀ _ q v p' hq hplain).whole stack point').congr (hend.trans hsame)
        ((hpush.and hupTo).mono fun k hk => ?_)).of_succ
      exact hk.1.trans (congrArg (Option.bind · _) hk.2)
    · exact ((hlost.bind _).congr hpush).of_succ.compares (hend.trans hstop)
  · exact hlost.compares hstop

theorem next_upTo (hy : f.Between y c.label) (own stack : List Name) (point : Option Closure) :
    ComesTo host prog next (n + 1) c p v p' y own stack point := by
  have hedge : f.edge c.label s := ⟨b, hb, hmem⟩
  have hhead : (y :: own ++ stack).head? ≠ some c.label := fun hh => (hy.postDom hemit).2 (Option.some.inj hh).symm
  rcases next_cases ih hp hf hb hemit hs hbody (y :: own) stack point hhead with
    ⟨hend, hgo⟩ | ⟨z, hz, hend, hpush⟩ | ⟨hstop, hlost⟩
  · rcases hfollow.upTo f y own stack none hf (hy.step hedge) with
      ⟨q, k₀, point', hk₀, hq, hplain, hsame, hupTo⟩ | ⟨hstop, hlost⟩
    · exact .inl ⟨q, k₀, point', hk₀.trans (Nat.le_succ n), hq, hplain, hend.trans hsame,
        eventually_of_succ ((hgo.and hupTo).mono fun k hk => hk.1.trans hk.2)⟩
    · exact .inr ⟨hend.trans hstop, (hlost.congr hgo).of_succ⟩
  · -- up to the inner merge block `z`, and from there up to `y`
    rcases hfollow.upTo f z (y :: own) stack (some { c with label := z }) hf (Func.between_of_succ hb hz hmem) with
      ⟨q, k₀, point', hk₀, hq, hplain, hsame, hupTo⟩ | ⟨hstop, hlost⟩
    · have hgo := (hpush.and hupTo).mono fun k hk => hk.1.trans (congrArg (Option.bind · _) hk.2)
      obtain ⟨π, hπ⟩ := hfollow.path f hf
      rcases (ihs k₀ hk₀ _ q v p' hq hplain).upTo f y own stack point' hf (hy.inner hemit hb hz hmem hπ) with
        ⟨q', k₁, point'', hk₁, hq', hplain', hsame', hupTo'⟩ | ⟨hstop', hlost'⟩
      · exact .inl ⟨q', k₁, point'', by omega, hq', hplain', hend.trans (hsame.trans hsame'),
          eventually_of_succ ((hgo.and hupTo').mono fun k hk => hk.1.trans hk.2)⟩
      · exact .inr ⟨hend.trans (hsame.trans hstop'), (hlost'.congr hgo).of_succ⟩
    · exact .inr ⟨hend.trans hstop, ((hlost.bind _).congr hpush).of_succ⟩
  · exact .inr ⟨hstop, hlost⟩

omit hfollow in
theorem follows_next
    (hnext : invoke host prog.erase n { c with label := s } (p₁.moveTo { c with label := s }) = some (v, p'))
    (h : invoke host prog.erase (n + 1) c p = some (v, p')) :
    Follows host prog next roots (n + 1) c p v p' := by
  have hp₁ := (runInstrs_follows ih (p := { p with mergePoint := none }) [] none ⟨hp, rfl⟩ hbody).1
  have hfollow := ih _ _ v p' (by exact hp₁.1) hnext
  refine ⟨hfollow.plain, ?_, ?_, ?_⟩
  · intro f' hf'
    obtain rfl : f = f' := Option.some.inj (hf.symm.trans hf')
    obtain ⟨π, hπ⟩ := hfollow.path f hf
    exact ⟨_, .step ⟨b, hb, hmem⟩ hπ⟩
  · intro stack point
    by_cases hclash : stack.head? = some c.label
    · exact clash_compares hclash hp h point
    · exact next_whole ih hp hf hb hemit hs hbody ihs hmem hfollow stack point hclash
  · intro f' y own stack point hf' hy
    obtain rfl : f = f' := Option.some.inj (hf.symm.trans hf')
    rcases hy with hy | hy
    · exact upTo_here hy hp h own stack point
    · exact next_upTo ih hp hf hb hemit hs hbody ihs hmem hfollow hy own stack point

end Next

end Main

/-- Every terminating plain execution of a label is followed by execution with merge points. -/
theorem invoke_follows (hprog : ∀ fn f, prog fn = some f → f.Emitted (roots fn)) (next : Mem → Option (Option Name))
    (n : Nat) (c : Closure) (p : Machine Val Mem Blk) (v : Option Val) (p' : Machine Val Mem Blk)
    (hp : p.mergeStack = []) (h : invoke host prog.erase n c p = some (v, p')) :
    Follows host prog next roots n c p v p' := by
  -- the fuel of the plain execution bounds the blocks it still has to run, also from a merge block on
  induction n using Nat.strong_induction_on generalizing c p v p' with
  | _ n ih =>
      cases n with
      | zero => cases h
      | succ n =>
          have ihs : ∀ k ≤ n, ∀ c p v p', p.mergeStack = [] → invoke host prog.erase k c p = some (v, p') →
              Follows host prog next roots k c p v p' := fun k hk => ih k (Nat.lt_succ_of_le hk)
          obtain ⟨f, b, p₁, hf, hb, hbody, hterm⟩ := invoke_erase_cases h hp
          have hemit := hprog c.fn f hf
          have hp₁ := (runInstrs_follows (ihs n le_rfl) (p := { p with mergePoint := none }) [] none ⟨hp, rfl⟩
            hbody).1
          rcases runTerm_cases hterm hp₁.2 with ⟨val, ht, hr⟩ | ⟨s, hs, hmem, hnext⟩
          · cases hr
            exact follows_ret (ihs n le_rfl) hp hf hb hemit ht hbody h
          · exact follows_next (ihs n le_rfl) hp hf hb hemit hs hbody ihs hmem hnext h

/-- In every program that the translator emits, a function whose plain execution ends returns with merge points the
same value and leaves the same memory if its run keeps block names apart.  The condition is exact: when the program
checks its turns, it returns the same value and leaves the same memory only if its run keeps them apart. -/
theorem run_eq_plain (host : Host Val Mem Blk) (prog : Program Val Mem Blk)
    (hprog : ∀ fn f, prog fn = some f → ∃ roots, f.Emitted roots) (fn : Name) (args : List (Option Val))
    (mem mem' : Mem) (v : Option Val) (n : Nat) (h : run host prog.erase n fn args mem = some (v, mem')) :
    (RunsApart host prog n fn args mem → ∃ k₀, ∀ k ≥ k₀, run host prog k fn args mem = some (v, mem')) ∧
      ∀ next, ChecksTurns host prog next → (∃ k₀, ∀ k ≥ k₀, run host prog k fn args mem = some (v, mem')) →
        RunsApart host prog n fn args mem := by
  have hroots : ∀ fn, ∃ roots, ∀ f, prog fn = some f → f.Emitted roots := by
    intro fn
    cases hf : prog fn with
    | none => exact ⟨∅, fun f hf' => by cases hf'⟩
    | some f =>
        obtain ⟨roots, hemit⟩ := hprog fn f hf
        exact ⟨roots, fun f' hf' => Option.some.inj hf' ▸ hemit⟩
  choose roots hroots using hroots
  obtain ⟨⟨v', p'⟩, happly, hr⟩ := Option.map_eq_some_iff.mp h
  cases hr
  have hcompare := fun next => (apply_follows (invoke_follows hroots next n) [] none rfl happly).2
  constructor
  · intro hapart
    rcases hcompare (fun _ => none) with ⟨-, hrun⟩ | ⟨hstop, -⟩
    · obtain ⟨k₀, hk₀⟩ := eventually_atTop.mp hrun
      exact ⟨k₀, fun k hk => congrArg (Option.map _) (hk₀ k hk)⟩
    · cases hapart.symm.trans (congrArg Option.isSome hstop)
  · rintro next hturns ⟨k₀, hk₀⟩
    rcases hcompare next with ⟨hend, -⟩ | ⟨-, hlost⟩
    · exact congrArg Option.isSome hend
    · -- with enough fuel for both, it returns and no caller waits
      obtain ⟨k₁, hk₁⟩ := eventually_atTop.mp (hlost hturns)
      obtain ⟨r, hr, -⟩ := Option.map_eq_some_iff.mp (hk₀ (max k₀ k₁) (le_max_left ..))
      exact absurd rfl (hk₁ (max k₀ k₁) (le_max_right ..) r hr).1

end Simulation

/-! ## Functions of the shape `if (c) …; …` -/

/-- `entry` branches on a variable to `if.then` or to `done`, and `if.then` goes on to `done`.  The blocks start with
the instructions that `mark` has for their names. -/
def ifThen (mark : Option Name → List (Instr Nat Mem Unit)) (param done : Name)
    (then_ last : List (Instr Nat Mem Unit)) : Func Nat Mem Unit where
  params := [param]
  entry := "entry"
  blocks :=
    [⟨"entry", some done, mark (some "entry"), .brIf (fun regs => regs param) "if.then" done⟩,
     ⟨"if.then", none, mark (some "if.then") ++ then_, .br done⟩,
     ⟨done, none, mark (some done) ++ last, .ret fun regs => regs param⟩]

/-- Natural numbers as values. -/
def counter : Host Nat Mem Unit where
  toBool := fun v => some (v != 0)
  fini := fun _ mem => mem

/-- `f` calls `g` between its branch and the merge block. -/
def caller (mark : Option Name → List (Instr Nat Mem Unit)) (lastF lastG : List (Instr Nat Mem Unit)) (done : Name) :
    Program Nat Mem Unit
  | "f" => some (ifThen mark "c" "if.end" (.call none "g" [fun regs => regs "c"] :: mark none) lastF)
  | "g" => some (ifThen mark "x" done [] lastG)
  | _ => none

def addTo (k : Nat) : Instr Nat Nat Unit :=
  .op fun regs _ mem => some (regs, [], mem + k)

/-- Both functions end in a block that counts; memory is one number. -/
def counting : Name → Program Nat Nat Unit :=
  caller (fun _ => []) [addTo 1] [addTo 10]

/-- Both functions check their turns; memory is the list of what is to come. -/
def checking : Name → Program Nat (List (Option Name)) Unit :=
  caller (fun e => [.op fun regs _ mem => if mem.head? = some e then some (regs, [], mem.tail) else none]) [] []

section Clash

variable {mark : Option Name → List (Instr Nat Mem Unit)} {fn param done l : Name}
  {then_ last lastF lastG : List (Instr Nat Mem Unit)} {b : Block Nat Mem Unit}

theorem ifThen_block?_cases (h : (ifThen mark param done then_ last).block? l = some b) :
    (l = "entry" ∧ b = ⟨"entry", some done, mark (some "entry"), .brIf (fun regs => regs param) "if.then" done⟩) ∨
      (l = "if.then" ∧ b = ⟨"if.then", none, mark (some "if.then") ++ then_, .br done⟩) ∨
      (l = done ∧ b = ⟨done, none, mark (some done) ++ last, .ret fun regs => regs param⟩) := by
  have hname : b.name = l := by simpa using List.find?_some h
  have hmem := List.mem_of_find?_eq_some h
  simp only [ifThen, List.mem_cons, List.not_mem_nil, or_false] at hmem
  rcases hmem with rfl | rfl | rfl
  · exact .inl ⟨hname.symm, rfl⟩
  · exact .inr (.inl ⟨hname.symm, rfl⟩)
  · exact .inr (.inr ⟨hname.symm, rfl⟩)

theorem ifThen_emitted (hdone : done ≠ "if.then") : (ifThen mark param done then_ last).Emitted {done} := by
  -- the only way on from `if.then` is `done`
  have hpd : PostDom (ifThen mark param done then_ last).edge {done} done "if.then" := by
    intro π hπ
    cases hπ with
    | root hr => exact absurd hr.symm hdone
    | step he hπ' =>
        obtain ⟨b, hb, hs⟩ := he
        rcases ifThen_block?_cases hb with ⟨hl, -⟩ | ⟨-, rfl⟩ | ⟨hl, -⟩
        · exact absurd hl (by decide)
        · obtain rfl := List.mem_singleton.mp hs
          exact List.mem_cons_of_mem _ hπ'.mem_self
        · exact absurd hl.symm hdone
  intro l b hb
  rcases ifThen_block?_cases hb with ⟨-, rfl⟩ | ⟨-, rfl⟩ | ⟨rfl, rfl⟩
  · exact ⟨fun h => (List.cons_ne_nil _ _ h).elim, .of_postDom hpd⟩
  · exact ⟨fun h => (List.cons_ne_nil _ _ h).elim, trivial⟩
  · exact ⟨fun _ => rfl, trivial⟩

theorem caller_cases {f : Func Nat Mem Unit} (h : caller mark lastF lastG done fn = some f) :
    f = ifThen mark "c" "if.end" (.call none "g" [fun regs => regs "c"] :: mark none) lastF ∨
      f = ifThen mark "x" done [] lastG := by
  unfold caller at h
  split at h
  · exact .inl (Option.some.inj h).symm
  · exact .inr (Option.some.inj h).symm
  · cases h

theorem caller_emitted (hdone : done ≠ "if.then") (fn : Name) (f : Func Nat Mem Unit)
    (h : caller mark lastF lastG done fn = some f) : ∃ roots, f.Emitted roots := by
  rcases caller_cases h with rfl | rfl
  · exact ⟨_, ifThen_emitted (by decide)⟩
  · exact ⟨_, ifThen_emitted hdone⟩

theorem checking_checksTurns (done : Name) : ChecksTurns counter (checking done) List.head? := by
  have hcheck : ∀ e, RunsAt List.head? e fun (regs : Regs Nat) (_ : Option Name) mem =>
      if mem.head? = some e then some (regs, ([] : List Unit), mem.tail) else none := by
    intro e regs pred mem r h
    by_contra hne
    simp [hne] at h
  refine ⟨fun _ _ => rfl, fun fn f l b hf hb => ?_, fun fn f l b hf hb => ?_⟩
  · rcases caller_cases hf with rfl | rfl <;> rcases ifThen_block?_cases hb with ⟨-, rfl⟩ | ⟨-, rfl⟩ | ⟨-, rfl⟩ <;>
      simp [ReturnsInTurn, hcheck]
  · rcases caller_cases hf with rfl | rfl <;> rcases ifThen_block?_cases hb with ⟨rfl, rfl⟩ | ⟨rfl, rfl⟩ | ⟨rfl, rfl⟩ <;>
      exact ⟨_, _, rfl, hcheck _⟩

/-- Without a call nothing clashes, and neither do different names.  With the call and the same names, the functions
that check their turns get stuck. -/
theorem run_eq_plain_apart :
    (∃ k₀, ∀ k ≥ k₀, run counter (counting "if.end") k "f" [some 0] 0 = some (some 0, 1)) ∧
      (∃ k₀, ∀ k ≥ k₀, run counter (counting "exit") k "f" [some 1] 0 = some (some 1, 11)) ∧
      ∃ mem, run counter (checking "if.end").erase 9 "f" [some 1] mem = some (some 1, []) ∧
        ¬ ∃ k₀, ∀ k ≥ k₀, run counter (checking "if.end") k "f" [some 1] mem = some (some 1, []) := by
  refine ⟨?_, ?_, [some "entry", some "if.then", some "entry", some "if.then", some "if.end", none, some "if.end"], rfl,
    fun hsame => ?_⟩
  · exact (run_eq_plain counter (counting "if.end") (caller_emitted (by decide)) "f" [some 0] 0 1 (some 0) 9 rfl).1
      (by decide)
  · exact (run_eq_plain counter (counting "exit") (caller_emitted (by decide)) "f" [some 1] 0 11 (some 1) 9 rfl).1
      (by decide)
  · have hapart := (run_eq_plain counter (checking "if.end") (caller_emitted (by decide)) "f" [some 1] _ [] (some 1) 9
      rfl).2 List.head? (checking_checksTurns "if.end") hsame
    exact absurd hapart (by decide)

/-- When both last blocks are named `if.end`, that of `g` is skipped and that of `f` runs twice: execution with merge
points never ends with the memory of plain execution. -/
theorem merge_names_clash :
    (∀ fn f, counting "if.end" fn = some f → ∃ roots, f.Emitted roots) ∧
      run counter (counting "if.end").erase 9 "f" [some 1] 0 = some (some 1, 11) ∧
      ∀ k, run counter (counting "if.end") k "f" [some 1] 0 ≠ some (some 1, 11) := by
  refine ⟨caller_emitted (by decide), rfl, fun k => ?_⟩
  have hend : ∀ k, run counter (counting "if.end") (k + 6) "f" [some 1] 0 = some (some 1, 2) := fun _ => rfl
  have hshort : ∀ k < 6, run counter (counting "if.end") k "f" [some 1] 0 ≠ some (some 1, 11) := by decide
  rcases Nat.lt_or_ge k 6 with hk | hk
  · exact hshort k hk
  · obtain ⟨k, rfl⟩ := Nat.exists_eq_add_of_le' hk
    rw [hend]
    decide

end Clash

end Llvm
end Serval
