import Serval.Lib.ParallelCopy
import Serval.Llvm.Control

/-!
# Phi nodes

The phi nodes of an LLVM block are assigned at once, from the values that the variables had before the block was
entered.  `RosetteEmitter.cc` writes each of them as an assignment `(set! x (phi [v label] ...))` of its own, so the
generated code assigns them one after the other.  This module compares the two: on one entry of a block, in a loop,
and for whole programs.
-/

namespace Serval
namespace Llvm

open Lib

variable {Val Mem Blk : Type}

/-! ## Blocks with phi nodes -/

/-- `getRef` of a value: a variable of the function or a constant. -/
abbrev Operand (Val : Type) := Source Name (Option Val)

/-- A phi node with its incoming values and the blocks they come from. -/
structure PhiNode (Val : Type) where
  name : Name
  incoming : List (Operand Val × Name)

/-- `(phi [val label] ...)`: the value of the first clause for the predecessor, and `(void)` if there is none. -/
def PhiNode.select (p : PhiNode Val) (pred : Option Name) : Operand Val :=
  match p.incoming.find? fun clause => some clause.2 = pred with
  | some clause => clause.1
  | none => .const none

def PhiNode.copy (pred : Option Name) (p : PhiNode Val) : Copy Name (Option Val) :=
  ⟨p.name, p.select pred⟩

/-- `visitPHINode` writes `(set! name (phi ...))`. -/
def visitPHINode (p : PhiNode Val) : Instr Val Mem Blk :=
  .op fun regs pred mem => some (Function.update regs p.name ((p.select pred).eval regs), [], mem)

/-- An LLVM basic block; the names of its phi nodes are distinct, as all names of a function are. -/
structure IrBlock (Val Mem Blk : Type) where
  name : Name
  merge : Option Name
  phis : List (PhiNode Val)
  distinct : (phis.map PhiNode.name).Nodup
  instrs : List (Instr Val Mem Blk)
  term : Term Val

structure IrFunction (Val Mem Blk : Type) where
  params : List Name
  blocks : List (IrBlock Val Mem Blk)
  entry : Name

def emitBasicBlock (b : IrBlock Val Mem Blk) : Block Val Mem Blk where
  name := b.name
  merge := b.merge
  instrs := b.phis.map visitPHINode ++ b.instrs
  term := b.term

def emitFunction (f : IrFunction Val Mem Blk) : Func Val Mem Blk where
  params := f.params
  blocks := f.blocks.map emitBasicBlock
  entry := f.entry

/-! ## The meaning of phi nodes in LLVM -/

/-- All phi nodes at once: every incoming value is that before the block. -/
def assignPhis (phis : List (PhiNode Val)) (pred : Option Name) (regs : Regs Val) : Regs Val :=
  simultaneous (phis.map (PhiNode.copy pred)) regs

/-- The block with one instruction that assigns all phi nodes. -/
def IrBlock.atOnce (b : IrBlock Val Mem Blk) : Block Val Mem Blk where
  name := b.name
  merge := b.merge
  instrs := (.op fun regs pred mem => some (assignPhis b.phis pred regs, [], mem)) :: b.instrs
  term := b.term

def IrFunction.atOnce (f : IrFunction Val Mem Blk) : Func Val Mem Blk where
  params := f.params
  blocks := f.blocks.map IrBlock.atOnce
  entry := f.entry

/-- No phi node takes, from this predecessor, an earlier phi node of the block whose own incoming value differs from
the value it has. -/
def PhisUndisturbed (phis : List (PhiNode Val)) (pred : Option Name) (regs : Regs Val) : Prop :=
  (phis.map (PhiNode.copy pred)).Pairwise (Undisturbed regs)

/-! ## One entry -/

/-- The machine with other variables in one activation. -/
def Machine.withRegs (m : Machine Val Mem Blk) (act : Nat) (regs : Regs Val) : Machine Val Mem Blk :=
  { m with regs := Function.update m.regs act regs }

section Entry

variable (host : Host Val Mem Blk) (prog : Program Val Mem Blk) (inv : Invoke Val Mem Blk) (c : Closure)

/-- The emitted assignments run one after the other. -/
theorem runInstrs_visitPHINode (phis : List (PhiNode Val)) (rest : List (Instr Val Mem Blk))
    (m : Machine Val Mem Blk) :
    runInstrs host prog inv c (phis.map visitPHINode ++ rest) m =
      runInstrs host prog inv c rest (m.withRegs c.act
        (sequential (phis.map (PhiNode.copy (m.predecessor c.act))) (m.regs c.act))) := by
  induction phis generalizing m with
  | nil =>
      have hsame : m.withRegs c.act (m.regs c.act) = m := by
        rw [Machine.withRegs, Function.update_eq_self]
      simp only [List.map_nil, List.nil_append, sequential, List.foldl_nil, hsame]
  | cons p phis ih =>
      let m' := m.withRegs c.act (p.copy (m.predecessor c.act) |>.run (m.regs c.act))
      have hfirst : runInstr host prog inv c (visitPHINode p) m = some m' := rfl
      have hpred : m'.predecessor c.act = m.predecessor c.act := rfl
      have hregs : m'.regs c.act = (p.copy (m.predecessor c.act)).run (m.regs c.act) := Function.update_self ..
      have hregs' : ∀ regs, m'.withRegs c.act regs = m.withRegs c.act regs := fun regs => by
        simp only [m', Machine.withRegs, Function.update_idem]
      rw [List.map_cons, List.cons_append, runInstrs, hfirst, Option.bind_some, ih, hpred, hregs, hregs']
      rfl

theorem map_target_copy (phis : List (PhiNode Val)) (pred : Option Name) :
    (phis.map (PhiNode.copy pred)).map Copy.target = phis.map PhiNode.name := by
  rw [List.map_map]
  rfl

theorem sequential_eq_assignPhis_iff (b : IrBlock Val Mem Blk) (pred : Option Name) (regs : Regs Val) :
    sequential (b.phis.map (PhiNode.copy pred)) regs = assignPhis b.phis pred regs ↔
      PhisUndisturbed b.phis pred regs :=
  sequential_eq_iff ((map_target_copy b.phis pred).symm ▸ b.distinct)

theorem Machine.withRegs_inj {m : Machine Val Mem Blk} {act : Nat} {regs regs' : Regs Val} :
    m.withRegs act regs = m.withRegs act regs' ↔ regs = regs' := by
  constructor
  · intro h
    simpa [Machine.withRegs] using congrFun (congrArg Machine.regs h) act
  · rintro rfl
    rfl

end Entry

/-! ## Loops -/

/-- The machine after the emitted assignments of a block. -/
def enterEmitted (c : Closure) (b : IrBlock Val Mem Blk) (m : Machine Val Mem Blk) : Machine Val Mem Blk :=
  m.withRegs c.act (sequential (b.phis.map (PhiNode.copy (m.predecessor c.act))) (m.regs c.act))

/-- The machine after LLVM's assignment of all phi nodes of a block. -/
def enterAtOnce (c : Closure) (b : IrBlock Val Mem Blk) (m : Machine Val Mem Blk) : Machine Val Mem Blk :=
  m.withRegs c.act (assignPhis b.phis (m.predecessor c.act) (m.regs c.act))

theorem enterEmitted_eq_iff (c : Closure) (b : IrBlock Val Mem Blk) (m : Machine Val Mem Blk) :
    enterEmitted c b m = enterAtOnce c b m ↔
      PhisUndisturbed b.phis (m.predecessor c.act) (m.regs c.act) :=
  Machine.withRegs_inj.trans (sequential_eq_assignPhis_iff ..)

/-- The emitted phi nodes of a block have LLVM's meaning exactly on entries where no phi node takes an earlier one
that changes: on every entry, whatever the block is entered from, and in every loop with this header, whatever the
rest of its iteration does, for any number of iterations. -/
theorem phis_parallel_iff (host : Host Val Mem Blk) (prog : Program Val Mem Blk) (inv : Invoke Val Mem Blk)
    (c : Closure) (b : IrBlock Val Mem Blk) :
    (∀ m : Machine Val Mem Blk,
      runInstrs host prog inv c (b.phis.map visitPHINode) m =
          some (m.withRegs c.act (assignPhis b.phis (m.predecessor c.act) (m.regs c.act))) ↔
        PhisUndisturbed b.phis (m.predecessor c.act) (m.regs c.act)) ∧
    ∀ (body : Machine Val Mem Blk → Machine Val Mem Blk) (m : Machine Val Mem Blk) (n : Nat),
      (∀ k < n, runInstrs host prog inv c (b.phis.map visitPHINode) ((body ∘ enterEmitted c b)^[k] m) =
          some (enterAtOnce c b ((body ∘ enterAtOnce c b)^[k] m))) ↔
        ∀ k < n, PhisUndisturbed b.phis (((body ∘ enterAtOnce c b)^[k] m).predecessor c.act)
          (((body ∘ enterAtOnce c b)^[k] m).regs c.act) := by
  have hrun : ∀ m, runInstrs host prog inv c (b.phis.map visitPHINode) m = some (enterEmitted c b m) := fun m => by
    simpa [runInstrs, enterEmitted] using runInstrs_visitPHINode host prog inv c b.phis [] m
  refine ⟨fun m => ?_, fun body m n => ?_⟩
  · rw [hrun, Option.some_inj]
    exact enterEmitted_eq_iff c b m
  · simp only [hrun, Option.some_inj]
    rw [headers_agree_iff]
    exact forall₂_congr fun k _ => enterEmitted_eq_iff c b _

/-! ## Programs -/

/-- No phi node takes an earlier phi node of its block from any predecessor, unless that one keeps its value. -/
def IrBlock.Independent (b : IrBlock Val Mem Blk) : Prop :=
  ∀ pred, (b.phis.map (PhiNode.copy pred)).Pairwise fun p q => q.source = .var p.target → p.source = .var p.target

theorem IrBlock.Independent.undisturbed {b : IrBlock Val Mem Blk} (h : b.Independent) (pred : Option Name)
    (regs : Regs Val) : PhisUndisturbed b.phis pred regs :=
  (h pred).imp fun hpq hread => by rw [hpq hread, Source.eval]

section Programs

variable (host : Host Val Mem Blk) (prog : Name → Option (IrFunction Val Mem Blk)) (inv : Invoke Val Mem Blk)

/-- The program as it is emitted. -/
def emitProgram : Program Val Mem Blk :=
  fun fn => (prog fn).map emitFunction

/-- The program with LLVM's phi nodes. -/
def programAtOnce : Program Val Mem Blk :=
  fun fn => (prog fn).map IrFunction.atOnce

theorem apply_emitProgram (fn : Name) (args : List (Option Val)) (m : Machine Val Mem Blk) :
    apply (emitProgram prog) inv fn args m = apply (programAtOnce prog) inv fn args m := by
  unfold apply emitProgram programAtOnce
  cases prog fn with
  | none => rfl
  | some f => rfl

theorem runInstr_emitProgram (c : Closure) (i : Instr Val Mem Blk) (m : Machine Val Mem Blk) :
    runInstr host (emitProgram prog) inv c i m = runInstr host (programAtOnce prog) inv c i m := by
  cases i with
  | op f => rfl
  | call dst fn args => rw [runInstr, runInstr, call, call, apply_emitProgram]

theorem runInstrs_emitProgram (c : Closure) (is : List (Instr Val Mem Blk)) (m : Machine Val Mem Blk) :
    runInstrs host (emitProgram prog) inv c is m = runInstrs host (programAtOnce prog) inv c is m := by
  induction is generalizing m with
  | nil => rfl
  | cons i is ih =>
      rw [runInstrs, runInstrs, runInstr_emitProgram]
      exact congrArg _ (funext ih)

/-- One block: the assignments of its phi nodes and the instructions after them. -/
theorem runInstrs_emitBasicBlock (c : Closure) {b : IrBlock Val Mem Blk} (hb : b.Independent)
    (m : Machine Val Mem Blk) :
    runInstrs host (emitProgram prog) inv c (emitBasicBlock b).instrs m =
      runInstrs host (programAtOnce prog) inv c b.atOnce.instrs m := by
  have hphis := (sequential_eq_assignPhis_iff b (m.predecessor c.act) (m.regs c.act)).mpr (hb.undisturbed _ _)
  calc runInstrs host (emitProgram prog) inv c (emitBasicBlock b).instrs m
      = runInstrs host (emitProgram prog) inv c b.instrs (enterEmitted c b m) :=
        runInstrs_visitPHINode host _ inv c b.phis b.instrs m
    _ = runInstrs host (emitProgram prog) inv c b.instrs (enterAtOnce c b m) := by
        rw [enterEmitted, hphis, enterAtOnce]
    _ = runInstrs host (programAtOnce prog) inv c b.instrs (enterAtOnce c b m) :=
        runInstrs_emitProgram host prog inv c b.instrs _
    _ = runInstrs host (programAtOnce prog) inv c b.atOnce.instrs m := rfl

/-- The block of a label, in the function and in what becomes of it. -/
theorem find?_map_block (f : IrFunction Val Mem Blk) (g : IrBlock Val Mem Blk → Block Val Mem Blk)
    (hg : ∀ b, (g b).name = b.name) (l : Name) :
    (f.blocks.map g).find? (fun b => b.name == l) = (f.blocks.find? fun b => b.name == l).map g := by
  rw [List.find?_map]
  congr 2
  funext b
  simp [hg]

/-- If no block has phi nodes that disturb each other, emitted programs run as LLVM runs them. -/
theorem invoke_emitProgram [DecidableEq Val] (hprog : ∀ fn f, prog fn = some f → ∀ b ∈ f.blocks, b.Independent)
    (n : Nat) : invoke host (emitProgram prog) n = invoke host (programAtOnce prog) n := by
  induction n with
  | zero => rfl
  | succ n ih =>
      funext c m
      rw [invoke, invoke, ih]
      split_ifs with htop
      · rfl
      · cases hf : prog c.fn with
        | none => simp [emitProgram, programAtOnce, hf]
        | some f =>
            have hemit : (emitFunction f).block? c.label =
                (f.blocks.find? fun b => b.name == c.label).map emitBasicBlock :=
              find?_map_block f _ (fun _ => rfl) _
            have honce : f.atOnce.block? c.label = (f.blocks.find? fun b => b.name == c.label).map IrBlock.atOnce :=
              find?_map_block f _ (fun _ => rfl) _
            cases hb : f.blocks.find? fun b => b.name == c.label with
            | none => simp [emitProgram, programAtOnce, hf, hemit, honce, hb]
            | some b =>
                have hindependent := hprog c.fn f hf b (List.mem_of_find?_eq_some hb)
                simp only [emitProgram, programAtOnce, hf, hemit, honce, hb, Option.map_some, Option.bind_some]
                exact congrArg (Option.bind · _) (runInstrs_emitBasicBlock host prog _ c hindependent _)

theorem run_emitProgram [DecidableEq Val] (hprog : ∀ fn f, prog fn = some f → ∀ b ∈ f.blocks, b.Independent)
    (fuel : Nat) (fn : Name) (args : List (Option Val)) (mem : Mem) :
    run host (emitProgram prog) fuel fn args mem = run host (programAtOnce prog) fuel fn args mem := by
  rw [run, run, invoke_emitProgram host prog hprog, apply_emitProgram]

end Programs

/-- Conditions are numbers other than zero, and nothing is left to do at the end. -/
def numHost : Host Nat Nat Unit where
  toBool := fun v => some (v != 0)
  fini := fun _ mem => mem

/-- `target := x + y` on the variables of the function. -/
def setSum (target x y : Name) : Instr Nat Nat Unit :=
  .op fun regs _ mem =>
    (regs x).bind fun v => (regs y).map fun w => (Function.update regs target (some (v + w)), [], mem)

/-- A loop that runs three times: `x` takes the old value of `y`, and `y` the sum of both. -/
def fibonacci : IrFunction Nat Nat Unit where
  params := []
  blocks := [⟨"entry", none, [], by decide, [], .br "loop"⟩,
    ⟨"loop", none,
      [⟨"x", [(.const (some 1), "entry"), (.var "y", "loop")]⟩,
        ⟨"y", [(.const (some 2), "entry"), (.var "sum", "loop")]⟩],
      by decide, [setSum "sum" "x" "y"],
      .brIf (fun regs => (regs "sum").map (8 - ·)) "loop" "exit"⟩,
    ⟨"exit", none, [], by decide, [], .ret fun regs => regs "x"⟩]
  entry := "entry"

theorem run_emitProgram_fibonacci :
    run numHost (emitProgram fun _ => some fibonacci) 5 "fibonacci" [] 0 =
        run numHost (programAtOnce fun _ => some fibonacci) 5 "fibonacci" [] 0 ∧
      run numHost (emitProgram fun _ => some fibonacci) 5 "fibonacci" [] 0 = some (some 3, 0) := by
  refine ⟨run_emitProgram _ _ (fun _ f hf b hb pred => ?_) 5 "fibonacci" [] 0, by decide⟩
  cases hf
  simp only [fibonacci, List.mem_cons, List.not_mem_nil, or_false] at hb
  rcases hb with rfl | rfl | rfl
  · exact List.Pairwise.nil
  · -- from no predecessor does the sum's node take that of the old value
    by_cases hentry : pred = some "entry" <;> by_cases hloop : pred = some "loop" <;>
      simp [PhiNode.copy, PhiNode.select, eq_comm, hentry, hloop]
  · exact List.Pairwise.nil

/-! ## A loop that swaps two variables -/

/-- The header of `do { swap(x, y) } while (…)`, which ends after one round. -/
def swapLoop : IrBlock Nat Nat Unit where
  name := "loop"
  merge := none
  phis :=
    [⟨"x", [(.const (some 1), "entry"), (.var "y", "loop")]⟩,
     ⟨"y", [(.const (some 2), "entry"), (.var "x", "loop")]⟩,
     ⟨"again", [(.const (some 1), "entry"), (.const (some 0), "loop")]⟩]
  distinct := by decide
  instrs := []
  term := .brIf (fun regs => regs "again") "loop" "exit"

def swapProgram : Name → Option (IrFunction Nat Nat Unit)
  | "swap" => some {
      params := []
      blocks := [⟨"entry", none, [], by decide, [], .br "loop"⟩, swapLoop,
        ⟨"exit", none, [], by decide, [], .ret fun regs => regs "y"⟩]
      entry := "entry" }
  | _ => none

/-- The machine when the loop is entered again: `x` is 1 and `y` is 2. -/
def secondEntry : Machine Nat Nat Unit :=
  { (makeMachine 0 : Machine Nat Nat Unit) with
    frame := ⟨some ⟨"swap", 0, "loop"⟩, some ⟨"swap", 0, "loop"⟩, []⟩
    regs := fun _ x => if x = "x" then some 1 else if x = "y" then some 2 else none }

/-- On the second entry of the loop `y` takes the new value of `x`: the emitted phi nodes leave both variables at 2
where LLVM swaps them, and the function returns 2 and not 1. -/
theorem swapped_phis_are_lost :
    (runInstrs numHost (emitProgram swapProgram) (fun _ _ => none) ⟨"swap", 0, "loop"⟩
        (swapLoop.phis.map visitPHINode) secondEntry).map (fun m => (m.regs 0 "x", m.regs 0 "y")) =
      some (some 2, some 2) ∧
    assignPhis swapLoop.phis (secondEntry.predecessor 0) (secondEntry.regs 0) "x" = some 2 ∧
    assignPhis swapLoop.phis (secondEntry.predecessor 0) (secondEntry.regs 0) "y" = some 1 ∧
    run numHost (emitProgram swapProgram) 4 "swap" [] 0 = some (some 2, 0) ∧
    run numHost (programAtOnce swapProgram) 4 "swap" [] 0 = some (some 1, 0) := by
  refine ⟨by decide, by decide, by decide, by decide, by decide⟩

end Llvm
end Serval
