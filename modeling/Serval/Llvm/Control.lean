import Mathlib.Logic.Function.Basic

/-!
# Control flow of translated LLVM code

The translator turns an LLVM function into a Racket procedure with one inner procedure per basic block
(`define-label`).  A block runs its instructions and ends by calling the procedure of the next block through
`enter!`.  This module embeds that scheme: blocks, `br`, `switch`, `ret`, `call`, and the merge stack by which a
conditional branch runs its two successors up to their merge block only.

Instructions that are neither calls nor terminators are functions on the variables of their activation, on the
predecessor that `phi` reads, and on memory.  The machine that executes them is the record of `llvm.rkt` without
the fields that no control flow reads (`pc`, `retval`).
-/

namespace Serval
namespace Llvm

abbrev Name := String

/-- What the control flow needs of values and memory: `core:bitvector->bool`, which fails on anything but a
bitvector, and `core:mblock-fini!`, which frees a block of stack memory. -/
structure Host (Val Mem Blk : Type) where
  toBool : Val → Option Bool
  fini : Blk → Mem → Mem

/-- The local variables of one activation of a function (`define-value` starts them unset). -/
abbrev Regs (Val : Type) := Name → Option Val

/-! ## Programs -/

inductive Instr (Val Mem Blk : Type) where
  /-- any instruction that stays in its block: variables, predecessor label and memory give the new variables,
  the stack blocks it allocated and the new memory -/
  | op (f : Regs Val → Option Name → Mem → Option (Regs Val × List Blk × Mem))
  /-- `(set! dst (call fn args ...))` -/
  | call (dst : Option Name) (fn : Name) (args : List (Regs Val → Option Val))

inductive Term (Val : Type) where
  | ret (val : Regs Val → Option Val)
  | br (succ : Name)
  | brIf (test : Regs Val → Option Val) (succTrue succFalse : Name)
  | switch (val : Regs Val → Option Val) (default : Name) (cases : List (Val × Name))
  | unreachable

/-- `(define-label (name) #:merge merge instr ... term)` -/
structure Block (Val Mem Blk : Type) where
  name : Name
  merge : Option Name
  instrs : List (Instr Val Mem Blk)
  term : Term Val

/-- `(define-function (name params ...) blocks ... (enter! entry))` -/
structure Func (Val Mem Blk : Type) where
  params : List Name
  blocks : List (Block Val Mem Blk)
  entry : Name

abbrev Program (Val Mem Blk : Type) := Name → Option (Func Val Mem Blk)

variable {Val Mem Blk : Type}

def Term.succs : Term Val → List Name
  | .ret _ => []
  | .br s => [s]
  | .brIf _ s t => [s, t]
  | .switch _ d cases => cases.map Prod.snd ++ [d]
  | .unreachable => []

def Func.block? (f : Func Val Mem Blk) (l : Name) : Option (Block Val Mem Blk) :=
  f.blocks.find? fun b => b.name == l

/-- The same code with every merge annotation replaced by `#f`. -/
def Func.erase (f : Func Val Mem Blk) : Func Val Mem Blk :=
  { f with blocks := f.blocks.map fun b => { b with merge := none } }

def Program.erase (prog : Program Val Mem Blk) : Program Val Mem Blk :=
  fun fn => (prog fn).map Func.erase

/-! ## Machine -/

/-- A label procedure.  Each activation of a function has procedures of its own, closed over its variables, so
one is named by the function, the activation and the label. -/
structure Closure where
  fn : Name
  act : Nat
  label : Name
deriving DecidableEq, Repr

structure Frame (Blk : Type) where
  label : Option Closure := none
  predecessor : Option Closure := none
  allocas : List Blk := []

structure Machine (Val Mem Blk : Type) where
  /-- the current frame, `(car frames)` -/
  frame : Frame Blk
  /-- the frames of the callers, `(cdr frames)` -/
  outer : List (Frame Blk)
  /-- the variables of every activation so far -/
  regs : Nat → Regs Val
  /-- the number of activations so far -/
  acts : Nat
  mem : Mem
  mergeStack : List Name
  /-- `(cons y 'y)`; the pair `(cons #f '#f)` is `none` -/
  mergePoint : Option Closure

def makeMachine (mem : Mem) : Machine Val Mem Blk where
  frame := {}
  outer := []
  regs := fun _ _ => none
  acts := 0
  mem := mem
  mergeStack := []
  mergePoint := none

namespace Machine

/-- The frame updates of `enter!`. -/
def moveTo (m : Machine Val Mem Blk) (c : Closure) : Machine Val Mem Blk :=
  { m with frame := { m.frame with predecessor := m.frame.label, label := some c } }

/-- The label of activation `act` that the current frame came from, if it came from one. -/
def predecessor (m : Machine Val Mem Blk) (act : Nat) : Option Name :=
  match m.frame.predecessor with
  | some c => if c.act = act then some c.label else none
  | none => none

def setReg (m : Machine Val Mem Blk) (act : Nat) (dst : Option Name) (v : Option Val) : Machine Val Mem Blk :=
  match dst with
  | some x => { m with regs := Function.update m.regs act (Function.update (m.regs act) x v) }
  | none => m

end Machine

/-! ## Execution -/

/-- How a label procedure is called: its result and the machine it leaves, or `none` for a failed check or an
execution that has not ended yet.  The value `none` inside is Racket's `(void)`. -/
abbrev Invoke (Val Mem Blk : Type) :=
  Closure → Machine Val Mem Blk → Option (Option Val × Machine Val Mem Blk)

/-- `(enter! label)` -/
def enter (inv : Invoke Val Mem Blk) (c : Closure) : Machine Val Mem Blk → Option (Option Val × Machine Val Mem Blk) :=
  fun m => inv c (m.moveTo c)

/-- Application of a function: its variables are fresh, its arguments bound, and its entry block is entered. -/
def apply (prog : Program Val Mem Blk) (inv : Invoke Val Mem Blk) (fn : Name) (args : List (Option Val))
    (m : Machine Val Mem Blk) : Option (Option Val × Machine Val Mem Blk) :=
  (prog fn).bind fun f =>
    if args.length = f.params.length then
      enter inv ⟨fn, m.acts, f.entry⟩
        { m with
          regs := Function.update m.regs m.acts fun x => ((f.params.zip args).lookup x).join
          acts := m.acts + 1 }
    else none

/-- `(call func args ...)`: the function runs in a fresh frame, whose stack memory is freed afterwards.  Neither
the merge stack nor the merge point is saved. -/
def call (host : Host Val Mem Blk) (prog : Program Val Mem Blk) (inv : Invoke Val Mem Blk) (fn : Name)
    (args : List (Option Val)) (m : Machine Val Mem Blk) : Option (Option Val × Machine Val Mem Blk) :=
  (apply prog inv fn args { m with frame := {}, outer := m.frame :: m.outer }).map fun r =>
    (r.1, { r.2 with
      frame := m.frame
      outer := m.outer
      mem := r.2.frame.allocas.foldl (fun mem blk => host.fini blk mem) r.2.mem })

def runInstr (host : Host Val Mem Blk) (prog : Program Val Mem Blk) (inv : Invoke Val Mem Blk) (c : Closure) :
    Instr Val Mem Blk → Machine Val Mem Blk → Option (Machine Val Mem Blk)
  | .op f, m =>
      (f (m.regs c.act) (m.predecessor c.act) m.mem).map fun r =>
        { m with
          regs := Function.update m.regs c.act r.1
          frame := { m.frame with allocas := r.2.1 ++ m.frame.allocas }
          mem := r.2.2 }
  | .call dst fn args, m =>
      (call host prog inv fn (args.map fun arg => arg (m.regs c.act)) m).map fun r => r.2.setReg c.act dst r.1

def runInstrs (host : Host Val Mem Blk) (prog : Program Val Mem Blk) (inv : Invoke Val Mem Blk) (c : Closure) :
    List (Instr Val Mem Blk) → Machine Val Mem Blk → Option (Machine Val Mem Blk)
  | [], m => some m
  | i :: is, m => (runInstr host prog inv c i m).bind (runInstrs host prog inv c is)

/-- The label a terminator leads to. -/
def Term.next [DecidableEq Val] (host : Host Val Mem Blk) (regs : Regs Val) : Term Val → Option Name
  | .br s => some s
  | .brIf test s t => ((test regs).bind host.toBool).map fun taken => if taken then s else t
  | .switch val d cases => some (((cases.find? fun p => val regs = some p.1).map Prod.snd).getD d)
  | .ret _ => none
  | .unreachable => none

/-- The terminators: `ret`, `br` with one and with three arguments, `switch` and `unreachable`. -/
def runTerm [DecidableEq Val] (host : Host Val Mem Blk) (inv : Invoke Val Mem Blk) (c : Closure) (t : Term Val)
    (m : Machine Val Mem Blk) : Option (Option Val × Machine Val Mem Blk) :=
  match t with
  | .ret val => some (val (m.regs c.act), m)
  | .brIf _ _ _ =>
      (t.next host (m.regs c.act)).bind fun s =>
        match m.mergePoint with
        | some merge =>
            -- run the chosen successor up to the merge block, then call that block itself
            (enter inv { c with label := s } { m with mergeStack := merge.label :: m.mergeStack }).bind fun r =>
              inv merge r.2
        | none => enter inv { c with label := s } m
  | .br _ => (t.next host (m.regs c.act)).bind fun s => enter inv { c with label := s } m
  | .switch _ _ _ => (t.next host (m.regs c.act)).bind fun s => enter inv { c with label := s } m
  | .unreachable => none

/-- A call of a label procedure.  When the name on top of the merge stack is its own, it takes it off and returns;
otherwise it runs its block.  The fuel bounds the depth of nested calls of label procedures. -/
def invoke [DecidableEq Val] (host : Host Val Mem Blk) (prog : Program Val Mem Blk) : Nat → Invoke Val Mem Blk
  | 0, _, _ => none
  | n + 1, c, m =>
      if m.mergeStack.head? = some c.label then
        some (none, { m with mergeStack := m.mergeStack.tail })
      else
        ((prog c.fn).bind fun f => f.block? c.label).bind fun b =>
          (runInstrs host prog (invoke host prog n) c b.instrs
              { m with mergePoint := b.merge.map fun y => { c with label := y } }).bind
            (runTerm host (invoke host prog n) c b.term)

/-- A function applied in a new machine: its value and the memory it leaves. -/
def run [DecidableEq Val] (host : Host Val Mem Blk) (prog : Program Val Mem Blk) (fuel : Nat) (fn : Name)
    (args : List (Option Val)) (mem : Mem) : Option (Option Val × Mem) :=
  (apply prog (invoke host prog fuel) fn args (makeMachine mem)).map fun r => (r.1, r.2.mem)

end Llvm
end Serval
