import Mathlib.Algebra.Group.Int.Defs
import Mathlib.Algebra.GroupWithZero.Nat
import Mathlib.Tactic.Common

/-!
# Memory — the typed memory of `serval/lib/core.rkt`

Memory is a list of regions, each with a block.  A block is an array, a struct or a cell; a cell is a
leaf whose contents are a function of the array indices on the way to it.  An access first turns an
offset into a path (`mblock-path`) and then loads or stores through the path.

Everything is evaluated on concrete bitvectors, so that `guess-mregion-from-addr` sees a literal and
`crunch-struct-offset` changes nothing.  Widths are dynamic where they are in the source: a cell holds
a bitvector of whatever width was stored last.
-/

namespace Serval
namespace Core

/-- What stops an evaluation: a `bug-on` that fires, or an operation that is not defined. -/
inductive Bug
  -- lib/core.rkt
  | notInBounds | sizeNotMultiple | offsetNotMultiple | offsetNotInCell | useAfterFree
  | badPath | noMregion | addressOutOfRange
  | memsetOffsetNonZero | memsetNotByte | memsetNotZero | memsetSizeIncorrect | memsetNotAligned
  -- a bitvector operation at the wrong width
  | badWidth
  -- riscv
  | noSuchMemop | noSuchConditional | noSuchBinop | noSuchGpr | unknownCsr
  | badImmSize | wrongXlen | noSemantics
  -- bpf
  | noSuchAluOp | divisionByZero | uninitializedRegister | readOnlyRegister | badEndianSize
  | notABitvector | badOperands | badInstructionAfterLd64
  -- x32
  | noSuchEncoding | encodingMismatch | sizeMismatch | noInstruction | retReached
  deriving DecidableEq, Repr

/-- `bug-on`. -/
def bugOn (c : Prop) [Decidable c] (b : Bug) : Except Bug Unit :=
  if c then .error b else .ok ()

@[simp] theorem ok_bind {α β : Type} (a : α) (f : α → Except Bug β) : (Except.ok a >>= f) = f a := rfl

@[simp] theorem error_bind {α β : Type} (b : Bug) (f : α → Except Bug β) :
    ((Except.error b : Except Bug α) >>= f) = .error b := rfl

theorem bind_eq_ok {α β : Type} {x : Except Bug α} {f : α → Except Bug β} {r : β} :
    (x >>= f) = .ok r ↔ ∃ a, x = .ok a ∧ f a = .ok r := by
  cases x with
  | error b => simp
  | ok a => simp

@[simp] theorem bugOn_of_not {c : Prop} [Decidable c] (h : ¬ c) (b : Bug) : bugOn c b = .ok () :=
  if_neg h

theorem bind_bugOn {α : Type} {c : Prop} [Decidable c] {b : Bug} {x : Unit → Except Bug α} {r : α}
    (h : (bugOn c b >>= x) = .ok r) : ¬ c ∧ x () = .ok r := by
  by_cases hc : c
  · simp [bugOn, hc] at h
  · exact ⟨hc, by simpa [hc] using h⟩

/-- A bitvector together with its width. -/
structure Bv where
  width : Nat
  val : BitVec width
  deriving DecidableEq

/-! ## Blocks -/

/-- `mcell`: `free` is set at the end of the lifetime of stack memory. -/
structure Cell (w : Nat) where
  size : Nat
  func : List (BitVec w) → Bv
  free : Bool

namespace Cell

variable {w : Nat}

/-- `mcell-load`: the whole cell, whatever part of it the path asks for. -/
def load (cell : Cell w) (indices : List (BitVec w)) : Except Bug Bv := do
  bugOn (cell.free = true) .useAfterFree
  return cell.func indices

/-- `mcell-store!`: the value takes the place of the whole cell. -/
def store (cell : Cell w) (value : Bv) (indices : List (BitVec w)) : Except Bug (Cell w) := do
  bugOn (cell.free = true) .useAfterFree
  return { cell with func := fun args => if args = indices then value else cell.func args }

/-- `mcell-memset!`: the whole cell, at the indices that all predicates accept. -/
def memset (cell : Cell w) (c : Bv) (offset size : BitVec w) (preds : List (BitVec w → Bool)) :
    Except Bug (Cell w) := do
  bugOn (offset ≠ 0) .memsetOffsetNonZero
  bugOn (c.width ≠ 8) .memsetNotByte
  bugOn (c.val ≠ 0) .memsetNotZero
  if size = 0 then
    return cell
  else
    bugOn (size ≠ BitVec.ofNat w cell.size) .memsetSizeIncorrect
    let value : Bv := ⟨c.width * cell.size, c.val.replicate cell.size⟩
    return { cell with
      func := fun args =>
        if (List.zipWith (fun pred arg => pred arg) preds args).all id then value else cell.func args }

theorem load_of_live {cell : Cell w} (h : cell.free = false) (indices : List (BitVec w)) :
    cell.load indices = .ok (cell.func indices) := by
  simp [load, h, pure, Except.pure]

theorem store_of_live {cell : Cell w} (h : cell.free = false) (value : Bv) (indices : List (BitVec w)) :
    cell.store value indices =
      .ok { cell with func := fun args => if args = indices then value else cell.func args } := by
  simp [store, h, pure, Except.pure]

end Cell

/-- A block with pointers of `w` bits. -/
inductive MBlock (w : Nat) where
  | marray (length : Nat) (elements : MBlock w)
  | mstruct (size : Nat) (fields : List (String × Nat × MBlock w))
  | mcell (cell : Cell w)

namespace MBlock

variable {w : Nat}

/-- `mblock-size`. -/
def size : MBlock w → Nat
  | marray length elements => length * elements.size
  | mstruct size _ => size
  | mcell cell => cell.size

end MBlock

/-- One step of a path: an array index or a field name. -/
inductive PathStep (w : Nat) where
  | index (i : BitVec w)
  | field (name : String)
  deriving DecidableEq

/-- A path to a cell; a path made by `mblock-path` ends in an offset and a size within the cell. -/
structure Path (w : Nat) where
  steps : List (PathStep w)
  last : Option (BitVec w × BitVec w)

namespace MBlock

variable {w : Nat}

/-- `mblock-inbounds?`, for a block of the given size. -/
def inbounds (blockSize : Nat) (offset size : BitVec w) : Prop :=
  size ≤ BitVec.ofNat w blockSize ∧ offset ≤ BitVec.ofNat w blockSize - size

instance (blockSize : Nat) (offset size : BitVec w) : Decidable (inbounds blockSize offset size) :=
  inferInstanceAs (Decidable (_ ∧ _))

mutual

/-- `mblock-path`. -/
def path : MBlock w → BitVec w → BitVec w → Except Bug (Path w)
  | marray length elements, offset, size => do
      bugOn (¬ inbounds (length * elements.size) offset size) .notInBounds
      let elementSize := BitVec.ofNat w elements.size
      let p ← elements.path (offset % elementSize) size
      return { p with steps := .index (offset.smtUDiv elementSize) :: p.steps }
  | mstruct blockSize fields, offset, size => do
      bugOn (¬ inbounds blockSize offset size) .notInBounds
      fieldPath fields offset size
  | mcell cell, offset, size => do
      let blockSize := BitVec.ofNat w cell.size
      bugOn (blockSize % size ≠ 0) .sizeNotMultiple
      bugOn (offset % size ≠ 0) .offsetNotMultiple
      bugOn (¬ offset < blockSize) .offsetNotInCell
      return ⟨[], some (offset, size)⟩

/-- The last field that does not start behind the offset, and the path from there. -/
def fieldPath : List (String × Nat × MBlock w) → BitVec w → BitVec w → Except Bug (Path w)
  | [], _, _ => .error .badPath
  | (name, start, element) :: fields, offset, size =>
      if fields.any fun f => BitVec.ofNat w f.2.1 ≤ offset then
        fieldPath fields offset size
      else if BitVec.ofNat w start ≤ offset then do
        let p ← element.path (offset - BitVec.ofNat w start) size
        return { p with steps := .field name :: p.steps }
      else
        .error .badPath

end

theorem path_marray {length : Nat} {elements : MBlock w} {offset size : BitVec w} {p : Path w}
    (hin : inbounds (length * elements.size) offset size)
    (hp : elements.path (offset % BitVec.ofNat w elements.size) size = .ok p) :
    (marray length elements).path offset size =
      .ok ⟨.index (offset.smtUDiv (BitVec.ofNat w elements.size)) :: p.steps, p.last⟩ := by
  rw [path, bugOn_of_not (not_not_intro hin), ok_bind]
  simp only [hp]
  rfl

theorem path_mcell {cell : Cell w} {offset size : BitVec w}
    (hmultiple : BitVec.ofNat w cell.size % size = 0) (haligned : offset % size = 0)
    (hin : offset < BitVec.ofNat w cell.size) :
    (mcell cell).path offset size = .ok ⟨[], some (offset, size)⟩ := by
  rw [path, bugOn_of_not (not_not_intro hmultiple), ok_bind, bugOn_of_not (not_not_intro haligned),
    ok_bind, bugOn_of_not (not_not_intro hin)]
  rfl

mutual

/-- `mblock-resolve`: the cell a path leads to, with the offset, the size and the indices for it. -/
def resolve : MBlock w → List (PathStep w) → Option (BitVec w × BitVec w) → List (BitVec w) →
    Except Bug (Cell w × BitVec w × BitVec w × List (BitVec w))
  | marray _ elements, .index i :: steps, last, indices => elements.resolve steps last (i :: indices)
  | mstruct _ fields, .field name :: steps, last, indices => fieldResolve fields name steps last indices
  | mcell cell, [], none, indices => .ok (cell, 0, BitVec.ofNat w cell.size, indices)
  | mcell cell, [], some (offset, size), indices => .ok (cell, offset, size, indices)
  | _, _, _, _ => .error .badPath

def fieldResolve : List (String × Nat × MBlock w) → String → List (PathStep w) →
    Option (BitVec w × BitVec w) → List (BitVec w) →
    Except Bug (Cell w × BitVec w × BitVec w × List (BitVec w))
  | [], _, _, _, _ => .error .badPath
  | (fieldName, _, element) :: fields, name, steps, last, indices =>
      if fieldName = name then
        element.resolve steps last indices
      else
        fieldResolve fields name steps last indices

end

/-- `mblock-iload`. -/
def iload (block : MBlock w) (p : Path w) : Except Bug Bv := do
  let (cell, _, _, indices) ← block.resolve p.steps p.last []
  cell.load indices

mutual

/-- `mblock-istore!`: the block with a value stored through a path. -/
def storeAt : MBlock w → Bv → List (PathStep w) → List (BitVec w) → Except Bug (MBlock w)
  | marray length elements, value, .index i :: steps, indices => do
      return marray length (← elements.storeAt value steps (i :: indices))
  | mstruct size fields, value, .field name :: steps, indices => do
      return mstruct size (← fieldStoreAt fields value name steps indices)
  | mcell cell, value, [], indices => do
      return mcell (← cell.store value indices)
  | _, _, _, _ => .error .badPath

def fieldStoreAt : List (String × Nat × MBlock w) → Bv → String → List (PathStep w) →
    List (BitVec w) → Except Bug (List (String × Nat × MBlock w))
  | [], _, _, _, _ => .error .badPath
  | (fieldName, start, element) :: fields, value, name, steps, indices =>
      if fieldName = name then do
        return (fieldName, start, ← element.storeAt value steps indices) :: fields
      else do
        return (fieldName, start, element) :: (← fieldStoreAt fields value name steps indices)

end

def istore (block : MBlock w) (value : Bv) (p : Path w) : Except Bug (MBlock w) :=
  block.storeAt value p.steps []

mutual

/-- `mblock-memset!`.  An array takes a range within one element or a range of full elements, a struct a range within
one field or the whole struct; the predicates say which array elements on the way are meant. -/
def memset : MBlock w → Bv → BitVec w → BitVec w → List (BitVec w → Bool) → Except Bug (MBlock w)
  | marray length elements, c, offset, size, preds => do
      bugOn (¬ inbounds (length * elements.size) offset size) .notInBounds
      let elementSize := BitVec.ofNat w elements.size
      let elementIndex := offset.smtUDiv elementSize
      let elementOffset := offset % elementSize
      if size ≤ elementSize then
        return marray length
          (← elements.memset c elementOffset size ((fun i => decide (i = elementIndex)) :: preds))
      else
        bugOn (elementOffset ≠ 0) .memsetNotAligned
        bugOn (size % elementSize ≠ 0) .memsetNotAligned
        return marray length
          (← elements.memset c 0 elementSize
            ((fun i => decide (elementIndex ≤ i ∧ i < elementIndex + size.smtUDiv elementSize)) :: preds))
  | mstruct blockSize fields, c, offset, size, preds => do
      bugOn (¬ inbounds blockSize offset size) .notInBounds
      if size = BitVec.ofNat w blockSize then
        return mstruct blockSize (← fieldsMemset fields c preds)
      else
        return mstruct blockSize (← fieldMemset fields c offset size preds)
  | mcell cell, c, offset, size, preds => do
      return mcell (← cell.memset c offset size preds)

/-- Every field, from its start to its end. -/
def fieldsMemset : List (String × Nat × MBlock w) → Bv → List (BitVec w → Bool) →
    Except Bug (List (String × Nat × MBlock w))
  | [], _, _ => .ok []
  | (name, start, element) :: fields, c, preds => do
      let element' ← element.memset c 0 (BitVec.ofNat w element.size) preds
      return (name, start, element') :: (← fieldsMemset fields c preds)

/-- The last field that does not start behind the offset. -/
def fieldMemset : List (String × Nat × MBlock w) → Bv → BitVec w → BitVec w → List (BitVec w → Bool) →
    Except Bug (List (String × Nat × MBlock w))
  | [], _, _, _, _ => .error .badPath
  | (name, start, element) :: fields, c, offset, size, preds =>
      if fields.any fun f => BitVec.ofNat w f.2.1 ≤ offset then do
        return (name, start, element) :: (← fieldMemset fields c offset size preds)
      else if BitVec.ofNat w start ≤ offset then do
        return (name, start, ← element.memset c (offset - BitVec.ofNat w start) size preds) :: fields
      else
        .error .badPath

end

end MBlock

/-! ## Regions -/

/-- `mregion`: a block and where it is in memory. -/
structure MRegion (w : Nat) where
  start : Nat
  stop : Nat
  name : String
  block : MBlock w

section Regions

variable {w : Nat}

/-- `find-block-by-name`. -/
def findBlockByName (regions : List (MRegion w)) (name : String) : Except Bug (MBlock w) :=
  match regions.find? fun mr => mr.name = name with
  | some mr => .ok mr.block
  | none => .error .noMregion

/-- `find-mregion-by-addr`; a region is given by its position in the list. -/
def findMregionByAddr (regions : List (MRegion w)) (addr : BitVec w) : Option Nat :=
  regions.findIdx? fun mr => BitVec.ofNat w mr.start ≤ addr ∧ addr < BitVec.ofNat w mr.stop

/-- `guess-mregion-from-addr`, on a literal. -/
def guessMregionFromAddr (regions : List (MRegion w)) (addr : BitVec w) (off : Bv) : Option Nat :=
  (findMregionByAddr regions (off.val.signExtend w + addr)).or (findMregionByAddr regions addr)

/-- `mregion-inbounds?`. -/
def MRegion.inbounds (mr : MRegion w) (addr size : BitVec w) : Prop :=
  BitVec.ofNat w mr.start ≤ addr ∧ addr ≤ BitVec.ofNat w mr.stop - size

instance (mr : MRegion w) (addr size : BitVec w) : Decidable (mr.inbounds addr size) :=
  inferInstanceAs (Decidable (_ ∧ _))

end Regions

end Core
end Serval
