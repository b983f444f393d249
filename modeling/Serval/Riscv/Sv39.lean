import Serval.Riscv.Regs

/-!
# Sv39 — address translation

The page-table walk of the RISC-V privileged architecture for 39-bit virtual addresses, over a memory
given by page frames: `read frame i` is the `i`-th 64-bit word of a frame, or `none` where an access
faults.  Permissions other than the ability to write are left to the caller.
-/

namespace Serval
namespace Riscv
namespace Sv39

/-! ## Entries -/

/-- The PPN field, bits 10 to 53. -/
def ppn (pte : Word) : Word :=
  (pte >>> 10) &&& 0xfffffffffff

def isValid (pte : Word) : Bool := pte.getLsbD 0
def isReadable (pte : Word) : Bool := pte.getLsbD 1
def isWritable (pte : Word) : Bool := pte.getLsbD 2
def isExecutable (pte : Word) : Bool := pte.getLsbD 3

/-- An entry that raises a page fault: not valid, writable but not readable, or with a reserved bit
set. -/
def isFault (pte : Word) : Bool :=
  !isValid pte || (!isReadable pte && isWritable pte) || pte >>> 54 != 0

def isLeaf (pte : Word) : Bool :=
  isReadable pte || isExecutable pte

/-! ## The walk -/

/-- Where an address leads: a page frame, and whether it may be written there. -/
structure Mapping where
  frame : Word
  writable : Bool

/-- The frame a leaf entry found at a level maps; above level 0 it maps a superpage, which must be
aligned. -/
def leafFrame (pte : Word) (vpn : Nat → Word) : Nat → Option Word
  | 0 => some (ppn pte)
  | 1 => if ppn pte &&& 0x1ff = 0 then some (ppn pte ||| vpn 0) else none
  | _ => if ppn pte &&& 0x3ffff = 0 then some (ppn pte ||| (vpn 1 <<< 9) ||| vpn 0) else none

/-- Walk down from a table at a level; `vpn` gives the index for each level. -/
def walk (read : Word → Word → Option Word) (vpn : Nat → Word) : Nat → Word → Option Mapping
  | level, table =>
      match read table (vpn level) with
      | none => none
      | some pte =>
          if isFault pte then none
          else if isLeaf pte then (leafFrame pte vpn level).map (fun f => ⟨f, isWritable pte⟩)
          else
            match level with
            | 0 => none
            | level + 1 => walk read vpn level (ppn pte)

/-! ## Addresses -/

/-- The index of an address into the tables of a level. -/
def vpn (va : Word) (level : Nat) : Word :=
  (va >>> (12 + 9 * level)) &&& 0x1ff

/-- The word of its page that an address points into. -/
def wordIndex (va : Word) : Word :=
  (va >>> 3) &&& 0x1ff

/-- Bits 39 to 63 of an address repeat bit 38. -/
def isCanonical (va : Word) : Bool :=
  (va.extractLsb' 0 39).signExtend 64 = va

def satpMode (satp : Word) : Word :=
  satp >>> 60

def satpPpn (satp : Word) : Word :=
  satp &&& 0xfffffffffff

/-- Translation under `satp`: without translation, or by a walk from the root table. -/
def translate (read : Word → Word → Option Word) (satp va : Word) : Option Mapping :=
  if satpMode satp = 0 then
    some ⟨va >>> 12, true⟩
  else if satpMode satp = 8 ∧ isCanonical va then
    walk read (vpn va) 2 (satpPpn satp)
  else
    none

theorem vpn_lt (va : Word) (level : Nat) : vpn va level < 512 := by
  have hle : (vpn va level).toNat ≤ 511 := by
    rw [vpn, BitVec.toNat_and]
    exact Nat.and_le_right
  exact Nat.lt_of_le_of_lt hle (by decide)

theorem wordIndex_lt (va : Word) : wordIndex va < 512 := by
  have hle : (wordIndex va).toNat ≤ 511 := by
    rw [wordIndex, BitVec.toNat_and]
    exact Nat.and_le_right
  exact Nat.lt_of_le_of_lt hle (by decide)

/-! ## Rules for walks -/

section Rules

variable {read : Word → Word → Option Word} {vpn : Nat → Word} {table pte : Word}

/-- A table with an entry that faults ends the walk. -/
theorem walk_of_fault {level : Nat} (hread : read table (vpn level) = some pte)
    (hfault : isFault pte = true) : walk read vpn level table = none := by
  unfold walk
  simp [hread, hfault]

/-- An entry that points to a table continues the walk. -/
theorem walk_of_pointer {level : Nat} (hread : read table (vpn (level + 1)) = some pte)
    (hfault : isFault pte = false) (hleaf : isLeaf pte = false) :
    walk read vpn (level + 1) table = walk read vpn level (ppn pte) := by
  conv_lhs => unfold walk
  simp [hread, hfault, hleaf]

/-- At the last level the walk ends with the frame of the entry, or with a fault. -/
theorem walk_zero (hread : read table (vpn 0) = some pte) {m : Mapping}
    (h : walk read vpn 0 table = some m) : m.frame = ppn pte ∧ isFault pte = false := by
  unfold walk at h
  simp only [hread] at h
  cases hfault : isFault pte with
  | true => simp [hfault] at h
  | false =>
      cases hleaf : isLeaf pte with
      | true =>
          simp [hfault, hleaf, leafFrame] at h
          exact ⟨by rw [← h], rfl⟩
      | false => simp [hfault, hleaf] at h

end Rules

end Sv39
end Riscv
end Serval
