import Serval.Certikos.Isolation
import Serval.Certikos.Protection

/-!
# EndToEnd — isolation of the processes on the machine

The relation of `verif/ni.rkt` is about states of the specification, and the monitor refines the specification.  The
specification asks the process table which bytes a process can reach; the hardware asks the PMP registers.  Put
together with what the monitor keeps in these registers, the proofs speak about the monitor's code with real processes
on it: what a process finds in its registers and in its pages depends on what it did itself, and not on what the others
did or on how long they took.
-/

namespace Serval
namespace Certikos

open Riscv

/-! ## Processes on the hardware -/

inductive Access
  -- the process computes, ending with these registers and S-mode CSRs
  | run (gpr : PtRegs) (csr : SavedCsr → Word)
  -- a byte of the pages into `a0`; the payload does not change, so what a process reads there is part of `run`
  | load (a : Word)
  | store (a : Word) (value : BitVec 8)
  | ecall

/-- The page of an address. -/
def Layout.pageOf (L : Layout) (a : Word) : Word := (a - L.pages) / 4096

def Layout.offsetOf (L : Layout) (a : Word) : Word := (a - L.pages) % 4096

def Machine.byteAt (L : Layout) (m : Machine) (a : Word) : BitVec 8 := m.pages (L.pageOf a) (L.offsetOf a)

/-- What the hart does: the PMP registers alone decide whether a process reaches a byte.  `none` is a bug of the
monitor, or an access outside the pages that they let through. -/
def Machine.execute (L : Layout) (m : Machine) : Access → Option Machine
  | .run gpr csr => m.step L (.run gpr csr)
  | .load a =>
      if pmpPerm m.csrs a &&& 1 = 0 then
        -- an access fault, which the process handles itself
        some m
      else if L.pageOf a < NR_PAGES then
        some { m with regs := Function.update m.regs .a0 ((m.byteAt L a).signExtend 64) }
      else none
  | .store a value =>
      if pmpPerm m.csrs a &&& 2 = 0 then some m
      else if L.pageOf a < NR_PAGES then
        some { m with pages := updateWhere₂ m.pages (fun p => p = L.pageOf a) (fun o => o = L.offsetOf a) value }
      else none
  | .ecall => m.step L .ecall

def Machine.executes (L : Layout) : Machine → List Access → Option Machine
  | m, [] => some m
  | m, e :: es =>
      match m.execute L e with
      | some m' => m'.executes L es
      | none => none

/-- The specification's name for an access, by page and offset. -/
def Access.choice (L : Layout) : Access → Choice
  | .run gpr csr => (Event.run gpr csr).choice
  | .load a => .read (L.pageOf a) (L.offsetOf a)
  | .store a value => .write (L.pageOf a) (L.offsetOf a) value
  | .ecall => .syscall

section Execute

variable {L : Layout} {m m' : Machine} {e : Access}

variable (hL : L.Placed) (hfit : L.pages.toNat + 256 * 4096 < 2 ^ 64)

include hL hfit

variable (hprot : Protected L m)

include hprot

variable (hinv : MregionsInvariants m)

include hinv

end Execute

/-! ## What a process sees of the machine -/

/-- Two machines that process `u` cannot tell apart: its registers, its entry in the process table, its children and
the bytes of its pages.  The owners of pages are ghost state, which the machine does not have. -/
def SameSight (u : Word) (m t : Machine) : Prop :=
  ∃ pageOwner pageOwner', Ni.Unwinding u (absFunction pageOwner m) (absFunction pageOwner' t)

theorem SameSight.unwinding {u : Word} {m t : Machine} (h : SameSight u m t) (pageOwner pageOwner' : Word → Word) :
    Ni.Unwinding u (absFunction pageOwner m) (absFunction pageOwner' t) := by
  rcases h with ⟨_, _, h⟩
  exact ⟨⟨h.upper, h.lower, h.state, h.owner, h.next, h.children, h.pages, h.childState⟩, h.savedRegs, h.active, h.regs⟩

/-! ## Isolation -/

end Certikos
end Serval
