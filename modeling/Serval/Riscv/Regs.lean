import Serval.Lib.Update
import Mathlib.Algebra.GroupWithZero.Nat
import Mathlib.Tactic.Common

/-!
# Regs — general registers, CSRs and the saved context of the monitors

The monitors share three pieces of machine state:

* `struct pt_regs`, the 31 general registers in the order of `asm/ptrace.h`;
* the eleven CSRs that are saved and restored around a context switch (`csrs.h`, `struct proc`);
* the CSR file itself, where `sstatus`, `sie` and `sip` are masked views of `mstatus`, `mie` and
  `mip`: a write through a view changes the viewed bits only.

`Regs` is the record of `serval/riscv/spec.rkt`: a register context as a specification sees it.
-/

namespace Serval
namespace Riscv

abbrev Word := BitVec 64

/-! ## General registers -/

inductive Gpr
  | ra | sp | gp | tp | t0 | t1 | t2 | s0 | s1
  | a0 | a1 | a2 | a3 | a4 | a5 | a6 | a7
  | s2 | s3 | s4 | s5 | s6 | s7 | s8 | s9 | s10 | s11
  | t3 | t4 | t5 | t6
  deriving DecidableEq, Repr

namespace Gpr

/-- The members of `struct pt_regs`, in order. -/
def all : List Gpr :=
  [ra, sp, gp, tp, t0, t1, t2, s0, s1, a0, a1, a2, a3, a4, a5, a6, a7,
    s2, s3, s4, s5, s6, s7, s8, s9, s10, s11, t3, t4, t5, t6]

theorem mem_all (r : Gpr) : r ∈ all := by
  cases r <;> decide

end Gpr

/-- `struct pt_regs`. -/
abbrev PtRegs := Gpr → Word

/-- `copy_pt_regs`: one assignment for each member. -/
def copyPtRegs (dst src : PtRegs) : PtRegs :=
  writeAll id (fun r _ => src r) Gpr.all dst

theorem copyPtRegs_eq (dst src : PtRegs) : copyPtRegs dst src = src := by
  funext r
  exact writeAll_of_mem (by decide) r.mem_all

/-! ## Saved CSRs -/

/-- The CSRs a context switch saves, in the order of `csrs.h`. -/
inductive SavedCsr
  | mepc | satp | stvec | scounteren | stval | sip | scause | sepc | sstatus | sscratch | sie
  deriving DecidableEq, Repr

namespace SavedCsr

def all : List SavedCsr :=
  [mepc, satp, stvec, scounteren, stval, sip, scause, sepc, sstatus, sscratch, sie]

theorem mem_all (c : SavedCsr) : c ∈ all := by
  cases c <;> decide

end SavedCsr

/-- A register context: the general registers and the saved CSRs. -/
@[ext] structure Regs where
  gpr : PtRegs
  csr : SavedCsr → Word

def zeroRegs : Regs where
  gpr := fun _ => 0
  csr := fun _ => 0

namespace Regs

/-- `struct-copy regs` at one general register. -/
def setGpr (r : Regs) (g : Gpr) (v : Word) : Regs :=
  { r with gpr := Function.update r.gpr g v }

/-- `struct-copy regs` at one CSR. -/
def setCsr (r : Regs) (c : SavedCsr) (v : Word) : Regs :=
  { r with csr := Function.update r.csr c v }

@[simp] theorem setGpr_gpr (r : Regs) (g : Gpr) (v : Word) :
    (r.setGpr g v).gpr = Function.update r.gpr g v := rfl

@[simp] theorem setGpr_csr (r : Regs) (g : Gpr) (v : Word) : (r.setGpr g v).csr = r.csr := rfl

@[simp] theorem setCsr_gpr (r : Regs) (c : SavedCsr) (v : Word) : (r.setCsr c v).gpr = r.gpr := rfl

@[simp] theorem setCsr_csr (r : Regs) (c : SavedCsr) (v : Word) :
    (r.setCsr c v).csr = Function.update r.csr c v := rfl

end Regs

/-! ## The CSR file -/

-- The numbers of the `pmpaddr` registers refer to this instance.
instance neZero_pmpaddrs : NeZero 16 := ⟨by decide⟩

inductive Csr
  | mepc | satp | stvec | scounteren | stval | scause | sepc | sscratch
  | sstatus | sie | sip | mstatus | mie | mip
  | medeleg | mideleg | mcounteren | mtvec | mscratch | mcycle | minstret
  | pmpcfg0 | pmpcfg2 | pmpaddr (i : Fin 16)
  deriving DecidableEq, Repr

def sstatusMask : Word :=
  0b1000000000000000000000000000001100000000000011011110000100110011

def sipMask : Word := 0b1100110011

def sieMask : Word := 0b1100110011

namespace Csr

/-- The register behind a CSR name. -/
def home : Csr → Csr
  | .sstatus => .mstatus
  | .sie => .mie
  | .sip => .mip
  | c => c

/-- The bits of its register that a CSR name shows. -/
def mask : Csr → Word
  | .sstatus => sstatusMask
  | .sie => sieMask
  | .sip => sipMask
  | _ => BitVec.allOnes 64

end Csr

/-- The contents of the CSRs; the entries of the three view names are not used. -/
abbrev CsrFile := Csr → Word

/-- What a write of `v` through the name `c` makes of the register behind it. -/
def mergeCsr (c : Csr) (v old : Word) : Word :=
  (old &&& ~~~c.mask) ||| (v &&& c.mask)

def csrRead (f : CsrFile) (c : Csr) : Word :=
  f c.home &&& c.mask

def csrWrite (f : CsrFile) (c : Csr) (v : Word) : CsrFile :=
  Function.update f c.home (mergeCsr c v (f c.home))

def csrSet (f : CsrFile) (c : Csr) (v : Word) : CsrFile :=
  csrWrite f c (csrRead f c ||| v)

def csrClear (f : CsrFile) (c : Csr) (v : Word) : CsrFile :=
  csrWrite f c (csrRead f c &&& ~~~v)

theorem mergeCsr_and_mask (c : Csr) (v old : Word) : mergeCsr c v old &&& c.mask = v &&& c.mask := by
  ext i hi
  simp only [mergeCsr, BitVec.getElem_and, BitVec.getElem_or, BitVec.getElem_not]
  cases c.mask[i] <;> simp

theorem csrRead_csrWrite_self (f : CsrFile) (c : Csr) (v : Word) :
    csrRead (csrWrite f c v) c = v &&& c.mask := by
  simp [csrRead, csrWrite, mergeCsr_and_mask]

theorem csrRead_csrWrite_of_ne (f : CsrFile) {c d : Csr} (v : Word) (h : d.home ≠ c.home) :
    csrRead (csrWrite f c v) d = csrRead f d := by
  simp [csrRead, csrWrite, h]

theorem csrWrite_of_ne (f : CsrFile) {c d : Csr} (v : Word) (h : d ≠ c.home) :
    csrWrite f c v d = f d :=
  Function.update_of_ne h _ _

/-- A name that shows its whole register writes it as a whole. -/
theorem csrWrite_of_whole (f : CsrFile) {c : Csr} (v : Word) (h : c.mask = BitVec.allOnes 64) :
    csrWrite f c v = Function.update f c.home v := by
  rw [csrWrite, mergeCsr, h, BitVec.and_allOnes, BitVec.not_allOnes, BitVec.and_zero,
    BitVec.zero_or]

/-! ## Saving and restoring the CSRs of a context -/

namespace SavedCsr

def toCsr : SavedCsr → Csr
  | .mepc => .mepc
  | .satp => .satp
  | .stvec => .stvec
  | .scounteren => .scounteren
  | .stval => .stval
  | .sip => .sip
  | .scause => .scause
  | .sepc => .sepc
  | .sstatus => .sstatus
  | .sscratch => .sscratch
  | .sie => .sie

/-- No two saved CSRs share a register. -/
theorem home_injective {c d : SavedCsr} (h : c.toCsr.home = d.toCsr.home) : c = d := by
  cases c <;> cases d <;> first | rfl | cases h

end SavedCsr

/-- The order in which a piece of code goes through the saved CSRs, each of them once. -/
structure SaveOrder where
  order : List SavedCsr
  nodup : order.Nodup
  complete : ∀ c, c ∈ order

/-- The order of `csrs.h`. -/
def csrsH : SaveOrder where
  order := SavedCsr.all
  nodup := by decide
  complete := SavedCsr.mem_all

/-- The saved CSRs as they are read out of the file. -/
def readCsrs (f : CsrFile) : SavedCsr → Word :=
  fun c => csrRead f c.toCsr

/-- Read the saved CSRs into a save area, one after the other. -/
def saveCsrs (o : SaveOrder) (f : CsrFile) (area : SavedCsr → Word) : SavedCsr → Word :=
  writeAll id (fun c _ => csrRead f c.toCsr) o.order area

/-- Write the saved CSRs into the file, one after the other. -/
def restoreCsrs (o : SaveOrder) (f : CsrFile) (area : SavedCsr → Word) : CsrFile :=
  o.order.foldl (fun g c => csrWrite g c.toCsr (area c)) f

theorem saveCsrs_eq_readCsrs (o : SaveOrder) (f : CsrFile) (area : SavedCsr → Word) :
    saveCsrs o f area = readCsrs f := by
  funext c
  exact writeAll_of_mem o.nodup (o.complete c)

theorem restoreCsrs_eq_writeAll (o : SaveOrder) (f : CsrFile) (area : SavedCsr → Word) :
    restoreCsrs o f area =
      writeAll (fun c => c.toCsr.home) (fun c => mergeCsr c.toCsr (area c)) o.order f := rfl

/-- Save areas whose values survive the trip through their CSRs: the masked views hold no bit
outside their mask. -/
def Masked (area : SavedCsr → Word) : Prop :=
  ∀ c : SavedCsr, area c &&& c.toCsr.mask = area c

theorem readCsrs_masked (f : CsrFile) : Masked (readCsrs f) := by
  intro c
  simp [readCsrs, csrRead, BitVec.and_assoc]

theorem zero_masked : Masked (fun _ => 0) := by
  intro c
  simp

theorem Masked.update {area : SavedCsr → Word} (h : Masked area) {c : SavedCsr} {v : Word}
    (hv : v &&& c.toCsr.mask = v) : Masked (Function.update area c v) := by
  intro d
  by_cases hd : d = c
  · subst hd
    simpa using hv
  · simpa [Function.update_of_ne hd] using h d

/-- What a restore makes of the register behind a saved CSR. -/
theorem restoreCsrs_home (o : SaveOrder) (f : CsrFile) (area : SavedCsr → Word) (c : SavedCsr) :
    restoreCsrs o f area c.toCsr.home = mergeCsr c.toCsr (area c) (f c.toCsr.home) := by
  have hdistinct : o.order.Pairwise (fun a b => a.toCsr.home ≠ b.toCsr.home) :=
    o.nodup.imp (fun hne heq => hne (SavedCsr.home_injective heq))
  rw [restoreCsrs_eq_writeAll]
  exact writeAll_of_mem hdistinct (o.complete c)

/-- What a context shows after a restore: the bits of the area its CSRs can hold. -/
theorem readCsrs_restoreCsrs_mask (o : SaveOrder) (f : CsrFile) (area : SavedCsr → Word) :
    readCsrs (restoreCsrs o f area) = fun c => area c &&& c.toCsr.mask := by
  funext c
  simp only [readCsrs, csrRead, restoreCsrs_home, mergeCsr_and_mask]

theorem readCsrs_restoreCsrs (o : SaveOrder) (f : CsrFile) {area : SavedCsr → Word}
    (harea : Masked area) : readCsrs (restoreCsrs o f area) = area := by
  rw [readCsrs_restoreCsrs_mask]
  exact funext harea

/-- Restoring a context does not touch a register that no saved CSR lives in. -/
theorem restoreCsrs_of_ne (o : SaveOrder) (f : CsrFile) (area : SavedCsr → Word) {d : Csr}
    (hd : ∀ c : SavedCsr, c.toCsr.home ≠ d) : restoreCsrs o f area d = f d := by
  rw [restoreCsrs_eq_writeAll]
  exact writeAll_of_not_mem (fun c _ => hd c)

/-- A write through a saved CSR's own name is seen at that CSR only. -/
theorem readCsrs_csrWrite (f : CsrFile) (c : SavedCsr) {v : Word} (hv : v &&& c.toCsr.mask = v) :
    readCsrs (csrWrite f c.toCsr v) = Function.update (readCsrs f) c v := by
  funext d
  by_cases hd : d = c
  · subst hd
    simp [readCsrs, csrRead_csrWrite_self, hv]
  · have hhome : d.toCsr.home ≠ c.toCsr.home := fun h => hd (SavedCsr.home_injective h)
    simp [readCsrs, csrRead_csrWrite_of_ne f v hhome, Function.update_of_ne hd]

/-- What a context shows after `mepc` has moved past an instruction. -/
theorem readCsrs_stepMepc (gpr : PtRegs) (f : CsrFile) :
    Regs.mk gpr (readCsrs (csrWrite f .mepc (csrRead f .mepc + 4)))
      = (Regs.mk gpr (readCsrs f)).setCsr .mepc (4 + readCsrs f .mepc) := by
  have hread : readCsrs (csrWrite f SavedCsr.mepc.toCsr (csrRead f .mepc + 4))
      = Function.update (readCsrs f) .mepc (csrRead f .mepc + 4) :=
    readCsrs_csrWrite _ _ BitVec.and_allOnes
  have hadd : csrRead f .mepc + 4 = 4 + readCsrs f .mepc := BitVec.add_comm _ _
  rw [hadd] at hread ⊢
  exact congrArg (Regs.mk gpr) hread

/-- A write to a register that no saved CSR lives in is not seen by a context. -/
theorem readCsrs_csrWrite_of_ne (f : CsrFile) {d : Csr} (v : Word)
    (hd : ∀ c : SavedCsr, c.toCsr.home ≠ d.home) : readCsrs (csrWrite f d v) = readCsrs f := by
  funext c
  exact csrRead_csrWrite_of_ne f v (hd c)

end Riscv
end Serval
