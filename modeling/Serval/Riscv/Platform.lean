import Serval.Riscv.Regs
import Mathlib.Tactic.NormNum

/-!
# Platform — the header-level helpers the monitors share

Bounded indices (`io/nospec.h`), physical memory protection (`asm/pmp.h`) and the CSR bits the
monitors set.  None of these registers is part of a saved context.
-/

namespace Serval
namespace Riscv

variable {d : Csr} {v : Word}

/-! ## Indices under speculation -/

/-- `array_index_mask_nospec`: all ones for an index below the size, zero otherwise.  The shift is
arithmetic, since the operand is a `long`. -/
def arrayIndexMaskNospec (index size : Word) : Word :=
  (~~~(index ||| (size - 1 - index))).sshiftRight 63

def arrayIndexNospec (index size : Word) : Word :=
  index &&& arrayIndexMaskNospec index size

theorem arrayIndexMaskNospec_of_lt {index size : Word} (hindex : index < size)
    (hsize : size ≤ 0x8000000000000000#64) :
    arrayIndexMaskNospec index size = BitVec.allOnes 64 := by
  have hlt : index.toNat < size.toNat := hindex
  have hle : size.toNat ≤ 2 ^ 63 := hsize
  -- Neither the index nor its distance to the last element reaches the sign bit.
  have hgap : (size - 1 - index).toNat = size.toNat - 1 - index.toNat := by
    bv_omega
  have hmsb₁ : index.msb = false := BitVec.msb_eq_false_iff_two_mul_lt.mpr (by omega)
  have hmsb₂ : (size - 1 - index).msb = false :=
    BitVec.msb_eq_false_iff_two_mul_lt.mpr (by omega)
  have hmsb : (~~~(index ||| (size - 1 - index))).msb = true := by
    rw [BitVec.msb_not, BitVec.msb_or, hmsb₁, hmsb₂]
    rfl
  apply BitVec.eq_of_getLsbD_eq
  intro i hi
  rw [arrayIndexMaskNospec, BitVec.getLsbD_sshiftRight, BitVec.getLsbD_allOnes]
  by_cases h0 : 63 + i < 64
  · have hi0 : i = 0 := by omega
    subst hi0
    rw [BitVec.msb_eq_getLsbD_last] at hmsb
    rw [if_pos h0, Nat.add_zero]
    exact hmsb
  · rw [if_neg h0, hmsb]
    simp [hi]

/-- A checked index passes the clamp unchanged. -/
theorem arrayIndexNospec_of_lt {index size : Word} (hindex : index < size)
    (hsize : size ≤ 0x8000000000000000#64) : arrayIndexNospec index size = index := by
  rw [arrayIndexNospec, arrayIndexMaskNospec_of_lt hindex hsize, BitVec.and_allOnes]

/-! ## Physical memory protection -/

def PMPCFG_R : Word := 1
def PMPCFG_W : Word := 2
def PMPCFG_X : Word := 4
def PMPCFG_A_OFF : Word := 0
def PMPCFG_A_TOR : Word := 8

/-- `pmpaddr_write`: the register holds the address without its two low bits. -/
def pmpaddrWrite (f : CsrFile) (i : Fin 16) (addr : Word) : CsrFile :=
  csrWrite f (.pmpaddr i) (addr >>> 2)

/-- `pmpcfg_write`: clear the byte of entry `nr`, then set it.  The check that the value was
accepted only prints a message. -/
def pmpcfgWrite (f : CsrFile) (nr : Nat) (value : Word) : CsrFile :=
  let shift := nr % 8 * 8
  let mask := (0xff : Word) <<< shift
  let reg : Csr := if nr < 8 then .pmpcfg0 else .pmpcfg2
  csrSet (csrClear f reg mask) reg (value <<< shift)

/-! ## Bits of the machine CSRs -/

def SR_MPP : Word := 3 <<< 11
def SR_MPP_S : Word := 1 <<< 11
def SR_TVM : Word := 1 <<< 20
def SR_UXL : Word := 3 <<< 32
def SR_UXL_64 : Word := 2 <<< 32
def SR_SXL : Word := 3 <<< 34
def SR_SXL_64 : Word := 2 <<< 34

def IE_SSIE : Word := 1 <<< 1
def IE_STIE : Word := 1 <<< 5
def IE_SEIE : Word := 1 <<< 9

def IDEL_SOFT_S : Word := 1 <<< 1
def IDEL_TIMER_S : Word := 1 <<< 5
def IDEL_EXT_S : Word := 1 <<< 9

def SATP_MODE_BARE : Word := 0 <<< 60
def SATP_MODE_SV39 : Word := 8 <<< 60

/-- `EDEL_BREAKPOINT | EDEL_ECALL_U` and the misaligned and page-fault bits of instruction fetch,
load and store: what both monitors delegate to S-mode. -/
def delegatedExceptions : Word :=
  (1 <<< 3) ||| (1 <<< 8) ||| (1 <<< 0) ||| (1 <<< 12) ||| (1 <<< 4) ||| (1 <<< 13) |||
    (1 <<< 6) ||| (1 <<< 15)

def EXC_ECALL_S : Word := 9

/-- The registers that hold none of the saved CSRs. -/
def Csr.machineOnly : Csr → Bool
  | .medeleg | .mideleg | .mcounteren | .mtvec | .mscratch | .pmpcfg0 | .pmpcfg2 | .pmpaddr _ => true
  | _ => false

theorem home_ne_of_machineOnly (hd : d.machineOnly = true) (c : SavedCsr) : c.toCsr.home ≠ d := by
  intro h
  subst h
  cases c <;> simp [SavedCsr.toCsr, Csr.home, Csr.machineOnly] at hd

theorem Csr.home_of_machineOnly (hd : d.machineOnly = true) : d.home = d := by
  cases d <;> first | rfl | cases hd

theorem Csr.mask_of_machineOnly (hd : d.machineOnly = true) : d.mask = BitVec.allOnes 64 := by
  cases d <;> first | rfl | cases hd

/-- A write to a machine-only register is not seen by a context. -/
theorem readCsrs_csrWrite_of_machineOnly (f : CsrFile) (v : Word) (hd : d.machineOnly = true) :
    readCsrs (csrWrite f d v) = readCsrs f := by
  apply readCsrs_csrWrite_of_ne
  intro c
  rw [Csr.home_of_machineOnly hd]
  exact home_ne_of_machineOnly hd c

@[simp] theorem readCsrs_pmpaddrWrite (f : CsrFile) (i : Fin 16) (addr : Word) :
    readCsrs (pmpaddrWrite f i addr) = readCsrs f :=
  readCsrs_csrWrite_of_machineOnly f _ rfl

@[simp] theorem readCsrs_pmpcfgWrite (f : CsrFile) (nr : Nat) (value : Word) :
    readCsrs (pmpcfgWrite f nr value) = readCsrs f := by
  have hreg : (if nr < 8 then Csr.pmpcfg0 else Csr.pmpcfg2).machineOnly = true := by
    split <;> rfl
  simp only [pmpcfgWrite, csrSet, csrClear, readCsrs_csrWrite_of_machineOnly _ _ hreg]

/-- A machine-only register is written as a whole. -/
theorem csrWrite_of_machineOnly (f : CsrFile) (v : Word) (hd : d.machineOnly = true) :
    csrWrite f d v = Function.update f d v := by
  rw [csrWrite_of_whole f v (Csr.mask_of_machineOnly hd), Csr.home_of_machineOnly hd]

/-- The register that holds the configuration byte of an entry. -/
def pmpcfgReg (nr : Nat) : Csr :=
  if nr < 8 then .pmpcfg0 else .pmpcfg2

theorem pmpcfgWrite_eq (f : CsrFile) (nr : Nat) (value : Word) :
    pmpcfgWrite f nr value =
      Function.update f (pmpcfgReg nr)
        ((f (pmpcfgReg nr) &&& ~~~((0xff : Word) <<< (nr % 8 * 8))) ||| value <<< (nr % 8 * 8)) := by
  have hreg : (pmpcfgReg nr).machineOnly = true := by
    unfold pmpcfgReg
    split <;> rfl
  have hread : ∀ g : CsrFile, csrRead g (pmpcfgReg nr) = g (pmpcfgReg nr) := by
    intro g
    rw [csrRead, Csr.home_of_machineOnly hreg, Csr.mask_of_machineOnly hreg, BitVec.and_allOnes]
  show csrSet (csrClear f (pmpcfgReg nr) _) (pmpcfgReg nr) _ = _
  rw [csrSet, csrClear, csrWrite_of_machineOnly _ _ hreg, csrWrite_of_machineOnly _ _ hreg, hread,
    hread, Function.update_self, Function.update_idem]

theorem pmpaddrWrite_eq (f : CsrFile) (i : Fin 16) (addr : Word) :
    pmpaddrWrite f i addr = Function.update f (.pmpaddr i) (addr >>> 2) :=
  csrWrite_of_machineOnly f _ rfl

/-! ## Views of the machine registers -/

/-- A save area is masked when its three views hold no bit outside their masks. -/
theorem masked_iff (area : SavedCsr → Word) :
    Masked area ↔ ~~~sstatusMask &&& area .sstatus = 0 ∧ ~~~sieMask &&& area .sie = 0 ∧
      ~~~sipMask &&& area .sip = 0 := by
  have hview : ∀ v mask : Word, v &&& mask = v ↔ ~~~mask &&& v = 0 := by
    intro v mask
    constructor
    · intro h
      rw [← h, BitVec.and_comm v mask, ← BitVec.and_assoc]
      simp
    · intro h
      have hsplit : v = (v &&& mask) ||| (~~~mask &&& v) := by
        ext i hi
        simp only [BitVec.getElem_or, BitVec.getElem_and, BitVec.getElem_not]
        cases v[i] <;> cases mask[i] <;> rfl
      rw [h] at hsplit
      calc
        v &&& mask = (v &&& mask) ||| 0#64 := BitVec.or_zero.symm
        _ = v := hsplit.symm
  have hwhole : ∀ v : Word, v &&& BitVec.allOnes 64 = v := fun v => BitVec.and_allOnes
  constructor
  · intro h
    exact ⟨(hview _ _).mp (h .sstatus), (hview _ _).mp (h .sie), (hview _ _).mp (h .sip)⟩
  · rintro ⟨hstatus, hie, hip⟩ c
    cases c with
    | sstatus => exact (hview _ _).mpr hstatus
    | sie => exact (hview _ _).mpr hie
    | sip => exact (hview _ _).mpr hip
    | _ => exact hwhole _

theorem csrWrite_mstatus_self (f : CsrFile) (v : Word) : csrWrite f .mstatus v .mstatus = v := by
  rw [csrWrite_of_whole f v rfl]
  exact Function.update_self _ _ _

/-- A write to `mstatus` that keeps the bits `sstatus` shows is not seen by a context. -/
theorem readCsrs_csrWrite_mstatus (f : CsrFile) (hv : v &&& sstatusMask = f .mstatus &&& sstatusMask) :
    readCsrs (csrWrite f .mstatus v) = readCsrs f := by
  funext c
  by_cases hc : c = .sstatus
  · subst hc
    show csrWrite f .mstatus v .mstatus &&& sstatusMask = f .mstatus &&& sstatusMask
    rw [csrWrite_mstatus_self, hv]
  · apply csrRead_csrWrite_of_ne
    cases c <;> first | exact absurd rfl hc | (intro h; cases h)

theorem hidden_bit {k : Word} (hk : k &&& sstatusMask = 0) {i : Nat} (hi : i < 64) :
    (k[i] && sstatusMask[i]) = false := by
  rw [← BitVec.getElem_and, hk]
  simp

/-- A restore keeps the bits of `mstatus` that `sstatus` does not show. -/
theorem and_restoreCsrs_mstatus (o : SaveOrder) (f : CsrFile) (area : SavedCsr → Word) {k : Word}
    (hk : k &&& sstatusMask = 0) : k &&& restoreCsrs o f area .mstatus = k &&& f .mstatus := by
  have hmerge : restoreCsrs o f area .mstatus
      = (f .mstatus &&& ~~~sstatusMask) ||| (area .sstatus &&& sstatusMask) :=
    restoreCsrs_home o f area .sstatus
  rw [hmerge]
  ext i hi
  have hbit := hidden_bit hk hi
  simp only [BitVec.getElem_and, BitVec.getElem_or, BitVec.getElem_not]
  cases hm : sstatusMask[i] with
  | false => simp
  | true =>
      rw [hm, Bool.and_true] at hbit
      simp [hbit]

theorem csrRead_mstatus (f : CsrFile) : csrRead f .mstatus = f .mstatus :=
  BitVec.and_allOnes

/-- Bits of `mstatus` that `sstatus` does not show. -/
theorem readCsrs_csrSet_mstatus (f : CsrFile) (hv : v &&& sstatusMask = 0) :
    readCsrs (csrSet f .mstatus v) = readCsrs f := by
  apply readCsrs_csrWrite_mstatus
  rw [csrRead_mstatus]
  calc
    (f .mstatus ||| v) &&& sstatusMask
      = (f .mstatus &&& sstatusMask) ||| (v &&& sstatusMask) := by
        ext i hi
        simp [Bool.and_or_distrib_right]
    _ = f .mstatus &&& sstatusMask := by
        rw [hv]
        exact BitVec.or_zero

theorem readCsrs_csrClear_mstatus (f : CsrFile) (hv : v &&& sstatusMask = 0) :
    readCsrs (csrClear f .mstatus v) = readCsrs f := by
  apply readCsrs_csrWrite_mstatus
  rw [csrRead_mstatus]
  ext i hi
  have hbit := hidden_bit hv hi
  simp only [BitVec.getElem_and, BitVec.getElem_not]
  cases hm : sstatusMask[i] with
  | false => simp
  | true =>
      rw [hm, Bool.and_true] at hbit
      simp [hbit]

theorem shift_twelve (x : Word) : x <<< 12 = x * 4096 := by
  apply BitVec.eq_of_toNat_eq
  rw [BitVec.toNat_shiftLeft, BitVec.toNat_mul, Nat.shiftLeft_eq]
  rfl

end Riscv
end Serval
