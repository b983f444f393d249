import Serval.Komodo.Ownership
import Serval.Komodo.Representation

/-!
# Boot — the first state of the Komodo monitor

`main` clears the monitor's globals, sets the machine-level CSRs and jumps to the payload.  What is in
memory before that does not matter; of the CSRs the monitor relies on the trap vector and the stack
that `entry.S` has set, and on physical memory protection being off after reset.
-/

namespace Serval
namespace Komodo

open Riscv

variable {L : Layout} {f : CsrFile}

/-- The machine the payload starts on. -/
def booted (L : Layout) (frame : PtRegs) (hartid dtb : Word) (m : Machine) : Machine where
  gPagedb := fun p => if pageValid p then ⟨0, 0⟩ else m.gPagedb p
  securePages := updateWhere₂ m.securePages (fun p => pageValid p) (fun i => pageIndexValid i) 0
  payload := m.payload
  hostState := zeroRegs
  enclaveMode := 0
  gCurDispatcherPageno := 0
  csrs := supervisorInitCsrs L m.csrs
  regs := Function.update (Function.update frame .a0 hartid) .a1 dtb

theorem boot_eq_booted (L : Layout) (frame : PtRegs) (hartid dtb : Word) (m : Machine) :
    resume (boot L frame hartid dtb m) = some (booted L frame hartid dtb m) :=
  rfl

section Booted

variable (L : Layout) (frame : PtRegs) (hartid dtb : Word) (m : Machine)

theorem booted_free (g : Ghost) {p : Word} (hp : pageValid p) :
    (absFunction g (booted L frame hartid dtb m)).pageFree p := by
  refine ⟨hp, ?_⟩
  simp [absFunction, booted, hp, PageType.val]

theorem booted_not_typed (g : Ghost) {p : Word} {t : PageType} (ht : t ≠ .free) :
    ¬ (absFunction g (booted L frame hartid dtb m)).pageTyped p t := by
  intro h
  exact not_pageFree_of_pageTyped h ht (booted_free L frame hartid dtb m g h.1)

theorem booted_tableInvariants (g : Ghost) :
    TableInvariants (absFunction g (booted L frame hartid dtb m)) where
  ownerValid := by
    intro p hp
    exact absurd (booted_free L frame hartid dtb m g hp.1) (pageNonfree_iff.mp hp).2
  l1ptValid := fun p hp => absurd hp (booted_not_typed L frame hartid dtb m g (by decide))
  selfOwned := fun p hp => absurd hp (booted_not_typed L frame hartid dtb m g (by decide))
  dispatcherMasked := fun p hp => absurd hp (booted_not_typed L frame hartid dtb m g (by decide))
  currentValid := show pageValid 0 by decide
  enclaveDispatcher := fun hmode => absurd hmode Bool.false_ne_true
  hostMasked := zero_masked
  regsMasked := readCsrs_masked _

end Booted

/-! ## The CSRs -/

/-- What the monitor relies on before `main`. -/
structure ResetCsrs (L : Layout) (f : CsrFile) : Prop where
  mtvec : f .mtvec = L.machineTrapVector
  mscratch : f .mscratch = L.cpuStack + 0x7f00
  pmpcfg0 : f .pmpcfg0 = 0
  pmpcfg2 : f .pmpcfg2 = 0
  pmpaddr : ∀ i : Fin 16, f (.pmpaddr i) = 0

theorem pmpInit_pmpcfg0 (h : ResetCsrs L f) : pmpInit L f .pmpcfg0 = komodoPmpcfg0 false := by
  simp only [pmpInit, pmpcfgWrite_eq, pmpaddrWrite_eq]
  have hreg : pmpcfgReg 2 = .pmpcfg0 ∧ pmpcfgReg 3 = .pmpcfg0 ∧ pmpcfgReg 4 = .pmpcfg0 ∧
      pmpcfgReg 5 = .pmpcfg0 := ⟨rfl, rfl, rfl, rfl⟩
  simp only [hreg, Function.update_self, ne_eq, reduceCtorEq, not_false_eq_true,
    Function.update_of_ne, h.pmpcfg0]
  decide

theorem pmpInit_pmpaddr (h : ResetCsrs L f) (i : Fin 16) : pmpInit L f (.pmpaddr i) = komodoPmpaddr L i := by
  have hcfg : ∀ (g : CsrFile) (nr : Nat) (v : Word),
      pmpcfgWrite g nr v (.pmpaddr i) = g (.pmpaddr i) := by
    intro g nr v
    rw [pmpcfgWrite_eq]
    apply Function.update_of_ne
    unfold pmpcfgReg
    split <;> simp
  simp only [pmpInit, hcfg, pmpaddrWrite_eq, komodoPmpaddr]
  by_cases h5 : i = 5
  · subst h5
    simp
  by_cases h4 : i = 4
  · subst h4
    simp
  by_cases h3 : i = 3
  · subst h3
    simp [hcfg]
  by_cases h2 : i = 2
  · subst h2
    simp [hcfg]
  · simp [hcfg, h2, h3, h4, h5, h.pmpaddr i]

theorem pmpInit_other {c : Csr} (h0 : c ≠ .pmpcfg0) (haddr : ∀ i, c ≠ .pmpaddr i) : pmpInit L f c = f c := by
  have hreg : pmpcfgReg 2 = .pmpcfg0 ∧ pmpcfgReg 3 = .pmpcfg0 ∧ pmpcfgReg 4 = .pmpcfg0 ∧
      pmpcfgReg 5 = .pmpcfg0 := ⟨rfl, rfl, rfl, rfl⟩
  simp [pmpInit, pmpcfgWrite_eq, pmpaddrWrite_eq, hreg, h0, haddr]

theorem booted_csrInvariants (h : ResetCsrs L f) : CsrInvariants L false (supervisorInitCsrs L f) := by
  constructor
  · intro c v hc
    have hne : ∀ d : Csr, machineCsr L false d = none → c ≠ d := by
      rintro d hd rfl
      rw [hd] at hc
      cases hc
    simp only [supervisorInitCsrs]
    rw [csrWrite_of_ne _ _ (hne .mepc rfl), csrWrite_of_ne _ _ (hne .mideleg rfl),
      csrWrite_of_ne _ _ (hne .medeleg rfl), csrWrite_of_ne _ _ (hne .mcounteren rfl),
      csrWrite_of_ne _ _ (hne .mstatus rfl)]
    cases c with
    | mtvec => exact (pmpInit_other (by simp) (by simp)).trans (h.mtvec.trans (Option.some.inj hc))
    | mscratch =>
        exact (pmpInit_other (by simp) (by simp)).trans (h.mscratch.trans (Option.some.inj hc))
    | pmpcfg2 =>
        exact (pmpInit_other (by simp) (by simp)).trans (h.pmpcfg2.trans (Option.some.inj hc))
    | pmpcfg0 => exact (pmpInit_pmpcfg0 h).trans (Option.some.inj hc)
    | pmpaddr i => exact (pmpInit_pmpaddr h i).trans (Option.some.inj hc)
    | _ => cases hc
  · intro hfalse
    exact absurd hfalse Bool.false_ne_true

/-- The ghost components of the initial state, but for the address space of an enclave that does not
run yet. -/
def initGhost (currentAddrspace : Word) : Ghost where
  currentAddrspace := currentAddrspace
  pageRefcnt := .init
  pgtablePn := fun _ _ => 0
  pgtablePresent := fun _ _ => false
  pgtablePerm := fun _ _ => 0
  pgtableSecure := fun _ _ => false

theorem booted_initialState (L : Layout) (frame : PtRegs) (hartid dtb : Word) (m : Machine)
    (currentAddrspace : Word) :
    InitialState (absFunction (initGhost currentAddrspace) (booted L frame hartid dtb m)) where
  free := fun p hp => booted_free L frame hartid dtb m _ hp
  owners := by
    intro p hp
    simp [absFunction, booted, hp]
  pages := by
    intro p i hp hi
    simp [absFunction, booted, updateWhere₂, hp, hi]
  mode := rfl
  host := rfl
  dispatcher := rfl
  refcnt := rfl
  pgtable := fun _ _ => ⟨rfl, rfl, rfl, rfl⟩

/-- An image that is loaded at `0x80000000`. -/
def imageLayout : Layout where
  securePages := 0x80400000
  payloadStart := 0x80200000
  machineTrapVector := 0x80000100
  cpuStack := 0x80010000
  secure_aligned := by decide
  payload_aligned := by decide
  secure_fits := by decide
  payload_fits := by decide
  disjoint := by decide

/-- A hart fresh out of reset, with zeroed memory. -/
def resetMachine (L : Layout) : Machine where
  gPagedb := fun _ => ⟨0, 0⟩
  securePages := fun _ _ => 0
  payload := fun _ _ => 0
  hostState := zeroRegs
  enclaveMode := 0
  gCurDispatcherPageno := 0
  csrs := fun c =>
    if c = .mtvec then L.machineTrapVector
    else if c = .mscratch then L.cpuStack + 0x7f00
    else 0
  regs := fun _ => 0

theorem resetMachine_resetCsrs (L : Layout) : ResetCsrs L (resetMachine L).csrs := by
  constructor <;> simp [resetMachine]

theorem booted_repInvariant {m : Machine} (h : ResetCsrs L m.csrs) (frame : PtRegs) (hartid dtb : Word) :
    RepInvariant L (booted L frame hartid dtb m) :=
  ⟨(mregionsInvariants_iff (initGhost 0) _).mpr (booted_tableInvariants L frame hartid dtb m _),
    booted_csrInvariants h⟩

end Komodo
end Serval
