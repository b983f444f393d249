import Serval.Riscv.Interp
import Mathlib.Data.List.Forall2

/-!
# Views — `sstatus`, `sie` and `sip` through the CSR instructions

The three supervisor CSRs are views of `mstatus`, `mie` and `mip`: a mask says which bits they show.  Reads apply the
mask.  Writes should change the bits under the mask and keep the others; `csr-set!` stores the masked value and so
clears every machine-only bit.  This module says what a CSR instruction on a view does, and when the machine-only
bits survive, after one instruction and after any sequence of them.
-/

namespace Serval
namespace Riscv
namespace Interp

open Serval.Core

/-! ## Views and the instructions on them -/

inductive View
  | sstatus | sie | sip
  deriving DecidableEq, Repr

namespace View

def name : View → CsrName
  | .sstatus => .sstatus
  | .sie => .sie
  | .sip => .sip

/-- The machine register behind a view. -/
def home : View → CsrReg
  | .sstatus => .mstatus
  | .sie => .mie
  | .sip => .mip

def mask : View → Word
  | .sstatus => sstatusMask
  | .sie => sieMask
  | .sip => sipMask

variable {xlen : Nat}

/-- What a view shows of its register. -/
def shown (v : View) (cpu : Cpu xlen) : BitVec xlen :=
  v.mask.setWidth xlen &&& cpu.csrs v.home

/-- The machine-only bits of its register. -/
def hidden (v : View) (cpu : Cpu xlen) : BitVec xlen :=
  cpu.csrs v.home &&& ~~~v.mask.setWidth xlen

theorem home_inj {v v' : View} (h : v.home = v'.home) : v = v' := by
  cases v <;> cases v' <;> first | rfl | cases h

end View

/-- What an instruction makes of the old value of a CSR and its operand. -/
inductive Access
  | write | set | clear
  deriving DecidableEq, Repr

def Access.result {xlen : Nat} (old value : BitVec xlen) : Access → BitVec xlen
  | .write => value
  | .set => old ||| value
  | .clear => old &&& ~~~value

/-- A CSR instruction on a view; its operand is a register or an immediate. -/
structure ViewInstr where
  access : Access
  view : View
  rd : Reg
  src : Reg ⊕ BitVec 5

namespace ViewInstr

def opcode (a : ViewInstr) : Op :=
  match a.access, a.src with
  | .write, .inl _ => .csrrw
  | .set, .inl _ => .csrrs
  | .clear, .inl _ => .csrrc
  | .write, .inr _ => .csrrwi
  | .set, .inr _ => .csrrsi
  | .clear, .inr _ => .csrrci

def value {xlen : Nat} (a : ViewInstr) (cpu : Cpu xlen) : BitVec xlen :=
  match a.src with
  | .inl g => cpu.gprRef g
  | .inr imm => imm.setWidth xlen

/-- `csrrs` and `csrrc` with `x0` or the immediate 0, which only read. -/
def onlyReads (a : ViewInstr) : Prop :=
  a.access ≠ .write ∧ (a.src = .inl 0 ∨ a.src = .inr 0)

end ViewInstr

/-- An `instr` with the opcode and the operands of an instruction on a view. -/
def Instr.Accesses (i : Instr) (a : ViewInstr) : Prop :=
  i.op = a.opcode ∧ i.dst = some a.rd ∧ i.src1 = some (.csr a.view.name) ∧
    match a.src with
    | .inl g => i.src2 = some g
    | .inr imm => i.imm = some ⟨5, imm⟩

section Steps

variable {xlen : Nat}

/-- What an instruction on a view should do. -/
structure Faithful (cpu cpu' : Cpu xlen) (a : ViewInstr) : Prop where
  old : a.rd ≠ 0 → cpu'.gprRef a.rd = a.view.shown cpu
  new : cpu'.csrRef a.view.name =
    .ok (a.view.mask.setWidth xlen &&& a.access.result (a.view.shown cpu) (a.value cpu))
  hidden : a.view.hidden cpu' = a.view.hidden cpu
  untouched : a.onlyReads → cpu'.csrs = cpu.csrs
  others : ∀ r, r ≠ a.view.home → cpu'.csrs r = cpu.csrs r

/-- What it does, on a 64-bit processor. -/
def ViewInstr.run (a : ViewInstr) (cpu : Cpu 64) (size : Nat) : Cpu 64 :=
  let written := if a.rd = 0 then cpu else cpu.gprSet a.rd (a.view.shown cpu)
  (written.setCsrReg a.view.home
    (a.view.mask &&& a.access.result (a.view.shown cpu) (a.value cpu))).next size

/-! ## One instruction -/

theorem csrRef_view (cpu : Cpu xlen) (hxlen : xlen = 64) (v : View) : cpu.csrRef v.name = .ok (v.shown cpu) := by
  subst hxlen
  cases v <;> rfl

theorem csrSet_view (cpu : Cpu 64) (v : View) (x : Word) :
    cpu.csrSet v.name x = .ok (cpu.setCsrReg v.home (v.mask &&& x)) := by
  cases v with
  | sstatus => rw [BitVec.and_comm]; rfl
  | sie => rfl
  | sip => rw [BitVec.and_comm]; rfl

/-- The masks are 64 bits wide on every processor. -/
theorem csrRef_view_of_ne (cpu : Cpu xlen) (hxlen : xlen ≠ 64) (v : View) : cpu.csrRef v.name = .error .badWidth := by
  cases v <;> simp only [View.name, Cpu.csrRef, Cpu.viewMask, if_neg hxlen] <;> rfl

theorem csrSet_view_of_ne (cpu : Cpu xlen) (hxlen : xlen ≠ 64) (v : View) (x : BitVec xlen) :
    cpu.csrSet v.name x = .error .badWidth := by
  cases v <;> simp only [View.name, Cpu.csrSet, Cpu.viewMask, if_neg hxlen] <;> rfl

theorem shown_gprSet (cpu : Cpu xlen) (g : Reg) (x : BitVec xlen) (v : View) :
    v.shown (cpu.gprSet g x) = v.shown cpu := by
  rw [View.shown, Cpu.gprSet_csrs, View.shown]

/-- An instruction on a view is `do-csr-op` with its value. -/
theorem interpretInstr_view {cpu : Cpu xlen} {i : Instr} {a : ViewInstr} (h : i.Accesses a) :
    interpretInstr cpu i = (doCsrOp cpu a.opcode a.rd a.view.name (a.value cpu)).map fun cpu' => cpu'.next i.size := by
  obtain ⟨access, view, rd, src⟩ := a
  obtain ⟨op, dst, src1, src2, imm, size⟩ := i
  obtain ⟨rfl, rfl, rfl, hsrc⟩ := h
  cases src with
  | inl g | inr z =>
      obtain rfl := hsrc
      cases access <;> rfl

/-- The first half of `do-csr-op`: the old value goes to the destination. -/
def ViewInstr.readOld (a : ViewInstr) (cpu : Cpu xlen) : Except Bug (Cpu xlen) :=
  if a.rd = 0 then .ok cpu else (cpu.csrRef a.view.name).map (cpu.gprSet a.rd)

/-- The second half: the CSR is written. -/
def ViewInstr.writeNew (a : ViewInstr) (x : BitVec xlen) (cpu : Cpu xlen) : Except Bug (Cpu xlen) :=
  match a.access with
  | .write => cpu.csrSet a.view.name x
  | .set => (cpu.csrRef a.view.name).bind fun old => cpu.csrSet a.view.name (old ||| x)
  | .clear => (cpu.csrRef a.view.name).bind fun old => cpu.csrSet a.view.name (old &&& ~~~x)

theorem doCsrOp_eq (cpu : Cpu xlen) (a : ViewInstr) (x : BitVec xlen) :
    doCsrOp cpu a.opcode a.rd a.view.name x = (a.readOld cpu).bind (a.writeNew x) := by
  obtain ⟨access, view, rd, src⟩ := a
  unfold doCsrOp ViewInstr.readOld
  split_ifs
  · cases access <;> cases src <;> rfl
  · cases cpu.csrRef view.name with
    | error b => rfl
    | ok old => cases access <;> cases src <;> rfl

theorem interpretInstr_view_eq {cpu : Cpu 64} {i : Instr} {a : ViewInstr} (h : i.Accesses a) :
    interpretInstr cpu i = .ok (a.run cpu i.size) := by
  let written := if a.rd = 0 then cpu else cpu.gprSet a.rd (a.view.shown cpu)
  have hread : a.readOld cpu = .ok written := by
    rw [ViewInstr.readOld, csrRef_view cpu rfl]
    simp only [written]
    split_ifs <;> rfl
  have hshown : a.view.shown written = a.view.shown cpu := by
    simp only [written]
    split_ifs
    · rfl
    · exact shown_gprSet ..
  have hwrite : a.writeNew (a.value cpu) written = .ok (written.setCsrReg a.view.home
      (a.view.mask &&& a.access.result (a.view.shown cpu) (a.value cpu))) := by
    rw [ViewInstr.writeNew, csrRef_view written rfl, hshown]
    cases a.access <;> exact csrSet_view ..
  rw [interpretInstr_view h, doCsrOp_eq, hread, Except.bind, hwrite]
  rfl

theorem interpretInstr_view_of_ne {cpu cpu' : Cpu xlen} (hxlen : xlen ≠ 64) {i : Instr} {a : ViewInstr}
    (h : i.Accesses a) : interpretInstr cpu i ≠ .ok cpu' := by
  have hwrite : ∀ cpu₁, a.writeNew (a.value cpu) cpu₁ = .error .badWidth := fun cpu₁ => by
    rw [ViewInstr.writeNew, csrRef_view_of_ne cpu₁ hxlen]
    cases a.access
    · exact csrSet_view_of_ne cpu₁ hxlen ..
    · rfl
    · rfl
  rw [interpretInstr_view h, doCsrOp_eq]
  cases a.readOld cpu with
  | error b => exact fun hrun => nomatch hrun
  | ok cpu₁ =>
      rw [Except.bind, hwrite]
      exact fun hrun => nomatch hrun

section Bits

variable (cpu : Cpu 64) (a : ViewInstr) (size : Nat)

theorem run_csrs :
    (a.run cpu size).csrs = Function.update cpu.csrs a.view.home
      (a.view.mask &&& a.access.result (a.view.shown cpu) (a.value cpu)) := by
  have hsame : (if a.rd = 0 then cpu else cpu.gprSet a.rd (a.view.shown cpu)).csrs = cpu.csrs := by
    split_ifs
    · rfl
    · exact Cpu.gprSet_csrs ..
  unfold ViewInstr.run
  simp only [Cpu.next, Cpu.setCsrReg, hsame]

theorem run_gprRef (h : a.rd ≠ 0) : (a.run cpu size).gprRef a.rd = a.view.shown cpu := by
  have hset := Cpu.gprRef_gprSet cpu a.rd a.rd (a.view.shown cpu)
  rw [if_pos ⟨rfl, h⟩] at hset
  unfold ViewInstr.run
  simp only [if_neg h]
  exact hset

/-- The instruction clears the machine-only bits of its register and keeps those of the others. -/
theorem hidden_run (v : View) :
    v.hidden (a.run cpu size) = if v = a.view then 0 else v.hidden cpu := by
  unfold View.hidden
  rw [run_csrs]
  split_ifs with hv
  · subst hv
    rw [Function.update_self]
    ext k hk
    simp only [BitVec.getElem_and, BitVec.getElem_not, BitVec.setWidth_eq]
    cases a.view.mask[k] <;> simp
  · rw [Function.update_of_ne fun hhome => hv (View.home_inj hhome)]

/-- A register is what its view shows exactly if it has no machine-only bits. -/
theorem shown_eq_iff (v : View) : v.shown cpu = cpu.csrs v.home ↔ v.hidden cpu = 0 := by
  constructor
  · intro h
    rw [View.hidden, ← h, View.shown]
    ext k hk
    simp only [BitVec.getElem_and, BitVec.getElem_not, BitVec.setWidth_eq]
    cases v.mask[k] <;> simp
  · intro h
    ext k hk
    have hbit := congrArg (fun x : Word => x[k]) h
    simp only [View.hidden, BitVec.getElem_and, BitVec.getElem_not, BitVec.setWidth_eq] at hbit
    simp only [View.shown, BitVec.getElem_and, BitVec.setWidth_eq]
    cases hm : v.mask[k] <;> simp_all

end Bits

theorem faithful_iff (cpu : Cpu xlen) {i : Instr} {a : ViewInstr} (h : i.Accesses a) :
    (∃ cpu', interpretInstr cpu i = .ok cpu' ∧ Faithful cpu cpu' a) ↔ xlen = 64 ∧ a.view.hidden cpu = 0 := by
  constructor
  · rintro ⟨cpu', hrun, hfaithful⟩
    have hxlen : xlen = 64 := by
      by_contra hne
      exact interpretInstr_view_of_ne hne h hrun
    subst hxlen
    obtain rfl : a.run cpu i.size = cpu' := Except.ok.inj ((interpretInstr_view_eq h).symm.trans hrun)
    refine ⟨rfl, ?_⟩
    rw [← hfaithful.hidden, hidden_run, if_pos rfl]
  · rintro ⟨rfl, hhidden⟩
    refine ⟨_, interpretInstr_view_eq h, run_gprRef cpu a i.size, ?_, ?_, ?_, ?_⟩
    · rw [csrRef_view _ rfl, View.shown, run_csrs, Function.update_self, BitVec.setWidth_eq, ← BitVec.and_assoc,
        BitVec.and_self]
    · rw [hidden_run, if_pos rfl, hhidden]
    · -- with an operand of zero the new value is the old view, and that is the whole register
      rintro ⟨haccess, hsrc⟩
      have hvalue : a.value cpu = 0 := by
        unfold ViewInstr.value
        rcases hsrc with hsrc | hsrc <;> rw [hsrc] <;> rfl
      have hresult : a.access.result (a.view.shown cpu) (a.value cpu) = a.view.shown cpu := by
        rw [hvalue]
        cases hkind : a.access with
        | write => exact absurd hkind haccess
        | set => exact BitVec.or_zero
        | clear =>
            rw [Access.result]
            exact (congrArg _ BitVec.not_zero).trans BitVec.and_allOnes
      have hshown := (shown_eq_iff cpu a.view).mpr hhidden
      rw [run_csrs, hresult, View.shown, BitVec.setWidth_eq, ← BitVec.and_assoc, BitVec.and_self]
      rw [View.shown, BitVec.setWidth_eq] at hshown
      rw [hshown, Function.update_eq_self]
    · intro r hr
      rw [run_csrs, Function.update_of_ne hr]

/-! ## Sequences of instructions -/

theorem run_sequence {is : List Instr} {as : List ViewInstr} (h : List.Forall₂ Instr.Accesses is as) (cpu : Cpu 64) :
    ∃ cpu', is.foldlM interpretInstr cpu = .ok cpu' ∧
      ∀ v : View, v.hidden cpu' = if v ∈ as.map ViewInstr.view then 0 else v.hidden cpu := by
  induction h generalizing cpu with
  | nil => exact ⟨cpu, rfl, fun v => by simp⟩
  | @cons i a is as hfirst _ ih =>
      obtain ⟨cpu', hrun, hhidden⟩ := ih (a.run cpu i.size)
      refine ⟨cpu', ?_, fun v => ?_⟩
      · rw [List.foldlM_cons, interpretInstr_view_eq hfirst]
        exact hrun
      · rw [hhidden v, hidden_run]
        by_cases hv : v = a.view
        · simp [hv]
        · simp [hv]

theorem sequence_keeps_iff {is : List Instr} {as : List ViewInstr} (h : List.Forall₂ Instr.Accesses is as)
    (cpu : Cpu xlen) :
    (∃ cpu', is.foldlM interpretInstr cpu = .ok cpu' ∧ ∀ v : View, v.hidden cpu' = v.hidden cpu) ↔
      ∀ a ∈ as, xlen = 64 ∧ a.view.hidden cpu = 0 := by
  by_cases hxlen : xlen = 64
  · subst hxlen
    obtain ⟨cpu', hrun, hhidden⟩ := run_sequence h cpu
    constructor
    · rintro ⟨cpu'', hrun', hkept⟩ a ha
      obtain rfl : cpu' = cpu'' := Except.ok.inj (hrun.symm.trans hrun')
      refine ⟨rfl, ?_⟩
      rw [← hkept, hhidden, if_pos (List.mem_map_of_mem ha)]
    · intro hall
      refine ⟨cpu', hrun, fun v => ?_⟩
      rw [hhidden]
      split_ifs with hv
      · obtain ⟨a, ha, rfl⟩ := List.mem_map.mp hv
        exact (hall a ha).2.symm
      · rfl
  · cases h with
    | nil => exact iff_of_true ⟨cpu, rfl, fun _ => rfl⟩ (by simp)
    | cons hfirst _ =>
        refine iff_of_false ?_ fun hall => hxlen (hall _ List.mem_cons_self).1
        rintro ⟨cpu', hrun, -⟩
        rw [List.foldlM_cons] at hrun
        obtain ⟨cpu₁, hstep, -⟩ := bind_eq_ok.mp hrun
        exact interpretInstr_view_of_ne hxlen hfirst hstep

/-- An instruction on a view is faithful exactly if the processor has 64-bit registers, as the masks do, and the
register behind the view has no machine-only bit; a sequence of them keeps the machine-only bits exactly if this
holds at its start for every view it touches. -/
theorem views_faithful_iff (cpu : Cpu xlen) :
    (∀ (i : Instr) (a : ViewInstr), i.Accesses a →
      ((∃ cpu', interpretInstr cpu i = .ok cpu' ∧ Faithful cpu cpu' a) ↔ xlen = 64 ∧ a.view.hidden cpu = 0)) ∧
    ∀ (is : List Instr) (as : List ViewInstr), List.Forall₂ Instr.Accesses is as →
      ((∃ cpu', is.foldlM interpretInstr cpu = .ok cpu' ∧ ∀ v : View, v.hidden cpu' = v.hidden cpu) ↔
        ∀ a ∈ as, xlen = 64 ∧ a.view.hidden cpu = 0) :=
  ⟨fun _ _ h => faithful_iff cpu h, fun _ _ h => sequence_keeps_iff h cpu⟩

end Steps

/-! ## A read that clears `MPP` -/

/-- A processor whose `mstatus` is as given and whose other CSRs are 0. -/
def withMstatus (mstatus : Word) : Cpu 64 where
  pc := 0
  gprs := fun _ => 0
  csrs := fun r => if r = .mstatus then mstatus else 0
  mregions := []

/-- `csrrs t0, sstatus, x0`. -/
def readSstatus : Instr :=
  ⟨.csrrs, some 5, some (.csr .sstatus), some 0, none, 4⟩

theorem readSstatus_accesses : readSstatus.Accesses ⟨.set, .sstatus, 5, .inl 0⟩ :=
  ⟨rfl, rfl, rfl, rfl⟩

/-- With `SIE` alone in `mstatus`, the read is faithful. -/
theorem views_faithful_iff_sie :
    ∃ cpu', interpretInstr (withMstatus 2) readSstatus = .ok cpu' ∧
      Faithful (withMstatus 2) cpu' ⟨.set, .sstatus, 5, .inl 0⟩ :=
  ((views_faithful_iff (withMstatus 2)).1 _ _ readSstatus_accesses).mpr ⟨rfl, by decide⟩

/-- With `MPP` set to machine mode, the read of `sstatus` through `x0` clears it. -/
theorem read_clears_mpp :
    readSstatus.Accesses ⟨.set, .sstatus, 5, .inl 0⟩ ∧
      (withMstatus 0x1800).csrs .mstatus = 0x1800 ∧
      (interpretInstr (withMstatus 0x1800) readSstatus).map (fun cpu' => cpu'.csrs .mstatus) = .ok 0 :=
  ⟨readSstatus_accesses, rfl, rfl⟩

end Interp
end Riscv
end Serval
