import Serval.Bpf.Jit.Riscv32
import Serval.Bpf.Jit.Stack

/-!
# Riscv32State — how a 32-bit processor represents the BPF registers

`cpu-equal?` of `bpf/jit/riscv32.rkt` compares the BPF registers with the register pairs and the stack
slots of `regmap`.  The stack is one region of 32 cells of four bytes at address `0x1000`, and `fp`
points to its end.  What follows from this is said once for a pair of registers and once for a pair of
slots: what a location holds, and which writes leave it alone.
-/

namespace Serval
namespace Bpf
namespace Jit

open Serval.Core Riscv.Interp DoubleWord

variable {v : BitVec 64} {f : BitVec 32 → BitVec 32} {gs : List Gpr} {d : Bpf.Reg} {b : Bpf.Cpu}

abbrev RvCpu := Riscv.Interp.Cpu 32

/-! ## The stack -/

/-- The end of the stack, where `fp` points. -/
def stackTop : Nat := 0x1000 + 4 * STACK_SIZE

/-- The region of the stack. -/
def stackRegion (f : BitVec 32 → BitVec 32) : MRegion 32 where
  start := 0x1000
  stop := stackTop
  name := "stack"
  block := stackBlock STACK_SIZE f

/-- The index of a slot: slots count from the top of the stack. -/
def slotIndex (k : Nat) : BitVec 32 :=
  BitVec.ofInt 32 (STACK_SIZE - 1 - k)

/-- `mblock-iload` of the cell of a slot. -/
def loadSlot (r : RvCpu) (k : Nat) : Except Bug Bv := do
  (← findBlockByName r.mregions "stack").iload ⟨[.index (slotIndex k)], none⟩

/-- The value at a location, as `cpu-equal?` reads it. -/
def locValue (r : RvCpu) : Loc → Except Bug Bv
  | .regs p => .ok (concat ⟨32, r.gprRef p.hi⟩ ⟨32, r.gprRef p.lo⟩)
  | .stack hi lo => do
      let loval ← loadSlot r lo
      let hival ← loadSlot r hi
      return concat hival loval

def Holds (r : RvCpu) (l : Loc) (v : BitVec 64) : Prop :=
  locValue r l = .ok ⟨64, v⟩

/-- `cpu-equal?`. -/
def cpuEqual (b : Bpf.Cpu) (r : RvCpu) : Prop :=
  ∀ i, ∃ v, b.regs i = some v ∧ Holds r (bpfToRvRegs i) v

/-- The processor represents the BPF registers: there is a stack, `fp` points to its top, and the
registers are equal. -/
structure Represents (b : Bpf.Cpu) (r : RvCpu) : Prop where
  stack : ∃ f, r.mregions = [stackRegion f]
  fp : r.gprRef Reg.fp = BitVec.ofNat 32 stackTop
  regs : cpuEqual b r

/-! ## What a location holds -/

theorem holds_regs {r : RvCpu} {p : Pair} :
    Holds r (.regs p) v ↔ r.gprRef p.hi = hi (w := 32) v ∧ r.gprRef p.lo = lo (w := 32) v := by
  rw [← append_eq_iff]
  exact ⟨Except.ok.inj, congrArg Except.ok⟩

theorem loadSlot_eq {r : RvCpu} (h : r.mregions = [stackRegion f]) (k : Nat) :
    loadSlot r k = .ok ⟨32, f (slotIndex k)⟩ := by
  rw [loadSlot, h]
  rfl

theorem holds_stack {r : RvCpu} (h : r.mregions = [stackRegion f]) {a b : Nat} :
    Holds r (.stack a b) v ↔ f (slotIndex a) = hi (w := 32) v ∧ f (slotIndex b) = lo (w := 32) v := by
  rw [← append_eq_iff, Holds, locValue, loadSlot_eq h, loadSlot_eq h]
  exact ⟨Except.ok.inj, congrArg Except.ok⟩

/-! ## Loads and stores at a slot -/

/-- The address of a slot and its offset in the region: in bounds, aligned, and of the cell with the
index of the slot. -/
theorem slot_address {k : Nat} (hk : k < STACK_SIZE) :
    let addr := (stackOffset k).signExtend 32 + BitVec.ofNat 32 stackTop
    let offset := addr - 0x1000#32
    (0x1000#32 ≤ addr ∧ addr < BitVec.ofNat 32 stackTop) ∧
      addr ≤ BitVec.ofNat 32 stackTop - 4#32 ∧
      MBlock.inbounds (STACK_SIZE * 4) offset 4#32 ∧
      offset % 4#32 = 0#32 ∧ offset.smtUDiv 4#32 = slotIndex k := by
  have hall : ∀ k : Fin 32,
      let addr := (stackOffset k).signExtend 32 + BitVec.ofNat 32 stackTop
      let offset := addr - 0x1000#32
      (0x1000#32 ≤ addr ∧ addr < BitVec.ofNat 32 stackTop) ∧
        addr ≤ BitVec.ofNat 32 stackTop - 4#32 ∧
        MBlock.inbounds (STACK_SIZE * 4) offset 4#32 ∧
        offset % 4#32 = 0#32 ∧ offset.smtUDiv 4#32 = slotIndex k := by
    decide +kernel
  exact hall ⟨k, hk⟩

theorem stackRegion_path {k : Nat} (hk : k < STACK_SIZE) :
    (stackRegion f).block.path
      ((stackOffset k).signExtend 32 + BitVec.ofNat 32 stackTop - 0x1000#32) 4#32 =
      .ok ⟨[.index (slotIndex k)], some (0#32, 4#32)⟩ := by
  rcases slot_address hk with ⟨_, _, hin, haligned, hindex⟩
  rw [← hindex]
  exact stackBlock_path hin haligned

theorem stackRegion_istore (f : BitVec 32 → BitVec 32) (i v : BitVec 32)
    (last : Option (BitVec 32 × BitVec 32)) :
    (stackRegion f).block.istore ⟨32, v⟩ ⟨[.index i], last⟩ =
      .ok (stackRegion (Function.update f i v)).block :=
  stackBlock_istore i v last

/-- The state after a store to a slot. -/
def storeSlot (r : RvCpu) (f : BitVec 32 → BitVec 32) (k : Nat) (v : BitVec 32) : RvCpu :=
  { r with mregions := [stackRegion (Function.update f (slotIndex k) v)] }.next DEFAULT_SIZE

section SlotRules

variable {r : RvCpu} {f : BitVec 32 → BitVec 32} {k : Nat} (hstack : r.mregions = [stackRegion f])
  (hfp : r.gprRef Reg.fp = BitVec.ofNat 32 stackTop) (hk : k < STACK_SIZE)

include hstack hfp hk

theorem resolveMemPath_slot {op : Op} (hop : memopSize op = .ok 4) :
    resolveMemPath r op Reg.fp ⟨12, stackOffset k⟩ =
      .ok (0, stackRegion f, ⟨[.index (slotIndex k)], some (0#32, 4#32)⟩) := by
  rcases slot_address hk with ⟨haddr, hend, _⟩
  refine resolveMemPath_eq ?_ (by rw [hstack]; rfl) hop ?_ ?_
  · have hfind : findMregionByAddr [stackRegion f]
        ((stackOffset k).signExtend 32 + BitVec.ofNat 32 stackTop) = some 0 := by
      simp [findMregionByAddr, stackRegion, haddr]
    rw [guessMregionFromAddr, hstack, hfp, hfind]
    rfl
  · rw [hfp]
    exact ⟨haddr.1, hend⟩
  · rw [hfp]
    exact stackRegion_path hk

theorem line_rvLw (rd : Gpr) (code : List Instr) (Q : RvCpu → Prop) :
    (machine 32).line (rvLw rd (stackOffset k) Reg.fp :: code) Q r ↔
      (machine 32).line code Q (retire r rd (f (slotIndex k))) := by
  refine line_retire ?_ rfl rfl code Q
  have hpath := resolveMemPath_slot hstack hfp hk (show memopSize .lw = .ok 4 from rfl)
  show (do
    let (_, mr, path) ← resolveMemPath r .lw Reg.fp ⟨12, stackOffset k⟩
    let v ← extendLoad (← loadSigned .lw) (← mr.block.iload path)
    return (r.gprSet rd v).next 4) = _
  rw [hpath]
  show Except.ok ((r.gprSet rd ((f (slotIndex k)).signExtend 32)).next 4) = _
  rw [BitVec.signExtend_eq]
  rfl

theorem line_rvSw (rs2 : Gpr) (code : List Instr) (Q : RvCpu → Prop) :
    (machine 32).line (rvSw Reg.fp (stackOffset k) rs2 :: code) Q r ↔
      (machine 32).line code Q (storeSlot r f k (r.gprRef rs2)) := by
  have hpath := resolveMemPath_slot hstack hfp hk (show memopSize .sw = .ok 4 from rfl)
  have hexec : (machine 32).exec (rvSw Reg.fp (stackOffset k) rs2) r =
      .ok (storeSlot r f k (r.gprRef rs2)) := by
    have hstore := interpretInstr_sw (n := 4) (Nat.le_refl 32) hpath
      (by rw [BitVec.setWidth_eq]; exact stackRegion_istore f (slotIndex k) (r.gprRef rs2) _)
    rw [hstack] at hstore
    exact hstore
  exact (machine 32).line_cons hexec rfl (BitVec.add_comm ..) code Q

end SlotRules

@[simp] theorem storeSlot_gprRef (r : RvCpu) (f : BitVec 32 → BitVec 32) (k : Nat) (v : BitVec 32)
    (g : Gpr) : (storeSlot r f k v).gprRef g = r.gprRef g := rfl

@[simp] theorem storeSlot_mregions (r : RvCpu) (f : BitVec 32 → BitVec 32) (k : Nat) (v : BitVec 32) :
    (storeSlot r f k v).mregions = [stackRegion (Function.update f (slotIndex k) v)] := rfl

/-! ## Which writes leave a location alone -/

/-- None of the listed registers is part of the location. -/
def Loc.Avoids : Loc → List Gpr → Prop
  | .regs p, gs => p.hi ∉ gs ∧ p.lo ∉ gs
  | .stack _ _, _ => True

instance (l : Loc) (gs : List Gpr) : Decidable (l.Avoids gs) :=
  match l with
  | .regs _ => inferInstanceAs (Decidable (_ ∧ _))
  | .stack _ _ => inferInstanceAs (Decidable True)

theorem Holds.of_sameBut {r r' : RvCpu} {l : Loc} (h : Holds r l v) (hsame : SameBut gs r r') (havoids : l.Avoids gs) :
    Holds r' l v := by
  cases l with
  | regs p =>
      rw [holds_regs, hsame.gpr p.hi havoids.1, hsame.gpr p.lo havoids.2]
      exact holds_regs.mp h
  | stack a b =>
      rw [Holds, locValue, loadSlot, loadSlot, hsame.memory]
      exact h

/-- Two locations have no register and no slot in common. -/
def Loc.Apart : Loc → Loc → Prop
  | .regs p, .regs q => p.hi ∉ [q.hi, q.lo] ∧ p.lo ∉ [q.hi, q.lo]
  | .stack a b, .stack c d =>
      slotIndex a ∉ [slotIndex c, slotIndex d] ∧ slotIndex b ∉ [slotIndex c, slotIndex d]
  | _, _ => True

instance (l l' : Loc) : Decidable (l.Apart l') :=
  match l, l' with
  | .regs _, .regs _ => inferInstanceAs (Decidable (_ ∧ _))
  | .stack _ _, .stack _ _ => inferInstanceAs (Decidable (_ ∧ _))
  | .regs _, .stack _ _ => inferInstanceAs (Decidable True)
  | .stack _ _, .regs _ => inferInstanceAs (Decidable True)

/-- The temporaries of the compiler: `t0`, `t1` and the two pairs operands are loaded to. -/
def scratch : List Gpr :=
  [Reg.t0, Reg.t1, tmp1.hi, tmp1.lo, tmp2.hi, tmp2.lo]

theorem bpfToRvRegs_avoids (i : Bpf.Reg) : (bpfToRvRegs i).Avoids (Reg.zero :: Reg.fp :: scratch) := by
  revert i
  decide

theorem bpfToRvRegs_apart {i j : Bpf.Reg} (h : i ≠ j) : (bpfToRvRegs i).Apart (bpfToRvRegs j) := by
  revert i j
  decide

theorem bpfToRvRegs_avoids_of_ne {i : Bpf.Reg} {p : Pair} (h : i ≠ d) (hd : bpfToRvRegs d = .regs p) :
    (bpfToRvRegs i).Avoids [p.hi, p.lo] := by
  have hapart := bpfToRvRegs_apart h
  rw [hd] at hapart
  cases hloc : bpfToRvRegs i with
  | regs q =>
      rw [hloc] at hapart
      exact hapart
  | stack _ _ => trivial

/-- The two halves of a location are different, and its slots are slots of the stack. -/
def Loc.Wf : Loc → Prop
  | .regs p => p.hi ≠ p.lo
  | .stack a b => a < STACK_SIZE ∧ b < STACK_SIZE ∧ slotIndex a ≠ slotIndex b

instance (l : Loc) : Decidable l.Wf :=
  match l with
  | .regs _ => inferInstanceAs (Decidable (_ ≠ _))
  | .stack _ _ => inferInstanceAs (Decidable (_ ∧ _))

theorem bpfToRvRegs_wf (i : Bpf.Reg) : (bpfToRvRegs i).Wf := by
  revert i
  decide

/-! ## Processors that represent all registers but one -/

/-- As `Represents`, without a word about the register `d`. -/
structure RepresentsBut (b : Bpf.Cpu) (d : Bpf.Reg) (r : RvCpu) : Prop where
  stack : ∃ f, r.mregions = [stackRegion f]
  fp : r.gprRef Reg.fp = BitVec.ofNat 32 stackTop
  regs : ∀ i, i ≠ d → ∃ v, b.regs i = some v ∧ Holds r (bpfToRvRegs i) v

theorem Represents.but {r : RvCpu} (h : Represents b r) (d : Bpf.Reg) :
    RepresentsBut b d r where
  stack := h.stack
  fp := h.fp
  regs i _ := h.regs i

theorem RepresentsBut.of_sameBut {r r' : RvCpu} (h : RepresentsBut b d r) (hsame : SameBut gs r r')
    (hfp : Reg.fp ∉ gs) (havoids : ∀ i, i ≠ d → (bpfToRvRegs i).Avoids gs) : RepresentsBut b d r' where
  stack := by
    rw [hsame.memory]
    exact h.stack
  fp := by
    rw [hsame.gpr _ hfp]
    exact h.fp
  regs i hi := by
    rcases h.regs i hi with ⟨v, hv, hholds⟩
    exact ⟨v, hv, hholds.of_sameBut hsame (havoids i hi)⟩

/-- Writing the register that is left out. -/
theorem RepresentsBut.set {r : RvCpu} {pc : BitVec 64} (h : RepresentsBut b d r) (hholds : Holds r (bpfToRvRegs d) v) :
    Represents ⟨pc, Function.update b.regs d (some v)⟩ r where
  stack := h.stack
  fp := h.fp
  regs i := by
    by_cases hi : i = d
    · subst hi
      exact ⟨v, Function.update_self .., hholds⟩
    · rcases h.regs i hi with ⟨u, hu, hholds'⟩
      exact ⟨u, (Function.update_of_ne hi _ _).trans hu, hholds'⟩

/-! ## Operands -/

theorem Loc.Avoids.mono {l : Loc} {hs : List Gpr} (h : l.Avoids gs) (hsub : ∀ g ∈ hs, g ∈ gs) : l.Avoids hs := by
  cases l with
  | regs p => exact ⟨fun hmem => h.1 (hsub _ hmem), fun hmem => h.2 (hsub _ hmem)⟩
  | stack _ _ => trivial

section Operands

variable {r : RvCpu} {l : Loc} {v : BitVec 64} {tmp : Pair}

/-- What the code that fetches an operand may assume: the stack is there, and the temporary is a pair
of two registers that are not `zero` or `fp`. -/
structure Fetch (r : RvCpu) (l : Loc) (tmp : Pair) : Prop where
  stack : ∃ f, r.mregions = [stackRegion f]
  fp : r.gprRef Reg.fp = BitVec.ofNat 32 stackTop
  wf : l.Wf
  tmp : tmp.hi ≠ tmp.lo ∧ tmp.hi ∉ [Reg.zero, Reg.fp] ∧ tmp.lo ∉ [Reg.zero, Reg.fp]

theorem wp_riscvBpfGetReg64 (h : Fetch r l tmp) (hholds : Holds r l v) :
    (machine 32).wp (riscvBpfGetReg64 l tmp).1 (fun r' =>
      Holds r' (.regs (riscvBpfGetReg64 l tmp).2) v ∧ SameBut [tmp.hi, tmp.lo] r r') r := by
  cases l with
  | regs p => exact CodeMachine.wp_nil ⟨hholds, fun _ _ => rfl, rfl⟩
  | stack a b =>
      rcases h.stack with ⟨f, hstack⟩
      rcases h.wf with ⟨ha, hb, _⟩
      rcases h.tmp with ⟨hne, hhi, hlo⟩
      simp only [List.mem_cons, List.not_mem_nil, or_false, not_or] at hhi hlo
      rcases (holds_stack hstack).mp hholds with ⟨hvhi, hvlo⟩
      apply CodeMachine.wp_of_line
      -- the first load leaves `fp` alone, so that the second finds its slot
      have hfp : (retire r tmp.hi (f (slotIndex a))).gprRef Reg.fp = BitVec.ofNat 32 stackTop := by
        rw [retire_gprRef, if_neg (fun hc => hhi.2 hc.1.symm)]
        exact h.fp
      rw [show riscvBpfGetReg64 (.stack a b) tmp = ([rvLw tmp.hi (stackOffset a) Reg.fp,
        rvLw tmp.lo (stackOffset b) Reg.fp], tmp) from rfl]
      rw [line_rvLw hstack h.fp ha, line_rvLw (by rw [retire_mregions, hstack]) hfp hb,
        CodeMachine.line_nil]
      refine ⟨holds_regs.mpr ⟨?_, ?_⟩, fun g hg => ?_, by simp⟩
      · simp [retire_gprRef, hne, hhi, hvhi]
      · simp [retire_gprRef, hlo, hvlo]
      · simp only [List.mem_cons, List.not_mem_nil, or_false, not_or] at hg
        simp [retire_gprRef, hg]

theorem wp_riscvBpfGetReg32 (h : Fetch r l tmp) (hholds : Holds r l v) :
    (machine 32).wp (riscvBpfGetReg32 l tmp).1 (fun r' =>
      r'.gprRef (riscvBpfGetReg32 l tmp).2.lo = lo (w := 32) v ∧ SameBut [tmp.hi, tmp.lo] r r') r := by
  cases l with
  | regs p => exact CodeMachine.wp_nil ⟨(holds_regs.mp hholds).2, fun _ _ => rfl, rfl⟩
  | stack a b =>
      rcases h.stack with ⟨f, hstack⟩
      rcases h.wf with ⟨_, hb, _⟩
      rcases h.tmp with ⟨_, _, hlo⟩
      simp only [List.mem_cons, List.not_mem_nil, or_false, not_or] at hlo
      rcases (holds_stack hstack).mp hholds with ⟨_, hvlo⟩
      apply CodeMachine.wp_of_line
      rw [show riscvBpfGetReg32 (.stack a b) tmp = ([rvLw tmp.lo (stackOffset b) Reg.fp], tmp) from rfl]
      rw [line_rvLw hstack h.fp hb, CodeMachine.line_nil]
      refine ⟨?_, fun g hg => ?_, by simp⟩
      · simp [retire_gprRef, hlo, hvlo]
      · simp only [List.mem_cons, List.not_mem_nil, or_false, not_or] at hg
        simp [retire_gprRef, hg]

end Operands

section Results

variable {b : Bpf.Cpu} {d : Bpf.Reg} {r : RvCpu} {v pc : BitVec 64} {tmp : Pair}

variable (h : RepresentsBut b d r)

include h

/-- Stores to the slots of `d`, as a change of the stack. -/
theorem RepresentsBut.of_stores {r' : RvCpu} {f' : BitVec 32 → BitVec 32} {i j : Nat} (hd : bpfToRvRegs d = .stack i j)
    (hstack : r.mregions = [stackRegion f]) (hstack' : r'.mregions = [stackRegion f'])
    (hgpr : ∀ g, r'.gprRef g = r.gprRef g) (hf : ∀ k, k ∉ [slotIndex i, slotIndex j] → f' k = f k) :
    RepresentsBut b d r' where
  stack := ⟨f', hstack'⟩
  fp := by
    rw [hgpr]
    exact h.fp
  regs e he := by
    rcases h.regs e he with ⟨u, hu, hholds⟩
    refine ⟨u, hu, ?_⟩
    have hapart := bpfToRvRegs_apart he
    rw [hd] at hapart
    cases hloc : bpfToRvRegs e with
    | regs p =>
        rw [hloc, holds_regs] at hholds
        rw [holds_regs, hgpr, hgpr]
        exact hholds
    | stack m n =>
        rw [hloc] at hapart
        rw [hloc, holds_stack hstack] at hholds
        rw [holds_stack hstack', hf _ hapart.1, hf _ hapart.2]
        exact hholds

/-- Two stores write both halves of a register that is on the stack. -/
theorem line_stores {i j : Nat} {x y : Gpr} (hd : bpfToRvRegs d = .stack i j) (hx : r.gprRef x = hi (w := 32) v)
    (hy : r.gprRef y = lo (w := 32) v) :
    (machine 32).line [rvSw Reg.fp (stackOffset i) x, rvSw Reg.fp (stackOffset j) y]
      (Represents ⟨pc, Function.update b.regs d (some v)⟩) r := by
  rcases h.stack with ⟨f, hstack⟩
  have hwf := bpfToRvRegs_wf d
  rw [hd] at hwf
  rcases hwf with ⟨hi', hj, hne⟩
  rw [line_rvSw hstack h.fp hi', line_rvSw (storeSlot_mregions ..) h.fp hj, CodeMachine.line_nil,
    storeSlot_gprRef, hx, hy]
  refine RepresentsBut.set (h.of_stores hd hstack (storeSlot_mregions ..) (fun _ => rfl) ?_) ?_
  · intro k hk
    simp only [List.mem_cons, List.not_mem_nil, or_false, not_or] at hk
    rw [Function.update_of_ne hk.2, Function.update_of_ne hk.1]
  · rw [hd, holds_stack (storeSlot_mregions ..), Function.update_of_ne hne, Function.update_self,
      Function.update_self]
    exact ⟨rfl, rfl⟩

theorem wp_riscvBpfPutReg64 (hholds : Holds r (.regs (riscvBpfGetReg64 (bpfToRvRegs d) tmp).2) v) :
    (machine 32).wp (riscvBpfPutReg64 (bpfToRvRegs d) (riscvBpfGetReg64 (bpfToRvRegs d) tmp).2)
      (Represents ⟨pc, Function.update b.regs d (some v)⟩) r := by
  cases hd : bpfToRvRegs d with
  | regs p =>
      rw [hd] at hholds
      have hnone : riscvBpfPutReg64 (.regs p) (riscvBpfGetReg64 (.regs p) tmp).2 = [] := by
        simp [riscvBpfPutReg64, riscvBpfGetReg64]
      rw [hnone]
      exact CodeMachine.wp_nil (h.set (by rw [hd]; exact hholds))
  | stack i j =>
      rw [hd] at hholds
      rcases holds_regs.mp hholds with ⟨hhi, hlo⟩
      exact CodeMachine.wp_of_line _ (line_stores h hd hhi hlo)

/-- A 32-bit result: the high half becomes zero. -/
theorem wp_riscvBpfPutReg32 {x : BitVec 32} (hx : r.gprRef (riscvBpfGetReg32 (bpfToRvRegs d) tmp).2.lo = x) :
    (machine 32).wp (riscvBpfPutReg32 (bpfToRvRegs d) (riscvBpfGetReg32 (bpfToRvRegs d) tmp).2)
      (Represents ⟨pc, Function.update b.regs d (some (x.setWidth 64))⟩) r := by
  have hhi : hi (w := 32) (x.setWidth 64) = 0#32 := hi_zeroExtend x
  have hlo : lo (w := 32) (x.setWidth 64) = x := lo_zeroExtend x
  cases hd : bpfToRvRegs d with
  | regs p =>
      have hzero := bpfToRvRegs_avoids d
      have hwf := bpfToRvRegs_wf d
      rw [hd] at hx hzero hwf
      have hhiNe : p.hi ≠ 0 := fun heq => hzero.1 (heq ▸ List.mem_cons_self ..)
      have hloNe : p.lo ≠ 0 := fun heq => hzero.2 (heq ▸ List.mem_cons_self ..)
      have hlohi : p.lo ≠ p.hi := hwf.symm
      have hsame : SameBut [p.hi, p.lo] r (retire (retire r p.hi 0) p.lo (r.gprRef p.lo)) := by
        refine ⟨fun g hg => ?_, by simp⟩
        simp only [List.mem_cons, List.not_mem_nil, or_false, not_or] at hg
        simp [retire_gprRef, hg]
      have hbut := h.of_sameBut hsame
        (fun hmem => by
          rcases List.mem_pair.mp hmem with heq | heq
          · exact hzero.1 (heq ▸ by decide)
          · exact hzero.2 (heq ▸ by decide))
        (fun i hi' => bpfToRvRegs_avoids_of_ne hi' hd)
      apply CodeMachine.wp_of_line
      have hcode : riscvBpfPutReg32 (.regs p) (riscvBpfGetReg32 (.regs p) tmp).2 =
          [rvAddi p.hi Reg.zero 0, rvAddi p.lo p.lo 0] := rfl
      rw [hcode]
      have hmove : ∀ x : BitVec 32, x + (0 : BitVec 12).signExtend 32 = x := by
        intro x
        rw [show (0 : BitVec 12).signExtend 32 = 0#32 from by decide, BitVec.add_zero]
      have hkeep : (retire r p.hi 0).gprRef p.lo = r.gprRef p.lo := by
        simp [retire_gprRef, hlohi]
      simp only [line_rvAddi, CodeMachine.line_nil, hmove, Cpu.gprRef_zero, hkeep]
      refine hbut.set ?_
      rw [hd, holds_regs, hhi, hlo]
      refine ⟨?_, ?_⟩
      · simp [retire_gprRef, hlohi.symm, hhiNe]
      · have hlo' : r.gprRef p.lo = x := hx
        simp [retire_gprRef, hloNe, hlo']
  | stack i j =>
      rw [hd] at hx
      exact CodeMachine.wp_of_line _ (line_stores h hd (by rw [hhi]; rfl) (by rw [hlo]; exact hx))

end Results

end Jit
end Bpf
end Serval
