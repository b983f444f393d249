import Serval.Bpf.Jit.X32State

/-!
# X32Correct — correctness of the x86-32 JIT compiler

Every emitter has a rule that says what it leaves in the scratch area.  The emitters for one word come first; those
for 64 bits work on two words, of which the second needs the carry of the first, or both at once.  A compiled
instruction then puts the result of the BPF instruction into its register, and a program is an induction over its
instructions.
-/

namespace Serval
namespace Bpf
namespace Jit
namespace X32

open Serval.Core DoubleWord Serval.X32

variable {op : AluOp} {e e' : Env} {r r' : Bpf.Reg} {cpu : X86Cpu} {x l h z val c : BitVec 32} {b : Bpf.Cpu}
  {v : BitVec 64} {code : Code} {b2 : BitVec 8}

/-! ## BPF registers in the scratch area -/

/-- The words of a BPF register. -/
def loSlot (r : Bpf.Reg) : BitVec 32 := BitVec.ofNat 32 (2 * r)

def hiSlot (r : Bpf.Reg) : BitVec 32 := BitVec.ofNat 32 (2 * r + 1)

@[simp] theorem slot_lo (r : Bpf.Reg) : slot (BitVec.ofNat 8 (8 * r)) = some (loSlot r) := by
  revert r
  decide

@[simp] theorem slot_hi (r : Bpf.Reg) : slot (BitVec.ofNat 8 (8 * r + 4)) = some (hiSlot r) := by
  revert r
  decide

@[simp] theorem hiSlot_ne_loSlot (r r' : Bpf.Reg) : hiSlot r ≠ loSlot r' := by
  revert r r'
  decide

@[simp] theorem loSlot_ne_hiSlot (r r' : Bpf.Reg) : loSlot r ≠ hiSlot r' :=
  (hiSlot_ne_loSlot r' r).symm

theorem loSlot_inj (h : loSlot r = loSlot r') : r = r' := by
  revert r r'
  decide

theorem hiSlot_inj (h : hiSlot r = hiSlot r') : r = r' := by
  revert r r'
  decide

/-- The value of a BPF register. -/
def Env.reg (e : Env) (r : Bpf.Reg) : BitVec 64 :=
  e.slots (hiSlot r) ++ e.slots (loSlot r)

@[simp] theorem lo_reg (e : Env) (r : Bpf.Reg) : lo (w := 32) (e.reg r) = e.slots (loSlot r) :=
  lo_append _ _

theorem setWidth_reg (e : Env) (r : Bpf.Reg) : (e.reg r).setWidth 32 = e.slots (loSlot r) :=
  lo_reg e r

@[simp] theorem hi_reg (e : Env) (r : Bpf.Reg) : hi (w := 32) (e.reg r) = e.slots (hiSlot r) :=
  hi_append _ _

/-- A small value is all in the lower word. -/
theorem toNat_slot (h : (e.reg r).toNat < 2 ^ 32) : (e.reg r).toNat = (e.slots (loSlot r)).toNat := by
  rw [← lo_reg, toNat_lo (w := 32), Nat.mod_eq_of_lt h]

/-- A word is written and no other. -/
def Stores (k v : BitVec 32) (e e' : Env) : Prop :=
  e'.slots = Function.update e.slots k v

/-- A BPF register is written and no other. -/
def Puts (r : Bpf.Reg) (v : BitVec 64) (e e' : Env) : Prop :=
  e'.slots = Function.update (Function.update e.slots (loSlot r) (lo (w := 32) v)) (hiSlot r) (hi (w := 32) v)

theorem Puts.reg_self (h : Puts r v e e') : e'.reg r = v := by
  rw [Env.reg, h]
  simp [hi_append_lo (w := 32) v]

theorem Puts.reg_of_ne (h : Puts r v e e') (hne : r' ≠ r) : e'.reg r' = e.reg r' := by
  have hlo : loSlot r' ≠ loSlot r := fun heq => hne (loSlot_inj heq)
  have hhi : hiSlot r' ≠ hiSlot r := fun heq => hne (hiSlot_inj heq)
  rw [Env.reg, h]
  simp [hlo, hhi, Env.reg]

/-! ## Words -/

section Words

variable {e : Env} {off off' : Nat} {k k' : BitVec 32}

/-- The operations on one word, with a carry that goes in and one that comes out. -/
def aluWord (c : Bool) (op : AluOp) (x y : BitVec 32) : BitVec 32 × Bool :=
  match op with
  | .add => (x + y + if c then 1 else 0, bvuaddOverflow x y c)
  | .sub => (x - y - if c then 1 else 0, bvusubOverflow x y c)
  | .or => (x ||| y, false)
  | .and => (x &&& y, false)
  | .xor => (x ^^^ y, false)
  | _ => (x, false)

/-- The operations that are compiled word by word. -/
def Wordwise (op : AluOp) : Prop :=
  op = .add ∨ op = .sub ∨ op = .or ∨ op = .and ∨ op = .xor

/-- The instruction for an operation on registers. -/
def aluInstr (c : Bool) (op : AluOp) (dst src : Gpr) : Instr :=
  match op with
  | .add => if c then .adcR32R32 dst src else .addR32R32 dst src
  | .sub => if c then .sbbR32R32 dst src else .subR32R32 dst src
  | .or => .orR32R32 dst src
  | .and => .andRm32R32 dst src
  | _ => .xorRm32R32 dst src

/-- The instruction for an operation with an immediate. -/
def aluInstrImm (c : Bool) (op : AluOp) (dst : Gpr) (imm8 : BitVec 8) : Instr :=
  match op with
  | .add => if c then .adcR32Imm8 dst imm8 else .addR32Imm8 dst imm8
  | .sub => if c then .sbbR32Imm8 dst imm8 else .subR32Imm8 dst imm8
  | .or => .orR32Imm8 dst imm8
  | .and => .andR32Imm8 dst imm8
  | _ => .xorR32Imm8 dst imm8

theorem effect_aluInstr (hop : Wordwise op) (c : Bool) (e : Env) (dst src : Gpr) :
    e.effect (aluInstr c op dst src) =
      e.write dst (aluWord (c && e.cf) op (e.gprs dst) (e.gprs src)).1
        (fun _ => (aluWord (c && e.cf) op (e.gprs dst) (e.gprs src)).2) := by
  rcases hop with rfl | rfl | rfl | rfl | rfl <;> cases c <;>
    simp [aluInstr, aluWord, Env.effect, Env.add, Env.adc, Env.sub, Env.sbb, Env.logical]

theorem effect_aluInstrImm (hop : Wordwise op) (c : Bool) (e : Env) (dst : Gpr) (imm8 : BitVec 8) :
    e.effect (aluInstrImm c op dst imm8) =
      e.write dst (aluWord (c && e.cf) op (e.gprs dst) (imm8.signExtend 32)).1
        (fun _ => (aluWord (c && e.cf) op (e.gprs dst) (imm8.signExtend 32)).2) := by
  rcases hop with rfl | rfl | rfl | rfl | rfl <;> cases c <;>
    simp [aluInstrImm, aluWord, Env.effect, Env.add, Env.adc, Env.sub, Env.sbb, Env.logical]

/-- The word at `k` becomes the result of an operation, and the carry flag its carry. -/
def Alu (c : Bool) (op : AluOp) (k y : BitVec 32) (e e' : Env) : Prop :=
  Stores k (aluWord (c && e.cf) op (e.slots k) y).1 e e' ∧ e'.cf = (aluWord (c && e.cf) op (e.slots k) y).2

theorem signExtend_imm8 (h : isImm8 val) : (val.extractLsb' 0 8).signExtend 32 = val := by
  rcases h with ⟨hle, hge⟩
  have hle' : val.toInt ≤ 127 := BitVec.sle_iff_toInt_le.mp hle
  have hge' : -128 ≤ val.toInt := BitVec.sle_iff_toInt_le.mp hge
  apply BitVec.eq_of_toInt_eq
  rw [BitVec.toInt_signExtend_of_le (by decide)]
  rw [BitVec.toInt_eq_toNat_cond] at hle' hge' ⊢
  rw [BitVec.toInt_eq_toNat_cond, BitVec.extractLsb'_toNat, Nat.shiftRight_zero]
  omega

theorem effect_movImm (e : Env) (dst : Gpr) (val : BitVec 32) :
    e.effect (.movR32Imm32 dst val) = e.write dst val (fun _ => e.cf) := rfl

theorem effect_movR (e : Env) (dst src : Gpr) :
    e.effect (.movRm32R32 dst src) = e.write dst (e.gprs src) (fun _ => e.cf) := rfl

theorem effect_addR (e : Env) (dst src : Gpr) :
    e.effect (.addR32R32 dst src) =
      e.write dst (e.gprs dst + e.gprs src) (fun _ => bvuaddOverflow (e.gprs dst) (e.gprs src) false) := rfl

theorem effect_adcImm (e : Env) (dst : Gpr) (imm8 : BitVec 8) :
    e.effect (.adcR32Imm8 dst imm8) =
      e.write dst (e.gprs dst + imm8.signExtend 32 + if e.cf then 1 else 0)
        (fun _ => bvuaddOverflow (e.gprs dst) (imm8.signExtend 32) e.cf) := rfl

theorem effect_neg (e : Env) (dst : Gpr) :
    e.effect (.negR32 dst) = e.write dst (-e.gprs dst) (fun _ => bvusubOverflow 0 (e.gprs dst) false) := rfl

/-- The shifts of one word. -/
def shiftWord (op : AluOp) (x c : BitVec 32) : BitVec 32 :=
  match op with
  | .lsh => x <<< c
  | .rsh => x >>> c
  | _ => x.sshiftRight c.toNat

/-- The amount of a shift, in an immediate or in `cl`. -/
def Env.count (e : Env) : Option (BitVec 8) → BitVec 32
  | some imm8 => shiftCount imm8
  | none => shiftCount (e.gprs .ecx)

def shiftInstr (imm8 : Option (BitVec 8)) (op : AluOp) (dst : Gpr) : Instr :=
  match op, imm8 with
  | .lsh, none => .shlR32Cl dst
  | .lsh, some imm8 => .shlR32Imm8 dst imm8
  | .rsh, none => .shrR32Cl dst
  | .rsh, some imm8 => .shrR32Imm8 dst imm8
  | _, none => .sarR32Cl dst
  | _, some imm8 => .sarR32Imm8 dst imm8

theorem effect_shiftInstr (imm8 : Option (BitVec 8)) (op : AluOp) (e : Env) (dst : Gpr) :
    e.effect (shiftInstr imm8 op dst) = e.shift dst (shiftWord op (e.gprs dst) (e.count imm8)) := by
  cases op <;> cases imm8 <;> rfl

variable (hk : slot (BitVec.ofNat 8 off) = some k)

include hk

theorem runs_movI (val : BitVec 32) : Runs (emitIa32MovI (.stk off) val) (Stores k val e) e := by
  by_cases hval : val = 0
  · have hcode : emitIa32MovI (.stk off) val =
        [Instr.xorR32Rm32 .eax .eax, .movM32R32 .ebp (BitVec.ofNat 8 off) .eax].map emitted := if_pos hval
    rw [hcode]
    apply runs_line
    simp [line, Env.effect, Env.logical, Env.write, Env.put, hk, Stores, hval]
  · have hcode : emitIa32MovI (.stk off) val =
        [Instr.movM32Imm32 .ebp (BitVec.ofNat 8 off) val].map emitted := if_neg hval
    rw [hcode]
    apply runs_line
    simp [line, Env.effect, Env.put, hk, Stores]

theorem runs_movR (hk' : slot (BitVec.ofNat 8 off') = some k') :
    Runs (emitIa32MovR (.stk off) (.stk off')) (Stores k (e.slots k') e) e := by
  have hcode : emitIa32MovR (.stk off) (.stk off') =
      [Instr.movR32M32 .eax .ebp (BitVec.ofNat 8 off'), .movM32R32 .ebp (BitVec.ofNat 8 off) .eax].map emitted := rfl
  rw [hcode]
  apply runs_line
  simp [line, Env.effect, Env.get, Env.assign, Env.write, Env.put, hk, hk', Stores]

theorem runs_aluR (hop : Wordwise op) (is64 hi : Bool) (hk' : slot (BitVec.ofNat 8 off') = some k') :
    Runs (emitIa32AluR is64 hi op (.stk off) (.stk off')) (Alu (hi && is64) op k (e.slots k') e) e := by
  have hcode : emitIa32AluR is64 hi op (.stk off) (.stk off') =
      [Instr.movR32M32 .eax .ebp (BitVec.ofNat 8 off'), .movR32M32 .edx .ebp (BitVec.ofNat 8 off),
        aluInstr (hi && is64) op .edx .eax, .movM32R32 .ebp (BitVec.ofNat 8 off) .edx].map emitted := by
    rcases hop with rfl | rfl | rfl | rfl | rfl <;> cases hi <;> cases is64 <;> rfl
  rw [hcode]
  apply runs_line
  rw [line_load hk' (by decide), line_load hk (by decide), line_write (effect_aluInstr hop ..) (by decide),
    line_store hk]
  simp [line, Stores, Alu]

theorem runs_aluI (hop : Wordwise op) (is64 hi : Bool) (val : BitVec 32) :
    Runs (emitIa32AluI is64 hi op (.stk off) val) (Alu (hi && is64) op k val e) e := by
  by_cases himm : isImm8 val
  · have hcode : emitIa32AluI is64 hi op (.stk off) val =
        [Instr.movR32M32 .eax .ebp (BitVec.ofNat 8 off), aluInstrImm (hi && is64) op .eax (val.extractLsb' 0 8),
          .movM32R32 .ebp (BitVec.ofNat 8 off) .eax].map emitted := by
      rcases hop with rfl | rfl | rfl | rfl | rfl <;> cases hi <;> cases is64 <;>
        simp only [emitIa32AluI, aluImm, if_pos himm] <;> rfl
    rw [hcode]
    apply runs_line
    rw [line_load hk (by decide), line_write (effect_aluInstrImm hop ..) (by decide), line_store hk,
      signExtend_imm8 himm]
    simp [line, Stores, Alu]
  · have hcode : emitIa32AluI is64 hi op (.stk off) val =
        [Instr.movR32M32 .eax .ebp (BitVec.ofNat 8 off), .movR32Imm32 .edx val,
          aluInstr (hi && is64) op .eax .edx, .movM32R32 .ebp (BitVec.ofNat 8 off) .eax].map emitted := by
      rcases hop with rfl | rfl | rfl | rfl | rfl <;> cases hi <;> cases is64 <;>
        simp only [emitIa32AluI, aluImm, if_neg himm] <;> rfl
    rw [hcode]
    apply runs_line
    rw [line_load hk (by decide), line_write (effect_movImm ..) (by decide),
      line_write (effect_aluInstr hop ..) (by decide),
      line_store hk]
    simp [line, Stores, Alu]

theorem runs_shiftR (hop : shiftOpcode op = some b2) (hk' : slot (BitVec.ofNat 8 off') = some k') :
    Runs (emitIa32ShiftR b2 (.stk off) (.stk off'))
      (Stores k (shiftWord op (e.slots k) (shiftCount (e.slots k'))) e) e := by
  have hcode : emitIa32ShiftR b2 (.stk off) (.stk off') =
      [Instr.movR32M32 .eax .ebp (BitVec.ofNat 8 off), .movR32M32 .ecx .ebp (BitVec.ofNat 8 off'),
        shiftInstr none op .eax, .movM32R32 .ebp (BitVec.ofNat 8 off) .eax].map emitted := by
    cases op <;> cases hop <;> rfl
  rw [hcode]
  apply runs_line
  rw [line_load hk (by decide), line_load hk' (by decide), line_shift (effect_shiftInstr ..) (by decide)]
  intro b
  rw [line_store hk]
  simp [line, Stores, Env.count]

theorem runs_shiftI (hop : shiftOpcode op = some b2) (imm : BitVec 32) :
    Runs (emit2Off32 0xC7 (add1reg 0xC0 .ecx) imm :: emitIa32ShiftR b2 (.stk off) (.reg .ecx))
      (Stores k (shiftWord op (e.slots k) (shiftCount imm)) e) e := by
  have hcode : emit2Off32 0xC7 (add1reg 0xC0 .ecx) imm :: emitIa32ShiftR b2 (.stk off) (.reg .ecx) =
      [Instr.movR32Imm32 .ecx imm, .movR32M32 .eax .ebp (BitVec.ofNat 8 off), shiftInstr none op .eax,
        .movM32R32 .ebp (BitVec.ofNat 8 off) .eax].map emitted := by
    cases op <;> cases hop <;> rfl
  rw [hcode]
  apply runs_line
  rw [line_write (effect_movImm ..) (by decide), line_load hk (by decide),
    line_shift (effect_shiftInstr ..) (by decide)]
  intro b
  rw [line_store hk]
  simp [line, Stores, Env.count]

theorem runs_mulR (hk' : slot (BitVec.ofNat 8 off') = some k') :
    Runs (emitIa32MulR (.stk off) (.stk off')) (Stores k (e.slots k * e.slots k') e) e := by
  have hcode : emitIa32MulR (.stk off) (.stk off') =
      [Instr.movR32M32 .ecx .ebp (BitVec.ofNat 8 off'), .movR32M32 .eax .ebp (BitVec.ofNat 8 off), .mulR32 .ecx,
        .movM32R32 .ebp (BitVec.ofNat 8 off) .eax].map emitted := rfl
  rw [hcode]
  apply runs_line
  rw [line_load hk' (by decide), line_load hk (by decide), line_cons rfl]
  intro b
  rw [line_store hk]
  simp [line, Stores, Env.mul]

theorem runs_mulI (imm : BitVec 32) :
    Runs (emit2Off32 0xC7 (add1reg 0xC0 .ecx) imm :: emitIa32MulR (.stk off) (.reg .ecx))
      (Stores k (e.slots k * imm) e) e := by
  have hcode : emit2Off32 0xC7 (add1reg 0xC0 .ecx) imm :: emitIa32MulR (.stk off) (.reg .ecx) =
      [Instr.movR32Imm32 .ecx imm, .movR32M32 .eax .ebp (BitVec.ofNat 8 off), .mulR32 .ecx,
        .movM32R32 .ebp (BitVec.ofNat 8 off) .eax].map emitted := rfl
  rw [hcode]
  apply runs_line
  rw [line_write (effect_movImm ..) (by decide), line_load hk (by decide), line_cons rfl]
  intro b
  rw [line_store hk]
  simp [line, Stores, Env.mul]

theorem runs_neg : Runs (emitIa32AluI false false .neg (.stk off) 0) (Stores k (-e.slots k) e) e := by
  have hcode : emitIa32AluI false false .neg (.stk off) 0 =
      [Instr.movR32M32 .eax .ebp (BitVec.ofNat 8 off), .negR32 .eax,
        .movM32R32 .ebp (BitVec.ofNat 8 off) .eax].map emitted := rfl
  rw [hcode]
  apply runs_line
  rw [line_load hk (by decide), line_write (effect_neg ..) (by decide), line_store hk]
  simp [line, Stores]

end Words

/-! ## Registers, word by word -/

section Pairs

variable {e e₁ e₂ : Env} {dst src : Bpf.Reg} {v : BitVec 64}

theorem Stores.puts {y : BitVec 32} (h₁ : Stores (loSlot dst) x e e₁) (h₂ : Stores (hiSlot dst) y e₁ e₂)
    (hlo : lo (w := 32) v = x) (hhi : hi (w := 32) v = y) : Puts dst v e e₂ := by
  rw [Puts, h₂, h₁, hlo, hhi]

/-- Writing the lower words keeps the upper ones. -/
theorem Stores.hi_eq (h : Stores (loSlot dst) x e e₁) (r : Bpf.Reg) : e₁.slots (hiSlot r) = e.slots (hiSlot r) := by
  rw [h, Function.update_of_ne (hiSlot_ne_loSlot r dst)]

/-- The result of 32 bits, with zeros above it. -/
theorem runs_zeroExtend (h : Runs code (Stores (loSlot dst) z e) e) :
    Runs (code ++ emitIa32MovI (bpf2ia32 dst).hi 0) (Puts dst (z.setWidth 64) e) e := by
  refine runs_seq h fun e₁ h₁ => runs_mono (runs_movI (slot_hi dst) 0) fun e₂ h₂ => ?_
  exact h₁.puts h₂ (lo_zeroExtend (w := 32) z) (hi_zeroExtend (w := 32) z)

theorem runs_movR64 : Runs (emitIa32MovR64 true (bpf2ia32 dst) (bpf2ia32 src)) (Puts dst (e.reg src) e) e := by
  refine runs_seq (runs_movR (slot_lo dst) (slot_lo src)) fun e₁ h₁ => ?_
  refine runs_mono (runs_movR (slot_hi dst) (slot_hi src)) fun e₂ h₂ => ?_
  rw [h₁.hi_eq src] at h₂
  exact h₁.puts h₂ (lo_reg e src) (hi_reg e src)

theorem hival_eq (val : BitVec 32) : hival true val = hi (w := 32) (val.signExtend 64) := by
  have hbit : val &&& 1 <<< 31 ≠ 0 ↔ val.msb = true := by
    have hone : (1 <<< 31 : BitVec 32) = BitVec.twoPow 32 31 := by decide
    rw [hone, BitVec.and_twoPow, BitVec.msb_eq_getLsbD_last]
    simp
  rw [hival, hi_signExtend (w := 32) val]
  simp only [true_and, hbit]
  rfl

theorem runs_movI64 (val : BitVec 32) :
    Runs (emitIa32MovI64 true (bpf2ia32 dst) val) (Puts dst (val.signExtend 64) e) e := by
  refine runs_seq (runs_movI (slot_lo dst) val) fun e₁ h₁ => ?_
  refine runs_mono (runs_movI (slot_hi dst) _) fun e₂ h₂ => ?_
  exact h₁.puts h₂ (lo_signExtend (w := 32) val) (hival_eq val).symm

/-- A sum of words that wraps around is below its summands. -/
theorem bvuaddOverflow_eq (x y : BitVec 32) : bvuaddOverflow x y false = decide (x + y < x) := by
  rw [Bool.eq_iff_iff, bvuaddOverflow_iff, decide_eq_true_iff, BitVec.lt_def, BitVec.toNat_add]
  have hx := x.isLt
  have hy := y.isLt
  simp only [Bool.toNat_false]
  omega

theorem bvusubOverflow_eq (x y : BitVec 32) : bvusubOverflow x y false = decide (x < x - y) := by
  rw [Bool.eq_iff_iff]
  simp only [bvusubOverflow, Bool.false_eq_true, if_false, decide_eq_true_iff]
  bv_omega

/-- The operations on two words: the carry of the lower one goes into the upper one. -/
theorem aluWord_eq (hop : Wordwise op) {v₁ v₂ : BitVec 64} (h : evaluateAlu64 op v₁ v₂ = .ok v) :
    lo (w := 32) v = (aluWord false op (lo (w := 32) v₁) (lo (w := 32) v₂)).1 ∧
      hi (w := 32) v = (aluWord (aluWord false op (lo (w := 32) v₁) (lo (w := 32) v₂)).2 op (hi (w := 32) v₁)
        (hi (w := 32) v₂)).1 := by
  rcases hop with rfl | rfl | rfl | rfl | rfl
  · cases h
    refine ⟨by simp [aluWord, lo_add (w := 32)], ?_⟩
    rw [hi_add (w := 32)]
    simp only [aluWord, bvuaddOverflow_eq, decide_eq_true_iff]
    rfl
  · cases h
    refine ⟨by simp [aluWord, lo_sub (w := 32)], ?_⟩
    rw [hi_sub (w := 32)]
    simp only [aluWord, bvusubOverflow_eq, decide_eq_true_iff]
    rfl
  · cases h
    exact ⟨lo_or (w := 32) v₁ v₂, hi_or (w := 32) v₁ v₂⟩
  · cases h
    exact ⟨lo_and (w := 32) v₁ v₂, hi_and (w := 32) v₁ v₂⟩
  · cases h
    exact ⟨lo_xor (w := 32) v₁ v₂, hi_xor (w := 32) v₁ v₂⟩

theorem aluWord_eq32 (hop : Wordwise op) {y : BitVec 32} (h : evaluateAlu64 op x y = .ok z) :
    (aluWord false op x y).1 = z := by
  rcases hop with rfl | rfl | rfl | rfl | rfl <;> cases h <;> simp [aluWord]

/-- Two words that are computed one after the other. -/
theorem Alu.puts (hop : Wordwise op) {y : BitVec 64} (h : evaluateAlu64 op (e.reg dst) y = .ok v)
    (h₁ : Alu false op (loSlot dst) (lo (w := 32) y) e e₁) (h₂ : Alu true op (hiSlot dst) (hi (w := 32) y) e₁ e₂) :
    Puts dst v e e₂ := by
  rcases aluWord_eq hop h with ⟨hlo, hhi⟩
  rcases h₁ with ⟨h₁, hcf⟩
  rcases h₂ with ⟨h₂, -⟩
  rw [Bool.false_and] at h₁ hcf
  rw [Bool.true_and, hcf, h₁.hi_eq dst] at h₂
  rw [lo_reg] at hlo hhi
  rw [hi_reg] at hhi
  exact h₁.puts h₂ hlo hhi

theorem runs_aluR64 (hop : Wordwise op) (h : evaluateAlu64 op (e.reg dst) (e.reg src) = .ok v) :
    Runs (emitIa32AluR64 true op (bpf2ia32 dst) (bpf2ia32 src)) (Puts dst v e) e := by
  refine runs_seq (runs_aluR (slot_lo dst) hop true false (slot_lo src)) fun e₁ h₁ => ?_
  refine runs_mono (runs_aluR (slot_hi dst) hop true true (slot_hi src)) fun e₂ h₂ => ?_
  rw [h₁.1.hi_eq src] at h₂
  exact Alu.puts hop h (by rwa [lo_reg]) (by rwa [hi_reg])

theorem runs_aluI64 (hop : Wordwise op) (h : evaluateAlu64 op (e.reg dst) (val.signExtend 64) = .ok v) :
    Runs (emitIa32AluI64 true op (bpf2ia32 dst) val) (Puts dst v e) e := by
  refine runs_seq (runs_aluI (slot_lo dst) hop true false val) fun e₁ h₁ => ?_
  refine runs_mono (runs_aluI (slot_hi dst) hop true true _) fun e₂ h₂ => ?_
  exact Alu.puts hop h (by rwa [lo_signExtend (w := 32) val]) (by rwa [← hival_eq])

/-! ## Registers, both words at once -/

/-- Both words are in registers, and the scratch area is as before. -/
structure Words (l h : BitVec 32) (e e' : Env) : Prop where
  slots : e'.slots = e.slots
  eax : e'.gprs .eax = l
  edx : e'.gprs .edx = h

/-- `mov` of both words to registers. -/
def loads (dst : Bpf.Reg) : List Instr :=
  [.movR32M32 .eax .ebp (BitVec.ofNat 8 (8 * dst)), .movR32M32 .edx .ebp (BitVec.ofNat 8 (8 * dst + 4))]

/-- `mov` of both words to the scratch area. -/
def stores (dst : Bpf.Reg) : List Instr :=
  [.movM32R32 .ebp (BitVec.ofNat 8 (8 * dst)) .eax, .movM32R32 .ebp (BitVec.ofNat 8 (8 * dst + 4)) .edx]

theorem line_loads : line (loads dst) (Words (lo (w := 32) (e.reg dst)) (hi (w := 32) (e.reg dst)) e) e := by
  rw [loads, line_load (slot_lo dst) (by decide), line_load (slot_hi dst) (by decide), lo_reg, hi_reg]
  exact ⟨rfl, rfl, rfl⟩

theorem line_stores (h : Words (lo (w := 32) v) (hi (w := 32) v) e e₁) : line (stores dst) (Puts dst v e) e₁ := by
  rw [stores, line_store (slot_lo dst), line_store (slot_hi dst)]
  simp [line, Puts, h.slots, h.eax, h.edx]

/-- Code between the loads and the stores. -/
theorem runs_between {body : List Instr}
    (h : ∀ e₁, Words (lo (w := 32) (e.reg dst)) (hi (w := 32) (e.reg dst)) e e₁ →
      line body (Words (lo (w := 32) v) (hi (w := 32) v) e) e₁) :
    Runs ((loads dst ++ body ++ stores dst).map emitted) (Puts dst v e) e := by
  apply runs_line
  rw [line_append, line_append]
  exact line_mono line_loads fun e₁ h₁ => line_mono (h e₁ h₁) fun e₂ h₂ => line_stores h₂

/-- The upper word of a negation: the borrow of the lower one is added before the sign changes. -/
theorem neg_words (l h : BitVec 32) :
    (0#32 - h - if 0#32 < 0#32 - l then 1#32 else 0#32) = -(h + if bvusubOverflow 0 l false then 1#32 else 0#32) := by
  simp only [bvusubOverflow, Bool.false_eq_true, if_false, decide_eq_true_iff]
  by_cases hl : l = 0#32
  · subst hl
    simp
  · rw [if_pos (by bv_omega), if_pos (by bv_omega)]
    bv_omega

theorem runs_neg64 : Runs (emitIa32Neg64 (bpf2ia32 dst)) (Puts dst (-e.reg dst) e) e := by
  have hcode : emitIa32Neg64 (bpf2ia32 dst) =
      (loads dst ++ [Instr.negR32 .eax, .adcR32Imm8 .edx 0, .negR32 .edx] ++ stores dst).map emitted := rfl
  rw [hcode]
  refine runs_between fun e₁ h₁ => ?_
  rw [line_write (effect_neg ..) (by decide), line_write (effect_adcImm ..) (by decide),
    line_write (effect_neg ..) (by decide)]
  refine ⟨h₁.slots, ?_, ?_⟩
  · simp [h₁.eax, lo_neg (w := 32)]
  · rw [hi_neg (w := 32), neg_words]
    simp [h₁.eax, h₁.edx]

theorem runs_mulR64 : Runs (emitIa32MulR64 (bpf2ia32 dst) (bpf2ia32 src)) (Puts dst (e.reg dst * e.reg src) e) e := by
  have hcode : emitIa32MulR64 (bpf2ia32 dst) (bpf2ia32 src) =
      [Instr.movR32M32 .eax .ebp (BitVec.ofNat 8 (8 * dst + 4)), .mulM32 .ebp (BitVec.ofNat 8 (8 * src)),
        .movRm32R32 .ecx .eax,
        .movR32M32 .eax .ebp (BitVec.ofNat 8 (8 * dst)), .mulM32 .ebp (BitVec.ofNat 8 (8 * src + 4)),
        .addR32R32 .ecx .eax,
        .movR32M32 .eax .ebp (BitVec.ofNat 8 (8 * dst)), .mulM32 .ebp (BitVec.ofNat 8 (8 * src)),
        .addR32R32 .ecx .edx,
        .movM32R32 .ebp (BitVec.ofNat 8 (8 * dst)) .eax,
        .movM32R32 .ebp (BitVec.ofNat 8 (8 * dst + 4)) .ecx].map emitted := rfl
  rw [hcode]
  apply runs_line
  rw [line_load (slot_hi dst) (by decide), line_mul (slot_lo src), line_write (effect_movR ..) (by decide),
    line_load (slot_lo dst) (by decide), line_mul (slot_hi src), line_write (effect_addR ..) (by decide),
    line_load (slot_lo dst) (by decide), line_mul (slot_lo src), line_write (effect_addR ..) (by decide),
    line_store (slot_lo dst), line_store (slot_hi dst)]
  have hhi := hi_mul (w := 32) (e.reg dst) (e.reg src)
  rw [BitVec.mul_comm (hi (w := 32) (e.reg src))] at hhi
  simp [line, Puts, Env.mul, lo_mul (w := 32), hhi, mulHigh]

/-! ## Shifts of 64 bits -/

def IsShift (op : AluOp) : Prop :=
  op = .lsh ∨ op = .rsh ∨ op = .arsh

theorem IsShift.ne_mov (hop : IsShift op) : op ≠ .mov := by
  rintro rfl
  simp [IsShift] at hop

def shift64 (op : AluOp) (v : BitVec 64) (n : Nat) : BitVec 64 :=
  match op with
  | .lsh => v <<< n
  | .rsh => v >>> n
  | _ => v.sshiftRight n

theorem eq_shift64 (hop : IsShift op) {y : BitVec 64} (h : evaluateAlu64 op (e.reg dst) y = .ok v) :
    v = shift64 op (e.reg dst) y.toNat := by
  rcases hop with rfl | rfl | rfl <;> cases h <;> rfl

/-- Both words after a shift by less than 32. -/
def shiftedWords (op : AluOp) (l h c : BitVec 32) : BitVec 32 × BitVec 32 :=
  match op with
  | .lsh => (l <<< c, h <<< c ||| l >>> (32#32 - c))
  | _ => (l >>> c ||| h <<< (32#32 - c), shiftWord op h c)

/-- The word that moves to the other one when the amount is 32 or more. -/
def moving (op : AluOp) (l h : BitVec 32) : BitVec 32 :=
  match op with
  | .lsh => l
  | _ => h

/-- Both words after `x` has moved: what it leaves is cleared, or filled with its sign. -/
def movedWords (op : AluOp) (x : BitVec 32) : BitVec 32 × BitVec 32 :=
  match op with
  | .lsh => (0, x)
  | .rsh => (x, 0)
  | _ => (x, x.sshiftRight 31)

theorem moving_shiftedWords (op : AluOp) (l h c : BitVec 32) :
    moving op (shiftedWords op l h c).1 (shiftedWords op l h c).2 = shiftWord op (moving op l h) c := by
  cases op <;> rfl

theorem toNat_shiftCount (c : BitVec 32) : (shiftCount c).toNat = c.toNat % 32 := by
  rw [shiftCount, BitVec.toNat_setWidth, BitVec.extractLsb'_toNat, Nat.shiftRight_zero]
  omega

theorem toNat_width_sub (c : BitVec 32) : (32#32 - shiftCount c).toNat = 32 - c.toNat % 32 := by
  have hcount := toNat_shiftCount c
  bv_omega

/-- Amounts below 32. -/
theorem words_below (hop : IsShift op) (hc : c.toNat < 32) (v : BitVec 64) :
    lo (w := 32) (shift64 op v c.toNat) = (shiftedWords op (lo (w := 32) v) (hi (w := 32) v) (shiftCount c)).1 ∧
      hi (w := 32) (shift64 op v c.toNat) = (shiftedWords op (lo (w := 32) v) (hi (w := 32) v) (shiftCount c)).2 := by
  rcases hop with rfl | rfl | rfl <;>
    simp only [shift64, shiftedWords, shiftWord, BitVec.shiftLeft_eq', BitVec.ushiftRight_eq', toNat_shiftCount,
      toNat_width_sub, Nat.mod_eq_of_lt hc]
  · rw [hi_shiftLeft_of_lt (w := 32) v hc, BitVec.or_comm]
    exact ⟨lo_shiftLeft_of_lt (w := 32) v hc, rfl⟩
  · rw [lo_ushiftRight_of_lt (w := 32) v hc, BitVec.or_comm]
    exact ⟨rfl, hi_ushiftRight (w := 32) v _⟩
  · rw [lo_sshiftRight_of_lt (w := 32) v hc, BitVec.or_comm]
    exact ⟨rfl, hi_sshiftRight (w := 32) v _⟩

/-- The bits of a word shifted by 31 are all its sign. -/
theorem getLsbD_sign (x : BitVec 32) {i : Nat} (hi : i < 32) : (x.sshiftRight 31).getLsbD i = x.msb := by
  rw [BitVec.getLsbD_sshiftRight, BitVec.msb_eq_getLsbD_last]
  by_cases hzero : i = 0
  · simp [hzero]
  · simp [hi, show ¬ 31 + i < 32 by omega]

theorem sshiftRight_sign (x : BitVec 32) (n : Nat) : (x.sshiftRight n).sshiftRight 31 = x.sshiftRight 31 := by
  apply BitVec.eq_of_getLsbD_eq
  intro i hi
  rw [getLsbD_sign _ hi, getLsbD_sign _ hi, BitVec.msb_sshiftRight]

/-- Amounts of 32 or more. -/
theorem words_above (hop : IsShift op) (hc : 32 ≤ c.toNat) (hc' : c.toNat < 64) (v : BitVec 64) :
    let x := shiftWord op (moving op (lo (w := 32) v) (hi (w := 32) v)) (shiftCount c)
    lo (w := 32) (shift64 op v c.toNat) = (movedWords op x).1 ∧
      hi (w := 32) (shift64 op v c.toNat) = (movedWords op x).2 := by
  have hcount : (shiftCount c).toNat = c.toNat - 32 := by
    rw [toNat_shiftCount]
    omega
  rcases hop with rfl | rfl | rfl <;>
    simp only [shift64, movedWords, moving, shiftWord, BitVec.shiftLeft_eq', BitVec.ushiftRight_eq', hcount,
      sshiftRight_sign]
  · exact ⟨lo_shiftLeft_of_le (w := 32) v hc, hi_shiftLeft_of_le (w := 32) v hc⟩
  · exact ⟨lo_ushiftRight_of_le (w := 32) v hc, hi_ushiftRight_of_le (w := 32) v hc⟩
  · exact ⟨lo_sshiftRight_of_le (w := 32) v hc, hi_sshiftRight_of_le (w := 32) v hc⟩

/-! ### Instructions for both words -/

/-- The registers of the word that moves and of the other one. -/
def movingReg (op : AluOp) : Gpr :=
  match op with
  | .lsh => .eax
  | _ => .edx

def otherReg (op : AluOp) : Gpr :=
  match op with
  | .lsh => .edx
  | _ => .eax

theorem movingReg_ne (op : AluOp) : movingReg op ≠ .ebp ∧ otherReg op ≠ .ebp := by
  cases op <;> decide

/-- The other word takes bits from the one that moves. -/
def doubleInstr (imm8 : Option (BitVec 8)) (op : AluOp) : Instr :=
  match op, imm8 with
  | .lsh, none => .shldR32R32Cl .edx .eax
  | .lsh, some imm8 => .shldR32R32Imm8 .edx .eax imm8
  | _, none => .shrdR32R32Cl .eax .edx
  | _, some imm8 => .shrdR32R32Imm8 .eax .edx imm8

/-- The word moves to the other register. -/
def moveInstrs (op : AluOp) : List Instr :=
  [.movRm32R32 (otherReg op) (movingReg op),
    if op = .arsh then .sarR32Imm8 .edx 31 else .xorR32Rm32 (movingReg op) (movingReg op)]

theorem effect_doubleInstr (hop : IsShift op) (imm8 : Option (BitVec 8)) (e : Env) :
    e.effect (doubleInstr imm8 op) = e.shift (otherReg op)
      (moving op (shiftedWords op (e.gprs .eax) (e.gprs .edx) (e.count imm8)).2
        (shiftedWords op (e.gprs .eax) (e.gprs .edx) (e.count imm8)).1) := by
  rcases hop with rfl | rfl | rfl <;> cases imm8 <;> rfl

theorem effect_sarImm (e : Env) (dst : Gpr) (imm8 : BitVec 8) :
    e.effect (.sarR32Imm8 dst imm8) = e.shift dst ((e.gprs dst).sshiftRight (shiftCount imm8).toNat) := rfl

theorem effect_clear (e : Env) (dst : Gpr) : e.effect (.xorR32Rm32 dst dst) = e.write dst 0 (fun _ => false) := by
  have hself : e.gprs dst ^^^ e.gprs dst = 0 := BitVec.xor_self
  rw [← hself]
  rfl

theorem Words.moving (h₁ : Words l h e e₁) (op : AluOp) : e₁.gprs (movingReg op) = moving op l h := by
  cases op <;> first | exact h₁.eax | exact h₁.edx

theorem line_double (hop : IsShift op) (imm8 : Option (BitVec 8)) (h₁ : Words l h e e₁) (hc : e₁.count imm8 = c) :
    line [doubleInstr imm8 op, shiftInstr imm8 op (movingReg op)]
      (fun e₂ => Words (shiftedWords op l h c).1 (shiftedWords op l h c).2 e e₂ ∧ e₂.gprs .ecx = e₁.gprs .ecx) e₁ := by
  rw [line_shift (effect_doubleInstr hop ..) (movingReg_ne op).2]
  intro b
  rw [line_shift (effect_shiftInstr ..) (movingReg_ne op).1]
  intro b'
  have hcount : Env.count ⟨Function.update e₁.gprs (otherReg op)
      (X32.moving op (shiftedWords op (e₁.gprs .eax) (e₁.gprs .edx) (e₁.count imm8)).2
        (shiftedWords op (e₁.gprs .eax) (e₁.gprs .edx) (e₁.count imm8)).1), b, e₁.slots⟩ imm8 = c := by
    rw [← hc]
    rcases hop with rfl | rfl | rfl <;> cases imm8 <;> simp [Env.count, otherReg]
  rw [hcount, hc, h₁.eax, h₁.edx]
  rcases hop with rfl | rfl | rfl
  · exact ⟨⟨h₁.slots, by simp [movingReg, otherReg, shiftedWords, shiftWord, h₁.eax],
      by simp [movingReg, otherReg, X32.moving]⟩, by simp [movingReg, otherReg]⟩
  all_goals
    exact ⟨⟨h₁.slots, by simp [movingReg, otherReg, X32.moving], by simp [movingReg, otherReg, shiftedWords, h₁.edx]⟩,
      by simp [movingReg, otherReg]⟩

theorem line_move (hop : IsShift op) (hslots : e₁.slots = e.slots) (hx : e₁.gprs (movingReg op) = x) :
    line (moveInstrs op) (Words (movedWords op x).1 (movedWords op x).2 e) e₁ := by
  have hsign : (shiftCount 31#8).toNat = 31 := by decide
  rw [moveInstrs, line_write (effect_movR ..) (movingReg_ne op).2]
  rcases hop with rfl | rfl | rfl
  · rw [if_neg (by decide), line_write (effect_clear ..) (by decide)]
    exact ⟨hslots, by simp [movingReg, movedWords], by simpa [movingReg, otherReg, movedWords] using hx⟩
  · rw [if_neg (by decide), line_write (effect_clear ..) (by decide)]
    exact ⟨hslots, by simpa [movingReg, otherReg, movedWords] using hx, by simp [movingReg, movedWords]⟩
  · rw [if_pos rfl, line_shift (effect_sarImm ..) (by decide)]
    intro b
    subst hx
    exact ⟨hslots, by simp [movingReg, otherReg, movedWords], by simp [movingReg, otherReg, movedWords, hsign]⟩

/-! ### Shifts by a register -/

def emitShiftR64 (op : AluOp) (dst src : Loc) : Code :=
  match op with
  | .lsh => emitIa32LshR64 dst src
  | .rsh => emitIa32RshR64 dst src
  | _ => emitIa32ArshR64 dst src

/-- The words for amounts of 32 or more are computed from those for smaller ones, unless the jump is taken. -/
theorem runs_shiftR64 (hop : IsShift op) (hsrc : (e.slots (loSlot src)).toNat < 64) :
    Runs (emitShiftR64 op (bpf2ia32 dst) (bpf2ia32 src))
      (Puts dst (shift64 op (e.reg dst) (e.slots (loSlot src)).toNat) e) e := by
  have hcode : emitShiftR64 op (bpf2ia32 dst) (bpf2ia32 src) =
      (loads dst ++ (Instr.movR32M32 .ecx .ebp (BitVec.ofNat 8 (8 * src)) ::
        ([doubleInstr none op, shiftInstr none op (movingReg op)] ++ [Instr.cmpR32Imm8 .ecx 32]))).map emitted ++
      (emitted (.jbRel8 (if op = .arsh then 5 else 4)) ::
        ((moveInstrs op).map emitted ++ (stores dst).map emitted)) := by
    rcases hop with rfl | rfl | rfl <;> rfl
  rw [hcode]
  refine runs_append (runs_line ?_)
  rw [line_append]
  refine line_mono line_loads fun e₁ h₁ => ?_
  rw [line_load (slot_lo src) (by decide), line_append, h₁.slots]
  have hw : Words (lo (w := 32) (e.reg dst)) (hi (w := 32) (e.reg dst)) e
      ⟨Function.update e₁.gprs .ecx (e.slots (loSlot src)), e₁.cf, e.slots⟩ := ⟨rfl, h₁.eax, h₁.edx⟩
  refine line_mono (line_double hop none hw rfl) ?_
  rintro e₂ ⟨h₂, hecx⟩
  rw [line_cons rfl]
  intro b
  simp only [Env.count, Function.update_self] at h₂ hecx
  have hcf : bvusubOverflow (e₂.gprs .ecx) ((32 : BitVec 8).signExtend 32) false =
      decide ((e.slots (loSlot src)).toNat < 32) := by
    rw [hecx]
    rfl
  have hret : .ret ∉ moveInstrs op := by
    rcases hop with rfl | rfl | rfl <;> simp [moveInstrs]
  have hrel : (if op = .arsh then 5 else 4 : BitVec 8).signExtend 32 =
      BitVec.ofNat 32 (machine.length (moveInstrs op)) := by
    rcases hop with rfl | rfl | rfl <;> decide
  refine runs_jb hret hrel (fun htaken => ?_) fun hnext => ?_
  · rcases words_below hop (of_decide_eq_true (hcf.symm.trans htaken)) (e.reg dst) with ⟨hlo, hhi⟩
    exact runs_line (line_stores (by rw [hlo, hhi]; exact ⟨h₂.slots, h₂.eax, h₂.edx⟩))
  · have hge := Nat.le_of_not_lt (of_decide_eq_false (hcf.symm.trans hnext))
    rcases words_above hop hge hsrc (e.reg dst) with ⟨hlo, hhi⟩
    refine runs_append (runs_mono (runs_line ?_) fun e₄ h₄ => runs_line (line_stores h₄))
    rw [hlo, hhi, ← moving_shiftedWords]
    exact line_move hop h₂.slots (h₂.moving op)

/-! ### Shifts by an immediate -/

theorem shiftCount_imm8 (val : BitVec 32) : shiftCount (val.extractLsb' 0 8) = shiftCount val := by
  apply BitVec.eq_of_toNat_eq
  simp only [shiftCount, BitVec.toNat_setWidth, BitVec.extractLsb'_toNat, Nat.shiftRight_zero]
  omega

theorem shiftCount_sub (val : BitVec 32) : shiftCount (val - 32#32) = shiftCount val := by
  apply BitVec.eq_of_toNat_eq
  rw [toNat_shiftCount, toNat_shiftCount]
  bv_omega

def emitShiftI64 (op : AluOp) (dst : Loc) (val : BitVec 32) : Code :=
  match op with
  | .lsh => emitIa32LshI64 dst val
  | .rsh => emitIa32RshI64 dst val
  | _ => emitIa32ArshI64 dst val

theorem runs_shiftI64 (hop : IsShift op) (hval : val.toNat < 64) :
    Runs (emitShiftI64 op (bpf2ia32 dst) val) (Puts dst (shift64 op (e.reg dst) val.toNat) e) e := by
  by_cases hlt : val < 32
  · have hcode : emitShiftI64 op (bpf2ia32 dst) val =
        (loads dst ++ [doubleInstr (some (val.extractLsb' 0 8)) op,
          shiftInstr (some (val.extractLsb' 0 8)) op (movingReg op)] ++ stores dst).map emitted := by
      rcases hop with rfl | rfl | rfl <;>
        simp only [emitShiftI64, emitIa32LshI64, emitIa32RshI64, emitIa32ArshI64, if_pos hlt] <;> rfl
    rw [hcode]
    refine runs_between fun e₁ h₁ => ?_
    rcases words_below hop hlt (e.reg dst) with ⟨hlo, hhi⟩
    rw [hlo, hhi]
    exact line_mono (line_double hop (some _) h₁ (shiftCount_imm8 val)) fun e₂ h₂ => h₂.1
  · have hcode : emitShiftI64 op (bpf2ia32 dst) val =
        (loads dst ++ (shiftInstr (some ((val - 32).extractLsb' 0 8)) op (movingReg op) :: moveInstrs op) ++
          stores dst).map emitted := by
      rcases hop with rfl | rfl | rfl <;>
        simp only [emitShiftI64, emitIa32LshI64, emitIa32RshI64, emitIa32ArshI64, if_neg hlt] <;> rfl
    rw [hcode]
    refine runs_between fun e₁ h₁ => ?_
    rcases words_above hop (Nat.le_of_not_lt hlt) hval (e.reg dst) with ⟨hlo, hhi⟩
    rw [line_shift (effect_shiftInstr ..) (movingReg_ne op).1, hlo, hhi]
    intro b
    refine line_move hop h₁.slots ?_
    simp only [Function.update_self, h₁.moving op, Env.count, shiftCount_imm8]
    exact congrArg _ (shiftCount_sub val)

end Pairs

/-! ## Compiled instructions -/

section Instructions

variable {e : Env} {i : Insn} {code : Code} {v : BitVec 64} {sizes : List (BitVec 32)} {op : AluOp} {source : Source}

theorem shiftWord_eq (hop : IsShift op) (hc : c.toNat < 32) (h : evaluateAlu64 op x c = .ok z) :
    shiftWord op x (shiftCount c) = z := by
  have hcount : shiftCount c = c := by
    apply BitVec.eq_of_toNat_eq
    rw [toNat_shiftCount, Nat.mod_eq_of_lt hc]
  rw [hcount]
  rcases hop with rfl | rfl | rfl <;> cases h <;> rfl

/-! ### What is emitted -/

theorem runJit_alu_x (hcode : i.code = .binary .alu op .x) (hjit : runJit i = some code) :
    let dst := bpf2ia32 i.dst
    let src := bpf2ia32 i.src
    (op = .mov ∧ code = emitIa32MovR64 false dst src) ∨
      (Wordwise op ∧ code = emitIa32AluR64 false op dst src) ∨
      (op = .mul ∧ code = emitIa32MulR dst.lo src.lo ++ emitIa32MovI dst.hi 0) ∨
      ∃ b2, shiftOpcode op = some b2 ∧ code = emitIa32ShiftR b2 dst.lo src.lo ++ emitIa32MovI dst.hi 0 := by
  obtain ⟨_, dst, src, off, imm⟩ := i
  cases hcode
  cases op <;> cases hjit <;> simp [Wordwise, shiftOpcode]

theorem runJit_alu_k (hcode : i.code = .binary .alu op .k) (hjit : runJit i = some code) :
    let dst := bpf2ia32 i.dst
    let loadImm := emit2Off32 0xC7 (add1reg 0xC0 .ecx) i.imm
    (op = .mov ∧ code = emitIa32MovI64 false dst i.imm) ∨
      (Wordwise op ∧ code = emitIa32AluI64 false op dst i.imm) ∨
      (op = .mul ∧ code = (loadImm :: emitIa32MulR dst.lo (.reg .ecx)) ++ emitIa32MovI dst.hi 0) ∨
      ∃ b2, shiftOpcode op = some b2 ∧
        code = (loadImm :: emitIa32ShiftR b2 dst.lo (.reg .ecx)) ++ emitIa32MovI dst.hi 0 := by
  obtain ⟨_, dst, src, off, imm⟩ := i
  cases hcode
  cases op <;> cases hjit <;> simp [Wordwise, shiftOpcode]

theorem runJit_alu64_x (hcode : i.code = .binary .alu64 op .x) (hjit : runJit i = some code) :
    let dst := bpf2ia32 i.dst
    let src := bpf2ia32 i.src
    (op = .mov ∧ code = emitIa32MovR64 true dst src) ∨
      (Wordwise op ∧ code = emitIa32AluR64 true op dst src) ∨
      (op = .mul ∧ code = emitIa32MulR64 dst src) ∨
      (IsShift op ∧ code = emitShiftR64 op dst src) := by
  obtain ⟨_, dst, src, off, imm⟩ := i
  cases hcode
  cases op <;> cases hjit <;> simp [Wordwise, IsShift, emitShiftR64]

theorem runJit_alu64_k (hcode : i.code = .binary .alu64 op .k) (hjit : runJit i = some code) :
    let dst := bpf2ia32 i.dst
    (op = .mov ∧ code = emitIa32MovI64 true dst i.imm) ∨
      (Wordwise op ∧ code = emitIa32AluI64 true op dst i.imm) ∨
      (IsShift op ∧ code = emitShiftI64 op dst i.imm) := by
  obtain ⟨_, dst, src, off, imm⟩ := i
  cases hcode
  cases op <;> cases hjit <;> simp [Wordwise, IsShift, emitShiftI64]

/-! ### What is computed -/

theorem Wordwise.ne_mov (hop : Wordwise op) : op ≠ .mov := by
  rintro rfl
  simp [Wordwise] at hop

theorem isShift_of_shiftOpcode (h : shiftOpcode op = some b2) : IsShift op := by
  cases op <;> simp [shiftOpcode, IsShift] at h ⊢

/-- The lower word of a result of 32 bits. -/
theorem result_word (hcode : i.code = .binary .alu op source) (hmov : op ≠ .mov)
    (hv : i.result (e.reg i.dst) (e.reg i.src) = .ok v) :
    ∃ z, evaluateAlu64 op (e.slots (loSlot i.dst)) ((i.operand (e.reg i.src) source).setWidth 32) = .ok z ∧
      v = z.setWidth 64 := by
  rw [result_alu32 hcode hmov] at hv
  rw [← setWidth_reg]
  exact evaluateAlu32_eq_ok hv

variable (hjit : runJit i = some code) (hpre : Pre sizes i (e.reg i.src))
  (hv : i.result (e.reg i.dst) (e.reg i.src) = .ok v)

include hjit hpre hv

theorem runs_alu_x (hcode : i.code = .binary .alu op .x) : Runs code (Puts i.dst v e) e := by
  rcases runJit_alu_x hcode hjit with ⟨rfl, rfl⟩ | ⟨hop, rfl⟩ | ⟨rfl, rfl⟩ | ⟨b2, hop, rfl⟩
  · rw [Insn.result, hcode] at hv
    cases hv
    rw [Insn.operand, setWidth_reg]
    exact runs_zeroExtend (runs_movR (slot_lo i.dst) (slot_lo i.src))
  · rcases result_word hcode hop.ne_mov hv with ⟨z, hz, rfl⟩
    rw [Insn.operand, setWidth_reg] at hz
    rw [← aluWord_eq32 hop hz]
    exact runs_zeroExtend (runs_mono (runs_aluR (slot_lo i.dst) hop false false (slot_lo i.src)) fun _ h => h.1)
  · rcases result_word hcode (by decide) hv with ⟨z, hz, rfl⟩
    rw [Insn.operand, setWidth_reg] at hz
    cases hz
    exact runs_zeroExtend (runs_mulR (slot_lo i.dst) (slot_lo i.src))
  · have hshift := isShift_of_shiftOpcode hop
    rcases result_word hcode hshift.ne_mov hv with ⟨z, hz, rfl⟩
    rw [Insn.operand, setWidth_reg] at hz
    have hlt : (e.reg i.src).toNat < 32 := (hpre.shift hcode hshift).1 rfl rfl
    have hsrc : (e.slots (loSlot i.src)).toNat < 32 := by rwa [← toNat_slot (by omega)]
    rw [← shiftWord_eq hshift hsrc hz]
    exact runs_zeroExtend (runs_shiftR (slot_lo i.dst) hop (slot_lo i.src))

theorem runs_alu_k (hcode : i.code = .binary .alu op .k) : Runs code (Puts i.dst v e) e := by
  rcases runJit_alu_k hcode hjit with ⟨rfl, rfl⟩ | ⟨hop, rfl⟩ | ⟨rfl, rfl⟩ | ⟨b2, hop, rfl⟩
  · rw [Insn.result, hcode] at hv
    cases hv
    rw [Insn.operand, setWidth_signExtend]
    exact runs_zeroExtend (runs_movI (slot_lo i.dst) i.imm)
  · rcases result_word hcode hop.ne_mov hv with ⟨z, hz, rfl⟩
    rw [Insn.operand, setWidth_signExtend] at hz
    rw [← aluWord_eq32 hop hz]
    exact runs_zeroExtend (runs_mono (runs_aluI (slot_lo i.dst) hop false false i.imm) fun _ h => h.1)
  · rcases result_word hcode (by decide) hv with ⟨z, hz, rfl⟩
    rw [Insn.operand, setWidth_signExtend] at hz
    cases hz
    exact runs_zeroExtend (runs_mulI (slot_lo i.dst) i.imm)
  · have hshift := isShift_of_shiftOpcode hop
    rcases result_word hcode hshift.ne_mov hv with ⟨z, hz, rfl⟩
    rw [Insn.operand, setWidth_signExtend] at hz
    rw [← shiftWord_eq hshift ((hpre.shift hcode hshift).2.2.1 rfl rfl) hz]
    exact runs_zeroExtend (runs_shiftI (slot_lo i.dst) hop i.imm)

theorem runs_alu64_x (hcode : i.code = .binary .alu64 op .x) : Runs code (Puts i.dst v e) e := by
  rcases runJit_alu64_x hcode hjit with ⟨rfl, rfl⟩ | ⟨hop, rfl⟩ | ⟨rfl, rfl⟩ | ⟨hop, rfl⟩
  · rw [Insn.result, hcode] at hv
    cases hv
    exact runs_movR64
  · rw [result_alu64 hcode hop.ne_mov] at hv
    exact runs_aluR64 hop hv
  · rw [result_alu64 hcode (by decide)] at hv
    cases hv
    exact runs_mulR64
  · -- the amount is below 64, so it is in the lower word
    have hlt : (e.reg i.src).toNat < 64 := (hpre.shift hcode hop).2.1 rfl rfl
    have heq : (e.reg i.src).toNat = (e.slots (loSlot i.src)).toNat := toNat_slot (by omega)
    rw [result_alu64 hcode hop.ne_mov] at hv
    rw [eq_shift64 hop hv, Insn.operand, heq]
    exact runs_shiftR64 hop (by rwa [← heq])

theorem runs_alu64_k (hcode : i.code = .binary .alu64 op .k) : Runs code (Puts i.dst v e) e := by
  rcases runJit_alu64_k hcode hjit with ⟨rfl, rfl⟩ | ⟨hop, rfl⟩ | ⟨hop, rfl⟩
  · rw [Insn.result, hcode] at hv
    cases hv
    exact runs_movI64 i.imm
  · rw [result_alu64 hcode hop.ne_mov] at hv
    exact runs_aluI64 hop hv
  · -- the sign extension of the amount is the amount
    have hlt : i.imm.toNat < 64 := (hpre.shift hcode hop).2.2.2 rfl rfl
    have hmsb : i.imm.msb = false := BitVec.msb_eq_false_iff_two_mul_lt.mpr (by omega)
    have heq : (i.imm.signExtend 64).toNat = i.imm.toNat := by
      rw [BitVec.signExtend_eq_setWidth_of_msb_false hmsb, BitVec.toNat_setWidth, Nat.mod_eq_of_lt (by omega)]
    rw [result_alu64 hcode hop.ne_mov] at hv
    rw [eq_shift64 hop hv, Insn.operand, heq]
    exact runs_shiftI64 hop hlt

/-- A compiled instruction puts the result into its register. -/
theorem runs_runJit : Runs code (Puts i.dst v e) e := by
  cases hcode : i.code with
  | binary cls op source =>
      cases cls <;> cases source
      · exact runs_alu_x hjit hpre hv hcode
      · exact runs_alu_k hjit hpre hv hcode
      · exact runs_alu64_x hjit hpre hv hcode
      · exact runs_alu64_k hjit hpre hv hcode
  | neg cls =>
      simp only [runJit, Insn.result, hcode] at hjit hv
      cases cls with
      | alu =>
          cases hjit
          cases hv
          rw [setWidth_reg]
          exact runs_zeroExtend (runs_neg (slot_lo i.dst))
      | alu64 =>
          cases hjit
          cases hv
          exact runs_neg64
  | endian order => simp [runJit, hcode] at hjit
  | ja => simp [runJit, hcode] at hjit
  | jmp op source => simp [runJit, hcode] at hjit

end Instructions

/-! ## Programs -/

/-- `x32->bpf-regs`, for one register. -/
def x32ToBpfReg (cpu : X86Cpu) (r : Bpf.Reg) : Except Bug Bv := do
  let block ← findBlockByName cpu.mregions "stack"
  let loval ← block.iload ⟨[.index (BitVec.ofNat 32 (8 * r / 4))], none⟩
  let hival ← block.iload ⟨[.index (BitVec.ofNat 32 ((8 * r + 4) / 4))], none⟩
  return concat hival loval

/-- `cpu-equal?`. -/
def cpuEqual (b : Bpf.Cpu) (cpu : X86Cpu) : Prop :=
  ∀ r, ∃ v, b.regs r = some v ∧ x32ToBpfReg cpu r = .ok ⟨64, v⟩

/-- The processor represents the BPF registers: there is a scratch area, `ebp` points to it, and the registers are
equal. -/
structure Represents (b : Bpf.Cpu) (cpu : X86Cpu) : Prop where
  stack : ∃ f, cpu.mregions = [stackRegion f]
  ebp : cpu.gprRef .ebp = BitVec.ofNat 32 stackBase
  regs : cpuEqual b cpu

/-- The environment has the values of the BPF registers. -/
def Env.Holds (e : Env) (b : Bpf.Cpu) : Prop :=
  ∀ r, b.regs r = some (e.reg r)

theorem x32ToBpfReg_eq (h : e.In cpu) (r : Bpf.Reg) : x32ToBpfReg cpu r = .ok ⟨64, e.reg r⟩ := by
  have hlo : 8 * (r : Nat) / 4 = 2 * r := by omega
  have hhi : (8 * (r : Nat) + 4) / 4 = 2 * r + 1 := by omega
  have hblock : findBlockByName cpu.mregions "stack" = .ok (stackRegion e.slots).block := by
    rw [h.memory]
    rfl
  rw [x32ToBpfReg, hblock, ok_bind, hlo, hhi]
  rfl

theorem Env.Holds.represents (hb : e.Holds b) (h : e.In cpu) :
    Represents b cpu where
  stack := ⟨e.slots, h.memory⟩
  ebp := (congrFun h.gprs .ebp).trans h.base
  regs r := ⟨e.reg r, hb r, x32ToBpfReg_eq h r⟩

theorem Represents.holds (h : Represents b cpu) : ∃ e : Env, e.In cpu ∧ e.Holds b := by
  rcases h.stack with ⟨f, hf⟩
  have hin : Env.In ⟨cpu.gprs, cpu.flags .CF, f⟩ cpu := ⟨rfl, rfl, hf, h.ebp⟩
  refine ⟨_, hin, fun r => ?_⟩
  rcases h.regs r with ⟨v, hv, hreg⟩
  rw [x32ToBpfReg_eq hin] at hreg
  rw [hv, eq_of_heq (Bv.mk.inj (Except.ok.inj hreg)).2]

theorem runJit_isAlu {i : Insn} (hjit : runJit i = some code) : i.code.isAlu :=
  isAlu_of_emit (fun cls source h => by cases cls <;> cases source <;> simp [runJit, shiftOpcode, h])
    (fun h => by simp [runJit, h]) (fun op source h => by simp [runJit, h]) hjit

/-- The registers after an instruction are those that the BPF interpreter computes. -/
theorem Puts.holds {pc : BitVec 64} (hb : e.Holds b) (h : Puts r v e e') :
    e'.Holds ⟨pc, Function.update b.regs r (some v)⟩ := by
  intro r'
  by_cases hr : r' = r
  · subst hr
    simp [h.reg_self]
  · simpa [hr, h.reg_of_ne hr] using hb r'

/-- The simulation: the BPF run raises no bug, and the code ends with the registers of its end. -/
theorem runs_runJits {insns : List Insn} (hjit : runJits insns = some code) (hb : e.Holds b)
    (hchecked : Checked [16] b insns) :
    Runs code (fun e' => ∃ b', interpretInstrs b insns = .ok b' ∧ e'.Holds b') e := by
  induction insns generalizing code b e with
  | nil =>
      cases hjit
      exact runs_nil ⟨b, rfl, hb⟩
  | cons i insns ih =>
      rcases emitAll_cons hjit with ⟨c₁, c₂, h₁, h₂, rfl⟩
      have hpre := hchecked.1 _ (hb i.src)
      rcases result_ok hpre (runJit_isAlu h₁) (by simp) (e.reg i.dst) with ⟨v, hv⟩
      have hstep := interpretInstr_of_result (hb i.dst) (hb i.src) (Fin.ne_of_lt hpre.dst) hv
      refine runs_seq (runs_runJit h₁ hpre hv) fun e₁ hput => ?_
      refine runs_mono (ih h₂ (hput.holds hb) (hchecked.2 _ hstep)) ?_
      rintro e' ⟨b', hrun, hb'⟩
      exact ⟨b', by rw [interpretInstrs, hstep]; exact hrun, hb'⟩

/-! ## Initial states -/

/-- The writes of `init-x32-cpu` for one register. -/
def initReg (cpu : X86Cpu) (r : Bpf.Reg) (v : BitVec 64) : Except Bug X86Cpu := do
  let block ← findBlockByName cpu.mregions "stack"
  let block ← block.istore ⟨32, lo (w := 32) v⟩ ⟨[.index (BitVec.ofNat 32 (8 * r / 4))], none⟩
  let block ← block.istore ⟨32, hi (w := 32) v⟩ ⟨[.index (BitVec.ofNat 32 ((8 * r + 4) / 4))], none⟩
  return { cpu with mregions := cpu.mregions.map fun mr =>
    if mr.name = "stack" then { mr with block := block } else mr }

/-- `init-x32-cpu`, from a processor that has the scratch area as its memory. -/
def initX32Cpu (cpu : X86Cpu) (regs : Bpf.Reg → BitVec 64) : Except Bug X86Cpu :=
  (List.finRange 11).foldlM (fun cpu r => initReg cpu r (regs r)) (cpu.gprSet .ebp (BitVec.ofNat 32 stackBase))

theorem initReg_ok (h : e.In cpu) (r : Bpf.Reg) (v : BitVec 64) :
    ∃ cpu', ∃ e' : Env, initReg cpu r v = .ok cpu' ∧ e'.In cpu' ∧ Puts r v e e' := by
  have hlo : 8 * (r : Nat) / 4 = 2 * r := by omega
  have hhi : (8 * (r : Nat) + 4) / 4 = 2 * r + 1 := by omega
  have hblock : findBlockByName cpu.mregions "stack" = .ok (stackRegion e.slots).block := by
    rw [h.memory]
    rfl
  have hstore : ∀ (f : BitVec 32 → BitVec 32) (k u : BitVec 32),
      (stackRegion f).block.istore ⟨32, u⟩ ⟨[.index k], none⟩ =
        .ok (stackRegion (Function.update f k u)).block := fun f k u => stackBlock_istore k u none
  let e' : Env :=
    ⟨e.gprs, e.cf, Function.update (Function.update e.slots (loSlot r) (lo (w := 32) v)) (hiSlot r) (hi (w := 32) v)⟩
  refine ⟨{ cpu with mregions := [stackRegion e'.slots] }, e', ?_, ⟨h.gprs, h.cf, rfl, h.base⟩, rfl⟩
  rw [initReg, hblock, ok_bind, hstore, ok_bind, hstore, ok_bind, hlo, hhi, h.memory]
  rfl

/-- One register after the other: what was written stays. -/
theorem initRegs_ok (regs : Bpf.Reg → BitVec 64) (rs : List Bpf.Reg) (h : e.In cpu) :
    ∃ cpu', ∃ e' : Env, rs.foldlM (fun cpu r => initReg cpu r (regs r)) cpu = .ok cpu' ∧ e'.In cpu' ∧
      ∀ r, r ∈ rs ∨ e.reg r = regs r → e'.reg r = regs r := by
  induction rs generalizing cpu e with
  | nil => exact ⟨cpu, e, rfl, h, fun r hr => hr.resolve_left List.not_mem_nil⟩
  | cons r rs ih =>
      rcases initReg_ok h r (regs r) with ⟨cpu₁, e₁, hinit, h₁, hput⟩
      rcases ih h₁ with ⟨cpu', e', hfold, h', hall⟩
      refine ⟨cpu', e', by rw [List.foldlM_cons, hinit]; exact hfold, h', fun r' hr' => hall r' ?_⟩
      by_cases heq : r' = r
      · exact .inr (heq ▸ hput.reg_self)
      · rcases hr' with hmem | hholds
        · exact .inl ((List.mem_cons.mp hmem).resolve_left heq)
        · exact .inr ((hput.reg_of_ne heq).trans hholds)

/-- The initial processor exists for all values of the registers and represents them. -/
theorem initX32Cpu_represents {f : BitVec 32 → BitVec 32} (hstack : cpu.mregions = [stackRegion f])
    (regs : Bpf.Reg → BitVec 64) (pc : BitVec 64) :
    ∃ cpu', initX32Cpu cpu regs = .ok cpu' ∧ Represents ⟨pc, fun r => some (regs r)⟩ cpu' := by
  have hin : Env.In ⟨Function.update cpu.gprs .ebp (BitVec.ofNat 32 stackBase), cpu.flags .CF, f⟩
      (cpu.gprSet .ebp (BitVec.ofNat 32 stackBase)) := ⟨rfl, rfl, hstack, rfl⟩
  rcases initRegs_ok regs (List.finRange 11) hin with ⟨cpu', e', hinit, h', hall⟩
  have hholds : e'.Holds ⟨pc, fun r => some (regs r)⟩ := fun r => by
    rw [hall r (.inl (List.mem_finRange r))]
  exact ⟨cpu', hinit, hholds.represents h'⟩

/-! ## Correctness -/

theorem size_pos (i : Instr) : 0 < i.size := by
  cases i <;> simp [Instr.size, Instr.encode, Item.size]

/-- The compiler is correct for programs of arithmetic instructions, wherever the code is placed: the emitters' checks
pass, and the code computes what the BPF interpreter computes. -/
theorem x32_jit_correct {insns : List Insn} {code : Code} (hjit : runJits insns = some code) {b : Bpf.Cpu}
    (hchecked : Checked [16] b insns) {base : BitVec 32} {cpu : X86Cpu} (hpc : cpu.pc = base)
    (hcpu : Represents b cpu) :
    ∃ prog b', assemble code = .ok prog ∧ interpretInstrs b insns = .ok b' ∧
      (machine.length (prog ++ [.ret]) ≤ 2 ^ 32 → ∃ cpu',
        (∀ fuel, prog.length < fuel → interpretProgram (makeX32Program base prog) fuel cpu = .ok (some cpu')) ∧
          cpu'.pc = base + BitVec.ofNat 32 (machine.length prog) ∧ Represents b' cpu') := by
  subst hpc
  rcases hcpu.holds with ⟨e, hin, hb⟩
  rcases runs_runJits hjit hb hchecked cpu hin with ⟨prog, cpu', e', hprog, hexec, hin', b', hb', hholds⟩
  refine ⟨prog, b', hprog, hb', fun hfits => ?_⟩
  have hsits : machine.Sits (makeX32Program cpu.pc prog).instructions cpu.pc (prog ++ [.ret]) :=
    CodeMachine.sits_place _ _ (fun i _ => size_pos i) hfits
  rw [CodeMachine.sits_append] at hsits
  have hstop : machine.Stops (makeX32Program cpu.pc prog).instructions
      (cpu.pc + BitVec.ofNat 32 (machine.length prog)) := ⟨.ret, hsits.2.1, rfl⟩
  have hwp : machine.wp prog (Represents b') cpu := ⟨cpu', hexec, hholds.represents hin'⟩
  rcases CodeMachine.run_of_wp hwp hsits.1 hstop with ⟨cpu₁, hrun, hpc, hrep⟩
  refine ⟨cpu₁, fun fuel hfuel => ?_, hpc, hrep⟩
  rw [interpretProgram_eq_run]
  exact hrun fuel hfuel

/-- R6 shifted left by R7 and then squared. -/
theorem x32_jit_correct_shift_square : ∃ (code : Code) (prog : List Instr) (cpu cpu' : X86Cpu) (b' : Bpf.Cpu),
    runJits [⟨.binary .alu64 .lsh .x, 6, 7, 0, 0⟩, ⟨.binary .alu64 .mul .x, 6, 6, 0, 0⟩] = some code ∧
      assemble code = .ok prog ∧ Represents ⟨0, fun _ => some 33⟩ cpu ∧
      interpretProgram (makeX32Program cpu.pc prog) (prog.length + 1) cpu = .ok (some cpu') ∧
      interpretInstrs ⟨0, fun _ => some 33⟩
        [⟨.binary .alu64 .lsh .x, 6, 7, 0, 0⟩, ⟨.binary .alu64 .mul .x, 6, 6, 0, 0⟩] = .ok b' ∧
      Represents b' cpu' := by
  let start : X86Cpu := ⟨0, fun _ => 0, fun _ => false, [stackRegion fun _ => 0], fun _ => false⟩
  have hstack : start.mregions = [stackRegion fun _ => 0] := rfl
  rcases initX32Cpu_represents hstack (fun _ => 33) 0 with ⟨cpu, _, hcpu⟩
  have hchecked : Checked [16] ⟨0, fun _ => some 33⟩
      [⟨.binary .alu64 .lsh .x, 6, 7, 0, 0⟩, ⟨.binary .alu64 .mul .x, 6, 6, 0, 0⟩] := by
    refine ⟨fun srcOp hsrc => ?_, fun b₁ _ => ⟨fun srcOp _ => ?_, fun _ _ => trivial⟩⟩
    · cases hsrc
      constructor <;> decide
    · constructor <;> simp [Code.isAlu32, Code.isDiv, Code.isShift, Code.isEndian]
  rcases x32_jit_correct rfl hchecked rfl hcpu with ⟨prog, b', hprog, hb', hrun⟩
  have hlength : machine.length (prog ++ [.ret]) = 60 := by
    cases hprog
    rfl
  rcases hrun (by rw [hlength]; decide) with ⟨cpu', hrun', _, hcpu'⟩
  exact ⟨_, prog, cpu, cpu', b', rfl, hprog, hcpu, hrun' _ (Nat.lt_succ_self _), hb', hcpu'⟩

end X32
end Jit
end Bpf
end Serval
