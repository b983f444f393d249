import Serval.Bpf.Kbpf
import Serval.Bpf.Jit.Common

/-!
# Agreement — the two BPF interpreters

A run of `interpret-program` in `bpf.rkt` is followed step by step by `___bpf_prog_run` of `kbpf.c`, on the program
that `kbpf.rkt` writes.  Integers are the same words on both sides; a pointer into the stack is its offset on one
side and an address on the other.

Two things can go wrong.  The program cannot be written when it has one of the comparisons that `decode` does not
know.  And `bpf.rkt` takes every pointer to be different from 0, while arithmetic on the C side can bring one to
address 0.
-/

namespace Serval
namespace Bpf
namespace Kbpf

open Serval.Core

variable {op : AluOp} {v : BitVec 64} {v₂ v₁ : Val} {source : Source} {r : Reg}

/-! ## Conditions on a step -/

/-- The value of the second operand of an instruction. -/
def secondOperand (vm : Vm) (i : Insn) : Source → Option Val
  | .x => vm.regs i.src
  | .k => some (.int (i.imm.signExtend 64))

/-- The amount by which a shift instruction shifts: its second operand, which shifts to the left and logical shifts
to the right at 32 bits cast to `u32`. -/
def shiftAmount : AluClass → AluOp → BitVec 64 → Nat
  | .alu, .lsh, v | .alu, .rsh, v => (v.setWidth 32).toNat
  | _, _, v => v.toNat

def AluClass.width : AluClass → Nat
  | .alu => 32
  | .alu64 => 64

/-- A shift instruction shifts by less than the width of its operand. -/
def ShiftsBelow (vm : Vm) (i : Insn) : Prop :=
  ∀ cls op source v, i.code = .binary cls op source → op = .lsh ∨ op = .rsh ∨ op = .arsh →
    secondOperand vm i source = some (.int v) → shiftAmount cls op v < AluClass.width cls

/-- A pointer that is compared with 0 is not at address 0. -/
def NotNull (stack : BitVec 64) (vm : Vm) (i : Insn) : Prop :=
  ∀ op source offset, i.code = .jmp op source → op = .jeq ∨ op = .jne → vm.regs i.dst = some (.ptr offset) →
    secondOperand vm i source = some (.int 0) → stack + offset ≠ 0

/-! ## Values -/

/-- The word that a value is in C. -/
def toWord (stack : BitVec 64) : Val → BitVec 64
  | .int v => v
  | .ptr offset => stack + offset

section Values

theorem smtUDiv_of_ne_zero {w : Nat} {x y : BitVec w} (h : y ≠ 0) : x.smtUDiv y = x / y := by
  rw [BitVec.smtUDiv_eq]
  exact if_neg h

/-- The operations at 64 bits, on integers. -/
theorem alu64_int {v₁ v₂ : BitVec 64} (h : evaluateAlu64 op v₁ v₂ = .ok v)
    (hshift : op = .lsh ∨ op = .rsh ∨ op = .arsh → v₂.toNat < 64) : ∃ ax, alu64 op v₁ v₂ = some (v, ax) := by
  cases op with
  | div =>
      obtain ⟨hne, h⟩ := bind_bugOn h
      cases h
      exact ⟨none, by simp only [alu64, if_neg hne, smtUDiv_of_ne_zero hne]⟩
  | mod =>
      obtain ⟨hne, h⟩ := bind_bugOn h
      cases h
      exact ⟨_, if_neg hne⟩
  | lsh =>
      cases h
      exact ⟨none, if_pos (hshift (.inl rfl))⟩
  | rsh =>
      cases h
      exact ⟨none, if_pos (hshift (.inr (.inl rfl)))⟩
  | arsh =>
      cases h
      exact ⟨none, if_pos (hshift (.inr (.inr rfl)))⟩
  | mov => cases h
  | neg => cases h
  | add => cases h; exact ⟨none, rfl⟩
  | sub => cases h; exact ⟨none, rfl⟩
  | mul => cases h; exact ⟨none, rfl⟩
  | or => cases h; exact ⟨none, rfl⟩
  | and => cases h; exact ⟨none, rfl⟩
  | xor => cases h; exact ⟨none, rfl⟩

/-- The operations at 64 bits, on integers and pointers. -/
theorem alu64_val (stack : BitVec 64) {v : Val} (h : evaluateAlu64Val op v₁ v₂ = .ok v)
    (hshift : op = .lsh ∨ op = .rsh ∨ op = .arsh → ∀ a, v₂ = .int a → a.toNat < 64) :
    ∃ ax, alu64 op (toWord stack v₁) (toWord stack v₂) = some (toWord stack v, ax) := by
  cases v₁ with
  | int a =>
      cases v₂ with
      | int b =>
          rw [evaluateAlu64Val_int] at h
          obtain ⟨c, hc, rfl⟩ : ∃ c, evaluateAlu64 op a b = .ok c ∧ v = .int c := by
            cases hc : evaluateAlu64 op a b with
            | error b => rw [hc] at h; cases h
            | ok c => rw [hc] at h; exact ⟨c, rfl, (Except.ok.inj h).symm⟩
          exact alu64_int hc fun hop => hshift hop b rfl
      | ptr b => cases op <;> cases h
  | ptr a =>
      cases v₂ with
      | int b =>
          cases op <;> cases h
          · exact ⟨none, by simp [alu64, toWord, BitVec.add_assoc]⟩
          · exact ⟨none, by simp [alu64, toWord, BitVec.sub_eq_add_neg, BitVec.add_assoc]⟩
      | ptr b =>
          cases op <;> cases h
          have hdiff : stack + a - (stack + b) = a - b := by bv_omega
          exact ⟨none, by simp only [alu64, toWord, hdiff]⟩

/-- Division at 32 bits can be done at 64. -/
theorem setWidth_udiv (d s : BitVec 32) : (d.setWidth 64 / s.setWidth 64).setWidth 32 = d / s := by
  apply BitVec.eq_of_toNat_eq
  have hle := Nat.div_le_self d.toNat s.toNat
  rw [BitVec.toNat_setWidth, BitVec.toNat_udiv, BitVec.toNat_udiv, BitVec.toNat_setWidth_of_le (by decide),
    BitVec.toNat_setWidth_of_le (by decide), Nat.mod_eq_of_lt (by omega)]

theorem setWidth_umod (d s : BitVec 32) : (d.setWidth 64 % s.setWidth 64).setWidth 32 = d % s := by
  apply BitVec.eq_of_toNat_eq
  have hle := Nat.mod_le d.toNat s.toNat
  rw [BitVec.toNat_setWidth, BitVec.toNat_umod, BitVec.toNat_umod, BitVec.toNat_setWidth_of_le (by decide),
    BitVec.toNat_setWidth_of_le (by decide), Nat.mod_eq_of_lt (by omega)]

/-- The operations at 32 bits. -/
theorem alu32_int {v₁ v₂ : BitVec 64} (h : evaluateAlu32 op v₁ v₂ = .ok v)
    (hshift : op = .lsh ∨ op = .rsh ∨ op = .arsh → shiftAmount .alu op v₂ < 32) :
    ∃ ax, alu32 op v₁ v₂ = some (v, ax) := by
  obtain ⟨z, hz, h⟩ := bind_eq_ok.mp h
  obtain rfl : z.setWidth 64 = v := Except.ok.inj h
  cases op with
  | div =>
      obtain ⟨hne, hz⟩ := bind_bugOn hz
      cases hz
      refine ⟨some ((v₁.setWidth 32).setWidth 64 / (v₂.setWidth 32).setWidth 64), ?_⟩
      simp only [alu32, if_neg hne, smtUDiv_of_ne_zero hne, setWidth_udiv]
  | mod =>
      obtain ⟨hne, hz⟩ := bind_bugOn hz
      cases hz
      refine ⟨some ((v₁.setWidth 32).setWidth 64 / (v₂.setWidth 32).setWidth 64), ?_⟩
      simp only [alu32, if_neg hne, setWidth_umod]
  | lsh =>
      cases hz
      exact ⟨none, if_pos (hshift (.inl rfl))⟩
  | rsh =>
      cases hz
      exact ⟨none, if_pos (hshift (.inr (.inl rfl)))⟩
  | arsh =>
      cases hz
      have hamount : v₂.toNat < 32 := hshift (.inr (.inr rfl))
      have hcast : (v₂.setWidth 32).toNat = v₂.toNat := by
        rw [BitVec.toNat_setWidth, Nat.mod_eq_of_lt (by omega)]
      refine ⟨none, ?_⟩
      simp only [alu32, if_pos hamount, BitVec.sshiftRight', hcast]
  | mov => cases hz
  | neg => cases hz
  | add => cases hz; exact ⟨none, rfl⟩
  | sub => cases hz; exact ⟨none, rfl⟩
  | mul => cases hz; exact ⟨none, rfl⟩
  | or => cases hz; exact ⟨none, rfl⟩
  | and => cases hz; exact ⟨none, rfl⟩
  | xor => cases hz; exact ⟨none, rfl⟩

/-- The comparisons, on integers. -/
theorem condJmp_eq (op : JmpOp) (v₁ v₂ : BitVec 64) : condJmp op v₁ v₂ = evaluateCond op v₁ v₂ := by
  cases op with
  | jeq => simp [condJmp, evaluateCond, BitVec.toNat_eq, Bool.beq_eq_decide_eq]
  | jne => simp [condJmp, evaluateCond, BitVec.toNat_eq, bne, Bool.beq_eq_decide_eq]
  | jgt => rfl
  | jlt => rfl
  | jge => rfl
  | jle => rfl
  | jset => simp [condJmp, evaluateCond, bne, Bool.beq_eq_decide_eq]
  | jsgt => rfl
  | jslt => rfl
  | jsge => rfl
  | jsle => rfl

end Values

/-! ## One step -/

/-- The two machines are at the same instruction, and every register that holds a value holds its word in C. -/
structure Agrees (stack : BitVec 64) (vm : Vm) (s : State) : Prop where
  insn : s.insn = vm.pc
  regs : ∀ r v, vm.regs r = some v → s.regs r.castSucc = toWord stack v

section Steps

variable {stack : BitVec 64} {vm vm' : Vm} {s : State} {i : Insn} {bi : BpfInsn} {enc : List BpfInsn}

/-- `bi` is how `i` is written. -/
structure Writes (bi : BpfInsn) (i : Insn) : Prop where
  dst : bi.dstReg = some i.dst.castSucc
  src : bi.srcReg = some i.src.castSucc
  off : bi.off = i.off
  imm : bi.imm = i.imm

theorem regRef_eq_ok {v : Val} (h : vm.regRef r = .ok v) : vm.regs r = some v := by
  unfold Vm.regRef at h
  cases hr : vm.regs r with
  | none => rw [hr] at h; cases h
  | some u => rw [hr] at h; rw [Except.ok.inj h]

theorem bvRef_eq_ok (h : vm.bvRef r = .ok v) : vm.regs r = some (.int v) := by
  obtain ⟨u, hu, h⟩ := bind_eq_ok.mp h
  cases u with
  | int a => rw [regRef_eq_ok hu, Except.ok.inj h]
  | ptr a => cases h

theorem Agrees.write (hag : Agrees stack vm s) {v : Val} (h : vm.regSet r v = .ok vm') (ax : Option (BitVec 64)) :
    Agrees stack (vm'.next 1) (s.write r.castSucc (toWord stack v, ax)) := by
  obtain ⟨-, h⟩ := bind_bugOn h
  cases h
  refine ⟨?_, fun r' u hu => ?_⟩
  · rw [State.write, hag.insn]
    exact BitVec.add_comm ..
  · by_cases hr : r' = r
    · subst hr
      obtain rfl : v = u := by simpa [Vm.next] using hu
      simp [State.write]
    · have hne : r'.castSucc ≠ r.castSucc := fun h => hr (Fin.castSucc_inj.mp h)
      have hax : r'.castSucc ≠ BPF_REG_AX := Fin.ne_of_lt (Fin.castSucc_lt_last r')
      have hold : vm.regs r' = some u := by simpa [Vm.next, hr] using hu
      rw [← hag.regs r' u hold]
      cases ax with
      | none => simp [State.write, hne]
      | some a => simp [State.write, hne, hax]

theorem Agrees.next (hag : Agrees stack vm s) : Agrees stack (vm.next 1) { s with insn := s.insn + 1 } := by
  refine ⟨?_, hag.regs⟩
  rw [hag.insn]
  exact BitVec.add_comm ..

theorem Agrees.operand (hag : Agrees stack vm s) (hw : Writes bi i) (source : Source) {v : Val}
    (h : secondOperand vm i source = some v) : operand s.regs bi source = some (toWord stack v) := by
  cases source with
  | x => rw [Kbpf.operand, hw.src, Option.map_some, hag.regs _ _ h]
  | k =>
      cases h
      rw [Kbpf.operand, hw.imm]
      rfl

/-- What a binary instruction writes: a value whose word the operation in C computes. -/
def Computes (stack : BitVec 64) (vm vm' : Vm) (s : State) (bi : BpfInsn) (i : Insn) (cls : AluClass) (op : AluOp)
    (source : Source) : Prop :=
  ∃ v src ax, vm.regSet i.dst v = .ok vm' ∧ operand s.regs bi source = some src ∧
    (match cls with
      | .alu64 => alu64 op (s.regs i.dst.castSucc) src
      | .alu => alu32 op (s.regs i.dst.castSucc) src) = some (toWord stack v, ax)

theorem computes_alu64 (hag : Agrees stack vm s) (hw : Writes bi i) {v : Val} (hshift : ShiftsBelow vm i)
    (hcode : i.code = .binary .alu64 op source) (h₁ : vm.regs i.dst = some v₁)
    (h₂ : secondOperand vm i source = some v₂) (hv : evaluateAlu64Val op v₁ v₂ = .ok v)
    (hset : vm.regSet i.dst v = .ok vm') : Computes stack vm vm' s bi i .alu64 op source := by
  obtain ⟨ax, hax⟩ := alu64_val stack hv fun hop a ha =>
    hshift .alu64 op source a hcode hop (ha ▸ h₂)
  refine ⟨v, toWord stack v₂, ax, hset, hag.operand hw source h₂, ?_⟩
  rw [hag.regs _ _ h₁]
  exact hax

theorem computes_alu32 (hag : Agrees stack vm s) (hw : Writes bi i) {v₁ v₂ : BitVec 64} (hshift : ShiftsBelow vm i)
    (hcode : i.code = .binary .alu op source) (h₁ : vm.regs i.dst = some (.int v₁))
    (h₂ : secondOperand vm i source = some (.int v₂)) (hv : evaluateAlu32 op v₁ v₂ = .ok v)
    (hset : vm.regSet i.dst (.int v) = .ok vm') :
    Computes stack vm vm' s bi i .alu op source := by
  obtain ⟨ax, hax⟩ := alu32_int hv fun hop => hshift .alu op source v₂ hcode hop h₂
  refine ⟨.int v, v₂, ax, hset, hag.operand hw source h₂, ?_⟩
  rw [hag.regs _ _ h₁]
  exact hax

/-- A register minus itself, or xor itself, which `bpf.rkt` does not read. -/
theorem computes_self (hw : Writes bi i) {cls : AluClass} (hop : op = .sub ∨ op = .xor) (hself : i.dst = i.src)
    (hset : vm.regSet i.dst (.int 0) = .ok vm') :
    Computes stack vm vm' s bi i cls op .x := by
  refine ⟨.int 0, s.regs i.dst.castSucc, none, hset, by rw [operand, hw.src, hself]; rfl, ?_⟩
  rcases hop with rfl | rfl
  · cases cls <;> simp [alu64, alu32, toWord]
  · cases cls <;> simp [alu64, alu32, toWord]

theorem computes_binary (hag : Agrees stack vm s) (hw : Writes bi i) {cls : AluClass} (hshift : ShiftsBelow vm i)
    (hcode : i.code = .binary cls op source) (h : vm.interpretCode i = .ok vm') :
    Computes stack vm vm' s bi i cls op source := by
  rw [Vm.interpretCode, hcode] at h
  by_cases hmov : op = .mov
  · subst hmov
    cases cls with
    | alu64 =>
        cases source with
        | x =>
            obtain ⟨v, hv, hset⟩ := bind_eq_ok.mp h
            exact ⟨v, _, none, hset, hag.operand hw .x (regRef_eq_ok hv), rfl⟩
        | k => exact ⟨_, _, none, h, hag.operand hw .k rfl, rfl⟩
    | alu =>
        cases source with
        | x =>
            obtain ⟨v, hv, hset⟩ := bind_eq_ok.mp h
            exact ⟨_, _, none, hset, hag.operand hw .x (bvRef_eq_ok hv), rfl⟩
        | k =>
            refine ⟨_, _, none, h, hag.operand hw .k rfl, ?_⟩
            simp only [alu32, toWord, setWidth_signExtend]
  · cases cls with
    | alu64 =>
        cases source with
        | k =>
            have h' : (do vm.regSet i.dst (← evaluateAlu64Val op (← vm.regRef i.dst) (.int (i.imm.signExtend 64)))) =
                .ok vm' := by
              cases op <;> first | exact h | exact absurd rfl hmov
            obtain ⟨v₁, h₁, h'⟩ := bind_eq_ok.mp h'
            obtain ⟨v, hv, hset⟩ := bind_eq_ok.mp h'
            exact computes_alu64 hag hw hshift hcode (regRef_eq_ok h₁) rfl hv hset
        | x =>
            have h' : (if (op = .sub ∨ op = .xor) ∧ i.dst = i.src then vm.regSet i.dst (.int 0) else do
                vm.regSet i.dst (← evaluateAlu64Val op (← vm.regRef i.dst) (← vm.regRef i.src))) = .ok vm' := by
              cases op <;> first | exact h | exact absurd rfl hmov
            split_ifs at h' with hself
            · exact computes_self hw hself.1 hself.2 h'
            · obtain ⟨v₁, h₁, h'⟩ := bind_eq_ok.mp h'
              obtain ⟨v₂, h₂, h'⟩ := bind_eq_ok.mp h'
              obtain ⟨v, hv, hset⟩ := bind_eq_ok.mp h'
              exact computes_alu64 hag hw hshift hcode (regRef_eq_ok h₁) (regRef_eq_ok h₂) hv hset
    | alu =>
        cases source with
        | k =>
            have h' : (do vm.regSet i.dst (.int (← evaluateAlu32 op (← vm.bvRef i.dst) i.imm))) = .ok vm' := by
              cases op <;> first | exact h | exact absurd rfl hmov
            obtain ⟨v₁, h₁, h'⟩ := bind_eq_ok.mp h'
            obtain ⟨v, hv, hset⟩ := bind_eq_ok.mp h'
            rw [evaluateAlu32_imm] at hv
            exact computes_alu32 hag hw hshift hcode (bvRef_eq_ok h₁) rfl hv hset
        | x =>
            have h' : (if (op = .sub ∨ op = .xor) ∧ i.dst = i.src then vm.regSet i.dst (.int 0) else do
                vm.regSet i.dst (.int (← evaluateAlu32 op (← vm.bvRef i.dst) (← vm.bvRef i.src)))) = .ok vm' := by
              cases op <;> first | exact h | exact absurd rfl hmov
            split_ifs at h' with hself
            · exact computes_self hw hself.1 hself.2 h'
            · obtain ⟨v₁, h₁, h'⟩ := bind_eq_ok.mp h'
              obtain ⟨v₂, h₂, h'⟩ := bind_eq_ok.mp h'
              obtain ⟨v, hv, hset⟩ := bind_eq_ok.mp h'
              exact computes_alu32 hag hw hshift hcode (bvRef_eq_ok h₁) (bvRef_eq_ok h₂) hv hset

theorem extract_setWidth {n start : Nat} (v : BitVec 64) (h : start + 8 ≤ n) :
    (v.setWidth n).extractLsb' start 8 = v.extractLsb' start 8 := by
  ext k hk
  simp [BitVec.getElem_extractLsb', show start + k < n by omega]

theorem aluEnd_fromBe {u : BitVec 64} {imm : BitVec 32} (h : swapBytes v imm = .ok u) : aluEnd .fromBe imm v = u := by
  simp only [swapBytes] at h
  split_ifs at h with h16 h32 h64
  · cases h
    simp [aluEnd, h16, swab16, extract_setWidth]
  · cases h
    simp [aluEnd, h32, swab32, extract_setWidth]
  · cases h
    simp [aluEnd, h64, swab64]

theorem aluEnd_fromLe {imm : BitVec 32} {n : Nat} (h : endianSize imm = .ok n) :
    aluEnd .fromLe imm v = (v.setWidth (8 * n)).setWidth 64 := by
  unfold endianSize at h
  split_ifs at h with h16 h32 h64
  · cases h
    simp [aluEnd, h16]
  · cases h
    simp [aluEnd, h32]
  · cases h
    simp [aluEnd, h64]

/-- Equality of values is equality of their words, when a pointer compared with 0 is not at address 0. -/
theorem evaluateJeq_word {equal : Bool} (h : evaluateJeq v₁ v₂ = .ok equal)
    (hnull : ∀ offset, v₁ = .ptr offset → v₂ = .int 0 → stack + offset ≠ 0) :
    decide (toWord stack v₁ = toWord stack v₂) = equal := by
  cases v₁ with
  | int a =>
      cases v₂ with
      | int b => exact Except.ok.inj h
      | ptr b => cases h
  | ptr a =>
      cases v₂ with
      | int b =>
          obtain ⟨hzero, h⟩ := bind_bugOn h
          obtain rfl : b = 0 := not_not.mp hzero
          cases h
          exact decide_eq_false (hnull a rfl rfl)
      | ptr b =>
          have hiff : stack + a = stack + b ↔ a = b := BitVec.add_right_inj stack
          rw [← Except.ok.inj h]
          simp only [toWord, hiff]
          rfl

theorem condJmp_val (stack : BitVec 64) {op : JmpOp} {taken : Bool} (h : evaluateCondVal op v₁ v₂ = .ok taken)
    (hnull : op = .jeq ∨ op = .jne → ∀ offset, v₁ = .ptr offset → v₂ = .int 0 → stack + offset ≠ 0) :
    condJmp op (toWord stack v₁) (toWord stack v₂) = taken := by
  by_cases hjeq : op = .jeq
  · subst hjeq
    simpa [condJmp, BitVec.toNat_eq] using evaluateJeq_word h (hnull (.inl rfl))
  · by_cases hjne : op = .jne
    · subst hjne
      obtain ⟨equal, hequal, h⟩ := bind_eq_ok.mp h
      rw [← Except.ok.inj h, ← evaluateJeq_word hequal (hnull (.inr rfl))]
      simp [condJmp, BitVec.toNat_eq]
    · -- every other comparison is one of bitvectors
      have h' : (do return evaluateCond op (← v₁.toBv) (← v₂.toBv)) = Except.ok taken := by
        cases op <;> first | exact h | exact absurd rfl hjeq | exact absurd rfl hjne
      obtain ⟨a, ha, h'⟩ := bind_eq_ok.mp h'
      obtain ⟨b, hb, h'⟩ := bind_eq_ok.mp h'
      cases v₁ with
      | ptr _ => cases ha
      | int v₁ =>
          cases v₂ with
          | ptr _ => cases hb
          | int v₂ =>
              cases ha
              cases hb
              rw [← Except.ok.inj h']
              exact condJmp_eq op _ _

/-- The label of an instruction is the one that its code is written as. -/
theorem selectInsn_eq {c : Code} {code : BitVec 8} (h : symbolToCode c = some code)
    (hneg : ∀ cls source, c ≠ .binary cls .neg source) : selectInsn code = some (.insn c) := by
  cases c with
  | binary cls op source =>
      cases cls <;> cases op <;> cases source <;> cases h <;> first | rfl | exact absurd rfl (hneg _ _)
  | neg cls => cases cls <;> cases h <;> rfl
  | endian order => cases order <;> cases h <;> rfl
  | ja => cases h; rfl
  | jmp op source => cases op <;> cases source <;> cases h <;> rfl

theorem regOf_dst (src dst : Reg) : regOf ((insnOp src ++ insnOp dst).extractLsb' 0 4) = some dst.castSucc := by
  revert src dst
  decide

theorem regOf_src (src dst : Reg) : regOf ((insnOp src ++ insnOp dst).extractLsb' 4 4) = some src.castSucc := by
  revert src dst
  decide

/-- The operation of a binary instruction is not `BPF_NEG`. -/
theorem interpretCode_ne_neg (hag : Agrees stack vm s) (hw : Writes bi i) (hshift : ShiftsBelow vm i)
    (h : vm.interpretCode i = .ok vm') (cls : AluClass) (source : Source) : i.code ≠ .binary cls .neg source := by
  intro hcode
  obtain ⟨v, src, ax, -, -, hcomp⟩ := computes_binary hag hw hshift hcode h
  cases cls <;> cases hcomp

theorem jump_target (pc off : BitVec 64) : pc + off + 1 = 1 + (off + pc) := by
  rw [BitVec.add_comm, BitVec.add_comm pc]

/-- An instruction that `bpf.rkt` interprets is executed in C at its label, to the same effect. -/
theorem execute_insn (hag : Agrees stack vm s) (hw : Writes bi i) (hshift : ShiftsBelow vm i)
    (hnull : NotNull stack vm i) (h : vm.interpretCode i = .ok vm') :
    ∃ s', execute enc s bi (.insn i.code) = some (.inl s') ∧ Agrees stack (vm'.next 1) s' := by
  cases hcode : i.code with
  | binary cls op source =>
      obtain ⟨v, src, ax, hset, hsrc, hcomp⟩ := computes_binary hag hw hshift hcode h
      refine ⟨s.write i.dst.castSucc (toWord stack v, ax), ?_, hag.write hset ax⟩
      simp only [execute, hw.dst, hsrc]
      cases cls <;> simp_all
  | neg cls =>
      rw [Vm.interpretCode, hcode] at h
      cases cls with
      | alu64 | alu =>
          obtain ⟨v, hv, hset⟩ := bind_eq_ok.mp h
          refine ⟨_, ?_, hag.write hset none⟩
          simp [execute, hw.dst, hag.regs _ _ (bvRef_eq_ok hv), toWord]
  | endian order =>
      rw [Vm.interpretCode, hcode] at h
      cases order with
      | fromBe =>
          obtain ⟨v, hv, h⟩ := bind_eq_ok.mp h
          obtain ⟨u, hu, hset⟩ := bind_eq_ok.mp h
          refine ⟨_, ?_, hag.write hset none⟩
          simp [execute, hw.dst, hag.regs _ _ (bvRef_eq_ok hv), toWord, hw.imm, aluEnd_fromBe hu]
      | fromLe =>
          obtain ⟨size, hsize, h⟩ := bind_eq_ok.mp h
          obtain ⟨v, hv, hset⟩ := bind_eq_ok.mp h
          refine ⟨_, ?_, hag.write hset none⟩
          simp [execute, hw.dst, hag.regs _ _ (bvRef_eq_ok hv), toWord, hw.imm, aluEnd_fromLe hsize]
  | ja =>
      rw [Vm.interpretCode, hcode] at h
      cases h
      refine ⟨_, rfl, ?_, hag.regs⟩
      rw [hag.insn, hw.off]
      exact jump_target ..
  | jmp op source =>
      rw [Vm.interpretCode, hcode] at h
      obtain ⟨v₁, h₁, h⟩ := bind_eq_ok.mp h
      obtain ⟨v₂, hsecond, h⟩ : ∃ v₂, secondOperand vm i source = some v₂ ∧
          (do return if (← evaluateCondVal op v₁ v₂) then vm.next (i.off.signExtend 64) else vm) = .ok vm' := by
        cases source with
        | x =>
            obtain ⟨v₂, h₂, h⟩ := bind_eq_ok.mp h
            exact ⟨v₂, regRef_eq_ok h₂, h⟩
        | k => exact ⟨_, rfl, h⟩
      obtain ⟨taken, htaken, h⟩ := bind_eq_ok.mp h
      cases h
      have hcond := condJmp_val stack htaken fun hop offset hptr hzero =>
        hnull op source offset hcode hop (hptr ▸ regRef_eq_ok h₁) (hzero ▸ hsecond)
      refine ⟨{ s with insn := if taken then s.insn + i.off.signExtend 64 + 1 else s.insn + 1 }, ?_, ?_, ?_⟩
      · simp [execute, hw.dst, hw.off, hag.operand hw source hsecond, hag.regs _ _ (regRef_eq_ok h₁), hcond]
      · rw [hag.insn]
        cases taken with
        | true => exact jump_target ..
        | false => exact BitVec.add_comm ..
      · cases taken <;> exact hag.regs

end Steps

/-! ## Whole programs -/

/-- A comparison that `decode` does not know. -/
def LessThan (op : JmpOp) : Prop :=
  op = .jlt ∨ op = .jle ∨ op = .jslt ∨ op = .jsle

section Programs

variable {stack : BitVec 64} {vm vm' : Vm} {s : State} {prog : List Slot} {enc : List BpfInsn} {regs : Regs}

theorem decode_eq_none {op : JmpOp} : decode op = none ↔ LessThan op := by
  cases op <;> simp [decode, LessThan]

theorem progUpdateOne_eq_none {slot : Slot} :
    progUpdateOne slot = none ↔ ∃ i op source, slot = .insn i ∧ i.code = .jmp op source ∧ LessThan op := by
  cases slot with
  | insn i =>
      cases hcode : i.code <;>
        simp [progUpdateOne, symbolToCode, hcode, decode_eq_none]
  | ldImm64 dst src lower => simp [progUpdateOne]
  | upper imm => simp [progUpdateOne]
  | exit => simp [progUpdateOne]

/-- A program can be written when each of its slots can. -/
theorem exists_progUpdate_iff (prog : List Slot) :
    (∃ enc, progUpdate prog = some enc) ↔ ∀ slot ∈ prog, progUpdateOne slot ≠ none := by
  induction prog with
  | nil => simp [progUpdate]
  | cons slot prog ih =>
      rw [List.forall_mem_cons, ← ih]
      cases hslot : progUpdateOne slot <;> cases hrest : progUpdate prog <;> simp [progUpdate, hslot, hrest]

/-- A slot is written at its own place. -/
theorem progUpdate_getElem? (henc : progUpdate prog = some enc) {k : Nat} {slot : Slot}
    (hslot : prog[k]? = some slot) : ∃ bi, progUpdateOne slot = some bi ∧ enc[k]? = some bi := by
  induction prog generalizing enc k with
  | nil => simp at hslot
  | cons first prog ih =>
      obtain ⟨bi, hbi, henc⟩ := Option.bind_eq_some_iff.mp henc
      obtain ⟨rest, hrest, rfl⟩ := Option.map_eq_some_iff.mp henc
      cases k with
      | zero =>
          cases hslot
          exact ⟨bi, hbi, rfl⟩
      | succ k => exact ih hrest hslot

/-- What a step must meet: no shift by the width or more, and no pointer at address 0 that is compared with 0. -/
def Meets (stack : BitVec 64) (prog : List Slot) (vm : Vm) : Prop :=
  ∀ i, prog[vm.pc.toNat]? = some (.insn i) → ShiftsBelow vm i ∧ NotNull stack vm i

theorem step_eq_execute {bi : BpfInsn} {label : Label} (hfetch : enc[s.insn.toNat]? = some bi)
    (hlabel : selectInsn bi.code = some label) : step enc s = execute enc s bi label := by
  simp only [step, hfetch, bind, Option.bind_some, hlabel]

theorem step_next (henc : progUpdate prog = some enc) (hag : Agrees stack vm s) (hmeets : Meets stack prog vm)
    (h : stepProgram prog vm = .ok (.next vm')) : ∃ s', step enc s = some (.inl s') ∧ Agrees stack vm' s' := by
  unfold stepProgram at h
  cases hslot : prog[vm.pc.toNat]? with
  | none => rw [hslot] at h; cases h
  | some slot =>
      rw [hslot] at h
      obtain ⟨bi, hbi, hfetch⟩ := progUpdate_getElem? henc hslot
      rw [← hag.insn] at hfetch
      cases slot with
      | upper imm => cases h
      | exit =>
          obtain ⟨v, -, h⟩ := bind_eq_ok.mp h
          cases h
      | insn i =>
          obtain ⟨vm₁, h₁, h⟩ := bind_eq_ok.mp h
          cases h
          obtain ⟨code, hcode, rfl⟩ := Option.map_eq_some_iff.mp hbi
          have hw : Writes ⟨code, insnOp i.src ++ insnOp i.dst, i.off, i.imm⟩ i :=
            ⟨regOf_dst _ _, regOf_src _ _, rfl, rfl⟩
          obtain ⟨hshift, hnull⟩ := hmeets i hslot
          have hlabel := selectInsn_eq hcode (interpretCode_ne_neg hag hw hshift h₁)
          obtain ⟨s', hs', hag'⟩ := execute_insn hag hw hshift hnull h₁
          exact ⟨s', (step_eq_execute hfetch hlabel).trans hs', hag'⟩
      | ldImm64 dst src lower =>
          cases hbi
          dsimp only at h
          cases hupper : prog[(vm.pc + 1).toNat]? with
          | none => rw [hupper] at h; cases h
          | some second =>
              rw [hupper] at h
              cases second with
              | upper upper =>
                  obtain ⟨vm₁, hset, h⟩ := bind_eq_ok.mp h
                  cases h
                  obtain ⟨bi₁, hbi₁, hfetch₁⟩ := progUpdate_getElem? henc hupper
                  cases hbi₁
                  rw [← hag.insn] at hfetch₁
                  have hdst : BpfInsn.dstReg ⟨BPF_LD ||| BPF_DW ||| BPF_IMM, insnOp src ++ insnOp dst, 0, lower⟩ =
                      some dst.castSucc := regOf_dst src dst
                  have hlabel : selectInsn (BPF_LD ||| BPF_DW ||| BPF_IMM) = some .ldImmDw := rfl
                  refine ⟨_, (step_eq_execute hfetch hlabel).trans ?_, (hag.write hset none).next⟩
                  simp only [execute, hdst, hfetch₁, bind, Option.bind_some]
                  rfl
              | insn i => cases h
              | ldImm64 dst src lower => cases h
              | exit => cases h

theorem step_exit (henc : progUpdate prog = some enc) (hag : Agrees stack vm s) {v : BitVec 32}
    (h : stepProgram prog vm = .ok (.exit v)) : ∃ r0, step enc s = some (.inr r0) ∧ r0.setWidth 32 = v := by
  unfold stepProgram at h
  cases hslot : prog[vm.pc.toNat]? with
  | none => rw [hslot] at h; cases h
  | some slot =>
      rw [hslot] at h
      cases slot with
      | exit =>
          obtain ⟨u, hu, h⟩ := bind_eq_ok.mp h
          cases h
          obtain ⟨bi, hbi, hfetch⟩ := progUpdate_getElem? henc hslot
          cases hbi
          rw [← hag.insn] at hfetch
          refine ⟨s.regs 0, step_eq_execute hfetch rfl, ?_⟩
          rw [show s.regs 0 = u from hag.regs 0 _ (bvRef_eq_ok hu)]
      | upper imm => cases h
      | insn i =>
          obtain ⟨_, -, h⟩ := bind_eq_ok.mp h
          cases h
      | ldImm64 dst src lower =>
          dsimp only at h
          split at h
          · obtain ⟨_, -, h⟩ := bind_eq_ok.mp h
            cases h
          · cases h

theorem progRun_of_interpretProgram (henc : progUpdate prog = some enc) (n : Nat) {v : BitVec 32}
    (hag : Agrees stack vm s) (hmeets : ∀ vm', Visits prog vm vm' → Meets stack prog vm')
    (h : Vm.interpretProgram prog n vm = some (.ok v)) :
    ∃ k₀, ∀ k ≥ k₀, (progRun enc k s).map (fun r0 => r0.setWidth 32) = some v := by
  induction n generalizing vm s with
  | zero => cases h
  | succ n ih =>
      rw [Vm.interpretProgram] at h
      cases hstep : stepProgram prog vm with
      | error b => rw [hstep] at h; cases h
      | ok outcome =>
          rw [hstep] at h
          cases outcome with
          | exit result =>
              cases h
              obtain ⟨r0, hr0, hresult⟩ := step_exit henc hag hstep
              refine ⟨1, fun k hk => ?_⟩
              obtain ⟨k, rfl⟩ : ∃ k', k = k' + 1 := ⟨k - 1, by omega⟩
              simp [progRun, hr0, hresult]
          | next vm' =>
              obtain ⟨s', hs', hag'⟩ := step_next henc hag (hmeets vm .refl) hstep
              obtain ⟨k₀, hk₀⟩ := ih hag' (fun vm'' hvisits => hmeets vm'' (.head hstep hvisits)) h
              refine ⟨k₀ + 1, fun k hk => ?_⟩
              obtain ⟨k, rfl⟩ : ∃ k', k = k' + 1 := ⟨k - 1, by omega⟩
              rw [progRun, hs']
              exact hk₀ k (by omega)

/-- The registers that `bpf.rkt` starts with: integers, and the end of the stack in R10. -/
def initialVm (regs : Regs) : Vm :=
  ⟨0, fun r => if r = BPF_REG_FP then some (.ptr 512) else some (.int (regs r.castSucc))⟩

theorem initialVm_agrees (stack : BitVec 64) (regs : Regs) :
    Agrees stack (initialVm regs) ⟨Function.update (Function.update regs 10 (stack + 512)) 1 (regs 1), 0⟩ := by
  refine ⟨rfl, fun r v hv => ?_⟩
  by_cases hfp : r = BPF_REG_FP
  · subst hfp
    cases hv
    rfl
  · have hv' : Val.int (regs r.castSucc) = v := by simpa [initialVm, hfp] using hv
    subst hv'
    have hne : r.castSucc ≠ 10 := fun h => hfp (Fin.castSucc_inj.mp h)
    by_cases hone : r.castSucc = 1
    · simp [hone, toWord]
    · simp [hone, hne, toWord]

/-- A program that `bpf.rkt` runs to `BPF_EXIT` is run by `kbpf.c` to the same result, when it can be written. -/
theorem bpfProgRun_iff (prog : List Slot) (stack : BitVec 64) (regs : Regs) (n : Nat) (v : BitVec 32)
    (hrun : Vm.interpretProgram prog n (initialVm regs) = some (.ok v))
    (hsteps : ∀ vm, Visits prog (initialVm regs) vm → Meets stack prog vm) :
    (∃ enc, progUpdate prog = some enc ∧ ∃ k₀, ∀ k ≥ k₀, bpfProgRun (regs 1) stack regs enc k = some v) ↔
      ∀ i op source, .insn i ∈ prog → i.code = .jmp op source → ¬ LessThan op := by
  have hwritten : (∃ enc, progUpdate prog = some enc) ↔
      ∀ i op source, .insn i ∈ prog → i.code = .jmp op source → ¬ LessThan op := by
    rw [exists_progUpdate_iff]
    constructor
    · intro h i op source hmem hcode hless
      exact h _ hmem (progUpdateOne_eq_none.mpr ⟨i, op, source, rfl, hcode, hless⟩)
    · intro h slot hmem hnone
      obtain ⟨i, op, source, rfl, hcode, hless⟩ := progUpdateOne_eq_none.mp hnone
      exact h i op source hmem hcode hless
  rw [← hwritten]
  constructor
  · rintro ⟨enc, henc, -⟩
    exact ⟨enc, henc⟩
  · rintro ⟨enc, henc⟩
    exact ⟨enc, henc, progRun_of_interpretProgram henc n (initialVm_agrees stack regs) hsteps hrun⟩

/-- A program that counts down from 3. -/
def countdown : List Slot :=
  [.ldImm64 0 0 3, .upper 0, .insn ⟨.binary .alu64 .sub .k, 0, 0, 0, 1⟩, .insn ⟨.jmp .jgt .k, 0, 0, -2, 0⟩, .exit]

theorem countdown_meets (stack : BitVec 64) (vm : Vm) : Meets stack countdown vm := by
  intro i hi
  have hmem := List.mem_of_getElem? hi
  simp only [countdown, List.mem_cons, Slot.insn.injEq, reduceCtorEq, false_or, List.not_mem_nil, or_false] at hmem
  rcases hmem with rfl | rfl
  · refine ⟨?_, ?_⟩
    · rintro _ _ _ _ ⟨⟩ (h | h | h) <;> cases h
    · rintro _ _ _ ⟨⟩
  · refine ⟨?_, ?_⟩
    · rintro _ _ _ _ ⟨⟩
    · rintro _ _ _ ⟨⟩ (h | h) <;> cases h

theorem bpfProgRun_countdown :
    ∃ enc, progUpdate countdown = some enc ∧
      ∃ k₀, ∀ k ≥ k₀, bpfProgRun 7 0x1000 (fun _ => 7) enc k = some 0 := by
  refine (bpfProgRun_iff countdown 0x1000 (fun _ => 7) 10 0 rfl fun vm _ => countdown_meets _ vm).mpr ?_
  intro i op source hmem hcode
  simp only [countdown, List.mem_cons, Slot.insn.injEq, reduceCtorEq, false_or, List.not_mem_nil, or_false] at hmem
  rcases hmem with rfl | rfl
  · cases hcode
  · cases hcode
    rintro (h | h | h | h) <;> cases h

-- `if R10 == 0 goto +2; R0 = 0; exit; R0 = 1; exit`, on a stack that ends at address 0
example :
    let prog : List Slot := [.insn ⟨.jmp .jeq .k, 10, 0, 2, 0⟩, .insn ⟨.binary .alu64 .mov .k, 0, 0, 0, 0⟩, .exit,
      .insn ⟨.binary .alu64 .mov .k, 0, 0, 0, 1⟩, .exit]
    Vm.interpretProgram prog 3 (initialVm fun _ => 0) = some (.ok 0) ∧
      (progUpdate prog).bind (fun enc => bpfProgRun 0 (-512) (fun _ => 0) enc 3) = some 1 :=
  ⟨rfl, rfl⟩

/-- `R0 = 0; if R0 < 1 goto +0; exit` returns in `bpf.rkt`, and cannot be written. -/
theorem jlt_is_not_written :
    ∃ prog : List Slot, Vm.interpretProgram prog 3 (initialVm fun _ => 0) = some (.ok 0) ∧
      (∀ vm i, Visits prog (initialVm fun _ => 0) vm → prog[vm.pc.toNat]? = some (.insn i) → ShiftsBelow vm i) ∧
      ¬ ∃ enc, progUpdate prog = some enc := by
  refine ⟨[.insn ⟨.binary .alu64 .mov .k, 0, 0, 0, 0⟩, .insn ⟨.jmp .jlt .k, 0, 0, 0, 1⟩, .exit], rfl, ?_, ?_⟩
  · intro vm i _ hi
    have hmem := List.mem_of_getElem? hi
    simp only [List.mem_cons, Slot.insn.injEq, reduceCtorEq, List.not_mem_nil, or_false] at hmem
    rcases hmem with rfl | rfl
    · rintro _ _ _ _ ⟨⟩ (h | h | h) <;> cases h
    · rintro _ _ _ _ ⟨⟩
  · rintro ⟨enc, henc⟩
    cases henc

end Programs

end Kbpf
end Bpf
end Serval
