import Serval.Lib.Fragment
import Serval.Riscv.Cpu

/-!
# Interp — the interpreter of `serval/riscv/interp.rkt`

An instruction is an opcode with optional operands, as the decoder and the code generators build it;
an operand that is missing, or an immediate of the wrong width, is a bug when the instruction is
interpreted.  The program is a map from addresses to instructions.  The interpreter stops at `mret`,
and also at an address without an instruction.
-/

namespace Serval
namespace Riscv
namespace Interp

open Serval.Core

/-- Opcodes; the last group is known to the encoder but has no semantics. -/
inductive Op
  | nop | wfi | sfenceVma | fenceI | fence | ecall | ebreak | mret
  | auipc | lui | sltiu | sltu
  | addiw | slliw | srliw | sraiw
  | jal | jalr
  | ld | ldu | lw | lwu | lh | lhu | lb | lbu
  | sd | sw | sh | sb
  | csrrw | csrrs | csrrc | csrrwi | csrrsi | csrrci
  | bge | blt | bgeu | bltu | bne | beq
  | addi | subi | muli | ori | andi | xori | srli | srai | slli
  | add | sub | or | and | xor | srl | sra | sll | mul | div | rem | divu | remu
  | mulh | mulhu | mulhsu
  | addw | subw | sllw | srlw | sraw | mulw | divw | remw | divuw | remuw
  | slt | slti | unimp | cUnimp
  deriving DecidableEq, Repr

/-- A source operand: a general register, or the CSR of a CSR instruction. -/
inductive Operand
  | gpr (g : Reg)
  | csr (c : CsrName)
  deriving DecidableEq, Repr

/-- `instr`. -/
structure Instr where
  op : Op
  dst : Option Reg
  src1 : Option Operand
  src2 : Option Reg
  imm : Option Bv
  size : Nat
  deriving DecidableEq

namespace Instr

def dstReg (i : Instr) : Except Bug Reg :=
  match i.dst with
  | some g => .ok g
  | none => .error .noSuchGpr

theorem dstReg_eq_ok {i : Instr} {g : Reg} : i.dstReg = .ok g ↔ i.dst = some g := by
  cases h : i.dst with
  | none => simp [dstReg, h]
  | some d => simp [dstReg, h]

def src1Reg (i : Instr) : Except Bug Reg :=
  match i.src1 with
  | some (.gpr g) => .ok g
  | _ => .error .noSuchGpr

def src1Csr (i : Instr) : Except Bug CsrName :=
  match i.src1 with
  | some (.csr c) => .ok c
  | _ => .error .unknownCsr

def src2Reg (i : Instr) : Except Bug Reg :=
  match i.src2 with
  | some g => .ok g
  | none => .error .noSuchGpr

/-- `check-imm-size`. -/
def immOfSize (i : Instr) (size : Nat) : Except Bug Bv :=
  match i.imm with
  | some imm => if imm.width = size then .ok imm else .error .badImmSize
  | none => .error .badImmSize

end Instr

/-! ## Memory operands -/

/-- `memop->size`. -/
def memopSize : Op → Except Bug Nat
  | .lb | .lbu | .sb => .ok 1
  | .lh | .lhu | .sh => .ok 2
  | .lw | .lwu | .sw => .ok 4
  | .ld | .ldu | .sd => .ok 8
  | _ => .error .noSuchMemop

/-- `load-signed?`. -/
def loadSigned : Op → Except Bug Bool
  | .lb | .lh | .lw | .ld => .ok true
  | .lbu | .lhu | .lwu | .ldu => .ok false
  | _ => .error .noSuchMemop

section Semantics

variable {xlen : Nat}

/-- `resolve-mem-path`: the position of the region, the region, and the path in its block. -/
def resolveMemPath (cpu : Cpu xlen) (op : Op) (reg : Reg) (off : Bv) :
    Except Bug (Nat × MRegion xlen × Path xlen) :=
  match guessMregionFromAddr cpu.mregions (cpu.gprRef reg) off with
  | none => .error .noMregion
  | some k =>
      match cpu.mregions[k]? with
      | none => .error .noMregion
      | some mr => do
          let addr := off.val.signExtend xlen + cpu.gprRef reg
          let size := BitVec.ofNat xlen (← memopSize op)
          let offset := addr - BitVec.ofNat xlen mr.start
          bugOn (¬ mr.inbounds addr size) .addressOutOfRange
          let path ← mr.block.path offset size
          return (k, mr, path)

theorem resolveMemPath_eq {cpu : Cpu xlen} {op : Op} {reg : Reg} {off : Bv} {k size : Nat}
    {mr : MRegion xlen} {path : Path xlen}
    (hguess : guessMregionFromAddr cpu.mregions (cpu.gprRef reg) off = some k)
    (hmr : cpu.mregions[k]? = some mr) (hop : memopSize op = .ok size)
    (hin : mr.inbounds (off.val.signExtend xlen + cpu.gprRef reg) (BitVec.ofNat xlen size))
    (hpath : mr.block.path (off.val.signExtend xlen + cpu.gprRef reg - BitVec.ofNat xlen mr.start)
      (BitVec.ofNat xlen size) = .ok path) :
    resolveMemPath cpu op reg off = .ok (k, mr, path) := by
  rw [resolveMemPath, hguess]
  simp only [hmr, hop, hpath, ok_bind]
  rw [bugOn_of_not (not_not_intro hin)]
  rfl

/-- `sign-extend` or `zero-extend` of a loaded value, which must not be too wide. -/
def extendLoad (signed : Bool) (v : Bv) : Except Bug (BitVec xlen) := do
  bugOn (xlen < v.width) .badWidth
  return if signed then v.val.signExtend xlen else v.val.setWidth xlen

/-! ## Arithmetic -/

/-- `evaluate-binary-conditional`. -/
def evaluateBinaryConditional (op : Op) (v1 v2 : BitVec xlen) : Except Bug Bool :=
  match op with
  | .bge => .ok (v2.sle v1)
  | .blt => .ok (v1.slt v2)
  | .bgeu => .ok (v2.ule v1)
  | .bltu => .ok (v1.ult v2)
  | .bne => .ok (v1 != v2)
  | .beq => .ok (v1 == v2)
  | _ => .error .noSuchConditional

/-- The shift amount: the value modulo the width, which is a power of two. -/
def shiftMask (v : BitVec xlen) : BitVec xlen :=
  BitVec.ofNat xlen (xlen - 1) &&& v

/-- `evaluate-binary-op`. -/
def evaluateBinaryOp (op : Op) (v1 v2 : BitVec xlen) : Except Bug (BitVec xlen) :=
  match op with
  | .addi | .addw | .add => .ok (v1 + v2)
  | .subi | .subw | .sub => .ok (v1 - v2)
  | .ori | .or => .ok (v1 ||| v2)
  | .andi | .and => .ok (v1 &&& v2)
  | .xori | .xor => .ok (v1 ^^^ v2)
  | .slliw | .slli | .sllw | .sll => .ok (v1 <<< shiftMask v2)
  | .srliw | .srli | .srlw | .srl => .ok (v1 >>> shiftMask v2)
  | .sraiw | .srai | .sraw | .sra => .ok (v1.sshiftRight' (shiftMask v2))
  | .muli | .mulw | .mul => .ok (v1 * v2)
  | .divw | .div => .ok (if v2 = 0 then -1 else v1.sdiv v2)
  | .remw | .rem => .ok (if v2 = 0 then v1 else v1.srem v2)
  | .divuw | .divu => .ok (v1.smtUDiv v2)
  | .remuw | .remu => .ok (v1 % v2)
  | _ => .error .noSuchBinop

/-- `jump-and-link`; the offset counts pairs of bytes. -/
def jumpAndLink (cpu : Cpu xlen) (reg : Reg) (addr : Bv) (size : Nat) : Cpu xlen :=
  { cpu.gprSet reg (BitVec.ofNat xlen size + cpu.pc) with
    pc := cpu.pc + addr.val.signExtend xlen <<< (1 : BitVec xlen) }

/-- `do-csr-op`. -/
def doCsrOp (cpu : Cpu xlen) (op : Op) (dst : Reg) (csr : CsrName) (value : BitVec xlen) :
    Except Bug (Cpu xlen) := do
  let cpu ← if dst = 0 then pure cpu else do pure (cpu.gprSet dst (← cpu.csrRef csr))
  match op with
  | .csrrw | .csrrwi => cpu.csrSet csr value
  | .csrrs | .csrrsi => do cpu.csrSet csr ((← cpu.csrRef csr) ||| value)
  | .csrrc | .csrrci => do cpu.csrSet csr ((← cpu.csrRef csr) &&& ~~~value)
  | _ => .ok cpu

/-! ## Instructions -/

/-- The widened operands and the high half of the product, for `mulh`, `mulhu` and `mulhsu`. -/
def mulHighOp (signed1 signed2 : Bool) (v1 v2 : BitVec xlen) : BitVec xlen :=
  let extend (signed : Bool) (v : BitVec xlen) : BitVec (2 * xlen) :=
    if signed then v.signExtend (2 * xlen) else v.setWidth (2 * xlen)
  (extend signed1 v1 * extend signed2 v2).extractLsb' xlen xlen

/-- `interpret-instr`. -/
def interpretInstr (cpu : Cpu xlen) (i : Instr) : Except Bug (Cpu xlen) :=
  match i.op with
  | .nop | .wfi | .sfenceVma | .fenceI | .fence | .ecall | .ebreak => .ok (cpu.next i.size)
  | .auipc => do
      let imm ← i.immOfSize 20
      let v := (imm.val ++ 0#12).signExtend xlen + cpu.pc
      return (cpu.gprSet (← i.dstReg) v).next i.size
  | .lui => do
      let imm ← i.immOfSize 20
      return (cpu.gprSet (← i.dstReg) ((imm.val ++ 0#12).signExtend xlen)).next i.size
  | .sltiu => do
      let imm ← i.immOfSize 12
      let v := if cpu.gprRef (← i.src1Reg) < imm.val.signExtend xlen then 1 else 0
      return (cpu.gprSet (← i.dstReg) v).next i.size
  | .sltu => do
      let v := if cpu.gprRef (← i.src1Reg) < cpu.gprRef (← i.src2Reg) then 1 else 0
      return (cpu.gprSet (← i.dstReg) v).next i.size
  | .addiw => do
      let imm ← i.immOfSize 12
      bugOn (xlen ≠ 64) .wrongXlen
      let v := (cpu.gprRef (← i.src1Reg)).setWidth 32 + imm.val.signExtend 32
      return (cpu.gprSet (← i.dstReg) (v.signExtend xlen)).next i.size
  | .slliw | .srliw | .sraiw => do
      let imm ← i.immOfSize 12
      bugOn (xlen ≠ 64) .wrongXlen
      let v ← evaluateBinaryOp i.op ((cpu.gprRef (← i.src1Reg)).setWidth 32)
        (imm.val.signExtend 32 &&& 0b11111#32)
      return (cpu.gprSet (← i.dstReg) (v.signExtend xlen)).next i.size
  | .jal => do
      let imm ← i.immOfSize 20
      return jumpAndLink cpu (← i.dstReg) imm i.size
  | .jalr => do
      let imm ← i.immOfSize 12
      -- the link register is written first: the target is computed from the new registers
      let cpu := cpu.gprSet (← i.dstReg) (BitVec.ofNat xlen i.size + cpu.pc)
      let target := ~~~(1 : BitVec xlen) &&& (cpu.gprRef (← i.src1Reg) + imm.val.signExtend xlen)
      return { cpu with pc := target }
  | .ld | .ldu | .lw | .lwu | .lh | .lhu | .lb | .lbu => do
      let imm ← i.immOfSize 12
      let (_, mr, path) ← resolveMemPath cpu i.op (← i.src1Reg) imm
      let v ← extendLoad (← loadSigned i.op) (← mr.block.iload path)
      return (cpu.gprSet (← i.dstReg) v).next i.size
  | .sd | .sw | .sh | .sb => do
      let imm ← i.immOfSize 12
      let (k, mr, path) ← resolveMemPath cpu i.op (← i.src1Reg) imm
      let width := 8 * (← memopSize i.op)
      bugOn (xlen < width) .badWidth
      let block ← mr.block.istore ⟨width, (cpu.gprRef (← i.src2Reg)).setWidth width⟩ path
      let stored := { cpu with mregions := cpu.mregions.set k { mr with block := block } }
      return stored.next i.size
  | .csrrw | .csrrs | .csrrc => do
      let cpu ← doCsrOp cpu i.op (← i.dstReg) (← i.src1Csr) (cpu.gprRef (← i.src2Reg))
      return cpu.next i.size
  | .csrrwi | .csrrsi | .csrrci => do
      let imm ← i.immOfSize 5
      let cpu ← doCsrOp cpu i.op (← i.dstReg) (← i.src1Csr) (imm.val.setWidth xlen)
      return cpu.next i.size
  | .bge | .blt | .bgeu | .bltu | .bne | .beq => do
      let imm ← i.immOfSize 12
      if ← evaluateBinaryConditional i.op (cpu.gprRef (← i.src1Reg)) (cpu.gprRef (← i.src2Reg)) then
        return jumpAndLink cpu 0 imm i.size
      else
        return cpu.next i.size
  | .addi | .subi | .muli | .ori | .andi | .xori | .srli | .srai | .slli => do
      let imm ← i.immOfSize 12
      let v ← evaluateBinaryOp i.op (cpu.gprRef (← i.src1Reg)) (imm.val.signExtend xlen)
      return (cpu.gprSet (← i.dstReg) v).next i.size
  | .add | .sub | .or | .and | .xor | .srl | .sra | .sll | .mul | .div | .rem | .divu | .remu => do
      let v ← evaluateBinaryOp i.op (cpu.gprRef (← i.src1Reg)) (cpu.gprRef (← i.src2Reg))
      return (cpu.gprSet (← i.dstReg) v).next i.size
  | .mulh => do
      let v := mulHighOp true true (cpu.gprRef (← i.src1Reg)) (cpu.gprRef (← i.src2Reg))
      return (cpu.gprSet (← i.dstReg) v).next i.size
  | .mulhu => do
      let v := mulHighOp false false (cpu.gprRef (← i.src1Reg)) (cpu.gprRef (← i.src2Reg))
      return (cpu.gprSet (← i.dstReg) v).next i.size
  | .mulhsu => do
      let v := mulHighOp true false (cpu.gprRef (← i.src1Reg)) (cpu.gprRef (← i.src2Reg))
      return (cpu.gprSet (← i.dstReg) v).next i.size
  | .addw | .subw | .sllw | .srlw | .sraw | .mulw | .divw | .remw | .divuw | .remuw => do
      bugOn (xlen ≠ 64) .wrongXlen
      let v ← evaluateBinaryOp i.op ((cpu.gprRef (← i.src1Reg)).setWidth 32)
        ((cpu.gprRef (← i.src2Reg)).setWidth 32)
      return (cpu.gprSet (← i.dstReg) (v.signExtend xlen)).next i.size
  | .mret | .slt | .slti | .unimp | .cUnimp => .error .noSemantics

theorem interpretInstr_sw {cpu : Cpu xlen} {rs1 rs2 : Reg} {imm : BitVec 12} {n k : Nat}
    {mr : MRegion xlen} {path : Path xlen} {block : MBlock xlen} (hxlen : 32 ≤ xlen)
    (hpath : resolveMemPath cpu .sw rs1 ⟨12, imm⟩ = .ok (k, mr, path))
    (hstore : mr.block.istore ⟨32, (cpu.gprRef rs2).setWidth 32⟩ path = .ok block) :
    interpretInstr cpu ⟨.sw, none, some (.gpr rs1), some rs2, some ⟨12, imm⟩, n⟩ =
      .ok ({ cpu with mregions := cpu.mregions.set k { mr with block := block } }.next n) := by
  have hwidth : bugOn (xlen < 32) .badWidth = .ok () := bugOn_of_not (by omega) _
  simp only [interpretInstr, Instr.immOfSize, Instr.src1Reg, Instr.src2Reg, if_true, ok_bind, hpath,
    memopSize]
  rw [show bugOn (xlen < 8 * 4) .badWidth = .ok () from hwidth]
  simp only [ok_bind]
  rw [show mr.block.istore ⟨8 * 4, (cpu.gprRef rs2).setWidth (8 * 4)⟩ path = .ok block from hstore]
  rfl

/-! ## What an instruction leaves alone -/

/-- All registers but the listed ones, and the memory, are as before. -/
structure SameBut (gs : List Reg) (cpu cpu' : Cpu xlen) : Prop where
  gpr : ∀ g, g ∉ gs → cpu'.gprRef g = cpu.gprRef g
  memory : cpu'.mregions = cpu.mregions

theorem SameBut.refl (gs : List Reg) (cpu : Cpu xlen) : SameBut gs cpu cpu :=
  ⟨fun _ _ => rfl, rfl⟩

theorem SameBut.trans {gs : List Reg} {cpu cpu₁ cpu₂ : Cpu xlen} (h₁ : SameBut gs cpu cpu₁)
    (h₂ : SameBut gs cpu₁ cpu₂) : SameBut gs cpu cpu₂ where
  gpr g hg := (h₂.gpr g hg).trans (h₁.gpr g hg)
  memory := h₂.memory.trans h₁.memory

theorem SameBut.mono {gs hs : List Reg} {cpu cpu' : Cpu xlen} (h : SameBut gs cpu cpu')
    (hsub : gs ⊆ hs) : SameBut hs cpu cpu' where
  gpr g hg := h.gpr g fun hmem => hg (hsub hmem)
  memory := h.memory

theorem SameBut.gprSet {gs : List Reg} {cpu : Cpu xlen} {d : Reg} (hd : d = 0 ∨ d ∈ gs)
    (v : BitVec xlen) : SameBut gs cpu (cpu.gprSet d v) where
  gpr g hg := by
    rw [Cpu.gprRef_gprSet, if_neg]
    rintro ⟨rfl, hzero⟩
    exact hd.elim hzero hg
  memory := Cpu.gprSet_mregions ..

theorem SameBut.setPc {gs : List Reg} {cpu cpu' : Cpu xlen} (h : SameBut gs cpu cpu')
    (pc : BitVec xlen) : SameBut gs cpu { cpu' with pc := pc } :=
  ⟨h.gpr, h.memory⟩

/-- Stores and operations on CSRs. -/
def Op.hasEffect : Op → Bool
  | .sd | .sw | .sh | .sb | .csrrw | .csrrs | .csrrc | .csrrwi | .csrrsi | .csrrci => true
  | _ => false

/-- Every other instruction changes only its destination and the program counter. -/
theorem interpretInstr_same {cpu cpu' : Cpu xlen} {i : Instr} (h : interpretInstr cpu i = .ok cpu')
    (hop : i.op.hasEffect = false) : SameBut i.dst.toList cpu cpu' := by
  have hwrite : ∀ {d} v, i.dst = some d → SameBut i.dst.toList cpu (cpu.gprSet d v) := fun v hd =>
    SameBut.gprSet (.inr (by simp [hd])) v
  cases heq : i.op <;>
    simp only [interpretInstr, heq, bind_eq_ok, pure, Except.pure, Except.ok.injEq,
      Instr.dstReg_eq_ok, reduceCtorEq] at h
  case sd | sw | sh | sb | csrrw | csrrs | csrrc | csrrwi | csrrsi | csrrci =>
    simp [heq, Op.hasEffect] at hop
  case nop | wfi | sfenceVma | fenceI | fence | ecall | ebreak =>
    exact h ▸ (SameBut.refl _ cpu).setPc _
  case bge | blt | bgeu | bltu | bne | beq =>
    rcases h with ⟨imm, _, _, _, _, _, taken, _, h⟩
    cases taken with
    | false => exact Except.ok.inj h ▸ (SameBut.refl _ cpu).setPc _
    | true => exact Except.ok.inj h ▸ (SameBut.gprSet (.inl rfl) _).setPc _
  case jal =>
    rcases h with ⟨_, _, _, hd, rfl⟩
    exact (hwrite _ hd).setPc _
  case jalr =>
    rcases h with ⟨_, _, _, hd, _, _, rfl⟩
    exact (hwrite _ hd).setPc _
  -- what is left writes the destination last
  all_goals
    repeat rcases h with ⟨_, hd, h⟩
    exact (hwrite _ hd).setPc _

/-! ## Programs -/

/-- `program`: a base address and the instructions by address. -/
structure Program (xlen : Nat) where
  base : BitVec xlen
  instructions : BitVec xlen → Option Instr

/-- `interpret-program`, for at most `fuel` instructions and shims; `none` when they do not suffice. -/
def interpretProgram (shims : BitVec xlen → Option (Cpu xlen → Except Bug (Cpu xlen)))
    (program : Program xlen) : Nat → Cpu xlen → Except Bug (Option (Cpu xlen))
  | 0, _ => .ok none
  | fuel + 1, cpu =>
      match shims cpu.pc with
      | some shim => do interpretProgram shims program fuel (← shim cpu)
      | none =>
          match program.instructions cpu.pc with
          | some i =>
              if i.op = .mret then
                .ok (some cpu)
              else do
                interpretProgram shims program fuel (← interpretInstr cpu i)
          | none => .ok (some cpu)

/-! ## Code fragments -/

/-- The interpreter as a machine that runs placed code. -/
def machine (xlen : Nat) : CodeMachine xlen Instr (Cpu xlen) Bug where
  pc := Cpu.pc
  size := Instr.size
  halts := fun i => i.op = .mret
  exec := fun i cpu => interpretInstr cpu i

theorem interpretProgram_eq_run (program : Program xlen) (fuel : Nat) (cpu : Cpu xlen) :
    interpretProgram (fun _ => none) program fuel cpu =
      (machine xlen).run program.instructions fuel cpu := by
  induction fuel generalizing cpu with
  | zero => rfl
  | succ fuel ih =>
      simp only [interpretProgram, CodeMachine.run, machine]
      cases program.instructions cpu.pc with
      | none => rfl
      | some i =>
          by_cases hmret : i.op = .mret
          · simp [hmret]
          · simp only [hmret, if_false, decide_false, Bool.false_eq_true]
            cases interpretInstr cpu i with
            | error b => rfl
            | ok cpu' => exact ih cpu'

end Semantics

end Interp
end Riscv
end Serval
