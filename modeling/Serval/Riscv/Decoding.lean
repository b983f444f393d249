import Serval.Riscv.Encoder
import Mathlib.Data.Bool.Basic

/-!
# Decoding — words as the RISC-V manual reads them

The manual gives a word by its fields: an opcode, function codes, register numbers, and an immediate whose bits are
spread over the word in one of five ways.  Decoding follows the manual and not the encoder, for the formats of RV32 and
RV64 together; `xlen` decides only how many bits a shift amount has.  The encoder inverts it.
-/

namespace Serval
namespace Riscv
namespace Interp

open Serval.Core

/-! ## Fields -/

namespace Word32

variable (w : BitVec 32)

def opcode : BitVec 7 := w.extractLsb' 0 7
def rdBits : BitVec 5 := w.extractLsb' 7 5
def funct3 : BitVec 3 := w.extractLsb' 12 3
def rs1Bits : BitVec 5 := w.extractLsb' 15 5
def rs2Bits : BitVec 5 := w.extractLsb' 20 5
def funct7 : BitVec 7 := w.extractLsb' 25 7

def rd : Reg := (rdBits w).toFin
def rs1 : Reg := (rs1Bits w).toFin
def rs2 : Reg := (rs2Bits w).toFin

def immI : BitVec 12 := w.extractLsb' 20 12

def immS : BitVec 12 := w.extractLsb' 25 7 ++ w.extractLsb' 7 5

def immU : BitVec 20 := w.extractLsb' 12 20

/-- The offset of a branch in bytes: its lowest bit is zero. -/
def immB : BitVec 13 :=
  w.extractLsb' 31 1 ++ w.extractLsb' 7 1 ++ w.extractLsb' 25 6 ++ w.extractLsb' 8 4 ++ (0 : BitVec 1)

/-- The offset of a jump in bytes. -/
def immJ : BitVec 21 :=
  w.extractLsb' 31 1 ++ w.extractLsb' 12 8 ++ w.extractLsb' 20 1 ++ w.extractLsb' 21 10 ++ (0 : BitVec 1)

end Word32

/-! ## Decoding -/

/-- What a word says: the operands that it has, the immediate as a number. -/
structure Decoded where
  op : Op
  rd : Option Reg := none
  rs1 : Option Reg := none
  rs2 : Option Reg := none
  csr : Option (BitVec 12) := none
  imm : Option Int := none
  deriving DecidableEq

def decodeReg (f7 : BitVec 7) (f3 : BitVec 3) : Option Op :=
  if f7 = 0 then
    match f3 with
    | 0 => some .add
    | 1 => some .sll
    | 2 => some .slt
    | 3 => some .sltu
    | 4 => some .xor
    | 5 => some .srl
    | 6 => some .or
    | 7 => some .and
  else if f7 = 0b0000001 then
    match f3 with
    | 0 => some .mul
    | 1 => some .mulh
    | 2 => some .mulhsu
    | 3 => some .mulhu
    | 4 => some .div
    | 5 => some .divu
    | 6 => some .rem
    | 7 => some .remu
  else if f7 = 0b0100000 then
    if f3 = 0 then some .sub else if f3 = 5 then some .sra else none
  else none

def decodeRegW (f7 : BitVec 7) (f3 : BitVec 3) : Option Op :=
  if f7 = 0 then
    if f3 = 0 then some .addw else if f3 = 1 then some .sllw else if f3 = 5 then some .srlw else none
  else if f7 = 0b0000001 then
    if f3 = 0 then some .mulw
    else if f3 = 4 then some .divw
    else if f3 = 5 then some .divuw
    else if f3 = 6 then some .remw
    else if f3 = 7 then some .remuw
    else none
  else if f7 = 0b0100000 then
    if f3 = 0 then some .subw else if f3 = 5 then some .sraw else none
  else none

def decodeLoad (f3 : BitVec 3) : Option Op :=
  match f3 with
  | 0 => some .lb
  | 1 => some .lh
  | 2 => some .lw
  | 3 => some .ld
  | 4 => some .lbu
  | 5 => some .lhu
  | 6 => some .lwu
  | 7 => none

def decodeStore (f3 : BitVec 3) : Option Op :=
  if f3 = 0 then some .sb
  else if f3 = 1 then some .sh
  else if f3 = 2 then some .sw
  else if f3 = 3 then some .sd
  else none

def decodeBranch (f3 : BitVec 3) : Option Op :=
  if f3 = 0 then some .beq
  else if f3 = 1 then some .bne
  else if f3 = 4 then some .blt
  else if f3 = 5 then some .bge
  else if f3 = 6 then some .bltu
  else if f3 = 7 then some .bgeu
  else none

/-- The instructions on an immediate that are not shifts. -/
def decodeImm (f3 : BitVec 3) : Option Op :=
  if f3 = 0 then some .addi
  else if f3 = 2 then some .slti
  else if f3 = 3 then some .sltiu
  else if f3 = 4 then some .xori
  else if f3 = 6 then some .ori
  else if f3 = 7 then some .andi
  else none

/-- A shift by `n` bits of the immediate field: the bits above them select the kind. -/
def decodeShift (n : Nat) (f3 : BitVec 3) (imm : BitVec 12) (left right arith : Op) : Option (Op × Int) :=
  let kind := imm.toNat / 2 ^ n
  let shamt : Int := (imm.toNat % 2 ^ n : Nat)
  if f3 = 1 then
    if kind = 0 then some (left, shamt) else none
  else if f3 = 5 then
    if kind = 0 then some (right, shamt) else if kind = 1024 / 2 ^ n then some (arith, shamt) else none
  else none

/-- The bits of a shift amount: 5 in RV32, 6 in RV64. -/
def shamtBits (xlen : Nat) : Nat := if xlen = 32 then 5 else 6

open Word32

/-- The instructions of opcode SYSTEM. -/
def decodeSystem (w : BitVec 32) : Option Decoded :=
  let csrReg (op : Op) : Decoded := { op, rd := some (rd w), csr := some (immI w), rs1 := some (rs1 w) }
  let csrImm (op : Op) : Decoded := { op, rd := some (rd w), csr := some (immI w), imm := some (rs1Bits w).toNat }
  match funct3 w with
  | 0 =>
      if rdBits w ≠ 0 then none
      else if funct7 w = 0b0001001 then
        -- x0 in both places is the form without operands
        if rs1Bits w = 0 ∧ rs2Bits w = 0 then some { op := .sfenceVma }
        else some { op := .sfenceVma, rs1 := some (rs1 w), rs2 := some (rs2 w) }
      else if rs1Bits w ≠ 0 then none
      else if immI w = 0 then some { op := .ecall }
      else if immI w = 1 then some { op := .ebreak }
      else if immI w = 0b001100000010 then some { op := .mret }
      else if immI w = 0b000100000101 then some { op := .wfi }
      else none
  | 1 => some (csrReg .csrrw)
  | 2 => some (csrReg .csrrs)
  | 3 => some (csrReg .csrrc)
  | 4 => none
  | 5 => some (csrImm .csrrwi)
  | 6 => some (csrImm .csrrsi)
  | 7 => some (csrImm .csrrci)

/-- A word of 32 bits, for registers of `xlen` bits. -/
def decodeWord (xlen : Nat) (w : BitVec 32) : Option Decoded :=
  let withImm (op : Op) (imm : Int) : Decoded := { op, rd := some (rd w), rs1 := some (rs1 w), imm := some imm }
  let regs (op : Op) : Decoded := { op, rd := some (rd w), rs1 := some (rs1 w), rs2 := some (rs2 w) }
  let noDst (imm : Int) (op : Op) : Decoded := { op, rs1 := some (rs1 w), rs2 := some (rs2 w), imm := some imm }
  let upper (op : Op) (imm : Int) : Decoded := { op, rd := some (rd w), imm := some imm }
  let isShift := funct3 w = 1 ∨ funct3 w = 5
  if opcode w = 0b0110111 then some (upper .lui (immU w).toInt)
  else if opcode w = 0b0010111 then some (upper .auipc (immU w).toInt)
  else if opcode w = 0b1101111 then some (upper .jal (immJ w).toInt)
  else if opcode w = 0b1100111 then
    if funct3 w = 0 then some (withImm .jalr (immI w).toInt) else none
  else if opcode w = 0b1100011 then (decodeBranch (funct3 w)).map (noDst (immB w).toInt)
  else if opcode w = 0b0000011 then (decodeLoad (funct3 w)).map (withImm · (immI w).toInt)
  else if opcode w = 0b0100011 then (decodeStore (funct3 w)).map (noDst (immS w).toInt)
  else if opcode w = 0b0010011 then
    if isShift then
      (decodeShift (shamtBits xlen) (funct3 w) (immI w) .slli .srli .srai).map fun (op, n) => withImm op n
    else (decodeImm (funct3 w)).map (withImm · (immI w).toInt)
  else if opcode w = 0b0011011 then
    if isShift then (decodeShift 5 (funct3 w) (immI w) .slliw .srliw .sraiw).map fun (op, n) => withImm op n
    else if funct3 w = 0 then some (withImm .addiw (immI w).toInt)
    else none
  else if opcode w = 0b0110011 then (decodeReg (funct7 w) (funct3 w)).map regs
  else if opcode w = 0b0111011 then (decodeRegW (funct7 w) (funct3 w)).map regs
  else if opcode w = 0b0001111 then
    if funct3 w = 0 then some { op := .fence } else if funct3 w = 1 then some { op := .fenceI } else none
  else if opcode w = 0b1110011 then decodeSystem w
  else none

/-! ## Instructions with their operands -/

/-- What an instruction takes: the kinds of its operands and the width of its immediate. -/
inductive Shape
  | bare | reg | imm | shift | shiftW | store | branch | upper | jump | csrReg | csrImm
  deriving DecidableEq, Repr

/-- The opcodes that have a word of their own; `fence`, `unimp` and `c.unimp` and what is rejected have none. -/
def Op.shape : Op → Option Shape
  | .ecall | .ebreak | .mret | .wfi | .sfenceVma | .fenceI => some .bare
  | .add | .sub | .sll | .slt | .sltu | .xor | .srl | .sra | .or | .and
  | .mul | .mulh | .mulhsu | .mulhu | .div | .divu | .rem | .remu
  | .mulw | .divw | .divuw | .remw | .remuw
  | .addw | .subw | .sllw | .srlw | .sraw => some .reg
  | .addi | .slti | .sltiu | .xori | .ori | .andi | .addiw | .jalr
  | .lb | .lbu | .lh | .lhu | .lw | .lwu | .ld => some .imm
  | .slli | .srli | .srai => some .shift
  | .slliw | .srliw | .sraiw => some .shiftW
  | .sb | .sh | .sw | .sd => some .store
  | .beq | .bne | .blt | .bge | .bltu | .bgeu => some .branch
  | .lui | .auipc => some .upper
  | .jal => some .jump
  | .csrrw | .csrrs | .csrrc => some .csrReg
  | .csrrwi | .csrrsi | .csrrci => some .csrImm
  | .nop | .ldu | .subi | .muli | .fence | .unimp | .cUnimp => none

/-- The operands are there exactly as the opcode needs them. -/
inductive Encodable (xlen : Nat) : Instr → Prop
  | bare {op : Op} (h : op.shape = some .bare) (size : Nat) : Encodable xlen ⟨op, none, none, none, none, size⟩
  | reg {op : Op} (h : op.shape = some .reg) (rd rs1 rs2 : Reg) (size : Nat) :
      Encodable xlen ⟨op, some rd, some (.gpr rs1), some rs2, none, size⟩
  | imm {op : Op} (h : op.shape = some .imm) (rd rs1 : Reg) (v : BitVec 12) (size : Nat) :
      Encodable xlen ⟨op, some rd, some (.gpr rs1), none, some ⟨12, v⟩, size⟩
  | shift {op : Op} (h : op.shape = some .shift) (rd rs1 : Reg) (v : BitVec 12) (hv : v.toNat < xlen) (size : Nat) :
      Encodable xlen ⟨op, some rd, some (.gpr rs1), none, some ⟨12, v⟩, size⟩
  | shiftW {op : Op} (h : op.shape = some .shiftW) (rd rs1 : Reg) (v : BitVec 12) (hv : v.toNat < 32) (size : Nat) :
      Encodable xlen ⟨op, some rd, some (.gpr rs1), none, some ⟨12, v⟩, size⟩
  | store {op : Op} (h : op.shape = some .store) (rs1 rs2 : Reg) (v : BitVec 12) (size : Nat) :
      Encodable xlen ⟨op, none, some (.gpr rs1), some rs2, some ⟨12, v⟩, size⟩
  | branch {op : Op} (h : op.shape = some .branch) (rs1 rs2 : Reg) (v : BitVec 12) (size : Nat) :
      Encodable xlen ⟨op, none, some (.gpr rs1), some rs2, some ⟨12, v⟩, size⟩
  | upper {op : Op} (h : op.shape = some .upper) (rd : Reg) (v : BitVec 20) (size : Nat) :
      Encodable xlen ⟨op, some rd, none, none, some ⟨20, v⟩, size⟩
  | jump {op : Op} (h : op.shape = some .jump) (rd : Reg) (v : BitVec 20) (size : Nat) :
      Encodable xlen ⟨op, some rd, none, none, some ⟨20, v⟩, size⟩
  | csrReg {op : Op} (h : op.shape = some .csrReg) (rd rs1 : Reg) (c : CsrName) (hc : csrNumber c ≠ none) (size : Nat) :
      Encodable xlen ⟨op, some rd, some (.csr c), some rs1, none, size⟩
  | csrImm {op : Op} (h : op.shape = some .csrImm) (rd : Reg) (c : CsrName) (hc : csrNumber c ≠ none) (v : BitVec 5)
      (size : Nat) :
      Encodable xlen ⟨op, some rd, some (.csr c), none, some ⟨5, v⟩, size⟩

/-- An immediate as the number that the manual means by it. -/
def Shape.immValue (s : Shape) (v : Bv) : Int :=
  match s with
  | .shift | .shiftW | .csrImm => v.val.toNat
  | .branch | .jump => 2 * v.val.toInt
  | _ => v.val.toInt

/-- The manual's table of CSR addresses, for the CSRs of the interpreter. -/
def csrTable : List (BitVec 12 × CsrName) :=
  [(0x100, .sstatus), (0x102, .own .sedeleg), (0x103, .own .sideleg), (0x104, .sie), (0x105, .own .stvec),
    (0x106, .own .scounteren), (0x140, .own .sscratch), (0x141, .own .sepc), (0x142, .own .scause),
    (0x143, .own .stval), (0x144, .sip), (0x180, .own .satp),
    (0xF11, .mvendorid), (0xF12, .marchid), (0xF13, .mimpid), (0xF14, .mhartid),
    (0x300, .own .mstatus), (0x301, .own .misa), (0x302, .own .medeleg), (0x303, .own .mideleg), (0x304, .own .mie),
    (0x305, .own .mtvec), (0x306, .own .mcounteren), (0x340, .own .mscratch), (0x341, .own .mepc),
    (0x342, .own .mcause), (0x343, .own .mtval), (0x344, .own .mip),
    (0x3A0, .own .pmpcfg0), (0x3A1, .pmpcfg1), (0x3A2, .own .pmpcfg2), (0x3A3, .pmpcfg3),
    (0xB00, .mcycle), (0xB02, .minstret)] ++
    (List.finRange 16).map fun i : Fin 16 => (0x3B0 + BitVec.ofNat 12 i, .own (.pmpaddr i))

def csrAddress (c : CsrName) : Option (BitVec 12) :=
  (csrTable.find? fun e => e.2 = c).map Prod.fst

def csrAt (n : BitVec 12) : Option CsrName :=
  (csrTable.find? fun e => e.1 = n).map Prod.snd

section Csrs

variable {c : CsrName} {n : BitVec 12}

/-- Each CSR is in the table once, and so is each address. -/
theorem csrTable_unique : ∀ e ∈ csrTable, csrAddress e.2 = some e.1 ∧ csrAt e.1 = some e.2 := by
  decide +kernel

/-- What `encode-csr` knows is in the table. -/
theorem mem_csrTable (h : csrNumber c = some n) : (n, c) ∈ csrTable := by
  cases c with
  | own r =>
      cases r with
      | pmpaddr i =>
          cases h
          exact List.mem_append_right _ (List.mem_map_of_mem (List.mem_finRange i))
      | _ =>
          cases h
          decide
  | mcycle => cases h
  | minstret => cases h
  | _ =>
      cases h
      decide

theorem csrAddress_of_csrNumber (h : csrNumber c = some n) : csrAddress c = some n :=
  (csrTable_unique _ (mem_csrTable h)).1

theorem csrAt_of_csrNumber (h : csrNumber c = some n) : csrAt n = some c :=
  (csrTable_unique _ (mem_csrTable h)).2

end Csrs

/-- An instruction in the manual's terms: `rs1` of a CSR instruction is its second source. -/
def Instr.meaning (i : Instr) : Decoded where
  op := i.op
  rd := i.dst
  rs1 :=
    match i.src1 with
    | some (.gpr g) => some g
    | some (.csr _) => i.src2
    | none => none
  rs2 :=
    match i.src1 with
    | some (.csr _) => none
    | _ => i.src2
  csr :=
    match i.src1 with
    | some (.csr c) => csrAddress c
    | _ => none
  imm :=
    match i.op.shape, i.imm with
    | some s, some v => some (s.immValue v)
    | _, _ => none

/-! ## Fields of a word that is put together -/

/-- A word from its fields. -/
def word (f7 : BitVec 7) (rs2 rs1 : BitVec 5) (f3 : BitVec 3) (rd : BitVec 5) (opc : BitVec 7) : BitVec 32 :=
  f7 ++ (rs2 ++ (rs1 ++ (f3 ++ (rd ++ (opc ++ (0 : BitVec 0))))))

theorem extract_eq {m n k : Nat} {x : BitVec m} {y : BitVec n} (h : ∀ i < n, x.getLsbD (k + i) = y.getLsbD i) :
    x.extractLsb' k n = y := by
  apply BitVec.eq_of_getLsbD_eq
  intro i hi
  simp [hi, h i hi]

section Fields

variable (f7 : BitVec 7) (r2 r1 : BitVec 5) (f3 : BitVec 3) (d : BitVec 5) (opc : BitVec 7) (g : Reg)

theorem getLsbD_word (i : Nat) :
    (word f7 r2 r1 f3 d opc).getLsbD i =
      if i < 7 then opc.getLsbD i
      else if i < 12 then d.getLsbD (i - 7)
      else if i < 15 then f3.getLsbD (i - 12)
      else if i < 20 then r1.getLsbD (i - 15)
      else if i < 25 then r2.getLsbD (i - 20)
      else f7.getLsbD (i - 25) := by
  simp only [word, BitVec.getLsbD_append]
  grind

@[simp] theorem opcode_word : opcode (word f7 r2 r1 f3 d opc) = opc :=
  extract_eq fun i hi => by grind [getLsbD_word]

@[simp] theorem rdBits_word : rdBits (word f7 r2 r1 f3 d opc) = d :=
  extract_eq fun i hi => by grind [getLsbD_word]

@[simp] theorem funct3_word : funct3 (word f7 r2 r1 f3 d opc) = f3 :=
  extract_eq fun i hi => by grind [getLsbD_word]

@[simp] theorem rs1Bits_word : rs1Bits (word f7 r2 r1 f3 d opc) = r1 :=
  extract_eq fun i hi => by grind [getLsbD_word]

@[simp] theorem rs2Bits_word : rs2Bits (word f7 r2 r1 f3 d opc) = r2 :=
  extract_eq fun i hi => by grind [getLsbD_word]

@[simp] theorem funct7_word : funct7 (word f7 r2 r1 f3 d opc) = f7 :=
  extract_eq fun i hi => by grind [getLsbD_word]

theorem toFin_regBits : (regBits g).toFin = g := by
  apply Fin.ext
  simp [regBits]

@[simp] theorem rd_word : rd (word f7 r2 r1 f3 (regBits g) opc) = g := by
  rw [rd, rdBits_word, toFin_regBits]

@[simp] theorem rs1_word : rs1 (word f7 r2 (regBits g) f3 d opc) = g := by
  rw [rs1, rs1Bits_word, toFin_regBits]

@[simp] theorem rs2_word : rs2 (word f7 (regBits g) r1 f3 d opc) = g := by
  rw [rs2, rs2Bits_word, toFin_regBits]

/-! ### The immediates, from the bits that the formats scatter -/

@[simp] theorem immI_word (imm : BitVec 12) :
    immI (word (imm.extractLsb' 5 7) (imm.extractLsb' 0 5) r1 f3 d opc) = imm :=
  extract_eq fun i hi => by grind [getLsbD_word]

@[simp] theorem immU_word (imm : BitVec 20) :
    immU (word (imm.extractLsb' 13 7) (imm.extractLsb' 8 5) (imm.extractLsb' 3 5) (imm.extractLsb' 0 3) d opc) = imm :=
  extract_eq fun i hi => by grind [getLsbD_word]

@[simp] theorem immS_word (imm : BitVec 12) :
    immS (word (imm.extractLsb' 5 7) r2 r1 f3 (imm.extractLsb' 0 5) opc) = imm := by
  apply BitVec.eq_of_getLsbD_eq
  intro i hi
  simp only [immS, BitVec.getLsbD_append, BitVec.getLsbD_extractLsb', getLsbD_word]
  grind

@[simp] theorem immB_word (imm : BitVec 12) :
    immB (word (imm.extractLsb' 11 1 ++ imm.extractLsb' 4 6) r2 r1 f3 (imm.extractLsb' 0 4 ++ imm.extractLsb' 10 1)
      opc) = imm ++ (0 : BitVec 1) := by
  apply BitVec.eq_of_getLsbD_eq
  intro i hi
  simp only [immB, BitVec.getLsbD_append, BitVec.getLsbD_extractLsb', getLsbD_word]
  grind

@[simp] theorem immJ_word (imm : BitVec 20) :
    immJ (word (imm.extractLsb' 19 1 ++ imm.extractLsb' 4 6) (imm.extractLsb' 0 4 ++ imm.extractLsb' 10 1)
      (imm.extractLsb' 14 5) (imm.extractLsb' 11 3) d opc) = imm ++ (0 : BitVec 1) := by
  apply BitVec.eq_of_getLsbD_eq
  intro i hi
  simp only [immJ, BitVec.getLsbD_append, BitVec.getLsbD_extractLsb', getLsbD_word]
  grind

@[simp] theorem toInt_double {n : Nat} (v : BitVec n) : (v ++ 0#1).toInt = 2 * v.toInt := by
  cases n with
  | zero => simp [BitVec.eq_nil v]
  | succ n => simp [BitVec.toInt_append]

/-! ### The formats of the encoder -/

theorem ok_of_bits {x y : BitVec 32} (h : ∀ i < 32, x.getLsbD i = y.getLsbD i) :
    (.ok ⟨32, x⟩ : Except Bug Bv) = .ok ⟨32, y⟩ := by
  rw [BitVec.eq_of_getLsbD_eq h]

theorem rType_eq : rType f7 (bv r2) (bv r1) f3 (bv d) opc = .ok ⟨32, word f7 r2 r1 f3 d opc⟩ := rfl

theorem iType_eq (imm : BitVec 12) :
    iType (bv imm) (bv r1) f3 (bv d) opc =
      .ok ⟨32, word (imm.extractLsb' 5 7) (imm.extractLsb' 0 5) r1 f3 d opc⟩ := by
  refine ok_of_bits fun i hi => ?_
  simp only [word, BitVec.getLsbD_append, BitVec.getLsbD_extractLsb']
  grind

theorem uType_eq (imm : BitVec 20) :
    uType (bv imm) (bv d) opc = .ok ⟨32, word (imm.extractLsb' 13 7) (imm.extractLsb' 8 5) (imm.extractLsb' 3 5)
      (imm.extractLsb' 0 3) d opc⟩ := by
  refine ok_of_bits fun i hi => ?_
  simp only [word, BitVec.getLsbD_append, BitVec.getLsbD_extractLsb']
  grind

theorem sType_eq (imm : BitVec 12) :
    sType (bv imm) (bv r2) (bv r1) f3 opc =
      .ok ⟨32, word (imm.extractLsb' 5 7) r2 r1 f3 (imm.extractLsb' 0 5) opc⟩ := rfl

theorem bType_eq (imm : BitVec 12) :
    bType (bv imm) (bv r2) (bv r1) f3 opc = .ok ⟨32, word (imm.extractLsb' 11 1 ++ imm.extractLsb' 4 6) r2 r1 f3
      (imm.extractLsb' 0 4 ++ imm.extractLsb' 10 1) opc⟩ := by
  refine ok_of_bits fun i hi => ?_
  simp only [word, BitVec.getLsbD_append, BitVec.getLsbD_extractLsb']
  grind

theorem jType_eq (imm : BitVec 20) :
    jType (bv imm) (bv d) opc = .ok ⟨32, word (imm.extractLsb' 19 1 ++ imm.extractLsb' 4 6)
      (imm.extractLsb' 0 4 ++ imm.extractLsb' 10 1) (imm.extractLsb' 14 5) (imm.extractLsb' 11 3) d opc⟩ := by
  refine ok_of_bits fun i hi => ?_
  simp only [word, BitVec.getLsbD_append, BitVec.getLsbD_extractLsb']
  grind

end Fields

/-! ## The encoder inverts decoding -/

/-- The word that the encoder makes is read as what the instruction means. -/
def RoundTrips (xlen : Nat) (i : Instr) : Prop :=
  ∃ w : BitVec 32, encodeInstr i = .ok (some ⟨32, w⟩) ∧ decodeWord xlen w = some i.meaning

/-! ### Shift amounts -/

section Shifts

variable {n : Nat} {v : BitVec 12} (left right arith : Op)

theorem decodeShift_left (hv : v.toNat < 2 ^ n) :
    decodeShift n (1#3) v left right arith = some (left, (v.toNat : Int)) := by
  simp [decodeShift, Nat.div_eq_of_lt hv, Nat.mod_eq_of_lt hv]

theorem decodeShift_right (hv : v.toNat < 2 ^ n) :
    decodeShift n (5#3) v left right arith = some (right, (v.toNat : Int)) := by
  simp [decodeShift, Nat.div_eq_of_lt hv, Nat.mod_eq_of_lt hv]

/-- The bit that marks an arithmetic shift stands above the amount. -/
theorem toNat_arith (hv : v.toNat < 64) : (1024#12 ||| v).toNat = 1024 + v.toNat := by
  have hor : 2 ^ 6 * 16 + v.toNat = 2 ^ 6 * 16 ||| v.toNat := Nat.two_pow_add_eq_or_of_lt hv 16
  rw [BitVec.toNat_or]
  exact hor.symm

theorem decodeShift_arith (hn : n = 5 ∨ n = 6) (hv : v.toNat < 2 ^ n) :
    decodeShift n (5#3) (1024#12 ||| v) left right arith = some (arith, (v.toNat : Int)) := by
  have h64 : v.toNat < 64 := by
    rcases hn with rfl | rfl <;> omega
  have hsum := toNat_arith h64
  have hkind : (1024 + v.toNat) / 2 ^ n = 1024 / 2 ^ n := by
    rcases hn with rfl | rfl <;> omega
  have hshamt : (1024 + v.toNat) % 2 ^ n = v.toNat := by
    rcases hn with rfl | rfl <;> omega
  have hkind_ne : 1024 / 2 ^ n ≠ 0 := by
    rcases hn with rfl | rfl <;> decide
  simp [decodeShift, hsum, hkind, hshamt, hkind_ne]

theorem shamtBits_cases (xlen : Nat) : shamtBits xlen = 5 ∨ shamtBits xlen = 6 := by
  by_cases h : xlen = 32 <;> simp [shamtBits, h]

theorem lt_two_pow_shamtBits {xlen k : Nat} (hx : xlen = 32 ∨ xlen = 64) (hk : k < xlen) : k < 2 ^ shamtBits xlen := by
  rcases hx with rfl | rfl
  · exact hk
  · exact hk

end Shifts

/-! ### Decoding by the opcode field -/

section Opcodes

variable {xlen : Nat} {w : BitVec 32}

theorem decodeWord_reg (h : opcode w = 0b0110011#7) : decodeWord xlen w = (decodeReg (funct7 w) (funct3 w)).map
    fun op => { op, rd := some (rd w), rs1 := some (rs1 w), rs2 := some (rs2 w) } := by
  simp [decodeWord, h]

theorem decodeWord_regW (h : opcode w = 0b0111011#7) : decodeWord xlen w = (decodeRegW (funct7 w) (funct3 w)).map
    fun op => { op, rd := some (rd w), rs1 := some (rs1 w), rs2 := some (rs2 w) } := by
  simp [decodeWord, h]

theorem decodeWord_store (h : opcode w = 0b0100011#7) : decodeWord xlen w = (decodeStore (funct3 w)).map
    fun op => { op, rs1 := some (rs1 w), rs2 := some (rs2 w), imm := some (immS w).toInt } := by
  simp [decodeWord, h]

theorem decodeWord_branch (h : opcode w = 0b1100011#7) : decodeWord xlen w = (decodeBranch (funct3 w)).map
    fun op => { op, rs1 := some (rs1 w), rs2 := some (rs2 w), imm := some (immB w).toInt } := by
  simp [decodeWord, h]

theorem decodeWord_system (h : opcode w = 0b1110011#7) : decodeWord xlen w = decodeSystem w := by
  simp [decodeWord, h]

end Opcodes

/-! ### One lemma for each shape -/

section Shapes

variable {xlen : Nat} {op : Op} (rd rs1 rs2 : Reg) (size : Nat)

theorem roundTrips_bare (h : op.shape = some .bare) : RoundTrips xlen ⟨op, none, none, none, none, size⟩ := by
  cases op <;> first
    | exact absurd h (by decide)
    | exact ⟨_, rfl, rfl⟩

theorem roundTrips_reg (h : op.shape = some .reg) :
    RoundTrips xlen ⟨op, some rd, some (.gpr rs1), some rs2, none, size⟩ := by
  cases op <;> first
    | exact absurd h (by decide)
    | exact ⟨_, congrArg (some <$> ·) (rType_eq _ _ _ _ _ _),
        by simp [decodeWord_reg, decodeWord_regW, decodeReg, decodeRegW, Instr.meaning]⟩

theorem roundTrips_imm (h : op.shape = some .imm) (v : BitVec 12) :
    RoundTrips xlen ⟨op, some rd, some (.gpr rs1), none, some ⟨12, v⟩, size⟩ := by
  cases op <;> first
    | exact absurd h (by decide)
    | exact ⟨_, congrArg (some <$> ·) (iType_eq _ _ _ _ v),
        by simp [decodeWord, decodeImm, decodeLoad, Instr.meaning, h, Shape.immValue]⟩

theorem roundTrips_shift (hx : xlen = 32 ∨ xlen = 64) (h : op.shape = some .shift) {v : BitVec 12}
    (hv : v.toNat < xlen) : RoundTrips xlen ⟨op, some rd, some (.gpr rs1), none, some ⟨12, v⟩, size⟩ := by
  have hn := shamtBits_cases xlen
  have hlt := lt_two_pow_shamtBits hx hv
  cases op with
  | slli =>
      exact ⟨_, congrArg (some <$> ·) (iType_eq _ _ _ _ v),
        by simp [decodeWord, decodeShift_left _ _ _ hlt, Instr.meaning, h, Shape.immValue]⟩
  | srli =>
      exact ⟨_, congrArg (some <$> ·) (iType_eq _ _ _ _ v),
        by simp [decodeWord, decodeShift_right _ _ _ hlt, Instr.meaning, h, Shape.immValue]⟩
  | srai =>
      exact ⟨_, congrArg (some <$> ·) (iType_eq _ _ _ _ (1024#12 ||| v.setWidth 12)),
        by simp [decodeWord, decodeShift_arith _ _ _ hn hlt, Instr.meaning, h, Shape.immValue]⟩
  | _ => exact absurd h (by decide)

theorem roundTrips_shiftW (h : op.shape = some .shiftW) {v : BitVec 12} (hv : v.toNat < 2 ^ 5) :
    RoundTrips xlen ⟨op, some rd, some (.gpr rs1), none, some ⟨12, v⟩, size⟩ := by
  cases op with
  | slliw =>
      exact ⟨_, congrArg (some <$> ·) (iType_eq _ _ _ _ v),
        by simp [decodeWord, decodeShift_left _ _ _ hv, Instr.meaning, h, Shape.immValue]⟩
  | srliw =>
      exact ⟨_, congrArg (some <$> ·) (iType_eq _ _ _ _ v),
        by simp [decodeWord, decodeShift_right _ _ _ hv, Instr.meaning, h, Shape.immValue]⟩
  | sraiw =>
      exact ⟨_, congrArg (some <$> ·) (iType_eq _ _ _ _ (1024#12 ||| v.setWidth 12)),
        by simp [decodeWord, decodeShift_arith _ _ _ (.inl rfl) hv, Instr.meaning, h, Shape.immValue]⟩
  | _ => exact absurd h (by decide)

theorem roundTrips_store (h : op.shape = some .store) (v : BitVec 12) :
    RoundTrips xlen ⟨op, none, some (.gpr rs1), some rs2, some ⟨12, v⟩, size⟩ := by
  cases op <;> first
    | exact absurd h (by decide)
    | exact ⟨_, congrArg (some <$> ·) (sType_eq _ _ _ _ v),
        by simp [decodeWord_store, decodeStore, Instr.meaning, h, Shape.immValue]⟩

theorem roundTrips_branch (h : op.shape = some .branch) (v : BitVec 12) :
    RoundTrips xlen ⟨op, none, some (.gpr rs1), some rs2, some ⟨12, v⟩, size⟩ := by
  cases op <;> first
    | exact absurd h (by decide)
    | exact ⟨_, congrArg (some <$> ·) (bType_eq _ _ _ _ v),
        by simp [decodeWord_branch, decodeBranch, Instr.meaning, h, Shape.immValue]⟩

theorem roundTrips_upper (h : op.shape = some .upper) (v : BitVec 20) :
    RoundTrips xlen ⟨op, some rd, none, none, some ⟨20, v⟩, size⟩ := by
  cases op <;> first
    | exact absurd h (by decide)
    | exact ⟨_, congrArg (some <$> ·) (uType_eq _ _ v),
        by simp [decodeWord, Instr.meaning, h, Shape.immValue]⟩

theorem roundTrips_jump (h : op.shape = some .jump) (v : BitVec 20) :
    RoundTrips xlen ⟨op, some rd, none, none, some ⟨20, v⟩, size⟩ := by
  cases op <;> first
    | exact absurd h (by decide)
    | exact ⟨_, congrArg (some <$> ·) (jType_eq _ _ v),
        by simp [decodeWord, Instr.meaning, h, Shape.immValue]⟩

theorem roundTrips_csrReg (h : op.shape = some .csrReg) {c : CsrName} (hc : csrNumber c ≠ none) :
    RoundTrips xlen ⟨op, some rd, some (.csr c), some rs1, none, size⟩ := by
  obtain ⟨n, hn⟩ := Option.ne_none_iff_exists'.mp hc
  cases op <;> first
    | exact absurd h (by decide)
    | exact ⟨_, congrArg (some <$> ·) (iType_eq _ _ _ _ ((csrNumber c).getD 0)),
        by simp [decodeWord_system, decodeSystem, Instr.meaning, hn, csrAddress_of_csrNumber hn]⟩

theorem roundTrips_csrImm (h : op.shape = some .csrImm) {c : CsrName} (hc : csrNumber c ≠ none) (v : BitVec 5) :
    RoundTrips xlen ⟨op, some rd, some (.csr c), none, some ⟨5, v⟩, size⟩ := by
  obtain ⟨n, hn⟩ := Option.ne_none_iff_exists'.mp hc
  cases op <;> first
    | exact absurd h (by decide)
    | exact ⟨_, congrArg (some <$> ·) (iType_eq v _ _ _ ((csrNumber c).getD 0)),
        by simp [decodeWord_system, decodeSystem, Instr.meaning, h, Shape.immValue, hn, csrAddress_of_csrNumber hn]⟩

end Shapes

theorem Encodable.roundTrips {xlen : Nat} (hx : xlen = 32 ∨ xlen = 64) {i : Instr} (hi : Encodable xlen i) :
    RoundTrips xlen i := by
  cases hi with
  | bare h size => exact roundTrips_bare size h
  | reg h rd rs1 rs2 size => exact roundTrips_reg rd rs1 rs2 size h
  | imm h rd rs1 v size => exact roundTrips_imm rd rs1 size h v
  | shift h rd rs1 v hv size => exact roundTrips_shift rd rs1 size hx h hv
  | shiftW h rd rs1 v hv size => exact roundTrips_shiftW rd rs1 size h hv
  | store h rs1 rs2 v size => exact roundTrips_store rs1 rs2 size h v
  | branch h rs1 rs2 v size => exact roundTrips_branch rs1 rs2 size h v
  | upper h rd v size => exact roundTrips_upper rd size h v
  | jump h rd v size => exact roundTrips_jump rd size h v
  | csrReg h rd rs1 c hc size => exact roundTrips_csrReg rd rs1 size h hc
  | csrImm h rd c hc v size => exact roundTrips_csrImm rd size h hc v

/-! ## Instructions from what a word says -/

/-- The bits of an immediate from its number. -/
def Shape.immBits (s : Shape) (v : Int) : Bv :=
  match s with
  | .branch => ⟨12, BitVec.ofInt 12 (v / 2)⟩
  | .jump => ⟨20, BitVec.ofInt 20 (v / 2)⟩
  | .upper => ⟨20, BitVec.ofInt 20 v⟩
  | .csrImm => ⟨5, BitVec.ofInt 5 v⟩
  | _ => ⟨12, BitVec.ofInt 12 v⟩

/-- The instruction that a word describes. -/
def Decoded.instr (d : Decoded) (size : Nat) : Instr where
  op := d.op
  dst := d.rd
  src1 :=
    match d.csr with
    | some n => (csrAt n).map .csr
    | none => d.rs1.map .gpr
  src2 :=
    match d.csr with
    | some _ => d.rs1
    | none => d.rs2
  imm :=
    match d.op.shape, d.imm with
    | some s, some v => some (s.immBits v)
    | _, _ => none
  size := size

theorem Encodable.instr_meaning {xlen : Nat} {i : Instr} (hi : Encodable xlen i) (size : Nat) :
    i.meaning.instr size = { i with size := size } := by
  cases hi with
  | csrReg h rd rs1 c hc _ =>
      obtain ⟨n, hn⟩ := Option.ne_none_iff_exists'.mp hc
      simp [Instr.meaning, Decoded.instr, csrAddress_of_csrNumber hn, csrAt_of_csrNumber hn, h]
  | csrImm h rd c hc v _ =>
      obtain ⟨n, hn⟩ := Option.ne_none_iff_exists'.mp hc
      simp [Instr.meaning, Decoded.instr, csrAddress_of_csrNumber hn, csrAt_of_csrNumber hn, h, Shape.immValue,
        Shape.immBits]
  | _ h => simp [Instr.meaning, Decoded.instr, h, Shape.immValue, Shape.immBits]

/-- The encoder inverts the manual's decoding: the word of an instruction is read as its opcode, registers, CSR number
and immediate, and instructions that differ in one of them have different words. -/
theorem encodeInstr_inverts_decoding {xlen : Nat} (hx : xlen = 32 ∨ xlen = 64) :
    (∀ i : Instr, Encodable xlen i →
        ∃ w : BitVec 32, encodeInstr i = .ok (some ⟨32, w⟩) ∧ decodeWord xlen w = some i.meaning) ∧
      ∀ i j : Instr, Encodable xlen i → Encodable xlen j → encodeInstr i = encodeInstr j →
        { i with size := j.size } = j := by
  refine ⟨fun i hi => hi.roundTrips hx, ?_⟩
  intro i j hi hj heq
  obtain ⟨w, hw, hdecode⟩ := hi.roundTrips hx
  obtain ⟨w', hw', hdecode'⟩ := hj.roundTrips hx
  have hword : (⟨32, w⟩ : Bv) = ⟨32, w'⟩ := by
    rw [hw, hw'] at heq
    exact Option.some.inj (Except.ok.inj heq)
  have hmeaning : i.meaning = j.meaning := by
    rw [eq_of_heq (Bv.mk.inj hword).2, hdecode'] at hdecode
    exact (Option.some.inj hdecode).symm
  calc
    { i with size := j.size } = i.meaning.instr j.size := (hi.instr_meaning j.size).symm
    _ = j.meaning.instr j.size := by rw [hmeaning]
    _ = j := hj.instr_meaning j.size

/-- A branch to the instruction one before: the offset is minus two bytes. -/
theorem encodeInstr_inverts_decoding_beq :
    (∃ w : BitVec 32, encodeInstr ⟨.beq, none, some (.gpr 10), some 11, some ⟨12, 0xFFF⟩, 4⟩ = .ok (some ⟨32, w⟩) ∧
        decodeWord 64 w = some { op := .beq, rs1 := some 10, rs2 := some 11, imm := some (-2) }) ∧
      ({ op := .beq, dst := none, src1 := some (.gpr 10), src2 := some 11, imm := some ⟨12, 0xFFF⟩, size := 4 } :
        Instr) = ⟨.beq, none, some (.gpr 10), some 11, some ⟨12, 0xFFF⟩, 4⟩ := by
  have hi : Encodable 64 ⟨.beq, none, some (.gpr 10), some 11, some ⟨12, 0xFFF⟩, 4⟩ := .branch rfl 10 11 0xFFF 4
  exact ⟨(encodeInstr_inverts_decoding (.inr rfl)).1 _ hi, (encodeInstr_inverts_decoding (.inr rfl)).2 _ _ hi hi rfl⟩

end Interp
end Riscv
end Serval
