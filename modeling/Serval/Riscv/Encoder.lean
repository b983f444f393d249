import Serval.Riscv.Interp

/-!
# Encoder — `serval/riscv/encoder.rkt`

`encode-instr` turns an instruction back into a word.  `parse-objdump-instr` compares that word with the bytes that
the instruction was disassembled from.  An operand is a bitvector of any width or absent; `concat` fails on an absent
one, and a word has the width of its parts.
-/

namespace Serval
namespace Riscv
namespace Interp

open Serval.Core

/-! ## Bitvectors -/

/-- `concat`, whose arguments may be `#f`. -/
def concat : List (Option Bv) → Except Bug Bv
  | [] => .ok ⟨0, 0⟩
  | none :: _ => .error .notABitvector
  | some x :: xs => do
      let y ← concat xs
      return ⟨x.width + y.width, x.val ++ y.val⟩

/-- `extract`, of `#f` or of a bitvector. -/
def extract (hi lo : Nat) : Option Bv → Except Bug (Option Bv)
  | some x => if hi < x.width then .ok (some ⟨hi - lo + 1, x.val.extractLsb' lo (hi - lo + 1)⟩) else .error .badWidth
  | none => .error .notABitvector

/-- `bvor` with a constant of 12 bits. -/
def bvor12 (c : BitVec 12) : Option Bv → Except Bug (Option Bv)
  | some x => if x.width = 12 then .ok (some ⟨12, c ||| x.val.setWidth 12⟩) else .error .badWidth
  | none => .error .notABitvector

/-- `bv`. -/
def bv {w : Nat} (v : BitVec w) : Option Bv := some ⟨w, v⟩

/-! ## Formats -/

def rType (funct7 : BitVec 7) (rs2 rs1 : Option Bv) (funct3 : BitVec 3) (rd : Option Bv) (opcode : BitVec 7) :
    Except Bug Bv :=
  concat [bv funct7, rs2, rs1, bv funct3, rd, bv opcode]

def iType (imm rs1 : Option Bv) (funct3 : BitVec 3) (rd : Option Bv) (opcode : BitVec 7) : Except Bug Bv :=
  concat [imm, rs1, bv funct3, rd, bv opcode]

def sType (imm rs2 rs1 : Option Bv) (funct3 : BitVec 3) (opcode : BitVec 7) : Except Bug Bv := do
  concat [← extract 11 5 imm, rs2, rs1, bv funct3, ← extract 4 0 imm, bv opcode]

def uType (imm rd : Option Bv) (opcode : BitVec 7) : Except Bug Bv :=
  concat [imm, rd, bv opcode]

def bType (imm rs2 rs1 : Option Bv) (funct3 : BitVec 3) (opcode : BitVec 7) : Except Bug Bv := do
  concat [← extract 11 11 imm, ← extract 9 4 imm, rs2, rs1, bv funct3, ← extract 3 0 imm, ← extract 10 10 imm,
    bv opcode]

def jType (imm rd : Option Bv) (opcode : BitVec 7) : Except Bug Bv := do
  concat [← extract 19 19 imm, ← extract 9 0 imm, ← extract 10 10 imm, ← extract 18 11 imm, rd, bv opcode]

/-! ## Registers -/

/-- The number of a register, in the five bits of its field. -/
def regBits (r : Reg) : BitVec 5 :=
  BitVec.ofNat 5 r

def encodeGpr (r : Reg) : Bv :=
  ⟨5, regBits r⟩

/-- The numbers that `encode-csr` knows. -/
def csrNumber : CsrName → Option (BitVec 12)
  | .sstatus => some 0x100
  | .own .sedeleg => some 0x102
  | .own .sideleg => some 0x103
  | .sie => some 0x104
  | .own .stvec => some 0x105
  | .own .scounteren => some 0x106
  | .own .sscratch => some 0x140
  | .own .sepc => some 0x141
  | .own .scause => some 0x142
  | .own .stval => some 0x143
  | .sip => some 0x144
  | .own .satp => some 0x180
  | .mvendorid => some 0xF11
  | .marchid => some 0xF12
  | .mimpid => some 0xF13
  | .mhartid => some 0xF14
  | .own .mstatus => some 0x300
  | .own .misa => some 0x301
  | .own .medeleg => some 0x302
  | .own .mideleg => some 0x303
  | .own .mie => some 0x304
  | .own .mtvec => some 0x305
  | .own .mcounteren => some 0x306
  | .own .mscratch => some 0x340
  | .own .mepc => some 0x341
  | .own .mcause => some 0x342
  | .own .mtval => some 0x343
  | .own .mip => some 0x344
  | .own .pmpcfg0 => some 0x3A0
  | .pmpcfg1 => some 0x3A1
  | .own .pmpcfg2 => some 0x3A2
  | .pmpcfg3 => some 0x3A3
  | .own (.pmpaddr i) => some (0x3B0 + BitVec.ofNat 12 i)
  | .mcycle | .minstret => none

/-- `encode-csr`: what it does not know, it encodes as zero with a warning. -/
def encodeCsr : Option Operand → Bv
  | some (.csr c) => ⟨12, (csrNumber c).getD 0⟩
  | _ => ⟨12, 0⟩

/-! ## Instructions -/

def encodeCsrOp (op : Op) (csr rs1 zimm rd : Option Bv) : Except Bug Bv :=
  match op with
  | .csrrw => iType csr rs1 0b001 rd 0b1110011
  | .csrrs => iType csr rs1 0b010 rd 0b1110011
  | .csrrc => iType csr rs1 0b011 rd 0b1110011
  | .csrrwi => iType csr zimm 0b101 rd 0b1110011
  | .csrrsi => iType csr zimm 0b110 rd 0b1110011
  | .csrrci => iType csr zimm 0b111 rd 0b1110011
  | _ => .error .noSuchEncoding

/-- The last group of `encode-instr`. -/
def encodeOp (op : Op) (rd rs1 rs2 imm : Option Bv) : Except Bug Bv :=
  match op with
  | .add => rType 0b0000000 rs2 rs1 0b000 rd 0b0110011
  | .sub => rType 0b0100000 rs2 rs1 0b000 rd 0b0110011
  | .sll => rType 0b0000000 rs2 rs1 0b001 rd 0b0110011
  | .slt => rType 0b0000000 rs2 rs1 0b010 rd 0b0110011
  | .sltu => rType 0b0000000 rs2 rs1 0b011 rd 0b0110011
  | .xor => rType 0b0000000 rs2 rs1 0b100 rd 0b0110011
  | .srl => rType 0b0000000 rs2 rs1 0b101 rd 0b0110011
  | .sra => rType 0b0100000 rs2 rs1 0b101 rd 0b0110011
  | .or => rType 0b0000000 rs2 rs1 0b110 rd 0b0110011
  | .and => rType 0b0000000 rs2 rs1 0b111 rd 0b0110011
  | .mul => rType 0b0000001 rs2 rs1 0b000 rd 0b0110011
  | .mulh => rType 0b0000001 rs2 rs1 0b001 rd 0b0110011
  | .mulhsu => rType 0b0000001 rs2 rs1 0b010 rd 0b0110011
  | .mulhu => rType 0b0000001 rs2 rs1 0b011 rd 0b0110011
  | .div => rType 0b0000001 rs2 rs1 0b100 rd 0b0110011
  | .divu => rType 0b0000001 rs2 rs1 0b101 rd 0b0110011
  | .rem => rType 0b0000001 rs2 rs1 0b110 rd 0b0110011
  | .remu => rType 0b0000001 rs2 rs1 0b111 rd 0b0110011
  | .mulw => rType 0b0000001 rs2 rs1 0b000 rd 0b0111011
  | .divw => rType 0b0000001 rs2 rs1 0b100 rd 0b0111011
  | .divuw => rType 0b0000001 rs2 rs1 0b101 rd 0b0111011
  | .remw => rType 0b0000001 rs2 rs1 0b110 rd 0b0111011
  | .remuw => rType 0b0000001 rs2 rs1 0b111 rd 0b0111011
  | .addw => rType 0b0000000 rs2 rs1 0b000 rd 0b0111011
  | .subw => rType 0b0100000 rs2 rs1 0b000 rd 0b0111011
  | .sllw => rType 0b0000000 rs2 rs1 0b001 rd 0b0111011
  | .srlw => rType 0b0000000 rs2 rs1 0b101 rd 0b0111011
  | .sraw => rType 0b0100000 rs2 rs1 0b101 rd 0b0111011
  | .addi => iType imm rs1 0b000 rd 0b0010011
  | .slti => iType imm rs1 0b010 rd 0b0010011
  | .sltiu => iType imm rs1 0b011 rd 0b0010011
  | .xori => iType imm rs1 0b100 rd 0b0010011
  | .ori => iType imm rs1 0b110 rd 0b0010011
  | .andi => iType imm rs1 0b111 rd 0b0010011
  | .slli => iType imm rs1 0b001 rd 0b0010011
  | .srli => iType imm rs1 0b101 rd 0b0010011
  | .srai => do iType (← bvor12 1024 imm) rs1 0b101 rd 0b0010011
  | .addiw => iType imm rs1 0b000 rd 0b0011011
  | .slliw => iType imm rs1 0b001 rd 0b0011011
  | .srliw => iType imm rs1 0b101 rd 0b0011011
  | .sraiw => do iType (← bvor12 1024 imm) rs1 0b101 rd 0b0011011
  | .lui => uType imm rd 0b0110111
  | .auipc => uType imm rd 0b0010111
  | .jal => jType imm rd 0b1101111
  | .jalr => iType imm rs1 0b000 rd 0b1100111
  | .beq => bType imm rs2 rs1 0b000 0b1100011
  | .bne => bType imm rs2 rs1 0b001 0b1100011
  | .blt => bType imm rs2 rs1 0b100 0b1100011
  | .bge => bType imm rs2 rs1 0b101 0b1100011
  | .bltu => bType imm rs2 rs1 0b110 0b1100011
  | .bgeu => bType imm rs2 rs1 0b111 0b1100011
  | .lb => iType imm rs1 0b000 rd 0b0000011
  | .lbu => iType imm rs1 0b100 rd 0b0000011
  | .lh => iType imm rs1 0b001 rd 0b0000011
  | .lhu => iType imm rs1 0b101 rd 0b0000011
  | .lw => iType imm rs1 0b010 rd 0b0000011
  | .lwu => iType imm rs1 0b110 rd 0b0000011
  | .ld => iType imm rs1 0b011 rd 0b0000011
  | .sb => sType imm rs2 rs1 0b000 0b0100011
  | .sh => sType imm rs2 rs1 0b001 0b0100011
  | .sw => sType imm rs2 rs1 0b010 0b0100011
  | .sd => sType imm rs2 rs1 0b011 0b0100011
  | _ => .error .noSuchEncoding

/-- `rs1` of the last group: a CSR is not a register. -/
def encodeSrc1 : Option Operand → Except Bug (Option Bv)
  | some (.gpr g) => .ok (some (encodeGpr g))
  | some (.csr _) => .error .noSuchGpr
  | none => .ok none

/-- `encode-instr`; `none` for `#f`. -/
def encodeInstr (insn : Instr) : Except Bug (Option Bv) :=
  match insn.op with
  | .ecall => some <$> iType (bv (0b000000000000 : BitVec 12)) (bv (0 : BitVec 5)) 0 (bv (0 : BitVec 5)) 0b1110011
  | .ebreak => some <$> iType (bv (0b000000000001 : BitVec 12)) (bv (0 : BitVec 5)) 0 (bv (0 : BitVec 5)) 0b1110011
  | .mret => some <$> rType 0b0011000 (bv (0b00010 : BitVec 5)) (bv (0 : BitVec 5)) 0b000 (bv (0 : BitVec 5)) 0b1110011
  | .wfi => some <$> rType 0b0001000 (bv (0b00101 : BitVec 5)) (bv (0 : BitVec 5)) 0b000 (bv (0 : BitVec 5)) 0b1110011
  | .cUnimp => .ok (bv (0 : BitVec 16))
  | .unimp => .ok (bv (0xc0001073 : BitVec 32))
  | .sfenceVma => some <$> rType 0b0001001 (bv (0 : BitVec 5)) (bv (0 : BitVec 5)) 0b000 (bv (0 : BitVec 5)) 0b1110011
  | .fence => .ok none
  | .fenceI => some <$> iType (bv (0 : BitVec 12)) (bv (0 : BitVec 5)) 0b001 (bv (0 : BitVec 5)) 0b0001111
  | .csrrw | .csrrs | .csrrc | .csrrwi | .csrrsi | .csrrci => do
      let rd := encodeGpr (← insn.dstReg)
      some <$> encodeCsrOp insn.op (encodeCsr insn.src1) (insn.src2.map encodeGpr) insn.imm rd
  | .nop | .ldu | .subi | .muli => .error .noSuchEncoding
  | op => do
      some <$> encodeOp op (insn.dst.map encodeGpr) (← encodeSrc1 insn.src1) (insn.src2.map encodeGpr) insn.imm

end Interp
end Riscv
end Serval
