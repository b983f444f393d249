import Serval.Riscv.Cpu

/-!
# Isa — what the unprivileged manual says about registers and control transfer

The base integer instructions and the multiplication extension as the manual describes them, over integers: an
operand is read as a signed or an unsigned number, the operation is done without bounds, and the result is what is
left of it in `XLEN` bits.  Division has the manual's table for a divisor of zero and for signed overflow.

The architectural state is the program counter and the registers; register 0 reads as zero because nothing writes it.
-/

namespace Serval
namespace Riscv
namespace Isa

open Interp

/-! ## Values -/

inductive AluOp
  | add | sub | and | or | xor | sll | srl | sra
  | mul | mulh | mulhu | mulhsu | div | divu | rem | remu
  deriving DecidableEq, Repr

/-- The most negative number divided by -1, which does not fit. -/
def overflows {w : Nat} (x y : BitVec w) : Prop :=
  x = BitVec.intMin w ∧ y = -1

instance {w : Nat} (x y : BitVec w) : Decidable (overflows x y) :=
  inferInstanceAs (Decidable (_ ∧ _))

/-- The result of an operation on registers of `w` bits; shifts use the low bits of the second operand. -/
def AluOp.value {w : Nat} (op : AluOp) (x y : BitVec w) : BitVec w :=
  match op with
  | .add => .ofInt w (x.toInt + y.toInt)
  | .sub => .ofInt w (x.toInt - y.toInt)
  | .and => x &&& y
  | .or => x ||| y
  | .xor => x ^^^ y
  | .sll => .ofInt w (x.toInt * 2 ^ (y.toNat % w))
  | .srl => .ofNat w (x.toNat / 2 ^ (y.toNat % w))
  | .sra => .ofInt w (x.toInt / 2 ^ (y.toNat % w))
  | .mul => .ofInt w (x.toInt * y.toInt)
  | .mulh => .ofInt w (x.toInt * y.toInt / 2 ^ w)
  | .mulhu => .ofInt w (x.toNat * y.toNat / 2 ^ w)
  | .mulhsu => .ofInt w (x.toInt * y.toNat / 2 ^ w)
  | .div => if y = 0 then -1 else if overflows x y then x else .ofInt w (x.toInt.tdiv y.toInt)
  | .divu => if y = 0 then .allOnes w else .ofNat w (x.toNat / y.toNat)
  | .rem => if y = 0 then x else if overflows x y then 0 else .ofInt w (x.toInt.tmod y.toInt)
  | .remu => if y = 0 then x else .ofNat w (x.toNat % y.toNat)

inductive Cond
  | eq | ne | lt | ge | ltu | geu
  deriving DecidableEq, Repr

def Cond.holds {w : Nat} (x y : BitVec w) : Cond → Bool
  | .eq => x = y
  | .ne => x ≠ y
  | .lt => x.toInt < y.toInt
  | .ge => x.toInt ≥ y.toInt
  | .ltu => x.toNat < y.toNat
  | .geu => x.toNat ≥ y.toNat

/-! ## Instructions -/

/-- The operations that exist with an immediate. -/
inductive ImmOp
  | addi | andi | ori | xori | slli | srli | srai
  deriving DecidableEq, Repr

def ImmOp.alu : ImmOp → AluOp
  | .addi => .add
  | .andi => .and
  | .ori => .or
  | .xori => .xor
  | .slli => .sll
  | .srli => .srl
  | .srai => .sra

/-- The operations on the low 32 bits of 64-bit registers. -/
inductive WordOp
  | addw | subw | sllw | srlw | sraw | mulw | divw | divuw | remw | remuw
  deriving DecidableEq, Repr

def WordOp.alu : WordOp → AluOp
  | .addw => .add
  | .subw => .sub
  | .sllw => .sll
  | .srlw => .srl
  | .sraw => .sra
  | .mulw => .mul
  | .divw => .div
  | .divuw => .divu
  | .remw => .rem
  | .remuw => .remu

inductive WordImmOp
  | addiw | slliw | srliw | sraiw
  deriving DecidableEq, Repr

def WordImmOp.alu : WordImmOp → AluOp
  | .addiw => .add
  | .slliw => .sll
  | .srliw => .srl
  | .sraiw => .sra

/-- Immediates are the fields of the instruction; those of `jal` and the branches count pairs of bytes. -/
inductive Instr
  | lui (rd : Reg) (imm : BitVec 20)
  | auipc (rd : Reg) (imm : BitVec 20)
  | sltu (rd rs1 rs2 : Reg)
  | sltiu (rd rs1 : Reg) (imm : BitVec 12)
  | alu (op : AluOp) (rd rs1 rs2 : Reg)
  | aluImm (op : ImmOp) (rd rs1 : Reg) (imm : BitVec 12)
  | aluWord (op : WordOp) (rd rs1 rs2 : Reg)
  | aluWordImm (op : WordImmOp) (rd rs1 : Reg) (imm : BitVec 12)
  | jal (rd : Reg) (imm : BitVec 20)
  | jalr (rd rs1 : Reg) (imm : BitVec 12)
  | branch (cond : Cond) (rs1 rs2 : Reg) (imm : BitVec 12)
  deriving DecidableEq

/-- The instructions that RV64 adds. -/
def Instr.wordForm : Instr → Bool
  | .aluWord .. | .aluWordImm .. => true
  | _ => false

/-! ## Execution -/

@[ext] structure State (xlen : Nat) where
  pc : BitVec xlen
  x : Reg → BitVec xlen

namespace State

variable {xlen : Nat}

def write (s : State xlen) (rd : Reg) (v : BitVec xlen) : State xlen :=
  { s with x := fun g => if g = rd ∧ g ≠ 0 then v else s.x g }

/-- The next instruction, `size` bytes further. -/
def next (s : State xlen) (size : Nat) : State xlen :=
  { s with pc := s.pc + BitVec.ofNat xlen size }

/-- An instruction of `size` bytes; everything is read before anything is written. -/
def exec (s : State xlen) (size : Nat) : Instr → State xlen
  | .lui rd imm => (s.write rd (.ofInt xlen (imm.toInt * 2 ^ 12))).next size
  | .auipc rd imm => (s.write rd (s.pc + .ofInt xlen (imm.toInt * 2 ^ 12))).next size
  | .sltu rd rs1 rs2 => (s.write rd (if (s.x rs1).toNat < (s.x rs2).toNat then 1 else 0)).next size
  | .sltiu rd rs1 imm =>
      (s.write rd (if (s.x rs1).toNat < (imm.signExtend xlen).toNat then 1 else 0)).next size
  | .alu op rd rs1 rs2 => (s.write rd (op.value (s.x rs1) (s.x rs2))).next size
  | .aluImm op rd rs1 imm => (s.write rd (op.alu.value (s.x rs1) (imm.signExtend xlen))).next size
  | .aluWord op rd rs1 rs2 =>
      (s.write rd ((op.alu.value ((s.x rs1).setWidth 32) ((s.x rs2).setWidth 32)).signExtend xlen)).next size
  | .aluWordImm op rd rs1 imm =>
      (s.write rd ((op.alu.value ((s.x rs1).setWidth 32) (imm.signExtend 32)).signExtend xlen)).next size
  | .jal rd imm => { s.write rd (s.next size).pc with pc := s.pc + .ofInt xlen (imm.toInt * 2) }
  | .jalr rd rs1 imm => { s.write rd (s.next size).pc with pc := (s.x rs1 + imm.signExtend xlen) &&& ~~~1 }
  | .branch cond rs1 rs2 imm =>
      if cond.holds (s.x rs1) (s.x rs2) then { s with pc := s.pc + .ofInt xlen (imm.toInt * 2) } else s.next size

end State

end Isa
end Riscv
end Serval
