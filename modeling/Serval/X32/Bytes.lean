import Serval.Lib.PrefixCode
import Serval.X32.Interp

/-!
# Bytes — x86-32 instructions as machine code

`instruction->integer-bytes` turns the parts of an encoded instruction into bytes.  The forms share opcodes: the two
upper bits of the second byte tell a register from a memory operand, its middle bits extend the opcode or name a
register.  A reader of such bytes recovers every instruction from the front of a stream, so code is uniquely
decodable.
-/

namespace Serval
namespace X32

open Lib

abbrev Byte := BitVec 8

/-! ## Bytes of an instruction -/

/-- `gpr->idx`. -/
def Gpr.idx : Gpr → Byte
  | .eax => 0
  | .ecx => 1
  | .edx => 2
  | .ebx => 3
  | .esp => 4
  | .ebp => 5
  | .esi => 6
  | .edi => 7

def RegName.idx : RegName → Byte
  | .r32 g => g.idx
  | .r8 g => g.idx

/-- `bitvector->list/le` of an immediate of 32 bits. -/
def bytesLe (v : BitVec 32) : List Byte :=
  [v.extractLsb' 0 8, v.extractLsb' 8 8, v.extractLsb' 16 8, v.extractLsb' 24 8]

/-- `->list` of `instruction->integer-bytes`. -/
def Item.bytes : Item → List Byte
  | .opcode b => [b]
  | .modOpcodeRm modOpcode rm => [modOpcode ||| rm.idx]
  | .modRm mod rm reg => [mod ||| rm.idx ||| reg.idx <<< 3]
  | .imm8 v => [v]
  | .imm32 v => bytesLe v

/-- `instruction->integer-bytes`. -/
def Instr.bytes (i : Instr) : List Byte :=
  i.encode.flatMap Item.bytes

theorem Item.length_bytes (x : Item) : x.bytes.length = x.size := by
  cases x <;> rfl

theorem Instr.length_bytes (i : Instr) : i.bytes.length = i.size := by
  rw [Instr.bytes, List.length_flatMap, Instr.size]
  exact congrArg List.sum (List.map_congr_left fun x _ => x.length_bytes)

/-- The operands are of the kinds that the name of the instruction says: `movzx-r32-r8` reads a byte register. -/
def Instr.Declared : Instr → Prop
  | .movzxR32R8 _ src => ∃ g, src = .r8 g
  | _ => True

/-! ## Registers from their numbers -/

def gprAt (n : BitVec 3) : Gpr :=
  match n with
  | 0 => .eax
  | 1 => .ecx
  | 2 => .edx
  | 3 => .ebx
  | 4 => .esp
  | 5 => .ebp
  | 6 => .esi
  | 7 => .edi

def gpr8At (n : BitVec 3) : Gpr8 :=
  match n with
  | 0 => .al
  | 1 => .cl
  | 2 => .dl
  | 3 => .bl
  | 4 => .ah
  | 5 => .ch
  | 6 => .dh
  | 7 => .bh

section Numbers

variable (g : Gpr) (b : Gpr8)

@[simp] theorem gprAt_idx : gprAt (g.idx.extractLsb' 0 3) = g := by
  cases g <;> rfl

@[simp] theorem Gpr.idx_middle : g.idx.extractLsb' 3 3 = 0 := by
  cases g <;> rfl

@[simp] theorem Gpr.idx_upper : g.idx.extractLsb' 6 2 = 0 := by
  cases g <;> rfl

-- a register in the middle bits leaves the others free
@[simp] theorem gprAt_shifted : gprAt ((g.idx <<< 3).extractLsb' 3 3) = g := by
  cases g <;> rfl

@[simp] theorem Gpr.shifted_low : (g.idx <<< 3).extractLsb' 0 3 = 0 := by
  cases g <;> rfl

@[simp] theorem Gpr.shifted_upper : (g.idx <<< 3).extractLsb' 6 2 = 0 := by
  cases g <;> rfl

@[simp] theorem gpr8At_idx : gpr8At (b.idx.extractLsb' 0 3) = b := by
  cases b <;> rfl

@[simp] theorem Gpr8.idx_middle : b.idx.extractLsb' 3 3 = 0 := by
  cases b <;> rfl

end Numbers

/-! ## Reading an instruction -/

/-- What reads an instruction off a stream and leaves the rest. -/
abbrev Reader := List Byte → Option (Instr × List Byte)

def readImm8 (k : Byte → Instr) : Reader
  | b :: rest => some (k b, rest)
  | [] => none

def readImm32 (k : BitVec 32 → Instr) : Reader
  | b₀ :: b₁ :: b₂ :: b₃ :: rest => some (k (b₃ ++ b₂ ++ b₁ ++ b₀), rest)
  | _ => none

/-- Read a byte as its two upper bits, its middle three and its low three. -/
def readModRm (k : BitVec 2 → BitVec 3 → BitVec 3 → Reader) : Reader
  | b :: rest => k (b.extractLsb' 6 2) (b.extractLsb' 3 3) (b.extractLsb' 0 3) rest
  | [] => none

/-- The two registers of the second byte, the one in its low bits first. -/
def readRegs (k : Gpr → Gpr → Instr) : Reader :=
  readModRm fun _ reg rm rest => some (k (gprAt rm) (gprAt reg), rest)

def readRegsImm8 (k : Gpr → Gpr → Byte → Instr) : Reader :=
  readModRm fun _ reg rm => readImm8 (k (gprAt rm) (gprAt reg))

/-- The instructions of opcode 83. -/
def arithImm8 (digit : BitVec 3) : Gpr → Byte → Instr :=
  match digit with
  | 0 => .addR32Imm8
  | 1 => .orR32Imm8
  | 2 => .adcR32Imm8
  | 3 => .sbbR32Imm8
  | 4 => .andR32Imm8
  | 5 => .subR32Imm8
  | 6 => .xorR32Imm8
  | 7 => .cmpR32Imm8

def shiftImm8 (digit : BitVec 3) : Gpr → Byte → Instr :=
  if digit = 4 then .shlR32Imm8
  else if digit = 5 then .shrR32Imm8
  else .sarR32Imm8

def shiftCl (digit : BitVec 3) : Gpr → Instr :=
  if digit = 4 then .shlR32Cl
  else if digit = 5 then .shrR32Cl
  else .sarR32Cl

/-- The instructions whose opcode has two bytes. -/
def readTwoByte : Reader
  | op :: rest =>
      if op = 0xB6 then
        readModRm (fun _ reg rm rest => some (.movzxR32R8 (gprAt reg) (.r8 (gpr8At rm)), rest)) rest
      else if op = 0xA5 then readRegs .shldR32R32Cl rest
      else if op = 0xA4 then readRegsImm8 .shldR32R32Imm8 rest
      else if op = 0xAD then readRegs .shrdR32R32Cl rest
      else if op = 0xAC then readRegsImm8 .shrdR32R32Imm8 rest
      else none
  | [] => none

/-- The instruction at the front of a stream. -/
def readInstr : Reader
  | op :: rest =>
      if op = 0x11 then readRegs .adcR32R32 rest
      else if op = 0x01 then readRegs .addR32R32 rest
      else if op = 0x21 then readRegs .andRm32R32 rest
      else if op = 0x23 then readRegs (fun rm reg => .andR32Rm32 reg rm) rest
      else if op = 0x09 then readRegs .orR32R32 rest
      else if op = 0x19 then readRegs .sbbR32R32 rest
      else if op = 0x29 then readRegs .subR32R32 rest
      else if op = 0x31 then readRegs .xorRm32R32 rest
      else if op = 0x33 then readRegs (fun rm reg => .xorR32Rm32 reg rm) rest
      else if op = 0x83 then readModRm (fun _ digit rm => readImm8 (arithImm8 digit (gprAt rm))) rest
      else if op = 0xC1 then readModRm (fun _ digit rm => readImm8 (shiftImm8 digit (gprAt rm))) rest
      else if op = 0xD3 then readModRm (fun _ digit rm rest => some (shiftCl digit (gprAt rm), rest)) rest
      else if op = 0x72 then readImm8 .jbRel8 rest
      else if op = 0xC3 then some (.ret, rest)
      else if op = 0x0F then readTwoByte rest
      -- the upper bits of the second byte are 1 for memory and 3 for a register
      else if op = 0x89 then
        readModRm (fun mod reg rm rest =>
          if mod = 1 then readImm8 (fun disp => .movM32R32 (gprAt rm) disp (gprAt reg)) rest
          else some (.movRm32R32 (gprAt rm) (gprAt reg), rest)) rest
      else if op = 0x8B then
        readModRm (fun mod reg rm rest =>
          if mod = 1 then readImm8 (.movR32M32 (gprAt reg) (gprAt rm)) rest
          else some (.movR32Rm32 (gprAt reg) (gprAt rm), rest)) rest
      else if op = 0xC7 then
        readModRm (fun mod _ rm rest =>
          if mod = 1 then
            match rest with
            | disp :: rest => readImm32 (.movM32Imm32 (gprAt rm) disp) rest
            | [] => none
          else readImm32 (.movR32Imm32 (gprAt rm)) rest) rest
      else if op = 0xF7 then
        readModRm (fun mod digit rm rest =>
          if mod = 1 then readImm8 (.mulM32 (gprAt rm)) rest
          else if digit = 4 then some (.mulR32 (gprAt rm), rest)
          else some (.negR32 (gprAt rm), rest)) rest
      else if op.extractLsb' 3 5 = 0b10110 then readImm8 (.movR8Imm8 (gpr8At (op.extractLsb' 0 3))) rest
      else none
  | [] => none

theorem readImm32_bytesLe (k : BitVec 32 → Instr) (v : BitVec 32) (rest : List Byte) :
    readImm32 k (bytesLe v ++ rest) = some (k v, rest) := by
  have hjoin : v.extractLsb' 24 8 ++ v.extractLsb' 16 8 ++ v.extractLsb' 8 8 ++ v.extractLsb' 0 8 = v := by
    apply BitVec.eq_of_getLsbD_eq
    intro i hi
    simp only [BitVec.getLsbD_append, BitVec.getLsbD_extractLsb']
    grind
  simp only [bytesLe, List.cons_append, List.nil_append, readImm32, hjoin]

/-- An instruction is read back from the front of any stream that starts with its bytes. -/
theorem reads_instr : Reads Instr.bytes readInstr Instr.Declared := by
  intro i hi rest
  cases i with
  | movzxR32R8 dst src =>
      obtain ⟨g, rfl⟩ := hi
      simp [Instr.bytes, Instr.encode, Item.bytes, RegName.idx, readInstr, readTwoByte, readModRm,
        BitVec.extractLsb'_or]
  | movR8Imm8 dst imm8 => cases dst <;> rfl
  | movM32Imm32 dst disp imm32 | movR32Imm32 dst imm32 =>
      simp [Instr.bytes, Instr.encode, Item.bytes, readInstr, readModRm, BitVec.extractLsb'_or, readImm32_bytesLe]
  | _ =>
      simp [Instr.bytes, Instr.encode, Item.bytes, RegName.idx, readInstr, readTwoByte, readModRm, readRegs,
        readRegsImm8, readImm8, arithImm8, shiftImm8, shiftCl, BitVec.extractLsb'_or]

/-! ## Unique decoding -/

theorem Instr.bytes_ne_nil (i : Instr) : i.bytes ≠ [] := by
  cases i <;> exact List.cons_ne_nil _ _

/-- Machine code is uniquely decodable: `decode` inverts `instruction-encode` on all that can run, the bytes are as
many as `instruction-size` says, and a stream of bytes is the code of one list of instructions only. -/
theorem machine_code_uniquely_decodable :
    (∀ i : Instr, i ≠ .ret → i.Declared → decode i.encode = some i ∧ i.bytes.length = i.size) ∧
      ∀ is js : List Instr, (∀ i ∈ is, i.Declared) → (∀ j ∈ js, j.Declared) →
        is.flatMap Instr.bytes = js.flatMap Instr.bytes → is = js := by
  refine ⟨?_, ?_⟩
  · intro i hret _
    exact ⟨decode_encode hret, i.length_bytes⟩
  · intro is js his hjs heq
    exact reads_instr.flatMap_inj (fun i _ => i.bytes_ne_nil) his hjs heq

theorem machine_code_uniquely_decodable_movzx :
    (decode (Instr.movzxR32R8 .eax (.r8 .ah)).encode = some (.movzxR32R8 .eax (.r8 .ah)) ∧
        (Instr.movzxR32R8 .eax (.r8 .ah)).bytes.length = 3) ∧
      [Instr.movzxR32R8 .eax (.r8 .ah), .ret].flatMap Instr.bytes = [0x0F, 0xB6, 0xC4, 0xC3] ∧
      [Instr.movzxR32R8 .eax (.r8 .ah), .ret] = [Instr.movzxR32R8 .eax (.r8 .ah)] ++ [.ret] := by
  have hmovzx : (Instr.movzxR32R8 .eax (.r8 .ah)).Declared := ⟨.ah, rfl⟩
  have hdecl : ∀ i ∈ [Instr.movzxR32R8 .eax (.r8 .ah), .ret], i.Declared := by
    intro i hi
    rcases List.mem_pair.mp hi with rfl | rfl
    · exact hmovzx
    · exact trivial
  refine ⟨machine_code_uniquely_decodable.1 _ (by decide) hmovzx, by decide, ?_⟩
  exact machine_code_uniquely_decodable.2 _ _ hdecl hdecl rfl

end X32
end Serval
