import Serval.Bpf.Jit.Common
import Serval.X32.Interp

/-!
# X32 — the JIT compiler of `bpf/jit/x32.rkt`

Every BPF register is a pair of words in a scratch area that `ebp` points to.  An emitter of the source
encodes one instruction after the other, decodes it again and checks that nothing has changed; here it
returns the list of what came out of these checks, and `assemble` is the program if none has failed.

In the source an operand is a register or an offset from `ebp`, and a flag beside it says which.  Here
the operand itself says it, so that `dstk` and `sstk` do not appear.
-/

namespace Serval
namespace Bpf
namespace Jit
namespace X32

open Serval.Core Serval.X32

/-- The registers of the target. -/
abbrev Gpr := Serval.X32.Gpr

/-! ## Operands -/

def SCRATCH_SIZE : Nat := 96

/-- An operand of one word. -/
inductive Operand
  | stk (off : Nat)
  | reg (g : Gpr)
  deriving DecidableEq, Repr

/-- An operand of two words. -/
inductive Loc
  | stack (lo hi : Nat)
  | regs (lo hi : Gpr)
  deriving DecidableEq, Repr

namespace Loc

def lo : Loc → Operand
  | stack lo _ => .stk lo
  | regs lo _ => .reg lo

def hi : Loc → Operand
  | stack _ hi => .stk hi
  | regs _ hi => .reg hi

end Loc

/-- `bpf2ia32`. -/
def bpf2ia32 (r : Bpf.Reg) : Loc :=
  .stack (8 * r) (8 * r + 4)

/-! ## Encoding -/

abbrev Code := List (Except Bug Instr)

/-- The checks that every encoded instruction goes through. -/
def decode (code : List Item) (size : Nat) : Except Bug Instr :=
  match Serval.X32.decode code with
  | none => .error .noSuchEncoding
  | some insn => do
      bugOn (code ≠ insn.encode) .encodingMismatch
      bugOn (size ≠ insn.size) .sizeMismatch
      return insn

/-- The program, if every check has passed. -/
def assemble (code : Code) : Except Bug (List Instr) :=
  code.mapM id

def add1reg (modOpcode : BitVec 8) (rm : Gpr) : Item := .modOpcodeRm modOpcode rm
def add2reg (mod : BitVec 8) (rm reg : Gpr) : Item := .modRm mod rm reg
def stackVar (off : Nat) : Item := .imm8 (BitVec.ofNat 8 off)

def emit2 (b1 : BitVec 8) (b2 : Item) : Except Bug Instr := decode [.opcode b1, b2] 2
def emit3 (b1 : BitVec 8) (b2 b3 : Item) : Except Bug Instr := decode [.opcode b1, b2, b3] 3
def emit4 (b1 b2 : BitVec 8) (b3 b4 : Item) : Except Bug Instr :=
  decode [.opcode b1, .opcode b2, b3, b4] 4
def emit2Off32 (b1 : BitVec 8) (b2 : Item) (off : BitVec 32) : Except Bug Instr :=
  decode [.opcode b1, b2, .imm32 off] 6
def emit3Off32 (b1 : BitVec 8) (b2 b3 : Item) (off : BitVec 32) : Except Bug Instr :=
  decode [.opcode b1, b2, b3, .imm32 off] 7

/-- `IA32_JB`. -/
def IA32_JB : BitVec 8 := 0x72

def isImm8 (imm : BitVec 32) : Prop :=
  imm.sle 127 ∧ (-128#32).sle imm

instance (imm : BitVec 32) : Decidable (isImm8 imm) :=
  inferInstanceAs (Decidable (_ ∧ _))

namespace Operand

/-- The register for an operand: its own, or the one that it is loaded into. -/
def inReg (o : Operand) (r : Gpr) : Gpr :=
  match o with
  | stk _ => r
  | reg g => g

/-- `mov r,dword ptr [ebp+off]`, when the operand is on the stack. -/
def load (o : Operand) (r : Gpr) : Code :=
  match o with
  | stk off => [emit3 0x8B (add2reg 0x40 .ebp r) (stackVar off)]
  | reg _ => []

/-- `mov dword ptr [ebp+off],r`, when the operand is on the stack. -/
def store (o : Operand) (r : Gpr) : Code :=
  match o with
  | stk off => [emit3 0x89 (add2reg 0x40 .ebp r) (stackVar off)]
  | reg _ => []

/-- `mov r,o`, for an operand of either kind. -/
def move (o : Operand) (r : Gpr) : Code :=
  match o with
  | stk _ => o.load r
  | reg g => [emit2 0x8B (add2reg 0xC0 g r)]

end Operand

/-! ## Emitters -/

def emitIa32MovI (dst : Operand) (val : BitVec 32) : Code :=
  match dst with
  | .stk off =>
      if val = 0 then
        [emit2 0x33 (add2reg 0xC0 .eax .eax), emit3 0x89 (add2reg 0x40 .ebp .eax) (stackVar off)]
      else
        [emit3Off32 0xC7 (add1reg 0x40 .ebp) (stackVar off) val]
  | .reg g =>
      if val = 0 then
        [emit2 0x33 (add2reg 0xC0 g g)]
      else
        [emit2Off32 0xC7 (add1reg 0xC0 g) val]

def emitIa32MovR (dst src : Operand) : Code :=
  let sreg := src.inReg .eax
  src.load .eax ++
    match dst with
    | .stk _ => dst.store sreg
    | .reg g => [emit2 0x89 (add2reg 0xC0 g sreg)]

def emitIa32MovR64 (is64 : Bool) (dst src : Loc) : Code :=
  emitIa32MovR dst.lo src.lo ++
    if is64 then emitIa32MovR dst.hi src.hi else emitIa32MovI dst.hi 0

/-- The upper word of an immediate. -/
def hival (is64 : Bool) (val : BitVec 32) : BitVec 32 :=
  if is64 ∧ val &&& (1 <<< 31) ≠ 0 then -1 else 0

def emitIa32MovI64 (is64 : Bool) (dst : Loc) (val : BitVec 32) : Code :=
  emitIa32MovI dst.lo val ++ emitIa32MovI dst.hi (hival is64 val)

section Pairs

variable (dst : Loc)

/-- The loads of both words. -/
def Loc.loads : Code :=
  dst.lo.load .eax ++ dst.hi.load .edx

/-- The stores of both words. -/
def Loc.stores : Code :=
  dst.lo.store (dst.lo.inReg .eax) ++ dst.hi.store (dst.hi.inReg .edx)

def emitIa32Neg64 : Code :=
  let dregLo := dst.lo.inReg .eax
  let dregHi := dst.hi.inReg .edx
  dst.loads ++
    [emit2 0xF7 (add1reg 0xD8 dregLo), emit3 0x83 (add1reg 0xD0 dregHi) (.imm8 0),
      emit2 0xF7 (add1reg 0xD8 dregHi)] ++
    dst.stores

def emitIa32LshR64 (src : Loc) : Code :=
  let dregLo := dst.lo.inReg .eax
  let dregHi := dst.hi.inReg .edx
  dst.loads ++ src.lo.move .ecx ++
    [emit3 0x0F (.opcode 0xA5) (add2reg 0xC0 dregHi dregLo), emit2 0xD3 (add1reg 0xE0 dregLo),
      emit3 0x83 (add1reg 0xF8 .ecx) (.imm8 32),
      -- skip the next two instructions (4 bytes) when < 32
      emit2 IA32_JB (.imm8 4),
      emit2 0x89 (add2reg 0xC0 dregHi dregLo), emit2 0x33 (add2reg 0xC0 dregLo dregLo)] ++
    dst.stores

def emitIa32RshR64 (src : Loc) : Code :=
  let dregLo := dst.lo.inReg .eax
  let dregHi := dst.hi.inReg .edx
  dst.loads ++ src.lo.move .ecx ++
    [emit3 0x0F (.opcode 0xAD) (add2reg 0xC0 dregLo dregHi), emit2 0xD3 (add1reg 0xE8 dregHi),
      emit3 0x83 (add1reg 0xF8 .ecx) (.imm8 32),
      emit2 IA32_JB (.imm8 4),
      emit2 0x89 (add2reg 0xC0 dregLo dregHi), emit2 0x33 (add2reg 0xC0 dregHi dregHi)] ++
    dst.stores

def emitIa32ArshR64 (src : Loc) : Code :=
  let dregLo := dst.lo.inReg .eax
  let dregHi := dst.hi.inReg .edx
  dst.loads ++ src.lo.move .ecx ++
    [emit3 0x0F (.opcode 0xAD) (add2reg 0xC0 dregLo dregHi), emit2 0xD3 (add1reg 0xF8 dregHi),
      emit3 0x83 (add1reg 0xF8 .ecx) (.imm8 32),
      -- the second of the two is one byte longer here
      emit2 IA32_JB (.imm8 5),
      emit2 0x89 (add2reg 0xC0 dregLo dregHi), emit3 0xC1 (add1reg 0xF8 dregHi) (.imm8 31)] ++
    dst.stores

def emitIa32LshI64 (val : BitVec 32) : Code :=
  let dregLo := dst.lo.inReg .eax
  let dregHi := dst.hi.inReg .edx
  dst.loads ++
    (if val < 32 then
      [emit4 0x0F 0xA4 (add2reg 0xC0 dregHi dregLo) (.imm8 (val.extractLsb' 0 8)),
        emit3 0xC1 (add1reg 0xE0 dregLo) (.imm8 (val.extractLsb' 0 8))]
    else
      [emit3 0xC1 (add1reg 0xE0 dregLo) (.imm8 ((val - 32).extractLsb' 0 8)),
        emit2 0x89 (add2reg 0xC0 dregHi dregLo), emit2 0x33 (add2reg 0xC0 dregLo dregLo)]) ++
    dst.stores

def emitIa32RshI64 (val : BitVec 32) : Code :=
  let dregLo := dst.lo.inReg .eax
  let dregHi := dst.hi.inReg .edx
  dst.loads ++
    (if val < 32 then
      [emit4 0x0F 0xAC (add2reg 0xC0 dregLo dregHi) (.imm8 (val.extractLsb' 0 8)),
        emit3 0xC1 (add1reg 0xE8 dregHi) (.imm8 (val.extractLsb' 0 8))]
    else
      [emit3 0xC1 (add1reg 0xE8 dregHi) (.imm8 ((val - 32).extractLsb' 0 8)),
        emit2 0x89 (add2reg 0xC0 dregLo dregHi), emit2 0x33 (add2reg 0xC0 dregHi dregHi)]) ++
    dst.stores

def emitIa32ArshI64 (val : BitVec 32) : Code :=
  let dregLo := dst.lo.inReg .eax
  let dregHi := dst.hi.inReg .edx
  dst.loads ++
    (if val < 32 then
      [emit4 0x0F 0xAC (add2reg 0xC0 dregLo dregHi) (.imm8 (val.extractLsb' 0 8)),
        emit3 0xC1 (add1reg 0xF8 dregHi) (.imm8 (val.extractLsb' 0 8))]
    else
      [emit3 0xC1 (add1reg 0xF8 dregHi) (.imm8 ((val - 32).extractLsb' 0 8)),
        emit2 0x89 (add2reg 0xC0 dregLo dregHi), emit3 0xC1 (add1reg 0xF8 dregHi) (.imm8 31)]) ++
    dst.stores

end Pairs

/-- `emit_ia32_shift_r`, with the opcode that `op` stands for. -/
def emitIa32ShiftR (b2 : BitVec 8) (dst src : Operand) : Code :=
  let dreg := dst.inReg .eax
  dst.load .eax ++ (if src = .reg .ecx then [] else src.move .ecx) ++ [emit2 0xD3 (add1reg b2 dreg)] ++
    dst.store dreg

def emitIa32AluR (is64 hi : Bool) (op : AluOp) (dst src : Operand) : Code :=
  let sreg := src.inReg .eax
  let dreg := dst.inReg .edx
  src.load .eax ++ dst.load .edx ++
    (match op with
    | .add => if hi ∧ is64 then [emit2 0x11 (add2reg 0xC0 dreg sreg)] else [emit2 0x01 (add2reg 0xC0 dreg sreg)]
    | .sub => if hi ∧ is64 then [emit2 0x19 (add2reg 0xC0 dreg sreg)] else [emit2 0x29 (add2reg 0xC0 dreg sreg)]
    | .or => [emit2 0x09 (add2reg 0xC0 dreg sreg)]
    | .and => [emit2 0x21 (add2reg 0xC0 dreg sreg)]
    | .xor => [emit2 0x31 (add2reg 0xC0 dreg sreg)]
    | _ => []) ++
    dst.store dreg

def emitIa32AluR64 (is64 : Bool) (op : AluOp) (dst src : Loc) : Code :=
  emitIa32AluR is64 false op dst.lo src.lo ++
    if is64 then emitIa32AluR is64 true op dst.hi src.hi else emitIa32MovI dst.hi 0

/-- The immediate form of an operation if the immediate has 8 bits, else the register form. -/
def aluImm (modOpcode opcode : BitVec 8) (dreg : Gpr) (val : BitVec 32) : Code :=
  if isImm8 val then
    [emit3 0x83 (add1reg modOpcode dreg) (.imm8 (val.extractLsb' 0 8))]
  else
    [emit2 opcode (add2reg 0xC0 dreg .edx)]

def emitIa32AluI (is64 hi : Bool) (op : AluOp) (dst : Operand) (val : BitVec 32) : Code :=
  let dreg := dst.inReg .eax
  dst.load .eax ++ (if isImm8 val then [] else [emit2Off32 0xC7 (add1reg 0xC0 .edx) val]) ++
    (match op with
    | .add => if hi ∧ is64 then aluImm 0xD0 0x11 dreg val else aluImm 0xC0 0x01 dreg val
    | .sub => if hi ∧ is64 then aluImm 0xD8 0x19 dreg val else aluImm 0xE8 0x29 dreg val
    | .and => aluImm 0xE0 0x21 dreg val
    | .or => aluImm 0xC8 0x09 dreg val
    | .xor => aluImm 0xF0 0x31 dreg val
    | .neg => [emit2 0xF7 (add1reg 0xD8 dreg)]
    | _ => []) ++
    dst.store dreg

def emitIa32AluI64 (is64 : Bool) (op : AluOp) (dst : Loc) (val : BitVec 32) : Code :=
  emitIa32AluI is64 false op dst.lo val ++
    if is64 then emitIa32AluI is64 true op dst.hi (hival is64 val) else emitIa32MovI dst.hi 0

def emitIa32MulR (dst src : Operand) : Code :=
  src.load .ecx ++ dst.move .eax ++ [emit2 0xF7 (add1reg 0xE0 (src.inReg .ecx))] ++
    match dst with
    | .stk _ => dst.store .eax
    | .reg g => [emit2 0x89 (add2reg 0xC0 g .eax)]

/-- `mul` of an operand of either kind. -/
def Operand.mul (o : Operand) : Code :=
  match o with
  | .stk off => [emit3 0xF7 (add1reg 0x60 .ebp) (stackVar off)]
  | .reg g => [emit2 0xF7 (add1reg 0xE0 g)]

def emitIa32MulR64 (dst src : Loc) : Code :=
  dst.hi.move .eax ++ src.lo.mul ++ [emit2 0x89 (add2reg 0xC0 .ecx .eax)] ++
    dst.lo.move .eax ++ src.hi.mul ++ [emit2 0x01 (add2reg 0xC0 .ecx .eax)] ++
    dst.lo.move .eax ++ src.lo.mul ++ [emit2 0x01 (add2reg 0xC0 .ecx .edx)] ++
    match dst with
    | .stack _ _ => dst.lo.store .eax ++ dst.hi.store .ecx
    | .regs lo hi => [emit2 0x89 (add2reg 0xC0 lo .eax), emit2 0x89 (add2reg 0xC0 hi .ecx)]

/-! ## The compiler -/

/-- The opcode of a shift. -/
def shiftOpcode : AluOp → Option (BitVec 8)
  | .lsh => some 0xE0
  | .rsh => some 0xE8
  | .arsh => some 0xF8
  | _ => none

/-- `run-jit`; `none` when there is no case for the instruction. -/
def runJit (i : Insn) : Option Code :=
  let dst := bpf2ia32 i.dst
  let src := bpf2ia32 i.src
  match i.code with
  | .binary cls .mov .x => some (emitIa32MovR64 (cls = .alu64) dst src)
  | .binary cls .mov .k => some (emitIa32MovI64 (cls = .alu64) dst i.imm)
  | .binary cls .add .x => some (emitIa32AluR64 (cls = .alu64) .add dst src)
  | .binary cls .sub .x => some (emitIa32AluR64 (cls = .alu64) .sub dst src)
  | .binary cls .or .x => some (emitIa32AluR64 (cls = .alu64) .or dst src)
  | .binary cls .and .x => some (emitIa32AluR64 (cls = .alu64) .and dst src)
  | .binary cls .xor .x => some (emitIa32AluR64 (cls = .alu64) .xor dst src)
  | .binary cls .add .k => some (emitIa32AluI64 (cls = .alu64) .add dst i.imm)
  | .binary cls .sub .k => some (emitIa32AluI64 (cls = .alu64) .sub dst i.imm)
  | .binary cls .or .k => some (emitIa32AluI64 (cls = .alu64) .or dst i.imm)
  | .binary cls .and .k => some (emitIa32AluI64 (cls = .alu64) .and dst i.imm)
  | .binary cls .xor .k => some (emitIa32AluI64 (cls = .alu64) .xor dst i.imm)
  | .binary .alu .mul .x => some (emitIa32MulR dst.lo src.lo ++ emitIa32MovI dst.hi 0)
  | .binary .alu .mul .k =>
      some (emit2Off32 0xC7 (add1reg 0xC0 .ecx) i.imm :: emitIa32MulR dst.lo (.reg .ecx) ++
        emitIa32MovI dst.hi 0)
  | .binary .alu64 .lsh .k => some (emitIa32LshI64 dst i.imm)
  | .binary .alu64 .rsh .k => some (emitIa32RshI64 dst i.imm)
  | .binary .alu64 .arsh .k => some (emitIa32ArshI64 dst i.imm)
  | .binary .alu64 .lsh .x => some (emitIa32LshR64 dst src)
  | .binary .alu64 .rsh .x => some (emitIa32RshR64 dst src)
  | .binary .alu64 .arsh .x => some (emitIa32ArshR64 dst src)
  | .binary .alu op .x => do
      return emitIa32ShiftR (← shiftOpcode op) dst.lo src.lo ++ emitIa32MovI dst.hi 0
  | .binary .alu op .k => do
      return emit2Off32 0xC7 (add1reg 0xC0 .ecx) i.imm ::
        emitIa32ShiftR (← shiftOpcode op) dst.lo (.reg .ecx) ++ emitIa32MovI dst.hi 0
  | .neg .alu => some (emitIa32AluI false false .neg dst.lo 0 ++ emitIa32MovI dst.hi 0)
  | .neg .alu64 => some (emitIa32Neg64 dst)
  | .binary .alu64 .mul .x => some (emitIa32MulR64 dst src)
  | _ => none

/-- The code for a sequence of instructions. -/
def runJits : List Insn → Option Code :=
  emitAll runJit

/-- `make-x32-program`: the code with `ret` behind it. -/
def makeX32Program (base : BitVec 32) (insns : List Instr) : Program where
  base := base
  instructions := machine.place base (insns ++ [.ret]) (fun _ => none)

end X32
end Jit
end Bpf
end Serval
