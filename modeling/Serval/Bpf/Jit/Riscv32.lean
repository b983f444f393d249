import Serval.Bpf.Jit.Common
import Serval.Bpf.Jit.RiscvCommon

/-!
# Riscv32 — the JIT compiler of `bpf/jit/riscv32.rkt`

A 64-bit BPF register is a pair of 32-bit registers, or two words of the stack below `fp` for R6 to
R9.  The emitters of the source append to a vector of instructions; here each returns what it appends.

In the source a member of a pair is a register name or a slot number, and assertions make sure that
both members are of the same kind and that temporaries are registers.  The types say that here.
-/

namespace Serval
namespace Bpf
namespace Jit

open Serval.Core Riscv.Interp

def STACK_SIZE : Nat := 32

/-- `stack-offset`, as the immediate of a load or store. -/
def stackOffset (k : Nat) : BitVec 12 :=
  BitVec.ofInt 12 (-4 - 4 * k)

structure Pair where
  hi : Gpr
  lo : Gpr
  deriving DecidableEq, Repr

/-- Where a 64-bit value is: in a pair of registers, or in two slots of the stack. -/
inductive Loc
  | regs (p : Pair)
  | stack (hi lo : Nat)
  deriving DecidableEq, Repr

/-- `TMP_REG_1`. -/
def tmp1 : Pair := ⟨Reg.t3, Reg.t2⟩

/-- `TMP_REG_2`. -/
def tmp2 : Pair := ⟨Reg.t5, Reg.t4⟩

def regmap : Fin 15 → Loc
  | 0 => .regs ⟨Reg.s2, Reg.s1⟩
  | 1 => .regs ⟨Reg.a1, Reg.a0⟩
  | 2 => .regs ⟨Reg.a3, Reg.a2⟩
  | 3 => .regs ⟨Reg.a5, Reg.a4⟩
  | 4 => .regs ⟨Reg.a7, Reg.a6⟩
  | 5 => .regs ⟨Reg.s4, Reg.s3⟩
  | 6 => .stack 0 1
  | 7 => .stack 2 3
  | 8 => .stack 4 5
  | 9 => .stack 6 7
  | 10 => .regs ⟨Reg.s6, Reg.s5⟩
  | 11 => .regs tmp1
  | 12 => .regs tmp2
  | 13 => .stack 8 9
  | 14 => .stack 10 11

/-- `bpf_to_rv_regs`. -/
def bpfToRvRegs (r : Bpf.Reg) : Loc :=
  regmap (r.castLE (by decide))

/-! ## Immediates -/

def emitImm (rd : Gpr) (val : BitVec 32) : List Instr :=
  let upper := (val + (1#32 <<< 11)).sshiftRight 12
  let lower := val &&& 0xfff#32
  if upper = 0 then
    [rvAddi rd Reg.zero (low12 lower)]
  else
    [rvLui rd (upper.extractLsb' 0 20), rvAddi rd rd (low12 lower)]

def emitImm32 (rd : Pair) (imm : BitVec 32) : List Instr :=
  emitImm rd.lo imm ++
    if (0#32).sle imm then [rvAddi rd.hi Reg.zero 0] else [rvAddi rd.hi Reg.zero (-1)]

/-- The immediate form of an operation if the immediate has 12 bits, else the register form with the
immediate in `t0`. -/
def emitWithImm (opi : BitVec 12 → Instr) (op : Gpr → Instr) (imm : BitVec 32) : List Instr :=
  if is12bInt imm then [opi (low12 imm)] else emitImm Reg.t0 imm ++ [op Reg.t0]

/-! ## Moving operands between the stack and registers -/

def riscvBpfGetReg64 (reg : Loc) (tmp : Pair) : List Instr × Pair :=
  match reg with
  | .stack hi lo =>
      ([rvLw tmp.hi (stackOffset hi) Reg.fp, rvLw tmp.lo (stackOffset lo) Reg.fp], tmp)
  | .regs p => ([], p)

def riscvBpfGetReg32 (reg : Loc) (tmp : Pair) : List Instr × Pair :=
  match reg with
  | .stack _ lo => ([rvLw tmp.lo (stackOffset lo) Reg.fp], tmp)
  | .regs p => ([], p)

def riscvBpfPutReg64 (reg : Loc) (src : Pair) : List Instr :=
  match reg with
  | .stack hi lo => [rvSw Reg.fp (stackOffset hi) src.hi, rvSw Reg.fp (stackOffset lo) src.lo]
  | .regs p => if p.hi ≠ src.hi then [rvAddi p.hi src.hi 0, rvAddi p.lo src.lo 0] else []

def riscvBpfPutReg32 (reg : Loc) (src : Pair) : List Instr :=
  match reg with
  | .stack hi lo => [rvSw Reg.fp (stackOffset hi) Reg.zero, rvSw Reg.fp (stackOffset lo) src.lo]
  | .regs p => [rvAddi p.hi Reg.zero 0, rvAddi p.lo src.lo 0]

/-! ## Operations with an immediate -/

/-- The `switch` of `emit_rv32_alu_i64`. -/
def aluI64 (rd : Pair) (imm : BitVec 32) : AluOp → List Instr
  | .mov => emitImm32 rd imm
  | .and =>
      emitWithImm (rvAndi rd.lo rd.lo) (rvAnd rd.lo rd.lo) imm ++
        if (0#32).sle imm then [rvAddi rd.hi Reg.zero 0] else []
  | .or =>
      emitWithImm (rvOri rd.lo rd.lo) (rvOr rd.lo rd.lo) imm ++
        if imm.slt 0 then [rvOri rd.hi Reg.t0 (-1), rvOri rd.hi Reg.t0 (-1)] else []
  | .xor =>
      emitWithImm (rvXori rd.lo rd.lo) (rvXor rd.lo rd.lo) imm ++
        if imm.slt 0 then [rvXori rd.hi rd.hi (-1)] else []
  | .lsh =>
      if 32 ≤ imm then
        [rvSlli rd.hi rd.lo (low12 (imm - 32)), rvAddi rd.lo Reg.zero 0]
      else if imm = 0 then
        []
      else
        [rvSrli Reg.t0 rd.lo (low12 (32 - imm)), rvSlli rd.hi rd.hi (low12 imm),
          rvOr rd.hi Reg.t0 rd.hi, rvSlli rd.lo rd.lo (low12 imm)]
  | .rsh =>
      if 32 ≤ imm then
        [rvSrli rd.lo rd.hi (low12 (imm - 32)), rvAddi rd.hi Reg.zero 0]
      else if imm = 0 then
        []
      else
        [rvSlli Reg.t0 rd.hi (low12 (32 - imm)), rvSrli rd.lo rd.lo (low12 imm),
          rvOr rd.lo Reg.t0 rd.lo, rvSrli rd.hi rd.hi (low12 imm)]
  | .arsh =>
      if 32 ≤ imm then
        [rvSrai rd.lo rd.hi (low12 (imm - 32)), rvSrai rd.hi rd.hi 31]
      else if imm = 0 then
        []
      else
        [rvSlli Reg.t0 rd.hi (low12 (32 - imm)), rvSrli rd.lo rd.lo (low12 imm),
          rvOr rd.lo Reg.t0 rd.lo, rvSrai rd.hi rd.hi (low12 imm)]
  | _ => []

def emitRv32AluI64 (dst : Loc) (imm : BitVec 32) (op : AluOp) : List Instr :=
  let (get, rd) := riscvBpfGetReg64 dst tmp1
  get ++ aluI64 rd imm op ++ riscvBpfPutReg64 dst rd

/-- The `switch` of `emit_rv32_alu_i32`. -/
def aluI32 (rd : Pair) (imm : BitVec 32) : AluOp → List Instr
  | .mov => emitImm rd.lo imm
  | .add => emitWithImm (rvAddi rd.lo rd.lo) (rvAdd rd.lo rd.lo) imm
  | .sub =>
      if is12bInt (-imm) then
        [rvAddi rd.lo rd.lo (low12 (-imm))]
      else
        emitImm Reg.t0 imm ++ [rvSub rd.lo rd.lo Reg.t0]
  | .and => emitWithImm (rvAndi rd.lo rd.lo) (rvAnd rd.lo rd.lo) imm
  | .or => emitWithImm (rvOri rd.lo rd.lo) (rvOr rd.lo rd.lo) imm
  | .xor => emitWithImm (rvXori rd.lo rd.lo) (rvXor rd.lo rd.lo) imm
  | .lsh => emitWithImm (rvSlli rd.lo rd.lo) (rvSll rd.lo rd.lo) imm
  | .rsh => emitWithImm (rvSrli rd.lo rd.lo) (rvSrl rd.lo rd.lo) imm
  | .arsh => emitWithImm (rvSrai rd.lo rd.lo) (rvSra rd.lo rd.lo) imm
  | _ => []

def emitRv32AluI32 (dst : Loc) (imm : BitVec 32) (op : AluOp) : List Instr :=
  let (get, rd) := riscvBpfGetReg32 dst tmp1
  get ++ aluI32 rd imm op ++ riscvBpfPutReg32 dst rd

/-! ## Operations on registers -/

/-- The code of a 64-bit shift by a register: `t0` is the amount minus 32, and the second part runs if
it is negative. -/
def shiftBranches (rs : Pair) (large small : List Instr) : List Instr :=
  [rvAddi Reg.t0 rs.lo (-32), rvBlt Reg.t0 Reg.zero 8] ++ large ++ [rvJal Reg.zero 16] ++ small

/-- The `switch` of `emit_rv32_alu_r64`. -/
def aluR64 (rd rs : Pair) : AluOp → List Instr
  | .mov => [rvAddi rd.lo rs.lo 0, rvAddi rd.hi rs.hi 0]
  | .add =>
      [rvAddi Reg.t0 rd.lo 0, rvAdd rd.lo rd.lo rs.lo, rvSltu Reg.t0 rd.lo Reg.t0,
        rvAdd rd.hi rd.hi rs.hi, rvAdd rd.hi rd.hi Reg.t0]
  | .sub =>
      [rvAddi Reg.t0 rd.lo 0, rvSub rd.lo rd.lo rs.lo, rvSltu Reg.t0 Reg.t0 rd.lo,
        rvSub rd.hi rd.hi rs.hi, rvSub rd.hi rd.hi Reg.t0]
  | .and => [rvAnd rd.lo rd.lo rs.lo, rvAnd rd.hi rd.hi rs.hi]
  | .or => [rvOr rd.lo rd.lo rs.lo, rvOr rd.hi rd.hi rs.hi]
  | .xor => [rvXor rd.lo rd.lo rs.lo, rvXor rd.hi rd.hi rs.hi]
  | .mul =>
      [rvMul Reg.t0 rs.hi rd.lo, rvMul rd.hi rd.hi rs.lo, rvMulhu Reg.t1 rd.lo rs.lo,
        rvAdd rd.hi rd.hi Reg.t0, rvMul rd.lo rd.lo rs.lo, rvAdd rd.hi rd.hi Reg.t1]
  | .lsh =>
      shiftBranches rs
        [rvSll rd.hi rd.lo Reg.t0, rvAddi rd.lo Reg.zero 0]
        [rvAddi Reg.t1 Reg.zero 31, rvSrli Reg.t0 rd.lo 1, rvSub Reg.t1 Reg.t1 rs.lo,
          rvSrl Reg.t0 Reg.t0 Reg.t1, rvSll rd.hi rd.hi rs.lo, rvOr rd.hi Reg.t0 rd.hi,
          rvSll rd.lo rd.lo rs.lo]
  | .rsh =>
      shiftBranches rs
        [rvSrl rd.lo rd.hi Reg.t0, rvAddi rd.hi Reg.zero 0]
        [rvAddi Reg.t1 Reg.zero 31, rvSlli Reg.t0 rd.hi 1, rvSub Reg.t1 Reg.t1 rs.lo,
          rvSll Reg.t0 Reg.t0 Reg.t1, rvSrl rd.lo rd.lo rs.lo, rvOr rd.lo Reg.t0 rd.lo,
          rvSrl rd.hi rd.hi rs.lo]
  | .arsh =>
      shiftBranches rs
        [rvSra rd.lo rd.hi Reg.t0, rvSrai rd.hi rd.hi 0x1f]
        [rvAddi Reg.t1 Reg.zero 31, rvSlli Reg.t0 rd.hi 1, rvSub Reg.t1 Reg.t1 rs.lo,
          rvSll Reg.t0 Reg.t0 Reg.t1, rvSrl rd.lo rd.lo rs.lo, rvOr rd.lo Reg.t0 rd.lo,
          rvSra rd.hi rd.hi rs.lo]
  | .neg =>
      [rvSub rd.lo Reg.zero rd.lo, rvSltu Reg.t0 Reg.zero rd.lo, rvSub rd.hi Reg.zero rd.hi,
        rvSub rd.hi rd.hi Reg.t0]
  | .div | .mod => []

def emitRv32AluR64 (dst src : Loc) (op : AluOp) : List Instr :=
  let (getDst, rd) := riscvBpfGetReg64 dst tmp1
  let (getSrc, rs) := riscvBpfGetReg64 src tmp2
  getDst ++ getSrc ++ aluR64 rd rs op ++ riscvBpfPutReg64 dst rd

/-- The `switch` of `emit_rv32_alu_r32`. -/
def aluR32 (rd rs : Pair) : AluOp → List Instr
  | .mov => [rvAddi rd.lo rs.lo 0]
  | .add => [rvAdd rd.lo rd.lo rs.lo]
  | .sub => [rvSub rd.lo rd.lo rs.lo]
  | .and => [rvAnd rd.lo rd.lo rs.lo]
  | .or => [rvOr rd.lo rd.lo rs.lo]
  | .xor => [rvXor rd.lo rd.lo rs.lo]
  | .mul => [rvMul rd.lo rd.lo rs.lo]
  | .div => [rvDivu rd.lo rd.lo rs.lo]
  | .mod => [rvRemu rd.lo rd.lo rs.lo]
  | .lsh => [rvSll rd.lo rd.lo rs.lo]
  | .rsh => [rvSrl rd.lo rd.lo rs.lo]
  | .arsh => [rvSra rd.lo rd.lo rs.lo]
  | .neg => [rvSub rd.lo Reg.zero rd.lo]

def emitRv32AluR32 (dst src : Loc) (op : AluOp) : List Instr :=
  let (getDst, rd) := riscvBpfGetReg32 dst tmp1
  let (getSrc, rs) := riscvBpfGetReg32 src tmp2
  getDst ++ getSrc ++ aluR32 rd rs op ++ riscvBpfPutReg32 dst rd

def emitRv32Rev16 (rd : Gpr) : List Instr :=
  [rvSlli rd rd 16, rvSlli Reg.t1 rd 8, rvSrli rd rd 8, rvAdd Reg.t1 rd Reg.t1, rvSrli rd Reg.t1 16]

/-- The `BPF_END BPF_FROM_BE` case of `run-jit`. -/
def emitFromBe (dst : Loc) (imm : BitVec 32) : List Instr :=
  let (get, rd) := riscvBpfGetReg64 dst tmp1
  get ++ (if imm = 16 then emitRv32Rev16 rd.lo ++ [rvAddi rd.hi Reg.zero 0] else []) ++
    riscvBpfPutReg64 dst rd

/-! ## The compiler -/

/-- `run-jit`; `none` when no case of the `match` applies. -/
def runJit (i : Insn) : Option (List Instr) :=
  let dst := bpfToRvRegs i.dst
  let src := bpfToRvRegs i.src
  match i.code with
  | .binary .alu64 op .x =>
      match op with
      | .lsh | .rsh | .arsh | .add | .sub | .and | .or | .xor | .mul | .mov =>
          some (emitRv32AluR64 dst src op)
      | .div | .mod | .neg => none
  | .binary .alu64 op .k =>
      match op with
      | .add | .sub | .mul => some (emitImm32 tmp2 i.imm ++ emitRv32AluR64 dst (.regs tmp2) op)
      | .mov | .and | .or | .xor | .lsh | .rsh | .arsh => some (emitRv32AluI64 dst i.imm op)
      | .div | .mod | .neg => none
  | .neg .alu64 => some (emitRv32AluR64 dst (bpfToRvRegs 0) .neg)
  | .binary .alu op .x =>
      match op with
      | .div | .mod | .lsh | .rsh | .arsh | .add | .sub | .and | .or | .xor | .mul | .mov =>
          some (emitRv32AluR32 dst src op)
      | .neg => none
  | .binary .alu op .k =>
      match op with
      | .div | .mod | .mul => some (emitImm32 tmp2 i.imm ++ emitRv32AluR32 dst (.regs tmp2) op)
      | .mov | .add | .sub | .and | .or | .xor | .lsh | .rsh | .arsh =>
          some (emitRv32AluI32 dst i.imm op)
      | .neg => none
  | .neg .alu => some (emitRv32AluR32 dst (bpfToRvRegs 0) .neg)
  | .endian .fromBe => some (emitFromBe dst i.imm)
  | .endian .fromLe | .ja | .jmp _ _ => none

/-- The concatenated code of a program; `none` when some instruction has no code. -/
def runJits : List Insn → Option (List Instr) :=
  emitAll runJit

def mret : Instr := ⟨.mret, none, none, none, none, 4⟩

/-- `make-riscv-program`. -/
def makeRiscvProgram (base : BitVec 32) (instrs : List Instr) : Program 32 :=
  ⟨base, (machine 32).place base (instrs ++ [mret]) fun _ => none⟩

end Jit
end Bpf
end Serval
