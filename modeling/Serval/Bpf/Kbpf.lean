import Serval.Bpf.Program

/-!
# Kbpf — the C interpreter of `bpf/kbpf.c` and the encoding of `bpf/kbpf.rkt`

`___bpf_prog_run` fetches a `struct bpf_insn`, selects a label by its opcode and executes it on an array of 64-bit
registers.  Conversions are written out: an immediate is an `s32` that becomes a `u64` by sign extension, and the
32-bit operations work on `(u32)` casts.  What C leaves undefined (a shift by the width or more, division by zero,
an index outside an array) and `BUG_ON` have no result.  Loads, stores, calls and 32-bit jumps are left out.

`kbpf.rkt` writes a program into an array of `struct bpf_insn`.  Its `decode` has no case for `BPF_JLT`, `BPF_JLE`,
`BPF_JSLT` and `BPF_JSLE`, so programs with these cannot be written.
-/

namespace Serval
namespace Bpf

/-! ## Opcodes (`bpf.h`) -/

def AluClass.code : AluClass → BitVec 8
  | alu => 0x04
  | alu64 => 0x07

def AluOp.code : AluOp → BitVec 8
  | add => 0x00
  | sub => 0x10
  | mul => 0x20
  | div => 0x30
  | or => 0x40
  | and => 0x50
  | lsh => 0x60
  | rsh => 0x70
  | neg => 0x80
  | mod => 0x90
  | xor => 0xa0
  | mov => 0xb0
  | arsh => 0xc0

def Source.code : Source → BitVec 8
  | k => 0x00
  | x => 0x08

def Endian.code : Endian → BitVec 8
  | fromLe => 0x00
  | fromBe => 0x08

def JmpOp.code : JmpOp → BitVec 8
  | jeq => 0x10
  | jgt => 0x20
  | jge => 0x30
  | jset => 0x40
  | jne => 0x50
  | jsgt => 0x60
  | jsge => 0x70
  | jlt => 0xa0
  | jle => 0xb0
  | jslt => 0xc0
  | jsle => 0xd0

def BPF_LD : BitVec 8 := 0x00
def BPF_JMP : BitVec 8 := 0x05
def BPF_DW : BitVec 8 := 0x18
def BPF_IMM : BitVec 8 := 0x00
def BPF_END : BitVec 8 := 0xd0
def BPF_JA : BitVec 8 := 0x00
def BPF_EXIT : BitVec 8 := 0x90

namespace Kbpf

/-- `struct bpf_insn`; the byte `regs` has `dst_reg` in its lower and `src_reg` in its upper four bits. -/
structure BpfInsn where
  code : BitVec 8
  regs : BitVec 8
  off : BitVec 16
  imm : BitVec 32
  deriving DecidableEq, Repr

/-! ## Writing a program (`kbpf.rkt`) -/

/-- `decode`, for a comparison. -/
def decode : JmpOp → Option (BitVec 8)
  | .jeq => some JmpOp.jeq.code
  | .jgt => some JmpOp.jgt.code
  | .jge => some JmpOp.jge.code
  | .jset => some JmpOp.jset.code
  | .jne => some JmpOp.jne.code
  | .jsgt => some JmpOp.jsgt.code
  | .jsge => some JmpOp.jsge.code
  -- `(displayln code)`, which is not an integer
  | .jlt | .jle | .jslt | .jsle => none

/-- `symbol->code`. -/
def symbolToCode : Code → Option (BitVec 8)
  | .binary cls op source => some (cls.code ||| op.code ||| source.code)
  | .neg cls => some (cls.code ||| AluOp.neg.code)
  | .endian order => some (AluClass.alu.code ||| BPF_END ||| order.code)
  | .ja => some (BPF_JMP ||| BPF_JA ||| Source.k.code)
  | .jmp op source => (decode op).map fun code => BPF_JMP ||| code ||| source.code

/-- `insn-op`. -/
def insnOp (r : Reg) : BitVec 4 :=
  BitVec.ofNat 4 r

/-- `prog-update-one!`: the slot as it is stored; absent fields are stored as 0. -/
def progUpdateOne : Slot → Option BpfInsn
  | .insn i => (symbolToCode i.code).map fun code => ⟨code, insnOp i.src ++ insnOp i.dst, i.off, i.imm⟩
  | .ldImm64 dst src lower => some ⟨BPF_LD ||| BPF_DW ||| BPF_IMM, insnOp src ++ insnOp dst, 0, lower⟩
  | .upper imm => some ⟨0, 0, 0, imm⟩
  | .exit => some ⟨BPF_JMP ||| BPF_EXIT, 0, 0, 0⟩

/-- `prog-update!`. -/
def progUpdate : List Slot → Option (List BpfInsn)
  | [] => some []
  | slot :: prog => (progUpdateOne slot).bind fun insn => (progUpdate prog).map fun rest => insn :: rest

/-! ## Labels -/

/-- The labels of the `switch`, named by the instructions they are for. -/
inductive Label
  | insn (code : Code)
  | ldImmDw
  | exit
  deriving DecidableEq, Repr

def Label.opcode : Label → BitVec 8
  | insn (.binary cls op source) => cls.code ||| op.code ||| source.code
  | insn (.neg cls) => cls.code ||| AluOp.neg.code
  | insn (.endian order) => AluClass.alu.code ||| BPF_END ||| order.code
  | insn .ja => BPF_JMP ||| BPF_JA
  | insn (.jmp op source) => BPF_JMP ||| op.code ||| source.code
  | ldImmDw => BPF_LD ||| BPF_IMM ||| BPF_DW
  | exit => BPF_JMP ||| BPF_EXIT

/-- `BPF_INSN_MAP`. -/
def insnMap : List Label :=
  let aluOps : List AluOp := [.add, .sub, .and, .or, .lsh, .rsh, .xor, .mul, .mov, .arsh, .div, .mod]
  let jmpOps : List JmpOp := [.jeq, .jne, .jgt, .jlt, .jge, .jle, .jsgt, .jslt, .jsge, .jsle, .jset]
  let alu (cls : AluClass) (source : Source) : List Label := aluOps.map fun op => .insn (.binary cls op source)
  let jmp (source : Source) : List Label := jmpOps.map fun op => .insn (.jmp op source)
  alu .alu .x ++ [.insn (.neg .alu), .insn (.endian .fromBe), .insn (.endian .fromLe)] ++ alu .alu .k ++
    alu .alu64 .x ++ [.insn (.neg .alu64)] ++ alu .alu64 .k ++
    [.exit] ++ jmp .x ++ jmp .k ++ [.insn .ja, .ldImmDw]

/-- `switch (insn->code)`; the default label is `BUG_ON(1)`. -/
def selectInsn (code : BitVec 8) : Option Label :=
  insnMap.find? fun l => l.opcode == code

/-! ## Operations -/

/-- The binary operations at 64 bits: the new `DST`, and the new `AX` where it is used. -/
def alu64 (op : AluOp) (dst src : BitVec 64) : Option (BitVec 64 × Option (BitVec 64)) :=
  match op with
  | .add => some (dst + src, none)
  | .sub => some (dst - src, none)
  | .and => some (dst &&& src, none)
  | .or => some (dst ||| src, none)
  | .lsh => if src.toNat < 64 then some (dst <<< src.toNat, none) else none
  | .rsh => if src.toNat < 64 then some (dst >>> src.toNat, none) else none
  | .xor => some (dst ^^^ src, none)
  | .mul => some (dst * src, none)
  | .mov => some (src, none)
  | .arsh => if src.toNat < 64 then some (dst.sshiftRight src.toNat, none) else none
  | .div => if src = 0 then none else some (dst / src, none)
  -- div64_u64_rem(DST, SRC, &AX); DST = AX
  | .mod => if src = 0 then none else some (dst % src, some (dst % src))
  | .neg => none

/-- The binary operations at 32 bits. -/
def alu32 (op : AluOp) (dst src : BitVec 64) : Option (BitVec 64 × Option (BitVec 64)) :=
  let d : BitVec 32 := dst.setWidth 32
  let s : BitVec 32 := src.setWidth 32
  match op with
  | .add => some ((d + s).setWidth 64, none)
  | .sub => some ((d - s).setWidth 64, none)
  | .and => some ((d &&& s).setWidth 64, none)
  | .or => some ((d ||| s).setWidth 64, none)
  | .lsh => if s.toNat < 32 then some ((d <<< s.toNat).setWidth 64, none) else none
  | .rsh => if s.toNat < 32 then some ((d >>> s.toNat).setWidth 64, none) else none
  | .xor => some ((d ^^^ s).setWidth 64, none)
  | .mul => some ((d * s).setWidth 64, none)
  | .mov => some (s.setWidth 64, none)
  -- (*(s32 *) &DST) >> SRC: the amount is not cast
  | .arsh => if src.toNat < 32 then some ((d.sshiftRight src.toNat).setWidth 64, none) else none
  -- AX = (u32) DST; do_div(AX, (u32) SRC); DST = (u32) AX
  | .div =>
      if s = 0 then none
      else
        let ax := d.setWidth 64 / s.setWidth 64
        some ((ax.setWidth 32).setWidth 64, some ax)
  -- AX = (u32) DST; DST = do_div(AX, (u32) SRC)
  | .mod =>
      if s = 0 then none
      else some (((d.setWidth 64 % s.setWidth 64).setWidth 32).setWidth 64, some (d.setWidth 64 / s.setWidth 64))
  | .neg => none

/-- `swab16`, `swab32` and `swab64`: the bytes in the other order. -/
def swab16 (x : BitVec 16) : BitVec 16 :=
  let byte (i : Nat) : BitVec 8 := x.extractLsb' (8 * i) 8
  byte 0 ++ byte 1

def swab32 (x : BitVec 32) : BitVec 32 :=
  let byte (i : Nat) : BitVec 8 := x.extractLsb' (8 * i) 8
  byte 0 ++ byte 1 ++ byte 2 ++ byte 3

def swab64 (x : BitVec 64) : BitVec 64 :=
  let byte (i : Nat) : BitVec 8 := x.extractLsb' (8 * i) 8
  byte 0 ++ byte 1 ++ byte 2 ++ byte 3 ++ byte 4 ++ byte 5 ++ byte 6 ++ byte 7

/-- `ALU_END_TO_BE` and `ALU_END_TO_LE` on a little-endian host; other immediates change nothing. -/
def aluEnd (order : Endian) (imm : BitVec 32) (dst : BitVec 64) : BitVec 64 :=
  match order with
  | .fromBe =>
      if imm = 16 then (swab16 (dst.setWidth 16)).setWidth 64
      else if imm = 32 then (swab32 (dst.setWidth 32)).setWidth 64
      else if imm = 64 then swab64 dst
      else dst
  | .fromLe =>
      if imm = 16 then (dst.setWidth 16).setWidth 64
      else if imm = 32 then (dst.setWidth 32).setWidth 64
      else dst

/-- `COND_JMP` at 64 bits. -/
def condJmp (op : JmpOp) (dst src : BitVec 64) : Bool :=
  match op with
  | .jeq => decide (dst.toNat = src.toNat)
  | .jne => decide (dst.toNat ≠ src.toNat)
  | .jgt => decide (dst.toNat > src.toNat)
  | .jlt => decide (dst.toNat < src.toNat)
  | .jge => decide (dst.toNat ≥ src.toNat)
  | .jle => decide (dst.toNat ≤ src.toNat)
  | .jset => decide (dst &&& src ≠ 0)
  | .jsgt => decide (dst.toInt > src.toInt)
  | .jslt => decide (dst.toInt < src.toInt)
  | .jsge => decide (dst.toInt ≥ src.toInt)
  | .jsle => decide (dst.toInt ≤ src.toInt)

/-! ## `___bpf_prog_run` -/

/-- `regs[MAX_BPF_EXT_REG]`. -/
abbrev Regs := Fin 12 → BitVec 64

def BPF_REG_AX : Fin 12 := 11

/-- The local state: the registers, and `insn` as an index into the program. -/
structure State where
  regs : Regs
  insn : BitVec 64

/-- A register number, if it is one of the array. -/
def regOf (n : BitVec 4) : Option (Fin 12) :=
  if h : n.toNat < 12 then some ⟨n.toNat, h⟩ else none

def BpfInsn.dstReg (i : BpfInsn) : Option (Fin 12) :=
  regOf (i.regs.extractLsb' 0 4)

def BpfInsn.srcReg (i : BpfInsn) : Option (Fin 12) :=
  regOf (i.regs.extractLsb' 4 4)

/-- `SRC`, or `IMM` converted to `u64`. -/
def operand (regs : Regs) (i : BpfInsn) : Source → Option (BitVec 64)
  | .x => i.srcReg.map regs
  | .k => some (i.imm.signExtend 64)

/-- `DST = r.1`, with `AX` written before if there is a value for it, and `CONT`. -/
def State.write (s : State) (dst : Fin 12) (r : BitVec 64 × Option (BitVec 64)) : State where
  regs := Function.update (match r.2 with
    | some ax => Function.update s.regs BPF_REG_AX ax
    | none => s.regs) dst r.1
  insn := s.insn + 1

/-- The code at a label: the next state, or the value returned. -/
def execute (prog : List BpfInsn) (s : State) (i : BpfInsn) : Label → Option (State ⊕ BitVec 64)
  | .insn (.binary cls op source) => do
      let dst ← i.dstReg
      let src ← operand s.regs i source
      let r ← match cls with
        | .alu64 => alu64 op (s.regs dst) src
        | .alu => alu32 op (s.regs dst) src
      return .inl (s.write dst r)
  | .insn (.neg .alu) => do
      let dst ← i.dstReg
      return .inl (s.write dst (((-(s.regs dst)).setWidth 32).setWidth 64, none))
  | .insn (.neg .alu64) => do
      let dst ← i.dstReg
      return .inl (s.write dst (-(s.regs dst), none))
  | .insn (.endian order) => do
      let dst ← i.dstReg
      return .inl (s.write dst (aluEnd order i.imm (s.regs dst), none))
  | .insn .ja => some (.inl { s with insn := s.insn + i.off.signExtend 64 + 1 })
  | .insn (.jmp op source) => do
      let dst ← i.dstReg
      let src ← operand s.regs i source
      return .inl { s with
        insn := if condJmp op (s.regs dst) src then s.insn + i.off.signExtend 64 + 1 else s.insn + 1 }
  | .ldImmDw => do
      let dst ← i.dstReg
      let i1 ← prog[(s.insn + 1).toNat]?
      return .inl
        ⟨Function.update s.regs dst (i.imm.setWidth 64 ||| i1.imm.setWidth 64 <<< 32), s.insn + 1 + 1⟩
  | .exit => some (.inr (s.regs 0))

def step (prog : List BpfInsn) (s : State) : Option (State ⊕ BitVec 64) := do
  let i ← prog[s.insn.toNat]?
  let label ← selectInsn i.code
  execute prog s i label

/-- `___bpf_prog_run`, as far as the fuel goes. -/
def progRun (prog : List BpfInsn) : Nat → State → Option (BitVec 64)
  | 0, _ => none
  | n + 1, s =>
      match step prog s with
      | some (.inl s') => progRun prog n s'
      | some (.inr r0) => some r0
      | none => none

/-- `bpf_prog_run`, with `ctx` and `stack` at the given addresses. -/
def bpfProgRun (ctx stack : BitVec 64) (regs : Regs) (prog : List BpfInsn) (fuel : Nat) : Option (BitVec 32) :=
  let regs := Function.update (Function.update regs 10 (stack + 512)) 1 ctx
  (progRun prog fuel ⟨regs, 0⟩).map fun r0 => r0.setWidth 32

end Kbpf
end Bpf
end Serval
