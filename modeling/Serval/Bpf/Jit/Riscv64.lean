import Serval.Bpf.Jit.Common
import Serval.Bpf.Jit.RiscvCommon

/-!
# Riscv64 — the JIT compiler of `bpf/jit/riscv64.rkt`

Every BPF register is one 64-bit register.  Operations on 32 bits use the word instructions, whose
results are sign-extended, and then clear the upper half; for some operations only the patch does the
latter.  The emitters of the source append to a list; here each returns what it appends.
-/

namespace Serval
namespace Bpf
namespace Jit
namespace Rv64

open Serval.Core Riscv.Interp

/-! ## The compiler -/

/-- `regmap`. -/
def regmap : Bpf.Reg → Gpr
  | 0 => Reg.a5
  | 1 => Reg.a0
  | 2 => Reg.a1
  | 3 => Reg.a2
  | 4 => Reg.a3
  | 5 => Reg.a4
  | 6 => Reg.s1
  | 7 => Reg.s2
  | 8 => Reg.s3
  | 9 => Reg.s4
  | 10 => Reg.s5

def emitImm (rd : Gpr) (val : BitVec 32) : List Instr :=
  let upper := (val + (1#32 <<< 11)).sshiftRight 12
  let lower := val &&& 0xfff#32
  if upper = 0 then
    [rvAddi rd Reg.zero (low12 lower)]
  else
    [rvLui rd (upper.extractLsb' 0 20), rvAddiw rd rd (low12 lower)]

def emitZext32 (reg : Gpr) : List Instr :=
  [rvSlli reg reg 32, rvSrli reg reg 32]

/-- The instruction for the class, and the extension of a 32-bit result. -/
def emitAlu (cls : AluClass) (rd : Gpr) (op64 op32 : Instr) (zext : Bool) : List Instr :=
  match cls with
  | .alu64 => [op64]
  | .alu => op32 :: if zext then emitZext32 rd else []

/-- The byte swap moves the lowest byte of `rd` to `t2`. -/
def emitSwapByte (rd : Gpr) : List Instr :=
  [rvAndi Reg.t1 rd 0xff, rvAdd Reg.t2 Reg.t2 Reg.t1, rvSlli Reg.t2 Reg.t2 8, rvSrli rd rd 8]

def emitSwapBytes (rd : Gpr) (n : Nat) : List Instr :=
  (List.replicate n (emitSwapByte rd)).flatten

/-- The `BPF_END BPF_FROM_BE` case of `run-jit`. -/
def emitFromBe (rd : Gpr) (imm : BitVec 32) : List Instr :=
  [rvAddi Reg.t2 Reg.zero 0] ++ emitSwapBytes rd 1 ++
    (if imm ≠ 16 then
      emitSwapBytes rd 2 ++ if imm ≠ 32 then emitSwapBytes rd 4 else []
    else []) ++
    [rvAndi Reg.t1 rd 0xff, rvAdd Reg.t2 Reg.t2 Reg.t1, rvAddi rd Reg.t2 0]

/-- `run-jit`; `none` when no case of the `match` applies. -/
def runJit (patch : Bool) (i : Insn) : Option (List Instr) :=
  let rd := regmap i.dst
  let rs := regmap i.src
  match i.code with
  | .binary cls op .x =>
      match op with
      | .mov => some (emitAlu cls rd (rvAddi rd rs 0) (rvAddiw rd rs 0) true)
      | .add => some (emitAlu cls rd (rvAdd rd rd rs) (rvAddw rd rd rs) patch)
      | .sub => some (emitAlu cls rd (rvSub rd rd rs) (rvSubw rd rd rs) patch)
      | .and => some (emitAlu cls rd (rvAnd rd rd rs) (rvAnd rd rd rs) patch)
      | .or => some (emitAlu cls rd (rvOr rd rd rs) (rvOr rd rd rs) patch)
      | .xor => some (emitAlu cls rd (rvXor rd rd rs) (rvXor rd rd rs) patch)
      | .mul => some (emitAlu cls rd (rvMul rd rd rs) (rvMulw rd rd rs) true)
      | .div => some (emitAlu cls rd (rvDivu rd rd rs) (rvDivuw rd rd rs) true)
      | .mod => some (emitAlu cls rd (rvRemu rd rd rs) (rvRemuw rd rd rs) true)
      | .lsh => some (emitAlu cls rd (rvSll rd rd rs) (rvSllw rd rd rs) patch)
      | .rsh => some (emitAlu cls rd (rvSrl rd rd rs) (rvSrlw rd rd rs) patch)
      | .arsh => some (emitAlu cls rd (rvSra rd rd rs) (rvSraw rd rd rs) patch)
      | .neg => none
  | .neg cls => some (emitAlu cls rd (rvSub rd Reg.zero rd) (rvSubw rd Reg.zero rd) patch)
  | .endian .fromLe =>
      let shift := low12 (64 - i.imm)
      some [rvSlli rd rd shift, rvSrli rd rd shift]
  | .endian .fromBe => some (emitFromBe rd i.imm)
  | .binary cls op .k =>
      let zext := match cls with
        | .alu64 => []
        | .alu => emitZext32 rd
      match op with
      | .mov => some (emitImm rd i.imm ++ zext)
      | .add =>
          if is12bInt i.imm then
            some (emitAlu cls rd (rvAddi rd rd (low12 i.imm)) (rvAddiw rd rd (low12 i.imm)) true)
          else
            some (emitImm Reg.t1 i.imm ++
              emitAlu cls rd (rvAdd rd rd Reg.t1) (rvAddw rd rd Reg.t1) true)
      | .lsh =>
          some (emitAlu cls rd (rvSlli rd rd (low12 i.imm)) (rvSlliw rd rd (low12 i.imm)) patch)
      | .rsh =>
          some (emitAlu cls rd (rvSrli rd rd (low12 i.imm)) (rvSrliw rd rd (low12 i.imm)) patch)
      | .arsh =>
          some (emitAlu cls rd (rvSrai rd rd (low12 i.imm)) (rvSraiw rd rd (low12 i.imm)) patch)
      | .sub | .mul | .div | .mod | .or | .and | .xor | .neg => none
  | .ja | .jmp _ _ => none

/-- The concatenated code of a program; `none` when some instruction has no code. -/
def runJits (patch : Bool) : List Insn → Option (List Instr) :=
  emitAll (runJit patch)

abbrev Rv64Cpu := Riscv.Interp.Cpu 64

/-- `run-jitted-code`: the instructions one after the other. -/
def runJittedCode : Rv64Cpu → List Instr → Except Bug Rv64Cpu
  | cpu, [] => .ok cpu
  | cpu, i :: insns => do runJittedCode (← Riscv.Interp.interpretInstr cpu i) insns

/-- `cpu-equal?`. -/
def cpuEqual (b : Bpf.Cpu) (r : Rv64Cpu) : Prop :=
  ∀ i, b.regs i = some (r.gprRef (regmap i))

/-! ## The word instructions -/

section Rules

variable (cpu : Rv64Cpu) (rd rs1 rs2 : Gpr) (code : List Instr) (Q : Rv64Cpu → Prop)

@[simp] theorem line_rvAddw : (machine 64).line (rvAddw rd rs1 rs2 :: code) Q cpu ↔
    (machine 64).line code Q (retire cpu rd
      (((cpu.gprRef rs1).setWidth 32 + (cpu.gprRef rs2).setWidth 32).signExtend 64)) :=
  line_retire rfl rfl rfl code Q

@[simp] theorem line_rvSubw : (machine 64).line (rvSubw rd rs1 rs2 :: code) Q cpu ↔
    (machine 64).line code Q (retire cpu rd
      (((cpu.gprRef rs1).setWidth 32 - (cpu.gprRef rs2).setWidth 32).signExtend 64)) :=
  line_retire rfl rfl rfl code Q

@[simp] theorem line_rvMulw : (machine 64).line (rvMulw rd rs1 rs2 :: code) Q cpu ↔
    (machine 64).line code Q (retire cpu rd
      (((cpu.gprRef rs1).setWidth 32 * (cpu.gprRef rs2).setWidth 32).signExtend 64)) :=
  line_retire rfl rfl rfl code Q

@[simp] theorem line_rvDivuw : (machine 64).line (rvDivuw rd rs1 rs2 :: code) Q cpu ↔
    (machine 64).line code Q (retire cpu rd
      ((((cpu.gprRef rs1).setWidth 32).smtUDiv ((cpu.gprRef rs2).setWidth 32)).signExtend 64)) :=
  line_retire rfl rfl rfl code Q

@[simp] theorem line_rvRemuw : (machine 64).line (rvRemuw rd rs1 rs2 :: code) Q cpu ↔
    (machine 64).line code Q (retire cpu rd
      (((cpu.gprRef rs1).setWidth 32 % (cpu.gprRef rs2).setWidth 32).signExtend 64)) :=
  line_retire rfl rfl rfl code Q

@[simp] theorem line_rvSllw : (machine 64).line (rvSllw rd rs1 rs2 :: code) Q cpu ↔
    (machine 64).line code Q (retire cpu rd
      (((cpu.gprRef rs1).setWidth 32 <<<
        shiftMask ((cpu.gprRef rs2).setWidth 32)).signExtend 64)) :=
  line_retire rfl rfl rfl code Q

@[simp] theorem line_rvSrlw : (machine 64).line (rvSrlw rd rs1 rs2 :: code) Q cpu ↔
    (machine 64).line code Q (retire cpu rd
      (((cpu.gprRef rs1).setWidth 32 >>>
        shiftMask ((cpu.gprRef rs2).setWidth 32)).signExtend 64)) :=
  line_retire rfl rfl rfl code Q

@[simp] theorem line_rvSraw : (machine 64).line (rvSraw rd rs1 rs2 :: code) Q cpu ↔
    (machine 64).line code Q (retire cpu rd
      ((((cpu.gprRef rs1).setWidth 32).sshiftRight'
        (shiftMask ((cpu.gprRef rs2).setWidth 32))).signExtend 64)) :=
  line_retire rfl rfl rfl code Q

variable (imm : BitVec 12)

@[simp] theorem line_rvAddiw : (machine 64).line (rvAddiw rd rs1 imm :: code) Q cpu ↔
    (machine 64).line code Q (retire cpu rd
      (((cpu.gprRef rs1).setWidth 32 + imm.signExtend 32).signExtend 64)) :=
  line_retire rfl rfl rfl code Q

@[simp] theorem line_rvSlliw : (machine 64).line (rvSlliw rd rs1 imm :: code) Q cpu ↔
    (machine 64).line code Q (retire cpu rd
      (((cpu.gprRef rs1).setWidth 32 <<<
        shiftMask (imm.signExtend 32 &&& 0b11111#32)).signExtend 64)) :=
  line_retire rfl rfl rfl code Q

@[simp] theorem line_rvSrliw : (machine 64).line (rvSrliw rd rs1 imm :: code) Q cpu ↔
    (machine 64).line code Q (retire cpu rd
      (((cpu.gprRef rs1).setWidth 32 >>>
        shiftMask (imm.signExtend 32 &&& 0b11111#32)).signExtend 64)) :=
  line_retire rfl rfl rfl code Q

@[simp] theorem line_rvSraiw : (machine 64).line (rvSraiw rd rs1 imm :: code) Q cpu ↔
    (machine 64).line code Q (retire cpu rd
      ((((cpu.gprRef rs1).setWidth 32).sshiftRight'
        (shiftMask (imm.signExtend 32 &&& 0b11111#32))).signExtend 64)) :=
  line_retire rfl rfl rfl code Q

end Rules

/-! ## Running the code -/

/-- The code raises no bug and establishes `Q`. -/
def runs (code : List Instr) (Q : Rv64Cpu → Prop) (r : Rv64Cpu) : Prop :=
  ∃ r', runJittedCode r code = .ok r' ∧ Q r'

section Runs

variable {code c₁ c₂ : List Instr} {Q R : Rv64Cpu → Prop} {r : Rv64Cpu}

theorem runs_cons {i : Instr} {r₁ : Rv64Cpu} (hexec : Riscv.Interp.interpretInstr r i = .ok r₁) :
    runs (i :: code) Q r ↔ runs code Q r₁ := by
  rw [runs, runJittedCode, hexec]
  exact Iff.rfl

theorem runs_of_line (h : (machine 64).line code Q r) : runs code Q r := by
  induction code generalizing r with
  | nil => exact ⟨r, rfl, h⟩
  | cons i code ih =>
      rcases h with ⟨r₁, hexec, _, _, hrest⟩
      exact (runs_cons hexec).mpr (ih hrest)

theorem runs_append (h : runs c₁ (runs c₂ Q) r) : runs (c₁ ++ c₂) Q r := by
  induction c₁ generalizing r with
  | nil =>
      rcases h with ⟨r₁, hrun, hq⟩
      cases hrun
      exact hq
  | cons i c₁ ih =>
      rcases h with ⟨r', hrun, hq⟩
      rcases bind_eq_ok.mp hrun with ⟨r₁, hexec, hrest⟩
      exact (runs_cons hexec).mpr (ih ⟨r', hrest, hq⟩)

theorem runs_mono (h : runs code Q r) (hpost : ∀ r, Q r → R r) : runs code R r := by
  rcases h with ⟨r', hrun, hq⟩
  exact ⟨r', hrun, hpost r' hq⟩

/-- The frame rule. -/
theorem runs_sameBut {gs : List Gpr} (honly : OnlyWrites gs code) (h : runs code Q r) :
    runs code (fun r' => Q r' ∧ SameBut gs r r') r := by
  rcases h with ⟨r', hrun, hq⟩
  refine ⟨r', hrun, hq, ?_⟩
  clear hq
  induction code generalizing r with
  | nil =>
      cases hrun
      exact SameBut.refl gs _
  | cons i code ih =>
      rcases bind_eq_ok.mp hrun with ⟨r₁, hexec, hrest⟩
      have hfirst := honly.step (List.mem_cons_self ..) hexec
      exact hfirst.trans (ih (fun j hj => honly j (List.mem_cons_of_mem _ hj)) hrest)

end Runs

end Rv64
end Jit
end Bpf
end Serval
