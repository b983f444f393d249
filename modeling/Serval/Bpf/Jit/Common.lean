import Serval.Bpf.Interp

/-!
# Common — what the in-kernel checker guarantees (`bpf/jit/common.rkt`)

A JIT compiler may assume that a program has passed the checker: R10 is not written, divisors are not
zero, shift amounts are below the width, and the only byte swap is the one on 16 bits.
-/

namespace Serval
namespace Bpf

open Serval.Core

namespace Code

/-- `alu64?`. -/
def isAlu64 : Code → Bool
  | binary .alu64 _ _ | neg .alu64 => true
  | _ => false

/-- `alu32?`. -/
def isAlu32 : Code → Bool
  | binary .alu _ _ | neg .alu | endian _ => true
  | _ => false

/-- `shift?`. -/
def isShift : Code → Bool
  | binary _ .lsh _ | binary _ .rsh _ | binary _ .arsh _ => true
  | _ => false

/-- `div?`. -/
def isDiv : Code → Bool
  | binary _ .div _ | binary _ .mod _ => true
  | _ => false

/-- `endian?`. -/
def isEndian : Code → Bool
  | endian _ => true
  | _ => false

/-- `src-x?`. -/
def isSrcX : Code → Bool
  | binary _ _ .x | jmp _ .x => true
  | _ => false

/-- `src-k?`. -/
def isSrcK : Code → Bool
  | binary _ _ .k | jmp _ .k | ja => true
  | _ => false

/-- The arithmetic instructions: negation is the only operation with one operand. -/
def isAlu : Code → Bool
  | binary _ .neg _ | ja | jmp _ _ => false
  | binary _ _ _ | neg _ | endian _ => true

end Code

/-- The preconditions `pre` of `verify-jit-refinement`, for the value of the source register.  The source
has two versions of the last one: byte swaps of 16 bits only, and a comment with all three sizes. -/
structure Pre (sizes : List (BitVec 32)) (i : Insn) (srcOp : BitVec 64) : Prop where
  dst : i.dst < 10
  divisor32X : i.code.isAlu32 ∧ i.code.isDiv ∧ i.code.isSrcX → srcOp.setWidth 32 ≠ 0
  divisor64X : i.code.isAlu64 ∧ i.code.isDiv ∧ i.code.isSrcX → srcOp ≠ 0
  divisor32K : i.code.isAlu32 ∧ i.code.isDiv ∧ i.code.isSrcK → i.imm ≠ 0
  divisor64K : i.code.isAlu64 ∧ i.code.isDiv ∧ i.code.isSrcK → i.imm ≠ 0
  shift32X : i.code.isAlu32 ∧ i.code.isShift ∧ i.code.isSrcX → srcOp < 32
  shift64X : i.code.isAlu64 ∧ i.code.isShift ∧ i.code.isSrcX → srcOp < 64
  shift32K : i.code.isAlu32 ∧ i.code.isShift ∧ i.code.isSrcK → i.imm < 32
  shift64K : i.code.isAlu64 ∧ i.code.isShift ∧ i.code.isSrcK → i.imm < 64
  endian : i.code.isEndian → i.imm ∈ sizes

/-- The preconditions hold at every step of the BPF run. -/
def Checked (sizes : List (BitVec 32)) : Cpu → List Insn → Prop
  | _, [] => True
  | cpu, i :: insns =>
      (∀ srcOp, cpu.regs i.src = some srcOp → Pre sizes i srcOp) ∧
        ∀ cpu', interpretInstr cpu i = .ok cpu' → Checked sizes cpu' insns

/-! ## Compiling a program instruction by instruction -/

section Emitter

variable {α : Type} {emit : Insn → Option (List α)} {i : Insn} {insns : List Insn} {code : List α}

/-- The concatenated code of a program; `none` when some instruction has no code. -/
def emitAll (emit : Insn → Option (List α)) : List Insn → Option (List α)
  | [] => some []
  | i :: insns => do return (← emit i) ++ (← emitAll emit insns)

theorem emitAll_cons (h : emitAll emit (i :: insns) = some code) :
    ∃ c₁ c₂, emit i = some c₁ ∧ emitAll emit insns = some c₂ ∧ code = c₁ ++ c₂ := by
  simp only [emitAll, Option.bind_eq_bind, Option.bind_eq_some_iff, Option.pure_def, Option.some.injEq] at h
  rcases h with ⟨c₁, h₁, c₂, h₂, rfl⟩
  exact ⟨c₁, c₂, h₁, h₂, rfl⟩

/-- What a compiler without code for jumps and for negations with two operands compiles is arithmetic. -/
theorem isAlu_of_emit (hneg : ∀ cls source, i.code = .binary cls .neg source → emit i = none)
    (hja : i.code = .ja → emit i = none) (hjmp : ∀ op source, i.code = .jmp op source → emit i = none)
    (hemit : emit i = some code) : i.code.isAlu := by
  cases hcode : i.code with
  | binary cls op source => cases op <;> first | rfl | simp [hneg cls source hcode] at hemit
  | neg cls => rfl
  | endian order => rfl
  | ja => simp [hja hcode] at hemit
  | jmp op source => simp [hjmp op source hcode] at hemit

end Emitter

/-! ## The value an instruction writes -/

/-- The second operand of a binary operation, at 64 bits. -/
def Insn.operand (i : Insn) (src : BitVec 64) : Source → BitVec 64
  | .x => src
  | .k => i.imm.signExtend 64

/-- The value an ALU instruction writes to its destination, from the values of its registers. -/
def Insn.result (i : Insn) (dst src : BitVec 64) : Except Bug (BitVec 64) :=
  match i.code with
  | .neg .alu64 => .ok (-dst)
  | .neg .alu => .ok ((-dst.setWidth 32).setWidth 64)
  | .binary .alu64 .mov source => .ok (i.operand src source)
  | .binary .alu .mov source => .ok (((i.operand src source).setWidth 32).setWidth 64)
  | .binary .alu64 op source => evaluateAlu64 op dst (i.operand src source)
  | .binary .alu op source => evaluateAlu32 op dst (i.operand src source)
  | .endian .fromBe => swapBytes dst i.imm
  | .endian .fromLe => do return (dst.setWidth (8 * (← endianSize i.imm))).setWidth 64
  | .ja | .jmp _ _ => .error .noSuchAluOp

theorem result_alu64 {i : Insn} {op : AluOp} {source : Source} (hcode : i.code = .binary .alu64 op source)
    (hmov : op ≠ .mov) (dst src : BitVec 64) :
    i.result dst src = evaluateAlu64 op dst (i.operand src source) := by
  rw [Insn.result, hcode]
  cases op with
  | mov => exact absurd rfl hmov
  | _ => rfl

theorem result_alu32 {i : Insn} {op : AluOp} {source : Source} (hcode : i.code = .binary .alu op source)
    (hmov : op ≠ .mov) (dst src : BitVec 64) :
    i.result dst src = evaluateAlu32 op dst (i.operand src source) := by
  rw [Insn.result, hcode]
  cases op with
  | mov => exact absurd rfl hmov
  | _ => rfl

theorem setWidth_signExtend (imm : BitVec 32) : (imm.signExtend 64).setWidth 32 = imm := by
  apply BitVec.eq_of_getLsbD_eq
  intro k hk
  have hwide : k < 64 := by omega
  simp only [BitVec.getLsbD_setWidth, BitVec.getLsbD_signExtend, hk, hwide, decide_true,
    Bool.true_and, if_true]

theorem evaluateAlu32_imm (op : AluOp) (dst : BitVec 64) (imm : BitVec 32) :
    evaluateAlu32 op dst imm = evaluateAlu32 op dst (imm.signExtend 64) := by
  rw [evaluateAlu32, evaluateAlu32, setWidth_signExtend, BitVec.setWidth_eq]

theorem evaluateAlu32_eq_ok {op : AluOp} {v₁ v₂ v : BitVec 64} (h : evaluateAlu32 op v₁ v₂ = .ok v) :
    ∃ z, evaluateAlu64 op (v₁.setWidth 32) (v₂.setWidth 32) = .ok z ∧ v = z.setWidth 64 := by
  rcases bind_eq_ok.mp h with ⟨z, hz, hv⟩
  exact ⟨z, hz, (Except.ok.inj hv).symm⟩

/-- A difference or an exclusive or of a register with itself, which the interpreter sets to zero
without reading the register. -/
theorem result_self {i : Insn} {v₁ v : BitVec 64} {cls : AluClass} {op : AluOp}
    (hcode : i.code = .binary cls op .x) (hop : op = .sub ∨ op = .xor)
    (hv : i.result v₁ v₁ = .ok v) : v = 0 := by
  rw [Insn.result, hcode] at hv
  rcases hop with rfl | rfl
  · cases cls with
    | alu =>
        simpa [evaluateAlu32, evaluateAlu64, Insn.operand, pure, Except.pure] using hv.symm
    | alu64 => simpa [evaluateAlu64, Insn.operand] using hv.symm
  · cases cls with
    | alu =>
        simpa [evaluateAlu32, evaluateAlu64, Insn.operand, pure, Except.pure] using hv.symm
    | alu64 => simpa [evaluateAlu64, Insn.operand] using hv.symm

/-- What an ALU instruction does: it writes its result and goes on. -/
theorem interpretInstr_of_result {cpu : Cpu} {i : Insn} {dst src v : BitVec 64}
    (hdst : cpu.regs i.dst = some dst) (hsrc : cpu.regs i.src = some src)
    (hwrite : i.dst ≠ BPF_REG_FP) (hv : i.result dst src = .ok v) :
    interpretInstr cpu i = .ok ⟨1 + cpu.pc, Function.update cpu.regs i.dst (some v)⟩ := by
  have hset : ∀ u, cpu.regSet i.dst u =
      .ok { cpu with regs := Function.update cpu.regs i.dst (some u) } := fun u => by
    simp [Cpu.regSet, hwrite, pure, Except.pure]
  have hd : cpu.regRef i.dst = .ok dst := by simp [Cpu.regRef, hdst]
  have hs : cpu.regRef i.src = .ok src := by simp [Cpu.regRef, hsrc]
  suffices h : interpretCode cpu i = .ok { cpu with regs := Function.update cpu.regs i.dst (some v) } by
    simp [interpretInstr, h, pure, Except.pure, Cpu.next]
  cases hcode : i.code with
  | neg cls =>
      cases cls <;> simp_all [Insn.result, interpretCode]
  | endian order =>
      cases order with
      | fromBe => simp_all [Insn.result, interpretCode]
      | fromLe =>
          simp only [Insn.result, hcode, bind_eq_ok] at hv
          rcases hv with ⟨size, hsize, hv⟩
          cases hv
          simp [interpretCode, hcode, hsize, hd, hset]
  | ja => simp [Insn.result, hcode] at hv
  | jmp op source => simp [Insn.result, hcode] at hv
  | binary cls op source =>
      have himm := setWidth_signExtend i.imm
      by_cases hself : source = .x ∧ (op = .sub ∨ op = .xor) ∧ i.dst = i.src
      · rcases hself with ⟨rfl, hop, heq⟩
        have hsame : src = dst := by
          rw [heq, hsrc] at hdst
          exact Option.some.inj hdst
        rw [hsame] at hv
        rw [result_self hcode hop hv]
        rcases hop with rfl | rfl
        · cases cls <;> simp [interpretCode, hcode, heq ▸ hset, heq]
        · cases cls <;> simp [interpretCode, hcode, heq ▸ hset, heq]
      · cases source with
        | k =>
            cases cls <;> cases op <;>
              simp_all [interpretCode, Insn.result, Insn.operand, evaluateAlu32_imm]
        | x =>
            have hne : ¬ ((op = .sub ∨ op = .xor) ∧ i.dst = i.src) := fun h => hself ⟨rfl, h⟩
            clear hself
            cases cls <;> cases op <;>
              simp_all [interpretCode, Insn.result, Insn.operand]

theorem evaluateAlu64_ok {w : Nat} {op : AluOp} {v₁ v₂ : BitVec w} (hop : op ≠ .mov ∧ op ≠ .neg)
    (hdiv : op = .div ∨ op = .mod → v₂ ≠ 0#w) : ∃ v, evaluateAlu64 op v₁ v₂ = .ok v := by
  cases op with
  | div | mod =>
      have hne := hdiv (by simp)
      simp [evaluateAlu64, hne]
  | mov => exact absurd rfl hop.1
  | neg => exact absurd rfl hop.2
  | add | sub | mul | or | and | xor | lsh | rsh | arsh => exact ⟨_, rfl⟩

theorem Code.isDiv_binary {cls : AluClass} {op : AluOp} {source : Source}
    (h : op = .div ∨ op = .mod) : (Code.binary cls op source).isDiv := by
  rcases h with rfl | rfl
  · rfl
  · rfl

/-- The divisor of an operation is not zero at the width of the operation. -/
theorem Pre.divisor {sizes : List (BitVec 32)} {i : Insn} {src : BitVec 64} {cls : AluClass}
    {op : AluOp} {source : Source} (hpre : Pre sizes i src) (hcode : i.code = .binary cls op source)
    (hop : op = .div ∨ op = .mod) :
    (cls = .alu → (i.operand src source).setWidth 32 ≠ 0#32) ∧
      (cls = .alu64 → i.operand src source ≠ 0#64) := by
  have hdiv : i.code.isDiv := hcode ▸ Code.isDiv_binary hop
  cases source with
  | x =>
      exact ⟨fun h => hpre.divisor32X ⟨by rw [hcode, h]; rfl, hdiv, by rw [hcode]; rfl⟩,
        fun h => hpre.divisor64X ⟨by rw [hcode, h]; rfl, hdiv, by rw [hcode]; rfl⟩⟩
  | k =>
      constructor
      · intro h
        rw [Insn.operand, setWidth_signExtend]
        exact hpre.divisor32K ⟨by rw [hcode, h]; rfl, hdiv, by rw [hcode]; rfl⟩
      · intro h hzero
        refine hpre.divisor64K ⟨by rw [hcode, h]; rfl, hdiv, by rw [hcode]; rfl⟩ ?_
        rw [← setWidth_signExtend i.imm, show i.imm.signExtend 64 = 0#64 from hzero]
        rfl

/-- The amount of a shift is below the width of the operation. -/
theorem Pre.shift {sizes : List (BitVec 32)} {i : Insn} {src : BitVec 64} {cls : AluClass}
    {op : AluOp} {source : Source} (hpre : Pre sizes i src) (hcode : i.code = .binary cls op source)
    (hop : op = .lsh ∨ op = .rsh ∨ op = .arsh) :
    (cls = .alu → source = .x → src < 32) ∧ (cls = .alu64 → source = .x → src < 64) ∧
      (cls = .alu → source = .k → i.imm < 32) ∧ (cls = .alu64 → source = .k → i.imm < 64) := by
  have hshift : i.code.isShift := by
    rw [hcode]
    rcases hop with rfl | rfl | rfl <;> rfl
  refine ⟨?_, ?_, ?_, ?_⟩
  · rintro rfl rfl
    exact hpre.shift32X ⟨by rw [hcode]; rfl, hshift, by rw [hcode]; rfl⟩
  · rintro rfl rfl
    exact hpre.shift64X ⟨by rw [hcode]; rfl, hshift, by rw [hcode]; rfl⟩
  · rintro rfl rfl
    exact hpre.shift32K ⟨by rw [hcode]; rfl, hshift, by rw [hcode]; rfl⟩
  · rintro rfl rfl
    exact hpre.shift64K ⟨by rw [hcode]; rfl, hshift, by rw [hcode]; rfl⟩

/-- Under the preconditions an ALU instruction has a result. -/
theorem result_ok {sizes : List (BitVec 32)} {i : Insn} {src : BitVec 64} (hpre : Pre sizes i src)
    (halu : i.code.isAlu) (hsizes : ∀ s ∈ sizes, s = 16 ∨ s = 32 ∨ s = 64) (dst : BitVec 64) :
    ∃ v, i.result dst src = .ok v := by
  cases hcode : i.code with
  | neg cls => cases cls <;> simp [Insn.result, hcode]
  | endian order =>
      have himm := hsizes _ (hpre.endian (by rw [hcode]; rfl))
      cases order with
      | fromBe => rcases himm with h | h | h <;> simp [Insn.result, hcode, swapBytes, h]
      | fromLe => rcases himm with h | h | h <;> simp [Insn.result, hcode, endianSize, h]
  | ja => simp [Code.isAlu, hcode] at halu
  | jmp op source => simp [Code.isAlu, hcode] at halu
  | binary cls op source =>
      by_cases hmov : op = .mov
      · cases cls <;> simp [Insn.result, hcode, hmov]
      · have hop : op ≠ .mov ∧ op ≠ .neg := ⟨hmov, fun h => by simp [Code.isAlu, hcode, h] at halu⟩
        cases cls with
        | alu64 =>
            rw [result_alu64 hcode hmov]
            exact evaluateAlu64_ok hop fun h => (hpre.divisor hcode h).2 rfl
        | alu =>
            rw [result_alu32 hcode hmov]
            rcases evaluateAlu64_ok hop fun h => (hpre.divisor hcode h).1 rfl with ⟨v, hv⟩
            exact ⟨v.setWidth 64, by rw [evaluateAlu32, hv]; rfl⟩

end Bpf
end Serval
