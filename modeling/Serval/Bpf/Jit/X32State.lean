import Serval.Bpf.Jit.Stack
import Serval.Bpf.Jit.X32

/-!
# X32State — the part of an x86-32 processor that compiled code works with

Compiled code uses the general registers, the carry flag and the words of the scratch area; `ebp` keeps
its value.  `Env` is this part of a processor and `effect` is what an instruction does to it, where a
boolean stands for a carry flag that the processor leaves open.  That the interpreter does what `effect`
says is proved once for all instructions (`effect_sound`).  Code without jumps is then executed on
environments alone, and the one jump that is emitted has a rule of its own.
-/

namespace Serval
namespace Bpf
namespace Jit
namespace X32

open Serval.Core Serval.X32

variable {insns : List Instr} {i : Instr} {disp : BitVec 8} {k : BitVec 32} {dst : Gpr}

abbrev X86Cpu := Serval.X32.Cpu

/-! ## The scratch area -/

/-- The address of the scratch area. -/
def stackBase : Nat := 0x1000

def stackRegion (f : BitVec 32 → BitVec 32) : MRegion 32 where
  start := stackBase
  stop := stackBase + SCRATCH_SIZE
  name := "stack"
  block := stackBlock (SCRATCH_SIZE / 4) f

/-- The word at a displacement from `ebp`. -/
def slot (disp : BitVec 8) : Option (BitVec 32) :=
  if disp % 4 = 0 ∧ disp < 96 then some ((disp / 4).setWidth 32) else none

/-- The address of a word is in bounds and aligned. -/
theorem slot_address (h : slot disp = some k) :
    let addr := BitVec.ofNat 32 stackBase + disp.signExtend 32
    let offset := addr - BitVec.ofNat 32 stackBase
    disp.signExtend 32 + BitVec.ofNat 32 stackBase = addr ∧
      (BitVec.ofNat 32 stackBase ≤ addr ∧ addr < BitVec.ofNat 32 (stackBase + SCRATCH_SIZE)) ∧
      addr ≤ BitVec.ofNat 32 (stackBase + SCRATCH_SIZE) - 4#32 ∧
      MBlock.inbounds (SCRATCH_SIZE / 4 * 4) offset 4#32 ∧
      offset % 4#32 = 0#32 ∧ offset.smtUDiv 4#32 = k := by
  have hall : ∀ disp : BitVec 8, disp % 4 = 0 ∧ disp < 96 →
      let addr := BitVec.ofNat 32 stackBase + disp.signExtend 32
      let offset := addr - BitVec.ofNat 32 stackBase
      disp.signExtend 32 + BitVec.ofNat 32 stackBase = addr ∧
        (BitVec.ofNat 32 stackBase ≤ addr ∧ addr < BitVec.ofNat 32 (stackBase + SCRATCH_SIZE)) ∧
        addr ≤ BitVec.ofNat 32 (stackBase + SCRATCH_SIZE) - 4#32 ∧
        MBlock.inbounds (SCRATCH_SIZE / 4 * 4) offset 4#32 ∧
        offset % 4#32 = 0#32 ∧ offset.smtUDiv 4#32 = (disp / 4).setWidth 32 := by
    decide +kernel
  rw [slot] at h
  split at h
  · cases h
    exact hall disp (by assumption)
  · cases h

section Accesses

variable {cpu : X86Cpu} {f : BitVec 32 → BitVec 32} {disp : BitVec 8} {k : BitVec 32}
  (hmem : cpu.mregions = [stackRegion f]) (hbase : cpu.gprs .ebp = BitVec.ofNat 32 stackBase)
  (hk : slot disp = some k)

include hmem hbase hk

theorem resolveMemPath_slot :
    cpu.resolveMemPath .ebp disp 4 =
      .ok (0, stackRegion f, ⟨[.index k], some (0#32, 4#32)⟩) := by
  rcases slot_address hk with ⟨hcomm, haddr, hend, hin, haligned, hindex⟩
  have hfind : findMregionByAddr [stackRegion f]
      (BitVec.ofNat 32 stackBase + disp.signExtend 32) = some 0 := by
    simp only [findMregionByAddr, stackRegion, List.findIdx?_cons, haddr, and_self, decide_true,
      if_true]
  have hguess : guessMregionFromAddr cpu.mregions (cpu.gprRef .ebp) ⟨32, disp.signExtend 32⟩ =
      some 0 := by
    rw [guessMregionFromAddr, hmem, Serval.X32.Cpu.gprRef, hbase, BitVec.signExtend_eq, hcomm, hfind]
    rfl
  have hpath : (stackRegion f).block.path
      (BitVec.ofNat 32 stackBase + disp.signExtend 32 - BitVec.ofNat 32 stackBase) 4#32 =
      .ok ⟨[.index k], some (0#32, 4#32)⟩ := by
    rw [← hindex]
    exact stackBlock_path hin haligned
  have hbounds : (stackRegion f).inbounds (BitVec.ofNat 32 stackBase + disp.signExtend 32) 4#32 :=
    ⟨haddr.1, hend⟩
  rw [Serval.X32.Cpu.resolveMemPath, hguess]
  simp only [hmem, List.getElem?_cons_zero, Serval.X32.Cpu.gprRef, hbase]
  rw [bugOn_of_not (not_not_intro hbounds), ok_bind]
  exact congrArg (· >>= fun path => Except.ok (0, stackRegion f, path)) hpath

theorem load32_slot : cpu.load32 .ebp disp = .ok (f k) := by
  rw [Serval.X32.Cpu.load32, resolveMemPath_slot hmem hbase hk, ok_bind]
  have hload : (stackRegion f).block.iload ⟨[.index k], some (0#32, 4#32)⟩ = .ok ⟨32, f k⟩ :=
    stackBlock_iload k _
  simp only [hload, ok_bind]
  rw [bugOn_of_not (not_not_intro rfl), ok_bind, BitVec.setWidth_eq]
  rfl

theorem store32_slot (v : BitVec 32) :
    cpu.store32 .ebp disp v =
      .ok { cpu with mregions := [stackRegion (Function.update f k v)] } := by
  rw [Serval.X32.Cpu.store32, resolveMemPath_slot hmem hbase hk, ok_bind]
  have hstore : (stackRegion f).block.istore ⟨32, v⟩ ⟨[.index k], some (0#32, 4#32)⟩ =
      .ok (stackRegion (Function.update f k v)).block := stackBlock_istore k v _
  simp only [hstore, ok_bind, hmem]
  rfl

end Accesses

/-! ## Environments -/

/-- The registers, the carry flag and the words of the scratch area. -/
structure Env where
  gprs : Gpr → BitVec 32
  cf : Bool
  slots : BitVec 32 → BitVec 32

/-- The environment is that of a processor. -/
structure Env.In (e : Env) (cpu : X86Cpu) : Prop where
  gprs : cpu.gprs = e.gprs
  cf : cpu.flags .CF = e.cf
  memory : cpu.mregions = [stackRegion e.slots]
  base : e.gprs .ebp = BitVec.ofNat 32 stackBase

namespace Env

variable (e : Env)

/-- A register other than `ebp` is written. -/
def write (g : Gpr) (v : BitVec 32) (cf : Bool → Bool) : Option (Bool → Env) :=
  if g = .ebp then none else some fun b => ⟨Function.update e.gprs g v, cf b, e.slots⟩

/-- A word of the scratch area is written. -/
def put (base : Gpr) (disp : BitVec 8) (v : BitVec 32) : Option (Bool → Env) :=
  if base = .ebp then (slot disp).map fun k _ => { e with slots := Function.update e.slots k v }
  else none

/-- The word at an operand in memory. -/
def get (base : Gpr) (disp : BitVec 8) : Option (BitVec 32) :=
  if base = .ebp then (slot disp).map e.slots else none

def adc (dst : Gpr) (v : BitVec 32) : Option (Bool → Env) :=
  e.write dst (e.gprs dst + v + if e.cf then 1 else 0) (fun _ => bvuaddOverflow (e.gprs dst) v e.cf)

def sbb (dst : Gpr) (v : BitVec 32) : Option (Bool → Env) :=
  e.write dst (e.gprs dst - v - if e.cf then 1 else 0) (fun _ => bvusubOverflow (e.gprs dst) v e.cf)

def add (dst : Gpr) (v : BitVec 32) : Option (Bool → Env) :=
  e.write dst (e.gprs dst + v) (fun _ => bvuaddOverflow (e.gprs dst) v false)

def sub (dst : Gpr) (v : BitVec 32) : Option (Bool → Env) :=
  e.write dst (e.gprs dst - v) (fun _ => bvusubOverflow (e.gprs dst) v false)

def logical (dst : Gpr) (result : BitVec 32) : Option (Bool → Env) :=
  e.write dst result (fun _ => false)

def shift (dst : Gpr) (result : BitVec 32) : Option (Bool → Env) :=
  e.write dst result id

/-- A register is written and no flag. -/
def assign (dst : Gpr) (v : BitVec 32) : Option (Bool → Env) :=
  e.write dst v (fun _ => e.cf)

def mul (v : BitVec 32) : Bool → Env :=
  let upper := ((e.gprs .eax).setWidth 64 * v.setWidth 64).extractLsb' 32 32
  fun _ => ⟨Function.update (Function.update e.gprs .eax (e.gprs .eax * v)) .edx upper, upper ≠ 0, e.slots⟩

/-- What an instruction does; `none` for the jump and for what is never emitted. -/
def effect : Instr → Option (Bool → Env)
  | .adcR32Imm8 dst imm8 => e.adc dst (imm8.signExtend 32)
  | .adcR32R32 dst src => e.adc dst (e.gprs src)
  | .addR32Imm8 dst imm8 => e.add dst (imm8.signExtend 32)
  | .addR32R32 dst src => e.add dst (e.gprs src)
  | .andR32Imm8 dst imm8 => e.logical dst (e.gprs dst &&& imm8.signExtend 32)
  | .andRm32R32 dst src => e.logical dst (e.gprs dst &&& e.gprs src)
  | .cmpR32Imm8 src imm8 =>
      some fun _ => { e with cf := bvusubOverflow (e.gprs src) (imm8.signExtend 32) false }
  | .movM32Imm32 dst disp imm32 => e.put dst disp imm32
  | .movM32R32 dst disp src => e.put dst disp (e.gprs src)
  | .movR32Imm32 dst imm32 => e.assign dst imm32
  | .movR32M32 dst src disp => (e.get src disp).bind fun v => e.assign dst v
  | .movRm32R32 dst src => e.assign dst (e.gprs src)
  | .movR32Rm32 dst src => e.assign dst (e.gprs src)
  | .mulR32 src => some (e.mul (e.gprs src))
  | .mulM32 src disp => (e.get src disp).map e.mul
  | .negR32 dst => e.write dst (-e.gprs dst) (fun _ => bvusubOverflow 0 (e.gprs dst) false)
  | .orR32Imm8 dst imm8 => e.logical dst (e.gprs dst ||| imm8.signExtend 32)
  | .orR32R32 dst src => e.logical dst (e.gprs dst ||| e.gprs src)
  | .sarR32Cl dst => e.shift dst ((e.gprs dst).sshiftRight (shiftCount (e.gprs .ecx)).toNat)
  | .sarR32Imm8 dst imm8 => e.shift dst ((e.gprs dst).sshiftRight (shiftCount imm8).toNat)
  | .sbbR32R32 dst src => e.sbb dst (e.gprs src)
  | .sbbR32Imm8 dst imm8 => e.sbb dst (imm8.signExtend 32)
  | .shlR32Cl dst => e.shift dst (e.gprs dst <<< shiftCount (e.gprs .ecx))
  | .shlR32Imm8 dst imm8 => e.shift dst (e.gprs dst <<< shiftCount imm8)
  | .shrR32Cl dst => e.shift dst (e.gprs dst >>> shiftCount (e.gprs .ecx))
  | .shrR32Imm8 dst imm8 => e.shift dst (e.gprs dst >>> shiftCount imm8)
  | .shldR32R32Cl dst src =>
      e.shift dst (e.gprs dst <<< shiftCount (e.gprs .ecx) |||
        e.gprs src >>> (32 - shiftCount (e.gprs .ecx)))
  | .shldR32R32Imm8 dst src imm8 =>
      e.shift dst (e.gprs dst <<< shiftCount imm8 ||| e.gprs src >>> (32 - shiftCount imm8))
  | .shrdR32R32Cl dst src =>
      e.shift dst (e.gprs dst >>> shiftCount (e.gprs .ecx) |||
        e.gprs src <<< (32 - shiftCount (e.gprs .ecx)))
  | .shrdR32R32Imm8 dst src imm8 =>
      e.shift dst (e.gprs dst >>> shiftCount imm8 ||| e.gprs src <<< (32 - shiftCount imm8))
  | .subR32Imm8 dst imm8 => e.sub dst (imm8.signExtend 32)
  | .subR32R32 dst src => e.sub dst (e.gprs src)
  | .xorR32Imm8 dst imm8 => e.logical dst (e.gprs dst ^^^ imm8.signExtend 32)
  | .xorRm32R32 dst src => e.logical dst (e.gprs dst ^^^ e.gprs src)
  | .xorR32Rm32 dst src => e.logical dst (e.gprs dst ^^^ e.gprs src)
  | .andR32Rm32 _ _ | .movR8Imm8 _ _ | .movzxR32R8 _ _ | .jbRel8 _ | .ret => none

end Env

/-! ## Soundness -/

section Soundness

variable {e : Env} {cpu cpu' : X86Cpu} {g : Bool → Env} {dst : Gpr} {v : BitVec 32}

/-- The processor has gone on to one of the environments of an effect. -/
def Reaches (cpu cpu' : X86Cpu) (g : Bool → Env) : Prop :=
  cpu'.pc = cpu.pc ∧ ∃ b, (g b).In cpu'

section Sound

variable (h : e.In cpu)

include h

/-- An instruction that writes a register. -/
theorem sound_write {cf : Bool → Bool} (hw : e.write dst v cf = some g) (hpc : cpu'.pc = cpu.pc)
    (hgprs : cpu'.gprs = Function.update cpu.gprs dst v) (hmem : cpu'.mregions = cpu.mregions)
    (hcf : ∃ b, cpu'.flags .CF = cf b) : Reaches cpu cpu' g := by
  rw [Env.write] at hw
  split at hw
  · cases hw
  · rename_i hdst
    cases hw
    rcases hcf with ⟨b, hb⟩
    refine ⟨hpc, b, by rw [hgprs, h.gprs], hb, by rw [hmem, h.memory], ?_⟩
    exact (Function.update_of_ne (Ne.symm hdst) _ _).trans h.base

/-- An instruction that writes a word of the scratch area. -/
theorem sound_put {base : Gpr} (hw : e.put base disp v = some g) :
    ∃ cpu', cpu.store32 base disp v = .ok cpu' ∧ Reaches cpu cpu' g := by
  rw [Env.put] at hw
  split at hw
  · rename_i hbase
    subst hbase
    rcases Option.map_eq_some_iff.mp hw with ⟨k, hk, rfl⟩
    refine ⟨_, store32_slot h.memory (h.gprs ▸ h.base) hk v, rfl, false, ?_⟩
    exact ⟨h.gprs, h.cf, rfl, h.base⟩
  · cases hw

/-- An instruction that reads a word of the scratch area. -/
theorem sound_get {base : Gpr} (hv : e.get base disp = some v) : cpu.load32 base disp = .ok v := by
  rw [Env.get] at hv
  split at hv
  · rename_i hbase
    subst hbase
    rcases Option.map_eq_some_iff.mp hv with ⟨k, hk, rfl⟩
    exact load32_slot h.memory (h.gprs ▸ h.base) hk
  · cases hv

theorem sound_adc (hw : e.adc dst v = some g) : Reaches cpu (cpu.interpretAdc dst v) g := by
  refine sound_write h hw ?_ ?_ ?_ ⟨false, ?_⟩ <;>
    simp [Cpu.interpretAdc, Cpu.gprSet, Cpu.gprRef, Cpu.flagRef, h.gprs, h.cf]

theorem sound_sbb (hw : e.sbb dst v = some g) : Reaches cpu (cpu.interpretSbb dst v) g := by
  refine sound_write h hw ?_ ?_ ?_ ⟨false, ?_⟩ <;>
    simp [Cpu.interpretSbb, Cpu.gprSet, Cpu.gprRef, Cpu.flagRef, h.gprs, h.cf]

theorem sound_add (hw : e.add dst v = some g) : Reaches cpu (cpu.interpretBinaryOp dst v .add) g := by
  refine sound_write h hw ?_ ?_ ?_ ⟨false, ?_⟩ <;>
    simp [Cpu.interpretBinaryOp, Cpu.flagSetArithmetic, Cpu.gprSet, Cpu.gprRef, Cpu.Arith.eval, h.gprs]

theorem sound_sub (hw : e.sub dst v = some g) : Reaches cpu (cpu.interpretBinaryOp dst v .sub) g := by
  refine sound_write h hw ?_ ?_ ?_ ⟨false, ?_⟩ <;>
    simp [Cpu.interpretBinaryOp, Cpu.flagSetArithmetic, Cpu.gprSet, Cpu.gprRef, Cpu.Arith.eval, h.gprs]

theorem sound_logical {proc : BitVec 32 → BitVec 32 → BitVec 32} (hw : e.logical dst (proc (e.gprs dst) v) = some g) :
    Reaches cpu (cpu.interpretLogical dst v proc) g := by
  refine sound_write h hw ?_ ?_ ?_ ⟨false, ?_⟩ <;>
    simp [Cpu.interpretLogical, Cpu.flagClear, Cpu.gprSet, Cpu.gprRef, h.gprs]

theorem sound_neg (hw : e.write dst (-e.gprs dst) (fun _ => bvusubOverflow 0 (e.gprs dst) false) = some g) :
    Reaches cpu (cpu.interpretNeg dst) g := by
  refine sound_write h hw ?_ ?_ ?_ ⟨false, ?_⟩ <;>
    simp [Cpu.interpretNeg, Cpu.flagSetArithmetic, Cpu.gprSet, Cpu.gprRef, h.gprs]

theorem sound_mul (v : BitVec 32) : Reaches cpu (cpu.interpretMul v) (e.mul v) := by
  refine ⟨by simp [Cpu.interpretMul, Cpu.gprSet], false, ?_, ?_, ?_, ?_⟩
  · simp [Cpu.interpretMul, Cpu.gprSet, Cpu.gprRef, Env.mul, h.gprs]
  · simp [Cpu.interpretMul, Cpu.gprRef, Env.mul, h.gprs]
  · simp [Cpu.interpretMul, Cpu.gprSet, Env.mul, h.memory]
  · simpa [Env.mul] using h.base

theorem sound_cmp (src : Gpr) (v : BitVec 32) :
    Reaches cpu (cpu.flagSetArithmetic .sub (cpu.gprRef src) v)
      (fun _ => { e with cf := bvusubOverflow (e.gprs src) v false }) := by
  refine ⟨by simp [Cpu.flagSetArithmetic], false, ?_, ?_, ?_, h.base⟩
  · simp [Cpu.flagSetArithmetic, h.gprs]
  · simp [Cpu.flagSetArithmetic, Cpu.gprRef, h.gprs]
  · simp [Cpu.flagSetArithmetic, h.memory]

/-- After a shift the carry flag is the old one or a new boolean. -/
theorem sound_shift (hw : e.shift dst v = some g) (count : BitVec 32) :
    Reaches cpu ((cpu.gprSet dst v).flagSetShift count v) g := by
  have hframe : ((cpu.gprSet dst v).flagSetShift count v).gprs = (cpu.gprSet dst v).gprs ∧
      ((cpu.gprSet dst v).flagSetShift count v).mregions = cpu.mregions ∧
      ((cpu.gprSet dst v).flagSetShift count v).pc = cpu.pc := by
    by_cases hcount : count = 0#32 <;> simp [Cpu.flagSetShift, Cpu.gprSet, hcount]
  exact sound_write h hw hframe.2.2 hframe.1 hframe.2.1 ⟨_, rfl⟩

end Sound

/-- The interpreter does what the effect says. -/
theorem effect_sound (heff : e.effect i = some g) (h : e.In cpu) :
    ∃ cpu', i.run cpu = .ok cpu' ∧ Reaches cpu cpu' g := by
  have hgpr : ∀ src, e.gprs src = cpu.gprRef src := fun src => congrFun h.gprs.symm src
  cases i with
  | movM32Imm32 dst disp imm32 => exact sound_put h heff
  | movM32R32 dst disp src =>
      rw [Env.effect, hgpr] at heff
      exact sound_put h heff
  | movR32M32 dst src disp =>
      rcases Option.bind_eq_some_iff.mp heff with ⟨v, hv, hw⟩
      refine ⟨cpu.gprSet dst v, ?_, sound_write h hw rfl rfl rfl ⟨false, h.cf⟩⟩
      rw [Instr.run, sound_get h hv]
      rfl
  | movR32Imm32 dst imm32 => exact ⟨_, rfl, sound_write h heff rfl rfl rfl ⟨false, h.cf⟩⟩
  | movRm32R32 dst src | movR32Rm32 dst src =>
      rw [Env.effect, hgpr] at heff
      exact ⟨_, rfl, sound_write h heff rfl rfl rfl ⟨false, h.cf⟩⟩
  | mulR32 src =>
      cases heff
      exact ⟨_, rfl, hgpr src ▸ sound_mul h _⟩
  | mulM32 src disp =>
      rcases Option.map_eq_some_iff.mp heff with ⟨v, hv, rfl⟩
      refine ⟨cpu.interpretMul v, ?_, sound_mul h v⟩
      rw [Instr.run, sound_get h hv]
      rfl
  | negR32 dst => exact ⟨_, rfl, sound_neg h heff⟩
  | cmpR32Imm8 src imm8 =>
      cases heff
      exact ⟨_, rfl, sound_cmp h src _⟩
  | adcR32Imm8 dst imm8 => exact ⟨_, rfl, sound_adc h heff⟩
  | adcR32R32 dst src => exact ⟨_, rfl, hgpr src ▸ sound_adc h heff⟩
  | sbbR32Imm8 dst imm8 => exact ⟨_, rfl, sound_sbb h heff⟩
  | sbbR32R32 dst src => exact ⟨_, rfl, hgpr src ▸ sound_sbb h heff⟩
  | addR32Imm8 dst imm8 => exact ⟨_, rfl, sound_add h heff⟩
  | addR32R32 dst src => exact ⟨_, rfl, hgpr src ▸ sound_add h heff⟩
  | subR32Imm8 dst imm8 => exact ⟨_, rfl, sound_sub h heff⟩
  | subR32R32 dst src => exact ⟨_, rfl, hgpr src ▸ sound_sub h heff⟩
  | andR32Imm8 dst imm8 | orR32Imm8 dst imm8 | xorR32Imm8 dst imm8 => exact ⟨_, rfl, sound_logical h heff⟩
  | andRm32R32 dst src | orR32R32 dst src | xorRm32R32 dst src | xorR32Rm32 dst src =>
      exact ⟨_, rfl, hgpr src ▸ sound_logical h heff⟩
  | sarR32Cl dst | shlR32Cl dst | shrR32Cl dst =>
      rw [Env.effect, hgpr, hgpr] at heff
      exact ⟨_, rfl, sound_shift h heff _⟩
  | sarR32Imm8 dst imm8 | shlR32Imm8 dst imm8 | shrR32Imm8 dst imm8 =>
      rw [Env.effect, hgpr] at heff
      exact ⟨_, rfl, sound_shift h heff _⟩
  | shldR32R32Cl dst src | shrdR32R32Cl dst src =>
      rw [Env.effect, hgpr, hgpr, hgpr] at heff
      exact ⟨_, rfl, sound_shift h heff _⟩
  | shldR32R32Imm8 dst src imm8 | shrdR32R32Imm8 dst src imm8 =>
      rw [Env.effect, hgpr, hgpr] at heff
      exact ⟨_, rfl, sound_shift h heff _⟩
  | andR32Rm32 | movR8Imm8 | movzxR32R8 | jbRel8 | ret => cases heff

end Soundness

/-! ## Emitted code -/

/-- What an emitter returns for the bytes of an instruction. -/
def emitted (i : Instr) : Except Bug Instr :=
  decode i.encode i.size

theorem emitted_eq (h : i ≠ .ret) : emitted i = .ok i := by
  rw [emitted, decode, decode_encode h]
  simp [bugOn_of_not]

theorem assemble_append {c₁ c₂ : Code} {l₁ l₂ : List Instr} (h₁ : assemble c₁ = .ok l₁)
    (h₂ : assemble c₂ = .ok l₂) : assemble (c₁ ++ c₂) = .ok (l₁ ++ l₂) := by
  rw [assemble, List.mapM_append]
  rw [assemble] at h₁ h₂
  rw [h₁, h₂]
  rfl

theorem assemble_emitted (h : .ret ∉ insns) : assemble (insns.map emitted) = .ok insns := by
  induction insns with
  | nil => rfl
  | cons i insns ih =>
      rw [List.mem_cons, not_or] at h
      have hfirst : assemble [emitted i] = .ok [i] := by
        rw [emitted_eq (Ne.symm h.1)]
        rfl
      exact assemble_append hfirst (ih h.2)

/-- The code passes the checks and, from a processor with this environment, runs to its end, where the environment
satisfies `Q`. -/
def Runs (code : Code) (Q : Env → Prop) (e : Env) : Prop :=
  ∀ cpu : X86Cpu, e.In cpu →
    ∃ insns cpu' e', assemble code = .ok insns ∧ machine.Exec insns cpu cpu' ∧ e'.In cpu' ∧ Q e'

section Rules

variable {e : Env} {code c₁ c₂ : Code} {Q R : Env → Prop}

theorem runs_nil (h : Q e) : Runs [] Q e :=
  fun cpu hin => ⟨[], cpu, e, rfl, .nil cpu, hin, h⟩

theorem runs_mono (h : Runs code Q e) (hpost : ∀ e', Q e' → R e') : Runs code R e := by
  intro cpu hin
  rcases h cpu hin with ⟨insns, cpu', e', hcode, hexec, hin', hq⟩
  exact ⟨insns, cpu', e', hcode, hexec, hin', hpost e' hq⟩

theorem runs_append (h : Runs c₁ (Runs c₂ Q) e) : Runs (c₁ ++ c₂) Q e := by
  intro cpu hin
  rcases h cpu hin with ⟨l₁, cpu₁, e₁, hcode₁, hexec₁, hin₁, h₂⟩
  rcases h₂ cpu₁ hin₁ with ⟨l₂, cpu₂, e₂, hcode₂, hexec₂, hin₂, hq⟩
  exact ⟨l₁ ++ l₂, cpu₂, e₂, assemble_append hcode₁ hcode₂, hexec₁.append hexec₂, hin₂, hq⟩

/-- One piece of code after the other. -/
theorem runs_seq {P : Env → Prop} (h₁ : Runs c₁ P e) (h₂ : ∀ e₁, P e₁ → Runs c₂ Q e₁) : Runs (c₁ ++ c₂) Q e :=
  runs_append (runs_mono h₁ h₂)

/-- Moving the program counter changes nothing in the environment. -/
theorem Env.In.next {cpu : X86Cpu} (h : e.In cpu) (size : BitVec 32) : e.In (cpu.next size) :=
  ⟨h.gprs, h.cf, h.memory, h.base⟩

theorem runs_cons {g : Bool → Env} (heff : e.effect i = some g) (h : ∀ b, Runs code Q (g b)) :
    Runs (emitted i :: code) Q e := by
  have hret : i ≠ .ret := by
    rintro rfl
    cases heff
  intro cpu hin
  rcases effect_sound heff hin with ⟨cpu₁, hrun, hpc, b, hin₁⟩
  rcases h b _ (hin₁.next (BitVec.ofNat 32 i.size)) with ⟨insns, cpu', e', hcode, hexec, hin', hq⟩
  have hfirst : assemble [emitted i] = .ok [i] := by
    rw [emitted_eq hret]
    rfl
  refine ⟨i :: insns, cpu', e', assemble_append hfirst hcode, ?_, hin', hq⟩
  refine .cons (decide_eq_false hret) ?_ ?_ hexec
  · simp only [machine, Serval.X32.interpretInstr, hrun, ok_bind]
    rfl
  · simp only [machine, Serval.X32.Cpu.next, hpc]
    exact BitVec.add_comm ..

/-- The jump over the code `skipped`, which is taken when the carry flag is set. -/
theorem runs_jb {rel8 : BitVec 8} {skipped : List Instr} (hret : .ret ∉ skipped)
    (hrel : rel8.signExtend 32 = BitVec.ofNat 32 (machine.length skipped))
    (htaken : e.cf = true → Runs code Q e)
    (hnext : e.cf = false → Runs (skipped.map emitted ++ code) Q e) :
    Runs (emitted (.jbRel8 rel8) :: (skipped.map emitted ++ code)) Q e := by
  have hfirst : assemble [emitted (.jbRel8 rel8)] = .ok [.jbRel8 rel8] := by
    rw [emitted_eq (by simp)]
    rfl
  intro cpu hin
  have hflag : cpu.flagRef .CF = e.cf := hin.cf
  cases hcf : e.cf with
  | true =>
      have hrun : machine.exec (.jbRel8 rel8) cpu = .ok ((cpu.next (rel8.signExtend 32)).next 2) := by
        simp only [machine, Serval.X32.interpretInstr, Instr.run, hflag, hcf, if_true, ok_bind]
        rfl
      rcases htaken hcf _ ((hin.next _).next 2) with ⟨insns, cpu', e', hcode, hexec, hin', hq⟩
      refine ⟨.jbRel8 rel8 :: (skipped ++ insns), cpu', e',
        assemble_append hfirst (assemble_append (assemble_emitted hret) hcode), ?_, hin', hq⟩
      refine .step rfl hrun ?_ hexec
      change 2#32 + (rel8.signExtend 32 + cpu.pc) = cpu.pc + BitVec.ofNat 32 (2 + machine.length skipped)
      rw [hrel, BitVec.ofNat_add, ← BitVec.add_assoc, BitVec.add_comm]
  | false =>
      have hrun : machine.exec (.jbRel8 rel8) cpu = .ok (cpu.next 2) := by
        simp only [machine, Serval.X32.interpretInstr, Instr.run, hflag, hcf, ok_bind]
        rfl
      rcases hnext hcf _ (hin.next 2) with ⟨insns, cpu', e', hcode, hexec, hin', hq⟩
      refine ⟨.jbRel8 rel8 :: insns, cpu', e', assemble_append hfirst hcode, ?_, hin', hq⟩
      exact .cons rfl hrun (BitVec.add_comm ..) hexec

/-- What code without jumps establishes, instruction by instruction. -/
def line : List Instr → (Env → Prop) → Env → Prop
  | [], Q, e => Q e
  | i :: insns, Q, e => ∃ g, e.effect i = some g ∧ ∀ b, line insns Q (g b)

theorem runs_line (h : line insns Q e) : Runs (insns.map emitted) Q e := by
  induction insns generalizing e with
  | nil => exact runs_nil h
  | cons i insns ih =>
      rcases h with ⟨g, heff, h⟩
      exact runs_cons heff fun b => ih (h b)

theorem line_append {c₁ c₂ : List Instr} : line (c₁ ++ c₂) Q e ↔ line c₁ (line c₂ Q) e := by
  induction c₁ generalizing e with
  | nil => rfl
  | cons i c₁ ih => simp [line, ih]

theorem line_mono (h : line insns Q e) (hpost : ∀ e', Q e' → R e') : line insns R e := by
  induction insns generalizing e with
  | nil => exact hpost e h
  | cons i insns ih =>
      rcases h with ⟨g, heff, h⟩
      exact ⟨g, heff, fun b => ih (h b)⟩

theorem line_cons {g : Bool → Env} (heff : e.effect i = some g) :
    line (i :: insns) Q e ↔ ∀ b, line insns Q (g b) := by
  simp [line, heff]

/-- `mov dst,dword ptr [ebp+disp]`. -/
theorem line_load (hk : slot disp = some k) (hdst : dst ≠ .ebp) :
    line (.movR32M32 dst .ebp disp :: insns) Q e ↔
      line insns Q { e with gprs := Function.update e.gprs dst (e.slots k) } := by
  have heff : e.effect (.movR32M32 dst .ebp disp) =
      some fun _ => { e with gprs := Function.update e.gprs dst (e.slots k) } := by
    simp [Env.effect, Env.get, Env.assign, Env.write, hk, hdst]
  rw [line_cons heff, forall_const]

/-- `mov dword ptr [ebp+disp],src`. -/
theorem line_store {src : Gpr} (hk : slot disp = some k) :
    line (.movM32R32 .ebp disp src :: insns) Q e ↔
      line insns Q { e with slots := Function.update e.slots k (e.gprs src) } := by
  have heff : e.effect (.movM32R32 .ebp disp src) =
      some fun _ => { e with slots := Function.update e.slots k (e.gprs src) } := by
    simp [Env.effect, Env.put, hk]
  rw [line_cons heff, forall_const]

/-- An instruction that writes a register and sets the carry flag. -/
theorem line_write {v : BitVec 32} {cf : Bool} (heff : e.effect i = e.write dst v (fun _ => cf)) (hdst : dst ≠ .ebp) :
    line (i :: insns) Q e ↔ line insns Q ⟨Function.update e.gprs dst v, cf, e.slots⟩ := by
  rw [line_cons (heff.trans (if_neg hdst)), forall_const]

/-- `mul dword ptr [ebp+disp]`. -/
theorem line_mul (hk : slot disp = some k) :
    line (.mulM32 .ebp disp :: insns) Q e ↔ line insns Q (e.mul (e.slots k) false) := by
  have heff : e.effect (.mulM32 .ebp disp) = some (e.mul (e.slots k)) := by
    simp [Env.effect, Env.get, hk]
  rw [line_cons heff]
  exact ⟨fun h => h false, fun h _ => h⟩

/-- A shift, which may set the carry flag in any way. -/
theorem line_shift {v : BitVec 32} (heff : e.effect i = e.shift dst v) (hdst : dst ≠ .ebp) :
    line (i :: insns) Q e ↔ ∀ b, line insns Q ⟨Function.update e.gprs dst v, b, e.slots⟩ := by
  rw [line_cons (heff.trans (if_neg hdst))]
  rfl

end Rules

end X32
end Jit
end Bpf
end Serval
