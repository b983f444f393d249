import Serval.Bpf.Jit.LinuxRiscv64Alu

/-!
# LinuxRiscv64Correct — the C JIT compiler simulates the BPF interpreter

With the code of all instructions in memory, and the table `offset` as the code was placed, the machine follows every
run of `interpret-program`.  A jump counts from its last word, the branch, to the end of the slot before its target.
-/

namespace Serval
namespace Bpf
namespace Jit
namespace Linux64

open Serval.Core Riscv.Interp
open Rv64 (Rv64Cpu)

/-! ## Offsets -/

/-- The field of a jump counts half words. -/
theorem signExtend_half {n : Nat} (hn : n = 12 ∨ n = 20) {x : BitVec 32} (hx : isInt (n + 1) (x <<< 2).toInt) :
    (((x <<< 2).sshiftRight 1).extractLsb' 0 n).signExtend 64 <<< (1 : BitVec 64) = (x <<< 2).signExtend 64 := by
  have heven : (x <<< 2).getLsbD 0 = false := by simp
  generalize x <<< 2 = y at hx heven ⊢
  -- from bit `n` on, all bits are copies of the sign
  have hbits : ∀ i, n ≤ i → i < 32 → y.getLsbD i = y.getLsbD n := by
    have hy : (y.setWidth (n + 1)).signExtend 32 = y := by
      apply BitVec.eq_of_toInt_eq
      have hval := BitVec.toInt_eq_toNat_bmod y
      rcases hn with rfl | rfl <;>
        rw [BitVec.toInt_signExtend_of_le (by omega), BitVec.toInt_setWidth] <;>
        simp only [isInt] at hx <;> rw [Int.bmod_def] at hval ⊢ <;> omega
    intro i hi hlt
    have hbit := congrArg (BitVec.getLsbD · i) hy
    simp only [BitVec.getLsbD_signExtend, BitVec.getLsbD_setWidth, BitVec.msb_eq_getLsbD_last] at hbit
    grind
  apply BitVec.eq_of_getLsbD_eq
  intro i hi
  simp only [BitVec.shiftLeft_eq', BitVec.getLsbD_shiftLeft, BitVec.getLsbD_signExtend, BitVec.msb_eq_getLsbD_last,
    BitVec.getLsbD_extractLsb', BitVec.getLsbD_sshiftRight]
  grind

/-- The last word of the code and `rv_offset` give the target. -/
theorem add_rvOffset {a b : BitVec 32} (ha : 0 < a.toNat ∧ a.toNat < 2 ^ 28) (hb : b.toNat < 2 ^ 28) :
    BitVec.ofNat 64 (4 * (a.toNat - 1)) + ((b - (a - 1)) <<< 2).signExtend 64 = BitVec.ofNat 64 (4 * b.toNat) := by
  have hlast : (a - 1).toNat = a.toNat - 1 := by
    rw [BitVec.toNat_sub]
    simp
    omega
  have hdiff : ((b - (a - 1)) <<< 2).toNat = (2 ^ 32 - (a.toNat - 1) + b.toNat) % 2 ^ 32 * 4 % 2 ^ 32 := by
    rw [BitVec.toNat_shiftLeft, BitVec.toNat_sub, hlast, Nat.shiftLeft_eq]
  apply BitVec.eq_of_toNat_eq
  rw [BitVec.toNat_add, BitVec.toNat_signExtend, BitVec.toNat_setWidth, BitVec.msb_eq_decide, hdiff, BitVec.toNat_ofNat,
    BitVec.toNat_ofNat]
  simp
  split <;> omega

theorem rvOffset_eq_some {offset : List (BitVec 32)} {bpfTo : Int} {k : Nat} {last rvoff : BitVec 32}
    (hlast : offset[k]? = some last) (h : rvOffset offset bpfTo k = some rvoff) :
    ∃ target, offsetAt offset bpfTo = some target ∧ target ∈ offset ∧ rvoff = (target - (last - 1)) <<< 2 := by
  have hat : offsetAt offset k = some last := by simp [offsetAt, hlast]
  simp only [rvOffset, hat, Option.bind_eq_bind, Option.bind_some, Option.bind_eq_some_iff, Option.pure_def,
    Option.some.injEq] at h
  rcases h with ⟨target, htarget, rfl⟩
  refine ⟨target, htarget, ?_, rfl⟩
  rw [offsetAt] at htarget
  split_ifs at htarget
  exact List.mem_of_getElem? htarget

/-- The address of a word of the code. -/
def wordAddr (base : BitVec 64) (n : Nat) : BitVec 64 :=
  base + BitVec.ofNat 64 (4 * n)

theorem wordAddr_add (base : BitVec 64) (n k : Nat) :
    wordAddr base (n + k) = wordAddr base n + BitVec.ofNat 64 (4 * k) := by
  rw [wordAddr, wordAddr, Nat.mul_add, BitVec.ofNat_add, BitVec.add_assoc]

section Code

variable {fetch : BitVec 64 → Option Instr} {base : BitVec 64} {start : Nat} {code : List Instr} {r r₁ : Rv64Cpu}

theorem Straight.steps (hcode : Straight code) (hexec : (machine 64).Exec code r r₁)
    (hsits : (machine 64).Sits fetch r.pc code) (hpc : r.pc = wordAddr base start) :
    (machine 64).Steps fetch r r₁ ∧ r₁.pc = wordAddr base (start + code.length) := by
  have hend : r₁.pc = r.pc + BitVec.ofNat 64 (4 * code.length) := hcode.length ▸ hexec.pc_eq
  rw [wordAddr_add, ← hpc]
  exact ⟨hexec.steps hsits, hend⟩

/-- Straight code and then a jump. -/
theorem steps_jump {j : Instr} {c : Bool} {field : BitVec 64} {last target : BitVec 32} (hcode : Straight code)
    (hexec : (machine 64).Exec code r r₁) (hj : Riscv.Interp.interpretInstr r₁ j =
      .ok (goto r₁ (if c then r₁.pc + field else r₁.pc + 4))) (hhalts : (machine 64).halts j = false)
    (hfield : field = ((target - (last - 1)) <<< 2).signExtend 64)
    (hsits : (machine 64).Sits fetch r.pc (code ++ [j])) (hpc : r.pc = wordAddr base start)
    (hlast : last.toNat = start + (code ++ [j]).length) (hbound : last.toNat < 2 ^ 28 ∧ target.toNat < 2 ^ 28) :
    ∃ pc, (machine 64).Steps fetch r (goto r₁ pc) ∧ pc = wordAddr base (if c then target.toNat else last.toNat) := by
  rw [CodeMachine.sits_append] at hsits
  rw [List.length_append, List.length_singleton] at hlast
  rcases hcode.steps hexec hsits.1 hpc with ⟨hsteps, hpc₁⟩
  have hfetch : fetch r₁.pc = some j := by
    have hend : r₁.pc = _ := hexec.pc_eq
    rw [hend]
    exact hsits.2.1
  refine ⟨_, .tail hsteps ⟨j, hfetch, hhalts, hj⟩, ?_⟩
  cases c with
  | true =>
      have hbefore : start + code.length = last.toNat - 1 := by omega
      rw [if_pos rfl, if_pos rfl, hpc₁, hbefore, hfield, wordAddr, BitVec.add_assoc, add_rvOffset (by omega) hbound.2]
      rfl
  | false =>
      rw [if_neg (by simp), if_neg (by simp), hlast, ← Nat.add_assoc, wordAddr_add, ← hpc₁]
      rfl

end Code

/-! ## Comparisons -/

theorem interpretInstr_rvBranch {op : Op} {rs1 rs2 : Gpr} {r : Rv64Cpu} {c : Bool}
    (h : evaluateBinaryConditional op (r.gprRef rs1) (r.gprRef rs2) = .ok c) (imm : BitVec 12) :
    Riscv.Interp.interpretInstr r (rvBranch op rs1 rs2 imm) =
      .ok (goto r (if c then r.pc + imm.signExtend 64 <<< (1 : BitVec 64) else r.pc + 4)) := by
  have hcond : (do if ← evaluateBinaryConditional op (r.gprRef rs1) (r.gprRef rs2) then
      return jumpAndLink r 0 ⟨12, imm⟩ 4 else return r.next 4) =
      Except.ok (goto r (if c then r.pc + imm.signExtend 64 <<< (1 : BitVec 64) else r.pc + 4)) := by
    rw [h, ok_bind]
    cases c with
    | true => rfl
    | false => exact congrArg (fun pc => Except.ok (goto r pc)) (BitVec.add_comm ..)
  rw [← hcond]
  cases op <;> first | cases h; done | rfl

/-- The comparison of a jump and its branch. -/
theorem exec_emitBranch (op : JmpOp) (rd rs : Gpr) (imm : BitVec 12) (r : Rv64Cpu) :
    Straight (emitBranch rd rs imm op).1 ∧ (machine 64).halts (emitBranch rd rs imm op).2 = false ∧
    ∃ r₁, (machine 64).Exec (emitBranch rd rs imm op).1 r r₁ ∧ SameBut [Reg.t1] r r₁ ∧
      Riscv.Interp.interpretInstr r₁ (emitBranch rd rs imm op).2 =
        .ok (goto r₁ (if evaluateCond op (r.gprRef rd) (r.gprRef rs) then
          r₁.pc + imm.signExtend 64 <<< (1 : BitVec 64) else r₁.pc + 4)) := by
  cases op with
  | jset =>
      have hand : (machine 64).line [rvAnd Reg.t1 rd rs]
          (fun r₁ => r₁.gprRef Reg.t1 = r.gprRef rd &&& r.gprRef rs) r := by
        simp [retire_gprRef, show Reg.t1 ≠ 0 by decide]
      have honly : OnlyWrites [Reg.t1] [rvAnd Reg.t1 rd rs] := Rv64.onlyWrites_single rfl rfl (by simp)
      rcases wp_sameBut honly ((machine 64).wp_of_line hand) with ⟨r₁, hexec, hvalue, hsame⟩
      refine ⟨by simp [emitBranch, goesOn, rvAnd, rvRInsn], rfl, r₁, hexec, hsame, interpretInstr_rvBranch ?_ imm⟩
      rw [hvalue]
      rfl
  | _ => exact ⟨straight_nil, rfl, r, .nil r, SameBut.refl _ r, interpretInstr_rvBranch rfl imm⟩

theorem exec_emitOperand (i : Insn) (source : Source) (r : Rv64Cpu) :
    Straight (emitOperand i source).1 ∧ ∃ r₁, (machine 64).Exec (emitOperand i source).1 r r₁ ∧
      SameBut [Reg.t1] r r₁ ∧
      r₁.gprRef (emitOperand i source).2 = i.operand (r.gprRef (Rv64.regmap i.src)) source := by
  cases source with
  | x => exact ⟨straight_nil, r, .nil r, SameBut.refl _ r, rfl⟩
  | k =>
      rcases wp_emitImm (show Reg.t1 ≠ 0 by decide) (i.imm.signExtend 64) r with ⟨r₁, hexec, hvalue, hsame⟩
      exact ⟨straight_emitImm _ _, r₁, hexec, hsame, hvalue⟩

/-! ## Programs -/

/-- The word at which the code of a slot starts: the end of the slot before it. -/
def startOf (offset : List (BitVec 32)) : Nat → Option Nat
  | 0 => some 0
  | k + 1 => offset[k]?.map BitVec.toNat

/-- The number of slots of an instruction that has code. -/
def slots : Slot → Option Nat
  | .insn _ => some 1
  | .ldImm64 _ _ _ => some 2
  | .upper _ | .exit => none

/-- The code of every instruction is in memory where the table says. -/
structure Placed (prog : List Slot) (offset : List (BitVec 32)) (base : BitVec 64) (fetch : BitVec 64 → Option Instr) :
    Prop where
  length : offset.length < 2 ^ 31
  bound : ∀ n ∈ offset, n.toNat < 2 ^ 28
  code : ∀ k slot n, prog[k]? = some slot → slots slot = some n → ∃ start code,
    startOf offset k = some start ∧ startOf offset (k + n) = some (start + code.length) ∧
      emitSlot offset prog k = some code ∧ (machine 64).Sits fetch (wordAddr base start) code

/-- The registers hold those of BPF, and the machine is at the code of the instruction that is next. -/
structure Sim (offset : List (BitVec 32)) (base : BitVec 64) (b : Bpf.Cpu) (r : Rv64Cpu) : Prop where
  regs : Rv64.cpuEqual b r
  pc : ∃ start, startOf offset b.pc.toNat = some start ∧ r.pc = wordAddr base start

/-- The machine is at a piece of code, which ends where the code of a later slot starts. -/
structure At (offset : List (BitVec 32)) (base : BitVec 64) (fetch : BitVec 64 → Option Instr) (b : Bpf.Cpu)
    (r : Rv64Cpu) (n : Nat) (code : List Instr) : Prop where
  regs : Rv64.cpuEqual b r
  sits : (machine 64).Sits fetch r.pc code
  pc : ∃ start, r.pc = wordAddr base start ∧ startOf offset (b.pc.toNat + n) = some (start + code.length)

section Programs

variable {prog : List Slot} {offset : List (BitVec 32)} {base : BitVec 64} {fetch : BitVec 64 → Option Instr}
  {b : Bpf.Cpu} {r r' : Rv64Cpu} {i : Insn} {code : List Instr}

theorem Sim.at (hsim : Sim offset base b r) (hplaced : Placed prog offset base fetch) {slot : Slot} {n : Nat}
    (hslot : prog[b.pc.toNat]? = some slot) (hn : slots slot = some n) :
    ∃ code, emitSlot offset prog b.pc.toNat = some code ∧ At offset base fetch b r n code := by
  rcases hsim with ⟨hregs, start, hstart, hpc⟩
  rcases hplaced.code _ _ n hslot hn with ⟨start', code, hstart', hend, hcode, hsits⟩
  cases hstart.symm.trans hstart'
  exact ⟨code, hcode, hregs, hpc ▸ hsits, start, hpc, hend⟩

theorem lt_of_startOf {k n : Nat} (h : startOf offset (k + 1) = some n) : k < offset.length := by
  rcases Option.map_eq_some_iff.mp h with ⟨_, h, _⟩
  exact (List.getElem?_eq_some_iff.mp h).1

/-- The next slot, as the interpreter counts. -/
theorem toNat_one_add {pc : BitVec 64} (h : pc.toNat < 2 ^ 32) : (1 + pc).toNat = pc.toNat + 1 := by
  rw [BitVec.toNat_add]
  simp
  omega

theorem startOf_target (hlength : offset.length < 2 ^ 31) {pc : BitVec 64} {off : BitVec 16} {target : BitVec 32}
    (h : offsetAt offset (pc.toNat + off.toInt) = some target) :
    startOf offset (1 + (off.signExtend 64 + pc)).toNat = some target.toNat := by
  rw [offsetAt] at h
  split_ifs at h with hpos
  have hlt := (List.getElem?_eq_some_iff.mp h).1
  have hindex : (1 + (off.signExtend 64 + pc)).toNat = (pc.toNat + off.toInt).toNat + 1 := by
    have hoff := BitVec.toInt_eq_toNat_cond off
    have := pc.isLt
    have := off.isLt
    rw [BitVec.toNat_add, BitVec.toNat_add, BitVec.toNat_signExtend, BitVec.toNat_setWidth, BitVec.msb_eq_decide]
    simp only [decide_eq_true_eq]
    split at hoff <;> split <;> simp <;> omega
  rw [hindex, startOf, h]
  rfl

theorem cpuEqual_temps (h : Rv64.cpuEqual b r) (hsame : SameBut [Reg.t1] r r') (pc : BitVec 64) :
    Rv64.cpuEqual ⟨pc, b.regs⟩ r' := by
  intro j
  rw [hsame.gpr _ (by simpa using (Rv64.regmap_distinct j).2.1)]
  exact h j

theorem interpretInstr_jmp {op : JmpOp} {source : Source} {c : Bool} (hcode : i.code = .jmp op source)
    (h : Rv64.cpuEqual b r)
    (hc : evaluateCond op (r.gprRef (Rv64.regmap i.dst)) (i.operand (r.gprRef (Rv64.regmap i.src)) source) = c) :
    interpretInstr b i = .ok ⟨1 + if c then i.off.signExtend 64 + b.pc else b.pc, b.regs⟩ := by
  have href : ∀ j, b.regRef j = .ok (r.gprRef (Rv64.regmap j)) := by
    intro j
    rw [Bpf.Cpu.regRef, h j]
  have hbody : interpretCode b i = .ok (if c then b.next (i.off.signExtend 64) else b) := by
    rw [← hc]
    cases source <;> simp only [interpretCode, hcode, href, ok_bind, Insn.operand] <;> rfl
  rw [interpretInstr, hbody, ok_bind]
  cases c <;> rfl

/-- Arithmetic. -/
theorem alu_sim (hplaced : Placed prog offset base fetch) (hat : At offset base fetch b r 1 code)
    (halu : i.code.isAlu) (hclears : clearsUpper i.code) (hpre : ∀ v, b.regs i.src = some v → Pre [16, 32, 64] i v)
    (hcode : emitInsn offset b.pc.toNat i = some code) :
    ∃ b' r', interpretInstr b i = .ok b' ∧ (machine 64).Steps fetch r r' ∧ Sim offset base b' r' := by
  rcases hat with ⟨hregs, hsits, start, hpc, hend⟩
  have hpre' := hpre _ (hregs i.src)
  rcases result_ok hpre' halu (by simp) (r.gprRef (Rv64.regmap i.dst)) with ⟨v, hv⟩
  rcases wp_emitInsn halu hclears hcode hpre' rfl rfl hv with ⟨r', hexec, hvalue, hsame⟩
  rcases (straight_emitInsn halu hcode).steps hexec hsits hpc with ⟨hsteps, hpc'⟩
  refine ⟨_, r', interpretInstr_of_result (hregs i.dst) (hregs i.src) (Fin.ne_of_lt hpre'.dst) hv, hsteps,
    Rv64.cpuEqual_set hregs hvalue hsame, _, ?_, hpc'⟩
  have hlt := lt_of_startOf hend
  have hlength := hplaced.length
  rw [← hend, ← toNat_one_add (by omega)]

/-- Conditional jumps. -/
theorem jmp_sim (hplaced : Placed prog offset base fetch) (hat : At offset base fetch b r 1 code) {op : JmpOp}
    {source : Source} (hop : i.code = .jmp op source) (hcode : emitInsn offset b.pc.toNat i = some code) :
    ∃ b' r', interpretInstr b i = .ok b' ∧ (machine 64).Steps fetch r r' ∧ Sim offset base b' r' := by
  rcases hat with ⟨hregs, hsits, start, hpc, hend⟩
  rcases Option.map_eq_some_iff.mp hend with ⟨last, hlast, hsum⟩
  simp only [emitInsn, hop, emitJmp, Option.bind_eq_bind, Option.bind_eq_some_iff] at hcode
  rcases hcode with ⟨rvoff, hrvoff, hcode⟩
  rcases rvOffset_eq_some hlast hrvoff with ⟨target, htarget, hmem, rfl⟩
  split_ifs at hcode with h13
  cases hcode
  rcases exec_emitOperand i source r with ⟨hstraight₁, r₁, hexec₁, hsame₁, hoperand⟩
  rcases exec_emitBranch op (Rv64.regmap i.dst) (emitOperand i source).2
    (low12 (((target - (last - 1)) <<< 2).sshiftRight 1)) r₁ with ⟨hstraight₂, hhalts, r₂, hexec₂, hsame₂, hj⟩
  have hdst : Rv64.regmap i.dst ∉ [Reg.t1] := by simpa using (Rv64.regmap_distinct i.dst).2.1
  rw [hoperand, hsame₁.gpr _ hdst] at hj
  rcases steps_jump (straight_append.mpr ⟨hstraight₁, hstraight₂⟩) (hexec₁.append hexec₂) hj hhalts
    (signExtend_half (.inl rfl) h13) hsits hpc hsum
    ⟨hplaced.bound _ (List.mem_of_getElem? hlast), hplaced.bound _ hmem⟩ with ⟨pc, hsteps, hpc'⟩
  refine ⟨_, _, interpretInstr_jmp hop hregs rfl, hsteps, cpuEqual_temps hregs ((hsame₁.trans hsame₂).setPc pc) _, _,
    ?_, hpc'⟩
  split_ifs with hcond
  · exact startOf_target hplaced.length htarget
  · have hlt := lt_of_startOf hend
    have hlength := hplaced.length
    rw [hsum, ← hend, ← toNat_one_add (by omega)]

/-- Unconditional jumps. -/
theorem ja_sim (hplaced : Placed prog offset base fetch) (hat : At offset base fetch b r 1 code) (hop : i.code = .ja)
    (hcode : emitInsn offset b.pc.toNat i = some code) :
    ∃ b' r', interpretInstr b i = .ok b' ∧ (machine 64).Steps fetch r r' ∧ Sim offset base b' r' := by
  rcases hat with ⟨hregs, hsits, start, hpc, hend⟩
  rcases Option.map_eq_some_iff.mp hend with ⟨last, hlast, hsum⟩
  simp only [emitInsn, hop, Option.bind_eq_bind, Option.bind_eq_some_iff] at hcode
  rcases hcode with ⟨rvoff, hrvoff, hcode⟩
  rcases rvOffset_eq_some hlast hrvoff with ⟨target, htarget, hmem, rfl⟩
  split_ifs at hcode with h21
  cases hcode
  rcases steps_jump (c := true) straight_nil (.nil r) rfl rfl (signExtend_half (.inr rfl) h21) hsits hpc hsum
    ⟨hplaced.bound _ (List.mem_of_getElem? hlast), hplaced.bound _ hmem⟩ with ⟨pc, hsteps, hpc'⟩
  have hexec : interpretInstr b i = .ok ⟨1 + (i.off.signExtend 64 + b.pc), b.regs⟩ := by
    simp only [interpretInstr, interpretCode, hop]
    rfl
  exact ⟨_, _, hexec, hsteps, fun j => hregs j, _, startOf_target hplaced.length htarget, hpc'⟩

theorem emitInsn_cases {k : Nat} (h : emitInsn offset k i = some code) :
    i.code.isAlu ∨ i.code = .ja ∨ ∃ op source, i.code = .jmp op source := by
  cases hop : i.code with
  | binary cls op source =>
      left
      cases source with
      | x =>
          simp only [emitInsn, hop] at h
          exact hop ▸ Rv64.runJit_isAlu h
      | k => cases op <;> first | rfl | simp [emitInsn, hop, emitAluK] at h
  | neg cls => exact .inl rfl
  | endian order => exact .inl rfl
  | ja => exact .inr (.inl rfl)
  | jmp op source => exact .inr (.inr ⟨op, source, rfl⟩)

/-- The halves of a constant, as C and as `imm64-dw` put them together. -/
theorem imm64_eq (lower upper : BitVec 32) :
    upper.signExtend 64 <<< 32 ||| lower.setWidth 64 = imm64Dw lower upper := by
  apply BitVec.eq_of_getLsbD_eq
  intro j hj
  simp only [imm64Dw, BitVec.getLsbD_or, BitVec.getLsbD_shiftLeft, BitVec.getLsbD_signExtend, BitVec.getLsbD_setWidth]
  grind

/-- Constants of two slots. -/
theorem ldImm64_sim (hplaced : Placed prog offset base fetch) (hat : At offset base fetch b r 2 code)
    {dst src : Bpf.Reg} {lower : BitVec 32} (hslot : prog[b.pc.toNat]? = some (.ldImm64 dst src lower))
    (hcode : emitSlot offset prog b.pc.toNat = some code) {vm : Vm}
    (hstep : stepProgram prog (Vm.ofCpu b) = .ok (.next vm)) :
    ∃ b' r', vm = Vm.ofCpu b' ∧ (machine 64).Steps fetch r r' ∧ Sim offset base b' r' := by
  rcases hat with ⟨hregs, hsits, start, hpc, hend⟩
  have hsecond : (1 + b.pc).toNat = b.pc.toNat + 1 ∧ (1 + (1 + b.pc)).toNat = b.pc.toNat + 2 := by
    have hlt := lt_of_startOf hend
    have hlength := hplaced.length
    have hfirst := @toNat_one_add b.pc (by omega)
    exact ⟨hfirst, (toNat_one_add (by omega)).trans (by omega)⟩
  simp only [emitSlot, hslot] at hcode
  split at hcode
  case h_2 => cases hcode
  case h_1 upper hupper =>
    simp only [stepProgram, show (Vm.ofCpu b).pc = b.pc from rfl, hslot, BitVec.add_comm b.pc 1, hsecond.1, hupper,
      regSet_ofCpu, Bpf.Cpu.regSet, bugOn] at hstep
    split_ifs at hstep
    case pos => cases hstep
    cases hstep
    cases hcode
    rcases wp_emitImm (Rv64.regmap_distinct dst).1 _ r with ⟨r', hexec, hvalue, hsame⟩
    rcases (straight_emitImm _ _).steps hexec hsits hpc with ⟨hsteps, hpc'⟩
    rw [imm64_eq] at hvalue
    refine ⟨⟨1 + (1 + b.pc), Function.update b.regs dst (some (imm64Dw lower upper))⟩, r', rfl, hsteps,
      Rv64.cpuEqual_set hregs hvalue (hsame.mono (by simp)), _, ?_, hpc'⟩
    rw [← hend]
    exact congrArg _ hsecond.2

/-- One round of the interpreter, and the machine runs the code of the instruction. -/
theorem step_sim (hplaced : Placed prog offset base fetch) (hclears : ∀ i, .insn i ∈ prog → clearsUpper i.code)
    (hsim : Sim offset base b r)
    (hpre : ∀ i v, prog[b.pc.toNat]? = some (.insn i) → i.code.isAlu → b.regs i.src = some v → Pre [16, 32, 64] i v)
    {vm : Vm} (hstep : stepProgram prog (Vm.ofCpu b) = .ok (.next vm)) :
    ∃ b' r', vm = Vm.ofCpu b' ∧ (machine 64).Steps fetch r r' ∧ Sim offset base b' r' := by
  have hvm : (Vm.ofCpu b).pc = b.pc := rfl
  cases hslot : prog[b.pc.toNat]? with
  | none => simp [stepProgram, hvm, hslot] at hstep
  | some slot =>
      cases slot with
      | insn i =>
          rcases hsim.at hplaced hslot rfl with ⟨code, hcode, hat⟩
          simp only [emitSlot, hslot] at hcode
          simp only [stepProgram, hvm, hslot, interpretCode_ofCpu] at hstep
          have hnext : ∃ b', interpretInstr b i = .ok b' ∧ vm = Vm.ofCpu b' := by
            rw [interpretInstr]
            cases hbody : interpretCode b i with
            | error e => simp [hbody, Except.map] at hstep
            | ok b₁ =>
                rw [hbody] at hstep
                cases hstep
                exact ⟨b₁.next 1, rfl, rfl⟩
          rcases hnext with ⟨b', hb', rfl⟩
          suffices h : ∃ b' r', interpretInstr b i = .ok b' ∧ (machine 64).Steps fetch r r' ∧ Sim offset base b' r' by
            rcases h with ⟨b'', r', hb'', hsteps, hsim⟩
            cases hb'.symm.trans hb''
            exact ⟨b', r', rfl, hsteps, hsim⟩
          rcases emitInsn_cases hcode with halu | hop | ⟨op, source, hop⟩
          · have hclear := hclears i (List.mem_of_getElem? hslot)
            exact alu_sim hplaced hat halu hclear (fun v => hpre i v hslot halu) hcode
          · exact ja_sim hplaced hat hop hcode
          · exact jmp_sim hplaced hat hop hcode
      | ldImm64 dst src lower =>
          rcases hsim.at hplaced hslot rfl with ⟨code, hcode, hat⟩
          exact ldImm64_sim hplaced hat hslot hcode hstep
      | upper imm => simp [stepProgram, hvm, hslot] at hstep
      | exit =>
          simp only [stepProgram, hvm, hslot] at hstep
          rcases bind_eq_ok.mp hstep with ⟨_, _, h⟩
          cases h

/-- The machine follows every run of a program: when the interpreter has come to a state, the machine has come to the
code of the instruction that is next, with the same registers. -/
theorem steps_of_visits (hplaced : Placed prog offset base fetch) (hclears : ∀ i, .insn i ∈ prog → clearsUpper i.code)
    (hsim : Sim offset base b r)
    (hpre : ∀ b₁, Visits prog (Vm.ofCpu b) (Vm.ofCpu b₁) → ∀ i v, prog[b₁.pc.toNat]? = some (.insn i) →
      i.code.isAlu → b₁.regs i.src = some v → Pre [16, 32, 64] i v) {vm : Vm} (hvisits : Visits prog (Vm.ofCpu b) vm) :
    ∃ b' r', vm = Vm.ofCpu b' ∧ (machine 64).Steps fetch r r' ∧ Sim offset base b' r' := by
  induction hvisits with
  | refl => exact ⟨b, r, rfl, .refl, hsim⟩
  | tail hvisits hstep ih =>
      rcases ih with ⟨b₁, r₁, rfl, hsteps₁, hsim₁⟩
      rcases step_sim hplaced hclears hsim₁ (hpre b₁ hvisits) hstep with ⟨b', r', rfl, hsteps, hsim'⟩
      exact ⟨b', r', rfl, hsteps₁.trans hsteps, hsim'⟩

end Programs

/-- `r0 = 2; do { r0 -= 1 } while (r0 != 0)`. -/
def countdown : List Slot :=
  [.insn ⟨.binary .alu64 .mov .k, 0, 0, 0, 2⟩, .insn ⟨.binary .alu64 .sub .k, 0, 0, 0, 1⟩,
    .insn ⟨.jmp .jne .k, 0, 0, -2, 0⟩, .exit]

/-- Its code, which starts at the address 0. -/
def countdownCode : List Instr :=
  [rvAddi Reg.a5 Reg.zero 2, rvAddi Reg.a5 Reg.a5 (-1), rvAddi Reg.t1 Reg.zero 0, rvBranch .bne Reg.a5 Reg.t1 (-4)]

theorem placed_countdown : Placed countdown [1, 2, 4, 4] 0 (fun a => countdownCode[a.toNat / 4]?) := by
  refine ⟨by decide, by simp, fun k slot n hslot hn => ?_⟩
  rcases k with _ | _ | _ | _ | k <;> cases hslot <;> cases hn
  · refine ⟨0, [rvAddi Reg.a5 Reg.zero 2], rfl, rfl, ?_, rfl, trivial⟩
    simp only [emitSlot, countdown, emitInsn, emitAluK, List.getElem?_cons_zero, emitImm_signExtend]
    rfl
  · exact ⟨1, [rvAddi Reg.a5 Reg.a5 (-1)], rfl, rfl, rfl, rfl, trivial⟩
  · refine ⟨2, [rvAddi Reg.t1 Reg.zero 0, rvBranch .bne Reg.a5 Reg.t1 (-4)], rfl, rfl, ?_, rfl, rfl, trivial⟩
    have hjmp : emitJmp [1, 2, 4, 4] 2 .jne .k ⟨.jmp .jne .k, 0, 0, -2, 0⟩ =
        some (Rv64.emitImm Reg.t1 0 ++ [] ++ [rvBranch .bne Reg.a5 Reg.t1 (-4)]) := by
      rw [← emitImm_signExtend]
      rfl
    exact hjmp

/-- The run up to the jump back. -/
theorem steps_of_visits_countdown : ∃ (r r' : Rv64Cpu) (b b' : Bpf.Cpu),
    Visits countdown (Vm.ofCpu b) (Vm.ofCpu b') ∧ b'.pc = 1 ∧
      (machine 64).Steps (fun a => countdownCode[a.toNat / 4]?) r r' ∧ r'.pc = 4 ∧ Rv64.cpuEqual b' r' := by
  let b : Bpf.Cpu := ⟨0, fun _ => some 0⟩
  let r : Rv64Cpu := ⟨0, fun _ => 0, fun _ => 0, []⟩
  have hsim : Sim [1, 2, 4, 4] 0 b r := ⟨fun i => by revert i; decide, 0, rfl, rfl⟩
  have hinsns : ∀ i, .insn i ∈ countdown → clearsUpper i.code ∧ (i.code.isAlu → ∀ v, Pre [16, 32, 64] i v) := by
    intro i hmem
    simp only [countdown, List.mem_cons, List.not_mem_nil, Slot.insn.injEq, reduceCtorEq, or_false] at hmem
    rcases hmem with rfl | rfl | rfl <;> refine ⟨rfl, fun halu v => ?_⟩
    case inr.inr => cases halu
    all_goals
      constructor <;> simp [Code.isAlu32, Code.isDiv, Code.isShift, Code.isEndian]
  have h₁ : Visits countdown (Vm.ofCpu b) _ := .single rfl
  have h₂ : Visits countdown (Vm.ofCpu b) _ := .tail h₁ rfl
  have hvisits : ∃ vm, Visits countdown (Vm.ofCpu b) vm ∧ vm.pc = 1 := ⟨_, .tail h₂ rfl, by decide⟩
  rcases hvisits with ⟨vm, hvisits, hpc⟩
  rcases steps_of_visits placed_countdown (fun i hmem => (hinsns i hmem).1) hsim
    (fun _ _ i v hslot halu _ => (hinsns i (List.mem_of_getElem? hslot)).2 halu v) hvisits with
    ⟨b', r', rfl, hsteps, hsim'⟩
  rcases hsim' with ⟨hregs, start, hstart, hpc'⟩
  have hpc₁ : b'.pc = 1 := hpc
  rw [hpc₁] at hstart
  cases hstart
  exact ⟨r, r', b, b', hvisits, hpc₁, hsteps, hpc', hregs⟩

end Linux64
end Jit
end Bpf
end Serval
