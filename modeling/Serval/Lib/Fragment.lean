import Mathlib.Algebra.Group.Int.Defs
import Mathlib.Algebra.GroupWithZero.Nat
import Mathlib.Data.List.Basic
import Mathlib.Tactic.Common
import Mathlib.Logic.Function.Basic
import Mathlib.Logic.Relation

/-!
# Fragment — pieces of machine code, wherever they are placed

A machine fetches the instruction at its program counter, executes it and goes on, until it finds an
instruction that halts it or no instruction at all; the latter may be an error.  `wp code Q s` says
what a piece of code does without saying where it is: entered at its first instruction in the state
`s` it runs to its end, each instruction at most once, and arrives there in a state that satisfies
`Q`.  Jumps inside the piece go forward.

`line` is the same for code without jumps; it is a function of the code, so that `simp` can run it.
-/

namespace Serval

/-- A machine with fixed-width addresses that runs instructions of type `ι`. -/
structure CodeMachine (w : Nat) (ι σ ε : Type) where
  pc : σ → BitVec w
  size : ι → Nat
  halts : ι → Bool
  exec : ι → σ → Except ε σ
  missing : Option ε := none

namespace CodeMachine

variable {w : Nat} {ι σ ε : Type} (M : CodeMachine w ι σ ε)

/-- Run for at most `fuel` instructions; `none` means that the fuel did not suffice. -/
def run (fetch : BitVec w → Option ι) : Nat → σ → Except ε (Option σ)
  | 0, _ => .ok none
  | fuel + 1, s =>
      match fetch (M.pc s) with
      | none => M.missing.elim (.ok (some s)) .error
      | some i => if M.halts i then .ok (some s) else (M.exec i s).bind (run fetch fuel)

/-- There is an instruction at this address that halts the machine. -/
def Stops (fetch : BitVec w → Option ι) (a : BitVec w) : Prop :=
  ∃ i, fetch a = some i ∧ M.halts i

theorem run_of_stops {fetch : BitVec w → Option ι} {s : σ} (h : M.Stops fetch (M.pc s)) (fuel : Nat) :
    M.run fetch (fuel + 1) s = .ok (some s) := by
  rcases h with ⟨i, hfetch, hhalts⟩
  simp [run, hfetch, hhalts]

theorem run_of_exec {fetch : BitVec w → Option ι} {s s₁ : σ} {i : ι}
    (hfetch : fetch (M.pc s) = some i) (hgoes : M.halts i = false) (hexec : M.exec i s = .ok s₁)
    (fuel : Nat) : M.run fetch (fuel + 1) s = M.run fetch fuel s₁ := by
  simp [run, hfetch, hgoes, hexec, Except.bind]

/-! ## Placed code -/

/-- The number of bytes of a piece of code. -/
def length (code : List ι) : Nat :=
  (code.map M.size).sum

@[simp] theorem length_nil : M.length [] = 0 := rfl

@[simp] theorem length_cons (i : ι) (code : List ι) :
    M.length (i :: code) = M.size i + M.length code := rfl

@[simp] theorem length_append (c₁ c₂ : List ι) :
    M.length (c₁ ++ c₂) = M.length c₁ + M.length c₂ := by
  simp [length]

/-- The code is in memory from the address `a` on. -/
def Sits (fetch : BitVec w → Option ι) : BitVec w → List ι → Prop
  | _, [] => True
  | a, i :: code => fetch a = some i ∧ Sits fetch (a + BitVec.ofNat w (M.size i)) code

theorem sits_append {fetch : BitVec w → Option ι} {c₁ c₂ : List ι} {a : BitVec w} :
    M.Sits fetch a (c₁ ++ c₂) ↔
      M.Sits fetch a c₁ ∧ M.Sits fetch (a + BitVec.ofNat w (M.length c₁)) c₂ := by
  induction c₁ generalizing a with
  | nil => simp [Sits]
  | cons i c₁ ih =>
      simp [Sits, ih, and_assoc, BitVec.ofNat_add, BitVec.add_assoc]

/-- Put code into memory from the address `a` on; an instruction that comes later wins. -/
def place : BitVec w → List ι → (BitVec w → Option ι) → (BitVec w → Option ι)
  | _, [], fetch => fetch
  | a, i :: code, fetch =>
      place (a + BitVec.ofNat w (M.size i)) code (Function.update fetch a (some i))

/-- Placing code changes no address that is not one of its bytes. -/
theorem place_of_ne {a b : BitVec w} {code : List ι} {fetch : BitVec w → Option ι}
    (hsize : ∀ i ∈ code, 0 < M.size i)
    (h : ∀ k < M.length code, b ≠ a + BitVec.ofNat w k) : M.place a code fetch b = fetch b := by
  induction code generalizing a fetch with
  | nil => rfl
  | cons i code ih =>
      have hpos := hsize i (List.mem_cons_self ..)
      have hfirst : b ≠ a := by
        have h0 := h 0 (by rw [length_cons]; omega)
        simpa using h0
      rw [place, ih (fun j hj => hsize j (List.mem_cons_of_mem _ hj)), Function.update_of_ne hfirst]
      intro k hk
      have hnext := h (M.size i + k) (by rw [length_cons]; omega)
      rwa [BitVec.ofNat_add, ← BitVec.add_assoc] at hnext

/-- Code that fits the address space sits where it is placed. -/
theorem sits_place {a : BitVec w} {code : List ι} (fetch : BitVec w → Option ι)
    (hsize : ∀ i ∈ code, 0 < M.size i) (hfits : M.length code ≤ 2 ^ w) :
    M.Sits (M.place a code fetch) a code := by
  induction code generalizing a fetch with
  | nil => trivial
  | cons i code ih =>
      have hpos := hsize i (List.mem_cons_self ..)
      have hsize' : ∀ j ∈ code, 0 < M.size j := fun j hj => hsize j (List.mem_cons_of_mem _ hj)
      rw [length_cons] at hfits
      refine ⟨?_, ih _ hsize' (by omega)⟩
      -- the rest of the code comes back to the first address only if it wraps around
      rw [place, M.place_of_ne hsize', Function.update_self]
      intro k hk heq
      have hzero : BitVec.ofNat w (M.size i + k) = 0#w := by
        rw [BitVec.ofNat_add]
        have hsum := heq.symm
        rw [BitVec.add_assoc] at hsum
        simpa using hsum
      have hnat := congrArg BitVec.toNat hzero
      rw [BitVec.toNat_ofNat, Nat.mod_eq_of_lt (by omega)] at hnat
      simp at hnat
      omega

/-! ## Execution of a piece of code -/

/-- The code, entered at its first instruction in the first state, runs to its end and arrives there
in the second.  An instruction may jump over the ones that follow it. -/
inductive Exec : List ι → σ → σ → Prop
  | nil (s : σ) : Exec [] s s
  | step {i : ι} {skipped rest : List ι} {s s₁ s₂ : σ} :
      M.halts i = false → M.exec i s = .ok s₁ →
      M.pc s₁ = M.pc s + BitVec.ofNat w (M.size i + M.length skipped) →
      Exec rest s₁ s₂ → Exec (i :: (skipped ++ rest)) s s₂

namespace Exec

variable {M} {code c₁ c₂ : List ι} {s s₁ s₂ : σ}

/-- An instruction that goes on to the next one. -/
theorem cons {i : ι} (hgoes : M.halts i = false) (hexec : M.exec i s = .ok s₁)
    (hpc : M.pc s₁ = M.pc s + BitVec.ofNat w (M.size i)) (h : M.Exec code s₁ s₂) : M.Exec (i :: code) s s₂ := by
  have hstep := Exec.step hgoes hexec (hpc.trans (by rw [length_nil, Nat.add_zero])) h
  exact hstep

theorem append (h₁ : M.Exec c₁ s s₁) (h₂ : M.Exec c₂ s₁ s₂) : M.Exec (c₁ ++ c₂) s s₂ := by
  induction h₁ with
  | nil s => exact h₂
  | step hgoes hexec hpc _ ih =>
      rw [List.cons_append, List.append_assoc]
      exact .step hgoes hexec hpc (ih h₂)

theorem pc_eq (h : M.Exec code s s₁) : M.pc s₁ = M.pc s + BitVec.ofNat w (M.length code) := by
  induction h with
  | nil s => simp
  | step _ _ hpc _ ih =>
      rw [ih, hpc, length_cons, length_append, BitVec.add_assoc, ← BitVec.ofNat_add, Nat.add_assoc]

/-- What every instruction of the code preserves, the code preserves. -/
theorem preserves {R : σ → σ → Prop} (hrefl : ∀ s, R s s)
    (htrans : ∀ {s s₁ s₂}, R s s₁ → R s₁ s₂ → R s s₂) (h : M.Exec code s s₁)
    (hstep : ∀ i ∈ code, ∀ s s', M.exec i s = .ok s' → R s s') : R s s₁ := by
  induction h with
  | nil s => exact hrefl s
  | step _ hexec _ _ ih =>
      refine htrans (hstep _ (List.mem_cons_self ..) _ _ hexec) (ih fun i hi => hstep i ?_)
      exact List.mem_cons_of_mem _ (List.mem_append_right _ hi)

/-- The machine runs placed code as the relation says, in at most as many steps as the code has
instructions. -/
theorem run_eq {fetch : BitVec w → Option ι} (h : M.Exec code s s₁)
    (hsits : M.Sits fetch (M.pc s) code) :
    ∃ n ≤ code.length, ∀ fuel, M.run fetch (n + fuel) s = M.run fetch fuel s₁ := by
  induction h with
  | nil s => exact ⟨0, Nat.le_refl 0, fun fuel => by rw [Nat.zero_add]⟩
  | @step i skipped rest s s₁ s₂ hgoes hexec hpc _ ih =>
      have hrest : M.Sits fetch (M.pc s₁) rest := by
        have htail := (M.sits_append.mp hsits.2).2
        rwa [BitVec.add_assoc, ← BitVec.ofNat_add, ← hpc] at htail
      rcases ih hrest with ⟨n, hn, hrun⟩
      refine ⟨n + 1, ?_, fun fuel => ?_⟩
      · rw [List.length_cons, List.length_append]
        omega
      · rw [Nat.add_right_comm, M.run_of_exec hsits.1 hgoes hexec, hrun]

end Exec

/-- One instruction. -/
def Step (fetch : BitVec w → Option ι) (s s₁ : σ) : Prop :=
  ∃ i, fetch (M.pc s) = some i ∧ M.halts i = false ∧ M.exec i s = .ok s₁

/-- Any number of instructions. -/
def Steps (fetch : BitVec w → Option ι) : σ → σ → Prop :=
  Relation.ReflTransGen (M.Step fetch)

theorem Exec.steps {M : CodeMachine w ι σ ε} {fetch : BitVec w → Option ι} {code : List ι} {s s₁ : σ}
    (h : M.Exec code s s₁) (hsits : M.Sits fetch (M.pc s) code) : M.Steps fetch s s₁ := by
  induction h with
  | nil s => exact .refl
  | @step i skipped rest s s₁ s₂ hgoes hexec hpc _ ih =>
      have hrest : M.Sits fetch (M.pc s₁) rest := by
        have htail := (M.sits_append.mp hsits.2).2
        rwa [BitVec.add_assoc, ← BitVec.ofNat_add, ← hpc] at htail
      exact .head ⟨i, hsits.1, hgoes, hexec⟩ (ih hrest)

/-- The code runs to its end and establishes `Q` there. -/
def wp (code : List ι) (Q : σ → Prop) (s : σ) : Prop :=
  ∃ s₁, M.Exec code s s₁ ∧ Q s₁

section Rules

variable {M} {code c₁ c₂ : List ι} {Q R : σ → Prop} {s s₁ : σ}

theorem wp_nil (h : Q s) : M.wp [] Q s :=
  ⟨s, .nil s, h⟩

theorem wp_mono (h : M.wp code Q s) (hpost : ∀ s, Q s → R s) : M.wp code R s := by
  rcases h with ⟨s₁, hexec, hq⟩
  exact ⟨s₁, hexec, hpost s₁ hq⟩

theorem wp_append (h : M.wp c₁ (M.wp c₂ Q) s) : M.wp (c₁ ++ c₂) Q s := by
  rcases h with ⟨s₁, h₁, s₂, h₂, hq⟩
  exact ⟨s₂, h₁.append h₂, hq⟩

/-- The frame rule. -/
theorem wp_frame {F : σ → σ → Prop} (hrefl : ∀ s, F s s)
    (htrans : ∀ {s s₁ s₂}, F s s₁ → F s₁ s₂ → F s s₂)
    (hstep : ∀ i ∈ code, ∀ s s', M.exec i s = .ok s' → F s s') (h : M.wp code Q s) :
    M.wp code (fun s' => Q s' ∧ F s s') s := by
  rcases h with ⟨s₁, hexec, hq⟩
  exact ⟨s₁, hexec, hq, hexec.preserves hrefl htrans hstep⟩

/-- An instruction that jumps over the code `c`. -/
theorem wp_jump {i : ι} {c : List ι} (hgoes : M.halts i = false) (hexec : M.exec i s = .ok s₁)
    (hpc : M.pc s₁ = M.pc s + BitVec.ofNat w (M.size i + M.length c))
    (h : M.wp code Q s₁) : M.wp (i :: (c ++ code)) Q s := by
  rcases h with ⟨s₂, hrest, hq⟩
  exact ⟨s₂, .step hgoes hexec hpc hrest, hq⟩

/-- An instruction that goes on to the next one. -/
theorem wp_cons {i : ι} (hgoes : M.halts i = false) (hexec : M.exec i s = .ok s₁)
    (hpc : M.pc s₁ = M.pc s + BitVec.ofNat w (M.size i)) (h : M.wp code Q s₁) :
    M.wp (i :: code) Q s :=
  wp_jump (c := []) hgoes hexec hpc h

/-- Placed code with a stop behind it: every amount of fuel beyond one step per instruction
suffices. -/
theorem run_of_wp {fetch : BitVec w → Option ι} (h : M.wp code Q s)
    (hsits : M.Sits fetch (M.pc s) code)
    (hstop : M.Stops fetch (M.pc s + BitVec.ofNat w (M.length code))) :
    ∃ s₁, (∀ fuel, code.length < fuel → M.run fetch fuel s = .ok (some s₁)) ∧
      M.pc s₁ = M.pc s + BitVec.ofNat w (M.length code) ∧ Q s₁ := by
  rcases h with ⟨s₁, hexec, hq⟩
  rcases hexec.run_eq hsits with ⟨n, hn, hrun⟩
  refine ⟨s₁, fun fuel hfuel => ?_, hexec.pc_eq, hq⟩
  obtain ⟨k, rfl⟩ : ∃ k, fuel = n + (k + 1) := ⟨fuel - n - 1, by omega⟩
  rw [hrun]
  exact M.run_of_stops (by rwa [hexec.pc_eq]) k

end Rules

/-! ## Code without jumps -/

/-- What code without jumps establishes, instruction by instruction. -/
def line : List ι → (σ → Prop) → σ → Prop
  | [], Q, s => Q s
  | i :: code, Q, s => ∃ s₁, M.exec i s = .ok s₁ ∧ M.halts i = false ∧
      M.pc s₁ = M.pc s + BitVec.ofNat w (M.size i) ∧ line code Q s₁

@[simp] theorem line_nil (Q : σ → Prop) (s : σ) : M.line [] Q s ↔ Q s := Iff.rfl

theorem line_cons {i : ι} {s s₁ : σ} (hexec : M.exec i s = .ok s₁) (hgoes : M.halts i = false)
    (hpc : M.pc s₁ = M.pc s + BitVec.ofNat w (M.size i)) (code : List ι) (Q : σ → Prop) :
    M.line (i :: code) Q s ↔ M.line code Q s₁ := by
  constructor
  · rintro ⟨s₂, hexec', _, _, h⟩
    rw [hexec] at hexec'
    cases hexec'
    exact h
  · intro h
    exact ⟨s₁, hexec, hgoes, hpc, h⟩

theorem wp_of_line {code : List ι} {Q : σ → Prop} {s : σ} (h : M.line code Q s) : M.wp code Q s := by
  induction code generalizing s with
  | nil => exact wp_nil h
  | cons i code ih =>
      rcases h with ⟨s₁, hexec, hgoes, hpc, hrest⟩
      exact wp_cons hgoes hexec hpc (ih hrest)

end CodeMachine
end Serval
