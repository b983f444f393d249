import Serval.Core.Updates

/-!
# Flat memory — typed blocks as an array of bytes

The typed memory of `serval/lib/core.rkt` is meant to behave like the bytes of the C program.  This module defines
those bytes with little-endian loads and stores, runs the same operations on a block and on its bytes, and proves
that every load returns the same value, as long as accesses are as large as the cells they reach.

Struct fields are looked up by name, so the names have to be distinct: two fields of one name share the cells of
the first.
-/

namespace Serval
namespace Core

variable {n' n base' base : Nat}

/-! ## Bytes -/

/-- A byte for every offset; only those below `mblock-size` matter. -/
abbrev Flat := Nat → BitVec 8

namespace Flat

/-- The `n` bytes from `base` on, the first one least significant. -/
def value (flat : Flat) (base : Nat) : (n : Nat) → BitVec (8 * n)
  | 0 => 0
  | n + 1 => value flat (base + 1) n ++ flat base

def load (flat : Flat) (base n : Nat) : Bv :=
  ⟨8 * n, flat.value base n⟩

def store (flat : Flat) (base n : Nat) (v : Bv) : Flat :=
  fun o => if base ≤ o ∧ o < base + n then v.val.extractLsb' (8 * (o - base)) 8 else flat o

def clear (flat : Flat) (base n : Nat) : Flat :=
  fun o => if base ≤ o ∧ o < base + n then 0 else flat o

variable {flat flat' : Flat} {base n : Nat}

theorem value_congr (h : ∀ i < n, flat (base + i) = flat' (base + i)) : flat.value base n = flat'.value base n := by
  induction n generalizing base with
  | zero => rfl
  | succ n ih =>
      have hfirst : flat base = flat' base := h 0 (Nat.succ_pos n)
      have hrest : flat.value (base + 1) n = flat'.value (base + 1) n := ih fun i hi => by
        simpa [Nat.add_assoc, Nat.add_comm 1 i] using h (i + 1) (by omega)
      rw [value, value, hfirst, hrest]

/-- A value is determined by its bytes. -/
theorem value_eq {v : BitVec (8 * n)} (h : ∀ i < n, flat (base + i) = v.extractLsb' (8 * i) 8) :
    flat.value base n = v := by
  induction n generalizing base with
  | zero => exact (BitVec.eq_nil v).symm
  | succ n ih =>
      have hfirst : flat base = v.extractLsb' 0 8 := h 0 (Nat.succ_pos n)
      have hrest : flat.value (base + 1) n = v.extractLsb' 8 (8 * n) := ih fun i hi => by
        have hbyte := h (i + 1) (by omega)
        rw [Nat.add_comm i 1, ← Nat.add_assoc] at hbyte
        rw [hbyte]
        ext k hk
        have hin : 8 * i + k < 8 * n := by omega
        have hindex : 8 * (1 + i) + k = 8 + (8 * i + k) := by omega
        simp [BitVec.getElem_extractLsb', hin, hindex]
      rw [value, hfirst, hrest]
      ext k hk
      rw [BitVec.getElem_append]
      split_ifs with hlow
      · simpa [BitVec.getElem_extractLsb'] using BitVec.getLsbD_eq_getElem hk
      · have hindex : 8 + (k - 8) = k := by omega
        simpa [BitVec.getElem_extractLsb', hindex] using BitVec.getLsbD_eq_getElem hk

theorem load_store_self {v : Bv} (hv : v.width = 8 * n) : (flat.store base n v).load base n = v := by
  obtain ⟨width, v⟩ := v
  obtain rfl : width = 8 * n := hv
  have hvalue : (flat.store base n ⟨8 * n, v⟩).value base n = v := value_eq fun i hi => by
    simp [store, hi]
  rw [load, hvalue]

theorem load_store_apart {v : Bv} (h : base' + n' ≤ base ∨ base + n ≤ base') :
    (flat.store base n v).load base' n' = flat.load base' n' := by
  rw [load, load, value_congr fun i hi => ?_]
  exact if_neg (by omega)

theorem load_clear_inside (h : base ≤ base') (h' : base' + n' ≤ base + n) :
    (flat.clear base n).load base' n' = ⟨8 * n', 0⟩ := by
  have hvalue : (flat.clear base n).value base' n' = 0 := value_eq fun i hi => by
    rw [clear, if_pos (by omega)]
    simp
  rw [load, hvalue]

theorem load_clear_apart (h : base' + n' ≤ base ∨ base + n ≤ base') :
    (flat.clear base n).load base' n' = flat.load base' n' := by
  rw [load, load, value_congr fun i hi => ?_]
  exact if_neg (by omega)

end Flat

/-! ## Operations -/

/-- What is done to a block: loads and stores through `mblock-path`, and `mblock-memset!` with byte 0. -/
inductive Op (w : Nat) where
  | load (offset size : BitVec w)
  | store (offset size : BitVec w) (value : Bv)
  | clear (offset size : BitVec w)

variable {w : Nat}

namespace Op

/-- An operation on a typed block: the block afterwards and the value loaded, if any. -/
def run (block : MBlock w) : Op w → Except Bug (MBlock w × List Bv)
  | load offset size => do
      let p ← block.path offset size
      return (block, [← block.iload p])
  | store offset size value => do
      let p ← block.path offset size
      return (← block.istore value p, [])
  | clear offset size => do
      return (← block.memset ⟨8, 0⟩ offset size [], [])

/-- The same operation on bytes. -/
def runFlat (flat : Flat) : Op w → Flat × List Bv
  | load offset size => (flat, [flat.load offset.toNat size.toNat])
  | store offset size value => (flat.store offset.toNat size.toNat value, [])
  | clear offset size => (flat.clear offset.toNat size.toNat, [])

end Op

/-- An access reaches a cell that is as large as the access. -/
def ReachesWhole (block : MBlock w) (offset size : BitVec w) : Prop :=
  ∃ p r, block.path offset size = .ok p ∧ block.resolve p.steps p.last [] = .ok r ∧ r.1.size = size.toNat

/-- Loads and stores of whole cells; a value stored has the size of the cell. -/
def Op.WholeCell (block : MBlock w) : Op w → Prop
  | .load offset size => ReachesWhole block offset size
  | .store offset size value => ReachesWhole block offset size ∧ value.width = 8 * size.toNat
  | .clear _ _ => True

/-- A sequence of operations: the block at the end and the values loaded. -/
def runOps (block : MBlock w) : List (Op w) → Except Bug (MBlock w × List Bv)
  | [] => .ok (block, [])
  | op :: ops => do
      let (block', loaded) ← op.run block
      let (block'', rest) ← runOps block' ops
      return (block'', loaded ++ rest)

def runOpsFlat (flat : Flat) : List (Op w) → List Bv
  | [] => []
  | op :: ops => (op.runFlat flat).2 ++ runOpsFlat (op.runFlat flat).1 ops

/-- Every load and store of the sequence is one of a whole cell, in the block it is applied to. -/
def WholeCells (block : MBlock w) : List (Op w) → Prop
  | [] => True
  | op :: ops => op.WholeCell block ∧ ∀ block' loaded, op.run block = .ok (block', loaded) → WholeCells block' ops

/-! ## Refinement -/

/-- The bytes hold the contents of the block, padding apart. -/
def Holds (flat : Flat) (block : MBlock w) : Prop :=
  ∀ steps base n, block.CellAt steps base n → block.contents steps [] = some (flat.load base n)

/-- Every cell instance holds a value of its size, as `mblock-init!` leaves it. -/
def MBlock.Initialised (block : MBlock w) : Prop :=
  ∀ steps base n, block.CellAt steps base n → ∃ v : BitVec (8 * n), block.contents steps [] = some ⟨8 * n, v⟩

/-- The layouts for which blocks refine bytes. -/
structure Sound (block : MBlock w) : Prop where
  wellFormed : block.WellFormed
  distinctNames : block.DistinctNames
  size_lt : block.size < 2 ^ w

theorem Sound.of_shape {block block' : MBlock w} (h : Sound block) (hshape : block'.shape = block.shape) :
    Sound block' where
  wellFormed := (block'.wellFormed_shape).mp (hshape ▸ (block.wellFormed_shape).mpr h.wellFormed)
  distinctNames := (block'.distinctNames_shape).mp (hshape ▸ (block.distinctNames_shape).mpr h.distinctNames)
  size_lt := by
    rw [← MBlock.size_shape, hshape, MBlock.size_shape]
    exact h.size_lt

theorem cellAt_of_shape {block block' : MBlock w} (hshape : block'.shape = block.shape) {steps : List (PathStep w)}
    (h : block'.CellAt steps base n) : block.CellAt steps base n :=
  (block.cellAt_shape).mp (hshape ▸ (block'.cellAt_shape).mpr h)

/-- What an access reaches. -/
theorem Sound.cellAt {block : MBlock w} (h : Sound block) {offset size : BitVec w} {p : Path w}
    {r : Cell w × BitVec w × BitVec w × List (BitVec w)} (hp : block.path offset size = .ok p)
    (hr : block.resolve p.steps p.last [] = .ok r) (hsize : r.1.size = size.toNat) :
    block.CellAt p.steps offset.toNat size.toNat ∧ block.contents p.steps [] = some (r.1.func r.2.2.2) :=
  block.path_cellAt h.wellFormed h.distinctNames h.size_lt hp hr hsize

section Steps

variable {flat : Flat} {block block' : MBlock w} {loaded : List Bv}

theorem run_load_refines {offset size : BitVec w} (h : Sound block) (hholds : Holds flat block)
    (hwhole : ReachesWhole block offset size) (hrun : (Op.load offset size).run block = .ok (block', loaded)) :
    block' = block ∧ loaded = [flat.load offset.toNat size.toNat] := by
  obtain ⟨p, r, hp, hr, hsize⟩ := hwhole
  obtain ⟨hat, hcontents⟩ := h.cellAt hp hr hsize
  -- the value loaded is that of the instance the path leads to
  have hload : block.iload p = r.1.load r.2.2.2 := by rw [MBlock.iload, hr]; rfl
  obtain ⟨p', hp', hrun⟩ := bind_eq_ok.mp hrun
  obtain rfl : p = p' := Except.ok.inj (hp.symm.trans hp')
  obtain ⟨v, hv, hrun⟩ := bind_eq_ok.mp hrun
  cases hrun
  obtain ⟨-, hv⟩ := bind_bugOn (hload.symm.trans hv)
  obtain rfl : r.1.func r.2.2.2 = v := Except.ok.inj hv
  have hsame := (hholds _ _ _ hat).symm.trans hcontents
  exact ⟨rfl, by rw [Option.some.inj hsame]⟩

/-- A store to an instance whose steps name no other one. -/
theorem Holds.store {steps : List (PathStep w)} {value : Bv} (hholds : Holds flat block) (hwf : block.WellFormed)
    (hat : block.CellAt steps base n) (honly : ∀ base' n', block.CellAt steps base' n' → base' = base ∧ n' = n)
    (hvalue : value.width = 8 * n) (hstore : block.storeAt value steps [] = .ok block') :
    Holds (flat.store base n value) block' := by
  intro steps' base' n' hcell
  have hcell' := cellAt_of_shape (block.storeAt_shape hstore) hcell
  rw [block.storeAt_contents hstore]
  by_cases hsteps : steps' = steps
  · subst hsteps
    obtain ⟨rfl, rfl⟩ := honly _ _ hcell'
    rw [if_pos ⟨rfl, rfl⟩, Flat.load_store_self hvalue]
  · -- another instance shares no byte with the one stored to
    have hapart : base' + n' ≤ base ∨ base + n ≤ base' := by
      by_contra hoverlap
      exact hsteps (hcell'.eq_of_overlap hat hwf (by omega) (by omega)).1
    rw [if_neg fun hboth => hsteps hboth.1, hholds _ _ _ hcell', Flat.load_store_apart hapart]

theorem run_store_refines {offset size : BitVec w} {value : Bv} (h : Sound block) (hholds : Holds flat block)
    (hwhole : ReachesWhole block offset size) (hvalue : value.width = 8 * size.toNat)
    (hrun : (Op.store offset size value).run block = .ok (block', loaded)) :
    (Sound block' ∧ Holds (flat.store offset.toNat size.toNat value) block') ∧ loaded = [] := by
  obtain ⟨p, r, hp, hr, hsize⟩ := hwhole
  obtain ⟨hat, -⟩ := h.cellAt hp hr hsize
  obtain ⟨p', hp', hrun⟩ := bind_eq_ok.mp hrun
  obtain rfl : p = p' := Except.ok.inj (hp.symm.trans hp')
  obtain ⟨block₁, hstore, hrun⟩ := bind_eq_ok.mp hrun
  cases hrun
  have honly : ∀ base n, block.CellAt p.steps base n → base = offset.toNat ∧ n = size.toNat :=
    fun _ _ hcell => hcell.eq_of_steps hat h.distinctNames
  exact ⟨⟨h.of_shape (block.storeAt_shape hstore), hholds.store h.wellFormed hat honly hvalue hstore⟩, rfl⟩

theorem run_clear_refines {offset size : BitVec w} (h : Sound block) (hholds : Holds flat block)
    (hrun : (Op.clear offset size).run block = .ok (block', loaded)) :
    (Sound block' ∧ Holds (flat.clear offset.toNat size.toNat) block') ∧ loaded = [] := by
  obtain ⟨block₁, hset, hrun⟩ := bind_eq_ok.mp hrun
  cases hrun
  have hshape := block.memset_shape hset
  obtain ⟨-, hcleared⟩ := block.memset_cleared h.wellFormed h.distinctNames h.size_lt hset
  refine ⟨⟨h.of_shape hshape, fun steps base n hcell => ?_⟩, rfl⟩
  have hcell' := cellAt_of_shape hshape hcell
  rcases hcleared steps base n hcell' with ⟨hle, hle', hcontents⟩ | ⟨hapart, hcontents⟩
  · rw [hcontents, Flat.load_clear_inside hle hle']
    rfl
  · rw [hcontents, hholds _ _ _ hcell', Flat.load_clear_apart hapart]

/-- One operation on a block and on its bytes. -/
theorem run_refines {op : Op w} (h : Sound block) (hholds : Holds flat block) (hwhole : op.WholeCell block)
    (hrun : op.run block = .ok (block', loaded)) :
    (Sound block' ∧ Holds (op.runFlat flat).1 block') ∧ loaded = (op.runFlat flat).2 := by
  cases op with
  | load offset size =>
      obtain ⟨rfl, rfl⟩ := run_load_refines h hholds hwhole hrun
      exact ⟨⟨h, hholds⟩, rfl⟩
  | store offset size value => exact run_store_refines h hholds hwhole.1 hwhole.2 hrun
  | clear offset size => exact run_clear_refines h hholds hrun

/-- A sequence of operations loads the same values from a block and from its bytes. -/
theorem runOps_refines {ops : List (Op w)} (h : Sound block) (hholds : Holds flat block)
    (hwhole : WholeCells block ops) (hrun : runOps block ops = .ok (block', loaded)) :
    loaded = runOpsFlat flat ops := by
  induction ops generalizing flat block loaded with
  | nil =>
      cases hrun
      rfl
  | cons op ops ih =>
      obtain ⟨⟨block₁, loaded₁⟩, hop, hrun⟩ := bind_eq_ok.mp hrun
      obtain ⟨⟨block₂, loaded₂⟩, hops, hrun⟩ := bind_eq_ok.mp hrun
      cases hrun
      obtain ⟨⟨hsound, hholds'⟩, rfl⟩ := run_refines h hholds hwhole.1 hop
      rw [runOpsFlat, ih hsound hholds' (hwhole.2 _ _ hop) hops]

end Steps

/-- The contents of a block can be laid out as bytes. -/
theorem exists_holds {block : MBlock w} (h : Sound block) (hinit : block.Initialised) : ∃ flat, Holds flat block := by
  classical
  choose! v hv using hinit
  -- the byte at `o` comes from the instance that has it, if there is one
  let flat : Flat := fun o =>
    if hex : ∃ i : List (PathStep w) × Nat × Nat, block.CellAt i.1 i.2.1 i.2.2 ∧ i.2.1 ≤ o ∧ o < i.2.1 + i.2.2 then
      (v hex.choose.1 hex.choose.2.1 hex.choose.2.2).extractLsb' (8 * (o - hex.choose.2.1)) 8
    else 0
  refine ⟨flat, fun steps base n hcell => ?_⟩
  rw [hv steps base n hcell]
  have hbytes : flat.value base n = v steps base n := Flat.value_eq fun i hi => by
    have hex : ∃ j : List (PathStep w) × Nat × Nat,
        block.CellAt j.1 j.2.1 j.2.2 ∧ j.2.1 ≤ base + i ∧ base + i < j.2.1 + j.2.2 :=
      ⟨(steps, base, n), hcell, by simp, by simp only; omega⟩
    have hchosen := hex.choose_spec
    obtain ⟨hsteps, hbase, hn⟩ := hchosen.1.eq_of_overlap hcell h.wellFormed (by omega) (by omega)
    have heq : hex.choose = (steps, base, n) := Prod.ext hsteps (Prod.ext hbase hn)
    simp only [flat, dif_pos hex]
    rw [heq, Nat.add_sub_cancel_left]
  rw [Flat.load, hbytes]

/-- Typed memory refines flat memory for accesses to whole cells, in every well-formed layout whose structs have
distinct field names: the bytes of a block exist; every sequence of loads, stores and clears that raises no bug
loads from the block what it loads from the bytes; and an access leads to the one cell instance that has a byte of
its range, which has exactly that range, and no other range leads there. -/
theorem typed_refines_flat (block : MBlock w) (hwf : block.WellFormed) (hnames : block.DistinctNames)
    (hlt : block.size < 2 ^ w) (hinit : block.Initialised) :
    (∃ flat, Holds flat block) ∧
    (∀ flat ops block' loaded, Holds flat block → WholeCells block ops →
      runOps block ops = .ok (block', loaded) → loaded = runOpsFlat flat ops) ∧
    (∀ offset size p r, block.path offset size = .ok p → block.resolve p.steps p.last [] = .ok r →
      r.1.size = size.toNat →
      block.CellAt p.steps offset.toNat size.toNat ∧ block.contents p.steps [] = some (r.1.func r.2.2.2) ∧
      (∀ steps base n, block.CellAt steps base n → base < offset.toNat + size.toNat → offset.toNat < base + n →
        steps = p.steps ∧ base = offset.toNat ∧ n = size.toNat) ∧
      ∀ base n, block.CellAt p.steps base n → base = offset.toNat ∧ n = size.toNat) := by
  have hsound : Sound block := ⟨hwf, hnames, hlt⟩
  refine ⟨exists_holds hsound hinit, ?_, ?_⟩
  · intro flat ops block' loaded hholds hwhole hrun
    exact runOps_refines hsound hholds hwhole hrun
  · intro offset size p r hp hr hsize
    obtain ⟨hat, hcontents⟩ := hsound.cellAt hp hr hsize
    refine ⟨hat, hcontents, fun steps base n hcell hlt hgt => ?_, fun base n hcell => ?_⟩
    · exact hcell.eq_of_overlap hat hwf hlt hgt
    · exact hcell.eq_of_steps hat hnames

/-! ## A struct of two words -/

/-- `struct { u64 x; u64 second; }`, cleared. -/
def pair (second : String) : MBlock 64 :=
  .mstruct 16 [("x", 0, .mcell ⟨8, fun _ => ⟨64, 0⟩, false⟩), (second, 8, .mcell ⟨8, fun _ => ⟨64, 0⟩, false⟩)]

section Pair

variable (second : String)

theorem pair_wellFormed : (pair second).WellFormed := by
  refine .mstruct (by decide) ?_ ?_ ?_ ?_
  · simp
  · simp [MBlock.size]
  · simp [MBlock.size]
  · simp only [List.mem_cons, List.not_mem_nil, or_false]
    rintro f (rfl | rfl)
    · exact .mcell (by decide)
    · exact .mcell (by decide)

theorem pair_contents {steps : List (PathStep 64)} (h : (pair second).CellAt steps base n) (indices : List (BitVec 64)) :
    n = 8 ∧ (pair second).contents steps indices = some ⟨64, 0⟩ := by
  cases h with
  | mstruct hf hcell =>
      simp only [List.mem_cons, List.not_mem_nil, or_false, Prod.mk.injEq] at hf
      rcases hf with ⟨rfl, rfl, rfl⟩ | ⟨rfl, rfl, rfl⟩
      · cases hcell with
        | mcell => exact ⟨rfl, rfl⟩
      · cases hcell with
        | mcell =>
            refine ⟨rfl, ?_⟩
            -- the lookup may end at the first field as well, which holds the same
            simp only [pair, MBlock.contents, MBlock.fieldContents, if_true]
            split_ifs <;> rfl

theorem pair_initialised : (pair second).Initialised := by
  intro steps base n h
  obtain ⟨rfl, hcontents⟩ := pair_contents second h []
  exact ⟨0, hcontents⟩

end Pair

/-- With distinct names: 5 stored to the second field is loaded from it, and 0 after the struct has been cleared. -/
theorem typed_refines_flat_pair : ∃ flat, Holds flat (pair "y") ∧
    runOpsFlat flat [.store (8 : BitVec 64) 8 ⟨64, 5⟩, .load 8 8, .clear 0 16, .load 8 8] = [⟨64, 5⟩, ⟨64, 0⟩] := by
  have hnames : (pair "y").DistinctNames := by
    refine .mstruct (by decide) ?_
    simp only [List.mem_cons, List.not_mem_nil, or_false]
    rintro f (rfl | rfl)
    · exact .mcell
    · exact .mcell
  obtain ⟨⟨flat, hholds⟩, hrun, -⟩ :=
    typed_refines_flat (pair "y") (pair_wellFormed "y") hnames (by decide) (pair_initialised "y")
  refine ⟨flat, hholds, (hrun flat _ _ _ hholds ?_ rfl).symm⟩
  refine ⟨⟨⟨_, _, rfl, rfl, rfl⟩, rfl⟩, ?_⟩
  rintro block₁ loaded₁ ⟨⟩
  refine ⟨⟨_, _, rfl, rfl, rfl⟩, ?_⟩
  rintro block₂ loaded₂ ⟨⟩
  refine ⟨trivial, ?_⟩
  rintro block₃ loaded₃ ⟨⟩
  exact ⟨⟨_, _, rfl, rfl, rfl⟩, fun _ _ _ => trivial⟩

/-- With one name for both fields, what is stored at offset 8 is loaded at offset 0. -/
theorem fields_of_one_name_alias :
    (pair "x").WellFormed ∧ (pair "x").size < 2 ^ 63 ∧ (pair "x").Initialised ∧ Holds (fun _ => 0) (pair "x") ∧
      WholeCells (pair "x") [.store 8 8 ⟨64, 5⟩, .load 0 8] ∧
      (runOps (pair "x") [.store 8 8 ⟨64, 5⟩, .load 0 8]).map Prod.snd = .ok [⟨64, 5⟩] ∧
      runOpsFlat (fun _ => 0) [.store (8 : BitVec 64) 8 ⟨64, 5⟩, .load 0 8] = [⟨64, 0⟩] := by
  refine ⟨pair_wellFormed "x", by decide, pair_initialised "x", ?_, ?_, rfl, rfl⟩
  · intro steps base n h
    obtain ⟨rfl, hcontents⟩ := pair_contents "x" h []
    have hzero : Flat.value (fun _ => 0) base 8 = 0 := Flat.value_eq fun i _ => by simp
    rw [hcontents, Flat.load, hzero]
  · refine ⟨⟨⟨_, _, rfl, rfl, rfl⟩, rfl⟩, ?_⟩
    rintro block₁ loaded₁ ⟨⟩
    exact ⟨⟨_, _, rfl, rfl, rfl⟩, fun _ _ _ => trivial⟩

end Core
end Serval
