import Serval.Core.FlatMemory

/-!
# Accesses smaller than a cell

`mcell-path` accepts every aligned range whose size divides the size of the cell, and ends the path in an offset and
a size "for load/store to extract a smaller value".  `mcell-load` and `mcell-store!` ignore both: a load returns the
whole cell and a store replaces it.  An access is one of the bytes it names exactly if those bytes are a whole cell.
-/

namespace Serval
namespace Core

variable {w : Nat}

/-! ## What a path reaches -/

namespace MBlock

/-- `mblock-resolve` finds a cell with the value `v`, and a store there succeeds unless the cell has been freed. -/
def Reached (block : MBlock w) (steps : List (PathStep w)) (last : Option (BitVec w × BitVec w))
    (indices : List (BitVec w)) (v : Bv) : Prop :=
  ∃ r, block.resolve steps last indices = .ok r ∧ r.1.func r.2.2.2 = v ∧
    (r.1.free = false → ∀ value, ∃ block', block.storeAt value steps indices = .ok block')

theorem Reached.marray {length : Nat} {elements : MBlock w} {i : BitVec w} {steps : List (PathStep w)}
    {last : Option (BitVec w × BitVec w)} {indices : List (BitVec w)} {v : Bv}
    (h : elements.Reached steps last (i :: indices) v) :
    (MBlock.marray length elements).Reached (.index i :: steps) last indices v := by
  obtain ⟨r, hr, hv, hstore⟩ := h
  refine ⟨r, hr, hv, fun hlive value => ?_⟩
  obtain ⟨elements', helements⟩ := hstore hlive value
  exact ⟨.marray length elements', by rw [storeAt, helements]; rfl⟩

theorem fieldReached {fields : List (String × Nat × MBlock w)} {name : String} {steps : List (PathStep w)}
    {last : Option (BitVec w × BitVec w)} {indices : List (BitVec w)} {v : Bv}
    (ih : ∀ f ∈ fields, f.2.2.contents steps indices = some v → f.2.2.Reached steps last indices v)
    (h : fieldContents fields name steps indices = some v) :
    ∃ r, fieldResolve fields name steps last indices = .ok r ∧ r.1.func r.2.2.2 = v ∧
      (r.1.free = false → ∀ value, ∃ fields', fieldStoreAt fields value name steps indices = .ok fields') := by
  induction fields with
  | nil => cases h
  | cons f fields ihs =>
      obtain ⟨fieldName, start, element⟩ := f
      rw [fieldContents] at h
      split_ifs at h with hname
      · obtain ⟨r, hr, hv, hstore⟩ := ih _ List.mem_cons_self h
        refine ⟨r, by rwa [fieldResolve, if_pos hname], hv, fun hlive value => ?_⟩
        obtain ⟨element', helement⟩ := hstore hlive value
        simp only at helement
        exact ⟨_, by rw [fieldStoreAt, if_pos hname, helement]; rfl⟩
      · obtain ⟨r, hr, hv, hstore⟩ := ihs (fun f hf => ih f (List.mem_cons_of_mem _ hf)) h
        refine ⟨r, by rwa [fieldResolve, if_neg hname], hv, fun hlive value => ?_⟩
        obtain ⟨fields', hfields⟩ := hstore hlive value
        exact ⟨_, by rw [fieldStoreAt, if_neg hname, hfields]; rfl⟩

/-- Where there are contents, `mblock-resolve` finds them. -/
theorem reached_of_contents (block : MBlock w) {steps : List (PathStep w)} {indices : List (BitVec w)} {v : Bv}
    (last : Option (BitVec w × BitVec w)) (h : block.contents steps indices = some v) :
    block.Reached steps last indices v := by
  induction block using MBlock.ind generalizing steps indices with
  | marray length elements ih =>
      match steps, h with
      | .index i :: steps, h => exact (ih h).marray
  | mstruct blockSize fields ih =>
      match steps, h with
      | .field name :: steps, h =>
          obtain ⟨r, hr, hv, hstore⟩ := fieldReached (fun f hf => ih f hf) h
          refine ⟨r, hr, hv, fun hlive value => ?_⟩
          obtain ⟨fields', hfields⟩ := hstore hlive value
          exact ⟨.mstruct blockSize fields', by rw [storeAt, hfields]; rfl⟩
  | mcell cell =>
      match steps, last, h with
      | [], none, h =>
          exact ⟨_, rfl, Option.some.inj h, fun hlive value =>
            ⟨_, by rw [storeAt, Cell.store_of_live hlive]; rfl⟩⟩
      | [], some (_, _), h =>
          exact ⟨_, rfl, Option.some.inj h, fun hlive value =>
            ⟨_, by rw [storeAt, Cell.store_of_live hlive]; rfl⟩⟩

/-- The lifetime of the cell that a path leads to has not ended. -/
def LiveAt (block : MBlock w) (p : Path w) : Prop :=
  ∀ r, block.resolve p.steps p.last [] = .ok r → r.1.free = false

/-- The `n` bytes from `base` on are those of one cell instance, and no other instance has the same names and
indices on the way to it. -/
def OneCell (block : MBlock w) (base n : Nat) : Prop :=
  ∃ steps, block.CellAt steps base n ∧ ∀ base' n', block.CellAt steps base' n' → base' = base ∧ n' = n

end MBlock

/-! ## Exact accesses -/

/-- Through the path `p`, a load gives the `size` bytes at `offset`, and a store of a value of that size changes
those bytes and no others. -/
def Exact (flat : Flat) (block : MBlock w) (offset size : BitVec w) (p : Path w) : Prop :=
  block.iload p = .ok (flat.load offset.toNat size.toNat) ∧
    ∀ value : Bv, value.width = 8 * size.toNat →
      ∃ block', block.istore value p = .ok block' ∧ Holds (flat.store offset.toNat size.toNat value) block'

section Access

variable {flat : Flat} {block : MBlock w} {offset size : BitVec w} {p : Path w} {base n : Nat}

theorem iload_eq {v : Bv} {r : Cell w × BitVec w × BitVec w × List (BitVec w)}
    (hr : block.resolve p.steps p.last [] = .ok r) (hv : r.1.func r.2.2.2 = v) (hlive : r.1.free = false) :
    block.iload p = .ok v := by
  rw [MBlock.iload, hr, ← hv]
  exact Cell.load_of_live hlive _

/-- A load returns the whole instance, however small the access. -/
theorem Holds.iload_eq_ok (hholds : Holds flat block) (hat : block.CellAt p.steps base n) {v : Bv}
    (hload : block.iload p = .ok v) : v = flat.load base n ∧ block.LiveAt p := by
  obtain ⟨r, hr, hload⟩ := bind_eq_ok.mp hload
  obtain ⟨hfree, hv⟩ := bind_bugOn hload
  have hcontents := (block.resolve_contents hr).symm.trans (hholds _ _ _ hat)
  refine ⟨(Except.ok.inj hv).symm.trans (Option.some.inj hcontents), fun r' hr' => ?_⟩
  obtain rfl : r = r' := Except.ok.inj (hr.symm.trans hr')
  simpa using hfree

theorem exact_of_cellAt (hholds : Holds flat block) (hwf : block.WellFormed)
    (hat : block.CellAt p.steps offset.toNat size.toNat)
    (honly : ∀ base n, block.CellAt p.steps base n → base = offset.toNat ∧ n = size.toNat) (hlive : block.LiveAt p) :
    Exact flat block offset size p := by
  obtain ⟨r, hr, hv, hstore⟩ := block.reached_of_contents p.last (hholds _ _ _ hat)
  refine ⟨iload_eq hr hv (hlive r hr), fun value hvalue => ?_⟩
  obtain ⟨block', hblock'⟩ := hstore (hlive r hr) value
  exact ⟨block', hblock', hholds.store hwf hat honly hvalue hblock'⟩

/-- Two values of one positive width that differ. -/
theorem exists_ne_of_width {m : Nat} (hm : 0 < m) (v : Bv) : ∃ value : Bv, value.width = m ∧ value ≠ v := by
  by_cases h : v = ⟨m, 0⟩
  · refine ⟨⟨m, BitVec.allOnes m⟩, rfl, fun hsame => ?_⟩
    obtain ⟨-, hval⟩ := Bv.mk.inj (hsame.trans h)
    have := congrArg BitVec.toNat (eq_of_heq hval)
    have hpow := Nat.one_lt_two_pow (Nat.pos_iff_ne_zero.mp hm)
    simp at this
    omega
  · exact ⟨⟨m, 0⟩, rfl, fun hsame => h hsame.symm⟩

/-- If a store through `p` changes only the bytes of one instance, no other instance has the same steps. -/
theorem Exact.only (h : Exact flat block offset size p) (hholds : Holds flat block) (hwf : block.WellFormed)
    (hat : block.CellAt p.steps offset.toNat size.toNat) (hother : block.CellAt p.steps base n) :
    base = offset.toNat ∧ n = size.toNat := by
  by_contra hne
  have hapart : base + n ≤ offset.toNat ∨ offset.toNat + size.toNat ≤ base := by
    by_contra hoverlap
    exact hne (hother.eq_of_overlap hat hwf (by omega) (by omega)).2
  -- the two instances have one value before the store, and two after it
  have hbefore : flat.load base n = flat.load offset.toNat size.toNat :=
    Option.some.inj ((hholds _ _ _ hother).symm.trans (hholds _ _ _ hat))
  have hpos : 0 < 8 * size.toNat := by
    have := (hat.bounds hwf).1
    omega
  obtain ⟨value, hwidth, hvalue⟩ := exists_ne_of_width hpos (flat.load offset.toNat size.toNat)
  obtain ⟨block', hstore, hholds'⟩ := h.2 value hwidth
  have hshape := block.storeAt_shape hstore
  have hafter := (hholds' _ _ _ (cellAt_of_shape hshape.symm hother)).symm.trans
    (hholds' _ _ _ (cellAt_of_shape hshape.symm hat))
  rw [Flat.load_store_apart hapart, Flat.load_store_self hwidth, hbefore] at hafter
  exact hvalue (Option.some.inj hafter).symm

/-- Accesses that `mblock-path` accepts are exact for whole cells and for nothing smaller: a load and a store through
the path act on the bytes from `offset` to `offset + size` exactly if these are the bytes of one cell, which nothing
else in the block shares its names with and which has not been freed. -/
theorem access_exact_iff (hwf : block.WellFormed) (hlt : block.size < 2 ^ w) (hholds : Holds flat block)
    (hp : block.path offset size = .ok p) :
    Exact flat block offset size p ↔ block.OneCell offset.toNat size.toNat ∧ block.LiveAt p := by
  obtain ⟨base, n, hat, hbase, hend, hpos⟩ := block.path_within hwf hlt hp
  constructor
  · intro hexact
    obtain ⟨hload, hlive⟩ := hholds.iload_eq_ok hat hexact.1
    -- the widths of the two values say that the cell is no larger than the access
    have hwidth : 8 * size.toNat = 8 * n := congrArg Bv.width hload
    obtain rfl : n = size.toNat := by omega
    obtain rfl : base = offset.toNat := by omega
    exact ⟨⟨p.steps, hat, fun base' n' hother => hexact.only hholds hwf hat hother⟩, hlive⟩
  · rintro ⟨⟨steps, hcell, honly⟩, hlive⟩
    obtain ⟨rfl, rfl, rfl⟩ := hat.eq_of_overlap hcell hwf (by omega) (by omega)
    exact exact_of_cellAt hholds hwf hcell honly hlive

end Access

/-- In an array of two structs, the second field of the second one is read and written as eight bytes. -/
theorem access_exact_iff_pairs :
    (MBlock.marray 2 (pair "y")).path 24 8 = .ok ⟨[.index 1, .field "y"], some (0, 8)⟩ ∧
      Exact (fun _ => 0) (.marray 2 (pair "y")) 24 8 ⟨[.index 1, .field "y"], some (0, 8)⟩ := by
  have hholds : Holds (fun _ => 0) (.marray 2 (pair "y")) := by
    intro steps base n hcell
    cases hcell with
    | @marray _ _ i steps _ _ _ hcell =>
        obtain ⟨rfl, hcontents⟩ := pair_contents "y" hcell [i]
        rw [MBlock.contents, hcontents, Flat.load, Flat.value_eq (v := 0) fun i _ => by simp]
  have hcell : (MBlock.marray 2 (pair "y")).CellAt [.index 1, .field "y"] 24 8 :=
    .marray (i := 1) (by decide) (.mstruct (.tail _ (.head _)) .mcell)
  refine ⟨rfl, (access_exact_iff (.marray (by decide) (pair_wellFormed "y")) (by decide) hholds rfl).mpr
    ⟨⟨_, hcell, ?_⟩, ?_⟩⟩
  · intro base n hother
    cases hother with
    | marray _ hother =>
        cases hother with
        | mstruct hf hother =>
            simp only [List.mem_cons, List.not_mem_nil, or_false, Prod.mk.injEq, String.reduceEq, false_and, true_and,
              false_or] at hf
            rcases hf with ⟨rfl, rfl⟩
            cases hother
            exact ⟨rfl, rfl⟩
  · rintro r ⟨⟩
    rfl

/-! ## A cell of eight bytes -/

/-- A cell that holds the bytes 1 to 8, in this order. -/
def eightBytes : MBlock 64 :=
  .mcell ⟨8, fun _ => ⟨64, 0x0807060504030201⟩, false⟩

theorem eightBytes_holds : Holds (fun o => BitVec.ofNat 8 (o + 1)) eightBytes := by
  intro steps base n hcell
  cases hcell with
  | mcell => rfl

/-- A load of its first byte returns all eight; after a store of one byte there, a load of the cell returns that
byte and nothing of the other seven. -/
theorem first_byte_is_not_exact :
    eightBytes.WellFormed ∧ eightBytes.size < 2 ^ 63 ∧ Holds (fun o => BitVec.ofNat 8 (o + 1)) eightBytes ∧
      eightBytes.path 0 1 = .ok ⟨[], some (0, 1)⟩ ∧
      (runOps eightBytes [.load 0 1]).map Prod.snd = .ok [⟨64, 0x0807060504030201⟩] ∧
      runOpsFlat (fun o => BitVec.ofNat 8 (o + 1)) [.load (0 : BitVec 64) 1] = [⟨8, 1⟩] ∧
      (runOps eightBytes [.store 0 1 ⟨8, 0xff⟩, .load 0 8]).map Prod.snd = .ok [⟨8, 0xff⟩] ∧
      runOpsFlat (fun o => BitVec.ofNat 8 (o + 1)) [.store (0 : BitVec 64) 1 ⟨8, 0xff⟩, .load 0 8] =
        [⟨64, 0x08070605040302ff⟩] :=
  ⟨.mcell (by decide), by decide, eightBytes_holds, rfl, rfl, rfl, rfl, rfl⟩

end Core
end Serval
