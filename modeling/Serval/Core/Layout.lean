import Mathlib.Data.List.Nodup
import Serval.Core.Memory

/-!
# Layout — where the cells of a block are

A block is a tree of arrays and structs with cells at the leaves.  A cell below an array has one instance for
every choice of the indices on the way to it, and each instance has its own place in the bytes of the block.  This
module says where (`CellAt`), shows that different instances never share a byte, and that `mblock-path` leads from
an offset to the instance there.
-/

namespace Serval
namespace Core
namespace MBlock

variable {n start : Nat} {name : String}

variable {w : Nat}

/-! ## Well-formed layouts -/

/-- The fields of a struct are sorted by offset, the first one at 0, do not overlap and lie inside the struct; no
size is zero. -/
inductive WellFormed : MBlock w → Prop where
  | marray {length : Nat} {elements : MBlock w} :
      0 < length → WellFormed elements → WellFormed (.marray length elements)
  | mstruct {size : Nat} {fields : List (String × Nat × MBlock w)} :
      0 < size → (∀ f ∈ fields.head?, f.2.1 = 0) →
      fields.Pairwise (fun f g => f.2.1 + f.2.2.size ≤ g.2.1) →
      (∀ f ∈ fields, f.2.1 + f.2.2.size ≤ size) →
      (∀ f ∈ fields, WellFormed f.2.2) → WellFormed (.mstruct size fields)
  | mcell {cell : Cell w} : 0 < cell.size → WellFormed (.mcell cell)

/-- No two fields of a struct have the same name. -/
inductive DistinctNames : MBlock w → Prop where
  | marray {length : Nat} {elements : MBlock w} : DistinctNames elements → DistinctNames (.marray length elements)
  | mstruct {size : Nat} {fields : List (String × Nat × MBlock w)} :
      (fields.map Prod.fst).Nodup → (∀ f ∈ fields, DistinctNames f.2.2) → DistinctNames (.mstruct size fields)
  | mcell {cell : Cell w} : DistinctNames (.mcell cell)

/-- `CellAt block steps base size`: following `steps` leads to a cell instance that takes the bytes from `base` to
`base + size` of the block. -/
inductive CellAt : MBlock w → List (PathStep w) → Nat → Nat → Prop where
  | marray {length : Nat} {elements : MBlock w} {i : BitVec w} {steps : List (PathStep w)} {base size : Nat} :
      i.toNat < length → CellAt elements steps base size →
      CellAt (.marray length elements) (.index i :: steps) (i.toNat * elements.size + base) size
  | mstruct {blockSize : Nat} {fields : List (String × Nat × MBlock w)} {name : String} {start : Nat}
      {element : MBlock w} {steps : List (PathStep w)} {base size : Nat} :
      (name, start, element) ∈ fields → CellAt element steps base size →
      CellAt (.mstruct blockSize fields) (.field name :: steps) (start + base) size
  | mcell {cell : Cell w} : CellAt (.mcell cell) [] 0 cell.size

mutual

/-- Induction over blocks, with one hypothesis for all fields of a struct. -/
theorem ind {P : MBlock w → Prop} (marray : ∀ length elements, P elements → P (.marray length elements))
    (mstruct : ∀ size fields, (∀ f ∈ fields, P f.2.2) → P (.mstruct size fields)) (mcell : ∀ cell, P (.mcell cell)) :
    ∀ block, P block
  | .marray length elements => marray length elements (ind marray mstruct mcell elements)
  | .mstruct size fields => mstruct size fields (ind_fields marray mstruct mcell fields)
  | .mcell cell => mcell cell

theorem ind_fields {P : MBlock w → Prop} (marray : ∀ length elements, P elements → P (.marray length elements))
    (mstruct : ∀ size fields, (∀ f ∈ fields, P f.2.2) → P (.mstruct size fields)) (mcell : ∀ cell, P (.mcell cell)) :
    ∀ (fields : List (String × Nat × MBlock w)), ∀ f ∈ fields, P f.2.2
  | [], _, h => nomatch h
  | (_, _, element) :: fields, f, h => by
      rcases List.mem_cons.mp h with rfl | h
      · exact ind marray mstruct mcell element
      · exact ind_fields marray mstruct mcell fields f h

end

/-! ## Instances do not share bytes -/

/-- Two parts of size `n` of an array that share a byte have the same index. -/
theorem index_eq_of_overlap {i j a b x y : Nat} (ha : a + x ≤ n) (hb : b + y ≤ n) (h₁ : i * n + a < j * n + b + y)
    (h₂ : j * n + b < i * n + a + x) : i = j := by
  rcases Nat.lt_trichotomy i j with hij | rfl | hij
  · have := Nat.mul_le_mul_right n hij
    rw [Nat.succ_mul] at this
    omega
  · rfl
  · have := Nat.mul_le_mul_right n hij
    rw [Nat.succ_mul] at this
    omega

theorem WellFormed.size_pos {block : MBlock w} (h : WellFormed block) : 0 < block.size := by
  induction h with
  | marray hlength _ ih => exact Nat.mul_pos hlength ih
  | mstruct hpos _ _ _ _ => exact hpos
  | mcell hpos => exact hpos

section Instances

variable {block : MBlock w} {steps steps' : List (PathStep w)} {base base' size size' : Nat}

/-- An instance has a byte, and all its bytes are bytes of the block. -/
theorem CellAt.bounds (h : CellAt block steps base size) (hwf : WellFormed block) :
    0 < size ∧ base + size ≤ block.size := by
  induction h with
  | @marray length elements i steps base size hi _ ih =>
      cases hwf with
      | marray _ he =>
          obtain ⟨hpos, hle⟩ := ih he
          have hrow : (i.toNat + 1) * elements.size ≤ length * elements.size := Nat.mul_le_mul_right _ hi
          rw [Nat.succ_mul] at hrow
          refine ⟨hpos, ?_⟩
          simp only [MBlock.size]
          omega
  | @mstruct blockSize fields name start element steps base size hf _ ih =>
      cases hwf with
      | mstruct _ _ _ hin hfields =>
          obtain ⟨hpos, hle⟩ := ih (hfields _ hf)
          have hfield := hin _ hf
          refine ⟨hpos, ?_⟩
          simp only [MBlock.size] at hfield ⊢
          omega
  | mcell =>
      cases hwf with
      | mcell hpos => exact ⟨hpos, by simp [MBlock.size]⟩

/-- Two fields of a struct are the same field or one ends before the other begins. -/
theorem field_apart {fields : List (String × Nat × MBlock w)} {f g : String × Nat × MBlock w}
    (hfields : fields.Pairwise fun f g => f.2.1 + f.2.2.size ≤ g.2.1) (hf : f ∈ fields) (hg : g ∈ fields) :
    f = g ∨ f.2.1 + f.2.2.size ≤ g.2.1 ∨ g.2.1 + g.2.2.size ≤ f.2.1 := by
  induction fields with
  | nil => cases hf
  | cons e fields ih =>
      obtain ⟨hfirst, hrest⟩ := List.pairwise_cons.mp hfields
      rcases List.mem_cons.mp hf with rfl | hf'
      · rcases List.mem_cons.mp hg with rfl | hg'
        · exact .inl rfl
        · exact .inr (.inl (hfirst g hg'))
      · rcases List.mem_cons.mp hg with rfl | hg'
        · exact .inr (.inr (hfirst f hf'))
        · exact ih hrest hf' hg'

theorem eq_of_name_eq {fields : List (String × Nat × MBlock w)} {f g : String × Nat × MBlock w}
    (hnodup : (fields.map Prod.fst).Nodup) (hf : f ∈ fields) (hg : g ∈ fields) (h : f.1 = g.1) : f = g :=
  List.inj_on_of_nodup_map hnodup hf hg h

/-- Two instances that share a byte are one. -/
theorem CellAt.eq_of_overlap (h : CellAt block steps base size) (h' : CellAt block steps' base' size')
    (hwf : WellFormed block) (hlt : base < base' + size') (hgt : base' < base + size) :
    steps = steps' ∧ base = base' ∧ size = size' := by
  induction h generalizing steps' base' size' with
  | @marray length elements i steps base size hi hcell ih =>
      cases hwf with
      | marray _ he =>
          cases h' with
          | @marray _ _ j steps' base' _ hj hcell' =>
              have hij : i.toNat = j.toNat :=
                index_eq_of_overlap (hcell.bounds he).2 (hcell'.bounds he).2 hlt hgt
              rw [hij] at hlt hgt ⊢
              obtain ⟨rfl, rfl, rfl⟩ := ih hcell' he (by omega) (by omega)
              exact ⟨by rw [BitVec.eq_of_toNat_eq hij], rfl, rfl⟩
  | @mstruct blockSize fields name start element steps base size hf hcell ih =>
      cases hwf with
      | mstruct _ _ hpair _ hfields =>
          cases h' with
          | @mstruct _ _ name' start' element' steps' base' _ hf' hcell' =>
              have hle := (hcell.bounds (hfields _ hf)).2
              have hle' := (hcell'.bounds (hfields _ hf')).2
              rcases field_apart hpair hf hf' with hsame | hbefore | hafter
              · cases hsame
                obtain ⟨rfl, rfl, rfl⟩ := ih hcell' (hfields _ hf) (by omega) (by omega)
                exact ⟨rfl, rfl, rfl⟩
              · simp only at hbefore hle
                omega
              · simp only at hafter hle'
                omega
  | mcell =>
      cases h' with
      | mcell => exact ⟨rfl, rfl, rfl⟩

/-- With distinct names, the steps say which instance is meant. -/
theorem CellAt.eq_of_steps (h : CellAt block steps base size) (h' : CellAt block steps base' size')
    (hnames : DistinctNames block) : base = base' ∧ size = size' := by
  induction h generalizing base' size' with
  | marray _ _ ih =>
      cases hnames with
      | marray he =>
          cases h' with
          | marray _ hcell' =>
              obtain ⟨rfl, rfl⟩ := ih hcell' he
              exact ⟨rfl, rfl⟩
  | mstruct hf _ ih =>
      cases hnames with
      | mstruct hnodup hfields =>
          cases h' with
          | mstruct hf' hcell' =>
              cases eq_of_name_eq hnodup hf hf' rfl
              obtain ⟨rfl, rfl⟩ := ih hcell' (hfields _ hf)
              exact ⟨rfl, rfl⟩
  | mcell =>
      cases h' with
      | mcell => exact ⟨rfl, rfl⟩

end Instances

/-! ## The contents of an instance -/

mutual

/-- The value of the cell instance that `steps` leads to. -/
def contents : MBlock w → List (PathStep w) → List (BitVec w) → Option Bv
  | marray _ elements, .index i :: steps, indices => elements.contents steps (i :: indices)
  | mstruct _ fields, .field name :: steps, indices => fieldContents fields name steps indices
  | mcell cell, [], indices => some (cell.func indices)
  | _, _, _ => none

def fieldContents : List (String × Nat × MBlock w) → String → List (PathStep w) → List (BitVec w) → Option Bv
  | [], _, _, _ => none
  | (fieldName, _, element) :: fields, name, steps, indices =>
      if fieldName = name then element.contents steps indices else fieldContents fields name steps indices

end

/-- What looks a field up by its name finds any of the fields, when the names are distinct. -/
theorem lookup_of_mem {β : Type} (look : List (String × Nat × MBlock w) → β) (found : MBlock w → β)
    (hcons : ∀ fieldName start element fields,
      look ((fieldName, start, element) :: fields) = if fieldName = name then found element else look fields)
    {fields : List (String × Nat × MBlock w)} {element : MBlock w} (hnodup : (fields.map Prod.fst).Nodup)
    (hf : (name, start, element) ∈ fields) : look fields = found element := by
  induction fields with
  | nil => cases hf
  | cons f fields ih =>
      obtain ⟨fieldName, fieldStart, fieldElement⟩ := f
      obtain ⟨hfirst, hrest⟩ := List.nodup_cons.mp hnodup
      rw [hcons]
      rcases List.mem_cons.mp hf with heq | hf'
      · cases heq
        exact if_pos rfl
      · have hne : fieldName ≠ name := by
          rintro rfl
          exact hfirst (List.mem_map.mpr ⟨_, hf', rfl⟩)
        rw [if_neg hne]
        exact ih hrest hf'

theorem fieldContents_of_mem {fields : List (String × Nat × MBlock w)} {element : MBlock w}
    (hnodup : (fields.map Prod.fst).Nodup) (hf : (name, start, element) ∈ fields) (steps : List (PathStep w))
    (indices : List (BitVec w)) :
    fieldContents fields name steps indices = element.contents steps indices :=
  lookup_of_mem (fieldContents · name steps indices) (fun element => element.contents steps indices)
    (fun _ _ _ _ => by rw [fieldContents]) hnodup hf

/-! ## Offsets to instances -/

theorem toNat_ofNat_of_lt (h : n < 2 ^ w) : (BitVec.ofNat w n).toNat = n := by
  rw [BitVec.toNat_ofNat, Nat.mod_eq_of_lt h]

theorem toNat_smtUDiv_ofNat (hpos : 0 < n) (hlt : n < 2 ^ w) (x : BitVec w) :
    (x.smtUDiv (BitVec.ofNat w n)).toNat = x.toNat / n := by
  have hne : BitVec.ofNat w n ≠ 0#w := by
    intro h
    have := congrArg BitVec.toNat h
    rw [toNat_ofNat_of_lt hlt] at this
    simp at this
    omega
  rw [BitVec.smtUDiv_eq, if_neg hne, BitVec.toNat_udiv, toNat_ofNat_of_lt hlt]

/-- `mblock-inbounds?` on a block whose size fits a pointer. -/
theorem inbounds_iff {blockSize : Nat} (hlt : blockSize < 2 ^ w) (offset size : BitVec w) :
    inbounds blockSize offset size ↔ offset.toNat + size.toNat ≤ blockSize := by
  unfold inbounds
  rw [BitVec.le_def, BitVec.le_def, toNat_ofNat_of_lt hlt]
  constructor
  · rintro ⟨hsize, hoffset⟩
    rw [BitVec.toNat_sub_of_le (by rw [BitVec.le_def, toNat_ofNat_of_lt hlt]; exact hsize),
      toNat_ofNat_of_lt hlt] at hoffset
    omega
  · intro h
    refine ⟨by omega, ?_⟩
    rw [BitVec.toNat_sub_of_le (by rw [BitVec.le_def, toNat_ofNat_of_lt hlt]; omega), toNat_ofNat_of_lt hlt]
    omega

/-- The field that `mstruct-path` goes on with: one that starts at or before the offset. -/
theorem fieldPath_eq_ok {fields : List (String × Nat × MBlock w)} {offset size : BitVec w} {p : Path w}
    (h : fieldPath fields offset size = .ok p) :
    ∃ name start element p', (name, start, element) ∈ fields ∧ BitVec.ofNat w start ≤ offset ∧
      element.path (offset - BitVec.ofNat w start) size = .ok p' ∧ p = ⟨.field name :: p'.steps, p'.last⟩ := by
  induction fields with
  | nil => cases h
  | cons f fields ih =>
      obtain ⟨name, start, element⟩ := f
      rw [fieldPath] at h
      split_ifs at h with hlater hstart
      · obtain ⟨name', start', element', p', hf, hrest⟩ := ih h
        exact ⟨name', start', element', p', List.mem_cons_of_mem _ hf, hrest⟩
      · obtain ⟨p', hp', hp⟩ := bind_eq_ok.mp h
        exact ⟨name, start, element, p', List.mem_cons_self, hstart, hp', (Except.ok.inj hp).symm⟩

theorem fieldResolve_of_mem {fields : List (String × Nat × MBlock w)} {element : MBlock w}
    (hnodup : (fields.map Prod.fst).Nodup) (hf : (name, start, element) ∈ fields) (steps : List (PathStep w))
    (last : Option (BitVec w × BitVec w)) (indices : List (BitVec w)) :
    fieldResolve fields name steps last indices = element.resolve steps last indices :=
  lookup_of_mem (fieldResolve · name steps last indices) (fun element => element.resolve steps last indices)
    (fun _ _ _ _ => by rw [fieldResolve]) hnodup hf

/-- An aligned range of a divisor's size that starts inside the cell ends inside it. -/
theorem aligned_end_le {offset size : Nat} (hmultiple : n % size = 0) (haligned : offset % size = 0)
    (hin : offset < n) : offset + size ≤ n := by
  obtain ⟨j, rfl⟩ := Nat.dvd_of_mod_eq_zero haligned
  obtain ⟨k, rfl⟩ := Nat.dvd_of_mod_eq_zero hmultiple
  have hjk : j < k := Nat.lt_of_mul_lt_mul_left hin
  calc size * j + size = size * (j + 1) := (Nat.mul_succ size j).symm
    _ ≤ size * k := Nat.mul_le_mul_left size hjk

/-- A path that `mblock-path` returns leads to the instance that has all bytes of the access. -/
theorem path_within (block : MBlock w) (hwf : WellFormed block) (hlt : block.size < 2 ^ w) {offset size : BitVec w}
    {p : Path w} (hp : block.path offset size = .ok p) :
    ∃ base n, CellAt block p.steps base n ∧ base ≤ offset.toNat ∧ offset.toNat + size.toNat ≤ base + n ∧
      0 < size.toNat := by
  induction block using MBlock.ind generalizing offset p with
  | marray length elements ih =>
      cases hwf with
      | marray hlength he =>
          have hsize : elements.size < 2 ^ w := Nat.lt_of_le_of_lt (Nat.le_mul_of_pos_left _ hlength) hlt
          have hpos : 0 < elements.size := he.size_pos
          rw [path] at hp
          obtain ⟨hin, hp⟩ := bind_bugOn hp
          obtain ⟨p', hp', hp⟩ := bind_eq_ok.mp hp
          cases hp
          obtain ⟨base, n, hat, hbase, hend, hsome⟩ := ih he hsize hp'
          have hin' : offset.toNat + size.toNat ≤ length * elements.size :=
            (inbounds_iff hlt offset size).mp (not_not.mp hin)
          have hdiv := toNat_smtUDiv_ofNat hpos hsize offset
          have hmod : (offset % BitVec.ofNat w elements.size).toNat = offset.toNat % elements.size := by
            rw [BitVec.toNat_umod, toNat_ofNat_of_lt hsize]
          rw [hmod] at hbase hend
          have hindex : (offset.smtUDiv (BitVec.ofNat w elements.size)).toNat < length := by
            rw [hdiv, Nat.div_lt_iff_lt_mul hpos]
            omega
          have hsplit : offset.toNat / elements.size * elements.size + offset.toNat % elements.size = offset.toNat :=
            Nat.div_add_mod' ..
          refine ⟨_, n, CellAt.marray hindex hat, ?_, ?_, hsome⟩
          · rw [hdiv]
            omega
          · rw [hdiv]
            omega
  | mstruct blockSize fields ih =>
      cases hwf with
      | mstruct _ _ _ hin hfields =>
          rw [path] at hp
          obtain ⟨-, hp⟩ := bind_bugOn hp
          obtain ⟨name, start, element, p', hf, hstart, hp', rfl⟩ := fieldPath_eq_ok hp
          have hle : start + element.size ≤ blockSize := hin _ hf
          have hlt' : blockSize < 2 ^ w := hlt
          have hsub : (offset - BitVec.ofNat w start).toNat = offset.toNat - start := by
            rw [BitVec.toNat_sub_of_le hstart, toNat_ofNat_of_lt (by omega)]
          have hstart' : start ≤ offset.toNat := by
            rwa [BitVec.le_def, toNat_ofNat_of_lt (by omega)] at hstart
          obtain ⟨base, n, hat, hbase, hend, hsome⟩ := ih _ hf (hfields _ hf) (by simp only; omega) hp'
          rw [hsub] at hbase hend
          exact ⟨start + base, n, CellAt.mstruct hf hat, by omega, by omega, hsome⟩
  | mcell cell =>
      cases hwf with
      | mcell hpos =>
          rw [path] at hp
          obtain ⟨hmultiple, hp⟩ := bind_bugOn hp
          obtain ⟨haligned, hp⟩ := bind_bugOn hp
          obtain ⟨hin, hp⟩ := bind_bugOn hp
          cases hp
          have hlt' : cell.size < 2 ^ w := hlt
          have hmultiple' : cell.size % size.toNat = 0 := by
            have := congrArg BitVec.toNat (not_not.mp hmultiple)
            rwa [BitVec.toNat_umod, toNat_ofNat_of_lt hlt'] at this
          have haligned' : offset.toNat % size.toNat = 0 := by
            simpa using congrArg BitVec.toNat (not_not.mp haligned)
          have hin' : offset.toNat < cell.size := by
            rw [← toNat_ofNat_of_lt hlt', ← BitVec.lt_def]
            exact not_not.mp hin
          refine ⟨0, cell.size, .mcell, Nat.zero_le _, ?_, ?_⟩
          · rw [Nat.zero_add]
            exact aligned_end_le hmultiple' haligned' hin'
          · -- the remainder by 0 is the number itself, which `mcell-path` rejects
            rcases Nat.eq_zero_or_pos size.toNat with hzero | hsome
            · rw [hzero, Nat.mod_zero] at hmultiple'
              omega
            · exact hsome

theorem fieldResolve_contents {fields : List (String × Nat × MBlock w)} {steps : List (PathStep w)}
    {last : Option (BitVec w × BitVec w)} {indices : List (BitVec w)}
    {r : Cell w × BitVec w × BitVec w × List (BitVec w)}
    (ih : ∀ f ∈ fields, f.2.2.resolve steps last indices = .ok r →
      f.2.2.contents steps indices = some (r.1.func r.2.2.2))
    (hr : fieldResolve fields name steps last indices = .ok r) :
    fieldContents fields name steps indices = some (r.1.func r.2.2.2) := by
  induction fields with
  | nil => cases hr
  | cons f fields ihs =>
      obtain ⟨fieldName, fieldStart, fieldElement⟩ := f
      rw [fieldResolve] at hr
      rw [fieldContents]
      split_ifs at hr ⊢ with hname
      · exact ih _ List.mem_cons_self hr
      · exact ihs (fun f hf => ih f (List.mem_cons_of_mem _ hf)) hr

/-- What `mblock-resolve` finds is what `contents` says. -/
theorem resolve_contents (block : MBlock w) {steps : List (PathStep w)} {last : Option (BitVec w × BitVec w)}
    {indices : List (BitVec w)} {r : Cell w × BitVec w × BitVec w × List (BitVec w)}
    (hr : block.resolve steps last indices = .ok r) :
    block.contents steps indices = some (r.1.func r.2.2.2) := by
  induction block using MBlock.ind generalizing steps indices with
  | marray length elements ih =>
      match steps, hr with
      | .index i :: steps, hr => exact ih hr
  | mstruct blockSize fields ih =>
      match steps, hr with
      | .field name :: steps, hr => exact fieldResolve_contents (fun f hf => ih f hf) hr
  | mcell cell =>
      match steps, last, hr with
      | [], none, hr => cases hr; rfl
      | [], some (_, _), hr => cases hr; rfl

/-- With distinct names, the cell that `mblock-resolve` finds is as large as its instance. -/
theorem CellAt.resolve_size {block : MBlock w} {steps : List (PathStep w)} {base : Nat}
    (h : CellAt block steps base n) (hnames : DistinctNames block) {last : Option (BitVec w × BitVec w)}
    {indices : List (BitVec w)} {r : Cell w × BitVec w × BitVec w × List (BitVec w)}
    (hr : block.resolve steps last indices = .ok r) : r.1.size = n := by
  induction h generalizing indices with
  | marray _ _ ih =>
      cases hnames with
      | marray he => exact ih he hr
  | mstruct hf _ ih =>
      cases hnames with
      | mstruct hnodup hfields => exact ih (hfields _ hf) ((fieldResolve_of_mem hnodup hf ..).symm.trans hr)
  | mcell =>
      match last, hr with
      | none, hr => cases hr; rfl
      | some (_, _), hr => cases hr; rfl

/-- A path that reaches a cell as large as the access leads to the instance at the offset, and `mblock-resolve`
finds the contents of that instance. -/
theorem path_cellAt (block : MBlock w) (hwf : WellFormed block) (hnames : DistinctNames block)
    (hlt : block.size < 2 ^ w) {offset size : BitVec w} {p : Path w} (hp : block.path offset size = .ok p)
    {indices : List (BitVec w)} {r : Cell w × BitVec w × BitVec w × List (BitVec w)}
    (hr : block.resolve p.steps p.last indices = .ok r) (hcell : r.1.size = size.toNat) :
    CellAt block p.steps offset.toNat size.toNat ∧
      block.contents p.steps indices = some (r.1.func r.2.2.2) := by
  obtain ⟨base, n, hat, hbase, hend, -⟩ := block.path_within hwf hlt hp
  obtain rfl : n = size.toNat := (hat.resolve_size hnames hr).symm.trans hcell
  obtain rfl : base = offset.toNat := by omega
  exact ⟨hat, block.resolve_contents hr⟩

end MBlock
end Core
end Serval
