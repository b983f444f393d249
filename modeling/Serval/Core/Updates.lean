import Serval.Core.Layout

/-!
# Updates — what stores and clearing do to the cells of a block

`mblock-istore!` changes the contents of one instance.  `mblock-memset!` with byte 0 clears the instances inside
its range; the predicates it hands down select the array elements, and an accepted range never cuts through an
instance.  Neither changes the layout.
-/

namespace Serval
namespace Core
namespace MBlock

variable {value : Bv} {name : String}

variable {w : Nat}

/-! ## Stores -/

theorem fieldStoreAt_eq_ok {fields fields' : List (String × Nat × MBlock w)} {steps : List (PathStep w)}
    {indices : List (BitVec w)}
    (ih : ∀ f ∈ fields, ∀ element', f.2.2.storeAt value steps indices = .ok element' →
      ∀ steps' indices', element'.contents steps' indices' =
        if steps' = steps ∧ indices' = indices then some value else f.2.2.contents steps' indices')
    (h : fieldStoreAt fields value name steps indices = .ok fields') (name' : String) (steps' : List (PathStep w))
    (indices' : List (BitVec w)) :
    fieldContents fields' name' steps' indices' =
      if name' = name ∧ steps' = steps ∧ indices' = indices then some value
      else fieldContents fields name' steps' indices' := by
  induction fields generalizing fields' with
  | nil => cases h
  | cons f fields ihs =>
      obtain ⟨fieldName, start, element⟩ := f
      rw [fieldStoreAt] at h
      split_ifs at h with hname
      · obtain ⟨element', helement', h⟩ := bind_eq_ok.mp h
        cases h
        rw [fieldContents, fieldContents, ih _ List.mem_cons_self element' helement']
        subst hname
        by_cases hn : fieldName = name'
        · simp [hn]
        · simp [hn, Ne.symm hn]
      · obtain ⟨rest, hrest, h⟩ := bind_eq_ok.mp h
        cases h
        rw [fieldContents, fieldContents, ihs (fun f hf => ih f (List.mem_cons_of_mem _ hf)) hrest]
        by_cases hn : fieldName = name'
        · subst hn
          simp [hname]
        · simp [hn]

/-- A store changes the contents of one instance. -/
theorem storeAt_contents (block : MBlock w) {block' : MBlock w} {steps : List (PathStep w)}
    {indices : List (BitVec w)} (h : block.storeAt value steps indices = .ok block') (steps' : List (PathStep w))
    (indices' : List (BitVec w)) :
    block'.contents steps' indices' =
      if steps' = steps ∧ indices' = indices then some value else block.contents steps' indices' := by
  induction block using MBlock.ind generalizing block' steps indices steps' indices' with
  | marray length elements ih =>
      match steps, h with
      | .index i :: steps, h =>
          obtain ⟨elements', helements', h⟩ := bind_eq_ok.mp h
          cases h
          match steps' with
          | .index j :: steps' =>
              rw [contents, contents, ih helements']
              simp only [List.cons.injEq, PathStep.index.injEq]
              congr 1
              exact propext ⟨fun h => ⟨⟨h.2.1, h.1⟩, h.2.2⟩, fun h => ⟨h.1.2, h.1.1, h.2⟩⟩
          | .field name :: steps' => simp [contents]
          | [] => simp [contents]
  | mstruct size fields ih =>
      match steps, h with
      | .field name :: steps, h =>
          obtain ⟨fields', hfields', h⟩ := bind_eq_ok.mp h
          cases h
          match steps' with
          | .field name' :: steps' =>
              rw [contents, contents,
                fieldStoreAt_eq_ok (fun f hf element' he steps' indices' => ih f hf he steps' indices') hfields']
              simp [and_assoc]
          | .index i :: steps' => simp [contents]
          | [] => simp [contents]
  | mcell cell =>
      match steps, h with
      | [], h =>
          obtain ⟨cell', hcell', h⟩ := bind_eq_ok.mp h
          cases h
          obtain ⟨-, hcell'⟩ := bind_bugOn hcell'
          cases hcell'
          match steps' with
          | [] =>
              simp only [contents, true_and]
              split_ifs <;> rfl
          | step :: steps' => simp [contents]

/-! ## Clearing -/

/-- Whether all predicates accept the indices of an instance. -/
def accepts (preds : List (BitVec w → Bool)) (indices : List (BitVec w)) : Bool :=
  (List.zipWith (fun pred arg => pred arg) preds indices).all id

/-- `block'` is `block` with the bytes from `offset` to `offset + size` cleared, at the indices that the predicates
accept; no instance lies partly inside that range. -/
def Cleared (block block' : MBlock w) (offset size : Nat) (preds : List (BitVec w → Bool)) : Prop :=
  ∀ steps base n, CellAt block steps base n →
    (offset ≤ base ∧ base + n ≤ offset + size ∧ ∀ indices, block'.contents steps indices =
      if accepts preds indices then some ⟨8 * n, 0⟩ else block.contents steps indices) ∨
    ((base + n ≤ offset ∨ offset + size ≤ base) ∧ ∀ indices, block'.contents steps indices =
      block.contents steps indices)

section Cleared

variable {elements elements' : MBlock w} {length offset size : Nat} {preds : List (BitVec w → Bool)}

/-- A range within one element of an array. -/
theorem Cleared.within {index : BitVec w} (hwf : WellFormed elements) (hin : offset + size ≤ elements.size)
    (h : Cleared elements elements' offset size ((fun i => decide (i = index)) :: preds)) :
    Cleared (marray length elements) (marray length elements') (index.toNat * elements.size + offset) size preds := by
  intro steps base n hcell
  cases hcell with
  | @marray _ _ i steps base _ hi hcell =>
      have hle := (hcell.bounds hwf).2
      by_cases hindex : i = index
      · subst hindex
        rcases h steps base n hcell with ⟨h₁, h₂, hcontents⟩ | ⟨hdisj, hcontents⟩
        · refine .inl ⟨by omega, by omega, fun indices => ?_⟩
          exact (hcontents (i :: indices)).trans (if_congr (by simp [accepts]) rfl rfl)
        · exact .inr ⟨by omega, fun indices => hcontents (i :: indices)⟩
      · have hne : i.toNat ≠ index.toNat := fun h => hindex (BitVec.eq_of_toNat_eq h)
        have hunchanged : ∀ indices, elements'.contents steps (i :: indices) =
            elements.contents steps (i :: indices) := by
          intro indices
          rcases h steps base n hcell with ⟨_, _, hcontents⟩ | ⟨_, hcontents⟩
          · simpa [accepts, hindex] using hcontents (i :: indices)
          · exact hcontents (i :: indices)
        refine .inr ⟨?_, hunchanged⟩
        -- another element lies before or after the one with the range
        rcases Nat.lt_or_gt_of_ne hne with hlt | hgt
        · have := Nat.mul_le_mul_right elements.size hlt
          rw [Nat.succ_mul] at this
          omega
        · have := Nat.mul_le_mul_right elements.size hgt
          rw [Nat.succ_mul] at this
          omega

/-- A range of full elements of an array. -/
theorem Cleared.full {first count : Nat} {pred : BitVec w → Bool} (hwf : WellFormed elements)
    (hpred : ∀ i : BitVec w, pred i = true ↔ first ≤ i.toNat ∧ i.toNat < first + count)
    (h : Cleared elements elements' 0 elements.size (pred :: preds)) :
    Cleared (marray length elements) (marray length elements') (first * elements.size) (count * elements.size)
      preds := by
  intro steps base n hcell
  cases hcell with
  | @marray _ _ i steps base _ hi hcell =>
      obtain ⟨hpos, hle⟩ := hcell.bounds hwf
      -- the whole element is cleared, so the instance in it is
      have hcontents : ∀ indices, elements'.contents steps indices =
          if accepts (pred :: preds) indices then some ⟨8 * n, 0⟩ else elements.contents steps indices := by
        rcases h steps base n hcell with ⟨_, _, hcontents⟩ | ⟨hdisj, _⟩
        · exact hcontents
        · omega
      by_cases hi : first ≤ i.toNat ∧ i.toNat < first + count
      · have h₁ := Nat.mul_le_mul_right elements.size hi.1
        have h₂ := Nat.mul_le_mul_right elements.size hi.2
        rw [Nat.succ_mul, Nat.add_mul] at h₂
        have hyes : pred i = true := (hpred i).mpr hi
        refine .inl ⟨by omega, by omega, fun indices => ?_⟩
        exact (hcontents (i :: indices)).trans (if_congr (by simp [accepts, hyes]) rfl rfl)
      · have hno : pred i = false := Bool.eq_false_iff.mpr fun h => hi ((hpred i).mp h)
        refine .inr ⟨?_, fun indices => ?_⟩
        · rcases Nat.lt_or_ge i.toNat first with hlt | hge
          · have := Nat.mul_le_mul_right elements.size hlt
            rw [Nat.succ_mul] at this
            omega
          · have hge' : first + count ≤ i.toNat := by omega
            have := Nat.mul_le_mul_right elements.size hge'
            rw [Nat.add_mul] at this
            omega
        · exact (hcontents (i :: indices)).trans (if_neg (by simp [accepts, hno]))

end Cleared

theorem fieldsMemset_eq_ok {fields fields' : List (String × Nat × MBlock w)} {c : Bv}
    {preds : List (BitVec w → Bool)} (h : fieldsMemset fields c preds = .ok fields') :
    fields'.map Prod.fst = fields.map Prod.fst ∧
      ∀ name start element, (name, start, element) ∈ fields → ∃ element',
        element.memset c 0 (BitVec.ofNat w element.size) preds = .ok element' ∧
          (name, start, element') ∈ fields' := by
  induction fields generalizing fields' with
  | nil =>
      cases h
      exact ⟨rfl, fun _ _ _ h => nomatch h⟩
  | cons f fields ih =>
      obtain ⟨name, start, element⟩ := f
      obtain ⟨element', helement', h⟩ := bind_eq_ok.mp h
      obtain ⟨rest, hrest, h⟩ := bind_eq_ok.mp h
      cases h
      obtain ⟨hnames, hmem⟩ := ih hrest
      refine ⟨by simp [hnames], fun name₁ start₁ element₁ hf => ?_⟩
      rcases List.mem_cons.mp hf with heq | hf'
      · cases heq
        exact ⟨element', helement', List.mem_cons_self⟩
      · obtain ⟨element₂, he, hin⟩ := hmem _ _ _ hf'
        exact ⟨element₂, he, List.mem_cons_of_mem _ hin⟩

theorem fieldMemset_eq_ok {fields fields' : List (String × Nat × MBlock w)} {c : Bv} {offset size : BitVec w}
    {preds : List (BitVec w → Bool)} (h : fieldMemset fields c offset size preds = .ok fields') :
    fields'.map Prod.fst = fields.map Prod.fst ∧
      ∃ name start element element', (name, start, element) ∈ fields ∧ BitVec.ofNat w start ≤ offset ∧
        element.memset c (offset - BitVec.ofNat w start) size preds = .ok element' ∧
        (name, start, element') ∈ fields' ∧ ∀ g ∈ fields, g.1 ≠ name → g ∈ fields' := by
  induction fields generalizing fields' with
  | nil => cases h
  | cons f fields ih =>
      obtain ⟨name, start, element⟩ := f
      rw [fieldMemset] at h
      split_ifs at h with hlater hstart
      · obtain ⟨rest, hrest, h⟩ := bind_eq_ok.mp h
        cases h
        obtain ⟨hnames, name₁, start₁, element₁, element₂, hf, hle, hset, hin, hothers⟩ := ih hrest
        refine ⟨by simp [hnames], name₁, start₁, element₁, element₂, List.mem_cons_of_mem _ hf, hle, hset,
          List.mem_cons_of_mem _ hin, fun g hg hne => ?_⟩
        rcases List.mem_cons.mp hg with rfl | hg'
        · exact List.mem_cons_self
        · exact List.mem_cons_of_mem _ (hothers g hg' hne)
      · obtain ⟨element', helement', h⟩ := bind_eq_ok.mp h
        cases h
        refine ⟨rfl, name, start, element, element', List.mem_cons_self, hstart, helement', List.mem_cons_self,
          fun g hg hne => ?_⟩
        rcases List.mem_cons.mp hg with rfl | hg'
        · exact absurd rfl hne
        · exact List.mem_cons_of_mem _ hg'

section ClearedStruct

variable {fields fields' : List (String × Nat × MBlock w)} {blockSize offset size : Nat}
  {preds : List (BitVec w → Bool)} (hnodup : (fields.map Prod.fst).Nodup)
  (hnames : fields'.map Prod.fst = fields.map Prod.fst) (hfields : ∀ f ∈ fields, WellFormed f.2.2)
include hnodup hnames hfields

/-- A whole struct, field by field. -/
theorem Cleared.struct (hin : ∀ f ∈ fields, f.2.1 + f.2.2.size ≤ blockSize)
    (h : ∀ name start element, (name, start, element) ∈ fields → ∃ element', (name, start, element') ∈ fields' ∧
      Cleared element element' 0 element.size preds) :
    Cleared (mstruct blockSize fields) (mstruct blockSize fields') 0 blockSize preds := by
  intro steps base n hcell
  cases hcell with
  | @mstruct _ _ name start element steps base _ hf hcell =>
      obtain ⟨hpos, hle⟩ := hcell.bounds (hfields _ hf)
      have hfield : start + element.size ≤ blockSize := hin _ hf
      obtain ⟨element', hf', hcleared⟩ := h name start element hf
      rcases hcleared steps base n hcell with ⟨_, _, hcontents⟩ | ⟨hdisj, _⟩
      · refine .inl ⟨by omega, by omega, fun indices => ?_⟩
        refine (fieldContents_of_mem (hnames ▸ hnodup) hf' ..).trans ((hcontents indices).trans ?_)
        exact congrArg (ite _ _) (fieldContents_of_mem hnodup hf ..).symm
      · omega

/-- A range within one field. -/
theorem Cleared.field {start : Nat} {element element' : MBlock w}
    (hpair : fields.Pairwise fun f g => f.2.1 + f.2.2.size ≤ g.2.1) (hf : (name, start, element) ∈ fields)
    (hf' : (name, start, element') ∈ fields') (hothers : ∀ g ∈ fields, g.1 ≠ name → g ∈ fields')
    (hstart : start ≤ offset) (hinside : offset - start + size ≤ element.size)
    (h : Cleared element element' (offset - start) size preds) :
    Cleared (mstruct blockSize fields) (mstruct blockSize fields') offset size preds := by
  intro steps base n hcell
  cases hcell with
  | @mstruct _ _ name₁ start₁ element₁ steps base _ hf₁ hcell =>
      have hle := (hcell.bounds (hfields _ hf₁)).2
      simp only [contents]
      by_cases hname : name₁ = name
      · cases eq_of_name_eq hnodup hf₁ hf hname
        simp only [fieldContents_of_mem hnodup hf, fieldContents_of_mem (hnames ▸ hnodup) hf']
        rcases h steps base n hcell with ⟨h₁, h₂, hcontents⟩ | ⟨hdisj, hcontents⟩
        · exact .inl ⟨by omega, by omega, hcontents⟩
        · exact .inr ⟨by omega, hcontents⟩
      · have hsame : ∀ indices, fieldContents fields' name₁ steps indices = fieldContents fields name₁ steps indices :=
          fun indices => (fieldContents_of_mem (hnames ▸ hnodup) (hothers _ hf₁ hname) ..).trans
            (fieldContents_of_mem hnodup hf₁ ..).symm
        refine .inr ⟨?_, hsame⟩
        rcases field_apart hpair hf₁ hf with hsame | hbefore | hafter
        · exact absurd (congrArg Prod.fst hsame) hname
        · simp only at hbefore hle
          omega
        · simp only at hafter
          omega

end ClearedStruct

/-- `mcell-memset!` with byte 0: nothing for size 0, else the whole cell. -/
theorem Cell.memset_eq_ok {cell cell' : Cell w} {offset size : BitVec w} {preds : List (BitVec w → Bool)}
    (h : cell.memset ⟨8, 0⟩ offset size preds = .ok cell') :
    offset = 0 ∧ (size = 0 ∧ cell' = cell ∨ size = BitVec.ofNat w cell.size ∧
      cell' = { cell with
        func := fun args => if accepts preds args then ⟨8 * cell.size, 0⟩ else cell.func args }) := by
  obtain ⟨hoffset, h⟩ := bind_bugOn h
  obtain ⟨-, h⟩ := bind_bugOn h
  obtain ⟨-, h⟩ := bind_bugOn h
  refine ⟨not_not.mp hoffset, ?_⟩
  split_ifs at h with hsize
  · exact .inl ⟨hsize, (Except.ok.inj h).symm⟩
  · obtain ⟨hsize', h⟩ := bind_bugOn h
    have hzero : BitVec.replicate cell.size (0 : BitVec 8) = 0 := by
      ext i hi
      simp [BitVec.getElem_replicate]
    refine .inr ⟨not_not.mp hsize', ?_⟩
    rw [← Except.ok.inj h]
    simp only [hzero]
    rfl

/-- `mblock-memset!` with byte 0 clears its range. -/
theorem memset_cleared (block : MBlock w) (hwf : WellFormed block) (hnames : DistinctNames block)
    (hlt : block.size < 2 ^ w) {block' : MBlock w} {offset size : BitVec w} {preds : List (BitVec w → Bool)}
    (h : block.memset ⟨8, 0⟩ offset size preds = .ok block') :
    offset.toNat + size.toNat ≤ block.size ∧ Cleared block block' offset.toNat size.toNat preds := by
  induction block using MBlock.ind generalizing block' offset size preds with
  | marray length elements ih =>
      cases hwf with
      | marray hlength he =>
          cases hnames with
          | marray hn =>
              have hsize : elements.size < 2 ^ w := Nat.lt_of_le_of_lt (Nat.le_mul_of_pos_left _ hlength) hlt
              have hpos : 0 < elements.size := he.size_pos
              rw [memset] at h
              obtain ⟨hin, h⟩ := bind_bugOn h
              have hin' : offset.toNat + size.toNat ≤ length * elements.size :=
                (inbounds_iff hlt offset size).mp (not_not.mp hin)
              have hdiv := toNat_smtUDiv_ofNat hpos hsize offset
              have hmod : (offset % BitVec.ofNat w elements.size).toNat = offset.toNat % elements.size := by
                rw [BitVec.toNat_umod, toNat_ofNat_of_lt hsize]
              refine ⟨hin', ?_⟩
              dsimp only at h
              split_ifs at h with hone
              · obtain ⟨elements', helements', h⟩ := bind_eq_ok.mp h
                cases h
                obtain ⟨hle, hcleared⟩ := ih he hn hsize helements'
                have hrow : Cleared (marray length elements) _ _ _ _ := hcleared.within he hle
                rwa [hdiv, hmod, Nat.mul_comm, Nat.div_add_mod] at hrow
              · obtain ⟨haligned, h⟩ := bind_bugOn h
                obtain ⟨hmultiple, h⟩ := bind_bugOn h
                obtain ⟨elements', helements', h⟩ := bind_eq_ok.mp h
                cases h
                obtain ⟨-, hcleared⟩ := ih he hn hsize helements'
                rw [BitVec.ofNat_eq_ofNat, BitVec.toNat_ofNat, Nat.zero_mod, toNat_ofNat_of_lt hsize] at hcleared
                have hoffset : offset.toNat % elements.size = 0 := by
                  rw [← hmod, not_not.mp haligned]
                  exact BitVec.toNat_ofNat ..
                have hwhole : size.toNat % elements.size = 0 := by
                  have := congrArg BitVec.toNat (not_not.mp hmultiple)
                  rwa [BitVec.toNat_umod, toNat_ofNat_of_lt hsize, BitVec.ofNat_eq_ofNat, BitVec.toNat_ofNat,
                    Nat.zero_mod] at this
                have hfirst := Nat.div_mul_cancel (Nat.dvd_of_mod_eq_zero hoffset)
                have hcount := Nat.div_mul_cancel (Nat.dvd_of_mod_eq_zero hwhole)
                have hsum : offset.toNat / elements.size + size.toNat / elements.size < 2 ^ w := by
                  refine Nat.lt_of_le_of_lt ?_ (Nat.lt_of_le_of_lt hin' hlt)
                  exact Nat.add_le_add (Nat.div_le_self ..) (Nat.div_le_self ..)
                have hrows : Cleared (marray length elements) _ _ _ _ := hcleared.full he (fun i => by
                  rw [decide_eq_true_iff, BitVec.le_def, BitVec.lt_def, BitVec.toNat_add, hdiv,
                    toNat_smtUDiv_ofNat hpos hsize,
                    Nat.mod_eq_of_lt hsum])
                rwa [hfirst, hcount] at hrows
  | mstruct blockSize fields ih =>
      cases hwf with
      | mstruct _ _ hpair hin hfields =>
          cases hnames with
          | mstruct hnodup hn =>
              rw [memset] at h
              obtain ⟨hbounds, h⟩ := bind_bugOn h
              have hlt' : blockSize < 2 ^ w := hlt
              have hbounds' : offset.toNat + size.toNat ≤ blockSize :=
                (inbounds_iff hlt' offset size).mp (not_not.mp hbounds)
              refine ⟨hbounds', ?_⟩
              split_ifs at h with hwhole
              · obtain ⟨fields', hfields', h⟩ := bind_eq_ok.mp h
                cases h
                obtain ⟨hnames', hset⟩ := fieldsMemset_eq_ok hfields'
                have hsize : size.toNat = blockSize := by rw [hwhole, toNat_ofNat_of_lt hlt']
                obtain hzero : offset.toNat = 0 := by omega
                rw [hsize, hzero]
                refine Cleared.struct hnodup hnames' hfields hin fun name start element hf => ?_
                obtain ⟨element', he, hmem⟩ := hset name start element hf
                have hle : start + element.size ≤ blockSize := hin _ hf
                have hlt'' : element.size < 2 ^ w := by omega
                have hcleared := (ih _ hf (hfields _ hf) (hn _ hf) hlt'' he).2
                rw [BitVec.ofNat_eq_ofNat, BitVec.toNat_ofNat, Nat.zero_mod, toNat_ofNat_of_lt hlt''] at hcleared
                exact ⟨element', hmem, hcleared⟩
              · obtain ⟨fields', hfields', h⟩ := bind_eq_ok.mp h
                cases h
                obtain ⟨hnames', name, start, element, element', hf, hstart, he, hmem, hothers⟩ :=
                  fieldMemset_eq_ok hfields'
                have hle : start + element.size ≤ blockSize := hin _ hf
                have hstart' : start ≤ offset.toNat := by
                  rwa [BitVec.le_def, toNat_ofNat_of_lt (by omega)] at hstart
                obtain ⟨hinside, hcleared⟩ := ih _ hf (hfields _ hf) (hn _ hf) (by simp only; omega) he
                rw [BitVec.toNat_sub_of_le hstart, toNat_ofNat_of_lt (by omega)] at hinside hcleared
                exact Cleared.field hnodup hnames' hfields hpair hf hmem hothers hstart' hinside hcleared
  | mcell cell =>
      obtain ⟨cell', hcell', h⟩ := bind_eq_ok.mp h
      cases h
      obtain ⟨rfl, hcases⟩ := Cell.memset_eq_ok hcell'
      have hlt' : cell.size < 2 ^ w := hlt
      rcases hcases with ⟨rfl, rfl⟩ | ⟨rfl, rfl⟩
      · refine ⟨by simp, fun steps base n _ => .inr ⟨.inr (by simp), fun _ => rfl⟩⟩
      · rw [toNat_ofNat_of_lt hlt']
        refine ⟨by simp [MBlock.size], fun steps base n hcell => ?_⟩
        cases hcell with
        | mcell =>
            refine .inl ⟨by simp, by simp, fun indices => ?_⟩
            simp only [contents]
            split_ifs <;> rfl

/-! ## The layout does not change -/

mutual

/-- A block without its contents. -/
def shape : MBlock w → MBlock w
  | marray length elements => marray length elements.shape
  | mstruct size fields => mstruct size (fieldsShape fields)
  | mcell cell => mcell { cell with func := fun _ => ⟨0, 0⟩, free := false }

def fieldsShape : List (String × Nat × MBlock w) → List (String × Nat × MBlock w)
  | [] => []
  | (name, start, element) :: fields => (name, start, element.shape) :: fieldsShape fields

end

theorem fieldsShape_eq_map (fields : List (String × Nat × MBlock w)) :
    fieldsShape fields = fields.map fun f => (f.1, f.2.1, f.2.2.shape) := by
  induction fields with
  | nil => rfl
  | cons f fields ih => exact congrArg ((f.1, f.2.1, f.2.2.shape) :: ·) ih

theorem shape_mstruct (size : Nat) (fields : List (String × Nat × MBlock w)) :
    (mstruct size fields).shape = mstruct size (fields.map fun f => (f.1, f.2.1, f.2.2.shape)) :=
  congrArg (mstruct size) (fieldsShape_eq_map fields)

@[simp] theorem size_shape (block : MBlock w) : block.shape.size = block.size := by
  induction block using MBlock.ind with
  | marray length elements ih => exact congrArg (length * ·) ih
  | mstruct blockSize fields _ => rfl
  | mcell cell => rfl

theorem wellFormed_shape (block : MBlock w) : WellFormed block.shape ↔ WellFormed block := by
  induction block using MBlock.ind with
  | marray length elements ih =>
      constructor
      · rintro (⟨hlength, he⟩ | _ | _)
        exact .marray hlength (ih.mp he)
      · rintro (⟨hlength, he⟩ | _ | _)
        exact .marray hlength (ih.mpr he)
  | mstruct blockSize fields ih =>
      rw [shape_mstruct]
      constructor
      · rintro (_ | ⟨hpos, hfirst, hpair, hin, hfields⟩ | _)
        refine .mstruct hpos ?_ ?_ ?_ ?_
        · intro f hf
          exact hfirst (f.1, f.2.1, f.2.2.shape) (by rw [List.head?_map, Option.mem_def.mp hf]; rfl)
        · simpa [List.pairwise_map] using hpair
        · intro f hf
          simpa using hin _ (List.mem_map_of_mem hf)
        · intro f hf
          exact (ih f hf).mp (hfields _ (List.mem_map_of_mem hf))
      · rintro (_ | ⟨hpos, hfirst, hpair, hin, hfields⟩ | _)
        refine .mstruct hpos ?_ ?_ ?_ ?_
        · intro f hf
          rw [List.head?_map] at hf
          obtain ⟨g, hg, rfl⟩ := Option.map_eq_some_iff.mp hf
          exact hfirst g hg
        · simpa [List.pairwise_map] using hpair
        · intro f hf
          obtain ⟨g, hg, rfl⟩ := List.mem_map.mp hf
          simpa using hin g hg
        · intro f hf
          obtain ⟨g, hg, rfl⟩ := List.mem_map.mp hf
          exact (ih g hg).mpr (hfields g hg)
  | mcell cell =>
      constructor
      · rintro (_ | _ | hpos)
        exact .mcell hpos
      · rintro (_ | _ | hpos)
        exact .mcell hpos

theorem distinctNames_shape (block : MBlock w) : DistinctNames block.shape ↔ DistinctNames block := by
  induction block using MBlock.ind with
  | marray length elements ih =>
      constructor
      · rintro (he | _ | _)
        exact .marray (ih.mp he)
      · rintro (he | _ | _)
        exact .marray (ih.mpr he)
  | mstruct blockSize fields ih =>
      rw [shape_mstruct]
      have hnames : (fields.map fun f => (f.1, f.2.1, f.2.2.shape)).map Prod.fst = fields.map Prod.fst := by
        rw [List.map_map]
        rfl
      constructor
      · rintro (_ | ⟨hnodup, hfields⟩ | _)
        exact .mstruct (hnames ▸ hnodup) fun f hf => (ih f hf).mp (hfields _ (List.mem_map_of_mem hf))
      · rintro (_ | ⟨hnodup, hfields⟩ | _)
        refine .mstruct (hnames ▸ hnodup) fun f hf => ?_
        obtain ⟨g, hg, rfl⟩ := List.mem_map.mp hf
        exact (ih g hg).mpr (hfields g hg)
  | mcell cell => exact ⟨fun _ => .mcell, fun _ => .mcell⟩

theorem cellAt_shape (block : MBlock w) {steps : List (PathStep w)} {base n : Nat} :
    CellAt block.shape steps base n ↔ CellAt block steps base n := by
  induction block using MBlock.ind generalizing steps base n with
  | marray length elements ih =>
      constructor
      · rintro (⟨hi, hcell⟩ | _ | _)
        rw [size_shape]
        exact .marray hi (ih.mp hcell)
      · rintro (⟨hi, hcell⟩ | _ | _)
        rw [← size_shape elements]
        exact .marray hi (ih.mpr hcell)
  | mstruct blockSize fields ih =>
      rw [shape_mstruct]
      constructor
      · rintro (_ | ⟨hf, hcell⟩ | _)
        obtain ⟨⟨name, start, element⟩, hg, heq⟩ := List.mem_map.mp hf
        cases heq
        exact .mstruct hg ((ih _ hg).mp hcell)
      · rintro (_ | ⟨hf, hcell⟩ | _)
        exact .mstruct (List.mem_map_of_mem hf) ((ih _ hf).mpr hcell)
  | mcell cell =>
      constructor
      · rintro (_ | _ | _)
        exact .mcell
      · rintro (_ | _ | _)
        exact .mcell

theorem fieldStoreAt_shape {fields fields' : List (String × Nat × MBlock w)} {steps : List (PathStep w)}
    {indices : List (BitVec w)}
    (ih : ∀ f ∈ fields, ∀ element', f.2.2.storeAt value steps indices = .ok element' → element'.shape = f.2.2.shape)
    (h : fieldStoreAt fields value name steps indices = .ok fields') : fieldsShape fields' = fieldsShape fields := by
  induction fields generalizing fields' with
  | nil => cases h
  | cons f fields ihs =>
      obtain ⟨fieldName, start, element⟩ := f
      rw [fieldStoreAt] at h
      split_ifs at h with hname
      · obtain ⟨element', helement', h⟩ := bind_eq_ok.mp h
        cases h
        rw [fieldsShape, fieldsShape, ih _ List.mem_cons_self element' helement']
      · obtain ⟨rest, hrest, h⟩ := bind_eq_ok.mp h
        cases h
        rw [fieldsShape, fieldsShape, ihs (fun f hf => ih f (List.mem_cons_of_mem _ hf)) hrest]

theorem storeAt_shape (block : MBlock w) {block' : MBlock w} {steps : List (PathStep w)} {indices : List (BitVec w)}
    (h : block.storeAt value steps indices = .ok block') :
    block'.shape = block.shape := by
  induction block using MBlock.ind generalizing block' steps indices with
  | marray length elements ih =>
      match steps, h with
      | .index i :: steps, h =>
          obtain ⟨elements', helements', h⟩ := bind_eq_ok.mp h
          cases h
          exact congrArg (marray length) (ih helements')
  | mstruct size fields ih =>
      match steps, h with
      | .field name :: steps, h =>
          obtain ⟨fields', hfields', h⟩ := bind_eq_ok.mp h
          cases h
          exact congrArg (mstruct size) (fieldStoreAt_shape (fun f hf element' he => ih f hf he) hfields')
  | mcell cell =>
      match steps, h with
      | [], h =>
          obtain ⟨cell', hcell', h⟩ := bind_eq_ok.mp h
          cases h
          obtain ⟨-, hcell'⟩ := bind_bugOn hcell'
          cases hcell'
          rfl

section MemsetShape

variable {fields fields' : List (String × Nat × MBlock w)} {c : Bv} {preds : List (BitVec w → Bool)}
  (ih : ∀ f ∈ fields, ∀ offset size element', f.2.2.memset c offset size preds = .ok element' →
    element'.shape = f.2.2.shape)
include ih

theorem fieldsMemset_shape (h : fieldsMemset fields c preds = .ok fields') :
    fieldsShape fields' = fieldsShape fields := by
  induction fields generalizing fields' with
  | nil => cases h; rfl
  | cons f fields ihs =>
      obtain ⟨name, start, element⟩ := f
      obtain ⟨element', helement', h⟩ := bind_eq_ok.mp h
      obtain ⟨rest, hrest, h⟩ := bind_eq_ok.mp h
      cases h
      rw [fieldsShape, fieldsShape, ih _ List.mem_cons_self _ _ element' helement',
        ihs (fun f hf => ih f (List.mem_cons_of_mem _ hf)) hrest]

theorem fieldMemset_shape {offset size : BitVec w} (h : fieldMemset fields c offset size preds = .ok fields') :
    fieldsShape fields' = fieldsShape fields := by
  induction fields generalizing fields' with
  | nil => cases h
  | cons f fields ihs =>
      obtain ⟨name, start, element⟩ := f
      rw [fieldMemset] at h
      split_ifs at h with hlater hstart
      · obtain ⟨rest, hrest, h⟩ := bind_eq_ok.mp h
        cases h
        rw [fieldsShape, fieldsShape, ihs (fun f hf => ih f (List.mem_cons_of_mem _ hf)) hrest]
      · obtain ⟨element', helement', h⟩ := bind_eq_ok.mp h
        cases h
        rw [fieldsShape, fieldsShape, ih _ List.mem_cons_self _ _ element' helement']

end MemsetShape

theorem memset_shape (block : MBlock w) {block' : MBlock w} {offset size : BitVec w}
    {preds : List (BitVec w → Bool)} (h : block.memset ⟨8, 0⟩ offset size preds = .ok block') :
    block'.shape = block.shape := by
  induction block using MBlock.ind generalizing block' offset size preds with
  | marray length elements ih =>
      rw [memset] at h
      obtain ⟨-, h⟩ := bind_bugOn h
      dsimp only at h
      split_ifs at h with hone
      · obtain ⟨elements', helements', h⟩ := bind_eq_ok.mp h
        cases h
        exact congrArg (marray length) (ih helements')
      · obtain ⟨-, h⟩ := bind_bugOn h
        obtain ⟨-, h⟩ := bind_bugOn h
        obtain ⟨elements', helements', h⟩ := bind_eq_ok.mp h
        cases h
        exact congrArg (marray length) (ih helements')
  | mstruct blockSize fields ih =>
      have ihf : ∀ f ∈ fields, ∀ offset size element', f.2.2.memset ⟨8, 0⟩ offset size preds = .ok element' →
          element'.shape = f.2.2.shape := fun f hf _ _ _ he => ih f hf he
      rw [memset] at h
      obtain ⟨-, h⟩ := bind_bugOn h
      split_ifs at h with hwhole
      · obtain ⟨fields', hfields', h⟩ := bind_eq_ok.mp h
        cases h
        exact congrArg (mstruct blockSize) (fieldsMemset_shape ihf hfields')
      · obtain ⟨fields', hfields', h⟩ := bind_eq_ok.mp h
        cases h
        exact congrArg (mstruct blockSize) (fieldMemset_shape ihf hfields')
  | mcell cell =>
      obtain ⟨cell', hcell', h⟩ := bind_eq_ok.mp h
      cases h
      obtain ⟨-, ⟨-, rfl⟩ | ⟨-, rfl⟩⟩ := Cell.memset_eq_ok hcell'
      · rfl
      · rfl

end MBlock
end Core
end Serval
