import Serval.Riscv.Interp
import Serval.Riscv.Pmp

/-!
# PmpPrivs — the protection check of `serval/riscv/pmp.rkt`

`pmp-privs` walks through the sixteen entries of a processor and returns the bits R, W and X that S- and U-mode have
for an access.  It compares the ends of the access with those of each top-of-range entry.  This module compares it
with the decision of the manual, which goes by the bytes of the access.  They differ when no entry is in use at all,
and when an entry with an empty range lies in the middle of an access.
-/

namespace Serval
namespace Riscv

open Interp

/-! ## The code -/

/-- The loop of `pmp-privs`; `none` is a failed assertion. -/
def pmpPrivsFrom (ptr size : Word) : Word → Bool → List (BitVec 8) → List Word → Option (BitVec 8)
  | prevAddr, any, cfg :: cfgs, addr :: addrs =>
      let cfgA := cfg &&& 24
      let cfgPerm := cfg &&& 7
      let thisAddr := addr <<< 2
      if cfgA = 0 then
        pmpPrivsFrom ptr size thisAddr any cfgs addrs
      else if cfgA = 8 then
        if prevAddr < ptr + size ∧ ptr < thisAddr then
          some (if prevAddr ≤ ptr ∧ ptr + size ≤ thisAddr then cfgPerm else 0)
        else
          pmpPrivsFrom ptr size thisAddr true cfgs addrs
      else
        none
  | _, any, [], [] => some (if any then 0 else 7)
  | _, _, _, _ => none

def pmpConfigs (cpu : Cpu 64) : List (BitVec 8) :=
  (List.range 8).map (byteOf (cpu.csrs .pmpcfg0)) ++ (List.range 8).map (byteOf (cpu.csrs .pmpcfg2))

def pmpAddrs (cpu : Cpu 64) : List Word :=
  (List.finRange 16).map fun i => cpu.csrs (.pmpaddr i)

/-- `pmp-privs`. -/
def pmpPrivs (cpu : Cpu 64) (ptr size : Word) : Option (BitVec 8) :=
  pmpPrivsFrom ptr size 0 false (pmpConfigs cpu) (pmpAddrs cpu)

/-! ## The access -/

/-- The entries of a processor. -/
def cpuEntries (cpu : Cpu 64) : List PmpEntry :=
  List.zipWith PmpEntry.mk (pmpConfigs cpu) (pmpAddrs cpu)

/-- The bytes of an access. -/
def accessBytes (ptr : Word) (n : Nat) : List Word :=
  (List.range n).map fun k => ptr + BitVec.ofNat 64 k

/-- A naturally aligned access that does not wrap. -/
structure Aligned (ptr : Word) (n : Nat) : Prop where
  size : n = 1 ∨ n = 2 ∨ n = 4 ∨ n = 8
  aligned : ptr.toNat % n = 0
  fits : ptr.toNat + n ≤ 2 ^ 64

/-- An entry that is off or top-of-range and whose address register is one of the manual's 54 bits. -/
structure PmpEntry.Plain (e : PmpEntry) : Prop where
  mode : e.mode = .off ∨ e.mode = .tor
  addr : e.addr.toNat < 2 ^ 54

section Access

variable {ptr prev : Word} {n : Nat} {e : PmpEntry}

theorem PmpEntry.Plain.bound (h : e.Plain) : e.bound.toNat = 4 * e.addr.toNat := by
  have := h.addr
  rw [PmpEntry.bound, BitVec.toNat_shiftLeft, Nat.shiftLeft_eq]
  omega

theorem Aligned.pos (h : Aligned ptr n) : 0 < n ∧ n ≤ 8 := by
  rcases h.size with rfl | rfl | rfl | rfl <;> decide

theorem toNat_byte (h : Aligned ptr n) {k : Nat} (hk : k < n) :
    (ptr + BitVec.ofNat 64 k).toNat = ptr.toNat + k := by
  have := h.fits
  have := h.pos
  rw [BitVec.toNat_add, BitVec.toNat_ofNat]
  omega

theorem matchesByte_tor (he : e.mode = .tor) (a : Word) :
    e.matchesByte prev a = true ↔ prev.toNat ≤ a.toNat ∧ a.toNat < e.bound.toNat := by
  simp [PmpEntry.matchesByte, he, BitVec.le_def, BitVec.lt_def]

/-- A top-of-range entry matches a byte exactly if its range is not empty and the two ranges meet. -/
theorem any_matchesByte_iff (h : Aligned ptr n) (he : e.mode = .tor) :
    (accessBytes ptr n).any (e.matchesByte prev) = true ↔
      prev.toNat < ptr.toNat + n ∧ ptr.toNat < e.bound.toNat ∧ prev.toNat < e.bound.toNat := by
  have hpos := h.pos
  simp only [accessBytes, List.any_map, List.any_eq_true, List.mem_range, Function.comp_apply, matchesByte_tor he]
  constructor
  · rintro ⟨k, hk, hlow, hhigh⟩
    rw [toNat_byte h hk] at hlow hhigh
    omega
  · rintro ⟨hlow, hhigh, hrange⟩
    -- the first byte of the access or of the entry, whichever is later
    have hk : max ptr.toNat prev.toNat - ptr.toNat < n := by omega
    refine ⟨_, hk, ?_⟩
    rw [toNat_byte h hk]
    omega

theorem all_matchesByte_iff (h : Aligned ptr n) (he : e.mode = .tor) :
    (accessBytes ptr n).all (e.matchesByte prev) = true ↔
      prev.toNat ≤ ptr.toNat ∧ ptr.toNat + n ≤ e.bound.toNat := by
  have hpos := h.pos
  simp only [accessBytes, List.all_map, List.all_eq_true, List.mem_range, Function.comp_apply, matchesByte_tor he]
  constructor
  · intro hall
    have hfirst := hall 0 hpos.1
    have hlast := hall (n - 1) (by omega)
    rw [toNat_byte h (by omega)] at hfirst hlast
    omega
  · rintro ⟨hlow, hhigh⟩ k hk
    rw [toNat_byte h hk]
    omega

/-- The code's test for an overlap, which does not ask whether the range of the entry is empty. -/
theorem overlaps_iff (h : Aligned ptr n) (he : e.Plain) :
    (prev < ptr + BitVec.ofNat 64 n ∧ ptr < e.bound) ↔
      prev.toNat < ptr.toNat + n ∧ ptr.toNat < e.bound.toNat := by
  have hfits := h.fits
  have hpos := h.pos
  have hbound := he.bound
  have haddr := he.addr
  rw [BitVec.lt_def, BitVec.lt_def, BitVec.toNat_add, BitVec.toNat_ofNat]
  omega

theorem contains_iff (h : Aligned ptr n) (he : e.Plain) (hover : ptr.toNat < e.bound.toNat) :
    (prev ≤ ptr ∧ ptr + BitVec.ofNat 64 n ≤ e.bound) ↔
      prev.toNat ≤ ptr.toNat ∧ ptr.toNat + n ≤ e.bound.toNat := by
  have hfits := h.fits
  have hpos := h.pos
  have hbound := he.bound
  have haddr := he.addr
  rw [BitVec.le_def, BitVec.le_def, BitVec.toNat_add, BitVec.toNat_ofNat]
  omega

/-! ## Empty ranges -/

/-- A top-of-range entry with an empty range in the middle of an access of eight bytes. -/
def InMiddle (ptr : Word) (n : Nat) (prev : Word) (e : PmpEntry) : Prop :=
  e.mode = .tor ∧ n = 8 ∧ prev = ptr + 4 ∧ e.bound = ptr + 4

theorem toNat_add_four (h : ptr.toNat + 4 < 2 ^ 64) : (ptr + 4).toNat = ptr.toNat + 4 := by
  rw [BitVec.toNat_add]
  exact Nat.mod_eq_of_lt h

/-- No smaller access has a multiple of four inside. -/
theorem inMiddle_iff (h : Aligned ptr n) (he : e.Plain) (htor : e.mode = .tor) (hprev : prev.toNat % 4 = 0) :
    InMiddle ptr n prev e ↔
      (prev.toNat < ptr.toNat + n ∧ ptr.toNat < e.bound.toNat) ∧ e.bound.toNat ≤ prev.toNat := by
  have hfits := h.fits
  have haligned := h.aligned
  have hbound := he.bound
  constructor
  · rintro ⟨-, rfl, rfl, hb⟩
    have hfour := toNat_add_four (show ptr.toNat + 4 < 2 ^ 64 by omega)
    rw [hb, hfour]
    omega
  · rintro ⟨⟨hlow, hhigh⟩, hempty⟩
    have hn : n = 8 := by
      rcases h.size with rfl | rfl | rfl | rfl
      · omega
      · omega
      · omega
      · rfl
    subst hn
    have hfour := toNat_add_four (show ptr.toNat + 4 < 2 ^ 64 by omega)
    refine ⟨htor, rfl, BitVec.eq_of_toNat_eq ?_, BitVec.eq_of_toNat_eq ?_⟩
    · omega
    · omega

/-- Wherever an empty range is in the middle of the access, an earlier entry matches a byte of the access, or the
entries after it grant nothing. -/
def MiddleHarmless (ptr : Word) (n : Nat) : Word → List PmpEntry → Prop
  | _, [] => True
  | prev, e :: es =>
      (accessBytes ptr n).any (e.matchesByte prev) = true ∨
        (InMiddle ptr n prev e → pmpDecision e.bound es (accessBytes ptr n) = 0) ∧
          (¬ InMiddle ptr n prev e → MiddleHarmless ptr n e.bound es)

end Access

/-! ## The decision -/

theorem cfg_off_iff (cfg : BitVec 8) : cfg &&& 24 = 0 ↔ pmpMode cfg = .off := by
  revert cfg
  decide

theorem cfg_tor_iff (cfg : BitVec 8) : cfg &&& 24 = 8 ↔ pmpMode cfg = .tor := by
  revert cfg
  decide

section Steps

variable {ptr prev : Word} {n : Nat} {e : PmpEntry} {es : List PmpEntry} {any : Bool}

/-- The code skips an entry that is off. -/
theorem pmpPrivsFrom_off (he : e.mode = .off) :
    pmpPrivsFrom ptr (BitVec.ofNat 64 n) prev any ((e :: es).map PmpEntry.cfg) ((e :: es).map PmpEntry.addr) =
      pmpPrivsFrom ptr (BitVec.ofNat 64 n) e.bound any (es.map PmpEntry.cfg) (es.map PmpEntry.addr) := by
  have hoff : e.cfg &&& 24 = 0 := (cfg_off_iff e.cfg).mpr he
  simp only [List.map_cons, pmpPrivsFrom, hoff, if_true]
  rfl

/-- A top-of-range entry decides if the ranges overlap. -/
theorem pmpPrivsFrom_tor (h : Aligned ptr n) (he : e.Plain) (htor : e.mode = .tor) :
    pmpPrivsFrom ptr (BitVec.ofNat 64 n) prev any ((e :: es).map PmpEntry.cfg) ((e :: es).map PmpEntry.addr) =
      if prev.toNat < ptr.toNat + n ∧ ptr.toNat < e.bound.toNat then
        some (if prev.toNat ≤ ptr.toNat ∧ ptr.toNat + n ≤ e.bound.toNat then e.perm else 0)
      else
        pmpPrivsFrom ptr (BitVec.ofNat 64 n) e.bound true (es.map PmpEntry.cfg) (es.map PmpEntry.addr) := by
  have hcfg : e.cfg &&& 24 = 8 := (cfg_tor_iff e.cfg).mpr htor
  have hbound : e.addr <<< 2 = e.bound := rfl
  simp only [List.map_cons, pmpPrivsFrom, hcfg, hbound, if_true, overlaps_iff h he]
  rw [if_neg (by decide)]
  refine ite_congr rfl (fun hover => ?_) fun _ => rfl
  rw [if_congr (contains_iff h he hover.2) rfl rfl]
  rfl

/-- An entry that matches no byte leaves the decision to the next. -/
theorem pmpDecision_skip (hany : (accessBytes ptr n).any (e.matchesByte prev) ≠ true) :
    pmpDecision prev (e :: es) (accessBytes ptr n) = pmpDecision e.bound es (accessBytes ptr n) := by
  rw [pmpDecision, if_neg hany]

theorem any_off (he : e.mode = .off) : (accessBytes ptr n).any (e.matchesByte prev) ≠ true := by
  simp [PmpEntry.matchesByte, he]

end Steps

theorem pmpPrivsFrom_iff {ptr : Word} {n : Nat} (h : Aligned ptr n) (es : List PmpEntry) (hes : ∀ e ∈ es, e.Plain)
    {prev : Word} (hprev : prev.toNat % 4 = 0) (any : Bool) :
    pmpPrivsFrom ptr (BitVec.ofNat 64 n) prev any (es.map PmpEntry.cfg) (es.map PmpEntry.addr) =
        some (pmpDecision prev es (accessBytes ptr n)) ↔
      (any = true ∨ ∃ e ∈ es, e.mode = .tor) ∧ MiddleHarmless ptr n prev es := by
  induction es generalizing prev any with
  | nil => cases any <;> simp [pmpPrivsFrom, pmpDecision, MiddleHarmless]
  | cons e es ih =>
      have he := hes e List.mem_cons_self
      have hnext : e.bound.toNat % 4 = 0 := by
        rw [he.bound]
        omega
      have hrest := fun any => ih (fun d hd => hes d (List.mem_cons_of_mem _ hd)) hnext any
      rcases he.mode with hoff | htor
      · -- the entry is off: both go on
        have hany : (accessBytes ptr n).any (e.matchesByte prev) ≠ true := any_off hoff
        have hmiddle : ¬ InMiddle ptr n prev e := fun hin => absurd (hoff.symm.trans hin.1) (by decide)
        rw [pmpPrivsFrom_off hoff, pmpDecision_skip hany, hrest any]
        simp [MiddleHarmless, hany, hmiddle, hoff]
      · have hsome : any = true ∨ ∃ d ∈ e :: es, d.mode = .tor := .inr ⟨e, List.mem_cons_self, htor⟩
        rw [pmpPrivsFrom_tor h he htor, and_iff_right hsome, MiddleHarmless]
        by_cases hany : (accessBytes ptr n).any (e.matchesByte prev) = true
        · -- the entry matches a byte: both decide here
          have hover := (any_matchesByte_iff h htor).mp hany
          refine iff_of_true ?_ (.inl hany)
          rw [if_pos ⟨hover.1, hover.2.1⟩, pmpDecision, if_pos hany]
          exact congrArg some (if_congr (all_matchesByte_iff h htor).symm rfl rfl)
        · rw [pmpDecision_skip hany]
          have hin := inMiddle_iff h he htor hprev
          by_cases hover : prev.toNat < ptr.toNat + n ∧ ptr.toNat < e.bound.toNat
          · -- the ranges of the code overlap although no byte matches: the range is empty
            have hempty : e.bound.toNat ≤ prev.toNat := by
              by_contra hlt
              exact hany ((any_matchesByte_iff h htor).mpr ⟨hover.1, hover.2, by omega⟩)
            rw [if_pos hover, if_neg (by omega)]
            have hmiddle : InMiddle ptr n prev e := hin.mpr ⟨hover, hempty⟩
            simp only [hany, hmiddle, Option.some_inj]
            constructor
            · intro hzero
              exact .inr ⟨fun _ => hzero.symm, fun hnot => absurd trivial hnot⟩
            · rintro (hfalse | ⟨hzero, -⟩)
              · cases hfalse
              · exact (hzero trivial).symm
          · have hmiddle : ¬ InMiddle ptr n prev e := fun hmid => hover (hin.mp hmid).1
            rw [if_neg hover, hrest true]
            simp [hany, hmiddle]

/-! ## Processors -/

theorem cpuEntries_cfg (cpu : Cpu 64) : (cpuEntries cpu).map PmpEntry.cfg = pmpConfigs cpu := rfl

theorem cpuEntries_addr (cpu : Cpu 64) : (cpuEntries cpu).map PmpEntry.addr = pmpAddrs cpu := rfl

/-- `pmp-privs` returns the decision of the manual exactly if some entry is in use, and no empty range in the middle
of the access comes before the entry that grants it. -/
theorem pmpPrivs_iff (cpu : Cpu 64) (ptr : Word) (n : Nat) (h : Aligned ptr n)
    (hplain : ∀ e ∈ cpuEntries cpu, e.Plain) :
    pmpPrivs cpu ptr (BitVec.ofNat 64 n) = some (pmpDecision 0 (cpuEntries cpu) (accessBytes ptr n)) ↔
      (∃ e ∈ cpuEntries cpu, e.mode = .tor) ∧ MiddleHarmless ptr n 0 (cpuEntries cpu) := by
  rw [pmpPrivs, ← cpuEntries_cfg, ← cpuEntries_addr, pmpPrivsFrom_iff h _ hplain rfl]
  simp

/-- A processor with the given `pmpcfg0` and address registers; the upper eight entries are off. -/
def pmpCpu (cfg0 : Word) (addrs : Fin 16 → Word) : Cpu 64 where
  pc := 0
  gprs := fun _ => 0
  csrs := fun r =>
    match r with
    | .pmpcfg0 => cfg0
    | .pmpaddr i => addrs i
    | _ => 0
  mregions := []

theorem plain_of_all {es : List PmpEntry}
    (h : ∀ e ∈ es, (e.mode = .off ∨ e.mode = .tor) ∧ e.addr.toNat < 2 ^ 54) : ∀ e ∈ es, e.Plain :=
  fun e he => ⟨(h e he).1, (h e he).2⟩

/-- One entry for the first page: its second word may be read, written and executed. -/
theorem pmpPrivs_iff_page :
    pmpPrivs (pmpCpu 0x0f fun i => if i = 0 then 0x400 else 0) 8 (BitVec.ofNat 64 8) = some 7 :=
  (pmpPrivs_iff (pmpCpu 0x0f fun i => if i = 0 then 0x400 else 0) 8 8 ⟨by decide, by decide, by decide⟩
    (plain_of_all (by decide))).mpr ⟨⟨⟨0x0f, 0x400⟩, by decide, rfl⟩, .inl (by decide)⟩

/-- Where the code and the manual differ.  With every entry off, the code grants everything and the manual nothing.
With an empty range at address 4 before an entry for the first page, the code denies the first word and the manual
grants it. -/
theorem pmpPrivs_differs :
    (Aligned 0x1000 8 ∧ (∀ e ∈ cpuEntries (pmpCpu 0 fun _ => 0), e.Plain) ∧
      pmpPrivs (pmpCpu 0 fun _ => 0) 0x1000 8 = some 7 ∧
      pmpDecision 0 (cpuEntries (pmpCpu 0 fun _ => 0)) (accessBytes 0x1000 8) = 0) ∧
    (Aligned 0 8 ∧
      (∀ e ∈ cpuEntries (pmpCpu 0x0f000f00 fun i => if i ≤ 1 then 1 else if i = 3 then 0x400 else 0), e.Plain) ∧
      pmpPrivs (pmpCpu 0x0f000f00 fun i => if i ≤ 1 then 1 else if i = 3 then 0x400 else 0) 0 8 = some 0 ∧
      pmpDecision 0 (cpuEntries (pmpCpu 0x0f000f00 fun i => if i ≤ 1 then 1 else if i = 3 then 0x400 else 0))
        (accessBytes 0 8) = 7) := by
  refine ⟨⟨⟨?_, ?_, ?_⟩, plain_of_all ?_, ?_, ?_⟩, ⟨?_, ?_, ?_⟩, plain_of_all ?_, ?_, ?_⟩ <;> decide

end Riscv
end Serval
