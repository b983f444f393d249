import Serval.Riscv.Platform

/-!
# Pmp — what physical memory protection lets S- and U-mode do

The decision of the privileged manual for a machine with sixteen entries: the lowest-numbered entry
that matches some byte of an access decides, it has to match all of them, and an access that no entry
matches is denied.  The monitors write the entries through `pmpaddr_write` and `pmpcfg_write`; the
rules below say what that makes of the table of entries.
-/

namespace Serval
namespace Riscv

/-! ## Entries -/

/-- The `A` field of a configuration byte. -/
inductive PmpMode
  | off | tor | na4 | napot
  deriving DecidableEq, Repr

def pmpMode (cfg : BitVec 8) : PmpMode :=
  match cfg.extractLsb' 3 2 with
  | 0 => .off
  | 1 => .tor
  | 2 => .na4
  | 3 => .napot

@[ext] structure PmpEntry where
  cfg : BitVec 8
  addr : Word
  deriving DecidableEq, Repr

namespace PmpEntry

def mode (e : PmpEntry) : PmpMode :=
  pmpMode e.cfg

@[simp] theorem mode_mk (cfg : BitVec 8) (addr : Word) : (PmpEntry.mk cfg addr).mode = pmpMode cfg :=
  rfl

/-- The bits R, W and X. -/
def perm (e : PmpEntry) : BitVec 8 :=
  e.cfg &&& 7

@[simp] theorem perm_mk (cfg : BitVec 8) (addr : Word) : (PmpEntry.mk cfg addr).perm = cfg &&& 7 :=
  rfl

/-- The address a register holds, which is kept without its two low bits. -/
def bound (e : PmpEntry) : Word :=
  e.addr <<< 2

/-- Whether an entry matches the byte at `a`; a top-of-range entry starts at the address of the entry
before it. -/
def matchesByte (e : PmpEntry) (prev a : Word) : Bool :=
  match e.mode with
  | .off => false
  | .tor => prev ≤ a && a < e.bound
  | .na4 => a >>> 2 = e.addr
  | .napot =>
      let ones := e.addr ^^^ (e.addr + 1)
      a >>> 2 ||| ones = e.addr ||| ones

end PmpEntry

/-- The decision for an access to the bytes `bytes`, as the bits it may use. -/
def pmpDecision : Word → List PmpEntry → List Word → BitVec 8
  | _, [], _ => 0
  | prev, e :: es, bytes =>
      if bytes.any (e.matchesByte prev) then
        if bytes.all (e.matchesByte prev) then e.perm else 0
      else
        pmpDecision e.bound es bytes

/-- The byte `k` of a register. -/
def byteOf (x : Word) (k : Nat) : BitVec 8 :=
  x.extractLsb' (8 * k) 8

def pmpEntry (f : CsrFile) (i : Fin 16) : PmpEntry :=
  ⟨byteOf (f (pmpcfgReg i)) (i % 8), f (.pmpaddr i)⟩

def pmpEntries (f : CsrFile) : List PmpEntry :=
  (List.finRange 16).map (pmpEntry f)

/-- What S- and U-mode may do with the byte at `a`. -/
def pmpPerm (f : CsrFile) (a : Word) : BitVec 8 :=
  pmpDecision 0 (pmpEntries f) [a]

/-! ## Pairs of entries -/

theorem pmpDecision_byte (prev : Word) (e : PmpEntry) (es : List PmpEntry) (a : Word) :
    pmpDecision prev (e :: es) [a] =
      if e.matchesByte prev a then e.perm else pmpDecision e.bound es [a] := by
  cases h : e.matchesByte prev a <;> simp [pmpDecision, h]

/-- The range of a pair of entries, the first of which only holds an address. -/
def inPair (lo hi : PmpEntry) (a : Word) : Prop :=
  hi.mode = .tor ∧ lo.bound ≤ a ∧ a < hi.bound

instance (lo hi : PmpEntry) (a : Word) : Decidable (inPair lo hi a) :=
  inferInstanceAs (Decidable (_ ∧ _))

theorem pmpDecision_pair {lo hi : PmpEntry} (hlo : lo.mode = .off)
    (hhi : hi.mode = .off ∨ hi.mode = .tor) (prev : Word) (es : List PmpEntry) (a : Word) :
    pmpDecision prev (lo :: hi :: es) [a] =
      if inPair lo hi a then hi.perm else pmpDecision hi.bound es [a] := by
  have hskip : lo.matchesByte prev a = false := by
    rw [PmpEntry.matchesByte, hlo]
  rw [pmpDecision_byte, hskip, if_neg Bool.false_ne_true, pmpDecision_byte]
  rcases hhi with hhi | hhi
  · simp [PmpEntry.matchesByte, inPair, hhi]
  · simp [PmpEntry.matchesByte, inPair, hhi]

/-- The decision for a table of eight pairs. -/
theorem pmpPerm_pairs {f : CsrFile} (heven : ∀ i : Fin 16, i.val % 2 = 0 → (pmpEntry f i).mode = .off)
    (hodd : ∀ i : Fin 16, i.val % 2 = 1 → (pmpEntry f i).mode = .off ∨ (pmpEntry f i).mode = .tor)
    (a : Word) :
    pmpPerm f a =
      if inPair (pmpEntry f 0) (pmpEntry f 1) a then (pmpEntry f 1).perm
      else if inPair (pmpEntry f 2) (pmpEntry f 3) a then (pmpEntry f 3).perm
      else if inPair (pmpEntry f 4) (pmpEntry f 5) a then (pmpEntry f 5).perm
      else if inPair (pmpEntry f 6) (pmpEntry f 7) a then (pmpEntry f 7).perm
      else if inPair (pmpEntry f 8) (pmpEntry f 9) a then (pmpEntry f 9).perm
      else if inPair (pmpEntry f 10) (pmpEntry f 11) a then (pmpEntry f 11).perm
      else if inPair (pmpEntry f 12) (pmpEntry f 13) a then (pmpEntry f 13).perm
      else if inPair (pmpEntry f 14) (pmpEntry f 15) a then (pmpEntry f 15).perm
      else 0 := by
  have hlist : pmpEntries f = [pmpEntry f 0, pmpEntry f 1, pmpEntry f 2, pmpEntry f 3, pmpEntry f 4,
      pmpEntry f 5, pmpEntry f 6, pmpEntry f 7, pmpEntry f 8, pmpEntry f 9, pmpEntry f 10,
      pmpEntry f 11, pmpEntry f 12, pmpEntry f 13, pmpEntry f 14, pmpEntry f 15] := rfl
  rw [pmpPerm, hlist]
  rw [pmpDecision_pair (heven 0 rfl) (hodd 1 rfl), pmpDecision_pair (heven 2 rfl) (hodd 3 rfl),
    pmpDecision_pair (heven 4 rfl) (hodd 5 rfl), pmpDecision_pair (heven 6 rfl) (hodd 7 rfl),
    pmpDecision_pair (heven 8 rfl) (hodd 9 rfl), pmpDecision_pair (heven 10 rfl) (hodd 11 rfl),
    pmpDecision_pair (heven 12 rfl) (hodd 13 rfl), pmpDecision_pair (heven 14 rfl) (hodd 15 rfl)]
  rfl

/-- A pair that is switched off or whose registers are equal has no bytes. -/
theorem not_inPair_of_off {lo hi : PmpEntry} (h : hi.mode = .off) (a : Word) : ¬ inPair lo hi a := by
  intro hin
  rw [hin.1] at h
  cases h

theorem not_inPair_of_eq {lo hi : PmpEntry} (h : lo.addr = hi.addr) (a : Word) :
    ¬ inPair lo hi a := by
  rintro ⟨-, hle, hlt⟩
  rw [PmpEntry.bound, h] at hle
  exact absurd hlt (BitVec.not_lt.mpr hle)

/-! ## Bytes of a register -/

theorem getLsbD_byteOf (x : Word) (k i : Nat) :
    (byteOf x k).getLsbD i = (decide (i < 8) && x.getLsbD (8 * k + i)) := by
  rw [byteOf, BitVec.getLsbD_extractLsb']

theorem eq_of_byteOf_eq {x y : Word} (h : ∀ k < 8, byteOf x k = byteOf y k) : x = y := by
  apply BitVec.eq_of_getLsbD_eq
  intro i hi
  have hbyte := congrArg (BitVec.getLsbD · (i % 8)) (h (i / 8) (by omega))
  simp only [getLsbD_byteOf, Nat.mod_lt i (show 0 < 8 by decide), decide_true, Bool.true_and,
    Nat.div_add_mod] at hbyte
  exact hbyte

theorem getLsbD_ff (i : Nat) : (0xff : Word).getLsbD i = decide (i < 8) := by
  have hff : (0xff : Word).toNat = 2 ^ 8 - 1 := rfl
  rw [← BitVec.testBit_toNat, hff, Nat.testBit_two_pow_sub_one]

/-- Clearing a byte and setting it. -/
theorem byteOf_replace {v : Word} (hv : v.toNat < 2 ^ 8) (x : Word) {k j : Nat} (hk : k < 8)
    (hj : j < 8) :
    byteOf ((x &&& ~~~((0xff : Word) <<< (k * 8))) ||| v <<< (k * 8)) j =
      if j = k then v.setWidth 8 else byteOf x j := by
  have hhigh : ∀ i, 8 ≤ i → v.getLsbD i = false := by
    intro i hi
    rw [← BitVec.testBit_toNat]
    exact Nat.testBit_lt_two_pow (Nat.lt_of_lt_of_le hv (Nat.pow_le_pow_right (by decide) hi))
  apply BitVec.eq_of_getLsbD_eq
  intro i hi
  have hlt : 8 * j + i < 64 := by omega
  rw [getLsbD_byteOf, BitVec.getLsbD_or, BitVec.getLsbD_and, BitVec.getLsbD_not,
    BitVec.getLsbD_shiftLeft, BitVec.getLsbD_shiftLeft, getLsbD_ff]
  simp only [hi, hlt, decide_true, Bool.true_and]
  -- The bit lies in the byte `k`, below it or above it.
  rcases Nat.lt_trichotomy j k with hjk | rfl | hjk
  · have hbelow : 8 * j + i < k * 8 := by omega
    rw [if_neg (by omega), getLsbD_byteOf]
    simp [hi, hbelow]
  · have hin : 8 * j + i - j * 8 = i := by omega
    have hge : ¬ 8 * j + i < j * 8 := by omega
    rw [if_pos rfl, BitVec.getLsbD_setWidth]
    simp [hi, hin, hge]
  · have habove : 8 ≤ 8 * j + i - k * 8 := by omega
    have hge : ¬ 8 * j + i < k * 8 := by omega
    rw [if_neg (by omega), getLsbD_byteOf, hhigh _ habove]
    simp [hi, hge, Nat.not_lt.mpr habove]

/-! ## Writing entries -/

theorem pmpcfgReg_ne_pmpaddr (nr : Nat) (i : Fin 16) : Csr.pmpaddr i ≠ pmpcfgReg nr := by
  unfold pmpcfgReg
  split <;> simp

theorem pmpEntry_pmpcfgWrite (f : CsrFile) {nr : Nat} (hnr : nr < 16) {value : Word}
    (hvalue : value.toNat < 2 ^ 8) (i : Fin 16) :
    pmpEntry (pmpcfgWrite f nr value) i =
      if i.val = nr then ⟨value.setWidth 8, (pmpEntry f i).addr⟩ else pmpEntry f i := by
  have haddr : (pmpEntry (pmpcfgWrite f nr value) i).addr = (pmpEntry f i).addr := by
    rw [pmpEntry, pmpcfgWrite_eq]
    exact Function.update_of_ne (pmpcfgReg_ne_pmpaddr nr i) _ _
  have hcfg : (pmpEntry (pmpcfgWrite f nr value) i).cfg =
      if i.val = nr then value.setWidth 8 else (pmpEntry f i).cfg := by
    simp only [pmpEntry, pmpcfgWrite_eq]
    by_cases hreg : pmpcfgReg i = pmpcfgReg nr
    · rw [hreg, Function.update_self,
        byteOf_replace hvalue _ (Nat.mod_lt _ (by decide)) (Nat.mod_lt _ (by decide))]
      -- Two entries of one register with the same byte are the same.
      have hsame : i.val % 8 = nr % 8 ↔ i.val = nr := by
        have hhalf : i.val < 8 ↔ nr < 8 := by
          by_cases hi : i.val < 8 <;> by_cases hlow : nr < 8 <;>
            simp [pmpcfgReg, hi, hlow] at hreg ⊢
        omega
      simp only [hsame]
    · have hne : i.val ≠ nr := fun heq => hreg (congrArg pmpcfgReg heq)
      rw [Function.update_of_ne hreg, if_neg hne]
  by_cases hi : i.val = nr
  · rw [if_pos hi]
    rw [if_pos hi] at hcfg
    exact PmpEntry.ext hcfg haddr
  · rw [if_neg hi]
    rw [if_neg hi] at hcfg
    exact PmpEntry.ext hcfg haddr

theorem pmpEntry_pmpaddrWrite (f : CsrFile) (nr : Fin 16) (addr : Word) (i : Fin 16) :
    pmpEntry (pmpaddrWrite f nr addr) i =
      if i = nr then ⟨(pmpEntry f i).cfg, addr >>> 2⟩ else pmpEntry f i := by
  have hcfg : pmpaddrWrite f nr addr (pmpcfgReg i) = f (pmpcfgReg i) := by
    rw [pmpaddrWrite_eq]
    exact Function.update_of_ne (pmpcfgReg_ne_pmpaddr i nr).symm _ _
  by_cases hi : i = nr
  · subst hi
    rw [if_pos rfl, pmpEntry, hcfg, pmpaddrWrite_eq, Function.update_self]
    rfl
  · have haddr : pmpaddrWrite f nr addr (.pmpaddr i) = f (.pmpaddr i) := by
      rw [pmpaddrWrite_eq]
      exact Function.update_of_ne (fun heq => hi (Csr.pmpaddr.inj heq)) _ _
    rw [if_neg hi, pmpEntry, hcfg, haddr]
    rfl

theorem byteOf_pmpcfg0 (f : CsrFile) {k : Nat} (hk : k < 8) :
    byteOf (f .pmpcfg0) k = (pmpEntry f ⟨k, by omega⟩).cfg := by
  have hreg : pmpcfgReg k = .pmpcfg0 := if_pos hk
  simp only [pmpEntry, hreg, Nat.mod_eq_of_lt hk]

theorem byteOf_pmpcfg2 (f : CsrFile) {k : Nat} (hk : k < 8) :
    byteOf (f .pmpcfg2) k = (pmpEntry f ⟨8 + k, by omega⟩).cfg := by
  have hreg : pmpcfgReg (8 + k) = .pmpcfg2 := if_neg (by omega)
  have hmod : (8 + k) % 8 = k := by omega
  simp only [pmpEntry, hreg, hmod]

/-- The entries depend on their own registers only. -/
theorem pmpEntry_congr {f g : CsrFile} (h0 : f .pmpcfg0 = g .pmpcfg0) (h2 : f .pmpcfg2 = g .pmpcfg2)
    (haddr : ∀ i, f (.pmpaddr i) = g (.pmpaddr i)) (i : Fin 16) : pmpEntry f i = pmpEntry g i := by
  have hcfg : f (pmpcfgReg i) = g (pmpcfgReg i) := by
    unfold pmpcfgReg
    split
    · exact h0
    · exact h2
  rw [pmpEntry, pmpEntry, hcfg, haddr]

/-- The registers of the entries. -/
def Csr.isPmp : Csr → Bool
  | .pmpcfg0 | .pmpcfg2 | .pmpaddr _ => true
  | _ => false

theorem pmpEntry_csrWrite (f : CsrFile) {c : Csr} (hc : c.home.isPmp = false) (v : Word) (i : Fin 16) :
    pmpEntry (csrWrite f c v) i = pmpEntry f i := by
  have hne : ∀ d : Csr, d.isPmp = true → csrWrite f c v d = f d := by
    intro d hd
    apply csrWrite_of_ne
    rintro rfl
    rw [hd] at hc
    cases hc
  exact pmpEntry_congr (hne _ rfl) (hne _ rfl) (fun j => hne _ rfl) i

/-- The address of an aligned bound. -/
theorem bound_of_aligned {x : Word} (h : x.toNat % 4 = 0) (cfg : BitVec 8) :
    (PmpEntry.mk cfg (x >>> 2)).bound = x := by
  apply BitVec.eq_of_toNat_eq
  have hlt := x.isLt
  rw [PmpEntry.bound, BitVec.toNat_shiftLeft, BitVec.toNat_ushiftRight, Nat.shiftRight_eq_div_pow,
    Nat.shiftLeft_eq]
  omega

/-- The range of a pair that was written with aligned addresses. -/
theorem inPair_iff {lo hi : Word} (hlo : lo.toNat % 4 = 0) (hhi : hi.toNat % 4 = 0)
    {cfg : BitVec 8} (hcfg : pmpMode cfg = .tor) (cfg' : BitVec 8) (a : Word) :
    inPair ⟨cfg', lo >>> 2⟩ ⟨cfg, hi >>> 2⟩ a ↔ lo ≤ a ∧ a < hi := by
  rw [inPair, bound_of_aligned hlo, bound_of_aligned hhi]
  exact and_iff_right hcfg

end Riscv
end Serval
