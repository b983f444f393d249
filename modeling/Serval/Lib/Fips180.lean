import Mathlib.Algebra.Group.Int.Defs
import Mathlib.Algebra.GroupWithZero.Nat
import Mathlib.Data.Nat.NthRoot.Defs
import Mathlib.Tactic.Common

/-!
# Fips180 — the hash function SHA-256 of FIPS 180-4

A message is a string of bits, of any length.  The names are those of the standard: `pad` is its section 5.1.1,
`block` the words `M_j` of section 5.2.1, `schedule` and `compress` the steps 1 to 4 of section 6.2.2.  The constants
are computed from the roots of primes that the standard says they come from.
-/

namespace Serval
namespace Fips180

abbrev Word := BitVec 32

abbrev Bits := List Bool

/-! ## Bit strings -/

/-- The bits of a word, the most significant one first. -/
def bits {w : Nat} (x : BitVec w) : Bits :=
  (List.range w).map x.getMsbD

/-- The word that 32 bits are. -/
def word (s : Bits) : Word :=
  (BitVec.ofBoolListBE s).setWidth 32

section Bits

variable {w v : Nat}

@[simp] theorem length_bits (x : BitVec w) : (bits x).length = w := by
  simp [bits]

theorem getElem_bits (x : BitVec w) (i : Nat) (h : i < (bits x).length) : (bits x)[i] = x.getMsbD i := by
  simp [bits]

theorem bits_injective {x y : BitVec w} (h : bits x = bits y) : x = y := by
  apply BitVec.eq_of_getMsbD_eq
  intro i hi
  have hx := getElem_bits x i (by simpa using hi)
  have hy := getElem_bits y i (by simpa using hi)
  rw [← hx, ← hy]
  exact List.getElem_of_eq h _

theorem bits_append (x : BitVec w) (y : BitVec v) : bits (x ++ y) = bits x ++ bits y := by
  apply List.ext_getElem
  · simp
  intro i hi _
  rw [getElem_bits, BitVec.getMsbD_append]
  by_cases hlt : i < w
  · rw [List.getElem_append_left (by simpa using hlt), getElem_bits, if_neg (by omega)]
  · rw [List.getElem_append_right (by simpa using hlt), getElem_bits, if_pos (by omega), length_bits]

/-- Words can be told from their bits. -/
theorem flatMap_bits_injective {s t : List (BitVec w)} (hlen : s.length = t.length)
    (h : s.flatMap bits = t.flatMap bits) : s = t := by
  induction s generalizing t with
  | nil => exact (List.eq_nil_of_length_eq_zero hlen.symm).symm
  | cons x s ih =>
      cases t with
      | nil => exact absurd hlen (by simp)
      | cons y t =>
          rw [List.flatMap_cons, List.flatMap_cons] at h
          rcases List.append_inj h (by simp) with ⟨hhead, htail⟩
          rw [bits_injective hhead, ih (Nat.succ.inj hlen) htail]

/-- The bits of a vector are those of its upper part and then those of its lower part. -/
theorem bits_split {n : Nat} (h : w = v + n) (x : BitVec w) :
    bits x = bits (x.extractLsb' n v) ++ bits (x.extractLsb' 0 n) := by
  subst h
  rw [← bits_append]
  congr 1
  apply BitVec.eq_of_getLsbD_eq
  intro i hi
  rw [BitVec.getLsbD_append, BitVec.getLsbD_extractLsb', BitVec.getLsbD_extractLsb']
  by_cases hlt : i < n
  · simp [hlt]
  · have hsub : n + (i - n) = i := by omega
    have hupper : i - n < v := by omega
    simp [hlt, hsub, hupper]

theorem word_bits (x : Word) : word (bits x) = x := by
  apply BitVec.eq_of_getLsbD_eq
  intro i hi
  have hmsb : (bits x)[31 - i]? = some (x.getMsbD (31 - i)) := by
    rw [List.getElem?_eq_getElem (by simp; omega), getElem_bits]
  have hlt : 31 - i < 32 := by omega
  have hback : 31 - (31 - i) = i := by omega
  rw [word, BitVec.getLsbD_setWidth, BitVec.getLsbD_ofBoolListBE, length_bits, List.getD_eq_getElem?_getD, hmsb]
  simp [BitVec.getMsbD, hi, hlt, hback]

end Bits

/-! ## Functions and constants -/

def ch (x y z : Word) : Word :=
  (x &&& y) ^^^ (~~~x &&& z)

def maj (x y z : Word) : Word :=
  (x &&& y) ^^^ (x &&& z) ^^^ (y &&& z)

/-- `Σ₀`. -/
def bigSigma0 (x : Word) : Word :=
  x.rotateRight 2 ^^^ x.rotateRight 13 ^^^ x.rotateRight 22

/-- `Σ₁`. -/
def bigSigma1 (x : Word) : Word :=
  x.rotateRight 6 ^^^ x.rotateRight 11 ^^^ x.rotateRight 25

/-- `σ₀`. -/
def smallSigma0 (x : Word) : Word :=
  x.rotateRight 7 ^^^ x.rotateRight 18 ^^^ x >>> 3

/-- `σ₁`. -/
def smallSigma1 (x : Word) : Word :=
  x.rotateRight 17 ^^^ x.rotateRight 19 ^^^ x >>> 10

/-- The first 32 bits of the fractional part of the `k`-th root of `n`. -/
def rootBits (k n : Nat) : Word :=
  BitVec.ofNat 32 (Nat.nthRoot k (n * 2 ^ (32 * k)))

/-- The first sixty-four primes. -/
def primes : List Nat :=
  [2, 3, 5, 7, 11, 13, 17, 19, 23, 29, 31, 37, 41, 43, 47, 53, 59, 61, 67, 71, 73, 79, 83, 89, 97, 101, 103, 107, 109,
    113, 127, 131, 137, 139, 149, 151, 157, 163, 167, 173, 179, 181, 191, 193, 197, 199, 211, 223, 227, 229, 233, 239,
    241, 251, 257, 263, 269, 271, 277, 281, 283, 293, 307, 311]

/-- `K_t`, from the cube roots of the first sixty-four primes. -/
def K : List Word :=
  primes.map (rootBits 3)

/-- Eight words: a hash value, or the working variables. -/
@[ext] structure Hash where
  a : Word
  b : Word
  c : Word
  d : Word
  e : Word
  f : Word
  g : Word
  h : Word
  deriving DecidableEq, Repr

namespace Hash

def toList (v : Hash) : List Word :=
  [v.a, v.b, v.c, v.d, v.e, v.f, v.g, v.h]

instance : Add Hash where
  add v w := ⟨v.a + w.a, v.b + w.b, v.c + w.c, v.d + w.d, v.e + w.e, v.f + w.f, v.g + w.g, v.h + w.h⟩

theorem length_toList (v : Hash) : v.toList.length = 8 := rfl

theorem toList_injective {v w : Hash} (h : v.toList = w.toList) : v = w := by
  cases v
  cases w
  simpa [toList] using h

end Hash

/-- `H⁽⁰⁾`, from the square roots of the first eight primes. -/
def initial : Hash :=
  ⟨rootBits 2 2, rootBits 2 3, rootBits 2 5, rootBits 2 7, rootBits 2 11, rootBits 2 13, rootBits 2 17,
    rootBits 2 19⟩

/-! ## Hash computation -/

/-- The first `n` words of the message schedule for a block `M`, the last one first. -/
def schedule (M : Nat → Word) : Nat → List Word
  | 0 => []
  | t + 1 =>
      let W := schedule M t
      (if t < 16 then M t
        else smallSigma1 (W.getD 1 0) + W.getD 6 0 + smallSigma0 (W.getD 14 0) + W.getD 15 0) :: W

/-- One pass through the loop of step 3. -/
def step (v : Hash) (k w : Word) : Hash :=
  let T₁ := v.h + bigSigma1 v.e + ch v.e v.f v.g + k + w
  let T₂ := bigSigma0 v.a + maj v.a v.b v.c
  { a := T₁ + T₂, b := v.a, c := v.b, d := v.c, e := v.d + T₁, f := v.e, g := v.f, h := v.g }

/-- The hash value after a block `M`, from the one before it. -/
def compress (H : Hash) (M : Nat → Word) : Hash :=
  H + (K.zip (schedule M 64).reverse).foldl (fun v kw => step v kw.1 kw.2) H

/-- The number of zero bits that pad a message of `l` bits. -/
def zeroBits (l : Nat) : Nat :=
  (959 - l % 512) % 512

/-- A message with its marker and its zeros. -/
def marked (M : Bits) : Bits :=
  M ++ true :: List.replicate (zeroBits M.length) false

/-- A message padded with the length field `l`. -/
def padWith (M : Bits) (l : BitVec 64) : Bits :=
  marked M ++ bits l

def pad (M : Bits) : Bits :=
  padWith M (BitVec.ofNat 64 M.length)

/-- Word `j` of block `i` of a padded message. -/
def block (P : Bits) (i j : Nat) : Word :=
  word ((P.drop (512 * i + 32 * j)).take 32)

/-- The hash value after the first `n` blocks of a padded message, from the value `H`. -/
def chain (H : Hash) (P : Bits) : Nat → Hash
  | 0 => H
  | n + 1 => compress (chain H P n) (block P n)

def hashValue (P : Bits) : Hash :=
  chain initial P (P.length / 512)

/-- The digest of a message. -/
def digest (M : Bits) : Bits :=
  (hashValue (pad M)).toList.flatMap bits

-- The empty message.
example : digest [] = bits 0xe3b0c44298fc1c149afbf4c8996fb92427ae41e4649b934ca495991b7852b855#256 := by
  decide +kernel

/-! ## The message schedule -/

section Schedule

variable (M : Nat → Word)

/-- `W_t`. -/
def scheduled (t : Nat) : Word :=
  (schedule M (t + 1)).headD 0

theorem schedule_eq (n : Nat) : schedule M n = ((List.range n).map (scheduled M)).reverse := by
  induction n with
  | zero => rfl
  | succ n ih =>
      rw [List.range_succ, List.map_append, List.reverse_append, ← ih]
      rfl

/-- Words that are there stay as they are. -/
theorem getD_schedule {n j : Nat} (h : j < n) : (schedule M n).getD j 0 = scheduled M (n - 1 - j) := by
  rw [schedule_eq, List.getD_eq_getElem?_getD, List.getElem?_reverse (by simpa using h)]
  have hlt : n - 1 - j < n := by omega
  simp [hlt]

theorem scheduled_of_lt {t : Nat} (h : t < 16) : scheduled M t = M t := by
  simp [scheduled, schedule, h]

theorem scheduled_of_le {t : Nat} (h : 16 ≤ t) :
    scheduled M t = smallSigma1 (scheduled M (t - 2)) + scheduled M (t - 7) + smallSigma0 (scheduled M (t - 15)) +
      scheduled M (t - 16) := by
  have hnot : ¬ t < 16 := by omega
  rw [scheduled, schedule]
  simp only [hnot, if_false, List.headD_cons]
  rw [getD_schedule M (by omega), getD_schedule M (by omega), getD_schedule M (by omega),
    getD_schedule M (by omega)]
  simp only [Nat.sub_sub, Nat.reduceAdd]

end Schedule

theorem schedule_congr {M M' : Nat → Word} (h : ∀ j < 16, M j = M' j) (n : Nat) : schedule M n = schedule M' n := by
  induction n with
  | zero => rfl
  | succ t ih =>
      rw [schedule, schedule, ih]
      by_cases ht : t < 16
      · simp only [ht, if_true, h t ht]
      · simp only [ht, if_false]

/-- Only the sixteen words of a block matter. -/
theorem compress_congr {M M' : Nat → Word} (h : ∀ j < 16, M j = M' j) (H : Hash) : compress H M = compress H M' := by
  rw [compress, compress, schedule_congr h]

/-! ## Blocks -/

section Blocks

variable {P Q : Bits} {H : Hash}

theorem block_append_left {i j : Nat} (h : 512 * i + 32 * j + 32 ≤ P.length) : block (P ++ Q) i j = block P i j := by
  have hlen : 32 ≤ (P.drop (512 * i + 32 * j)).length := by
    rw [List.length_drop]
    omega
  rw [block, block, List.drop_append_of_le_length (by omega), List.take_append_of_le_length hlen]

theorem block_drop (i j : Nat) : block (P.drop 512) i j = block P (i + 1) j := by
  have hindex : 512 + (512 * i + 32 * j) = 512 * (i + 1) + 32 * j := by omega
  rw [block, block, List.drop_drop, hindex]

theorem chain_append_left {n : Nat} (h : 512 * n ≤ P.length) : chain H (P ++ Q) n = chain H P n := by
  induction n with
  | zero => rfl
  | succ n ih =>
      rw [chain, chain, ih (by omega)]
      exact compress_congr (fun j hj => block_append_left (by omega)) _

/-- The first block first. -/
theorem chain_succ (n : Nat) : chain H P (n + 1) = chain (compress H (block P 0)) (P.drop 512) n := by
  induction n with
  | zero => rfl
  | succ n ih =>
      rw [chain, ih, chain]
      exact compress_congr (fun j _ => (block_drop n j).symm) _

theorem block_append_right {n : Nat} (h : P.length = 512 * n) (i j : Nat) :
    block (P ++ Q) (n + i) j = block Q i j := by
  have hindex : 512 * (n + i) + 32 * j = P.length + (512 * i + 32 * j) := by omega
  rw [block, block, hindex, List.drop_append, List.drop_eq_nil_of_le (Nat.le_add_right _ _), Nat.add_sub_cancel_left,
    List.nil_append]

/-- Whole blocks, and then the blocks of the rest. -/
theorem chain_append {n : Nat} (h : P.length = 512 * n) (m : Nat) :
    chain H (P ++ Q) (n + m) = chain (chain H P n) Q m := by
  induction m with
  | zero => exact chain_append_left (Nat.le_of_eq h.symm)
  | succ m ih =>
      rw [← Nat.add_assoc, chain, ih, chain]
      exact compress_congr (fun j _ => block_append_right h m j) _

end Blocks

/-! ## Padding -/

section Padding

variable (M : Bits) (l : BitVec 64)

/-- Message, marker and zeros fill the last block up to its length field. -/
theorem length_marked : (marked M).length % 512 = 448 := by
  rw [marked, List.length_append, List.length_cons, List.length_replicate, zeroBits]
  omega

/-- A padded message is a number of whole blocks. -/
theorem length_padWith_mod : (padWith M l).length % 512 = 0 := by
  have hmarked := length_marked M
  rw [padWith, List.length_append, length_bits]
  omega

theorem padWith_inj {M : Bits} {l l' : BitVec 64} : padWith M l = padWith M l' ↔ l = l' := by
  constructor
  · intro h
    exact bits_injective (List.append_cancel_left h)
  · rintro rfl
    rfl

end Padding

/-! ## The last block -/

section LastBlock

variable (M : Bits)

/-- The number of blocks before the one with the length field. -/
def fullBlocks : Nat :=
  (marked M).length / 512

/-- The hash value before the last block. -/
def penultimate : Hash :=
  chain initial (marked M) (fullBlocks M)

/-- The last block of a message that is padded with the length field `l`. -/
def lastBlock (l : BitVec 64) (j : Nat) : Word :=
  if j < 14 then block (marked M) (fullBlocks M) j else if j = 14 then l.extractLsb' 32 32 else l.extractLsb' 0 32

theorem hashValue_padWith (l : BitVec 64) : hashValue (padWith M l) = compress (penultimate M) (lastBlock M l) := by
  have hlen : (marked M).length = 512 * fullBlocks M + 448 := by
    have hmod := length_marked M
    rw [fullBlocks]
    omega
  have hblocks : (padWith M l).length / 512 = fullBlocks M + 1 := by
    rw [padWith, List.length_append, length_bits, hlen]
    omega
  have hfield : bits l = bits (l.extractLsb' 32 32) ++ bits (l.extractLsb' 0 32) := bits_split (by omega) l
  rw [hashValue, hblocks, chain, padWith, chain_append_left (by omega)]
  refine compress_congr (fun j hj => ?_) _
  rw [lastBlock]
  by_cases hlt : j < 14
  · rw [if_pos hlt, block_append_left (by omega)]
  rw [if_neg hlt]
  by_cases heq : j = 14
  · have hdrop : (marked M ++ bits l).drop (512 * fullBlocks M + 32 * j) = bits l := by
      rw [heq, ← hlen]
      exact List.drop_left
    rw [if_pos heq, block, hdrop, hfield, List.take_left' (length_bits _), word_bits]
  · have hlast : 512 * fullBlocks M + 32 * j = (marked M).length + 32 := by omega
    have hdrop : (marked M ++ bits l).drop (512 * fullBlocks M + 32 * j) = bits (l.extractLsb' 0 32) := by
      rw [hlast, List.drop_append, List.drop_eq_nil_of_le (by omega), Nat.add_sub_cancel_left, hfield,
        List.drop_left' (length_bits _), List.nil_append]
    rw [if_neg heq, block, hdrop, List.take_of_length_le (by simp), word_bits]

end LastBlock

/-! ## Keyed hash -/

/-- `K₀` of FIPS 198-1: the key, or its digest if it is longer than a block, with zeros up to a block. -/
def blockKey (key : Bits) : Bits :=
  let k := if key.length ≤ 512 then key else digest key
  k ++ List.replicate (512 - k.length) false

/-- `K₀ ⊕ ipad` or `K₀ ⊕ opad`, for the byte that the pad repeats. -/
def padKey (b : BitVec 8) (key : Bits) : Bits :=
  List.zipWith xor (blockKey key) (List.replicate 64 (bits b)).flatten

/-- The code of a message under a key, by FIPS 198-1. -/
def hmac (key text : Bits) : Bits :=
  digest (padKey 0x5c key ++ digest (padKey 0x36 key ++ text))

theorem bits_xor {w : Nat} (x y : BitVec w) : bits (x ^^^ y) = List.zipWith xor (bits y) (bits x) := by
  apply List.ext_getElem
  · simp
  intro i hi _
  rw [getElem_bits, List.getElem_zipWith, getElem_bits, getElem_bits, BitVec.getMsbD_xor, Bool.xor_comm]

theorem length_digest (M : Bits) : (digest M).length = 256 := by
  rw [digest, List.length_flatMap]
  simp [Hash.toList]

end Fips180
end Serval
