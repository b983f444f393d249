import Serval.Sha256.Fips
import Serval.Sha256.Hacl

/-!
# HaclFips — the C code of `kernel/hacl` against the standard

What the state array stands for (`Represents`) goes through every function: the constants stay, the eight words at 128
are the hash value of the blocks so far, and the word at 136 counts them.
-/

namespace Serval
namespace Hacl

open Fips180 (Word Hash Bits bits)
open Sha256 (Byte byteBits bitvectorToListBe)

/-! ## Words and bytes -/

section Bytes

variable {p : Bytes} {start i : Nat}

theorem rotr_eq (x : Word) {n : Nat} (h : n < 32) : rotr x n = x.rotateRight n := by
  rw [rotr, BitVec.rotateRight_def, Nat.mod_eq_of_lt h]

theorem load32Be_eq (p : Bytes) : load32Be p = p 0 ++ p 1 ++ p 2 ++ p 3 := by
  apply BitVec.eq_of_getLsbD_eq
  intro i hi
  simp only [load32Be, BitVec.getLsbD_or, BitVec.getLsbD_shiftLeft, BitVec.zeroExtend_eq_setWidth,
    BitVec.getLsbD_setWidth, BitVec.getLsbD_append]
  have hbyte : ∀ k j, 8 ≤ j → (p k).getLsbD j = false := fun k j h => BitVec.getLsbD_of_ge _ _ h
  have hcases : i < 8 ∨ (8 ≤ i ∧ i < 16) ∨ (16 ≤ i ∧ i < 24) ∨ (24 ≤ i ∧ i < 32) := by omega
  rcases hcases with h0 | ⟨hlo, hhi⟩ | ⟨hlo, hhi⟩ | ⟨hlo, hhi⟩
  · simp [h0, hi, show i < 16 by omega, show i < 24 by omega]
  · simp [hi, hhi, hbyte 3 i hlo, show i < 24 by omega, show ¬ i < 8 by omega, show i - 8 < 8 by omega,
      show i - 8 < 32 by omega]
  · simp [hi, hhi, hbyte 3 i (by omega), hbyte 2 (i - 8) (by omega), show ¬ i < 8 by omega, show ¬ i < 16 by omega,
      show ¬ i - 8 < 8 by omega, show i - 8 - 8 = i - 16 by omega, show i - 16 < 8 by omega,
      show i - 16 < 32 by omega]
  · simp [hi, hbyte 3 i (by omega), hbyte 2 (i - 8) (by omega), hbyte 1 (i - 16) (by omega), show ¬ i < 8 by omega,
      show ¬ i < 16 by omega, show ¬ i < 24 by omega, show ¬ i - 8 < 8 by omega, show ¬ i - 8 - 8 < 8 by omega,
      show i - 8 - 8 - 8 = i - 24 by omega, show i - 24 < 32 by omega]

theorem length_bitvectorToListBe (k : Nat) (x : BitVec (8 * (k + 1))) : (bitvectorToListBe k x).length = k + 1 := by
  induction k with
  | zero => rfl
  | succ k ih => rw [bitvectorToListBe, List.length_cons, ih]

/-- A list of bytes with the bits of a vector is the vector in the order of the bytes. -/
theorem eq_bitvectorToListBe {k : Nat} {l : List Byte} {x : BitVec (8 * (k + 1))} (hlen : l.length = k + 1)
    (h : byteBits l = bits x) : l = bitvectorToListBe k x := by
  apply Fips180.flatMap_bits_injective
  · rw [hlen, length_bitvectorToListBe]
  · exact h.trans (Sha256.byteBits_bitvectorToListBe k x).symm

/-- The two halves of a vector, as the C code takes them. -/
theorem bits_halves {n : Nat} (x : BitVec (n + n)) :
    bits x = bits ((x >>> n).setWidth n) ++ bits (x.setWidth n) := by
  rw [Fips180.bits_split rfl x, BitVec.setWidth_ushiftRight_eq_extractLsb,
    BitVec.setWidth_eq_extractLsb' (Nat.le_add_left n n)]

theorem store32Be_eq (p : Bytes) (start : Nat) (x : Word) :
    store32Be p start x = p.storeAll start (bitvectorToListBe 3 x) := by
  have hbytes : [((x >>> 16).setWidth 16 >>> 8).setWidth 8, ((x >>> 16).setWidth 16).setWidth 8,
      (x.setWidth 16 >>> 8).setWidth 8, (x.setWidth 16).setWidth 8] = bitvectorToListBe 3 x := by
    apply eq_bitvectorToListBe rfl
    rw [bits_halves (n := 16) x, bits_halves (n := 8) (x.setWidth 16), bits_halves (n := 8) ((x >>> 16).setWidth 16)]
    simp [byteBits]
  rw [← hbytes]
  rfl

theorem store64Be_eq (p : Bytes) (start : Nat) (x : BitVec 64) :
    store64Be p start x = p.storeAll start (bitvectorToListBe 7 x) := by
  have hbytes : bitvectorToListBe 3 ((x >>> 32).setWidth 32) ++ bitvectorToListBe 3 (x.setWidth 32) =
      bitvectorToListBe 7 x := by
    apply eq_bitvectorToListBe
    · rw [List.length_append, length_bitvectorToListBe, length_bitvectorToListBe]
    · rw [Sha256.byteBits_append, Sha256.byteBits_bitvectorToListBe, Sha256.byteBits_bitvectorToListBe]
      exact (bits_halves (n := 32) x).symm
  rw [← hbytes, Buffer.storeAll_append, length_bitvectorToListBe, store64Be, store32Be_eq, store32Be_eq]

/-- The words that `update` loads are those of the standard. -/
theorem load32Be_offset (data : Bytes) (h : i < 16) :
    load32Be (data.offset (4 * i)) = Fips180.block (byteBits (data.toList 64)) 0 i := by
  have hbytes : byteBits ((data.offset (4 * i)).toList 4) = bits (load32Be (data.offset (4 * i))) := by
    rw [load32Be_eq, Fips180.bits_append, Fips180.bits_append, Fips180.bits_append]
    simp [byteBits, Buffer.toList, List.range_succ]
  have hindex : 512 * 0 + 32 * i = 8 * (4 * i) := by omega
  have hblock : ((byteBits (data.toList 64)).drop (512 * 0 + 32 * i)).take 32 =
      byteBits ((data.offset (4 * i)).toList 4) := by
    rw [hindex, Sha256.drop_byteBits, Buffer.drop_toList (by omega), Sha256.take_byteBits _ 4,
      Buffer.take_toList (by omega)]
  rw [Fips180.block, hblock, hbytes, Fips180.word_bits]

end Bytes

/-! ## One block -/

/-- The eight words at a pointer. -/
def hashOf (p : Words) : Hash :=
  ⟨p 0, p 1, p 2, p 3, p 4, p 5, p 6, p 7⟩

theorem hashOf_congr {p q : Words} (h : ∀ i < 8, p i = q i) : hashOf p = hashOf q := by
  simp [hashOf, h]

/-- The schedule up to `n`, and all that is not schedule as it was. -/
structure Extended (state : Words) (M : Nat → Word) (n : Nat) (state' : Words) : Prop where
  words : ∀ t < n, state' (64 + t) = Fips180.scheduled M t
  other : ∀ j, j < 64 ∨ 128 ≤ j → state' j = state j

section Block

variable {state state' : Words} {M : Nat → Word} {n : Nat}

theorem extended_load (state : Words) (M : Nat → Word) :
    Extended state M 16 (forLoop 0 16 (fun i state => state.store (64 + i) (M i)) state) := by
  rw [Buffer.forLoop_modify 64 (fun i _ => M i) 16 state]
  refine ⟨fun t ht => ?_, fun j hj => if_neg (by omega)⟩
  rw [if_pos (by omega), Nat.add_sub_cancel_left, Fips180.scheduled_of_lt M ht]

theorem Extended.extend (h : Extended state M n state') (hlo : 16 ≤ n) (hhi : n < 64) :
    Extended state M (n + 1) (extend n state') := by
  have hnew : Hacl.extend n state' (64 + n) = Fips180.scheduled M n := by
    rw [Hacl.extend, Buffer.store_self, h.words (n - 16) (by omega), h.words (n - 15) (by omega),
      h.words (n - 7) (by omega), h.words (n - 2) (by omega), Fips180.scheduled_of_le M hlo]
    simp only [rotr_eq _ (show 17 < 32 by decide), rotr_eq _ (show 19 < 32 by decide),
      rotr_eq _ (show 7 < 32 by decide), rotr_eq _ (show 18 < 32 by decide), Fips180.smallSigma0,
      Fips180.smallSigma1, BitVec.xor_assoc]
  have hold : ∀ j, j ≠ 64 + n → Hacl.extend n state' j = state' j := fun j hj => Buffer.store_of_ne hj
  refine ⟨fun t ht => ?_, fun j hj => ?_⟩
  · rcases Nat.lt_succ_iff_lt_or_eq.mp ht with hlt | rfl
    · rw [hold _ (by omega), h.words t hlt]
    · exact hnew
  · rw [hold j (by omega), h.other j hj]

theorem extended_forLoop (h : Extended state M 16 state') : Extended state M 64 (forLoop 16 64 extend state') :=
  forLoop_invariant (I := Extended state M) (by decide) h (fun _ _ hlo hhi hn => hn.extend hlo hhi)

theorem hashOf_shuffle (state : Words) (i : Nat) (hash : Words) :
    hashOf (shuffle state i hash) = Fips180.step (hashOf hash) (state i) (state (64 + i)) := by
  have hread : ∀ a b c d e f g h : Word, hashOf (hash.storeAll 0 [a, b, c, d, e, f, g, h]) = ⟨a, b, c, d, e, f, g, h⟩ :=
    fun _ _ _ _ _ _ _ _ => rfl
  rw [shuffle, hread]
  simp only [Fips180.step, hashOf, rotr_eq _ (show 6 < 32 by decide), rotr_eq _ (show 11 < 32 by decide),
    rotr_eq _ (show 25 < 32 by decide), rotr_eq _ (show 2 < 32 by decide), rotr_eq _ (show 13 < 32 by decide),
    rotr_eq _ (show 22 < 32 by decide), Fips180.bigSigma0, Fips180.bigSigma1, Fips180.ch, Fips180.maj,
    BitVec.xor_assoc]

/-- The rounds, over a state that has the constants and the schedule. -/
theorem hashOf_forLoop_shuffle (hK : ∀ i < 64, state i = Fips180.K.getD i 0)
    (hW : ∀ t < 64, state (64 + t) = Fips180.scheduled M t) (hash : Words) :
    hashOf (forLoop 0 64 (shuffle state) hash) =
      (Fips180.K.zip (Fips180.schedule M 64).reverse).foldl (fun v kw => Fips180.step v kw.1 kw.2) (hashOf hash) := by
  rw [Fips180.schedule_eq, List.reverse_reverse]
  have hlen : (Fips180.K.zip ((List.range 64).map (Fips180.scheduled M))).length = 64 := by
    rw [List.length_zip, List.length_map, List.length_range]
    rfl
  have hrounds : hashOf (forLoop 0 64 (shuffle state) hash) =
      ((Fips180.K.zip ((List.range 64).map (Fips180.scheduled M))).take 64).foldl
        (fun v kw => Fips180.step v kw.1 kw.2) (hashOf hash) := by
    refine forLoop_invariant
      (I := fun n h => hashOf h = ((Fips180.K.zip ((List.range 64).map (Fips180.scheduled M))).take n).foldl
        (fun v kw => Fips180.step v kw.1 kw.2) (hashOf hash)) (Nat.zero_le 64) rfl ?_
    intro n h _ hn ih
    have hKn : n < Fips180.K.length := hn
    rw [hashOf_shuffle, ih, hK n hn, hW n hn, List.take_succ_eq_append_getElem (by omega), List.foldl_append,
      List.getElem_zip, List.getD_eq_getElem _ _ hKn]
    simp
  rw [hrounds, List.take_of_length_le (Nat.le_of_eq hlen)]

end Block

/-! ## States -/

/-- What a state array stands for: a context of `sha256.rkt`.  The constants are part of the state. -/
structure Represents (state : Words) (ctx : Sha256.Context) : Prop where
  constants : ∀ i < 64, state i = Fips180.K.getD i 0
  hash : hashOf (state.offset 128) = ctx.state
  count : state 136 = ctx.count

section States

variable {state : Words} {ctx : Sha256.Context}

theorem represents_init (state : Words) : Represents (init state) Sha256.sha256Init := by
  have hK : initK = Fips180.K := by decide +kernel
  have hlenK : initK.length = 64 := rfl
  have hlenH : initH.length = 8 := rfl
  refine ⟨fun i hi => ?_, rfl, rfl⟩
  rw [init, Buffer.store_of_ne (by omega), Buffer.storeAll_of_lt (by omega), Buffer.storeAll_apply,
    if_pos (Nat.zero_le i), Nat.sub_zero, hK, List.getD_eq_getElem _ _ (hK ▸ hi), List.getD_eq_getElem]

/-- The state after a block. -/
theorem Represents.update_compress (h : Represents state ctx) (data : Bytes) :
    Represents (update state data)
      ⟨Fips180.compress ctx.state (Fips180.block (byteBits (data.toList 64)) 0), ctx.count + 1⟩ := by
  -- the words loaded are those of the block
  have hwords : ∀ j < 16, uint32sFromBeBytes (fun _ => 0) data 16 j = Fips180.block (byteBits (data.toList 64)) 0 j := by
    intro j hj
    have hload := congrFun (Buffer.forLoop_modify 0 (fun i _ => load32Be (data.offset (4 * i))) 16 (fun _ => 0)) j
    simp only [Nat.zero_add] at hload
    rw [uint32sFromBeBytes, hload, if_pos ⟨Nat.zero_le j, hj⟩, Nat.sub_zero, load32Be_offset data hj]
  rw [update]
  generalize uint32sFromBeBytes (fun _ => 0) data 16 = M at hwords ⊢
  -- the schedule, the rounds over it, and the sum with the hash value before
  have hext := extended_forLoop (extended_load state M)
  generalize forLoop 16 64 extend (forLoop 0 16 (fun i state => state.store (64 + i) (M i)) state) = state₂ at hext ⊢
  have hK : ∀ i < 64, state₂ i = Fips180.K.getD i 0 := by
    intro i hi
    rw [hext.other i (Or.inl hi), h.constants i hi]
  have hbefore : hashOf (state₂.offset 128) = ctx.state := by
    rw [← h.hash]
    exact hashOf_congr (fun i _ => hext.other (128 + i) (Or.inr (Nat.le_add_right 128 i)))
  have hcopy : hashOf (Buffer.copy (fun _ => 0) 0 (state₂.offset 128) 8) = ctx.state := by
    rw [← hbefore]
    exact hashOf_congr (fun i hi => Buffer.copy_of_mem (Nat.zero_le i) (by omega))
  have hrounds := hashOf_forLoop_shuffle hK hext.words (Buffer.copy (fun _ => 0) 0 (state₂.offset 128) 8)
  rw [hcopy] at hrounds
  generalize forLoop 0 64 (shuffle state₂) (Buffer.copy (fun _ => 0) 0 (state₂.offset 128) 8) = hash at hrounds ⊢
  have hsum := Buffer.forLoop_modify 128 (fun i x => x + hash i) 8 state₂
  rw [← Fips180.compress_congr hwords, Fips180.compress, ← hrounds, ← hbefore]
  simp only [hsum]
  refine ⟨fun i hi => ?_, ?_, ?_⟩
  · rw [Buffer.store_of_ne (by omega), if_neg (by omega), hK i hi]
  · rfl
  · rw [Buffer.store_self, if_neg (by omega), hext.other 136 (Or.inr (by decide)), h.count]

end States

end Hacl
end Serval
