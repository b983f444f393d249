import Mathlib.Data.BitVec
import Serval.Sha256.Hash

/-!
# Fips — `sha256.rkt` against the standard

Block by block the functions compute what FIPS 180-4 says.  The length of the message is another matter: the code
counts blocks and bytes in 32 bits, shifts in 32 bits and only then extends to the 64 bits of the length field, so the
field is right for messages shorter than 2²⁹ bytes and for no others.
-/

namespace Serval
namespace Sha256

open Fips180 (Word Hash Bits bits)

/-! ## Functions on words -/

theorem Ch_eq (x y z : Word) : Ch x y z = Fips180.ch x y z := by
  apply BitVec.eq_of_getLsbD_eq
  intro i hi
  simp only [Ch, Fips180.ch, BitVec.getLsbD_xor, BitVec.getLsbD_and, BitVec.getLsbD_not]
  cases x.getLsbD i <;> cases y.getLsbD i <;> cases z.getLsbD i <;> simp [hi]

theorem Maj_eq (x y z : Word) : Maj x y z = Fips180.maj x y z := by
  apply BitVec.eq_of_getLsbD_eq
  intro i _
  simp only [Maj, Fips180.maj, BitVec.getLsbD_xor, BitVec.getLsbD_and, BitVec.getLsbD_or]
  cases x.getLsbD i <;> cases y.getLsbD i <;> cases z.getLsbD i <;> rfl

theorem rotateRight_eq (x : Word) {n : Nat} (h : n < 32) : rotateRight x (BitVec.ofNat 32 n) = x.rotateRight n := by
  have hright : (BitVec.ofNat 32 n).toNat = n := by
    rw [BitVec.toNat_ofNat]
    omega
  have hleft : (32#32 - BitVec.ofNat 32 n).toNat = 32 - n := by
    rw [BitVec.toNat_sub, hright, BitVec.toNat_ofNat]
    omega
  rw [rotateRight, BitVec.ushiftRight_eq', BitVec.shiftLeft_eq', hright, hleft, BitVec.rotateRight_def,
    Nat.mod_eq_of_lt h]

theorem Sigma0_eq (x : Word) : Sigma0 x = Fips180.bigSigma0 x := by
  rw [Sigma0, Fips180.bigSigma0, ← rotateRight_eq x (n := 2) (by decide), ← rotateRight_eq x (n := 13) (by decide),
    ← rotateRight_eq x (n := 22) (by decide)]
  rfl

theorem Sigma1_eq (x : Word) : Sigma1 x = Fips180.bigSigma1 x := by
  rw [Sigma1, Fips180.bigSigma1, ← rotateRight_eq x (n := 6) (by decide), ← rotateRight_eq x (n := 11) (by decide),
    ← rotateRight_eq x (n := 25) (by decide)]
  rfl

theorem Gamma0_eq (x : Word) : Gamma0 x = Fips180.smallSigma0 x := by
  rw [Gamma0, Fips180.smallSigma0, ← rotateRight_eq x (n := 7) (by decide), ← rotateRight_eq x (n := 18) (by decide)]
  rfl

theorem Gamma1_eq (x : Word) : Gamma1 x = Fips180.smallSigma1 x := by
  rw [Gamma1, Fips180.smallSigma1, ← rotateRight_eq x (n := 17) (by decide),
    ← rotateRight_eq x (n := 19) (by decide)]
  rfl

theorem RND_eq (state : Hash) (k w : Word) : RND state k w = Fips180.step state k w := by
  simp only [RND, Fips180.step, Sigma0_eq, Sigma1_eq, Ch_eq, Maj_eq]

theorem K_eq : K = Fips180.K := by
  decide +kernel

theorem sha256Init_state : sha256Init.state = Fips180.initial := by
  decide +kernel

/-! ## Bytes as bits -/

/-- The bits of a list of bytes. -/
def byteBits (data : List Byte) : Bits :=
  data.flatMap bits

section Bytes

variable (data rest : List Byte)

theorem byteBits_append : byteBits (data ++ rest) = byteBits data ++ byteBits rest :=
  List.flatMap_append

theorem byteBits_cons (b : Byte) : byteBits (b :: data) = bits b ++ byteBits data :=
  List.flatMap_cons

@[simp] theorem length_byteBits : (byteBits data).length = 8 * data.length := by
  induction data with
  | nil => rfl
  | cons b data ih =>
      rw [byteBits_cons, List.length_append, ih, Fips180.length_bits, List.length_cons]
      omega

theorem drop_byteBits (n : Nat) : (byteBits data).drop (8 * n) = byteBits (data.drop n) := by
  induction n generalizing data with
  | zero => rfl
  | succ n ih =>
      cases data with
      | nil => simp [byteBits]
      | cons b data =>
          rw [byteBits_cons, List.drop_append, List.drop_succ_cons, ← ih data, Fips180.length_bits]
          have hlong : (bits b).drop (8 * (n + 1)) = [] := List.drop_eq_nil_of_le (by rw [Fips180.length_bits]; omega)
          have hrest : 8 * (n + 1) - 8 = 8 * n := by omega
          rw [hlong, hrest, List.nil_append]

theorem take_byteBits (n : Nat) : (byteBits data).take (8 * n) = byteBits (data.take n) := by
  by_cases hn : n ≤ data.length
  · have hlen : 8 * n = (byteBits (data.take n)).length := by simp [hn]
    conv_lhs => rw [← List.take_append_drop n data, byteBits_append, hlen]
    exact List.take_left
  · have hall : (byteBits data).length ≤ 8 * n := by
      rw [length_byteBits]
      omega
    rw [List.take_of_length_le hall, List.take_of_length_le (by omega)]

end Bytes

/-- Four bytes as a word. -/
theorem listToBitvectorBe_eq {data : List Byte} (h : data.length = 4) :
    listToBitvectorBe data = some (Fips180.word (byteBits data)) := by
  match data, h with
  | [b₀, b₁, b₂, b₃], _ =>
      have hbits : byteBits [b₀, b₁, b₂, b₃] = bits (b₀ ++ b₁ ++ b₂ ++ b₃) := by
        rw [Fips180.bits_append, Fips180.bits_append, Fips180.bits_append]
        simp [byteBits]
      rw [hbits, Fips180.word_bits]
      rfl

theorem byteBits_bitvectorToListBe (k : Nat) (x : BitVec (8 * (k + 1))) :
    byteBits (bitvectorToListBe k x) = bits x := by
  induction k with
  | zero => simp [bitvectorToListBe, byteBits]
  | succ k ih =>
      rw [bitvectorToListBe, byteBits_cons, ih]
      exact (Fips180.bits_split (by omega) x).symm

/-! ## One block -/

section Block

variable {data : List Byte}

variable (hdata : data.length = 64)

include hdata

theorem W_of_lt {i : Nat} (h : i < 16) : W data i = some (Fips180.block (byteBits data) 0 i) := by
  have hword : ((data.drop (i * 4)).take 4).length = 4 := by
    rw [List.length_take, List.length_drop]
    omega
  have hbits : byteBits ((data.drop (i * 4)).take 4) = ((byteBits data).drop (512 * 0 + 32 * i)).take 32 := by
    have hindex : 512 * 0 + 32 * i = 8 * (i * 4) := by omega
    rw [hindex, drop_byteBits, ← take_byteBits]
  have hdrop : i * 4 ≤ data.length := by omega
  have htake : 4 ≤ data.length - i * 4 := by omega
  rw [W, if_pos h]
  simp only [drop, take, if_pos hdrop, Option.bind_eq_bind, Option.bind_some, List.length_drop, if_pos htake]
  rw [listToBitvectorBe_eq hword, hbits]
  rfl

/-- The schedule that the code computes by recursion is the one that the standard computes in order. -/
theorem W_eq (i : Nat) : W data i = some (Fips180.scheduled (Fips180.block (byteBits data) 0) i) := by
  induction i using Nat.strongRecOn with
  | ind i ih =>
      by_cases h : i < 16
      · rw [W_of_lt hdata h, Fips180.scheduled_of_lt _ h]
      · have hrec := Fips180.scheduled_of_le (Fips180.block (byteBits data) 0) (t := i) (by omega)
        rw [W, if_neg h, ih (i - 2) (by omega), ih (i - 7) (by omega), ih (i - 15) (by omega),
          ih (i - 16) (by omega), hrec]
        simp only [Gamma0_eq, Gamma1_eq]
        rfl

/-- The recursion of `round` is the loop of the standard. -/
theorem round_eq (state : Hash) {n : Nat} (h : n ≤ 64) :
    round data state n = some (((Fips180.K.zip (Fips180.schedule (Fips180.block (byteBits data) 0) 64).reverse).take
      n).foldl (fun v kw => Fips180.step v kw.1 kw.2) state) := by
  rw [Fips180.schedule_eq, List.reverse_reverse]
  induction n with
  | zero => rfl
  | succ n ih =>
      have hK : n < Fips180.K.length := h
      have hlen : n < (Fips180.K.zip ((List.range 64).map
          (Fips180.scheduled (Fips180.block (byteBits data) 0)))).length := by
        rw [List.length_zip, List.length_map, List.length_range]
        omega
      rw [round, ih (by omega), K_eq, W_eq hdata, List.getElem?_eq_getElem hK,
        List.take_succ_eq_append_getElem hlen, List.foldl_append]
      simp [RND_eq]

theorem sha256Transform_eq (state : Hash) :
    sha256Transform state data = some (Fips180.compress state (Fips180.block (byteBits data) 0)) := by
  have hall : ∀ {l : List (Word × Word)}, l.length ≤ 64 → l.take 64 = l := List.take_of_length_le
  rw [sha256Transform, round_eq hdata state (Nat.le_refl 64), hall]
  · rfl
  · rw [List.length_zip]
    exact Nat.min_le_left _ _

end Block

/-! ## Whole blocks -/

section Multi

variable {ctx : Context} {data rest : List Byte} {n : Nat}

theorem sha256UpdateMulti_nil (ctx : Context) : sha256UpdateMulti ctx [] = some ctx := by
  rw [sha256UpdateMulti, if_pos rfl]

theorem sha256UpdateMulti_of_le (h : 64 ≤ data.length) :
    sha256UpdateMulti ctx data =
      (sha256Update ctx (data.take 64)).bind (fun ctx' => sha256UpdateMulti ctx' (data.drop 64)) := by
  have hne : data ≠ [] := by
    rintro rfl
    exact absurd h (by decide)
  rw [sha256UpdateMulti, if_neg hne, if_pos h]

theorem sha256UpdateMulti_append (h : data.length = 64 * n) :
    sha256UpdateMulti ctx (data ++ rest) =
      (sha256UpdateMulti ctx data).bind (fun ctx' => sha256UpdateMulti ctx' rest) := by
  induction n generalizing ctx data with
  | zero =>
      have hnil : data = [] := List.eq_nil_of_length_eq_zero h
      rw [hnil, sha256UpdateMulti_nil]
      rfl
  | succ n ih =>
      have hlong : 64 ≤ data.length := by omega
      have hdrop : (data.drop 64).length = 64 * n := by
        rw [List.length_drop]
        omega
      rw [sha256UpdateMulti_of_le (by rw [List.length_append]; omega), sha256UpdateMulti_of_le hlong,
        List.take_append_of_le_length hlong, List.drop_append_of_le_length hlong, Option.bind_assoc]
      congr 1
      funext ctx'
      exact ih hdrop

/-- Whole blocks go into the hash value, and their number into the count. -/
theorem sha256UpdateMulti_eq (h : data.length = 64 * n) :
    sha256UpdateMulti ctx data =
      some ⟨Fips180.chain ctx.state (byteBits data) n, ctx.count + BitVec.ofNat 32 n⟩ := by
  induction n generalizing ctx data with
  | zero =>
      have hnil : data = [] := List.eq_nil_of_length_eq_zero h
      rw [hnil, sha256UpdateMulti_nil]
      simp [Fips180.chain]
  | succ n ih =>
      have hhead : (data.take 64).length = 64 := by
        rw [List.length_take]
        omega
      have htail : (data.drop 64).length = 64 * n := by
        rw [List.length_drop]
        omega
      have hblock : ∀ j < 16, Fips180.block (byteBits (data.take 64)) 0 j = Fips180.block (byteBits data) 0 j := by
        intro j hj
        conv_rhs => rw [← List.take_append_drop 64 data, byteBits_append]
        refine (Fips180.block_append_left ?_).symm
        rw [length_byteBits, hhead]
        omega
      have hcount : ctx.count + BitVec.ofNat 32 (n + 1) = ctx.count + 1 + BitVec.ofNat 32 n := by
        rw [Nat.add_comm n 1, BitVec.ofNat_add, BitVec.add_assoc]
        rfl
      rw [sha256UpdateMulti_of_le (by omega), sha256Update, sha256Transform_eq hhead,
        Fips180.compress_congr hblock, Fips180.chain_succ, drop_byteBits data 64, hcount]
      exact ih htail

end Multi

/-! ## The end of a message -/

section Last

theorem byteBits_marker : byteBits [0x80] = true :: List.replicate 7 false := by
  decide

theorem byteBits_replicate_zero (k : Nat) : byteBits (List.replicate k 0) = List.replicate (8 * k) false := by
  induction k with
  | zero => rfl
  | succ k ih =>
      have hzero : bits (0 : Byte) = List.replicate 8 false := by decide
      rw [List.replicate_succ, byteBits_cons, ih, hzero, List.replicate_append_replicate]
      congr 1
      omega

/-- The length field of the code: the length in bits, modulo 2³². -/
theorem total_eq (n len : Nat) :
    ((64#32 * BitVec.ofNat 32 n + BitVec.ofNat 32 len) <<< 3#32).zeroExtend 64 =
      BitVec.ofNat 64 (8 * (64 * n + len) % 2 ^ 32) := by
  have htotal : (64#32 * BitVec.ofNat 32 n + BitVec.ofNat 32 len).toNat = (64 * n + len) % 2 ^ 32 := by
    simp only [BitVec.toNat_add, BitVec.toNat_mul, BitVec.toNat_ofNat]
    omega
  have hshift : (3#32).toNat = 3 := rfl
  apply BitVec.eq_of_toNat_eq
  rw [BitVec.zeroExtend_eq_setWidth, BitVec.toNat_setWidth, BitVec.shiftLeft_eq', BitVec.toNat_shiftLeft, htotal,
    hshift, Nat.shiftLeft_eq, BitVec.toNat_ofNat]
  omega

/-- What the code appends to the last bytes of a message, as bits. -/
theorem lastData_eq {tail : List Byte} (h : tail.length < 120) (n : Nat) :
    ∃ last, lastData (BitVec.ofNat 32 n) tail = some last ∧ byteBits last =
      byteBits tail ++ true :: List.replicate (Fips180.zeroBits (8 * (64 * n + tail.length))) false ++
        bits (BitVec.ofNat 64 (8 * (64 * n + tail.length) % 2 ^ 32)) := by
  -- the tail and its marker leave room for the length field in this block, or a block of zeros more is needed
  have hzeros : ∃ k, makeList ((if tail.length < 56 then 55 else 63 + 56) - tail.length) 0 =
      some (List.replicate k 0) ∧ 7 + 8 * k = Fips180.zeroBits (8 * (64 * n + tail.length)) := by
    by_cases hshort : tail.length < 56
    · refine ⟨55 - tail.length, ?_, ?_⟩
      · have hnat : ((55 : Int) - tail.length).toNat = 55 - tail.length := by omega
        rw [if_pos hshort, makeList, if_pos (by omega), hnat]
      · rw [Fips180.zeroBits]
        omega
    · refine ⟨119 - tail.length, ?_, ?_⟩
      · have hnat : ((63 + 56 : Int) - tail.length).toNat = 119 - tail.length := by omega
        rw [if_neg hshort, makeList, if_pos (by omega), hnat]
      · rw [Fips180.zeroBits]
        omega
  rcases hzeros with ⟨k, hmake, hk⟩
  refine ⟨tail ++ [0x80] ++ List.replicate k 0 ++ bitvectorToListBe 7
    (((64#32 * BitVec.ofNat 32 n + BitVec.ofNat 32 tail.length) <<< 3#32).zeroExtend 64), ?_, ?_⟩
  · rw [lastData, hmake]
    rfl
  · rw [byteBits_append, byteBits_append, byteBits_append, byteBits_replicate_zero, byteBits_bitvectorToListBe,
      byteBits_marker, total_eq, ← hk, ← List.replicate_append_replicate]
    simp

end Last

/-! ## Whole messages -/

/-- What `sha256-hash` compresses: whole blocks of the message, and `last-data` of the bytes after them. -/
def paddedMessage (data : List Byte) : Option (List Byte) := do
  let r := data.length % 64
  let head := data.take (data.length - r)
  let tail := data.drop (data.length - r)
  let ctx ← sha256UpdateMulti sha256Init head
  let last ← lastData ctx.count tail
  pure (head ++ last)

/-- The hash of a message that comes in chunks and a tail. -/
def sha256Chunks (chunks : List (List Byte)) (tail : List Byte) : Option (List Byte) := do
  let ctx ← chunks.foldlM sha256UpdateMulti sha256Init
  let ctx ← sha256UpdateLast ctx tail
  pure (sha256Finish ctx)

section Messages

variable (data : List Byte)

theorem length_head : (data.take (data.length - data.length % 64)).length = 64 * (data.length / 64) := by
  rw [List.length_take]
  omega

theorem length_tail : (data.drop (data.length - data.length % 64)).length = data.length % 64 := by
  rw [List.length_drop]
  omega

/-- The code pads as the standard does, but for the length field. -/
theorem paddedMessage_eq : ∃ P, paddedMessage data = some P ∧
    byteBits P = Fips180.padWith (byteBits data) (BitVec.ofNat 64 (8 * data.length % 2 ^ 32)) := by
  have htail := length_tail data
  have hlen : 64 * (data.length / 64) + data.length % 64 = data.length := Nat.div_add_mod _ _
  have hshort : (data.drop (data.length - data.length % 64)).length < 64 := by omega
  rcases lastData_eq (hshort.trans (by decide)) (data.length / 64) with ⟨last, hlast, hbits⟩
  rw [htail, hlen] at hbits
  refine ⟨data.take (data.length - data.length % 64) ++ last, ?_, ?_⟩
  · have hcount : sha256Init.count + BitVec.ofNat 32 (data.length / 64) = BitVec.ofNat 32 (data.length / 64) :=
      BitVec.zero_add _
    rw [paddedMessage, sha256UpdateMulti_eq (length_head data), hcount]
    simp only [Option.bind_eq_bind, Option.bind_some, hlast]
    rfl
  · calc byteBits (data.take (data.length - data.length % 64) ++ last)
      _ = byteBits (data.take (data.length - data.length % 64)) ++ byteBits last := byteBits_append _ _
      _ = byteBits (data.take (data.length - data.length % 64) ++ data.drop (data.length - data.length % 64)) ++
            true :: List.replicate (Fips180.zeroBits (8 * data.length)) false ++
              bits (BitVec.ofNat 64 (8 * data.length % 2 ^ 32)) := by
          rw [hbits, byteBits_append]
          simp only [List.append_assoc]
      _ = Fips180.padWith (byteBits data) (BitVec.ofNat 64 (8 * data.length % 2 ^ 32)) := by
          rw [List.take_append_drop, Fips180.padWith, Fips180.marked, length_byteBits]

theorem byteBits_sha256Finish (ctx : Context) : byteBits (sha256Finish ctx) = ctx.state.toList.flatMap bits := by
  rw [byteBits, sha256Finish, List.flatMap_assoc]
  congr 1
  funext x
  exact byteBits_bitvectorToListBe 3 x

/-- `sha256-hash` compresses the message that it pads. -/
theorem sha256Hash_eq_paddedMessage :
    sha256Hash data = (paddedMessage data).bind (fun P => (sha256UpdateMulti sha256Init P).map sha256Finish) := by
  rw [sha256Hash, paddedMessage]
  cases hhead : sha256UpdateMulti sha256Init (data.take (data.length - data.length % 64)) with
  | none => rfl
  | some ctx =>
      cases hlast : lastData ctx.count (data.drop (data.length - data.length % 64)) with
      | none => simp [sha256UpdateLast, hlast]
      | some last =>
          have hmulti : sha256UpdateMulti sha256Init (data.take (data.length - data.length % 64) ++ last) =
              sha256UpdateMulti ctx last := by
            rw [sha256UpdateMulti_append (length_head data), hhead]
            rfl
          simp only [sha256UpdateLast, hlast, Option.bind_eq_bind, Option.bind_some, Option.pure_def, hmulti]
          exact Option.map_eq_bind.symm

/-- What `sha256-hash` returns. -/
theorem sha256Hash_eq : (sha256Hash data).map byteBits = some ((Fips180.hashValue (Fips180.padWith (byteBits data)
    (BitVec.ofNat 64 (8 * data.length % 2 ^ 32)))).toList.flatMap bits) := by
  rcases paddedMessage_eq data with ⟨P, hP, hbits⟩
  have hmod := Fips180.length_padWith_mod (byteBits data) (BitVec.ofNat 64 (8 * data.length % 2 ^ 32))
  rw [← hbits, length_byteBits] at hmod
  have hblocks : (byteBits P).length / 512 = P.length / 64 := by
    rw [length_byteBits]
    omega
  rw [sha256Hash_eq_paddedMessage, hP, Option.bind_some, sha256UpdateMulti_eq (n := P.length / 64) (by omega),
    Option.map_some, Option.map_some, byteBits_sha256Finish, ← hbits, Fips180.hashValue, hblocks, sha256Init_state]

end Messages

/-! ## Chunks -/

theorem foldlM_sha256UpdateMulti (chunks : List (List Byte)) (h : ∀ c ∈ chunks, c.length % 64 = 0) (ctx : Context) :
    chunks.foldlM sha256UpdateMulti ctx = sha256UpdateMulti ctx chunks.flatten := by
  induction chunks generalizing ctx with
  | nil =>
      rw [List.flatten_nil, sha256UpdateMulti_nil]
      rfl
  | cons c chunks ih =>
      have hc := h c List.mem_cons_self
      rw [List.foldlM_cons, List.flatten_cons, sha256UpdateMulti_append (n := c.length / 64) (by omega)]
      congr 1
      funext ctx'
      exact ih (fun c' hc' => h c' (List.mem_cons_of_mem c hc')) ctx'

theorem length_flatten_mod {chunks : List (List Byte)} (h : ∀ c ∈ chunks, c.length % 64 = 0) :
    chunks.flatten.length % 64 = 0 := by
  induction chunks with
  | nil => rfl
  | cons c chunks ih =>
      have hc := h c List.mem_cons_self
      have hrest := ih (fun c' hc' => h c' (List.mem_cons_of_mem c hc'))
      rw [List.flatten_cons, List.length_append]
      omega

/-- How a message is cut into chunks of whole blocks does not matter. -/
theorem sha256Chunks_eq {chunks : List (List Byte)} {tail : List Byte} (h : ∀ c ∈ chunks, c.length % 64 = 0)
    (htail : tail.length < 64) : sha256Chunks chunks tail = sha256Hash (chunks.flatten ++ tail) := by
  have hflat := length_flatten_mod h
  have hhead : (chunks.flatten ++ tail).length - (chunks.flatten ++ tail).length % 64 = chunks.flatten.length := by
    rw [List.length_append]
    omega
  rw [sha256Chunks, foldlM_sha256UpdateMulti chunks h, sha256Hash, hhead, List.take_left, List.drop_left]

/-! ## The standard -/

/-- `sha256-hash` does what the standard says: it compresses the message that the standard pads `data` to, it returns
the digest of the standard, and so do the functions it is made of for a message that comes in chunks. -/
structure MeetsFips (data : List Byte) : Prop where
  padding : (paddedMessage data).map byteBits = some (Fips180.pad (byteBits data))
  digest : (sha256Hash data).map byteBits = some (Fips180.digest (byteBits data))
  chunks : ∀ chunks tail, (∀ c ∈ chunks, c.length % 64 = 0) → tail.length < 64 → chunks.flatten ++ tail = data →
    sha256Chunks chunks tail = sha256Hash data

section Standard

variable {data : List Byte}

/-- The length field is right below 2³² bits. -/
theorem lengthField_eq_iff {l : Nat} (h : l < 2 ^ 64) :
    BitVec.ofNat 64 (l % 2 ^ 32) = BitVec.ofNat 64 l ↔ l < 2 ^ 32 := by
  rw [← BitVec.toNat_inj, BitVec.toNat_ofNat, BitVec.toNat_ofNat]
  omega

theorem padding_iff (h : data.length < 2 ^ 61) :
    (paddedMessage data).map byteBits = some (Fips180.pad (byteBits data)) ↔ data.length < 2 ^ 29 := by
  rcases paddedMessage_eq data with ⟨P, hP, hbits⟩
  rw [hP, Option.map_some, hbits, Option.some_inj, Fips180.pad, Fips180.padWith_inj, length_byteBits,
    lengthField_eq_iff (by omega)]
  omega

theorem digest_of_lt (h : data.length < 2 ^ 29) :
    (sha256Hash data).map byteBits = some (Fips180.digest (byteBits data)) := by
  have hfield : BitVec.ofNat 64 (8 * data.length % 2 ^ 32) = BitVec.ofNat 64 (byteBits data).length := by
    rw [length_byteBits, lengthField_eq_iff (by omega)]
    omega
  rw [sha256Hash_eq, hfield]
  rfl

/-- SHA-256, as far as the length of the message fits into 32 bits. -/
theorem meetsFips_iff (h : data.length < 2 ^ 61) : MeetsFips data ↔ data.length < 2 ^ 29 := by
  constructor
  · intro hmeets
    exact (padding_iff h).mp hmeets.padding
  · intro hshort
    refine ⟨(padding_iff h).mpr hshort, digest_of_lt hshort, ?_⟩
    rintro chunks tail hchunks htail rfl
    exact sha256Chunks_eq hchunks htail

/-- A message of 100 bytes: a block, and a tail that is padded to another one. -/
theorem meetsFips_iff_blocks :
    (List.replicate 100 (0x61 : Byte)).length < 2 ^ 61 ∧ MeetsFips (List.replicate 100 0x61) :=
  ⟨by decide, (meetsFips_iff (by decide)).mpr (by decide)⟩

-- For 2²⁹ bytes the code says that the message has no bits, and the standard that it has 2³².
theorem not_meetsFips_replicate : (List.replicate (2 ^ 29) (0 : Byte)).length < 2 ^ 61 ∧
    (paddedMessage (List.replicate (2 ^ 29) 0)).map byteBits =
      some (Fips180.padWith (byteBits (List.replicate (2 ^ 29) 0)) 0) ∧
    Fips180.pad (byteBits (List.replicate (2 ^ 29) 0)) =
      Fips180.padWith (byteBits (List.replicate (2 ^ 29) 0)) (2 ^ 32) ∧
    ¬ MeetsFips (List.replicate (2 ^ 29) 0) := by
  have hlen : (List.replicate (2 ^ 29) (0 : Byte)).length = 2 ^ 29 := List.length_replicate
  -- only the length matters
  generalize List.replicate (2 ^ 29) (0 : Byte) = data at hlen ⊢
  have hshort : data.length < 2 ^ 61 := by omega
  rcases paddedMessage_eq data with ⟨P, hP, hbits⟩
  have hcode : BitVec.ofNat 64 (8 * data.length % 2 ^ 32) = 0 := by rw [hlen]; rfl
  have hstandard : BitVec.ofNat 64 (byteBits data).length = 2 ^ 32 := by rw [length_byteBits, hlen]; rfl
  refine ⟨hshort, ?_, ?_, ?_⟩
  · rw [hP, Option.map_some, hbits, hcode]
  · rw [Fips180.pad, hstandard]
  · intro hmeets
    have hlt := (padding_iff hshort).mp hmeets.padding
    omega

/-- Beyond that the digests agree only by a collision: the last block of the code and the one of the standard, which
differ in the upper word of the length field, would have to give the same hash value. -/
theorem digest_eq_iff_collision (h : data.length < 2 ^ 61) (hlong : 2 ^ 29 ≤ data.length) :
    ∃ code standard : Nat → Word, code 14 = 0 ∧ standard 14 ≠ 0 ∧ (∀ j, j ≠ 14 → code j = standard j) ∧
      ((sha256Hash data).map byteBits = some (Fips180.digest (byteBits data)) ↔
        Fips180.compress (Fips180.penultimate (byteBits data)) code =
          Fips180.compress (Fips180.penultimate (byteBits data)) standard) := by
  have hzero : (0 : Word).toNat = 0 := rfl
  refine ⟨Fips180.lastBlock (byteBits data) (BitVec.ofNat 64 (8 * data.length % 2 ^ 32)),
    Fips180.lastBlock (byteBits data) (BitVec.ofNat 64 (8 * data.length)), ?_, ?_, ?_, ?_⟩
  · -- the code has cut off the upper word
    apply BitVec.eq_of_toNat_eq
    simp only [Fips180.lastBlock, Nat.lt_irrefl, if_false, if_true, BitVec.extractLsb'_toNat, BitVec.toNat_ofNat]
    rw [Nat.shiftRight_eq_div_pow, hzero]
    omega
  · intro hsame
    have hnat := congrArg BitVec.toNat hsame
    simp only [Fips180.lastBlock, Nat.lt_irrefl, if_false, if_true, BitVec.extractLsb'_toNat, BitVec.toNat_ofNat]
      at hnat
    rw [Nat.shiftRight_eq_div_pow, hzero] at hnat
    omega
  · intro j hj
    have hlower : (BitVec.ofNat 64 (8 * data.length % 2 ^ 32)).extractLsb' 0 32 =
        (BitVec.ofNat 64 (8 * data.length)).extractLsb' 0 32 := by
      apply BitVec.eq_of_toNat_eq
      simp only [BitVec.extractLsb'_toNat, BitVec.toNat_ofNat, Nat.shiftRight_zero]
      omega
    simp only [Fips180.lastBlock, hj, if_false, hlower]
  · rw [sha256Hash_eq, Fips180.digest, Fips180.pad, length_byteBits, Fips180.hashValue_padWith,
      Fips180.hashValue_padWith, Option.some_inj]
    constructor
    · intro hbits
      have hwords := Fips180.flatMap_bits_injective
        ((Fips180.Hash.length_toList _).trans (Fips180.Hash.length_toList _).symm) hbits
      exact Fips180.Hash.toList_injective hwords
    · intro hsame
      rw [hsame]

end Standard

end Sha256
end Serval
