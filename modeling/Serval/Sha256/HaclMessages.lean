import Serval.Sha256.HaclFips

/-!
# HaclMessages — whole messages, in one call or in many, and HMAC

A state has absorbed the bytes of some whole blocks (`Absorbed`), and each call appends to them.  The end of a message
is padded as the standard pads it: unlike `sha256.rkt`, the C code computes the length field in 64 bits.
-/

namespace Serval
namespace Hacl

open Fips180 (Word Hash Bits bits)
open Sha256 (Byte byteBits bitvectorToListBe)

/-! ## Blocks -/

section Blocks

variable {state : Words} {ctx : Sha256.Context} {data : Bytes} {m : Nat}

theorem block_toList {i j : Nat} (data : Bytes) (hi : i < m) (hj : j < 16) :
    Fips180.block (byteBits ((data.offset (64 * i)).toList 64)) 0 j =
      Fips180.block (byteBits (data.toList (64 * m))) i j := by
  have hlen : 64 * m = 64 * i + (64 + 64 * (m - (i + 1))) := by omega
  have hbefore : (byteBits (data.toList (64 * i))).length = 512 * i := by
    rw [Sha256.length_byteBits, Buffer.length_toList]
    omega
  have hfirst : 512 * 0 + 32 * j + 32 ≤ (byteBits ((data.offset (64 * i)).toList 64)).length := by
    rw [Sha256.length_byteBits, Buffer.length_toList]
    omega
  rw [hlen, Buffer.toList_add, Sha256.byteBits_append]
  refine Eq.trans ?_ (Fips180.block_append_right hbefore 0 j).symm
  rw [Buffer.toList_add, Sha256.byteBits_append, Fips180.block_append_left hfirst]

/-- The state after many blocks.  The offsets of 2²⁶ blocks fit into 32 bits. -/
theorem Represents.updateMulti (h : Represents state ctx) (data : Bytes) (hm : m ≤ 2 ^ 26) :
    Represents (updateMulti state data m)
      ⟨Fips180.chain ctx.state (byteBits (data.toList (64 * m))) m, ctx.count + BitVec.ofNat 32 m⟩ := by
  refine forLoop_invariant (I := fun i state' => Represents state'
    ⟨Fips180.chain ctx.state (byteBits (data.toList (64 * m))) i, ctx.count + BitVec.ofNat 32 i⟩) (Nat.zero_le m) ?_ ?_
  · simpa [Fips180.chain] using h
  · intro i state' _ hi ih
    have hoffset : i * 64 % 2 ^ 32 = 64 * i := by omega
    have hcount : ctx.count + BitVec.ofNat 32 (i + 1) = ctx.count + BitVec.ofNat 32 i + 1 := by
      rw [BitVec.ofNat_add, ← BitVec.add_assoc]
      rfl
    rw [hoffset, Fips180.chain, hcount, ← Fips180.compress_congr (fun j hj => block_toList data hi hj)]
    exact ih.update_compress (data.offset (64 * i))

theorem update_eq_updateMulti (state : Words) (data : Bytes) : update state data = updateMulti state data 1 := by
  have hoffset : data.offset (0 * 64 % 2 ^ 32) = data := by
    funext i
    rw [Buffer.offset_apply]
    simp
  rw [updateMulti, forLoop_succ (Nat.le_refl 0), forLoop_self, hoffset]

end Blocks

/-! ## The end of a message -/

section Last

variable {data : Bytes} {n len : Nat}

theorem encodedlen_eq (hn : n < 2 ^ 32) (len : Nat) :
    ((BitVec.ofNat 32 n).zeroExtend 64 * 64 + BitVec.ofNat 64 len) * 8 = BitVec.ofNat 64 (8 * (64 * n + len)) := by
  have h64 : (64 : BitVec 64).toNat = 64 := rfl
  have h8 : (8 : BitVec 64).toNat = 8 := rfl
  apply BitVec.eq_of_toNat_eq
  simp only [BitVec.zeroExtend_eq_setWidth, BitVec.toNat_mul, BitVec.toNat_add, BitVec.toNat_setWidth,
    BitVec.toNat_ofNat, h64, h8]
  omega

/-- The bytes of the last blocks. -/
theorem toList_lastBlocks (count : Word) (data : Bytes) (hlen : len < 120) :
    ∃ k, len + 1 + k + 8 = 64 * (if len < 56 then 1 else 2) ∧
      (lastBlocks count data len).toList (64 * (if len < 56 then 1 else 2)) =
        data.toList len ++ [0x80] ++ List.replicate k 0 ++
          bitvectorToListBe 7 ((count.zeroExtend 64 * 64 + BitVec.ofNat 64 len) * 8) := by
  have hsize : len + 1 + (64 - (len + 8 + 1) % 64) % 64 + 8 = 64 * (if len < 56 then 1 else 2) := by
    by_cases hshort : len < 56
    · rw [if_pos hshort]
      omega
    · rw [if_neg hshort]
      omega
  refine ⟨(64 - (len + 8 + 1) % 64) % 64, hsize, ?_⟩
  rw [← hsize, lastBlocks]
  generalize (64 - (len + 8 + 1) % 64) % 64 = k
  generalize (if len < 56 then 64 else 0) = start
  generalize (count.zeroExtend 64 * 64 + BitVec.ofNat 64 len) * 8 = l
  simp only [store64Be_eq]
  rw [Buffer.toList_add, Buffer.toList_add, Buffer.toList_add, Buffer.toList_one]
  -- message, marker, zeros, length field
  refine congrArg₂ (· ++ ·) (congrArg₂ (· ++ ·) (congrArg₂ (· ++ ·) ?_ ?_) ?_) ?_
  · refine Buffer.toList_congr (fun i hi => ?_)
    rw [Buffer.offset_apply, Buffer.storeAll_of_lt (by omega), Buffer.store_of_ne (by omega),
      Buffer.copy_of_mem (by omega) (by omega), Nat.add_sub_cancel_left]
  · refine List.singleton_inj.mpr ?_
    rw [Buffer.offset_apply, Buffer.offset_apply, Buffer.storeAll_of_lt (by omega)]
    exact Buffer.store_self
  · rw [← Buffer.toList_const]
    refine Buffer.toList_congr (fun i hi => ?_)
    rw [Buffer.offset_apply, Buffer.offset_apply, Buffer.storeAll_of_lt (by omega), Buffer.store_of_ne (by omega),
      Buffer.copy_of_le (by omega)]
  · rw [Buffer.offset_offset, ← Nat.add_assoc, ← Nat.add_assoc]
    exact Buffer.toList_offset_storeAll (length_bitvectorToListBe 7 l)

/-- The last blocks are padded as the standard says. -/
theorem byteBits_lastBlocks (hn : n < 2 ^ 32) (hlen : len < 120) (data : Bytes) :
    byteBits ((lastBlocks (BitVec.ofNat 32 n) data len).toList (64 * (if len < 56 then 1 else 2))) =
      byteBits (data.toList len) ++ true :: List.replicate (Fips180.zeroBits (8 * (64 * n + len))) false ++
        bits (BitVec.ofNat 64 (8 * (64 * n + len))) := by
  rcases toList_lastBlocks (BitVec.ofNat 32 n) data hlen with ⟨k, hsize, hbytes⟩
  have hzeros : 7 + 8 * k = Fips180.zeroBits (8 * (64 * n + len)) := by
    rw [Fips180.zeroBits]
    split_ifs at hsize <;> omega
  rw [hbytes, Sha256.byteBits_append, Sha256.byteBits_append, Sha256.byteBits_append, Sha256.byteBits_replicate_zero,
    Sha256.byteBits_bitvectorToListBe, Sha256.byteBits_marker, encodedlen_eq hn, ← hzeros,
    ← List.replicate_append_replicate]
  simp

end Last

/-! ## The digest -/

section Finish

variable {out : Bytes} {input state : Words} {ctx : Sha256.Context}

/-- The words in the order of their bytes, and the rest of the buffer as it was. -/
theorem uint32sToBeBytes_spec (out : Bytes) (input : Words) (len : Nat) :
    (uint32sToBeBytes out input len).toList (4 * len) = (input.toList len).flatMap (bitvectorToListBe 3) ∧
      ∀ j, 4 * len ≤ j → uint32sToBeBytes out input len j = out j := by
  refine forLoop_invariant (I := fun i (out' : Bytes) => out'.toList (4 * i) =
      (input.toList i).flatMap (bitvectorToListBe 3) ∧ ∀ j, 4 * i ≤ j → out' j = out j) (Nat.zero_le len)
    ⟨rfl, fun _ _ => rfl⟩ ?_
  rintro i out' _ _ ⟨hbytes, hrest⟩
  have hword := length_bitvectorToListBe 3 (input i)
  rw [store32Be_eq]
  refine ⟨?_, fun j hj => ?_⟩
  · have hbelow : (out'.storeAll (4 * i) (bitvectorToListBe 3 (input i))).toList (4 * i) = out'.toList (4 * i) :=
      Buffer.toList_congr (fun j hj => Buffer.storeAll_of_lt hj)
    have hlast : ((out'.storeAll (4 * i) (bitvectorToListBe 3 (input i))).offset (4 * i)).toList 4 =
        bitvectorToListBe 3 (input i) := Buffer.toList_offset_storeAll hword
    rw [Nat.mul_add, Nat.mul_one, Buffer.toList_add, hbelow, hlast, hbytes, Buffer.toList_add, List.flatMap_append]
    simp [Buffer.toList]
  · rw [Buffer.storeAll_of_le (by omega), hrest j (by omega)]

theorem Represents.finish (h : Represents state ctx) (out : Bytes) :
    (finish state out).toList 32 = Sha256.sha256Finish ctx := by
  rw [Sha256.sha256Finish, ← h.hash]
  exact (uint32sToBeBytes_spec out (state.offset 128) 8).1

theorem finish_of_le (state : Words) (out : Bytes) {j : Nat} (hj : 32 ≤ j) : finish state out j = out j :=
  (uint32sToBeBytes_spec out (state.offset 128) 8).2 j hj

end Finish

/-! ## Absorbed bytes -/

/-- The state has absorbed a message of whole blocks. -/
def Absorbed (state : Words) (message : List Byte) : Prop :=
  ∃ n, message.length = 64 * n ∧
    Represents state ⟨Fips180.chain Fips180.initial (byteBits message) n, BitVec.ofNat 32 n⟩

section Absorbed

variable {state : Words} {message : List Byte} {m len : Nat}

theorem absorbed_init (state : Words) : Absorbed (init state) [] := by
  refine ⟨0, rfl, ?_⟩
  have h := represents_init state
  rw [Fips180.chain, ← Sha256.sha256Init_state]
  exact h

theorem Absorbed.updateMulti (h : Absorbed state message) (data : Bytes) (hm : m ≤ 2 ^ 26) :
    Absorbed (updateMulti state data m) (message ++ data.toList (64 * m)) := by
  rcases h with ⟨n, hlen, hrep⟩
  have hbits : (byteBits message).length = 512 * n := by
    rw [Sha256.length_byteBits]
    omega
  refine ⟨n + m, ?_, ?_⟩
  · rw [List.length_append, Buffer.length_toList, hlen, Nat.mul_add]
  · rw [Sha256.byteBits_append, Fips180.chain_append hbits, BitVec.ofNat_add]
    exact hrep.updateMulti data hm

theorem Absorbed.update (h : Absorbed state message) (data : Bytes) :
    Absorbed (update state data) (message ++ data.toList 64) := by
  rw [update_eq_updateMulti]
  exact h.updateMulti data (by decide)

/-- The end of a message, and its digest. -/
theorem Absorbed.digest (h : Absorbed state message) (hshort : message.length < 2 ^ 38) (hlen : len < 120)
    (data out : Bytes) :
    byteBits ((finish (updateLast state data len) out).toList 32) =
      Fips180.digest (byteBits (message ++ data.toList len)) := by
  have hlast := h
  rcases hlast with ⟨n, hn, hrep⟩
  have hcount : state 136 = BitVec.ofNat 32 n := hrep.count
  have hblocks : (if len < 56 then 1 else 2) ≤ 2 ^ 26 := by split_ifs <;> decide
  rcases h.updateMulti (lastBlocks (state 136) data len) hblocks with ⟨N, hN, hrepN⟩
  -- what has been absorbed at the end is the padded message
  have hpad : byteBits (message ++
      (lastBlocks (state 136) data len).toList (64 * (if len < 56 then 1 else 2))) =
        Fips180.pad (byteBits (message ++ data.toList len)) := by
    have htotal : (byteBits (message ++ data.toList len)).length = 8 * (64 * n + len) := by
      rw [Sha256.length_byteBits, List.length_append, Buffer.length_toList, hn]
    rw [hcount, Sha256.byteBits_append, byteBits_lastBlocks (by omega) hlen, Fips180.pad, Fips180.padWith,
      Fips180.marked, htotal, Sha256.byteBits_append]
    simp only [List.append_assoc]
  have hN' : N = (Fips180.pad (byteBits (message ++ data.toList len))).length / 512 := by
    rw [← hpad, Sha256.length_byteBits, hN]
    omega
  rw [updateLast, hrepN.finish, Sha256.byteBits_sha256Finish, Fips180.digest, Fips180.hashValue, ← hN', hpad]

end Absorbed

/-! ## Messages in one call -/

/-- Whole blocks and the bytes after them, into a state that has absorbed some blocks. -/
theorem Absorbed.digest_blocks {state : Words} {message : List Byte} (h : Absorbed state message)
    (hshort : message.length ≤ 64) {len : Nat} (hlen : len < 2 ^ 32) (input out : Bytes) :
    byteBits ((finish (updateLast (Hacl.updateMulti state input (len / 64)) (input.offset (len / 64 * 64)) (len % 64))
      out).toList 32) = Fips180.digest (byteBits (message ++ input.toList len)) := by
  have hall := h.updateMulti input (m := len / 64) (by omega)
  have hsplit : input.toList (64 * (len / 64)) ++ (input.offset (len / 64 * 64)).toList (len % 64) =
      input.toList len := by
    rw [Nat.mul_comm (len / 64) 64, ← Buffer.toList_add, Nat.div_add_mod]
  rw [hall.digest (by rw [List.length_append, Buffer.length_toList]; omega) (by omega), List.append_assoc, hsplit]

theorem byteBits_hash {len : Nat} (hlen : len < 2 ^ 32) (out input : Bytes) :
    byteBits ((hash out input len).toList 32) = Fips180.digest (byteBits (input.toList len)) :=
  (absorbed_init (fun _ => 0)).digest_blocks (by decide) hlen input out

/-- `sha256_hash` computes the digest of the standard, for all the bytes that it sees: the length is cut to 32 bits.
It writes 32 bytes. -/
theorem sha256Hash_eq_digest (out data : Bytes) (len : BitVec 64) :
    byteBits ((sha256Hash out data len).toList 32) = Fips180.digest (byteBits (data.toList (len.toNat % 2 ^ 32))) ∧
      ∀ i, 32 ≤ i → sha256Hash out data len i = out i := by
  have hlen : (len.setWidth 32).toNat = len.toNat % 2 ^ 32 := BitVec.toNat_setWidth _ _
  refine ⟨?_, fun i hi => ?_⟩
  · rw [sha256Hash, byteBits_hash (BitVec.isLt _), hlen]
  · rw [sha256Hash, hash, finish_of_le _ out hi]

/-! ## Messages in many calls -/

/-- A call that adds whole blocks. -/
inductive Call
  | update (data : Bytes)
  | updateMulti (data : Bytes) (n : Nat)

namespace Call

/-- The C function. -/
def run (state : Words) : Call → Words
  | update data => Hacl.update state data
  | updateMulti data n => Hacl.updateMulti state data n

/-- The bytes that a call adds. -/
def bytes : Call → List Byte
  | update data => data.toList 64
  | updateMulti data n => data.toList (64 * n)

/-- The function of `sha256.rkt`. -/
def spec (ctx : Sha256.Context) (call : Call) : Option Sha256.Context :=
  match call with
  | update data => Sha256.sha256Update ctx (data.toList 64)
  | updateMulti data n => Sha256.sha256UpdateMulti ctx (data.toList (64 * n))

end Call

section Calls

variable {state : Words} {message : List Byte} {ctx : Sha256.Context}

theorem Absorbed.run (h : Absorbed state message) {call : Call} (hcall : call.bytes.length ≤ 2 ^ 32) :
    Absorbed (call.run state) (message ++ call.bytes) := by
  cases call with
  | update data => exact h.update data
  | updateMulti data n =>
      rw [Call.bytes, Buffer.length_toList] at hcall
      exact h.updateMulti data (by omega)

theorem Absorbed.foldl_run (h : Absorbed state message) {calls : List Call}
    (hcalls : ∀ c ∈ calls, c.bytes.length ≤ 2 ^ 32) :
    Absorbed (calls.foldl Call.run state) (message ++ calls.flatMap Call.bytes) := by
  induction calls generalizing state message with
  | nil => simpa using h
  | cons call calls ih =>
      rw [List.foldl_cons, List.flatMap_cons, ← List.append_assoc]
      exact ih (h.run (hcalls call List.mem_cons_self)) (fun c hc => hcalls c (List.mem_cons_of_mem call hc))

/-- However a message comes, block by block or many blocks at a time, and with up to 119 bytes in the last call, the
result is the digest of the whole. -/
theorem foldl_run_digest {calls : List Call} (hcalls : ∀ c ∈ calls, c.bytes.length ≤ 2 ^ 32)
    (hshort : (calls.flatMap Call.bytes).length < 2 ^ 38) {len : Nat} (hlen : len < 120) (state : Words)
    (data out : Bytes) :
    byteBits ((finish (updateLast (calls.foldl Call.run (init state)) data len) out).toList 32) =
      Fips180.digest (byteBits (calls.flatMap Call.bytes ++ data.toList len)) := by
  have habsorbed := (absorbed_init state).foldl_run hcalls
  rw [List.nil_append] at habsorbed
  exact habsorbed.digest hshort hlen data out

theorem foldl_run_digest_zeros :
    (∀ c ∈ [Call.update (fun _ => 0), Call.updateMulti (fun _ => 1) 2], c.bytes.length ≤ 2 ^ 32) ∧
      byteBits ((finish (updateLast ([Call.update (fun _ => 0), Call.updateMulti (fun _ => 1) 2].foldl Call.run
        (init (fun _ => 0))) (fun _ => 2) 119) (fun _ => 0)).toList 32) =
      Fips180.digest (byteBits ([Call.update (fun _ => 0), Call.updateMulti (fun _ => 1) 2].flatMap Call.bytes ++
        Buffer.toList (fun _ => 2) 119)) :=
  ⟨by simp [Call.bytes], foldl_run_digest (by simp [Call.bytes]) (by simp [Call.bytes]) (by decide) _ _ _⟩

/-! ## The functions of `sha256.rkt` -/

theorem Represents.run (h : Represents state ctx) {call : Call} (hcall : call.bytes.length ≤ 2 ^ 32) :
    ∃ ctx', call.spec ctx = some ctx' ∧ Represents (call.run state) ctx' := by
  cases call with
  | update data =>
      refine ⟨_, ?_, h.update_compress data⟩
      rw [Call.spec, Sha256.sha256Update, Sha256.sha256Transform_eq Buffer.length_toList]
      rfl
  | updateMulti data n =>
      rw [Call.bytes, Buffer.length_toList] at hcall
      exact ⟨_, Sha256.sha256UpdateMulti_eq Buffer.length_toList, h.updateMulti data (by omega)⟩

theorem Represents.foldl_run (h : Represents state ctx) {calls : List Call}
    (hcalls : ∀ c ∈ calls, c.bytes.length ≤ 2 ^ 32) :
    ∃ ctx', calls.foldlM Call.spec ctx = some ctx' ∧ Represents (calls.foldl Call.run state) ctx' := by
  induction calls generalizing state ctx with
  | nil => exact ⟨ctx, rfl, h⟩
  | cons call calls ih =>
      rcases h.run (hcalls call List.mem_cons_self) with ⟨ctx₁, hspec, h₁⟩
      rcases ih h₁ (fun c hc => hcalls c (List.mem_cons_of_mem call hc)) with ⟨ctx', hrest, h'⟩
      refine ⟨ctx', ?_, h'⟩
      rw [List.foldlM_cons, hspec]
      exact hrest

/-- The two pad the end of a message to the same bytes while its length in bits fits into 32 bits. -/
theorem lastData_eq_lastBlocks {count : Word} {len : Nat} (hlen : len < 120) (hshort : 64 * count.toNat + len < 2 ^ 29)
    (data : Bytes) : Sha256.lastData count (data.toList len) =
      some ((lastBlocks count data len).toList (64 * (if len < 56 then 1 else 2))) := by
  have htail : (data.toList len).length = len := Buffer.length_toList
  rcases Sha256.lastData_eq (htail.trans_lt hlen) count.toNat with ⟨last, hlast, hbits⟩
  have hcount : BitVec.ofNat 32 count.toNat = count := by
    rw [BitVec.ofNat_toNat, BitVec.setWidth_eq]
  have hmod : 8 * (64 * count.toNat + len) % 2 ^ 32 = 8 * (64 * count.toNat + len) := Nat.mod_eq_of_lt (by omega)
  have hsame := byteBits_lastBlocks (BitVec.isLt count) hlen data
  rw [htail, hmod, ← hsame, hcount] at hbits
  have hlength := congrArg List.length hbits
  rw [Sha256.length_byteBits, Sha256.length_byteBits] at hlength
  rw [← hcount, hlast, Fips180.flatMap_bits_injective (by omega) hbits, hcount]

theorem Represents.updateLast (h : Represents state ctx) {len : Nat} (hlen : len < 120)
    (hshort : 64 * ctx.count.toNat + len < 2 ^ 29) (data : Bytes) :
    ∃ ctx', Sha256.sha256UpdateLast ctx (data.toList len) = some ctx' ∧
      Represents (updateLast state data len) ctx' := by
  have hblocks : (if len < 56 then 1 else 2) ≤ 2 ^ 26 := by split_ifs <;> decide
  refine ⟨_, ?_, h.updateMulti (lastBlocks (state 136) data len) hblocks⟩
  rw [Sha256.sha256UpdateLast, lastData_eq_lastBlocks hlen hshort, h.count]
  exact Sha256.sha256UpdateMulti_eq Buffer.length_toList

/-- The C functions refine those of `sha256.rkt`: from a state that represents a context, calls with at most `2 ^ 32`
bytes each lead to one that represents the context that `sha256.rkt` computes.  So does the end of a message, of up to
119 bytes, while the length of the message in bits fits into 32 bits, and then the digests are the same. -/
theorem calls_refine_spec (h : Represents state ctx) {calls : List Call}
    (hcalls : ∀ c ∈ calls, c.bytes.length ≤ 2 ^ 32) :
    ∃ ctx', calls.foldlM Call.spec ctx = some ctx' ∧ Represents (calls.foldl Call.run state) ctx' ∧
      ∀ (data : Bytes) (len : Nat), len < 120 → 64 * ctx'.count.toNat + len < 2 ^ 29 →
        ∃ ctx'', Sha256.sha256UpdateLast ctx' (data.toList len) = some ctx'' ∧
          Represents (updateLast (calls.foldl Call.run state) data len) ctx'' ∧
          ∀ out, (finish (updateLast (calls.foldl Call.run state) data len) out).toList 32 =
            Sha256.sha256Finish ctx'' := by
  rcases h.foldl_run hcalls with ⟨ctx', hspec, h'⟩
  refine ⟨ctx', hspec, h', fun data len hlen hshort => ?_⟩
  rcases h'.updateLast hlen hshort data with ⟨ctx'', hlast, h''⟩
  exact ⟨ctx'', hlast, h'', h''.finish⟩

/-- Three blocks in two calls, the longest end of a message, and the digest. -/
theorem calls_refine_spec_init : ∃ calls ctx ctx', calls = [Call.update (fun _ => 0), Call.updateMulti (fun _ => 1) 2] ∧
    calls.foldlM Call.spec Sha256.sha256Init = some ctx ∧
    Sha256.sha256UpdateLast ctx (Buffer.toList (fun _ => 2) 119) = some ctx' ∧
    Represents (updateLast (calls.foldl Call.run (init (fun _ => 0))) (fun _ => 2) 119) ctx' ∧
    (finish (updateLast (calls.foldl Call.run (init (fun _ => 0))) (fun _ => 2) 119) (fun _ => 0)).toList 32 =
      Sha256.sha256Finish ctx' := by
  have hcalls : ∀ c ∈ [Call.update (fun _ => 0), Call.updateMulti (fun _ => 1) 2], c.bytes.length ≤ 2 ^ 32 := by
    simp [Call.bytes]
  rcases calls_refine_spec (represents_init (fun _ => 0)) hcalls with ⟨ctx, hspec, hrep, hlast⟩
  -- three blocks have been counted
  rcases (absorbed_init (fun _ => 0)).foldl_run hcalls with ⟨n, hlen, hn⟩
  have hcount : ctx.count = BitVec.ofNat 32 n := hrep.count.symm.trans hn.count
  have hthree : 192 = 64 * n := by simpa [Call.bytes] using hlen
  obtain rfl : n = 3 := by omega
  rcases hlast (fun _ => 2) 119 (by decide) (by rw [hcount]; decide) with ⟨ctx', hupdate, hrep', hfinish⟩
  exact ⟨_, ctx, ctx', rfl, hspec, hupdate, hrep', hfinish _⟩

end Calls

/-! ## HMAC -/

section Hmac

theorem toList_xorBytesInplace (a b : Bytes) (len : Nat) :
    (xorBytesInplace a b len).toList len = List.zipWith (· ^^^ ·) (a.toList len) (b.toList len) := by
  have hxor : xorBytesInplace a b len = fun j => if 0 ≤ j ∧ j < 0 + len then a j ^^^ b (j - 0) else a j := by
    have hloop := Buffer.forLoop_modify 0 (fun i x => x ^^^ b i) len a
    simp only [Nat.zero_add] at hloop ⊢
    exact hloop
  apply List.ext_getElem
  · simp
  intro i hi _
  rw [Buffer.length_toList] at hi
  rw [Buffer.getElem_toList, List.getElem_zipWith, Buffer.getElem_toList, Buffer.getElem_toList, hxor]
  simp [hi]

/-- The bytes of a key under a pad, as bits. -/
theorem byteBits_zipWith_xor (b : Byte) (l : List Byte) :
    byteBits (List.zipWith (· ^^^ ·) (List.replicate l.length b) l) =
      List.zipWith xor (byteBits l) (List.replicate l.length (bits b)).flatten := by
  induction l with
  | nil => rfl
  | cons x l ih =>
      rw [List.length_cons, List.replicate_succ, List.replicate_succ, List.zipWith_cons_cons, Sha256.byteBits_cons, ih,
        Sha256.byteBits_cons, List.flatten_cons, List.zipWith_append (by simp), Fips180.bits_xor]

/-- The block that `hmac` makes of a key. -/
def nkey (key : Bytes) (keylen : Nat) : Bytes :=
  if keylen ≤ 64 then Buffer.copy (fun _ => 0) 0 key keylen else hash (fun _ => 0) key keylen

theorem byteBits_nkey (key : Bytes) {keylen : Nat} (h : keylen < 2 ^ 32) :
    byteBits ((nkey key keylen).toList 64) = Fips180.blockKey (byteBits (key.toList keylen)) := by
  rw [nkey, Fips180.blockKey, Sha256.length_byteBits, Buffer.length_toList]
  by_cases hshort : keylen ≤ 64
  · have hsplit : (Buffer.copy (fun _ => 0) 0 key keylen).toList (keylen + (64 - keylen)) =
        key.toList keylen ++ List.replicate (64 - keylen) 0 := by
      rw [Buffer.toList_add, ← Buffer.toList_const]
      congr 1
      · exact Buffer.toList_congr (fun i hi => Buffer.copy_of_mem (Nat.zero_le i) (by omega))
      · exact Buffer.toList_congr (fun i hi => Buffer.copy_of_le (by omega))
    have hlen : 8 * (64 - keylen) = 512 - 8 * keylen := by omega
    rw [Nat.add_sub_cancel' hshort] at hsplit
    rw [if_pos hshort, if_pos (by omega), hsplit, Sha256.byteBits_append, Sha256.byteBits_replicate_zero, hlen,
      Sha256.length_byteBits, Buffer.length_toList]
  · have hsplit : (hash (fun _ => 0) key keylen).toList (32 + 32) =
        (hash (fun _ => 0) key keylen).toList 32 ++ List.replicate 32 0 := by
      rw [Buffer.toList_add, ← Buffer.toList_const]
      refine congrArg₂ (· ++ ·) rfl (Buffer.toList_congr (fun i _ => ?_))
      rw [Buffer.offset_apply, hash, finish_of_le _ _ (Nat.le_add_right 32 i)]
    rw [if_neg hshort, if_neg (by omega), hsplit, Sha256.byteBits_append, Sha256.byteBits_replicate_zero,
      byteBits_hash h, Fips180.length_digest]

theorem byteBits_pad (b : Byte) (key : Bytes) {keylen : Nat} (h : keylen < 2 ^ 32) :
    byteBits ((xorBytesInplace (fun _ => b) (nkey key keylen) 64).toList 64) =
      Fips180.padKey b (byteBits (key.toList keylen)) := by
  have hlen : ((nkey key keylen).toList 64).length = 64 := Buffer.length_toList
  have hxor := byteBits_zipWith_xor b ((nkey key keylen).toList 64)
  rw [hlen] at hxor
  rw [toList_xorBytesInplace, Buffer.toList_const, hxor, byteBits_nkey key h, Fips180.padKey]

/-- The inner hash and the outer one.  The outer message is a block and the 32 bytes of the inner digest. -/
theorem byteBits_hmacCore (mac key data : Bytes) {len : Nat} (h : len < 2 ^ 32) :
    byteBits ((hmacCore mac key data len).toList 32) =
      Fips180.digest (byteBits ((xorBytesInplace (fun _ => 0x5c) key 64).toList 64) ++
        Fips180.digest (byteBits ((xorBytesInplace (fun _ => 0x36) key 64).toList 64) ++
          byteBits (data.toList len))) := by
  have hinner := (absorbed_init (fun _ => 0)).update (xorBytesInplace (fun _ => 0x36) key 64)
  have houter := (absorbed_init (fun _ => 0)).update (xorBytesInplace (fun _ => 0x5c) key 64)
  rw [List.nil_append] at hinner houter
  have hblock : ∀ p : Bytes, (p.toList 64).length = 64 := fun _ => Buffer.length_toList
  rw [hmacCore, houter.digest (by rw [hblock]; decide) (by decide), Sha256.byteBits_append,
    hinner.digest_blocks (by rw [hblock]) h, Sha256.byteBits_append]

/-- `hmac256_hash` computes the code of FIPS 198-1, for all the bytes of the key and of the message that it sees: both
lengths are cut to 32 bits.  It writes 32 bytes. -/
theorem hmac256Hash_eq (out key : Bytes) (keylen : BitVec 64) (data : Bytes) (datalen : BitVec 64) :
    byteBits ((hmac256Hash out key keylen data datalen).toList 32) =
        Fips180.hmac (byteBits (key.toList (keylen.toNat % 2 ^ 32)))
          (byteBits (data.toList (datalen.toNat % 2 ^ 32))) ∧
      ∀ i, 32 ≤ i → hmac256Hash out key keylen data datalen i = out i := by
  have hkeylen : (keylen.setWidth 32).toNat = keylen.toNat % 2 ^ 32 := BitVec.toNat_setWidth _ _
  have hdatalen : (datalen.setWidth 32).toNat = datalen.toNat % 2 ^ 32 := BitVec.toNat_setWidth _ _
  have hmod : ∀ n : Nat, n % 2 ^ 32 < 2 ^ 32 := fun n => Nat.mod_lt n (by decide)
  have hcore : hmac256Hash out key keylen data datalen =
      hmacCore out (nkey key (keylen.toNat % 2 ^ 32)) data (datalen.toNat % 2 ^ 32) := by
    rw [hmac256Hash, hkeylen, hdatalen]
    rfl
  refine ⟨?_, fun i hi => ?_⟩
  · rw [hcore, byteBits_hmacCore _ _ _ (hmod _), byteBits_pad _ _ (hmod _), byteBits_pad _ _ (hmod _), Fips180.hmac]
  · rw [hcore, hmacCore, finish_of_le _ out hi]

end Hmac

end Hacl
end Serval
