import Mathlib.Data.BitVec
import Serval.Lib.Loops
import Serval.Sha256.Hash

/-!
# Hacl — the SHA-256 and HMAC code of `kernel/hacl`

The C code keeps everything in arrays.  The state is an array of 137 words: the constants `k` at 0, the message
schedule `ws` at 64, the hash value at 128 and the number of blocks so far at 136.  A pointer is a buffer, and a write
through `state + n` is a write to `state`.  The two files of `kernel/hacl` have the same copy of the hash functions.
-/

namespace Serval
namespace Hacl

open Fips180 (Word)
open Sha256 (Byte)

/-- `uint32_t *`. -/
abbrev Words := Buffer Word

/-- `uint8_t *`. -/
abbrev Bytes := Buffer Byte

/-! ## Unaligned accesses -/

/-- `get_unaligned_be32`, as `load32_be`. -/
def load32Be (p : Bytes) : Word :=
  (p 0).zeroExtend 32 <<< 24 ||| (p 1).zeroExtend 32 <<< 16 ||| (p 2).zeroExtend 32 <<< 8 ||| (p 3).zeroExtend 32

/-- `put_unaligned_be16` at `p + start`. -/
def putUnalignedBe16 (val : BitVec 16) (p : Bytes) (start : Nat) : Bytes :=
  (p.store start ((val >>> 8).setWidth 8)).store (start + 1) (val.setWidth 8)

/-- `put_unaligned_be32`, as `store32_be`. -/
def store32Be (p : Bytes) (start : Nat) (val : Word) : Bytes :=
  putUnalignedBe16 (val.setWidth 16) (putUnalignedBe16 ((val >>> 16).setWidth 16) p start) (start + 2)

/-- `put_unaligned_be64`, as `store64_be`. -/
def store64Be (p : Bytes) (start : Nat) (val : BitVec 64) : Bytes :=
  store32Be (store32Be p start ((val >>> 32).setWidth 32)) (start + 4) (val.setWidth 32)

/-- `Hacl_Hash_Lib_LoadStore_uint32s_from_be_bytes`. -/
def uint32sFromBeBytes (output : Words) (input : Bytes) (len : Nat) : Words :=
  forLoop 0 len (fun i output => output.store i (load32Be (input.offset (4 * i)))) output

/-- `Hacl_Hash_Lib_LoadStore_uint32s_to_be_bytes`. -/
def uint32sToBeBytes (output : Bytes) (input : Words) (len : Nat) : Bytes :=
  forLoop 0 len (fun i output => store32Be output (4 * i) (input i)) output

/-! ## The state -/

/-- The constants that `Hacl_Impl_SHA2_256_init` stores at `k1`. -/
def initK : List Word :=
  [0x428a2f98, 0x71374491, 0xb5c0fbcf, 0xe9b5dba5, 0x3956c25b, 0x59f111f1, 0x923f82a4, 0xab1c5ed5,
    0xd807aa98, 0x12835b01, 0x243185be, 0x550c7dc3, 0x72be5d74, 0x80deb1fe, 0x9bdc06a7, 0xc19bf174,
    0xe49b69c1, 0xefbe4786, 0x0fc19dc6, 0x240ca1cc, 0x2de92c6f, 0x4a7484aa, 0x5cb0a9dc, 0x76f988da,
    0x983e5152, 0xa831c66d, 0xb00327c8, 0xbf597fc7, 0xc6e00bf3, 0xd5a79147, 0x06ca6351, 0x14292967,
    0x27b70a85, 0x2e1b2138, 0x4d2c6dfc, 0x53380d13, 0x650a7354, 0x766a0abb, 0x81c2c92e, 0x92722c85,
    0xa2bfe8a1, 0xa81a664b, 0xc24b8b70, 0xc76c51a3, 0xd192e819, 0xd6990624, 0xf40e3585, 0x106aa070,
    0x19a4c116, 0x1e376c08, 0x2748774c, 0x34b0bcb5, 0x391c0cb3, 0x4ed8aa4a, 0x5b9cca4f, 0x682e6ff3,
    0x748f82ee, 0x78a5636f, 0x84c87814, 0x8cc70208, 0x90befffa, 0xa4506ceb, 0xbef9a3f7, 0xc67178f2]

/-- The words that `Hacl_Impl_SHA2_256_init` stores at `h_01`. -/
def initH : List Word :=
  [0x6a09e667, 0xbb67ae85, 0x3c6ef372, 0xa54ff53a, 0x510e527f, 0x9b05688c, 0x1f83d9ab, 0x5be0cd19]

/-- `Hacl_Impl_SHA2_256_init`. -/
def init (state : Words) : Words :=
  ((state.storeAll 0 initK).storeAll 128 initH).store 136 0

/-! ## One block -/

/-- `x >> n | x << (32 - n)`. -/
def rotr (x : Word) (n : Nat) : Word :=
  x >>> n ||| x <<< (32 - n)

/-- The loop of `Hacl_Impl_SHA2_256_update` that extends the schedule: one word. -/
def extend (i : Nat) (state : Words) : Words :=
  let t16 := state (64 + (i - 16))
  let t15 := state (64 + (i - 15))
  let t7 := state (64 + (i - 7))
  let t2 := state (64 + (i - 2))
  state.store (64 + i)
    ((rotr t2 17 ^^^ (rotr t2 19 ^^^ t2 >>> 10)) + t7 + (rotr t15 7 ^^^ (rotr t15 18 ^^^ t15 >>> 3)) + t16)

/-- The loop of `Hacl_Impl_SHA2_256_update` over the rounds: one round. -/
def shuffle (state : Words) (i : Nat) (hash : Words) : Words :=
  let a := hash 0
  let b := hash 1
  let c := hash 2
  let d := hash 3
  let e := hash 4
  let f := hash 5
  let g := hash 6
  let h := hash 7
  let kt := state i
  let wst := state (64 + i)
  let t1 := h + (rotr e 6 ^^^ (rotr e 11 ^^^ rotr e 25)) + (e &&& f ^^^ ~~~e &&& g) + kt + wst
  let t2 := (rotr a 2 ^^^ (rotr a 13 ^^^ rotr a 22)) + (a &&& b ^^^ (a &&& c ^^^ b &&& c))
  hash.storeAll 0 [t1 + t2, a, b, c, d + t1, e, f, g]

/-- `Hacl_Impl_SHA2_256_update`. -/
def update (state : Words) (data : Bytes) : Words :=
  let data := uint32sFromBeBytes (fun _ => 0) data 16
  let state := forLoop 0 16 (fun i state => state.store (64 + i) (data i)) state
  let state := forLoop 16 64 extend state
  let hash := Buffer.copy (fun _ => 0) 0 (state.offset 128) 8
  let hash := forLoop 0 64 (shuffle state) hash
  let state := forLoop 0 8 (fun i state => state.store (128 + i) (state (128 + i) + hash i)) state
  state.store 136 (state 136 + 1)

/-! ## Messages -/

/-- `Hacl_Impl_SHA2_256_update_multi`.  The offset of a block is a 32-bit number. -/
def updateMulti (state : Words) (data : Bytes) (n : Nat) : Words :=
  forLoop 0 n (fun i state => update state (data.offset (i * 64 % 2 ^ 32))) state

/-- The blocks that `Hacl_Impl_SHA2_256_update_last` makes of the end of a message, after `n` blocks. -/
def lastBlocks (n : Word) (data : Bytes) (len : Nat) : Bytes :=
  let start := if len < 56 then 64 else 0
  let blocks := Buffer.copy (fun _ => 0) start data len
  let pad0len := (64 - (len + 8 + 1) % 64) % 64
  let encodedlen := (n.zeroExtend 64 * 64 + BitVec.ofNat 64 len) * 8
  let blocks := blocks.store (start + len) 0x80
  (store64Be blocks (start + len + 1 + pad0len) encodedlen).offset start

/-- `Hacl_Impl_SHA2_256_update_last`. -/
def updateLast (state : Words) (data : Bytes) (len : Nat) : Words :=
  updateMulti state (lastBlocks (state 136) data len) (if len < 56 then 1 else 2)

/-- `Hacl_Impl_SHA2_256_finish`. -/
def finish (state : Words) (hash : Bytes) : Bytes :=
  uint32sToBeBytes hash (state.offset 128) 8

/-- `Hacl_Impl_SHA2_256_hash`. -/
def hash (out : Bytes) (input : Bytes) (len : Nat) : Bytes :=
  let n := len / 64
  let r := len % 64
  let state := init (fun _ => 0)
  let state := updateMulti state input n
  let state := updateLast state (input.offset (n * 64)) r
  finish state out

/-- `sha256_hash` of `kernel/sha256.c`: `len` becomes a 32-bit number on the way. -/
def sha256Hash (out : Bytes) (data : Bytes) (len : BitVec 64) : Bytes :=
  hash out data (len.setWidth 32).toNat

/-! ## HMAC -/

/-- `Hacl_Impl_HMAC_SHA2_256_xor_bytes_inplace`. -/
def xorBytesInplace (a b : Bytes) (len : Nat) : Bytes :=
  forLoop 0 len (fun i a => a.store i (a i ^^^ b i)) a

/-- `Hacl_Impl_HMAC_SHA2_256_hmac_core`.  The inner hash goes into the first bytes of `ipad`. -/
def hmacCore (mac key data : Bytes) (len : Nat) : Bytes :=
  let ipad := xorBytesInplace (fun _ => 0x36) key 64
  let n := len / 64
  let r := len % 64
  let state := update (init (fun _ => 0)) ipad
  let state := updateMulti state data n
  let state := updateLast state (data.offset (n * 64)) r
  let ipad := finish state ipad
  let opad := xorBytesInplace (fun _ => 0x5c) key 64
  let state := update (init (fun _ => 0)) opad
  let state := updateLast state ipad 32
  finish state mac

/-- `Hacl_Impl_HMAC_SHA2_256_hmac`. -/
def hmac (mac key : Bytes) (keylen : Nat) (data : Bytes) (datalen : Nat) : Bytes :=
  let nkey := if keylen ≤ 64 then Buffer.copy (fun _ => 0) 0 key keylen else hash (fun _ => 0) key keylen
  hmacCore mac nkey data datalen

/-- `hmac256_hash` of `kernel/hmac256.c`. -/
def hmac256Hash (out key : Bytes) (keylen : BitVec 64) (data : Bytes) (datalen : BitVec 64) : Bytes :=
  hmac out key (keylen.setWidth 32).toNat data (datalen.setWidth 32).toNat

end Hacl
end Serval
