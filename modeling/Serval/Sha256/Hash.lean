import Serval.Lib.Fips180

/-!
# Hash — the SHA-256 functions of `serval/sha256.rkt`

The functions work on lists of bytes.  `none` is an error of the list functions they call: `take`, `drop` and
`split-at` on a list that is too short, `make-list` of a negative length.  The state is a list of eight words in the
source; here it is a record of eight words, so that the `match` of `RND` always succeeds.
-/

namespace Serval
namespace Sha256

open Fips180 (Word Hash)

abbrev Byte := BitVec 8

/-! ## Lists and vectors -/

/-- `take`. -/
def take (data : List Byte) (n : Nat) : Option (List Byte) :=
  if n ≤ data.length then some (data.take n) else none

/-- `drop`. -/
def drop (data : List Byte) (n : Nat) : Option (List Byte) :=
  if n ≤ data.length then some (data.drop n) else none

/-- `make-list`. -/
def makeList (n : Int) (b : Byte) : Option (List Byte) :=
  if 0 ≤ n then some (List.replicate n.toNat b) else none

/-- `list->bitvector/be` of a word. -/
def listToBitvectorBe : List Byte → Option Word
  | [b₀, b₁, b₂, b₃] => some (b₀ ++ b₁ ++ b₂ ++ b₃)
  | _ => none

/-- `bitvector->list/be` of `k + 1` bytes. -/
def bitvectorToListBe : (k : Nat) → BitVec (8 * (k + 1)) → List Byte
  | 0, x => [x]
  | k + 1, x => x.extractLsb' (8 * (k + 1)) 8 :: bitvectorToListBe k (x.extractLsb' 0 (8 * (k + 1)))

/-! ## Functions on words -/

/-- `Ch`. -/
def Ch (x y z : Word) : Word :=
  z ^^^ (x &&& (y ^^^ z))

/-- `Maj`. -/
def Maj (x y z : Word) : Word :=
  (x &&& y) ||| (z &&& (x ||| y))

/-- `rotate-right`. -/
def rotateRight (x n : Word) : Word :=
  (x >>> n) ||| (x <<< (32#32 - n))

/-- `Sigma0`. -/
def Sigma0 (x : Word) : Word :=
  rotateRight x 2 ^^^ rotateRight x 13 ^^^ rotateRight x 22

/-- `Sigma1`. -/
def Sigma1 (x : Word) : Word :=
  rotateRight x 6 ^^^ rotateRight x 11 ^^^ rotateRight x 25

/-- `Gamma0`. -/
def Gamma0 (x : Word) : Word :=
  rotateRight x 7 ^^^ rotateRight x 18 ^^^ x >>> 3#32

/-- `Gamma1`. -/
def Gamma1 (x : Word) : Word :=
  rotateRight x 17 ^^^ rotateRight x 19 ^^^ x >>> 10#32

/-- `K`. -/
def K : List Word :=
  [0x428a2f98, 0x71374491, 0xb5c0fbcf, 0xe9b5dba5,
    0x3956c25b, 0x59f111f1, 0x923f82a4, 0xab1c5ed5,
    0xd807aa98, 0x12835b01, 0x243185be, 0x550c7dc3,
    0x72be5d74, 0x80deb1fe, 0x9bdc06a7, 0xc19bf174,
    0xe49b69c1, 0xefbe4786, 0x0fc19dc6, 0x240ca1cc,
    0x2de92c6f, 0x4a7484aa, 0x5cb0a9dc, 0x76f988da,
    0x983e5152, 0xa831c66d, 0xb00327c8, 0xbf597fc7,
    0xc6e00bf3, 0xd5a79147, 0x06ca6351, 0x14292967,
    0x27b70a85, 0x2e1b2138, 0x4d2c6dfc, 0x53380d13,
    0x650a7354, 0x766a0abb, 0x81c2c92e, 0x92722c85,
    0xa2bfe8a1, 0xa81a664b, 0xc24b8b70, 0xc76c51a3,
    0xd192e819, 0xd6990624, 0xf40e3585, 0x106aa070,
    0x19a4c116, 0x1e376c08, 0x2748774c, 0x34b0bcb5,
    0x391c0cb3, 0x4ed8aa4a, 0x5b9cca4f, 0x682e6ff3,
    0x748f82ee, 0x78a5636f, 0x84c87814, 0x8cc70208,
    0x90befffa, 0xa4506ceb, 0xbef9a3f7, 0xc67178f2]

/-! ## One block -/

/-- `W` of `sha256-transform`. -/
def W (data : List Byte) (i : Nat) : Option Word :=
  if i < 16 then do
    let rest ← drop data (i * 4)
    let word ← take rest 4
    listToBitvectorBe word
  else do
    let w₂ ← W data (i - 2)
    let w₇ ← W data (i - 7)
    let w₁₅ ← W data (i - 15)
    let w₁₆ ← W data (i - 16)
    pure (Gamma1 w₂ + w₇ + Gamma0 w₁₅ + w₁₆)
termination_by i

/-- `RND` of `sha256-transform`. -/
def RND (state : Hash) (k w : Word) : Hash :=
  let t₀ := state.h + Sigma1 state.e + Ch state.e state.f state.g + k + w
  let t₁ := Sigma0 state.a + Maj state.a state.b state.c
  ⟨t₀ + t₁, state.a, state.b, state.c, state.d + t₀, state.e, state.f, state.g⟩

/-- `round` of `sha256-transform`, for the index `n - 1`. -/
def round (data : List Byte) (state : Hash) : Nat → Option Hash
  | 0 => some state
  | n + 1 => do
      let s ← round data state n
      let k ← K[n]?
      let w ← W data n
      pure (RND s k w)

/-- `sha256-transform`. -/
def sha256Transform (state : Hash) (data : List Byte) : Option Hash := do
  let s ← round data state 64
  pure (state + s)

/-! ## Contexts -/

/-- `sha256`: the state, and the number of blocks so far. -/
structure Context where
  state : Hash
  count : BitVec 32

/-- `sha256-init`. -/
def sha256Init : Context where
  state := ⟨0x6a09e667, 0xbb67ae85, 0x3c6ef372, 0xa54ff53a, 0x510e527f, 0x9b05688c, 0x1f83d9ab, 0x5be0cd19⟩
  count := 0

/-- `sha256-update`. -/
def sha256Update (ctx : Context) (data : List Byte) : Option Context := do
  let state ← sha256Transform ctx.state data
  pure ⟨state, ctx.count + 1⟩

/-- `sha256-update-multi`. -/
def sha256UpdateMulti (ctx : Context) (data : List Byte) : Option Context :=
  if data = [] then
    some ctx
  else if 64 ≤ data.length then
    (sha256Update ctx (data.take 64)).bind (fun ctx' => sha256UpdateMulti ctx' (data.drop 64))
  else
    -- `split-at` fails
    none
termination_by data.length
decreasing_by
  rw [List.length_drop]
  omega

/-- `last-data` of `sha256-update-last`: the end of a message, padded. -/
def lastData (count : BitVec 32) (data : List Byte) : Option (List Byte) := do
  let len := data.length
  let total := 64#32 * count + BitVec.ofNat 32 len
  let zeros ← makeList ((if len < 56 then 55 else 63 + 56) - len) 0
  pure (data ++ [0x80] ++ zeros ++ bitvectorToListBe 7 ((total <<< 3#32).zeroExtend 64))

/-- `sha256-update-last`. -/
def sha256UpdateLast (ctx : Context) (data : List Byte) : Option Context := do
  sha256UpdateMulti ctx (← lastData ctx.count data)

/-- `sha256-finish`. -/
def sha256Finish (ctx : Context) : List Byte :=
  ctx.state.toList.flatMap (bitvectorToListBe 3)

/-- `sha256-hash`. -/
def sha256Hash (data : List Byte) : Option (List Byte) := do
  let r := data.length % 64
  -- `split-at-right`
  let head := data.take (data.length - r)
  let tail := data.drop (data.length - r)
  let ctx ← sha256UpdateMulti sha256Init head
  let ctx ← sha256UpdateLast ctx tail
  pure (sha256Finish ctx)

end Sha256
end Serval
