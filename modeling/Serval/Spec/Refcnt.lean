import Serval.Riscv.Regs

/-!
# Refcnt — the ghost reference counts of `serval/spec/refcnt.rkt`

A specification that counts references keeps, for every owner, a permutation of the objects whose
first `cnt` entries are the objects the owner holds.  Taking and dropping a reference swaps the object
with the one at the boundary.
-/

namespace Serval

open Riscv

@[ext] structure Refcnt where
  cnt : Word → Word
  perm : Word → Word → Word
  permInv : Word → Word → Word

namespace Refcnt

def init : Refcnt where
  cnt := fun _ => 0
  perm := fun _ idx => idx
  permInv := fun _ obj => obj

/-- `incr-refcnt`. -/
def incr (ref : Refcnt) (owner object : Word) : Refcnt :=
  let oldOwned := ref.perm owner (ref.cnt owner)
  let oldIdx := ref.permInv owner object
  { cnt := fun own => if own = owner then 1 + ref.cnt own else ref.cnt own
    perm := fun own idx =>
      if own = owner ∧ idx = ref.cnt owner then object
      else if own = owner ∧ idx = oldIdx then oldOwned
      else ref.perm own idx
    permInv := fun own obj =>
      if own = owner ∧ obj = object then ref.cnt owner
      else if own = owner ∧ obj = oldOwned then oldIdx
      else ref.permInv own obj }

/-- `decr-refcnt`. -/
def decr (ref : Refcnt) (owner object : Word) : Refcnt :=
  let oldOwned := ref.perm owner (ref.cnt owner - 1)
  let oldIdx := ref.permInv owner object
  { cnt := fun own => if own = owner then ref.cnt own - 1 else ref.cnt own
    perm := fun own idx =>
      if own = owner ∧ idx = ref.cnt own - 1 then object
      else if own = owner ∧ idx = oldIdx then oldOwned
      else ref.perm own idx
    permInv := fun own obj =>
      if own = owner ∧ obj = object then ref.cnt own - 1
      else if own = owner ∧ obj = oldOwned then oldIdx
      else ref.permInv own obj }

end Refcnt

end Serval
