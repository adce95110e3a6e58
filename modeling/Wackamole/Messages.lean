import Wackamole.Daemon

/-! The contents of STATE and BALANCE messages and their layout in `Mess`. Every
field is a four byte word; addresses are copied as `s_addr` holds them, all other
fields in the byte order of the host. -/
namespace Wackamole

variable {n : Nat}

/-- `Flip_int32` of Spread: the four bytes in the opposite order. -/
def flipInt32 (w : Word) : Word :=
  w.extractLsb' 0 8 ++ w.extractLsb' 8 8 ++ w.extractLsb' 16 8 ++ w.extractLsb' 24 8

/-- The fields of a STATE message in the order of the comment in
`Send_state_message`. The claims are the pairs of virtual address and priority. -/
structure StateMess where
  gid : GroupId
  realAddress : Address
  index : Nat
  maturity : Int
  numAllocated : Int
  claims : List (Address × Int)
  prefers : List Address
  deriving DecidableEq, Repr

namespace StateMess

/-- The words that `Send_state_message` copies into `Mess`. -/
def words (m : StateMess) : List Word :=
  [m.gid.id0, m.gid.id1, m.gid.id2, m.realAddress, BitVec.ofNat 32 m.index,
    BitVec.ofInt 32 m.maturity, BitVec.ofInt 32 m.numAllocated] ++
  m.claims.flatMap (fun c => [c.1, BitVec.ofInt 32 c.2]) ++
  BitVec.ofNat 32 m.prefers.length :: m.prefers

/-- The reads of `Handle_state`, `word k` being the k-th word of `Mess` after the
byte order correction. A negative count makes its loop run zero times. -/
def read (word : Nat → Word) : StateMess :=
  let count := (word 6).toInt
  let base := 7 + 2 * count.toNat
  { gid := ⟨word 0, word 1, word 2⟩
    realAddress := word 3
    index := (word 4).toNat
    maturity := (word 5).toInt
    numAllocated := count
    claims := (List.range count.toNat).map fun i => (word (7 + 2 * i), (word (8 + 2 * i)).toInt)
    prefers := (List.range (word base).toInt.toNat).map fun i => word (base + 1 + i) }

/-- How many words the reads of `Handle_state` consume. -/
def size (m : StateMess) : Nat := 8 + 2 * m.claims.length + m.prefers.length

end StateMess

/-- A move of a BALANCE message: the new owner and the virtual address it gets. -/
abbrev Move := Address × Address

/-- A BALANCE message as `Balance` leaves it in `Mess`: the word that was written
in front and the moves that were appended behind it. -/
structure BalanceMess where
  count : Nat
  moves : List Move
  deriving DecidableEq, Repr

namespace BalanceMess

def words (m : BalanceMess) : List Word :=
  BitVec.ofNat 32 m.count :: m.moves.flatMap (fun move => [move.1, move.2])

/-- The moves that `Handle_balance` reads: as many as the first word says. -/
def read (word : Nat → Word) : List Move :=
  (List.range (word 0).toInt.toNat).map fun k => (word (1 + 2 * k), word (2 + 2 * k))

end BalanceMess

namespace Daemon

/-- A word of `Mess` as a handler reads it. -/
def word (d : Daemon n) (k : Nat) : Word :=
  if d.endianMismatch then flipInt32 (d.mess.getD k 0#32) else d.mess.getD k 0#32

/-- The handlers correct the byte order in place, so the words they have read
stay flipped in `Mess`. -/
def flipFront (k : Nat) (d : Daemon n) : Daemon n :=
  if d.endianMismatch then
    { d with mess := (d.mess.take k).map flipInt32 ++ d.mess.drop k }
  else d

end Daemon

end Wackamole
