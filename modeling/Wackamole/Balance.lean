import Wackamole.Messages
import Mathlib.Algebra.Order.Ring.Int

/-! `Balance` plans a round of moves at the first member, and `Handle_balance`
applies a BALANCE message at every member. -/
namespace Wackamole

variable {n : Nat}

/-- The working copies of `Balance`: `tempMembers`, `tempTable`, the two indices
that survive from one pass to the next, and the moves written to `Mess`. -/
structure Plan (n : Nat) where
  tempMembers : Nat → Member
  tempTable : Fin n → Entry
  minIndex : Nat
  maxIndex : Nat
  moves : List Move

namespace Plan

def load (p : Plan n) (k : Nat) : Int := (p.tempMembers k).numAllocated

/-- The search for the least and the most loaded member. -/
def scan (numMembers : Nat) (p : Plan n) : Plan n :=
  (List.range numMembers).foldl (fun p i =>
    let p := if p.load i < p.load p.minIndex then { p with minIndex := i } else p
    if p.load i > p.load p.maxIndex then { p with maxIndex := i } else p) p

/-- The first entry of the fullest member that `Balance` may move. -/
def movable (p : Plan n) : Option (Fin n) :=
  (List.finRange n).find? fun j =>
    (p.tempTable j).realIf = (p.tempMembers p.maxIndex).realIf ∧
      (p.tempTable j).claimPriority < prefer

/-- Append the move of entry `j` and account for it. -/
def give (cfg : Config n) (j : Fin n) (p : Plan n) : Plan n :=
  let moves := p.moves ++ [((p.tempMembers p.minIndex).realIf, cfg.pseudoIf j)]
  let tempMembers := Function.update p.tempMembers p.minIndex
    { p.tempMembers p.minIndex with
      numAllocated := (p.tempMembers p.minIndex).numAllocated + 1 }
  let tempMembers := Function.update tempMembers p.maxIndex
    { tempMembers p.maxIndex with
      numAllocated := (tempMembers p.maxIndex).numAllocated - 1 }
  let tempTable := Function.update p.tempTable j
    { p.tempTable j with realIf := (tempMembers p.minIndex).realIf }
  { p with tempMembers, tempTable, moves }

end Plan

/-- The loop of `Balance`. A pass that finds no movable entry falls out of the
inner loop without a move, and still counts. The result is the count written in
front of the message, or nothing when the first pass finds the members level. -/
def planLoop (cfg : Config n) (numMembers : Nat) : Nat → Nat → Plan n → Option (Nat × Plan n)
  | 0, k, p => some (k, p)
  | remaining + 1, k, p =>
    let p := p.scan numMembers
    if p.load p.maxIndex - p.load p.minIndex > 1 then
      match p.movable with
      | some j => planLoop cfg numMembers remaining (k + 1) (p.give cfg j)
      | none => planLoop cfg numMembers remaining (k + 1) p
    else if k = 0 then none
    else some (k, p)

/-- The plan that `Balance` starts from. -/
def Plan.start (d : Daemon n) : Plan n := ⟨d.members, d.allocationTable, 0, 0, []⟩

/-- What `Balance` leaves in `Mess` when it reaches its multicast. -/
def balanceMess (cfg : Config n) (d : Daemon n) : Option BalanceMess :=
  (planLoop cfg d.numMembers cfg.balanceRate 0 (Plan.start d)).map fun (k, p) => ⟨k, p.moves⟩

/-- `num_allocated--` at the old owner and `num_allocated++` at the new one. -/
def moveCredit (old new : Address) (m : Member) : Member :=
  let m := if m.realIf = old then { m with numAllocated := m.numAllocated - 1 } else m
  if m.realIf = new then { m with numAllocated := m.numAllocated + 1 } else m

/-- One move of `Handle_balance`, with the count of releases. The new owner
acquires before the old owner is looked at. -/
def balanceMove (cfg : Config n) (s : Daemon n × Nat) (move : Move) : Daemon n × Nat :=
  let (d, numReleased) := s
  match findVE cfg move.2 with
  | none => (d, numReleased)
  | some i =>
    let old := (d.allocationTable i).realIf
    let d := if cfg.realIf = move.1 then d.acquire i else d
    let (d, numReleased) :=
      if cfg.realIf = old then (d.release i, numReleased + 1) else (d, numReleased)
    let d := { d with
      members := fun j =>
        if j < d.numMembers then moveCredit old move.1 (d.members j) else d.members j }
    (d.setAllocation i { d.allocationTable i with realIf := move.1 }, numReleased)

/-- `Handle_balance` on the decoded moves. -/
def handleBalanceMoves (cfg : Config n) (moves : List Move) (d : Daemon n) : Daemon n :=
  if d.state ≠ .run then d
  else
    let (d, numReleased) := moves.foldl (balanceMove cfg) (d, 0)
    if numReleased ≠ 0 then handlePostRelease cfg d else d

/-- `Handle_balance` on the message buffer. -/
def handleBalance (cfg : Config n) (d : Daemon n) : Daemon n :=
  if d.state ≠ .run then d
  else
    let moves := BalanceMess.read d.word
    handleBalanceMoves cfg moves (d.flipFront (1 + 2 * moves.length))

end Wackamole
