import Wackamole.Daemon
import Mathlib.Algebra.Order.Ring.Int

/-! `Priority_claim` and `Claim_unclaimed`: what a daemon does with the table
when it leaves the gather. -/
namespace Wackamole

variable {n : Nat}

/-- The inner loop of `Priority_claim` at one member: the counter follows the
entry from its owner in `Old_table` to its owner in `Allocation_table`. -/
def transferCredit (old new : Address) (m : Member) : Member :=
  let m := if m.realIf = old ∧ m.realIf ≠ new then
    { m with numAllocated := m.numAllocated - 1 } else m
  if m.realIf = new ∧ m.realIf ≠ old then
    { m with numAllocated := m.numAllocated + 1 } else m

/-- One pass of the loop in `Priority_claim`, with the count of releases. -/
def priorityClaimEntry (cfg : Config n) (s : Daemon n × Nat) (i : Fin n) : Daemon n × Nat :=
  let (d, numReleased) := s
  let new := (d.allocationTable i).realIf
  let old := (d.oldTable i).realIf
  if (d.allocationTable i).claimPriority = prefer then
    let d := if cfg.realIf = new ∧ cfg.realIf ≠ old then d.acquire i else d
    let (d, numReleased) :=
      if cfg.realIf = old ∧ cfg.realIf ≠ new then (d.release i, numReleased + 1)
      else (d, numReleased)
    let d := { d with
      members := fun j =>
        if j < d.numMembers then transferCredit old new (d.members j) else d.members j }
    (d.setAllocation i ⟨new, preferClaimed⟩, numReleased)
  else (d, numReleased)

/-- The number of entries of `Allocation_table` that name an address. -/
def ownedBy (table : Fin n → Entry) (addr : Address) : Nat :=
  ((List.finRange n).filter fun j => (table j).realIf = addr).length

/-- The tail of `Priority_claim`: a daemon that has just turned mature counts the
allocation of every member anew. -/
def revalidate (d : Daemon n) : Daemon n :=
  if d.maturity ∧ ¬ d.oldMaturity then
    { d with
      oldMaturity := true
      members := fun i =>
        if i < d.numMembers then
          { d.members i with numAllocated := ownedBy d.allocationTable (d.members i).realIf }
        else d.members i }
  else d

def priorityClaim (cfg : Config n) (d : Daemon n) : Daemon n :=
  let (d, numReleased) := (List.finRange n).foldl (priorityClaimEntry cfg) (d, 0)
  let d := if numReleased ≠ 0 then handlePostRelease cfg d else d
  revalidate d

/-- The search of `Claim_unclaimed`: member 0 unless a later member has strictly
less, and the first of those that have least. -/
def memberToClaim (load : Nat → Int) (numMembers : Nat) : Nat :=
  (List.range' 1 (numMembers - 1)).foldl
    (fun best j => if load j < load best then j else best) 0

/-- One pass of the loop in `Claim_unclaimed`. -/
def claimUnclaimedEntry (d : Daemon n) (i : Fin n) : Daemon n :=
  if (d.allocationTable i).claimPriority = unclaimed then
    let chosen := memberToClaim (fun j => (d.members j).numAllocated) d.numMembers
    let d := if d.myIndex = chosen then d.acquire i else d
    let d := { d with
      members := Function.update d.members chosen
        { d.members chosen with numAllocated := (d.members chosen).numAllocated + 1 } }
    d.setAllocation i ⟨(d.members chosen).realIf, claimed⟩
  else d

def claimUnclaimed (d : Daemon n) : Daemon n :=
  (List.finRange n).foldl claimUnclaimedEntry d

end Wackamole
