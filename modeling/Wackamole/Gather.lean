import Wackamole.Messages
import Wackamole.Claim

/-! `Handle_mature` and `Handle_state`: the claims and preferences of one STATE
message are folded into the table, and the last message ends the gather. -/
namespace Wackamole

variable {n : Nat}

/-- `Handle_mature`. -/
def handleMature (cfg : Config n) (d : Daemon n) : Daemon n :=
  if d.maturity then d
  else
    let d := { d with maturity := true }.dequeue .turnMature
    if d.state ≠ .gather then
      let d := claimUnclaimed (priorityClaim cfg d)
      { d with state := .run }.queue .balance
    else d

namespace Daemon

/-- `Members[k].num_allocated--` for one member. -/
def debit (k : Nat) (d : Daemon n) : Daemon n :=
  { d with
    members := Function.update d.members k
      { d.members k with numAllocated := (d.members k).numAllocated - 1 } }

/-- `num_allocated--` at every current member with this real address. -/
def debitOwner (addr : Address) (d : Daemon n) : Daemon n :=
  { d with
    members := fun k =>
      if k < d.numMembers ∧ (d.members k).realIf = addr then
        { d.members k with numAllocated := (d.members k).numAllocated - 1 }
      else d.members k }

end Daemon

/-- One claim of a STATE message, with the count of releases. An entry without an
owner is given away; a claim that meets a settled one loses; a CLAIMED entry
yields to a claim above PREFER; in all other cases nothing happens. -/
def ripClaim (cfg : Config n) (m : StateMess) (s : Daemon n × Nat) (claim : Address × Int) :
    Daemon n × Nat :=
  let (d, numReleased) := s
  match findVE cfg claim.1 with
  | none => (d, numReleased)
  | some j =>
    let e := d.allocationTable j
    if e.realIf = 0#32 then (d.setAllocation j ⟨m.realAddress, claim.2⟩, numReleased)
    else if e.claimPriority = preferClaimed ∨ e.claimPriority = claim.2 then
      let d := d.debit m.index
      let (d, numReleased) :=
        if cfg.realIf = m.realAddress then (releaseAddress cfg claim.1 d, numReleased + 1)
        else (d, numReleased)
      (d.setOld j e, numReleased)
    else if e.claimPriority = claimed ∧ claim.2 > prefer then
      let (d, numReleased) :=
        if cfg.realIf = e.realIf then (releaseAddress cfg claim.1 d, numReleased + 1)
        else (d, numReleased)
      let d := d.debitOwner e.realIf
      let d := d.setAllocation j ⟨m.realAddress, claim.2⟩
      (d.setOld j ⟨m.realAddress, claim.2⟩, numReleased)
    else (d, numReleased)

/-- One preference of a STATE message: it takes every entry below PREFER. -/
def ripPrefer (cfg : Config n) (m : StateMess) (d : Daemon n) (addr : Address) : Daemon n :=
  match findVE cfg addr with
  | none => d
  | some j =>
    if (d.allocationTable j).claimPriority < prefer then
      d.setAllocation j ⟨m.realAddress, prefer⟩
    else d

/-- The slot of the sender in `Members`, filled from its STATE message. -/
def enterMember (m : StateMess) (d : Daemon n) : Daemon n :=
  { d with
    members := Function.update d.members m.index ⟨m.realAddress, m.numAllocated, true⟩ }

/-- `Handle_state` up to the end of its preference loop. -/
def ripState (cfg : Config n) (m : StateMess) (d : Daemon n) : Daemon n :=
  let (d, numReleased) := m.claims.foldl (ripClaim cfg m) (enterMember m d, 0)
  let d := if numReleased ≠ 0 then handlePostRelease cfg d else d
  m.prefers.foldl (ripPrefer cfg m) d

/-- `Handle_state` on a message of the current view, up to the countdown: what
`Priority_claim` finds when this message is the last one. -/
def collectState (cfg : Config n) (m : StateMess) (d : Daemon n) : Daemon n :=
  let d := ripState cfg m d
  let d := if d.maturity = false ∧ m.maturity = 1 then handleMature cfg d else d
  { d with numPendingStates := d.numPendingStates - 1 }

/-- The end of `Handle_state`: the last STATE message of the view ends the gather. -/
def finishGather (cfg : Config n) (d : Daemon n) : Daemon n :=
  if d.numPendingStates = 0 then
    if d.maturity then
      let d := claimUnclaimed (priorityClaim cfg d)
      { d with state := .run }.queue .balance
    else { d with state := .boot }
  else d

/-- `Handle_state` on the decoded message; a message of another view is ignored. -/
def handleStateMess (cfg : Config n) (m : StateMess) (d : Daemon n) : Daemon n :=
  if d.gid = m.gid then finishGather cfg (collectState cfg m d) else d

/-- `Handle_state` on the message buffer. Only the seven words in front are
corrected before the view is compared. -/
def handleState (cfg : Config n) (d : Daemon n) : Daemon n :=
  let m := StateMess.read d.word
  handleStateMess cfg m (d.flipFront (if d.gid = m.gid then m.size else 7))

end Wackamole
