import Wackamole.Daemon
import Wackamole.Library.FirstWinner

/-! One virtual interface during a gather, as a sequence of bids: the claims and
the preferences of the STATE messages in delivery order. `Entry.bid` is the rule
of `Handle_state` for the table entry, `Slot.bid` adds what one member does to its
own `Old_table` and to the address it may have up. -/
namespace Wackamole

open FirstWinner

inductive Bid where
  | claim (sender : Address) (priority : Int)
  | preference (sender : Address)
  deriving DecidableEq

namespace Bid

def claimant? : Bid → Option Address
  | .claim sender _ => some sender
  | .preference _ => none

/-- Senders have an address, and claims carry one of the two priorities that an
owned entry of `Old_table` can have. -/
def Wf : Bid → Prop
  | .claim sender priority => sender ≠ 0#32 ∧ (priority = claimed ∨ priority = preferClaimed)
  | .preference sender => sender ≠ 0#32

/-- A PREFER_CLAIMED claim or a preference, with the entry it makes. -/
def strong : Bid → Option Entry
  | .claim sender priority => if priority = preferClaimed then some ⟨sender, priority⟩ else none
  | .preference sender => some ⟨sender, prefer⟩

/-- A CLAIMED claim, with the entry it makes. -/
def weak : Bid → Option Entry
  | .claim sender priority => if priority = claimed then some ⟨sender, priority⟩ else none
  | .preference _ => none

end Bid

/-- An entry without owner, as `Handle_membership` leaves all of them. -/
abbrev Entry.blank : Entry := ⟨0#32, unclaimed⟩

/-- What one bid does to the entry in `Allocation_table`. -/
def Entry.bid (e : Entry) : Bid → Entry
  | .claim sender priority =>
    if e.realIf = 0#32 then ⟨sender, priority⟩
    else if e.claimPriority = preferClaimed ∨ e.claimPriority = priority then e
    else if e.claimPriority = claimed ∧ priority > prefer then ⟨sender, priority⟩
    else e
  | .preference sender => if e.claimPriority < prefer then ⟨sender, prefer⟩ else e

namespace Entry

def ofStanding : Standing Entry → Entry
  | .vacant => blank
  | .weak e => e
  | .strong e => e

/-- The entries that stand for a weak and for a strong holder. -/
def StandingWf : Standing Entry → Prop
  | .vacant => True
  | .weak e => e.realIf ≠ 0#32 ∧ e.claimPriority = claimed
  | .strong e => e.realIf ≠ 0#32 ∧ (e.claimPriority = prefer ∨ e.claimPriority = preferClaimed)

theorem standingWf_offer {s : Standing Entry} (hs : StandingWf s) {b : Bid} (hb : b.Wf) :
    StandingWf (offer Bid.strong Bid.weak s b) := by
  cases b with
  | preference sender =>
      cases s <;> simp_all [offer, Bid.strong, StandingWf, Bid.Wf]
  | claim sender priority =>
      obtain ⟨hSender, rfl | rfl⟩ := hb <;>
        cases s <;> simp_all [offer, Bid.strong, Bid.weak, StandingWf]

/-- The five priority values compared in `Handle_state` implement the two ranks. -/
theorem bid_ofStanding {s : Standing Entry} (hs : StandingWf s) {b : Bid} (hb : b.Wf) :
    (ofStanding s).bid b = ofStanding (offer Bid.strong Bid.weak s b) := by
  cases b with
  | preference sender =>
      cases s with
      | vacant => simp [ofStanding, Entry.bid, offer, Bid.strong]
      | weak e => simp [ofStanding, Entry.bid, offer, Bid.strong, hs.2]
      | strong e =>
          obtain ⟨_, h | h⟩ := hs <;> simp [ofStanding, Entry.bid, offer, h]
  | claim sender priority =>
      obtain ⟨_, rfl | rfl⟩ := hb
      · cases s with
        | vacant => simp [ofStanding, Entry.bid, offer, Bid.strong, Bid.weak]
        | weak e => simp [ofStanding, Entry.bid, offer, Bid.strong, Bid.weak, hs.1, hs.2]
        | strong e =>
            obtain ⟨h0, h | h⟩ := hs <;> simp [ofStanding, Entry.bid, offer, h, h0]
      · cases s with
        | vacant => simp [ofStanding, Entry.bid, offer, Bid.strong]
        | weak e => simp [ofStanding, Entry.bid, offer, Bid.strong, hs.1, hs.2]
        | strong e =>
            obtain ⟨h0, h | h⟩ := hs <;> simp [ofStanding, Entry.bid, offer, h, h0]

/-- The entry after all bids, by the first winner law: the first strong bid with
its priority, else the first CLAIMED claim, else nobody. -/
def settled (bids : List Bid) : Entry := ofStanding (outcome Bid.strong Bid.weak bids)

@[simp] theorem settled_nil : settled [] = blank := rfl

theorem foldl_bid_standing (bids : List Bid) (hb : ∀ b ∈ bids, b.Wf) (s : Standing Entry)
    (hs : StandingWf s) :
    bids.foldl Entry.bid (ofStanding s) =
        ofStanding (bids.foldl (offer Bid.strong Bid.weak) s) ∧
      StandingWf (bids.foldl (offer Bid.strong Bid.weak) s) := by
  induction bids generalizing s with
  | nil => exact ⟨rfl, hs⟩
  | cons b bids ih =>
      have hb' := hb b List.mem_cons_self
      simp only [List.foldl_cons, bid_ofStanding hs hb']
      exact ih (fun x hx => hb x (List.mem_cons_of_mem b hx)) _ (standingWf_offer hs hb')

theorem foldl_bid (bids : List Bid) (hb : ∀ b ∈ bids, b.Wf) :
    bids.foldl Entry.bid blank = settled bids := by
  have h := (foldl_bid_standing bids hb .vacant trivial).1
  rwa [foldl_offer_vacant] at h

theorem settled_wf (bids : List Bid) (hb : ∀ b ∈ bids, b.Wf) :
    StandingWf (outcome Bid.strong Bid.weak bids) := by
  have h := (foldl_bid_standing bids hb .vacant trivial).2
  rwa [foldl_offer_vacant] at h

end Entry

end Wackamole
