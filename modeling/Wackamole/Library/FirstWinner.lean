import Mathlib.Data.List.Basic

/-! Offers for one prize that arrive in an order. A strong offer takes the prize
from nobody and from a weak holder, a weak offer only from nobody, and a strong
holder keeps it. Whoever comes first among the strong offers holds it in the end,
else whoever comes first among the weak ones. -/
namespace FirstWinner

variable {Offer Holder : Type*} (strong weak : Offer → Option Holder)

inductive Standing (Holder : Type*) where
  | vacant
  | weak (holder : Holder)
  | strong (holder : Holder)
  deriving DecidableEq

/-- One offer. An offer that is neither strong nor weak changes nothing. -/
def offer (s : Standing Holder) (o : Offer) : Standing Holder :=
  match s, strong o, weak o with
  | .strong holder, _, _ => .strong holder
  | _, some holder, _ => .strong holder
  | .vacant, none, some holder => .weak holder
  | s, none, _ => s

/-- The outcome that the order of the offers determines. -/
def outcome (offers : List Offer) : Standing Holder :=
  match offers.findSome? strong, offers.findSome? weak with
  | some holder, _ => .strong holder
  | none, some holder => .weak holder
  | none, none => .vacant

@[simp] theorem foldl_offer_strong (offers : List Offer) (holder : Holder) :
    offers.foldl (offer strong weak) (.strong holder) = .strong holder := by
  induction offers with
  | nil => rfl
  | cons o offers ih => simpa [offer] using ih

theorem foldl_offer_weak (offers : List Offer) (holder : Holder) :
    offers.foldl (offer strong weak) (.weak holder) =
      match offers.findSome? strong with
      | some winner => .strong winner
      | none => .weak holder := by
  induction offers with
  | nil => rfl
  | cons o offers ih =>
      cases hs : strong o with
      | none => simpa [offer, hs] using ih
      | some winner => simp [offer, hs]

/-- The incremental rule amounts to the first winner law. -/
theorem foldl_offer_vacant (offers : List Offer) :
    offers.foldl (offer strong weak) .vacant = outcome strong weak offers := by
  induction offers with
  | nil => rfl
  | cons o offers ih =>
      cases hs : strong o with
      | some winner => simp [offer, outcome, hs]
      | none =>
          cases hw : weak o with
          | none => simpa [offer, outcome, hs, hw] using ih
          | some holder =>
              simp only [List.foldl_cons, offer, hs, hw, foldl_offer_weak, outcome,
                List.findSome?_cons]
              cases offers.findSome? strong <;> rfl

end FirstWinner
