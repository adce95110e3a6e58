import Wackamole.Auction
import Mathlib.Data.List.TakeWhile

/-! The view that one member has of one virtual interface during a gather: the
entry of `Allocation_table`, the entry of `Old_table`, and whether the interface
is acquired. The conflict branches of `Handle_state` overwrite `Old_table` also
for the claims of other members, and that is where a member can lose track. -/
namespace Wackamole

open FirstWinner

structure Slot where
  entry : Entry
  old : Entry
  acquired : Bool
  deriving DecidableEq

/-- What one bid does at the member with the real address `me`. -/
def Slot.bid (me : Address) (s : Slot) : Bid → Slot
  | .claim sender priority =>
    if s.entry.realIf = 0#32 then { s with entry := ⟨sender, priority⟩ }
    else if s.entry.claimPriority = preferClaimed ∨ s.entry.claimPriority = priority then
      { s with old := s.entry, acquired := s.acquired && decide (me ≠ sender) }
    else if s.entry.claimPriority = claimed ∧ priority > prefer then
      { entry := ⟨sender, priority⟩
        old := ⟨sender, priority⟩
        acquired := s.acquired && decide (me ≠ s.entry.realIf) }
    else s
  | .preference sender => { s with entry := s.entry.bid (.preference sender) }

@[simp] theorem Slot.bid_entry (me : Address) (s : Slot) (b : Bid) :
    (s.bid me b).entry = s.entry.bid b := by
  cases b with
  | preference sender => rfl
  | claim sender priority =>
      simp only [Slot.bid, Entry.bid]
      split_ifs <;> rfl

theorem Slot.foldl_bid_entry (me : Address) (bids : List Bid) (s : Slot) :
    (bids.foldl (Slot.bid me) s).entry = bids.foldl Entry.bid s.entry := by
  induction bids generalizing s with
  | nil => rfl
  | cons b bids ih => rw [List.foldl_cons, ih, Slot.bid_entry, List.foldl_cons]

def Bid.isClaim : Bid → Bool
  | .claim _ _ => true
  | .preference _ => false

/-- The members that claim the interface, in delivery order. -/
def claimants (bids : List Bid) : List Address := bids.filterMap Bid.claimant?

/-- The first strong bid is a preference: the interface goes to a member that only
prefers it. -/
def taken (bids : List Bid) : Prop := (Entry.settled bids).claimPriority = prefer

instance (bids : List Bid) : Decidable (taken bids) := by unfold taken; infer_instance

/-- The claims that are settled among each other: all of them, or those delivered
before the preference that takes the interface. -/
def liveClaimants (bids : List Bid) : List Address :=
  if taken bids then claimants (bids.takeWhile Bid.isClaim) else claimants bids

/-- The owner among these claims. -/
def liveOwner (bids : List Bid) : Address :=
  if taken bids then (Entry.settled (bids.takeWhile Bid.isClaim)).realIf
  else (Entry.settled bids).realIf

section FirstStrong

variable {bids : List Bid}

theorem settled_eq_of_strong {e : Entry} (h : bids.findSome? Bid.strong = some e) :
    Entry.settled bids = e := by
  simp [Entry.settled, outcome, h, Entry.ofStanding]

theorem settled_of_noStrong (h : bids.findSome? Bid.strong = none) :
    Entry.settled bids = (bids.findSome? Bid.weak).getD Entry.blank := by
  unfold Entry.settled outcome
  rw [h]
  cases bids.findSome? Bid.weak <;> rfl

theorem weak_priority {b : Bid} {e : Entry} (h : b.weak = some e) : e.claimPriority = claimed := by
  cases b with
  | preference sender => simp [Bid.weak] at h
  | claim sender priority =>
      simp only [Bid.weak, Option.ite_none_right_eq_some] at h
      obtain ⟨hp, he⟩ := h
      cases he
      exact hp

/-- A preference takes the interface exactly when it comes before every
PREFER_CLAIMED claim. -/
theorem taken_iff : taken bids ↔
    ∃ sender, bids.findSome? Bid.strong = some ⟨sender, prefer⟩ := by
  unfold taken
  cases h : bids.findSome? Bid.strong with
  | none =>
      rw [settled_of_noStrong h]
      cases hw : bids.findSome? Bid.weak with
      | none => simp
      | some e =>
          obtain ⟨b, _, hb⟩ := List.exists_of_findSome?_eq_some hw
          simp [weak_priority hb]
  | some e =>
      rw [settled_eq_of_strong h]
      constructor
      · intro hp
        exact ⟨e.realIf, by rw [← hp]⟩
      · rintro ⟨sender, he⟩
        cases he
        rfl

theorem taken_split (h : taken bids) :
    ∃ before sender after, bids = before ++ .preference sender :: after ∧
      ∀ b ∈ before, b.strong = none := by
  obtain ⟨sender, hs⟩ := taken_iff.mp h
  obtain ⟨before, b, after, rfl, hb, hBefore⟩ := List.findSome?_eq_some_iff.mp hs
  cases b with
  | preference sender' => exact ⟨before, sender', after, rfl, hBefore⟩
  | claim sender' priority =>
      simp only [Bid.strong, Option.ite_none_right_eq_some] at hb
      obtain ⟨hp, he⟩ := hb
      cases he
      simp at hp

theorem isClaim_of_strong_none {b : Bid} (h : b.strong = none) : b.isClaim = true := by
  cases b with
  | claim sender priority => rfl
  | preference sender => simp [Bid.strong] at h

theorem taken_append (h : taken bids) (more : List Bid) :
    taken (bids ++ more) ∧
      (bids ++ more).takeWhile Bid.isClaim = bids.takeWhile Bid.isClaim := by
  obtain ⟨before, sender, after, rfl, hBefore⟩ := taken_split h
  have hClaims : ∀ b ∈ before, b.isClaim = true :=
    fun b hb => isClaim_of_strong_none (hBefore b hb)
  constructor
  · obtain ⟨sender', hs⟩ := taken_iff.mp h
    exact taken_iff.mpr ⟨sender', by rw [List.findSome?_append, hs]; rfl⟩
  · rw [List.append_assoc, List.takeWhile_append_of_pos hClaims,
      List.takeWhile_append_of_pos hClaims]
    simp [Bid.isClaim]

theorem liveClaimants_append_of_taken (h : taken bids) (more : List Bid) :
    liveClaimants (bids ++ more) = liveClaimants bids ∧
      liveOwner (bids ++ more) = liveOwner bids := by
  obtain ⟨hTaken, hTake⟩ := taken_append h more
  simp [liveClaimants, liveOwner, h, hTaken, hTake]

/-- A preference that takes the interface leaves the settled claims as they were. -/
theorem live_snoc_preference (h : ¬ taken bids) (sender : Address) :
    liveClaimants (bids ++ [.preference sender]) = liveClaimants bids ∧
      liveOwner (bids ++ [.preference sender]) = liveOwner bids := by
  cases hs : bids.findSome? Bid.strong with
  | some e =>
      have hSettled : Entry.settled (bids ++ [.preference sender]) = Entry.settled bids := by
        rw [settled_eq_of_strong hs, settled_eq_of_strong]
        rw [List.findSome?_append, hs]
        rfl
      have hNot : ¬ taken (bids ++ [.preference sender]) := by
        unfold taken
        rw [hSettled]
        exact h
      simp [liveClaimants, liveOwner, h, hNot, hSettled, claimants, List.filterMap_append,
        Bid.claimant?]
  | none =>
      have hTaken : taken (bids ++ [.preference sender]) :=
        taken_iff.mpr ⟨sender, by rw [List.findSome?_append, hs]; rfl⟩
      have hClaims : ∀ b ∈ bids, b.isClaim = true := fun b hb =>
        isClaim_of_strong_none (List.findSome?_eq_none_iff.mp hs b hb)
      have hTake : (bids ++ [Bid.preference sender]).takeWhile Bid.isClaim = bids := by
        rw [List.takeWhile_append_of_pos hClaims]
        simp [Bid.isClaim]
      simp [liveClaimants, liveOwner, h, hTaken, hTake]

theorem strong_claimant {b : Bid} {e : Entry} (h : b.strong = some e)
    (hp : e.claimPriority ≠ prefer) :
    b.claimant? = some e.realIf ∧ e.claimPriority = preferClaimed := by
  cases b with
  | preference sender =>
      cases h
      exact absurd rfl hp
  | claim sender priority =>
      simp only [Bid.strong, Option.ite_none_right_eq_some] at h
      obtain ⟨hPriority, he⟩ := h
      cases he
      exact ⟨rfl, hPriority⟩

theorem weak_claimant {b : Bid} {e : Entry} (h : b.weak = some e) :
    b.claimant? = some e.realIf := by
  cases b with
  | preference sender => simp [Bid.weak] at h
  | claim sender priority =>
      simp only [Bid.weak, Option.ite_none_right_eq_some] at h
      cases h.2
      rfl

theorem claimants_ne_zero (hWf : ∀ b ∈ bids, b.Wf) {a : Address} (h : a ∈ claimants bids) :
    a ≠ 0#32 := by
  obtain ⟨b, hb, ha⟩ := List.mem_filterMap.mp h
  have hw := hWf b hb
  cases b with
  | preference sender => simp [Bid.claimant?] at ha
  | claim sender priority =>
      cases ha
      exact hw.1

/-- While no preference has taken the interface, its owner is one of the claimants. -/
theorem settled_of_not_taken (hWf : ∀ b ∈ bids, b.Wf) (h : ¬ taken bids) (hne : bids ≠ []) :
    (Entry.settled bids).realIf ∈ claimants bids ∧
      ((Entry.settled bids).claimPriority = claimed ∨
        (Entry.settled bids).claimPriority = preferClaimed) := by
  cases hs : bids.findSome? Bid.strong with
  | some e =>
      obtain ⟨b, hb, hbe⟩ := List.exists_of_findSome?_eq_some hs
      rw [taken, settled_eq_of_strong hs] at h
      rw [settled_eq_of_strong hs]
      obtain ⟨hClaimant, hPriority⟩ := strong_claimant hbe h
      exact ⟨List.mem_filterMap.mpr ⟨b, hb, hClaimant⟩, .inr hPriority⟩
  | none =>
      obtain ⟨b, bids', rfl⟩ := List.exists_cons_of_ne_nil hne
      have hWeak : ∃ e, b.weak = some e := by
        have hStrong := List.findSome?_eq_none_iff.mp hs b List.mem_cons_self
        have hb := hWf b List.mem_cons_self
        cases b with
        | preference sender => simp [Bid.strong] at hStrong
        | claim sender priority =>
            obtain ⟨_, rfl | rfl⟩ := hb
            · exact ⟨_, rfl⟩
            · simp [Bid.strong] at hStrong
      obtain ⟨e, he⟩ := hWeak
      rw [settled_of_noStrong hs, List.findSome?_cons, he]
      refine ⟨List.mem_filterMap.mpr ⟨b, List.mem_cons_self, weak_claimant he⟩, .inl ?_⟩
      exact weak_priority he

end FirstStrong

/-- The bids of distinct members, as one gather delivers them. -/
structure BidsWf (bids : List Bid) : Prop where
  wf : ∀ b ∈ bids, b.Wf
  nodup : (claimants bids).Nodup

theorem BidsWf.of_append {bids more : List Bid} (h : BidsWf (bids ++ more)) : BidsWf bids where
  wf b hb := h.wf b (List.mem_append_left more hb)
  nodup := by
    have hn := h.nodup
    rw [claimants, List.filterMap_append] at hn
    exact hn.of_append_left

/-- What a member knows of an interface after the bids `bids`, of which those that
are settled among each other matter. It keeps the address unless its own claim has
lost, and its `Old_table` names the owner as soon as two claims have met. -/
structure Tracked (me : Address) (old : Address) (held : Bool) (bids : List Bid) (s : Slot) :
    Prop where
  entry : s.entry = Entry.settled bids
  acquired : s.acquired =
    (held && (decide (me ∉ liveClaimants bids) || decide (me = liveOwner bids)))
  old : s.old.realIf = if 2 ≤ (liveClaimants bids).length then liveOwner bids else old

namespace Tracked

variable {me old sender : Address} {priority : Int} {held : Bool} {bids : List Bid} {s : Slot}

theorem initial (e : Entry) : Tracked me e.realIf held [] ⟨Entry.blank, e, held⟩ where
  entry := rfl
  acquired := by simp [liveClaimants, claimants]
  old := by simp [liveClaimants, claimants]

theorem bid_taken (h : Tracked me old held bids s) (hWf : ∀ b ∈ bids, b.Wf) (hTaken : taken bids)
    {b : Bid} (hb : b.Wf) : Tracked me old held (bids ++ [b]) (s.bid me b) := by
  obtain ⟨hLive, hOwner⟩ := liveClaimants_append_of_taken hTaken [b]
  have hEntry : s.entry.claimPriority = prefer := by rw [h.entry]; exact hTaken
  have hNonzero : s.entry.realIf ≠ 0#32 := by
    obtain ⟨sender, hs⟩ := taken_iff.mp hTaken
    obtain ⟨b', hb', hStrong⟩ := List.exists_of_findSome?_eq_some hs
    have hw := hWf b' hb'
    rw [h.entry, settled_eq_of_strong hs]
    cases b' with
    | preference sender' => cases hStrong; exact hw
    | claim sender' priority =>
        simp only [Bid.strong, Option.ite_none_right_eq_some] at hStrong
        cases hStrong.2
        exact hw.1
  have hSame : s.bid me b = s := by
    cases b with
    | preference sender => simp [Slot.bid, Entry.bid, hEntry]
    | claim sender priority =>
        obtain ⟨_, rfl | rfl⟩ := hb <;> simp [Slot.bid, hEntry, hNonzero]
  have hSettled : Entry.settled (bids ++ [b]) = Entry.settled bids := by
    obtain ⟨sender, hs⟩ := taken_iff.mp hTaken
    rw [settled_eq_of_strong hs, settled_eq_of_strong]
    rw [List.findSome?_append, hs]
    rfl
  rw [hSame]
  exact ⟨by rw [hSettled]; exact h.entry, by rw [hLive, hOwner]; exact h.acquired,
    by rw [hLive, hOwner]; exact h.old⟩

theorem bid_preference (h : Tracked me old held bids s) (hWf : ∀ b ∈ bids, b.Wf)
    (hTaken : ¬ taken bids) {sender : Address} (hSender : sender ≠ 0#32) :
    Tracked me old held (bids ++ [.preference sender]) (s.bid me (.preference sender)) := by
  obtain ⟨hLive, hOwner⟩ := live_snoc_preference hTaken sender
  have hWf' : ∀ b ∈ bids ++ [.preference sender], b.Wf := by
    simpa [or_imp, forall_and, Bid.Wf] using ⟨hWf, hSender⟩
  constructor
  · rw [Slot.bid_entry, h.entry, ← Entry.foldl_bid _ hWf', List.foldl_append,
      Entry.foldl_bid _ hWf]
    rfl
  · rw [hLive, hOwner]
    exact h.acquired
  · rw [hLive, hOwner]
    exact h.old

/-- A claim among the settled ones: it opens the interface, loses to the owner, or
as the first PREFER_CLAIMED claim displaces a CLAIMED owner. -/
theorem bid_claim (h : Tracked me old held bids s) (hWf : BidsWf (bids ++ [.claim sender priority]))
    (hTaken : ¬ taken bids) :
    Tracked me old held (bids ++ [.claim sender priority]) (s.bid me (.claim sender priority)) := by
  have hWfBids := hWf.of_append.wf
  have hNot : ¬ taken (bids ++ [.claim sender priority]) := by
    intro hAll
    obtain ⟨winner, hs⟩ := taken_iff.mp hAll
    rw [List.findSome?_append] at hs
    cases hFirst : bids.findSome? Bid.strong with
    | some e =>
        rw [hFirst] at hs
        exact hTaken (taken_iff.mpr ⟨winner, hFirst.trans (by simpa using hs)⟩)
    | none =>
        rw [hFirst] at hs
        simp [Bid.strong] at hs
        omega
  have hEntry : (s.bid me (.claim sender priority)).entry =
      Entry.settled (bids ++ [.claim sender priority]) := by
    rw [Slot.bid_entry, h.entry, ← Entry.foldl_bid _ hWf.wf, List.foldl_append,
      Entry.foldl_bid _ hWfBids]
    rfl
  have hLive : liveClaimants (bids ++ [.claim sender priority]) = claimants bids ++ [sender] := by
    simp [liveClaimants, hNot, claimants, Bid.claimant?]
  have hOwner : liveOwner (bids ++ [.claim sender priority]) =
      (s.bid me (.claim sender priority)).entry.realIf := by
    rw [hEntry]
    simp [liveOwner, hNot]
  have hAcquired : s.acquired = (held && (decide (me ∉ claimants bids) ||
      decide (me = s.entry.realIf))) := by
    rw [h.acquired, h.entry]
    simp [liveClaimants, liveOwner, hTaken]
  have hOld : s.old.realIf =
      if 2 ≤ (claimants bids).length then s.entry.realIf else old := by
    rw [h.old, h.entry]
    simp [liveClaimants, liveOwner, hTaken]
  have hNodup : sender ∉ claimants bids := by
    have hn := hWf.nodup
    rw [claimants, List.filterMap_append] at hn
    exact fun hMem => (List.nodup_append.mp hn).2.2 sender hMem sender (by simp [Bid.claimant?]) rfl
  refine ⟨hEntry, ?_, ?_⟩ <;> rw [hLive, hOwner]
  all_goals
    obtain ⟨_, hBid⟩ := hWf.wf (.claim sender priority) (by simp)
    by_cases hEmpty : bids = []
  · have hBlank : s.entry = Entry.blank := by rw [h.entry, hEmpty]; rfl
    simp only [Slot.bid, hBlank, ↓reduceIte, hAcquired, hEmpty, claimants, List.filterMap_nil,
      List.nil_append, List.mem_singleton]
    by_cases hMe : me = sender <;> simp [hMe]
  · obtain ⟨hMem, hPriority⟩ := h.entry ▸ settled_of_not_taken hWfBids hTaken hEmpty
    have hNonzero := claimants_ne_zero hWfBids hMem
    have hSender : me = sender → me ∉ claimants bids := fun hMe => hMe ▸ hNodup
    have hWinner : me = s.entry.realIf → me ∈ claimants bids := fun hMe => hMe ▸ hMem
    rcases hPriority with hPriority | hPriority <;> rcases hBid with rfl | rfl <;>
      simp only [Slot.bid, hNonzero, hPriority, hAcquired] <;>
      by_cases hMe : me = sender <;> by_cases hO : me = s.entry.realIf <;>
      by_cases hIn : me ∈ claimants bids <;> simp_all
  · have hBlank : s.entry = Entry.blank := by rw [h.entry, hEmpty]; rfl
    simp [Slot.bid, hBlank, hOld, hEmpty, claimants]
  · obtain ⟨hMem, hPriority⟩ := h.entry ▸ settled_of_not_taken hWfBids hTaken hEmpty
    have hNonzero := claimants_ne_zero hWfBids hMem
    have hLength : 1 ≤ (claimants bids).length := List.length_pos_of_mem hMem
    rcases hPriority with hPriority | hPriority <;> rcases hBid with rfl | rfl <;>
      simp [Slot.bid, hNonzero, hPriority, hLength]

theorem bid (h : Tracked me old held bids s) {b : Bid} (hWf : BidsWf (bids ++ [b])) :
    Tracked me old held (bids ++ [b]) (s.bid me b) := by
  have hb : b.Wf := hWf.wf b (by simp)
  by_cases hTaken : taken bids
  · exact h.bid_taken hWf.of_append.wf hTaken hb
  · cases b with
    | preference sender => exact h.bid_preference hWf.of_append.wf hTaken hb
    | claim sender priority => exact h.bid_claim hWf hTaken

theorem foldl (e : Entry) (bids : List Bid) (hWf : BidsWf bids) :
    Tracked me e.realIf held bids (bids.foldl (Slot.bid me) ⟨Entry.blank, e, held⟩) := by
  induction bids using List.reverseRecOn with
  | nil => exact initial e
  | append_singleton bids b ih =>
      rw [List.foldl_append]
      exact (ih hWf.of_append).bid hWf

end Tracked

/-- Two claims to the interface have been settled before the claim of `me`, and its
own claim was not settled: `Old_table` of `me` names somebody else, while `me` never
released the address. -/
def Stranded (me : Address) (bids : List Bid) : Prop :=
  2 ≤ (liveClaimants bids).length ∧ me ∉ liveClaimants bids

instance (me : Address) (bids : List Bid) : Decidable (Stranded me bids) := by
  unfold Stranded; infer_instance

namespace Tracked

variable {me old : Address} {held : Bool} {bids : List Bid} {s : Slot}

theorem liveOwner_mem (hWf : BidsWf bids) (h : liveClaimants bids ≠ []) :
    liveOwner bids ∈ liveClaimants bids := by
  unfold liveClaimants liveOwner at *
  split_ifs at h ⊢ with hTaken
  · have hSub : ∀ b ∈ bids.takeWhile Bid.isClaim, b ∈ bids :=
      fun b hb => (List.takeWhile_prefix _).subset hb
    have hNot : ¬ taken (bids.takeWhile Bid.isClaim) := by
      intro hAgain
      obtain ⟨before, sender, after, hSplit, _⟩ := taken_split hAgain
      have hMem : Bid.preference sender ∈ bids.takeWhile Bid.isClaim := by rw [hSplit]; simp
      have hClaim := List.mem_takeWhile_imp hMem
      simp [Bid.isClaim] at hClaim
    refine (settled_of_not_taken (fun b hb => hWf.wf b (hSub b hb)) hNot ?_).1
    rintro hNil
    simp [hNil, claimants] at h
  · refine (settled_of_not_taken hWf.wf hTaken ?_).1
    rintro rfl
    simp [claimants] at h

variable (h : Tracked me old held bids s) (hWf : BidsWf bids)
  (hHeld : old = me ↔ held = true) (hOwn : me ∈ claimants bids → held = true)

include h hWf hHeld in
/-- Exactly the stranded member keeps the address without knowing it. -/
theorem lost_iff : (s.acquired = true ∧ s.old.realIf ≠ me) ↔ (held = true ∧ Stranded me bids) := by
  rw [h.acquired, h.old]
  by_cases hTwo : 2 ≤ (liveClaimants bids).length
  · have hMem : liveOwner bids ∈ liveClaimants bids := by
      apply liveOwner_mem hWf
      intro hNil
      simp [hNil] at hTwo
    have hOwner : me ∉ liveClaimants bids → liveOwner bids ≠ me :=
      fun hMe hEq => hMe (hEq ▸ hMem)
    simp only [hTwo, ↓reduceIte, Stranded, true_and, Bool.and_eq_true, Bool.or_eq_true,
      decide_eq_true_eq]
    constructor
    · rintro ⟨⟨hh, hLive | hMe⟩, hNe⟩
      · exact ⟨hh, hLive⟩
      · exact absurd hMe.symm hNe
    · rintro ⟨hh, hLive⟩
      exact ⟨⟨hh, .inl hLive⟩, hOwner hLive⟩
  · simp only [hTwo, ↓reduceIte, Stranded, false_and, and_false, iff_false, not_and, not_not,
      Bool.and_eq_true]
    rintro ⟨hh, _⟩
    exact hHeld.mpr hh

theorem mem_claimants_of_live {a : Address} (h : a ∈ liveClaimants bids) : a ∈ claimants bids := by
  unfold liveClaimants at h
  split_ifs at h
  · exact ((List.takeWhile_sublist _).filterMap _).subset h
  · exact h

include h hWf hHeld hOwn in
/-- A member never believes in an address that it has given up. -/
theorem acquired_of_old (hOld : s.old.realIf = me) : s.acquired = true := by
  rw [h.old] at hOld
  rw [h.acquired]
  split_ifs at hOld with hTwo
  · have hMem : liveOwner bids ∈ liveClaimants bids := by
      apply liveOwner_mem hWf
      intro hNil
      simp [hNil] at hTwo
    simp [hOld, hOwn (mem_claimants_of_live (hOld ▸ hMem))]
  · by_cases hLive : me ∈ liveClaimants bids
    · have hOne : liveClaimants bids = [me] := by
        match hL : liveClaimants bids, hLive, hTwo with
        | [a], hLive, _ => rw [List.mem_singleton.mp hLive]
        | a :: b :: l, _, hTwo => simp at hTwo
      have hOwner := liveOwner_mem hWf (by simp [hOne])
      rw [hOne, List.mem_singleton] at hOwner
      simp [hHeld.mp hOld, hOwner]
    · simp [hHeld.mp hOld, hLive]

include h hWf hHeld hOwn in
/-- An entry that a member has won by its claim is up there and known. -/
theorem acquired_of_entry (hMe : me ≠ 0#32) (hEntry : s.entry.realIf = me)
    (hPriority : s.entry.claimPriority ≠ prefer) : s.acquired = true ∧ s.old.realIf = me := by
  have hTaken : ¬ taken bids := by
    rw [h.entry] at hPriority
    exact hPriority
  have hNonempty : bids ≠ [] := by
    rintro rfl
    rw [h.entry] at hEntry
    exact hMe hEntry.symm
  have hMem := (settled_of_not_taken hWf.wf hTaken hNonempty).1
  rw [← h.entry, hEntry] at hMem
  have hOwner : liveOwner bids = me := by
    rw [← hEntry, h.entry]
    simp [liveOwner, hTaken]
  have hh := hOwn hMem
  constructor
  · rw [h.acquired]
    simp [hOwner, hh]
  · rw [h.old, hOwner, hHeld.mpr hh, ite_self]

end Tracked

end Wackamole
