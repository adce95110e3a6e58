import Wackamole.GatherRun
import Wackamole.Allocation

/-! The end of a gather at one member: what its table, its counters and its addresses
are when it enters RUN, in terms of the bids of the view. -/
namespace Wackamole

variable {n : Nat} {cfg : Config n}

section Preferences

variable {vip : Fin n → Address} {numMembers : Nat} {ms : List StateMess}

theorem live_append_preferences (bids : List Bid) (sender : Address) (prefers : List Address) :
    liveClaimants (bids ++ prefers.map fun _ => .preference sender) = liveClaimants bids := by
  induction prefers generalizing bids with
  | nil => simp
  | cons addr prefers ih =>
      rw [List.map_cons, List.append_cons, ih]
      by_cases hTaken : taken bids
      · exact (liveClaimants_append_of_taken hTaken _).1
      · exact (live_snoc_preference hTaken sender).1

theorem claimants_append_preferences (bids : List Bid) (sender : Address)
    (prefers : List Address) :
    claimants (bids ++ prefers.map fun _ => .preference sender) = claimants bids := by
  have hNone : claimants (prefers.map fun _ => Bid.preference sender) = [] := by
    rw [claimants, List.filterMap_eq_nil_iff]
    intro b hb
    obtain ⟨_, _, rfl⟩ := List.mem_map.mp hb
    rfl
  have hAppend : claimants (bids ++ prefers.map fun _ => Bid.preference sender) =
      claimants bids ++ claimants (prefers.map fun _ => Bid.preference sender) :=
    List.filterMap_append
  rw [hAppend, hNone, List.append_nil]

/-- Claims alone never take an interface. -/
theorem not_taken_append_claims {bids : List Bid} (h : ¬ taken bids) (vip : Fin n → Address)
    (j : Fin n) (sender : Address) (claims : List (Address × Int)) :
    ¬ taken (bids ++ claimBids vip j sender claims) := by
  intro hTaken
  obtain ⟨winner, hs⟩ := taken_iff.mp hTaken
  rw [List.findSome?_append] at hs
  cases hFirst : bids.findSome? Bid.strong with
  | some e =>
      rw [hFirst] at hs
      exact h (taken_iff.mpr ⟨winner, hFirst.trans hs⟩)
  | none =>
      rw [hFirst, Option.none_or] at hs
      obtain ⟨b, hb, hStrong⟩ := List.exists_of_findSome?_eq_some hs
      obtain ⟨c, _, rfl⟩ := List.mem_map.mp hb
      simp only [Bid.strong, Option.ite_none_right_eq_some, Option.some.injEq, Entry.mk.injEq]
        at hStrong
      rw [hStrong.2.2] at hStrong
      exact absurd hStrong.1 (by decide)

theorem settled_append_of_taken {bids : List Bid} (h : taken bids) (more : List Bid) :
    Entry.settled (bids ++ more) = Entry.settled bids := by
  obtain ⟨sender, hs⟩ := taken_iff.mp h
  rw [settled_eq_of_strong hs, settled_eq_of_strong]
  rw [List.findSome?_append, hs]
  rfl

/-- Whoever takes an interface has sent one of the messages. -/
theorem sender_of_taken {j : Fin n} (h : taken (bidsIn vip j ms)) :
    ∃ m ∈ ms, m.realAddress = (Entry.settled (bidsIn vip j ms)).realIf := by
  obtain ⟨sender, hs⟩ := taken_iff.mp h
  rw [settled_eq_of_strong hs]
  obtain ⟨b, hb, hStrong⟩ := List.exists_of_findSome?_eq_some hs
  obtain ⟨m, hm, hb⟩ := List.mem_flatMap.mp hb
  refine ⟨m, hm, ?_⟩
  rcases List.mem_append.mp hb with hb | hb
  · obtain ⟨c, _, rfl⟩ := List.mem_map.mp hb
    simp only [Bid.strong, Option.ite_none_right_eq_some, Option.some.injEq, Entry.mk.injEq]
      at hStrong
    exact hStrong.2.1
  · obtain ⟨_, _, rfl⟩ := List.mem_map.mp hb
    simp only [Bid.strong, Option.some.injEq, Entry.mk.injEq] at hStrong
    exact hStrong.1

/-- A member that takes an interface by a preference has laid out its claims before:
its own claim to the interface is among the settled ones. -/
theorem preference_after_claim (h : ViewMessages vip numMembers ms) {j : Fin n}
    (hTaken : taken (bidsIn vip j ms))
    (hClaims : (Entry.settled (bidsIn vip j ms)).realIf ∈ claimants (bidsIn vip j ms)) :
    (Entry.settled (bidsIn vip j ms)).realIf ∈ liveClaimants (bidsIn vip j ms) := by
  induction ms using List.reverseRecOn with
  | nil => simp [bidsIn, taken, Entry.settled, FirstWinner.outcome, Entry.ofStanding] at hTaken
  | append_singleton ms m ih =>
      have hBids : bidsIn vip j (ms ++ [m]) = bidsIn vip j ms ++ bidsOn vip j m := by simp [bidsIn]
      by_cases hBefore : taken (bidsIn vip j ms)
      · have hSettled : Entry.settled (bidsIn vip j (ms ++ [m])) =
            Entry.settled (bidsIn vip j ms) := by
          rw [hBids, settled_append_of_taken hBefore]
        have hLive : liveClaimants (bidsIn vip j (ms ++ [m])) = liveClaimants (bidsIn vip j ms) := by
          rw [hBids]
          exact (liveClaimants_append_of_taken hBefore _).1
        rw [hSettled] at hClaims ⊢
        rw [hLive]
        apply ih h.of_append hBefore
        obtain ⟨m', hm', hAddress⟩ := sender_of_taken hBefore
        obtain ⟨m'', hm'', hEq, hClaim⟩ := mem_claimants_bidsIn.mp hClaims
        refine mem_claimants_bidsIn.mpr ⟨m'', ?_, hEq, hClaim⟩
        rcases List.mem_append.mp hm'' with hOld | hNew
        · exact hOld
        · have hNodup := h.address_nodup
          rw [List.map_append] at hNodup
          rw [List.mem_singleton.mp hNew, ← hAddress] at hEq
          exact absurd hEq.symm ((List.nodup_append.mp hNodup).2.2 _
            (List.mem_map.mpr ⟨m', hm', rfl⟩) _ (by simp))
      · have hSplit : bidsIn vip j (ms ++ [m]) =
            bidsIn vip j ms ++ claimBids vip j m.realAddress m.claims ++
              (m.prefers.filter fun addr => vip j = addr).map fun _ =>
                .preference m.realAddress := by
          rw [hBids, List.append_assoc]
          rfl
        have hNot := not_taken_append_claims hBefore vip j m.realAddress m.claims
        rw [hSplit] at hClaims ⊢
        rw [claimants_append_preferences] at hClaims
        rw [live_append_preferences, liveClaimants, if_neg hNot]
        exact hClaims

end Preferences

/-- A member that has laid out the STATE message of every member of its view, its own
among them, and stands before `Priority_claim`. -/
structure Gathered (cfg : Config n) (d₀ : Daemon n) (ms : List StateMess) (d : Daemon n) :
    Prop where
  numMembers : d.numMembers = d₀.numMembers
  myIndex : d.myIndex = d₀.myIndex
  oldMaturity : d.oldMaturity = d₀.oldMaturity
  counted : Counted (fun j => bidsIn cfg.pseudoIf j ms) (fun _ => 0) d
  heard : ∀ m ∈ ms, (d.members m.index).realIf = m.realAddress
  holds : Holds cfg d₀.oldTable d₀.acquired (fun j => bidsIn cfg.pseudoIf j ms) d
  messages : ViewMessages cfg.pseudoIf d₀.numMembers ms
  honest : Honest cfg.realIf d₀.oldTable d₀.acquired fun j => bidsIn cfg.pseudoIf j ms
  realIf : cfg.realIf ≠ 0#32
  full : ∀ k < d₀.numMembers, ∃ m ∈ ms, m.index = k
  self : ∃ m ∈ ms, m.index = d₀.myIndex ∧ m.realAddress = cfg.realIf ∧
    ∀ j ∈ d₀.acquired, ∃ c ∈ m.claims, cfg.pseudoIf j = c.1

/-- The entry of `Allocation_table` after `Priority_claim`. -/
def Entry.promote (e : Entry) : Entry :=
  if e.claimPriority = prefer then ⟨e.realIf, preferClaimed⟩ else e

namespace Gathered

variable {d₀ d : Daemon n} {ms : List StateMess} (h : Gathered cfg d₀ ms d)

include h

theorem bidsWf (j : Fin n) : BidsWf (bidsIn cfg.pseudoIf j ms) := h.messages.bidsWf j

theorem entry (j : Fin n) : d.allocationTable j = Entry.settled (bidsIn cfg.pseudoIf j ms) :=
  h.counted.entry j

theorem held_iff (j : Fin n) :
    j ∈ d₀.acquired ↔ cfg.realIf ∈ claimants (bidsIn cfg.pseudoIf j ms) := by
  constructor
  · intro hj
    obtain ⟨m, hm, _, hAddress, hClaims⟩ := h.self
    exact mem_claimants_bidsIn.mpr ⟨m, hm, hAddress, hClaims j hj⟩
  · exact h.honest.own j

theorem old_iff (j : Fin n) :
    (d₀.oldTable j).realIf = cfg.realIf ↔ decide (j ∈ d₀.acquired) = true := by
  simpa using h.honest.old_iff j

theorem own (j : Fin n) :
    cfg.realIf ∈ claimants (bidsIn cfg.pseudoIf j ms) → decide (j ∈ d₀.acquired) = true := by
  simpa using h.honest.own j

theorem settled_of_unclaimed {j : Fin n} (hUnclaimed : (d.allocationTable j).claimPriority =
    unclaimed) : bidsIn cfg.pseudoIf j ms = [] := by
  have hWf := h.bidsWf j
  by_contra hne
  rw [h.entry] at hUnclaimed
  have hNot : ¬ taken (bidsIn cfg.pseudoIf j ms) := by
    rw [taken, hUnclaimed]
    decide
  rcases (settled_of_not_taken hWf.wf hNot hne).2 with hPriority | hPriority <;>
    simp [hUnclaimed] at hPriority

theorem realIf_of_unclaimed {j : Fin n} (hUnclaimed : (d.allocationTable j).claimPriority =
    unclaimed) : (d.allocationTable j).realIf = 0#32 := by
  rw [h.entry, h.settled_of_unclaimed hUnclaimed]
  rfl

/-- Nothing is acquired before `Priority_claim`. -/
theorem held_of_acquired {j : Fin n} (hj : j ∈ d.acquired) : j ∈ d₀.acquired := by
  have hAcquired := (h.holds.tracked j).acquired
  rw [Daemon.slot_acquired, decide_eq_true hj, eq_comm, Bool.and_eq_true] at hAcquired
  exact of_decide_eq_true hAcquired.1

theorem not_acquired_of_unclaimed {j : Fin n} (hUnclaimed : (d.allocationTable j).claimPriority =
    unclaimed) : j ∉ d.acquired := by
  intro hj
  have hClaims := (h.held_iff j).mp (h.held_of_acquired hj)
  rw [h.settled_of_unclaimed hUnclaimed] at hClaims
  simp [claimants] at hClaims

/-- The member is stranded with an interface only if a preference of somebody else has
taken it. -/
theorem taken_of_stranded {j : Fin n} (hHeld : j ∈ d₀.acquired)
    (hStranded : Stranded cfg.realIf (bidsIn cfg.pseudoIf j ms)) :
    taken (bidsIn cfg.pseudoIf j ms) ∧ (d.allocationTable j).realIf ≠ cfg.realIf := by
  have hClaims := (h.held_iff j).mp hHeld
  have hTaken : taken (bidsIn cfg.pseudoIf j ms) := by
    by_contra hNot
    apply hStranded.2
    rwa [liveClaimants, if_neg hNot]
  refine ⟨hTaken, fun hOwner => ?_⟩
  rw [h.entry] at hOwner
  have hLive := preference_after_claim h.messages hTaken (by rw [hOwner]; exact hClaims)
  rw [hOwner] at hLive
  exact hStranded.2 hLive

/-- `Priority_claim` acquires only what the member lacks. -/
theorem ready (j : Fin n) : (d.slot j).Ready cfg.realIf where
  fresh hPrefer hGains := by
    by_contra hAcquired
    rw [Bool.not_eq_false] at hAcquired
    obtain ⟨hHeld, hStranded⟩ := ((h.holds.tracked j).lost_iff (h.bidsWf j) (h.old_iff j)).mp
      ⟨hAcquired, fun hOld => hGains.2 hOld.symm⟩
    exact (h.taken_of_stranded (of_decide_eq_true hHeld) hStranded).2 hGains.1.symm
  known _ hOld := (h.holds.tracked j).acquired_of_old (h.bidsWf j) (h.old_iff j) (h.own j) hOld

theorem known (j : Fin n) (hOwner : (d.allocationTable j).realIf = cfg.realIf)
    (hPriority : (d.allocationTable j).claimPriority ≠ prefer) : j ∈ d.acquired :=
  of_decide_eq_true ((h.holds.tracked j).acquired_of_entry (h.bidsWf j) (h.old_iff j) (h.own j)
    h.realIf hOwner hPriority).1

theorem distinct : d.Distinct where
  ne_zero k hk := by
    rw [h.numMembers] at hk
    obtain ⟨m, hm, rfl⟩ := h.full k hk
    rw [h.heard m hm]
    exact (h.messages.wf m hm).realAddress
  injective k hk k' hk' hEq := by
    rw [h.numMembers] at hk hk'
    obtain ⟨m, hm, rfl⟩ := h.full k hk
    obtain ⟨m', hm', rfl⟩ := h.full k' hk'
    rw [h.heard m hm, h.heard m' hm'] at hEq
    rw [List.inj_on_of_nodup_map h.messages.address_nodup hm hm' hEq]

theorem myIndex_lt : d.myIndex < d.numMembers := by
  obtain ⟨m, hm, hIndex, _⟩ := h.self
  rw [h.myIndex, h.numMembers, ← hIndex]
  exact h.messages.index_lt m hm

theorem members_myIndex : (d.members d.myIndex).realIf = cfg.realIf := by
  obtain ⟨m, hm, hIndex, hAddress, _⟩ := h.self
  rw [h.myIndex, ← hIndex, h.heard m hm, hAddress]

/-- The automaton state, the maturity and the timers do not matter for the table. -/
theorem withState (state : Automaton) (maturity : Bool) (events : Finset Timer) :
    Gathered cfg d₀ ms { d with state, maturity, events } :=
  ⟨h.numMembers, h.myIndex, h.oldMaturity, h.counted.congr rfl rfl rfl, h.heard,
    h.holds.congr (fun _ => rfl) rfl, h.messages, h.honest, h.realIf, h.full, h.self⟩

end Gathered

/-- What the end of the gather does to the daemon that enters RUN. -/
def settle (cfg : Config n) (d : Daemon n) : Daemon n := claimUnclaimed (priorityClaim cfg d)

theorem finishGather_of_mature {d : Daemon n} (hDone : d.numPendingStates = 0)
    (hMature : d.maturity = true) :
    finishGather cfg d = { settle cfg d with state := .run }.queue .balance := by
  rw [finishGather, if_pos hDone, if_pos hMature]
  rfl

theorem finishGather_of_immature {d : Daemon n} (hDone : d.numPendingStates = 0)
    (hMature : d.maturity = false) : finishGather cfg d = { d with state := .boot } := by
  rw [finishGather, if_pos hDone, if_neg (by simp [hMature])]

variable (cfg) in
/-- The first MATURING message in BOOT settles the table. -/
theorem handleMature_of_boot {d : Daemon n} (hMature : d.maturity = false) :
    handleMature cfg { d with state := .boot } =
      { settle cfg { d with
          state := .boot, maturity := true, events := d.events.erase .turnMature } with
        state := .run }.queue .balance := by
  simp only [handleMature, hMature, Bool.false_eq_true, ↓reduceIte]
  rfl

/-- The member that gets interface `j` when the loads are `load`. -/
def fillReceiver (d : Daemon n) (load : Nat → Int) (j : Fin n) : Nat :=
  LeastLoaded.receiver load d.numMembers (unowned d.allocationTable (List.finRange n)) j

section Settle

variable (d : Daemon n) (j : Fin n)

theorem priorityClaim_entry :
    (priorityClaim cfg d).allocationTable j = (d.allocationTable j).promote := by
  have hEntry := congrArg Slot.entry (priorityClaim_slot cfg d j)
  rw [Daemon.slot_entry, Slot.prioritize] at hEntry
  rw [hEntry, Entry.promote, Daemon.slot_entry]
  split_ifs <;> rfl

theorem promote_unclaimed (e : Entry) :
    e.promote.claimPriority = unclaimed ↔ e.claimPriority = unclaimed := by
  unfold Entry.promote
  split_ifs with h
  · simp [h]
  · rfl

theorem priorityClaim_receiver (hMembers : 0 < d.numMembers) :
    (priorityClaim cfg d).receiver j = fillReceiver d d.settledCount j := by
  have hUnowned : unowned (priorityClaim cfg d).allocationTable (List.finRange n) =
      unowned d.allocationTable (List.finRange n) := by
    simp only [unowned, priorityClaim_entry, promote_unclaimed]
  rw [Daemon.receiver, fillReceiver, hUnowned, priorityClaim_numMembers]
  apply LeastLoaded.receiver_congr hMembers
  intro k hk
  exact (priorityClaim_members d hk).2

/-- The table of a member that enters RUN. -/
theorem settle_entry (hMembers : 0 < d.numMembers) :
    (settle cfg d).allocationTable j =
      if (d.allocationTable j).claimPriority = unclaimed then
        ⟨(d.members (fillReceiver d d.settledCount j)).realIf, claimed⟩
      else (d.allocationTable j).promote := by
  have hEntry := congrArg Slot.entry (claimUnclaimed_slot (priorityClaim cfg d) j)
  rw [Daemon.slot_entry, priorityClaim_entry, priorityClaim_receiver d j hMembers] at hEntry
  rw [settle, hEntry]
  simp only [promote_unclaimed]
  split_ifs with h
  · have hk : fillReceiver d d.settledCount j < d.numMembers :=
      LeastLoaded.receiver_lt _ hMembers _ _
    simp only [Slot.handTo, (priorityClaim_members d hk).1]
  · exact priorityClaim_entry d j

variable (cfg) {d j} in
theorem settle_slot_of_claimed
    (hClaimed : (d.allocationTable j).claimPriority ≠ unclaimed) :
    (settle cfg d).slot j = (d.slot j).prioritize cfg.realIf := by
  have hSlot := claimUnclaimed_slot (priorityClaim cfg d) j
  rw [priorityClaim_entry, if_neg (fun hU => hClaimed ((promote_unclaimed _).mp hU)),
    priorityClaim_slot] at hSlot
  exact hSlot

end Settle

namespace Gathered

variable {d₀ d : Daemon n} {ms : List StateMess} (h : Gathered cfg d₀ ms d)

include h

theorem numMembers_pos : 0 < d.numMembers := Nat.zero_lt_of_lt h.myIndex_lt

/-- A member that enters RUN has up what it has acquired, and `My.num_allocated` is the
number of these addresses. -/
theorem settle_exact : (settle cfg d).holding.Exact := by
  apply claimUnclaimed_exact
  · exact priorityClaim_exact h.holds.sound h.ready h.known
  · intro j hj hUnclaimed
    rw [priorityClaim_entry, promote_unclaimed] at hUnclaimed
    have hAcquired := congrArg Slot.acquired (priorityClaim_slot cfg d j)
    have hPriority : ¬ (d.slot j).entry.claimPriority = prefer := by
      rw [Daemon.slot_entry, hUnclaimed]
      decide
    rw [Slot.prioritize, if_neg hPriority, Daemon.slot_acquired, decide_eq_true hj] at hAcquired
    exact h.not_acquired_of_unclaimed hUnclaimed (of_decide_eq_true hAcquired.symm)

theorem settle_acquired_of_unclaimed {j : Fin n}
    (hUnclaimed : (d.allocationTable j).claimPriority = unclaimed) :
    j ∈ (settle cfg d).acquired ↔ ((settle cfg d).allocationTable j).realIf = cfg.realIf := by
  have hMembers := h.numMembers_pos
  have hPriority : ¬ (d.slot j).entry.claimPriority = prefer := by
    rw [Daemon.slot_entry, hUnclaimed]
    decide
  have hAcquired := congrArg Slot.acquired (claimUnclaimed_slot (priorityClaim cfg d) j)
  rw [priorityClaim_entry, if_pos ((promote_unclaimed _).mpr hUnclaimed), priorityClaim_slot,
    Slot.prioritize, if_neg hPriority, priorityClaim_receiver d j hMembers, priorityClaim_myIndex]
    at hAcquired
  simp only [Slot.handTo, Daemon.slot_acquired,
    decide_eq_false (h.not_acquired_of_unclaimed hUnclaimed), Bool.false_or, decide_eq_decide]
    at hAcquired
  have hReceiver : fillReceiver d d.settledCount j < d.numMembers :=
    LeastLoaded.receiver_lt _ hMembers _ _
  rw [settle_entry d j hMembers, if_pos hUnclaimed]
  refine hAcquired.trans ⟨fun hEq => ?_, fun hEq => ?_⟩
  · rw [← hEq]
    exact h.members_myIndex
  · exact h.distinct.injective _ h.myIndex_lt _ hReceiver (h.members_myIndex.trans hEq.symm)

/-- Without a preference the address follows the claims. -/
theorem acquired_iff_of_not_taken {j : Fin n} (hNot : ¬ taken (bidsIn cfg.pseudoIf j ms)) :
    j ∈ d.acquired ↔ (d.allocationTable j).realIf = cfg.realIf := by
  constructor
  · intro hj
    have hAcquired := (h.holds.tracked j).acquired
    rw [Daemon.slot_acquired, decide_eq_true hj, eq_comm, Bool.and_eq_true, Bool.or_eq_true,
      decide_eq_true_iff, decide_eq_true_iff, decide_eq_true_iff] at hAcquired
    obtain ⟨hHeld, hLive | hOwner⟩ := hAcquired
    · rw [liveClaimants, if_neg hNot] at hLive
      exact absurd ((h.held_iff j).mp hHeld) hLive
    · rw [liveOwner, if_neg hNot] at hOwner
      rw [h.entry]
      exact hOwner.symm
  · intro hOwner
    refine h.known j hOwner ?_
    rw [h.entry]
    exact hNot

/-- On entering RUN, exactly the stranded members differ from their tables. -/
theorem settle_acquired_iff (j : Fin n) :
    (j ∈ (settle cfg d).acquired ↔ ((settle cfg d).allocationTable j).realIf = cfg.realIf) ↔
      ¬ (j ∈ d₀.acquired ∧ Stranded cfg.realIf (bidsIn cfg.pseudoIf j ms)) := by
  by_cases hUnclaimed : (d.allocationTable j).claimPriority = unclaimed
  · have hNone := h.settled_of_unclaimed hUnclaimed
    simp [h.settle_acquired_of_unclaimed hUnclaimed, hNone, Stranded, liveClaimants, claimants]
  have hSlot := settle_slot_of_claimed cfg hUnclaimed
  have hEntry := congrArg Slot.entry hSlot
  have hAcquired := congrArg Slot.acquired hSlot
  rw [Daemon.slot_entry] at hEntry
  rw [Daemon.slot_acquired] at hAcquired
  by_cases hTaken : taken (bidsIn cfg.pseudoIf j ms)
  · have hPrefer : (d.slot j).entry.claimPriority = prefer := by
      rw [Daemon.slot_entry, h.entry]
      exact hTaken
    rw [Slot.prioritize, if_pos hPrefer] at hEntry hAcquired
    rw [hEntry]
    by_cases hMine : (d.allocationTable j).realIf = cfg.realIf
    · have hIn : j ∈ (settle cfg d).acquired := by
        have hLoses : ¬ (d.slot j).Loses cfg.realIf := fun hL => hL.2 hMine.symm
        apply of_decide_eq_true
        rw [hAcquired]
        by_cases hOld : (d.slot j).old.realIf = cfg.realIf
        · simp only [(h.ready j).known hPrefer hOld, hLoses, Bool.true_or, decide_false,
            Bool.not_false, Bool.and_true]
        · have hGains : (d.slot j).Gains cfg.realIf := ⟨hMine.symm, fun hEq => hOld hEq.symm⟩
          simp [hGains, hLoses]
      have hNot : ¬ (j ∈ d₀.acquired ∧ Stranded cfg.realIf (bidsIn cfg.pseudoIf j ms)) :=
        fun hBoth => (h.taken_of_stranded hBoth.1 hBoth.2).2 hMine
      simp [hIn, hNot, hMine]
    · have hGains : ¬ (d.slot j).Gains cfg.realIf := fun hG => hMine hG.1.symm
      have hLost := (h.holds.tracked j).lost_iff (h.bidsWf j) (h.old_iff j)
      have hLoses : (d.slot j).Loses cfg.realIf ↔ (d.slot j).old.realIf = cfg.realIf :=
        ⟨fun hL => hL.1.symm, fun hO => ⟨hO.symm, fun hEq => hMine hEq.symm⟩⟩
      have hIn : j ∈ (settle cfg d).acquired ↔
          j ∈ d₀.acquired ∧ Stranded cfg.realIf (bidsIn cfg.pseudoIf j ms) := by
        rw [← decide_eq_true_iff (p := j ∈ (settle cfg d).acquired), hAcquired]
        rw [decide_eq_true_iff] at hLost
        simp only [hGains, decide_false, Bool.or_false, Bool.and_eq_true, Bool.not_eq_true',
          decide_eq_false_iff_not, hLoses]
        exact hLost
      simp [hIn, hMine]
  · have hPrefer : ¬ (d.slot j).entry.claimPriority = prefer := by
      rw [Daemon.slot_entry, h.entry]
      exact hTaken
    rw [Slot.prioritize, if_neg hPrefer] at hEntry hAcquired
    have hIn : j ∈ (settle cfg d).acquired ↔ j ∈ d.acquired := decide_eq_decide.mp hAcquired
    have hNot : ¬ (j ∈ d₀.acquired ∧ Stranded cfg.realIf (bidsIn cfg.pseudoIf j ms)) :=
      fun hBoth => hTaken (h.taken_of_stranded hBoth.1 hBoth.2).1
    rw [hIn, hEntry, Daemon.slot_entry, h.acquired_iff_of_not_taken hTaken]
    simp [hNot]

end Gathered

end Wackamole
