import Wackamole.GatherAccounts

/-! The addresses of one member during a gather: it has up what it has acquired,
`My.num_allocated` is the number of these, and a release always takes down an
address that was acquired. -/
namespace Wackamole

variable {n : Nat} {cfg : Config n}

/-- The member `me` releases the interface on this bid: its own claim loses, or its
CLAIMED entry is displaced. -/
def Slot.Releases (me : Address) (s : Slot) : Bid → Prop
  | .claim sender priority =>
    s.entry.realIf ≠ 0#32 ∧
      ((s.entry.claimPriority = preferClaimed ∨ s.entry.claimPriority = priority) ∧ me = sender ∨
        ¬ (s.entry.claimPriority = preferClaimed ∨ s.entry.claimPriority = priority) ∧
          (s.entry.claimPriority = claimed ∧ priority > prefer) ∧ me = s.entry.realIf)
  | .preference _ => False

instance (me : Address) (s : Slot) (b : Bid) : Decidable (s.Releases me b) := by
  cases b <;> unfold Slot.Releases <;> infer_instance

theorem Slot.releases_claim (me : Address) (s : Slot) (sender : Address) (priority : Int) :
    s.Releases me (.claim sender priority) ↔ s.entry.realIf ≠ 0#32 ∧
      ((s.entry.claimPriority = preferClaimed ∨ s.entry.claimPriority = priority) ∧ me = sender ∨
        ¬ (s.entry.claimPriority = preferClaimed ∨ s.entry.claimPriority = priority) ∧
          (s.entry.claimPriority = claimed ∧ priority > prefer) ∧ me = s.entry.realIf) :=
  Iff.rfl

/-- What a daemon holds of addresses. -/
structure Holding (n : Nat) where
  up : Finset (Fin n)
  acquired : Finset (Fin n)
  numAllocated : Int

def Daemon.holding (d : Daemon n) : Holding n := ⟨d.up, d.acquired, d.numAllocated⟩

theorem ripClaim_holding (hVip : Function.Injective cfg.pseudoIf) (m : StateMess)
    (s : Daemon n × Nat) {c : Address × Int} {j : Fin n} (hj : cfg.pseudoIf j = c.1) :
    (ripClaim cfg m s c).1.holding =
      if (s.1.slot j).Releases cfg.realIf (.claim m.realAddress c.2) then (s.1.release j).holding
      else s.1.holding := by
  obtain ⟨d, r⟩ := s
  have hFind := (findVE_eq_some hVip).mpr hj
  have hReleases := Slot.releases_claim cfg.realIf (d.slot j) m.realAddress c.2
  simp only [ripClaim, hFind, releaseAddress_of_findVE hFind]
  rw [Daemon.slot_entry] at hReleases
  by_cases hVacant : (d.allocationTable j).realIf = 0#32
  · have hStays : ¬ (d.slot j).Releases cfg.realIf (.claim m.realAddress c.2) := fun h =>
      (hReleases.mp h).1 hVacant
    rw [if_pos hVacant, if_neg hStays]
    rfl
  rw [if_neg hVacant]
  by_cases hLoses : (d.allocationTable j).claimPriority = preferClaimed ∨
      (d.allocationTable j).claimPriority = c.2
  · rw [if_pos hLoses]
    by_cases hSender : cfg.realIf = m.realAddress
    · rw [if_pos hSender, if_pos (hReleases.mpr ⟨hVacant, .inl ⟨hLoses, hSender⟩⟩)]
      rfl
    · have hStays : ¬ (d.slot j).Releases cfg.realIf (.claim m.realAddress c.2) := fun h =>
        (hReleases.mp h).2.elim (fun hKept => hSender hKept.2) fun hLost => hLost.1 hLoses
      rw [if_neg hSender, if_neg hStays]
      rfl
  rw [if_neg hLoses]
  by_cases hDisplaces : (d.allocationTable j).claimPriority = claimed ∧ c.2 > prefer
  · rw [if_pos hDisplaces]
    by_cases hOwner : cfg.realIf = (d.allocationTable j).realIf
    · rw [if_pos hOwner, if_pos (hReleases.mpr ⟨hVacant, .inr ⟨hLoses, hDisplaces, hOwner⟩⟩)]
      rfl
    · have hStays : ¬ (d.slot j).Releases cfg.realIf (.claim m.realAddress c.2) := fun h =>
        (hReleases.mp h).2.elim (fun hKept => hLoses hKept.1) fun hLost => hOwner hLost.2.2
      rw [if_neg hOwner, if_neg hStays]
      rfl
  · have hStays : ¬ (d.slot j).Releases cfg.realIf (.claim m.realAddress c.2) := fun h =>
      (hReleases.mp h).2.elim (fun hKept => hLoses hKept.1) fun hLost => hDisplaces hLost.2.1
    rw [if_neg hDisplaces, if_neg hStays]

theorem ripPrefer_holding (m : StateMess) (d : Daemon n) (addr : Address) :
    (ripPrefer cfg m d addr).holding = d.holding := by
  unfold ripPrefer
  cases findVE cfg addr with
  | none => rfl
  | some j =>
      simp only
      split_ifs <;> rfl

/-- `force_reup` brings up what the table names. -/
theorem forceReup_up (d : Daemon n) (j : Fin n) :
    j ∈ (forceReup cfg d).up ↔ j ∈ d.up ∨ cfg.realIf = (d.allocationTable j).realIf := by
  have hView := Loops.foldl_finRange_view
    (fun (d : Daemon n) j => (decide (j ∈ d.up), d.allocationTable j))
    (fun d i => if cfg.realIf = (d.allocationTable i).realIf then d.reup i else d)
    (fun _ v => (v.1 || decide (cfg.realIf = v.2.realIf), v.2)) ?_ d j
  · have hUp : decide (j ∈ (forceReup cfg d).up) =
        (decide (j ∈ d.up) || decide (cfg.realIf = (d.allocationTable j).realIf)) :=
      congrArg Prod.fst hView
    rw [← Bool.decide_or, decide_eq_decide] at hUp
    exact hUp
  · intro s a b
    by_cases hOwn : cfg.realIf = (s.allocationTable a).realIf <;> by_cases hb : b = a
    · subst hb
      simp [Daemon.reup, hOwn]
    · simp [Daemon.reup, hOwn, hb]
    · subst hb
      simp [hOwn]
    · simp [hOwn, hb]

/-- The counter counts what is acquired, and what is acquired is up. An address can
be up too early, when `force_reup` finds its entry already given to the member by a
preference. -/
structure Holding.Sound (cfg : Config n) (table : Fin n → Entry) (h : Holding n) : Prop where
  numAllocated : h.numAllocated = h.acquired.card
  acquired_up : h.acquired ⊆ h.up
  up_entry : ∀ j ∈ h.up, j ∈ h.acquired ∨
    cfg.needsForceReup = true ∧ (table j).realIf = cfg.realIf ∧ (table j).claimPriority = prefer

theorem Holding.Sound.release {table table' : Fin n → Entry} {d : Daemon n} {j : Fin n}
    (h : d.holding.Sound cfg table) (hj : j ∈ d.acquired)
    (hTable : ∀ i, i ≠ j → table' i = table i) : (d.release j).holding.Sound cfg table' where
  numAllocated := by
    have hPos : 0 < d.acquired.card := Finset.card_pos.mpr ⟨j, hj⟩
    have hCard : d.numAllocated = d.acquired.card := h.numAllocated
    have hErase : (d.acquired.erase j).card = d.acquired.card - 1 := Finset.card_erase_of_mem hj
    simp only [Daemon.holding, Daemon.release, hErase]
    omega
  acquired_up := Finset.erase_subset_erase j h.acquired_up
  up_entry i hi := by
    obtain ⟨hij, hUp⟩ := Finset.mem_erase.mp hi
    rw [hTable i hij]
    exact (h.up_entry i hUp).imp_left fun hMem => Finset.mem_erase.mpr ⟨hij, hMem⟩

theorem Holding.Sound.of_prefer {table table' : Fin n → Entry} {h : Holding n}
    (hSound : h.Sound cfg table)
    (hTable : ∀ j, (table j).claimPriority = prefer → table' j = table j) :
    h.Sound cfg table' where
  numAllocated := hSound.numAllocated
  acquired_up := hSound.acquired_up
  up_entry j hj := (hSound.up_entry j hj).imp_right fun ⟨hBuild, hOwner, hPrefer⟩ => by
    rw [hTable j hPrefer]
    exact ⟨hBuild, hOwner, hPrefer⟩

/-- The addresses of a member whose `Old_table` named it for `held` when the view
came, after the bids `bids`. -/
structure Holds (cfg : Config n) (old : Fin n → Entry) (held : Finset (Fin n))
    (bids : Fin n → List Bid) (d : Daemon n) : Prop where
  tracked : ∀ j, Tracked cfg.realIf (old j).realIf (decide (j ∈ held)) (bids j) (d.slot j)
  sound : d.holding.Sound cfg d.allocationTable

/-- A member claims what its `Old_table` names it for, and that is what it held. -/
structure Honest (me : Address) (old : Fin n → Entry) (held : Finset (Fin n))
    (bids : Fin n → List Bid) : Prop where
  old_iff : ∀ j, (old j).realIf = me ↔ j ∈ held
  own : ∀ j, me ∈ claimants (bids j) → j ∈ held

theorem Honest.of_append {me : Address} {old : Fin n → Entry} {held : Finset (Fin n)}
    {bids more : Fin n → List Bid} (h : Honest me old held fun j => bids j ++ more j) :
    Honest me old held bids where
  old_iff := h.old_iff
  own j hMem := h.own j (by
    rw [claimants, List.filterMap_append]
    exact List.mem_append_left _ hMem)

/-- A release takes down an address that the member has acquired. -/
theorem Tracked.acquired_of_releases {me old sender : Address} {priority : Int} {held : Bool}
    {bids : List Bid} {s : Slot} (h : Tracked me old held bids s)
    (hWf : BidsWf (bids ++ [.claim sender priority])) (hHeld : old = me ↔ held = true)
    (hOwn : me ∈ claimants (bids ++ [.claim sender priority]) → held = true) (hMe : me ≠ 0#32)
    (hRelease : s.Releases me (.claim sender priority)) : s.acquired = true := by
  obtain ⟨_, ⟨_, hSender⟩ | ⟨_, ⟨hClaimed, _⟩, hOwner⟩⟩ := hRelease
  · have hFresh : me ∉ liveClaimants bids := fun hMem =>
      hWf.fresh (hSender ▸ Tracked.mem_claimants_of_live hMem)
    have hh := hOwn (by simp [claimants, Bid.claimant?, hSender])
    rw [h.acquired]
    simp [hh, hFresh]
  · have hOwnBefore : me ∈ claimants bids → held = true := fun hMem => hOwn (by
      rw [claimants, List.filterMap_append]
      exact List.mem_append_left _ hMem)
    refine (h.acquired_of_entry hWf.of_append hHeld hOwnBefore hMe hOwner.symm ?_).1
    rw [hClaimed]
    decide

/-- An entry that a preference has taken stays. -/
theorem Entry.bid_of_prefer {e : Entry} (hOwner : e.realIf ≠ 0#32)
    (hPrefer : e.claimPriority = prefer) {b : Bid} (hb : b.Wf) : e.bid b = e := by
  cases b with
  | preference sender => simp [Entry.bid, hPrefer]
  | claim sender priority =>
      obtain ⟨_, rfl | rfl⟩ := hb <;> simp [Entry.bid, hOwner, hPrefer]

theorem Entry.foldl_bid_of_prefer {e : Entry} (hOwner : e.realIf ≠ 0#32)
    (hPrefer : e.claimPriority = prefer) (bids : List Bid) (hb : ∀ b ∈ bids, b.Wf) :
    bids.foldl Entry.bid e = e :=
  Loops.foldl_invariant (fun e' => e' = e) Entry.bid bids
    (fun _ b hMem hEq => by rw [hEq]; exact bid_of_prefer hOwner hPrefer (hb b hMem)) e rfl

theorem BidsWf.append_preferences {bids : List Bid} (h : BidsWf bids) {sender : Address}
    (hSender : sender ≠ 0#32) (prefers : List Address) :
    BidsWf (bids ++ prefers.map fun _ => .preference sender) where
  wf b hb := by
    rcases List.mem_append.mp hb with hb | hb
    · exact h.wf b hb
    · obtain ⟨_, _, rfl⟩ := List.mem_map.mp hb
      exact hSender
  nodup := by
    have hNone : claimants (prefers.map fun _ => Bid.preference sender) = [] := by
      rw [claimants, List.filterMap_eq_nil_iff]
      intro b hb
      obtain ⟨_, _, rfl⟩ := List.mem_map.mp hb
      rfl
    have hAll : claimants (bids ++ prefers.map fun _ => Bid.preference sender) =
        claimants bids ++ claimants (prefers.map fun _ => Bid.preference sender) :=
      List.filterMap_append
    rw [hAll, hNone, List.append_nil]
    exact h.nodup

theorem Tracked.foldl_append {me old : Address} {held : Bool} {bids : List Bid} {s : Slot}
    (h : Tracked me old held bids s) (more : List Bid) (hWf : BidsWf (bids ++ more)) :
    Tracked me old held (bids ++ more) (more.foldl (Slot.bid me) s) := by
  induction more generalizing bids s with
  | nil => simpa using h
  | cons b more ih =>
      rw [List.append_cons] at hWf ⊢
      exact ih (h.bid hWf.of_append) hWf

theorem Tracked.entry_realIf_ne_zero {me old : Address} {held : Bool} {bids : List Bid} {s : Slot}
    (h : Tracked me old held bids s) (hWf : ∀ b ∈ bids, b.Wf)
    (hPriority : s.entry.claimPriority ≠ unclaimed) : s.entry.realIf ≠ 0#32 := by
  have hStanding := Entry.settled_wf bids hWf
  rw [h.entry, Entry.settled] at hPriority ⊢
  cases hs : FirstWinner.outcome Bid.strong Bid.weak bids with
  | vacant => simp [hs, Entry.ofStanding] at hPriority
  | weak e => rw [hs] at hStanding; exact hStanding.1
  | strong e => rw [hs] at hStanding; exact hStanding.1

namespace Holds

variable {old : Fin n → Entry} {held : Finset (Fin n)} {bids : Fin n → List Bid} {d d' : Daemon n}

theorem congr (h : Holds cfg old held bids d) (hSlot : ∀ j, d'.slot j = d.slot j)
    (hHolding : d'.holding = d.holding) : Holds cfg old held bids d' where
  tracked j := by rw [hSlot]; exact h.tracked j
  sound := by rw [hHolding, Daemon.allocationTable_eq hSlot]; exact h.sound

/-- One claim: an address goes down only if it was acquired. -/
theorem ripClaim (hVip : Function.Injective cfg.pseudoIf) (hMe : cfg.realIf ≠ 0#32)
    {m : StateMess} {s : Daemon n × Nat} {c : Address × Int} {j : Fin n}
    (hj : cfg.pseudoIf j = c.1) (hWf : BidsWf (bids j ++ [.claim m.realAddress c.2]))
    (hHonest : Honest cfg.realIf old held
      (Function.update bids j (bids j ++ [.claim m.realAddress c.2])))
    (h : Holds cfg old held bids s.1) :
    Holds cfg old held (Function.update bids j (bids j ++ [.claim m.realAddress c.2]))
      (ripClaim cfg m s c).1 := by
  have hSlot (i : Fin n) : (Wackamole.ripClaim cfg m s c).1.slot i =
      if i = j then (s.1.slot i).bid cfg.realIf (.claim m.realAddress c.2) else s.1.slot i := by
    rw [ripClaim_slot hVip]
    by_cases hi : i = j
    · rw [if_pos hi, if_pos (hi ▸ hj)]
    · rw [if_neg hi, if_neg (fun hEq => hi (hVip (hEq.trans hj.symm)))]
  have hTable (i : Fin n) (hi : i ≠ j) :
      (Wackamole.ripClaim cfg m s c).1.allocationTable i = s.1.allocationTable i := by
    have hEq := hSlot i
    rw [if_neg hi] at hEq
    exact congrArg Slot.entry hEq
  constructor
  · intro i
    rw [hSlot]
    by_cases hi : i = j
    · subst hi
      rw [Function.update_self, if_pos rfl]
      exact (h.tracked i).bid hWf
    · rw [Function.update_of_ne hi, if_neg hi]
      exact h.tracked i
  · rw [ripClaim_holding hVip m s hj]
    split_ifs with hRelease
    · have hOwn := hHonest.own j
      rw [Function.update_self] at hOwn
      have hAcquired := (h.tracked j).acquired_of_releases hWf
        (by simpa using hHonest.old_iff j) (by simpa using hOwn) hMe hRelease
      exact h.sound.release (by simpa using hAcquired) hTable
    · apply h.sound.of_prefer
      intro i hPrefer
      by_cases hi : i = j
      · subst hi
        have hEntry := congrArg Slot.entry (hSlot i)
        rw [if_pos rfl, Slot.bid_entry, Entry.bid_of_prefer] at hEntry
        · exact hEntry
        · apply (h.tracked i).entry_realIf_ne_zero hWf.of_append.wf
          rw [Daemon.slot_entry, hPrefer]
          decide
        · exact hPrefer
        · exact hWf.wf _ (by simp)
      · exact hTable i hi

/-- All claims of a message, one after the other. -/
theorem foldl_ripClaim (hVip : Function.Injective cfg.pseudoIf) (hMe : cfg.realIf ≠ 0#32)
    {m : StateMess} (claims : List (Address × Int))
    (hKnown : ∀ c ∈ claims, ∃ j, cfg.pseudoIf j = c.1) {s : Daemon n × Nat}
    (hWf : ∀ j, BidsWf (bids j ++ claimBids cfg.pseudoIf j m.realAddress claims))
    (hHonest : Honest cfg.realIf old held
      fun j => bids j ++ claimBids cfg.pseudoIf j m.realAddress claims)
    (h : Holds cfg old held bids s.1) :
    Holds cfg old held (fun j => bids j ++ claimBids cfg.pseudoIf j m.realAddress claims)
      (claims.foldl (Wackamole.ripClaim cfg m) s).1 := by
  have hRun := foldl_ripClaim_induction hVip (fun claims bids s => Honest cfg.realIf old held
      (fun j => bids j ++ claimBids cfg.pseudoIf j m.realAddress claims) ∧
    Holds cfg old held bids s.1) ?_ claims hKnown bids s hWf ⟨hHonest, h⟩
  · exact hRun.2
  · rintro claims bids s c j hj hFirst ⟨hHonest, hHolds⟩
    simp only [← update_claimBids hVip hj] at hHonest
    exact ⟨hHonest, hHolds.ripClaim hVip hMe hj hFirst hHonest.of_append⟩

/-- `force_reup` brings up nothing that the member neither has nor is about to get. -/
theorem handlePostRelease (hWf : ∀ j, BidsWf (bids j)) (hHonest : Honest cfg.realIf old held bids)
    (hMe : cfg.realIf ≠ 0#32) (h : Holds cfg old held bids d) :
    Holds cfg old held bids (handlePostRelease cfg d) := by
  unfold Wackamole.handlePostRelease
  split_ifs with hBuild
  · have hSlot (j : Fin n) : (forceReup cfg d).slot j = d.slot j :=
      forceReup_unchanged cfg (fun d => d.slot j) (fun _ _ => rfl) d
    have hAcquired : (forceReup cfg d).acquired = d.acquired :=
      forceReup_unchanged cfg Daemon.acquired (fun _ _ => rfl) d
    have hTable := Daemon.allocationTable_eq hSlot
    refine ⟨fun j => by rw [hSlot]; exact h.tracked j, ?_, ?_, ?_⟩
    · have hNum : (forceReup cfg d).numAllocated = d.numAllocated :=
        forceReup_unchanged cfg Daemon.numAllocated (fun _ _ => rfl) d
      simp only [Daemon.holding, hNum, hAcquired]
      exact h.sound.numAllocated
    · intro j hj
      simp only [Daemon.holding, hAcquired] at hj ⊢
      exact forceReup_up d j |>.mpr (.inl (h.sound.acquired_up hj))
    · intro j hj
      simp only [Daemon.holding, hAcquired, hTable] at hj ⊢
      rcases (forceReup_up d j).mp hj with hUp | hOwner
      · exact h.sound.up_entry j hUp
      · by_cases hPrefer : (d.allocationTable j).claimPriority = prefer
        · exact .inr ⟨hBuild, hOwner.symm, hPrefer⟩
        · have hSlotAcquired := ((h.tracked j).acquired_of_entry (hWf j)
            (by simpa using hHonest.old_iff j) (by simpa using hHonest.own j) hMe hOwner.symm
            hPrefer).1
          exact .inl (by simpa using hSlotAcquired)
  · exact h

/-- Preferences bring nothing up and take nothing down. -/
theorem foldl_ripPrefer (hVip : Function.Injective cfg.pseudoIf) {m : StateMess}
    (hAddress : m.realAddress ≠ 0#32) (prefers : List Address) (hWf : ∀ j, BidsWf (bids j))
    (h : Holds cfg old held bids d) :
    Holds cfg old held (fun j => bids j ++
        (prefers.filter fun addr => cfg.pseudoIf j = addr).map fun _ => .preference m.realAddress)
      (prefers.foldl (ripPrefer cfg m) d) := by
  have hWf' (j : Fin n) := (hWf j).append_preferences hAddress
    (prefers.filter fun addr => cfg.pseudoIf j = addr)
  have hHolding := Loops.foldl_unchanged Daemon.holding (ripPrefer cfg m) (ripPrefer_holding m)
    prefers d
  constructor
  · intro j
    rw [foldl_ripPrefer_slot hVip]
    exact (h.tracked j).foldl_append _ (hWf' j)
  · rw [hHolding]
    apply h.sound.of_prefer
    intro j hPrefer
    have hEntry := congrArg Slot.entry (foldl_ripPrefer_slot hVip m prefers d j)
    rw [Slot.foldl_bid_entry, Daemon.slot_entry, Daemon.slot_entry,
      Entry.foldl_bid_of_prefer _ hPrefer] at hEntry
    · exact hEntry
    · intro b hb
      exact (hWf' j).wf b (List.mem_append_right _ hb)
    · apply (h.tracked j).entry_realIf_ne_zero (hWf j).wf
      rw [Daemon.slot_entry, hPrefer]
      decide

/-- A STATE message, for the addresses of one member. -/
theorem ripState (hVip : Function.Injective cfg.pseudoIf) (hMe : cfg.realIf ≠ 0#32)
    {m : StateMess} (hKnown : ∀ c ∈ m.claims, ∃ j, cfg.pseudoIf j = c.1)
    (hAddress : m.realAddress ≠ 0#32)
    (hWf : ∀ j, BidsWf (bids j ++ claimBids cfg.pseudoIf j m.realAddress m.claims))
    (hHonest : Honest cfg.realIf old held
      fun j => bids j ++ claimBids cfg.pseudoIf j m.realAddress m.claims)
    (h : Holds cfg old held bids d) :
    Holds cfg old held (fun j => bids j ++ bidsOn cfg.pseudoIf j m) (ripState cfg m d) := by
  have hEntered : Holds cfg old held bids (enterMember m d) := h.congr (fun _ => rfl) rfl
  have hClaims := foldl_ripClaim hVip hMe m.claims hKnown (s := (enterMember m d, 0)) hWf hHonest
    hEntered
  simp only [Wackamole.ripState, bidsOn, ← List.append_assoc]
  split_ifs
  · exact foldl_ripPrefer hVip hAddress m.prefers hWf (hClaims.handlePostRelease hWf hHonest hMe)
  · exact foldl_ripPrefer hVip hAddress m.prefers hWf hClaims

end Holds

end Wackamole
