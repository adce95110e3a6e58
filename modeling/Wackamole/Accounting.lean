import Wackamole.Blind
import Wackamole.Cluster
import Wackamole.FailedMulticast

/-! One view at one member, from its membership message to the next: whenever the next
view comes, `Old_table` names the member for what it has up, unless the gather that is
interrupted has stranded it. -/
namespace Wackamole

variable {n : Nat} {cfg : Config n}

/-- The next view finds the claims of the member to be what it has up, as many as
`My.num_allocated` says. -/
def Accounted (cfg : Config n) (d : Daemon n) : Prop :=
  Accountable cfg d ∧ ∀ j, ((enterView d).oldTable j).realIf = cfg.realIf ↔ j ∈ d.up

theorem accounted_of_iff {d : Daemon n} (hCount : d.numAllocated = d.up.card)
    (hOld : ∀ j, ((enterView d).oldTable j).realIf = cfg.realIf ↔ j ∈ d.up) :
    Accounted cfg d := by
  refine ⟨?_, hOld⟩
  rw [Accountable, stateMess_claims_length, ownedBy_of_iff hOld, hCount]

theorem enterView_oldTable_kept {d : Daemon n} (h : d.state = .gather ∨ d.state = .boot) :
    (enterView d).oldTable = d.oldTable :=
  if_neg fun hOutside => h.elim hOutside.1 hOutside.2

theorem enterView_oldTable_run {d : Daemon n} (h : d.state = .run) :
    (enterView d).oldTable = d.allocationTable :=
  if_pos (by simp [h])

/-- A daemon that has just entered a view, with the claims of what it has up. -/
structure Entered (cfg : Config n) (d₀ : Daemon n) : Prop where
  state : d₀.state = .gather
  numPendingStates : d₀.numPendingStates = d₀.numMembers
  myIndex_lt : d₀.myIndex < d₀.numMembers
  allocationTable : ∀ j, d₀.allocationTable j = Entry.blank
  members : ∀ k < d₀.numMembers, d₀.members k = ⟨0#32, 0, false⟩
  numAllocated : d₀.numAllocated = d₀.up.card
  old_iff : ∀ j, (d₀.oldTable j).realIf = cfg.realIf ↔ j ∈ d₀.up
  immature : d₀.maturity = false → d₀.up = ∅

/-- STATE messages of distinct members of the view, the own one as it was sent. -/
structure Heard (cfg : Config n) (d₀ : Daemon n) (ms : List StateMess) : Prop where
  messages : ViewMessages cfg.pseudoIf d₀.numMembers ms
  own : ∀ m ∈ ms, m.index = d₀.myIndex ∨ m.realAddress = cfg.realIf → m = stateMess cfg d₀

/-- Nothing that the member had up when the view came is stranded by these messages. -/
def Kept (cfg : Config n) (d₀ : Daemon n) (ms : List StateMess) : Prop :=
  ∀ j ∈ d₀.up, ¬ Stranded cfg.realIf (bidsIn cfg.pseudoIf j ms)

/-- `force_reup` has brought up an interface that the member is to get by its preference
alone, ahead of `Priority_claim`. -/
def Premature (cfg : Config n) (ms : List StateMess) (d : Daemon n) (j : Fin n) : Prop :=
  j ∈ d.up ∧ Entry.settled (bidsIn cfg.pseudoIf j ms) = ⟨cfg.realIf, prefer⟩ ∧
    liveOwner (bidsIn cfg.pseudoIf j ms) ≠ cfg.realIf

section Heard

variable {d₀ : Daemon n} {ms : List StateMess}

theorem heard_nil (cfg : Config n) (d₀ : Daemon n) : Heard cfg d₀ [] :=
  ⟨⟨by simp, by simp, List.nodup_nil, List.nodup_nil⟩, by simp⟩

theorem Heard.of_append {more : List StateMess} (h : Heard cfg d₀ (ms ++ more)) :
    Heard cfg d₀ ms where
  messages := h.messages.of_append
  own m hm := h.own m (List.mem_append_left more hm)

/-- A member claims what it had up. -/
theorem Entered.mem_claims (h : Entered cfg d₀) {j : Fin n} :
    (∃ c ∈ (stateMess cfg d₀).claims, cfg.pseudoIf j = c.1) ↔
      ∃ i ∈ d₀.up, cfg.pseudoIf j = cfg.pseudoIf i := by
  simp only [stateMess, List.mem_map, List.mem_filter, List.mem_finRange, true_and,
    decide_eq_true_eq, h.old_iff]
  constructor
  · rintro ⟨c, ⟨i, hi, rfl⟩, hEq⟩
    exact ⟨i, hi, hEq⟩
  · rintro ⟨i, hi, hEq⟩
    exact ⟨_, ⟨i, hi, rfl⟩, hEq⟩

theorem Heard.honest (hVip : Function.Injective cfg.pseudoIf) (hEntered : Entered cfg d₀)
    (h : Heard cfg d₀ ms) :
    Honest cfg.realIf d₀.oldTable d₀.up fun j => bidsIn cfg.pseudoIf j ms where
  old_iff := hEntered.old_iff
  own j hMem := by
    obtain ⟨m, hm, hAddress, hClaim⟩ := mem_claimants_bidsIn.mp hMem
    rw [h.own m hm (.inr hAddress)] at hClaim
    obtain ⟨i, hi, hEq⟩ := hEntered.mem_claims.mp hClaim
    rwa [hVip hEq]

theorem Heard.indices_subset (h : Heard cfg d₀ ms) :
    (ms.map StateMess.index).toFinset ⊆ Finset.range d₀.numMembers := by
  intro k hk
  obtain ⟨m, hm, rfl⟩ := List.mem_map.mp (List.mem_toFinset.mp hk)
  exact Finset.mem_range.mpr (h.messages.index_lt m hm)

theorem Heard.card_indices (h : Heard cfg d₀ ms) :
    (ms.map StateMess.index).toFinset.card = ms.length := by
  rw [List.toFinset_card_of_nodup h.messages.index_nodup, List.length_map]

theorem Heard.length_le (h : Heard cfg d₀ ms) : ms.length ≤ d₀.numMembers := by
  have hCard := Finset.card_le_card h.indices_subset
  rwa [h.card_indices, Finset.card_range] at hCard

/-- Once there are as many messages as members, every member has been heard. -/
theorem Heard.full (h : Heard cfg d₀ ms) (hAll : ms.length = d₀.numMembers) {k : Nat}
    (hk : k < d₀.numMembers) : ∃ m ∈ ms, m.index = k := by
  have hEq := Finset.eq_of_subset_of_card_le h.indices_subset (by
    rw [h.card_indices, hAll, Finset.card_range])
  have hMem : k ∈ (ms.map StateMess.index).toFinset := by
    rw [hEq]
    exact Finset.mem_range.mpr hk
  exact List.mem_map.mp (List.mem_toFinset.mp hMem)

end Heard

/-- The addresses of a daemon in RUN are those that its table gives it. -/
structure Named (cfg : Config n) (d : Daemon n) : Prop where
  numAllocated : d.numAllocated = d.up.card
  up : ∀ j, j ∈ d.up ↔ (d.allocationTable j).realIf = cfg.realIf

/-- A member between two views, after the STATE messages `ms` of the view that it entered
as `d₀`. What it had up then counts as acquired. -/
inductive InView (cfg : Config n) (d₀ : Daemon n) (ms : List StateMess) (d : Daemon n) : Prop where
  | gathers (matured : Bool) (a : Finset (Fin n)) (hMissing : ms.length < d₀.numMembers)
      (h : Gathering cfg (d₀.grant d₀.up) ms matured (d.grant a))
  | waits (a : Finset (Fin n)) (hAll : ms.length = d₀.numMembers) (hState : d.state = .boot)
      (hImmature : d.maturity = false) (hNone : d₀.up = ∅)
      (h : Gathered cfg (d₀.grant d₀.up) ms (d.grant a))
  | runs (hAll : ms.length = d₀.numMembers) (hState : d.state = .run) (hMature : d.maturity = true)
      (h : Named cfg d)

/-- All moves of a message. -/
theorem Named.handleBalanceMoves (hVip : Function.Injective cfg.pseudoIf) {moves : List Move}
    {d : Daemon n} (h : Named cfg d) (hState : d.state = .run)
    (hFresh : cfg.needsForceReup = true ∨ NoSelfMove cfg d.allocationTable moves) :
    Named cfg (handleBalanceMoves cfg moves d) := by
  have hBefore : d.OwnCount cfg := by
    rw [Daemon.OwnCount, h.numAllocated, ownedBy_of_iff fun j => (h.up j).symm]
  have hCount : (Wackamole.handleBalanceMoves cfg moves d).OwnCount cfg :=
    handleBalanceMoves_invariant balanceMove_ownCount (fun _ _ h => h) moves hBefore
  have hUp := handleBalanceMoves_up hVip hState h.up hFresh
  refine ⟨?_, hUp⟩
  rw [hCount, ownedBy_of_iff fun j => (hUp j).symm]

section InView

variable {d₀ d : Daemon n} {ms : List StateMess}

theorem Entered.inView (h : Entered cfg d₀) : InView cfg d₀ [] d₀ := by
  refine .gathers false d₀.up (Nat.zero_lt_of_lt h.myIndex_lt) ?_
  exact Gathering.start h.state h.allocationTable h.members ⟨h.numAllocated, rfl⟩

theorem Gathering.immature_start {matured : Bool} (h : Gathering cfg d₀ ms matured d)
    (hImmature : d.maturity = false) : d₀.maturity = false := by
  have hAny := h.maturity
  rw [hImmature, eq_comm, Bool.or_eq_false_iff, Bool.or_eq_false_iff] at hAny
  exact hAny.1.1

/-- The last STATE message completes what `Priority_claim` needs. -/
theorem Heard.gathered (hVip : Function.Injective cfg.pseudoIf) (hMe : cfg.realIf ≠ 0#32)
    (hEntered : Entered cfg d₀) (hHeard : Heard cfg d₀ ms) (hAll : ms.length = d₀.numMembers)
    {matured : Bool} (h : Gathering cfg (d₀.grant d₀.up) ms matured d) :
    Gathered cfg (d₀.grant d₀.up) ms d := by
  obtain ⟨m, hm, hIndex⟩ := hHeard.full hAll hEntered.myIndex_lt
  have hOwn := hHeard.own m hm (.inl hIndex)
  have hHonest := hHeard.honest hVip hEntered
  refine ⟨h.numMembers, h.myIndex, h.oldMaturity, h.counted, h.heard, h.holds, hHeard.messages,
    hHonest, hMe, fun k hk => hHeard.full hAll hk, m, hm, hIndex, ?_, ?_⟩
  · rw [hOwn]
    rfl
  · intro j hj
    rw [hOwn]
    exact hEntered.mem_claims.mpr ⟨j, hj, rfl⟩

/-- A member that enters RUN has what its new table gives it, unless it is stranded. -/
theorem Gathered.named {a : Finset (Fin n)} (h : Gathered cfg (d₀.grant d₀.up) ms (d.grant a))
    (hKept : Kept cfg d₀ ms) : Named cfg (settle cfg d) := by
  obtain ⟨a', hSettle⟩ := settle_blind cfg d a
  have hExact := h.settle_exact
  have hIff (j : Fin n) := (h.settle_acquired_iff j).mpr fun hBoth => hKept j hBoth.1 hBoth.2
  rw [hSettle] at hExact hIff
  have hUp : (settle cfg d).up = a' := hExact.up
  constructor
  · rw [hUp]
    exact hExact.numAllocated
  · rw [hUp]
    exact hIff

namespace InView

variable (hVip : Function.Injective cfg.pseudoIf) (hMe : cfg.realIf ≠ 0#32)

include hVip hMe in
/-- `Handle_state` on a message of the view. -/
theorem handleStateMess (hEntered : Entered cfg d₀) {m : StateMess}
    (hHeard : Heard cfg d₀ (ms ++ [m])) (h : InView cfg d₀ ms d) (hGid : d.gid = m.gid)
    (hKept : ms.length + 1 = d₀.numMembers → Kept cfg d₀ (ms ++ [m])) :
    InView cfg d₀ (ms ++ [m]) (handleStateMess cfg m d) := by
  have hLength := hHeard.length_le
  rw [List.length_append, List.length_singleton] at hLength
  rw [Wackamole.handleStateMess, if_pos hGid]
  cases h with
  | waits a hAll => omega
  | runs hAll => omega
  | gathers matured a hMissing h =>
      obtain ⟨a', hCollect⟩ := collectState_blind cfg m d a
      have hHonest := hHeard.honest hVip hEntered
      have hNext := h.collectState hVip hMe hHeard.messages hHonest
      rw [hCollect] at hNext
      generalize collectState cfg m d = d₁ at hNext ⊢
      have hPending : d₁.numPendingStates = d₀.numMembers - (ms.length + 1) := by
        have hCount := hNext.numPendingStates
        rw [List.length_append, List.length_singleton] at hCount
        push_cast at hCount
        exact hCount.trans (by rw [← hEntered.numPendingStates]; rfl)
      by_cases hLast : ms.length + 1 = d₀.numMembers
      · have hDone : d₁.numPendingStates = 0 := by
          rw [hPending]
          omega
        have hAll : (ms ++ [m]).length = d₀.numMembers := by
          rw [List.length_append, List.length_singleton, hLast]
        have hGathered := hHeard.gathered hVip hMe hEntered hAll hNext
        cases hMature : d₁.maturity with
        | true =>
            rw [finishGather_of_mature hDone hMature]
            have hNamed := hGathered.named (hKept hLast)
            exact .runs hAll rfl ((settle_maturity d₁).trans hMature)
              ⟨hNamed.numAllocated, hNamed.up⟩
        | false =>
            rw [finishGather_of_immature hDone hMature]
            exact .waits a' hAll rfl hMature (hEntered.immature (hNext.immature_start hMature))
              (hGathered.withState .boot d₁.maturity d₁.events)
      · have hMore : d₁.numPendingStates ≠ 0 := by
          rw [hPending]
          omega
        rw [finishGather, if_neg hMore]
        refine .gathers matured a' ?_ hNext
        rw [List.length_append, List.length_singleton]
        omega

/-- `Handle_mature`. Nobody is stranded in BOOT: an immature member has nothing up. -/
theorem handleMature (h : InView cfg d₀ ms d) : InView cfg d₀ ms (handleMature cfg d) := by
  cases h with
  | gathers matured a hMissing h =>
      obtain ⟨a', hBlind⟩ := handleMature_blind cfg d a
      have hNext := h.mature
      rw [hBlind] at hNext
      exact .gathers true a' hMissing hNext
  | waits a hAll hState hImmature hNone h =>
      have hBoot : d = { d with state := .boot } := by
        cases d
        cases hState
        rfl
      have hKept : Kept cfg d₀ ms := fun j hj => absurd (hNone ▸ hj) (Finset.notMem_empty j)
      rw [hBoot, handleMature_of_boot cfg hImmature]
      have hMatured : Gathered cfg (d₀.grant d₀.up) ms (({ d with
          state := .boot, maturity := true, events := d.events.erase .turnMature } :
            Daemon n).grant a) := h.withState .boot true (d.events.erase .turnMature)
      have hNamed := hMatured.named hKept
      exact .runs hAll rfl (settle_maturity _) ⟨hNamed.numAllocated, hNamed.up⟩
  | runs hAll hState hMature h =>
      rw [Wackamole.handleMature, if_pos hMature]
      exact .runs hAll hState hMature h

include hVip in
/-- `Handle_balance`. A self-move takes an address down, which only `force_reup` repairs. -/
theorem handleBalanceMoves {moves : List Move} (h : InView cfg d₀ ms d)
    (hFresh : d.state = .run → cfg.needsForceReup = true ∨ NoSelfMove cfg d.allocationTable moves) :
    InView cfg d₀ ms (handleBalanceMoves cfg moves d) := by
  cases h with
  | gathers matured a hMissing h =>
      have hState : d.state = .gather := h.state
      rw [handleBalanceMoves_of_gather moves hState]
      exact .gathers matured a hMissing h
  | waits a hAll hState hImmature hNone h =>
      rw [Wackamole.handleBalanceMoves, if_pos (by simp [hState])]
      exact .waits a hAll hState hImmature hNone h
  | runs hAll hState hMature h =>
      have hNamed := h.handleBalanceMoves hVip hState (hFresh hState)
      have hControl := handleBalanceMoves_control cfg moves d
      exact .runs hAll ((congrArg Control.state hControl).trans hState)
        ((congrArg Control.maturity hControl).trans hMature) hNamed

/-- What a received message and a multicast overwrite does not matter. -/
theorem withBuffer (h : InView cfg d₀ ms d) (mess : List Word) (trace : List (Act n))
    (serviceType messType : Int) (sender : String) (numGroups : Nat) (endianMismatch : Bool)
    (events : Finset Timer) :
    InView cfg d₀ ms { d with
      mess, trace, serviceType, messType, sender, numGroups, endianMismatch, events } := by
  cases h with
  | gathers matured a hMissing h =>
      exact .gathers matured a hMissing
        ⟨⟨h.state, h.gid, h.numMembers, h.myIndex, h.oldMaturity, h.numPendingStates, h.maturity,
          h.table⟩, h.counted.congr rfl rfl rfl, h.heard, h.silent, h.holds.congr (fun _ => rfl) rfl⟩
  | waits a hAll hState hImmature hNone h =>
      exact .waits a hAll hState hImmature hNone
        ⟨h.numMembers, h.myIndex, h.oldMaturity, h.counted.congr rfl rfl rfl, h.heard,
          h.holds.congr (fun _ => rfl) rfl, h.messages, h.honest, h.realIf, h.full, h.self⟩
  | runs hAll hState hMature h => exact .runs hAll hState hMature ⟨h.numAllocated, h.up⟩

end InView

/-- The owner among the settled claims is one of the claimants. -/
theorem mem_claimants_of_liveOwner {me : Address} {bids : List Bid} (hWf : BidsWf bids)
    (hMe : me ≠ 0#32) (h : liveOwner bids = me) : me ∈ claimants bids := by
  by_cases hNone : liveClaimants bids = []
  · have hVacant : liveOwner bids = 0#32 := by
      by_cases hTaken : taken bids
      · have hNil : bids.takeWhile Bid.isClaim = [] := by
          rw [liveClaimants, if_pos hTaken] at hNone
          cases hPrefix : bids.takeWhile Bid.isClaim with
          | nil => rfl
          | cons b rest =>
              have hClaim : b.isClaim = true := List.mem_takeWhile_imp (hPrefix ▸ List.mem_cons_self)
              rw [hPrefix] at hNone
              cases b with
              | claim sender priority => simp [claimants, Bid.claimant?] at hNone
              | preference sender => cases hClaim
        rw [liveOwner, if_pos hTaken, hNil]
        rfl
      · rw [liveClaimants, if_neg hTaken] at hNone
        rw [liveOwner, if_neg hTaken]
        by_contra hOwner
        have hBids : bids ≠ [] := by
          rintro rfl
          exact hOwner rfl
        have hMem := (settled_of_not_taken hWf.wf hTaken hBids).1
        rw [hNone] at hMem
        cases hMem
    exact absurd (h.symm.trans hVacant) hMe
  · exact Tracked.mem_claimants_of_live (h ▸ Tracked.liveOwner_mem hWf hNone)

/-- In an interrupted gather, `Old_table` names the member for what it has up, unless it is
stranded or `force_reup` was early. -/
theorem Holds.accounted {a : Finset (Fin n)} (hMe : cfg.realIf ≠ 0#32)
    (hMessages : ViewMessages cfg.pseudoIf d₀.numMembers ms)
    (hHonest : Honest cfg.realIf d₀.oldTable d₀.up fun j => bidsIn cfg.pseudoIf j ms)
    (h : Holds cfg d₀.oldTable d₀.up (fun j => bidsIn cfg.pseudoIf j ms) (d.grant a))
    (hKept : Kept cfg d₀ ms) (hLate : ∀ j, ¬ Premature cfg ms d j) :
    d.up = a ∧ d.numAllocated = d.up.card ∧ a ⊆ d₀.up ∧
      ∀ j, (d.oldTable j).realIf = cfg.realIf ↔ j ∈ d.up := by
  have hWf (j : Fin n) := hMessages.bidsWf j
  have hHeld (j : Fin n) : (d₀.oldTable j).realIf = cfg.realIf ↔ decide (j ∈ d₀.up) = true := by
    simpa using hHonest.old_iff j
  have hOwn (j : Fin n) (hMem : cfg.realIf ∈ claimants (bidsIn cfg.pseudoIf j ms)) :
      decide (j ∈ d₀.up) = true := by
    simpa using hHonest.own j hMem
  have hAcquired (j : Fin n) : decide (j ∈ a) = (decide (j ∈ d₀.up) &&
      (decide (cfg.realIf ∉ liveClaimants (bidsIn cfg.pseudoIf j ms)) ||
        decide (cfg.realIf = liveOwner (bidsIn cfg.pseudoIf j ms)))) := (h.tracked j).acquired
  have hUp : d.up = a := by
    refine Finset.Subset.antisymm (fun j hj => ?_) h.sound.acquired_up
    rcases h.sound.up_entry j hj with hMem | ⟨_, hOwner, hPrefer⟩
    · exact hMem
    · have hSettled : Entry.settled (bidsIn cfg.pseudoIf j ms) = ⟨cfg.realIf, prefer⟩ := by
        rw [← (h.tracked j).entry, ← hOwner, ← hPrefer]
        rfl
      have hLive : liveOwner (bidsIn cfg.pseudoIf j ms) = cfg.realIf := by
        by_contra hOther
        exact hLate j ⟨hj, hSettled, hOther⟩
      have hClaims := mem_claimants_of_liveOwner (hWf j) hMe hLive
      have hMine := hAcquired j
      rw [hOwn j hClaims, hLive, decide_eq_true rfl, Bool.or_true, Bool.and_true] at hMine
      exact of_decide_eq_true hMine
  refine ⟨hUp, ?_, fun j hj => ?_, fun j => ?_⟩
  · rw [hUp]
    exact h.sound.numAllocated
  · have hMine := hAcquired j
    rw [decide_eq_true hj, eq_comm, Bool.and_eq_true] at hMine
    exact of_decide_eq_true hMine.1
  · rw [hUp]
    constructor
    · exact fun hOld => of_decide_eq_true
        ((h.tracked j).acquired_of_old (hWf j) (hHeld j) (hOwn j) hOld)
    · intro hj
      by_contra hOld
      have hLost := ((h.tracked j).lost_iff (hWf j) (hHeld j)).mp ⟨decide_eq_true hj, hOld⟩
      exact hKept j (of_decide_eq_true hLost.1) hLost.2

/-- The next view finds the member accounted for, and with nothing up if it is immature. -/
theorem InView.accounted (hVip : Function.Injective cfg.pseudoIf) (hMe : cfg.realIf ≠ 0#32)
    (hEntered : Entered cfg d₀) (hHeard : Heard cfg d₀ ms) (h : InView cfg d₀ ms d)
    (hQuiet : d.state ≠ .run → Kept cfg d₀ ms ∧ ∀ j, ¬ Premature cfg ms d j) :
    Accounted cfg d ∧ (d.maturity = false → d.up = ∅) := by
  have hHonest := hHeard.honest hVip hEntered
  cases h with
  | gathers matured a hMissing h =>
      have hState : d.state = .gather := h.state
      obtain ⟨hKept, hLate⟩ := hQuiet (by simp [hState])
      obtain ⟨hUp, hCount, hSub, hOld⟩ :=
        h.holds.accounted hMe hHeard.messages hHonest hKept hLate
      refine ⟨accounted_of_iff hCount ?_, fun hImmature => ?_⟩
      · rwa [enterView_oldTable_kept (.inl hState)]
      · have hStart : d₀.maturity = false := h.immature_start hImmature
        rw [hUp, ← Finset.subset_empty, ← hEntered.immature hStart]
        exact hSub
  | waits a hAll hState hImmature hNone h =>
      obtain ⟨hKept, hLate⟩ := hQuiet (by simp [hState])
      obtain ⟨hUp, hCount, hSub, hOld⟩ :=
        h.holds.accounted hMe hHeard.messages hHonest hKept hLate
      refine ⟨accounted_of_iff hCount ?_, fun _ => ?_⟩
      · rwa [enterView_oldTable_kept (.inr hState)]
      · rw [hUp, ← Finset.subset_empty, ← hNone]
        exact hSub
  | runs hAll hState hMature h =>
      refine ⟨accounted_of_iff h.numAllocated fun j => ?_, fun hImmature => ?_⟩
      · rw [enterView_oldTable_run hState]
        exact (h.up j).symm
      · rw [hMature] at hImmature
        cases hImmature

/-- The daemon that `Handle_membership` leaves has claimed what it has up. -/
theorem Accounted.entered (h : Accounted cfg d) (ret : Int) (hIndex : d.messType.toNat < d.numGroups)
    (hImmature : d.maturity = false → d.up = ∅) : Entered cfg (entered cfg ret d) where
  state := rfl
  numPendingStates := rfl
  myIndex_lt := by
    have hMine : (enterView d).myIndex = d.messType.toNat := if_pos (Nat.zero_lt_of_lt hIndex)
    change (enterView d).myIndex < d.numGroups
    rwa [hMine]
  allocationTable _ := rfl
  members _ hk := if_pos hk
  numAllocated := by
    have hCount := h.1
    rw [Accountable, stateMess_claims_length, ownedBy_of_iff h.2] at hCount
    exact hCount.symm
  old_iff := h.2
  immature := hImmature

/-- The share of the ARP cache after it changes nothing of that. -/
theorem Entered.share (h : Entered cfg d) (arps : List Word) (act : Act n) :
    Entered cfg ((d.write arps).record act) :=
  ⟨h.state, h.numPendingStates, h.myIndex_lt, h.allocationTable, h.members, h.numAllocated,
    h.old_iff, h.immature⟩

end InView

end Wackamole
