import Wackamole.GatherHoldings
import Wackamole.Balance

/-! One member from the end of `Handle_membership` to the last STATE message of the
view: whatever is delivered in between, its table is settled by the bids so far, its
counters are their tally, and it holds what `Tracked` says. -/
namespace Wackamole

variable {n : Nat} {cfg : Config n}

/-- A STATE message with the shape that `Send_state_message` gives it. -/
structure StateMess.Wf (vip : Fin n → Address) (m : StateMess) : Prop where
  realAddress : m.realAddress ≠ 0#32
  numAllocated : m.numAllocated = m.claims.length
  known : ∀ c ∈ m.claims, ∃ j, vip j = c.1
  nodup : (m.claims.map Prod.fst).Nodup
  priority : ∀ c ∈ m.claims, c.2 = claimed ∨ c.2 = preferClaimed

/-- STATE messages of distinct members of one view. -/
structure ViewMessages (vip : Fin n → Address) (numMembers : Nat) (ms : List StateMess) :
    Prop where
  wf : ∀ m ∈ ms, m.Wf vip
  index_lt : ∀ m ∈ ms, m.index < numMembers
  index_nodup : (ms.map StateMess.index).Nodup
  address_nodup : (ms.map StateMess.realAddress).Nodup

section Bids

variable {vip : Fin n → Address} {numMembers : Nat} {ms : List StateMess}

theorem ViewMessages.of_append {more : List StateMess}
    (h : ViewMessages vip numMembers (ms ++ more)) : ViewMessages vip numMembers ms where
  wf m hm := h.wf m (List.mem_append_left more hm)
  index_lt m hm := h.index_lt m (List.mem_append_left more hm)
  index_nodup := by
    have hNodup := h.index_nodup
    rw [List.map_append] at hNodup
    exact hNodup.of_append_left
  address_nodup := by
    have hNodup := h.address_nodup
    rw [List.map_append] at hNodup
    exact hNodup.of_append_left

theorem bidsOn_wf {m : StateMess} (hAddress : m.realAddress ≠ 0#32)
    (hPriority : ∀ c ∈ m.claims, c.2 = claimed ∨ c.2 = preferClaimed) (j : Fin n) :
    ∀ b ∈ bidsOn vip j m, b.Wf := by
  intro b hb
  rcases List.mem_append.mp hb with hb | hb
  · obtain ⟨c, hc, rfl⟩ := List.mem_map.mp hb
    exact ⟨hAddress, hPriority c (List.mem_of_mem_filter hc)⟩
  · obtain ⟨_, _, rfl⟩ := List.mem_map.mp hb
    exact hAddress

theorem bidsIn_wf (hAddress : ∀ m ∈ ms, m.realAddress ≠ 0#32)
    (hPriority : ∀ m ∈ ms, ∀ c ∈ m.claims, c.2 = claimed ∨ c.2 = preferClaimed) (j : Fin n) :
    ∀ b ∈ bidsIn vip j ms, b.Wf := by
  intro b hb
  obtain ⟨m, hm, hb⟩ := List.mem_flatMap.mp hb
  exact bidsOn_wf (hAddress m hm) (hPriority m hm) j b hb

/-- The claims in a message for one interface, by sender. -/
theorem claimants_bidsOn (j : Fin n) (m : StateMess) :
    claimants (bidsOn vip j m) =
      (m.claims.filter fun c => vip j = c.1).map fun _ => m.realAddress := by
  have hClaims (l : List (Address × Int)) :
      claimants (l.map fun c => Bid.claim m.realAddress c.2) = l.map fun _ => m.realAddress := by
    induction l with
    | nil => rfl
    | cons c l ih =>
        rw [List.map_cons, List.map_cons, ← ih]
        rfl
  have hPrefers (l : List Address) :
      claimants (l.map fun _ => Bid.preference m.realAddress) = [] := by
    induction l with
    | nil => rfl
    | cons addr l ih =>
        rw [List.map_cons]
        exact ih
  have hAppend : claimants (bidsOn vip j m) =
      claimants ((m.claims.filter fun c => vip j = c.1).map fun c => .claim m.realAddress c.2) ++
        claimants ((m.prefers.filter fun addr => vip j = addr).map fun _ =>
          .preference m.realAddress) := List.filterMap_append
  rw [hAppend, hClaims, hPrefers, List.append_nil]

theorem mem_claimants_bidsIn {a : Address} {j : Fin n} :
    a ∈ claimants (bidsIn vip j ms) ↔
      ∃ m ∈ ms, m.realAddress = a ∧ ∃ c ∈ m.claims, vip j = c.1 := by
  have hFlat : claimants (bidsIn vip j ms) = ms.flatMap fun m => claimants (bidsOn vip j m) := by
    unfold claimants bidsIn
    rw [List.filterMap_flatMap]
  rw [hFlat, List.mem_flatMap]
  constructor
  · rintro ⟨m, hm, ha⟩
    rw [claimants_bidsOn, List.mem_map] at ha
    obtain ⟨c, hc, rfl⟩ := ha
    obtain ⟨hc, hAddr⟩ := List.mem_filter.mp hc
    exact ⟨m, hm, rfl, c, hc, by simpa using hAddr⟩
  · rintro ⟨m, hm, rfl, c, hc, hAddr⟩
    refine ⟨m, hm, ?_⟩
    rw [claimants_bidsOn, List.mem_map]
    exact ⟨c, List.mem_filter.mpr ⟨hc, by simpa using hAddr⟩, rfl⟩

theorem claimants_bidsOn_nodup {m : StateMess} (hNodup : (m.claims.map Prod.fst).Nodup)
    (j : Fin n) : (claimants (bidsOn vip j m)).Nodup := by
  rw [claimants_bidsOn]
  have hFilter : ((m.claims.filter fun c => vip j = c.1).map Prod.fst).Nodup :=
    hNodup.sublist ((List.filter_sublist).map Prod.fst)
  have hSame : ∀ c ∈ m.claims.filter fun c => vip j = c.1, c.1 = vip j := by
    intro c hc
    simpa [eq_comm] using (List.mem_filter.mp hc).2
  generalize m.claims.filter (fun c => vip j = c.1) = l at hFilter hSame
  match l, hFilter, hSame with
  | [], _, _ => exact List.nodup_nil
  | [c], _, _ => exact List.nodup_singleton _
  | c :: c' :: l, hFilter, hSame =>
      have hEq : c.1 = c'.1 := by rw [hSame c (by simp), hSame c' (by simp)]
      simp [hEq] at hFilter

/-- Every member claims an interface at most once. -/
theorem ViewMessages.bidsWf (h : ViewMessages vip numMembers ms) (j : Fin n) :
    BidsWf (bidsIn vip j ms) := by
  refine ⟨bidsIn_wf (fun m hm => (h.wf m hm).realAddress) (fun m hm => (h.wf m hm).priority) j, ?_⟩
  induction ms with
  | nil => exact List.nodup_nil
  | cons m ms ih =>
      have hRest : ViewMessages vip numMembers ms :=
        ⟨fun m' hm => h.wf m' (List.mem_cons_of_mem m hm),
          fun m' hm => h.index_lt m' (List.mem_cons_of_mem m hm),
          (List.nodup_cons.mp h.index_nodup).2, (List.nodup_cons.mp h.address_nodup).2⟩
      have hSplit : claimants (bidsIn vip j (m :: ms)) =
          claimants (bidsOn vip j m) ++ claimants (bidsIn vip j ms) := List.filterMap_append
      rw [hSplit]
      refine List.Nodup.append (claimants_bidsOn_nodup (h.wf m List.mem_cons_self).nodup j)
        (ih hRest) ?_
      intro a ha hMem
      rw [claimants_bidsOn, List.mem_map] at ha
      obtain ⟨_, _, rfl⟩ := ha
      obtain ⟨m', hm', hEq, _⟩ := mem_claimants_bidsIn.mp hMem
      exact (List.nodup_cons.mp h.address_nodup).1 (List.mem_map.mpr ⟨m', hm', hEq⟩)

/-- The next sender has not claimed anything in this view yet. -/
theorem ViewMessages.fresh {m : StateMess} (h : ViewMessages vip numMembers (ms ++ [m]))
    (j : Fin n) : m.realAddress ∉ claimants (bidsIn vip j ms) := by
  intro hMem
  obtain ⟨m', hm', hEq, _⟩ := mem_claimants_bidsIn.mp hMem
  have hNodup := h.address_nodup
  rw [List.map_append] at hNodup
  exact (List.nodup_append.mp hNodup).2.2 _ (List.mem_map.mpr ⟨m', hm', hEq⟩) _ (by simp) rfl

end Bids

/-- What the network hands to a member during a view. -/
inductive Delivery where
  | state (m : StateMess)
  | mature
  | balance (moves : List Move)
  deriving DecidableEq

def Delivery.state? : Delivery → Option StateMess
  | .state m => some m
  | _ => none

def deliver (cfg : Config n) (d : Daemon n) : Delivery → Daemon n
  | .state m => handleStateMess cfg m d
  | .mature => handleMature cfg d
  | .balance moves => handleBalanceMoves cfg moves d

/-- The STATE messages among some deliveries. -/
def statesIn (script : List Delivery) : List StateMess := script.filterMap Delivery.state?

@[simp] theorem statesIn_append (script script' : List Delivery) :
    statesIn (script ++ script') = statesIn script ++ statesIn script' := List.filterMap_append

@[simp] theorem statesIn_state (m : StateMess) : statesIn [.state m] = [m] := rfl

@[simp] theorem statesIn_mature : statesIn [.mature] = [] := rfl

@[simp] theorem statesIn_balance (moves : List Move) : statesIn [.balance moves] = [] := rfl

/-- A daemon that is collecting the STATE messages of the view it entered as `d₀`. -/
structure Collecting (cfg : Config n) (d₀ : Daemon n) (ms : List StateMess) (matured : Bool)
    (d : Daemon n) : Prop where
  state : d.state = .gather
  gid : d.gid = d₀.gid
  numMembers : d.numMembers = d₀.numMembers
  myIndex : d.myIndex = d₀.myIndex
  oldMaturity : d.oldMaturity = d₀.oldMaturity
  numPendingStates : d.numPendingStates = d₀.numPendingStates - ms.length
  maturity : d.maturity = (d₀.maturity || ms.any (fun m => m.maturity = 1) || matured)
  table : ∀ j, d.allocationTable j = (bidsIn cfg.pseudoIf j ms).foldl Entry.bid Entry.blank

variable (cfg) in
/-- In GATHER, a MATURING message only sets the flag and cancels the timer. -/
theorem handleMature_of_gather {d : Daemon n} (hState : d.state = .gather) :
    ∃ events, handleMature cfg d = { d with maturity := true, events } := by
  unfold handleMature
  by_cases hMature : d.maturity = true
  · refine ⟨d.events, ?_⟩
    rw [if_pos hMature]
    cases d
    simp_all
  · refine ⟨d.events.erase .turnMature, ?_⟩
    rw [if_neg hMature, if_neg (by simp [Daemon.dequeue, hState])]
    rfl

theorem handleBalanceMoves_of_gather {d : Daemon n} (moves : List Move)
    (hState : d.state = .gather) : handleBalanceMoves cfg moves d = d := by
  simp [handleBalanceMoves, hState]

variable (cfg) in
/-- In GATHER, a STATE message lays out its claims and preferences, may set the
maturity, and is counted. -/
theorem collectState_of_gather (m : StateMess) {d : Daemon n} (hState : d.state = .gather) :
    ∃ events, collectState cfg m d =
      { ripState cfg m d with
        maturity := d.maturity || decide (m.maturity = 1)
        events
        numPendingStates := d.numPendingStates - 1 } := by
  have hControl := ripState_control cfg m d
  have hGather : (ripState cfg m d).state = .gather :=
    (congrArg Control.state hControl).trans hState
  have hMaturity : (ripState cfg m d).maturity = d.maturity := congrArg Control.maturity hControl
  have hPending : (ripState cfg m d).numPendingStates = d.numPendingStates :=
    congrArg Control.numPendingStates hControl
  by_cases hTurn : d.maturity = false ∧ m.maturity = 1
  · obtain ⟨events, hMature⟩ := handleMature_of_gather cfg hGather
    refine ⟨events, ?_⟩
    simp only [collectState, hMaturity, hTurn, and_self, ↓reduceIte, hMature, hPending,
      decide_true, Bool.or_true]
  · refine ⟨(ripState cfg m d).events, ?_⟩
    have hSame : (d.maturity || decide (m.maturity = 1)) = (ripState cfg m d).maturity := by
      rw [hMaturity]
      cases hd : d.maturity <;> simp_all
    simp only [collectState, hMaturity, hTurn, ↓reduceIte, hSame, hPending]

namespace Collecting

variable {d₀ d : Daemon n} {ms : List StateMess} {matured : Bool}

/-- One STATE message of the view, up to the countdown. -/
theorem collectState (hVip : Function.Injective cfg.pseudoIf) (h : Collecting cfg d₀ ms matured d)
    (m : StateMess) : Collecting cfg d₀ (ms ++ [m]) matured (collectState cfg m d) := by
  have hControl := ripState_control cfg m d
  obtain ⟨events, hCollect⟩ := collectState_of_gather cfg m h.state
  rw [hCollect]
  constructor
  · exact (congrArg Control.state hControl).trans h.state
  · exact (congrArg Control.gid hControl).trans h.gid
  · exact (congrArg Control.numMembers hControl).trans h.numMembers
  · exact (congrArg Control.myIndex hControl).trans h.myIndex
  · exact (congrArg Control.oldMaturity hControl).trans h.oldMaturity
  · simp only [h.numPendingStates, List.length_append, List.length_singleton]
    push_cast
    ring
  · simp only [h.maturity, List.any_append, List.any_cons, List.any_nil, Bool.or_false]
    cases d₀.maturity <;> cases (ms.any fun m => decide (m.maturity = 1)) <;> cases matured <;>
      simp
  · intro j
    have hSlot := congrArg Slot.entry (ripState_slot hVip m d j)
    rw [Daemon.slot_entry, Slot.foldl_bid_entry, Daemon.slot_entry, h.table,
      ← List.foldl_append] at hSlot
    rw [hSlot, bidsIn_append]
    simp [bidsIn]

theorem mature (h : Collecting cfg d₀ ms matured d) :
    Collecting cfg d₀ ms true (handleMature cfg d) := by
  obtain ⟨events, hMature⟩ := handleMature_of_gather cfg h.state
  rw [hMature]
  exact ⟨h.state, h.gid, h.numMembers, h.myIndex, h.oldMaturity, h.numPendingStates, by simp,
    h.table⟩

/-- While STATE messages are missing, the end of `Handle_state` is not reached. -/
theorem handleStateMess_eq (hVip : Function.Injective cfg.pseudoIf)
    (h : Collecting cfg d₀ ms matured d) {m : StateMess} (hGid : m.gid = d₀.gid)
    (hMissing : (ms.length : Int) + 1 < d₀.numPendingStates) :
    handleStateMess cfg m d = Wackamole.collectState cfg m d := by
  have hNext := h.collectState hVip m
  have hPending : (Wackamole.collectState cfg m d).numPendingStates ≠ 0 := by
    rw [hNext.numPendingStates, List.length_append, List.length_singleton]
    push_cast
    omega
  rw [handleStateMess, if_pos (h.gid.trans hGid.symm), finishGather, if_neg hPending]

/-- Everything delivered before the last STATE message of the view. -/
theorem run (hVip : Function.Injective cfg.pseudoIf) (h : Collecting cfg d₀ [] false d₀)
    (script : List Delivery) (hGid : ∀ m ∈ statesIn script, m.gid = d₀.gid)
    (hMissing : ((statesIn script).length : Int) < d₀.numPendingStates) :
    Collecting cfg d₀ (statesIn script) (decide (.mature ∈ script))
      (script.foldl (deliver cfg) d₀) := by
  induction script using List.reverseRecOn with
  | nil => exact h
  | append_singleton script item ih =>
      rw [statesIn_append] at hGid hMissing
      have hBefore := ih (fun m hm => hGid m (List.mem_append_left _ hm)) (by
        rw [List.length_append] at hMissing
        push_cast at hMissing
        omega)
      rw [List.foldl_append, statesIn_append]
      cases item with
      | state m =>
          have hNext := hBefore.collectState hVip m
          have hEq := hBefore.handleStateMess_eq hVip (hGid m (by simp)) (by simpa using hMissing)
          simp only [List.foldl_cons, List.foldl_nil, deliver, hEq]
          simpa using hNext
      | mature => simpa [deliver] using hBefore.mature
      | balance moves =>
          simpa [deliver, handleBalanceMoves_of_gather moves hBefore.state] using hBefore

end Collecting

theorem ripState_realIf (m : StateMess) (d : Daemon n) (k : Nat) :
    ((ripState cfg m d).members k).realIf = ((enterMember m d).members k).realIf := by
  have hClaims := Loops.foldl_unchanged (fun s : Daemon n × Nat => (s.1.members k).realIf)
    (ripClaim cfg m) (fun s c => ripClaim_realIf m s c k) m.claims (enterMember m d, 0)
  unfold ripState
  rw [Loops.foldl_unchanged Daemon.members (ripPrefer cfg m) (ripPrefer_members m)]
  split_ifs with h
  · rw [handlePostRelease_unchanged cfg Daemon.members (fun _ _ => rfl)]
    exact hClaims
  · exact hClaims

/-- A daemon in a view whose members are well behaved. -/
structure Gathering (cfg : Config n) (d₀ : Daemon n) (ms : List StateMess) (matured : Bool)
    (d : Daemon n) : Prop extends Collecting cfg d₀ ms matured d where
  counted : Counted (fun j => bidsIn cfg.pseudoIf j ms) (fun _ => 0) d
  heard : ∀ m ∈ ms, (d.members m.index).realIf = m.realAddress
  silent : ∀ k < d.numMembers, k ∉ ms.map StateMess.index → (d.members k).realIf = 0#32
  holds : Holds cfg d₀.oldTable d₀.acquired (fun j => bidsIn cfg.pseudoIf j ms) d

namespace Gathering

variable {d₀ d : Daemon n} {ms : List StateMess} {matured : Bool}

theorem senderAt (h : Gathering cfg d₀ ms matured d) {m : StateMess}
    (hMessages : ViewMessages cfg.pseudoIf d₀.numMembers (ms ++ [m])) :
    SenderAt m (enterMember m d) where
  index_lt := by
    change m.index < d.numMembers
    rw [h.numMembers]
    exact hMessages.index_lt m (by simp)
  realIf := by simp [enterMember]
  unique k hk hAddress := by
    by_contra hIndex
    simp only [enterMember, ne_eq, hIndex, not_false_eq_true, Function.update_of_ne] at hk hAddress
    by_cases hHeard : k ∈ ms.map StateMess.index
    · obtain ⟨m', hm', rfl⟩ := List.mem_map.mp hHeard
      have hNodup := hMessages.address_nodup
      rw [List.map_append] at hNodup
      exact (List.nodup_append.mp hNodup).2.2 _ (List.mem_map.mpr ⟨m', hm', rfl⟩) _ (by simp)
        ((h.heard m' hm').symm.trans hAddress)
    · rw [h.silent k hk hHeard] at hAddress
      exact (hMessages.wf m (by simp)).realAddress hAddress.symm

theorem collectState (hVip : Function.Injective cfg.pseudoIf) (hMe : cfg.realIf ≠ 0#32)
    (h : Gathering cfg d₀ ms matured d) {m : StateMess}
    (hMessages : ViewMessages cfg.pseudoIf d₀.numMembers (ms ++ [m]))
    (hHonest : Honest cfg.realIf d₀.oldTable d₀.acquired
      fun j => bidsIn cfg.pseudoIf j (ms ++ [m])) :
    Gathering cfg d₀ (ms ++ [m]) matured (collectState cfg m d) := by
  have hm := hMessages.wf m (by simp)
  have hBids (j : Fin n) : bidsIn cfg.pseudoIf j (ms ++ [m]) =
      bidsIn cfg.pseudoIf j ms ++ bidsOn cfg.pseudoIf j m := by simp [bidsIn]
  have hSplit (j : Fin n) : bidsIn cfg.pseudoIf j (ms ++ [m]) =
      bidsIn cfg.pseudoIf j ms ++ claimBids cfg.pseudoIf j m.realAddress m.claims ++
        (m.prefers.filter fun addr => cfg.pseudoIf j = addr).map fun _ =>
          .preference m.realAddress := by
    rw [hBids, List.append_assoc]
    rfl
  have hClaims (j : Fin n) : BidsWf (bidsIn cfg.pseudoIf j ms ++
      claimBids cfg.pseudoIf j m.realAddress m.claims) := by
    have hAll := hMessages.bidsWf j
    rw [hSplit] at hAll
    exact hAll.of_append
  have hHonestClaims : Honest cfg.realIf d₀.oldTable d₀.acquired fun j =>
      bidsIn cfg.pseudoIf j ms ++ claimBids cfg.pseudoIf j m.realAddress m.claims := by
    simp only [hSplit] at hHonest
    exact hHonest.of_append
  have hCounted := ripState_counted hVip (h.senderAt hMessages) hm.known hm.numAllocated
    hm.realAddress (fun j => hMessages.fresh j) hClaims h.counted
  have hHolds := h.holds.ripState hVip hMe hm.known hm.realAddress hClaims hHonestClaims
  simp only [← hBids] at hCounted hHolds
  have hNum : (Wackamole.ripState cfg m d).numMembers = d.numMembers :=
    congrArg Control.numMembers (ripState_control cfg m d)
  have hBase := h.toCollecting.collectState hVip m
  obtain ⟨events, hCollect⟩ := collectState_of_gather cfg m h.state
  rw [hCollect] at hBase ⊢
  refine ⟨hBase, hCounted.congr rfl rfl rfl, ?_, ?_, hHolds.congr (fun _ => rfl) rfl⟩
  · intro m' hm'
    change ((Wackamole.ripState cfg m d).members m'.index).realIf = m'.realAddress
    rw [ripState_realIf]
    rcases List.mem_append.mp hm' with hOld | hNew
    · have hNodup := hMessages.index_nodup
      rw [List.map_append] at hNodup
      have hIndex : m'.index ≠ m.index := fun hEq => (List.nodup_append.mp hNodup).2.2 _
        (List.mem_map.mpr ⟨m', hOld, rfl⟩) _ (by simp) hEq
      simpa [enterMember, hIndex] using h.heard m' hOld
    · rw [List.mem_singleton.mp hNew]
      simp [enterMember]
  · intro k hk hMissing
    change ((Wackamole.ripState cfg m d).members k).realIf = 0#32
    change k < (Wackamole.ripState cfg m d).numMembers at hk
    rw [hNum] at hk
    simp only [List.map_append, List.map_cons, List.map_nil, List.mem_append, List.mem_singleton,
      not_or] at hMissing
    rw [ripState_realIf]
    simpa [enterMember, hMissing.2] using h.silent k hk hMissing.1

theorem mature (h : Gathering cfg d₀ ms matured d) :
    Gathering cfg d₀ ms true (handleMature cfg d) := by
  have hBase := h.toCollecting.mature
  obtain ⟨events, hMature⟩ := handleMature_of_gather cfg h.state
  rw [hMature] at hBase ⊢
  exact ⟨hBase, h.counted.congr rfl rfl rfl, h.heard, h.silent, h.holds.congr (fun _ => rfl) rfl⟩

/-- Everything delivered before the last STATE message of the view. -/
theorem run (hVip : Function.Injective cfg.pseudoIf) (hMe : cfg.realIf ≠ 0#32)
    (h : Gathering cfg d₀ [] false d₀) (script : List Delivery)
    (hGid : ∀ m ∈ statesIn script, m.gid = d₀.gid)
    (hMissing : ((statesIn script).length : Int) < d₀.numPendingStates)
    (hMessages : ViewMessages cfg.pseudoIf d₀.numMembers (statesIn script))
    (hHonest : Honest cfg.realIf d₀.oldTable d₀.acquired
      fun j => bidsIn cfg.pseudoIf j (statesIn script)) :
    Gathering cfg d₀ (statesIn script) (decide (.mature ∈ script))
      (script.foldl (deliver cfg) d₀) := by
  induction script using List.reverseRecOn with
  | nil => exact h
  | append_singleton script item ih =>
      simp only [statesIn_append] at hGid hMissing hMessages hHonest
      have hLength : ((statesIn script).length : Int) < d₀.numPendingStates := by
        rw [List.length_append] at hMissing
        push_cast at hMissing
        omega
      have hHonestBefore : Honest cfg.realIf d₀.oldTable d₀.acquired
          fun j => bidsIn cfg.pseudoIf j (statesIn script) := by
        simp only [bidsIn_append] at hHonest
        exact hHonest.of_append
      have hBefore := ih (fun m hm => hGid m (List.mem_append_left _ hm)) hLength
        hMessages.of_append hHonestBefore
      rw [List.foldl_append, statesIn_append]
      cases item with
      | state m =>
          have hNext := hBefore.collectState hVip hMe hMessages hHonest
          have hEq := hBefore.handleStateMess_eq hVip (hGid m (by simp)) (by simpa using hMissing)
          simp only [List.foldl_cons, List.foldl_nil, deliver, hEq]
          simpa using hNext
      | mature => simpa [deliver] using hBefore.mature
      | balance moves =>
          simpa [deliver, handleBalanceMoves_of_gather moves hBefore.state] using hBefore

/-- The last STATE message of the view ends the gather. -/
theorem finish (hVip : Function.Injective cfg.pseudoIf) (hMe : cfg.realIf ≠ 0#32)
    (h : Gathering cfg d₀ [] false d₀) (before : List Delivery) (last : StateMess)
    (hGid : ∀ m ∈ statesIn (before ++ [.state last]), m.gid = d₀.gid)
    (hPending : d₀.numPendingStates = (statesIn (before ++ [.state last])).length)
    (hMessages : ViewMessages cfg.pseudoIf d₀.numMembers (statesIn (before ++ [.state last])))
    (hHonest : Honest cfg.realIf d₀.oldTable d₀.acquired
      fun j => bidsIn cfg.pseudoIf j (statesIn (before ++ [.state last]))) :
    ∃ d, Gathering cfg d₀ (statesIn (before ++ [.state last]))
        (decide (.mature ∈ before ++ [.state last])) d ∧
      (before ++ [Delivery.state last]).foldl (deliver cfg) d₀ = finishGather cfg d ∧
      d.numPendingStates = 0 := by
  simp only [statesIn_append, statesIn_state, List.length_append, List.length_singleton] at *
  have hHonestBefore : Honest cfg.realIf d₀.oldTable d₀.acquired
      fun j => bidsIn cfg.pseudoIf j (statesIn before) := by
    simp only [bidsIn_append] at hHonest
    exact hHonest.of_append
  have hBefore := h.run hVip hMe before (fun m hm => hGid m (List.mem_append_left _ hm))
    (by rw [hPending]; push_cast; omega) hMessages.of_append hHonestBefore
  have hLast := hBefore.collectState hVip hMe hMessages hHonest
  refine ⟨_, by simpa using hLast, ?_, ?_⟩
  · have hEq := hBefore.gid.trans (hGid last (by simp)).symm
    rw [List.foldl_append]
    change handleStateMess cfg last (before.foldl (deliver cfg) d₀) = _
    rw [handleStateMess, if_pos hEq]
  · rw [hLast.numPendingStates, hPending, List.length_append, List.length_singleton]
    omega

end Gathering

end Wackamole
