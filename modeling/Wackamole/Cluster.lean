import Wackamole.Settlement
import Wackamole.Network
import Mathlib.Data.List.OfFn

/-! A view of several daemons. Each gets the membership message and multicasts its
STATE message; then all get the same deliveries, among them every STATE message
once. -/
namespace Wackamole

variable {n : Nat} {cfg : Config n}

/-- A daemon after `Handle_membership`, when its STATE message went out. -/
def entered (cfg : Config n) (ret : Int) (d : Daemon n) : Daemon n :=
  let m := stateMess cfg (enterView d)
  { ((enterView d).write m.words).record (.multicast stateMessType m.words ret) with
    state := .gather }.dequeue .balance

theorem handleMembership_of_sent {mc : Multicast} {d : Daemon n}
    (hSender : d.sender = cfg.spreadGroup) (hSent : 0 ≤ mc.ret)
    (hCount : ((stateMess cfg (enterView d)).claims.length : Int) = d.numAllocated) :
    handleMembership cfg mc d = .ok (entered cfg mc.ret d) := by
  have hCount' : ((stateMess cfg (enterView d)).claims.length : Int) =
      ((enterView d).write (stateMess cfg (enterView d)).words).numAllocated := hCount
  simp only [handleMembership, hSender, ne_eq, not_true_eq_false, ↓reduceIte, sendStateMessage,
    if_pos hCount', multicast, if_neg (not_lt.mpr hSent)]
  rfl

/-- The start of a gather. -/
theorem Gathering.start {d₀ : Daemon n} (hState : d₀.state = .gather)
    (hTable : ∀ j, d₀.allocationTable j = Entry.blank)
    (hMembers : ∀ k < d₀.numMembers, d₀.members k = ⟨0#32, 0, false⟩)
    (hExact : d₀.holding.Exact) : Gathering cfg d₀ [] false d₀ where
  state := hState
  gid := rfl
  numMembers := rfl
  myIndex := rfl
  oldMaturity := rfl
  numPendingStates := by simp
  maturity := by simp
  table := hTable
  counted := by
    refine ⟨hTable, fun k hk => ?_⟩
    simp [hMembers k hk, tally, bidsIn, credits_nil]
  heard := by simp
  silent k hk _ := by rw [hMembers k hk]
  holds := by
    refine ⟨fun j => ?_, hExact.numAllocated, hExact.up.symm.subset, fun j hj => .inl ?_⟩
    · rw [Daemon.slot, hTable]
      exact Tracked.initial _
    · rw [← hExact.up]
      exact hj

/-- A view, with the membership message loaded at every member. Before it each member
has up what its `Old_table`, as it will be refreshed for the view, names it for. -/
structure Cluster (m n : Nat) where
  vip : Fin n → Address
  vip_injective : Function.Injective vip
  gid : GroupId
  cfg : Fin m → Config n
  pseudoIf : ∀ i, (cfg i).pseudoIf = vip
  realIf_injective : Function.Injective fun i => (cfg i).realIf
  realIf_ne_zero : ∀ i, (cfg i).realIf ≠ 0#32
  daemon : Fin m → Daemon n
  sender : ∀ i, (daemon i).sender = (cfg i).spreadGroup
  numGroups : ∀ i, (daemon i).numGroups = m
  messType : ∀ i, (daemon i).messType = i
  gid_eq : ∀ i, (enterView (daemon i)).gid = gid
  old_iff : ∀ i j,
    ((enterView (daemon i)).oldTable j).realIf = (cfg i).realIf ↔ j ∈ (daemon i).up
  acquired : ∀ i, (daemon i).acquired = (daemon i).up
  numAllocated : ∀ i, (daemon i).numAllocated = (daemon i).up.card
  priority : ∀ i, ∀ j ∈ (daemon i).up,
    ((enterView (daemon i)).oldTable j).claimPriority = claimed ∨
      ((enterView (daemon i)).oldTable j).claimPriority = preferClaimed
  immature : ∀ i, (daemon i).maturity = false → (daemon i).up = ∅

namespace Cluster

variable {m n : Nat} (c : Cluster m n)

/-- The STATE message of member `i`. -/
def mess (i : Fin m) : StateMess := stateMess (c.cfg i) (enterView (c.daemon i))

/-- What Spread delivers in the view: every STATE message once, anything else in
between, and nothing behind the last STATE message. -/
structure IsScript (script : List Delivery) : Prop where
  states : (statesIn script).Perm (List.ofFn c.mess)
  last : ∃ before m, script = before ++ [.state m]

/-- Member `i` from the membership message to the end of the script. -/
def run (mc : Fin m → Multicast) (script : List Delivery) (i : Fin m) : Run n := do
  let d ← handleMembership (c.cfg i) (mc i) (c.daemon i)
  return script.foldl (deliver (c.cfg i)) d

/-- A member is mature, or turns mature during the gather. -/
def Matures (script : List Delivery) : Prop :=
  (∃ i, (c.daemon i).maturity = true) ∨ .mature ∈ script

theorem mem_claims {i : Fin m} {claim : Address × Int} (h : claim ∈ (c.mess i).claims) :
    ∃ j ∈ (c.daemon i).up, c.vip j = claim.1 ∧
      ((enterView (c.daemon i)).oldTable j).claimPriority = claim.2 := by
  obtain ⟨j, hj, rfl⟩ := List.mem_map.mp h
  obtain ⟨_, hj⟩ := List.mem_filter.mp hj
  refine ⟨j, (c.old_iff i j).mp (of_decide_eq_true hj), ?_, rfl⟩
  rw [c.pseudoIf]

theorem claim_of_up {i : Fin m} {j : Fin n} (hj : j ∈ (c.daemon i).up) :
    (c.vip j, ((enterView (c.daemon i)).oldTable j).claimPriority) ∈ (c.mess i).claims := by
  refine List.mem_map.mpr ⟨j, ?_, by rw [c.pseudoIf]⟩
  rw [List.mem_filter]
  exact ⟨List.mem_finRange j, decide_eq_true ((c.old_iff i j).mpr hj)⟩

theorem claims_length (i : Fin m) : (c.mess i).claims.length = (c.daemon i).up.card := by
  rw [mess, stateMess_claims_length, ownedBy_of_iff (c.old_iff i)]

/-- `Send_state_message` passes its assertion at every member. -/
theorem handleMembership_eq (mc : Fin m → Multicast) (hSent : ∀ i, 0 ≤ (mc i).ret) (i : Fin m) :
    handleMembership (c.cfg i) (mc i) (c.daemon i) =
      .ok (entered (c.cfg i) (mc i).ret (c.daemon i)) := by
  apply handleMembership_of_sent (c.sender i) (hSent i)
  rw [c.numAllocated, ← c.claims_length]
  rfl

theorem mess_wf (i : Fin m) : (c.mess i).Wf c.vip where
  realAddress := c.realIf_ne_zero i
  numAllocated := by
    rw [c.claims_length, ← c.numAllocated]
    rfl
  known claim h := by
    obtain ⟨j, _, hEq, _⟩ := c.mem_claims h
    exact ⟨j, hEq⟩
  nodup := by
    have hMap : (c.mess i).claims.map Prod.fst = ((List.finRange n).filter fun j =>
        ((enterView (c.daemon i)).oldTable j).realIf = (c.cfg i).realIf).map c.vip := by
      rw [mess, stateMess, List.map_map, ← c.pseudoIf i]
      rfl
    rw [hMap]
    exact ((List.nodup_finRange n).filter _).map c.vip_injective
  priority claim h := by
    obtain ⟨j, hj, _, hPriority⟩ := c.mem_claims h
    rw [← hPriority]
    exact c.priority i j hj

theorem mess_index (i : Fin m) : (c.mess i).index = i := by
  have hPos : 0 < (c.daemon i).numGroups := by
    rw [c.numGroups]
    exact Fin.pos i
  simp [mess, stateMess, enterView, hPos, c.messType]

/-- The claimants of an interface are the members that have it up. -/
theorem claims_iff {script : List Delivery} (h : c.IsScript script) (i : Fin m) (j : Fin n) :
    (c.cfg i).realIf ∈ claimants (bidsIn c.vip j (statesIn script)) ↔ j ∈ (c.daemon i).up := by
  rw [mem_claimants_bidsIn]
  constructor
  · rintro ⟨mess, hm, hAddress, claim, hClaim, hVip⟩
    rw [h.states.mem_iff, List.mem_ofFn] at hm
    obtain ⟨i', rfl⟩ := hm
    obtain rfl : i' = i := c.realIf_injective hAddress
    obtain ⟨j', hj', hEq, _⟩ := c.mem_claims hClaim
    rw [c.vip_injective (hVip.trans hEq.symm)]
    exact hj'
  · intro hj
    refine ⟨c.mess i, h.states.mem_iff.mpr (List.mem_ofFn.mpr ⟨i, rfl⟩), rfl, _,
      c.claim_of_up hj, rfl⟩

/-- The STATE messages alone, in some order of the members. -/
def inOrder (order : List (Fin m)) : List Delivery := order.map fun i => .state (c.mess i)

theorem statesIn_inOrder (order : List (Fin m)) :
    statesIn (c.inOrder order) = order.map c.mess := by
  induction order with
  | nil => rfl
  | cons i order ih =>
      rw [List.map_cons, ← ih]
      rfl

theorem inOrder_isScript (before : List (Fin m)) (last : Fin m)
    (hOrder : (before ++ [last]).Perm (List.finRange m)) :
    c.IsScript (c.inOrder (before ++ [last])) where
  states := by
    rw [statesIn_inOrder, List.ofFn_eq_map]
    exact hOrder.map c.mess
  last := ⟨c.inOrder before, c.mess last, by simp [inOrder]⟩

section Script

variable {c} {script : List Delivery}

theorem mem_statesIn (h : c.IsScript script) {m : StateMess} :
    m ∈ statesIn script ↔ ∃ i, c.mess i = m := by
  rw [h.states.mem_iff, List.mem_ofFn]

theorem members_pos (h : c.IsScript script) : 0 < m := by
  obtain ⟨before, mess, hLast⟩ := h.last
  have hMem : mess ∈ statesIn script := by simp [hLast]
  obtain ⟨i, _⟩ := (mem_statesIn h).mp hMem
  exact Fin.pos i

theorem messages (h : c.IsScript script) : ViewMessages c.vip m (statesIn script) where
  wf mess hm := by
    obtain ⟨i, rfl⟩ := (mem_statesIn h).mp hm
    exact c.mess_wf i
  index_lt mess hm := by
    obtain ⟨i, rfl⟩ := (mem_statesIn h).mp hm
    rw [c.mess_index]
    exact i.isLt
  index_nodup := by
    have hIndex : (List.ofFn c.mess).map StateMess.index = List.ofFn fun i : Fin m => (i : Nat) := by
      rw [List.map_ofFn]
      exact congrArg List.ofFn (funext fun i => c.mess_index i)
    rw [(h.states.map _).nodup_iff, hIndex]
    exact List.nodup_ofFn.mpr Fin.val_injective
  address_nodup := by
    rw [(h.states.map _).nodup_iff, List.map_ofFn]
    exact List.nodup_ofFn.mpr c.realIf_injective

theorem start (ret : Int) (i : Fin m) :
    Gathering (c.cfg i) (entered (c.cfg i) ret (c.daemon i)) [] false
      (entered (c.cfg i) ret (c.daemon i)) := by
  apply Gathering.start
  · rfl
  · intro j
    rfl
  · intro k hk
    exact if_pos hk
  · constructor
    · change (c.daemon i).numAllocated = (c.daemon i).acquired.card
      rw [c.acquired, c.numAllocated]
    · exact (c.acquired i).symm

theorem maturity_iff (h : c.IsScript script) {ret : Int} {i : Fin m} {d : Daemon n}
    (hd : Gathering (c.cfg i) (entered (c.cfg i) ret (c.daemon i)) (statesIn script)
      (decide (.mature ∈ script)) d) : d.maturity = true ↔ c.Matures script := by
  have hMaturity (i : Fin m) : (c.mess i).maturity = 1 ↔ (c.daemon i).maturity = true := by
    change (if (c.daemon i).maturity = true then (1 : Int) else 0) = 1 ↔ _
    split_ifs with hMature <;> simp [hMature]
  have hOwn : (entered (c.cfg i) ret (c.daemon i)).maturity = (c.daemon i).maturity := rfl
  rw [hd.maturity, hOwn, Bool.or_eq_true, Bool.or_eq_true, List.any_eq_true, decide_eq_true_iff,
    Matures]
  constructor
  · rintro ((hMine | ⟨mess, hm, hMess⟩) | hMature)
    · exact .inl ⟨i, hMine⟩
    · obtain ⟨i', rfl⟩ := (mem_statesIn h).mp hm
      exact .inl ⟨i', (hMaturity i').mp (of_decide_eq_true hMess)⟩
    · exact .inr hMature
  · rintro (⟨i', hMature⟩ | hMature)
    · exact .inl (.inr ⟨c.mess i', (mem_statesIn h).mpr ⟨i', rfl⟩,
        decide_eq_true ((hMaturity i').mpr hMature)⟩)
    · exact .inr hMature

/-- A member claims in the script what it has up, and its `Old_table` names it for that. -/
theorem honest (h : c.IsScript script) (ret : Int) (i : Fin m) :
    Honest (c.cfg i).realIf (entered (c.cfg i) ret (c.daemon i)).oldTable
      (entered (c.cfg i) ret (c.daemon i)).acquired
      fun j => bidsIn (c.cfg i).pseudoIf j (statesIn script) where
  old_iff j := by
    change _ ↔ j ∈ (c.daemon i).acquired
    rw [c.acquired]
    exact c.old_iff i j
  own j hj := by
    rw [c.pseudoIf] at hj
    change j ∈ (c.daemon i).acquired
    rw [c.acquired]
    exact (c.claims_iff h i j).mp hj

/-- Every member lays out all STATE messages before it leaves the gather. -/
theorem gathered (h : c.IsScript script) (ret : Int) (i : Fin m) :
    ∃ d, Gathered (c.cfg i) (entered (c.cfg i) ret (c.daemon i)) (statesIn script) d ∧
      (d.maturity = true ↔ c.Matures script) ∧
      script.foldl (deliver (c.cfg i)) (entered (c.cfg i) ret (c.daemon i)) =
        finishGather (c.cfg i) d ∧ d.numPendingStates = 0 := by
  obtain ⟨before, last, rfl⟩ := h.last
  have hMessages := messages h
  have hVip : Function.Injective (c.cfg i).pseudoIf := by
    rw [c.pseudoIf]
    exact c.vip_injective
  have hGid : ∀ mess ∈ statesIn (before ++ [.state last]),
      mess.gid = (entered (c.cfg i) ret (c.daemon i)).gid := by
    intro mess hm
    obtain ⟨i', rfl⟩ := (mem_statesIn h).mp hm
    exact (c.gid_eq i').trans (c.gid_eq i).symm
  have hHonest := honest h ret i
  have hPending : (entered (c.cfg i) ret (c.daemon i)).numPendingStates =
      (statesIn (before ++ [.state last])).length := by
    change ((c.daemon i).numGroups : Int) = _
    rw [c.numGroups, h.states.length_eq, List.length_ofFn]
  have hView : ViewMessages (c.cfg i).pseudoIf (entered (c.cfg i) ret (c.daemon i)).numMembers
      (statesIn (before ++ [.state last])) := by
    rw [c.pseudoIf]
    change ViewMessages c.vip (c.daemon i).numGroups _
    rw [c.numGroups]
    exact hMessages
  obtain ⟨d, hGathering, hRun, hDone⟩ := (start ret i).finish hVip (c.realIf_ne_zero i) before last
    hGid hPending hView hHonest
  refine ⟨d, ⟨hGathering.numMembers, hGathering.myIndex, hGathering.oldMaturity,
    hGathering.counted, hGathering.heard, hGathering.holds, hView, hHonest, c.realIf_ne_zero i,
    ?_, ?_⟩, maturity_iff h hGathering, hRun, hDone⟩
  · intro k hk
    change k < (c.daemon i).numGroups at hk
    rw [c.numGroups] at hk
    exact ⟨c.mess ⟨k, hk⟩, (mem_statesIn h).mpr ⟨_, rfl⟩, c.mess_index ⟨k, hk⟩⟩
  · refine ⟨c.mess i, (mem_statesIn h).mpr ⟨i, rfl⟩, ?_, rfl, fun j hj => ?_⟩
    · rfl
    · change j ∈ (c.daemon i).acquired at hj
      rw [c.acquired] at hj
      rw [c.pseudoIf]
      exact ⟨_, c.claim_of_up hj, rfl⟩

/-- A member from the membership message to the end of the gather. -/
theorem run_eq (h : c.IsScript script) (mc : Fin m → Multicast) (hSent : ∀ i, 0 ≤ (mc i).ret)
    (i : Fin m) :
    ∃ d, Gathered (c.cfg i) (entered (c.cfg i) (mc i).ret (c.daemon i)) (statesIn script) d ∧
      (d.maturity = true ↔ c.Matures script) ∧
      (c.Matures script →
        c.run mc script i = .ok ({ settle (c.cfg i) d with state := .run }.queue .balance)) ∧
      (¬ c.Matures script → c.run mc script i = .ok { d with state := .boot }) := by
  obtain ⟨d, hGathered, hMaturity, hFold, hDone⟩ := gathered h (mc i).ret i
  have hRun : c.run mc script i = .ok (finishGather (c.cfg i) d) := by
    rw [run, c.handleMembership_eq mc hSent i, ← hFold]
    rfl
  refine ⟨d, hGathered, hMaturity, fun hMatures => ?_, fun hImmature => ?_⟩
  · rw [hRun, finishGather_of_mature hDone (hMaturity.mpr hMatures)]
  · rw [hRun, finishGather_of_immature hDone]
    rw [← Bool.not_eq_true, hMaturity]
    exact hImmature

end Script

/-- The final states of all members. -/
def Outcome (script : List Delivery) (mc : Fin m → Multicast) (d : Fin m → Daemon n) : Prop :=
  ∀ i, c.run mc script i = .ok (d i)

theorem exists_outcome {script : List Delivery} (h : c.IsScript script) (mc : Fin m → Multicast)
    (hSent : ∀ i, 0 ≤ (mc i).ret) : ∃ d, c.Outcome script mc d := by
  choose d _ _ hRun hBoot using run_eq h mc hSent
  by_cases hMatures : c.Matures script
  · exact ⟨_, fun i => hRun i hMatures⟩
  · exact ⟨_, fun i => hBoot i hMatures⟩

/-- A daemon that held the interfaces its table names it for when the view came: a
mature one in RUN, an immature one in BOOT. -/
def atView (cfg : Config n) (m index : Nat) (table : Fin n → Entry) (mature : Bool) : Daemon n :=
  let held : Finset (Fin n) := Finset.univ.filter fun j => (table j).realIf = cfg.realIf
  { Daemon.initial n with
    state := if mature then .run else .boot
    oldMaturity := mature
    maturity := mature
    numAllocated := held.card
    messType := index
    numGroups := m
    sender := cfg.spreadGroup
    allocationTable := table
    oldTable := table
    up := held
    acquired := held }

theorem atView_oldTable (cfg : Config n) (m index : Nat) (table : Fin n → Entry) (mature : Bool) :
    (enterView (atView cfg m index table mature)).oldTable = table := by
  cases mature <;> rfl

/-- Any tables of distinct members make a view. -/
def ofTables (vip : Fin n → Address) (cfg : Fin m → Config n) (table : Fin m → Fin n → Entry)
    (mature : Fin m → Bool) (hVip : Function.Injective vip)
    (hPseudoIf : ∀ i, (cfg i).pseudoIf = vip)
    (hRealIf : Function.Injective fun i => (cfg i).realIf) (hZero : ∀ i, (cfg i).realIf ≠ 0#32)
    (hPriority : ∀ i j, (table i j).realIf = (cfg i).realIf →
      (table i j).claimPriority = claimed ∨ (table i j).claimPriority = preferClaimed)
    (hImmature : ∀ i, mature i = false → ∀ j, (table i j).realIf ≠ (cfg i).realIf) :
    Cluster m n where
  vip := vip
  vip_injective := hVip
  gid := ⟨0#32, 0#32, 0#32⟩
  cfg := cfg
  pseudoIf := hPseudoIf
  realIf_injective := hRealIf
  realIf_ne_zero := hZero
  daemon i := atView (cfg i) m i (table i) (mature i)
  sender _ := rfl
  numGroups _ := rfl
  messType _ := rfl
  gid_eq _ := rfl
  old_iff i j := by
    rw [atView_oldTable]
    simp [atView]
  acquired _ := rfl
  numAllocated _ := rfl
  priority i j hj := by
    rw [atView_oldTable]
    exact hPriority i j (by simpa [atView] using hj)
  immature i hMature := by
    ext j
    simp [atView, hImmature i hMature j]

end Cluster

end Wackamole
