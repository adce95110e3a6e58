import Wackamole.Fleet

/-! What holds of a view: which multicasts it can carry, and that a member that handles the
next of them stays where the ledger is. -/
namespace Wackamole

variable {hosts n : Nat}

/-- What `Handle_network` makes of a multicast of some type. -/
def Parcel.delivery? (parcel : Parcel) : Option Delivery :=
  let word (k : Nat) := parcel.2.getD k 0#32
  if parcel.1 = stateMessType then some (.state (StateMess.read word))
  else if parcel.1 = maturingMessType then some .mature
  else if parcel.1 = balanceMessType then some (.balance (BalanceMess.read word))
  else none

namespace GroupView

variable (cfg : Fin hosts → Config n) (view : GroupView hosts)

/-- The real addresses of the members in the order of the view. -/
def addr : Fin view.members.length → Address := fun k => (cfg (view.members.get k)).realIf

/-- The view after the first `k` messages of its log. -/
def ledger (vip : Fin n → Address) (k : Nat) : Ledger n :=
  Ledger.after vip (view.addr cfg) ((view.log.take k).filterMap Parcel.delivery?)

variable {cfg view} in
theorem addr_idxOf {i : Fin hosts} (hi : i ∈ view.members) :
    view.addr cfg ⟨view.members.idxOf i, List.idxOf_lt_length_of_mem hi⟩ = (cfg i).realIf := by
  rw [addr, List.idxOf_get]

end GroupView

/-- What the hosts have in common, and the limits of the code. Nobody prefers a managed
interface. -/
structure Sites (vip : Fin n → Address) (cfg : Fin hosts → Config n) : Prop where
  pseudoIf : ∀ i, (cfg i).pseudoIf = vip
  vip_injective : Function.Injective vip
  realIf_injective : Function.Injective fun i => (cfg i).realIf
  realIf_ne_zero : ∀ i, (cfg i).realIf ≠ 0#32
  numPseudo : n ≤ maxPseudo
  numPrefer : ∀ i, (cfg i).preferAddress.length ≤ maxPseudo
  noPreference : ∀ i, ∀ addr ∈ (cfg i).preferAddress, ∀ j, vip j ≠ addr
  balanceRate : ∀ i, (cfg i).balanceRate < 2 ^ 31

theorem Sites.pseudoIf_injective {vip : Fin n → Address} {cfg : Fin hosts → Config n}
    (h : Sites vip cfg) (i : Fin hosts) : Function.Injective (cfg i).pseudoIf := by
  rw [h.pseudoIf i]
  exact h.vip_injective

section Messages

variable {cfg : Config n} {d₀ : Daemon n}

/-- The STATE message of a member that prefers no managed interface. -/
theorem Entered.mess_wf (hVip : Function.Injective cfg.pseudoIf) (hMe : cfg.realIf ≠ 0#32)
    (h : Entered cfg d₀) (hTidy : ∀ j, (d₀.oldTable j).Tidy) :
    (stateMess cfg d₀).Wf cfg.pseudoIf := by
  have hClaim (c : Address × Int) (hc : c ∈ (stateMess cfg d₀).claims) :
      ∃ j, cfg.pseudoIf j = c.1 ∧ c.2 = claimed := by
    obtain ⟨j, hj, rfl⟩ := List.mem_map.mp hc
    have hOwner : (d₀.oldTable j).realIf = cfg.realIf := of_decide_eq_true (List.mem_filter.mp hj).2
    exact ⟨j, rfl, hTidy j (hOwner ▸ hMe)⟩
  refine ⟨hMe, ?_, fun c hc => ?_, ?_, fun c hc => ?_⟩
  · rw [stateMess_claims_length, ownedBy_of_iff h.old_iff]
    exact h.numAllocated
  · obtain ⟨j, hj, _⟩ := hClaim c hc
    exact ⟨j, hj⟩
  · have hMap : (stateMess cfg d₀).claims.map Prod.fst = ((List.finRange n).filter fun j =>
        (d₀.oldTable j).realIf = cfg.realIf).map cfg.pseudoIf := by
      rw [stateMess, List.map_map]
      rfl
    rw [hMap]
    exact ((List.nodup_finRange n).filter _).map hVip
  · obtain ⟨_, _, hPriority⟩ := hClaim c hc
    exact .inl hPriority

theorem Entered.mess_plain (hMe : cfg.realIf ≠ 0#32) (hTidy : ∀ j, (d₀.oldTable j).Tidy)
    (hPrefer : ∀ addr ∈ cfg.preferAddress, ∀ j, cfg.pseudoIf j ≠ addr) :
    (stateMess cfg d₀).Plain cfg.pseudoIf where
  claims c hc := by
    obtain ⟨j, hj, rfl⟩ := List.mem_map.mp hc
    have hOwner : (d₀.oldTable j).realIf = cfg.realIf := of_decide_eq_true (List.mem_filter.mp hj).2
    exact hTidy j (hOwner ▸ hMe)
  prefers := hPrefer

/-- Its bytes are read back. -/
theorem Entered.mess_encodable (hVip : Function.Injective cfg.pseudoIf)
    (hMe : cfg.realIf ≠ 0#32) (h : Entered cfg d₀) (hTidy : ∀ j, (d₀.oldTable j).Tidy)
    (hPseudo : n ≤ maxPseudo) (hPrefer : cfg.preferAddress.length ≤ maxPseudo)
    (hMembers : d₀.numMembers ≤ maxPseudo) : (stateMess cfg d₀).Encodable := by
  have hWf := h.mess_wf hVip hMe hTidy
  have hIndex : d₀.myIndex < 254 := h.myIndex_lt.trans_le hMembers
  have hTable : n ≤ 254 := hPseudo
  have hPrefer' : cfg.preferAddress.length ≤ 254 := hPrefer
  have hOwned := ownedBy_le d₀.oldTable cfg.realIf
  refine ⟨?_, ?_, hWf.numAllocated, ?_, fun c hc => ?_, ?_⟩
  · change d₀.myIndex < 2 ^ 32
    omega
  · unfold stateMess IsInt
    dsimp only
    split_ifs <;> decide
  · rw [stateMess_claims_length]
    omega
  · rcases hWf.priority c hc with hPriority | hPriority <;> rw [hPriority] <;>
      exact ⟨by decide, by decide⟩
  · change cfg.preferAddress.length < 2 ^ 31
    omega

end Messages

theorem Parcel.delivery?_state {mess : StateMess} (h : mess.Encodable) :
    Parcel.delivery? (stateMessType, mess.words) = some (.state mess) := by
  have hRead : StateMess.read (fun k => mess.words.getD k 0#32) = mess :=
    StateMess.read_words h fun _ _ => rfl
  rw [delivery?, if_pos rfl]
  exact congrArg (fun mess => some (Delivery.state mess)) hRead

theorem Parcel.delivery?_balance {m : Nat} {addr : Fin m → Address} {mess : BalanceMess}
    (h : mess.Planned addr) :
    Parcel.delivery? (balanceMessType, mess.words) = some (.balance mess.moves) := by
  have hRead := BalanceMess.read_of_received (d := { Daemon.initial 0 with mess := mess.words })
    h.count h.small fun _ _ => rfl
  rw [delivery?, if_neg (show ¬ balanceMessType = stateMessType by decide),
    if_neg (show ¬ balanceMessType = maturingMessType by decide), if_pos rfl]
  exact congrArg (fun moves => some (Delivery.balance moves)) hRead

theorem mem_statesIn_iff {log : List Delivery} {mess : StateMess} :
    mess ∈ statesIn log ↔ .state mess ∈ log := by
  rw [statesIn, List.mem_filterMap]
  constructor
  · rintro ⟨item, hMem, hState⟩
    cases item with
    | state mess' =>
        cases hState
        exact hMem
    | mature => cases hState
    | balance moves => cases hState
  · exact fun hMem => ⟨_, hMem, rfl⟩

/-- A view in which the members that have entered have announced themselves once each, and
every plan keeps to the members. -/
structure GroupView.Inv (cfg : Fin hosts → Config n) (view : GroupView hosts)
    (entry : Fin hosts → Daemon n) : Prop where
  nodup : view.members.Nodup
  size : view.members.length ≤ maxPseudo
  member : ∀ i ∈ view.entered, i ∈ view.members
  joined : ∀ i ∈ view.entered, Joined (cfg i) (view.addr cfg) (entry i)
  index : ∀ i ∈ view.entered, (entry i).myIndex = view.members.idxOf i
  gid : ∀ i ∈ view.entered, (entry i).gid = view.gid
  tidy : ∀ i ∈ view.entered, ∀ j, ((entry i).oldTable j).Tidy
  state : ∀ parcel ∈ view.log ++ view.sent, parcel.1 = stateMessType →
    ∃ i ∈ view.entered, parcel.2 = (stateMess (cfg i) (entry i)).words
  balance : ∀ parcel ∈ view.log ++ view.sent, parcel.1 = balanceMessType →
    ∃ mess : BalanceMess, mess.Planned (view.addr cfg) ∧ parcel.2 = mess.words
  once : ((statesIn ((view.log ++ view.sent).filterMap Parcel.delivery?)).map
    StateMess.index).Nodup
  shared : ∀ parcel ∈ view.shared, parcel.isOrdered = false

namespace GroupView.Inv

variable {vip : Fin n → Address} {cfg : Fin hosts → Config n} {view : GroupView hosts}
  {entry : Fin hosts → Daemon n} (hSites : Sites vip cfg) (h : view.Inv cfg entry)

include hSites h

theorem encodable {i : Fin hosts} (hi : i ∈ view.entered) :
    (stateMess (cfg i) (entry i)).Encodable := by
  have hJoined := h.joined i hi
  refine hJoined.entered.mess_encodable (hSites.pseudoIf_injective i) (hSites.realIf_ne_zero i)
    (h.tidy i hi) hSites.numPseudo (hSites.numPrefer i) ?_
  rw [hJoined.numMembers]
  exact h.size

theorem mem_states {mess : StateMess}
    (hMess : mess ∈ statesIn ((view.log ++ view.sent).filterMap Parcel.delivery?)) :
    ∃ i ∈ view.entered, mess = stateMess (cfg i) (entry i) := by
  rw [mem_statesIn_iff, List.mem_filterMap] at hMess
  obtain ⟨parcel, hMem, hDelivery⟩ := hMess
  by_cases hType : parcel.1 = stateMessType
  · obtain ⟨i, hi, hWords⟩ := h.state parcel hMem hType
    have hParcel : parcel = (stateMessType, (stateMess (cfg i) (entry i)).words) :=
      Prod.ext hType hWords
    rw [hParcel, Parcel.delivery?_state (h.encodable hSites hi)] at hDelivery
    cases hDelivery
    exact ⟨i, hi, rfl⟩
  · rw [Parcel.delivery?, if_neg hType] at hDelivery
    split_ifs at hDelivery <;> cases hDelivery

theorem entered_of_index {i : Fin hosts} (hMember : i ∈ view.members) {mess : StateMess}
    (hMess : mess ∈ statesIn ((view.log ++ view.sent).filterMap Parcel.delivery?))
    (hIndex : mess.index = view.members.idxOf i) : i ∈ view.entered := by
  obtain ⟨i', hi', rfl⟩ := h.mem_states hSites hMess
  have hSame : view.members.idxOf i' = view.members.idxOf i := (h.index i' hi').symm.trans hIndex
  obtain rfl := (List.idxOf_inj (h.member i' hi')).mp hSame
  exact hi'

omit hSites in
theorem mem_plans {moves : List Move}
    (hMoves : .balance moves ∈ (view.log ++ view.sent).filterMap Parcel.delivery?) :
    (moves.map Prod.snd).Nodup ∧ ∀ move ∈ moves, ∃ k, move.1 = view.addr cfg k := by
  rw [List.mem_filterMap] at hMoves
  obtain ⟨parcel, hMem, hDelivery⟩ := hMoves
  by_cases hType : parcel.1 = balanceMessType
  · obtain ⟨mess, hPlanned, hWords⟩ := h.balance parcel hMem hType
    have hParcel : parcel = (balanceMessType, mess.words) := Prod.ext hType hWords
    rw [hParcel, Parcel.delivery?_balance hPlanned] at hDelivery
    cases hDelivery
    exact ⟨hPlanned.nodup, hPlanned.owner⟩
  · unfold Parcel.delivery? at hDelivery
    split_ifs at hDelivery <;> cases hDelivery

/-- What a member may hear of a view: any part of its STATE messages, in order. -/
theorem told {i : Fin hosts} (hi : i ∈ view.entered) {ms : List StateMess}
    (hSub : ms.Sublist (statesIn ((view.log ++ view.sent).filterMap Parcel.delivery?))) :
    Told (cfg i) (view.addr cfg) (entry i) ms := by
  have hSender (mess : StateMess) (hMem : mess ∈ ms) :
      ∃ i ∈ view.entered, mess = stateMess (cfg i) (entry i) :=
    h.mem_states hSites (hSub.subset hMem)
  have hIndex {i : Fin hosts} (hi : i ∈ view.entered) :
      (stateMess (cfg i) (entry i)).index = view.members.idxOf i := h.index i hi
  have hLt {i : Fin hosts} (hi : i ∈ view.entered) :
      view.members.idxOf i < view.members.length := List.idxOf_lt_length_of_mem (h.member i hi)
  have hIndices : (ms.map StateMess.index).Nodup := h.once.sublist (hSub.map _)
  have hPseudoIf (i' : Fin hosts) : (cfg i').pseudoIf = (cfg i).pseudoIf :=
    (hSites.pseudoIf i').trans (hSites.pseudoIf i).symm
  refine ⟨⟨⟨?_, ?_, hIndices, ?_⟩, ?_⟩, ?_, ?_⟩
  · intro mess hMem
    obtain ⟨i', hi', rfl⟩ := hSender mess hMem
    rw [← hPseudoIf i']
    exact (h.joined i' hi').entered.mess_wf (hSites.pseudoIf_injective i')
      (hSites.realIf_ne_zero i') (h.tidy i' hi')
  · intro mess hMem
    obtain ⟨i', hi', rfl⟩ := hSender mess hMem
    rw [hIndex hi', (h.joined i hi).numMembers]
    exact hLt hi'
  · apply List.Nodup.map_on _ (List.Nodup.of_map _ hIndices)
    intro mess hMem mess' hMem' hEq
    obtain ⟨i', hi', rfl⟩ := hSender mess hMem
    obtain ⟨i'', hi'', rfl⟩ := hSender mess' hMem'
    rw [hSites.realIf_injective hEq]
  · intro mess hMem hOwn
    obtain ⟨i', hi', rfl⟩ := hSender mess hMem
    suffices hSame : i' = i by rw [hSame]
    rcases hOwn with hEq | hEq
    · rw [hIndex hi', h.index i hi] at hEq
      exact (List.idxOf_inj (h.member i' hi')).mp hEq
    · exact hSites.realIf_injective hEq
  · intro mess hMem
    obtain ⟨i', hi', rfl⟩ := hSender mess hMem
    exact ⟨⟨_, hLt hi'⟩, hIndex hi', (GroupView.addr_idxOf (h.member i' hi')).symm⟩
  · intro mess hMem
    obtain ⟨i', hi', rfl⟩ := hSender mess hMem
    rw [← hPseudoIf i']
    refine Entered.mess_plain (hSites.realIf_ne_zero i') (h.tidy i' hi') fun addr hAddr j => ?_
    rw [hSites.pseudoIf i']
    exact hSites.noPreference i' addr hAddr j

end GroupView.Inv

section Parcel

variable {cfg : Config n} {d : Daemon n}

theorem step_parcel (cfg : Config n) (d : Daemon n) (parcel : Parcel) (a : Answers) :
    step spreadTypes cfg d (.network (.message parcel.message) a) =
      .ok (handleRegular cfg (d.load parcel.message)) := by
  have hView : ¬ spreadTypes.isMembershipMess (d.load parcel.message).serviceType = true := by
    exact (show ¬ spreadTypes.isMembershipMess 0x10 = true by decide)
  have hRegular : spreadTypes.isRegularMess (d.load parcel.message).serviceType = true := by
    exact (show spreadTypes.isRegularMess 0x10 = true by decide)
  have hFits : ¬ OverrunsMess (4 * parcel.message.words.length : Nat) (d.load parcel.message) :=
    fun hOverruns => absurd hOverruns.2 (not_lt.mpr (Int.natCast_nonneg _))
  change dispatch spreadTypes cfg (4 * parcel.message.words.length : Nat) a
    (d.load parcel.message) = _
  rw [dispatch, if_neg hView, if_pos hRegular, if_neg hFits]

theorem calls_parcel (parcel : Parcel) (a : Answers) :
    Event.calls spreadTypes cfg d (.network (.message parcel.message) a) = [] :=
  if_neg fun hView => absurd hView.1 (show ¬ spreadTypes.isMembershipMess 0x10 = true by decide)

theorem handleRegular_of_mature {d : Daemon n} (h : d.messType = maturingMessType) :
    handleRegular cfg d = handleMature cfg (d.record (.handler .mature)) := by
  rw [handleRegular, h, if_neg (by decide), if_pos rfl]

theorem handleRegular_of_balance {d : Daemon n} (h : d.messType = balanceMessType) :
    handleRegular cfg d = handleBalance cfg (d.record (.handler .balance)) := by
  rw [handleRegular, h, if_neg (by decide), if_neg (by decide), if_pos rfl]

/-- It multicasts nothing. -/
theorem parcel_posts (d : Daemon n) (parcel : Parcel) (a : Answers) :
    Posts d (step spreadTypes cfg d (.network (.message parcel.message) a)) [] := by
  rw [step_parcel]
  exact .of_ok (handleRegular_parcels _)

theorem Parcel.delivery?_arp {parcel : Parcel} (h : parcel.1 = arpcacheMessType) :
    parcel.delivery? = none := by
  rw [delivery?, h, if_neg (by decide), if_neg (by decide), if_neg (by decide)]

/-- The buffer, when the words of a message have been received. -/
theorem word_load (parcel : Parcel) {k : Nat} (hk : k < parcel.2.length) :
    (d.load parcel.message).word k = parcel.2.getD k 0#32 := by
  change (parcel.2 ++ d.mess.drop parcel.2.length).getD k 0#32 = _
  exact List.getD_append _ _ _ _ hk

variable {m : Nat} {addr : Fin m → Address} {d₀ : Daemon n} {l : Ledger n}
  (hVip : Function.Injective cfg.pseudoIf) (hMe : cfg.realIf ≠ 0#32)
  (hJoined : Joined cfg addr d₀)

include hVip hMe hJoined in
/-- `Handle_state` on the bytes of a message of the view. -/
theorem Follows.state_parcel {mess : StateMess} (hEncodable : mess.Encodable)
    (hTold : Told cfg addr d₀ (l.heard ++ [mess])) (hStage : l.stage = .gathering)
    (hGid : d.gid = mess.gid) (h : Follows cfg addr d₀ l d) :
    Follows cfg addr d₀ (l.handle cfg.pseudoIf addr (.state mess))
      (handleRegular cfg (d.load (Parcel.message (stateMessType, mess.words)))) := by
  have hRead : d.stateOf (Parcel.message (stateMessType, mess.words)) = mess :=
    StateMess.read_words hEncodable fun k hk => word_load (stateMessType, mess.words) hk
  obtain ⟨d₁, hSame, hHandled⟩ := handleState_load cfg d
    (Parcel.message (stateMessType, mess.words))
  rw [hRead] at hHandled
  rw [handleRegular, if_pos (by rfl), hHandled]
  refine (h.buffered hSame).handleStateMess hVip hMe hJoined hTold hStage ?_
  rw [hSame]
  exact hGid

include hJoined in
theorem Follows.mature_parcel (words : List Word) (hTold : Told cfg addr d₀ l.heard)
    (h : Follows cfg addr d₀ l d) :
    Follows cfg addr d₀ (l.handle cfg.pseudoIf addr .mature)
      (handleRegular cfg (d.load (Parcel.message (maturingMessType, words)))) := by
  rw [handleRegular_of_mature (by rfl)]
  exact (h.buffered (by rfl)).handleMature hJoined hTold

include hVip in
/-- `Handle_balance` on the bytes of a plan. -/
theorem Follows.balance_parcel {mess : BalanceMess} (hPlanned : mess.Planned addr)
    (hFresh : d.state = .run → cfg.needsForceReup = true ∨ ∀ j,
      (cfg.realIf, cfg.pseudoIf j) ∈ mess.moves → (d.allocationTable j).realIf ≠ cfg.realIf)
    (h : Follows cfg addr d₀ l d) :
    Follows cfg addr d₀ (l.handle cfg.pseudoIf addr (.balance mess.moves))
      (handleRegular cfg (d.load (Parcel.message (balanceMessType, mess.words)))) := by
  have hReceived : mess.Received
      ((d.load (Parcel.message (balanceMessType, mess.words))).record (.handler .balance)) :=
    fun k hk => word_load (balanceMessType, mess.words) hk
  have hRead := BalanceMess.read_of_received hPlanned.count hPlanned.small hReceived
  rw [handleRegular_of_balance (by rfl)]
  unfold handleBalance
  split_ifs with hState
  · have hIdle : Wackamole.handleBalanceMoves cfg mess.moves d = d := if_pos hState
    have hNext := h.handleBalanceMoves hVip hPlanned.nodup hFresh
    rw [hIdle] at hNext
    exact hNext.buffered (by rfl)
  · rw [hRead]
    have hSame := d.flipFront_buffered (Parcel.message (balanceMessType, mess.words)) .balance
      (1 + 2 * mess.moves.length)
    refine (h.buffered hSame).handleBalanceMoves hVip hPlanned.nodup ?_
    rw [hSame]
    exact hFresh

theorem Follows.gid_of_gathering (hStage : l.stage = .gathering) (h : Follows cfg addr d₀ l d) :
    d.gid = d₀.gid := by
  cases h with
  | gathering raised a hMissing hMatured h hTidy => exact h.gid
  | waiting => cases hStage
  | running => cases hStage

/-- Messages of other types leave the tables alone. -/
theorem Follows.other_parcel {parcel : Parcel} (hOther : parcel.delivery? = none)
    (h : Follows cfg addr d₀ l d) :
    Follows cfg addr d₀ l (handleRegular cfg (d.load parcel.message)) := by
  unfold Parcel.delivery? at hOther
  split_ifs at hOther with hState hMature hBalance
  have hType : (d.load parcel.message).messType = parcel.1 := rfl
  rw [handleRegular, hType, if_neg hState, if_neg hMature, if_neg hBalance]
  split_ifs <;> exact h.buffered (by rfl)

end Parcel

section Log

variable {vip : Fin n → Address} {cfg : Fin hosts → Config n} {view : GroupView hosts}
  {entry : Fin hosts → Daemon n} {k : Nat} {parcel : Parcel}

theorem GroupView.filterMap_take_succ (hParcel : view.log[k]? = some parcel) :
    (view.log.take (k + 1)).filterMap Parcel.delivery? =
      (view.log.take k).filterMap Parcel.delivery? ++ parcel.delivery?.toList := by
  rw [List.take_add_one, hParcel, List.filterMap_append]
  cases hDelivery : parcel.delivery? <;> simp [hDelivery]

theorem GroupView.ledger_succ {item : Delivery} (hParcel : view.log[k]? = some parcel)
    (hDelivery : parcel.delivery? = some item) :
    view.ledger cfg vip (k + 1) = (view.ledger cfg vip k).handle vip (view.addr cfg) item := by
  rw [GroupView.ledger, filterMap_take_succ hParcel, hDelivery]
  exact Ledger.after_append vip _ _ item

theorem GroupView.ledger_skip (hParcel : view.log[k]? = some parcel)
    (hDelivery : parcel.delivery? = none) :
    view.ledger cfg vip (k + 1) = view.ledger cfg vip k := by
  rw [GroupView.ledger, filterMap_take_succ hParcel, hDelivery]
  exact congrArg (Ledger.after vip (view.addr cfg)) (List.append_nil _)

theorem GroupView.sublist_states (view : GroupView hosts) (k : Nat) :
    (statesIn ((view.log.take k).filterMap Parcel.delivery?)).Sublist
      (statesIn ((view.log ++ view.sent).filterMap Parcel.delivery?)) := by
  have hTake : (view.log.take k).Sublist (view.log ++ view.sent) :=
    (List.take_sublist k _).trans (List.sublist_append_left _ _)
  exact (hTake.filterMap _).filterMap _

/-- The STATE messages that the ledger has counted are some of those of the view. -/
theorem GroupView.Inv.told_ledger (hSites : Sites vip cfg) (h : view.Inv cfg entry)
    {i : Fin hosts} (hi : i ∈ view.entered) (k : Nat) :
    Told (cfg i) (view.addr cfg) (entry i) (view.ledger cfg vip k).heard :=
  h.told hSites hi ((Ledger.after_of vip _ _).heard.sublist.trans (view.sublist_states k))

/-- A member handles the next message of its view. -/
theorem GroupView.Inv.handle (hSites : Sites vip cfg) (h : view.Inv cfg entry)
    {i : Fin hosts} (hi : i ∈ view.entered) (hParcel : view.log[k]? = some parcel)
    {d : Daemon n} (hFollows : Follows (cfg i) (view.addr cfg) (entry i) (view.ledger cfg vip k) d)
    (hFresh : ∀ moves, parcel.delivery? = some (.balance moves) → d.state = .run →
      (cfg i).needsForceReup = true ∨ ∀ j, ((cfg i).realIf, (cfg i).pseudoIf j) ∈ moves →
        (d.allocationTable j).realIf ≠ (cfg i).realIf) :
    Follows (cfg i) (view.addr cfg) (entry i) (view.ledger cfg vip (k + 1))
      (handleRegular (cfg i) (d.load parcel.message)) := by
  obtain rfl : (cfg i).pseudoIf = vip := hSites.pseudoIf i
  have hVip := hSites.pseudoIf_injective i
  have hMe := hSites.realIf_ne_zero i
  have hJoined := h.joined i hi
  have hTold := h.told_ledger hSites hi k
  have hMem : parcel ∈ view.log ++ view.sent := List.mem_append_left _ (List.mem_of_getElem? hParcel)
  by_cases hState : parcel.1 = stateMessType
  · obtain ⟨i', hi', hWords⟩ := h.state parcel hMem hState
    obtain rfl : parcel = (stateMessType, (stateMess (cfg i') (entry i')).words) :=
      Prod.ext hState hWords
    have hEncodable := h.encodable hSites hi'
    have hDelivery := Parcel.delivery?_state hEncodable
    have hOf := Ledger.after_of (cfg i).pseudoIf (view.addr cfg)
      ((view.log.take k).filterMap Parcel.delivery?)
    have hNext := h.told hSites hi (view.sublist_states (k + 1))
    rw [filterMap_take_succ hParcel, hDelivery, statesIn_append] at hNext
    -- Who is not gathering has heard all members, and this one is not among them.
    have hStage : (view.ledger cfg (cfg i).pseudoIf k).stage = .gathering := by
      by_contra hLeft
      have hFull := hOf.full hLeft
      have hLe := hNext.heard.length_le
      have hPrefix := hOf.heard.length_le
      rw [hJoined.numMembers, List.length_append] at hLe
      change _ + 1 ≤ _ at hLe
      omega
    have hHeard : (view.ledger cfg (cfg i).pseudoIf k).heard = _ := hOf.gathering hStage
    have hGid : d.gid = (stateMess (cfg i') (entry i')).gid := by
      have hOwn : d.gid = (entry i).gid := hFollows.gid_of_gathering hStage
      exact hOwn.trans ((h.gid i hi).trans (h.gid i' hi').symm)
    rw [ledger_succ hParcel hDelivery]
    refine hFollows.state_parcel hVip hMe hJoined hEncodable ?_ hStage hGid
    rw [hHeard]
    exact hNext
  by_cases hMature : parcel.1 = maturingMessType
  · obtain ⟨messType, words⟩ := parcel
    obtain rfl : messType = maturingMessType := hMature
    rw [ledger_succ hParcel (by rfl)]
    exact hFollows.mature_parcel hJoined words hTold
  by_cases hBalance : parcel.1 = balanceMessType
  · obtain ⟨mess, hPlanned, hWords⟩ := h.balance parcel hMem hBalance
    obtain rfl : parcel = (balanceMessType, mess.words) := Prod.ext hBalance hWords
    have hDelivery := Parcel.delivery?_balance hPlanned
    rw [ledger_succ hParcel hDelivery]
    exact hFollows.balance_parcel hVip hPlanned (hFresh mess.moves hDelivery)
  · have hOther : parcel.delivery? = none := by
      rw [Parcel.delivery?, if_neg hState, if_neg hMature, if_neg hBalance]
    rw [ledger_skip hParcel hOther]
    exact hFollows.other_parcel hOther

end Log

section Change

variable {cfg : Fin hosts → Config n} {view : GroupView hosts} {entry : Fin hosts → Daemon n}

theorem statesIn_eq_nil {new : List Parcel} (h : ∀ parcel ∈ new, parcel.1 ≠ stateMessType) :
    statesIn (new.filterMap Parcel.delivery?) = [] := by
  rw [List.eq_nil_iff_forall_not_mem]
  intro mess hMess
  rw [mem_statesIn_iff, List.mem_filterMap] at hMess
  obtain ⟨parcel, hMem, hDelivery⟩ := hMess
  rw [Parcel.delivery?, if_neg (h parcel hMem)] at hDelivery
  split_ifs at hDelivery <;> cases hDelivery

/-- A STATE message is ordered. -/
theorem GroupView.carry_state (view : GroupView hosts) (words : List Word) :
    view.carry [(stateMessType, words)] =
      { view with sent := view.sent ++ [(stateMessType, words)] } := by
  rw [carry, List.filter_cons_of_pos (by rfl),
    List.filter_cons_of_neg (by exact Bool.false_ne_true), List.filter_nil, List.filter_nil,
    List.append_nil]

theorem GroupView.carry_nil (view : GroupView hosts) : view.carry [] = view := by
  rw [carry, List.filter_nil, List.filter_nil, List.append_nil, List.append_nil]

theorem GroupView.carry_append (view : GroupView hosts) (new more : List Parcel) :
    view.carry (new ++ more) = (view.carry new).carry more := by
  simp only [carry, List.filter_append, List.append_assoc]

namespace GroupView.Inv

/-- Multicasts of the members other than STATE messages. -/
theorem post (h : view.Inv cfg entry) {new : List Parcel}
    (hState : ∀ parcel ∈ new, parcel.1 ≠ stateMessType)
    (hBalance : ∀ parcel ∈ new, parcel.1 = balanceMessType →
      ∃ mess : BalanceMess, mess.Planned (view.addr cfg) ∧ parcel.2 = mess.words) :
    (view.carry new).Inv cfg entry := by
  have hSplit (parcel : Parcel)
      (hMem : parcel ∈ view.log ++ (view.sent ++ new.filter Parcel.isOrdered)) :
      parcel ∈ view.log ++ view.sent ∨ parcel ∈ new := by
    rw [← List.append_assoc, List.mem_append] at hMem
    exact hMem.imp_right fun hNew => (List.mem_filter.mp hNew).1
  have hNone : statesIn ((new.filter Parcel.isOrdered).filterMap Parcel.delivery?) = [] :=
    statesIn_eq_nil fun parcel hMem => hState parcel (List.mem_filter.mp hMem).1
  refine ⟨h.nodup, h.size, h.member, h.joined, h.index, h.gid, h.tidy, fun parcel hMem hType => ?_,
    fun parcel hMem hType => ?_, ?_, fun parcel hMem => ?_⟩
  · exact (hSplit parcel hMem).elim (fun hOld => h.state parcel hOld hType)
      fun hNew => absurd hType (hState parcel hNew)
  · exact (hSplit parcel hMem).elim (fun hOld => h.balance parcel hOld hType)
      fun hNew => hBalance parcel hNew hType
  · change ((statesIn ((view.log ++ (view.sent ++ new.filter Parcel.isOrdered)).filterMap
      Parcel.delivery?)).map StateMess.index).Nodup
    rw [← List.append_assoc, List.filterMap_append, statesIn_append, hNone, List.append_nil]
    exact h.once
  · rcases List.mem_append.mp hMem with hOld | hNew
    · exact h.shared parcel hOld
    · simpa using (List.mem_filter.mp hNew).2

variable {i : Fin hosts} {d₀ : Daemon n}

/-- A member enters the view. -/
theorem enter (h : view.Inv cfg entry) (hFirst : i ∉ view.entered) (hMember : i ∈ view.members)
    (hJoined : Joined (cfg i) (view.addr cfg) d₀) (hIndex : d₀.myIndex = view.members.idxOf i)
    (hGid : d₀.gid = view.gid) (hTidy : ∀ j, (d₀.oldTable j).Tidy) :
    GroupView.Inv cfg { view with entered := insert i view.entered }
      (Function.update entry i d₀) := by
  have hOther {i' : Fin hosts} (hi' : i' ∈ view.entered) :
      Function.update entry i d₀ i' = entry i' :=
    Function.update_of_ne (by rintro rfl; exact hFirst hi') _ _
  have hAll {p : Fin hosts → Daemon n → Prop} (hNew : p i d₀)
      (hOld : ∀ i' ∈ view.entered, p i' (entry i')) (i' : Fin hosts)
      (hi' : i' ∈ insert i view.entered) : p i' (Function.update entry i d₀ i') := by
    rcases Finset.mem_insert.mp hi' with rfl | hi'
    · rwa [Function.update_self]
    · rw [hOther hi']
      exact hOld i' hi'
  refine ⟨h.nodup, h.size, ?_, hAll (p := fun i' d => Joined (cfg i') (view.addr cfg) d) hJoined
    h.joined, hAll (p := fun i' d => d.myIndex = view.members.idxOf i') hIndex h.index,
    hAll (p := fun _ d => d.gid = view.gid) hGid h.gid,
    hAll (p := fun _ d => ∀ j, (d.oldTable j).Tidy) hTidy h.tidy, ?_, h.balance, h.once, h.shared⟩
  · intro i' hi'
    rcases Finset.mem_insert.mp hi' with rfl | hi'
    · exact hMember
    · exact h.member i' hi'
  · intro parcel hMem hType
    obtain ⟨i', hi', hWords⟩ := h.state parcel hMem hType
    refine ⟨i', Finset.mem_insert_of_mem hi', ?_⟩
    rw [hOther hi']
    exact hWords

/-- The STATE message of a member that has not announced itself yet. -/
theorem announce {vip : Fin n → Address} (hSites : Sites vip cfg) (h : view.Inv cfg entry)
    (hi : i ∈ view.entered)
    (hFirst : ∀ mess ∈ statesIn ((view.log ++ view.sent).filterMap Parcel.delivery?),
      mess.index ≠ (entry i).myIndex) :
    (view.carry [(stateMessType, (stateMess (cfg i) (entry i)).words)]).Inv cfg entry := by
  have hDelivery := Parcel.delivery?_state (h.encodable hSites hi)
  have hSplit {parcel : Parcel} {own : Parcel}
      (hMem : parcel ∈ view.log ++ (view.sent ++ [own])) :
      parcel ∈ view.log ++ view.sent ∨ parcel = own := by
    rwa [← List.append_assoc, List.mem_append, List.mem_singleton] at hMem
  rw [GroupView.carry_state]
  refine ⟨h.nodup, h.size, h.member, h.joined, h.index, h.gid, h.tidy, fun parcel hMem hType => ?_,
    fun parcel hMem hType => ?_, ?_, h.shared⟩
  · rcases hSplit hMem with hOld | rfl
    · exact h.state parcel hOld hType
    · exact ⟨i, hi, rfl⟩
  · rcases hSplit hMem with hOld | rfl
    · exact h.balance parcel hOld hType
    · exact absurd hType (show ¬ stateMessType = balanceMessType by decide)
  · dsimp only
    have hOwn : statesIn (List.filterMap Parcel.delivery?
        [(stateMessType, (stateMess (cfg i) (entry i)).words)]) =
        [stateMess (cfg i) (entry i)] := by
      rw [List.filterMap_cons_some hDelivery]
      rfl
    rw [← List.append_assoc, List.filterMap_append, statesIn_append, hOwn, List.map_append,
      List.nodup_append]
    refine ⟨h.once, List.nodup_singleton _, fun index hIndex index' hIndex' => ?_⟩
    obtain ⟨mess, hMess, rfl⟩ := List.mem_map.mp hIndex
    rw [List.map_singleton, List.mem_singleton] at hIndex'
    rw [hIndex']
    exact hFirst mess hMess

/-- The order in which the multicasts come does not matter. -/
theorem reorder (h : view.Inv cfg entry) {log sent : List Parcel}
    (hPerm : (log ++ sent).Perm (view.log ++ view.sent)) :
    GroupView.Inv cfg { view with log, sent } entry :=
  ⟨h.nodup, h.size, h.member, h.joined, h.index, h.gid, h.tidy,
    fun parcel hMem => h.state parcel (hPerm.mem_iff.mp hMem),
    fun parcel hMem => h.balance parcel (hPerm.mem_iff.mp hMem),
    (((hPerm.filterMap _).filterMap _).map _).nodup_iff.mpr h.once, h.shared⟩

end GroupView.Inv

end Change

/-- A view later in the run. -/
structure GroupView.Grows (view view' : GroupView hosts) : Prop where
  members : view'.members = view.members
  gid : view'.gid = view.gid
  entered : view.entered ⊆ view'.entered
  log : view.log <+: view'.log

theorem GroupView.Grows.refl (view : GroupView hosts) : view.Grows view :=
  ⟨rfl, rfl, Finset.Subset.refl _, List.prefix_rfl⟩

end Wackamole
