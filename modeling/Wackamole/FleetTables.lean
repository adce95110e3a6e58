import Wackamole.FleetRuns
import Wackamole.BalanceOutcome

/-! What the hosts have up in every run: members of a view that have handled equally many of
its messages have one table, and once they are in RUN every interface is up at exactly one of
them. -/
namespace Wackamole

variable {hosts m n : Nat}

/-- What a daemon shows of the ledger that it follows. -/
def Ledger.Shown (cfg : Config n) (addr : Fin m → Address) (l : Ledger n) (d : Daemon n) : Prop :=
  match l.stage with
  | .gathering => d.state = .gather
  | .waiting => d.state = .boot ∧ d.up = ∅
  | .running table => InStep cfg addr table d ∧ d.numAllocated = d.up.card

theorem Follows.shown {cfg : Config n} {addr : Fin m → Address} {d₀ d : Daemon n} {l : Ledger n}
    (hVip : Function.Injective cfg.pseudoIf) (hMe : cfg.realIf ≠ 0#32)
    (hJoined : Joined cfg addr d₀) (hTold : Told cfg addr d₀ l.heard)
    (h : Follows cfg addr d₀ l d) : l.Shown cfg addr d := by
  have hAccounted (hBoot : d.state = .boot) : d.maturity = false → d.up = ∅ :=
    (h.accounted hVip hMe hJoined hTold fun hGather => by rw [hBoot] at hGather; cases hGather).2
  cases h with
  | gathering raised a hMissing hMatured h hTidy => exact h.state
  | waiting a hAll hState hImmature hNone h hTidy => exact ⟨hState, hAccounted hState hImmature⟩
  | running hAll hMature h hCount => exact ⟨h, hCount⟩

theorem Ledger.Shown.running {cfg : Config n} {addr : Fin m → Address} {d : Daemon n}
    {l : Ledger n} (h : l.Shown cfg addr d) (hRun : d.state = .run) :
    ∃ table, l.stage = .running table := by
  rw [Ledger.Shown] at h
  cases hStage : l.stage with
  | gathering =>
      simp only [hStage] at h
      rw [hRun] at h
      cases h
  | waiting =>
      simp only [hStage] at h
      rw [hRun] at h
      cases h.1
  | running table => exact ⟨table, rfl⟩

section Progress

variable {vip : Fin n → Address} {addr : Fin m → Address}

/-- A message with which a view becomes mature. -/
def Delivery.matures : Delivery → Bool
  | .state mess => decide (mess.maturity = 1)
  | .mature => true
  | .balance _ => false

/-- How far a view is, from what has been delivered in it. -/
def Ledger.Progress (size : Nat) (log : List Delivery) (l : Ledger n) : Prop :=
  match l.stage with
  | .gathering => (statesIn log).length < size ∧ l.matured = log.any Delivery.matures
  | .waiting => (statesIn log).length = size ∧ log.any Delivery.matures = false
  | .running _ => (statesIn log).length = size ∧ log.any Delivery.matures = true

theorem Ledger.Progress.handle {log : List Delivery} {item : Delivery} {l : Ledger n}
    (hOf : l.stage = .gathering → l.heard = statesIn log) (h : l.Progress m log)
    (hFit : (statesIn (log ++ [item])).length ≤ m) :
    (l.handle vip addr item).Progress m (log ++ [item]) := by
  obtain ⟨heard, matured, stage⟩ := l
  have hAny : (log ++ [item]).any Delivery.matures =
      (log.any Delivery.matures || item.matures) := by simp
  cases stage with
  | gathering =>
      obtain rfl : heard = statesIn log := hOf rfl
      obtain ⟨hLess, rfl⟩ := h
      cases item with
      | state mess =>
          have hLength : (statesIn (log ++ [.state mess])).length =
              (statesIn log ++ [mess]).length := by simp
          rw [hLength] at hFit
          simp only [Ledger.handle]
          split_ifs with hLast hMatured
          · exact ⟨hLength.trans hLast, hAny.trans hMatured⟩
          · exact ⟨hLength.trans hLast, hAny.trans (Bool.not_eq_true _ ▸ hMatured)⟩
          · exact ⟨by omega, hAny.symm⟩
      | mature => exact ⟨by simpa using hLess, by simp [Ledger.handle, Delivery.matures]⟩
      | balance moves => exact ⟨by simpa using hLess, by simp [Ledger.handle, Delivery.matures]⟩
  | waiting =>
      obtain ⟨hFull, hNone⟩ := h
      cases item with
      | state mess => simp [hFull] at hFit
      | mature => exact ⟨by simpa using hFull, by simp [Delivery.matures]⟩
      | balance moves => exact ⟨by simpa using hFull, by rw [hAny, hNone]; rfl⟩
  | running table =>
      obtain ⟨hFull, hSome⟩ := h
      cases item with
      | state mess => simp [hFull] at hFit
      | mature => exact ⟨by simpa using hFull, by rw [hAny, hSome]; rfl⟩
      | balance moves => exact ⟨by simpa using hFull, by rw [hAny, hSome]; rfl⟩

theorem Ledger.after_progress (vip : Fin n → Address) (addr : Fin m → Address) (hPos : 0 < m)
    {log : List Delivery} (hFit : (statesIn log).length ≤ m) :
    (after vip addr log).Progress m log := by
  induction log using List.reverseRecOn with
  | nil => exact ⟨hPos, rfl⟩
  | append_singleton log item ih =>
      rw [after_append]
      refine Progress.handle (after_of vip addr log).gathering (ih ?_) hFit
      rw [statesIn_append, List.length_append] at hFit
      omega

end Progress

section Running

variable {vip : Fin n → Address} {addr : Fin m → Address}

/-- While a view runs, only a move of an interface changes its owner. -/
theorem Ledger.foldl_running {l : Ledger n} {table : Fin n → Entry}
    (hStage : l.stage = .running table) {log : List Delivery} {j : Fin n}
    (hIdle : ∀ moves, .balance moves ∈ log → vip j ∉ moves.map Prod.snd) :
    ∃ table', (log.foldl (Ledger.handle vip addr) l).stage = .running table' ∧
      table' j = table j := by
  induction log generalizing l table with
  | nil => exact ⟨table, hStage, rfl⟩
  | cons item log ih =>
      have hRest := fun moves hMem => hIdle moves (List.mem_cons_of_mem item hMem)
      obtain ⟨heard, matured, _⟩ := l
      cases hStage
      cases item with
      | state mess => exact ih rfl hRest
      | mature => exact ih rfl hRest
      | balance moves =>
          have hFresh := hIdle moves List.mem_cons_self
          obtain ⟨table', hTable', hSame⟩ :=
            ih (l := ⟨heard, matured, .running (moveTable vip table moves)⟩) rfl hRest
          refine ⟨table', hTable', hSame.trans ?_⟩
          rw [moveTable, movedTo_of_fresh hFresh]
          rfl

end Running

/-- What a member has handled of a view, message by message. -/
def GroupView.handled (view : GroupView hosts) (k : Nat) : List Delivery :=
  (view.log.take k).filterMap Parcel.delivery?

/-- From one member to another one that has handled more. -/
theorem GroupView.ledger_later {vip : Fin n → Address} {cfg : Fin hosts → Config n}
    (view : GroupView hosts) {k k' : Nat} (hLe : k ≤ k') :
    view.ledger cfg vip k' = (((view.log.take k').drop k).filterMap Parcel.delivery?).foldl
      (Ledger.handle vip (view.addr cfg)) (view.ledger cfg vip k) := by
  have hTake : (view.log.take k').take k = view.log.take k := by
    rw [List.take_take, min_eq_left hLe]
  have hSplit : view.log.take k' = view.log.take k ++ (view.log.take k').drop k := by
    rw [← hTake, List.take_append_drop]
  rw [GroupView.ledger, hSplit, List.filterMap_append, Ledger.after, List.foldl_append, ← hSplit]
  rfl

theorem GroupView.handled_subset (view : GroupView hosts) (k : Nat) :
    view.handled k ⊆ (view.log ++ view.sent).filterMap Parcel.delivery? :=
  List.filterMap_subset _ (List.subset_append_of_subset_left _ (List.take_subset k _))

namespace Fleet

instance (d : Daemon n) : (e : Event) → Decidable (e.Mild d)
  | .network (.failed _) _ => inferInstanceAs (Decidable (_ ∨ _))
  | .network (.message _) _ | .turnMature _ | .balance _ | .spreadReconnect _
  | .sendLocalArpCache _ _ | .command _ _ | .signal => inferInstanceAs (Decidable True)

instance (cfg : Fin hosts → Config n) (s : Fleet hosts n) :
    (action : Action hosts) → Decidable (s.Legal cfg action)
  | .form _ _ _ | .order _ _ | .stray _ _ | .hear _ _ => inferInstanceAs (Decidable True)
  | .enter _ _ _ => inferInstanceAs (Decidable (_ → _))
  | .handle i =>
    match h : s.due i with
    | some (.balance _) => decidable_of_iff (_ → _) (by rw [Legal, h])
    | some (.state _) | some .mature | none => .isTrue (by rw [Legal, h]; trivial)
  | .act i e => inferInstanceAs (Decidable (e.Mild (s.daemon i)))

instance decidableLegalFrom (cfg : Fin hosts → Config n) :
    (s : Fleet hosts n) → (actions : List (Action hosts)) → Decidable (LegalFrom cfg s actions)
  | _, [] => inferInstanceAs (Decidable True)
  | s, action :: rest =>
    @instDecidableAnd _ _ inferInstance (decidableLegalFrom cfg (next cfg s action) rest)

instance (cfg : Fin hosts → Config n) (actions : List (Action hosts)) :
    Decidable (LegalRun cfg actions) :=
  decidableLegalFrom cfg initial actions

def first : Fin 2 := ⟨0, Nat.zero_lt_two⟩

def second : Fin 2 := ⟨1, Nat.one_lt_two⟩

/-- Two hosts that manage two interfaces. -/
def pair (i : Fin 2) : Config 2 where
  pseudoIf j := 100#32 + BitVec.ofNat 32 j
  preferAddress := []
  realIf := 10#32 + BitVec.ofNat 32 i
  spreadGroup := "wack1"
  balanceRate := 1
  completeBalance := false
  needsForceReup := true

theorem pair_sites : Sites (pair first).pseudoIf pair where
  pseudoIf _ := rfl
  vip_injective := by decide
  realIf_injective := by decide
  realIf_ne_zero := by decide
  numPseudo := by decide
  numPrefer := by decide
  noPreference := nofun
  balanceRate := by decide

/-- Both connect and enter a view, tell each other what they have, and become mature when a
message comes that the first of them has sent before the view. -/
def pairRun : List (Action 2) :=
  [.act first (.command .success ⟨true, 3, 0⟩), .act second (.command .success ⟨true, 3, 0⟩),
    .act first (.turnMature .success), .form 0 ⟨1#32, 2#32, 3#32⟩ [second, first],
    .enter first 0 .unasked, .enter second 0 .unasked, .order 0 0, .handle second, .hear second 1,
    .order 0 0, .handle first, .handle first, .hear first 0, .handle second, .stray 0 0, .order 0 0,
    .handle first, .handle second]

/-- One host has everything in a view of its own; in a view with the other one, half of it is
on its way to that one. -/
def handingRun : List (Action 2) :=
  [.act first (.command .success ⟨true, 3, 0⟩), .act second (.command .success ⟨true, 3, 0⟩),
    .form 0 ⟨1#32, 2#32, 3#32⟩ [first], .enter first 0 .unasked, .order 0 0, .handle first,
    .act first (.turnMature .success), .order 0 0, .handle first,
    .form 1 ⟨1#32, 2#32, 4#32⟩ [first, second], .enter first 1 .unasked, .enter second 1 .unasked,
    .order 1 0, .order 1 0, .handle first, .handle first, .handle second, .handle second,
    .act first (.balance .success), .order 1 0, .handle second]

section Runs

variable {vip : Fin n → Address} {cfg : Fin hosts → Config n} (hSites : Sites vip cfg)
  {actions : List (Action hosts)} (hLegal : LegalRun cfg actions)

include hSites hLegal

/-- A host in a view, with all that holds of it there. -/
theorem run_member {i : Fin hosts} {v k : Nat}
    (hPlace : (run cfg actions : Fleet hosts n).place i = some (v, k)) :
    ∃ entry : Fin hosts → Daemon n, ∃ view, (run cfg actions : Fleet hosts n).views v = some view ∧
      view.Inv cfg entry ∧ i ∈ view.entered ∧ k ≤ view.log.length ∧
      (run cfg actions : Fleet hosts n).ended i = none ∧
      (view.ledger cfg vip k).Shown (cfg i) (view.addr cfg)
        ((run cfg actions : Fleet hosts n).daemon i) := by
  obtain ⟨entry, h⟩ := run_inv hSites hLegal
  have hHost := h.host i trivial
  rw [HostInv, hPlace] at hHost
  obtain ⟨hEnded, view, hView, hEntered, hLength, hFollows⟩ := hHost
  have hInv := h.view v view hView
  exact ⟨entry v, view, hView, hInv, hEntered, hLength, hEnded,
    hFollows.shown (hSites.pseudoIf_injective i) (hSites.realIf_ne_zero i)
      (hInv.joined i hEntered) (hInv.told_ledger hSites hEntered k)⟩

/-- Every member of a view shows the ledger of what it has handled of it. -/
theorem run_shown {i : Fin hosts} {v k : Nat}
    (hPlace : (run cfg actions : Fleet hosts n).place i = some (v, k)) :
    ∃ view, (run cfg actions : Fleet hosts n).views v = some view ∧ i ∈ view.members ∧
      k ≤ view.log.length ∧ (view.ledger cfg vip k).Shown (cfg i) (view.addr cfg)
        ((run cfg actions : Fleet hosts n).daemon i) := by
  obtain ⟨entry, view, hView, hInv, hEntered, hLength, _, hShown⟩ :=
    run_member hSites hLegal hPlace
  exact ⟨view, hView, hInv.member i hEntered, hLength, hShown⟩

omit hSites hLegal in
theorem pairRun_shown : ∃ view, (run pair pairRun : Fleet 2 2).views 0 = some view ∧
    second ∈ view.members ∧ 3 ≤ view.log.length ∧
    (view.ledger pair (pair first).pseudoIf 3).Shown (pair second) (view.addr pair)
      ((run pair pairRun).daemon second) :=
  run_shown pair_sites (by decide +kernel) (by decide +kernel)

/-- When the members of a view have all handled as much of it and one of them is in RUN, every
interface is up at exactly one of them. -/
theorem run_exactly_one {v k : Nat} {view : GroupView hosts}
    (hView : (run cfg actions : Fleet hosts n).views v = some view)
    (hAll : ∀ i ∈ view.members, (run cfg actions : Fleet hosts n).place i = some (v, k))
    {i : Fin hosts} (hi : i ∈ view.members)
    (hRun : ((run cfg actions : Fleet hosts n).daemon i).state = .run) (j : Fin n) :
    ∃! i, i ∈ view.members ∧ j ∈ ((run cfg actions : Fleet hosts n).daemon i).up := by
  have hMember {i : Fin hosts} (hi : i ∈ view.members) : ∃ entry : Fin hosts → Daemon n,
      view.Inv cfg entry ∧ i ∈ view.entered ∧ (view.ledger cfg vip k).Shown (cfg i)
        (view.addr cfg) ((run cfg actions : Fleet hosts n).daemon i) := by
    obtain ⟨entry, view', hView', hInv, hEntered, _, _, hShown⟩ :=
      run_member hSites hLegal (hAll i hi)
    obtain rfl : view = view' := Option.some.inj (hView.symm.trans hView')
    exact ⟨entry, hInv, hEntered, hShown⟩
  obtain ⟨entry, hInv, hEntered, hShown⟩ := hMember hi
  obtain ⟨table, hStage⟩ := hShown.running hRun
  have hUp {i : Fin hosts} (hi : i ∈ view.members) :
      j ∈ ((run cfg actions : Fleet hosts n).daemon i).up ↔ (table j).realIf = (cfg i).realIf := by
    obtain ⟨_, _, _, hShown⟩ := hMember hi
    rw [Ledger.Shown, hStage] at hShown
    exact hShown.1.up j
  obtain ⟨owner, hOwner⟩ := Ledger.after_owner (List.length_pos_of_mem hi)
    (hInv.told hSites hEntered (view.sublist_states k)).sender
    (fun moves hMoves => (hInv.mem_plans (view.handled_subset k hMoves)).2) hStage j
  refine ⟨view.members.get owner, ⟨List.get_mem _ _, (hUp (List.get_mem _ _)).mpr hOwner⟩, ?_⟩
  rintro i' ⟨hi', hj⟩
  exact hSites.realIf_injective (((hUp hi').mp hj).symm.trans hOwner)

omit hSites hLegal in
theorem pairRun_exactly_one : ∃! i, i ∈ [second, first] ∧
    0 ∈ ((run pair pairRun : Fleet 2 2).daemon i).up := by
  have hView : ∃ view, (run pair pairRun : Fleet 2 2).views 0 = some view ∧
      view.members = [second, first] :=
    Option.map_eq_some_iff.mp (by decide +kernel :
      ((run pair pairRun : Fleet 2 2).views 0).map GroupView.members = some [second, first])
  obtain ⟨view, hView, hMembers⟩ := hView
  have hLegal : LegalRun pair pairRun := by decide +kernel
  have hAll : ∀ i ∈ view.members, (run pair pairRun : Fleet 2 2).place i = some (0, 3) := by
    rw [hMembers]
    decide +kernel
  have hMember : first ∈ view.members := by
    rw [hMembers]
    decide
  have hOne := run_exactly_one pair_sites hLegal hView hAll hMember (by decide +kernel) 0
  rwa [hMembers] at hOne

/-- No host fails the assertion of `Send_state_message`. -/
theorem run_never_aborts (i : Fin hosts) :
    (run cfg actions : Fleet hosts n).ended i ≠ some .abort := by
  obtain ⟨entry, h⟩ := run_inv hSites hLegal
  intro hEnded
  cases h.ended i .abort hEnded

omit hSites hLegal in
theorem pairRun_never_aborts : (run pair pairRun : Fleet 2 2).ended second ≠ some .abort :=
  run_never_aborts pair_sites (by decide +kernel) second

/-- Two members of a view that are both in RUN have an interface up only while a BALANCE message
that moves it has reached one of them and not the other. -/
theorem run_overlap {i i' : Fin hosts} {v k k' : Nat} {view : GroupView hosts}
    (hView : (run cfg actions : Fleet hosts n).views v = some view)
    (hPlace : (run cfg actions : Fleet hosts n).place i = some (v, k))
    (hPlace' : (run cfg actions : Fleet hosts n).place i' = some (v, k')) (hLe : k ≤ k')
    (hOther : i ≠ i') (hRun : ((run cfg actions : Fleet hosts n).daemon i).state = .run)
    {j : Fin n} (hUp : j ∈ ((run cfg actions : Fleet hosts n).daemon i).up)
    (hUp' : j ∈ ((run cfg actions : Fleet hosts n).daemon i').up)
    (hRun' : ((run cfg actions : Fleet hosts n).daemon i').state = .run) :
    ∃ moves, vip j ∈ moves.map Prod.snd ∧
      .balance moves ∈ ((view.log.take k').drop k).filterMap Parcel.delivery? := by
  have hTable {i : Fin hosts} {k : Nat}
      (hPlace : (run cfg actions : Fleet hosts n).place i = some (v, k))
      (hRun : ((run cfg actions : Fleet hosts n).daemon i).state = .run)
      (hUp : j ∈ ((run cfg actions : Fleet hosts n).daemon i).up) :
      ∃ table, (view.ledger cfg vip k).stage = .running table ∧
        (table j).realIf = (cfg i).realIf := by
    obtain ⟨_, view', hView', _, _, _, _, hShown⟩ := run_member hSites hLegal hPlace
    obtain rfl : view = view' := Option.some.inj (hView.symm.trans hView')
    obtain ⟨table, hStage⟩ := hShown.running hRun
    rw [Ledger.Shown, hStage] at hShown
    exact ⟨table, hStage, (hShown.1.up j).mp hUp⟩
  obtain ⟨table, hStage, hOwner⟩ := hTable hPlace hRun hUp
  obtain ⟨table', hStage', hOwner'⟩ := hTable hPlace' hRun' hUp'
  by_contra hNone
  have hIdle : ∀ moves, .balance moves ∈ ((view.log.take k').drop k).filterMap Parcel.delivery? →
      vip j ∉ moves.map Prod.snd := fun moves hMem hMoved => hNone ⟨moves, hMoved, hMem⟩
  obtain ⟨table'', hLater, hSame⟩ : ∃ table'', (view.ledger cfg vip k').stage =
      .running table'' ∧ table'' j = table j := by
    rw [view.ledger_later hLe]
    exact Ledger.foldl_running hStage hIdle
  rw [hStage', Stage.running.injEq] at hLater
  rw [← hLater] at hSame
  have hOwners : (cfg i').realIf = (cfg i).realIf := by rw [← hOwner', hSame, hOwner]
  exact hOther (hSites.realIf_injective hOwners).symm

omit hSites hLegal in
theorem handingRun_overlap : ∃ view, (run pair handingRun : Fleet 2 2).views 1 = some view ∧
    ∃ moves, (pair first).pseudoIf 0 ∈ moves.map Prod.snd ∧
      .balance moves ∈ ((view.log.take 3).drop 2).filterMap Parcel.delivery? := by
  obtain ⟨view, hView⟩ := Option.isSome_iff_exists.mp (by decide +kernel :
    ((run pair handingRun : Fleet 2 2).views 1).isSome)
  have hLegal : LegalRun pair handingRun := by decide +kernel
  have hFirst : (run pair handingRun : Fleet 2 2).place first = some (1, 2) := by decide +kernel
  have hSecond : (run pair handingRun : Fleet 2 2).place second = some (1, 3) := by decide +kernel
  exact ⟨view, hView, run_overlap pair_sites hLegal hView hFirst hSecond (by decide) (by decide)
    (by decide +kernel) (by decide +kernel) (by decide +kernel) (by decide +kernel)⟩

/-- A member gathers as long as it misses a STATE message, and it is in RUN as soon as it
misses none and one message has made the view mature. -/
theorem run_state {i : Fin hosts} {v k : Nat} {view : GroupView hosts}
    (hPlace : (run cfg actions : Fleet hosts n).place i = some (v, k))
    (hView : (run cfg actions : Fleet hosts n).views v = some view) :
    ((run cfg actions : Fleet hosts n).daemon i).state =
      if (statesIn (view.handled k)).length < view.members.length then .gather
      else if (view.handled k).any Delivery.matures then .run else .boot := by
  obtain ⟨entry, view', hView', hInv, hEntered, _, _, hShown⟩ := run_member hSites hLegal hPlace
  obtain rfl : view = view' := Option.some.inj (hView.symm.trans hView')
  have hTold := hInv.told hSites hEntered (view.sublist_states k)
  have hFit := hTold.heard.length_le
  rw [(hInv.joined i hEntered).numMembers] at hFit
  have hProgress := Ledger.after_progress vip (view.addr cfg)
    (List.length_pos_of_mem (hInv.member i hEntered)) hFit
  change (view.ledger cfg vip k).Progress _ (view.handled k) at hProgress
  rw [Ledger.Shown] at hShown
  rw [Ledger.Progress] at hProgress
  cases hStage : (view.ledger cfg vip k).stage with
  | gathering =>
      simp only [hStage] at hShown hProgress
      rw [hShown, if_pos hProgress.1]
  | waiting =>
      simp only [hStage] at hShown hProgress
      rw [hShown.1, if_neg hProgress.1.not_lt, hProgress.2]
      rfl
  | running table =>
      simp only [hStage] at hShown hProgress
      rw [hShown.1.state, if_neg hProgress.1.not_lt, hProgress.2]
      rfl

omit hSites hLegal in
theorem pairRun_state : ∃ view, (run pair pairRun : Fleet 2 2).views 0 = some view ∧
    ((run pair pairRun : Fleet 2 2).daemon first).state =
      if (statesIn (view.handled 3)).length < view.members.length then .gather
      else if (view.handled 3).any Delivery.matures then .run else .boot := by
  obtain ⟨view, hView⟩ := Option.isSome_iff_exists.mp (by decide +kernel :
    ((run pair pairRun : Fleet 2 2).views 0).isSome)
  exact ⟨view, hView, run_state pair_sites (by decide +kernel) (by decide +kernel) hView⟩

end Runs

end Fleet

end Wackamole
