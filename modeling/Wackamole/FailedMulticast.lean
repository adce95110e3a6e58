import Wackamole.Retry
import Wackamole.BalanceRound

/-! What a handler makes of a multicast that fails. `Spread_reconnect` resets the daemon
in the middle of the handler, which then goes on with its own assignments. -/
namespace Wackamole

variable {n : Nat} {cfg : Config n} {svc : ServiceTypes}

/-- The state that `Spread_reconnect` sets up when it connects and joins. -/
structure Daemon.FreshBoot (d : Daemon n) : Prop where
  state : d.state = .boot
  maturity : d.maturity = false
  oldMaturity : d.oldMaturity = false
  numAllocated : d.numAllocated = 0
  allocationTable : ∀ i, (d.allocationTable i).realIf = 0#32
  oldTable : ∀ i, (d.oldTable i).realIf = 0#32

/-- The handlers that multicast. -/
inductive Multicaster where
  | turnMature
  | handleMembership
  | balance
  | sendLocalArpCache (arps : List Word)

namespace Multicaster

def run (cfg : Config n) (mc : Multicast) (d : Daemon n) : Multicaster → Run n
  | .turnMature => Wackamole.turnMature mc d
  | .handleMembership => Wackamole.handleMembership cfg mc d
  | .balance => Wackamole.balance cfg mc d
  | .sendLocalArpCache arps => Wackamole.sendLocalArpCache arps mc d

/-- The handler gets to its multicast. -/
def Sends (cfg : Config n) (d : Daemon n) : Multicaster → Prop
  | .turnMature => True
  | .handleMembership => d.sender = cfg.spreadGroup ∧ Accountable cfg d
  | .balance => d.myIndex = 0 ∧ d.state = .run ∧ (balanceMess cfg d).isSome
  | .sendLocalArpCache _ => True

/-- The handler assigns `State` after its multicast. -/
def AssignsState : Multicaster → Prop
  | .turnMature => False
  | .handleMembership => True
  | .balance => True
  | .sendLocalArpCache _ => False

end Multicaster

/-- A failed multicast whose reconnect connects and joins. -/
structure Multicast.Reconnects (mc : Multicast) (spreadLock : Bool) : Prop where
  failed : mc.ret < 0
  accepted : acceptedCode mc.ret
  connects : mc.again.connects spreadLock = true

/-- A connection starts over; without one the automaton stays as it was. -/
theorem spreadReconnect_session {ret : Int} (hCode : acceptedCode ret) (c : Connection)
    (d : Daemon n) :
    ∃ d', spreadReconnect ret c d = .ok d' ∧
      if c.connects d.spreadLock then d'.FreshBoot
      else d'.state = d.state ∧ d'.maturity = d.maturity := by
  rw [spreadReconnect, if_neg (not_not.mpr hCode), cleanUp_eq]
  dsimp only
  split_ifs <;>
    first
    | exact ⟨_, rfl, rfl, rfl, rfl, rfl, fun _ => rfl, fun _ => rfl⟩
    | exact ⟨_, rfl, rfl, rfl⟩
    | (exfalso; simp_all [Connection.connects] <;> omega)

theorem spreadReconnect_freshBoot {ret : Int} (hCode : acceptedCode ret) {c : Connection}
    {d : Daemon n} (hConnects : c.connects d.spreadLock = true) :
    ∃ d', spreadReconnect ret c d = .ok d' ∧ d'.FreshBoot := by
  obtain ⟨d', hEq, hSession⟩ := spreadReconnect_session hCode c d
  rw [if_pos hConnects] at hSession
  exact ⟨d', hEq, hSession⟩

theorem multicast_freshBoot {mc : Multicast} {d : Daemon n} (h : mc.Reconnects d.spreadLock)
    (messType : Int) (words : List Word) :
    ∃ d', multicast messType words mc d = .ok d' ∧ d'.FreshBoot := by
  rw [multicast_failed h.failed]
  exact spreadReconnect_freshBoot h.accepted h.connects

/-- After a failed multicast whose reconnect succeeds, a handler returns in the state that
`Spread_reconnect` set up exactly if it does not assign `State` afterwards. -/
theorem Multicaster.run_freshBoot_iff (cfg : Config n) (who : Multicaster) {mc : Multicast}
    {d : Daemon n} (hSends : who.Sends cfg d) (h : mc.Reconnects d.spreadLock) :
    ∃ d', who.run cfg mc d = .ok d' ∧ (d'.FreshBoot ↔ ¬ who.AssignsState) := by
  cases who with
  | turnMature =>
      obtain ⟨d', hRun, hFresh⟩ := multicast_freshBoot h maturingMessType []
      exact ⟨d', hRun, iff_of_true hFresh id⟩
  | handleMembership =>
      obtain ⟨hSender, hCount⟩ := hSends
      obtain ⟨d', hMess, _⟩ := multicast_freshBoot (d := announcing cfg d) h stateMessType
        (stateMess cfg (enterView d)).words
      refine ⟨{ d' with state := .gather }.dequeue .balance, ?_, ?_⟩
      · rw [Multicaster.run, handleMembership_accountable hSender hCount, hMess]
        rfl
      · refine iff_of_false (fun hFresh => ?_) (not_not.mpr trivial)
        cases hFresh.state
  | balance =>
      obtain ⟨hIndex, hState, hPlan⟩ := hSends
      obtain ⟨m, hMess⟩ := Option.isSome_iff_exists.mp hPlan
      obtain ⟨d', hSent, _⟩ := multicast_freshBoot (d := { d with state := .balance }.write m.words)
        h balanceMessType m.words
      refine ⟨balanceLeave cfg { d' with state := .run }, ?_, ?_⟩
      · rw [Multicaster.run, Wackamole.balance, if_neg (not_not.mpr hIndex),
          if_neg (not_not.mpr hState), hMess]
        dsimp only
        rw [hSent]
        rfl
      · refine iff_of_false (fun hFresh => ?_) (not_not.mpr trivial)
        have hRunning : (balanceLeave cfg { d' with state := .run }).state = .run := by
          unfold balanceLeave
          split_ifs <;> rfl
        cases hRunning.symm.trans hFresh.state
  | sendLocalArpCache arps =>
      obtain ⟨d', hRun, hFresh⟩ := multicast_freshBoot (d := d.write arps) h arpcacheMessType arps
      exact ⟨d', hRun, iff_of_true hFresh id⟩

/-! The automaton is in RUN only when the daemon is mature, but for what `Balance` does. -/

def Daemon.Ripe (d : Daemon n) : Prop := d.state = .run → d.maturity = true

theorem settle_maturity (d : Daemon n) :
    (claimUnclaimed (priorityClaim cfg d)).maturity = d.maturity := by
  have hClaimed := congrArg Control.maturity (claimUnclaimed_control (priorityClaim cfg d))
  have hPrioritized : (prioritized cfg d).1.control.maturity = d.control.maturity :=
    congrArg Control.maturity (prioritized_control d)
  exact (hClaimed.trans (priorityClaim_unchanged Daemon.maturity (fun _ _ _ => rfl)
    (fun _ _ => rfl) d)).trans hPrioritized

theorem handleMature_maturity (d : Daemon n) : (handleMature cfg d).maturity = true := by
  unfold handleMature
  by_cases hMature : d.maturity = true
  · rw [if_pos hMature]
    exact hMature
  · rw [if_neg hMature]
    dsimp only
    split_ifs
    · exact settle_maturity _
    · rfl

theorem handleState_ripe {d : Daemon n} (h : d.Ripe) : (handleState cfg d).Ripe := by
  have hFinish (d : Daemon n) (h : d.Ripe) : (finishGather cfg d).Ripe := by
    unfold finishGather
    split_ifs with hDone hMature
    · exact fun _ => (settle_maturity d).trans hMature
    · intro hState
      cases hState
    · exact h
  have hCollect (m : StateMess) (d : Daemon n) (h : d.Ripe) : (collectState cfg m d).Ripe := by
    have hControl := ripState_control cfg m d
    have hRipped : (ripState cfg m d).Ripe := by
      intro hState
      exact (congrArg Control.maturity hControl).trans
        (h ((congrArg Control.state hControl).symm.trans hState))
    unfold collectState
    dsimp only
    split_ifs
    · exact fun _ => handleMature_maturity _
    · exact hRipped
  have hFlip (k : Nat) : (d.flipFront k).Ripe := by
    unfold Daemon.flipFront
    split_ifs
    · exact h
    · exact h
  unfold handleState
  dsimp only
  generalize (if d.gid = (StateMess.read d.word).gid then _ else 7) = k
  unfold handleStateMess
  split_ifs
  · exact hFinish _ (hCollect _ _ (hFlip k))
  · exact hFlip k

theorem handleRegular_ripe {d : Daemon n} (h : d.Ripe) : (handleRegular cfg d).Ripe := by
  have hSame (d' : Daemon n) (hControl : d'.control = d.control) : d'.Ripe := fun hState =>
    (congrArg Control.maturity hControl).trans
      (h ((congrArg Control.state hControl).symm.trans hState))
  unfold handleRegular
  split_ifs
  · exact handleState_ripe h
  · exact fun _ => handleMature_maturity _
  · exact hSame _ (handleBalance_control cfg (d.record (.handler .balance)))
  · exact h
  · exact h
  · exact h

theorem spreadReconnect_ripe {ret : Int} {c : Connection} {d d' : Daemon n}
    (h : spreadReconnect ret c d = .ok d') (hBefore : d.Ripe) : d'.Ripe := by
  obtain ⟨_, _, ⟨hBoot, _⟩ | ⟨hState, _, hMaturity, _⟩⟩ := spreadReconnect_ok h
  · intro hRun
    rw [hBoot] at hRun
    cases hRun
  · intro hRun
    rw [hMaturity]
    exact hBefore (hState.symm.trans hRun)

theorem multicast_ripe {messType : Int} {words : List Word} {mc : Multicast} {d d' : Daemon n}
    (h : multicast messType words mc d = .ok d') (hBefore : d.Ripe) : d'.Ripe := by
  rcases multicast_ok h with ⟨-, rfl⟩ | ⟨-, hAgain⟩
  · exact hBefore
  · exact spreadReconnect_ripe hAgain hBefore

theorem dispatch_ripe {ret : Int} {a : Answers} {d d' : Daemon n}
    (h : dispatch svc cfg ret a d = .ok d') (hBefore : d.Ripe) : d'.Ripe := by
  unfold dispatch at h
  split_ifs at h
  · obtain ⟨d₁, hView, hShare⟩ := Run.bind_ok.mp h
    refine multicast_ripe (d := d₁.write a.arps) hShare fun hRun => ?_
    cases (handleMembership_ok hView).1.symm.trans hRun
  · cases h
    exact hBefore
  · cases h
  · cases h
    exact handleRegular_ripe hBefore
  · cases h

/-- The event is the `Balance` timer, its multicast fails, and the reconnect succeeds. -/
def Event.BalanceReconnects (cfg : Config n) (d : Daemon n) : Event → Prop
  | .balance mc => Multicaster.balance.Sends cfg d ∧ mc.Reconnects d.spreadLock
  | _ => False

/-- A failed multicast that does not come to a session leaves the automaton as it was. -/
theorem multicast_session {messType : Int} {words : List Word} {mc : Multicast}
    {d d' : Daemon n} (h : multicast messType words mc d = .ok d') :
    mc.Reconnects d.spreadLock ∧ d'.FreshBoot ∨
      ¬ mc.Reconnects d.spreadLock ∧ d'.state = d.state ∧ d'.maturity = d.maturity := by
  rcases multicast_ok h with ⟨hSent, rfl⟩ | ⟨hFailed, hAgain⟩
  · exact .inr ⟨fun hFails => absurd hFails.failed (not_lt.mpr hSent), rfl, rfl⟩
  · have hCode := (spreadReconnect_ok hAgain).1
    by_cases hConnects : mc.again.connects d.spreadLock = true
    · obtain ⟨d₁, hEq, hFresh⟩ := spreadReconnect_freshBoot hCode (c := mc.again)
        (d := d.record (.multicast messType words mc.ret)) hConnects
      rw [hEq, Except.ok.injEq] at hAgain
      exact .inl ⟨⟨hFailed, hCode, hConnects⟩, hAgain ▸ hFresh⟩
    · obtain ⟨d₁, hEq, hSame⟩ := spreadReconnect_session hCode mc.again
        (d.record (.multicast messType words mc.ret))
      rw [hEq, Except.ok.injEq] at hAgain
      rw [if_neg (by exact hConnects), hAgain] at hSame
      exact .inr ⟨fun hFails => hConnects hFails.connects, hSame⟩

theorem balance_ripe_iff {mc : Multicast} {d d' : Daemon n} (h : balance cfg mc d = .ok d')
    (hBefore : d.Ripe) :
    d'.Ripe ↔ ¬ (Multicaster.balance.Sends cfg d ∧ mc.Reconnects d.spreadLock) := by
  have hLeave (d : Daemon n) : (balanceLeave cfg d).Ripe ↔ d.Ripe := by
    unfold balanceLeave
    split_ifs <;> rfl
  rcases balance_ok h with ⟨hQuiet, rfl | rfl⟩ | ⟨hSends, m, d₁, hMess, rfl⟩
  · exact iff_of_true hBefore fun hFails => hQuiet hFails.1
  · exact iff_of_true ((hLeave d).mpr hBefore) fun hFails => hQuiet hFails.1
  · have hMature := hBefore hSends.2.1
    rw [hLeave]
    rcases multicast_session hMess with ⟨hFails, hFresh⟩ | ⟨hWorks, _, hSame⟩
    · refine iff_of_false (fun hRipe => ?_) (not_not.mpr ⟨hSends, hFails⟩)
      cases hFresh.maturity.symm.trans (hRipe rfl)
    · exact iff_of_true (fun _ => hSame.trans hMature) fun hFails => hWorks hFails.2

theorem step_ripe_iff {d d' : Daemon n} {e : Event} (h : step svc cfg d e = .ok d')
    (hBefore : d.Ripe) : d'.Ripe ↔ ¬ e.BalanceReconnects cfg d := by
  cases e with
  | network r a =>
      refine iff_of_true ?_ id
      cases r with
      | message m => exact dispatch_ripe h hBefore
      | failed ret =>
          rw [step, handleNetwork] at h
          obtain ⟨d₁, hAgain, hDispatch⟩ := Run.bind_ok.mp h
          exact dispatch_ripe hDispatch (spreadReconnect_ripe hAgain hBefore)
  | turnMature mc => exact iff_of_true (multicast_ripe h hBefore) id
  | balance mc => exact (balance_ripe_iff h hBefore :)
  | spreadReconnect c => exact iff_of_true (spreadReconnect_ripe h hBefore) id
  | sendLocalArpCache arps mc => exact iff_of_true (multicast_ripe h hBefore) id
  | command command c =>
      refine iff_of_true ?_ id
      cases command with
      | failure =>
          have hRun : spreadReconnect (-8) c (cleanUp { d with spreadLock := true, mbox := -1 }) =
              .ok d' := h
          refine spreadReconnect_ripe hRun ?_
          rw [cleanUp_eq]
          exact hBefore
      | success =>
          have hRun : spreadReconnect (-8) c { d with spreadLock := false } = .ok d' := h
          exact spreadReconnect_ripe hRun hBefore
  | signal => cases h

theorem startUp_ripe {c : Connection} {arps : List Word} {mc : Multicast} {d : Daemon n}
    (h : startUp c arps mc = .ok d) : d.Ripe := by
  have hInitial : (Daemon.initial n).Ripe := fun hRun => by cases hRun
  obtain ⟨d₁, d₂, hConnect, hShare, rfl⟩ := startUp_ok h
  have hConnected : d₁.Ripe := spreadReconnect_ripe hConnect hInitial
  have hShared : d₂.Ripe := multicast_ripe hShare hConnected
  exact hShared

/-- What a failed multicast leaves, and what follows for runs from start-up: the daemon is
mature whenever it is in RUN exactly if no `Balance` timer that returns has come to a new
session through its multicast. -/
theorem failedMulticast_outcome (svc : ServiceTypes) (cfg : Config n) :
    (∀ (who : Multicaster) (mc : Multicast) (d : Daemon n), who.Sends cfg d →
      mc.Reconnects d.spreadLock →
        ∃ d', who.run cfg mc d = .ok d' ∧ (d'.FreshBoot ↔ ¬ who.AssignsState)) ∧
    ∀ (c : Connection) (arps : List Word) (mc : Multicast) (es : List Event),
      (∀ before after, es = before ++ after →
        ∀ d, startUp c arps mc >>= handleEvents svc cfg before = .ok d →
          d.state = .run → d.maturity = true) ↔
      ∀ before e after, es = before ++ e :: after →
        ∀ d d', startUp c arps mc >>= handleEvents svc cfg before = .ok d →
          step svc cfg d e = .ok d' → ¬ e.BalanceReconnects cfg d := by
  refine ⟨fun who mc d => who.run_freshBoot_iff cfg, fun c arps mc es => ?_⟩
  cases hStart : startUp (n := n) c arps mc with
  | error halted =>
      exact iff_of_true (fun _ _ _ _ h => by cases h) fun _ _ _ _ _ _ h => by cases h
  | ok d₀ => exact handleEvents_iff (fun _ _ _ => step_ripe_iff) (startUp_ripe hStart)

/-- The first member of two owns both interfaces and is about to balance. -/
def overloaded (cfg : Config 2) : List Event :=
  let a : Answers := ⟨⟨true, 3, 0⟩, .success, [], .success⟩
  let view (id : Word) (numGroups : Nat) : Event :=
    .network (.message ⟨0x1000, "wack1", numGroups, 0, false, [id, 0#32, 0#32]⟩) a
  let state (m : StateMess) : Event :=
    .network (.message ⟨0x10, "#wack1#a", 1, stateMessType, false, m.words⟩) a
  let alone : GroupId := ⟨1#32, 0#32, 0#32⟩
  let both : GroupId := ⟨2#32, 0#32, 0#32⟩
  [view 1#32 1, state ⟨alone, cfg.realIf, 0, 0, 0, [], []⟩,
    .network (.message ⟨0x10, "#wack1#a", 1, maturingMessType, false, []⟩) a,
    view 2#32 2,
    state ⟨both, cfg.realIf, 0, 1, 2, [(10#32, claimed), (11#32, claimed)], []⟩,
    state ⟨both, 2#32, 1, 0, 0, [], []⟩]

/-- Its BALANCE message fails, and it is in RUN again before it is mature. -/
theorem overloaded_runs_immature :
    let cfg : Config 2 := ⟨![10#32, 11#32], [], 1#32, "wack1", 1, false, true⟩
    ∃ d, startUp ⟨true, 3, 0⟩ [] .success >>= handleEvents spreadTypes cfg
        (overloaded cfg ++ [.balance ⟨-8, ⟨true, 4, 0⟩⟩]) = .ok d ∧
      d.state = .run ∧ d.maturity = false := by
  intro cfg
  have hRun : Run.returns (startUp ⟨true, 3, 0⟩ [] .success >>= handleEvents spreadTypes cfg
      (overloaded cfg ++ [.balance ⟨-8, ⟨true, 4, 0⟩⟩]))
      (fun d => d.state = .run ∧ d.maturity = false) = true := by
    decide +kernel
  obtain ⟨d, hEnd, hImmature⟩ := Run.returns_iff.mp hRun
  exact ⟨d, hEnd, of_decide_eq_true hImmature⟩

end Wackamole
