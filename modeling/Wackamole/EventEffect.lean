import Wackamole.FailedMulticast
import Wackamole.Runs

/-! What an event can do besides the protocol: if it calls `Spread_reconnect`, it ends with
a new connection or without one, and if it only multicasts, only the message buffer, the
timers and the trace change. -/
namespace Wackamole

variable {n : Nat} {cfg : Config n} {svc : ServiceTypes}

/-- What the dispatch takes a message for. -/
inductive Message.Kind where
  | view
  | state
  | mature
  | balance
  | other
  deriving DecidableEq

def Message.kind (svc : ServiceTypes) (m : Message) : Message.Kind :=
  if svc.isMembershipMess m.serviceType then
    if svc.isRegMembMess m.serviceType then .view else .other
  else if m.messType = stateMessType then .state
  else if m.messType = maturingMessType then .mature
  else if m.messType = balanceMessType then .balance
  else .other

/-- Nothing is up, nothing is counted and nothing has an owner. -/
def Daemon.Vacant (d : Daemon n) : Prop :=
  d.up = ∅ ∧ d.numAllocated = 0 ∧ (∀ j, (d.allocationTable j).realIf = 0#32) ∧
    ∀ j, (d.oldTable j).realIf = 0#32

/-- A connection, if there is one, has just been made. -/
def Daemon.Reset (d : Daemon n) : Prop := 0 ≤ d.mbox → d.Vacant

/-- Only the message buffer, the timers and the trace have changed. -/
def Daemon.Buffered (d d' : Daemon n) : Prop :=
  d' = { d with
    mess := d'.mess, trace := d'.trace, serviceType := d'.serviceType, messType := d'.messType
    sender := d'.sender, numGroups := d'.numGroups, endianMismatch := d'.endianMismatch
    events := d'.events }

theorem Daemon.flipFront_buffered (d : Daemon n) (m : Message) (handler : Handler) (k : Nat) :
    d.Buffered (((d.load m).record (.handler handler)).flipFront k) := by
  unfold flipFront
  split_ifs <;> rfl

theorem spreadReconnect_online {ret : Int} {c : Connection} {d d' : Daemon n}
    (h : spreadReconnect ret c d = .ok d') : 0 ≤ d'.mbox ↔ c.connects d.spreadLock = true := by
  have hLink := congrArg Link.online (spreadReconnect_link h)
  cases hc : c.connects d.spreadLock with
  | true =>
      rw [hc] at hLink
      exact iff_of_true (of_decide_eq_true hLink) rfl
  | false =>
      rw [hc] at hLink
      exact iff_of_false (of_decide_eq_false hLink) Bool.false_ne_true

theorem spreadReconnect_boot {ret : Int} {c : Connection} {d d' : Daemon n}
    (h : spreadReconnect ret c d = .ok d') (hConnects : c.connects d.spreadLock = true) :
    d'.FreshBoot := by
  obtain ⟨d₁, hEq, hFresh⟩ := spreadReconnect_freshBoot (spreadReconnect_ok h).1 hConnects
  rw [h, Except.ok.injEq] at hEq
  rwa [← hEq] at hFresh

/-- Without a connection the releases of `Clean_up` stay in the counter. -/
theorem spreadReconnect_vacant {ret : Int} {c : Connection} {d d' : Daemon n}
    (h : spreadReconnect ret c d = .ok d')
    (hCount : c.connects d.spreadLock = true ∨ d.numAllocated = n) : d'.Vacant := by
  obtain ⟨_, hReconnected, hSession⟩ := spreadReconnect_ok h
  refine ⟨hReconnected.up, ?_, fun j => ?_, fun j => ?_⟩
  · rcases hCount with hConnects | hAll
    · exact (spreadReconnect_boot h hConnects).numAllocated
    · rcases hSession with ⟨_, _, _, hZero⟩ | ⟨_, _, _, hLess, _⟩
      · exact hZero
      · rw [hLess, hAll, sub_self]
  · rw [hReconnected.allocationTable]
    rfl
  · rw [hReconnected.oldTable]
    rfl

theorem spreadReconnect_reset {ret : Int} {c : Connection} {d d' : Daemon n}
    (h : spreadReconnect ret c d = .ok d') : d'.Reset := fun hOnline =>
  spreadReconnect_vacant h (.inl ((spreadReconnect_online h).mp hOnline))

theorem multicast_reset {messType : Int} {words : List Word} {mc : Multicast} {d d' : Daemon n}
    (hRun : multicast messType words mc d = .ok d') (h : d.Reset ∨ mc.ret < 0) : d'.Reset := by
  rcases multicast_ok hRun with ⟨hSent, rfl⟩ | ⟨-, hAgain⟩
  · exact (h.resolve_right (not_lt.mpr hSent) :)
  · exact spreadReconnect_reset hAgain

theorem handleMembership_reset {mc : Multicast} {d d' : Daemon n}
    (hRun : handleMembership cfg mc d = .ok d') (hFailed : mc.ret < 0) : d'.Reset := by
  obtain ⟨-, -, d₁, hMess, rfl⟩ := handleMembership_multicast hRun
  exact (multicast_reset hMess (.inr hFailed) :)

/-- How the dispatch treats a message, by its kind. -/
theorem dispatch_ok {ret : Int} {a : Answers} {m : Message} {d d' : Daemon n}
    (hRun : dispatch svc cfg ret a (d.load m) = .ok d') :
    match m.kind svc with
    | .view => ∃ d₁, handleMembership cfg a.state ((d.load m).record (.handler .membership)) =
        .ok d₁ ∧ multicast arpcacheMessType a.arps a.arp (d₁.write a.arps) = .ok d'
    | .state => d' = handleState cfg ((d.load m).record (.handler .state))
    | .mature => d' = handleMature cfg ((d.load m).record (.handler .mature))
    | .balance => d' = handleBalance cfg ((d.load m).record (.handler .balance))
    | .other => d.Buffered d' := by
  unfold dispatch at hRun
  unfold Message.kind
  by_cases hMembership : svc.isMembershipMess m.serviceType = true
  · have hMembership' : svc.isMembershipMess (d.load m).serviceType = true := hMembership
    rw [if_pos hMembership'] at hRun
    rw [if_pos hMembership]
    by_cases hReg : svc.isRegMembMess m.serviceType = true
    · have hReg' : svc.isRegMembMess (d.load m).serviceType = true := hReg
      rw [if_pos hReg'] at hRun
      rw [if_pos hReg]
      exact Run.bind_ok.mp hRun
    · have hReg' : ¬ svc.isRegMembMess (d.load m).serviceType = true := hReg
      rw [if_neg hReg'] at hRun
      rw [if_neg hReg]
      cases hRun
      rfl
  · have hMembership' : ¬ svc.isMembershipMess (d.load m).serviceType = true := hMembership
    rw [if_neg hMembership'] at hRun
    rw [if_neg hMembership]
    split_ifs at hRun
    · cases hRun
    · cases hRun
      have hType : (d.load m).messType = m.messType := rfl
      unfold handleRegular
      simp only [hType]
      split_ifs <;> rfl
    · cases hRun

theorem Multicast.calls_eq_nil {mc : Multicast} {spreadLock : Bool} :
    mc.calls spreadLock = [] ↔ 0 ≤ mc.ret := by
  rw [calls]
  split_ifs with hFailed
  · simp [hFailed]
  · simpa using hFailed

theorem balance_reset {mc : Multicast} {d d' : Daemon n} (hRun : balance cfg mc d = .ok d')
    (hSends : d.myIndex = 0 ∧ d.state = .run ∧ (balanceMess cfg d).isSome)
    (hFailed : mc.ret < 0) : d'.Reset := by
  obtain ⟨_, m, d₁, hMess, rfl⟩ := (balance_ok hRun).resolve_left fun hQuiet => hQuiet.1 hSends
  have hReset : d₁.Reset := multicast_reset hMess (.inr hFailed)
  unfold balanceLeave
  split_ifs <;> exact (hReset :)

/-- `Balance` without a failed multicast leaves the daemon in RUN if it was there. -/
theorem balance_buffered {mc : Multicast} {d d' : Daemon n} (hRun : balance cfg mc d = .ok d')
    (hSent : d.myIndex = 0 ∧ d.state = .run ∧ (balanceMess cfg d).isSome → 0 ≤ mc.ret) :
    d.Buffered d' := by
  have hLeave (d₁ : Daemon n) (h : d.Buffered d₁) : d.Buffered (balanceLeave cfg d₁) := by
    rw [h]
    unfold balanceLeave
    split_ifs <;> rfl
  rcases balance_ok hRun with ⟨-, rfl | rfl⟩ | ⟨hSends, m, d₁, hMess, rfl⟩
  · rfl
  · exact hLeave d rfl
  · rw [multicast_sent (hSent hSends)] at hMess
    cases hMess
    apply hLeave
    have hState := hSends.2.1
    cases d
    cases hState
    rfl

theorem dispatchCalls_ne_nil {a : Answers} {d : Daemon n} (h : dispatchCalls svc a d ≠ []) :
    (svc.isMembershipMess d.serviceType = true ∧ svc.isRegMembMess d.serviceType = true) ∧
      (a.state.ret < 0 ∨ a.arp.ret < 0) := by
  unfold dispatchCalls at h
  split_ifs at h with hView
  · refine ⟨hView, ?_⟩
    by_contra hSent
    rw [not_or, not_lt, not_lt] at hSent
    exact h (by rw [Multicast.calls_eq_nil.mpr hSent.1, Multicast.calls_eq_nil.mpr hSent.2]; rfl)
  · exact absurd rfl h

/-- A view of which a multicast fails. -/
theorem view_reset {a : Answers} {d d₁ d' : Daemon n}
    (hView : handleMembership cfg a.state d = .ok d₁)
    (hShare : multicast arpcacheMessType a.arps a.arp (d₁.write a.arps) = .ok d')
    (hFailed : a.state.ret < 0 ∨ a.arp.ret < 0) : d'.Reset :=
  multicast_reset hShare (hFailed.imp_left fun hState => (handleMembership_reset hView hState :))

theorem kind_of_calls {a : Answers} {m : Message} {d : Daemon n}
    (h : dispatchCalls svc a (d.load m) ≠ []) :
    m.kind svc = .view ∧ (a.state.ret < 0 ∨ a.arp.ret < 0) := by
  obtain ⟨⟨hMembership, hReg⟩, hFailed⟩ := dispatchCalls_ne_nil h
  refine ⟨?_, hFailed⟩
  rw [Message.kind, if_pos (by exact hMembership), if_pos (by exact hReg)]

/-- A dispatch that calls `Spread_reconnect`. -/
theorem dispatch_reset {ret : Int} {a : Answers} {m : Message} {d d' : Daemon n}
    (hRun : dispatch svc cfg ret a (d.load m) = .ok d') (h : dispatchCalls svc a (d.load m) ≠ []) :
    d'.Reset := by
  obtain ⟨hKind, hFailed⟩ := kind_of_calls h
  have hView := dispatch_ok hRun
  rw [hKind] at hView
  obtain ⟨d₁, hEntered, hShare⟩ := hView
  exact view_reset hEntered hShare hFailed

/-- An event that calls `Spread_reconnect`, and handles nothing after that, ends with a new
connection or without one. -/
theorem step_reset {d d' : Daemon n} {e : Event} (hRun : step svc cfg d e = .ok d')
    (hCalls : e.calls svc cfg d ≠ []) (hOther : ∀ ret a, e ≠ .network (.failed ret) a) :
    d'.Reset := by
  have hFailed {mc : Multicast} {spreadLock : Bool} (h : mc.calls spreadLock ≠ []) : mc.ret < 0 :=
    not_le.mp fun hSent => h (Multicast.calls_eq_nil.mpr hSent)
  cases e with
  | network r a =>
      cases r with
      | message m => exact dispatch_reset hRun hCalls
      | failed ret => exact absurd rfl (hOther ret a)
  | turnMature mc => exact multicast_reset hRun (.inr (hFailed hCalls))
  | balance mc =>
      rw [Event.calls] at hCalls
      split_ifs at hCalls with hSends
      · exact balance_reset hRun hSends (hFailed hCalls)
      · exact absurd rfl hCalls
  | spreadReconnect c => exact spreadReconnect_reset hRun
  | sendLocalArpCache arps mc =>
      exact multicast_reset (d := (d.dequeue .sendLocalArpCache).write arps) hRun
        (.inr (hFailed hCalls))
  | command command c =>
      cases command with
      | failure =>
          change spreadReconnect (-8) c _ = _ at hRun
          exact spreadReconnect_reset hRun
      | success =>
          change spreadReconnect (-8) c _ = _ at hRun
          exact spreadReconnect_reset hRun
  | signal => cases hRun

/-- The last message that was received, as it still stands in the globals. -/
def Daemon.stale (d : Daemon n) : Message :=
  ⟨d.serviceType, d.sender, d.numGroups, d.messType, d.endianMismatch, d.mess⟩

theorem Daemon.load_stale (d : Daemon n) : d.load d.stale = d := by
  have hMess : d.mess ++ d.mess.drop d.mess.length = d.mess := by
    rw [List.drop_length, List.append_nil]
  unfold load write stale
  dsimp only
  rw [hMess]

theorem Reconnected.stale {d d' : Daemon n} (h : Reconnected d d') : d'.stale = d.stale := by
  rw [Daemon.stale, Daemon.stale, h.serviceType, h.sender, h.numGroups, h.messType,
    h.endianMismatch, h.mess]

theorem Reconnected.word {d d' : Daemon n} (h : Reconnected d d') : d'.word = d.word := by
  funext k
  rw [Daemon.word, Daemon.word, h.endianMismatch, h.mess]

/-- The messages of these kinds change nothing of a daemon that has just connected. -/
theorem stale_buffered {ret : Int} {a : Answers} {m : Message} {d d' : Daemon n}
    (hRun : dispatch svc cfg ret a (d.load m) = .ok d') (hState : d.state = .boot)
    (hKind : m.kind svc = .balance ∨ m.kind svc = .other) : d.Buffered d' := by
  have hDispatch := dispatch_ok hRun
  rcases hKind with hKind | hKind
  · rw [hKind] at hDispatch
    have hBoot : ((d.load m).record (.handler .balance)).state ≠ .run := by
      change d.state ≠ .run
      rw [hState]
      decide
    rw [handleBalance, if_pos hBoot] at hDispatch
    rw [hDispatch]
    rfl
  · rw [hKind] at hDispatch
    exact hDispatch

end Wackamole
