import Wackamole.Frame
import Wackamole.Runs

/-! The retry that `handle_reconnect` queues. `Spread_reconnect` queues it whenever it
does not connect, and nothing takes it back when another call connects first. -/
namespace Wackamole

variable {n : Nat} {cfg : Config n} {svc : ServiceTypes}

/-- Whether there is a session, and whether a retry is queued. -/
structure Link where
  online : Bool
  retry : Bool
  deriving DecidableEq

namespace Link

/-- One call of `Spread_reconnect`, which connects or does not. -/
def attempt (l : Link) (connects : Bool) : Link :=
  if connects then ⟨true, l.retry⟩ else ⟨false, true⟩

/-- A session with a retry behind it. -/
def Leftover (l : Link) : Prop := l.online = true ∧ l.retry = true

theorem foldl_attempt_retry (calls : List Bool) (l : Link) :
    (calls.foldl attempt l).retry = (l.retry || calls.any (!·)) := by
  induction calls generalizing l with
  | nil => simp
  | cons connects calls ih =>
      rw [List.foldl_cons, ih, List.any_cons]
      cases connects <;> simp [attempt]

/-- If the last call connects, no retry was queued before the first one, and no earlier
call has failed. -/
def Orderly (retry : Bool) (calls : List Bool) : Prop :=
  ∀ before, calls = before ++ [true] → retry = false ∧ ∀ connects ∈ before, connects = true

theorem leftover_foldl_attempt {l : Link} {calls : List Bool} (h : ¬ l.Leftover) :
    ¬ (calls.foldl attempt l).Leftover ↔ Orderly l.retry calls := by
  induction calls using List.reverseRecOn with
  | nil => exact ⟨fun _ before hEq => by simp at hEq, fun _ => h⟩
  | append_singleton calls connects _ =>
      rw [List.foldl_append, List.foldl_cons, List.foldl_nil]
      cases connects with
      | false =>
          refine ⟨fun _ before hEq => ?_, fun _ hLeft => Bool.false_ne_true hLeft.1⟩
          have hLast := (List.append_inj' hEq rfl).2
          simp at hLast
      | true =>
          have hLeft : ¬ ((calls.foldl attempt l).attempt true).Leftover ↔
              (calls.foldl attempt l).retry = false := by
            simp [Leftover, attempt]
          rw [hLeft, foldl_attempt_retry, Bool.or_eq_false_iff, List.any_eq_false]
          constructor
          · rintro ⟨hRetry, hCalls⟩ before hEq
            obtain rfl := (List.append_inj' hEq rfl).1
            exact ⟨hRetry, fun connects hMem => by simpa using hCalls connects hMem⟩
          · intro hAll
            obtain ⟨hRetry, hCalls⟩ := hAll calls rfl
            exact ⟨hRetry, fun connects hMem => by simp [hCalls connects hMem]⟩

end Link

def Daemon.link (d : Daemon n) : Link :=
  ⟨decide (0 ≤ d.mbox), decide (.spreadReconnect ∈ d.events)⟩

theorem Daemon.link_congr {d d' : Daemon n} (hMbox : d'.mbox = d.mbox)
    (hRetry : .spreadReconnect ∈ d'.events ↔ .spreadReconnect ∈ d.events) : d'.link = d.link := by
  rw [link, link, hMbox, decide_eq_decide.mpr hRetry]

/-- The daemon is connected, and a queued retry will tear the session down. -/
def Daemon.Leftover (d : Daemon n) : Prop := 0 ≤ d.mbox ∧ .spreadReconnect ∈ d.events

instance (d : Daemon n) : Decidable d.Leftover := by unfold Daemon.Leftover; infer_instance

theorem Daemon.leftover_link {d : Daemon n} : d.link.Leftover ↔ d.Leftover := by
  simp [link, Link.Leftover, Leftover]

/-- `Spread_reconnect` comes to a session: it is not locked, and it connects and joins. -/
def Connection.connects (c : Connection) (spreadLock : Bool) : Bool :=
  !spreadLock && c.accepted && decide (0 ≤ c.join)

/-- The calls of `Spread_reconnect` that a multicast makes. -/
def Multicast.calls (mc : Multicast) (spreadLock : Bool) : List Bool :=
  if mc.ret < 0 then [mc.again.connects spreadLock] else []

/-- The calls of `Spread_reconnect` that the dispatch makes on a view. -/
def dispatchCalls (svc : ServiceTypes) (a : Answers) (d : Daemon n) : List Bool :=
  if svc.isMembershipMess d.serviceType ∧ svc.isRegMembMess d.serviceType then
    a.state.calls d.spreadLock ++ a.arp.calls d.spreadLock
  else []

/-- The calls of `Spread_reconnect` in one call of the event loop, in order: for each
whether it connects. -/
def Event.calls (svc : ServiceTypes) (cfg : Config n) (d : Daemon n) : Event → List Bool
  | .network (.message m) a => dispatchCalls svc a (d.load m)
  | .network (.failed _) a => a.again.connects d.spreadLock :: dispatchCalls svc a d
  | .turnMature mc => mc.calls d.spreadLock
  | .balance mc =>
    if d.myIndex = 0 ∧ d.state = .run ∧ (balanceMess cfg d).isSome then mc.calls d.spreadLock
    else []
  | .spreadReconnect c => [c.connects d.spreadLock]
  | .sendLocalArpCache _ mc => mc.calls d.spreadLock
  | .command .failure c => [c.connects true]
  | .command .success c => [c.connects false]
  | .signal => []

/-- A retry is queued that does not itself fire in this event. -/
def Event.Behind (d : Daemon n) : Event → Bool
  | .spreadReconnect _ => false
  | _ => decide (.spreadReconnect ∈ d.events)

/-- If the event ends with a session that it has set up, no retry was queued when it
began, but for the one that fires, and none of its earlier calls has failed. -/
def Event.Orderly (svc : ServiceTypes) (cfg : Config n) (d : Daemon n) (e : Event) : Prop :=
  Link.Orderly (e.Behind d) (e.calls svc cfg d)

theorem spreadReconnect_link {ret : Int} {c : Connection} {d d' : Daemon n}
    (h : spreadReconnect ret c d = .ok d') :
    d'.link = d.link.attempt (c.connects d.spreadLock) := by
  have hCode := (spreadReconnect_ok h).1
  obtain ⟨d₁, hEq, hLink⟩ : ∃ d₁, spreadReconnect ret c d = .ok d₁ ∧
      d₁.link = d.link.attempt (c.connects d.spreadLock) := by
    rw [spreadReconnect, if_neg (not_not.mpr hCode), cleanUp_eq]
    dsimp only
    split_ifs <;> refine ⟨_, rfl, ?_⟩ <;>
      simp_all [Daemon.link, Link.attempt, Connection.connects, handleReconnect, startSession,
        Daemon.queue]
  rw [hEq, Except.ok.injEq] at h
  exact h ▸ hLink

/-- What a multicast makes of the session and its retry. The lock stays as it is. -/
theorem multicast_link {messType : Int} {words : List Word} {mc : Multicast} {d d' : Daemon n}
    (h : multicast messType words mc d = .ok d') :
    d'.link = (mc.calls d.spreadLock).foldl Link.attempt d.link ∧
      d'.spreadLock = d.spreadLock := by
  rcases multicast_ok h with ⟨hSent, rfl⟩ | ⟨hFailed, hAgain⟩
  · rw [Multicast.calls, if_neg (not_lt.mpr hSent)]
    exact ⟨rfl, rfl⟩
  · rw [Multicast.calls, if_pos hFailed]
    exact ⟨(spreadReconnect_link hAgain :), (spreadReconnect_ok hAgain).2.1.spreadLock⟩

theorem handleMembership_link {mc : Multicast} {d d' : Daemon n}
    (h : handleMembership cfg mc d = .ok d') :
    d'.link = (mc.calls d.spreadLock).foldl Link.attempt d.link ∧
      d'.spreadLock = d.spreadLock := by
  obtain ⟨-, -, d₁, hMess, rfl⟩ := handleMembership_multicast h
  obtain ⟨hLink, hLock⟩ := multicast_link hMess
  have hLeft : ({ d₁ with state := .gather }.dequeue .balance).link = d₁.link :=
    Daemon.link_congr rfl (by simp [Daemon.dequeue])
  exact ⟨hLeft.trans hLink, hLock⟩

theorem link_untouched : Untouched (Daemon.link (n := n)) := fun _ =>
  { acquire := fun _ _ hd => hd
    release := fun _ _ hd => hd
    reup := fun _ _ hd => hd
    setAllocation := fun _ _ _ hd => hd
    setOld := fun _ _ _ hd => hd
    members := fun _ _ hd => hd
    automaton := fun _ _ _ _ _ hd => hd
    queueBalance := fun d hd => by
      rw [← hd]
      exact Daemon.link_congr rfl (by simp [Daemon.queue])
    dequeueMature := fun d hd => by
      rw [← hd]
      exact Daemon.link_congr rfl (by simp [Daemon.dequeue])
    mess := fun _ _ hd => hd }

theorem dispatch_link {ret : Int} {a : Answers} {d d' : Daemon n}
    (h : dispatch svc cfg ret a d = .ok d') :
    d'.link = (dispatchCalls svc a d).foldl Link.attempt d.link := by
  unfold dispatch at h
  unfold dispatchCalls
  by_cases hMembership : svc.isMembershipMess d.serviceType = true
  · rw [if_pos hMembership] at h
    by_cases hReg : svc.isRegMembMess d.serviceType = true
    · rw [if_pos hReg] at h
      rw [if_pos ⟨hMembership, hReg⟩, List.foldl_append]
      obtain ⟨d₁, hView, hShare⟩ := Run.bind_ok.mp h
      obtain ⟨hLink₁, hLock₁⟩ := handleMembership_link hView
      obtain ⟨hLink, _⟩ := multicast_link (d := d₁.write a.arps) hShare
      rw [hLink]
      change (a.arp.calls d₁.spreadLock).foldl Link.attempt d₁.link = _
      rw [hLink₁, hLock₁]
      rfl
    · rw [if_neg hReg] at h
      rw [if_neg fun hBoth => hReg hBoth.2]
      cases h
      rfl
  · rw [if_neg hMembership] at h
    rw [if_neg fun hBoth => hMembership hBoth.1]
    split_ifs at h
    · cases h
    · cases h
      exact link_untouched.handleRegular cfg (fun _ _ => rfl) d
    · cases h

theorem balance_link {mc : Multicast} {d d' : Daemon n} (h : balance cfg mc d = .ok d') :
    d'.link = (if d.myIndex = 0 ∧ d.state = .run ∧ (balanceMess cfg d).isSome then
      mc.calls d.spreadLock else []).foldl Link.attempt d.link := by
  have hLeave (d : Daemon n) (state : Automaton) :
      (balanceLeave cfg { d with state }).link = d.link := by
    unfold balanceLeave
    split_ifs
    · rfl
    · exact link_untouched.queueBalance _
  rcases balance_ok h with ⟨hQuiet, rfl | rfl⟩ | ⟨hSends, m, d₁, hMess, rfl⟩
  · rw [if_neg hQuiet]
    rfl
  · rw [if_neg hQuiet]
    exact hLeave d d.state
  · rw [if_pos hSends, hLeave]
    exact (multicast_link hMess).1

/-- The session and its retry when the calls of an event begin. -/
def Event.linkBefore (d : Daemon n) (e : Event) : Link := ⟨decide (0 ≤ d.mbox), e.Behind d⟩

/-- One call of the event loop. -/
theorem step_link {d d' : Daemon n} {e : Event} (h : step svc cfg d e = .ok d') :
    d'.link = (e.calls svc cfg d).foldl Link.attempt (e.linkBefore d) := by
  have hFired (t : Timer) (ht : t ≠ .spreadReconnect) : (d.dequeue t).link = d.link :=
    Daemon.link_congr rfl (by simp [Daemon.dequeue, ht.symm])
  cases e with
  | network r a =>
      cases r with
      | message m => exact dispatch_link h
      | failed ret =>
          rw [step, handleNetwork] at h
          obtain ⟨d₁, hAgain, hDispatch⟩ := Run.bind_ok.mp h
          have hReconnected := (spreadReconnect_ok hAgain).2.1
          have hCalls : dispatchCalls svc a d₁ = dispatchCalls svc a d := by
            rw [dispatchCalls, dispatchCalls, hReconnected.serviceType, hReconnected.spreadLock]
          rw [dispatch_link hDispatch, hCalls, spreadReconnect_link hAgain]
          rfl
  | turnMature mc =>
      rw [(multicast_link h).1, hFired _ (by decide)]
      rfl
  | balance mc =>
      rw [balance_link h, hFired _ (by decide)]
      rfl
  | spreadReconnect c =>
      have hBefore : (d.dequeue .spreadReconnect).link = (Event.spreadReconnect c).linkBefore d :=
        congrArg (Link.mk (decide (0 ≤ d.mbox))) (by simp [Daemon.dequeue, Event.Behind])
      rw [spreadReconnect_link h, hBefore]
      rfl
  | sendLocalArpCache arps mc =>
      rw [(multicast_link h).1]
      change (mc.calls d.spreadLock).foldl Link.attempt (d.dequeue .sendLocalArpCache).link = _
      rw [hFired _ (by decide)]
      rfl
  | command command c =>
      cases command with
      | failure =>
          have hLocked : (cleanUp { d with spreadLock := true, mbox := -1 }).spreadLock = true := by
            rw [cleanUp_eq]
          have hRun : spreadReconnect (-8) c (cleanUp { d with spreadLock := true, mbox := -1 }) =
              .ok d' := h
          rw [spreadReconnect_link hRun, hLocked]
          rfl
      | success =>
          have hRun : spreadReconnect (-8) c { d with spreadLock := false } = .ok d' := h
          rw [spreadReconnect_link hRun]
          rfl
  | signal => cases h

/-- An event that returns leaves no retry behind a session exactly when it is orderly. -/
theorem step_leftover_iff {d d' : Daemon n} {e : Event} (h : step svc cfg d e = .ok d')
    (hBefore : ¬ d.Leftover) : ¬ d'.Leftover ↔ e.Orderly svc cfg d := by
  have hLink : ¬ (e.linkBefore d).Leftover := by
    rintro ⟨hOnline, hRetry⟩
    refine hBefore ⟨of_decide_eq_true hOnline, ?_⟩
    cases e with
    | spreadReconnect c => cases hRetry
    | _ => exact of_decide_eq_true hRetry
  rw [← Daemon.leftover_link, step_link h]
  exact Link.leftover_foldl_attempt hLink

theorem startUp_link {c : Connection} {arps : List Word} {mc : Multicast} {d : Daemon n}
    (h : startUp c arps mc = .ok d) :
    d.link = (c.connects false :: mc.calls false).foldl Link.attempt ⟨false, false⟩ := by
  obtain ⟨d₁, d₂, hConnect, hShare, rfl⟩ := startUp_ok h
  have hLock : d₁.spreadLock = false := (spreadReconnect_ok hConnect).2.1.spreadLock
  have hQueued : (d₂.queue .sendLocalArpCache).link = d₂.link :=
    Daemon.link_congr rfl (by simp [Daemon.queue])
  rw [hQueued, (multicast_link hShare).1]
  change (mc.calls d₁.spreadLock).foldl Link.attempt d₁.link = _
  rw [hLock, spreadReconnect_link hConnect]
  rfl

/-- In a run from start-up no retry is ever left over behind a session exactly when the
start-up and every event that returns are orderly. -/
theorem run_leftover_iff (svc : ServiceTypes) (cfg : Config n) (c : Connection)
    (arps : List Word) (mc : Multicast) (es : List Event) :
    (∀ before after, es = before ++ after →
      ∀ d, startUp c arps mc >>= handleEvents svc cfg before = .ok d → ¬ d.Leftover) ↔
    (∀ d, startUp (n := n) c arps mc = .ok d →
      Link.Orderly false (c.connects false :: mc.calls false)) ∧
    ∀ before e after, es = before ++ e :: after →
      ∀ d d', startUp c arps mc >>= handleEvents svc cfg before = .ok d →
        step svc cfg d e = .ok d' → e.Orderly svc cfg d := by
  cases hStart : startUp (n := n) c arps mc with
  | error halted =>
      refine ⟨fun _ => ⟨fun _ h => (by cases h), fun _ _ _ _ _ _ h => (by cases h)⟩,
        fun _ _ _ _ _ h => (by cases h)⟩
  | ok d₀ =>
      have hFirst : ¬ d₀.Leftover ↔ Link.Orderly false (c.connects false :: mc.calls false) := by
        rw [← Daemon.leftover_link, startUp_link hStart]
        exact Link.leftover_foldl_attempt (l := ⟨false, false⟩) (fun h => Bool.false_ne_true h.1)
      constructor
      · intro h
        have hStart := h [] es rfl d₀ rfl
        exact ⟨fun _ _ => hFirst.mp hStart,
          (handleEvents_iff (fun _ _ _ => step_leftover_iff) hStart).mp h⟩
      · rintro ⟨hOrderly, hSteps⟩
        exact (handleEvents_iff (fun _ _ _ => step_leftover_iff)
          (hFirst.mpr (hOrderly d₀ rfl))).mpr hSteps

/-- Spread is down when the daemon starts. Then the operator lifts a simulated failure,
and the daemon connects while the first retry is still queued. -/
theorem lifted_leftover :
    let cfg : Config 1 := ⟨![10#32], [], 1#32, "wack1", 0, false, true⟩
    let down : Connection := ⟨false, 0, 0⟩
    ∃ d, startUp down [] ⟨-11, down⟩ >>=
        handleEvents spreadTypes cfg [.command .success ⟨true, 3, 0⟩] = .ok d ∧
      0 ≤ d.mbox ∧ Timer.spreadReconnect ∈ d.events := by
  intro cfg down
  have hRun : Run.returns (startUp down [] ⟨-11, down⟩ >>=
      handleEvents spreadTypes cfg [.command .success ⟨true, 3, 0⟩]) (fun d => d.Leftover) =
        true := by
    decide +kernel
  obtain ⟨d, hEnd, hLeft⟩ := Run.returns_iff.mp hRun
  exact ⟨d, hEnd, of_decide_eq_true hLeft⟩

end Wackamole
