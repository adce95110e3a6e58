import Wackamole.FailedReceive
import Wackamole.Runs

/-! Whether a daemon that ends itself has brought its addresses down. -/
namespace Wackamole

variable {n : Nat} {cfg : Config n} {svc : ServiceTypes}

namespace Run

/-- If the daemon has ended through an exit, nothing is up any more. -/
def ExitsClean (r : Run n) : Prop :=
  ∀ halted, r = .error halted → halted.ending = .exit → halted.last.up = ∅

@[simp] theorem exitsClean_ok (d : Daemon n) : ExitsClean (.ok d) := by
  intro halted h
  cases h

@[simp] theorem exitsClean_exit (d : Daemon n) : ExitsClean (.error ⟨.exit, d⟩) ↔ d.up = ∅ := by
  constructor
  · exact fun h => h _ rfl rfl
  · rintro h _ ⟨⟩ _
    exact h

@[simp] theorem exitsClean_abort (d : Daemon n) : ExitsClean (.error ⟨.abort, d⟩) := by
  rintro _ ⟨⟩ hEnding
  cases hEnding

/-- A sequence of two calls. -/
theorem exitsClean_bind (r : Run n) (f : Daemon n → Run n) :
    ExitsClean (r >>= f) ↔ ExitsClean r ∧ ∀ d, r = .ok d → ExitsClean (f d) := by
  cases r with
  | error halted =>
      constructor
      · exact fun h => ⟨fun _ hEq => h _ (by cases hEq; rfl), fun _ hEq => by cases hEq⟩
      · exact fun h _ hEq => h.1 _ (by cases hEq; rfl)
  | ok d =>
      constructor
      · exact fun h => ⟨exitsClean_ok d, fun _ hEq => by cases hEq; exact h⟩
      · exact fun h => h.2 d rfl

theorem exitsClean_map (r : Run n) (f : Daemon n → Daemon n) :
    ExitsClean (r.map f) ↔ ExitsClean r := by
  cases r with
  | error halted =>
      constructor
      · exact fun h _ hEq => h _ (by cases hEq; rfl)
      · exact fun h _ hEq => h _ (by cases hEq; rfl)
  | ok d => exact ⟨fun _ => exitsClean_ok d, fun _ => exitsClean_ok (f d)⟩

end Run

open Run

theorem spreadReconnect_exitsClean {ret : Int} {c : Connection} {d : Daemon n} :
    ExitsClean (spreadReconnect ret c d) ↔ d.up = ∅ ∨ acceptedCode ret := by
  by_cases hCode : acceptedCode ret
  · obtain ⟨d', hEq, _⟩ := spreadReconnect_accepted hCode c d
    simp [hEq, hCode]
  · simp [spreadReconnect_rejected hCode, hCode]

theorem multicast_exitsClean {messType : Int} {words : List Word} {mc : Multicast}
    {d : Daemon n} :
    ExitsClean (multicast messType words mc d) ↔ d.up = ∅ ∨ mc.Survivable := by
  by_cases hSent : 0 ≤ mc.ret
  · simp [multicast_sent hSent, Multicast.Survivable, hSent]
  · rw [multicast_failed (not_le.mp hSent), spreadReconnect_exitsClean]
    simp [Multicast.Survivable, hSent, Daemon.record]

/-- What is up after a multicast: everything if it was sent, else nothing. -/
theorem multicast_up {messType : Int} {words : List Word} {mc : Multicast} {d d' : Daemon n}
    (h : multicast messType words mc d = .ok d') :
    d'.up = if 0 ≤ mc.ret then d.up else ∅ := by
  rcases multicast_ok h with ⟨hSent, rfl⟩ | ⟨hFailed, hAgain⟩
  · rw [if_pos hSent]
    rfl
  · rw [if_neg (not_le.mpr hFailed), (spreadReconnect_ok hAgain).2.1.up]

/-- `Handle_membership` and the share of the ARP cache after it. -/
theorem view_exitsClean (cfg : Config n) (a : Answers) (d : Daemon n) :
    ExitsClean (handleMembership cfg a.state d >>= sendLocalArpCache a.arps a.arp) ↔
      d.up = ∅ ∨ (d.sender = cfg.spreadGroup → Accountable cfg d →
        a.state.Survivable ∧ (0 ≤ a.state.ret → a.arp.Survivable)) := by
  by_cases hSender : d.sender = cfg.spreadGroup
  · by_cases hCount : Accountable cfg d
    · simp only [hSender, hCount, forall_const]
      rw [exitsClean_bind, handleMembership_accountable hSender hCount, exitsClean_map,
        multicast_exitsClean]
      have hUp : (announcing cfg d).up = d.up := rfl
      rw [hUp]
      constructor
      · rintro ⟨hState, hArp⟩
        by_cases hNone : d.up = ∅
        · exact .inl hNone
        · refine .inr ⟨hState.resolve_left hNone, fun hSent => ?_⟩
          rw [multicast_sent hSent] at hArp
          exact (multicast_exitsClean.mp (hArp _ rfl)).resolve_left hNone
      · intro h
        refine ⟨h.imp_right And.left, fun d' hOk => ?_⟩
        cases hMess : multicast stateMessType (stateMess cfg (enterView d)).words a.state
            (announcing cfg d) with
        | error halted =>
            rw [hMess] at hOk
            cases hOk
        | ok d₁ =>
            rw [hMess] at hOk
            cases hOk
            have hUp₁ := multicast_up hMess
            rw [hUp] at hUp₁
            apply multicast_exitsClean.mpr
            change d₁.up = ∅ ∨ _
            rw [hUp₁]
            by_cases hSent : 0 ≤ a.state.ret
            · rw [if_pos hSent]
              exact h.imp_right fun hAnswers => hAnswers.2 hSent
            · exact .inl (if_neg hSent)
    · simp [handleMembership_unaccountable hSender hCount, hCount, Bind.bind, Except.bind]
  · simp [handleMembership_stranger hSender, hSender, Bind.bind, Except.bind]

/-- The dispatch meets no answer of Spread on which the daemon exits without
`Clean_up`. -/
def TameDispatch (svc : ServiceTypes) (cfg : Config n) (a : Answers) (d : Daemon n) : Prop :=
  if svc.isMembershipMess d.serviceType then
    svc.isRegMembMess d.serviceType = true → d.sender = cfg.spreadGroup → Accountable cfg d →
      a.state.Survivable ∧ (0 ≤ a.state.ret → a.arp.Survivable)
  else svc.isRegularMess d.serviceType = true

theorem dispatch_exitsClean {ret : Int} {a : Answers} {d : Daemon n} :
    ExitsClean (dispatch svc cfg ret a d) ↔ d.up = ∅ ∨ TameDispatch svc cfg a d := by
  unfold dispatch TameDispatch
  split_ifs with hMembership hReg hRegular hOverruns
  · have hView := view_exitsClean cfg a (d.record (.handler .membership))
    simp only [hReg, forall_const]
    exact hView
  · simp [hReg]
  · simp [sigHandler, alarmExit, hRegular]
  · simp [hRegular]
  · simp [alarmExit, hRegular]

/-- No answer that Spread gives in one call of the event loop is one on which the daemon
exits without `Clean_up`: the codes that reach `Spread_reconnect` are accepted, and a
delivered message is a membership or a regular one. -/
def Event.Tame (svc : ServiceTypes) (cfg : Config n) (d : Daemon n) : Event → Prop
  | .network (.message m) a => TameDispatch svc cfg a (d.load m)
  | .network (.failed ret) _ => acceptedCode ret
  | .turnMature mc => mc.Survivable
  | .balance mc =>
    d.myIndex = 0 → d.state = .run → balanceMess cfg d ≠ none → mc.Survivable
  | .sendLocalArpCache _ mc => mc.Survivable
  | .spreadReconnect _ => True
  | .command _ _ => True
  | .signal => True

theorem balance_exitsClean {mc : Multicast} {d : Daemon n} :
    ExitsClean (balance cfg mc d) ↔ d.up = ∅ ∨
      (d.myIndex = 0 → d.state = .run → balanceMess cfg d ≠ none → mc.Survivable) := by
  unfold balance
  split_ifs with hIndex hState
  · simp [hIndex]
  · simp [hState]
  · rw [not_not] at hIndex hState
    cases hPlan : balanceMess cfg d with
    | none => simp
    | some m =>
        simp only [hIndex, hState, ne_eq, reduceCtorEq, not_false_eq_true, forall_const,
          exitsClean_bind, multicast_exitsClean]
        exact and_iff_left fun _ _ => exitsClean_ok _

/-- One call of the event loop. -/
theorem step_exitsClean {d : Daemon n} {e : Event} :
    ExitsClean (step svc cfg d e) ↔ d.up = ∅ ∨ e.Tame svc cfg d := by
  cases e with
  | network r a =>
      cases r with
      | message m => exact dispatch_exitsClean
      | failed ret =>
          simp only [step, handleNetwork, exitsClean_bind, spreadReconnect_exitsClean, Event.Tame]
          refine and_iff_left fun d' hOk => dispatch_exitsClean.mpr (.inl ?_)
          exact (spreadReconnect_ok hOk).2.1.up
  | turnMature mc => exact multicast_exitsClean
  | balance mc => exact balance_exitsClean
  | spreadReconnect c =>
      simp only [step, spreadReconnect_exitsClean, Event.Tame, or_true, iff_true]
      exact .inr (.inr (.inr rfl))
  | sendLocalArpCache arps mc => exact multicast_exitsClean
  | command command c =>
      simp only [step, setServiceState, spreadReconnect_exitsClean, Event.Tame, or_true, iff_true]
      exact .inr (.inl rfl)
  | signal => simp [step, sigHandler, alarmExit, Event.Tame]

theorem startUp_exitsClean (c : Connection) (arps : List Word) (mc : Multicast) :
    ExitsClean (startUp (n := n) c arps mc) := by
  have hCode : acceptedCode (-8) := .inl rfl
  simp only [startUp, exitsClean_bind]
  refine ⟨spreadReconnect_exitsClean.mpr (.inr hCode), fun d hOk => ?_⟩
  have hUp := (spreadReconnect_ok hOk).2.1.up
  exact ⟨multicast_exitsClean.mpr (.inl hUp), fun _ _ => exitsClean_ok _⟩

theorem handleEvents_exitsClean {es : List Event} {d : Daemon n} :
    ExitsClean (handleEvents svc cfg es d) ↔
      ∀ before e after, es = before ++ e :: after → ∀ d', handleEvents svc cfg before d = .ok d' →
        d'.up = ∅ ∨ e.Tame svc cfg d' := by
  induction es generalizing d with
  | nil =>
      refine ⟨fun _ before e after h => ?_, fun _ => exitsClean_ok d⟩
      simp at h
  | cons e es ih =>
      rw [handleEvents, List.foldlM_cons, exitsClean_bind, step_exitsClean, forall_event_cons]
      exact and_congr_right fun _ => forall₂_congr fun d₁ _ => ih

/-- A run from start-up never exits with an address up exactly when every event of it
finds no address up or is answered tamely. -/
theorem run_exitsClean (svc : ServiceTypes) (cfg : Config n) (c : Connection) (arps : List Word)
    (mc : Multicast) (es : List Event) :
    ExitsClean (startUp c arps mc >>= handleEvents svc cfg es) ↔
      ∀ before e after, es = before ++ e :: after →
        ∀ d, startUp c arps mc >>= handleEvents svc cfg before = .ok d →
          d.up = ∅ ∨ e.Tame svc cfg d := by
  rw [exitsClean_bind]
  cases hStart : startUp c arps mc with
  | error halted =>
      refine ⟨fun _ _ _ _ _ d h => (by cases h), fun _ => ⟨?_, fun d h => (by cases h)⟩⟩
      rw [← hStart]
      exact startUp_exitsClean c arps mc
  | ok d₀ =>
      rw [and_iff_right (exitsClean_ok d₀)]
      constructor
      · exact fun h before e after hEq d hBefore =>
          handleEvents_exitsClean.mp (h d₀ rfl) before e after hEq d hBefore
      · rintro h d ⟨⟩
        exact handleEvents_exitsClean.mpr h

/-- A daemon that is alone in its view turns mature, and then its receive fails with
`NET_ERROR_ON_SESSION`. -/
def loneDaemon (cfg : Config 1) : List Event :=
  let a : Answers := ⟨⟨true, 3, 0⟩, .success, [], .success⟩
  let mess := stateMess cfg { Daemon.initial 1 with gid := ⟨7#32, 8#32, 9#32⟩ }
  [.network (.message ⟨0x1000, "wack1", 1, 0, false, [7#32, 8#32, 9#32]⟩) a,
    .network (.message ⟨0x10, "#wack1#a", 1, stateMessType, false, mess.words⟩) a,
    .turnMature .success,
    .network (.message ⟨0x10, "#wack1#a", 1, maturingMessType, false, []⟩) a,
    .network (.failed (-18)) a]

theorem loneDaemon_exits_holding :
    let cfg : Config 1 := ⟨![10#32], [], 1#32, "wack1", 0, false, true⟩
    ¬ ExitsClean (startUp ⟨true, 3, 0⟩ [] .success >>=
      handleEvents spreadTypes cfg (loneDaemon cfg)) := by
  intro cfg hClean
  have hRun : Run.ends (startUp ⟨true, 3, 0⟩ [] .success >>=
      handleEvents spreadTypes cfg (loneDaemon cfg)) .exit (fun last => 0 ∈ last.up) = true := by
    decide +kernel
  obtain ⟨last, hEnd, hHolds⟩ := Run.ends_iff.mp hRun
  have hUp : 0 ∈ last.up := of_decide_eq_true hHolds
  rw [hClean _ hEnd rfl] at hUp
  cases hUp

end Wackamole
