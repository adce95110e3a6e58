import Wackamole.Accounting
import Wackamole.EventEffect

/-! Runs from start-up through any sequence of views. A ghost record goes with the daemon:
how it entered the view that it is in, and which STATE messages of the view it has handled.
With it, what the other members may send and what a view must not interrupt can be said
event by event. -/
namespace Wackamole

variable {n : Nat} {cfg : Config n} {svc : ServiceTypes}

/-- A daemon, how it entered its view, and the STATE messages of the view so far. -/
structure Session (n : Nat) where
  daemon : Daemon n
  start : Option (Daemon n)
  delivered : List StateMess

/-- The STATE message that `Handle_state` reads when this one is received. -/
def Daemon.stateOf (d : Daemon n) (m : Message) : StateMess := StateMess.read (d.load m).word

/-- After a failed receive the dispatch enters the last view once more. -/
def Event.Reenters (svc : ServiceTypes) (d : Daemon n) : Event → Prop
  | .network (.failed _) a => d.stale.kind svc = .view ∧ dispatchCalls svc a d = []
  | _ => False

instance (d : Daemon n) : (e : Event) → Decidable (e.Reenters svc d)
  | .network (.failed _) _ => inferInstanceAs (Decidable (_ ∧ _))
  | .network (.message _) _ => isFalse id
  | .turnMature _ => isFalse id
  | .balance _ => isFalse id
  | .spreadReconnect _ => isFalse id
  | .sendLocalArpCache _ _ => isFalse id
  | .command _ _ => isFalse id
  | .signal => isFalse id

theorem Event.not_reenters {d : Daemon n} {e : Event}
    (hOther : ∀ ret a, e ≠ .network (.failed ret) a) : ¬ e.Reenters svc d := by
  cases e with
  | network r a =>
      cases r with
      | message m => exact id
      | failed ret => exact absurd rfl (hOther ret a)
  | turnMature mc => exact id
  | balance mc => exact id
  | spreadReconnect c => exact id
  | sendLocalArpCache arps mc => exact id
  | command command c => exact id
  | signal => exact id

namespace Session

/-- The record after an event that has left the daemon `d'`. A call of `Spread_reconnect`
ends it, a view starts it, and a STATE message of the view is added to it. -/
def next (svc : ServiceTypes) (cfg : Config n) (s : Session n) (e : Event) (d' : Daemon n) :
    Session n :=
  if e.calls svc cfg s.daemon ≠ [] then
    if e.Reenters svc s.daemon then ⟨d', some d', []⟩ else ⟨d', none, []⟩
  else
    match e with
    | .network (.message m) _ =>
      match m.kind svc with
      | .view => ⟨d', some d', []⟩
      | .state =>
        if s.daemon.gid = (s.daemon.stateOf m).gid then
          ⟨d', s.start, s.delivered ++ [s.daemon.stateOf m]⟩
        else { s with daemon := d' }
      | _ => { s with daemon := d' }
    | _ => { s with daemon := d' }

/-- One call of the event loop, with the record. -/
def step (svc : ServiceTypes) (cfg : Config n) (s : Session n) (e : Event) :
    Except (Halted n) (Session n) :=
  (Wackamole.step svc cfg s.daemon e).map (s.next svc cfg e)

/-- `Legal` for a message of some kind, when the view was entered like this. -/
def LegalAs (cfg : Config n) (s : Session n) (m : Message) :
    Message.Kind → Option (Daemon n) → Prop
  | .view, _ => m.messType.toNat < m.numGroups
  | .other, _ => True
  | .state, some d₀ =>
    s.daemon.gid = (s.daemon.stateOf m).gid → Heard cfg d₀ (s.delivered ++ [s.daemon.stateOf m])
  | .mature, some _ => True
  | .balance, some _ => True
  | _, none => False

/-- What Spread and the other members see to. Messages come over a connection, a view
before all others, and the member is in it, also when it is handled once more. Its STATE
messages are from distinct members, each with the shape that `Send_state_message` gives it,
and the own one is what was sent. -/
def Legal (svc : ServiceTypes) (cfg : Config n) (s : Session n) : Event → Prop
  | .network (.message m) _ => 0 ≤ s.daemon.mbox ∧ s.LegalAs cfg m (m.kind svc) s.start
  | .network (.failed _) _ =>
    s.daemon.stale.kind svc = .view → s.daemon.messType.toNat < s.daemon.numGroups
  | _ => True

/-- `Undisturbed` for a message of some kind, when the view was entered like this. -/
def UndisturbedAs (cfg : Config n) (s : Session n) (m : Message) :
    Message.Kind → Option (Daemon n) → Prop
  | .view, some d₀ =>
    s.daemon.state ≠ .run →
      Kept cfg d₀ s.delivered ∧ ∀ j, ¬ Premature cfg s.delivered s.daemon j
  | .state, some d₀ =>
    s.daemon.gid = (s.daemon.stateOf m).gid → s.delivered.length + 1 = d₀.numMembers →
      Kept cfg d₀ (s.delivered ++ [s.daemon.stateOf m])
  | .balance, some _ =>
    s.daemon.state = .run → cfg.needsForceReup = true ∨
      NoSelfMove cfg s.daemon.allocationTable (BalanceMess.read (s.daemon.load m).word)
  | _, _ => True

/-- `Undisturbed` for a failed receive, by the kind of the message that is handled once
more. A view without a connection meets the counter as `Clean_up` has left it. -/
def StaleAs (s : Session n) (connects : Bool) : Message.Kind → Prop
  | .view => connects = true ∨ s.daemon.numAllocated = n
  | .state => connects = true → s.daemon.gid ≠ (StateMess.read s.daemon.word).gid
  | .mature => connects = false
  | .balance => True
  | .other => True

/-- No view interrupts a gather that has stranded the member or in which `force_reup` was
early, and no gather ends so; no BALANCE message has a self-move, unless the build repairs
it; and what a failed receive handles once more does not disturb the new connection. -/
def Undisturbed (svc : ServiceTypes) (cfg : Config n) (s : Session n) : Event → Prop
  | .network (.message m) _ => s.UndisturbedAs cfg m (m.kind svc) s.start
  | .network (.failed _) a =>
    s.StaleAs (a.again.connects s.daemon.spreadLock) (s.daemon.stale.kind svc)
  | _ => True

/-- A property of the sessions and events of a run. -/
def Throughout (svc : ServiceTypes) (cfg : Config n) (P : Session n → Event → Prop) :
    List Event → Session n → Prop
  | [], _ => True
  | e :: es, s =>
    P s e ∧
      match s.step svc cfg e with
      | .ok s' => Throughout svc cfg P es s'
      | .error _ => True

end Session

/-- If the dispatch calls `Handle_membership` and that goes on to `Send_state_message`, the
member is accounted for. -/
def DispatchAccounts (svc : ServiceTypes) (cfg : Config n) (d : Daemon n) : Prop :=
  svc.isMembershipMess d.serviceType = true → svc.isRegMembMess d.serviceType = true →
    d.sender = cfg.spreadGroup → Accounted cfg d

/-- Every call of `Send_state_message` in the event finds the member accounted for. -/
def Event.Accounts (svc : ServiceTypes) (cfg : Config n) (d : Daemon n) : Event → Prop
  | .network (.message m) _ => DispatchAccounts svc cfg (d.load m)
  | .network (.failed ret) a =>
    ∀ d', Wackamole.spreadReconnect ret a.again d = .ok d' → DispatchAccounts svc cfg d'
  | _ => True

theorem InView.buffered {d₀ d d' : Daemon n} {ms : List StateMess} (h : InView cfg d₀ ms d)
    (hSame : d.Buffered d') : InView cfg d₀ ms d' := by
  rw [hSame]
  exact h.withBuffer _ _ _ _ _ _ _ _

/-- What `Handle_state` has corrected in the buffer is nothing that it looks at later. -/
theorem handleState_load (cfg : Config n) (d : Daemon n) (m : Message) :
    ∃ d₁, d.Buffered d₁ ∧ Wackamole.handleState cfg ((d.load m).record (.handler .state)) =
      handleStateMess cfg (d.stateOf m) d₁ :=
  ⟨_, d.flipFront_buffered m .state (if d.gid = (d.stateOf m).gid then (d.stateOf m).size else 7),
    rfl⟩

/-- `Handle_state` on the STATE message of another view. -/
theorem handleState_buffered {d : Daemon n} {m : Message} (hGid : d.gid ≠ (d.stateOf m).gid) :
    d.Buffered (handleState cfg ((d.load m).record (.handler .state))) := by
  obtain ⟨d₁, hSame, hHandled⟩ := handleState_load cfg d m
  have hGid₁ : d₁.gid = d.gid := by rw [hSame]
  rw [hHandled, handleStateMess, if_neg (hGid₁ ▸ hGid)]
  exact hSame

/-- `Handle_state` on the message buffer. -/
theorem InView.handleState (hVip : Function.Injective cfg.pseudoIf) (hMe : cfg.realIf ≠ 0#32)
    {d₀ d : Daemon n} {ms : List StateMess} {m : Message} (hEntered : Entered cfg d₀)
    (hHeard : Heard cfg d₀ (ms ++ [d.stateOf m])) (h : InView cfg d₀ ms d)
    (hGid : d.gid = (d.stateOf m).gid)
    (hKept : ms.length + 1 = d₀.numMembers → Kept cfg d₀ (ms ++ [d.stateOf m])) :
    InView cfg d₀ (ms ++ [d.stateOf m])
      (handleState cfg ((d.load m).record (.handler .state))) := by
  obtain ⟨d₁, hSame, hHandled⟩ := handleState_load cfg d m
  have hGid₁ : d₁.gid = d.gid := by rw [hSame]
  rw [hHandled]
  exact (h.buffered hSame).handleStateMess hVip hMe hEntered hHeard (hGid₁.trans hGid) hKept

/-- A daemon that owns nothing claims nothing. -/
theorem Daemon.Vacant.accounted (hMe : cfg.realIf ≠ 0#32) {d : Daemon n} (h : d.Vacant) :
    Accounted cfg d := by
  obtain ⟨hUp, hCount, hAllocation, hOld⟩ := h
  refine accounted_of_iff ?_ fun j => ?_
  · rw [hUp, hCount]
    rfl
  · have hOwner : ((enterView d).oldTable j).realIf = 0#32 := by
      unfold enterView
      dsimp only
      split_ifs
      · exact hAllocation j
      · exact hOld j
    rw [hOwner, hUp]
    exact iff_of_false hMe.symm (Finset.notMem_empty j)

/-- `Handle_balance` on the message buffer. -/
theorem InView.handleBalance (hVip : Function.Injective cfg.pseudoIf) {d₀ d : Daemon n}
    {ms : List StateMess} (m : Message) (h : InView cfg d₀ ms d)
    (hFresh : d.state = .run → cfg.needsForceReup = true ∨
      NoSelfMove cfg d.allocationTable (BalanceMess.read (d.load m).word)) :
    InView cfg d₀ ms (handleBalance cfg ((d.load m).record (.handler .balance))) := by
  unfold Wackamole.handleBalance
  split_ifs
  · exact h.buffered rfl
  · have hFlipped := d.flipFront_buffered m .balance
      (1 + 2 * (BalanceMess.read (d.load m).word).length)
    have hRead := h.buffered hFlipped
    refine hRead.handleBalanceMoves hVip fun hState => ?_
    rw [hFlipped] at hState ⊢
    exact hFresh hState

namespace Session

/-- While there is a connection, the daemon has nothing before its first view, and is
somewhere in its view after that. -/
def Inv (cfg : Config n) (s : Session n) : Prop :=
  0 ≤ s.daemon.mbox →
    match s.start with
    | none => s.daemon.Vacant
    | some d₀ =>
      Entered cfg d₀ ∧ Heard cfg d₀ s.delivered ∧ InView cfg d₀ s.delivered s.daemon

variable {s : Session n}

theorem Inv.buffered (h : s.Inv cfg) {d' : Daemon n} (hSame : s.daemon.Buffered d') :
    Inv cfg { s with daemon := d' } := by
  obtain ⟨d, start, delivered⟩ := s
  rw [hSame]
  intro hOnline
  have hBefore := h hOnline
  cases start with
  | none => exact hBefore
  | some d₀ =>
      exact ⟨hBefore.1, hBefore.2.1, hBefore.2.2.withBuffer _ _ _ _ _ _ _ _⟩

/-- A view finds the member accounted for. -/
theorem Inv.accounted (hVip : Function.Injective cfg.pseudoIf) (hMe : cfg.realIf ≠ 0#32)
    (h : s.Inv cfg) {m : Message} {a : Answers} (hKind : m.kind svc = .view)
    (hLegal : s.Legal svc cfg (.network (.message m) a))
    (hUndisturbed : s.Undisturbed svc cfg (.network (.message m) a)) :
    Accounted cfg (s.daemon.load m) ∧
      ((s.daemon.load m).maturity = false → (s.daemon.load m).up = ∅) := by
  obtain ⟨d, start, delivered⟩ := s
  have hNow := h hLegal.1
  cases start with
  | none =>
      have hVacant : (d.load m).Vacant := hNow
      exact ⟨hVacant.accounted hMe, fun _ => hVacant.1⟩
  | some d₀ =>
      obtain ⟨hEntered, hHeard, hInView⟩ := hNow
      simp only [Undisturbed, hKind, UndisturbedAs] at hUndisturbed
      have hLoaded : InView cfg d₀ delivered (d.load m) := hInView.buffered rfl
      exact hLoaded.accounted hVip hMe hEntered hHeard hUndisturbed

variable (hVip : Function.Injective cfg.pseudoIf) (hMe : cfg.realIf ≠ 0#32)

include hVip hMe in
/-- A view that does not lead to a reconnect. -/
theorem Inv.view (h : s.Inv cfg) {m : Message} {a : Answers} (hKind : m.kind svc = .view)
    (hLegal : s.Legal svc cfg (.network (.message m) a))
    (hUndisturbed : s.Undisturbed svc cfg (.network (.message m) a)) {d₁ d' : Daemon n}
    (hView : handleMembership cfg a.state ((s.daemon.load m).record (.handler .membership)) =
      .ok d₁)
    (hShare : multicast arpcacheMessType a.arps a.arp (d₁.write a.arps) = .ok d')
    (hState : 0 ≤ a.state.ret) (hArp : 0 ≤ a.arp.ret) : Inv cfg ⟨d', some d', []⟩ := by
  obtain ⟨hAccounted, hImmature⟩ := h.accounted hVip hMe hKind hLegal hUndisturbed
  have hIndex : m.messType.toNat < m.numGroups := by
    have hLegal' := hLegal.2
    simpa only [hKind, LegalAs] using hLegal'
  obtain ⟨hSender, -⟩ := handleMembership_multicast hView
  have hRecorded : Accounted cfg ((s.daemon.load m).record (.handler .membership)) := hAccounted
  rw [handleMembership_of_sent (by exact hSender) hState hRecorded.1] at hView
  rw [multicast_sent hArp] at hShare
  cases hView
  cases hShare
  have hEntered := (hRecorded.entered a.state.ret hIndex hImmature).share a.arps
    (.multicast arpcacheMessType a.arps a.arp.ret)
  exact fun _ => ⟨hEntered, heard_nil _ _, hEntered.inView⟩

include hVip hMe in
/-- A message other than a view. -/
theorem Inv.message (h : s.Inv cfg) {m : Message} {a : Answers} (hKind : m.kind svc ≠ .view)
    (hLegal : s.Legal svc cfg (.network (.message m) a))
    (hUndisturbed : s.Undisturbed svc cfg (.network (.message m) a)) {d' : Daemon n}
    {ret : Int} (hRun : dispatch svc cfg ret a (s.daemon.load m) = .ok d')
    (hCalls : Event.calls svc cfg s.daemon (.network (.message m) a) = []) :
    (s.next svc cfg (.network (.message m) a) d').Inv cfg := by
  have hDispatch := dispatch_ok hRun
  have hNow := h hLegal.1
  have hBefore := h
  obtain ⟨d, start, delivered⟩ := s
  obtain ⟨_, hLegal⟩ := hLegal
  rw [next, if_neg (not_not.mpr hCalls)]
  dsimp only at *
  cases hm : m.kind svc with
  | view => exact absurd hm hKind
  | other =>
      simp only [hm] at hDispatch ⊢
      exact hBefore.buffered hDispatch
  | state =>
      simp only [Undisturbed, hm] at hDispatch hLegal hUndisturbed ⊢
      cases start with
      | none => cases hLegal
      | some d₀ =>
          obtain ⟨hEntered, hHeard, hInView⟩ := hNow
          rw [hDispatch]
          by_cases hGid : d.gid = (d.stateOf m).gid
          · rw [if_pos hGid]
            exact fun _ => ⟨hEntered, hLegal hGid, hInView.handleState hVip hMe hEntered
              (hLegal hGid) hGid (hUndisturbed hGid)⟩
          · rw [if_neg hGid]
            exact hBefore.buffered (handleState_buffered hGid)
  | mature =>
      simp only [hm] at hDispatch hLegal ⊢
      cases start with
      | none => cases hLegal
      | some d₀ =>
          obtain ⟨hEntered, hHeard, hInView⟩ := hNow
          have hRead : InView cfg d₀ delivered ((d.load m).record (.handler .mature)) :=
            hInView.buffered rfl
          rw [hDispatch]
          exact fun _ => ⟨hEntered, hHeard, hRead.handleMature⟩
  | balance =>
      simp only [Undisturbed, hm] at hDispatch hLegal hUndisturbed ⊢
      cases start with
      | none => cases hLegal
      | some d₀ =>
          obtain ⟨hEntered, hHeard, hInView⟩ := hNow
          rw [hDispatch]
          exact fun _ => ⟨hEntered, hHeard, hInView.handleBalance hVip m hUndisturbed⟩

theorem next_daemon (s : Session n) (e : Event) (d' : Daemon n) :
    (s.next svc cfg e d').daemon = d' := by
  unfold next
  repeat' split
  all_goals rfl

theorem next_of_calls {e : Event} (hCalls : e.calls svc cfg s.daemon ≠ [])
    (hOnce : ¬ e.Reenters svc s.daemon) (d' : Daemon n) :
    s.next svc cfg e d' = ⟨d', none, []⟩ := by
  unfold next
  rw [if_pos hCalls, if_neg hOnce]

theorem next_of_failed {ret : Int} {a : Answers} (d' : Daemon n) :
    s.next svc cfg (.network (.failed ret) a) d' =
      if Event.Reenters svc s.daemon (.network (.failed ret) a) then ⟨d', some d', []⟩
      else ⟨d', none, []⟩ := by
  unfold next
  exact if_pos (List.cons_ne_nil _ _)

theorem next_of_quiet {e : Event} (hCalls : e.calls svc cfg s.daemon = [])
    (hOther : ∀ m a, e ≠ .network (.message m) a) (d' : Daemon n) :
    s.next svc cfg e d' = { s with daemon := d' } := by
  unfold next
  rw [if_neg (not_not.mpr hCalls)]
  split
  · exact absurd rfl (hOther _ _)
  · rfl

theorem next_of_view {m : Message} {a : Answers} (hKind : m.kind svc = .view)
    (hCalls : Event.calls svc cfg s.daemon (.network (.message m) a) = []) (d' : Daemon n) :
    s.next svc cfg (.network (.message m) a) d' = ⟨d', some d', []⟩ := by
  rw [next, if_neg (not_not.mpr hCalls)]
  simp only [hKind]

/-- An answered view is one whose two multicasts are sent. -/
theorem sent_of_view {d : Daemon n} {m : Message} {a : Answers} (hKind : m.kind svc = .view)
    (hCalls : dispatchCalls svc a (d.load m) = []) :
    0 ≤ a.state.ret ∧ 0 ≤ a.arp.ret := by
  have hView : svc.isMembershipMess m.serviceType = true ∧
      svc.isRegMembMess m.serviceType = true := by
    unfold Message.kind at hKind
    split_ifs at hKind with hMembership hReg
    exact ⟨hMembership, hReg⟩
  rwa [dispatchCalls, if_pos (by exact hView), List.append_eq_nil_iff, Multicast.calls_eq_nil,
    Multicast.calls_eq_nil] at hCalls

theorem step_ok {e : Event} {s' : Session n} (hRun : s.step svc cfg e = .ok s') :
    ∃ d', Wackamole.step svc cfg s.daemon e = .ok d' ∧ s' = s.next svc cfg e d' := by
  unfold step at hRun
  cases hStep : Wackamole.step svc cfg s.daemon e with
  | error halted =>
      rw [hStep] at hRun
      cases hRun
  | ok d' =>
      rw [hStep] at hRun
      cases hRun
      exact ⟨d', rfl, rfl⟩

theorem staleAs_reconnected {connects : Bool} {d₁ : Daemon n}
    (hReconnected : Reconnected s.daemon d₁) (hKind : d₁.stale.kind svc ≠ .view)
    (hStale : s.StaleAs connects (s.daemon.stale.kind svc)) :
    StaleAs ⟨d₁, none, []⟩ connects (d₁.stale.kind svc) := by
  rw [hReconnected.stale] at hKind ⊢
  cases hm : s.daemon.stale.kind svc with
  | view => exact absurd hm hKind
  | state =>
      rw [hm] at hStale
      intro hConnects
      dsimp only
      rw [hReconnected.gid, hReconnected.word]
      exact hStale hConnects
  | mature =>
      rw [hm] at hStale
      exact hStale
  | balance => trivial
  | other => trivial

/-- What a new connection handles once more, unless it is a view. -/
theorem stale_quiet {ret : Int} {a : Answers} {d₁ d' : Daemon n} (hState : d₁.state = .boot)
    (hKind : d₁.stale.kind svc ≠ .view)
    (hStale : StaleAs ⟨d₁, none, []⟩ true (d₁.stale.kind svc))
    (hDispatch : dispatch svc cfg ret a (d₁.load d₁.stale) = .ok d') : d₁.Buffered d' := by
  have hDispatched := dispatch_ok hDispatch
  cases hm : d₁.stale.kind svc with
  | view => exact absurd hm hKind
  | state =>
      rw [hm] at hStale hDispatched
      have hGid : d₁.gid ≠ (d₁.stateOf d₁.stale).gid := by
        rw [Daemon.stateOf, d₁.load_stale]
        exact hStale rfl
      rw [hDispatched]
      exact handleState_buffered hGid
  | mature =>
      rw [hm] at hStale
      cases hStale
  | balance => exact stale_buffered hDispatch hState (.inl hm)
  | other => exact stale_buffered hDispatch hState (.inr hm)

include hVip hMe in
/-- A failed receive, and the dispatch after it. -/
theorem Inv.failed {ret : Int} {a : Answers}
    (hLegal : s.Legal svc cfg (.network (.failed ret) a))
    (hUndisturbed : s.Undisturbed svc cfg (.network (.failed ret) a)) {d' : Daemon n}
    (hStep : Wackamole.step svc cfg s.daemon (.network (.failed ret) a) = .ok d') :
    (s.next svc cfg (.network (.failed ret) a) d').Inv cfg := by
  obtain ⟨d, start, delivered⟩ := s
  dsimp only at hStep
  obtain ⟨d₁, hAgain, hDispatch⟩ := Run.bind_ok.mp hStep
  have hReconnected := (spreadReconnect_ok hAgain).2.1
  have hReset : Inv cfg ⟨d₁, none, []⟩ := spreadReconnect_reset hAgain
  have hCallsSame : dispatchCalls svc a d₁ = dispatchCalls svc a d := by
    rw [dispatchCalls, dispatchCalls, hReconnected.serviceType, hReconnected.spreadLock]
  have hReenters : Event.Reenters svc d (.network (.failed ret) a) ↔
      d₁.stale.kind svc = .view ∧ dispatchCalls svc a (d₁.load d₁.stale) = [] := by
    rw [d₁.load_stale, hCallsSame, hReconnected.stale]
    rfl
  rw [← d₁.load_stale] at hDispatch
  rw [next_of_failed]
  by_cases hCalls : dispatchCalls svc a (d₁.load d₁.stale) = []
  · have hLink := dispatch_link hDispatch
    rw [hCalls, d₁.load_stale] at hLink
    have hOnline : 0 ≤ d'.mbox ↔ 0 ≤ d₁.mbox := decide_eq_decide.mp (congrArg Link.online hLink)
    by_cases hConnects : a.again.connects d.spreadLock = true
    · by_cases hView : d₁.stale.kind svc = .view
      · have hIndex : d₁.messType.toNat < d₁.numGroups := by
          rw [hReconnected.messType, hReconnected.numGroups]
          exact hLegal (hReconnected.stale ▸ hView)
        have hDispatched := dispatch_ok hDispatch
        rw [hView] at hDispatched
        obtain ⟨d₂, hEntered, hShare⟩ := hDispatched
        obtain ⟨hState, hArp⟩ := sent_of_view hView hCalls
        rw [if_pos (hReenters.mpr ⟨hView, hCalls⟩)]
        exact hReset.view hVip hMe hView
          ⟨(spreadReconnect_online hAgain).mpr hConnects, by simpa only [hView, LegalAs]⟩
          (by simp only [Undisturbed, hView, UndisturbedAs]) hEntered hShare hState hArp
      · rw [if_neg fun hOnce => hView (hReenters.mp hOnce).1]
        have hStale : StaleAs ⟨d₁, none, []⟩ true (d₁.stale.kind svc) := by
          rw [Undisturbed, hConnects] at hUndisturbed
          exact staleAs_reconnected hReconnected hView hUndisturbed
        exact hReset.buffered (stale_quiet (spreadReconnect_boot hAgain hConnects).state hView
          hStale hDispatch)
    · have hOffline : ¬ 0 ≤ d'.mbox := fun hNow =>
        hConnects ((spreadReconnect_online hAgain).mp (hOnline.mp hNow))
      split_ifs <;> exact fun hNow => absurd hNow hOffline
  · rw [if_neg fun hOnce => hCalls (hReenters.mp hOnce).2]
    exact dispatch_reset hDispatch hCalls

include hVip hMe in
/-- One call of the event loop. -/
theorem Inv.step (h : s.Inv cfg) {e : Event} (hLegal : s.Legal svc cfg e)
    (hUndisturbed : s.Undisturbed svc cfg e) {s' : Session n}
    (hRun : s.step svc cfg e = .ok s') : s'.Inv cfg := by
  obtain ⟨d', hStep, rfl⟩ := step_ok hRun
  by_cases hReceived : ∃ ret a, e = .network (.failed ret) a
  · obtain ⟨ret, a, rfl⟩ := hReceived
    exact Inv.failed hVip hMe hLegal hUndisturbed hStep
  have hOther (ret : Int) (a : Answers) : e ≠ .network (.failed ret) a := fun hEq =>
    hReceived ⟨ret, a, hEq⟩
  by_cases hCalls : e.calls svc cfg s.daemon = []
  · cases e with
    | network r a =>
        cases r with
        | message m =>
            by_cases hKind : m.kind svc = .view
            · have hDispatch := dispatch_ok (m := m) (d := s.daemon) hStep
              rw [hKind] at hDispatch
              obtain ⟨d₁, hView, hShare⟩ := hDispatch
              obtain ⟨hState, hArp⟩ := sent_of_view hKind hCalls
              rw [next_of_view hKind hCalls]
              exact h.view hVip hMe hKind hLegal hUndisturbed hView hShare hState hArp
            · exact h.message hVip hMe hKind hLegal hUndisturbed hStep hCalls
        | failed ret => cases hCalls
    | turnMature mc =>
        rw [next_of_quiet hCalls (by simp)]
        rw [Wackamole.step, turnMature, multicast_sent (Multicast.calls_eq_nil.mp hCalls)] at hStep
        cases hStep
        exact h.buffered rfl
    | balance mc =>
        rw [next_of_quiet hCalls (by simp)]
        have hSent (hSends : s.daemon.myIndex = 0 ∧ s.daemon.state = .run ∧
            (balanceMess cfg s.daemon).isSome) : 0 ≤ mc.ret := by
          rw [Event.calls, if_pos hSends] at hCalls
          exact Multicast.calls_eq_nil.mp hCalls
        have hFired : Inv cfg { s with daemon := s.daemon.dequeue .balance } := h.buffered rfl
        exact hFired.buffered (balance_buffered (d := s.daemon.dequeue .balance) hStep hSent)
    | spreadReconnect c => cases hCalls
    | sendLocalArpCache arps mc =>
        rw [next_of_quiet hCalls (by simp)]
        rw [Wackamole.step, sendLocalArpCache, multicast_sent (Multicast.calls_eq_nil.mp hCalls)]
          at hStep
        cases hStep
        exact h.buffered rfl
    | command command c => cases command <;> cases hCalls
    | signal => cases hStep
  · have hReset : d'.Reset := step_reset hStep hCalls hOther
    rw [next_of_calls hCalls (Event.not_reenters hOther)]
    exact hReset

include hVip hMe in
/-- The claim of a member at a view is what it has up. -/
theorem Inv.accounts (h : s.Inv cfg) {e : Event} (hLegal : s.Legal svc cfg e)
    (hUndisturbed : s.Undisturbed svc cfg e) : e.Accounts svc cfg s.daemon := by
  cases e with
  | network r a =>
      cases r with
      | message m =>
          intro hMembership hReg _
          have hKind : m.kind svc = .view := by
            rw [Message.kind, if_pos (by exact hMembership), if_pos (by exact hReg)]
          exact (h.accounted hVip hMe hKind hLegal hUndisturbed).1
      | failed ret =>
          intro d' hAgain hMembership hReg _
          have hReconnected := (spreadReconnect_ok hAgain).2.1
          rw [hReconnected.serviceType] at hMembership hReg
          have hKind : s.daemon.stale.kind svc = .view := by
            rw [Message.kind, if_pos (by exact hMembership), if_pos (by exact hReg)]
          rw [Undisturbed, hKind] at hUndisturbed
          exact (spreadReconnect_vacant hAgain hUndisturbed).accounted hMe
  | turnMature mc => trivial
  | balance mc => trivial
  | spreadReconnect c => trivial
  | sendLocalArpCache arps mc => trivial
  | command command c => trivial
  | signal => trivial

include hVip hMe in
theorem Inv.throughout {es : List Event} (h : s.Inv cfg)
    (hAll : Throughout svc cfg (fun s e => s.Legal svc cfg e ∧ s.Undisturbed svc cfg e) es s) :
    Throughout svc cfg (fun s e => e.Accounts svc cfg s.daemon) es s := by
  induction es generalizing s with
  | nil => trivial
  | cons e es ih =>
      obtain ⟨⟨hLegal, hUndisturbed⟩, hRest⟩ := hAll
      refine ⟨h.accounts hVip hMe hLegal hUndisturbed, ?_⟩
      cases hRun : s.step svc cfg e with
      | error halted => trivial
      | ok s' =>
          rw [hRun] at hRest
          exact ih (h.step hVip hMe hLegal hUndisturbed hRun) hRest

/-- A property of the daemon alone, said of the plain runs of the event loop. -/
theorem throughout_iff {P : Daemon n → Event → Prop} {es : List Event} :
    Throughout svc cfg (fun s e => P s.daemon e) es s ↔
      ∀ before e after, es = before ++ e :: after →
        ∀ d, handleEvents svc cfg before s.daemon = .ok d → P d e := by
  induction es generalizing s with
  | nil => exact ⟨fun _ before e after hEq => by simp at hEq, fun _ => trivial⟩
  | cons e es ih =>
      rw [forall_event_cons, Throughout]
      refine and_congr_right fun _ => ?_
      cases hRun : s.step svc cfg e with
      | error halted =>
          refine iff_of_true trivial fun d₁ hStep => ?_
          rw [step, hStep] at hRun
          cases hRun
      | ok s' =>
          obtain ⟨d₁, hStep, rfl⟩ := step_ok hRun
          rw [hStep]
          dsimp only
          rw [ih, next_daemon]
          constructor
          · rintro h _ ⟨⟩
            exact h
          · exact fun h => h d₁ rfl

end Session

section Decidable

instance (vip : Fin n → Address) (m : StateMess) : Decidable (m.Wf vip) :=
  decidable_of_iff (m.realAddress ≠ 0#32 ∧ m.numAllocated = m.claims.length ∧
      (∀ c ∈ m.claims, ∃ j, vip j = c.1) ∧ (m.claims.map Prod.fst).Nodup ∧
      ∀ c ∈ m.claims, c.2 = claimed ∨ c.2 = preferClaimed)
    ⟨fun ⟨h₁, h₂, h₃, h₄, h₅⟩ => ⟨h₁, h₂, h₃, h₄, h₅⟩,
      fun h => ⟨h.realAddress, h.numAllocated, h.known, h.nodup, h.priority⟩⟩

instance (vip : Fin n → Address) (numMembers : Nat) (ms : List StateMess) :
    Decidable (ViewMessages vip numMembers ms) :=
  decidable_of_iff ((∀ m ∈ ms, m.Wf vip) ∧ (∀ m ∈ ms, m.index < numMembers) ∧
      (ms.map StateMess.index).Nodup ∧ (ms.map StateMess.realAddress).Nodup)
    ⟨fun ⟨h₁, h₂, h₃, h₄⟩ => ⟨h₁, h₂, h₃, h₄⟩,
      fun h => ⟨h.wf, h.index_lt, h.index_nodup, h.address_nodup⟩⟩

instance (d₀ : Daemon n) (ms : List StateMess) : Decidable (Heard cfg d₀ ms) :=
  decidable_of_iff (ViewMessages cfg.pseudoIf d₀.numMembers ms ∧
      ∀ m ∈ ms, m.index = d₀.myIndex ∨ m.realAddress = cfg.realIf → m = stateMess cfg d₀)
    ⟨fun ⟨h₁, h₂⟩ => ⟨h₁, h₂⟩, fun h => ⟨h.messages, h.own⟩⟩

instance (d₀ : Daemon n) (ms : List StateMess) : Decidable (Kept cfg d₀ ms) := by
  unfold Kept; infer_instance

instance (ms : List StateMess) (d : Daemon n) (j : Fin n) : Decidable (Premature cfg ms d j) := by
  unfold Premature; infer_instance

instance decidableNoSelfMove (table : Fin n → Entry) :
    (moves : List Move) → Decidable (NoSelfMove cfg table moves)
  | [] => isTrue trivial
  | move :: moves =>
    have := decidableNoSelfMove (moveTable cfg.pseudoIf table [move]) moves
    inferInstanceAs (Decidable (_ ∧ NoSelfMove cfg (moveTable cfg.pseudoIf table [move]) moves))

instance (d : Daemon n) : Decidable (Accounted cfg d) := by
  unfold Accounted Accountable; infer_instance

instance (d : Daemon n) : Decidable (DispatchAccounts svc cfg d) := by
  unfold DispatchAccounts; infer_instance

namespace Session

variable (s : Session n)

instance (m : Message) : (kind : Message.Kind) → (start : Option (Daemon n)) →
    Decidable (s.LegalAs cfg m kind start)
  | .view, _ => inferInstanceAs (Decidable (_ < _))
  | .other, _ => isTrue trivial
  | .state, some d₀ => inferInstanceAs (Decidable (_ → Heard cfg d₀ _))
  | .mature, some _ => isTrue trivial
  | .balance, some _ => isTrue trivial
  | .state, none => isFalse id
  | .mature, none => isFalse id
  | .balance, none => isFalse id

instance : (e : Event) → Decidable (s.Legal svc cfg e)
  | .network (.message m) _ =>
    inferInstanceAs (Decidable (_ ∧ s.LegalAs cfg m (m.kind svc) s.start))
  | .network (.failed _) _ => inferInstanceAs (Decidable (_ → _ < _))
  | .turnMature _ => isTrue trivial
  | .balance _ => isTrue trivial
  | .spreadReconnect _ => isTrue trivial
  | .sendLocalArpCache _ _ => isTrue trivial
  | .command _ _ => isTrue trivial
  | .signal => isTrue trivial

instance (m : Message) : (kind : Message.Kind) → (start : Option (Daemon n)) →
    Decidable (s.UndisturbedAs cfg m kind start)
  | .view, some d₀ =>
    inferInstanceAs (Decidable (_ → Kept cfg d₀ _ ∧ ∀ j, ¬ Premature cfg _ _ j))
  | .state, some d₀ => inferInstanceAs (Decidable (_ → _ → Kept cfg d₀ _))
  | .balance, some _ => inferInstanceAs (Decidable (_ → _ ∨ NoSelfMove cfg _ _))
  | .mature, some _ => isTrue trivial
  | .other, some _ => isTrue trivial
  | .view, none => isTrue trivial
  | .state, none => isTrue trivial
  | .mature, none => isTrue trivial
  | .balance, none => isTrue trivial
  | .other, none => isTrue trivial

instance (connects : Bool) : (kind : Message.Kind) → Decidable (s.StaleAs connects kind)
  | .view => inferInstanceAs (Decidable (_ ∨ _))
  | .state => inferInstanceAs (Decidable (_ → _))
  | .mature => inferInstanceAs (Decidable (_ = _))
  | .balance => isTrue trivial
  | .other => isTrue trivial

instance : (e : Event) → Decidable (s.Undisturbed svc cfg e)
  | .network (.message m) _ =>
    inferInstanceAs (Decidable (s.UndisturbedAs cfg m (m.kind svc) s.start))
  | .network (.failed _) a => inferInstanceAs
      (Decidable (s.StaleAs (a.again.connects s.daemon.spreadLock) (s.daemon.stale.kind svc)))
  | .turnMature _ => isTrue trivial
  | .balance _ => isTrue trivial
  | .spreadReconnect _ => isTrue trivial
  | .sendLocalArpCache _ _ => isTrue trivial
  | .command _ _ => isTrue trivial
  | .signal => isTrue trivial

instance decidableThroughout {P : Session n → Event → Prop} [∀ s e, Decidable (P s e)] :
    (es : List Event) → (s : Session n) → Decidable (Throughout svc cfg P es s)
  | [], _ => isTrue trivial
  | e :: es, s =>
    match hRun : s.step svc cfg e with
    | .ok s' =>
      have : Decidable (Throughout svc cfg P es s') := decidableThroughout es s'
      decidable_of_iff (P s e ∧ Throughout svc cfg P es s') (by rw [Throughout, hRun])
    | .error _ => decidable_of_iff (P s e) (by rw [Throughout, hRun, and_true])

end Session

end Decidable

/-- In a run from start-up that nothing disturbs, every view finds the claims of the member
to be what it has up, and the assertion of `Send_state_message` holds. -/
theorem run_accounted (hVip : Function.Injective cfg.pseudoIf) (hMe : cfg.realIf ≠ 0#32)
    {c : Connection} {arps : List Word} {mc : Multicast} {d : Daemon n}
    (hStart : startUp c arps mc = .ok d) {es : List Event}
    (hAll : Session.Throughout svc cfg (fun s e => s.Legal svc cfg e ∧ s.Undisturbed svc cfg e) es
      ⟨d, none, []⟩)
    {before after : List Event} {e : Event} (hEvent : es = before ++ e :: after) {d' : Daemon n}
    (hRun : handleEvents svc cfg before d = .ok d') : e.Accounts svc cfg d' := by
  obtain ⟨d₁, d₂, hConnect, hShare, rfl⟩ := startUp_ok hStart
  have hReset : (d₂.queue .sendLocalArpCache).Reset :=
    (multicast_reset hShare (.inl (spreadReconnect_reset hConnect :)) :)
  have hInv : Session.Inv cfg ⟨d₂.queue .sendLocalArpCache, none, []⟩ := hReset
  exact Session.throughout_iff.mp (hInv.throughout hVip hMe hAll) before e after hEvent d' hRun

/-- A member that will hold the only interface, with the third real address. -/
def thirdHolder : Config 1 := ⟨![10#32], [], 3#32, "wack1", 0, false, false⟩

/-- The third holder is alone in its first view, turns mature and takes the interface. Then
it meets two members of other partitions. -/
def meeting : List Event :=
  let a : Answers := ⟨⟨true, 3, 0⟩, .success, [], .success⟩
  let alone := stateMess thirdHolder { Daemon.initial 1 with gid := ⟨7#32, 8#32, 9#32⟩ }
  [.network (.message ⟨0x1000, "wack1", 1, 0, false, [7#32, 8#32, 9#32]⟩) a,
    .network (.message ⟨0x10, "#wack3#z", 1, stateMessType, false, alone.words⟩) a,
    .turnMature .success,
    .network (.message ⟨0x10, "#wack3#z", 1, maturingMessType, false, []⟩) a,
    .network (.message ⟨0x1000, "wack1", 3, 2, false, [17#32, 18#32, 19#32]⟩) a]

/-- The other two hold the interface as well. -/
def twoClaims : List Event :=
  let a : Answers := ⟨⟨true, 3, 0⟩, .success, [], .success⟩
  let claim (addr : Address) (index : Nat) : StateMess :=
    ⟨⟨17#32, 18#32, 19#32⟩, addr, index, 1, 1, [(10#32, claimed)], []⟩
  [.network (.message ⟨0x10, "#wack1#x", 1, stateMessType, false, (claim 1#32 0).words⟩) a,
    .network (.message ⟨0x10, "#wack2#y", 1, stateMessType, false, (claim 2#32 1).words⟩) a]

/-- The first of them leaves. -/
def nextView : Message := ⟨0x1000, "wack1", 2, 1, false, [27#32, 28#32, 29#32]⟩

/-- Its view comes before the third holder has handled its own STATE message. -/
def cascade : Event :=
  .network (.message nextView) ⟨⟨true, 3, 0⟩, .success, [], .success⟩

/-- The view of the three finds the holder accounted for. -/
theorem meeting_accounted :
    ∃ (d d' : Daemon 1) (e : Event), startUp ⟨true, 3, 0⟩ [] .success = .ok d ∧
      meeting = meeting.dropLast ++ [e] ∧
      handleEvents spreadTypes thirdHolder meeting.dropLast d = .ok d' ∧ d'.up = {0} ∧
      e.Accounts spreadTypes thirdHolder d' := by
  have hRun : (startUp ⟨true, 3, 0⟩ [] .success).returns (fun d : Daemon 1 =>
      Session.Throughout spreadTypes thirdHolder (fun s e =>
        s.Legal spreadTypes thirdHolder e ∧ s.Undisturbed spreadTypes thirdHolder e) meeting
        ⟨d, none, []⟩ ∧
      (handleEvents spreadTypes thirdHolder meeting.dropLast d).returns
        fun d' => d'.up = {0}) = true := by
    decide +kernel
  obtain ⟨d, hStart, hBoth⟩ := Run.returns_iff.mp hRun
  obtain ⟨hAll, hHolds⟩ := of_decide_eq_true hBoth
  obtain ⟨d', hEnd, hUp⟩ := Run.returns_iff.mp hHolds
  exact ⟨d, d', _, hStart, rfl, hEnd, of_decide_eq_true hUp,
    run_accounted (Function.injective_of_subsingleton _) (by decide) hStart hAll rfl hEnd⟩

/-- The second claim overwrites the winner of the first, so the next view finds no claim of
the holder for an interface that it has up, and the assertion fails. -/
theorem cascade_not_accounted :
    ∃ d d' last : Daemon 1, startUp ⟨true, 3, 0⟩ [] .success = .ok d ∧
      Session.Throughout spreadTypes thirdHolder (fun s e => s.Legal spreadTypes thirdHolder e)
        (meeting ++ twoClaims ++ [cascade]) ⟨d, none, []⟩ ∧
      handleEvents spreadTypes thirdHolder (meeting ++ twoClaims) d = .ok d' ∧
      ¬ cascade.Accounts spreadTypes thirdHolder d' ∧
      step spreadTypes thirdHolder d' cascade = .error ⟨.abort, last⟩ ∧ last.up = {0} := by
  have hRun : (startUp ⟨true, 3, 0⟩ [] .success).returns (fun d : Daemon 1 =>
      Session.Throughout spreadTypes thirdHolder (fun s e => s.Legal spreadTypes thirdHolder e)
        (meeting ++ twoClaims ++ [cascade]) ⟨d, none, []⟩ ∧
      (handleEvents spreadTypes thirdHolder (meeting ++ twoClaims) d).returns fun d' =>
        ¬ DispatchAccounts spreadTypes thirdHolder (d'.load nextView) ∧
        (step spreadTypes thirdHolder d' cascade).ends .abort fun last => last.up = {0}) = true := by
    decide +kernel
  obtain ⟨d, hStart, hBoth⟩ := Run.returns_iff.mp hRun
  obtain ⟨hLegal, hInterrupted⟩ := of_decide_eq_true hBoth
  obtain ⟨d', hEnd, hLast⟩ := Run.returns_iff.mp hInterrupted
  obtain ⟨hLost, hStep⟩ := of_decide_eq_true hLast
  obtain ⟨last, hAbort, hUp⟩ := Run.ends_iff.mp hStep
  exact ⟨d, d', last, hStart, hLegal, hEnd, hLost, hAbort, of_decide_eq_true hUp⟩

end Wackamole
