import Wackamole.FailedMulticast

/-! The Balance event of a daemon that balances gradually: every path into RUN queues it, and
every path that takes it out of the queue leaves RUN or queues it again. -/
namespace Wackamole

variable {n : Nat} {cfg : Config n} {svc : ServiceTypes} {d d' : Daemon n}

/-- A daemon between two handlers that will balance as long as it is in RUN. -/
structure Daemon.Armed (d : Daemon n) : Prop where
  settled : d.state ≠ .balance
  pending : d.state = .run → .balance ∈ d.events

/-- Outside RUN and BALANCE nothing has to be pending. -/
theorem Daemon.Armed.of_idle {state : Automaton} (hState : d.state = state)
    (hIdle : state ≠ .run ∧ state ≠ .balance) : d.Armed := by
  subst hState
  exact ⟨hIdle.2, fun hRun => absurd hRun hIdle.1⟩

theorem Daemon.Armed.keep (h : d.Armed) (hState : d'.state = d.state)
    (hPending : .balance ∈ d.events → .balance ∈ d'.events) : d'.Armed :=
  ⟨hState ▸ h.settled, fun hRun => hPending (h.pending (hState ▸ hRun))⟩

theorem Daemon.armed_enterRun (d : Daemon n) : ({ d with state := .run }.queue .balance).Armed :=
  ⟨by simp [queue], fun _ => Finset.mem_insert_self _ _⟩

/-- No handler of a regular message takes the Balance event out of the queue. -/
theorem balance_mem_stable : Stable fun d : Daemon n => .balance ∈ d.events where
  acquire _ _ h := h
  release _ _ h := h
  reup _ _ h := h
  setAllocation _ _ _ h := h
  setOld _ _ _ h := h
  members _ _ h := h
  automaton _ _ _ _ _ h := h
  queueBalance _ h := Finset.mem_insert_of_mem h
  dequeueMature _ h := Finset.mem_erase.mpr ⟨by decide, h⟩
  mess _ _ h := h

theorem ripState_armed (m : StateMess) (h : d.Armed) : (ripState cfg m d).Armed :=
  h.keep (congrArg Control.state (ripState_control cfg m d)) (balance_mem_stable.ripState cfg m)

theorem handleMature_armed (h : d.Armed) : (handleMature cfg d).Armed := by
  unfold handleMature
  dsimp only
  split_ifs with hMature hOutside
  · exact h
  · exact Daemon.armed_enterRun _
  · have hGather : d.state = .gather := not_not.mp hOutside
    exact .of_idle hGather (by decide)

theorem finishGather_armed (h : d.Armed) : (finishGather cfg d).Armed := by
  unfold finishGather
  split_ifs
  · exact Daemon.armed_enterRun _
  · exact .of_idle (show _ = Automaton.boot from rfl) (by decide)
  · exact h

theorem collectState_armed (m : StateMess) (h : d.Armed) : (collectState cfg m d).Armed := by
  have hRipped : (ripState cfg m d).Armed := ripState_armed m h
  have hMatured : (handleMature cfg (ripState cfg m d)).Armed := handleMature_armed hRipped
  unfold collectState
  dsimp only
  split_ifs
  · exact hMatured.keep rfl id
  · exact hRipped.keep rfl id

theorem handleState_armed (h : d.Armed) : (handleState cfg d).Armed := by
  have hFlip (k : Nat) : (d.flipFront k).Armed := by
    unfold Daemon.flipFront
    split_ifs
    · exact h.keep rfl id
    · exact h
  unfold handleState
  dsimp only
  generalize (if d.gid = (StateMess.read d.word).gid then _ else 7) = k
  unfold handleStateMess
  split_ifs
  · exact finishGather_armed (collectState_armed _ (hFlip k))
  · exact hFlip k

theorem handleRegular_armed (h : d.Armed) : (handleRegular cfg d).Armed := by
  have hRecorded (handler : Handler) : (d.record (.handler handler)).Armed := h.keep rfl id
  unfold handleRegular
  split_ifs
  · exact handleState_armed (hRecorded _)
  · exact handleMature_armed (hRecorded _)
  · exact (hRecorded .balance).keep
      (congrArg Control.state (handleBalance_control cfg (d.record (.handler .balance))))
      (balance_mem_stable.handleBalance cfg)
  · exact hRecorded _
  · exact hRecorded _
  · exact h

/-- `Spread_reconnect` goes to BOOT or stays where it was, and only queues events. -/
theorem spreadReconnect_events {ret : Int} {c : Connection}
    (h : spreadReconnect ret c d = .ok d') : d.events ⊆ d'.events := by
  have hCode := (spreadReconnect_ok h).1
  rw [spreadReconnect, if_neg (not_not.mpr hCode), cleanUp_eq] at h
  dsimp only at h
  split_ifs at h <;> cases h <;> exact Finset.subset_insert _ _

theorem spreadReconnect_armed {ret : Int} {c : Connection}
    (hRun : spreadReconnect ret c d = .ok d') (h : d.Armed) : d'.Armed := by
  obtain ⟨_, _, ⟨hBoot, _⟩ | ⟨hState, _⟩⟩ := spreadReconnect_ok hRun
  · exact .of_idle hBoot (by decide)
  · exact h.keep hState fun hMem => spreadReconnect_events hRun hMem

theorem multicast_armed {messType : Int} {words : List Word} {mc : Multicast}
    (hRun : multicast messType words mc d = .ok d') (h : d.Armed) : d'.Armed := by
  rcases multicast_ok hRun with ⟨-, rfl⟩ | ⟨-, hAgain⟩
  · exact h.keep rfl id
  · exact spreadReconnect_armed hAgain (h.keep rfl id)

theorem dispatch_armed {ret : Int} {a : Answers} (hRun : dispatch svc cfg ret a d = .ok d')
    (h : d.Armed) : d'.Armed := by
  unfold dispatch at hRun
  split_ifs at hRun
  · obtain ⟨d₁, hView, hShare⟩ := Run.bind_ok.mp hRun
    have hEntered : d₁.Armed := .of_idle (handleMembership_ok hView).1 (by decide)
    exact multicast_armed (d := d₁.write a.arps) hShare (hEntered.keep rfl id)
  · cases hRun
    exact h
  · cases hRun
  · cases hRun
    exact handleRegular_armed h
  · cases hRun

/-- All six exits of `Balance`: its own event has fired, and it is queued again unless the
daemon is outside RUN. -/
theorem balance_armed (hGradual : cfg.completeBalance = false) {mc : Multicast}
    (hRun : balance cfg mc d = .ok d') (hState : d.state ≠ .balance) : d'.Armed := by
  have hLeave (d : Daemon n) (h : d.state ≠ .balance) : (balanceLeave cfg d).Armed := by
    rw [balanceLeave, if_neg (by rw [hGradual]; decide)]
    exact ⟨h, fun _ => Finset.mem_insert_self _ _⟩
  have hEnter (d : Daemon n) : ({ d with state := .run } : Daemon n).state ≠ .balance := by simp
  unfold balance at hRun
  split_ifs at hRun with hIndex hOutside
  · cases hRun
    exact hLeave d hState
  · cases hRun
    exact ⟨hState, fun hRun => absurd hRun hOutside⟩
  · cases hPlan : balanceMess cfg d with
    | none =>
        rw [hPlan] at hRun
        cases hRun
        exact hLeave _ (hEnter _)
    | some m =>
        rw [hPlan] at hRun
        obtain ⟨d₁, _, hEnd⟩ := Run.bind_ok.mp hRun
        cases hEnd
        exact hLeave _ (hEnter _)

theorem step_armed (hGradual : cfg.completeBalance = false) {e : Event}
    (hRun : step svc cfg d e = .ok d') (h : d.Armed) : d'.Armed := by
  have hFired (timer : Timer) (hOther : timer ≠ .balance) : (d.dequeue timer).Armed :=
    h.keep rfl fun hMem => Finset.mem_erase.mpr ⟨hOther.symm, hMem⟩
  cases e with
  | network r a =>
      cases r with
      | message m => exact dispatch_armed (d := d.load m) hRun (h.keep rfl id)
      | failed ret =>
          rw [step, handleNetwork] at hRun
          obtain ⟨d₁, hAgain, hDispatch⟩ := Run.bind_ok.mp hRun
          exact dispatch_armed hDispatch (spreadReconnect_armed hAgain h)
  | turnMature mc => exact multicast_armed hRun (hFired .turnMature (by decide))
  | balance mc => exact balance_armed (d := d.dequeue .balance) hGradual hRun h.settled
  | spreadReconnect c => exact spreadReconnect_armed hRun (hFired .spreadReconnect (by decide))
  | sendLocalArpCache arps mc =>
      have hTimer := hFired .sendLocalArpCache (by decide)
      exact multicast_armed (d := (d.dequeue .sendLocalArpCache).write arps) hRun
        (hTimer.keep rfl id)
  | command command c =>
      cases command with
      | failure =>
          have hLocked : (cleanUp { d with spreadLock := true, mbox := -1 }).Armed := by
            rw [cleanUp_eq]
            exact h.keep rfl id
          change spreadReconnect (-8) c _ = _ at hRun
          exact spreadReconnect_armed hRun hLocked
      | success =>
          change spreadReconnect (-8) c _ = _ at hRun
          exact spreadReconnect_armed hRun (h.keep rfl id)
  | signal => cases hRun

theorem startUp_armed {c : Connection} {arps : List Word} {mc : Multicast}
    (h : startUp c arps mc = .ok d) : d.Armed := by
  have hInitial : (Daemon.initial n).Armed := .of_idle (show _ = Automaton.unset from rfl) (by decide)
  obtain ⟨d₁, d₂, hConnect, hShare, rfl⟩ := startUp_ok h
  have hConnected : d₁.Armed := spreadReconnect_armed hConnect hInitial
  have hShared : d₂.Armed :=
    multicast_armed (d := d₁.write arps) hShare (hConnected.keep rfl id)
  exact hShared.keep rfl (Finset.mem_insert_of_mem ·)

/-- In every run of a daemon that balances gradually, between two handlers: it is never in
BALANCE, and in RUN exactly one Balance event is pending. -/
theorem run_balancePending (hGradual : cfg.completeBalance = false) {c : Connection}
    {arps : List Word} {mc : Multicast} {es : List Event}
    (h : startUp c arps mc >>= handleEvents svc cfg es = .ok d) :
    d.state ≠ .balance ∧
      (d.state = .run → (d.events.filter fun timer => timer = .balance).card = 1) := by
  have hArmed : d.Armed := by
    obtain ⟨d₀, hStart, hEvents⟩ := Run.bind_ok.mp h
    induction es using List.reverseRecOn generalizing d with
    | nil =>
        cases hEvents
        exact startUp_armed hStart
    | append_singleton es e ih =>
        obtain ⟨d₁, hBefore, hLast⟩ := handleEvents_snoc.mp hEvents
        exact step_armed hGradual hLast (ih (Run.bind_ok.mpr ⟨d₀, hStart, hBefore⟩) hBefore)
  refine ⟨hArmed.settled, fun hRun => ?_⟩
  rw [Finset.filter_eq', if_pos (hArmed.pending hRun), Finset.card_singleton]

/-- The multicast of a round fails, and the daemon is without a connection in RUN with the
next round pending. -/
theorem overloaded_balancePending :
    let cfg : Config 2 := ⟨![10#32, 11#32], [], 1#32, "wack1", 1, false, true⟩
    ∃ d, startUp ⟨true, 3, 0⟩ [] .success >>= handleEvents spreadTypes cfg
        (overloaded cfg ++ [.balance ⟨-8, ⟨false, 0, 0⟩⟩]) = .ok d ∧
      d.state = .run ∧ (d.events.filter fun timer => timer = .balance).card = 1 := by
  intro cfg
  have hRun : Run.returns (startUp ⟨true, 3, 0⟩ [] .success >>= handleEvents spreadTypes cfg
      (overloaded cfg ++ [.balance ⟨-8, ⟨false, 0, 0⟩⟩])) (fun d => d.state = .run) = true := by
    decide +kernel
  obtain ⟨d, hEnd, hState⟩ := Run.returns_iff.mp hRun
  have hRunning : d.state = .run := of_decide_eq_true hState
  exact ⟨d, hEnd, hRunning, (run_balancePending rfl hEnd).2 hRunning⟩

end Wackamole
