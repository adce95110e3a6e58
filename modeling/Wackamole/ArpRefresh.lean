import Wackamole.FailedMulticast

/-! The refresh of the shared ARP cache. `Send_local_arp_cache_repeat` queues
`Send_local_arp_cache`, which shares the cache once and queues nothing. -/
namespace Wackamole

variable {n : Nat} {cfg : Config n} {svc : ServiceTypes} {d d' : Daemon n}

/-- The next share of the local ARP cache is pending. -/
def Daemon.refreshes (d : Daemon n) : Bool := decide (.sendLocalArpCache ∈ d.events)

theorem Daemon.refreshes_iff : d.refreshes = true ↔ .sendLocalArpCache ∈ d.events :=
  decide_eq_true_iff

theorem Daemon.refreshes_queue {timer : Timer} (hOther : timer ≠ .sendLocalArpCache)
    (d : Daemon n) : (d.queue timer).refreshes = d.refreshes := by
  simp [refreshes, queue, hOther.symm]

theorem Daemon.refreshes_dequeue {timer : Timer} (hOther : timer ≠ .sendLocalArpCache)
    (d : Daemon n) : (d.dequeue timer).refreshes = d.refreshes := by
  simp [refreshes, dequeue, hOther.symm]

theorem Daemon.refreshes_fired (d : Daemon n) :
    (d.dequeue .sendLocalArpCache).refreshes = false := by
  simp [refreshes, dequeue]

/-- No handler of a regular message has to do with the refresh. -/
theorem refreshes_untouched : Untouched (Daemon.refreshes (n := n)) := fun _ =>
  { acquire := fun _ _ hd => hd
    release := fun _ _ hd => hd
    reup := fun _ _ hd => hd
    setAllocation := fun _ _ _ hd => hd
    setOld := fun _ _ _ hd => hd
    members := fun _ _ hd => hd
    automaton := fun _ _ _ _ _ hd => hd
    queueBalance := fun d hd => (d.refreshes_queue (by decide)).trans hd
    dequeueMature := fun d hd => (d.refreshes_dequeue (by decide)).trans hd
    mess := fun _ _ hd => hd }

/-- `Spread_reconnect` queues itself or `Turn_mature`. -/
theorem spreadReconnect_refreshes {ret : Int} {c : Connection}
    (h : spreadReconnect ret c d = .ok d') : d'.refreshes = d.refreshes := by
  have hCode := (spreadReconnect_ok h).1
  rw [spreadReconnect, if_neg (not_not.mpr hCode), cleanUp_eq] at h
  dsimp only at h
  split_ifs at h <;> cases h <;> exact Daemon.refreshes_queue (by decide) _

theorem multicast_refreshes {messType : Int} {words : List Word} {mc : Multicast}
    (h : multicast messType words mc d = .ok d') : d'.refreshes = d.refreshes := by
  rcases multicast_ok h with ⟨-, rfl⟩ | ⟨-, hAgain⟩
  · rfl
  · exact (spreadReconnect_refreshes hAgain :)

/-- The share itself, from whichever caller. -/
theorem sendLocalArpCache_refreshes {arps : List Word} {mc : Multicast}
    (h : sendLocalArpCache arps mc d = .ok d') : d'.refreshes = d.refreshes :=
  multicast_refreshes (d := d.write arps) h

theorem handleMembership_refreshes {mc : Multicast} (h : handleMembership cfg mc d = .ok d') :
    d'.refreshes = d.refreshes := by
  obtain ⟨-, -, d₁, hMess, rfl⟩ := handleMembership_multicast h
  have hSent : d₁.refreshes = (announcing cfg d).refreshes := multicast_refreshes hMess
  exact (Daemon.refreshes_dequeue (by decide) _).trans hSent

theorem dispatch_refreshes {ret : Int} {a : Answers} (h : dispatch svc cfg ret a d = .ok d') :
    d'.refreshes = d.refreshes := by
  unfold dispatch at h
  split_ifs at h
  · obtain ⟨d₁, hView, hShare⟩ := Run.bind_ok.mp h
    exact (sendLocalArpCache_refreshes hShare).trans (handleMembership_refreshes hView :)
  · cases h
    rfl
  · cases h
  · cases h
    exact refreshes_untouched.handleRegular cfg (fun _ _ => rfl) d
  · cases h

theorem balance_refreshes {mc : Multicast} (h : balance cfg mc d = .ok d') :
    d'.refreshes = d.refreshes := by
  have hLeave (d : Daemon n) : (balanceLeave cfg d).refreshes = d.refreshes := by
    unfold balanceLeave
    split_ifs
    · rfl
    · exact refreshes_untouched.queueBalance d
  rcases balance_ok h with ⟨-, rfl | rfl⟩ | ⟨-, m, d₁, hMess, rfl⟩
  · rfl
  · exact hLeave d
  · exact (hLeave _).trans (multicast_refreshes hMess :)

/-- The timer of `Send_local_arp_cache` fires. -/
def Event.IsRefresh : Event → Prop
  | .sendLocalArpCache _ _ => True
  | _ => False

/-- What one event does to the refresh: its own timer ends it, and nothing else has to do
with it. -/
theorem step_refreshes {e : Event} (h : step svc cfg d e = .ok d') :
    e.IsRefresh ∧ d'.refreshes = false ∨ ¬ e.IsRefresh ∧ d'.refreshes = d.refreshes := by
  cases e with
  | network r a =>
      refine .inr ⟨id, ?_⟩
      cases r with
      | message m => exact dispatch_refreshes (d := d.load m) h
      | failed ret =>
          rw [step, handleNetwork] at h
          obtain ⟨d₁, hAgain, hDispatch⟩ := Run.bind_ok.mp h
          exact (dispatch_refreshes hDispatch).trans (spreadReconnect_refreshes hAgain)
  | turnMature mc =>
      exact .inr ⟨id, (multicast_refreshes h).trans (d.refreshes_dequeue (by decide))⟩
  | balance mc => exact .inr ⟨id, (balance_refreshes h).trans (d.refreshes_dequeue (by decide))⟩
  | spreadReconnect c =>
      exact .inr ⟨id, (spreadReconnect_refreshes h).trans (d.refreshes_dequeue (by decide))⟩
  | sendLocalArpCache arps mc =>
      exact .inl ⟨trivial, (sendLocalArpCache_refreshes h).trans d.refreshes_fired⟩
  | command command c =>
      refine .inr ⟨id, ?_⟩
      cases command with
      | failure =>
          change spreadReconnect (-8) c _ = _ at h
          rw [spreadReconnect_refreshes h, cleanUp_eq]
          rfl
      | success =>
          change spreadReconnect (-8) c _ = _ at h
          exact (spreadReconnect_refreshes h :)
  | signal => cases h

theorem step_refreshes_iff {e : Event} (h : step svc cfg d e = .ok d')
    (hBefore : .sendLocalArpCache ∈ d.events) :
    .sendLocalArpCache ∈ d'.events ↔ ¬ e.IsRefresh := by
  rw [← Daemon.refreshes_iff] at hBefore ⊢
  rcases step_refreshes h with ⟨hFires, hEnded⟩ | ⟨hOther, hSame⟩
  · exact iff_of_false (by rw [hEnded]; exact Bool.false_ne_true) (not_not.mpr hFires)
  · exact iff_of_true (hSame.trans hBefore) hOther

theorem startUp_refreshes {c : Connection} {arps : List Word} {mc : Multicast}
    (h : startUp c arps mc = .ok d) : .sendLocalArpCache ∈ d.events := by
  obtain ⟨d₁, d₂, -, -, rfl⟩ := startUp_ok h
  exact Finset.mem_insert_self _ _

/-- In a run from start-up the next share of the ARP cache is always pending exactly if its
timer has not yet fired and returned. -/
theorem arpRefresh_iff (svc : ServiceTypes) (cfg : Config n) (c : Connection)
    (arps : List Word) (mc : Multicast) (es : List Event) :
    (∀ before after, es = before ++ after →
      ∀ d, startUp c arps mc >>= handleEvents svc cfg before = .ok d →
        .sendLocalArpCache ∈ d.events) ↔
    ∀ before e after, es = before ++ e :: after →
      ∀ d d', startUp c arps mc >>= handleEvents svc cfg before = .ok d →
        step svc cfg d e = .ok d' → ¬ e.IsRefresh := by
  cases hStart : startUp (n := n) c arps mc with
  | error halted =>
      exact iff_of_true (fun _ _ _ _ h => by cases h) fun _ _ _ _ _ _ h => by cases h
  | ok d₀ => exact handleEvents_iff (fun _ _ _ => step_refreshes_iff) (startUp_refreshes hStart)

/-- The first interval passes, the timer fires, and no other share is pending. -/
theorem shared_once :
    let cfg : Config 1 := ⟨![10#32], [], 1#32, "wack1", 0, false, true⟩
    ∃ d₀ d, startUp ⟨true, 3, 0⟩ [] .success = .ok d₀ ∧ .sendLocalArpCache ∈ d₀.events ∧
      step spreadTypes cfg d₀ (.sendLocalArpCache [7#32] .success) = .ok d ∧
      .sendLocalArpCache ∉ d.events := by
  intro cfg
  obtain ⟨d₀, hStart⟩ : ∃ d₀, startUp (n := 1) ⟨true, 3, 0⟩ [] .success = .ok d₀ := ⟨_, rfl⟩
  obtain ⟨d, hFired⟩ : ∃ d, step spreadTypes cfg d₀ (.sendLocalArpCache [7#32] .success) = .ok d :=
    ⟨_, rfl⟩
  have hQueued := startUp_refreshes hStart
  refine ⟨d₀, d, hStart, hQueued, hFired, fun hPending => ?_⟩
  exact (step_refreshes_iff hFired hQueued).mp hPending trivial

end Wackamole
