import Wackamole.CleanExit

/-! A simulated failure: from `WACK_SERVICE_FAILURE` on, the lock and the missing mailbox
keep the daemon from acquiring anything, whatever its timers do. -/
namespace Wackamole

variable {n : Nat}

/-- `ILLEGAL_SESSION`: what `SP_multicast` answers on mailbox -1. -/
@[simp] abbrev illegalSession : Int := -11

/-- The events of the daemon that can occur while it has no mailbox: its timers, whose
multicasts are illegal, and further failures. Nothing is attached to `Handle_network`. -/
def Event.Offline : Event → Prop
  | .turnMature mc => mc.ret = illegalSession
  | .balance mc => mc.ret = illegalSession
  | .spreadReconnect _ => True
  | .sendLocalArpCache _ mc => mc.ret = illegalSession
  | .command .failure _ => True
  | .command .success _ => False
  | .network _ _ => False
  | .signal => False

/-- What the event loop can call while the failure lasts. `GET_WACK_STATE` copies the
tables into the buffer of its session, and `arp_spoof_notifier` sends spoofs and queues
itself: both leave the daemon as it is. -/
inductive LockedEvent where
  | daemon (e : Event)
  | getWackState
  | arpSpoofNotifier

namespace LockedEvent

def step (svc : ServiceTypes) (cfg : Config n) (d : Daemon n) : LockedEvent → Run n
  | .daemon e => Wackamole.step svc cfg d e
  | .getWackState => .ok d
  | .arpSpoofNotifier => .ok d

def Offline : LockedEvent → Prop
  | .daemon e => e.Offline
  | .getWackState => True
  | .arpSpoofNotifier => True

end LockedEvent

/-- The daemon after a failure that came when its trace was `log`. -/
structure Daemon.Locked (log : List (Act n)) (d : Daemon n) : Prop where
  spreadLock : d.spreadLock = true
  mbox : d.mbox = -1
  allocationTable : ∀ i, (d.allocationTable i).realIf = 0#32
  oldTable : ∀ i, (d.oldTable i).realIf = 0#32
  up : d.up = ∅
  trace : ∃ acts, d.trace = acts ++ log ∧ ∀ i, .acquire i ∉ acts

namespace Daemon.Locked

variable {log : List (Act n)} {d : Daemon n}

/-- The fields that the invariant does not speak about. -/
theorem congr (h : d.Locked log) {d' : Daemon n} (hLock : d'.spreadLock = d.spreadLock)
    (hMbox : d'.mbox = d.mbox) (hAllocation : d'.allocationTable = d.allocationTable)
    (hOld : d'.oldTable = d.oldTable) (hUp : d'.up = d.up) (hTrace : d'.trace = d.trace) :
    d'.Locked log where
  spreadLock := hLock.trans h.spreadLock
  mbox := hMbox.trans h.mbox
  allocationTable := hAllocation ▸ h.allocationTable
  oldTable := hOld ▸ h.oldTable
  up := hUp.trans h.up
  trace := hTrace ▸ h.trace

theorem append_acts (h : ∃ acts, d.trace = acts ++ log ∧ ∀ i, .acquire i ∉ acts)
    (acts : List (Act n)) (hActs : ∀ i, .acquire i ∉ acts) :
    ∃ acts', acts ++ d.trace = acts' ++ log ∧ ∀ i, .acquire i ∉ acts' := by
  obtain ⟨before, hTrace, hBefore⟩ := h
  refine ⟨acts ++ before, by rw [hTrace, List.append_assoc], fun i hMem => ?_⟩
  rcases List.mem_append.mp hMem with hNew | hOld
  · exact hActs i hNew
  · exact hBefore i hOld

theorem not_acquire_releases (i : Fin n) :
    .acquire i ∉ ((List.finRange n).map Act.release).reverse := by
  simp

/-- `Spread_reconnect` returns early and queues its retry. -/
theorem spreadReconnect (h : d.Locked log) {ret : Int} (hCode : acceptedCode ret)
    (c : Connection) : ∃ d', spreadReconnect ret c d = .ok d' ∧ d'.Locked log := by
  have hMbox : ¬ 0 ≤ d.mbox := by
    rw [h.mbox]
    decide
  rw [Wackamole.spreadReconnect, if_neg (not_not.mpr hCode), cleanUp_eq]
  simp only [if_neg hMbox, if_pos h.spreadLock]
  exact ⟨_, rfl, h.spreadLock, h.mbox, fun _ => rfl, fun _ => rfl, rfl,
    append_acts h.trace _ not_acquire_releases⟩

theorem multicast (h : d.Locked log) {mc : Multicast} (hRet : mc.ret = illegalSession)
    (messType : Int) (words : List Word) :
    ∃ d', multicast messType words mc d = .ok d' ∧ d'.Locked log := by
  have hRecord : (d.record (.multicast messType words mc.ret)).Locked log :=
    ⟨h.spreadLock, h.mbox, h.allocationTable, h.oldTable, h.up,
      append_acts h.trace [.multicast messType words mc.ret] (by simp)⟩
  rw [multicast_failed (by rw [hRet]; decide)]
  exact hRecord.spreadReconnect (.inr (.inl hRet)) mc.again

theorem balanceLeave (h : d.Locked log) (cfg : Config n) :
    (balanceLeave cfg { d with state := .run }).Locked log := by
  unfold Wackamole.balanceLeave
  split_ifs <;> exact h.congr rfl rfl rfl rfl rfl rfl

theorem balance (h : d.Locked log) (cfg : Config n) {mc : Multicast}
    (hRet : mc.ret = illegalSession) : ∃ d', balance cfg mc d = .ok d' ∧ d'.Locked log := by
  unfold Wackamole.balance
  split_ifs with hIndex hState
  · refine ⟨_, rfl, ?_⟩
    unfold Wackamole.balanceLeave
    split_ifs
    · exact h
    · exact h.congr rfl rfl rfl rfl rfl rfl
  · exact ⟨_, rfl, h⟩
  · cases balanceMess cfg d with
    | none => exact ⟨_, rfl, h.balanceLeave cfg⟩
    | some mess =>
        have hPlanned : ({ d with state := .balance }.write mess.words).Locked log :=
          h.congr rfl rfl rfl rfl rfl rfl
        obtain ⟨d', hSent, hLocked⟩ := hPlanned.multicast hRet balanceMessType mess.words
        dsimp only
        rw [hSent]
        exact ⟨_, rfl, hLocked.balanceLeave cfg⟩

/-- `WACK_SERVICE_FAILURE`, in whatever state it arrives. -/
theorem failure (c : Connection) (d : Daemon n) :
    ∃ d', setServiceState .failure c d = .ok d' ∧ d'.Locked d.trace := by
  have hDown : (cleanUp { d with spreadLock := true, mbox := -1 }).Locked d.trace := by
    rw [cleanUp_eq]
    exact ⟨rfl, rfl, fun _ => rfl, fun _ => rfl, rfl, _, rfl, not_acquire_releases⟩
  exact hDown.spreadReconnect (.inl rfl) c

theorem trans (h : d.Locked log) {d' : Daemon n} (h' : d'.Locked d.trace) : d'.Locked log where
  spreadLock := h'.spreadLock
  mbox := h'.mbox
  allocationTable := h'.allocationTable
  oldTable := h'.oldTable
  up := h'.up
  trace := by
    obtain ⟨acts, hTrace, hActs⟩ := h'.trace
    rw [hTrace]
    exact append_acts h.trace acts hActs

theorem step (svc : ServiceTypes) (cfg : Config n) (h : d.Locked log) {e : LockedEvent}
    (hOffline : e.Offline) :
    ∃ d', e.step svc cfg d = .ok d' ∧ d'.Locked log := by
  have hFired (timer : Timer) : (d.dequeue timer).Locked log := h.congr rfl rfl rfl rfl rfl rfl
  cases e with
  | getWackState => exact ⟨d, rfl, h⟩
  | arpSpoofNotifier => exact ⟨d, rfl, h⟩
  | daemon e =>
      cases e with
      | turnMature mc => exact (hFired .turnMature).multicast hOffline maturingMessType []
      | balance mc => exact (hFired .balance).balance cfg hOffline
      | spreadReconnect c => exact (hFired .spreadReconnect).spreadReconnect (.inr (.inr rfl)) c
      | sendLocalArpCache arps mc =>
          have hWritten : ((d.dequeue .sendLocalArpCache).write arps).Locked log :=
            h.congr rfl rfl rfl rfl rfl rfl
          exact hWritten.multicast hOffline arpcacheMessType arps
      | command command c =>
          cases command with
          | failure =>
              obtain ⟨d', hAgain, hLocked⟩ := failure c d
              exact ⟨d', hAgain, h.trans hLocked⟩
          | success => exact hOffline.elim
      | network r a => exact hOffline.elim
      | signal => exact hOffline.elim

theorem run (svc : ServiceTypes) (cfg : Config n) (h : d.Locked log) {es : List LockedEvent}
    (hOffline : ∀ e ∈ es, e.Offline) :
    ∃ d', es.foldlM (LockedEvent.step svc cfg) d = .ok d' ∧ d'.Locked log := by
  induction es generalizing d with
  | nil => exact ⟨d, rfl, h⟩
  | cons e es ih =>
      obtain ⟨d₁, hStep, hLocked⟩ := h.step svc cfg (hOffline e List.mem_cons_self)
      obtain ⟨d', hRun, hEnd⟩ := ih hLocked fun e hMem => hOffline e (List.mem_cons_of_mem _ hMem)
      exact ⟨d', by rw [List.foldlM_cons, hStep]; exact hRun, hEnd⟩

end Daemon.Locked

/-- In any state, `WACK_SERVICE_FAILURE` and everything that can follow it before
`WACK_SERVICE_SUCCESS` leave the daemon without a mailbox and without an owner in its
tables, and nothing has been acquired since the command. -/
theorem failure_holds (svc : ServiceTypes) (cfg : Config n) (c : Connection) (d : Daemon n)
    {es : List LockedEvent} (hOffline : ∀ e ∈ es, e.Offline) :
    ∃ d', setServiceState .failure c d >>= es.foldlM (LockedEvent.step svc cfg) = .ok d' ∧
      d'.mbox = -1 ∧
      (∀ i, (d'.allocationTable i).realIf = 0#32 ∧ (d'.oldTable i).realIf = 0#32) ∧
      d'.up = ∅ ∧ ∃ acts, d'.trace = acts ++ d.trace ∧ ∀ i, .acquire i ∉ acts := by
  obtain ⟨d₁, hFailure, hLocked⟩ := Daemon.Locked.failure c d
  obtain ⟨d', hRun, hEnd⟩ := hLocked.run svc cfg hOffline
  refine ⟨d', by rw [hFailure]; exact hRun, hEnd.mbox, fun i => ?_, hEnd.up, hEnd.trace⟩
  exact ⟨hEnd.allocationTable i, hEnd.oldTable i⟩

/-- A daemon in RUN that has its interface up, and timers that find Spread ready again. -/
theorem failure_holds_timers :
    let cfg : Config 1 := ⟨![10#32], [], 1#32, "wack1", 0, false, true⟩
    let ready : Connection := ⟨true, 3, 0⟩
    let running : Daemon 1 :=
      { Daemon.initial 1 with
        state := .run
        mbox := 3
        numMembers := 1
        numAllocated := 1
        allocationTable := fun _ => ⟨1#32, claimed⟩
        events := {.balance}
        up := {0} }
    let es : List LockedEvent :=
      [.daemon (.balance ⟨-11, ready⟩), .daemon (.spreadReconnect ready), .getWackState,
        .daemon (.turnMature ⟨-11, ready⟩), .arpSpoofNotifier, .daemon (.command .failure ready)]
    ∃ d', setServiceState .failure ready running >>=
        es.foldlM (LockedEvent.step spreadTypes cfg) = .ok d' ∧
      d'.mbox = -1 ∧
      (∀ i, (d'.allocationTable i).realIf = 0#32 ∧ (d'.oldTable i).realIf = 0#32) ∧
      d'.up = ∅ ∧ ∃ acts, d'.trace = acts ++ running.trace ∧ ∀ i, .acquire i ∉ acts :=
  failure_holds spreadTypes _ _ _ (by simp [LockedEvent.Offline, Event.Offline])

end Wackamole
