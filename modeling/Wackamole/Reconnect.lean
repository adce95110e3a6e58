import Wackamole.Network
import Wackamole.Library.Loops

/-! What `Clean_up` and `Spread_reconnect` leave behind, and what a multicast that
fails does to the daemon that sent it. -/
namespace Wackamole

variable {n : Nat} {cfg : Config n}

/-- The entry of a table after `Clean_up`: no owner, and the priority it had. -/
def Entry.disown (e : Entry) : Entry := { e with realIf := 0#32 }

/-- The passes of `Clean_up` over some of the interfaces. -/
theorem foldl_cleanUpEntry (l : List (Fin n)) (d : Daemon n) :
    l.foldl cleanUpEntry d =
      { d with
        numAllocated := d.numAllocated - l.length
        allocationTable := fun i =>
          if i ∈ l then (d.allocationTable i).disown else d.allocationTable i
        oldTable := fun i => if i ∈ l then (d.oldTable i).disown else d.oldTable i
        up := d.up \ l.toFinset
        acquired := d.acquired \ l.toFinset
        trace := (l.map .release).reverse ++ d.trace } := by
  induction l generalizing d with
  | nil => simp
  | cons i l ih =>
      rw [List.foldl_cons, ih]
      have hTable (table : Fin n → Entry) (j : Fin n) :
          (if j ∈ l then (Function.update table i (table i).disown j).disown
            else Function.update table i (table i).disown j) =
          if j ∈ i :: l then (table j).disown else table j := by
        by_cases hj : j = i
        · subst hj
          simp [Entry.disown]
        · simp [hj]
      have hErase (s : Finset (Fin n)) : s.erase i \ l.toFinset = s \ (i :: l).toFinset := by
        ext j
        simp only [Finset.mem_sdiff, Finset.mem_erase, List.mem_toFinset, List.mem_cons]
        tauto
      have hNum : d.numAllocated - 1 - (l.length : Int) =
          d.numAllocated - ((i :: l).length : Int) := by
        simp only [List.length_cons]
        omega
      simp only [cleanUpEntry, Daemon.release, Daemon.setAllocation, Daemon.setOld, hErase, hNum,
        List.map_cons, List.reverse_cons, List.append_assoc, List.singleton_append]
      congr 1
      · exact funext (hTable d.allocationTable)
      · exact funext (hTable d.oldTable)

theorem cleanUp_eq (d : Daemon n) :
    cleanUp d =
      { d with
        numAllocated := d.numAllocated - n
        allocationTable := fun i => (d.allocationTable i).disown
        oldTable := fun i => (d.oldTable i).disown
        up := ∅
        acquired := ∅
        trace := ((List.finRange n).map .release).reverse ++ d.trace } := by
  have hAll (s : Finset (Fin n)) : s \ (List.finRange n).toFinset = ∅ := by
    ext j
    simp
  simp only [cleanUp, foldl_cleanUpEntry, hAll, List.mem_finRange, if_true, List.length_finRange]

@[simp] theorem cleanUp_up (d : Daemon n) : (cleanUp d).up = ∅ := by rw [cleanUp_eq]

/-- What a daemon has in common with the one that went into `Spread_reconnect`:
everything but the session, the addresses and the owners in the tables. -/
structure Reconnected (d d' : Daemon n) : Prop where
  numMembers : d'.numMembers = d.numMembers
  members : d'.members = d.members
  myIndex : d'.myIndex = d.myIndex
  gid : d'.gid = d.gid
  mess : d'.mess = d.mess
  messType : d'.messType = d.messType
  endianMismatch : d'.endianMismatch = d.endianMismatch
  serviceType : d'.serviceType = d.serviceType
  numGroups : d'.numGroups = d.numGroups
  numPendingStates : d'.numPendingStates = d.numPendingStates
  sender : d'.sender = d.sender
  spreadLock : d'.spreadLock = d.spreadLock
  allocationTable : ∀ i, d'.allocationTable i = (d.allocationTable i).disown
  oldTable : ∀ i, d'.oldTable i = (d.oldTable i).disown
  up : d'.up = ∅
  acquired : d'.acquired = ∅
  trace : d'.trace = ((List.finRange n).map .release).reverse ++ d.trace

/-- A connection starts over in BOOT with nothing allocated; without one the
automaton stays where it was. -/
def Reconnected.Session (d d' : Daemon n) : Prop :=
  d'.state = .boot ∧ d'.oldMaturity = false ∧ d'.maturity = false ∧ d'.numAllocated = 0 ∨
  d'.state = d.state ∧ d'.oldMaturity = d.oldMaturity ∧ d'.maturity = d.maturity ∧
    d'.numAllocated = d.numAllocated - n ∧ .spreadReconnect ∈ d'.events

theorem spreadReconnect_rejected {ret : Int} (h : ¬ acceptedCode ret) (c : Connection)
    (d : Daemon n) : spreadReconnect ret c d = .error ⟨.exit, d⟩ := by
  rw [spreadReconnect, if_pos h]
  rfl

/-- `Spread_reconnect` returns whenever it accepts the code, connected or not. -/
theorem spreadReconnect_accepted {ret : Int} (h : acceptedCode ret) (c : Connection)
    (d : Daemon n) :
    ∃ d', spreadReconnect ret c d = .ok d' ∧ Reconnected d d' ∧ Reconnected.Session d d' := by
  rw [spreadReconnect, if_neg (not_not.mpr h), cleanUp_eq]
  dsimp only
  split_ifs <;> refine ⟨_, rfl, ?_, ?_⟩ <;>
    first
    | exact ⟨rfl, rfl, rfl, rfl, rfl, rfl, rfl, rfl, rfl, rfl, rfl, rfl, fun _ => rfl, fun _ => rfl,
        rfl, rfl, rfl⟩
    | exact .inl ⟨rfl, rfl, rfl, rfl⟩
    | exact .inr ⟨rfl, rfl, rfl, rfl, Finset.mem_insert_self _ _⟩

theorem spreadReconnect_ok {ret : Int} {c : Connection} {d d' : Daemon n}
    (h : spreadReconnect ret c d = .ok d') :
    acceptedCode ret ∧ Reconnected d d' ∧ Reconnected.Session d d' := by
  by_cases hCode : acceptedCode ret
  · obtain ⟨d₁, hEq, hReconnected⟩ := spreadReconnect_accepted hCode c d
    rw [hEq, Except.ok.injEq] at h
    exact ⟨hCode, h ▸ hReconnected⟩
  · rw [spreadReconnect_rejected hCode] at h
    cases h

/-- What `SP_multicast` may answer without ending the daemon. -/
def Multicast.Survivable (mc : Multicast) : Prop := 0 ≤ mc.ret ∨ acceptedCode mc.ret

theorem multicast_sent {mc : Multicast} (h : 0 ≤ mc.ret) (messType : Int) (words : List Word)
    (d : Daemon n) :
    multicast messType words mc d = .ok (d.record (.multicast messType words mc.ret)) := by
  rw [multicast, if_neg (not_lt.mpr h)]

theorem multicast_failed {mc : Multicast} (h : mc.ret < 0) (messType : Int) (words : List Word)
    (d : Daemon n) :
    multicast messType words mc d =
      spreadReconnect mc.ret mc.again (d.record (.multicast messType words mc.ret)) := by
  rw [multicast, if_pos h]

/-- A multicast that returns has been sent, or `Spread_reconnect` has returned after it. -/
theorem multicast_ok {messType : Int} {words : List Word} {mc : Multicast} {d d' : Daemon n}
    (h : multicast messType words mc d = .ok d') :
    0 ≤ mc.ret ∧ d' = d.record (.multicast messType words mc.ret) ∨
      mc.ret < 0 ∧
        spreadReconnect mc.ret mc.again (d.record (.multicast messType words mc.ret)) = .ok d' := by
  by_cases hSent : 0 ≤ mc.ret
  · rw [multicast_sent hSent] at h
    cases h
    exact .inl ⟨hSent, rfl⟩
  · rw [multicast_failed (not_le.mp hSent)] at h
    exact .inr ⟨not_le.mp hSent, h⟩

/-- A daemon about to multicast its STATE message. -/
def announcing (cfg : Config n) (d : Daemon n) : Daemon n :=
  (enterView d).write (stateMess cfg (enterView d)).words

/-- The assertion of `Send_state_message`. -/
def Accountable (cfg : Config n) (d : Daemon n) : Prop :=
  ((stateMess cfg (enterView d)).claims.length : Int) = d.numAllocated

theorem handleMembership_stranger {mc : Multicast} {d : Daemon n}
    (h : d.sender ≠ cfg.spreadGroup) : handleMembership cfg mc d = .error ⟨.exit, cleanUp d⟩ := by
  rw [handleMembership, if_pos h]
  rfl

theorem handleMembership_unaccountable {mc : Multicast} {d : Daemon n}
    (hSender : d.sender = cfg.spreadGroup) (h : ¬ Accountable cfg d) :
    handleMembership cfg mc d = .error ⟨.abort, announcing cfg d⟩ := by
  rw [handleMembership, if_neg (not_not.mpr hSender), sendStateMessage, if_neg (by exact h)]
  rfl

theorem handleMembership_accountable {mc : Multicast} {d : Daemon n}
    (hSender : d.sender = cfg.spreadGroup) (h : Accountable cfg d) :
    handleMembership cfg mc d =
      (multicast stateMessType (stateMess cfg (enterView d)).words mc (announcing cfg d)).map
        fun d => { d with state := .gather }.dequeue .balance := by
  rw [handleMembership, if_neg (not_not.mpr hSender), sendStateMessage, if_pos (by exact h)]
  rfl

/-- `Handle_membership` returns only for a member of the group, after the multicast of an
accounted STATE message. -/
theorem handleMembership_multicast {mc : Multicast} {d d₀ : Daemon n}
    (h : handleMembership cfg mc d = .ok d₀) :
    d.sender = cfg.spreadGroup ∧ Accountable cfg d ∧
      ∃ d₁, multicast stateMessType (stateMess cfg (enterView d)).words mc (announcing cfg d) =
        .ok d₁ ∧ d₀ = { d₁ with state := .gather }.dequeue .balance := by
  by_cases hSender : d.sender = cfg.spreadGroup
  · by_cases hCount : Accountable cfg d
    · rw [handleMembership_accountable hSender hCount] at h
      exact ⟨hSender, hCount, Run.map_ok.mp h⟩
    · rw [handleMembership_unaccountable hSender hCount] at h
      cases h
  · rw [handleMembership_stranger hSender] at h
    cases h

/-- `Balance` multicasts a plan, or it does nothing but queue itself. -/
theorem balance_ok {mc : Multicast} {d d' : Daemon n} (h : balance cfg mc d = .ok d') :
    (¬ (d.myIndex = 0 ∧ d.state = .run ∧ (balanceMess cfg d).isSome) ∧
      (d' = d ∨ d' = balanceLeave cfg d)) ∨
    (d.myIndex = 0 ∧ d.state = .run ∧ (balanceMess cfg d).isSome) ∧
      ∃ (m : BalanceMess) (d₁ : Daemon n), multicast balanceMessType m.words mc
          ({ d with state := .balance }.write m.words) = .ok d₁ ∧
        d' = balanceLeave cfg { d₁ with state := .run } := by
  unfold balance at h
  split_ifs at h with hIndex hState
  · cases h
    exact .inl ⟨fun hSends => hIndex hSends.1, .inr rfl⟩
  · cases h
    exact .inl ⟨fun hSends => hState hSends.2.1, .inl rfl⟩
  · rw [not_not] at hIndex hState
    cases hPlan : balanceMess cfg d with
    | none =>
        rw [hPlan] at h
        cases h
        have hSame : { d with state := .run } = d := by
          cases d
          cases hState
          rfl
        exact .inl ⟨fun hSends => Bool.false_ne_true hSends.2.2, .inr (by rw [hSame])⟩
    | some m =>
        rw [hPlan] at h
        obtain ⟨d₁, hMess, hLeave⟩ := Run.bind_ok.mp h
        exact .inr ⟨⟨hIndex, hState, rfl⟩, m, d₁, hMess, (Except.ok.inj hLeave).symm⟩

/-- The daemon that `Handle_membership` leaves, whatever became of its multicast. -/
theorem handleMembership_ok {mc : Multicast} {d d₀ : Daemon n}
    (h : handleMembership cfg mc d = .ok d₀) :
    d₀.state = .gather ∧ d₀.numPendingStates = d.numGroups ∧
      ∀ j, d₀.allocationTable j = ⟨0#32, unclaimed⟩ := by
  obtain ⟨-, -, d₁, hMess, rfl⟩ := handleMembership_multicast h
  by_cases hSent : 0 ≤ mc.ret
  · rw [multicast_sent hSent] at hMess
    cases hMess
    exact ⟨rfl, rfl, fun _ => rfl⟩
  · rw [multicast_failed (not_le.mp hSent)] at hMess
    obtain ⟨_, hReconnected, _⟩ := spreadReconnect_ok hMess
    exact ⟨rfl, hReconnected.numPendingStates, hReconnected.allocationTable⟩

end Wackamole
