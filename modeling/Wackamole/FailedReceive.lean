import Wackamole.Frame

/-! What `Handle_network` does after a failed receive: it reconnects, and then goes on
to the dispatch with the global variables as the previous message left them. -/
namespace Wackamole

variable {n : Nat} {cfg : Config n}

def Act.handler? : Act n → Option Handler
  | .handler h => some h
  | _ => none

/-- The handlers that a daemon has run, latest first. -/
def Daemon.handlers (d : Daemon n) : List Handler := d.trace.filterMap Act.handler?

@[simp] theorem Daemon.handlers_record_handler (d : Daemon n) (h : Handler) :
    (d.record (.handler h)).handlers = h :: d.handlers := rfl

/-- No operation below the dispatch runs a handler. -/
theorem handlers_untouched : Untouched (Daemon.handlers (n := n)) := fun _ =>
  { acquire := fun _ _ h => h
    release := fun _ _ h => h
    reup := fun _ _ h => h
    setAllocation := fun _ _ _ h => h
    setOld := fun _ _ _ h => h
    members := fun _ _ h => h
    automaton := fun _ _ _ _ _ h => h
    queueBalance := fun _ h => h
    dequeueMature := fun _ h => h
    mess := fun _ _ h => h }

theorem Reconnected.handlers {d d' : Daemon n} (h : Reconnected d d') :
    d'.handlers = d.handlers := by
  have hNone : ((List.finRange n).map (Act.release (n := n))).reverse.filterMap Act.handler? = [] := by
    rw [List.filterMap_eq_nil_iff]
    intro act hAct
    obtain ⟨i, _, rfl⟩ := List.mem_map.mp (List.mem_reverse.mp hAct)
    rfl
  rw [Daemon.handlers, h.trace, List.filterMap_append, hNone]
  rfl

theorem multicast_handlers {messType : Int} {words : List Word} {mc : Multicast} {d d' : Daemon n}
    (h : multicast messType words mc d = .ok d') : d'.handlers = d.handlers := by
  rcases multicast_ok h with ⟨-, rfl⟩ | ⟨-, hAgain⟩
  · rfl
  · exact (spreadReconnect_ok hAgain).2.1.handlers

theorem handleMembership_handlers {mc : Multicast} {d d' : Daemon n}
    (h : handleMembership cfg mc d = .ok d') : d'.handlers = d.handlers := by
  obtain ⟨-, -, d₁, hMess, rfl⟩ := handleMembership_multicast h
  exact (multicast_handlers hMess :)

/-- The dispatch finds nothing to do: a transitional membership message, or a regular
message of a type that it ignores. -/
def Ignored (svc : ServiceTypes) (d : Daemon n) : Prop :=
  if svc.isMembershipMess d.serviceType then svc.isRegMembMess d.serviceType = false
  else svc.isRegularMess d.serviceType = true ∧
    d.messType ∉ [stateMessType, maturingMessType, balanceMessType, operatorMessType,
      arpcacheMessType]

/-- A regular message of a known type runs its handler. -/
theorem handleRegular_handlers (d : Daemon n)
    (h : d.messType ∈ [stateMessType, maturingMessType, balanceMessType, operatorMessType,
      arpcacheMessType]) :
    ∃ handler, (handleRegular cfg d).handlers = handler :: d.handlers := by
  unfold handleRegular
  split_ifs with hState hMature hBalance hOperator hArp
  · exact ⟨.state, handlers_untouched.handleState cfg _⟩
  · exact ⟨.mature, handlers_untouched.handleMature cfg _⟩
  · exact ⟨.balance, handlers_untouched.handleBalance cfg _⟩
  · exact ⟨.operator, rfl⟩
  · exact ⟨.arpCache, rfl⟩
  · simp only [List.mem_cons, List.not_mem_nil, or_false] at h
    tauto

/-- The dispatch does nothing, or it runs a handler, or it ends the daemon. -/
theorem dispatch_cases (svc : ServiceTypes) (cfg : Config n) (ret : Int) (a : Answers)
    (d : Daemon n) :
    (Ignored svc d ∧ dispatch svc cfg ret a d = .ok d) ∨
    (¬ Ignored svc d ∧ ∀ d', dispatch svc cfg ret a d = .ok d' →
      ∃ handler, d'.handlers = handler :: d.handlers) := by
  unfold dispatch Ignored
  by_cases hMembership : svc.isMembershipMess d.serviceType = true
  · rw [if_pos hMembership, if_pos hMembership]
    by_cases hReg : svc.isRegMembMess d.serviceType = true
    · refine .inr ⟨by simp [hReg], fun d' h => ⟨.membership, ?_⟩⟩
      rw [if_pos hReg] at h
      obtain ⟨d₁, hView, hShare⟩ := Run.bind_ok.mp h
      have hArp : d'.handlers = d₁.handlers := multicast_handlers (d := d₁.write a.arps) hShare
      rw [hArp, handleMembership_handlers hView]
      rfl
    · exact .inl ⟨by simpa using hReg, if_neg hReg⟩
  · rw [if_neg hMembership, if_neg hMembership]
    by_cases hRegular : svc.isRegularMess d.serviceType = true
    · rw [if_pos hRegular]
      by_cases hType : d.messType ∈ [stateMessType, maturingMessType, balanceMessType,
          operatorMessType, arpcacheMessType]
      · refine .inr ⟨fun hIgnored => hIgnored.2 hType, fun d' h => ?_⟩
        split_ifs at h
        · cases h
        · cases h
          exact handleRegular_handlers d hType
      · refine .inl ⟨⟨hRegular, hType⟩, ?_⟩
        rw [if_neg fun hOverruns => hType (by simp [hOverruns.1])]
        simp only [List.mem_cons, List.not_mem_nil, or_false, not_or] at hType
        obtain ⟨hState, hMature, hBalance, hOperator, hArp⟩ := hType
        rw [handleRegular, if_neg hState, if_neg hMature, if_neg hBalance, if_neg hOperator,
          if_neg hArp]
    · rw [if_neg hRegular]
      refine .inr ⟨fun hIgnored => hRegular hIgnored.1, fun d' h => ?_⟩
      cases h

/-- What the claims, the view and the counters of a daemon are, and what it has up. -/
structure ProtocolState (n : Nat) where
  allocationTable : Fin n → Entry
  oldTable : Fin n → Entry
  state : Automaton
  maturity : Bool
  oldMaturity : Bool
  numAllocated : Int
  numMembers : Nat
  members : Nat → Member
  myIndex : Nat
  numPendingStates : Int
  up : Finset (Fin n)

def Daemon.protocolState (d : Daemon n) : ProtocolState n :=
  ⟨d.allocationTable, d.oldTable, d.state, d.maturity, d.oldMaturity, d.numAllocated, d.numMembers,
    d.members, d.myIndex, d.numPendingStates, d.up⟩

/-- `Handle_network` returns with exactly what `Spread_reconnect` left, and no handler
has run again. -/
def OnlyReconnects (svc : ServiceTypes) (cfg : Config n) (ret : Int) (a : Answers)
    (d : Daemon n) : Prop :=
  ∃ d₁ d₂, spreadReconnect ret a.again d = .ok d₁ ∧
    handleNetwork svc cfg (.failed ret) a d = .ok d₂ ∧
    d₂.protocolState = d₁.protocolState ∧ d₂.handlers = d₁.handlers

/-- A failed receive has only the effect of the reconnect exactly when the previous
message was one that the dispatch ignores, whatever the outcome of the reconnect. -/
theorem onlyReconnects_iff (svc : ServiceTypes) (cfg : Config n) {ret : Int}
    (hCode : acceptedCode ret) (a : Answers) (d : Daemon n) :
    OnlyReconnects svc cfg ret a d ↔ Ignored svc d := by
  obtain ⟨d₁, hAgain, hReconnected, _⟩ := spreadReconnect_accepted hCode a.again d
  have hNetwork : handleNetwork svc cfg (.failed ret) a d = dispatch svc cfg ret a d₁ := by
    rw [handleNetwork, hAgain]
    rfl
  have hSame : Ignored svc d₁ ↔ Ignored svc d := by
    rw [Ignored, Ignored, hReconnected.serviceType, hReconnected.messType]
  rcases dispatch_cases svc cfg ret a d₁ with ⟨hIgnored, hDispatch⟩ | ⟨hHandled, hDispatch⟩
  · refine ⟨fun _ => hSame.mp hIgnored, fun _ => ⟨d₁, d₁, hAgain, ?_, rfl, rfl⟩⟩
    rw [hNetwork, hDispatch]
  · refine ⟨fun hOnly => ?_, fun hIgnored => absurd (hSame.mpr hIgnored) hHandled⟩
    obtain ⟨d₁', d₂, hAgain', hNetwork', _, hHandlers⟩ := hOnly
    rw [hAgain, Except.ok.injEq] at hAgain'
    subst hAgain'
    obtain ⟨handler, hRun⟩ := hDispatch d₂ (hNetwork ▸ hNetwork')
    rw [hRun] at hHandlers
    exact absurd hHandlers (List.cons_ne_self _ _)

/-- The transitional message of a view change was the last one. -/
theorem onlyReconnects_transitional :
    let cfg : Config 1 := ⟨![10#32], [], 1#32, "wack1", 0, false, true⟩
    let d : Daemon 1 := { Daemon.initial 1 with serviceType := 0x2000 }
    let a : Answers := ⟨⟨true, 3, 0⟩, .success, [], .success⟩
    OnlyReconnects spreadTypes cfg (-8) a d ↔ Ignored spreadTypes d :=
  onlyReconnects_iff spreadTypes _ (by decide) _ _

/-- The first member of a view of two hears a MATURING message during the gather, and
then its receive fails. -/
def maturedInGather (cfg : Config 1) : Run 1 := do
  let view : Message := ⟨0x1000, "wack1", 2, 0, false, [7#32, 8#32, 9#32]⟩
  let matures : Message := ⟨0x10, "#wack2#b", 1, maturingMessType, false, []⟩
  let a : Answers := ⟨⟨true, 3, 0⟩, .success, [], .success⟩
  let d ← startUp ⟨true, 3, 0⟩ [] .success
  let d ← step spreadTypes cfg d (.network (.message view) a)
  step spreadTypes cfg d (.network (.message matures) a)

/-- The reconnect succeeds, and the stale MATURING message takes the daemon from BOOT to
RUN with every interface up. -/
theorem maturedInGather_acquires :
    let cfg : Config 1 := ⟨![10#32], [], 1#32, "wack1", 0, false, true⟩
    let a : Answers := ⟨⟨true, 3, 0⟩, .success, [], .success⟩
    ∃ d, maturedInGather cfg = .ok d ∧
      (handleNetwork spreadTypes cfg (.failed (-8)) a d).returns
        (fun d' => d'.state = .run ∧ d'.up = Finset.univ) = true ∧
      ¬ OnlyReconnects spreadTypes cfg (-8) a d := by
  intro cfg a
  have hRun : (maturedInGather cfg).returns (fun d =>
      (handleNetwork spreadTypes cfg (.failed (-8)) a d).returns
        (fun d' => d'.state = .run ∧ d'.up = Finset.univ) ∧
      (spreadReconnect (-8) a.again d).returns fun d' => d'.up = ∅) = true := by
    decide +kernel
  obtain ⟨d, hMatured, hBoth⟩ := Run.returns_iff.mp hRun
  obtain ⟨hNetwork, hAgain⟩ := of_decide_eq_true hBoth
  refine ⟨d, hMatured, hNetwork, ?_⟩
  rintro ⟨d₁, d₂, hOk₁, hOk₂, hState, _⟩
  rw [hOk₁] at hAgain
  rw [hOk₂] at hNetwork
  have hUp : d₂.up = d₁.up := congrArg ProtocolState.up hState
  rw [(of_decide_eq_true hNetwork).2, of_decide_eq_true hAgain] at hUp
  exact absurd hUp (by decide)

end Wackamole
