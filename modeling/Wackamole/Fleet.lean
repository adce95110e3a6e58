import Wackamole.Ledger
import Wackamole.StateCodec
import Wackamole.Hooks

/-! All hosts together. Spread forms views and orders what is multicast in them; the hosts
enter views, handle the messages of the view they are in, and run their timers and commands,
each in its own time.

The hosts have one byte order, so that no message is marked as an endian mismatch. Of Spread it
is assumed that what is multicast in a view is delivered in this view only, the `AGREED_MESS` in
one order for all members, and the ARP entries, which are a `RELIABLE_MESS`, in any. -/
namespace Wackamole

variable {hosts n : Nat}

/-- A multicast that went out: its type and its words. -/
abbrev Parcel := Int × List Word

/-- The multicasts that Spread orders. -/
def Parcel.isOrdered (parcel : Parcel) : Bool := decide (parcel.1 ≠ arpcacheMessType)

/-- A view as Spread keeps it: its members in order, those of them that have got the
membership message, what has been multicast in it and Spread has not ordered yet, what it
has, and what it does not order. -/
structure GroupView (hosts : Nat) where
  gid : GroupId
  members : List (Fin hosts)
  entered : Finset (Fin hosts)
  sent : List Parcel
  log : List Parcel
  shared : List Parcel

/-- A view with these multicasts. -/
def GroupView.carry (new : List Parcel) (view : GroupView hosts) : GroupView hosts :=
  { view with
    sent := view.sent ++ new.filter Parcel.isOrdered
    shared := view.shared ++ new.filter (!·.isOrdered) }

/-- The hosts and the views. -/
structure Fleet (hosts n : Nat) where
  daemon : Fin hosts → Daemon n
  /-- The view that a host is in, and how many of its ordered messages it has handled. -/
  place : Fin hosts → Option (Nat × Nat)
  ended : Fin hosts → Option Ending
  views : Nat → Option (GroupView hosts)
  /-- What connected hosts have multicast before they were in a view. -/
  stray : List Parcel

/-- What can happen next. -/
inductive Action (hosts : Nat) where
  | form (v : Nat) (gid : GroupId) (members : List (Fin hosts))
  | order (v k : Nat)
  /-- A multicast from outside comes to a view. -/
  | stray (v k : Nat)
  | enter (i : Fin hosts) (v : Nat) (a : Answers)
  /-- A host gets the next ordered message of its view. -/
  | handle (i : Fin hosts)
  /-- A host gets one of the messages that are not ordered. -/
  | hear (i : Fin hosts) (k : Nat)
  | act (i : Fin hosts) (e : Event)

/-- A multicast in the trace, unless it failed. -/
def Act.parcel? : Act n → Option Parcel
  | .multicast messType words ret => if 0 ≤ ret then some (messType, words) else none
  | _ => none

/-- All that a daemon has multicast, in order. -/
def Daemon.parcels (d : Daemon n) : List Parcel := (d.trace.filterMap Act.parcel?).reverse

/-- The message with which Spread delivers a multicast to a host of the same byte order. -/
def Parcel.message (parcel : Parcel) : Message := ⟨0x10, "", 1, parcel.1, false, parcel.2⟩

/-- The membership message of a view as the member at this host gets it. -/
def GroupView.membership (cfg : Fin hosts → Config n) (view : GroupView hosts) (i : Fin hosts) :
    Message :=
  ⟨0x1000, (cfg i).spreadGroup, view.members.length, view.members.idxOf i, false,
    [view.gid.id0, view.gid.id1, view.gid.id2]⟩

/-- The answers to a dispatch that asks for none. -/
def Answers.unasked : Answers := ⟨⟨false, 0, 0⟩, .success, [], .success⟩

/-- Timers and commands come from the host itself, and so does the loss of its connection. -/
def Event.isOwn : Event → Bool
  | .network (.message _) _ => false
  | _ => true

namespace Fleet

/-- No host has been started and there is no view. -/
def initial : Fleet hosts n :=
  ⟨fun _ => Daemon.initial n, fun _ => none, fun _ => none, fun _ => none, []⟩

/-- The views after a host that is in one of them, or in none, has multicast something. -/
def posted (here : Option (Nat × Nat)) (new : List Parcel) (s : Fleet hosts n) :
    Nat → Option (GroupView hosts) :=
  match here with
  | some (v, _) => Function.update s.views v ((s.views v).map (GroupView.carry new))
  | none => s.views

/-- What has been multicast outside of the views. Before its first view a host becomes mature and
shares its ARP entries; a plan of `Balance` from there is taken to be lost. -/
def strayed (here : Option (Nat × Nat)) (mbox : Int) (new : List Parcel) (s : Fleet hosts n) :
    List Parcel :=
  if here = none ∧ 0 ≤ mbox then
    s.stray ++ new.filter fun parcel =>
      decide (parcel.1 = maturingMessType ∨ parcel.1 = arpcacheMessType)
  else s.stray

/-- One call of the event loop at a host. What it multicasts goes to its view, and a call of
`Spread_reconnect` takes it out of the view. -/
def perform (cfg : Fin hosts → Config n) (i : Fin hosts) (e : Event) (here : Option (Nat × Nat))
    (s : Fleet hosts n) : Fleet hosts n :=
  let d := s.daemon i
  let result := step spreadTypes (cfg i) d e
  let new := result.last.parcels.drop d.parcels.length
  let views := s.posted here new
  let stray := s.strayed here d.mbox new
  match result with
  | .ok d' =>
    { daemon := Function.update s.daemon i d'
      place := Function.update s.place i
        (if e.calls spreadTypes (cfg i) d = [] then here else none)
      ended := s.ended
      views
      stray }
  | .error halted =>
    { daemon := Function.update s.daemon i halted.last
      place := Function.update s.place i none
      ended := Function.update s.ended i (some halted.ending)
      views
      stray }

/-- One step; what cannot happen changes nothing. `SP_receive` takes no view with more than
`MAX_PSEUDO` members. -/
def next (cfg : Fin hosts → Config n) (s : Fleet hosts n) : Action hosts → Fleet hosts n
  | .form v gid members =>
    if s.views v = none ∧ members.Nodup ∧ members.length ≤ maxPseudo then
      { s with views := Function.update s.views v (some ⟨gid, members, ∅, [], [], []⟩) }
    else s
  | .order v k =>
    match s.views v with
    | some view =>
      match view.sent[k]? with
      | some parcel =>
        { s with
          views := Function.update s.views v (some
            { view with sent := view.sent.eraseIdx k, log := view.log ++ [parcel] }) }
      | none => s
    | none => s
  | .stray v k =>
    match s.views v with
    | some view =>
      match s.stray[k]? with
      | some parcel =>
        { s with
          views := Function.update s.views v (some (view.carry [parcel]))
          stray := s.stray.eraseIdx k }
      | none => s
    | none => s
  | .enter i v a =>
    match s.views v with
    | some view =>
      if i ∈ view.members ∧ i ∉ view.entered ∧ s.ended i = none ∧ 0 ≤ (s.daemon i).mbox then
        perform cfg i (.network (.message (view.membership cfg i)) a) (some (v, 0))
          { s with
            views := Function.update s.views v
              (some { view with entered := insert i view.entered }) }
      else s
    | none => s
  | .handle i =>
    match s.place i with
    | some (v, k) =>
      match (s.views v).bind fun view => view.log[k]? with
      | some parcel =>
        perform cfg i (.network (.message parcel.message) .unasked) (some (v, k + 1)) s
      | none => s
    | none => s
  | .hear i k =>
    match s.place i with
    | some (v, handled) =>
      match (s.views v).bind fun view => view.shared[k]? with
      | some parcel =>
        perform cfg i (.network (.message parcel.message) .unasked) (some (v, handled)) s
      | none => s
    | none => s
  | .act i e =>
    if s.ended i = none ∧ e.isOwn then perform cfg i e (s.place i) s else s

def run (cfg : Fin hosts → Config n) (actions : List (Action hosts)) : Fleet hosts n :=
  actions.foldl (next cfg) initial

end Fleet

/-- A call that multicasts these, and ends the daemon by nothing else than `exit`. -/
structure Posts (d : Daemon n) (r : Run n) (new : List Parcel) : Prop where
  parcels : r.last.parcels = d.parcels ++ new
  ending : ∀ halted, r = .error halted → halted.ending = .exit

namespace Posts

variable {d : Daemon n} {r : Run n} {new : List Parcel}

theorem of_ok {d' : Daemon n} (h : d'.parcels = d.parcels) : Posts d (.ok d') [] :=
  ⟨h.trans (List.append_nil _).symm, fun _ hEq => by cases hEq⟩

theorem congr {d₀ : Daemon n} (h : Posts d r new) (hSame : d₀.parcels = d.parcels) :
    Posts d₀ r new :=
  ⟨by rw [h.parcels, hSame], h.ending⟩

/-- What a call returns may be changed where its multicasts do not show. -/
theorem map (h : Posts d r new) {f : Daemon n → Daemon n}
    (hSame : ∀ d', (f d').parcels = d'.parcels) : Posts d (r.map f) new := by
  cases r with
  | ok d' => exact ⟨(hSame d').trans h.parcels, fun _ hEq => by cases hEq⟩
  | error halted => exact ⟨h.parcels, fun halted' hEq => h.ending halted' hEq⟩

/-- One call after the other. -/
theorem bind (h : Posts d r new) {f : Daemon n → Run n} {p : List Parcel → Prop}
    (hNext : ∀ d', r = .ok d' → ∃ more, Posts d' (f d') more ∧ p more) (hNil : p []) :
    ∃ more, Posts d (r >>= f) (new ++ more) ∧ p more := by
  cases r with
  | ok d' =>
      obtain ⟨more, hMore, hp⟩ := hNext d' rfl
      refine ⟨more, ⟨?_, hMore.ending⟩, hp⟩
      rw [← List.append_assoc, ← h.parcels]
      exact hMore.parcels
  | error halted => exact ⟨[], ⟨by rw [List.append_nil]; exact h.parcels, h.ending⟩, hNil⟩

end Posts

section Posts

variable {cfg : Config n} {d : Daemon n}

theorem parcels_eq_of_trace {d' : Daemon n} {acts : List (Act n)}
    (hTrace : d'.trace = acts ++ d.trace) (hActs : ∀ act ∈ acts, act.parcel? = none) :
    d'.parcels = d.parcels := by
  have hNone : acts.filterMap Act.parcel? = [] := List.filterMap_eq_nil_iff.mpr hActs
  rw [Daemon.parcels, hTrace, List.filterMap_append, hNone]
  rfl

theorem Reconnected.parcels {d' : Daemon n} (h : Reconnected d d') : d'.parcels = d.parcels := by
  refine parcels_eq_of_trace h.trace fun act hAct => ?_
  obtain ⟨i, _, rfl⟩ := List.mem_map.mp (List.mem_reverse.mp hAct)
  rfl

theorem spreadReconnect_posts (ret : Int) (c : Connection) :
    Posts d (spreadReconnect ret c d) [] := by
  by_cases hCode : acceptedCode ret
  · obtain ⟨d', hEq, hReconnected, _⟩ := spreadReconnect_accepted hCode c d
    rw [hEq]
    exact .of_ok hReconnected.parcels
  · rw [spreadReconnect_rejected hCode]
    exact ⟨(List.append_nil _).symm, by rintro _ ⟨⟩; rfl⟩

theorem multicast_posts (messType : Int) (words : List Word) (mc : Multicast) :
    Posts d (multicast messType words mc d) (if 0 ≤ mc.ret then [(messType, words)] else []) := by
  have hRecord : (d.record (.multicast messType words mc.ret)).parcels =
      d.parcels ++ if 0 ≤ mc.ret then [(messType, words)] else [] := by
    rw [Daemon.parcels, Daemon.record, List.filterMap_cons, Act.parcel?]
    split_ifs
    · exact List.reverse_cons
    · exact (List.append_nil _).symm
  by_cases hSent : 0 ≤ mc.ret
  · rw [multicast_sent hSent]
    exact ⟨hRecord, fun _ hEq => by cases hEq⟩
  · have hAgain := spreadReconnect_posts (d := d.record (.multicast messType words mc.ret))
      mc.ret mc.again
    rw [multicast_failed (not_le.mp hSent)]
    refine ⟨?_, hAgain.ending⟩
    rw [hAgain.parcels, hRecord, List.append_nil]

theorem cleanUp_parcels (d : Daemon n) : (cleanUp d).parcels = d.parcels := by
  have hTrace : (cleanUp d).trace = ((List.finRange n).map .release).reverse ++ d.trace := by
    rw [cleanUp_eq]
  refine parcels_eq_of_trace hTrace fun act hAct => ?_
  obtain ⟨i, _, rfl⟩ := List.mem_map.mp (List.mem_reverse.mp hAct)
  rfl

theorem balanceLeave_parcels (d : Daemon n) : (balanceLeave cfg d).parcels = d.parcels := by
  unfold balanceLeave
  split_ifs <;> rfl

/-- Nothing but multicasts shows in the trace as a multicast. -/
theorem parcels_untouched : Untouched (Daemon.parcels (n := n)) := by
  intro v
  refine ⟨?_, ?_, ?_, ?_, ?_, ?_, ?_, ?_, ?_, ?_⟩ <;> (intros; assumption)

theorem handleRegular_parcels (d : Daemon n) : (handleRegular cfg d).parcels = d.parcels :=
  parcels_untouched.handleRegular cfg (fun _ _ => rfl) d

/-- Without a membership message the dispatch multicasts nothing. -/
theorem dispatch_posts {svc : ServiceTypes} {ret : Int} {a : Answers} {m : Message}
    (hKind : m.kind svc ≠ .view) : Posts d (dispatch svc cfg ret a (d.load m)) [] := by
  unfold dispatch
  unfold Message.kind at hKind
  by_cases hMembership : svc.isMembershipMess m.serviceType = true
  · have hMembership' : svc.isMembershipMess (d.load m).serviceType = true := hMembership
    rw [if_pos hMembership] at hKind
    rw [if_pos hMembership']
    by_cases hReg : svc.isRegMembMess m.serviceType = true
    · rw [if_pos hReg] at hKind
      exact absurd rfl hKind
    · have hReg' : ¬ svc.isRegMembMess (d.load m).serviceType = true := hReg
      rw [if_neg hReg']
      exact .of_ok rfl
  · have hMembership' : ¬ svc.isMembershipMess (d.load m).serviceType = true := hMembership
    rw [if_neg hMembership']
    split_ifs
    · refine ⟨?_, ?_⟩
      · rw [List.append_nil]
        exact cleanUp_parcels _
      · rintro _ ⟨⟩
        rfl
    · exact .of_ok (handleRegular_parcels _)
    · refine ⟨(List.append_nil _).symm, ?_⟩
      rintro _ ⟨⟩
      rfl

section View

variable {cfg : Fin hosts → Config n} {i : Fin hosts} {view : GroupView hosts} {a : Answers}

theorem GroupView.membership_kind : (view.membership cfg i).kind spreadTypes = .view :=
  (if_pos (show spreadTypes.isMembershipMess 0x1000 = true by decide)).trans
    (if_pos (show spreadTypes.isRegMembMess 0x1000 = true by decide))

/-- How a daemon handles the membership message of a view. -/
theorem step_membership (d : Daemon n) :
    step spreadTypes (cfg i) d (.network (.message (view.membership cfg i)) a) =
      handleMembership (cfg i) a.state
        ((d.load (view.membership cfg i)).record (.handler .membership)) >>=
      sendLocalArpCache a.arps a.arp := by
  have hMembership :
      spreadTypes.isMembershipMess (d.load (view.membership cfg i)).serviceType = true := by
    exact (show spreadTypes.isMembershipMess 0x1000 = true by decide)
  have hReg : spreadTypes.isRegMembMess (d.load (view.membership cfg i)).serviceType = true := by
    exact (show spreadTypes.isRegMembMess 0x1000 = true by decide)
  change dispatch spreadTypes (cfg i) _ a (d.load (view.membership cfg i)) = _
  rw [dispatch, if_pos hMembership, if_pos hReg]

variable {d : Daemon n} {d₁ : Daemon n}
  (hLoad : d₁ = (d.load (view.membership cfg i)).record (.handler .membership))

include hLoad

/-- A member that is accounted for announces itself and then its share of the ARP cache. -/
theorem step_membership_posts (hCount : Accountable (cfg i) d₁) :
    ∃ more, Posts d (step spreadTypes (cfg i) d (.network (.message (view.membership cfg i)) a))
        ((if 0 ≤ a.state.ret then
          [(stateMessType, (stateMess (cfg i) (enterView d₁)).words)] else []) ++ more) ∧
      ∀ parcel ∈ more, parcel.1 = arpcacheMessType := by
  have hSender : d₁.sender = (cfg i).spreadGroup := by rw [hLoad]; rfl
  have hBefore : d.parcels = (announcing (cfg i) d₁).parcels := by rw [hLoad]; rfl
  rw [step_membership, ← hLoad, handleMembership_accountable hSender hCount]
  have hState := (multicast_posts (d := announcing (cfg i) d₁) stateMessType
    (stateMess (cfg i) (enterView d₁)).words a.state).congr hBefore
  refine (hState.map (f := fun d => { d with state := .gather }.dequeue .balance)
    fun _ => rfl).bind (f := sendLocalArpCache a.arps a.arp)
    (p := fun more => ∀ parcel ∈ more, parcel.1 = arpcacheMessType) (fun d₂ _ => ?_)
    fun _ hMem => absurd hMem List.not_mem_nil
  have hShare := multicast_posts (d := d₂.write a.arps) arpcacheMessType a.arps a.arp
  refine ⟨_, hShare.congr rfl, fun parcel hMem => ?_⟩
  split_ifs at hMem
  · rw [List.mem_singleton.mp hMem]
  · cases hMem

/-- If both go out, the member has entered the view. -/
theorem step_membership_entered (hCount : Accountable (cfg i) d₁)
    (hCalls : Event.calls spreadTypes (cfg i) d (.network (.message (view.membership cfg i)) a) = [])
    {d' : Daemon n}
    (hStep : step spreadTypes (cfg i) d (.network (.message (view.membership cfg i)) a) = .ok d') :
    (entered (cfg i) a.state.ret d₁).Buffered d' := by
  obtain ⟨hState, hArp⟩ := Session.sent_of_view GroupView.membership_kind hCalls
  have hSender : d₁.sender = (cfg i).spreadGroup := by rw [hLoad]; rfl
  rw [step_membership, ← hLoad, handleMembership_of_sent hSender hState hCount] at hStep
  have hShare : multicast arpcacheMessType a.arps a.arp
      ((entered (cfg i) a.state.ret d₁).write a.arps) = .ok d' := hStep
  rw [multicast_sent hArp] at hShare
  cases hShare
  rfl

end View

/-- What a host multicasts of its own: a plan of `Balance`, or a message without contents
that matter to the tables. -/
def Own (cfg : Config n) (d : Daemon n) (parcel : Parcel) : Prop :=
  parcel.1 = maturingMessType ∨ parcel.1 = arpcacheMessType ∨
    ∃ mess, parcel = (balanceMessType, mess.words) ∧ d.state = .run ∧
      balanceMess cfg d = some mess

theorem own_of_mc {messType : Int} {words : List Word} {mc : Multicast}
    (hOwn : Own cfg d (messType, words)) :
    ∀ parcel ∈ (if 0 ≤ mc.ret then [(messType, words)] else []), Own cfg d parcel := by
  intro parcel hMem
  split_ifs at hMem
  · rw [List.mem_singleton.mp hMem]
    exact hOwn
  · cases hMem

/-- A failed receive that does not handle a view once more. -/
def Event.Mild (d : Daemon n) : Event → Prop
  | .network (.failed _) _ =>
    d.stale.kind spreadTypes = .balance ∨ d.stale.kind spreadTypes = .other
  | _ => True

/-- The timers and commands of a host, and the loss of its connection. -/
theorem step_posts {e : Event} (hOwn : e.isOwn = true) (hMild : e.Mild d) :
    ∃ new, Posts d (step spreadTypes cfg d e) new ∧ ∀ parcel ∈ new, Own cfg d parcel := by
  have hNone {r : Run n} (h : Posts d r []) :
      ∃ new, Posts d r new ∧ ∀ parcel ∈ new, Own cfg d parcel :=
    ⟨[], h, fun _ hMem => absurd hMem List.not_mem_nil⟩
  cases e with
  | network r a =>
      cases r with
      | message m => cases hOwn
      | failed ret =>
          have hKind : d.stale.kind spreadTypes ≠ .view := by
            rcases hMild with hKind | hKind <;> rw [hKind] <;> decide
          have hStale {d' : Daemon n} (hAgain : spreadReconnect ret a.again d = .ok d') :
              Posts d' (dispatch spreadTypes cfg ret a d') [] := by
            have hDispatch : Posts d' (dispatch spreadTypes cfg ret a (d'.load d'.stale)) [] := by
              apply dispatch_posts
              rw [(spreadReconnect_ok hAgain).2.1.stale]
              exact hKind
            rwa [d'.load_stale] at hDispatch
          have hAgain := spreadReconnect_posts (d := d) ret a.again
          have hBoth := hAgain.bind (f := dispatch spreadTypes cfg ret a)
            (p := fun more => more = []) (fun d' hEq => ⟨[], hStale hEq, rfl⟩) rfl
          obtain ⟨_, hMore, rfl⟩ := hBoth
          exact hNone (by exact hMore)
  | turnMature mc =>
      exact ⟨_, (multicast_posts maturingMessType [] mc).congr rfl, own_of_mc (.inl rfl)⟩
  | balance mc =>
      change ∃ new, Posts d (balance cfg mc (d.dequeue .balance)) new ∧ _
      unfold balance
      split_ifs with hIndex hState
      · exact hNone (.of_ok (balanceLeave_parcels _))
      · exact hNone (.of_ok rfl)
      · cases hMess : balanceMess cfg (d.dequeue .balance) with
        | none => exact hNone (.of_ok (balanceLeave_parcels _))
        | some mess =>
            have hOwn : Own cfg d (balanceMessType, mess.words) :=
              .inr (.inr ⟨mess, rfl, not_not.mp hState, hMess⟩)
            refine ⟨if 0 ≤ mc.ret then [(balanceMessType, mess.words)] else [], ?_,
              own_of_mc hOwn⟩
            have hSent := multicast_posts (d := { d.dequeue .balance with
              state := .balance }.write mess.words) balanceMessType mess.words mc
            exact (hSent.map fun d' => balanceLeave_parcels { d' with state := .run }).congr rfl
  | spreadReconnect c => exact hNone ((spreadReconnect_posts (-2) c).congr rfl)
  | sendLocalArpCache arps mc =>
      exact ⟨_, (multicast_posts arpcacheMessType arps mc).congr rfl, own_of_mc (.inr (.inl rfl))⟩
  | command command c =>
      cases command with
      | failure =>
          have hSame := cleanUp_parcels { d with spreadLock := true, mbox := -1 }
          have hAgain := spreadReconnect_posts (-8) c (d := cleanUp { d with
            spreadLock := true, mbox := -1 })
          exact hNone (by exact hAgain.congr hSame.symm)
      | success =>
          have hAgain := spreadReconnect_posts (-8) c (d := { d with spreadLock := false })
          exact hNone (by exact hAgain.congr rfl)
  | signal =>
      refine hNone ⟨?_, ?_⟩
      · rw [List.append_nil]
        exact cleanUp_parcels d
      · rintro _ ⟨⟩
        rfl

/-- Unless an own event calls `Spread_reconnect`, the protocol does not notice it. -/
theorem step_buffered {e : Event} (hOwn : e.isOwn = true) {d' : Daemon n}
    (hStep : step spreadTypes cfg d e = .ok d') (hCalls : e.calls spreadTypes cfg d = []) :
    d.Buffered d' := by
  cases e with
  | network r a =>
      cases r with
      | message m => cases hOwn
      | failed ret => cases hCalls
  | turnMature mc =>
      rw [step, turnMature, multicast_sent (Multicast.calls_eq_nil.mp hCalls)] at hStep
      cases hStep
      rfl
  | balance mc =>
      have hSent (hSends : d.myIndex = 0 ∧ d.state = .run ∧ (balanceMess cfg d).isSome) :
          0 ≤ mc.ret := by
        rw [Event.calls, if_pos hSends] at hCalls
        exact Multicast.calls_eq_nil.mp hCalls
      have hFired := balance_buffered (d := d.dequeue .balance) hStep hSent
      rw [hFired]
      rfl
  | spreadReconnect c => cases hCalls
  | sendLocalArpCache arps mc =>
      rw [step, sendLocalArpCache, multicast_sent (Multicast.calls_eq_nil.mp hCalls)] at hStep
      cases hStep
      rfl
  | command command c => cases command <;> cases hCalls
  | signal => cases hStep

/-- An own event that calls `Spread_reconnect`. -/
theorem step_own_reset (hVip : Function.Injective cfg.pseudoIf) (hMe : cfg.realIf ≠ 0#32)
    {e : Event} (hOwn : e.isOwn = true) (hMild : e.Mild d) {d' : Daemon n}
    (hStep : step spreadTypes cfg d e = .ok d') (hCalls : e.calls spreadTypes cfg d ≠ []) :
    d'.Reset := by
  by_cases hReceived : ∃ ret a, e = .network (.failed ret) a
  · obtain ⟨ret, a, rfl⟩ := hReceived
    have hView : d.stale.kind spreadTypes ≠ .view := by
      rcases hMild with hKind | hKind <;> rw [hKind] <;> decide
    have hQuiet : Session.StaleAs ⟨d, none, []⟩ (a.again.connects d.spreadLock)
        (d.stale.kind spreadTypes) := by
      rcases hMild with hKind | hKind <;> rw [hKind] <;> trivial
    have hNext := Session.Inv.failed (s := ⟨d, none, []⟩) hVip hMe
      (fun hEq => absurd hEq hView) hQuiet hStep
    rw [Session.next_of_failed, if_neg fun hEnters => hView hEnters.1] at hNext
    exact hNext
  · exact step_reset hStep hCalls fun ret a hEq => hReceived ⟨ret, a, hEq⟩

end Posts

end Wackamole
