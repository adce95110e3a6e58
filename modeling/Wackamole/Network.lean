import Wackamole.Gather
import Wackamole.Balance

/-! The connection to Spread: reconnecting, multicasting, the dispatch of received
messages, the timers and the two service commands of the control session. The
results of the calls into Spread are arguments of the handlers. -/
namespace Wackamole

variable {n : Nat}

/-- How the daemon ends itself: `exit(0)`, or `abort` from a failed assertion. -/
inductive Ending where
  | exit
  | abort
  deriving DecidableEq, Repr

structure Halted (n : Nat) where
  ending : Ending
  last : Daemon n

/-- A handler returns, or the daemon has ended in the state it had reached. -/
abbrev Run (n : Nat) := Except (Halted n) (Daemon n)

/-- The daemon has returned in a state with this property. -/
def Run.returns (r : Run n) (p : Daemon n → Bool) : Bool :=
  match r with
  | .ok d => p d
  | .error _ => false

theorem Run.returns_iff {r : Run n} {p : Daemon n → Bool} :
    r.returns p = true ↔ ∃ d, r = .ok d ∧ p d = true := by
  cases r with
  | ok d =>
      constructor
      · exact fun hReturns => ⟨d, rfl, hReturns⟩
      · rintro ⟨_, ⟨⟩, hLast⟩
        exact hLast
  | error halted =>
      constructor
      · exact fun hReturns => absurd hReturns Bool.false_ne_true
      · rintro ⟨_, ⟨⟩, _⟩

/-- The daemon has ended like this, in a state with this property. -/
def Run.ends (r : Run n) (ending : Ending) (p : Daemon n → Bool) : Bool :=
  match r with
  | .ok _ => false
  | .error halted => decide (halted.ending = ending) && p halted.last

theorem Run.ends_iff {r : Run n} {ending : Ending} {p : Daemon n → Bool} :
    r.ends ending p = true ↔ ∃ last, r = .error ⟨ending, last⟩ ∧ p last = true := by
  cases r with
  | ok d =>
      constructor
      · exact fun hEnds => absurd hEnds Bool.false_ne_true
      · rintro ⟨_, ⟨⟩, _⟩
  | error halted =>
      constructor
      · intro hEnds
        obtain ⟨hEnding, hLast⟩ := Bool.and_eq_true_iff.mp hEnds
        obtain rfl := of_decide_eq_true hEnding
        exact ⟨halted.last, rfl, hLast⟩
      · rintro ⟨_, ⟨⟩, hLast⟩
        exact Bool.and_eq_true_iff.mpr ⟨decide_eq_true rfl, hLast⟩

theorem Run.bind_ok {r : Run n} {f : Daemon n → Run n} {d' : Daemon n} :
    (r >>= f) = .ok d' ↔ ∃ d, r = .ok d ∧ f d = .ok d' := by
  cases r with
  | ok d =>
      constructor
      · exact fun hNext => ⟨d, rfl, hNext⟩
      · rintro ⟨_, ⟨⟩, hNext⟩
        exact hNext
  | error halted =>
      constructor
      · intro hNext
        cases hNext
      · rintro ⟨_, ⟨⟩, _⟩

theorem Run.map_ok {r : Run n} {f : Daemon n → Daemon n} {d' : Daemon n} :
    r.map f = .ok d' ↔ ∃ d, r = .ok d ∧ d' = f d := by
  cases r with
  | ok d =>
      constructor
      · rintro ⟨⟩
        exact ⟨d, rfl, rfl⟩
      · rintro ⟨_, ⟨⟩, rfl⟩
        rfl
  | error halted =>
      constructor
      · intro hNext
        cases hNext
      · rintro ⟨_, ⟨⟩, _⟩

/-- `wack_alarm` with `EXIT`. -/
def alarmExit (d : Daemon n) : Run n := .error ⟨.exit, d⟩

/-- What `SP_connect` and `SP_join` answer in one call of `Spread_reconnect`. -/
structure Connection where
  /-- `SP_connect` returned `ACCEPT_SESSION`, with this mailbox. -/
  accepted : Bool
  mbox : Nat
  join : Int
  deriving DecidableEq, Repr

/-- What `SP_multicast` answers, and the connection attempt that follows if it fails. -/
structure Multicast where
  ret : Int
  again : Connection
  deriving DecidableEq, Repr

/-- A multicast that succeeds. -/
def Multicast.success : Multicast := ⟨0, ⟨false, 0, 0⟩⟩

/-- The error codes that `Spread_reconnect` accepts. -/
def acceptedCode (ret : Int) : Prop := ret = -8 ∨ ret = -11 ∨ ret = -2

instance (ret : Int) : Decidable (acceptedCode ret) := by
  unfold acceptedCode; infer_instance

/-- `handle_reconnect`. -/
def handleReconnect (d : Daemon n) : Daemon n := d.queue .spreadReconnect

/-- The state initializations of `Spread_reconnect` after a successful join. -/
def startSession (mbox : Nat) (d : Daemon n) : Daemon n :=
  { d with
    mbox := mbox
    state := .boot
    oldMaturity := false
    maturity := false
    numAllocated := 0 }.queue .turnMature

/-- `Spread_reconnect`. -/
def spreadReconnect (ret : Int) (c : Connection) (d : Daemon n) : Run n :=
  if ¬ acceptedCode ret then alarmExit d
  else
    let d := cleanUp d
    let d := if 0 ≤ d.mbox then { d with mbox := -1 } else d
    if d.spreadLock then .ok (handleReconnect d)
    else if c.accepted then
      if c.join < 0 then .ok (handleReconnect { d with mbox := -1 })
      else .ok (startSession c.mbox d)
    else .ok (handleReconnect d)

/-- `SP_multicast` of words already in `Mess`, and the reconnect when it fails. -/
def multicast (messType : Int) (words : List Word) (mc : Multicast) (d : Daemon n) : Run n :=
  let d := d.record (.multicast messType words mc.ret)
  if mc.ret < 0 then spreadReconnect mc.ret mc.again d else .ok d

/-- `Turn_mature`. -/
def turnMature (mc : Multicast) (d : Daemon n) : Run n :=
  multicast maturingMessType [] mc d

/-- `Send_local_arp_cache`, with the sampled ARP cache as it is copied to `Mess`. -/
def sendLocalArpCache (arps : List Word) (mc : Multicast) (d : Daemon n) : Run n :=
  multicast arpcacheMessType arps mc (d.write arps)

/-- The contents of the message that `Send_state_message` builds. -/
def stateMess (cfg : Config n) (d : Daemon n) : StateMess where
  gid := d.gid
  realAddress := cfg.realIf
  index := d.myIndex
  maturity := if d.maturity then 1 else 0
  numAllocated := d.numAllocated
  claims := ((List.finRange n).filter fun i => (d.oldTable i).realIf = cfg.realIf).map
    fun i => (cfg.pseudoIf i, (d.oldTable i).claimPriority)
  prefers := cfg.preferAddress

/-- The claims of a STATE message are the entries that name the member. -/
theorem stateMess_claims_length (cfg : Config n) (d : Daemon n) :
    (stateMess cfg d).claims.length = ownedBy d.oldTable cfg.realIf := by
  rw [stateMess, List.length_map]
  rfl

/-- `Send_state_message`. The assertion compares the entries it has written with
`My.num_allocated`. -/
def sendStateMessage (cfg : Config n) (mc : Multicast) (d : Daemon n) : Run n :=
  let m := stateMess cfg d
  let d := d.write m.words
  if (m.claims.length : Int) = d.numAllocated then multicast stateMessType m.words mc d
  else .error ⟨.abort, d⟩

/-- `Handle_membership` up to its call of `Send_state_message`: `Old_table` is
refreshed outside GATHER and BOOT, and `Allocation_table` is cleared. -/
def enterView (d : Daemon n) : Daemon n :=
  { d with
    gid := ⟨d.mess.getD 0 0#32, d.mess.getD 1 0#32, d.mess.getD 2 0#32⟩
    numPendingStates := d.numGroups
    numMembers := d.numGroups
    myIndex := if 0 < d.numGroups then d.messType.toNat else d.myIndex
    members := fun k => if k < d.numGroups then ⟨0#32, 0, false⟩ else d.members k
    oldTable :=
      if d.state ≠ .gather ∧ d.state ≠ .boot then d.allocationTable else d.oldTable
    allocationTable := fun _ => ⟨0#32, unclaimed⟩ }

/-- `Handle_membership`. -/
def handleMembership (cfg : Config n) (mc : Multicast) (d : Daemon n) : Run n :=
  if d.sender ≠ cfg.spreadGroup then alarmExit (cleanUp d)
  else do
    let d ← sendStateMessage cfg mc (enterView d)
    return { d with state := .gather }.dequeue .balance

/-- The macros of Spread that classify a service type. -/
structure ServiceTypes where
  isMembershipMess : Int → Bool
  isRegMembMess : Int → Bool
  isRegularMess : Int → Bool

/-- The service types of Spread as its macros classify them. -/
def spreadTypes : ServiceTypes where
  isMembershipMess t := (t.toNat &&& 0x3f00) != 0 && (t.toNat &&& 0x400000) == 0
  isRegMembMess t := (t.toNat &&& 0x1000) != 0 && (t.toNat &&& 0x400000) == 0
  isRegularMess t := (t.toNat &&& 0x3f) != 0 && (t.toNat &&& 0x400000) == 0

/-- What `SP_receive` fills in when it succeeds. -/
structure Message where
  serviceType : Int
  sender : String
  numGroups : Nat
  messType : Int
  endianMismatch : Bool
  words : List Word

/-- `SP_receive`: it either fails and leaves every argument as it was, or fills
them in from the message. -/
def Daemon.load (m : Message) (d : Daemon n) : Daemon n :=
  { d.write m.words with
    serviceType := m.serviceType
    sender := m.sender
    numGroups := m.numGroups
    messType := m.messType
    endianMismatch := m.endianMismatch }

/-- The handlers that `Handle_network` selects by `Mess_type`. Shared ARP entries
go to a cache outside this state, and operator messages are only logged. -/
def handleRegular (cfg : Config n) (d : Daemon n) : Daemon n :=
  if d.messType = stateMessType then handleState cfg (d.record (.handler .state))
  else if d.messType = maturingMessType then handleMature cfg (d.record (.handler .mature))
  else if d.messType = balanceMessType then handleBalance cfg (d.record (.handler .balance))
  else if d.messType = operatorMessType then d.record (.handler .operator)
  else if d.messType = arpcacheMessType then d.record (.handler .arpCache)
  else d

/-- The environment's answers to one run of `Handle_network`, in calling order. -/
structure Answers where
  /-- The reconnect after a failed receive. -/
  again : Connection
  /-- The multicast of `Send_state_message`. -/
  state : Multicast
  /-- The local ARP entries and the multicast of `Send_local_arp_cache`. -/
  arps : List Word
  arp : Multicast

/-- `Sig_handler`. -/
def sigHandler (d : Daemon n) : Run n := alarmExit (cleanUp d)

/-- `Handle_arp_cache` takes the result of `SP_receive` for the size of its message. It divides a
negative one as an unsigned number, and the loop over so many entries leaves `Mess`. -/
def OverrunsMess (ret : Int) (d : Daemon n) : Prop := d.messType = arpcacheMessType ∧ ret < 0

instance (ret : Int) (d : Daemon n) : Decidable (OverrunsMess ret d) :=
  inferInstanceAs (Decidable (_ ∧ _))

/-- The dispatch of `Handle_network` on the global variables and the result of `SP_receive`. What
leaves `Mess` ends in `Sig_handler`, which is called for SIGSEGV, too. -/
def dispatch (svc : ServiceTypes) (cfg : Config n) (ret : Int) (a : Answers) (d : Daemon n) :
    Run n :=
  if svc.isMembershipMess d.serviceType then
    if svc.isRegMembMess d.serviceType then do
      let d ← handleMembership cfg a.state (d.record (.handler .membership))
      sendLocalArpCache a.arps a.arp d
    else .ok d
  else if svc.isRegularMess d.serviceType then
    if OverrunsMess ret d then sigHandler (d.record (.handler .arpCache))
    else .ok (handleRegular cfg d)
  else alarmExit d

/-- The result of `SP_receive`: a message, or a negative code. -/
inductive Received where
  | message (m : Message)
  | failed (ret : Int)

/-- `Handle_network`. After a failed receive it reconnects and goes on to the
dispatch. -/
def handleNetwork (svc : ServiceTypes) (cfg : Config n) (r : Received) (a : Answers)
    (d : Daemon n) : Run n :=
  match r with
  | .message m => dispatch svc cfg (4 * m.words.length : Nat) a (d.load m)
  | .failed ret => do
    let d ← spreadReconnect ret a.again d
    dispatch svc cfg ret a d

/-- The label `leave` of `Balance`. -/
def balanceLeave (cfg : Config n) (d : Daemon n) : Daemon n :=
  if cfg.completeBalance then d else d.queue .balance

/-- `Balance`. Only the first member plans; a daemon outside RUN returns without
queueing the next round. -/
def balance (cfg : Config n) (mc : Multicast) (d : Daemon n) : Run n :=
  if d.myIndex ≠ 0 then .ok (balanceLeave cfg d)
  else if d.state ≠ .run then .ok d
  else
    match balanceMess cfg d with
    | none => .ok (balanceLeave cfg { d with state := .run })
    | some m => do
      let d ← multicast balanceMessType m.words mc ({ d with state := .balance }.write m.words)
      return balanceLeave cfg { d with state := .run }

/-- The two commands of the control session that change the service state. -/
inductive ServiceCommand where
  | failure
  | success
  deriving DecidableEq, Repr

/-- `set_state_wack_service_state`. -/
def setServiceState (command : ServiceCommand) (c : Connection) (d : Daemon n) : Run n :=
  let d := match command with
    | .failure => cleanUp { d with spreadLock := true, mbox := -1 }
    | .success => { d with spreadLock := false }
  spreadReconnect (-8) c d

/-- What the event loop can call. A timer fires once and is then no longer pending. -/
inductive Event where
  | network (r : Received) (a : Answers)
  | turnMature (mc : Multicast)
  | balance (mc : Multicast)
  | spreadReconnect (c : Connection)
  | sendLocalArpCache (arps : List Word) (mc : Multicast)
  | command (command : ServiceCommand) (c : Connection)
  | signal

/-- One call of the event loop. -/
def step (svc : ServiceTypes) (cfg : Config n) (d : Daemon n) : Event → Run n
  | .network r a => handleNetwork svc cfg r a d
  | .turnMature mc => turnMature mc (d.dequeue .turnMature)
  | .balance mc => balance cfg mc (d.dequeue .balance)
  | .spreadReconnect c => spreadReconnect (-2) c (d.dequeue .spreadReconnect)
  | .sendLocalArpCache arps mc => sendLocalArpCache arps mc (d.dequeue .sendLocalArpCache)
  | .command command c => setServiceState command c d
  | .signal => sigHandler d

/-- Start-up: the first connection attempt, the first share of the ARP cache and
its queueing by `Send_local_arp_cache_repeat`. -/
def startUp (c : Connection) (arps : List Word) (mc : Multicast) : Run n := do
  let d ← spreadReconnect (-8) c (Daemon.initial n)
  let d ← sendLocalArpCache arps mc d
  return d.queue .sendLocalArpCache

end Wackamole
