import Wackamole.Wackatrl

/-! `wackatrl` and the daemon on a local socket. Each byte that is written is there for the other
side, which may come to it at any time; the daemon may write part of a reply, or close the
session. -/
namespace Wackamole

open HostWords ByteCursor

variable {p : Platform}

namespace Conversation

/-- What `wackatrl` does next: `post_failure` or `post_success` writes and waits for a result;
then `get_state` asks, waits for the size, reads the table and prints it. -/
inductive Stage (p : Platform) where
  | post (op : Byte)
  | result
  | ask
  | size
  | table (size : Nat) (buffer : List Byte)
  | shown (rows : Option (List (TableRow p)))
  | failed
  /-- A write after the daemon has closed the session: SIGPIPE. -/
  | broken

/-- What `wackatrl` prints to `stderr`. -/
inductive Notice where
  | errorOnRead
  | errorPosting
  deriving DecidableEq

end Conversation

/-- Both sides: the bytes on their way to the daemon, its session, how many of the bytes that it
has sent `wackatrl` has read, and what that has printed of errors. -/
structure Conversation (p : Platform) where
  stage : Conversation.Stage p
  outgoing : List Byte
  session : ControlSession p
  received : Nat
  stderr : List Conversation.Notice

namespace Conversation

/-- `main` behind `cli_conn`, for its operation. -/
def start (p : Platform) (op : Byte) : Conversation p :=
  ⟨if op = getWackState then .ask else .post op, [], .connected p, 0, []⟩

/-- `write` of one byte. -/
def write (b : Byte) (stage : Stage p) (s : Conversation p) : Conversation p :=
  if s.session.sess.isSome then { s with outgoing := s.outgoing ++ [b], stage }
  else { s with stage := .broken }

/-- The bytes that `read` can take. -/
def available (s : Conversation p) : List Byte := s.session.sent.drop s.received

/-- `read` of so many bytes at most. It waits while there are none and the session is open. -/
def read (count : Nat) (s : Conversation p) : Option (List Byte × Conversation p) :=
  if s.available = [] ∧ s.session.sess.isSome then none
  else some (s.available.take count,
    { s with received := s.received + (s.available.take count).length })

/-- The next step of `wackatrl`, unless it waits or has ended. `main` does not look at what
`post_failure` and `post_success` return. -/
def wackatrl (s : Conversation p) : Option (Conversation p) :=
  match s.stage with
  | .post op => some (s.write op .result)
  | .result =>
    (s.read 4).map fun (bytes, s) =>
      if bytes.length ≠ 4 then { s with stage := .ask, stderr := s.stderr ++ [.errorOnRead] }
      else if ntohl p.byteOrder (p.byteOrder.fetch bytes 0) ≠ 0#32 then
        { s with stage := .ask, stderr := s.stderr ++ [.errorPosting] }
      else { s with stage := .ask }
  | .ask => some (s.write getWackState .size)
  | .size =>
    (s.read 4).map fun (bytes, s) =>
      if bytes.length ≠ 4 then { s with stage := .failed, stderr := s.stderr ++ [.errorOnRead] }
      else { s with
        stage := .table (ntohl p.byteOrder (p.byteOrder.fetch bytes 0)).toInt.toNat [] }
  | .table size buffer =>
    if buffer.length < size then
      (s.read (size - buffer.length)).map fun (bytes, s) =>
        { s with stage := .table size (buffer ++ bytes) }
    else some { s with stage := .shown (getRows p buffer size maxPseudo 0) }
  | _ => none

/-- `wackatrl` has closed its end. -/
def hasEnded (s : Conversation p) : Bool :=
  match s.stage with
  | .shown _ => true
  | .failed => true
  | .broken => true
  | _ => false

/-- What the descriptor of the daemon may say. -/
def fits (s : Conversation p) (c : Callback p) : Bool :=
  match c.read with
  | .byte b => s.outgoing.head? = some b
  | .eof => s.outgoing = [] && s.hasEnded
  | _ => true

/-- A call of `handle_control_session`. -/
def daemon (s : Conversation p) (c : Callback p) : Option (Conversation p) :=
  (s.session.handleControlSession c).map fun session =>
    { s with
      session
      outgoing := s.outgoing.drop (session.commands.length - s.session.commands.length) }

inductive Move (p : Platform) where
  | wackatrl
  | daemon (c : Callback p)

/-- A step of one of the two, if it can take it. -/
def step (s : Conversation p) : Move p → Option (Conversation p)
  | .wackatrl => s.wackatrl
  | .daemon c => if s.fits c then s.daemon c else none

/-- The conversation after these steps. -/
def run (op : Byte) (moves : List (Move p)) : Option (Conversation p) :=
  moves.foldlM step (start p op)

end Conversation

namespace ControlSession

/-- The last command read is the one that an open session answers. -/
def Answers (s : ControlSession p) : Prop :=
  ∀ sess, s.sess = some sess → sess.state = .writeFd →
    ∃ earlier table, s.commands = earlier ++ [(sess.operation, table)]

/-- What a call adds. -/
structure Adds (c : Callback p) (s s' : ControlSession p) : Prop where
  sent : s.sent <+: s'.sent
  commands : s'.commands = s.commands ∨
    ∃ b, c.read = .byte b ∧ s'.commands = s.commands ++ [(b, c.table)]
  closed : s.sess = none → s' = s
  answers : s.Answers → s'.Answers

variable {s s' : ControlSession p} {c : Callback p} {sess : ControlState}

theorem Adds.refl (c : Callback p) (s : ControlSession p) : Adds c s s :=
  ⟨List.prefix_rfl, .inl rfl, fun _ => rfl, id⟩

theorem adds_close (hOpen : s.sess = some sess) (more : List Byte) :
    Adds c s { s with sent := s.sent ++ more, sess := none } := by
  refine ⟨List.prefix_append _ _, .inl rfl, fun h => ?_, fun _ _ h => by cases h⟩
  rw [hOpen] at h
  cases h

/-- Part of a reply, or all of it, is written. -/
theorem adds_write (hOpen : s.sess = some sess) (more : List Byte) (active : FdType)
    {sess' : ControlState} (hWrite : sess'.state = .writeFd →
      sess.state = .writeFd ∧ sess'.operation = sess.operation) :
    Adds c s { s with sent := s.sent ++ more, sess := some sess', active } := by
  refine ⟨List.prefix_append _ _, .inl rfl, fun h => ?_, fun hAnswers sess'' hSess hState => ?_⟩
  · rw [hOpen] at h
    cases h
  · cases hSess
    obtain ⟨hBefore, hSame⟩ := hWrite hState
    rw [hSame]
    exact hAnswers sess hOpen hBefore

theorem newCommand_operation {table : List (TableEntry p)} {heap : Nat → Byte} {ret : Int}
    {sess sess' : ControlState} (h : newCommand table heap sess = some (ret, sess')) :
    sess'.operation = sess.operation := by
  rw [newCommand] at h
  split_ifs at h
  · obtain ⟨sess'', hState, hEq⟩ := Option.map_eq_some_iff.mp h
    obtain ⟨buffer, -, hEq'⟩ := Option.bind_eq_some_iff.mp hState
    cases hEq
    cases hEq'
    rfl
  · cases h
    rfl
  · cases h
    rfl

theorem handleRead_adds (hOpen : s.sess = some sess) (h : s.handleRead c sess = some s') :
    Adds c s s' := by
  have hClose : Adds c s s.close := by simpa [close] using adds_close (c := c) hOpen []
  rw [handleRead] at h
  split_ifs at h with hReady
  · cases hRead : c.read with
    | eof => rw [hRead] at h; cases h; exact hClose
    | again => rw [hRead] at h; cases h; exact .refl c s
    | error => rw [hRead] at h; cases h; exact hClose
    | byte b =>
        rw [hRead] at h
        obtain ⟨⟨ret, sess'⟩, hNew, hEq⟩ := Option.map_eq_some_iff.mp h
        have hClosed : s.sess ≠ none := by rw [hOpen]; exact Option.some_ne_none _
        dsimp only at hEq
        split_ifs at hEq with hRet <;> subst hEq
        · exact ⟨List.prefix_rfl, .inr ⟨b, hRead, rfl⟩, fun h => absurd h hClosed,
            fun _ _ h => by cases h⟩
        · refine ⟨List.prefix_rfl, .inr ⟨b, hRead, rfl⟩, fun h => absurd h hClosed,
            fun _ sess'' hSess _ => ?_⟩
          cases hSess
          refine ⟨s.commands, c.table, ?_⟩
          rw [newCommand_operation hNew]
          rfl
  · cases h
    exact hClose

theorem handleWrite_adds (hOpen : s.sess = some sess) (hWrite : sess.state = .writeFd)
    (h : s.handleWrite c sess = some s') : Adds c s s' := by
  have hClose : Adds c s s.close := by simpa [close] using adds_close (c := c) hOpen []
  rw [handleWrite] at h
  split_ifs at h with hState hService
  · cases hData : sess.data with
    | retint word => rw [hData] at h; cases h
    | writing size written buffer =>
        rw [hData] at h
        dsimp only at h
        cases hRet : c.write (size - written) with
        | again => rw [hRet] at h; cases h; exact .refl c s
        | error => rw [hRet] at h; cases h; exact hClose
        | wrote ret =>
            rw [hRet] at h
            dsimp only at h
            split_ifs at h with hNone hDone <;> cases h
            · exact hClose
            · exact adds_write hOpen _ _ fun hRead => by cases hRead
            · exact adds_write hOpen _ _ fun _ => ⟨hWrite, rfl⟩
  · cases hData : sess.data with
    | writing size written buffer => rw [hData] at h; cases h
    | retint word =>
        rw [hData] at h
        dsimp only at h
        cases hRet : c.write 4 with
        | again => rw [hRet] at h; cases h; exact .refl c s
        | error => rw [hRet] at h; cases h; exact hClose
        | wrote ret =>
            rw [hRet] at h
            dsimp only at h
            split_ifs at h with hAll <;> cases h
            · exact adds_write hOpen _ _ fun hRead => by cases hRead
            · exact adds_close hOpen _
  · cases h
    exact hClose

theorem handleControlSession_adds (h : s.handleControlSession c = some s') : Adds c s s' := by
  rw [handleControlSession] at h
  cases hSess : s.sess with
  | none => rw [hSess] at h; cases h; exact .refl c s
  | some sess =>
      rw [hSess] at h
      cases hState : sess.state with
      | readFd => exact handleRead_adds hSess (by simpa only [hState] using h)
      | writeFd => exact handleWrite_adds hSess hState (by simpa only [hState] using h)

end ControlSession

/-- What `wackatrl` posts before it asks for the table. -/
def posted (op : Byte) : List Byte := if op = getWackState then [] else [op]

theorem length_replies_le {commands : List (Byte × List (TableEntry p))}
    (h : ∀ command ∈ commands, command.1 ≠ getWackState) :
    (replies commands).length ≤ 4 * commands.length := by
  induction commands with
  | nil => rfl
  | cons command commands ih =>
      obtain ⟨hHead, hRest⟩ := List.forall_mem_cons.mp h
      have hReply : (reply command).length ≤ 4 := by
        rw [reply, if_neg hHead]
        split_ifs <;> simp
      have hIh := ih hRest
      rw [replies] at hIh ⊢
      rw [List.flatMap_cons, List.length_append, List.length_cons]
      omega

theorem posted_ne {b : Byte} (op : Byte) (h : b ∈ posted op) : b ≠ getWackState := by
  rw [posted] at h
  split_ifs at h with hGet
  · cases h
  · rw [List.mem_singleton.mp h]
    exact hGet

theorem length_replies {op : Byte}
    (hOp : op = getWackState ∨ op = wackServiceFailure ∨ op = wackServiceSuccess)
    {earlier : List (Byte × List (TableEntry p))} (h : earlier.map Prod.fst = posted op) :
    (replies earlier).length = 4 * (posted op).length := by
  rw [posted] at h ⊢
  split_ifs at h ⊢ with hGet
  · rw [List.map_eq_nil_iff.mp h]
    rfl
  · obtain ⟨⟨b, table⟩, rfl, rfl⟩ := List.map_eq_singleton_iff.mp h
    have hReply : reply (b, table) = List.replicate 4 0#8 := by
      rw [reply, if_neg hGet, if_pos (hOp.resolve_left hGet)]
    rw [replies, List.flatMap_singleton, hReply]
    rfl

theorem fetch_zeros (o : ByteOrder) : ntohl o (o.fetch (List.replicate 4 0#8) 0) = 0#32 := by
  cases o <;> decide

/-- The size that goes before a table. -/
theorem announced_size {table : List (TableEntry p)} (hMax : table.length ≤ maxPseudo) :
    (ntohl p.byteOrder (p.byteOrder.fetch (p.byteOrder.store (ntohl p.byteOrder
      (BitVec.ofNat 32 (replySize p table.length - 4)))) 0)).toInt.toNat =
        (tableBytes table).length := by
  have hSize := replySize_lt (p := p) hMax
  have hLength := length_tableBytes table
  have hFetch := p.byteOrder.fetch_store (ntohl p.byteOrder
    (BitVec.ofNat 32 (replySize p table.length - 4))) []
  rw [List.append_nil] at hFetch
  rw [hFetch, ntohl_ntohl]
  have hNat : (BitVec.ofNat 32 (replySize p table.length - 4)).toNat =
      replySize p table.length - 4 := by
    rw [BitVec.toNat_ofNat]
    omega
  rw [BitVec.toInt_eq_toNat_of_lt (by omega), hNat]
  omega

namespace Conversation

/-- All bytes that `wackatrl` has written. -/
def written (s : Conversation p) : List Byte := s.session.commands.map Prod.fst ++ s.outgoing

/-- The daemon has read all commands. The last one was for this table. -/
structure Asked (op : Byte) (s : Conversation p) (table : List (TableEntry p)) : Prop where
  commands : ∃ earlier, earlier.map Prod.fst = posted op ∧
    s.session.commands = earlier ++ [(getWackState, table)]
  outgoing : s.outgoing = []
  stderr : s.stderr = []

/-- What both have done when `wackatrl` is at a stage. -/
def At (op : Byte) (s : Conversation p) : Prop :=
  match s.stage with
  | .post op' => op' = op ∧ posted op = [op] ∧ s.written = [] ∧ s.received = 0 ∧ s.stderr = []
  | .result => s.written = posted op ∧ posted op = [op] ∧ s.received = 0 ∧ s.stderr = []
  | .ask => s.session.sess = none ∨
      s.written = posted op ∧ s.outgoing = [] ∧ s.received = s.session.sent.length ∧
        s.session.sent = replies s.session.commands ∧ s.stderr = []
  | .size => s.written = posted op ++ [getWackState] ∧ s.received = 4 * (posted op).length ∧
      s.received ≤ s.session.sent.length ∧ s.stderr = []
  | .table size buffer => ∃ table, Asked op s table ∧ size = (tableBytes table).length ∧
      buffer <+: tableBytes table ∧ s.received = 4 * (posted op).length + 4 + buffer.length ∧
      s.received ≤ s.session.sent.length
  | .shown rows => ∃ table, Asked op s table ∧ rows = some (table.map TableEntry.row)
  | _ => True

structure Inv (op : Byte) (s : Conversation p) : Prop where
  delivers : s.session.Delivers
  answers : s.session.Answers
  tables : ∀ command ∈ s.session.commands, 1 ≤ command.2.length ∧ command.2.length ≤ maxPseudo
  stage : s.At op

theorem inv_start {op : Byte} : Inv op (start p op) := by
  refine ⟨⟨rfl, [], .nothing _, rfl⟩, fun sess hSess hWrite => ?_, nofun, ?_⟩
  · cases hSess
    cases hWrite
  · rw [At, start]
    by_cases hGet : op = getWackState
    · simp [hGet, written, posted, ControlSession.connected, replies]
    · simp [hGet, written, posted, ControlSession.connected]

variable {op : Byte} {s s' : Conversation p} {c : Callback p}

/-- The daemon only reads what `wackatrl` has written. -/
theorem written_daemon (hFits : s.fits c) (h : s.daemon c = some s') :
    s'.written = s.written ∧ (s.outgoing = [] → s'.session.commands = s.session.commands ∧
      s'.outgoing = []) := by
  obtain ⟨session, hCall, rfl⟩ := Option.map_eq_some_iff.mp h
  have hAdds := ControlSession.handleControlSession_adds hCall
  rcases hAdds.commands with hSame | ⟨b, hRead, hMore⟩
  · refine ⟨?_, fun hNone => ⟨hSame, ?_⟩⟩
    · simp [written, hSame]
    · simp [hNone]
  · rw [fits, hRead, decide_eq_true_eq] at hFits
    obtain ⟨rest, hOutgoing⟩ := List.head?_eq_some_iff.mp hFits
    refine ⟨?_, fun hNone => ?_⟩
    · simp [written, hMore, hOutgoing]
    · rw [hNone] at hOutgoing
      cases hOutgoing

theorem Asked.daemon {table : List (TableEntry p)} (hAsked : Asked op s table) (hFits : s.fits c)
    (h : s.daemon c = some s') : Asked op s' table := by
  obtain ⟨hSame, hNone⟩ := (written_daemon hFits h).2 hAsked.outgoing
  obtain ⟨session, -, rfl⟩ := Option.map_eq_some_iff.mp h
  exact ⟨by rw [hSame]; exact hAsked.commands, hNone, hAsked.stderr⟩

/-- A step of the daemon. -/
theorem Inv.daemon (hInv : Inv op s) (hTable : 1 ≤ c.table.length ∧ c.table.length ≤ maxPseudo)
    (hFits : s.fits c) (h : s.daemon c = some s') : Inv op s' := by
  obtain ⟨hWritten, hSame⟩ := written_daemon hFits h
  have hAsk {table : List (TableEntry p)} (hAsked : Asked op s table) : Asked op s' table :=
    hAsked.daemon hFits h
  obtain ⟨session, hCall, rfl⟩ := Option.map_eq_some_iff.mp h
  obtain ⟨session', hCall', hAdvances⟩ := hInv.delivers.handleControlSession c
  obtain rfl : session' = session := Option.some.inj (hCall'.symm.trans hCall)
  have hAdds := ControlSession.handleControlSession_adds hCall
  have hSent := hAdds.sent.length_le
  refine ⟨hAdvances.delivers, hAdds.answers hInv.answers, fun command hMem => ?_, ?_⟩
  · rcases hAdds.commands with hEq | ⟨b, -, hMore⟩
    · rw [hEq] at hMem
      exact hInv.tables command hMem
    · rw [hMore] at hMem
      rcases List.mem_append.mp hMem with hMem | hMem
      · exact hInv.tables command hMem
      · rw [List.mem_singleton.mp hMem]
        exact hTable
  · have hAt := hInv.stage
    simp only [At] at hAt ⊢
    cases hStage : s.stage with
    | post op' =>
        rw [hStage] at hAt
        obtain ⟨hOp, hPosted, hNone, hRest⟩ := hAt
        exact ⟨hOp, hPosted, hWritten.trans hNone, hRest⟩
    | result =>
        rw [hStage] at hAt
        obtain ⟨hPost, hRest⟩ := hAt
        exact ⟨hWritten.trans hPost, hRest⟩
    | ask =>
        rw [hStage] at hAt
        rcases hAt with hClosed | ⟨hPost, hNone, hReceived, hReplies, hStderr⟩
        · rw [hAdds.closed hClosed]
          exact .inl hClosed
        · obtain ⟨hEq, hNone'⟩ := hSame hNone
          have hAll : session'.sent = s.session.sent := by
            have hStarts := hAdvances.delivers.sent_starts
            rw [hEq, ← hReplies] at hStarts
            exact hStarts.eq_of_length_le hSent
          refine .inr ⟨hWritten.trans hPost, hNone', ?_, ?_, hStderr⟩
          · rw [hAll]
            exact hReceived
          · rw [hAll, hEq]
            exact hReplies
    | size =>
        rw [hStage] at hAt
        obtain ⟨hPost, hReceived, hRead, hStderr⟩ := hAt
        exact ⟨hWritten.trans hPost, hReceived, hRead.trans hSent, hStderr⟩
    | table size buffer =>
        rw [hStage] at hAt
        obtain ⟨table, hAsked, hSize, hBuffer, hReceived, hRead⟩ := hAt
        obtain ⟨hCommands, hNone, hStderr⟩ := hAsk hAsked
        exact ⟨table, ⟨hCommands, hNone, hStderr⟩, hSize, hBuffer, hReceived, hRead.trans hSent⟩
    | shown rows =>
        rw [hStage] at hAt
        obtain ⟨table, hAsked, hRows⟩ := hAt
        obtain ⟨hCommands, hNone, hStderr⟩ := hAsk hAsked
        exact ⟨table, ⟨hCommands, hNone, hStderr⟩, hRows⟩
    | failed => trivial
    | broken => trivial

/-- What `wackatrl` reads is the next part of what the daemon has sent. -/
theorem read_eq {count : Nat} {bytes : List Byte} (h : s.read count = some (bytes, s')) :
    bytes <+: s.session.sent.drop s.received ∧ bytes.length ≤ count ∧
      s' = { s with received := s.received + bytes.length } ∧
      (s.received ≤ s.session.sent.length → s'.received ≤ s.session.sent.length) := by
  rw [read] at h
  split_ifs at h
  cases h
  refine ⟨List.take_prefix _ _, List.length_take_le _ _, rfl, fun hRead => ?_⟩
  have hTake := List.length_take_le' count s.available
  have hAvailable : s.available.length = s.session.sent.length - s.received := List.length_drop
  dsimp only
  omega

theorem Inv.write (hInv : Inv op s) {b : Byte} {stage : Stage p}
    (hAt : s.session.sess.isSome → At op { s with outgoing := s.outgoing ++ [b], stage }) :
    Inv op (s.write b stage) := by
  rw [Conversation.write]
  split_ifs with hOpen
  · exact ⟨hInv.delivers, hInv.answers, hInv.tables, hAt hOpen⟩
  · exact ⟨hInv.delivers, hInv.answers, hInv.tables, trivial⟩

/-- The commands have all been read, or none after those that were posted. -/
theorem asked_of_written (h : s.written = posted op ++ [getWackState]) :
    (∃ earlier table, earlier.map Prod.fst = posted op ∧
      s.session.commands = earlier ++ [(getWackState, table)] ∧ s.outgoing = []) ∨
    (∀ command ∈ s.session.commands, command.1 ≠ getWackState) ∧
      s.session.commands.length ≤ (posted op).length := by
  rcases List.append_eq_append_iff.mp h with ⟨front, hPosted, hOutgoing⟩ | ⟨front, hNames, hLast⟩
  · refine .inr ⟨fun command hMem => posted_ne op ?_, ?_⟩
    · rw [hPosted]
      exact List.mem_append_left _ (List.mem_map_of_mem hMem)
    · rw [hPosted, List.length_append, List.length_map]
      omega
  · rcases List.append_eq_singleton_iff.mp hLast.symm with ⟨rfl, hOutgoing⟩ | ⟨rfl, hOutgoing⟩
    · refine .inr ⟨fun command hMem => posted_ne op ?_, ?_⟩
      · rw [← List.append_nil (posted op), ← hNames]
        exact List.mem_map_of_mem hMem
      · rw [← List.append_nil (posted op), ← hNames, List.length_map]
    · obtain ⟨earlier, last, hCommands, hEarlier, hLast⟩ := List.map_eq_append_iff.mp hNames
      obtain ⟨⟨b, table⟩, rfl, rfl⟩ := List.map_eq_singleton_iff.mp hLast
      exact .inl ⟨earlier, table, hEarlier, hCommands, hOutgoing⟩

section Replies

variable (hInv : Inv op s)
  (hOp : op = getWackState ∨ op = wackServiceFailure ∨ op = wackServiceSuccess)

include hInv hOp

/-- What the daemon has sent for the table. -/
theorem Asked.sent {table : List (TableEntry p)} (h : Asked op s table) :
    s.session.sent.drop (4 * (posted op).length) <+: stateReply table := by
  obtain ⟨earlier, hEarlier, hCommands⟩ := h.commands
  have hStarts := hInv.delivers.sent_starts.drop (4 * (posted op).length)
  rw [hCommands, replies_concat, ← length_replies hOp hEarlier, List.drop_left] at hStarts
  rw [← length_replies hOp hEarlier]
  exact hStarts

/-- The daemon writes a result as a whole, or closes the session. -/
theorem Inv.result_whole (hPost : s.written = posted op) (hPosted : posted op = [op])
    (hOpen : s.session.sess.isSome) (hSome : s.session.sent ≠ []) :
    s.outgoing = [] ∧ s.session.sent = replies s.session.commands ∧
      s.session.sent = List.replicate 4 0#8 := by
  have hGet : op ≠ getWackState := posted_ne op (by simp [hPosted])
  obtain ⟨sess, hSess⟩ := Option.isSome_iff_exists.mp hOpen
  have hStarts := hInv.delivers.sent_starts
  -- The command has been read, since something has been sent.
  have hCommands : ∃ table, s.session.commands = [(op, table)] ∧ s.outgoing = [] := by
    rw [hPosted, written] at hPost
    rcases List.append_eq_singleton_iff.mp hPost with ⟨hNone, -⟩ | ⟨hName, hOutgoing⟩
    · rw [List.map_eq_nil_iff.mp hNone] at hStarts
      exact absurd (List.prefix_nil.mp hStarts) hSome
    · obtain ⟨⟨b, table⟩, hCommands, rfl⟩ := List.map_eq_singleton_iff.mp hName
      exact ⟨table, hCommands, hOutgoing⟩
  obtain ⟨table, hCommands, hOutgoing⟩ := hCommands
  have hReplies : replies s.session.commands = List.replicate 4 0#8 := by
    rw [hCommands, replies, List.flatMap_singleton, reply, if_neg hGet,
      if_pos (hOp.resolve_left hGet)]
  have hDelivers := hInv.delivers
  rw [ControlSession.Delivers, hSess] at hDelivers
  obtain ⟨-, owed, hOwes, hAll⟩ := hDelivers
  cases hOwes with
  | nothing data =>
      rw [List.append_nil] at hAll
      exact ⟨hOutgoing, hAll, hAll.trans hReplies⟩
  | table hLess =>
      obtain ⟨earlier, table', hLast⟩ := hInv.answers _ hSess rfl
      rw [hCommands, ← List.nil_append [(op, table)]] at hLast
      obtain ⟨-, hSame⟩ := List.append_inj' hLast rfl
      cases hSame
      exact absurd rfl hGet
  | result hService word =>
      have hLength := congrArg List.length hAll
      rw [hReplies, List.length_append, ByteOrder.length_store, List.length_replicate] at hLength
      exact absurd (List.eq_nil_of_length_eq_zero (by omega)) hSome

/-- A read of the size. -/
theorem Inv.read_size {bytes : List Byte} (hPost : s.written = posted op ++ [getWackState])
    (hReceived : s.received = 4 * (posted op).length) (hStderr : s.stderr = [])
    (hRead : s.received ≤ s.session.sent.length) (h : s.read 4 = some (bytes, s'))
    (hLength : bytes.length = 4) :
    At op { s' with
      stage := .table (ntohl p.byteOrder (p.byteOrder.fetch bytes 0)).toInt.toNat [] } := by
  obtain ⟨hBytes, -, rfl, hMore⟩ := read_eq h
  have hMore := hMore hRead
  dsimp only at hMore
  have hStarts := hInv.delivers.sent_starts.length_le
  rcases asked_of_written hPost with ⟨earlier, table, hEarlier, hCommands, hOutgoing⟩ | ⟨hOther, hFew⟩
  · have hAsked : Asked op s table := ⟨⟨earlier, hEarlier, hCommands⟩, hOutgoing, hStderr⟩
    have hTable := hInv.tables (getWackState, table) (by rw [hCommands]; simp)
    have hSent := hAsked.sent hInv hOp
    rw [← hReceived] at hSent
    have hSize : bytes = p.byteOrder.store (ntohl p.byteOrder
        (BitVec.ofNat 32 (replySize p table.length - 4))) := by
      have hWord : p.byteOrder.store (ntohl p.byteOrder
          (BitVec.ofNat 32 (replySize p table.length - 4))) <+: stateReply table :=
        List.prefix_append _ _
      have hLe : bytes.length = (p.byteOrder.store (ntohl p.byteOrder
          (BitVec.ofNat 32 (replySize p table.length - 4)))).length := by
        rw [hLength, ByteOrder.length_store]
      exact (List.prefix_of_prefix_length_le (hBytes.trans hSent) hWord hLe.le).eq_of_length hLe
    refine ⟨table, ⟨hAsked.commands, hOutgoing, hStderr⟩, ?_, List.nil_prefix, ?_, hMore⟩
    · rw [hSize, announced_size hTable.2]
    · dsimp only
      rw [hReceived, hLength]
      rfl
  · have hReplies := length_replies_le hOther
    omega

/-- A read of the table. -/
theorem Inv.read_table {size : Nat} {buffer bytes : List Byte} {table : List (TableEntry p)}
    (hAsked : Asked op s table) (hSize : size = (tableBytes table).length)
    (hBuffer : buffer <+: tableBytes table)
    (hReceived : s.received = 4 * (posted op).length + 4 + buffer.length)
    (hRead : s.received ≤ s.session.sent.length) {count : Nat}
    (h : s.read count = some (bytes, s')) :
    At op { s' with stage := .table size (buffer ++ bytes) } := by
  obtain ⟨hBytes, -, rfl, hMore⟩ := read_eq h
  have hRest : bytes <+: (tableBytes table).drop buffer.length := by
    have hSent := (hAsked.sent hInv hOp).drop (4 + buffer.length)
    have hFour : (p.byteOrder.store (ntohl p.byteOrder
        (BitVec.ofNat 32 (replySize p table.length - 4)))).length = 4 := ByteOrder.length_store _ _
    rw [List.drop_drop, ← Nat.add_assoc, ← hReceived, stateReply, List.drop_append,
      List.drop_of_length_le (i := 4 + buffer.length) (by omega), List.nil_append, hFour,
      Nat.add_sub_cancel_left] at hSent
    exact hBytes.trans hSent
  refine ⟨table, ⟨hAsked.commands, hAsked.outgoing, hAsked.stderr⟩, hSize, ?_, ?_, hMore hRead⟩
  · have hWhole := (List.prefix_append_right_inj buffer).mpr hRest
    rwa [List.prefix_iff_eq_append.mp hBuffer] at hWhole
  · rw [List.length_append]
    dsimp only
    omega

/-- A result has been read, or something shorter from a session that is closed. -/
theorem Inv.read_result {bytes : List Byte} (hPost : s.written = posted op)
    (hPosted : posted op = [op]) (hReceived : s.received = 0)
    (h : s.read 4 = some (bytes, s')) :
    s.session.sess = none ∨ bytes = List.replicate 4 0#8 ∧ s.outgoing = [] ∧
      s'.received = s.session.sent.length ∧ s.session.sent = replies s.session.commands := by
  by_cases hOpen : s.session.sess.isSome
  · right
    have hSome : s.session.sent ≠ [] := by
      intro hNone
      rw [read, if_pos ⟨by rw [available, hNone, List.drop_nil], hOpen⟩] at h
      cases h
    obtain ⟨hOutgoing, hReplies, hZero⟩ := hInv.result_whole hOp hPost hPosted hOpen hSome
    have hBytes : bytes = List.replicate 4 0#8 ∧ s'.received = 4 := by
      rw [read, available, hZero, hReceived, List.drop_zero] at h
      split_ifs at h
      cases h
      exact ⟨rfl, rfl⟩
    refine ⟨hBytes.1, hOutgoing, ?_, hReplies⟩
    rw [hBytes.2, hZero]
    rfl
  · exact .inl (Option.not_isSome_iff_eq_none.mp hOpen)

/-- A step of `wackatrl`. -/
theorem Inv.wackatrl (h : s.wackatrl = some s') : Inv op s' := by
  have hAt := hInv.stage
  rw [Conversation.wackatrl] at h
  cases hStage : s.stage with
  | post op' =>
      rw [hStage] at h
      simp only [At, hStage] at hAt
      obtain ⟨rfl, hPosted, hNone, hReceived, hStderr⟩ := hAt
      cases h
      refine hInv.write fun _ => ⟨?_, hPosted, hReceived, hStderr⟩
      have hWritten : s.written ++ [op'] = posted op' := by
        rw [hNone, hPosted, List.nil_append]
      rwa [written, List.append_assoc] at hWritten
  | result =>
      rw [hStage] at h
      simp only [At, hStage] at hAt
      obtain ⟨hPost, hPosted, hReceived, hStderr⟩ := hAt
      obtain ⟨⟨bytes, s₁⟩, hRead, rfl⟩ := Option.map_eq_some_iff.mp h
      have hResult := hInv.read_result hOp hPost hPosted hReceived hRead
      obtain ⟨-, -, rfl, -⟩ := read_eq hRead
      dsimp only
      rcases hResult with hClosed | ⟨rfl, hOutgoing, hAll, hReplies⟩
      · split_ifs <;> exact ⟨hInv.delivers, hInv.answers, hInv.tables, .inl hClosed⟩
      · rw [if_neg (not_not.mpr List.length_replicate), if_neg (not_not.mpr (fetch_zeros _))]
        exact ⟨hInv.delivers, hInv.answers, hInv.tables,
          .inr ⟨hPost, hOutgoing, hAll, hReplies, hStderr⟩⟩
  | ask =>
      rw [hStage] at h
      simp only [At, hStage] at hAt
      cases h
      refine hInv.write fun hOpen => ?_
      rcases hAt with hClosed | ⟨hPost, hOutgoing, hReceived, hReplies, hStderr⟩
      · rw [hClosed] at hOpen
        cases hOpen
      · have hNames : s.session.commands.map Prod.fst = posted op := by
          rw [written, hOutgoing, List.append_nil] at hPost
          exact hPost
        refine ⟨?_, ?_, hReceived.le, hStderr⟩
        · rw [← hPost, written, written, List.append_assoc]
        · rw [← length_replies hOp hNames, ← hReplies]
          exact hReceived
  | size =>
      rw [hStage] at h
      simp only [At, hStage] at hAt
      obtain ⟨hPost, hReceived, hMore, hStderr⟩ := hAt
      obtain ⟨⟨bytes, s₁⟩, hRead, rfl⟩ := Option.map_eq_some_iff.mp h
      have hTable := hInv.read_size hOp hPost hReceived hStderr hMore hRead
      obtain ⟨-, -, rfl, -⟩ := read_eq hRead
      dsimp only
      split_ifs with hShort
      · exact ⟨hInv.delivers, hInv.answers, hInv.tables, trivial⟩
      · exact ⟨hInv.delivers, hInv.answers, hInv.tables, hTable (not_not.mp hShort)⟩
  | table size buffer =>
      rw [hStage] at h
      simp only [At, hStage] at hAt
      obtain ⟨table, hAsked, hSize, hBuffer, hReceived, hMore⟩ := hAt
      dsimp only at h
      split_ifs at h with hLeft
      · obtain ⟨⟨bytes, s₁⟩, hRead, rfl⟩ := Option.map_eq_some_iff.mp h
        have hTable := hInv.read_table hOp hAsked hSize hBuffer hReceived hMore hRead
        obtain ⟨-, -, rfl, -⟩ := read_eq hRead
        exact ⟨hInv.delivers, hInv.answers, hInv.tables, hTable⟩
      · cases h
        obtain ⟨earlier, -, hCommands⟩ := hAsked.commands
        have hBounds := hInv.tables (getWackState, table) (by rw [hCommands]; simp)
        have hAll : buffer = tableBytes table := hBuffer.eq_of_length_le (by omega)
        refine ⟨hInv.delivers, hInv.answers, hInv.tables, table,
          ⟨hAsked.commands, hAsked.outgoing, hAsked.stderr⟩, ?_⟩
        rw [hAll, hSize]
        exact getRows_eq (List.ne_nil_of_length_pos hBounds.1) [] hBounds.2
  | shown rows => rw [hStage] at h; cases h
  | failed => rw [hStage] at h; cases h
  | broken => rw [hStage] at h; cases h

end Replies

/-- The table of the daemon has room for its entries and is not empty. -/
def Move.Configured : Move p → Prop
  | .wackatrl => True
  | .daemon c => 1 ≤ c.table.length ∧ c.table.length ≤ maxPseudo

theorem run_inv (hOp : op = getWackState ∨ op = wackServiceFailure ∨ op = wackServiceSuccess)
    {moves : List (Move p)} (hMoves : ∀ move ∈ moves, move.Configured)
    (h : run op moves = some s) : Inv op s := by
  induction moves using List.reverseRecOn generalizing s with
  | nil =>
      cases h
      exact inv_start
  | append_singleton moves move ih =>
      rw [run, List.foldlM_append] at h
      obtain ⟨s₁, hRun, hStep⟩ := Option.bind_eq_some_iff.mp h
      have hInv := ih (fun move hMem => hMoves move (List.mem_append_left _ hMem)) hRun
      have hMove := hMoves move (List.mem_append_right _ (List.mem_singleton.mpr rfl))
      have hStep : s₁.step move = some s := by simpa using hStep
      cases move with
      | wackatrl => exact hInv.wackatrl hOp hStep
      | daemon c =>
          rw [step] at hStep
          split_ifs at hStep with hFits
          exact hInv.daemon hMove hFits hStep

section Undisturbed

variable (table : List (TableEntry p))

/-- A call in which the descriptor takes all bytes. -/
def serving (read : ReadResult) : Move p :=
  .daemon ⟨table, fun _ => 0#8, read, fun count => .wrote (Fin.last count)⟩

/-- The table is asked for, and nothing disturbs the reply. -/
def asking : List (Move p) :=
  [.wackatrl, serving table (.byte getWackState), serving table .again, .wackatrl, .wackatrl,
    .wackatrl]

/-- The same after an operation has been posted. -/
def posting (op : Byte) : List (Move p) :=
  [.wackatrl, serving table (.byte op), serving table .again] ++ .wackatrl :: asking table

/-- The session between two commands. -/
def idle (data : SessionData) (commands : List (Byte × List (TableEntry p))) (sent : List Byte) :
    ControlSession p :=
  ⟨some ⟨readCommand, .readFd, data⟩, .readFd, commands, sent⟩

/-- The session before it writes a table. -/
def replying (commands : List (Byte × List (TableEntry p))) (sent : List Byte) :
    ControlSession p :=
  ⟨some ⟨getWackState, .writeFd, .writing (stateReply table).length 0 (stateReply table)⟩,
    .writeFd, commands, sent⟩

variable (data : SessionData) (commands : List (Byte × List (TableEntry p))) (sent : List Byte)

theorem serving_read :
    step ⟨.size, [getWackState], idle data commands sent, sent.length, []⟩
      (serving table (.byte getWackState)) = some ⟨.size, [],
        replying table (commands ++ [(getWackState, table)]) sent, sent.length, []⟩ := by
  have hNew : newCommand table (fun _ => 0#8) ⟨getWackState, .readFd, data⟩ =
      some (0, ⟨getWackState, .writeFd,
        .writing (stateReply table).length 0 (stateReply table)⟩) := by
    rw [newCommand, if_pos rfl, setStateWackState, stateBuffer_eq, length_stateReply]
    rfl
  have hFits : fits ⟨.size, [getWackState], idle data commands sent, sent.length, []⟩
      ⟨table, fun _ => 0#8, .byte getWackState, fun count => .wrote (Fin.last count)⟩ = true := rfl
  rw [serving, step, if_pos hFits, daemon, idle, ControlSession.handleControlSession]
  simp only [ControlSession.handleRead, if_true, hNew, Option.map_some, ne_eq, not_true_eq_false,
    if_false, ControlSession.setEventMask, List.length_append, List.length_singleton,
    Nat.add_sub_cancel_left]
  rfl

theorem serving_write :
    step ⟨.size, [], replying table commands sent, sent.length, []⟩ (serving table .again) =
      some ⟨.size, [],
        idle (.writing (stateReply table).length 0 (stateReply table)) commands
          (sent ++ stateReply table), sent.length, []⟩ := by
  have hFits : fits ⟨.size, [], replying table commands sent, sent.length, []⟩
      ⟨table, fun _ => 0#8, .again, fun count => .wrote (Fin.last count)⟩ = true := rfl
  have hSome : (stateReply table).length ≠ 0 := by
    rw [length_stateReply, replySize]
    omega
  rw [serving, step, if_pos hFits, daemon, replying, ControlSession.handleControlSession]
  simp only [ControlSession.handleWrite, if_true, Nat.sub_zero, hSome, if_false, List.drop_zero,
    Fin.val_last, Nat.zero_add, List.take_length, Option.map_some, List.drop_nil]
  rfl

variable {table}

theorem wackatrl_size (hMax : table.length ≤ maxPseudo) :
    step ⟨.size, [], idle data commands (sent ++ stateReply table), sent.length, []⟩ .wackatrl =
      some ⟨.table (tableBytes table).length [], [], idle data commands (sent ++ stateReply table),
        sent.length + 4, []⟩ := by
  have hFour : (p.byteOrder.store (ntohl p.byteOrder
      (BitVec.ofNat 32 (replySize p table.length - 4)))).length = 4 := ByteOrder.length_store _ _
  have hTake : (stateReply table).take 4 = p.byteOrder.store (ntohl p.byteOrder
      (BitVec.ofNat 32 (replySize p table.length - 4))) := by
    rw [stateReply, List.take_left' hFour]
  have hSome : stateReply table ≠ [] := by
    intro hNone
    rw [hNone, List.take_nil] at hTake
    rw [← hTake] at hFour
    cases hFour
  have hRead : read 4 ⟨.size, [], idle data commands (sent ++ stateReply table), sent.length, []⟩ =
      some (p.byteOrder.store (ntohl p.byteOrder
          (BitVec.ofNat 32 (replySize p table.length - 4))),
        ⟨.size, [], idle data commands (sent ++ stateReply table), sent.length + 4, []⟩) := by
    simp only [read, available, idle, List.drop_left, hSome, false_and, if_false, hTake, hFour]
  rw [step, wackatrl]
  dsimp only
  rw [hRead, Option.map_some]
  dsimp only
  rw [if_neg (not_not.mpr hFour), announced_size hMax]

theorem wackatrl_table (hTable : 1 ≤ table.length) :
    step ⟨.table (tableBytes table).length [], [], idle data commands (sent ++ stateReply table),
        sent.length + 4, []⟩ .wackatrl =
      some ⟨.table (tableBytes table).length (tableBytes table), [],
        idle data commands (sent ++ stateReply table),
        sent.length + 4 + (tableBytes table).length, []⟩ := by
  have hFour : (p.byteOrder.store (ntohl p.byteOrder
      (BitVec.ofNat 32 (replySize p table.length - 4)))).length = 4 := ByteOrder.length_store _ _
  have hSome : 0 < (tableBytes table).length := by
    have hLength := length_tableBytes table
    have hSize : 4 < replySize p table.length := by
      rw [replySize]
      have := Nat.mul_pos hTable (show 0 < 4 + (p.ifnamsiz + 3 * 4) * (maxDepIf + 2) by omega)
      omega
    omega
  have hAvailable : (sent ++ stateReply table).drop (sent.length + 4) = tableBytes table := by
    rw [← List.drop_drop, List.drop_left, stateReply, List.drop_left' hFour]
  have hRead : read (tableBytes table).length ⟨.table (tableBytes table).length [], [],
      idle data commands (sent ++ stateReply table), sent.length + 4, []⟩ =
      some (tableBytes table, ⟨.table (tableBytes table).length [], [],
        idle data commands (sent ++ stateReply table),
        sent.length + 4 + (tableBytes table).length, []⟩) := by
    simp only [read, available, idle, hAvailable, List.ne_nil_of_length_pos hSome, false_and,
      if_false, List.take_length]
  rw [step, wackatrl]
  dsimp only
  rw [List.length_nil, if_pos hSome, Nat.sub_zero, hRead, Option.map_some, List.nil_append]

/-- Undisturbed, `wackatrl` gets the table. -/
theorem asking_shows (hTable : 1 ≤ table.length) (hMax : table.length ≤ maxPseudo) :
    ∃ session received, (asking table).foldlM step
      ⟨.ask, [], idle data commands sent, sent.length, []⟩ =
        some ⟨.shown (some (table.map TableEntry.row)), [], session, received, []⟩ := by
  have hAsk : step ⟨.ask, [], idle data commands sent, sent.length, []⟩ .wackatrl =
      some ⟨.size, [getWackState], idle data commands sent, sent.length, []⟩ := rfl
  have hRows := getRows_eq (List.ne_nil_of_length_pos hTable) [] hMax
  rw [List.nil_append, List.length_nil] at hRows
  have hShow (s : ControlSession p) (received : Nat) :
      step ⟨.table (tableBytes table).length (tableBytes table), [], s, received, []⟩ .wackatrl =
        some ⟨.shown (some (table.map TableEntry.row)), [], s, received, []⟩ := by
    rw [step, wackatrl]
    dsimp only
    rw [if_neg (Nat.lt_irrefl _), hRows]
  refine ⟨idle (.writing (stateReply table).length 0 (stateReply table))
    (commands ++ [(getWackState, table)]) (sent ++ stateReply table),
    sent.length + 4 + (tableBytes table).length, ?_⟩
  simp only [asking, List.foldlM_cons, hAsk, serving_read, serving_write, wackatrl_size _ _ _ hMax,
    wackatrl_table _ _ _ hTable, hShow, Option.bind_eq_bind, Option.bind_some, List.foldlM_nil]
  rfl

/-- The same from the start, for each operation. -/
theorem undisturbed_shows (hTable : 1 ≤ table.length) (hMax : table.length ≤ maxPseudo)
    (hOp : op = wackServiceFailure ∨ op = wackServiceSuccess) :
    ∃ s, run op (posting table op) = some s ∧
      s.stage = .shown (some (table.map TableEntry.row)) := by
  have hPosted : [.wackatrl, serving table (.byte op), serving table .again].foldlM step
      (start p op) = some ⟨.result, [], idle (.retint (ntohl p.byteOrder 0#32)) [(op, table)]
        (List.replicate 4 0#8), 0, []⟩ := by
    have hZero : p.byteOrder.store (ntohl p.byteOrder 0#32) = List.replicate 4 0#8 := by
      cases p.byteOrder <;> rfl
    rw [← hZero]
    obtain ⟨order, ifnamsiz, hName⟩ := p
    rcases hOp with rfl | rfl <;> cases order <;> rfl
  have hResult (s : ControlSession p) (hSent : s.sent = List.replicate 4 0#8) :
      step ⟨.result, [], s, 0, []⟩ .wackatrl = some ⟨.ask, [], s, 4, []⟩ := by
    have hRead : read 4 ⟨.result, [], s, 0, []⟩ =
        some (List.replicate 4 0#8, ⟨.result, [], s, 4, []⟩) := by
      rw [read, available, hSent]
      rfl
    rw [step, wackatrl]
    dsimp only
    rw [hRead, Option.map_some]
    dsimp only
    rw [if_neg (not_not.mpr List.length_replicate), if_neg (not_not.mpr (fetch_zeros _))]
  obtain ⟨session, received, hAsking⟩ := asking_shows (.retint (ntohl p.byteOrder 0#32))
    [(op, table)] (List.replicate 4 0#8) hTable hMax
  refine ⟨⟨.shown (some (table.map TableEntry.row)), [], session, received, []⟩, ?_, rfl⟩
  rw [run, posting, List.foldlM_append, hPosted, Option.bind_eq_bind, Option.bind_some,
    List.foldlM_cons, hResult _ rfl]
  exact hAsking

end Undisturbed

theorem posting_configured {table : List (TableEntry p)} (hTable : 1 ≤ table.length)
    (hMax : table.length ≤ maxPseudo) : ∀ move ∈ posting table op, move.Configured := by
  simp [posting, asking, serving, Move.Configured, hTable, hMax]

/-- Whenever `wackatrl` shows a table, it is the table that the daemon had when it read
GET_WACK_STATE, with all its entries. Before that the daemon has read what was posted and nothing
else, and no error has been printed. -/
theorem conversation_shows (hOp : op = getWackState ∨ op = wackServiceFailure ∨ op = wackServiceSuccess)
    {moves : List (Move p)} (hMoves : ∀ move ∈ moves, move.Configured)
    (h : run op moves = some s) {rows : Option (List (TableRow p))} (hShown : s.stage = .shown rows) :
    ∃ earlier table, s.session.commands = earlier ++ [(getWackState, table)] ∧
      earlier.map Prod.fst = posted op ∧ rows = some (table.map TableEntry.row) ∧ s.stderr = [] := by
  have hAt := (run_inv hOp hMoves h).stage
  rw [At, hShown] at hAt
  obtain ⟨table, ⟨⟨earlier, hEarlier, hCommands⟩, -, hStderr⟩, hRows⟩ := hAt
  exact ⟨earlier, table, hCommands, hEarlier, hRows, hStderr⟩

/-- `wackatrl -s`, for one virtual interface. -/
theorem resuming_conversation_shows :
    ∃ s, run wackServiceSuccess (posting [acquiredEntry] wackServiceSuccess) = some s ∧
      s.session.commands.map Prod.fst = [wackServiceSuccess, getWackState] ∧ s.stderr = [] := by
  have hMax : [acquiredEntry].length ≤ maxPseudo := by decide
  obtain ⟨s, hRun, hStage⟩ := undisturbed_shows le_rfl hMax
    (show wackServiceSuccess = _ ∨ wackServiceSuccess = wackServiceSuccess from .inr rfl)
  obtain ⟨earlier, table, hCommands, hEarlier, -, hStderr⟩ :=
    conversation_shows (.inr (.inr rfl)) (posting_configured le_rfl hMax) hRun hStage
  refine ⟨s, hRun, ?_, hStderr⟩
  rw [hCommands, List.map_append, hEarlier]
  rfl

/-- `wackatrl` waits only while it has read all that the daemon has sent. -/
theorem waits_of_read {count : Nat} (h : s.read count = none) :
    s.session.sent.length ≤ s.received ∧ s.session.sess.isSome := by
  rw [read] at h
  split_ifs at h with hWait
  exact ⟨List.drop_eq_nil_iff.mp hWait.1, hWait.2⟩

/-- What `wackatrl` waits for has not been sent. -/
theorem Inv.waits (hInv : Inv op s)
    (hOp : op = getWackState ∨ op = wackServiceFailure ∨ op = wackServiceSuccess)
    (hRuns : s.hasEnded = false) (hWaits : s.wackatrl = none) :
    s.session.sess.isSome ∧ (s.outgoing = [] → s.session.sent ≠ replies s.session.commands) := by
  have hAt := hInv.stage
  rw [Conversation.wackatrl] at hWaits
  cases hStage : s.stage with
  | post op' => rw [hStage] at hWaits; cases hWaits
  | ask => rw [hStage] at hWaits; cases hWaits
  | result =>
      rw [hStage] at hWaits
      simp only [At, hStage] at hAt
      obtain ⟨hPost, hPosted, hReceived, -⟩ := hAt
      obtain ⟨hSent, hOpen⟩ := waits_of_read (Option.map_eq_none_iff.mp hWaits)
      refine ⟨hOpen, fun hOutgoing hAll => ?_⟩
      have hNames : s.session.commands.map Prod.fst = posted op := by
        rw [written, hOutgoing, List.append_nil] at hPost
        exact hPost
      have hLength := length_replies hOp hNames
      rw [← hAll, hPosted, List.length_singleton] at hLength
      omega
  | size =>
      rw [hStage] at hWaits
      simp only [At, hStage] at hAt
      obtain ⟨hPost, hReceived, -, -⟩ := hAt
      obtain ⟨hSent, hOpen⟩ := waits_of_read (Option.map_eq_none_iff.mp hWaits)
      refine ⟨hOpen, fun hOutgoing hAll => ?_⟩
      rw [written, hOutgoing, List.append_nil] at hPost
      obtain ⟨earlier, last, hCommands, hEarlier, hLast⟩ := List.map_eq_append_iff.mp hPost
      obtain ⟨⟨b, table⟩, rfl, rfl⟩ := List.map_eq_singleton_iff.mp hLast
      have hLength := congrArg List.length hAll
      rw [hCommands, replies_concat, List.length_append, length_replies hOp hEarlier, reply,
        if_pos rfl, length_stateReply, replySize] at hLength
      omega
  | table size buffer =>
      rw [hStage] at hWaits
      simp only [At, hStage] at hAt
      obtain ⟨table, hAsked, hSize, -, hReceived, -⟩ := hAt
      dsimp only at hWaits
      split_ifs at hWaits with hLeft
      obtain ⟨hSent, hOpen⟩ := waits_of_read (Option.map_eq_none_iff.mp hWaits)
      refine ⟨hOpen, fun hOutgoing hAll => ?_⟩
      obtain ⟨earlier, hEarlier, hCommands⟩ := hAsked.commands
      have hTable := length_tableBytes table
      have hLength := congrArg List.length hAll
      rw [hCommands, replies_concat, List.length_append, length_replies hOp hEarlier, reply,
        if_pos rfl, length_stateReply] at hLength
      omega
  | shown rows => rw [hasEnded, hStage] at hRuns; cases hRuns
  | failed => rw [hasEnded, hStage] at hRuns; cases hRuns
  | broken => rw [hasEnded, hStage] at hRuns; cases hRuns

/-- The two never wait for each other: as long as `wackatrl` runs it can go on, or the event on
which the daemon waits is there. -/
theorem conversation_proceeds (hOp : op = getWackState ∨ op = wackServiceFailure ∨ op = wackServiceSuccess)
    {moves : List (Move p)} (hMoves : ∀ move ∈ moves, move.Configured)
    (h : run op moves = some s) (hRuns : s.hasEnded = false) :
    s.wackatrl ≠ none ∨ s.session.sess.isSome ∧
      (s.session.active = .writeFd ∨ s.session.active = .readFd ∧ s.outgoing ≠ []) := by
  have hInv := run_inv hOp hMoves h
  by_cases hWaits : s.wackatrl = none
  · obtain ⟨hOpen, hMissing⟩ := hInv.waits hOp hRuns hWaits
    refine .inr ⟨hOpen, ?_⟩
    obtain ⟨sess, hSess⟩ := Option.isSome_iff_exists.mp hOpen
    have hDelivers := hInv.delivers
    rw [ControlSession.Delivers, hSess] at hDelivers
    obtain ⟨hActive, owed, hOwes, hAll⟩ := hDelivers
    rw [hActive]
    cases hOwes with
    | nothing data =>
        rw [List.append_nil] at hAll
        exact .inr ⟨rfl, fun hOutgoing => hMissing hOutgoing hAll⟩
    | table hLess => exact .inl rfl
    | result hService word => exact .inl rfl
  · exact .inl hWaits

/-- After its first byte `wackatrl` waits for the daemon. -/
theorem waiting_conversation_proceeds :
    ∃ s : Conversation ⟨.little, 16, by decide⟩, run wackServiceSuccess [.wackatrl] = some s ∧
      s.wackatrl = none ∧ s.outgoing ≠ [] := by
  have hRun : run wackServiceSuccess [.wackatrl] = some (⟨.result, [wackServiceSuccess],
      .connected _, 0, []⟩ : Conversation ⟨.little, 16, by decide⟩) := rfl
  refine ⟨_, hRun, rfl, ?_⟩
  rcases conversation_proceeds (.inr (.inr rfl)) (by simp [Move.Configured]) hRun rfl with
    hGoes | ⟨-, hWrites | ⟨-, hOutgoing⟩⟩
  · exact absurd rfl hGoes
  · cases hWrites
  · exact hOutgoing

end Conversation

end Wackamole
