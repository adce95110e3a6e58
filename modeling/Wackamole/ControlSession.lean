import Wackamole.TableReply

/-! The sessions of `wackatrl` in `control.c`. Every call of `handle_control_session` does one
`read` or one `write` on the descriptor, with whatever result. -/
namespace Wackamole

open HostWords ByteCursor

variable {p : Platform}

abbrev getWackState : Byte := 0#8
abbrev wackServiceFailure : Byte := 1#8
abbrev wackServiceSuccess : Byte := 2#8
abbrev readCommand : Byte := 100#8

inductive FdType where
  | readFd
  | writeFd
  deriving DecidableEq

/-- The union in a `control_state`. -/
inductive SessionData where
  | writing (size written : Nat) (buffer : List Byte)
  | retint (word : Word)

structure ControlState where
  operation : Byte
  state : FdType
  data : SessionData

/-- `set_state_wack_service_state`. Its effect on the daemon is `setServiceState`. -/
def setStateWackServiceState (o : ByteOrder) (sess : ControlState) : ControlState :=
  let retint :=
    if sess.operation = wackServiceFailure ∨ sess.operation = wackServiceSuccess then ntohl o 0#32
    else ntohl o (-1#32)
  { sess with state := .writeFd, data := .retint retint }

def setStateWackState (table : List (TableEntry p)) (heap : Nat → Byte) (sess : ControlState) :
    Option ControlState := do
  let buffer ← stateBuffer table heap
  return { sess with
    state := .writeFd
    data := .writing (replySize p table.length) 0 buffer.cells }

def newCommand (table : List (TableEntry p)) (heap : Nat → Byte) (sess : ControlState) :
    Option (Int × ControlState) :=
  if sess.operation = getWackState then (setStateWackState table heap sess).map fun sess => (0, sess)
  else if sess.operation = wackServiceFailure ∨ sess.operation = wackServiceSuccess then
    some (0, setStateWackServiceState p.byteOrder sess)
  else some (-1, sess)

/-- The result of a `read` of one byte. -/
inductive ReadResult where
  | byte (b : Byte)
  | eof
  | again
  | error

/-- The result of a `write` of some bytes. -/
inductive WriteResult (count : Nat) where
  | wrote (ret : Fin (count + 1))
  | again
  | error

/-- What a call of `handle_control_session` finds: the table of the daemon, the contents of
fresh memory, and the answers of the descriptor. -/
structure Callback (p : Platform) where
  table : List (TableEntry p)
  heap : Nat → Byte
  read : ReadResult
  write : (count : Nat) → WriteResult count

/-- A session: its state until it is closed, which event of the descriptor is active, the
command bytes that have been read, each with the table at that time, and the bytes that have
been written. -/
structure ControlSession (p : Platform) where
  sess : Option ControlState
  active : FdType
  commands : List (Byte × List (TableEntry p))
  sent : List Byte

namespace ControlSession

/-- The session that `handle_control_connect` sets up. -/
def connected (p : Platform) : ControlSession p :=
  ⟨some ⟨readCommand, .readFd, .retint 0#32⟩, .readFd, [], []⟩

/-- `close_clean`. -/
def close (s : ControlSession p) : ControlSession p := { s with sess := none }

/-- `set_event_mask`, for a new state of the session. -/
def setEventMask (sess : ControlState) (s : ControlSession p) : ControlSession p :=
  { s with sess := some sess, active := sess.state }

/-- A reply is complete. -/
def finish (sess : ControlState) (s : ControlSession p) : ControlSession p :=
  s.setEventMask { sess with operation := readCommand, state := .readFd }

/-- The case `READ_FD` of `handle_control_session`. -/
def handleRead (c : Callback p) (sess : ControlState) (s : ControlSession p) : Option (ControlSession p) :=
  if sess.operation = readCommand then
    match c.read with
    | .eof => some s.close
    | .again => some s
    | .error => some s.close
    | .byte b =>
      let s := { s with commands := s.commands ++ [(b, c.table)] }
      (newCommand c.table c.heap { sess with operation := b }).map fun (ret, sess) =>
        if ret ≠ 0 then s.close else s.setEventMask sess
  else some s.close

/-- The case `WRITE_FD`. There is no result where the code would take the union for the other
of its members. -/
def handleWrite (c : Callback p) (sess : ControlState) (s : ControlSession p) : Option (ControlSession p) :=
  if sess.operation = getWackState then
    match sess.data with
    | .retint _ => none
    | .writing size written buffer =>
      match c.write (size - written) with
      | .again => some s
      | .error => some s.close
      | .wrote ret =>
        if ret.val = 0 then some s.close
        else
          let s := { s with sent := s.sent ++ (buffer.drop written).take ret }
          let written := written + ret.val
          if written = size then some (s.finish sess)
          else some { s with sess := some { sess with data := .writing size written buffer } }
  else if sess.operation = wackServiceFailure ∨ sess.operation = wackServiceSuccess then
    match sess.data with
    | .writing _ _ _ => none
    | .retint word =>
      match c.write 4 with
      | .again => some s
      | .error => some s.close
      | .wrote ret =>
        let s := { s with sent := s.sent ++ (p.byteOrder.store word).take ret }
        if ret.val = 4 then some (s.finish sess) else some s.close
  else some s.close

/-- `handle_control_session`. A closed session gets no more calls. -/
def handleControlSession (s : ControlSession p) (c : Callback p) : Option (ControlSession p) :=
  match s.sess with
  | none => some s
  | some sess =>
    match sess.state with
    | .readFd => s.handleRead c sess
    | .writeFd => s.handleWrite c sess

/-- The calls for a session since it was set up. -/
def run (callbacks : List (Callback p)) : Option (ControlSession p) :=
  callbacks.foldlM handleControlSession (connected p)

end ControlSession

/-- What GET_WACK_STATE is answered with: the announced size and the entries. -/
def stateReply (table : List (TableEntry p)) : List Byte :=
  p.byteOrder.store (ntohl p.byteOrder (BitVec.ofNat 32 (replySize p table.length - 4))) ++
    tableBytes table

/-- The reply to a command byte that is read while the daemon has this table. Other bytes than
the three commands get none. -/
def reply : Byte × List (TableEntry p) → List Byte
  | (command, table) =>
    if command = getWackState then stateReply table
    else if command = wackServiceFailure ∨ command = wackServiceSuccess then List.replicate 4 0#8
    else []

def replies (commands : List (Byte × List (TableEntry p))) : List Byte := commands.flatMap reply

/-- What an open session has still to write. -/
def ControlState.owed (o : ByteOrder) (sess : ControlState) : List Byte :=
  match sess.state, sess.data with
  | .readFd, _ => []
  | .writeFd, .writing _ written buffer => buffer.drop written
  | .writeFd, .retint word => o.store word

/-- The states of an open session, each with the bytes that it has still to write. -/
inductive Owes (o : ByteOrder) : ControlState → List Byte → Prop where
  | nothing (data : SessionData) : Owes o ⟨readCommand, .readFd, data⟩ []
  | table {written : Nat} {buffer : List Byte} (h : written < buffer.length) :
      Owes o ⟨getWackState, .writeFd, .writing buffer.length written buffer⟩ (buffer.drop written)
  | result {operation : Byte} (h : operation = wackServiceFailure ∨ operation = wackServiceSuccess)
      (word : Word) : Owes o ⟨operation, .writeFd, .retint word⟩ (o.store word)

theorem Owes.owed_eq {o : ByteOrder} {sess : ControlState} {owed : List Byte}
    (h : Owes o sess owed) : sess.owed o = owed := by
  cases h <;> rfl

/-- What has been written and what an open session owes are all replies. -/
def ControlSession.Delivers (s : ControlSession p) : Prop :=
  match s.sess with
  | none => s.sent <+: replies s.commands
  | some sess => s.active = sess.state ∧
    ∃ owed, Owes p.byteOrder sess owed ∧ s.sent ++ owed = replies s.commands

theorem replies_concat (commands : List (Byte × List (TableEntry p)))
    (command : Byte × List (TableEntry p)) :
    replies (commands ++ [command]) = replies commands ++ reply command := by
  simp [replies]

theorem length_stateReply (table : List (TableEntry p)) :
    (stateReply table).length = replySize p table.length := by
  rw [stateReply, List.length_append, ByteOrder.length_store, length_tableBytes]

theorem reply_state (table : List (TableEntry p)) :
    reply (getWackState, table) = stateReply table := by
  rw [reply, if_pos rfl]

theorem store_ne_nil (o : ByteOrder) (word : Word) : o.store word ≠ [] := by
  rw [← List.length_pos_iff, ByteOrder.length_store]
  decide

/-- A service command is answered with zero. -/
theorem reply_service {command : Byte}
    (hService : command = wackServiceFailure ∨ command = wackServiceSuccess)
    (table : List (TableEntry p)) :
    reply (command, table) = p.byteOrder.store (ntohl p.byteOrder 0#32) := by
  have hState : command ≠ getWackState := by
    obtain rfl | rfl := hService <;> decide
  rw [reply, if_neg hState, if_pos hService]
  cases p.byteOrder <;> rfl

/-- A new command: its reply is what the session owes, or there is none. -/
theorem newCommand_owes (table : List (TableEntry p)) (heap : Nat → Byte) (command : Byte)
    (data : SessionData) : ∃ ret sess,
      newCommand table heap ⟨command, .readFd, data⟩ = some (ret, sess) ∧
      sess.operation = command ∧ (ret = 0 → Owes p.byteOrder sess (reply (command, table))) ∧
      (ret ≠ 0 ↔ reply (command, table) = []) := by
  by_cases hState : command = getWackState
  · subst hState
    have hSize : 0 < (stateReply table).length := by
      rw [length_stateReply, replySize]
      omega
    refine ⟨0, ⟨getWackState, .writeFd, .writing (stateReply table).length 0 (stateReply table)⟩,
      ?_, rfl, fun _ => ?_, fun h => absurd rfl h, fun hNil => ?_⟩
    · rw [newCommand, if_pos rfl, setStateWackState, stateBuffer_eq, length_stateReply]
      rfl
    · exact Owes.table hSize
    · rw [← reply_state, hNil] at hSize
      exact absurd hSize (lt_irrefl 0)
  · by_cases hService : command = wackServiceFailure ∨ command = wackServiceSuccess
    · refine ⟨0, _, by rw [newCommand, if_neg hState, if_pos hService], rfl, fun _ => ?_,
        fun h => absurd rfl h, fun hNil => ?_⟩
      · rw [reply_service hService, setStateWackServiceState, if_pos hService]
        exact Owes.result hService _
      · rw [reply_service hService] at hNil
        exact absurd hNil (store_ne_nil _ _)
    · have hNone : reply (command, table) = [] := by
        rw [reply, if_neg hState, if_neg hService]
      refine ⟨-1, _, by rw [newCommand, if_neg hState, if_neg hService], rfl, fun h => ?_,
        fun _ => hNone, fun _ => by decide⟩
      cases h

namespace ControlSession

/-- The state READ_COMMAND, in which the session waits for a command byte. -/
def Ready (s : ControlSession p) : Prop := ∃ data, s.sess = some ⟨readCommand, .readFd, data⟩

/-- What a call does in READ_COMMAND, for the result of its `read`. A command byte is recorded
with the table, and the session stays open to write the reply if there is one. -/
def AfterRead (table : List (TableEntry p)) (s s' : ControlSession p) : ReadResult → Prop
  | .byte b => s'.sent = s.sent ∧ s'.commands = s.commands ++ [(b, table)] ∧
      s'.sess.map ControlState.operation = if reply (b, table) = [] then none else some b
  | .again => s' = s
  | .eof => s' = s.close
  | .error => s' = s.close

/-- What a call does while bytes are owed, for the result of its `write`. The bytes that the
descriptor takes are the next ones owed; with the last of them the session is in READ_COMMAND
again. Only a table is written in several parts. -/
def AfterWrite (operation : Byte) (owed : List Byte) (s s' : ControlSession p) {count : Nat} :
    WriteResult count → Prop
  | .wrote ret => s'.commands = s.commands ∧ s'.sent = s.sent ++ owed.take ret.val ∧
      if ret.val = owed.length then s'.Ready
      else s'.sess.map ControlState.operation =
        if operation = getWackState ∧ ret.val ≠ 0 then some operation else none
  | .again => s' = s
  | .error => s' = s.close

/-- A call in an open session: it reads if nothing is owed, and else it writes what is owed. -/
def AfterCall (s : ControlSession p) (c : Callback p) (operation : Byte) (owed : List Byte)
    (s' : ControlSession p) : Prop :=
  if owed = [] then AfterRead c.table s s' c.read
  else AfterWrite operation owed s s' (c.write owed.length)

/-- What a call does to a session in any state. -/
structure Advances (c : Callback p) (s s' : ControlSession p) : Prop where
  delivers : s'.Delivers
  closed : s.sess = none → s' = s
  call : ∀ sess, s.sess = some sess →
    AfterCall s c sess.operation (sess.owed p.byteOrder) s'

variable {s : ControlSession p} (c : Callback p)

theorem Delivers.sent_starts (h : s.Delivers) : s.sent <+: replies s.commands := by
  rw [Delivers] at h
  cases hSess : s.sess with
  | none =>
      rw [hSess] at h
      exact h
  | some sess =>
      rw [hSess] at h
      obtain ⟨-, owed, -, hAll⟩ := h
      exact ⟨owed, hAll⟩

theorem Delivers.close (h : s.Delivers) : s.close.Delivers := h.sent_starts

/-- A command byte is read. -/
theorem Delivers.handleRead (h : s.Delivers) (hAll : s.sent = replies s.commands)
    (data : SessionData) :
    ∃ s', s.handleRead c ⟨readCommand, .readFd, data⟩ = some s' ∧ s'.Delivers ∧
      AfterRead c.table s s' c.read := by
  rw [ControlSession.handleRead, if_pos rfl]
  cases c.read with
  | eof => exact ⟨_, rfl, h.close, rfl⟩
  | again => exact ⟨_, rfl, h, rfl⟩
  | error => exact ⟨_, rfl, h.close, rfl⟩
  | byte b =>
      obtain ⟨ret, sess, hNew, hOperation, hOwes, hReply⟩ := newCommand_owes c.table c.heap b data
      have hReplies : s.sent ++ reply (b, c.table) = replies (s.commands ++ [(b, c.table)]) := by
        rw [replies_concat, hAll]
      dsimp only
      rw [hNew, Option.map_some]
      dsimp only
      split_ifs with hRet
      · exact ⟨_, rfl, ⟨_, hReplies⟩, rfl, rfl, (if_pos (hReply.mp hRet)).symm⟩
      · have hOpen : reply (b, c.table) ≠ [] := fun hNil => hRet (hReply.mpr hNil)
        refine ⟨_, rfl, ⟨rfl, _, hOwes (not_not.mp hRet), hReplies⟩, rfl, rfl, ?_⟩
        rw [if_neg hOpen, ← hOperation]
        rfl

/-- Part of the table, or the last of it, is written. -/
theorem Delivers.writeTable (h : s.Delivers) {written : Nat} {buffer : List Byte}
    (hActive : s.active = .writeFd) (hLeft : written < buffer.length)
    (hAll : s.sent ++ buffer.drop written = replies s.commands) :
    ∃ s', s.handleWrite c ⟨getWackState, .writeFd, .writing buffer.length written buffer⟩ =
      some s' ∧ s'.Delivers ∧
      AfterWrite getWackState (buffer.drop written) s s'
        (c.write (buffer.drop written).length) := by
  rw [handleWrite, if_pos rfl, List.length_drop]
  dsimp only
  cases c.write (buffer.length - written) with
  | again => exact ⟨_, rfl, h, rfl⟩
  | error => exact ⟨_, rfl, h.close, rfl⟩
  | wrote ret =>
      have hWhole : s.sent ++ (buffer.drop written).take ret.val ++
          buffer.drop (written + ret.val) = replies s.commands := by
        rw [List.append_assoc, ← List.drop_drop, List.take_append_drop, hAll]
      have hOwed : (buffer.drop written).length = buffer.length - written := List.length_drop
      dsimp only
      split_ifs with hRet hDone
      · have hNothing : ret.val ≠ (buffer.drop written).length := by omega
        refine ⟨_, rfl, h.close, rfl, ?_, ?_⟩
        · rw [hRet, List.take_zero, List.append_nil]
          rfl
        · rw [if_neg hNothing, if_neg fun hPart => hPart.2 hRet]
          rfl
      · have hAllOf : ret.val = (buffer.drop written).length := by omega
        rw [hDone, List.drop_length] at hWhole
        refine ⟨_, rfl, ⟨rfl, [], .nothing _, hWhole⟩, rfl, rfl, ?_⟩
        rw [if_pos hAllOf]
        exact ⟨_, rfl⟩
      · have hMore : written + ret.val < buffer.length := by omega
        have hPartOf : ret.val ≠ (buffer.drop written).length := by omega
        refine ⟨_, rfl, ⟨hActive, _, .table hMore, hWhole⟩, rfl, rfl, ?_⟩
        rw [if_neg hPartOf, if_pos ⟨rfl, hRet⟩]
        rfl

/-- The four bytes of a result are written, or some of them before the session is closed. -/
theorem Delivers.writeResult (h : s.Delivers) {operation : Byte}
    (hService : operation = wackServiceFailure ∨ operation = wackServiceSuccess) {word : Word}
    (hAll : s.sent ++ p.byteOrder.store word = replies s.commands) :
    ∃ s', s.handleWrite c ⟨operation, .writeFd, .retint word⟩ = some s' ∧ s'.Delivers ∧
      AfterWrite operation (p.byteOrder.store word) s s'
        (c.write (p.byteOrder.store word).length) := by
  have hState : operation ≠ getWackState := by
    obtain rfl | rfl := hService <;> decide
  have hLength := p.byteOrder.length_store word
  rw [handleWrite, if_neg hState, if_pos hService, hLength]
  dsimp only
  cases c.write 4 with
  | again => exact ⟨_, rfl, h, rfl⟩
  | error => exact ⟨_, rfl, h.close, rfl⟩
  | wrote ret =>
      have hWhole : s.sent ++ (p.byteOrder.store word).take ret.val ++
          (p.byteOrder.store word).drop ret.val = replies s.commands := by
        rw [List.append_assoc, List.take_append_drop, hAll]
      dsimp only
      split_ifs with hRet
      · rw [List.drop_of_length_le (by omega)] at hWhole
        refine ⟨_, rfl, ⟨rfl, [], .nothing _, hWhole⟩, rfl, rfl, ?_⟩
        rw [if_pos (hRet.trans hLength.symm)]
        exact ⟨_, rfl⟩
      · have hPartOf : ret.val ≠ (p.byteOrder.store word).length := by omega
        refine ⟨_, rfl, ⟨_, hWhole⟩, rfl, rfl, ?_⟩
        rw [if_neg hPartOf, if_neg fun hTable => hState hTable.1]
        rfl

/-- One call, in any state of the session. -/
theorem Delivers.handleControlSession (h : s.Delivers) :
    ∃ s', s.handleControlSession c = some s' ∧ Advances c s s' := by
  cases hSess : s.sess with
  | none =>
      refine ⟨s, by rw [ControlSession.handleControlSession, hSess], h, fun _ => rfl, ?_⟩
      intro sess hOpen
      rw [hSess] at hOpen
      cases hOpen
  | some sess =>
      have hOpen := h
      rw [Delivers, hSess] at hOpen
      obtain ⟨hActive, owed, hOwes, hAll⟩ := hOpen
      suffices hCall : ∃ s', s.handleControlSession c = some s' ∧ s'.Delivers ∧
          s.AfterCall c sess.operation owed s' by
        obtain ⟨s', hEq, hDelivers, hAfter⟩ := hCall
        refine ⟨s', hEq, hDelivers, fun hNone => ?_, ?_⟩
        · rw [hSess] at hNone
          cases hNone
        · intro sess' hSess'
          obtain rfl := Option.some.inj (hSess.symm.trans hSess')
          rwa [hOwes.owed_eq]
      rw [ControlSession.handleControlSession, hSess]
      cases hOwes with
      | nothing data =>
          obtain ⟨s', hRead, hNext, hAfter⟩ :=
            h.handleRead c ((List.append_nil _).symm.trans hAll) data
          refine ⟨s', hRead, hNext, ?_⟩
          rwa [AfterCall, if_pos rfl]
      | @table written buffer hLeft =>
          have hOwed : buffer.drop written ≠ [] := by
            rw [Ne, List.drop_eq_nil_iff]
            exact not_le.mpr hLeft
          obtain ⟨s', hWrite, hNext, hAfter⟩ := h.writeTable c hActive hLeft hAll
          refine ⟨s', hWrite, hNext, ?_⟩
          rwa [AfterCall, if_neg hOwed]
      | result hService word =>
          obtain ⟨s', hWrite, hNext, hAfter⟩ := h.writeResult c hService hAll
          refine ⟨s', hWrite, hNext, ?_⟩
          rwa [AfterCall, if_neg (store_ne_nil _ word)]

theorem run_snoc {callbacks : List (Callback p)} {s s' : ControlSession p} {c : Callback p}
    (hRun : run callbacks = some s) (hCall : s.handleControlSession c = some s') :
    run (callbacks ++ [c]) = some s' := by
  rw [run] at hRun
  rw [run, List.foldlM_append, hRun]
  simpa using hCall

/-- All calls for a session. -/
theorem run_delivers (callbacks : List (Callback p)) :
    ∃ s, run callbacks = some s ∧ s.Delivers := by
  induction callbacks using List.reverseRecOn with
  | nil => exact ⟨connected p, rfl, rfl, [], .nothing _, rfl⟩
  | append_singleton callbacks c ih =>
      obtain ⟨s, hRun, hDelivers⟩ := ih
      obtain ⟨s', hCall, hAdvances⟩ := hDelivers.handleControlSession c
      exact ⟨s', run_snoc hRun hCall, hAdvances.delivers⟩

/-- With nothing owed an open session is in READ_COMMAND. -/
theorem Delivers.ready_iff (h : s.Delivers) {sess : ControlState} (hSess : s.sess = some sess) :
    sess.owed p.byteOrder = [] ↔ s.Ready := by
  rw [Delivers, hSess] at h
  obtain ⟨-, owed, hOwes, -⟩ := h
  rw [hOwes.owed_eq]
  constructor
  · intro hNil
    cases hOwes with
    | nothing data => exact ⟨data, hSess⟩
    | table hLeft => exact absurd (List.drop_eq_nil_iff.mp hNil) (not_le.mpr hLeft)
    | result hService word => exact absurd hNil (store_ne_nil _ word)
  · rintro ⟨data, hReady⟩
    obtain rfl := Option.some.inj (hSess.symm.trans hReady)
    exact hOwes.owed_eq.symm

end ControlSession

/-- For every sequence of calls with any results of the reads and writes, what has been written
is a prefix of the replies to the commands read. An open session still owes the rest of them, and
it waits for its event. With nothing owed it is in READ_COMMAND, where the next call reads a
command byte; otherwise the next call reads none and writes the next bytes owed. -/
theorem controlSession_delivers (callbacks : List (Callback p)) :
    ∃ s, ControlSession.run callbacks = some s ∧ s.sent <+: replies s.commands ∧
      (∀ sess, s.sess = some sess →
        s.sent ++ sess.owed p.byteOrder = replies s.commands ∧ s.active = sess.state ∧
          (sess.owed p.byteOrder = [] ↔ s.Ready)) ∧
      ∀ c, ∃ s', s.handleControlSession c = some s' ∧ (s.sess = none → s' = s) ∧
        ∀ sess, s.sess = some sess →
          s.AfterCall c sess.operation (sess.owed p.byteOrder) s' := by
  obtain ⟨s, hRun, hDelivers⟩ := ControlSession.run_delivers callbacks
  refine ⟨s, hRun, hDelivers.sent_starts, fun sess hSess => ?_, fun c => ?_⟩
  · have hReady := hDelivers.ready_iff hSess
    rw [ControlSession.Delivers, hSess] at hDelivers
    obtain ⟨hActive, owed, hOwes, hAll⟩ := hDelivers
    rw [← hOwes.owed_eq] at hAll
    exact ⟨hAll, hActive, hReady⟩
  · obtain ⟨s', hCall, hAdvances⟩ := hDelivers.handleControlSession c
    exact ⟨s', hCall, hAdvances.closed, hAdvances.call⟩

/-- The client asks for a table. -/
def Callback.asks (table : List (TableEntry p)) : Callback p :=
  ⟨table, fun _ => 0#8, .byte getWackState, fun _ => .again⟩

/-- The descriptor takes so many bytes, and the daemon has another table by now. -/
def Callback.takes (k : Nat) : Callback p :=
  ⟨[], fun _ => 0#8, .again, fun count => .wrote ⟨min k count, by omega⟩⟩

/-- What a session does whose descriptor takes part of a table, or the rest of it. -/
theorem ControlSession.AfterCall.takes {s s' : ControlSession p} {k : Nat} {owed : List Byte}
    (h : s.AfterCall (.takes k) getWackState owed s') (hOwed : owed ≠ []) (hk : k ≠ 0) :
    s'.commands = s.commands ∧ s'.sent = s.sent ++ owed.take k ∧
      if owed.length ≤ k then s'.Ready
      else s'.sess.map ControlState.operation = some getWackState := by
  rw [AfterCall, if_neg hOwed] at h
  obtain ⟨hCommands, hSent, hSess⟩ := h
  have hTake : owed.take (min k owed.length) = owed.take k := by
    rw [← List.take_take, List.take_length]
  have hLength : owed.length ≠ 0 := fun hNil => hOwed (List.length_eq_zero_iff.mp hNil)
  refine ⟨hCommands, hSent.trans (congrArg (s.sent ++ ·) hTake), ?_⟩
  split_ifs with hFull
  · exact (if_pos (Nat.min_eq_right hFull)).mp hSess
  · have hPart : min k owed.length ≠ owed.length := by omega
    have hSome : min k owed.length ≠ 0 := by omega
    exact ((if_neg hPart).mp hSess).trans (if_pos ⟨rfl, hSome⟩)

/-- A table is written in two parts, and the session is in READ_COMMAND again. -/
theorem controlSession_delivers_twoParts :
    let callbacks := [.asks [acquiredEntry], .takes 100, .takes 804]
    ∃ s, ControlSession.run callbacks = some s ∧ s.sent = stateReply [acquiredEntry] ∧ s.Ready := by
  obtain ⟨table, hTable⟩ : ∃ table, table = [acquiredEntry] := ⟨_, rfl⟩
  have hSize : (stateReply table).length = 904 := by
    rw [length_stateReply, hTable]
    rfl
  have hReply : stateReply table ≠ [] := by
    rw [← List.length_pos_iff, hSize]
    decide
  rw [← hTable]
  -- The command is read.
  obtain ⟨s, hRun, -, -, hCalls⟩ :=
    controlSession_delivers ([] : List (Callback ⟨.little, 16, by decide⟩))
  obtain rfl : s = .connected _ := Option.some.inj hRun.symm
  obtain ⟨s₁, hCall₁, -, hAfter₁⟩ := hCalls (.asks table)
  have hRead := hAfter₁ _ rfl
  rw [ControlSession.AfterCall, if_pos (by rfl)] at hRead
  obtain ⟨hSent₁, hCommands₁, hSess₁⟩ := hRead
  obtain ⟨sess₁, hOpen₁, hOperation₁⟩ :=
    Option.map_eq_some_iff.mp (hSess₁.trans (if_neg (hReply ∘ (reply_state _).symm.trans)))
  have hRun₁ := ControlSession.run_snoc hRun hCall₁
  obtain ⟨_, hSame₁, -, hOwes₁, hCalls₁⟩ := controlSession_delivers ([] ++ [.asks table])
  obtain rfl := Option.some.inj (hRun₁.symm.trans hSame₁)
  have hReplies : replies s₁.commands = stateReply table := by
    rw [hCommands₁]
    exact (replies_concat [] _).trans (reply_state _)
  have hOwed₁ : sess₁.owed .little = stateReply table := by
    rw [← hReplies, ← (hOwes₁ sess₁ hOpen₁).1, hSent₁]
    rfl
  -- The first part is written.
  obtain ⟨s₂, hCall₂, -, hAfter₂⟩ := hCalls₁ (.takes 100)
  have hWrite₂ := hAfter₂ sess₁ hOpen₁
  rw [hOwed₁, hOperation₁] at hWrite₂
  obtain ⟨hCommands₂, hSent₂, hSess₂⟩ := hWrite₂.takes hReply (by decide)
  rw [if_neg (by omega)] at hSess₂
  obtain ⟨sess₂, hOpen₂, hOperation₂⟩ := Option.map_eq_some_iff.mp hSess₂
  have hRun₂ := ControlSession.run_snoc hRun₁ hCall₂
  obtain ⟨_, hSame₂, -, hOwes₂, hCalls₂⟩ :=
    controlSession_delivers ([] ++ [.asks table] ++ [.takes 100])
  obtain rfl := Option.some.inj (hRun₂.symm.trans hSame₂)
  have hAll₂ : s₂.sent ++ sess₂.owed .little = replies s₂.commands := (hOwes₂ sess₂ hOpen₂).1
  rw [hCommands₂, hReplies] at hAll₂
  have hPart : s₂.sent.length = 100 := by
    rw [hSent₂, hSent₁]
    simp [ControlSession.connected, hSize]
  have hLeft : (sess₂.owed .little).length = 804 := by
    have hLength := congrArg List.length hAll₂
    rw [List.length_append, hPart, hSize] at hLength
    omega
  -- The rest of it is written.
  obtain ⟨s₃, hCall₃, -, hAfter₃⟩ := hCalls₂ (.takes 804)
  have hWrite₃ := hAfter₃ sess₂ hOpen₂
  rw [hOperation₂] at hWrite₃
  obtain ⟨-, hSent₃, hReady⟩ := hWrite₃.takes (fun hNil => by simp [hNil] at hLeft) (by decide)
  rw [if_pos hLeft.le] at hReady
  rw [List.take_of_length_le hLeft.le, hAll₂] at hSent₃
  exact ⟨s₃, ControlSession.run_snoc hRun₂ hCall₃, hSent₃, hReady⟩

end Wackamole
