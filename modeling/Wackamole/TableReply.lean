import Wackamole.Spoofing
import Wackamole.Library.ByteCursor
import Mathlib.Tactic.Ring

/-! The reply to GET_WACK_STATE: `set_state_wack_state` writes the table of the daemon, and
`get_state` of `wackatrl.c`, on the same host, reads it. -/
namespace Wackamole

open HostWords ByteCursor

/-- What the build fixes: the byte order of the host, and `IFNAMSIZ`, which is 16 on most
systems and 256 at most. -/
structure Platform where
  byteOrder : ByteOrder
  ifnamsiz : Nat
  ifnamsiz_le : ifnamsiz ≤ 256

/-- What a reply carries of a `struct interface`. -/
structure WireInterface (p : Platform) where
  ifname : Fin p.ifnamsiz → Byte
  ipaddr : Address
  bcast : Address
  netmask : Address

/-- What a reply carries of an `entry`. -/
structure TableEntry (p : Platform) where
  claimPriority : Word
  realIf : WireInterface p
  pseudoIf : WireInterface p
  extraIfs : Vector (WireInterface p) maxDepIf

variable {p : Platform}

/-- The macro `sprintif`. -/
def sprintif (i : WireInterface p) (b : Block Byte) : Option (Block Byte) := do
  let b ← b.put (List.ofFn i.ifname)
  let b ← b.put (p.byteOrder.store i.ipaddr)
  let b ← b.put (p.byteOrder.store i.bcast)
  b.put (p.byteOrder.store i.netmask)

/-- One pass of the loop in `set_state_wack_state`. -/
def putEntry (e : TableEntry p) (b : Block Byte) : Option (Block Byte) := do
  let b ← b.put (p.byteOrder.store (ntohl p.byteOrder e.claimPriority))
  let b ← sprintif e.realIf b
  let b ← sprintif e.pseudoIf b
  e.extraIfs.toList.foldlM (fun b i => sprintif i b) b

/-- `sess->data.writing.size`. -/
def replySize (p : Platform) (numPseudo : Nat) : Nat :=
  4 + numPseudo * (4 + (p.ifnamsiz + 3 * 4) * (maxDepIf + 2))

/-- The buffer that `set_state_wack_state` fills, in a block with some contents. -/
def stateBuffer (table : List (TableEntry p)) (heap : Nat → Byte) : Option (Block Byte) := do
  let size := replySize p table.length
  let b ← Block.put (p.byteOrder.store (ntohl p.byteOrder (BitVec.ofNat 32 (size - 4))))
    ⟨(List.range size).map heap, 0⟩
  table.foldlM (fun b e => putEntry e b) b

/-- `memcpy` of an `int` out of the buffer. -/
def getWord (p : Platform) (buffer : List Byte) (toread : Nat) : Option (Word × Nat) :=
  (get 4 buffer toread).map fun (bytes, toread) => (p.byteOrder.fetch bytes 0, toread)

/-- One pass of the inner loop in `get_state`. -/
def getInterface (p : Platform) (buffer : List Byte) (toread : Nat) :
    Option (WireInterface p × Nat) :=
  (get p.ifnamsiz buffer toread).bind fun (name, toread) =>
    (getWord p buffer toread).bind fun (ipaddr, toread) =>
      (getWord p buffer toread).bind fun (bcast, toread) =>
        (getWord p buffer toread).map fun (netmask, toread) =>
          (⟨fun i => name.getD i 0#8, ipaddr, bcast, netmask⟩, toread)

/-- A record of the reply: the word of the claim and the interfaces of `Table[i]`. -/
abbrev TableRow (p : Platform) := Word × List (WireInterface p)

def getRow (p : Platform) (buffer : List Byte) (toread : Nat) : Option (TableRow p × Nat) :=
  (getWord p buffer toread).bind fun (claim, toread) =>
    (repeated (getInterface p) (maxDepIf + 2) buffer toread).map fun (row, toread) =>
      ((claim, row), toread)

/-- The outer loop of `get_state`, with some passes left. -/
def getRows (p : Platform) (buffer : List Byte) (size : Nat) :
    Nat → Nat → Option (List (TableRow p))
  | 0, _ => some []
  | passes + 1, toread =>
    (getRow p buffer toread).bind fun (row, toread) =>
      if toread ≥ size then some [row] else (getRows p buffer size passes toread).map (row :: ·)

/-- The reads of `get_state` into its buffer, with the results of `read`. -/
def readAll : List Nat → Nat → List Byte → Option (List Byte)
  | [], toread, _ => if toread = 0 then some [] else none
  | ret :: rets, toread, stream =>
    if toread = 0 then some []
    else (readAll rets (toread - ret) (stream.drop ret)).map (stream.take ret ++ ·)

/-- `get_state` on the bytes of a session, the first of which it reads with one call. -/
def getState (p : Platform) (rets : List Nat) (stream : List Byte) :
    Option (List (TableRow p)) :=
  let size := (ntohl p.byteOrder (p.byteOrder.fetch stream 0)).toInt.toNat
  (readAll rets size (stream.drop 4)).bind fun buffer => getRows p buffer size maxPseudo 0

namespace WireInterface

/-- The bytes of an interface in a reply. -/
def bytes (i : WireInterface p) : List Byte :=
  List.ofFn i.ifname ++ (p.byteOrder.store i.ipaddr ++
    (p.byteOrder.store i.bcast ++ p.byteOrder.store i.netmask))

theorem length_bytes (i : WireInterface p) : i.bytes.length = p.ifnamsiz + 3 * 4 := by
  simp [bytes]

theorem fills_sprintif (i : WireInterface p) : Fills (sprintif i) i.bytes :=
  (fills_put _).bind ((fills_put _).bind ((fills_put _).bind (fills_put _)))

end WireInterface

theorem yields_getWord (w : Word) : Yields (getWord p) (p.byteOrder.store w) w := by
  have hBytes := yields_get (p.byteOrder.store w)
  rw [ByteOrder.length_store] at hBytes
  have hWord := hBytes.map fun bytes => p.byteOrder.fetch bytes 0
  have hFetch := p.byteOrder.fetch_store w []
  rw [List.append_nil] at hFetch
  rw [hFetch] at hWord
  exact hWord

theorem yields_getInterface (i : WireInterface p) : Yields (getInterface p) i.bytes i := by
  have hName := yields_get (List.ofFn i.ifname)
  rw [List.length_ofFn] at hName
  have hSame : (⟨fun k => (List.ofFn i.ifname).getD k 0#8, i.ipaddr, i.bcast, i.netmask⟩ :
      WireInterface p) = i := by
    cases i
    congr 1
    funext k
    simp
  have hAll := hName.bind (fun name buffer toread =>
    (getWord p buffer toread).bind fun (ipaddr, toread) =>
      (getWord p buffer toread).bind fun (bcast, toread) =>
        (getWord p buffer toread).map fun (netmask, toread) =>
          ((⟨fun i => name.getD i 0#8, ipaddr, bcast, netmask⟩ : WireInterface p), toread))
    ((yields_getWord i.ipaddr).bind (fun ipaddr buffer toread =>
      (getWord p buffer toread).bind fun (bcast, toread) =>
        (getWord p buffer toread).map fun (netmask, toread) =>
          ((⟨fun k => (List.ofFn i.ifname).getD k 0#8, ipaddr, bcast, netmask⟩ :
            WireInterface p), toread))
      ((yields_getWord i.bcast).bind (fun bcast buffer toread =>
        (getWord p buffer toread).map fun (netmask, toread) =>
          ((⟨fun k => (List.ofFn i.ifname).getD k 0#8, i.ipaddr, bcast, netmask⟩ :
            WireInterface p), toread))
        ((yields_getWord i.netmask).map fun netmask =>
          (⟨fun k => (List.ofFn i.ifname).getD k 0#8, i.ipaddr, i.bcast, netmask⟩ :
            WireInterface p))))
  rw [hSame] at hAll
  exact hAll

namespace TableEntry

/-- The bytes of an entry in a reply. -/
def bytes (e : TableEntry p) : List Byte :=
  p.byteOrder.store (ntohl p.byteOrder e.claimPriority) ++
    (e.realIf.bytes ++ (e.pseudoIf.bytes ++ e.extraIfs.toList.flatMap WireInterface.bytes))

/-- What `get_state` makes of an entry. -/
def row (e : TableEntry p) : TableRow p :=
  (ntohl p.byteOrder e.claimPriority, e.realIf :: e.pseudoIf :: e.extraIfs.toList)

theorem length_bytes (e : TableEntry p) :
    e.bytes.length = 4 + (p.ifnamsiz + 3 * 4) * (maxDepIf + 2) := by
  have hExtra (l : List (WireInterface p)) :
      (l.flatMap WireInterface.bytes).length = (p.ifnamsiz + 3 * 4) * l.length := by
    induction l with
    | nil => rfl
    | cons i l ih =>
        rw [List.flatMap_cons, List.length_append, i.length_bytes, ih, List.length_cons]
        ring
  simp only [bytes, List.length_append, ByteOrder.length_store, WireInterface.length_bytes, hExtra,
    Vector.length_toList]
  ring

theorem fills_putEntry (e : TableEntry p) : Fills (putEntry e) e.bytes :=
  (fills_put _).bind (e.realIf.fills_sprintif.bind (e.pseudoIf.fills_sprintif.bind
    (fills_foldlM WireInterface.fills_sprintif e.extraIfs.toList)))

theorem yields_getRow (e : TableEntry p) : Yields (getRow p) e.bytes e.row := by
  have hRow := yields_repeated yields_getInterface (e.realIf :: e.pseudoIf :: e.extraIfs.toList)
  have hCount : (e.realIf :: e.pseudoIf :: e.extraIfs.toList).length = maxDepIf + 2 := by simp
  rw [hCount, List.flatMap_cons, List.flatMap_cons] at hRow
  exact (yields_getWord _).bind (fun claim buffer toread =>
    (repeated (getInterface p) (maxDepIf + 2) buffer toread).map fun (row, toread) =>
      ((claim, row), toread)) (hRow.map fun row => (ntohl p.byteOrder e.claimPriority, row))

end TableEntry

/-- The bytes behind the announced size. -/
def tableBytes (table : List (TableEntry p)) : List Byte := table.flatMap TableEntry.bytes

theorem length_tableBytes (table : List (TableEntry p)) :
    4 + (tableBytes table).length = replySize p table.length := by
  induction table with
  | nil => simp [tableBytes, replySize]
  | cons e table ih =>
      have hBytes : tableBytes (e :: table) = e.bytes ++ tableBytes table := List.flatMap_cons
      rw [replySize] at ih ⊢
      rw [hBytes, List.length_append, e.length_bytes, List.length_cons, Nat.succ_mul table.length]
      generalize 4 + (p.ifnamsiz + 3 * 4) * (maxDepIf + 2) = entrySize at ih ⊢
      omega

/-- `set_state_wack_state` fills its buffer, exactly. -/
theorem stateBuffer_eq (table : List (TableEntry p)) (heap : Nat → Byte) :
    stateBuffer table heap =
      some ⟨p.byteOrder.store (ntohl p.byteOrder (BitVec.ofNat 32 (replySize p table.length - 4))) ++
        tableBytes table, replySize p table.length⟩ := by
  have hFills := (fills_put (p.byteOrder.store
      (ntohl p.byteOrder (BitVec.ofNat 32 (replySize p table.length - 4))))).bind
    (fills_foldlM TableEntry.fills_putEntry table)
  have hLength : (p.byteOrder.store (ntohl p.byteOrder
      (BitVec.ofNat 32 (replySize p table.length - 4))) ++ tableBytes table).length =
      replySize p table.length := by
    rw [List.length_append, ByteOrder.length_store, length_tableBytes]
  have hSize : ((List.range (replySize p table.length)).map heap).length = _ :=
    (List.length_map _).trans (List.length_range.trans hLength.symm)
  have hFull := hFills.full hSize
  exact hFull.trans (congrArg (fun len => some (Block.mk _ len)) hLength)

/-- The loop of `get_state` reads the entries and stops behind the last of them. -/
theorem getRows_eq {table : List (TableEntry p)} (hTable : table ≠ []) (before : List Byte)
    {passes : Nat} (hPasses : table.length ≤ passes) :
    getRows p (before ++ tableBytes table) (before ++ tableBytes table).length passes
      before.length = some (table.map TableEntry.row) := by
  induction table generalizing before passes with
  | nil => exact absurd rfl hTable
  | cons e table ih =>
      obtain ⟨passes, rfl⟩ : ∃ k, passes = k + 1 :=
        ⟨passes - 1, by simp only [List.length_cons] at hPasses; omega⟩
      have hBytes : tableBytes (e :: table) = e.bytes ++ tableBytes table := List.flatMap_cons
      have hRow := e.yields_getRow before (tableBytes table)
      have hLength := e.length_bytes
      rw [hBytes, ← List.append_assoc, getRows, hRow, Option.bind_some]
      dsimp only
      cases table with
      | nil =>
          rw [if_pos (by simp [tableBytes])]
          rfl
      | cons e' table =>
          have hMore : 0 < (tableBytes (e' :: table)).length := by
            rw [tableBytes, List.flatMap_cons, List.length_append, e'.length_bytes]
            omega
          have hRest := ih (List.cons_ne_nil _ _) (before ++ e.bytes)
            (Nat.le_of_succ_le_succ hPasses)
          have hCursor : (before ++ e.bytes).length = before.length + e.bytes.length :=
            List.length_append
          have hWithin : ¬before.length + e.bytes.length ≥
              (before ++ e.bytes ++ tableBytes (e' :: table)).length := by
            rw [List.length_append, hCursor]
            omega
          rw [if_neg hWithin, ← hCursor, hRest]
          rfl

/-- Positive reads of the right total collect all that is there. -/
theorem readAll_eq {rets : List Nat} (hPositive : ∀ ret ∈ rets, 0 < ret) {stream : List Byte}
    (hSum : rets.sum = stream.length) : readAll rets stream.length stream = some stream := by
  induction rets generalizing stream with
  | nil =>
      have hEmpty : stream = [] := List.eq_nil_of_length_eq_zero hSum.symm
      subst hEmpty
      rfl
  | cons ret rets ih =>
      have hRet := hPositive ret List.mem_cons_self
      rw [List.sum_cons] at hSum
      have hSum' : rets.sum = (stream.drop ret).length := by
        rw [List.length_drop]
        omega
      have hRest := ih (fun ret' hMem => hPositive ret' (List.mem_cons_of_mem _ hMem)) hSum'
      rw [List.length_drop] at hRest
      rw [readAll, if_neg (by omega), hRest]
      simp [List.take_append_drop]

theorem replySize_lt {numPseudo : Nat} (hMax : numPseudo ≤ maxPseudo) :
    replySize p numPseudo < 2 ^ 31 := by
  have hName := p.ifnamsiz_le
  have hEntry : 4 + (p.ifnamsiz + 3 * 4) * (maxDepIf + 2) ≤ 4 + (256 + 3 * 4) * (30 + 2) := by
    simp only [maxDepIf]
    omega
  have hAll : _ ≤ 254 * _ := Nat.mul_le_mul hMax hEntry
  rw [replySize]
  omega

/-- For every table of a daemon and every way in which its reply arrives: the reply fills its
announced size, and `get_state` stays within it and finds the interfaces of all entries, in
order and no more. -/
theorem getState_reply (table : List (TableEntry p)) (hTable : 1 ≤ table.length)
    (hMax : table.length ≤ maxPseudo) (heap : Nat → Byte) {rets : List Nat}
    (hPositive : ∀ ret ∈ rets, 0 < ret) (hSum : rets.sum = replySize p table.length - 4) :
    ∃ reply : List Byte, stateBuffer table heap = some ⟨reply, replySize p table.length⟩ ∧
      reply.length = replySize p table.length ∧
      (ntohl p.byteOrder (p.byteOrder.fetch reply 0)).toInt = (reply.drop 4).length ∧
      getState p rets reply = some (table.map TableEntry.row) := by
  have hSize := replySize_lt (p := p) hMax
  have hLength := length_tableBytes table
  have hNonempty : table ≠ [] := List.ne_nil_of_length_pos hTable
  set announced := BitVec.ofNat 32 (replySize p table.length - 4) with hAnnounced
  have hFetch : ntohl p.byteOrder (p.byteOrder.fetch
      (p.byteOrder.store (ntohl p.byteOrder announced) ++ tableBytes table) 0) = announced := by
    rw [ByteOrder.fetch_store, ntohl_ntohl]
  have hInt : announced.toInt = (tableBytes table).length := by
    have hNat : announced.toNat = replySize p table.length - 4 := by
      rw [hAnnounced, BitVec.toNat_ofNat]
      omega
    rw [BitVec.toInt_eq_toNat_of_lt (by omega), hNat]
    omega
  have hDrop : (p.byteOrder.store (ntohl p.byteOrder announced) ++ tableBytes table).drop 4 =
      tableBytes table := by
    rw [List.drop_append_of_le_length (by simp), List.drop_of_length_le (by simp)]
    rfl
  refine ⟨_, stateBuffer_eq table heap, ?_, ?_, ?_⟩
  · rw [List.length_append, ByteOrder.length_store, hLength]
  · rw [hFetch, hDrop, hInt]
  · have hAll : rets.sum = (tableBytes table).length := by omega
    have hRead := readAll_eq hPositive hAll
    have hRows := getRows_eq hNonempty [] hMax
    rw [getState, hFetch, hDrop, hInt, Int.toNat_natCast, hRead]
    exact hRows

/-- An acquired VIP 10.0.0.9 on eth0, without dependent interfaces. -/
def acquiredEntry : TableEntry ⟨.little, 16, by decide⟩ where
  claimPriority := 1#32
  realIf := ⟨fun _ => 0#8, 0x0100000a#32, 0#32, 0#32⟩
  pseudoIf := ⟨fun k => [0x65#8, 0x74#8, 0x68#8, 0x30#8].getD k 0#8, 0x0900000a#32,
    0xff00000a#32, 0x00ffffff#32⟩
  extraIfs := Vector.replicate maxDepIf ⟨fun _ => 0#8, 0#32, 0#32, 0#32⟩

theorem acquiredEntry_reply :
    ∃ reply : List Byte, stateBuffer [acquiredEntry] (fun _ => 0xff#8) = some ⟨reply, 904⟩ ∧
      reply.length = 904 ∧
      (ntohl .little (ByteOrder.little.fetch reply 0)).toInt = (reply.drop 4).length ∧
      getState _ [1, 99, 800] reply = some [acquiredEntry.row] :=
  getState_reply [acquiredEntry] (by decide) (by decide) (fun _ => 0xff#8) (by decide) (by decide)

end Wackamole
