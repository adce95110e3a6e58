import Wackamole.ArpSampling
import Wackamole.SharedArpCache
import Wackamole.StateCodec
import Mathlib.Data.List.Sort
import Wackamole.Library.ByteCursor
import Wackamole.Library.Sentinels

/-! The ARP entries of a host on their way to the others: `Send_local_arp_cache` copies them into
`Mess`, and `Handle_arp_cache` of a host of either byte order takes them out of it. -/
namespace Wackamole

open HostWords ByteCursor Sentinels

/-- `sizeof(arp_entry)`. -/
abbrev arpEntrySize : Nat := 12

/-- The bytes of a hardware address, as they go over the wire. -/
def macBytes (mac : BitVec 48) : List Byte :=
  [mac.extractLsb' 40 8, mac.extractLsb' 32 8, mac.extractLsb' 24 8, mac.extractLsb' 16 8,
    mac.extractLsb' 8 8, mac.extractLsb' 0 8]

def macOfBytes (bytes : List Byte) : BitVec 48 :=
  bytes.getD 0 0#8 ++ bytes.getD 1 0#8 ++ bytes.getD 2 0#8 ++ bytes.getD 3 0#8 ++
    bytes.getD 4 0#8 ++ bytes.getD 5 0#8

/-- An `arp_entry` in memory: two bytes behind the hardware address have no meaning. -/
structure StoredEntry where
  entry : ArpEntry
  padding : Byte × Byte

namespace StoredEntry

def bytes (o : ByteOrder) (e : StoredEntry) : List Byte :=
  o.store e.entry.ip ++ (macBytes e.entry.mac ++ [e.padding.1, e.padding.2])

/-- A block of entries, with what its padding holds. -/
def block (padding : Nat → Byte × Byte) (es : List ArpEntry) : List StoredEntry :=
  es.zipIdx.map fun (e, i) => ⟨e, padding i⟩

end StoredEntry

/-- The loop of `Send_local_arp_cache`, which leaves the block of entries unless it meets the
address 0. The cursor counts `num_bytes`. -/
def copyEntries (o : ByteOrder) : List StoredEntry → Block Byte → Option (Block Byte)
  | [], _ => none
  | e :: s, d =>
    if e.entry.ip ≠ 0#32 ∧ d.len < maxMessLen - arpEntrySize then
      (d.put (e.bytes o)).bind (copyEntries o s)
    else some d

/-- The bytes that `Send_local_arp_cache` multicasts, whatever `Mess` has held. A null pointer
has no entries to copy. -/
def arpCacheMess (o : ByteOrder) (padding : Nat → Byte × Byte) (mess : Nat → Byte)
    (cache : PrivateCache) : Option (List Byte) := do
  let es ← cache.block
  let d ← copyEntries o (StoredEntry.block padding es) ⟨(List.range maxMessLen).map mess, 0⟩
  return d.cells.take d.len

/-- `arps[i]`. -/
def getEntry (o : ByteOrder) (mess : List Byte) (offset : Nat) : Option (StoredEntry × Nat) :=
  (get 4 mess offset).bind fun (ip, offset) =>
    (get 6 mess offset).bind fun (mac, offset) =>
      (get 2 mess offset).map fun (padding, offset) =>
        (⟨⟨o.fetch ip 0, macOfBytes mac⟩, padding.getD 0 0#8, padding.getD 1 0#8⟩, offset)

/-- The entries that `Handle_arp_cache` inserts of a message of so many bytes. -/
def handleArpCache (o : ByteOrder) (mess : List Byte) (size : Nat) : Option (List ArpEntry) :=
  (repeated (getEntry o) (size / arpEntrySize) mess 0).map fun (es, _) => es.map StoredEntry.entry

/-- What a message has room for. -/
abbrev maxShared : Nat := 8333

/-- The entries that are shared: those before the address 0, as far as there is room. -/
def sharedEntries (es : List ArpEntry) : List ArpEntry :=
  (es.takeWhile (·.ip ≠ 0#32)).take maxShared

/-- An entry as a host sees it: addresses are in network byte order. -/
def ArpEntry.seen (o o' : ByteOrder) (e : ArpEntry) : ArpEntry := ⟨ntohl o' (ntohl o e.ip), e.mac⟩

theorem length_macBytes (mac : BitVec 48) : (macBytes mac).length = 6 := rfl

theorem macOfBytes_macBytes (mac : BitVec 48) : macOfBytes (macBytes mac) = mac := by
  change mac.extractLsb' 40 8 ++ mac.extractLsb' 32 8 ++ mac.extractLsb' 24 8 ++
    mac.extractLsb' 16 8 ++ mac.extractLsb' 8 8 ++ mac.extractLsb' 0 8 = mac
  apply BitVec.eq_of_getElem_eq
  intro i hi
  simp only [BitVec.getElem_append, BitVec.getElem_extractLsb']
  split_ifs <;> grind

namespace StoredEntry

variable {o o' : ByteOrder}

theorem length_bytes (e : StoredEntry) : (e.bytes o).length = arpEntrySize := by
  simp [bytes, length_macBytes]

/-- The bytes are those of what the other host sees. -/
theorem bytes_seen (e : StoredEntry) :
    (⟨e.entry.seen o o', e.padding⟩ : StoredEntry).bytes o' = e.bytes o := by
  have hStore : o'.store (ntohl o' (ntohl o e.entry.ip)) = o.store e.entry.ip := by
    cases o <;> cases o' <;> simp [ntohl, ByteOrder.store, swap]
  rw [bytes, bytes, ArpEntry.seen, hStore]

theorem yields_getEntry (e : StoredEntry) : Yields (getEntry o) (e.bytes o) e := by
  have hIp := yields_get (o.store e.entry.ip)
  rw [ByteOrder.length_store] at hIp
  have hMac : Yields (get 6) (macBytes e.entry.mac) (macBytes e.entry.mac) :=
    yields_get (macBytes e.entry.mac)
  have hPadding : Yields (get 2) [e.padding.1, e.padding.2] [e.padding.1, e.padding.2] :=
    yields_get [e.padding.1, e.padding.2]
  have hFetch := o.fetch_store e.entry.ip []
  rw [List.append_nil] at hFetch
  have hEntry := hPadding.map fun padding =>
    (⟨⟨o.fetch (o.store e.entry.ip) 0, macOfBytes (macBytes e.entry.mac)⟩,
      padding.getD 0 0#8, padding.getD 1 0#8⟩ : StoredEntry)
  have hRest := hMac.bind (fun mac mess offset =>
    (get 2 mess offset).map fun (padding, offset) =>
      ((⟨⟨o.fetch (o.store e.entry.ip) 0, macOfBytes mac⟩, padding.getD 0 0#8,
        padding.getD 1 0#8⟩ : StoredEntry), offset)) hEntry
  have hAll := hIp.bind (fun ip mess offset =>
    (get 6 mess offset).bind fun (mac, offset) =>
      (get 2 mess offset).map fun (padding, offset) =>
        ((⟨⟨o.fetch ip 0, macOfBytes mac⟩, padding.getD 0 0#8, padding.getD 1 0#8⟩ :
          StoredEntry), offset)) hRest
  rw [hFetch, macOfBytes_macBytes] at hAll
  exact hAll

theorem length_flatMap_bytes (o : ByteOrder) (es : List StoredEntry) :
    (es.flatMap (bytes o)).length = arpEntrySize * es.length := by
  induction es with
  | nil => rfl
  | cons e es ih =>
      rw [List.flatMap_cons, List.length_append, length_bytes, ih, List.length_cons,
        Nat.mul_succ, Nat.add_comm]

theorem block_entries (padding : Nat → Byte × Byte) (es : List ArpEntry) :
    (block padding es).map StoredEntry.entry = es := by
  simp [block, List.map_map, Function.comp_def]

/-- The entries that are copied of a block that ends with the address 0. -/
theorem map_copied (padding : Nat → Byte × Byte) (es : List ArpEntry) {last : ArpEntry}
    (hLast : last.ip = 0#32) :
    (((block padding (es ++ [last])).takeWhile (·.entry.ip ≠ 0#32)).take maxShared).map
      StoredEntry.entry = sharedEntries es := by
  have hTake := List.takeWhile_map (f := StoredEntry.entry) (p := fun e => e.ip ≠ 0#32)
    (l := block padding (es ++ [last]))
  rw [block_entries] at hTake
  obtain ⟨more, hEntries, hMore⟩ := takeWhile_append_cons (fun e : ArpEntry => e.ip ≠ 0#32) es last []
  rw [hMore.mpr (.inr (by simp [hLast])), List.append_nil] at hEntries
  rw [List.map_take, sharedEntries, ← hEntries, hTake]
  rfl

end StoredEntry

/-- The loop copies the entries before the address 0, as far as there is room behind the first
`k`. -/
theorem copyEntries_eq (o : ByteOrder) {es : List StoredEntry} (hEnds : ∃ e ∈ es, e.entry.ip = 0#32)
    {k : Nat} (hk : k ≤ maxShared) {d : Block Byte} (hLen : d.len = arpEntrySize * k)
    (hCells : d.cells.length = maxMessLen) :
    let copied := (es.takeWhile (·.entry.ip ≠ 0#32)).take (maxShared - k)
    ∃ d', copyEntries o es d = some d' ∧
      d'.cells.take d'.len = d.cells.take d.len ++ copied.flatMap (StoredEntry.bytes o) ∧
      d'.len = arpEntrySize * (k + copied.length) := by
  simp only [maxMessLen, arpEntrySize, maxShared] at hk hLen hCells ⊢
  induction es generalizing k d with
  | nil =>
      obtain ⟨e, hMem, -⟩ := hEnds
      cases hMem
  | cons e es ih =>
      rw [copyEntries]
      by_cases hZero : e.entry.ip = 0#32
      · have hNone : ((e :: es).takeWhile (·.entry.ip ≠ 0#32)).take (8333 - k) = [] := by
          simp [hZero]
        refine ⟨d, if_neg (fun h => h.1 hZero), ?_, ?_⟩
        · rw [hNone, List.flatMap_nil, List.append_nil]
        · rw [hNone]
          exact hLen
      by_cases hRoom : d.len < 100000 - 12
      · have hLength : (e.bytes o).length = 12 := e.length_bytes
        obtain ⟨d₁, hPut, hFilled, hLen₁, hCells₁⟩ := fills_put (e.bytes o) d (by
          rw [hLength, hCells]
          omega)
        have hRest : ∃ e ∈ es, e.entry.ip = 0#32 := by
          obtain ⟨e', hMem, hIp⟩ := hEnds
          rcases List.mem_cons.mp hMem with rfl | hMem
          · exact absurd hIp hZero
          · exact ⟨e', hMem, hIp⟩
        rw [hLength] at hLen₁
        obtain ⟨d', hCopy, hTaken, hLen'⟩ := ih (k := k + 1) hRest (by omega) (by omega)
          (hCells₁.trans hCells)
        have hFirst : ((e :: es).takeWhile (·.entry.ip ≠ 0#32)).take (8333 - k) =
            e :: (es.takeWhile (·.entry.ip ≠ 0#32)).take (8333 - (k + 1)) := by
          rw [List.takeWhile_cons_of_pos (by simpa using hZero),
            show 8333 - k = (8333 - (k + 1)) + 1 by omega, List.take_succ_cons]
        refine ⟨d', ?_, ?_, ?_⟩
        · rw [if_pos ⟨hZero, hRoom⟩, hPut]
          exact hCopy
        · rw [hTaken, hFilled, hFirst, List.flatMap_cons, List.append_assoc]
        · rw [hLen', hFirst, List.length_cons]
          omega
      · have hFull : 8333 - k = 0 := by omega
        refine ⟨d, if_neg (fun h => hRoom h.2), ?_, ?_⟩
        · rw [hFull, List.take_zero, List.flatMap_nil, List.append_nil]
        · rw [hFull, List.take_zero]
          exact hLen

/-- What a receiver inserts of a message. -/
theorem handleArpCache_eq {o o' : ByteOrder} (es : List StoredEntry) (rest : List Byte) :
    handleArpCache o' (es.flatMap (StoredEntry.bytes o) ++ rest) (arpEntrySize * es.length) =
      some (es.map fun e => e.entry.seen o o') := by
  have hBytes : es.flatMap (StoredEntry.bytes o) =
      (es.map fun e => (⟨e.entry.seen o o', e.padding⟩ : StoredEntry)).flatMap
        (StoredEntry.bytes o') := by
    rw [List.flatMap_map]
    exact congrArg es.flatMap (funext fun e => e.bytes_seen.symm)
  have hYields := yields_repeated (StoredEntry.yields_getEntry (o := o'))
    (es.map fun e => (⟨e.entry.seen o o', e.padding⟩ : StoredEntry)) [] rest
  rw [List.nil_append, ← hBytes, List.length_map, List.length_nil] at hYields
  rw [handleArpCache, Nat.mul_div_cancel_left _ (by decide), hYields, Option.map_some]
  dsimp only
  rw [List.map_map]
  rfl

/-- The entries of the file when it could last be opened. -/
def sampledEntries (o : ByteOrder) (samples : List Sample) : Option (List ArpEntry) :=
  samples.reverse.findSome? fun s =>
    s.file.map fun file => entriesOf o s.hint 0 (fgetsAll 199 199 file).tail

/-- Before the file could be opened there is no block. Then it holds the entries and the address
0 behind them. -/
theorem sampleAll_block (o : ByteOrder) (samples : List Sample) :
    ∃ cache, sampleAll o samples = some cache ∧ cache.Fits ∧
      match sampledEntries o samples with
      | none => cache.block = none
      | some es => ∃ last : ArpEntry, last.ip = 0#32 ∧ cache.block = some (es ++ [last]) := by
  induction samples using List.reverseRecOn with
  | nil => exact ⟨PrivateCache.initial, rfl, fun hUsed => absurd hUsed (lt_irrefl 0), rfl⟩
  | append_singleton samples s ih =>
      obtain ⟨cache, hBefore, hFits, hBlock⟩ := ih
      rw [sampledEntries, List.reverse_append, List.reverse_singleton, List.singleton_append,
        List.findSome?_cons, sampleAll_snoc hBefore]
      cases hFile : s.file with
      | none =>
          refine ⟨cache, by rw [sampleArpCache, hFile], hFits, ?_⟩
          rw [Option.map_none]
          exact hBlock
      | some file =>
          obtain ⟨last, hLast, hSampled⟩ := sampleArpCache_opened (o := o) hFits hFile
          exact ⟨_, hSampled, PrivateCache.fits_entries _ last, last, hLast, rfl⟩

/-- However often the local ARP cache has been sampled: as long as the file has never been
opened, `Send_local_arp_cache` reads through a null pointer. Otherwise it multicasts the entries
before the address 0, 8333 at most, and every host that gets the message inserts exactly these,
in this order, as the same addresses on a host of either byte order. -/
theorem arpCache_received (o o' : ByteOrder) (samples : List Sample)
    (padding : Nat → Byte × Byte) (mess mess' : Nat → Byte) :
    match sampledEntries o samples with
    | none => (sampleAll o samples).bind (arpCacheMess o padding mess) = none
    | some es => ∃ sent, (sampleAll o samples).bind (arpCacheMess o padding mess) = some sent ∧
        sent.length ≤ maxMessLen ∧
        handleArpCache o' (sent ++ ((List.range maxMessLen).map mess').drop sent.length)
          sent.length = some ((sharedEntries es).map (ArpEntry.seen o o')) := by
  obtain ⟨cache, hSampled, -, hBlock⟩ := sampleAll_block o samples
  rw [hSampled, Option.bind_some]
  cases hEntries : sampledEntries o samples with
  | none =>
      rw [hEntries] at hBlock
      simp only [arpCacheMess, hBlock]
      rfl
  | some es =>
      rw [hEntries] at hBlock
      obtain ⟨last, hLast, hBlock⟩ := hBlock
      have hEnds : ∃ e ∈ StoredEntry.block padding (es ++ [last]), e.entry.ip = 0#32 := by
        have hMem : last ∈ (StoredEntry.block padding (es ++ [last])).map StoredEntry.entry := by
          rw [StoredEntry.block_entries]
          exact List.mem_append_right _ (List.mem_singleton.mpr rfl)
        obtain ⟨e, hMem, rfl⟩ := List.mem_map.mp hMem
        exact ⟨e, hMem, hLast⟩
      obtain ⟨d, hCopy, hSent, hLen⟩ := copyEntries_eq o hEnds (Nat.zero_le _)
        (d := ⟨(List.range maxMessLen).map mess, 0⟩) rfl (by simp)
      have hCopied := StoredEntry.map_copied padding es hLast
      rw [Nat.sub_zero] at hSent hLen
      generalize ((StoredEntry.block padding (es ++ [last])).takeWhile
        (·.entry.ip ≠ 0#32)).take maxShared = copied at hSent hLen hCopied
      have hFew : copied.length ≤ maxShared := by
        rw [← List.length_map StoredEntry.entry, hCopied, sharedEntries]
        exact List.length_take_le _ _
      have hLength := StoredEntry.length_flatMap_bytes o copied
      refine ⟨d.cells.take d.len, ?_, ?_, ?_⟩
      · rw [arpCacheMess, hBlock, Option.bind_eq_bind, Option.bind_some, hCopy]
        rfl
      · rw [hSent, List.take_zero, List.nil_append, hLength]
        simp only [maxShared, arpEntrySize, maxMessLen] at hFew ⊢
        omega
      · rw [hSent, List.take_zero, List.nil_append, hLength, handleArpCache_eq, ← hCopied,
          List.map_map]
        rfl

/-- The shared cache behind these messages; whatever fresh memory holds at each insertion. -/
def handleAll (heap : Nat → Int → ArpEntry) (messages : List (List ArpEntry)) :
    Option Abt × List Access :=
  insertAll (messages.flatten.zipIdx.map fun (e, i) => (e, heap i))

/-- `fetch_shared_arp_cache`, up to the zero at its end. Without a cache it makes an empty one. -/
def fetchSharedArpCache (shared : Option Abt) : List ArpEntry := shared.elim [] Abt.entries

/-- What a host shares that has handled these entries: ascending addresses, as it compares them,
each with the hardware address that was handled last. -/
structure Shares (es cache : List ArpEntry) : Prop where
  ascending : (cache.map ArpEntry.ip).Pairwise fun ip ip' => ip.toNat < ip'.toNat
  latest : ∀ e, e ∈ cache ↔ latest es e.ip = some e.mac

section Agreement

variable {o o' : ByteOrder} {heap heap' : Nat → Int → ArpEntry}
  {messages messages' : List (List ArpEntry)}

theorem latest_isSome (es : List ArpEntry) (ip : Address) :
    (latest es ip).isSome ↔ ip ∈ es.map ArpEntry.ip := by
  simp [latest, List.find?_isSome]

/-- An array that is a map lists the addresses in their order. -/
theorem Abt.IsMap.shares {es : List ArpEntry} {h : Abt} (hMap : h.IsMap es) :
    Shares es h.entries := by
  refine ⟨?_, hMap.mem_entries⟩
  rw [Abt.entries, List.map_map, List.pairwise_map]
  refine List.pairwise_lt_range.imp_of_mem fun {i j} _ hj hij => ?_
  exact hMap.sorted i j (Int.natCast_nonneg i) (by exact_mod_cast hij)
    (by exact_mod_cast List.mem_range.mp hj)

namespace Shares

variable {es es' cache cache' : List ArpEntry}

/-- Every address that was handled is shared. -/
theorem mem_addresses (h : Shares es cache) (ip : Address) :
    ip ∈ cache.map ArpEntry.ip ↔ ip ∈ es.map ArpEntry.ip := by
  rw [← latest_isSome es]
  constructor
  · intro hMem
    obtain ⟨e, hEntry, rfl⟩ := List.mem_map.mp hMem
    rw [(h.latest e).mp hEntry]
    rfl
  · intro hSome
    obtain ⟨mac, hMac⟩ := Option.isSome_iff_exists.mp hSome
    exact List.mem_map.mpr ⟨⟨ip, mac⟩, (h.latest ⟨ip, mac⟩).mpr hMac, rfl⟩

theorem nodup (h : Shares es cache) : (cache.map ArpEntry.ip).Nodup :=
  h.ascending.imp fun hLess => ne_of_apply_ne BitVec.toNat hLess.ne

/-- The same entries, seen by two hosts, give the same addresses. -/
theorem perm_addresses (h : Shares es cache) (h' : Shares es' cache')
    (hSame : (es.map (ArpEntry.seen o o')).Perm es') :
    (cache.map fun e => (e.seen o o').ip).Perm (cache'.map ArpEntry.ip) := by
  have hInjective : Function.Injective fun ip => ntohl o' (ntohl o ip) :=
    (Function.Involutive.injective (ntohl_ntohl o')).comp
      (Function.Involutive.injective (ntohl_ntohl o))
  have hSeen (es : List ArpEntry) : es.map (fun e => (e.seen o o').ip) =
      (es.map ArpEntry.ip).map fun ip => ntohl o' (ntohl o ip) := by
    rw [List.map_map]
    rfl
  rw [hSeen]
  refine (List.perm_ext_iff_of_nodup (h.nodup.map hInjective) h'.nodup).mpr fun ip => ?_
  have hBoth : ip ∈ (es.map ArpEntry.ip).map (fun ip => ntohl o' (ntohl o ip)) ↔
      ip ∈ es'.map ArpEntry.ip := by
    rw [← hSeen, ← (hSame.map ArpEntry.ip).mem_iff, List.map_map]
    rfl
  rw [h'.mem_addresses, ← hBoth, List.mem_map, List.mem_map]
  exact exists_congr fun ip => and_congr_left fun _ => h.mem_addresses ip

end Shares

/-- As long as it stays inside its array the shared cache is a map of what has been handled. -/
theorem handleAll_shares (hInside : ∀ access ∈ (handleAll heap messages).2, access.InBounds) :
    Shares messages.flatten (fetchSharedArpCache (handleAll heap messages).1) := by
  have hCalls : (messages.flatten.zipIdx.map fun (e, i) => (e, heap i)).map Prod.fst =
      messages.flatten := by
    simp [List.map_map, Function.comp_def]
  rw [handleAll] at hInside ⊢
  generalize (messages.flatten.zipIdx.map fun (e, i) => (e, heap i)) = calls at hCalls hInside ⊢
  rw [← hCalls]
  cases calls with
  | nil => exact ⟨List.Pairwise.nil, fun e => by simp [insertAll, fetchSharedArpCache, latest]⟩
  | cons first rest =>
      obtain ⟨h, hShared, hInv, -⟩ := insertAll_inv (insertAll_first hInside)
      rw [hShared]
      exact hInv.isMap.shares

/-- Two hosts that have handled the same messages, each in its own order and with the addresses
as it sees them, share the same addresses, unless one of them has left its array. Each has them in
its own ascending order, which is the same for hosts of one byte order, and with the hardware
addresses that it has handled last. -/
theorem handleAll_agree
    (hSame : (messages.map (List.map (ArpEntry.seen o o'))).Perm messages')
    (hInside : ∀ access ∈ (handleAll heap messages).2, access.InBounds)
    (hInside' : ∀ access ∈ (handleAll heap' messages').2, access.InBounds) :
    let cache := fetchSharedArpCache (handleAll heap messages).1
    let cache' := fetchSharedArpCache (handleAll heap' messages').1
    Shares messages.flatten cache ∧ Shares messages'.flatten cache' ∧
      (cache.map fun e => (e.seen o o').ip).Perm (cache'.map ArpEntry.ip) ∧
      (o = o' → cache.map ArpEntry.ip = cache'.map ArpEntry.ip) := by
  intro cache cache'
  have hShares := handleAll_shares hInside
  have hShares' := handleAll_shares hInside'
  have hEntries : (messages.flatten.map (ArpEntry.seen o o')).Perm messages'.flatten := by
    rw [List.map_flatten]
    exact hSame.flatten
  have hPerm := hShares.perm_addresses hShares' hEntries
  refine ⟨hShares, hShares', hPerm, fun hOrder => ?_⟩
  subst hOrder
  have hSeen : (cache.map fun e => (e.seen o o).ip) = cache.map ArpEntry.ip :=
    List.map_congr_left fun e _ => ntohl_ntohl o e.ip
  refine List.Pairwise.eq_of_mem_iff hShares.ascending hShares'.ascending fun ip => ?_
  rw [← hPerm.mem_iff, hSeen]

/-- 11.0.0.1 before 10.0.0.2 on a little-endian host, and after it on a big-endian one. -/
theorem handleAll_agree_mixed :
    let first : ArpEntry := ⟨0x0100000b#32, 0x1b#48⟩
    let second : ArpEntry := ⟨0x0200000a#32, 0x1c#48⟩
    let heap : Nat → Int → ArpEntry := fun _ _ => ⟨0#32, 0#48⟩
    let cache := fetchSharedArpCache (handleAll heap [[first], [second]]).1
    let cache' := fetchSharedArpCache (handleAll heap
      [[second.seen .little .big], [first.seen .little .big]]).1
    (cache.map fun e => (e.seen .little .big).ip).Perm (cache'.map ArpEntry.ip) ∧
      cache = [first, second] ∧
      cache' = [second.seen .little .big, first.seen .little .big] := by
  intro first second heap cache cache'
  have hSame : ([[first], [second]].map (List.map (ArpEntry.seen .little .big))).Perm
      [[second.seen .little .big], [first.seen .little .big]] := .swap _ _ _
  exact ⟨(handleAll_agree hSame (by decide +kernel) (by decide +kernel)).2.2.1,
    by decide +kernel, by decide +kernel⟩

end Agreement

end Wackamole
