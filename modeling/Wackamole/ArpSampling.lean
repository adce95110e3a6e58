import Wackamole.Spoofing
import Wackamole.Library.Decimal
import Wackamole.Library.HeapBlocks

/-! The ARP entries of this host: `sample_arp_cache` on the text of `/proc/net/arp`, and the
block in which it keeps the entries from one call to the next. -/
namespace Wackamole

open HostWords HeapBlocks

/-- The lines that `fgets` returns one after the other. So many characters fit into the rest of
the first, and `size` into each of the others. -/
def fgetsAll (size : Nat) : Nat → List Char → List (List Char)
  | _, [] => []
  | left, c :: file =>
    if c = '\n' ∨ left ≤ 1 then [c] :: fgetsAll size size file
    else match fgetsAll size (left - 1) file with
      | [] => [[c]]
      | line :: lines => (c :: line) :: lines

/-- A conversion `%s`: a text behind white space. -/
def scanString (width : Nat) (text : List Char) : Option (List Char × List Char) :=
  let text := text.dropWhile Decimal.isSpace
  let item := (text.take width).takeWhile fun c => !Decimal.isSpace c
  if item = [] then none else some (item, text.drop item.length)

/-- The directive ` 0x`, white space included. -/
def scanPrefix (text : List Char) : Option (List Char) :=
  match text.dropWhile Decimal.isSpace with
  | '0' :: 'x' :: text => some text
  | _ => none

def digitValue (c : Char) : Option Nat :=
  if 48 ≤ c.toNat ∧ c.toNat ≤ 57 then some (c.toNat - 48)
  else if 97 ≤ c.toNat ∧ c.toNat ≤ 102 then some (c.toNat - 87)
  else if 65 ≤ c.toNat ∧ c.toNat ≤ 70 then some (c.toNat - 55)
  else none

/-- The digits to this base at the front of a text. -/
def digitsOf (base : Nat) (text : List Char) : List Char :=
  text.takeWhile fun c => (digitValue c).any fun k => k < base

def valueOf (base : Nat) (digits : List Char) : Nat :=
  digits.foldl (fun v c => base * v + (digitValue c).getD 0) 0

/-- A conversion `%x`. A sign may come first and then `0x`, behind which a digit is needed. -/
def scanHex (width : Nat) (text : List Char) : Option (Word × List Char) :=
  let text := text.dropWhile Decimal.isSpace
  let item := text.take width
  let (negative, unsigned) := match item with
    | '-' :: unsigned => (true, unsigned)
    | '+' :: unsigned => (false, unsigned)
    | unsigned => (false, unsigned)
  let magnitude := match unsigned with
    | '0' :: 'x' :: magnitude => magnitude
    | '0' :: 'X' :: magnitude => magnitude
    | magnitude => magnitude
  let digits := digitsOf 16 magnitude
  let value := BitVec.ofNat 32 (valueOf 16 digits)
  if digits = [] then none
  else some (if negative then -value else value,
    text.drop (item.length - magnitude.length + digits.length))

/-- `sscanf` of a line, which ends at a zero byte: the fields `ip` and `hw_address` if all six
conversions succeed. The other fields only have to be there. The arrays on the stack that take
the fields are outside this model. -/
def scanLine (line : List Char) : Option (List Char × List Char) := do
  let text := line.takeWhile fun c => c ≠ '\x00'
  let (ip, rest) ← scanString text.length text
  let rest ← scanPrefix rest
  let (_, rest) ← scanHex rest.length rest
  let rest ← scanPrefix rest
  let (_, rest) ← scanHex rest.length rest
  let (hwAddress, rest) ← scanString 100 rest
  let (_, rest) ← scanString 100 rest
  let (_, _) ← scanString 100 rest
  return (ip, hwAddress)

/-- The values that `sscanf` stores of `hw_address`, at most so many. -/
def scanHint : Nat → List Char → List Word
  | 0, _ => []
  | left + 1, text =>
    match scanHex 2 text with
    | none => []
    | some (h, ':' :: rest) => h :: scanHint left rest
    | some (h, _) => [h]

/-- A number in an address: hexadecimal, octal or decimal. -/
def inetNumber (text : List Char) : Option Nat :=
  let (base, digits) := match text with
    | '0' :: 'x' :: digits => (16, digits)
    | '0' :: 'X' :: digits => (16, digits)
    | '0' :: digits => (8, '0' :: digits)
    | digits => (10, digits)
  if digits ≠ [] ∧ digitsOf base digits = digits then some (valueOf base digits) else none

/-- The numbers of an address below a limit. The last one takes all the bytes that are left. -/
def inetValue : Nat → List Nat → Option Nat
  | _, [] => none
  | limit, [part] => if part < limit then some part else none
  | limit, part :: parts =>
    if part < 256 ∧ 256 < limit then
      (inetValue (limit / 256) parts).map (part * (limit / 256) + ·)
    else none

/-- `inet_addr`. -/
def inetAddr (o : ByteOrder) (text : List Char) : Address :=
  match ((text.splitOn '.').mapM inetNumber).bind (inetValue 4294967296) with
  | none => 0xffffffff#32
  | some value => ntohl o (BitVec.ofNat 32 value)

/-- The bytes of `mac`, from the words in `hint`. -/
def macOf (hint : Nat → Word) : BitVec 48 :=
  (hint 0).setWidth 8 ++ (hint 1).setWidth 8 ++ (hint 2).setWidth 8 ++ (hint 3).setWidth 8 ++
    (hint 4).setWidth 8 ++ (hint 5).setWidth 8

/-- The entry of a line, unless it is malformed. What `sscanf` does not store into `hint` is
what was there. -/
def lineEntry (o : ByteOrder) (stale : Nat → Word) (line : List Char) : Option ArpEntry :=
  (scanLine line).map fun (ip, hwAddress) =>
    ⟨inetAddr o ip, macOf fun i => (scanHint 6 hwAddress).getD i (stale i)⟩

/-- One call of `sample_arp_cache`, as far as it depends on its surroundings: the text of the
file, unless it cannot be opened, and what the memory holds that the call has not written, in
each pass of the loop and after it. -/
structure Sample where
  file : Option (List Char)
  hint : Nat → Nat → Word
  heap : Nat → Nat → ArpEntry
  lastHeap : Nat → ArpEntry

/-- `arpcache_psize` and `arpcache_private`, a null pointer or a block. -/
structure PrivateCache where
  psize : Nat
  block : Option (List ArpEntry)
  deriving DecidableEq

def PrivateCache.initial : PrivateCache := ⟨0, none⟩

/-- The variables of the loop in `sample_arp_cache`. -/
structure Sampling where
  count : Nat
  tmpSize : Nat
  block : Option (List ArpEntry)

namespace Sampling

/-- Growth. A block behind which `tmp_size` is 0 is lost. -/
def makeRoom (heap : Nat → ArpEntry) (p : Sampling) : Sampling :=
  if p.count + 1 > p.tmpSize then
    if p.tmpSize > 0 then
      { p with
        tmpSize := p.tmpSize * 2
        block := some (realloc heap (p.tmpSize * 2 + 1) p.block) }
    else { p with tmpSize := 2, block := some (malloc heap 3) }
  else p

def put (e : ArpEntry) (p : Sampling) : Option Sampling := do
  let block ← store p.count (fun cell => { cell with ip := e.ip }) p.block
  let block ← store p.count (fun cell => { cell with mac := e.mac }) (some block)
  return { p with count := p.count + 1, block := some block }

/-- The loop over the lines behind the first. -/
def loop (o : ByteOrder) (s : Sample) : List (List Char) → Sampling → Option Sampling
  | [], p => some p
  | line :: lines, p =>
    match lineEntry o (s.hint p.count) line with
    | none => some p
    | some e => (p.makeRoom (s.heap p.count)).put e >>= loop o s lines

/-- The end of `sample_arp_cache`. The address 0 ends the entries. -/
def finish (heap : Nat → ArpEntry) (p : Sampling) : Option PrivateCache :=
  let close := store p.count fun cell => { cell with ip := 0#32 }
  if p.count = 0 then (close (some (malloc heap 1))).map fun block => ⟨0, some block⟩
  else
    let block := if p.count ≠ p.tmpSize then some (realloc heap (p.count + 1) p.block) else p.block
    (close block).map fun block => ⟨p.count, some block⟩

end Sampling

/-- `sample_arp_cache`. A write outside the block has no result. -/
def sampleArpCache (o : ByteOrder) (cache : PrivateCache) (s : Sample) : Option PrivateCache :=
  match s.file with
  | none => some cache
  | some file =>
    Sampling.loop o s (fgetsAll 199 199 file).tail ⟨0, cache.psize, cache.block⟩ >>=
      Sampling.finish s.lastHeap

/-- A sequence of calls. -/
def sampleAll (o : ByteOrder) (samples : List Sample) : Option PrivateCache :=
  samples.foldlM (sampleArpCache o) PrivateCache.initial

/-- The entries of the lines up to the first that is malformed. -/
def entriesOf (o : ByteOrder) (hint : Nat → Nat → Word) : Nat → List (List Char) → List ArpEntry
  | _, [] => []
  | pass, line :: lines =>
    (lineEntry o (hint pass) line).elim [] fun e => e :: entriesOf o hint (pass + 1) lines

/-- A file of lines that fit into the buffer is read line by line. -/
theorem fgetsAll_line {size left : Nat} {line : List Char} (hNewline : '\n' ∉ line)
    (hFits : line.length < left) (file : List Char) :
    fgetsAll size left (line ++ '\n' :: file) = (line ++ ['\n']) :: fgetsAll size size file := by
  induction line generalizing left with
  | nil => rw [List.nil_append, fgetsAll, if_pos (.inl rfl), List.nil_append]
  | cons c line ih =>
      rw [List.mem_cons, not_or] at hNewline
      rw [List.length_cons] at hFits
      have hShorter : line.length < left - 1 := by omega
      have hRest := ih hNewline.2 hShorter
      have hMore : ¬ (c = '\n' ∨ left ≤ 1) := by
        rw [not_or]
        exact ⟨Ne.symm hNewline.1, by omega⟩
      rw [List.cons_append, fgetsAll, if_neg hMore, hRest]
      rfl

theorem fgetsAll_lines {size : Nat} {lines : List (List Char)}
    (h : ∀ line ∈ lines, '\n' ∉ line ∧ line.length < size) :
    fgetsAll size size (lines.flatMap (· ++ ['\n'])) = lines.map (· ++ ['\n']) := by
  induction lines with
  | nil => rfl
  | cons line lines ih =>
      obtain ⟨hLine, hRest⟩ := List.forall_mem_cons.mp h
      rw [List.flatMap_cons, List.append_assoc, List.singleton_append,
        fgetsAll_line hLine.1 hLine.2, ih hRest, List.map_cons]

namespace Sampling

variable {o : ByteOrder} {es : List ArpEntry} {p : Sampling}

/-- The array with these entries in the middle of a call. As long as `tmp_size` is 0 the
pointer is null or belongs to a block that will be lost. -/
structure Filled (es : List ArpEntry) (p : Sampling) : Prop where
  count : p.count = es.length
  room : p.count ≤ p.tmpSize
  block : 0 < p.tmpSize → Begins es (p.tmpSize + 1) p.block

theorem Filled.makeRoom (h : p.Filled es) (heap : Nat → ArpEntry) :
    (p.makeRoom heap).Filled es ∧ p.count < (p.makeRoom heap).tmpSize := by
  have hCount := h.count
  have hRoom := h.room
  unfold Sampling.makeRoom
  split_ifs with hFull hUsed
  · have hFits : es.length ≤ p.tmpSize * 2 + 1 := by omega
    refine ⟨⟨hCount, ?_, fun _ => (h.block hUsed).realloc heap hFits⟩, ?_⟩
    · show p.count ≤ p.tmpSize * 2
      omega
    · show p.count < p.tmpSize * 2
      omega
  · obtain rfl : es = [] := List.length_eq_zero_iff.mp (by omega)
    refine ⟨⟨hCount, ?_, fun _ => begins_malloc heap 3⟩, ?_⟩
    · show p.count ≤ 2
      omega
    · show p.count < 2
      omega
  · exact ⟨h, by omega⟩

/-- The cell at `count` gets its two parts one after the other. -/
theorem Filled.put (h : p.Filled es) (hRoom : p.count < p.tmpSize) (e : ArpEntry) :
    ∃ p', p.put e = some p' ∧ p'.Filled (es ++ [e]) := by
  have hCount := h.count
  obtain ⟨cell, hCell⟩ := (h.block (by omega)).next (by omega)
  obtain ⟨block, hIp, hHeld⟩ := hCell.store fun cell => { cell with ip := e.ip }
  obtain ⟨block', hMac, hHeld'⟩ := hHeld.store fun cell => { cell with mac := e.mac }
  refine ⟨⟨p.count + 1, p.tmpSize, some block'⟩, ?_, ?_, hRoom, fun _ => hHeld'⟩
  · rw [Sampling.put, hCount, hIp, Option.bind_eq_bind, Option.bind_some, hMac]
    rfl
  · rw [List.length_append, List.length_singleton, hCount]

/-- The whole loop, by induction on the lines. -/
theorem Filled.loop (h : p.Filled es) (s : Sample) (lines : List (List Char)) :
    ∃ p', Sampling.loop o s lines p = some p' ∧
      p'.Filled (es ++ entriesOf o s.hint p.count lines) := by
  induction lines generalizing es p with
  | nil => exact ⟨p, rfl, by rwa [entriesOf, List.append_nil]⟩
  | cons line lines ih =>
      rw [Sampling.loop, entriesOf]
      cases hLine : lineEntry o (s.hint p.count) line with
      | none => exact ⟨p, rfl, by rwa [Option.elim_none, List.append_nil]⟩
      | some e =>
          obtain ⟨hRoomy, hRoom⟩ := h.makeRoom (s.heap p.count)
          obtain ⟨p₁, hPut, hFilled⟩ := hRoomy.put (by rwa [hRoomy.count, ← h.count]) e
          obtain ⟨p', hLoop, hRest⟩ := ih hFilled
          have hPass : p₁.count = p.count + 1 := by
            rw [hFilled.count, h.count, List.length_append, List.length_singleton]
          refine ⟨p', ?_, ?_⟩
          · dsimp only
            rw [hPut]
            exact hLoop
          · rwa [Option.elim_some, ← hPass, List.append_cons]

/-- The terminator is behind the entries, in a block of exactly that size. -/
theorem Filled.finish (h : p.Filled es) (heap : Nat → ArpEntry) :
    ∃ last : ArpEntry, last.ip = 0#32 ∧
      p.finish heap = some ⟨es.length, some (es ++ [last])⟩ := by
  have hCount := h.count
  have hRoom := h.room
  have hClose {block : Option (List ArpEntry)} (hHeld : Begins es (p.count + 1) block) :
      ∃ last : ArpEntry, last.ip = 0#32 ∧
        store p.count (fun cell => { cell with ip := 0#32 }) block = some (es ++ [last]) := by
    obtain ⟨cell, hCell⟩ := hHeld.next (by omega)
    obtain ⟨block', hStore, hStored⟩ := hCell.store fun cell : ArpEntry => { cell with ip := 0#32 }
    rw [hCount, ← List.length_singleton, ← List.length_append] at hStored
    exact ⟨_, rfl, by rw [hCount, hStore, hStored.full]⟩
  unfold Sampling.finish
  dsimp only
  split_ifs with hEmpty hShrink
  · obtain rfl : es = [] := List.length_eq_zero_iff.mp (by omega)
    have hNew : Begins [] (p.count + 1) (some (malloc heap 1)) := by
      rw [hEmpty]
      exact begins_malloc heap 1
    obtain ⟨last, hLast, hStore⟩ := hClose hNew
    exact ⟨last, hLast, by rw [hStore]; rfl⟩
  · have hFits : es.length ≤ p.count + 1 := by omega
    obtain ⟨last, hLast, hStore⟩ := hClose ((h.block (by omega)).realloc heap hFits)
    exact ⟨last, hLast, by rw [hStore, hCount]; rfl⟩
  · have hHeld := h.block (by omega)
    rw [← not_not.mp hShrink] at hHeld
    obtain ⟨last, hLast, hStore⟩ := hClose hHeld
    exact ⟨last, hLast, by rw [hStore, hCount]; rfl⟩

end Sampling

/-- Between two calls: the block has a cell more than `arpcache_psize` says. -/
def PrivateCache.Fits (cache : PrivateCache) : Prop :=
  0 < cache.psize → Begins [] (cache.psize + 1) cache.block

variable {o : ByteOrder} {cache : PrivateCache}

theorem PrivateCache.fits_entries (es : List ArpEntry) (last : ArpEntry) :
    PrivateCache.Fits ⟨es.length, some (es ++ [last])⟩ := fun _ =>
  ⟨_, rfl, List.nil_prefix, by rw [List.length_append, List.length_singleton]⟩

/-- One call in which the file can be opened. -/
theorem sampleArpCache_opened (h : cache.Fits) {s : Sample} {file : List Char}
    (hFile : s.file = some file) :
    ∃ last : ArpEntry, last.ip = 0#32 ∧
      let es := entriesOf o s.hint 0 (fgetsAll 199 199 file).tail
      sampleArpCache o cache s = some ⟨es.length, some (es ++ [last])⟩ := by
  have hStart : Sampling.Filled [] ⟨0, cache.psize, cache.block⟩ := ⟨rfl, Nat.zero_le _, h⟩
  obtain ⟨p, hLoop, hFilled⟩ := hStart.loop (o := o) s (fgetsAll 199 199 file).tail
  obtain ⟨last, hLast, hFinish⟩ := hFilled.finish s.lastHeap
  refine ⟨last, hLast, ?_⟩
  rw [sampleArpCache, hFile]
  dsimp only
  rw [hLoop]
  exact hFinish

/-- The same for a file with a title and lines that fit into the buffer. -/
theorem sampleArpCache_lines (h : cache.Fits) {s : Sample} {title : List Char}
    {lines : List (List Char)} (hLines : ∀ line ∈ title :: lines, '\n' ∉ line ∧ line.length < 199)
    (hFile : s.file = some ((title :: lines).flatMap (· ++ ['\n']))) :
    ∃ last : ArpEntry, last.ip = 0#32 ∧
      let es := entriesOf o s.hint 0 (lines.map (· ++ ['\n']))
      sampleArpCache o cache s = some ⟨es.length, some (es ++ [last])⟩ := by
  have hSampled := sampleArpCache_opened (o := o) h hFile
  rwa [fgetsAll_lines hLines, List.map_cons, List.tail_cons] at hSampled

theorem sampleArpCache_fits (h : cache.Fits) (s : Sample) :
    ∃ cache', sampleArpCache o cache s = some cache' ∧ cache'.Fits := by
  cases hFile : s.file with
  | none => exact ⟨cache, by rw [sampleArpCache, hFile], h⟩
  | some file =>
      obtain ⟨last, -, hSampled⟩ := sampleArpCache_opened (o := o) h hFile
      exact ⟨_, hSampled, PrivateCache.fits_entries _ last⟩

theorem sampleAll_snoc {samples : List Sample} (h : sampleAll o samples = some cache)
    (s : Sample) : sampleAll o (samples ++ [s]) = sampleArpCache o cache s := by
  rw [sampleAll, List.foldlM_append, ← sampleAll, h]
  exact bind_pure (sampleArpCache o cache s)

theorem sampleAll_fits (o : ByteOrder) (samples : List Sample) :
    ∃ cache, sampleAll o samples = some cache ∧ cache.Fits := by
  induction samples using List.reverseRecOn with
  | nil => exact ⟨PrivateCache.initial, rfl, fun hUsed => absurd hUsed (lt_irrefl 0)⟩
  | append_singleton samples s ih =>
      obtain ⟨cache, hBefore, hFits⟩ := ih
      obtain ⟨cache', hSampled, hFits'⟩ := sampleArpCache_fits (o := o) hFits s
      exact ⟨cache', (sampleAll_snoc hBefore s).trans hSampled, hFits'⟩

/-- However often `/proc/net/arp` has been sampled before, no call writes outside the block,
and the block holds the entries of the lines up to the first that is malformed, the terminator
and nothing else. -/
theorem sampleAll_opened (o : ByteOrder) (samples : List Sample) (s : Sample)
    (file : List Char) :
    ∃ last : ArpEntry, last.ip = 0#32 ∧
      let es := entriesOf o s.hint 0 (fgetsAll 199 199 file).tail
      sampleAll o (samples ++ [{ s with file := some file }]) =
        some ⟨es.length, some (es ++ [last])⟩ := by
  obtain ⟨cache, hBefore, hFits⟩ := sampleAll_fits o samples
  rw [sampleAll_snoc hBefore]
  exact sampleArpCache_opened hFits rfl

example : sampleAll .little
    [⟨some "IP address\n10.0.0.1 0x1 0x2 00:1b:2c:3d:4e:5f * eth0\n".toList, fun _ _ => 0#32,
      fun _ _ => ⟨0#32, 0#48⟩, fun _ => ⟨0#32, 0#48⟩⟩] =
    some ⟨1, some [⟨0x0100000a#32, 0x001b2c3d4e5f#48⟩, ⟨0#32, 0#48⟩]⟩ := by
  decide +kernel

end Wackamole
