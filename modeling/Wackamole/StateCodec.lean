import Wackamole.Network
import Mathlib.Data.Fin.VecNotation
import Wackamole.Library.HostWords

/-! The bytes of a STATE message: how `Handle_state` walks over what `Send_state_message`
has copied into `Mess`. -/
namespace Wackamole

variable {n : Nat}

open HostWords

@[simp] abbrev maxMessLen : Nat := 100000

/-- The values of an `int`. -/
def IsInt (x : Int) : Prop := -2 ^ 31 ≤ x ∧ x < 2 ^ 31

theorem toInt_ofInt {x : Int} (h : IsInt x) : (BitVec.ofInt 32 x).toInt = x := by
  rw [BitVec.toInt_ofInt]
  obtain ⟨hLow, hHigh⟩ := h
  exact Int.bmod_eq_of_le (by omega) (by omega)

namespace StateMess

/-- What `Send_state_message` leaves in `Mess`, on a host of some byte order. -/
def bytes (o : ByteOrder) (m : StateMess) : List Byte := o.pack m.words

/-- The first loop of `Handle_state`: the claims from an offset on, and the offset behind
them. -/
def parseClaims (o : ByteOrder) (mess : List Byte) : Nat → Nat → List (Address × Int) × Nat
  | 0, numBytes => ([], numBytes)
  | count + 1, numBytes =>
    let pseudo := o.fetch mess numBytes
    let numBytes := numBytes + 4
    let priority := (o.fetch mess numBytes).toInt
    let numBytes := numBytes + 4
    let (claims, numBytes) := parseClaims o mess count numBytes
    ((pseudo, priority) :: claims, numBytes)

/-- The second loop. -/
def parsePrefers (o : ByteOrder) (mess : List Byte) : Nat → Nat → List Address × Nat
  | 0, numBytes => ([], numBytes)
  | count + 1, numBytes =>
    let prefer := o.fetch mess numBytes
    let numBytes := numBytes + 4
    let (prefers, numBytes) := parsePrefers o mess count numBytes
    (prefer :: prefers, numBytes)

/-- The reading sequence of `Handle_state` on a host of the sender's byte order, with
the value that `num_bytes` has at its end. -/
def parse (o : ByteOrder) (mess : List Byte) : StateMess × Nat :=
  let numBytes := 0
  let gid : GroupId :=
    ⟨o.fetch mess numBytes, o.fetch mess (numBytes + 4), o.fetch mess (numBytes + 8)⟩
  let numBytes := numBytes + 12
  let realAddress := o.fetch mess numBytes
  let numBytes := numBytes + 4
  let index := (o.fetch mess numBytes).toNat
  let numBytes := numBytes + 4
  let maturity := (o.fetch mess numBytes).toInt
  let numBytes := numBytes + 4
  let numAllocated := (o.fetch mess numBytes).toInt
  let numBytes := numBytes + 4
  let (claims, numBytes) := parseClaims o mess numAllocated.toNat numBytes
  let numPrefer := (o.fetch mess numBytes).toInt
  let numBytes := numBytes + 4
  let (prefers, numBytes) := parsePrefers o mess numPrefer.toNat numBytes
  (⟨gid, realAddress, index, maturity, numAllocated, claims, prefers⟩, numBytes)

theorem parseClaims_eq (o : ByteOrder) (mess : List Byte) (count base : Nat) :
    parseClaims o mess count (4 * base) =
      ((List.range count).map fun i =>
        (o.fetch mess (4 * (base + 2 * i)), (o.fetch mess (4 * (base + 1 + 2 * i))).toInt),
        4 * (base + 2 * count)) := by
  induction count generalizing base with
  | zero => rfl
  | succ count ih =>
      have hNext : 4 * base + 4 + 4 = 4 * (base + 2) := by omega
      have hShift (i : Nat) : base + 2 + 2 * i = base + 2 * (i + 1) := by omega
      have hShift' (i : Nat) : base + 2 + 1 + 2 * i = base + 1 + 2 * (i + 1) := by omega
      simp only [parseClaims, hNext, ih, hShift, hShift', List.range_succ_eq_map, List.map_cons,
        List.map_map]
      rfl

theorem parsePrefers_eq (o : ByteOrder) (mess : List Byte) (count base : Nat) :
    parsePrefers o mess count (4 * base) =
      ((List.range count).map fun i => o.fetch mess (4 * (base + i)), 4 * (base + count)) := by
  induction count generalizing base with
  | zero => rfl
  | succ count ih =>
      have hNext : 4 * base + 4 = 4 * (base + 1) := by omega
      have hShift (i : Nat) : base + 1 + i = base + (i + 1) := by omega
      simp only [parsePrefers, hNext, ih, hShift, List.range_succ_eq_map, List.map_cons,
        List.map_map]
      rfl

/-- The bytes are read as `read` reads the words, and the walk ends behind the last one. -/
theorem parse_eq (o : ByteOrder) (mess : List Byte) :
    parse o mess =
      (read fun k => o.fetch mess (4 * k), 4 * (read fun k => o.fetch mess (4 * k)).size) := by
  have hClaims (count : Nat) := parseClaims_eq o mess count 7
  have hPrefers (count base : Nat) := parsePrefers_eq o mess count (base + 1)
  have hHeader : 0 + 12 + 4 + 4 + 4 + 4 = 4 * 7 := rfl
  have hCount : 0 + 12 + 4 + 4 + 4 = 4 * 6 := rfl
  have hNext (base : Nat) : 4 * base + 4 = 4 * (base + 1) := by omega
  have hClaim (i : Nat) : 7 + 1 + 2 * i = 8 + 2 * i := by omega
  simp only [parse, hHeader, hCount, hClaims, hNext, hPrefers, hClaim]
  refine Prod.ext rfl ?_
  simp only [size, read, List.length_map, List.length_range]
  omega

/-- A message whose numbers fit their fields, with as many claims as it says. -/
structure Encodable (m : StateMess) : Prop where
  index : m.index < 2 ^ 32
  maturity : IsInt m.maturity
  count : m.numAllocated = m.claims.length
  claims : m.claims.length < 2 ^ 31
  priority : ∀ claim ∈ m.claims, IsInt claim.2
  prefers : m.prefers.length < 2 ^ 31

theorem length_words (m : StateMess) : m.words.length = m.size := by
  simp only [words, List.length_append, length_pairs, List.length_cons, List.length_nil, size]
  omega

theorem toInt_ofNat {k : Nat} (h : k < 2 ^ 31) : (BitVec.ofNat 32 k).toInt = k := by
  have hNat : (BitVec.ofNat 32 k).toNat = k := by
    rw [BitVec.toNat_ofNat]
    omega
  rw [BitVec.toInt_eq_toNat_of_lt (by omega), hNat]

/-- The sections of a message. -/
theorem getD_words (m : StateMess) :
    (∀ k (hk : k < m.claims.length),
      m.words.getD (7 + 2 * k) 0#32 = m.claims[k].1 ∧
        m.words.getD (8 + 2 * k) 0#32 = BitVec.ofInt 32 m.claims[k].2) ∧
    m.words.getD (7 + 2 * m.claims.length) 0#32 = BitVec.ofNat 32 m.prefers.length ∧
    ∀ k (hk : k < m.prefers.length),
      m.words.getD (7 + 2 * m.claims.length + 1 + k) 0#32 = m.prefers[k] := by
  have hBehind (j : Nat) : m.words.getD (7 + j) 0#32 =
      ((m.claims.flatMap fun c => [c.1, BitVec.ofInt 32 c.2]) ++
        BitVec.ofNat 32 m.prefers.length :: m.prefers).getD j 0#32 := by
    rw [words, List.append_assoc]
    exact getD_append_add _ _ j
  have hPairs : (m.claims.flatMap fun c => [c.1, BitVec.ofInt 32 c.2]).length =
      2 * m.claims.length := length_pairs _ _ _
  have hPrefers (j : Nat) : m.words.getD (7 + 2 * m.claims.length + j) 0#32 =
      (BitVec.ofNat 32 m.prefers.length :: m.prefers).getD j 0#32 := by
    rw [Nat.add_assoc, hBehind, ← hPairs]
    exact getD_append_add _ _ j
  refine ⟨fun k hk => ?_, hPrefers 0, fun k hk => ?_⟩
  · obtain ⟨hFirst, hSecond⟩ := getD_pairs m.claims Prod.fst (fun c => BitVec.ofInt 32 c.2) hk
    have hNext : 8 + 2 * k = 7 + (2 * k + 1) := by omega
    rw [hNext, hBehind, hBehind, List.getD_append _ _ _ _ (by omega),
      List.getD_append _ _ _ _ (by omega)]
    exact ⟨hFirst, hSecond⟩
  · rw [Nat.add_assoc _ 1 k, Nat.add_comm 1 k, hPrefers, List.getD_cons_succ,
      List.getD_eq_getElem _ _ hk]

/-- A message is read back from its words. -/
theorem read_words {m : StateMess} (h : m.Encodable) {word : Nat → Word}
    (hWord : ∀ k < m.words.length, word k = m.words.getD k 0#32) : read word = m := by
  obtain ⟨hClaims, hPreferCount, hPrefers⟩ := m.getD_words
  rw [length_words, size] at hWord
  have hCount : (word 6).toInt = m.claims.length := by
    rw [hWord 6 (by omega)]
    change (BitVec.ofInt 32 m.numAllocated).toInt = _
    rw [h.count]
    exact toInt_ofInt ⟨by omega, by exact_mod_cast h.claims⟩
  have hNumPrefer : (word (7 + 2 * m.claims.length)).toInt = m.prefers.length := by
    rw [hWord _ (by omega), hPreferCount, toInt_ofNat h.prefers]
  have hIndex : (word 4).toNat = m.index := by
    rw [hWord 4 (by omega)]
    change (BitVec.ofNat 32 m.index).toNat = _
    rw [BitVec.toNat_ofNat, Nat.mod_eq_of_lt h.index]
  have hMaturity : (word 5).toInt = m.maturity := by
    rw [hWord 5 (by omega)]
    exact toInt_ofInt h.maturity
  have hClaimList : (List.range m.claims.length).map
      (fun i => (word (7 + 2 * i), (word (8 + 2 * i)).toInt)) = m.claims := by
    apply List.ext_getElem
    · simp
    · intro k _ hk
      obtain ⟨hPseudo, hPriority⟩ := hClaims k hk
      rw [List.getElem_map, List.getElem_range, hWord _ (by omega), hWord _ (by omega), hPseudo,
        hPriority, toInt_ofInt (h.priority _ (List.getElem_mem hk))]
  have hPreferList : (List.range m.prefers.length).map
      (fun i => word (7 + 2 * m.claims.length + 1 + i)) = m.prefers := by
    apply List.ext_getElem
    · simp
    · intro k _ hk
      rw [List.getElem_map, List.getElem_range, hWord _ (by omega), hPrefers k hk]
  simp only [read, hCount, hNumPrefer, hIndex, hMaturity, hClaimList, hPreferList,
    Int.toNat_natCast, hWord 0 (by omega), hWord 1 (by omega), hWord 2 (by omega),
    hWord 3 (by omega)]
  rw [← h.count]
  rfl

/-- The bytes of a message are read back, whatever stands behind them in the buffer. -/
theorem parse_bytes (o : ByteOrder) {m : StateMess} (h : m.Encodable) (rest : List Byte) :
    parse o (m.bytes o ++ rest) = (m, (m.bytes o).length) := by
  have hRead : (read fun k => o.fetch (m.bytes o ++ rest) (4 * k)) = m :=
    read_words h fun k hk => o.fetch_pack rest hk
  rw [parse_eq, hRead, bytes, ByteOrder.length_pack, length_words]

end StateMess

/-- A sender within the limits of the code: `MAX_PSEUDO` entries and preferences, and
numbers that are ints. -/
structure Daemon.Bounded (cfg : Config n) (d : Daemon n) : Prop where
  numPseudo : n ≤ maxPseudo
  numPrefer : cfg.preferAddress.length ≤ maxPseudo
  myIndex : d.myIndex < 2 ^ 31
  claimPriority : ∀ i, IsInt (d.oldTable i).claimPriority

theorem ownedBy_le (table : Fin n → Entry) (addr : Address) : ownedBy table addr ≤ n := by
  have hLength := List.length_filter_le (fun j => decide ((table j).realIf = addr)) (List.finRange n)
  rwa [List.length_finRange] at hLength

/-- What a sender whose counter is true to its `Old_table` writes. -/
theorem stateMess_encodable {cfg : Config n} {d : Daemon n} (h : d.Bounded cfg)
    (hCount : d.numAllocated = ownedBy d.oldTable cfg.realIf) : (stateMess cfg d).Encodable where
  index := Nat.lt_of_lt_of_le h.myIndex (by decide)
  maturity := by
    unfold stateMess IsInt
    dsimp only
    split_ifs <;> decide
  count := by
    rw [stateMess_claims_length]
    exact hCount
  claims := by
    have hOwned := ownedBy_le d.oldTable cfg.realIf
    have hTable : n ≤ 254 := h.numPseudo
    rw [stateMess_claims_length]
    omega
  priority claim hMem := by
    obtain ⟨i, _, rfl⟩ := List.mem_map.mp hMem
    exact h.claimPriority i
  prefers := by
    have hPrefer : cfg.preferAddress.length ≤ 254 := h.numPrefer
    change cfg.preferAddress.length < 2 ^ 31
    omega

/-- `Handle_state` reads what `Send_state_message` has written: the fields of the sender,
the claims in the order of its table and its preferences in order. It consumes the
message and nothing behind it, and the message fits into `Mess`. -/
theorem stateMess_roundTrip (cfg : Config n) (d : Daemon n) (o : ByteOrder) (rest : List Byte)
    (h : d.Bounded cfg) (hCount : d.numAllocated = ownedBy d.oldTable cfg.realIf) :
    let sent := (stateMess cfg d).bytes o
    StateMess.parse o (sent ++ rest) =
      ({ gid := d.gid
         realAddress := cfg.realIf
         index := d.myIndex
         maturity := if d.maturity then 1 else 0
         numAllocated := d.numAllocated
         claims := ((List.finRange n).filter fun i => (d.oldTable i).realIf = cfg.realIf).map
           fun i => (cfg.pseudoIf i, (d.oldTable i).claimPriority)
         prefers := cfg.preferAddress }, sent.length) ∧
      sent.length ≤ maxMessLen := by
  intro sent
  refine ⟨StateMess.parse_bytes o (stateMess_encodable h hCount) rest, ?_⟩
  have hOwned := ownedBy_le d.oldTable cfg.realIf
  have hTable : n ≤ 254 := h.numPseudo
  have hPrefer : cfg.preferAddress.length ≤ 254 := h.numPrefer
  have hSize : sent.length =
      4 * (8 + 2 * ownedBy d.oldTable cfg.realIf + cfg.preferAddress.length) := by
    rw [← stateMess_claims_length]
    exact (ByteOrder.length_pack o _).trans (congrArg (4 * ·) (StateMess.length_words _))
  rw [hSize, maxMessLen]
  omega

/-- A sender that owns one of its two interfaces and prefers the other. -/
theorem stateMess_roundTrip_pair :
    let cfg : Config 2 := ⟨![10#32, 11#32], [11#32], 1#32, "wack1", 1, false, true⟩
    let d : Daemon 2 :=
      { Daemon.initial 2 with
        numAllocated := 1
        oldTable := ![⟨1#32, claimed⟩, ⟨0#32, unclaimed⟩] }
    let sent := (stateMess cfg d).bytes .little
    StateMess.parse .little (sent ++ [7#8]) =
      ({ gid := d.gid
         realAddress := cfg.realIf
         index := d.myIndex
         maturity := if d.maturity then 1 else 0
         numAllocated := d.numAllocated
         claims := ((List.finRange 2).filter fun i => (d.oldTable i).realIf = cfg.realIf).map
           fun i => (cfg.pseudoIf i, (d.oldTable i).claimPriority)
         prefers := cfg.preferAddress }, sent.length) ∧
      sent.length ≤ maxMessLen := by
  intro cfg d
  have hBounded : d.Bounded cfg := by
    refine ⟨by decide, by decide, by decide, fun i => ?_⟩
    match i with
    | 0 => exact ⟨by decide, by decide⟩
    | 1 => exact ⟨by decide, by decide⟩
  exact stateMess_roundTrip cfg d .little [7#8] hBounded (by decide)

end Wackamole
