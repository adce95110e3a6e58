import Wackamole.StateCodec
import Wackamole.BalancePlan

/-! Messages between hosts of opposite byte order. Every host holds the virtual and real
addresses in network byte order, and everything else in its own. -/
namespace Wackamole

variable {n : Nat}

open HostWords

/-- The message buffer of a host begins with these bytes. -/
def Daemon.Holds (o : ByteOrder) (d : Daemon n) (bytes : List Byte) : Prop :=
  ∀ k, 4 * k < bytes.length → d.mess.getD k 0#32 = o.fetch bytes (4 * k)

/-- `Flip_int32` undoes the byte order of the sender. -/
theorem word_of_holds {o : ByteOrder} {d : Daemon n} {words : List Word}
    (hMismatch : d.endianMismatch = true) (h : d.Holds o.other (o.pack words)) {k : Nat}
    (hk : k < words.length) : d.word k = words.getD k 0#32 := by
  have hAddr : 4 * k < (o.pack words).length := by
    rw [ByteOrder.length_pack]
    omega
  have hFetch := o.fetch_other_pack [] hk
  rw [List.append_nil] at hFetch
  rw [Daemon.word, if_pos hMismatch, h k hAddr, hFetch]
  exact swap_swap _

/-- What the network delivers to a host of the other byte order. -/
theorem holds_flipped {o : ByteOrder} {d : Daemon n} {words : List Word}
    (h : d.mess = words.map flipInt32) : d.Holds o.other (o.pack words) := by
  intro k hAddr
  have hk : k < words.length := by
    rw [ByteOrder.length_pack] at hAddr
    omega
  have hFetch := o.fetch_other_pack [] hk
  rw [List.append_nil] at hFetch
  rw [hFetch, h, List.getD_eq_getElem _ _ (by simpa using hk), List.getElem_map,
    List.getD_eq_getElem _ _ hk]
  rfl

/-- An address that a host of one byte order holds is, byte by byte, the one that a host
of the other holds. -/
def SameAddress (o : ByteOrder) (addr addr' : Address) : Prop := o.other.store addr' = o.store addr

/-- The four bytes of an address read the same from both ends. -/
def Palindrome (addr : Address) : Prop := flipInt32 addr = addr

theorem sameAddress_self_iff (o : ByteOrder) (addr : Address) :
    SameAddress o addr addr ↔ Palindrome addr := by
  have hSwap : o.other.store (flipInt32 addr) = o.store addr := o.other_store addr
  rw [SameAddress, ← hSwap, o.other.store_injective.eq_iff]
  exact eq_comm

/-- Two hosts of opposite byte order with the same virtual interfaces. -/
def SameVips (o : ByteOrder) (cfg cfg' : Config n) : Prop :=
  ∀ j, SameAddress o (cfg.pseudoIf j) (cfg'.pseudoIf j)

/-- The same address selects the same entry. -/
theorem findVE_sameAddress {o : ByteOrder} {cfg cfg' : Config n} (hVips : SameVips o cfg cfg')
    {addr addr' : Address} (h : SameAddress o addr addr') : findVE cfg' addr' = findVE cfg addr := by
  have hSame (j : Fin n) : cfg'.pseudoIf j = addr' ↔ cfg.pseudoIf j = addr := by
    rw [← o.other.store_injective.eq_iff, ← o.store_injective.eq_iff, hVips j, h]
  simp only [findVE, hSame]

/-- The numbers of a message. -/
structure StateMess.SameNumbers (m m' : StateMess) : Prop where
  gid : m'.gid = m.gid
  index : m'.index = m.index
  maturity : m'.maturity = m.maturity
  numAllocated : m'.numAllocated = m.numAllocated
  priority : m'.claims.map Prod.snd = m.claims.map Prod.snd
  numPrefer : m'.prefers.length = m.prefers.length

/-- A message that a host of one byte order has built, and what a host of the other makes
of it: the numbers are the same numbers, the addresses are the same addresses, and they
select the same table entries. -/
structure StateMess.Keeps (o : ByteOrder) (m m' : StateMess) : Prop
    extends StateMess.SameNumbers m m' where
  realAddress : SameAddress o m.realAddress m'.realAddress
  pseudo : List.Forall₂ (fun c c' : Address × Int => SameAddress o c.1 c'.1) m.claims m'.claims
  prefers : List.Forall₂ (SameAddress o) m.prefers m'.prefers
  matched : ∀ {n : Nat} (cfg cfg' : Config n), SameVips o cfg cfg' →
    m'.claims.map (fun c => findVE cfg' c.1) = m.claims.map (fun c => findVE cfg c.1) ∧
      m'.prefers.map (findVE cfg') = m.prefers.map (findVE cfg)

/-- The addresses in a message. -/
def StateMess.addresses (m : StateMess) : List Address :=
  m.realAddress :: m.claims.map Prod.fst ++ m.prefers

/-- A message that is decoded to the sender's own words keeps its meaning exactly if none
of its addresses depends on the byte order. -/
theorem StateMess.keeps_self_iff (o : ByteOrder) (m : StateMess) :
    m.Keeps o m ↔ ∀ addr ∈ m.addresses, Palindrome addr := by
  have hSelf : (∀ addr ∈ m.addresses, Palindrome addr) ↔ Palindrome m.realAddress ∧
      (∀ c ∈ m.claims, Palindrome c.1) ∧ ∀ addr ∈ m.prefers, Palindrome addr := by
    simp only [addresses, List.mem_append, List.mem_cons, List.mem_map]
    constructor
    · intro h
      exact ⟨h _ (.inl (.inl rfl)), fun c hMem => h _ (.inl (.inr ⟨c, hMem, rfl⟩)),
        fun addr hMem => h _ (.inr hMem)⟩
    · rintro ⟨hReal, hClaims, hPrefers⟩ addr ((rfl | ⟨c, hMem, rfl⟩) | hMem)
      · exact hReal
      · exact hClaims c hMem
      · exact hPrefers addr hMem
  rw [hSelf]
  constructor
  · intro h
    refine ⟨(sameAddress_self_iff o _).mp h.realAddress, fun c hMem => ?_, fun addr hMem => ?_⟩
    · exact (sameAddress_self_iff o _).mp (List.forall₂_same.mp h.pseudo c hMem)
    · exact (sameAddress_self_iff o _).mp (List.forall₂_same.mp h.prefers addr hMem)
  · rintro ⟨hReal, hClaims, hPrefers⟩
    refine ⟨⟨rfl, rfl, rfl, rfl, rfl, rfl⟩, (sameAddress_self_iff o _).mpr hReal,
      List.forall₂_same.mpr fun c hMem => (sameAddress_self_iff o _).mpr (hClaims c hMem),
      List.forall₂_same.mpr fun addr hMem => (sameAddress_self_iff o _).mpr (hPrefers addr hMem),
      fun cfg cfg' hVips => ⟨?_, ?_⟩⟩
    · refine List.map_congr_left fun c hMem => ?_
      exact findVE_sameAddress hVips ((sameAddress_self_iff o _).mpr (hClaims c hMem))
    · refine List.map_congr_left fun addr hMem => ?_
      exact findVE_sameAddress hVips ((sameAddress_self_iff o _).mpr (hPrefers addr hMem))

/-- The same for the moves of a BALANCE message. -/
structure MovesKeep (o : ByteOrder) (moves moves' : List Move) : Prop where
  real : List.Forall₂ (fun move move' : Move => SameAddress o move.1 move'.1) moves moves'
  pseudo : List.Forall₂ (fun move move' : Move => SameAddress o move.2 move'.2) moves moves'
  matched : ∀ {n : Nat} (cfg cfg' : Config n), SameVips o cfg cfg' →
    moves'.map (fun move => findVE cfg' move.2) = moves.map fun move => findVE cfg move.2

theorem movesKeep_self_iff (o : ByteOrder) (moves : List Move) :
    MovesKeep o moves moves ↔ ∀ move ∈ moves, Palindrome move.1 ∧ Palindrome move.2 := by
  constructor
  · intro h move hMem
    exact ⟨(sameAddress_self_iff o _).mp (List.forall₂_same.mp h.real move hMem),
      (sameAddress_self_iff o _).mp (List.forall₂_same.mp h.pseudo move hMem)⟩
  · intro h
    refine ⟨List.forall₂_same.mpr fun move hMem => (sameAddress_self_iff o _).mpr (h move hMem).1,
      List.forall₂_same.mpr fun move hMem => (sameAddress_self_iff o _).mpr (h move hMem).2,
      fun cfg cfg' hVips => List.map_congr_left fun move hMem => ?_⟩
    exact findVE_sameAddress hVips ((sameAddress_self_iff o _).mpr (h move hMem).2)

/-- A BALANCE message in the buffer is decoded to the sender's own words. -/
theorem read_balance_of_holds {o : ByteOrder} {cfg : Config n} {d receiver : Daemon n}
    {mess : BalanceMess} (hMismatch : receiver.endianMismatch = true)
    (hRate : cfg.balanceRate < 2 ^ 31) (hMess : balanceMess cfg d = some mess)
    (hHolds : receiver.Holds o.other (o.pack mess.words)) :
    (BalanceMess.read receiver.word).length = mess.count ∧
      (BalanceMess.read receiver.word).take mess.moves.length = mess.moves := by
  rw [balanceMess, Option.map_eq_some_iff] at hMess
  obtain ⟨⟨count, plan⟩, hPlan, rfl⟩ := hMess
  obtain ⟨hBound, hMoves⟩ := planLoop_bound hPlan
  simp only [Plan.start, List.length_nil, Nat.zero_add, Nat.add_zero] at hBound hMoves
  have hWord (k : Nat) (hk : k < 1 + 2 * plan.moves.length) :
      receiver.word k = (BalanceMess.words ⟨count, plan.moves⟩).getD k 0#32 :=
    word_of_holds hMismatch hHolds (by rw [BalanceMess.length_words]; exact hk)
  have hSmall : count < 2 ^ 31 := by omega
  have hCount : (receiver.word 0).toInt.toNat = count := by
    rw [hWord 0 (by omega), BalanceMess.words, List.getD_cons_zero,
      StateMess.toInt_ofNat hSmall, Int.toNat_natCast]
  have hRead : BalanceMess.read receiver.word = (List.range count).map fun k =>
      (receiver.word (1 + 2 * k), receiver.word (2 + 2 * k)) := by
    rw [BalanceMess.read, hCount]
  refine ⟨by rw [hRead, List.length_map, List.length_range], ?_⟩
  apply List.ext_getElem
  · rw [hRead, List.length_take, List.length_map, List.length_range, Nat.min_eq_left hMoves]
  · intro k _ hMove
    have hk : k < plan.moves.length := hMove
    obtain ⟨hReal, hPseudo⟩ := getD_pairs plan.moves Prod.fst Prod.snd hk
    have hOdd : 1 + 2 * k = 2 * k + 1 := by omega
    have hEven : 2 + 2 * k = 2 * k + 1 + 1 := by omega
    simp only [hRead, List.getElem_take, List.getElem_map, List.getElem_range]
    rw [hWord _ (by omega), hWord _ (by omega), BalanceMess.words, hOdd, hEven,
      List.getD_cons_succ, List.getD_cons_succ, hReal, hPseudo]

/-- Between hosts of opposite byte order the numbers of every message arrive. A STATE or
BALANCE message keeps its meaning exactly if no address in it depends on the byte order. -/
theorem mixedOrder_keeps_iff (o : ByteOrder) (cfg : Config n) (receiver : Daemon n)
    (hMismatch : receiver.endianMismatch = true) :
    (∀ d : Daemon n, d.Bounded cfg → d.numAllocated = ownedBy d.oldTable cfg.realIf →
      receiver.Holds o.other ((stateMess cfg d).bytes o) →
        (stateMess cfg d).SameNumbers (StateMess.read receiver.word) ∧
        ((stateMess cfg d).Keeps o (StateMess.read receiver.word) ↔
          ∀ addr ∈ (stateMess cfg d).addresses, Palindrome addr)) ∧
    ∀ (d : Daemon n) (mess : BalanceMess), cfg.balanceRate < 2 ^ 31 →
      balanceMess cfg d = some mess → receiver.Holds o.other (o.pack mess.words) →
        (BalanceMess.read receiver.word).length = mess.count ∧
        (MovesKeep o mess.moves ((BalanceMess.read receiver.word).take mess.moves.length) ↔
          ∀ move ∈ mess.moves, Palindrome move.1 ∧ Palindrome move.2) := by
  constructor
  · intro d hBounded hCount hHolds
    have hRead : StateMess.read receiver.word = stateMess cfg d :=
      StateMess.read_words (stateMess_encodable hBounded hCount) fun k hk =>
        word_of_holds hMismatch hHolds hk
    rw [hRead]
    exact ⟨⟨rfl, rfl, rfl, rfl, rfl, rfl⟩, StateMess.keeps_self_iff o _⟩
  · intro d mess hRate hMess hHolds
    obtain ⟨hCount, hMoves⟩ := read_balance_of_holds hMismatch hRate hMess hHolds
    rw [hMoves]
    exact ⟨hCount, movesKeep_self_iff o mess.moves⟩

/-- A sender with the address 10.0.0.2 that owns 10.0.0.1, on a little endian host. -/
def tenDotSender : Config 1 × Daemon 1 :=
  (⟨![0x0100000a#32], [], 0x0200000a#32, "wack1", 0, false, true⟩,
    { Daemon.initial 1 with
      numAllocated := 1
      oldTable := fun _ => ⟨0x0200000a#32, claimed⟩ })

/-- A big endian host that has received its STATE message. -/
def tenDotReceiver : Daemon 1 :=
  { Daemon.initial 1 with
    endianMismatch := true
    mess := (stateMess tenDotSender.1 tenDotSender.2).words.map flipInt32 }

theorem tenDot_keeps_iff :
    (stateMess tenDotSender.1 tenDotSender.2).SameNumbers (StateMess.read tenDotReceiver.word) ∧
      ((stateMess tenDotSender.1 tenDotSender.2).Keeps .little (StateMess.read tenDotReceiver.word) ↔
        ∀ addr ∈ (stateMess tenDotSender.1 tenDotSender.2).addresses, Palindrome addr) :=
  (mixedOrder_keeps_iff .little tenDotSender.1 tenDotReceiver rfl).1 tenDotSender.2
    ⟨by decide, by decide, by decide, fun _ => (⟨by decide, by decide⟩ : IsInt claimed)⟩
    (by decide) (holds_flipped rfl)

/-- The receiver takes 10.0.0.1 for 1.0.0.10, which is not in its table. -/
theorem tenDot_reversed :
    ¬ (stateMess tenDotSender.1 tenDotSender.2).Keeps .little
      (StateMess.read tenDotReceiver.word) := by
  intro h
  have hReal := h.realAddress
  unfold SameAddress at hReal
  revert hReal
  decide +kernel

end Wackamole
