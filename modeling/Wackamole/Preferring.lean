import Wackamole.Overlap
import Wackamole.Library.MaskedCounting

/-! `Prefer` with a block of addresses: its two spellings, and the loops that append the
addresses to `Prefer_address`. -/
namespace Wackamole

open HostWords MaskedCounting

/-- `add_prefer`. -/
def addPrefer (prefer : List Address) (addr : Address) : List Address :=
  if maxPseudo ≤ prefer.length then prefer else prefer ++ [addr]

/-- `Prefer if:a/m`, and `Prefer { if:a/m }` with any number of blocks in the braces. -/
inductive Spelling where
  | setting
  | braces
  deriving DecidableEq

/-- The mask of a block. Only one of the spellings has it in network byte order. -/
def Spelling.mask (o : ByteOrder) (m : Nat) : Spelling → Word
  | setting => ntohl o (prefixMask (32 - m))
  | braces => prefixMask (32 - m)

/-- The loop of both spellings. It ends when `sAddr` leaves the block of `addr`. -/
def preferLoop (mask addr : Address) : Nat → Address → List Address → Option (List Address)
  | 0, _, _ => none
  | fuel + 1, sAddr, prefer =>
    if addr &&& mask = sAddr &&& mask then
      preferLoop mask addr fuel (sAddr + 1#32) (addPrefer prefer sAddr)
    else some prefer

/-- The action for the block `a/m`, with a bound on the passes of its loop. -/
def expandPrefer (o : ByteOrder) (spelling : Spelling) (a : Address) (m : Nat)
    (prefer : List Address) (fuel : Nat) : Option (List Address) :=
  let mask := spelling.mask o m
  let addr := a &&& mask
  preferLoop mask addr fuel addr prefer

/-- The loop terminates with this `Prefer_address`. -/
def Expands (o : ByteOrder) (spelling : Spelling) (a : Address) (m : Nat)
    (prefer result : List Address) : Prop :=
  ∃ steps, ∀ more, expandPrefer o spelling a m prefer (steps + more) = some result

/-- The addresses of the block `a/m` in increasing order. -/
def block (o : ByteOrder) (a : Address) (m : Nat) : List Address :=
  (List.range (2 ^ (32 - m))).map fun k =>
    ntohl o ((ntohl o a &&& prefixMask (32 - m)) + BitVec.ofNat 32 k)

/-- Both spellings append the addresses of the block, as far as there is room for them. -/
def PrefersBlock (o : ByteOrder) (a : Address) (m : Nat) (prefer : List Address) : Prop :=
  ∀ spelling, Expands o spelling a m prefer
    (prefer ++ (block o a m).take (maxPseudo - prefer.length))

theorem foldl_addPrefer (words prefer : List Address) :
    words.foldl addPrefer prefer = prefer ++ words.take (maxPseudo - prefer.length) := by
  induction words generalizing prefer with
  | nil => simp
  | cons w words ih =>
      rw [List.foldl_cons, ih, addPrefer]
      split_ifs with hFull
      · rw [Nat.sub_eq_zero_of_le hFull, List.take_zero, List.take_zero]
      · obtain ⟨room, hRoom⟩ : ∃ room, maxPseudo - prefer.length = room + 1 :=
          ⟨maxPseudo - prefer.length - 1, by omega⟩
        have hLeft : maxPseudo - (prefer ++ [w]).length = room := by
          rw [List.length_append, List.length_singleton]
          omega
        rw [hRoom, hLeft, List.take_succ_cons, List.append_assoc, List.singleton_append]

/-- The words from `base` on that a loop counts through when the lowest bit of its mask
is `p`. -/
def counted (base : Word) (p : Nat) : List Word :=
  (List.range (2 ^ p)).map fun k => base + BitVec.ofNat 32 k

section Loop

variable {mask base : Word} {p : Nat} (hp : LowestBit mask p) (hBase : base &&& mask = base)

include hp hBase

theorem preferLoop_eq {k : Nat} (hk : k ≤ 2 ^ p) (prefer : List Address) (more : Nat) :
    preferLoop mask base (2 ^ p - k + 1 + more) (base + BitVec.ofNat 32 k) prefer =
      some (((List.range' k (2 ^ p - k)).map fun k => base + BitVec.ofNat 32 k).foldl
        addPrefer prefer) := by
  induction hLeft : 2 ^ p - k generalizing k prefer with
  | zero =>
      obtain rfl : k = 2 ^ p := by omega
      rw [show 0 + 1 + more = more + 1 by omega, preferLoop, hBase,
        if_neg (Ne.symm (add_twoPow_and_mask hp))]
      rfl
  | succ left ih =>
      have hNext : base + BitVec.ofNat 32 k + 1#32 = base + BitVec.ofNat 32 (k + 1) := by
        rw [BitVec.add_assoc, ← BitVec.ofNat_add]
      rw [show left + 1 + 1 + more = (left + 1 + more) + 1 by omega, preferLoop, hBase,
        if_pos (add_and_mask hp hBase (by omega)).symm, hNext, ih (by omega) _ (by omega)]
      rfl

end Loop

section Spellings

variable {o : ByteOrder} {spelling : Spelling} {a : Address} {m : Nat} {prefer : List Address}

theorem Expands.unique {result result' : List Address}
    (h : Expands o spelling a m prefer result) (h' : Expands o spelling a m prefer result') :
    result = result' := by
  obtain ⟨steps, hSteps⟩ := h
  obtain ⟨steps', hSteps'⟩ := h'
  have hSame := hSteps' steps
  rw [Nat.add_comm, hSteps steps'] at hSame
  exact Option.some.inj hSame

theorem expands_counted {p : Nat} (hp : LowestBit (spelling.mask o m) p) :
    Expands o spelling a m prefer
      (prefer ++ (counted (a &&& spelling.mask o m) p).take (maxPseudo - prefer.length)) := by
  have hBase : a &&& spelling.mask o m &&& spelling.mask o m = a &&& spelling.mask o m := by
    rw [BitVec.and_assoc, BitVec.and_self]
  refine ⟨2 ^ p + 1, fun more => ?_⟩
  have hLoop := preferLoop_eq hp hBase (Nat.zero_le _) prefer more
  rw [BitVec.add_zero, Nat.sub_zero, ← List.range_eq_range',
    foldl_addPrefer] at hLoop
  exact hLoop

/-- What a spelling has to append for its part of the promise. -/
theorem expands_block_iff {p : Nat} (hp : LowestBit (spelling.mask o m) p) :
    Expands o spelling a m prefer (prefer ++ (block o a m).take (maxPseudo - prefer.length)) ↔
      (counted (a &&& spelling.mask o m) p).take (maxPseudo - prefer.length) =
        (block o a m).take (maxPseudo - prefer.length) := by
  constructor
  · exact fun h => List.append_cancel_left ((expands_counted hp).unique h)
  · exact fun h => h ▸ expands_counted hp

end Spellings

@[simp] theorem length_counted (base : Word) (p : Nat) : (counted base p).length = 2 ^ p := by
  simp [counted]

/-- The first words that a loop appends. -/
theorem counted_zero (base : Word) (p : Nat) : (counted base p)[0]? = some base := by
  rw [counted, List.getElem?_map, List.getElem?_range (Nat.two_pow_pos p), Option.map_some,
    BitVec.add_zero]

theorem counted_one {base w : Word} {p : Nat} (h : (counted base p)[1]? = some w) :
    w = base + 1#32 := by
  rw [counted, List.getElem?_map, Option.map_eq_some_iff] at h
  obtain ⟨k, hk, rfl⟩ := h
  obtain ⟨_, rfl⟩ := List.getElem?_eq_some_iff.mp hk
  rw [List.getElem_range]

theorem take_one {words : List Word} {w : Word} (h : words[0]? = some w) : words.take 1 = [w] := by
  cases words with
  | nil => cases h
  | cons w' words =>
      cases h
      rfl

section Block

variable {o : ByteOrder} {a : Address} {m : Nat}

theorem block_zero : (block o a m)[0]? = some (a &&& ntohl o (prefixMask (32 - m))) := by
  rw [block, List.getElem?_map, List.getElem?_range (Nat.two_pow_pos _), Option.map_some,
    BitVec.add_zero, ntohl_and, ntohl_ntohl]

/-- The block is the set of addresses whose network is that of `a`. -/
theorem mem_block {x : Address} : x ∈ block o a m ↔
    x &&& ntohl o (prefixMask (32 - m)) = a &&& ntohl o (prefixMask (32 - m)) := by
  have hk : 32 - m ≤ 32 := Nat.sub_le 32 m
  have hFirst : rangeFirst o a (ntohl o (prefixMask (32 - m))) =
      (ntohl o a &&& prefixMask (32 - m)).toNat := by
    rw [rangeFirst, ntohl_and, ntohl_ntohl]
  have hLast : rangeLast o a (ntohl o (prefixMask (32 - m))) =
      (ntohl o a &&& prefixMask (32 - m)).toNat + (2 ^ (32 - m) - 1) := by
    rw [rangeLast, ntohl_or, ntohl_not, ntohl_ntohl, toNat_or_not_prefixMask _ hk,
      toNat_and_prefixMask]
  have hPos := Nat.two_pow_pos (32 - m)
  have hBound : rangeLast o a (ntohl o (prefixMask (32 - m))) < 2 ^ 32 := BitVec.isLt _
  rw [← covers_iff_masked o hk (ntohl_ntohl o _), Covers, hLast, hFirst, block, List.mem_map]
  rw [hLast] at hBound
  constructor
  · rintro ⟨k, hk, rfl⟩
    rw [List.mem_range] at hk
    rw [ntohl_ntohl, BitVec.toNat_add, BitVec.toNat_ofNat, Nat.mod_eq_of_lt (a := k) (by omega),
      Nat.mod_eq_of_lt (by omega)]
    omega
  · rintro ⟨hLow, hHigh⟩
    refine ⟨(ntohl o x).toNat - (ntohl o a &&& prefixMask (32 - m)).toNat,
      List.mem_range.mpr (by omega), ?_⟩
    have hSum : (ntohl o a &&& prefixMask (32 - m)) + BitVec.ofNat 32
        ((ntohl o x).toNat - (ntohl o a &&& prefixMask (32 - m)).toNat) = ntohl o x := by
      have hOffset : (ntohl o x).toNat - (ntohl o a &&& prefixMask (32 - m)).toNat < 2 ^ 32 := by
        omega
      apply BitVec.eq_of_toNat_eq
      rw [BitVec.toNat_add, BitVec.toNat_ofNat, Nat.mod_eq_of_lt hOffset, Nat.add_sub_cancel' hLow,
        Nat.mod_eq_of_lt (BitVec.isLt _)]
    rw [hSum, ntohl_ntohl]

theorem lowestBit_prefixMask (hm : 1 ≤ m) : LowestBit (prefixMask (32 - m)) (32 - m) where
  set := by
    simp [BitVec.getLsbD_shiftLeft]
    omega
  below j hj := by simp [BitVec.getLsbD_shiftLeft, hj]

end Block

theorem getLsbD_swap_zero (w : Word) : (swap w).getLsbD 0 = w.getLsbD 24 := by
  rw [swap, join, BitVec.getLsbD_append]
  simp [byte]

/-- On a little-endian host the second address of a block is not the next word. -/
theorem swap_succ_ne {w : Word} (h : w.getLsbD 0 = false) : swap (w + 1#32) ≠ swap w + 1#32 := by
  intro hEq
  have hDisjoint : w &&& 1#32 = 0#32 := by
    rw [BitVec.and_one_eq_setWidth_ofBool_getLsbD, h]
    rfl
  have hBit := congrArg (fun w : Word => w.getLsbD 0) hEq
  have hSame : (w + 1#32).getLsbD 24 = w.getLsbD 24 := by
    rw [BitVec.add_eq_or_of_and_eq_zero _ _ hDisjoint, BitVec.getLsbD_or]
    simp
  simp only [getLsbD_swap_zero, hSame, BitVec.getLsbD_add (show 0 < 32 by decide),
    BitVec.carry_zero] at hBit
  simp at hBit

section Blocks

variable {o : ByteOrder} {a : Address} {m : Nat} {prefer : List Address}

theorem mask_ne_zero (hm : 1 ≤ m) (o : ByteOrder) (spelling : Spelling) :
    spelling.mask o m ≠ 0#32 := by
  have hPrefix : prefixMask (32 - m) ≠ 0#32 := by
    intro hZero
    have hSet := (lowestBit_prefixMask hm).set
    rw [hZero, BitVec.getLsbD_zero] at hSet
    cases hSet
  cases spelling with
  | braces => exact hPrefix
  | setting =>
      intro hZero
      have hBack := congrArg (ntohl o) hZero
      rw [Spelling.mask, ntohl_ntohl] at hBack
      refine hPrefix (hBack.trans ?_)
      cases o <;> decide

/-- The loops terminate on every block. -/
theorem exists_expands (hm : 1 ≤ m) (spelling : Spelling) :
    ∃ result, Expands o spelling a m prefer result := by
  obtain ⟨p, hp⟩ := exists_lowestBit (mask_ne_zero hm o spelling)
  exact ⟨_, expands_counted hp⟩

theorem prefersBlock_big (hm : 1 ≤ m) : PrefersBlock .big a m prefer := by
  intro spelling
  have hp : LowestBit (spelling.mask .big m) (32 - m) := by
    cases spelling <;> exact lowestBit_prefixMask hm
  refine (expands_block_iff hp).mpr ?_
  cases spelling <;> rfl

theorem prefersBlock_address : PrefersBlock o a 32 prefer := by
  intro spelling
  have hMask : spelling.mask o 32 = BitVec.allOnes 32 := by
    cases spelling <;> cases o <;> decide
  have hp : LowestBit (spelling.mask o 32) 0 := by
    rw [hMask]
    exact ⟨by decide, fun j hj => absurd hj (Nat.not_lt_zero j)⟩
  refine (expands_block_iff hp).mpr ?_
  have hAll : prefixMask 0 = BitVec.allOnes 32 := by decide
  have hBlock : block o a 32 = [a] := by
    change [ntohl o ((ntohl o a &&& prefixMask 0) + 0#32)] = [a]
    rw [hAll, BitVec.and_allOnes, BitVec.add_zero, ntohl_ntohl]
  have hCounted : counted (a &&& spelling.mask o 32) 0 = [a] := by
    change [(a &&& spelling.mask o 32) + 0#32] = [a]
    rw [hMask, BitVec.and_allOnes, BitVec.add_zero]
  rw [hBlock, hCounted]

theorem prefersBlock_full (hm : 1 ≤ m) (hFull : maxPseudo ≤ prefer.length) :
    PrefersBlock o a m prefer := by
  intro spelling
  obtain ⟨p, hp⟩ := exists_lowestBit (mask_ne_zero hm o spelling)
  refine (expands_block_iff hp).mpr ?_
  rw [Nat.sub_eq_zero_of_le hFull, List.take_zero, List.take_zero]

/-- With room for one address only the first address of the block counts. -/
theorem prefersBlock_one_iff (hm : 1 ≤ m) (hOne : maxPseudo - prefer.length = 1) :
    PrefersBlock o a m prefer ↔
      a &&& prefixMask (32 - m) = a &&& ntohl o (prefixMask (32 - m)) := by
  have hExpands (spelling : Spelling) :
      Expands o spelling a m prefer (prefer ++ (block o a m).take (maxPseudo - prefer.length)) ↔
        a &&& spelling.mask o m = a &&& ntohl o (prefixMask (32 - m)) := by
    obtain ⟨p, hp⟩ := exists_lowestBit (mask_ne_zero hm o spelling)
    rw [expands_block_iff hp, hOne, take_one (counted_zero _ p), take_one block_zero,
      List.singleton_inj]
  constructor
  · exact fun h => (hExpands .braces).mp (h .braces)
  · intro h spelling
    cases spelling with
    | setting => exact (hExpands .setting).mpr rfl
    | braces => exact (hExpands .braces).mpr h

theorem not_prefersBlock_little (hm : 1 ≤ m) (hShort : m < 32)
    (hRoom : 1 < maxPseudo - prefer.length) : ¬ PrefersBlock .little a m prefer := by
  intro h
  obtain ⟨p, hp⟩ := exists_lowestBit (mask_ne_zero hm .little .setting)
  have hTake := congrArg (·[1]?) ((expands_block_iff hp).mp (h .setting))
  have hTwo : 1 < 2 ^ (32 - m) := Nat.one_lt_two_pow (by omega)
  have hSecond : (block .little a m)[1]? =
      some (swap ((swap a &&& prefixMask (32 - m)) + 1#32)) := by
    rw [block, List.getElem?_map, List.getElem?_range hTwo]
    rfl
  simp only [List.getElem?_take, if_pos hRoom, hSecond] at hTake
  have hNext := counted_one hTake
  refine swap_succ_ne ?_ (hNext.trans ?_)
  · have hBelow := (lowestBit_prefixMask hm).below 0 (show 0 < 32 - m by omega)
    rw [BitVec.getLsbD_and, hBelow, Bool.and_false]
  · rw [swap_and, swap_swap]
    rfl

/-- Both spellings expand a block to its addresses exactly on big-endian hosts, for single
addresses, and where at most its first address has room and is hit. -/
theorem prefersBlock_iff (hm : 1 ≤ m) (hm' : m ≤ 32) : PrefersBlock o a m prefer ↔
    o = .big ∨ m = 32 ∨ maxPseudo ≤ prefer.length ∨
      (prefer.length + 1 = maxPseudo ∧
        a &&& prefixMask (32 - m) = a &&& ntohl o (prefixMask (32 - m))) := by
  constructor
  · intro h
    by_contra hNot
    simp only [not_or] at hNot
    obtain ⟨hLittle, hShort, hRoom, hOne⟩ := hNot
    obtain rfl : o = .little := by
      cases o with
      | little => rfl
      | big => exact absurd rfl hLittle
    by_cases hLast : prefer.length + 1 = maxPseudo
    · exact hOne ⟨hLast, (prefersBlock_one_iff hm (by omega)).mp h⟩
    · exact not_prefersBlock_little hm (by omega) (by omega) h
  · rintro (rfl | rfl | hFull | ⟨hLast, hSame⟩)
    · exact prefersBlock_big hm
    · exact prefersBlock_address
    · exact prefersBlock_full hm hFull
    · exact (prefersBlock_one_iff hm (by omega)).mpr hSame

/-- The address 10.0.0.1 alone. -/
theorem prefersBlock_single : PrefersBlock .little 0x0100000a#32 32 [] :=
  (prefersBlock_iff (by decide) (by decide)).mpr (.inr (.inl rfl))

/-- Of 10.0.0.0/30, a little-endian host prefers one address only. -/
theorem not_prefersBlock_of_four : ¬ PrefersBlock .little 0x0000000a#32 30 [] :=
  not_prefersBlock_little (by decide) (by decide) (by decide)

end Blocks

end Wackamole
