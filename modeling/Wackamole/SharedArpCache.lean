import Wackamole.Spoofing
import Wackamole.Library.SortedCells

/-! `abt.c` and its use in `arpcache.c`: the ARP entries shared by the members of a view, in an
array sorted by address. -/
namespace Wackamole

open SortedCells

/-- An element that `add_abt` reads or writes, and the space that the array had then. -/
structure Access where
  index : Int
  space : Nat
  deriving DecidableEq

def Access.InBounds (a : Access) : Prop := 0 ≤ a.index ∧ a.index < a.space

instance : DecidablePred Access.InBounds := fun _ => inferInstanceAs (Decidable (_ ∧ _))

/-- An `abt`. The memory goes on beyond the array on either side; `data` is all of it, as seen
from the pointer. -/
structure Abt where
  size : Nat
  space : Nat
  data : Int → ArpEntry

/-- `new_abt`, with what is in the block that it gets. -/
def newAbt (heap : Int → ArpEntry) : Abt := ⟨0, 128, heap⟩

/-- How the loop of `add_abt` ends: at an element with the same address or without one, with
the bound `l` that it leaves behind, and with the elements that it has looked at. -/
structure Search where
  found : Option Int
  l : Int
  reads : List Int

/-- An element is looked at before the rest of the loop. -/
def Search.look (c : Int) (s : Search) : Search := { s with reads := c :: s.reads }

/-- The loop of `add_abt`. -/
def Abt.search (h : Abt) (ip : Address) (f l : Int) : Search :=
  if f ≤ l then
    let c := f + (l - f) / 2
    if c = h.size then ⟨none, l, []⟩
    else if (h.data c).ip = ip then ⟨some c, l, [c]⟩
    else if (h.data c).ip > ip then (h.search ip f (c - 1)).look c
    else (h.search ip (c + 1) l).look c
  else ⟨none, l, []⟩
termination_by (l - f + 1).toNat
decreasing_by all_goals omega

/-- `h->size++` and the growth after it. `realloc` keeps the elements of the array; the rest of
the new block is whatever it holds. -/
def Abt.grow (heap : Int → ArpEntry) (h : Abt) : Abt :=
  if h.size + 1 = h.space then
    ⟨h.size + 1, h.space * 2, fun i => if 0 ≤ i ∧ i < h.space then h.data i else heap i⟩
  else { h with size := h.size + 1 }

/-- The end of `add_abt` for a new address: append, or make room and insert. The move takes
`size - l` elements from `l` on. -/
def Abt.insert (toadd : ArpEntry) (l : Int) (h : Abt) : Abt × List Int :=
  if l = h.size - 1 then ({ h with data := Function.update h.data l toadd }, [l])
  else
    let place := if toadd.ip > (h.data l).ip then l + 1 else l
    let moved := fun i => if place + 1 ≤ i ∧ i < h.size + 1 then h.data (i - 1) else h.data i
    ({ h with data := Function.update moved place toadd },
      l :: (List.range (h.size + 1 - place).toNat).map fun k : Nat => place + k)

/-- `add_abt`. -/
def addAbt (heap : Int → ArpEntry) (toadd : ArpEntry) (h : Abt) : Abt × List Access :=
  let s := h.search toadd.ip 0 h.size
  let reads := s.reads.map (⟨·, h.space⟩)
  match s.found with
  | some c => ({ h with data := Function.update h.data c toadd }, reads ++ [⟨c, h.space⟩])
  | none =>
    let (h, touched) := (h.grow heap).insert toadd s.l
    (h, reads ++ touched.map (⟨·, h.space⟩))

/-- `insert_arp_cache_shared`. -/
def insertArpCacheShared (heap : Int → ArpEntry) (a : ArpEntry) (shared : Option Abt) :
    Abt × List Access :=
  addAbt heap a (shared.getD (newAbt heap))

/-- A sequence of calls, each with what is in the block that it may get. -/
def insertAll (calls : List (ArpEntry × (Int → ArpEntry))) : Option Abt × List Access :=
  calls.foldl (fun (shared, accesses) (a, heap) =>
    let (h, more) := insertArpCacheShared heap a shared
    (some h, accesses ++ more)) (none, [])

/-- `fetch_shared_arp_cache`, up to the zero at its end. -/
def Abt.entries (h : Abt) : List ArpEntry := (List.range h.size).map fun i : Nat => h.data i

/-- The hardware address that was inserted last for an address. -/
def latest (es : List ArpEntry) (ip : Address) : Option (BitVec 48) :=
  (es.reverse.find? fun e => e.ip = ip).map ArpEntry.mac

theorem latest_snoc (es : List ArpEntry) (a : ArpEntry) (ip : Address) :
    latest (es ++ [a]) ip = if a.ip = ip then some a.mac else latest es ip := by
  unfold latest
  rw [List.reverse_append, List.reverse_singleton, List.singleton_append, List.find?_cons]
  by_cases h : a.ip = ip <;> simp [h]

/-- Addresses are compared as unsigned integers. -/
def ArpEntry.key (e : ArpEntry) : Nat := e.ip.toNat

/-- The array is a sorted map of the entries. -/
structure Abt.IsMap (es : List ArpEntry) (h : Abt) : Prop where
  sorted : Sorted ArpEntry.key h.size h.data
  contents : ∀ e, SortedCells.Holds h.size h.data e ↔ latest es e.ip = some e.mac

namespace Abt

variable {h : Abt} {ip : Address}

/-- What the loop has established when the bounds are `f` and `l`. -/
structure Between (h : Abt) (ip : Address) (f l : Int) : Prop where
  nonneg : 0 ≤ f
  le_succ : f ≤ l + 1
  first_le : f ≤ h.size
  last_le : l ≤ h.size
  nonempty : l < h.size → 0 < h.size
  below : ∀ i, 0 ≤ i → i < f → (h.data i).key < ip.toNat
  above : ∀ i, l < i → i < h.size → ip.toNat < (h.data i).key

theorem Between.start (h : Abt) (ip : Address) : h.Between ip 0 h.size where
  nonneg := le_rfl
  le_succ := by omega
  first_le := by omega
  last_le := le_rfl
  nonempty := by omega
  below i hi hi' := absurd hi' (not_lt.mpr hi)
  above i hi hi' := absurd hi' hi.not_gt

/-- Where the element in the middle is larger, the search goes on below it. -/
theorem Between.down (hSorted : Sorted ArpEntry.key h.size h.data) {f l c : Int}
    (hBetween : h.Between ip f l) (hfc : f ≤ c) (hc : c < h.size)
    (hMore : ip.toNat < (h.data c).key) : h.Between ip f (c - 1) where
  nonneg := hBetween.nonneg
  le_succ := by omega
  first_le := hBetween.first_le
  last_le := by omega
  nonempty _ := by
    have hNonneg := hBetween.nonneg
    omega
  below := hBetween.below
  above i hi hi' := by
    rcases eq_or_lt_of_le (show c ≤ i by omega) with rfl | hci
    · exact hMore
    · exact hMore.trans (hSorted c i (hBetween.nonneg.trans hfc) hci hi')

/-- Where it is smaller, the search goes on above it. -/
theorem Between.up (hSorted : Sorted ArpEntry.key h.size h.data) {f l c : Int}
    (hBetween : h.Between ip f l) (hfc : f ≤ c) (hcl : c ≤ l) (hc : c < h.size)
    (hLess : (h.data c).key < ip.toNat) : h.Between ip (c + 1) l where
  nonneg := by
    have hNonneg := hBetween.nonneg
    omega
  le_succ := by omega
  first_le := by omega
  last_le := hBetween.last_le
  nonempty := hBetween.nonempty
  below i hi hi' := by
    rcases eq_or_lt_of_le (show i ≤ c by omega) with rfl | hic
    · exact hLess
    · exact (hSorted i c hi hic hc).trans hLess
  above := hBetween.above

/-- The loop looks only at elements of the array. It ends at the address, or with the place
for it: at the end, or just after `l`. -/
theorem search_spec (hSorted : Sorted ArpEntry.key h.size h.data) {f l : Int}
    (hBetween : h.Between ip f l) :
    (∀ i ∈ (h.search ip f l).reads, 0 ≤ i ∧ i < h.size) ∧
    match (h.search ip f l).found with
    | some c => 0 ≤ c ∧ c < h.size ∧ (h.data c).ip = ip
    | none => (h.search ip f l).l = h.size ∧ Place ArpEntry.key h.size h.data ip.toNat h.size ∨
        ((h.search ip f l).l < h.size ∧ 0 < h.size) ∧
          Place ArpEntry.key h.size h.data ip.toNat ((h.search ip f l).l + 1) := by
  fun_induction Abt.search h ip f l with
  | case1 f l hle c hEnd =>
      have hFirst := hBetween.first_le
      have hLast := hBetween.last_le
      refine ⟨fun i hi => absurd hi List.not_mem_nil, .inl ⟨show l = (h.size : Int) by omega, ?_⟩⟩
      exact ⟨by omega, le_rfl, fun i hi hi' => hBetween.below i hi (by omega),
        fun i hi hi' => absurd hi' (by omega)⟩
  | case2 f l hle c hc hEq =>
      have hNonneg := hBetween.nonneg
      have hFirst := hBetween.first_le
      have hLast := hBetween.last_le
      refine ⟨fun i hi => ?_, by omega, by omega, hEq⟩
      obtain rfl := List.mem_singleton.mp hi
      omega
  | case3 f l hle c hc hNe hMore ih =>
      have hNonneg := hBetween.nonneg
      have hFirst := hBetween.first_le
      have hLast := hBetween.last_le
      have hRest := ih (hBetween.down hSorted (by omega) (by omega) hMore)
      refine ⟨fun i hi => ?_, hRest.2⟩
      rcases List.mem_cons.mp hi with rfl | hi
      · omega
      · exact hRest.1 i hi
  | case4 f l hle c hc hNe hNotMore ih =>
      have hNonneg := hBetween.nonneg
      have hFirst := hBetween.first_le
      have hLast := hBetween.last_le
      have hLess : (h.data c).key < ip.toNat :=
        lt_of_le_of_ne (not_lt.mp hNotMore) fun hEq => hNe (BitVec.eq_of_toNat_eq hEq)
      have hRest := ih (hBetween.up hSorted (by omega) (by omega) (by omega) hLess)
      refine ⟨fun i hi => ?_, hRest.2⟩
      rcases List.mem_cons.mp hi with rfl | hi
      · omega
      · exact hRest.1 i hi
  | case5 f l hle =>
      have hNonneg := hBetween.nonneg
      have hSucc := hBetween.le_succ
      have hFirst := hBetween.first_le
      have hSome := hBetween.nonempty
      refine ⟨fun i hi => absurd hi List.not_mem_nil, ?_⟩
      have hPlace : Place ArpEntry.key h.size h.data ip.toNat (l + 1) :=
        ⟨by omega, by omega, fun i hi hi' => hBetween.below i hi (by omega),
          fun i hi hi' => hBetween.above i (by omega) hi'⟩
      exact .inr ⟨⟨show l < (h.size : Int) by omega, hSome (by omega)⟩, hPlace⟩

theorem grow_size (heap : Int → ArpEntry) (h : Abt) : (h.grow heap).size = h.size + 1 := by
  unfold grow
  split_ifs <;> rfl

/-- There is room for one more element than there are. -/
theorem grow_space (heap : Int → ArpEntry) (hSpace : h.size < h.space) :
    h.size + 1 < (h.grow heap).space := by
  unfold grow
  split_ifs with hFull
  · change h.size + 1 < h.space * 2
    omega
  · change h.size + 1 < h.space
    omega

theorem grow_data (heap : Int → ArpEntry) (h : Abt) {i : Int} (hi : 0 ≤ i) (hi' : i < h.space) :
    (h.grow heap).data i = h.data i := by
  unfold grow
  split_ifs
  · exact if_pos ⟨hi, hi'⟩
  · rfl

/-- Where the loop ends for an address that is not there and not below all others. -/
structure Ends (h : Abt) (l p : Int) : Prop where
  nonneg : 0 ≤ l
  ends : l = h.size ∧ p = h.size ∨ l < h.size ∧ p = l + 1

/-- With room after the array, the end of `add_abt` puts the entry into its place, and it
stays within the room. -/
theorem insert_spec (heap : Int → ArpEntry) {a : ArpEntry} {l p : Int} (hSpace : h.size < h.space)
    (hEnds : h.Ends l p) (hPlace : Place ArpEntry.key h.size h.data a.key p) :
    ((h.grow heap).insert a l).1.size = h.size + 1 ∧
    ((h.grow heap).insert a l).1.space = (h.grow heap).space ∧
    (∀ i : Int, 0 ≤ i → i < h.size + 1 →
      ((h.grow heap).insert a l).1.data i = insertAt h.data p a i) ∧
    ∀ i ∈ ((h.grow heap).insert a l).2, 0 ≤ i ∧ i < h.size + 2 := by
  have hSize := grow_size heap h
  have hData {i : Int} (hi : 0 ≤ i) (hi' : i < h.size) : (h.grow heap).data i = h.data i :=
    grow_data heap h hi (by omega)
  have hNonneg := hEnds.nonneg
  generalize h.grow heap = g at hSize hData ⊢
  unfold Abt.insert
  rcases hEnds.ends with ⟨hl, hp⟩ | ⟨hl, hp⟩
  · rw [if_pos (by omega)]
    refine ⟨hSize, rfl, fun i hi hi' => ?_, fun i hi => ?_⟩
    · by_cases hil : i = l
      · simp [insertAt, hil, hl, hp]
      · have hBefore : i < p := by omega
        simp only [insertAt, if_pos hBefore]
        rw [Function.update_of_ne hil, hData hi (by omega)]
    · obtain rfl := List.mem_singleton.mp hi
      omega
  · have hBelow : a.ip > (g.data l).ip := by
      rw [hData hNonneg hl]
      exact hPlace.below l hNonneg (by omega)
    rw [if_neg (by omega), if_pos hBelow, ← hp]
    refine ⟨hSize, rfl, fun i hi hi' => ?_, fun i hi => ?_⟩
    · by_cases hip : i = p
      · simp [insertAt, hip]
      · dsimp only [insertAt]
        rw [Function.update_of_ne hip, if_neg hip]
        by_cases hBefore : i < p
        · rw [if_pos hBefore, if_neg (by omega), hData hi (by omega)]
        · rw [if_neg hBefore, if_pos (by omega), hData (by omega) (by omega)]
    · rcases List.mem_cons.mp hi with rfl | hi
      · omega
      · obtain ⟨k, hk, rfl⟩ := List.mem_map.mp hi
        have hk := List.mem_range.mp hk
        omega

/-- The invariant of the shared array: a sorted map with room after it. -/
structure Inv (es : List ArpEntry) (h : Abt) : Prop where
  isMap : h.IsMap es
  space : h.size < h.space

theorem Inv.new (heap : Int → ArpEntry) : (newAbt heap).Inv [] where
  isMap :=
    { sorted := fun i j hi hij hj => absurd (hi.trans hij.le) (not_le.mpr hj)
      contents := fun e => by
        constructor
        · rintro ⟨i, hi, hi', -⟩
          exact absurd hi (not_le.mpr hi')
        · intro hLatest
          cases hLatest }
  space := (by decide : 0 < 128)

variable {es : List ArpEntry} {a : ArpEntry}

/-- An entry with a new key, or in place of the one with its key. -/
theorem IsMap.snoc {h' : Abt} (hMap : h.IsMap es) (hSorted : Sorted ArpEntry.key h'.size h'.data)
    (hHolds : ∀ e, SortedCells.Holds h'.size h'.data e ↔
      e = a ∨ SortedCells.Holds h.size h.data e ∧ e.key ≠ a.key) : h'.IsMap (es ++ [a]) where
  sorted := hSorted
  contents e := by
    have hKey : e.key = a.key ↔ a.ip = e.ip :=
      ⟨fun hEq => (BitVec.eq_of_toNat_eq hEq).symm, fun hEq => congrArg BitVec.toNat hEq.symm⟩
    rw [hHolds, latest_snoc, hMap.contents, ne_eq, hKey]
    by_cases hip : a.ip = e.ip
    · rw [if_pos hip]
      constructor
      · rintro (rfl | ⟨-, hNot⟩)
        · rfl
        · exact absurd hip hNot
      · intro hMac
        refine .inl ?_
        cases a
        cases e
        cases hip
        cases hMac
        rfl
    · rw [if_neg hip]
      constructor
      · rintro (rfl | ⟨hLatest, -⟩)
        · exact absurd rfl hip
        · exact hLatest
      · exact fun hLatest => .inr ⟨hLatest, hip⟩

/-- The address is not below all others. -/
def Fits (h : Abt) (a : ArpEntry) : Prop := h.size = 0 ∨ (h.data 0).key ≤ a.key

theorem addAbt_fits (heap : Int → ArpEntry) (hInv : h.Inv es) (hFits : h.Fits a) :
    (addAbt heap a h).1.Inv (es ++ [a]) ∧ (∀ access ∈ (addAbt heap a h).2, access.InBounds) ∧
      ((addAbt heap a h).1.data 0).key = if h.size = 0 then a.key else (h.data 0).key := by
  have hSpace := hInv.space
  obtain ⟨hReads, hEnd⟩ := search_spec hInv.isMap.sorted (Between.start h a.ip)
  have hLooked : ∀ access ∈ (h.search a.ip 0 h.size).reads.map (⟨·, h.space⟩ : Int → Access),
      access.InBounds := by
    intro access hMem
    obtain ⟨i, hi, rfl⟩ := List.mem_map.mp hMem
    obtain ⟨hi, hi'⟩ := hReads i hi
    exact ⟨hi, show i < (h.space : Int) by omega⟩
  unfold addAbt
  dsimp only
  cases hFound : (h.search a.ip 0 h.size).found with
  | some c =>
      dsimp only
      rw [hFound] at hEnd
      obtain ⟨hc, hc', hip⟩ := hEnd
      have hKey : (h.data c).key = a.key := congrArg BitVec.toNat hip
      refine ⟨⟨hInv.isMap.snoc (hInv.isMap.sorted.update hKey)
        (holds_update hInv.isMap.sorted hc hc' hKey), hSpace⟩, fun access hMem => ?_, ?_⟩
      · rcases List.mem_append.mp hMem with hMem | hMem
        · exact hLooked access hMem
        · obtain rfl := List.mem_singleton.mp hMem
          exact ⟨hc, show c < (h.space : Int) by omega⟩
      · rw [if_neg (by omega)]
        by_cases hFirst : 0 = c
        · rw [← hFirst, Function.update_self, hFirst, hKey]
        · rw [Function.update_of_ne hFirst]
  | none =>
      dsimp only
      rw [hFound] at hEnd
      obtain ⟨p, hEnds, hPlace⟩ : ∃ p, h.Ends (h.search a.ip 0 h.size).l p ∧
          Place ArpEntry.key h.size h.data a.key p := by
        rcases hEnd with ⟨hl, hPlace⟩ | ⟨⟨hl, hNonempty⟩, hPlace⟩
        · exact ⟨h.size, ⟨by omega, .inl ⟨hl, rfl⟩⟩, hPlace⟩
        · refine ⟨_, ⟨?_, .inr ⟨hl, rfl⟩⟩, hPlace⟩
          by_contra hNegative
          have hFirst := hPlace.above 0 (by omega) (by have := hPlace.nonneg; omega)
          rcases hFits with hEmpty | hAbove
          · have := hPlace.nonneg
            omega
          · exact absurd hAbove (not_le.mpr hFirst)
      obtain ⟨hSize, hRoom, hData, hTouched⟩ := insert_spec heap hSpace hEnds hPlace
      have hGrown := grow_space heap hSpace
      have hCast : (((h.grow heap).insert a (h.search a.ip 0 h.size).l).1.size : Int) =
          h.size + 1 := by rw [hSize]; rfl
      refine ⟨⟨hInv.isMap.snoc ?_ fun e => ?_, ?_⟩, fun access hMem => ?_, ?_⟩
      · rw [hCast]
        exact (hInv.isMap.sorted.insertAt hPlace).congr hData
      · rw [hCast, holds_congr hData]
        exact holds_insertAt hPlace e
      · rw [hSize, hRoom]
        exact hGrown
      · rcases List.mem_append.mp hMem with hMem | hMem
        · exact hLooked access hMem
        · obtain ⟨i, hi, rfl⟩ := List.mem_map.mp hMem
          obtain ⟨hi, hi'⟩ := hTouched i hi
          rw [hRoom]
          exact ⟨hi, show i < ((h.grow heap).space : Int) by omega⟩
      · rw [hData 0 le_rfl (by omega), insertAt]
        have hNonneg := hPlace.nonneg
        by_cases hEmpty : h.size = 0
        · have := hPlace.le_size
          rw [if_pos hEmpty, if_neg (by omega), if_pos (by omega)]
        · have hNotFirst : p ≠ 0 := by
            rintro rfl
            have hEnd := hEnds.ends
            have hl := hEnds.nonneg
            omega
          rw [if_neg hEmpty, if_pos (by omega)]

/-- An address below all others in an array that is not empty makes `add_abt` read the element
before the array. -/
theorem addAbt_below (heap : Int → ArpEntry) (hInv : h.Inv es) (hFits : ¬ h.Fits a) :
    ∃ access ∈ (addAbt heap a h).2, ¬ access.InBounds := by
  obtain ⟨hNonempty, hBelow⟩ := not_or.mp hFits
  have hFirst : a.key < (h.data 0).key := not_le.mp hBelow
  have hAll {i : Int} (hi : 0 ≤ i) (hi' : i < h.size) : a.key < (h.data i).key := by
    rcases hi.eq_or_lt with rfl | hPos
    · exact hFirst
    · exact hFirst.trans (hInv.isMap.sorted 0 i le_rfl hPos hi')
  have hEnd := (search_spec hInv.isMap.sorted (Between.start h a.ip)).2
  unfold addAbt
  dsimp only
  cases hFound : (h.search a.ip 0 h.size).found with
  | some c =>
      rw [hFound] at hEnd
      obtain ⟨hc, hc', hip⟩ := hEnd
      exact absurd (congrArg BitVec.toNat hip) (hAll hc hc').ne'
  | none =>
      rw [hFound] at hEnd
      have hLast : (h.search a.ip 0 h.size).l = -1 := by
        rcases hEnd with ⟨-, hPlace⟩ | ⟨-, hPlace⟩
        · exact absurd (hPlace.below 0 le_rfl (by omega)) hFirst.not_gt
        · have := hPlace.nonneg
          by_contra hNot
          exact absurd (hPlace.below 0 le_rfl (by omega)) hFirst.not_gt
      refine ⟨⟨-1, (h.grow heap).space⟩, List.mem_append_right _ ?_, fun hIn =>
        absurd (show (0 : Int) ≤ -1 from hIn.1) (by decide)⟩
      have hSize := grow_size heap h
      have hSame : ((h.grow heap).insert a (-1)).1.space = (h.grow heap).space := by
        unfold Abt.insert
        split_ifs <;> rfl
      rw [hLast, hSame]
      refine List.mem_map.mpr ⟨-1, ?_, rfl⟩
      unfold Abt.insert
      rw [if_neg (by omega)]
      exact List.mem_cons_self

theorem IsMap.size_pos (hMap : h.IsMap es) (hNonempty : es ≠ []) : 0 < h.size := by
  obtain ⟨before, last, rfl⟩ := (List.eq_nil_or_concat' es).resolve_left hNonempty
  have hLast : latest (before ++ [last]) last.ip = some last.mac := by rw [latest_snoc, if_pos rfl]
  obtain ⟨i, hi, hi', -⟩ := (hMap.contents last).mpr hLast
  omega

/-- The copy that a notifier gets holds the entries of the map. -/
theorem IsMap.mem_entries (hMap : h.IsMap es) (e : ArpEntry) :
    e ∈ h.entries ↔ latest es e.ip = some e.mac := by
  rw [← hMap.contents, entries, List.mem_map]
  constructor
  · rintro ⟨k, hk, rfl⟩
    exact ⟨k, Int.natCast_nonneg k, by exact_mod_cast List.mem_range.mp hk, rfl⟩
  · rintro ⟨i, hi, hi', rfl⟩
    refine ⟨i.toNat, List.mem_range.mpr (by omega), ?_⟩
    rw [Int.toNat_of_nonneg hi]

end Abt

section Run

variable {first call : ArpEntry × (Int → ArpEntry)} {rest : List (ArpEntry × (Int → ArpEntry))}

theorem insertAll_snoc (calls : List (ArpEntry × (Int → ArpEntry))) :
    insertAll (calls ++ [call]) =
      (some (insertArpCacheShared call.2 call.1 (insertAll calls).1).1,
        (insertAll calls).2 ++ (insertArpCacheShared call.2 call.1 (insertAll calls).1).2) := by
  rw [insertAll, List.foldl_append]
  rfl

/-- As long as no address is below the first one, the array is a map, and the accesses stay
inside it. -/
theorem insertAll_inv (hFirst : ∀ call ∈ rest, first.1.key ≤ call.1.key) :
    ∃ h, (insertAll (first :: rest)).1 = some h ∧ h.Inv ((first :: rest).map Prod.fst) ∧
      (h.data 0).key = first.1.key ∧
      ∀ access ∈ (insertAll (first :: rest)).2, access.InBounds := by
  induction rest using List.reverseRecOn with
  | nil =>
      obtain ⟨hInv, hAccesses, hHead⟩ := Abt.addAbt_fits first.2 (Abt.Inv.new first.2)
        (a := first.1) (.inl rfl)
      exact ⟨_, rfl, hInv, hHead.trans (if_pos rfl), hAccesses⟩
  | append_singleton rest call ih =>
      obtain ⟨h, hShared, hInv, hHead, hBefore⟩ :=
        ih fun call hMem => hFirst call (List.mem_append_left _ hMem)
      have hLast : first.1.key ≤ call.1.key := hFirst call (by simp)
      have hSize : h.size ≠ 0 := (hInv.isMap.size_pos (List.cons_ne_nil _ _)).ne'
      obtain ⟨hInv', hAccesses, hHead'⟩ := Abt.addAbt_fits call.2 hInv
        (a := call.1) (.inr (hHead.trans_le hLast))
      rw [← List.cons_append, insertAll_snoc, hShared, List.map_append]
      refine ⟨_, rfl, hInv', ?_, fun access hMem => ?_⟩
      · rw [if_neg hSize, hHead] at hHead'
        exact hHead'
      · rcases List.mem_append.mp hMem with hMem | hMem
        · exact hBefore access hMem
        · exact hAccesses access hMem

/-- If all accesses stay inside the array, no address was below the first one. -/
theorem insertAll_first (hAccesses : ∀ access ∈ (insertAll (first :: rest)).2, access.InBounds) :
    ∀ call ∈ rest, first.1.key ≤ call.1.key := by
  induction rest using List.reverseRecOn with
  | nil => exact fun call hMem => absurd hMem List.not_mem_nil
  | append_singleton rest call ih =>
      rw [← List.cons_append, insertAll_snoc] at hAccesses
      have hBefore := ih fun access hMem => hAccesses access (List.mem_append_left _ hMem)
      obtain ⟨h, hShared, hInv, hHead, -⟩ := insertAll_inv hBefore
      intro call' hMem
      rcases List.mem_append.mp hMem with hMem | hMem
      · exact hBefore call' hMem
      · obtain rfl := List.mem_singleton.mp hMem
        by_contra hBelow
        by_cases hFits : h.Fits call'.1
        · rcases hFits with hEmpty | hAbove
          · exact (hInv.isMap.size_pos (List.cons_ne_nil _ _)).ne' hEmpty
          · exact hBelow (hHead ▸ hAbove)
        · obtain ⟨access, hAccess, hOut⟩ := Abt.addAbt_below call'.2 hInv hFits
          rw [hShared] at hAccesses
          exact hOut (hAccesses access (List.mem_append_right _ hAccess))

/-- The shared cache is a sorted map after every call, with all accesses inside the array,
exactly if no call inserts an address below the first one. -/
theorem sharedArpCache_isMap_iff (calls : List (ArpEntry × (Int → ArpEntry))) :
    ((∀ access ∈ (insertAll calls).2, access.InBounds) ∧
      ∀ before after, calls = before ++ after →
        ∀ h, (insertAll before).1 = some h → h.IsMap (before.map Prod.fst)) ↔
    ∀ first rest, calls = first :: rest → ∀ call ∈ rest, first.1.ip ≤ call.1.ip := by
  constructor
  · rintro ⟨hAccesses, -⟩ first rest rfl
    exact insertAll_first hAccesses
  · intro hFirst
    refine ⟨?_, ?_⟩
    · cases calls with
      | nil => exact fun access hMem => absurd hMem List.not_mem_nil
      | cons first rest =>
          obtain ⟨-, -, -, -, hAccesses⟩ := insertAll_inv (hFirst first rest rfl)
          exact hAccesses
    · rintro before after rfl h hShared
      cases before with
      | nil => cases hShared
      | cons first before =>
          have hBefore : ∀ call ∈ before, first.1.key ≤ call.1.key := fun call hMem =>
            hFirst first (before ++ after) rfl call (List.mem_append_left _ hMem)
          obtain ⟨h', hShared', hInv, -⟩ := insertAll_inv hBefore
          rw [hShared', Option.some.injEq] at hShared
          exact hShared ▸ hInv.isMap

end Run

/-- The entries of 10.0.0.2 and then 10.0.0.1, on a little-endian host: the second call reads
the element before the array. -/
theorem insertAll_below :
    let heap : Int → ArpEntry := fun _ => ⟨0#32, 0#48⟩
    ∃ access ∈ (insertAll [(⟨0x0200000a#32, 2#48⟩, heap), (⟨0x0100000a#32, 1#48⟩, heap)]).2,
      ¬ access.InBounds := by
  intro heap
  by_contra! hAccesses
  exact absurd (insertAll_first hAccesses _ List.mem_cons_self) (by decide)

/-- How `chk_abt` ends: with what it returns, and with the elements that it has looked at. -/
structure Lookup where
  ret : Int
  reads : List Int

def Lookup.look (c : Int) (s : Lookup) : Lookup := { s with reads := c :: s.reads }

/-- The loop of `chk_abt`. Before it looks at the element in the middle it tests `f`. -/
def Abt.lookup (h : Abt) (ip : Address) (f l : Int) : Lookup :=
  if f ≤ l then
    let c := f + (l - f) / 2
    if f = h.size then ⟨0, []⟩
    else if (h.data c).ip = ip then ⟨1, [c]⟩
    else if (h.data c).ip > ip then (h.lookup ip f (c - 1)).look c
    else (h.lookup ip (c + 1) l).look c
  else ⟨0, []⟩
termination_by (l - f + 1).toNat
decreasing_by all_goals omega

/-- `chk_abt`. -/
def chkAbt (h : Abt) (tofind : ArpEntry) : Lookup := h.lookup tofind.ip 0 h.size

/-- Some element has the address. -/
def Abt.Knows (h : Abt) (ip : Address) : Prop := ∃ i : Int, 0 ≤ i ∧ i < h.size ∧ (h.data i).ip = ip

namespace Abt

variable {h : Abt} {ip : Address}

/-- The two bounds of the loop close in on the address from both sides. -/
theorem Between.not_knows {f l : Int} (hBetween : h.Between ip f l)
    (hClosed : ∀ i, f ≤ i → i ≤ l → ¬ i < h.size) : ¬ h.Knows ip := by
  rintro ⟨i, hi, hi', rfl⟩
  by_cases hfi : i < f
  · exact lt_irrefl _ (hBetween.below i hi hfi)
  · by_cases hil : i ≤ l
    · exact hClosed i (not_lt.mp hfi) hil hi'
    · exact lt_irrefl _ (hBetween.above i (not_le.mp hil) hi')

/-- The loop looks only at elements of the array, and it finds the address if it is there. -/
theorem lookup_spec (hSorted : Sorted ArpEntry.key h.size h.data) {f l : Int}
    (hBetween : h.Between ip f l) :
    (∀ i ∈ (h.lookup ip f l).reads, 0 ≤ i ∧ i < h.size) ∧
      ((h.lookup ip f l).ret = 1 ∧ h.Knows ip ∨ (h.lookup ip f l).ret = 0 ∧ ¬ h.Knows ip) := by
  fun_induction Abt.lookup h ip f l with
  | case1 l hle =>
      refine ⟨fun i hi => absurd hi List.not_mem_nil, .inr ⟨rfl, ?_⟩⟩
      exact hBetween.not_knows fun i hi _ => not_lt.mpr hi
  | case2 f l hle c hEnd hEq =>
      have hNonneg := hBetween.nonneg
      have hFirst := hBetween.first_le
      have hLast := hBetween.last_le
      refine ⟨fun i hi => ?_, .inl ⟨rfl, c, by omega, by omega, hEq⟩⟩
      obtain rfl := List.mem_singleton.mp hi
      omega
  | case3 f l hle c hEnd hNe hMore ih =>
      have hNonneg := hBetween.nonneg
      have hFirst := hBetween.first_le
      have hLast := hBetween.last_le
      have hc : c < h.size := by omega
      have hRest := ih (hBetween.down hSorted (by omega) hc hMore)
      refine ⟨fun i hi => ?_, hRest.2⟩
      rcases List.mem_cons.mp hi with rfl | hi
      · omega
      · exact hRest.1 i hi
  | case4 f l hle c hEnd hNe hNotMore ih =>
      have hNonneg := hBetween.nonneg
      have hFirst := hBetween.first_le
      have hLast := hBetween.last_le
      have hc : c < h.size := by omega
      have hLess : (h.data c).key < ip.toNat :=
        lt_of_le_of_ne (not_lt.mp hNotMore) fun hEq => hNe (BitVec.eq_of_toNat_eq hEq)
      have hRest := ih (hBetween.up hSorted (by omega) (by omega) hc hLess)
      refine ⟨fun i hi => ?_, hRest.2⟩
      rcases List.mem_cons.mp hi with rfl | hi
      · omega
      · exact hRest.1 i hi
  | case5 f l hle =>
      refine ⟨fun i hi => absurd hi List.not_mem_nil, .inr ⟨rfl, ?_⟩⟩
      exact hBetween.not_knows fun i hi hi' => absurd (hi.trans hi') hle

end Abt

/-- In an array that is sorted by address, `chk_abt` stays inside and returns 1 exactly for the
addresses of the elements. -/
theorem chkAbt_exact (h : Abt) (hSorted : Sorted ArpEntry.key h.size h.data)
    (tofind : ArpEntry) :
    (∀ i ∈ (chkAbt h tofind).reads, 0 ≤ i ∧ i < h.size) ∧
      ((chkAbt h tofind).ret = 1 ∨ (chkAbt h tofind).ret = 0) ∧
        ((chkAbt h tofind).ret = 1 ↔
          ∃ i : Int, 0 ≤ i ∧ i < h.size ∧ (h.data i).ip = tofind.ip) := by
  obtain ⟨hReads, hRet⟩ := Abt.lookup_spec hSorted (Abt.Between.start h tofind.ip)
  refine ⟨hReads, ?_⟩
  rcases hRet with ⟨hOne, hKnows⟩ | ⟨hZero, hUnknown⟩
  · exact ⟨.inl hOne, iff_of_true hOne hKnows⟩
  · refine ⟨.inr hZero, iff_of_false (fun hOne => ?_) hUnknown⟩
    rw [chkAbt, hZero] at hOne
    cases hOne

/-- The entries of 10.0.0.1 and 10.0.0.2. -/
def twoEntries : Abt where
  size := 2
  space := 128
  data i := if i = 0 then ⟨0x0a000001#32, 1#48⟩ else ⟨0x0a000002#32, 2#48⟩

theorem chkAbt_twoEntries :
    (∀ i ∈ (chkAbt twoEntries ⟨0x0a000002#32, 0#48⟩).reads, 0 ≤ i ∧ i < 2) ∧
      (chkAbt twoEntries ⟨0x0a000002#32, 0#48⟩).ret = 1 := by
  have hSorted : Sorted ArpEntry.key twoEntries.size twoEntries.data := by
    intro i j hi hij hj
    have hSize : j < 2 := hj
    obtain rfl : i = 0 := by omega
    obtain rfl : j = 1 := by omega
    decide
  obtain ⟨hReads, -, hFound⟩ := chkAbt_exact twoEntries hSorted ⟨0x0a000002#32, 0#48⟩
  exact ⟨hReads, hFound.mpr ⟨1, by decide, by decide, by decide⟩⟩

end Wackamole
