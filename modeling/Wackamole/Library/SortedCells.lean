import Mathlib.Order.Basic
import Mathlib.Logic.Function.Basic
import Mathlib.Algebra.Order.Ring.Int

/-! The first cells of an array, sorted by a key without repetitions: the place of a new key,
and what the array holds after an entry was put there or has replaced the one with its key. -/
namespace SortedCells

variable {Entry Key : Type*} [LinearOrder Key] (key : Entry → Key)

def Sorted (size : Int) (cells : Int → Entry) : Prop :=
  ∀ i j, 0 ≤ i → i < j → j < size → key (cells i) < key (cells j)

/-- The keys before place `p` are smaller, the others are larger. -/
structure Place (size : Int) (cells : Int → Entry) (x : Key) (p : Int) : Prop where
  nonneg : 0 ≤ p
  le_size : p ≤ size
  below : ∀ i, 0 ≤ i → i < p → key (cells i) < x
  above : ∀ i, p ≤ i → i < size → x < key (cells i)

omit [LinearOrder Key] in
/-- An entry is in one of the cells. -/
def Holds (size : Int) (cells : Int → Entry) (e : Entry) : Prop :=
  ∃ i, 0 ≤ i ∧ i < size ∧ cells i = e

/-- The cells from `p` on move up by one, and `p` gets an entry. -/
def insertAt (cells : Int → Entry) (p : Int) (e : Entry) : Int → Entry := fun i =>
  if i < p then cells i else if i = p then e else cells (i - 1)

variable {key} {size p : Int} {cells : Int → Entry} {e : Entry}

theorem Sorted.congr {cells' : Int → Entry} (h : Sorted key size cells)
    (hSame : ∀ i, 0 ≤ i → i < size → cells' i = cells i) : Sorted key size cells' := by
  intro i j hi hij hj
  rw [hSame i hi (by omega), hSame j (by omega) hj]
  exact h i j hi hij hj

theorem Sorted.insertAt (h : Sorted key size cells) (hPlace : Place key size cells (key e) p) :
    Sorted key (size + 1) (insertAt cells p e) := by
  intro i j hi hij hj
  unfold SortedCells.insertAt
  rcases lt_trichotomy j p with hjp | rfl | hjp
  · rw [if_pos (hij.trans hjp), if_pos hjp]
    exact h i j hi hij (hjp.trans_le hPlace.le_size)
  · rw [if_pos hij, if_neg (lt_irrefl j), if_pos rfl]
    exact hPlace.below i hi hij
  · rw [if_neg (not_lt.mpr hjp.le), if_neg hjp.ne']
    split_ifs with hip hip'
    · exact (hPlace.below i hi hip).trans (hPlace.above (j - 1) (by omega) (by omega))
    · exact hPlace.above (j - 1) (by omega) (by omega)
    · exact h (i - 1) (j - 1) (by have := hPlace.nonneg; omega) (by omega) (by omega)

theorem Sorted.update (h : Sorted key size cells) {c : Int} (hKey : key (cells c) = key e) :
    Sorted key size (Function.update cells c e) := by
  have hSame (i : Int) : key (Function.update cells c e i) = key (cells i) := by
    by_cases hi : i = c
    · rw [hi, Function.update_self, hKey]
    · rw [Function.update_of_ne hi]
  intro i j hi hij hj
  rw [hSame, hSame]
  exact h i j hi hij hj

/-- A sorted array holds one entry for a key. -/
theorem Sorted.index_eq (h : Sorted key size cells) {i j : Int} (hi : 0 ≤ i) (hi' : i < size)
    (hj : 0 ≤ j) (hj' : j < size) (hKey : key (cells i) = key (cells j)) : i = j := by
  rcases lt_trichotomy i j with hij | hij | hij
  · exact absurd hKey (h i j hi hij hj').ne
  · exact hij
  · exact absurd hKey (h j i hj hij hi').ne'

theorem holds_insertAt (hPlace : Place key size cells (key e) p) (e' : Entry) :
    Holds (size + 1) (insertAt cells p e) e' ↔
      e' = e ∨ Holds size cells e' ∧ key e' ≠ key e := by
  have hNonneg := hPlace.nonneg
  have hLe := hPlace.le_size
  constructor
  · rintro ⟨i, hi, hi', rfl⟩
    unfold insertAt
    split_ifs with hip hip'
    · exact .inr ⟨⟨i, hi, hip.trans_le hLe, rfl⟩, (hPlace.below i hi hip).ne⟩
    · exact .inl rfl
    · exact .inr ⟨⟨i - 1, by omega, by omega, rfl⟩,
        (hPlace.above (i - 1) (by omega) (by omega)).ne'⟩
  · rintro (rfl | ⟨⟨i, hi, hi', rfl⟩, -⟩)
    · exact ⟨p, hNonneg, by omega, by simp [insertAt]⟩
    · by_cases hip : i < p
      · exact ⟨i, hi, by omega, by simp [insertAt, hip]⟩
      · refine ⟨i + 1, by omega, by omega, ?_⟩
        rw [insertAt, if_neg (by omega), if_neg (by omega), add_sub_cancel_right]

theorem holds_update (h : Sorted key size cells) {c : Int} (hc : 0 ≤ c) (hc' : c < size)
    (hKey : key (cells c) = key e) (e' : Entry) :
    Holds size (Function.update cells c e) e' ↔ e' = e ∨ Holds size cells e' ∧ key e' ≠ key e := by
  constructor
  · rintro ⟨i, hi, hi', rfl⟩
    by_cases hic : i = c
    · exact .inl (by rw [hic, Function.update_self])
    · rw [Function.update_of_ne hic]
      refine .inr ⟨⟨i, hi, hi', rfl⟩, fun hEq => hic ?_⟩
      exact h.index_eq hi hi' hc hc' (hEq.trans hKey.symm)
  · rintro (rfl | ⟨⟨i, hi, hi', rfl⟩, hOther⟩)
    · exact ⟨c, hc, hc', Function.update_self _ _ _⟩
    · have hic : i ≠ c := fun hEq => hOther (hEq ▸ hKey)
      exact ⟨i, hi, hi', Function.update_of_ne hic _ _⟩

theorem holds_congr {cells' : Int → Entry} (hSame : ∀ i, 0 ≤ i → i < size → cells' i = cells i)
    (e : Entry) : Holds size cells' e ↔ Holds size cells e := by
  constructor
  · rintro ⟨i, hi, hi', rfl⟩
    exact ⟨i, hi, hi', (hSame i hi hi').symm⟩
  · rintro ⟨i, hi, hi', rfl⟩
    exact ⟨i, hi, hi', hSame i hi hi'⟩

end SortedCells
