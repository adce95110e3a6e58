import Mathlib.Data.List.Basic
import Mathlib.Order.Basic
import Mathlib.Logic.Function.Basic
import Mathlib.Algebra.Order.Monoid.Defs
import Mathlib.Algebra.Order.ZeroLEOne
import Mathlib.Data.Nat.Cast.Basic

/-! Handing out items one by one to whoever has the least load, the first of them
when several have. Who gets the items depends on the loads alone. -/
namespace LeastLoaded

variable {Load : Type*} [LinearOrder Load]

/-- The first index below `size` with the least load. -/
def least (load : Nat → Load) : Nat → Nat
  | 0 => 0
  | 1 => 0
  | size + 2 =>
      if load (size + 1) < load (least load (size + 1)) then size + 1
      else least load (size + 1)

theorem least_lt (load : Nat → Load) {size : Nat} (hSize : 0 < size) :
    least load size < size := by
  fun_induction least load size with
  | case1 => exact absurd hSize (Nat.lt_irrefl 0)
  | case2 => exact Nat.one_pos
  | case3 size hLess ih => exact Nat.lt_succ_self _
  | case4 size hLess ih => exact Nat.lt_succ_of_lt (ih (Nat.succ_pos size))

theorem least_le (load : Nat → Load) (size : Nat) :
    ∀ k < size, load (least load size) ≤ load k := by
  fun_induction least load size with
  | case1 => exact fun k hk => absurd hk (Nat.not_lt_zero k)
  | case2 =>
      intro k hk
      obtain rfl : k = 0 := by omega
      exact le_rfl
  | case3 size hLess ih =>
      intro k hk
      rcases Nat.lt_succ_iff_lt_or_eq.mp hk with hBefore | rfl
      · exact hLess.le.trans (ih k hBefore)
      · exact le_rfl
  | case4 size hLess ih =>
      intro k hk
      rcases Nat.lt_succ_iff_lt_or_eq.mp hk with hBefore | rfl
      · exact ih k hBefore
      · exact not_lt.mp hLess

theorem least_congr {load load' : Nat → Load} {size : Nat}
    (h : ∀ k < size, load k = load' k) : least load size = least load' size := by
  fun_induction least load size with
  | case1 => rfl
  | case2 => rfl
  | case3 size hLess ih =>
      have hBest := ih fun k hk => h k (Nat.lt_succ_of_lt hk)
      rw [least, ← hBest, ← h _ (Nat.lt_succ_self _),
        ← h _ (Nat.lt_succ_of_lt (least_lt load (Nat.succ_pos size))), if_pos hLess]
  | case4 size hLess ih =>
      have hBest := ih fun k hk => h k (Nat.lt_succ_of_lt hk)
      rw [least, ← hBest, ← h _ (Nat.lt_succ_self _),
        ← h _ (Nat.lt_succ_of_lt (least_lt load (Nat.succ_pos size))), if_neg hLess]

variable [Add Load] [One Load]

/-- The loads after one item. -/
def place (load : Nat → Load) (size : Nat) : Nat → Load :=
  Function.update load (least load size) (load (least load size) + 1)

/-- The receivers of the first `count` items. -/
def receivers (load : Nat → Load) (size : Nat) : Nat → List Nat
  | 0 => []
  | count + 1 => least load size :: receivers (place load size) size count

variable {Item : Type*} [DecidableEq Item]

/-- The receiver of an item of the list, the items being handed out from the front. -/
def receiver (load : Nat → Load) (size : Nat) : List Item → Item → Nat
  | [], _ => 0
  | a :: items, i =>
      if i = a then least load size else receiver (place load size) size items i

theorem receiver_lt (load : Nat → Load) {size : Nat} (hSize : 0 < size) (items : List Item)
    (i : Item) : receiver load size items i < size := by
  induction items generalizing load with
  | nil => exact hSize
  | cons a items ih =>
      rw [receiver]
      split_ifs
      · exact least_lt load hSize
      · exact ih (place load size)

theorem receivers_eq_map (load : Nat → Load) (size : Nat) (items : List Item)
    (hItems : items.Nodup) :
    receivers load size items.length = items.map (receiver load size items) := by
  induction items generalizing load with
  | nil => rfl
  | cons a items ih =>
      obtain ⟨ha, hItems⟩ := List.nodup_cons.mp hItems
      have hRest : items.map (receiver load size (a :: items)) =
          items.map (receiver (place load size) size items) := by
        apply List.map_congr_left
        intro i hi
        rw [receiver, if_neg (fun hEq : i = a => ha (hEq ▸ hi))]
      rw [List.length_cons, receivers, List.map_cons, hRest, ← ih _ hItems, receiver, if_pos rfl]

/-- Only the loads of the possible receivers matter. -/
theorem receiver_congr {load load' : Nat → Load} {size : Nat} (hSize : 0 < size)
    (h : ∀ k < size, load k = load' k) (items : List Item) (i : Item) :
    receiver load size items i = receiver load' size items i := by
  induction items generalizing load load' with
  | nil => rfl
  | cons a items ih =>
      have hLeast := least_congr h
      rw [receiver, receiver, ← hLeast]
      split_ifs
      · rfl
      · apply ih
        intro k hk
        rw [place, place, ← hLeast, ← h _ (least_lt load hSize)]
        by_cases hk' : k = least load size
        · simp [hk']
        · simp [hk', h k hk]

/-- Two load tables hand out distinct items alike exactly when they do so step by step. -/
theorem receivers_eq_iff (load load' : Nat → Load) (size : Nat) (items : List Item)
    (hItems : items.Nodup) :
    receivers load size items.length = receivers load' size items.length ↔
      ∀ i ∈ items, receiver load size items i = receiver load' size items i := by
  rw [receivers_eq_map load size items hItems, receivers_eq_map load' size items hItems]
  exact List.map_inj_left

/-- The loads after the first `count` items. -/
def filled (load : Nat → Load) (size : Nat) : Nat → Nat → Load
  | 0 => load
  | count + 1 => filled (place load size) size count

theorem place_apply (load : Nat → Load) (size k : Nat) :
    place load size k = if k = least load size then load k + 1 else load k := by
  rw [place, Function.update_apply]
  split_ifs with hk
  · rw [hk]
  · rfl

section Bounds

variable {Load : Type*} [AddCommMonoidWithOne Load] [LinearOrder Load] {load : Nat → Load}
  {size count k : Nat}

/-- A load grows by the number of items that it receives. -/
theorem filled_apply (load : Nat → Load) (size count k : Nat) :
    filled load size count k = load k + ((receivers load size count).count k : Load) := by
  induction count generalizing load with
  | zero => simp [filled, receivers]
  | succ count ih =>
      rw [filled, ih, receivers, List.count_cons, place_apply]
      by_cases hk : k = least load size
      · subst hk
        simp only [if_true, beq_self_eq_true, Nat.cast_add, Nat.cast_one]
        rw [add_assoc, add_comm (1 : Load)]
      · rw [if_neg hk, if_neg (by simpa using fun hEq => hk hEq.symm), Nat.add_zero]

variable [IsOrderedAddMonoid Load] [ZeroLEOneClass Load]

theorem le_place (load : Nat → Load) (size k : Nat) : load k ≤ place load size k := by
  rw [place_apply]
  split_ifs
  · exact le_add_of_nonneg_right zero_le_one
  · exact le_rfl

theorem le_filled (load : Nat → Load) (size count k : Nat) : load k ≤ filled load size count k := by
  induction count generalizing load with
  | zero => exact le_rfl
  | succ count ih => exact (le_place load size k).trans (ih _)

/-- Whoever receives an item ends at most one above the least load. What it has after its
last item is at most one more than the others had then. -/
theorem filled_le_of_mem (hk : k ∈ receivers load size count) :
    ∀ m < size, filled load size count k ≤ filled load size count m + 1 := by
  induction count generalizing load with
  | zero => exact absurd hk List.not_mem_nil
  | succ count ih =>
      intro m hm
      rw [filled]
      by_cases hLater : k ∈ receivers (place load size) size count
      · exact ih hLater m hm
      · have hFirst : k = least load size := by
          rcases List.mem_cons.mp hk with hFirst | hLater'
          · exact hFirst
          · exact absurd hLater' hLater
        have hLast : filled (place load size) size count k = load k + 1 := by
          rw [filled_apply, List.count_eq_zero.mpr hLater, place_apply, if_pos hFirst,
            Nat.cast_zero, add_zero]
        have hLeast : load k ≤ load m := hFirst ▸ least_le load size m hm
        have hGrown : load m ≤ filled (place load size) size count m :=
          (le_place load size m).trans (le_filled _ size count m)
        rw [hLast]
        exact add_le_add_left (hLeast.trans hGrown) 1

/-- Loads that differ by at most one still do so afterwards. -/
theorem filled_level (hLevel : ∀ k < size, ∀ m < size, load k ≤ load m + 1) :
    ∀ k < size, ∀ m < size, filled load size count k ≤ filled load size count m + 1 := by
  intro k hk m hm
  by_cases hReceives : k ∈ receivers load size count
  · exact filled_le_of_mem hReceives m hm
  · rw [filled_apply, List.count_eq_zero.mpr hReceives, Nat.cast_zero, add_zero]
    exact (hLevel k hk m hm).trans (add_le_add_left (le_filled load size count m) 1)

end Bounds

end LeastLoaded
