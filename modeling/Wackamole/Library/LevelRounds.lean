import Wackamole.Library.Levelling
import Mathlib.Algebra.BigOperators.Group.Finset.Basic
import Mathlib.Algebra.Order.BigOperators.Group.Finset
import Mathlib.Algebra.BigOperators.Ring.Finset
import Mathlib.Tactic.Linarith

/-! How many rounds levelling needs: every round takes one unit from what is above the
quota and adds one to what is below it, until both are used up. -/
namespace Levelling

open Levels Finset

/-- No two loads differ by more than one. -/
def Level (size : Nat) (load : Nat → Int) : Prop :=
  ∀ i < size, ∀ k < size, load i ≤ load k + 1

/-- Every load gets at least this much. -/
def quota (size : Nat) (load : Nat → Int) : Int := (∑ i ∈ range size, load i) / size

/-- What has to be taken from the loads above the quota, and what has to be added to
those below. -/
def surplus (size : Nat) (load : Nat → Int) : Nat :=
  ∑ i ∈ range size, (load i - (quota size load + 1)).toNat

def shortage (size : Nat) (load : Nat → Int) : Nat :=
  ∑ i ∈ range size, (quota size load - load i).toNat

/-- The units that have to move. -/
def excess (size : Nat) (load : Nat → Int) : Nat := max (surplus size load) (shortage size load)

/-- The loads after some rounds. -/
def levelled (size : Nat) : Nat → Levels → Levels
  | 0, s => s
  | rounds + 1, s =>
    let s := s.scan size
    if s.load s.high - s.load s.low > 1 then levelled size rounds s.pour else s

section Quota

variable {size : Nat} {load : Nat → Int}

theorem quota_le (hSize : 0 < size) : size * quota size load ≤ ∑ i ∈ range size, load i := by
  have hPos : (0 : Int) < size := by exact_mod_cast hSize
  exact Int.mul_ediv_self_le hPos.ne'

theorem lt_quota (hSize : 0 < size) :
    ∑ i ∈ range size, load i < size * (quota size load + 1) := by
  have hPos : (0 : Int) < size := by exact_mod_cast hSize
  rw [mul_add, mul_one]
  exact Int.lt_mul_ediv_self_add hPos

/-- Not all loads are above the quota. -/
theorem exists_le_quota (hSize : 0 < size) : ∃ i < size, load i ≤ quota size load := by
  by_contra! hAll
  have hSum : ∑ _i ∈ range size, (quota size load + 1) ≤ ∑ i ∈ range size, load i :=
    sum_le_sum fun i hi => hAll i (mem_range.mp hi)
  rw [sum_const, card_range, nsmul_eq_mul] at hSum
  exact absurd (lt_quota hSize) (not_lt.mpr hSum)

/-- A load below the quota is made up for by one above it. -/
theorem exists_gt_quota (hSize : 0 < size) {k : Nat} (hk : k < size)
    (hLow : load k < quota size load) :
    ∃ i < size, quota size load < load i := by
  by_contra! hAll
  have hSum : ∑ i ∈ range size, load i < ∑ _i ∈ range size, quota size load :=
    sum_lt_sum (fun i hi => hAll i (mem_range.mp hi)) ⟨k, mem_range.mpr hk, hLow⟩
  rw [sum_const, card_range, nsmul_eq_mul] at hSum
  exact absurd (quota_le hSize) (not_le.mpr hSum)

theorem excess_eq_zero_iff :
    excess size load = 0 ↔
      ∀ i < size, quota size load ≤ load i ∧ load i ≤ quota size load + 1 := by
  rw [excess, Nat.max_eq_zero_iff, surplus, shortage, sum_eq_zero_iff, sum_eq_zero_iff]
  simp only [mem_range, Int.toNat_eq_zero]
  constructor
  · rintro ⟨hHigh, hLow⟩ i hi
    have hHigh := hHigh i hi
    have hLow := hLow i hi
    omega
  · intro h
    refine ⟨fun i hi => ?_, fun i hi => ?_⟩ <;>
    · have hLoad := h i hi
      omega

theorem level_iff (hSize : 0 < size) : Level size load ↔ excess size load = 0 := by
  rw [excess_eq_zero_iff]
  constructor
  · intro hLevel i hi
    obtain ⟨low, hLow, hLowLoad⟩ : ∃ i < size, load i ≤ quota size load := exists_le_quota hSize
    have hUpper := hLevel i hi low hLow
    refine ⟨?_, by omega⟩
    by_contra! hLess
    obtain ⟨high, hHigh, hHighLoad⟩ := exists_gt_quota hSize hi hLess
    have hLower := hLevel high hHigh i hi
    omega
  · intro hAll i hi k hk
    have hi := hAll i hi
    have hk := hAll k hk
    omega

/-- Only the loads below `size` matter. -/
theorem excess_congr {load' : Nat → Int} (h : ∀ i < size, load i = load' i) :
    excess size load = excess size load' := by
  have hQuota : quota size load = quota size load' := by
    rw [quota, quota, sum_congr rfl fun i hi => h i (mem_range.mp hi)]
  rw [excess, excess, surplus, surplus, shortage, shortage, hQuota]
  congr 1 <;>
  · refine sum_congr rfl fun i hi => ?_
    rw [h i (mem_range.mp hi)]

end Quota

/-- One load changes. -/
theorem sum_update {M : Type*} [AddCommMonoid M] (f : Int → M) {size k : Nat} (hk : k < size)
    (load : Nat → Int) (v : Int) :
    ∑ i ∈ range size, f (Function.update load k v i) + f (load k) =
      ∑ i ∈ range size, f (load i) + f v := by
  have hMem : k ∈ range size := mem_range.mpr hk
  rw [← add_sum_erase _ _ hMem, ← add_sum_erase _ (fun i => f (load i)) hMem,
    Function.update_self]
  have hRest : ∑ i ∈ (range size).erase k, f (Function.update load k v i) =
      ∑ i ∈ (range size).erase k, f (load i) := by
    refine sum_congr rfl fun i hi => ?_
    rw [Function.update_of_ne (ne_of_mem_erase hi)]
  rw [hRest, add_comm (f v), add_comm (f (load k)), add_assoc, add_assoc, add_comm (f v)]

section Pour

variable {size : Nat} {s : Levels}

theorem pour_sum {M : Type*} [AddCommMonoid M] (f : Int → M) (hLow : s.low < size)
    (hHigh : s.high < size) (hNe : s.low ≠ s.high) :
    ∑ i ∈ range size, f (s.pour.load i) + (f (s.load s.low) + f (s.load s.high)) =
      ∑ i ∈ range size, f (s.load i) + (f (s.load s.low + 1) + f (s.load s.high - 1)) := by
  have hGive := sum_update f hHigh (Function.update s.load s.low (s.load s.low + 1))
    (s.load s.high - 1)
  have hTake := sum_update f hLow s.load (s.load s.low + 1)
  have hSame : Function.update s.load s.low (s.load s.low + 1) s.high = s.load s.high :=
    Function.update_of_ne hNe.symm _ _
  rw [hSame] at hGive
  have hPour : s.pour.load = Function.update (Function.update s.load s.low (s.load s.low + 1))
      s.high (s.load s.high - 1) := by
    rw [pour, hSame]
  rw [hPour, add_comm (f (s.load s.low)), ← add_assoc, hGive, add_right_comm, hTake, add_assoc]

theorem pour_quota (hLow : s.low < size) (hHigh : s.high < size) (hNe : s.low ≠ s.high) :
    quota size s.pour.load = quota size s.load := by
  have hSum := pour_sum id hLow hHigh hNe
  simp only [id_eq] at hSum
  rw [quota, quota]
  congr 1
  omega

variable (hGap : s.load (s.scan size).high - s.load (s.scan size).low > 1)

include hGap

/-- The quota lies between the two loads that a round looks at. -/
theorem scan_quota (hWithin : s.Within size) :
    s.load (s.scan size).low ≤ quota size s.load ∧
      quota size s.load < s.load (s.scan size).high := by
  obtain ⟨hLow, -⟩ := scan_within hWithin
  have hSize : 0 < size := Nat.zero_lt_of_lt hLow
  obtain ⟨least, hLeast, hLeastLoad⟩ : ∃ i < size, s.load i ≤ quota size s.load :=
    exists_le_quota hSize
  have hLowLoad := (scan_least size s least hLeast).trans hLeastLoad
  refine ⟨hLowLoad, ?_⟩
  rcases hLowLoad.lt_or_eq with hLess | hEq
  · obtain ⟨most, hMost, hMostLoad⟩ := exists_gt_quota hSize hLow hLess
    exact hMostLoad.trans_le (scan_most size s most hMost)
  · omega

/-- The fullest gives a unit of its surplus, if it has one. Nothing is above the quota when
the fullest is not. -/
theorem surplus_pour (hWithin : s.Within size) :
    surplus size (s.scan size).pour.load = surplus size s.load - 1 ∧
      (surplus size s.load = 0 ↔ s.load (s.scan size).high ≤ quota size s.load + 1) := by
  obtain ⟨hLow, hHigh⟩ := scan_within hWithin
  obtain ⟨hLowLoad, hHighLoad⟩ := scan_quota hGap hWithin
  have hSum := pour_sum (fun x => (x - (quota size s.load + 1)).toNat) hLow hHigh
    (low_ne_high hGap)
  have hQuota := pour_quota hLow hHigh (low_ne_high hGap)
  rw [scan_load] at hSum hQuota
  have hTerm : (s.load (s.scan size).high - (quota size s.load + 1)).toNat ≤
      surplus size s.load :=
    single_le_sum (f := fun i => (s.load i - (quota size s.load + 1)).toNat)
      (fun _ _ => Nat.zero_le _) (mem_range.mpr hHigh)
  have hNone (hLevel : s.load (s.scan size).high ≤ quota size s.load + 1) :
      surplus size s.load = 0 := by
    refine sum_eq_zero fun i hi => Int.toNat_eq_zero.mpr ?_
    have hMost := scan_most size s i (mem_range.mp hi)
    omega
  have hPoured : surplus size (s.scan size).pour.load +
      (s.load (s.scan size).high - (quota size s.load + 1)).toNat =
      surplus size s.load + (s.load (s.scan size).high - 1 - (quota size s.load + 1)).toNat := by
    have hZero : (s.load (s.scan size).low - (quota size s.load + 1)).toNat = 0 := by omega
    have hZero' : (s.load (s.scan size).low + 1 - (quota size s.load + 1)).toNat = 0 := by omega
    rw [hZero, hZero', zero_add, zero_add] at hSum
    rw [surplus, hQuota]
    exact hSum
  by_cases hLevel : s.load (s.scan size).high ≤ quota size s.load + 1
  · have hZero := hNone hLevel
    exact ⟨by omega, iff_of_true hZero hLevel⟩
  · exact ⟨by omega, iff_of_false (by omega) hLevel⟩

/-- The least loaded gets a unit that it lacks, if it lacks one. -/
theorem shortage_pour (hWithin : s.Within size) :
    shortage size (s.scan size).pour.load = shortage size s.load - 1 ∧
      (shortage size s.load = 0 ↔ quota size s.load ≤ s.load (s.scan size).low) := by
  obtain ⟨hLow, hHigh⟩ := scan_within hWithin
  obtain ⟨hLowLoad, hHighLoad⟩ := scan_quota hGap hWithin
  have hSum := pour_sum (fun x => (quota size s.load - x).toNat) hLow hHigh (low_ne_high hGap)
  have hQuota := pour_quota hLow hHigh (low_ne_high hGap)
  rw [scan_load] at hSum hQuota
  have hTerm : (quota size s.load - s.load (s.scan size).low).toNat ≤ shortage size s.load :=
    single_le_sum (f := fun i => (quota size s.load - s.load i).toNat)
      (fun _ _ => Nat.zero_le _) (mem_range.mpr hLow)
  have hNone (hLevel : quota size s.load ≤ s.load (s.scan size).low) :
      shortage size s.load = 0 := by
    refine sum_eq_zero fun i hi => Int.toNat_eq_zero.mpr ?_
    have hLeast := scan_least size s i (mem_range.mp hi)
    omega
  have hPoured : shortage size (s.scan size).pour.load +
      (quota size s.load - s.load (s.scan size).low).toNat =
      shortage size s.load + (quota size s.load - (s.load (s.scan size).low + 1)).toNat := by
    have hZero : (quota size s.load - s.load (s.scan size).high).toNat = 0 := by omega
    have hZero' : (quota size s.load - (s.load (s.scan size).high - 1)).toNat = 0 := by omega
    rw [hZero, hZero', add_zero, add_zero] at hSum
    rw [shortage, hQuota]
    exact hSum
  by_cases hLevel : quota size s.load ≤ s.load (s.scan size).low
  · have hZero := hNone hLevel
    exact ⟨by omega, iff_of_true hZero hLevel⟩
  · exact ⟨by omega, iff_of_false (by omega) hLevel⟩

/-- A round takes one unit from what has to move. -/
theorem excess_pour (hWithin : s.Within size) :
    excess size (s.scan size).pour.load + 1 = excess size s.load := by
  obtain ⟨hSurplus, hNoSurplus⟩ := surplus_pour hGap hWithin
  obtain ⟨hShortage, hNoShortage⟩ := shortage_pour hGap hWithin
  have hSome : ¬ (surplus size s.load = 0 ∧ shortage size s.load = 0) := by
    rw [hNoSurplus, hNoShortage]
    omega
  rw [excess, excess, hSurplus, hShortage]
  omega

/-- Loads that are level are left alone. -/
theorem not_level (hWithin : s.Within size) : ¬ Level size s.load := by
  intro hLevel
  obtain ⟨hLow, hHigh⟩ := scan_within hWithin
  have hClose := hLevel _ hHigh _ hLow
  omega

end Pour

theorem level_of_scan {size : Nat} {s : Levels}
    (h : ¬ s.load (s.scan size).high - s.load (s.scan size).low > 1) : Level size s.load := by
  intro i hi k hk
  have hMost := scan_most size s i hi
  have hLeast := scan_least size s k hk
  omega

/-- Every round moves one unit, as long as there is one that has to move. -/
theorem excess_levelled {size : Nat} (hSize : 0 < size) (rounds : Nat) {s : Levels}
    (hWithin : s.Within size) :
    excess size (levelled size rounds s).load = excess size s.load - rounds := by
  induction rounds generalizing s with
  | zero => rfl
  | succ rounds ih =>
      simp only [levelled, scan_load]
      split_ifs with hGap
      · have hPour : (s.scan size).pour.Within size := scan_within hWithin
        have hStep := excess_pour hGap hWithin
        rw [ih hPour]
        omega
      · have hZero := (level_iff hSize).mp (level_of_scan hGap)
        rw [scan_load, hZero, Nat.zero_sub]

end Levelling
