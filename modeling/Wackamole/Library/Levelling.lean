import Mathlib.Data.List.Range
import Mathlib.Logic.Function.Basic
import Mathlib.Data.List.Count
import Mathlib.Algebra.Order.Ring.Int

/-! Levelling loads one unit at a time, from the fullest to the least loaded, while they
differ by more than one. Who has received a unit is never asked for one later. -/
namespace Levelling

/-- The loads, with the indices that the last search has found. -/
structure Levels where
  load : Nat → Int
  low : Nat
  high : Nat

namespace Levels

/-- One step of the search. An index moves only to a strictly better one. -/
def look (s : Levels) (i : Nat) : Levels :=
  let s := if s.load i < s.load s.low then { s with low := i } else s
  if s.load i > s.load s.high then { s with high := i } else s

/-- The search for the least and the most loaded below `size`. -/
def scan (size : Nat) (s : Levels) : Levels := (List.range size).foldl look s

/-- One unit goes from the fullest to the least loaded. -/
def pour (s : Levels) : Levels :=
  let load := Function.update s.load s.low (s.load s.low + 1)
  { s with load := Function.update load s.high (load s.high - 1) }

/-- Both indices are below `size`. -/
def Within (size : Nat) (s : Levels) : Prop := s.low < size ∧ s.high < size

theorem look_load (s : Levels) (i : Nat) : (s.look i).load = s.load := by
  unfold look
  dsimp only
  split_ifs <;> rfl

theorem look_low (s : Levels) (i : Nat) :
    (s.look i).low = if s.load i < s.load s.low then i else s.low := by
  unfold look
  dsimp only
  split_ifs <;> rfl

theorem look_high (s : Levels) (i : Nat) :
    (s.look i).high = if s.load i > s.load s.high then i else s.high := by
  unfold look
  by_cases h : s.load i < s.load s.low
  · rw [if_pos h]
    dsimp only
    split_ifs <;> rfl
  · rw [if_neg h]
    dsimp only
    split_ifs <;> rfl

@[simp] theorem scan_load (size : Nat) (s : Levels) : (s.scan size).load = s.load := by
  unfold scan
  generalize List.range size = l
  induction l generalizing s with
  | nil => rfl
  | cons i l ih => rw [List.foldl_cons, ih, look_load]

theorem scan_succ (size : Nat) (s : Levels) : s.scan (size + 1) = (s.scan size).look size := by
  rw [scan, List.range_succ, List.foldl_append]
  rfl

theorem scan_least (size : Nat) (s : Levels) :
    ∀ i < size, s.load (s.scan size).low ≤ s.load i := by
  induction size with
  | zero => exact fun i hi => absurd hi (Nat.not_lt_zero i)
  | succ size ih =>
      intro i hi
      rw [scan_succ, look_low, scan_load]
      rcases Nat.lt_succ_iff_lt_or_eq.mp hi with hLt | rfl
      · have hBefore := ih i hLt
        split_ifs <;> omega
      · split_ifs <;> omega

theorem scan_most (size : Nat) (s : Levels) :
    ∀ i < size, s.load i ≤ s.load (s.scan size).high := by
  induction size with
  | zero => exact fun i hi => absurd hi (Nat.not_lt_zero i)
  | succ size ih =>
      intro i hi
      rw [scan_succ, look_high, scan_load]
      rcases Nat.lt_succ_iff_lt_or_eq.mp hi with hLt | rfl
      · have hBefore := ih i hLt
        split_ifs <;> omega
      · split_ifs <;> omega

/-- The search that starts at index zero finds the first of the most loaded. -/
theorem scan_first {s : Levels} (hStart : s.high = 0) (size : Nat) :
    ∀ i < (s.scan size).high, s.load i < s.load (s.scan size).high := by
  induction size with
  | zero =>
      intro i hi
      have hNone : i < 0 := hStart ▸ hi
      exact absurd hNone (Nat.not_lt_zero i)
  | succ size ih =>
      intro i hi
      rw [scan_succ, look_high, scan_load] at hi ⊢
      split_ifs at hi ⊢ with hMore
      · exact (scan_most size s i hi).trans_lt hMore
      · exact ih i hi

/-- A search that starts from a least and a most loaded index stays there. -/
theorem scan_of_extreme {size : Nat} {s : Levels} (hLow : ∀ i < size, s.load s.low ≤ s.load i)
    (hHigh : ∀ i < size, s.load i ≤ s.load s.high) : s.scan size = s := by
  induction size with
  | zero => rfl
  | succ size ih =>
      have hLeast := hLow size (Nat.lt_succ_self size)
      have hMost := hHigh size (Nat.lt_succ_self size)
      rw [scan_succ, ih (fun i hi => hLow i (Nat.lt_succ_of_lt hi)) fun i hi =>
        hHigh i (Nat.lt_succ_of_lt hi), look, if_neg (not_lt.mpr hLeast)]
      exact if_neg (not_lt.mpr hMost)

theorem scan_scan (size : Nat) (s : Levels) : (s.scan size).scan size = s.scan size := by
  apply scan_of_extreme
  · rw [scan_load]
    exact scan_least size s
  · rw [scan_load]
    exact scan_most size s

theorem look_within {size i : Nat} {s : Levels} (hi : i < size) (h : s.Within size) :
    (s.look i).Within size := by
  rw [Within, look_low, look_high]
  constructor
  · split_ifs
    · exact hi
    · exact h.1
  · split_ifs
    · exact hi
    · exact h.2

theorem scan_within {size : Nat} {s : Levels} (h : s.Within size) :
    (s.scan size).Within size := by
  have hList (l : List Nat) (hl : ∀ i ∈ l, i < size) (s : Levels) (h : s.Within size) :
      (l.foldl look s).Within size := by
    induction l generalizing s with
    | nil => exact h
    | cons i l ih =>
        exact ih (fun j hj => hl j (List.mem_cons_of_mem i hj)) _
          (look_within (hl i List.mem_cons_self) h)
  exact hList _ (fun i hi => List.mem_range.mp hi) s h

theorem pour_load {s : Levels} (h : s.low ≠ s.high) (i : Nat) :
    s.pour.load i =
      if i = s.low then s.load i + 1 else if i = s.high then s.load i - 1 else s.load i := by
  simp only [pour, Function.update_apply]
  grind

end Levels

open Levels

/-- Who gives in each round, until the loads are level or the rounds are over. -/
def givers (size : Nat) : Nat → Levels → List Nat
  | 0, _ => []
  | rounds + 1, s =>
    let s := s.scan size
    if s.load s.high - s.load s.low > 1 then s.high :: givers size rounds s.pour else []

/-- Nobody has less than `k` by more than one. -/
def Settled (size : Nat) (s : Levels) (k : Nat) : Prop := ∀ i < size, s.load k ≤ s.load i + 1

/-- Nobody has more than `k` by more than one. -/
def Drained (size : Nat) (s : Levels) (k : Nat) : Prop := ∀ i < size, s.load i ≤ s.load k + 1

section Pour

variable {size : Nat} {s : Levels} (hGap : s.load (s.scan size).high - s.load (s.scan size).low > 1)

include hGap

theorem low_ne_high : (s.scan size).low ≠ (s.scan size).high := by
  intro hEq
  rw [hEq] at hGap
  omega

/-- Who has just received is settled. -/
theorem settled_receiver : Settled size (s.scan size).pour (s.scan size).low := by
  intro i hi
  have hLeast := scan_least size s i hi
  simp only [pour_load (low_ne_high hGap), scan_load, if_true]
  split_ifs with hLow hHigh
  · omega
  · rw [hHigh]
    omega
  · omega

/-- A settled load does not give. -/
theorem Settled.ne_high (hWithin : s.Within size) {k : Nat} (h : Settled size s k) :
    k ≠ (s.scan size).high := by
  rintro rfl
  have hLow := h _ (scan_within hWithin).1
  omega

/-- A settled load stays settled. -/
theorem Settled.pour (hWithin : s.Within size) {k : Nat} (hk : k < size) (h : Settled size s k) :
    Settled size (s.scan size).pour k := by
  have hHigh := h.ne_high hGap hWithin
  by_cases hLow : k = (s.scan size).low
  · rw [hLow]
    exact settled_receiver hGap
  · intro i hi
    have hMost := scan_most size s k hk
    have hSettled := h i hi
    simp only [pour_load (low_ne_high hGap), scan_load, hLow, hHigh, if_false]
    split_ifs with hiLow hiHigh
    · omega
    · rw [hiHigh]
      omega
    · omega

/-- Who has just given is drained. -/
theorem drained_giver : Drained size (s.scan size).pour (s.scan size).high := by
  intro i hi
  have hMost := scan_most size s i hi
  simp only [pour_load (low_ne_high hGap), scan_load, (low_ne_high hGap).symm, if_true, if_false]
  split_ifs with hLow hHigh
  · rw [hLow]
    omega
  · omega
  · omega

/-- A drained load does not receive. -/
theorem Drained.ne_low (hWithin : s.Within size) {k : Nat} (h : Drained size s k) :
    k ≠ (s.scan size).low := by
  rintro rfl
  have hHigh := h _ (scan_within hWithin).2
  omega

/-- A drained load stays drained. -/
theorem Drained.pour (hWithin : s.Within size) {k : Nat} (hk : k < size) (h : Drained size s k) :
    Drained size (s.scan size).pour k := by
  have hLow := h.ne_low hGap hWithin
  by_cases hHigh : k = (s.scan size).high
  · rw [hHigh]
    exact drained_giver hGap
  · intro i hi
    have hLeast := scan_least size s k hk
    have hDrained := h i hi
    simp only [pour_load (low_ne_high hGap), scan_load, hLow, hHigh, if_false]
    split_ifs with hiLow hiHigh
    · rw [hiLow]
      omega
    · omega
    · omega

/-- No load ends above all that there were, and none below. -/
theorem pour_le (hWithin : s.Within size) {bound : Int} (h : ∀ i < size, s.load i ≤ bound) :
    ∀ i < size, (s.scan size).pour.load i ≤ bound := by
  intro i hi
  have hHigh := h _ (scan_within hWithin).2
  have hi := h i hi
  rw [pour_load (low_ne_high hGap), scan_load]
  split_ifs with hiLow hiHigh
  · rw [hiLow]
    omega
  · omega
  · exact hi

theorem le_pour (hWithin : s.Within size) {bound : Int} (h : ∀ i < size, bound ≤ s.load i) :
    ∀ i < size, bound ≤ (s.scan size).pour.load i := by
  intro i hi
  have hLow := h _ (scan_within hWithin).1
  have hi := h i hi
  rw [pour_load (low_ne_high hGap), scan_load]
  split_ifs with hiLow hiHigh
  · omega
  · rw [hiHigh]
    omega
  · exact hi

end Pour

/-- Who is settled is never asked to give. -/
theorem Settled.not_mem_givers {size : Nat} {k : Nat} (hk : k < size) (rounds : Nat) {s : Levels}
    (hWithin : s.Within size) (h : Settled size s k) : k ∉ givers size rounds s := by
  induction rounds generalizing s with
  | zero => exact List.not_mem_nil
  | succ rounds ih =>
      simp only [givers, scan_load]
      split_ifs with hGap
      · rw [List.mem_cons, not_or]
        exact ⟨h.ne_high hGap hWithin, ih (scan_within hWithin) (h.pour hGap hWithin hk)⟩
      · exact List.not_mem_nil

/-- Nobody is asked for more than it has. -/
theorem count_givers_le {size : Nat} (rounds : Nat) {s : Levels} (hWithin : s.Within size)
    (hLoad : ∀ k < size, 0 ≤ s.load k) {k : Nat} (hk : k < size) :
    ((givers size rounds s).count k : Int) ≤ s.load k := by
  induction rounds generalizing s with
  | zero => exact hLoad k hk
  | succ rounds ih =>
      simp only [givers, scan_load]
      split_ifs with hGap
      · obtain ⟨hLow, hHigh⟩ := scan_within hWithin
        have hNe := low_ne_high hGap
        have hReceiver : (s.scan size).low ∉ givers size rounds (s.scan size).pour :=
          Settled.not_mem_givers hLow rounds (scan_within hWithin) (settled_receiver hGap)
        have hLowLoad := hLoad _ hLow
        have hPour (i : Nat) (hi : i < size) : 0 ≤ (s.scan size).pour.load i := by
          have hi := hLoad i hi
          rw [pour_load hNe, scan_load]
          split_ifs with hiLow hiHigh
          · omega
          · rw [hiHigh]
            omega
          · exact hi
        have hRest := ih (s := (s.scan size).pour) (scan_within hWithin) hPour
        rw [pour_load hNe, scan_load] at hRest
        rw [List.count_cons]
        by_cases hkLow : k = (s.scan size).low
        · rw [hkLow, List.count_eq_zero.mpr hReceiver]
          simpa [hNe.symm] using hLowLoad
        · by_cases hkHigh : k = (s.scan size).high
          · simp only [hkHigh, hNe.symm, if_true, if_false, beq_self_eq_true] at hRest ⊢
            push_cast
            omega
          · simpa [hkLow, hkHigh, eq_comm (a := (s.scan size).high)] using hRest
      · exact hLoad k hk

end Levelling
