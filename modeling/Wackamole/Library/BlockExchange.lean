import Mathlib.Data.Int.GCD
import Mathlib.Data.Nat.ModEq
import Mathlib.Logic.Equiv.Basic
import Mathlib.Logic.Function.Iterate

/-! Two adjacent blocks of cells change places, each in its own order, one cycle after the
other: a cycle is walked by exchanging each of its cells with the one where it starts. -/
namespace BlockExchange

variable {α : Type*} (cells : Nat → α)

/-- Two cells exchange what they hold. -/
def exchange (i j : Nat) : Nat → α := fun p => cells (Equiv.swap i j p)

@[simp] theorem exchange_left (i j : Nat) : exchange cells i j i = cells j := by
  rw [exchange, Equiv.swap_apply_left]

@[simp] theorem exchange_right (i j : Nat) : exchange cells i j j = cells i := by
  rw [exchange, Equiv.swap_apply_right]

theorem exchange_other {i j p : Nat} (hi : p ≠ i) (hj : p ≠ j) :
    exchange cells i j p = cells p := by
  rw [exchange, Equiv.swap_apply_of_ne_of_ne hi hj]

@[simp] theorem exchange_self (i : Nat) : exchange cells i i = cells := by
  funext p
  rw [exchange, Equiv.swap_self]
  rfl

/-- One step on a cycle: to its next cell, which exchanges with the first one. -/
def hop (next : Nat → Nat) (first : Nat) (s : Nat × (Nat → α)) : Nat × (Nat → α) :=
  (next s.1, exchange s.2 (next s.1) first)

section Cycle

variable {next : Nat → Nat} {first len : Nat}
  (hApart : ∀ i < len, ∀ j < len, next^[i] first = next^[j] first → i = j)

include hApart

/-- On the way, the first cell holds what belongs into the cell after the last one. -/
theorem hop_iterate {k : Nat} (hk : k < len) :
    ((hop next first)^[k] (first, cells)).1 = next^[k] first ∧
      ((hop next first)^[k] (first, cells)).2 first = cells (next^[k] first) ∧
      (∀ i < k, ((hop next first)^[k] (first, cells)).2 (next^[i + 1] first) =
        cells (next^[i] first)) ∧
      ∀ p, (∀ i ≤ k, p ≠ next^[i] first) →
        ((hop next first)^[k] (first, cells)).2 p = cells p := by
  induction k with
  | zero => exact ⟨rfl, rfl, fun i hi => absurd hi (Nat.not_lt_zero i), fun _ _ => rfl⟩
  | succ k ih =>
      obtain ⟨hAt, hFirst, hMoved, hRest⟩ := ih (Nat.lt_of_succ_lt hk)
      have hNext : next ((hop next first)^[k] (first, cells)).1 = next^[k + 1] first := by
        rw [hAt, Function.iterate_succ_apply']
      have hHere (i : Nat) (hi : i < k + 1) : next^[i] first ≠ next^[k + 1] first := fun hEq =>
        hi.ne (hApart i (hi.trans hk) (k + 1) hk hEq)
      rw [Function.iterate_succ_apply', hop, hNext]
      generalize (hop next first)^[k] (first, cells) = s at hAt hFirst hMoved hRest
      refine ⟨rfl, ?_, fun i hi => ?_, fun p hp => ?_⟩
      · have hFree : s.2 (next^[k + 1] first) = cells (next^[k + 1] first) :=
          hRest _ fun i hi => (hHere i (Nat.lt_succ_of_le hi)).symm
        exact (exchange_right _ _ _).trans hFree
      · rcases Nat.lt_succ_iff_lt_or_eq.mp hi with hi | rfl
        · have hOther : next^[i + 1] first ≠ first := fun hEq =>
            Nat.succ_ne_zero i (hApart (i + 1) (by omega) 0 (by omega) hEq)
          exact (exchange_other _ (hHere (i + 1) (by omega)) hOther).trans (hMoved i hi)
        · exact (exchange_left _ _ _).trans hFirst
      · have hOther : p ≠ first := hp 0 (Nat.zero_le _)
        exact (exchange_other _ (hp (k + 1) le_rfl) hOther).trans
          (hRest p fun i hi => hp i (hi.trans (Nat.le_succ k)))

/-- Around the cycle, every cell gets what the one before it had. -/
theorem hop_cycle (hLen : 0 < len) (hBack : next^[len] first = first) :
    (∀ i < len, ((hop next first)^[len] (first, cells)).2 (next^[i + 1] first) =
      cells (next^[i] first)) ∧
    ∀ p, (∀ i < len, p ≠ next^[i] first) →
      ((hop next first)^[len] (first, cells)).2 p = cells p := by
  obtain ⟨k, rfl⟩ : ∃ k, len = k + 1 := ⟨len - 1, by omega⟩
  obtain ⟨hAt, hFirst, hMoved, hRest⟩ := hop_iterate cells hApart k.lt_succ_self
  have hNext : next ((hop next first)^[k] (first, cells)).1 = first := by
    rw [hAt]
    exact (Function.iterate_succ_apply' next k first).symm.trans hBack
  have hLast : ((hop next first)^[k + 1] (first, cells)).2 =
      ((hop next first)^[k] (first, cells)).2 := by
    rw [Function.iterate_succ_apply', hop, hNext, exchange_self]
  rw [hLast]
  refine ⟨fun i hi => ?_, fun p hp => hRest p fun i hi => hp i (Nat.lt_succ_of_le hi)⟩
  rcases Nat.lt_succ_iff_lt_or_eq.mp hi with hi | rfl
  · exact hMoved i hi
  · rw [hBack, hFirst]

end Cycle

section Blocks

variable (start left right : Nat)

/-- Where a cell of the two blocks belongs: a block length on, or back. -/
def follow (p : Nat) : Nat := if start + left ≤ p then p - left else p + right

/-- The cycles from the start of the second block on, so many of so many cells each. -/
def exchangeBlocks (cycles len : Nat) : Nat → α :=
  (List.range cycles).foldl
    (fun cells i => ((hop (follow start left right) (start + left + i))^[len]
      (start + left + i, cells)).2) cells

variable {start left right}

theorem follow_eq {x : Nat} (hx : x < left + right) :
    follow start left right (start + x) = start + (x + right) % (left + right) := by
  unfold follow
  split_ifs with h
  · have hSum : x + right = (x - left) + (left + right) := by omega
    rw [hSum, Nat.add_mod_right, Nat.mod_eq_of_lt (by omega)]
    omega
  · rw [Nat.mod_eq_of_lt (by omega)]
    omega

theorem follow_iterate {x : Nat} (hx : x < left + right) (k : Nat) :
    (follow start left right)^[k] (start + x) = start + (x + k * right) % (left + right) := by
  have hPos : 0 < left + right := by omega
  induction k with
  | zero => rw [Nat.zero_mul, Nat.add_zero, Nat.mod_eq_of_lt hx]; rfl
  | succ k ih =>
      rw [Function.iterate_succ_apply', ih, follow_eq (Nat.mod_lt _ hPos), Nat.mod_add_mod,
        Nat.succ_mul, Nat.add_assoc]

theorem gcd_dvd_sum (left right : Nat) : Nat.gcd left right ∣ left + right :=
  Nat.dvd_add (Nat.gcd_dvd_left left right) (Nat.gcd_dvd_right left right)

theorem follow_apart {x : Nat} (hx : x < left + right) :
    ∀ i < (left + right) / Nat.gcd left right, ∀ j < (left + right) / Nat.gcd left right,
      (follow start left right)^[i] (start + x) = (follow start left right)^[j] (start + x) →
        i = j := by
  intro i hi j hj hEq
  rw [follow_iterate hx, follow_iterate hx, Nat.add_left_cancel_iff] at hEq
  have hSteps : i * right ≡ j * right [MOD left + right] := Nat.ModEq.add_left_cancel' x hEq
  have hClass := hSteps.cancel_right_div_gcd (by omega)
  rw [Nat.gcd_comm, Nat.gcd_add_self_right, Nat.gcd_comm] at hClass
  exact hClass.eq_of_lt_of_lt hi hj

theorem follow_back {x : Nat} (hx : x < left + right) :
    (follow start left right)^[(left + right) / Nat.gcd left right] (start + x) = start + x := by
  obtain ⟨c, hc⟩ := Nat.gcd_dvd_right left right
  have hWhole : (left + right) / Nat.gcd left right * right = (left + right) * c := by
    calc (left + right) / Nat.gcd left right * right
        = (left + right) / Nat.gcd left right * (Nat.gcd left right * c) := by rw [← hc]
      _ = (left + right) / Nat.gcd left right * Nat.gcd left right * c := by rw [Nat.mul_assoc]
      _ = (left + right) * c := by rw [Nat.div_mul_cancel (gcd_dvd_sum left right)]
  rw [follow_iterate hx, hWhole, Nat.add_mul_mod_self_left, Nat.mod_eq_of_lt hx]

variable (hLeft : 0 < left) (hRight : 0 < right)

include hLeft hRight

/-- Every cell of the same class is on the cycle. -/
theorem follow_reaches (start : Nat) {x y : Nat} (hx : x < left + right)
    (hy : y < left + right)
    (hClass : x % Nat.gcd left right = y % Nat.gcd left right) :
    ∃ i < (left + right) / Nat.gcd left right,
      (follow start left right)^[i] (start + x) = start + y := by
  have hSum := gcd_dvd_sum left right
  have hGcd : Nat.gcd right (left + right) = Nat.gcd left right := by
    rw [Nat.gcd_add_self_right, Nat.gcd_comm]
  have hPos : 0 < Nat.gcd left right := Nat.gcd_pos_of_pos_left right hLeft
  have hLess : Nat.gcd right (left + right) < left + right := by
    have := Nat.gcd_le_right left hRight
    omega
  obtain ⟨u, _, hStep⟩ := Nat.exists_mul_mod_eq_gcd hLess
  rw [hGcd] at hStep
  -- The way from `x` to `y` in steps of the greatest common divisor.
  obtain ⟨t, ht⟩ : Nat.gcd left right ∣ y + (left + right) - x := by
    have hEq : x ≡ y + (left + right) [MOD Nat.gcd left right] := by
      have hWhole : left + right ≡ 0 [MOD Nat.gcd left right] := Nat.modEq_zero_iff_dvd.mpr hSum
      exact (show x ≡ y [MOD Nat.gcd left right] from hClass).trans (hWhole.symm.add_left y)
    exact (Nat.modEq_iff_dvd' (by omega)).mp hEq
  refine ⟨u * t % ((left + right) / Nat.gcd left right), Nat.mod_lt _ (Nat.div_pos (by
    have := Nat.gcd_le_right left hRight
    omega) hPos), ?_⟩
  have hFew : u * t % ((left + right) / Nat.gcd left right) * right ≡ u * t * right
      [MOD left + right] := by
    obtain ⟨c, hc⟩ := Nat.gcd_dvd_right left right
    have hModulus : left + right = (left + right) / Nat.gcd left right * Nat.gcd left right :=
      (Nat.div_mul_cancel hSum).symm
    have hMod := Nat.mod_modEq (u * t) ((left + right) / Nat.gcd left right)
    have hScaled := (hMod.mul_right' (Nat.gcd left right)).mul_right c
    rw [← hModulus, Nat.mul_assoc, Nat.mul_assoc (u * t), ← hc] at hScaled
    exact hScaled
  have hAll : u * t * right ≡ y + (left + right) - x [MOD left + right] := by
    have hOne : right * u ≡ Nat.gcd left right [MOD left + right] := by
      rw [Nat.ModEq, hStep, Nat.mod_eq_of_lt]
      rwa [hGcd] at hLess
    have hMany := hOne.mul_right t
    rw [← ht] at hMany
    rwa [Nat.mul_comm (u * t), ← Nat.mul_assoc]
  rw [follow_iterate hx, Nat.add_left_cancel_iff]
  calc (x + u * t % ((left + right) / Nat.gcd left right) * right) % (left + right)
      = (x + (y + (left + right) - x)) % (left + right) := (hFew.trans hAll).add_left x
    _ = (y + (left + right)) % (left + right) := by rw [Nat.add_sub_cancel' (by omega)]
    _ = y := by rw [Nat.add_mod_right, Nat.mod_eq_of_lt hy]

/-- The cycles so far have moved their classes, and nothing else. -/
structure Moved (cells cells' : Nat → α) (start left right k : Nat) : Prop where
  done : ∀ x < left + right, x % Nat.gcd left right < k →
    cells' (start + (x + right) % (left + right)) = cells (start + x)
  pending : ∀ x < left + right, k ≤ x % Nat.gcd left right → cells' (start + x) = cells (start + x)
  outside : ∀ p, (∀ x < left + right, p ≠ start + x) → cells' p = cells p

theorem Moved.cycle {cells' : Nat → α} {k : Nat} (hk : k < Nat.gcd left right)
    (h : Moved cells cells' start left right k) :
    Moved cells ((hop (follow start left right) (start + left + k))^[(left + right) /
      Nat.gcd left right] (start + left + k, cells')).2 start left right (k + 1) := by
  have hSum := gcd_dvd_sum left right
  have hLess := Nat.gcd_le_right left hRight
  have hFirst : left + k < left + right := by omega
  have hLen : 0 < (left + right) / Nat.gcd left right :=
    Nat.div_pos (by omega) (Nat.gcd_pos_of_pos_left right hLeft)
  have hClass : (left + k) % Nat.gcd left right = k := by
    rw [Nat.add_mod, Nat.mod_eq_zero_of_dvd (Nat.gcd_dvd_left left right), Nat.zero_add,
      Nat.mod_mod, Nat.mod_eq_of_lt hk]
  have hStay (x i : Nat) : (x + i * right) % (left + right) % Nat.gcd left right =
      x % Nat.gcd left right := by
    have hSteps : i * right % Nat.gcd left right = 0 :=
      Nat.mod_eq_zero_of_dvd ((Nat.gcd_dvd_right left right).mul_left i)
    rw [Nat.mod_mod_of_dvd _ hSum, Nat.add_mod, hSteps, Nat.add_zero, Nat.mod_mod]
  obtain ⟨hMoved, hRest⟩ := hop_cycle cells' (follow_apart hFirst) hLen (follow_back hFirst)
  simp only [← Nat.add_assoc] at hMoved hRest
  generalize ((hop (follow start left right) (start + left + k))^[(left + right) /
    Nat.gcd left right] (start + left + k, cells')).2 = cells'' at hMoved hRest
  have hOff (y : Nat) (hy : y < left + right) (hOther : y % Nat.gcd left right ≠ k) :
      cells'' (start + y) = cells' (start + y) := by
    refine hRest _ fun i _ hEq => hOther ?_
    rw [Nat.add_assoc, follow_iterate hFirst, Nat.add_left_cancel_iff] at hEq
    rw [hEq, hStay, hClass]
  refine ⟨fun x hx hDone => ?_, fun x hx hOpen => ?_, fun p hp => ?_⟩
  · have hTarget : (x + right) % (left + right) % Nat.gcd left right = x % Nat.gcd left right := by
      simpa only [Nat.one_mul] using hStay x 1
    rcases Nat.lt_succ_iff_lt_or_eq.mp hDone with hBefore | hNow
    · rw [hOff _ (Nat.mod_lt _ (by omega)) (by omega)]
      exact h.done x hx hBefore
    · obtain ⟨i, hi, hReach⟩ := follow_reaches hLeft hRight start hFirst hx
        (hClass.trans hNow.symm)
      have hStep := hMoved i hi
      rw [Function.iterate_succ_apply', Nat.add_assoc, hReach, follow_eq hx] at hStep
      rw [hStep, h.pending x hx hNow.ge]
  · rw [hOff x hx (by omega)]
    exact h.pending x hx (by omega)
  · rw [hRest p fun i _ hEq => ?_]
    · exact h.outside p hp
    · rw [Nat.add_assoc, follow_iterate hFirst] at hEq
      exact hp _ (Nat.mod_lt _ (by omega)) hEq

/-- The two blocks have changed places. -/
theorem exchangeBlocks_spec (start : Nat) :
    (∀ x < left, exchangeBlocks cells start left right (Nat.gcd left right)
      ((left + right) / Nat.gcd left right) (start + right + x) = cells (start + x)) ∧
    (∀ x < right, exchangeBlocks cells start left right (Nat.gcd left right)
      ((left + right) / Nat.gcd left right) (start + x) = cells (start + left + x)) ∧
    ∀ p, (p < start ∨ start + left + right ≤ p) →
      exchangeBlocks cells start left right (Nat.gcd left right)
        ((left + right) / Nat.gcd left right) p = cells p := by
  have hAll (k : Nat) (hk : k ≤ Nat.gcd left right) :
      Moved cells (exchangeBlocks cells start left right k
        ((left + right) / Nat.gcd left right)) start left right k := by
    induction k with
    | zero => exact ⟨fun _ _ hLess => absurd hLess (Nat.not_lt_zero _), fun _ _ _ => rfl,
        fun _ _ => rfl⟩
    | succ k ih =>
        have hNext := (ih (Nat.le_of_succ_le hk)).cycle cells hLeft hRight hk
        rw [exchangeBlocks, List.range_succ, List.foldl_append]
        exact hNext
  obtain ⟨hDone, _, hOutside⟩ := hAll _ le_rfl
  have hGcd : 0 < Nat.gcd left right := Nat.gcd_pos_of_pos_left right hLeft
  refine ⟨fun x hx => ?_, fun x hx => ?_, fun p hp => hOutside p fun x hx => by omega⟩
  · have hMoved := hDone x (by omega) (Nat.mod_lt _ hGcd)
    rwa [Nat.mod_eq_of_lt (by omega), Nat.add_comm x, ← Nat.add_assoc] at hMoved
  · have hMoved := hDone (left + x) (by omega) (Nat.mod_lt _ hGcd)
    have hBack : (left + x + right) % (left + right) = x := by
      rw [Nat.add_right_comm, Nat.add_mod_left, Nat.mod_eq_of_lt (by omega)]
    rwa [hBack, ← Nat.add_assoc] at hMoved

end Blocks

end BlockExchange
