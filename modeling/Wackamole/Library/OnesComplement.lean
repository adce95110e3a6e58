import Mathlib.Algebra.BigOperators.Group.List.Basic
import Mathlib.Data.Nat.ModEq

/-! Sums with end-around carry: what overflows to the left is added on the right. The words
are digits in some base, and the sums are those modulo one less than the base, in which
zero has two representations. -/
namespace OnesComplement

/-- A sum of digits, folded once. -/
def fold (base n : Nat) : Nat := n / base + n % base

/-- The end-around carry sum of a list of digits. -/
def sum (base : Nat) (words : List Nat) : Nat := words.foldl (fun s w => fold base (s + w)) 0

variable {base : Nat}

theorem fold_eq_zero {n : Nat} : fold base n = 0 ↔ n = 0 := by
  constructor
  · intro h
    have hSplit := Nat.div_add_mod n base
    have hParts : n / base = 0 ∧ n % base = 0 := Nat.add_eq_zero_iff.mp h
    rwa [hParts.1, hParts.2, Nat.mul_zero, Nat.add_zero, eq_comm] at hSplit
  · rintro rfl
    rw [fold, Nat.zero_div, Nat.zero_mod]

variable (hBase : 2 ≤ base)

include hBase

theorem fold_modEq (n : Nat) : fold base n ≡ n [MOD base - 1] := by
  have hSplit : base * (n / base) + n % base = (base - 1) * (n / base) + fold base n := by
    obtain ⟨pred, rfl⟩ : ∃ pred, base = pred + 1 := ⟨base - 1, by omega⟩
    rw [fold, Nat.add_sub_cancel, Nat.succ_mul, Nat.add_assoc]
  rw [Nat.div_add_mod] at hSplit
  have hMod : n % (base - 1) = fold base n % (base - 1) :=
    calc n % (base - 1)
        = ((base - 1) * (n / base) + fold base n) % (base - 1) := congrArg (· % (base - 1)) hSplit
      _ = fold base n % (base - 1) := Nat.mul_add_mod ..
  exact hMod.symm

/-- One fold brings the sum of two digits back to one digit. -/
theorem fold_add_lt {s w : Nat} (hs : s < base) (hw : w < base) : fold base (s + w) < base := by
  rw [fold]
  by_cases hCarry : s + w < base
  · rw [Nat.div_eq_of_lt hCarry, Nat.mod_eq_of_lt hCarry]
    omega
  · have hOne : (s + w) / base = 1 := by
      rw [Nat.div_eq_iff (by omega)]
      omega
    have hSplit := Nat.div_add_mod (s + w) base
    rw [hOne] at hSplit ⊢
    omega

theorem foldl_spec {words : List Nat} (hWords : ∀ w ∈ words, w < base) {s : Nat} (hs : s < base) :
    words.foldl (fun s w => fold base (s + w)) s < base ∧
      words.foldl (fun s w => fold base (s + w)) s ≡ s + words.sum [MOD base - 1] ∧
        (words.foldl (fun s w => fold base (s + w)) s = 0 ↔ s + words.sum = 0) := by
  induction words generalizing s with
  | nil => exact ⟨hs, Nat.ModEq.refl _, Iff.rfl⟩
  | cons w words ih =>
      have hw : w < base := hWords w List.mem_cons_self
      obtain ⟨hLt, hMod, hZero⟩ := ih (fun v hv => hWords v (List.mem_cons_of_mem w hv))
        (fold_add_lt hBase hs hw)
      rw [List.foldl_cons, List.sum_cons]
      refine ⟨hLt, ?_, ?_⟩
      · calc words.foldl (fun s w => fold base (s + w)) (fold base (s + w))
            ≡ fold base (s + w) + words.sum [MOD base - 1] := hMod
          _ ≡ (s + w) + words.sum [MOD base - 1] := (fold_modEq hBase _).add_right _
          _ = s + (w + words.sum) := Nat.add_assoc ..
      · have hFold : fold base (s + w) = 0 ↔ s + w = 0 := fold_eq_zero
        rw [hZero]
        omega

variable {words : List Nat} (hWords : ∀ w ∈ words, w < base)

include hWords

theorem sum_lt : sum base words < base :=
  (foldl_spec hBase hWords (by omega)).1

theorem sum_modEq : sum base words ≡ words.sum [MOD base - 1] := by
  have hMod := (foldl_spec hBase hWords (show 0 < base by omega)).2.1
  rwa [Nat.zero_add] at hMod

theorem sum_eq_zero : sum base words = 0 ↔ words.sum = 0 := by
  have hZero := (foldl_spec hBase hWords (show 0 < base by omega)).2.2
  rwa [Nat.zero_add] at hZero

/-- The sum has all digits set exactly if the words add up to a positive multiple of the
modulus. -/
theorem sum_eq_last_iff : sum base words = base - 1 ↔ (base - 1) ∣ words.sum ∧ words.sum ≠ 0 := by
  have hLt := sum_lt hBase hWords
  have hMod := sum_modEq hBase hWords
  have hZero := sum_eq_zero hBase hWords
  constructor
  · intro h
    rw [h] at hMod hZero
    refine ⟨(Nat.modEq_zero_iff_dvd).mp (hMod.symm.trans ?_), fun h0 => ?_⟩
    · exact (Nat.modEq_zero_iff_dvd).mpr (Nat.dvd_refl _)
    · have hNone := hZero.mpr h0
      omega
  · rintro ⟨hDvd, hNe⟩
    have hPos : sum base words ≠ 0 := fun h0 => hNe (hZero.mp h0)
    have hDvd' : (base - 1) ∣ sum base words :=
      (Nat.modEq_zero_iff_dvd).mp (hMod.trans ((Nat.modEq_zero_iff_dvd).mpr hDvd))
    have hLe := Nat.le_of_dvd (Nat.pos_of_ne_zero hPos) hDvd'
    omega

end OnesComplement
