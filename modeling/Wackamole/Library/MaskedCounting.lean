import Mathlib.Data.BitVec

/-! Counting up from a word for as long as its bits under a mask stay the same. -/
namespace MaskedCounting

variable {width : Nat}

/-- The least significant bit of a mask. -/
structure LowestBit (mask : BitVec width) (p : Nat) : Prop where
  set : mask.getLsbD p = true
  below : ∀ j, j < p → mask.getLsbD j = false

theorem exists_lowestBit {mask : BitVec width} (h : mask ≠ BitVec.ofNat width 0) :
    ∃ p, LowestBit mask p := by
  have hSome : ∃ p, mask.getLsbD p = true := by
    by_contra hNone
    refine h (BitVec.eq_of_getLsbD_eq fun i _ => ?_)
    rw [BitVec.getLsbD_zero]
    exact Bool.eq_false_iff.mpr fun hBit => hNone ⟨i, hBit⟩
  exact ⟨Nat.find hSome, Nat.find_spec hSome,
    fun j hj => Bool.eq_false_iff.mpr (Nat.find_min hSome hj)⟩

section Lowest

variable {mask base : BitVec width} {p : Nat} (hp : LowestBit mask p)

include hp

theorem LowestBit.lt : p < width := by
  by_contra hNot
  have hBit := hp.set
  rw [BitVec.getLsbD_of_ge _ _ (by omega)] at hBit
  cases hBit

/-- Adding the lowest bit of the mask changes a word under the mask. -/
theorem add_twoPow_and_mask : (base + BitVec.ofNat width (2 ^ p)) &&& mask ≠ base := by
  intro hEq
  have hlt := hp.lt
  have hBit := congrArg (fun w : BitVec width => w.getLsbD p) hEq
  have hPow : (BitVec.ofNat width (2 ^ p)).toNat = 2 ^ p := by
    rw [BitVec.toNat_ofNat]
    exact Nat.mod_eq_of_lt (Nat.pow_lt_pow_right (by decide) hlt)
  have hCarry : BitVec.carry p base (BitVec.ofNat width (2 ^ p)) false = false := by
    rw [BitVec.carry, hPow, Nat.mod_self, Bool.toNat_false, Nat.add_zero]
    exact decide_eq_false (Nat.not_le.mpr (Nat.mod_lt _ (Nat.two_pow_pos p)))
  simp only [BitVec.getLsbD_and, hp.set, Bool.and_true, BitVec.getLsbD_add hlt, hCarry,
    BitVec.getLsbD_ofNat, Nat.testBit_two_pow_self] at hBit
  simp [hlt] at hBit

variable (hBase : base &&& mask = base)

include hBase

/-- A masked word has no bits below those of the mask. -/
theorem getLsbD_below {j : Nat} (hj : j < p) : base.getLsbD j = false := by
  rw [← hBase, BitVec.getLsbD_and, hp.below j hj, Bool.and_false]

theorem and_ofNat {k : Nat} (hk : k < 2 ^ p) :
    base &&& BitVec.ofNat width k = BitVec.ofNat width 0 := by
  apply BitVec.eq_of_getLsbD_eq
  intro i hi
  rw [BitVec.getLsbD_and, BitVec.getLsbD_zero]
  by_cases hip : i < p
  · rw [getLsbD_below hp hBase hip, Bool.false_and]
  · have hBit : k.testBit i = false := by
      apply Nat.testBit_lt_two_pow
      exact hk.trans_le (Nat.pow_le_pow_right (by decide) (by omega))
    rw [BitVec.getLsbD_ofNat, hBit, Bool.and_false, Bool.and_false]

/-- The words after a masked one agree with it under the mask until they reach its lowest
bit. -/
theorem add_and_mask {k : Nat} (hk : k < 2 ^ p) :
    (base + BitVec.ofNat width k) &&& mask = base := by
  rw [BitVec.add_eq_or_of_and_eq_zero _ _ (and_ofNat hp hBase hk)]
  apply BitVec.eq_of_getLsbD_eq
  intro i hi
  rw [BitVec.getLsbD_and, BitVec.getLsbD_or, BitVec.getLsbD_ofNat]
  by_cases hip : i < p
  · rw [hp.below i hip, getLsbD_below hp hBase hip, Bool.and_false]
  · have hBit : k.testBit i = false := by
      apply Nat.testBit_lt_two_pow
      exact hk.trans_le (Nat.pow_le_pow_right (by decide) (by omega))
    rw [hBit, Bool.and_false, Bool.or_false, ← BitVec.getLsbD_and, hBase]

end Lowest

end MaskedCounting
