import Mathlib.Data.List.TakeWhile
import Mathlib.Algebra.Group.Nat.Even

/-! Decimal numerals in text: what `atoi` reads, and what it reads back of the numerals that
`Nat.toDigits` writes. -/
namespace Decimal

def isSpace (c : Char) : Bool := c.toNat = 32 || (9 ≤ c.toNat && c.toNat ≤ 13)

/-- The value of the digits at the start of a text. -/
def leading (text : List Char) : Nat := Nat.ofDigitChars 10 (text.takeWhile Char.isDigit) 0

/-- `atoi`, without its overflow. -/
def atoi (text : List Char) : Int :=
  match text.dropWhile isSpace with
  | '-' :: rest => -(leading rest : Int)
  | '+' :: rest => leading rest
  | rest => leading rest

/-- A nonempty text of digits. -/
def Numeral (ds : List Char) : Prop := ds ≠ [] ∧ ∀ c ∈ ds, c.isDigit = true

instance (ds : List Char) : Decidable (Numeral ds) :=
  @instDecidableAnd _ _ _ (List.decidableBAll (fun c => c.isDigit = true) ds)

section Digits

theorem isDigit_iff {c : Char} : c.isDigit = true ↔ 48 ≤ c.toNat ∧ c.toNat ≤ 57 := by
  rw [Char.isDigit, Bool.and_eq_true, decide_eq_true_eq, decide_eq_true_eq, UInt32.le_iff_toNat_le,
    ge_iff_le, UInt32.le_iff_toNat_le]
  exact Iff.rfl

theorem value_cons (c : Char) (ds : List Char) : Nat.ofDigitChars 10 (c :: ds) 0 =
    10 ^ ds.length * (c.toNat - 48) + Nat.ofDigitChars 10 ds 0 := by
  rw [Nat.ofDigitChars_cons, Nat.ofDigitChars_eq_ofDigitChars_zero]
  simp

theorem value_lt {ds : List Char} (h : ∀ c ∈ ds, c.isDigit = true) :
    Nat.ofDigitChars 10 ds 0 < 10 ^ ds.length := by
  induction ds with
  | nil => exact Nat.zero_lt_one
  | cons c ds ih =>
      have hRest := ih fun c' hc' => h c' (List.mem_cons_of_mem c hc')
      have hDigit := isDigit_iff.mp (h c List.mem_cons_self)
      have hMul : 10 ^ ds.length * (c.toNat - 48) ≤ 10 ^ ds.length * 9 :=
        Nat.mul_le_mul_left _ (by omega)
      rw [value_cons, List.length_cons, Nat.pow_succ]
      omega

/-- Texts of digits of the same length are determined by their values. -/
theorem value_injective {ds ds' : List Char} (h : ∀ c ∈ ds, c.isDigit = true)
    (h' : ∀ c ∈ ds', c.isDigit = true) (hLength : ds.length = ds'.length)
    (hValue : Nat.ofDigitChars 10 ds 0 = Nat.ofDigitChars 10 ds' 0) : ds = ds' := by
  induction ds generalizing ds' with
  | nil => exact (List.length_eq_zero_iff.mp hLength.symm).symm
  | cons c ds ih =>
      cases ds' with
      | nil => cases hLength
      | cons c' ds' =>
          rw [List.length_cons, List.length_cons, Nat.add_right_cancel_iff] at hLength
          have hRest : ∀ a ∈ ds, a.isDigit = true := fun a ha => h a (List.mem_cons_of_mem c ha)
          have hRest' : ∀ a ∈ ds', a.isDigit = true := fun a ha => h' a (List.mem_cons_of_mem c' ha)
          have hLt := value_lt hRest
          have hLt' := value_lt hRest'
          have hDigit := isDigit_iff.mp (h c List.mem_cons_self)
          have hDigit' := isDigit_iff.mp (h' c' List.mem_cons_self)
          rw [value_cons, value_cons, ← hLength] at hValue
          rw [← hLength] at hLt'
          have hHead : c.toNat - 48 = c'.toNat - 48 := by
            have hDiv := congrArg (· / 10 ^ ds.length) hValue
            simpa only [Nat.mul_add_div (Nat.pow_pos (show 0 < 10 by decide)),
              Nat.div_eq_of_lt hLt, Nat.div_eq_of_lt hLt', Nat.add_zero] using hDiv
          have hTail : Nat.ofDigitChars 10 ds 0 = Nat.ofDigitChars 10 ds' 0 := by
            rw [hHead] at hValue
            exact Nat.add_left_cancel hValue
          have hChar : c = c' := Char.toNat_inj.mp (by omega)
          rw [hChar, ih hRest hRest' hLength hTail]

theorem numeral_toDigits (n : Nat) : Numeral (Nat.toDigits 10 n) :=
  ⟨Nat.toDigits_ne_nil, fun _ hc => Nat.isDigit_of_mem_toDigits (by decide) (by decide) hc⟩

/-- A text of digits is at least as long as the numeral of its value. -/
theorem length_toDigits_le {ds : List Char} (h : Numeral ds) :
    (Nat.toDigits 10 (Nat.ofDigitChars 10 ds 0)).length ≤ ds.length :=
  (Nat.length_toDigits_le_iff (by decide) (List.length_pos_iff.mpr h.1)).mpr (value_lt h.2)

theorem length_toDigits_mono {m n : Nat} (h : m ≤ n) :
    (Nat.toDigits 10 m).length ≤ (Nat.toDigits 10 n).length := by
  have hPos : 0 < (Nat.toDigits 10 n).length := Nat.length_toDigits_pos
  have hLt := (Nat.length_toDigits_le_iff (n := n) (by decide) hPos).mp (Nat.le_refl _)
  exact (Nat.length_toDigits_le_iff (by decide) hPos).mpr (h.trans_lt hLt)

end Digits

section Atoi

theorem isSpace_of_isDigit {c : Char} (h : c.isDigit = true) : isSpace c = false := by
  have hDigit := isDigit_iff.mp h
  simp only [isSpace, Bool.or_eq_false_iff, Bool.and_eq_false_iff, decide_eq_false_iff_not]
  omega

/-- What `atoi` reads of a text that starts with digits. -/
theorem atoi_append {ds rest : List Char} (h : Numeral ds)
    (hRest : ∀ c ∈ rest.head?, c.isDigit = false) :
    atoi (ds ++ rest) = Nat.ofDigitChars 10 ds 0 := by
  obtain ⟨hNonempty, hDigits⟩ := h
  have hStop : rest.takeWhile Char.isDigit = [] := by
    cases rest with
    | nil => rfl
    | cons c rest => rw [List.takeWhile_cons_of_neg (by simpa using hRest c rfl)]
  have hLeading : leading (ds ++ rest) = Nat.ofDigitChars 10 ds 0 := by
    rw [leading, List.takeWhile_append_of_pos hDigits, hStop, List.append_nil]
  cases ds with
  | nil => exact absurd rfl hNonempty
  | cons c ds =>
      have hDigit := hDigits c List.mem_cons_self
      have hDrop : ((c :: ds) ++ rest).dropWhile isSpace = (c :: ds) ++ rest := by
        rw [List.cons_append, List.dropWhile_cons_of_neg (by simp [isSpace_of_isDigit hDigit])]
      rw [atoi, hDrop]
      split
      · rename_i hMinus
        cases hMinus
        exact absurd hDigit (by decide)
      · rename_i hPlus
        cases hPlus
        exact absurd hDigit (by decide)
      · exact congrArg Int.ofNat hLeading

theorem atoi_numeral {ds : List Char} (h : Numeral ds) : atoi ds = Nat.ofDigitChars 10 ds 0 := by
  have hAppend : atoi (ds ++ []) = _ := atoi_append h (fun c hc => by cases hc)
  rwa [List.append_nil] at hAppend

theorem atoi_toDigits (n : Nat) : atoi (Nat.toDigits 10 n) = n := by
  rw [atoi_numeral (numeral_toDigits n), Nat.ofDigitChars_ten_toDigits]

/-- A positive value comes from digits somewhere in the text. -/
theorem exists_numeral {text : List Char} {n : Nat} (hPos : 0 < n) (h : atoi text = n) :
    ∃ before ds after, text = before ++ ds ++ after ∧ Numeral ds ∧
      Nat.ofDigitChars 10 ds 0 = n := by
  have hLeading {rest : List Char} (hRest : leading rest = n) :
      ∃ ds after, rest = ds ++ after ∧ Numeral ds ∧ Nat.ofDigitChars 10 ds 0 = n := by
    refine ⟨rest.takeWhile Char.isDigit, rest.dropWhile Char.isDigit,
      List.takeWhile_append_dropWhile.symm, ⟨fun hNil => ?_, fun c hc => List.mem_takeWhile_imp hc⟩,
      hRest⟩
    rw [leading, hNil, Nat.ofDigitChars_nil] at hRest
    omega
  have hText := (List.takeWhile_append_dropWhile (p := isSpace) (l := text)).symm
  rw [atoi] at h
  split at h
  · omega
  · rename_i rest hDrop
    obtain ⟨ds, after, rfl, hNumeral, hValue⟩ := hLeading (Int.ofNat.inj h)
    refine ⟨text.takeWhile isSpace ++ ['+'], ds, after, ?_, hNumeral, hValue⟩
    rw [hDrop] at hText
    simpa using hText
  · obtain ⟨ds, after, hDrop, hNumeral, hValue⟩ := hLeading (Int.ofNat.inj h)
    refine ⟨text.takeWhile isSpace, ds, after, ?_, hNumeral, hValue⟩
    rw [hDrop] at hText
    simpa using hText

/-- A text that is not longer than the numeral of its positive value is this numeral. -/
theorem eq_toDigits {text : List Char} {n : Nat} (hPos : 0 < n) (h : atoi text = n)
    (hShort : text.length ≤ (Nat.toDigits 10 n).length) : text = Nat.toDigits 10 n := by
  obtain ⟨before, ds, after, rfl, hNumeral, rfl⟩ := exists_numeral hPos h
  have hLong := length_toDigits_le hNumeral
  simp only [List.length_append] at hShort
  obtain rfl : before = [] := List.length_eq_zero_iff.mp (by omega)
  obtain rfl : after = [] := List.length_eq_zero_iff.mp (by omega)
  rw [List.nil_append, List.append_nil]
  refine value_injective hNumeral.2 (numeral_toDigits _).2 ?_ Nat.ofDigitChars_ten_toDigits.symm
  omega

end Atoi

end Decimal
