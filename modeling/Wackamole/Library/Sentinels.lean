import Mathlib.Data.List.TakeWhile

/-! Arrays whose elements end at the first one that fails a test, read together with what
lies behind them. -/
namespace Sentinels

variable {Item : Type*} (p : Item → Bool)

/-- Reading goes on behind the array only if every element of it and the first one behind
it pass. -/
theorem takeWhile_append_cons (xs : List Item) (y : Item) (ys : List Item) :
    ∃ more, (xs ++ y :: ys).takeWhile p = xs.takeWhile p ++ more ∧
      (more = [] ↔ (∃ x ∈ xs, p x = false) ∨ p y = false) := by
  induction xs with
  | nil =>
      refine ⟨(y :: ys).takeWhile p, rfl, ?_⟩
      cases hy : p y <;> simp [hy]
  | cons x xs ih =>
      obtain ⟨more, hTake, hMore⟩ := ih
      cases hx : p x with
      | true =>
          refine ⟨more, ?_, by simp [hx, hMore]⟩
          rw [List.cons_append, List.takeWhile_cons_of_pos hx, hTake, List.takeWhile_cons_of_pos hx,
            List.cons_append]
      | false =>
          refine ⟨[], ?_, by simp [hx]⟩
          rw [List.cons_append, List.takeWhile_cons_of_neg (by simp [hx]),
            List.takeWhile_cons_of_neg (by simp [hx]), List.append_nil]

end Sentinels
