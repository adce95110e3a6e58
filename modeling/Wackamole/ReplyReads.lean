import Wackamole.TableReply
import Mathlib.Algebra.BigOperators.Group.Finset.Basic
import Mathlib.Algebra.Order.Ring.Int

/-! The loop in which `get_state` of `wackatrl.c` reads the reply, for all results of `read`. -/
namespace Wackamole

open HostWords

/-- How the loop ends. -/
inductive ReadEnd where
  | complete
  | error
  deriving DecidableEq

/-- `while(toread>0)`, with a bound on the calls of `read` and with their results. -/
def readLoop : Nat → Int → (Nat → Int) → Option ReadEnd
  | 0, toread, _ => if toread > 0 then none else some .complete
  | reads + 1, toread, rets =>
    if toread > 0 then
      if rets 0 < 0 then some .error
      else readLoop reads (toread - rets 0) fun k => rets (k + 1)
    else some .complete

/-- The loop ends after finitely many reads, with an error or with all bytes. -/
def LeavesLoop (size : Int) (rets : Nat → Int) : Prop :=
  ∃ reads, readLoop reads size rets = some .error ∨
    readLoop reads size rets = some .complete ∧ size ≤ ∑ k ∈ Finset.range reads, rets k

/-- The connection is closed at some time, after which `read` returns 0, or a read fails. -/
def Ends (rets : Nat → Int) : Prop := (∃ n, ∀ k, n ≤ k → rets k = 0) ∨ ∃ k, rets k < 0

variable {size : Int} {rets : Nat → Int}

theorem leavesLoop_of_nonpos (h : size ≤ 0) : LeavesLoop size rets :=
  ⟨0, .inr ⟨if_neg (not_lt.mpr h), h⟩⟩

theorem leavesLoop_of_failed (h : rets 0 < 0) : LeavesLoop size rets := by
  by_cases hSize : size > 0
  · refine ⟨1, .inl ?_⟩
    rw [readLoop, if_pos hSize, if_pos h]
  · exact leavesLoop_of_nonpos (not_lt.mp hSize)

/-- A read that does not fail leaves the loop with the other reads. -/
theorem LeavesLoop.read (hRet : 0 ≤ rets 0)
    (h : LeavesLoop (size - rets 0) fun k => rets (k + 1)) : LeavesLoop size rets := by
  by_cases hSize : size > 0
  · obtain ⟨reads, hEnd⟩ := h
    have hLoop : readLoop (reads + 1) size rets =
        readLoop reads (size - rets 0) fun k => rets (k + 1) := by
      rw [readLoop, if_pos hSize, if_neg (not_lt.mpr hRet)]
    refine ⟨reads + 1, ?_⟩
    rw [hLoop, Finset.sum_range_succ']
    rcases hEnd with hError | ⟨hComplete, hBytes⟩
    · exact .inl hError
    · have hLeft : size - rets 0 ≤ ∑ k ∈ Finset.range reads, rets (k + 1) := hBytes
      exact .inr ⟨hComplete, by omega⟩
  · exact leavesLoop_of_nonpos (not_lt.mp hSize)

/-- A read that fails ends the loop at the latest. -/
theorem leavesLoop_of_error {k : Nat} (h : rets k < 0) : LeavesLoop size rets := by
  induction k generalizing size rets with
  | zero => exact leavesLoop_of_failed h
  | succ k ih =>
      by_cases hRet : 0 ≤ rets 0
      · have hRest : (fun k => rets (k + 1)) k < 0 := h
        exact LeavesLoop.read hRet (ih hRest)
      · exact leavesLoop_of_failed (not_le.mp hRet)

/-- So does the read that makes the bytes complete. -/
theorem leavesLoop_of_sum {k : Nat} (h : size ≤ ∑ i ∈ Finset.range k, rets i) :
    LeavesLoop size rets := by
  induction k generalizing size rets with
  | zero => exact leavesLoop_of_nonpos h
  | succ k ih =>
      rw [Finset.sum_range_succ'] at h
      by_cases hRet : 0 ≤ rets 0
      · exact LeavesLoop.read hRet (ih (by omega))
      · exact leavesLoop_of_failed (not_le.mp hRet)

theorem failed_of_readLoop {reads : Nat} (h : readLoop reads size rets = some .error) :
    ∃ k, rets k < 0 := by
  induction reads generalizing size rets with
  | zero =>
      rw [readLoop] at h
      split_ifs at h
      cases h
  | succ reads ih =>
      rw [readLoop] at h
      split_ifs at h with hSize hFailed
      · exact ⟨0, hFailed⟩
      · obtain ⟨k, hk⟩ := ih h
        exact ⟨k + 1, hk⟩
      · cases h

/-- `get_state` leaves its loop exactly if a read fails or the results of `read` add up to the
announced size. -/
theorem leavesLoop_iff (size : Int) (rets : Nat → Int) : LeavesLoop size rets ↔
    (∃ k, rets k < 0) ∨ ∃ k, size ≤ ∑ i ∈ Finset.range k, rets i := by
  constructor
  · rintro ⟨reads, hError | ⟨_, hBytes⟩⟩
    · exact .inl (failed_of_readLoop hError)
    · exact .inr ⟨reads, hBytes⟩
  · rintro (⟨k, hFailed⟩ | ⟨k, hBytes⟩)
    · exact leavesLoop_of_error hFailed
    · exact leavesLoop_of_sum hBytes

/-- The loop in the model of the whole reply ends with all bytes. -/
theorem leavesLoop_of_readAll {rets : List Nat} {toread : Nat} {stream buffer : List Byte}
    (h : readAll rets toread stream = some buffer) :
    LeavesLoop toread fun k => (rets.getD k 0 : Nat) := by
  induction rets generalizing toread stream buffer with
  | nil =>
      rw [readAll] at h
      split_ifs at h with hNone
      exact leavesLoop_of_nonpos (by omega)
  | cons ret rets ih =>
      rw [readAll] at h
      split_ifs at h with hNone
      · exact leavesLoop_of_nonpos (by omega)
      · obtain ⟨rest, hRest, -⟩ := Option.map_eq_some_iff.mp h
        refine LeavesLoop.read (Int.natCast_nonneg ret) ?_
        by_cases hAll : toread ≤ ret
        · exact leavesLoop_of_nonpos (by simp; omega)
        · have hLeft := ih hRest
          rw [Nat.cast_sub (by omega)] at hLeft
          exact hLeft

/-- The reply for one virtual interface has 900 bytes behind its size. When the daemon closes
the session after 500 of them, the loop goes on for ever. -/
theorem not_leavesLoop_closed : ¬ ∀ (size : Int) (rets : Nat → Int), Ends rets →
    LeavesLoop size rets := by
  intro h
  have hClosed : Ends fun k => if k = 0 then 500 else 0 :=
    .inl ⟨1, fun k hk => if_neg (by omega)⟩
  rcases (leavesLoop_iff 900 _).mp (h 900 _ hClosed) with ⟨k, hFailed⟩ | ⟨k, hBytes⟩
  · split_ifs at hFailed <;> omega
  · rw [Finset.sum_ite_eq'] at hBytes
    split_ifs at hBytes <;> omega

end Wackamole
