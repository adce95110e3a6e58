import Mathlib.Data.List.Basic

/-! A queue that is worked off in rounds, with a bound on the items that a round takes, or with
none if the bound is zero. -/
namespace Batches

variable {Item State : Type*} {cap : Nat} {queue wanted : List Item} {log : Nat → List Item}

/-- What a round takes off the queue. -/
def batch (cap : Nat) (queue : List Item) : List Item :=
  if cap = 0 then queue else queue.take cap

def rest (cap : Nat) (queue : List Item) : List Item :=
  if cap = 0 then [] else queue.drop cap

theorem batch_append_rest (cap : Nat) (queue : List Item) :
    batch cap queue ++ rest cap queue = queue := by
  unfold batch rest
  split_ifs
  · exact List.append_nil queue
  · exact List.take_append_drop cap queue

theorem batch_eq_take (cap : Nat) (queue : List Item) :
    batch cap queue = queue.take (if cap = 0 then queue.length else min queue.length cap) := by
  unfold batch
  split_ifs
  · exact List.take_length.symm
  · rw [← List.take_take, List.take_of_length_le (List.length_take_le' cap queue)]

theorem rest_eq_drop (cap : Nat) (queue : List Item) :
    rest cap queue = queue.drop (if cap = 0 then queue.length else min queue.length cap) := by
  have hSame : queue = queue.take (if cap = 0 then queue.length else min queue.length cap) ++
      rest cap queue := by rw [← batch_eq_take, batch_append_rest]
  have hDrop := congrArg (List.drop (batch cap queue).length) (batch_append_rest cap queue)
  rw [List.drop_left] at hDrop
  rw [hDrop, batch_eq_take, List.length_take]
  congr 1
  split_ifs <;> omega

@[simp] theorem batch_nil : batch cap ([] : List Item) = [] := by simp [batch]

@[simp] theorem rest_nil : rest cap ([] : List Item) = [] := by simp [rest]

theorem eq_nil_of_batch (h : batch cap queue = []) : queue = [] := by
  unfold batch at h
  split_ifs at h with hCap
  · exact h
  · exact (List.take_eq_nil_iff.mp h).resolve_left hCap

theorem length_batch_le (hCap : cap ≠ 0) (queue : List Item) : (batch cap queue).length ≤ cap := by
  rw [batch, if_neg hCap]
  exact List.length_take_le cap queue

theorem length_rest_le (cap : Nat) (queue : List Item) :
    (rest cap queue).length ≤ queue.length - 1 := by
  unfold rest
  split_ifs with hCap
  · exact Nat.zero_le _
  · rw [List.length_drop]
    omega

theorem map_batch {Item' : Type*} (f : Item → Item') (cap : Nat) (queue : List Item) :
    (batch cap queue).map f = batch cap (queue.map f) := by
  unfold batch
  split_ifs
  · rfl
  · exact List.map_take

theorem map_rest {Item' : Type*} (f : Item → Item') (cap : Nat) (queue : List Item) :
    (rest cap queue).map f = rest cap (queue.map f) := by
  unfold rest
  split_ifs
  · rfl
  · exact List.map_drop

/-- The log, round by round, of a queue that is worked off: with what is left it makes up what
is wanted, and what is left loses at least one item in every round. -/
def Works (cap : Nat) (wanted : List Item) (log : Nat → List Item) : Prop :=
  ∀ m, ∃ queue, log m ++ queue = wanted ∧ queue.length ≤ wanted.length - m ∧
    log (m + 1) = log m ++ batch cap queue

/-- An invariant of the rounds may say where the queue is. -/
theorem works_of_invariant (state : Nat → State) (Inv : State → Prop) (queue : State → List Item)
    (log : State → List Item) (hInv : Inv (state 0)) (hLog : log (state 0) = [])
    (hQueue : queue (state 0) = wanted)
    (hRound : ∀ m, Inv (state m) → Inv (state (m + 1)) ∧
      log (state (m + 1)) = log (state m) ++ batch cap (queue (state m)) ∧
      queue (state (m + 1)) = rest cap (queue (state m))) :
    Works cap wanted fun m => log (state m) := by
  have hAll (m : Nat) : Inv (state m) ∧ log (state m) ++ queue (state m) = wanted ∧
      (queue (state m)).length ≤ wanted.length - m := by
    induction m with
    | zero => exact ⟨hInv, by rw [hLog, hQueue, List.nil_append], by rw [hQueue]; exact Nat.le_refl _⟩
    | succ m ih =>
        obtain ⟨hInv, hWanted, hLength⟩ := ih
        obtain ⟨hInv', hLog', hQueue'⟩ := hRound m hInv
        refine ⟨hInv', ?_, ?_⟩
        · rw [hLog', hQueue', List.append_assoc, batch_append_rest, hWanted]
        · have hLess := length_rest_le cap (queue (state m))
          rw [hQueue']
          omega
  intro m
  obtain ⟨hInv, hWanted, hLength⟩ := hAll m
  exact ⟨queue (state m), hWanted, hLength, (hRound m hInv).2.1⟩

/-- A round that takes nothing finds the queue empty. -/
theorem Works.complete (h : Works cap wanted log) {m : Nat} (hQuiet : log (m + 1) = log m) :
    log m = wanted := by
  obtain ⟨queue, hWanted, -, hLog⟩ := h m
  have hNone : batch cap queue = [] := by
    rw [hLog] at hQuiet
    exact List.append_right_eq_self.mp hQuiet
  rw [← hWanted, eq_nil_of_batch hNone, List.append_nil]

theorem Works.eq_nil (h : Works cap [] log) (m : Nat) : log m = [] := by
  obtain ⟨queue, hWanted, -, -⟩ := h m
  exact (List.append_eq_nil_iff.mp hWanted).1

theorem Works.quiet (h : Works cap wanted log) {m : Nat} (hEnough : wanted.length ≤ m) :
    log (m + 1) = log m := by
  obtain ⟨queue, -, hLength, hLog⟩ := h m
  have hNone : queue = [] := List.eq_nil_of_length_eq_zero (by omega)
  rw [hLog, hNone, batch_nil, List.append_nil]

theorem Works.length_le (h : Works cap wanted log) (hCap : cap ≠ 0) (m : Nat) :
    (log (m + 1)).length ≤ (log m).length + cap := by
  obtain ⟨queue, -, -, hLog⟩ := h m
  have hBatch := length_batch_le hCap queue
  rw [hLog, List.length_append]
  omega

end Batches
