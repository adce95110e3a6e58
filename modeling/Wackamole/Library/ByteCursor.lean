import Mathlib.Data.List.Basic
import Mathlib.Data.List.Flatten

/-! Blocks of memory that are filled at a cursor and read at a cursor. A write or a read that
would leave the block has no result. What a sequence of writes has filled, and what a sequence
of reads makes of it, follow from their parts. -/
namespace ByteCursor

variable {Cell Value Value' : Type*}

/-- A block whose first `len` cells have been filled. -/
structure Block (Cell : Type*) where
  cells : List Cell
  len : Nat

def Block.put (items : List Cell) (b : Block Cell) : Option (Block Cell) :=
  if b.len + items.length ≤ b.cells.length then
    some ⟨b.cells.take b.len ++ items ++ b.cells.drop (b.len + items.length), b.len + items.length⟩
  else none

/-- Wherever there is room for them, the items are appended to what has been filled. -/
def Fills (f : Block Cell → Option (Block Cell)) (items : List Cell) : Prop :=
  ∀ b, b.len + items.length ≤ b.cells.length → ∃ b', f b = some b' ∧
    b'.cells.take b'.len = b.cells.take b.len ++ items ∧ b'.len = b.len + items.length ∧
    b'.cells.length = b.cells.length

theorem fills_put (items : List Cell) : Fills (Block.put items) items := by
  intro b hRoom
  have hFront : (b.cells.take b.len).length = b.len := List.length_take_of_le (by omega)
  refine ⟨_, if_pos hRoom, ?_, rfl, ?_⟩
  · have hLength : (b.cells.take b.len ++ items).length = b.len + items.length := by
      rw [List.length_append, hFront]
    dsimp only
    rw [← hLength, List.take_left]
  · simp only [List.length_append, List.length_drop, hFront]
    omega

theorem fills_some : Fills (some : Block Cell → Option (Block Cell)) [] := fun b _ =>
  ⟨b, rfl, by simp, rfl, rfl⟩

theorem Fills.bind {f g : Block Cell → Option (Block Cell)} {items items' : List Cell}
    (hf : Fills f items) (hg : Fills g items') : Fills (fun b => f b >>= g) (items ++ items') := by
  intro b hRoom
  rw [List.length_append] at hRoom
  obtain ⟨b₁, hFirst, hFilled, hLen, hLength⟩ := hf b (by omega)
  obtain ⟨b₂, hSecond, hFilled', hLen', hLength'⟩ := hg b₁ (by omega)
  refine ⟨b₂, ?_, ?_, ?_, hLength'.trans hLength⟩
  · dsimp only
    rw [hFirst]
    exact hSecond
  · rw [hFilled', hFilled, List.append_assoc]
  · rw [hLen', hLen, List.length_append, Nat.add_assoc]

theorem fills_foldlM {Item : Type*} {f : Item → Block Cell → Option (Block Cell)}
    {bytes : Item → List Cell} (hf : ∀ i, Fills (f i) (bytes i)) (l : List Item) :
    Fills (fun b => l.foldlM (fun b i => f i b) b) (l.flatMap bytes) := by
  induction l with
  | nil => exact fills_some
  | cons i l ih =>
      have hBoth := (hf i).bind ih
      simpa only [List.foldlM_cons, List.flatMap_cons] using hBoth

/-- A block that is filled up. -/
theorem Fills.full {f : Block Cell → Option (Block Cell)} {items : List Cell} (h : Fills f items)
    {cells : List Cell} (hSize : cells.length = items.length) :
    f ⟨cells, 0⟩ = some ⟨items, items.length⟩ := by
  obtain ⟨⟨cells', len⟩, hEq, hFilled, hLen, hLength⟩ := h ⟨cells, 0⟩ (by simp [hSize])
  simp only [Nat.zero_add, List.take_zero, List.nil_append] at hFilled hLen hLength
  have hAll : cells'.take len = cells' := List.take_of_length_le (by omega)
  rw [hEq, ← hFilled, hAll]
  have hSame : len = cells'.length := by omega
  rw [hSame]

/-- `count` cells from the cursor on, and the cursor after them. -/
def get (count : Nat) (cells : List Cell) (offset : Nat) : Option (List Cell × Nat) :=
  if offset + count ≤ cells.length then some ((cells.drop offset).take count, offset + count)
  else none

/-- A read at these items gives the value and ends behind them, whatever is around. -/
def Yields (g : List Cell → Nat → Option (Value × Nat)) (items : List Cell) (v : Value) : Prop :=
  ∀ before after, g (before ++ items ++ after) before.length =
    some (v, before.length + items.length)

theorem yields_get (items : List Cell) : Yields (get items.length) items items := by
  intro before after
  rw [get, if_pos (by simp), List.append_assoc, List.drop_left, List.take_left]

theorem Yields.bind {g : List Cell → Nat → Option (Value × Nat)} {items items' : List Cell}
    {v : Value} {v' : Value'} (hg : Yields g items v)
    (g' : Value → List Cell → Nat → Option (Value' × Nat)) (hg' : Yields (g' v) items' v') :
    Yields (fun cells offset => (g cells offset).bind fun (v, offset) => g' v cells offset)
      (items ++ items') v' := by
  intro before after
  have hFirst := hg before (items' ++ after)
  have hSecond := hg' (before ++ items) after
  simp only [List.append_assoc, List.length_append] at hFirst hSecond ⊢
  rw [hFirst, Option.bind_some]
  simpa only [Nat.add_assoc] using hSecond

theorem Yields.map {g : List Cell → Nat → Option (Value × Nat)} {items : List Cell} {v : Value}
    (hg : Yields g items v) (f : Value → Value') :
    Yields (fun cells offset => (g cells offset).map fun (v, offset) => (f v, offset)) items
      (f v) := by
  intro before after
  dsimp only
  rw [hg before after]
  rfl

/-- The same read several times in a row. -/
def repeated (g : List Cell → Nat → Option (Value × Nat)) :
    Nat → List Cell → Nat → Option (List Value × Nat)
  | 0, _, offset => some ([], offset)
  | count + 1, cells, offset =>
    (g cells offset).bind fun (v, offset) =>
      (repeated g count cells offset).map fun (vs, offset) => (v :: vs, offset)

theorem yields_repeated {g : List Cell → Nat → Option (Value × Nat)} {bytes : Value → List Cell}
    (hg : ∀ v, Yields g (bytes v) v) (vs : List Value) :
    Yields (repeated g vs.length) (vs.flatMap bytes) vs := by
  induction vs with
  | nil =>
      intro before after
      rfl
  | cons v vs ih =>
      exact (hg v).bind (fun v cells offset => (repeated g vs.length cells offset).map
        fun (vs, offset) => (v :: vs, offset)) (ih.map (v :: ·))

end ByteCursor
