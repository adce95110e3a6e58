import Mathlib.Data.List.Basic
import Mathlib.Data.List.Infix

/-! Blocks from the heap, as lists of their cells, and pointers to them, which may be null. A
cell that nothing has written holds what the memory held before. A write that would leave its
block has no result. -/
namespace HeapBlocks

variable {Cell : Type*}

def malloc (heap : Nat → Cell) (size : Nat) : List Cell := (List.range size).map heap

/-- A null pointer makes it a `malloc`. -/
def realloc (heap : Nat → Cell) (size : Nat) : Option (List Cell) → List Cell
  | none => malloc heap size
  | some block => block.take size ++ (List.range' block.length (size - block.length)).map heap

/-- The block after a write into one of its cells. -/
def store (i : Nat) (f : Cell → Cell) : Option (List Cell) → Option (List Cell)
  | none => none
  | some block => if i < block.length then some (block.modify i f) else none

/-- A block of this size, with these items at its front. -/
def Begins (items : List Cell) (size : Nat) (pointer : Option (List Cell)) : Prop :=
  ∃ block, pointer = some block ∧ items <+: block ∧ block.length = size

variable {items : List Cell} {size : Nat} {pointer : Option (List Cell)}

theorem begins_malloc (heap : Nat → Cell) (size : Nat) : Begins [] size (some (malloc heap size)) :=
  ⟨_, rfl, List.nil_prefix, by rw [malloc, List.length_map, List.length_range]⟩

/-- What fits into the new size is kept. -/
theorem Begins.realloc (h : Begins items size pointer) (heap : Nat → Cell) {size' : Nat}
    (hFits : items.length ≤ size') : Begins items size' (some (realloc heap size' pointer)) := by
  obtain ⟨block, rfl, hItems, -⟩ := h
  refine ⟨_, rfl, ?_, ?_⟩
  · exact (List.prefix_take_iff.mpr ⟨hItems, hFits⟩).trans (List.prefix_append _ _)
  · rw [HeapBlocks.realloc, List.length_append, List.length_take, List.length_map,
      List.length_range']
    omega

/-- Behind the items there is a cell, whatever it holds. -/
theorem Begins.next (h : Begins items size pointer) (hRoom : items.length < size) :
    ∃ cell, Begins (items ++ [cell]) size pointer := by
  obtain ⟨block, rfl, ⟨rest, rfl⟩, rfl⟩ := h
  cases rest with
  | nil => simp at hRoom
  | cons cell rest => exact ⟨cell, _, rfl, ⟨rest, by simp⟩, rfl⟩

/-- A write into the last item. -/
theorem Begins.store {cell : Cell} (h : Begins (items ++ [cell]) size pointer) (f : Cell → Cell) :
    ∃ block, store items.length f pointer = some block ∧
      Begins (items ++ [f cell]) size (some block) := by
  obtain ⟨_, rfl, ⟨rest, rfl⟩, rfl⟩ := h
  refine ⟨_, if_pos (by simp), _, rfl, ⟨rest, ?_⟩, List.length_modify ..⟩
  rw [List.append_assoc, List.append_assoc]
  exact (List.modifyTailIdx_add (List.modifyHead f) 0 items ([cell] ++ rest)).symm

/-- A block that is full holds nothing else. -/
theorem Begins.full (h : Begins items items.length pointer) : pointer = some items := by
  obtain ⟨block, rfl, hItems, hLength⟩ := h
  rw [hItems.eq_of_length hLength.symm]

end HeapBlocks
