import Mathlib.Algebra.BigOperators.Group.List.Basic
import Mathlib.Algebra.BigOperators.Fin
import Mathlib.Order.Basic

/-! Loops over a list of indices, `l.foldl f s`, in which every pass acts on one
component of the state. A `view` reads the components; nothing is assumed about
the rest of the state. -/
namespace Loops

variable {State Index Value : Type*}

/-- What no pass changes is the same after the loop. -/
theorem foldl_unchanged {Read : Type*} (read : State → Read) (f : State → Index → State)
    (h : ∀ s a, read (f s a) = read s) (l : List Index) (s : State) :
    read (l.foldl f s) = read s := by
  induction l generalizing s with
  | nil => rfl
  | cons a l ih => rw [List.foldl_cons, ih, h]

/-- A property that every pass keeps holds after the loop. -/
theorem foldl_invariant (P : State → Prop) (f : State → Index → State) (l : List Index)
    (h : ∀ s, ∀ a ∈ l, P s → P (f s a)) (s : State) (hs : P s) : P (l.foldl f s) := by
  induction l generalizing s with
  | nil => exact hs
  | cons a l ih =>
      exact ih (fun s b hb => h s b (List.mem_cons_of_mem a hb)) (f s a)
        (h s a List.mem_cons_self hs)

/-- What holds before every pass of a list holds before every pass of a start of it. -/
theorem forall_split_left {P : List Index → Index → Prop} {l l' : List Index}
    (h : ∀ before a after, l ++ l' = before ++ a :: after → P before a) :
    ∀ before a after, l = before ++ a :: after → P before a := by
  intro before a after hEq
  exact h before a (after ++ l') (by rw [hEq, List.append_assoc, List.cons_append])

/-- A loop whose passes act on one component each by a function of that component
is, at this component, the loop over the component alone. -/
theorem foldl_component (view : State → Value) (f : State → Index → State)
    (g : Value → Index → Value) (h : ∀ s a, view (f s a) = g (view s) a)
    (l : List Index) (s : State) : view (l.foldl f s) = l.foldl g (view s) := by
  induction l generalizing s with
  | nil => rfl
  | cons a l ih => rw [List.foldl_cons, ih, h, List.foldl_cons]

/-- A component that only some of the passes act on. -/
theorem foldl_filter_component (view : State → Value) (f : State → Index → State)
    (g : Value → Index → Value) (acts : Index → Bool) (l : List Index)
    (hActs : ∀ s, ∀ a ∈ l, acts a = true → view (f s a) = g (view s) a)
    (hIdle : ∀ s, ∀ a ∈ l, acts a = false → view (f s a) = view s) (s : State) :
    view (l.foldl f s) = (l.filter acts).foldl g (view s) := by
  induction l generalizing s with
  | nil => rfl
  | cons a l ih =>
      have hRest := ih (fun s b hb => hActs s b (List.mem_cons_of_mem a hb))
        (fun s b hb => hIdle s b (List.mem_cons_of_mem a hb)) (f s a)
      rw [List.foldl_cons, hRest]
      cases ha : acts a with
      | true =>
          rw [hActs s a List.mem_cons_self ha, List.filter_cons_of_pos ha, List.foldl_cons]
      | false =>
          rw [hIdle s a List.mem_cons_self ha, List.filter_cons_of_neg (by rw [ha]; decide)]

/-- A loop in which at most one pass acts. -/
theorem foldl_of_unique (acts : Index → Prop) [DecidablePred acts] (f : State → Index → State)
    (hIdle : ∀ s a, ¬ acts a → f s a = s) (l : List Index)
    (hl : l.Pairwise fun a b => ¬ (acts a ∧ acts b)) (s : State) :
    l.foldl f s = ((l.find? fun a => decide (acts a)).map (f s)).getD s := by
  have hNone (l : List Index) (h : ∀ a ∈ l, ¬ acts a) (s : State) : l.foldl f s = s := by
    induction l with
    | nil => rfl
    | cons a l ih =>
        rw [List.foldl_cons, hIdle s a (h a List.mem_cons_self)]
        exact ih fun b hb => h b (List.mem_cons_of_mem a hb)
  induction l with
  | nil => rfl
  | cons a l ih =>
      obtain ⟨hFirst, hl⟩ := List.pairwise_cons.mp hl
      by_cases ha : acts a
      · rw [List.foldl_cons, hNone l (fun b hb hActs => hFirst b hb ⟨ha, hActs⟩)]
        simp [ha]
      · rw [List.foldl_cons, hIdle s a ha, ih hl]
        simp [ha]

/-- A quantity to which pass `a` adds a function of component `a` grows by the sum
of these amounts, all taken from the first values. -/
theorem foldl_measure_of_nodup {M : Type*} [AddCommMonoid M] (measure : State → M)
    (view : State → Index → Value) (f : State → Index → State) (amount : Index → Value → M)
    (hView : ∀ s a b, b ≠ a → view (f s a) b = view s b)
    (hMeasure : ∀ s a, measure (f s a) = measure s + amount a (view s a))
    (l : List Index) (hl : l.Nodup) (s : State) :
    measure (l.foldl f s) = measure s + (l.map fun a => amount a (view s a)).sum := by
  induction l generalizing s with
  | nil => simp
  | cons a l ih =>
      obtain ⟨ha, hl⟩ := List.nodup_cons.mp hl
      have hRest : (l.map fun b => amount b (view (f s a) b)) =
          l.map fun b => amount b (view s b) := by
        apply List.map_congr_left
        intro b hb
        rw [hView s a b (fun hEq => ha (hEq ▸ hb))]
      rw [List.foldl_cons, ih hl, hMeasure, hRest, List.map_cons, List.sum_cons, add_assoc]

variable [DecidableEq Index]

/-- A loop over distinct indices whose pass `a` replaces component `a`, as long as an
invariant holds, replaces each listed component once, from its first value. -/
theorem foldl_view_of_invariant (Inv : State → Prop) (view : State → Index → Value)
    (f : State → Index → State) (g : Index → Value → Value) (all : List Index)
    (h : ∀ s, ∀ a ∈ all, Inv s → Inv (f s a) ∧
      ∀ b ∈ all, view (f s a) b = if b = a then g b (view s b) else view s b)
    (l : List Index) (hAll : ∀ a ∈ l, a ∈ all) (hl : l.Nodup) (s : State) (hs : Inv s) :
    Inv (l.foldl f s) ∧
      ∀ b ∈ all, view (l.foldl f s) b = if b ∈ l then g b (view s b) else view s b := by
  induction l generalizing s with
  | nil => exact ⟨hs, fun b _ => by simp⟩
  | cons a l ih =>
      obtain ⟨ha, hl⟩ := List.nodup_cons.mp hl
      obtain ⟨hInv, hView⟩ := h s a (hAll a List.mem_cons_self) hs
      obtain ⟨hInv', hRest⟩ := ih (fun b hb => hAll b (List.mem_cons_of_mem a hb)) hl (f s a) hInv
      refine ⟨hInv', fun b hb => ?_⟩
      rw [List.foldl_cons, hRest b hb, hView b hb]
      by_cases hEq : b = a
      · subst hEq
        simp [ha]
      · simp [hEq]

/-- A loop over distinct indices whose pass `a` replaces component `a` replaces
each listed component once, from its first value. -/
theorem foldl_view_of_nodup (view : State → Index → Value) (f : State → Index → State)
    (g : Index → Value → Value)
    (h : ∀ s a b, view (f s a) b = if b = a then g b (view s b) else view s b)
    (l : List Index) (hl : l.Nodup) (s : State) (b : Index) :
    view (l.foldl f s) b = if b ∈ l then g b (view s b) else view s b :=
  (foldl_view_of_invariant (fun _ => True) view f g (b :: l)
    (fun s a _ _ => ⟨trivial, fun b _ => h s a b⟩) l (fun _ ha => List.mem_cons_of_mem b ha) hl s
    trivial).2 b List.mem_cons_self

/-- The loop over all of `Fin n`, component by component. -/
theorem foldl_finRange_view {n : Nat} (view : State → Fin n → Value)
    (f : State → Fin n → State) (g : Fin n → Value → Value)
    (h : ∀ s a b, view (f s a) b = if b = a then g b (view s b) else view s b)
    (s : State) (b : Fin n) :
    view ((List.finRange n).foldl f s) b = g b (view s b) := by
  rw [foldl_view_of_nodup view f g h _ (List.nodup_finRange n) s b]
  simp

/-- The loop over all of `Fin n`, for a quantity that each pass adds to. -/
theorem foldl_finRange_measure {n : Nat} {M : Type*} [AddCommMonoid M] (measure : State → M)
    (view : State → Fin n → Value) (f : State → Fin n → State) (amount : Fin n → Value → M)
    (hView : ∀ s a b, b ≠ a → view (f s a) b = view s b)
    (hMeasure : ∀ s a, measure (f s a) = measure s + amount a (view s a)) (s : State) :
    measure ((List.finRange n).foldl f s) = measure s + ∑ a, amount a (view s a) := by
  rw [foldl_measure_of_nodup measure view f amount hView hMeasure _ (List.nodup_finRange n) s,
    Fin.sum_univ_def]

end Loops
