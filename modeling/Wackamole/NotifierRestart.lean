import Wackamole.Spoofing
import Wackamole.Library.Sentinels

/-! What `lVIF` of an entry holds when its notifiers are started again and again.
`arp_spoof_notifier` appends to it in every first pass, and nothing resets `ifcount`. -/
namespace Wackamole

variable {n : Nat}

namespace Spoofer

/-- The head address of an entry, and its dependent addresses up to the end of the list. -/
def configured (cfg : SpoofConfig n) (i : Fin n) : List Interface :=
  ([cfg.pseudoIf i].filter fun vif => vif.ipaddr ≠ 0#32) ++
    (cfg.extraIfs i).takeWhile fun vif => vif.ipaddr ≠ 0#32

/-- What the loop of `arp_spoof_notifier` can read from `extra_ifs` on. Its bound is
`MAX_PSEUDO`, so that it can go on behind the array. -/
def readable (cfg : SpoofConfig n) (beyond : Fin n → Nat → Interface) : SpoofConfig n :=
  { cfg with
    extraIfs := fun i => cfg.extraIfs i ++
      (List.range (maxPseudo - (cfg.extraIfs i).length)).map (beyond i) }

/-- An event, and what memory holds behind each array `extra_ifs` at that time. -/
structure Moment (n : Nat) where
  event : SpoofEvent n
  beyond : Fin n → Nat → Interface

def next (cfg : SpoofConfig n) (s : Spoofer n) (m : Moment n) : Spoofer n :=
  (s.step (readable cfg m.beyond) m.event).1

def history (cfg : SpoofConfig n) (ms : List (Moment n)) : Spoofer n :=
  ms.foldl (next cfg) (initial n)

/-- Whether an event is a first pass of the notifier of `ptr`. -/
def firstPass (ptr : EntryPtr n) (s : Spoofer n) : SpoofEvent n → Bool
  | .notifier _ code ptr' => !code && ptr' = ptr && (code, ptr') ∈ s.pending
  | .acquire _ => false
  | .release _ => false
  | .cleanUp => false
  | .arpCache _ => false

/-- The first passes of the notifier of `ptr` in a history. -/
def firstPasses (cfg : SpoofConfig n) (ptr : EntryPtr n) (s : Spoofer n) : List (Moment n) → Nat
  | [] => 0
  | m :: ms => (firstPass ptr s m.event).toNat + firstPasses cfg ptr (next cfg s m) ms

/-- Every first pass of `ptr` works on its configured addresses, each once, and `lVIF` has
room for all that was ever appended. -/
def Restarts (cfg : SpoofConfig n) (ptr : EntryPtr n) (ms : List (Moment n)) : Prop :=
  ∀ before m after, ms = before ++ m :: after →
    (firstPass ptr (history cfg before) m.event →
      ((history cfg (before ++ [m])).data ptr).lVIF = configured cfg (entryOf ptr)) ∧
    ((history cfg (before ++ [m])).data ptr).lVIF.length ≤ maxPseudo + 1

/-- No first pass of `ptr` reads an address behind its array: the array has a zero address,
or memory behind it starts with one. -/
def Inside (cfg : SpoofConfig n) (ptr : EntryPtr n) (ms : List (Moment n)) : Prop :=
  ∀ before m after, ms = before ++ m :: after → firstPass ptr (history cfg before) m.event →
    (∃ vif ∈ cfg.extraIfs (entryOf ptr), vif.ipaddr = 0#32) ∨
      (m.beyond (entryOf ptr) 0).ipaddr = 0#32

variable {cfg : SpoofConfig n} {ptr : EntryPtr n} {ms : List (Moment n)} {m : Moment n}

theorem history_concat : history cfg (ms ++ [m]) = next cfg (history cfg ms) m :=
  List.foldl_concat ..

theorem firstPasses_append (s : Spoofer n) (ms ms' : List (Moment n)) :
    firstPasses cfg ptr s (ms ++ ms') =
      firstPasses cfg ptr s ms + firstPasses cfg ptr (ms.foldl (next cfg) s) ms' := by
  induction ms generalizing s with
  | nil => exact (Nat.zero_add _).symm
  | cons m ms ih =>
      rw [List.cons_append, firstPasses, ih, firstPasses, List.foldl_cons]
      omega

theorem firstPasses_concat : firstPasses cfg ptr (initial n) (ms ++ [m]) =
    firstPasses cfg ptr (initial n) ms + (firstPass ptr (history cfg ms) m.event).toNat := by
  rw [firstPasses_append]
  rfl

theorem cleanUp_data (s : Spoofer n) : s.cleanUp.data = s.data := by
  apply Loops.foldl_invariant (fun s' : Spoofer n => s'.data = s.data)
  · exact fun s' i _ h => h
  · rfl

theorem invokeSpoofer_lVIF (s : Spoofer n) (ptr' : EntryPtr n) :
    ((s.invokeSpoofer ptr').data ptr).lVIF = (s.data ptr).lVIF := by
  by_cases hPtr : ptr = ptr'
  · subst hPtr
    simp [invokeSpoofer, cancelSpoofer]
  · simp [invokeSpoofer, cancelSpoofer, Function.update_of_ne hPtr]

/-- Only a first pass extends `lVIF`. -/
theorem step_lVIF (s : Spoofer n) (e : SpoofEvent n) :
    ((s.step cfg e).1.data ptr).lVIF =
      (s.data ptr).lVIF ++ if firstPass ptr s e then configured cfg (entryOf ptr) else [] := by
  cases e with
  | acquire i =>
      rw [step, acquire, invokeSpoofer_lVIF]
      exact (List.append_nil _).symm
  | release i => exact (List.append_nil _).symm
  | cleanUp =>
      rw [step, cleanUp_data]
      exact (List.append_nil _).symm
  | arpCache shared => exact (List.append_nil _).symm
  | notifier stale code ptr' =>
      by_cases hPending : (code, ptr') ∈ s.pending
      · rw [step, if_pos hPending]
        by_cases hPtr : ptr' = ptr
        · subst hPtr
          cases code <;>
            simp [arpSpoofNotifier, prepare, firstPass, hPending, configured]
        · have hOther : firstPass ptr s (.notifier stale code ptr') = false := by
            simp [firstPass, hPtr]
          simp [arpSpoofNotifier, hOther, Function.update_of_ne (Ne.symm hPtr)]
      · have hFirst : firstPass ptr s (.notifier stale code ptr') = false := by
          simp [firstPass, hPending]
        rw [step, if_neg hPending, hFirst]
        simp

/-- What a first pass appends is what is configured, with what it reads behind the
array. -/
theorem configured_readable {i : Fin n} (hArray : (cfg.extraIfs i).length ≤ maxDepIf)
    (beyond : Fin n → Nat → Interface) :
    ∃ more, configured (readable cfg beyond) i = configured cfg i ++ more ∧
      (more = [] ↔ (∃ vif ∈ cfg.extraIfs i, vif.ipaddr = 0#32) ∨ (beyond i 0).ipaddr = 0#32) := by
  obtain ⟨rest, hRest⟩ : ∃ rest, maxPseudo - (cfg.extraIfs i).length = rest + 1 := by
    have hRoom : (cfg.extraIfs i).length < maxPseudo := hArray.trans_lt (by decide)
    exact ⟨maxPseudo - (cfg.extraIfs i).length - 1, by omega⟩
  obtain ⟨more, hTake, hMore⟩ := Sentinels.takeWhile_append_cons
    (fun vif : Interface => decide (vif.ipaddr ≠ 0#32)) (cfg.extraIfs i) (beyond i 0)
    ((List.range rest).map fun k => beyond i (k + 1))
  refine ⟨more, ?_, by simpa using hMore⟩
  have hSlots : (List.range (rest + 1)).map (beyond i) =
      beyond i 0 :: (List.range rest).map fun k => beyond i (k + 1) := by
    rw [List.range_succ_eq_map, List.map_cons, List.map_map]
    rfl
  simp only [configured, readable, hRest, hSlots, hTake, List.append_assoc]

theorem lVIF_concat : ((history cfg (ms ++ [m])).data ptr).lVIF =
    ((history cfg ms).data ptr).lVIF ++ if firstPass ptr (history cfg ms) m.event then
      configured (readable cfg m.beyond) (entryOf ptr) else [] := by
  rw [history_concat, next, step_lVIF]

theorem Restarts.init (h : Restarts cfg ptr (ms ++ [m])) : Restarts cfg ptr ms :=
  Loops.forall_split_left h

theorem Inside.left {ms' : List (Moment n)} (h : Inside cfg ptr (ms ++ ms')) :
    Inside cfg ptr ms :=
  Loops.forall_split_left h

section Arrays

variable (hArray : (cfg.extraIfs (entryOf ptr)).length ≤ maxDepIf)

include hArray

theorem configured_length : (configured cfg (entryOf ptr)).length ≤ maxPseudo + 1 := by
  have hHead := List.length_filter_le (fun vif : Interface => decide (vif.ipaddr ≠ 0#32))
    [cfg.pseudoIf (entryOf ptr)]
  have hRest := (List.takeWhile_prefix (l := cfg.extraIfs (entryOf ptr))
    fun vif : Interface => decide (vif.ipaddr ≠ 0#32)).length_le
  have hSize : maxDepIf + 1 ≤ maxPseudo + 1 := by decide
  rw [List.length_singleton] at hHead
  rw [configured, List.length_append]
  omega

/-- A first pass that reads nothing behind the array appends what is configured. -/
theorem configured_inside (h : Inside cfg ptr (ms ++ [m]))
    (hFirst : firstPass ptr (history cfg ms) m.event) :
    configured (readable cfg m.beyond) (entryOf ptr) = configured cfg (entryOf ptr) := by
  obtain ⟨more, hMore, hNil⟩ := configured_readable hArray m.beyond
  rw [hMore, hNil.mpr (h ms m [] rfl hFirst), List.append_nil]

/-- As long as nothing behind the array is read, `lVIF` repeats what is configured once for
each first pass. -/
theorem Inside.lVIF (h : Inside cfg ptr ms) : ((history cfg ms).data ptr).lVIF =
    (List.replicate (firstPasses cfg ptr (initial n) ms)
      (configured cfg (entryOf ptr))).flatten := by
  induction ms using List.reverseRecOn with
  | nil => rfl
  | append_singleton ms m ih =>
      rw [lVIF_concat, ih h.left, firstPasses_concat]
      cases hFirst : firstPass ptr (history cfg ms) m.event with
      | false => simp
      | true =>
          rw [if_pos rfl, configured_inside hArray h hFirst, Bool.toNat_true,
            List.replicate_succ', List.flatten_concat]

/-- The list of a first pass is right only if it was empty before, and nothing behind the
array was read. -/
theorem Restarts.inside (h : Restarts cfg ptr ms) : Inside cfg ptr ms := by
  intro before m after hEq hFirst
  have hLast := (h before m after hEq).1 hFirst
  obtain ⟨more, hMore, hNil⟩ := configured_readable hArray m.beyond
  rw [lVIF_concat, if_pos hFirst, hMore] at hLast
  have hLength := congrArg List.length hLast
  simp only [List.length_append] at hLength
  exact hNil.mp (List.length_eq_zero_iff.mp (by omega))

theorem Restarts.firstPasses_le (h : Restarts cfg ptr ms) :
    firstPasses cfg ptr (initial n) ms ≤ 1 ∨ configured cfg (entryOf ptr) = [] := by
  induction ms using List.reverseRecOn with
  | nil => exact .inl (Nat.zero_le 1)
  | append_singleton ms m ih =>
      rw [firstPasses_concat]
      cases hFirst : firstPass ptr (history cfg ms) m.event with
      | false => exact ih h.init
      | true =>
          have hInside := h.inside hArray
          have hLast := (h ms m [] rfl).1 hFirst
          rw [lVIF_concat, if_pos hFirst, configured_inside hArray hInside hFirst,
            List.append_left_eq_self, hInside.left.lVIF hArray] at hLast
          by_cases hNone : firstPasses cfg ptr (initial n) ms = 0
          · exact .inl (by rw [hNone]; decide)
          · refine .inr (List.flatten_eq_nil_iff.mp hLast _ ?_)
            exact List.mem_replicate.mpr ⟨hNone, rfl⟩

/-- The notifier of an entry restarts from a clean list in exactly the histories in which
it starts at most once, or has nothing to tell, and reads nothing behind its array. -/
theorem restarts_iff : Restarts cfg ptr ms ↔ Inside cfg ptr ms ∧
    (firstPasses cfg ptr (initial n) ms ≤ 1 ∨ configured cfg (entryOf ptr) = []) := by
  refine ⟨fun h => ⟨h.inside hArray, h.firstPasses_le hArray⟩, fun ⟨hInside, hOnce⟩ => ?_⟩
  intro before m after hEq
  have hSplit : ms = (before ++ [m]) ++ after := by rw [hEq]; simp
  rw [hSplit] at hInside
  have hList := hInside.left.lVIF hArray
  rw [hSplit, firstPasses_append] at hOnce
  rw [hList]
  rcases hOnce with hCount | hNothing
  · constructor
    · intro hFirst
      rw [firstPasses_concat, hFirst, Bool.toNat_true] at hCount ⊢
      have hNone : firstPasses cfg ptr (initial n) before = 0 := by omega
      rw [hNone, Nat.zero_add, List.replicate_one, List.flatten_singleton]
    · have hLength := configured_length hArray
      rw [List.length_flatten, List.map_replicate, List.sum_replicate, smul_eq_mul]
      calc firstPasses cfg ptr (initial n) (before ++ [m]) * (configured cfg (entryOf ptr)).length
          ≤ 1 * (configured cfg (entryOf ptr)).length := Nat.mul_le_mul_right _ (by omega)
        _ ≤ maxPseudo + 1 := by rwa [Nat.one_mul]
  · rw [hNothing, List.flatten_replicate_nil]
    exact ⟨fun _ => rfl, Nat.zero_le _⟩

end Arrays

/-- The entry of `throttled` is acquired, and its notifier has its first pass. -/
def acquired : List (Moment 1) :=
  [⟨.acquire 0, fun _ _ => ⟨[], 0#32, 0#32, 0#32⟩⟩,
    ⟨.notifier ⟨[], 0#32, 0#32, 0#32⟩ false (.allocation 0), fun _ _ => ⟨[], 0#32, 0#32, 0#32⟩⟩]

theorem restarts_acquired : Restarts throttled (.allocation 0) acquired := by
  refine (restarts_iff (by decide)).mpr ⟨?_, .inl (by decide +kernel)⟩
  intro before m after hEq _
  have hMem : m ∈ acquired := by rw [hEq]; simp
  simp only [acquired, List.mem_cons, List.not_mem_nil, or_false] at hMem
  rcases hMem with rfl | rfl <;> exact .inr rfl

/-- When the entry comes back, its address is in the list twice. -/
theorem not_restarts_reacquired : ¬ Restarts throttled (.allocation 0)
    (acquired ++ [⟨.release 0, fun _ _ => ⟨[], 0#32, 0#32, 0#32⟩⟩] ++ acquired) := by
  intro h
  have hList := (h (acquired ++ [⟨.release 0, fun _ _ => ⟨[], 0#32, 0#32, 0#32⟩⟩] ++
    acquired.take 1) _ [] rfl).1 (by decide +kernel)
  revert hList
  decide +kernel

end Spoofer

end Wackamole
