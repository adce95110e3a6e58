import Wackamole.Spoofing

/-! Starting and cancelling the notifier of an entry while it may wait for a later pass.
`cancel_spoofer` removes the event of a first pass only. -/
namespace Wackamole

variable {n : Nat}

/-- What happens to the notifiers of the entries. -/
inductive NotifierCall (n : Nat) where
  | invoke (ptr : EntryPtr n)
  | cancel (ptr : EntryPtr n)
  /-- `insert_arp_cache_shared` has changed the shared cache. -/
  | arpCache (shared : List ArpEntry)
  /-- A pending event of `arp_spoof_notifier` fires. -/
  | fire (stale : Interface) (code : Bool) (ptr : EntryPtr n)

namespace Spoofer

def call (cfg : SpoofConfig n) (s : Spoofer n) : NotifierCall n → Spoofer n
  | .invoke ptr => s.invokeSpoofer ptr
  | .cancel ptr => s.cancelSpoofer ptr
  | .arpCache shared => { s with shared }
  | .fire stale code ptr => (s.step cfg (.notifier stale code ptr)).1

def calls (cfg : SpoofConfig n) (cs : List (NotifierCall n)) : Spoofer n :=
  cs.foldl (call cfg) (initial n)

/-- The pending events of `arp_spoof_notifier` for an entry. -/
def pendingFor (ptr : EntryPtr n) (s : Spoofer n) : Finset (Bool × EntryPtr n) :=
  s.pending.filter fun event => event.2 = ptr

/-- What a call leaves pending for `ptr`. -/
def Settled (ptr : EntryPtr n) (s : Spoofer n) : NotifierCall n → Prop
  | .invoke ptr' => ptr' = ptr → (pendingFor ptr s).card = 1
  | .cancel ptr' => ptr' = ptr → pendingFor ptr s = ∅
  | .arpCache _ => True
  | .fire _ _ _ => True

/-- After every call, the notifiers of `ptr` are as the call says, and no two passes of it
are pending. -/
def Exclusive (cfg : SpoofConfig n) (ptr : EntryPtr n) (cs : List (NotifierCall n)) : Prop :=
  ∀ before c after, cs = before ++ c :: after →
    Settled ptr (calls cfg (before ++ [c])) c ∧
      (pendingFor ptr (calls cfg (before ++ [c]))).card ≤ 1

/-- A call that does not touch the notifier of `ptr` while it waits for a later pass. -/
def Between (ptr : EntryPtr n) (s : Spoofer n) : NotifierCall n → Prop
  | .invoke ptr' => ptr' = ptr → (true, ptr) ∉ s.pending
  | .cancel ptr' => ptr' = ptr → (true, ptr) ∉ s.pending
  | .arpCache _ => True
  | .fire _ _ _ => True

def Patient (cfg : SpoofConfig n) (ptr : EntryPtr n) (cs : List (NotifierCall n)) : Prop :=
  ∀ before c after, cs = before ++ c :: after → Between ptr (calls cfg before) c

/-- Not both a first and a later pass of `ptr` are pending. -/
def AtMostOne (ptr : EntryPtr n) (s : Spoofer n) : Prop :=
  (false, ptr) ∈ s.pending → (true, ptr) ∉ s.pending

variable {cfg : SpoofConfig n} {ptr : EntryPtr n} {s : Spoofer n} {cs : List (NotifierCall n)}
  {c : NotifierCall n}

theorem mem_pendingFor {event : Bool × EntryPtr n} :
    event ∈ pendingFor ptr s ↔ event ∈ s.pending ∧ event.2 = ptr :=
  Finset.mem_filter

theorem pendingFor_eq_empty :
    pendingFor ptr s = ∅ ↔ (false, ptr) ∉ s.pending ∧ (true, ptr) ∉ s.pending := by
  rw [Finset.eq_empty_iff_forall_notMem]
  constructor
  · intro h
    exact ⟨fun hMem => h _ (mem_pendingFor.mpr ⟨hMem, rfl⟩),
      fun hMem => h _ (mem_pendingFor.mpr ⟨hMem, rfl⟩)⟩
  · rintro ⟨hFirst, hLater⟩ ⟨code, ptr'⟩ hMem
    obtain ⟨hPending, rfl⟩ := mem_pendingFor.mp hMem
    cases code with
    | false => exact hFirst hPending
    | true => exact hLater hPending

theorem card_pendingFor_le : (pendingFor ptr s).card ≤ 1 ↔ AtMostOne ptr s := by
  rw [Finset.card_le_one]
  constructor
  · intro h hFirst hLater
    have hEq := h _ (mem_pendingFor.mpr ⟨hFirst, rfl⟩) _ (mem_pendingFor.mpr ⟨hLater, rfl⟩)
    cases hEq
  · rintro h ⟨code, ptr'⟩ hMem ⟨code', ptr''⟩ hMem'
    obtain ⟨hPending, rfl⟩ := mem_pendingFor.mp hMem
    obtain ⟨hPending', hPtr⟩ := mem_pendingFor.mp hMem'
    obtain rfl : ptr'' = ptr' := hPtr
    cases code <;> cases code'
    · rfl
    · exact absurd hPending' (h hPending)
    · exact absurd hPending (h hPending')
    · rfl

theorem mem_cancelSpoofer {event : Bool × EntryPtr n} {ptr' : EntryPtr n} :
    event ∈ (s.cancelSpoofer ptr').pending ↔ event ≠ (false, ptr') ∧ event ∈ s.pending :=
  Finset.mem_erase

theorem mem_invokeSpoofer {event : Bool × EntryPtr n} {ptr' : EntryPtr n} :
    event ∈ (s.invokeSpoofer ptr').pending ↔ event = (false, ptr') ∨ event ∈ s.pending := by
  change event ∈ insert (false, ptr') (s.pending.erase (false, ptr')) ↔ _
  rw [Finset.mem_insert, Finset.mem_erase]
  tauto

/-- An event that fires can only leave the event of a later pass. -/
theorem mem_fire {event : Bool × EntryPtr n} {stale : Interface} {code : Bool} {ptr' : EntryPtr n}
    (h : event ∈ (s.call cfg (.fire stale code ptr')).pending) :
    (event ∈ s.pending ∧ event ≠ (code, ptr')) ∨
      ((code, ptr') ∈ s.pending ∧ event = (true, ptr')) ∨
        (event ∈ s.pending ∧ (code, ptr') ∉ s.pending) := by
  rw [call, step] at h
  split_ifs at h with hPending
  · simp only [arpSpoofNotifier] at h
    split_ifs at h
    · exact .inl ⟨Finset.mem_of_mem_erase h, Finset.ne_of_mem_erase h⟩
    · rcases Finset.mem_insert.mp h with hNew | hOld
      · exact .inr (.inl ⟨hPending, hNew⟩)
      · exact .inl ⟨Finset.mem_of_mem_erase hOld, Finset.ne_of_mem_erase hOld⟩
  · exact .inr (.inr ⟨h, hPending⟩)

theorem AtMostOne.call (h : AtMostOne ptr s) (hBetween : Between ptr s c) :
    AtMostOne ptr (s.call cfg c) := by
  cases c with
  | invoke ptr' =>
      intro hFirst hLater
      have hWaits : (true, ptr) ∈ s.pending := by
        rcases mem_invokeSpoofer.mp hLater with hNew | hOld
        · cases hNew
        · exact hOld
      rcases mem_invokeSpoofer.mp hFirst with hNew | hOld
      · cases hNew
        exact hBetween rfl hWaits
      · exact h hOld hWaits
  | cancel ptr' =>
      intro hFirst hLater
      exact h (mem_cancelSpoofer.mp hFirst).2 (mem_cancelSpoofer.mp hLater).2
  | arpCache shared => exact h
  | fire stale code ptr' =>
      intro hFirst hLater
      have hBefore : (false, ptr) ∈ s.pending ∧
          ((code, ptr') ∈ s.pending → (false, ptr) ≠ (code, ptr')) := by
        rcases mem_fire hFirst with ⟨hMem, hNe⟩ | ⟨_, hEq⟩ | ⟨hMem, hIdle⟩
        · exact ⟨hMem, fun _ => hNe⟩
        · cases hEq
        · exact ⟨hMem, fun hPending => absurd hPending hIdle⟩
      rcases mem_fire hLater with ⟨hMem, _⟩ | ⟨hPending, hEq⟩ | ⟨hMem, _⟩
      · exact h hBefore.1 hMem
      · cases hEq
        cases code with
        | false => exact hBefore.2 hPending rfl
        | true => exact h hBefore.1 hPending
      · exact h hBefore.1 hMem

theorem calls_concat : calls cfg (cs ++ [c]) = (calls cfg cs).call cfg c := List.foldl_concat ..

theorem Patient.left {cs' : List (NotifierCall n)} (h : Patient cfg ptr (cs ++ cs')) :
    Patient cfg ptr cs :=
  Loops.forall_split_left h

theorem Patient.atMostOne (h : Patient cfg ptr cs) : AtMostOne ptr (calls cfg cs) := by
  induction cs using List.reverseRecOn with
  | nil => exact fun hFirst => absurd hFirst (Finset.notMem_empty _)
  | append_singleton cs c ih =>
      rw [calls_concat]
      exact (ih h.left).call (h cs c [] rfl)

/-- What a call leaves pending is as it says exactly if no later pass was pending before. -/
theorem settled_call_iff (h : AtMostOne ptr (s.call cfg c)) :
    Settled ptr (s.call cfg c) c ↔ Between ptr s c := by
  cases c with
  | invoke ptr' =>
      refine forall_congr' fun hPtr => ?_
      subst hPtr
      have hFirst : (false, ptr') ∈ (s.invokeSpoofer ptr').pending :=
        mem_invokeSpoofer.mpr (.inl rfl)
      have hCard : (pendingFor ptr' (s.invokeSpoofer ptr')).card = 1 := by
        have hPos := Finset.card_pos.mpr ⟨_, mem_pendingFor.mpr ⟨hFirst, rfl⟩⟩
        have hLe := card_pendingFor_le.mpr h
        exact Nat.le_antisymm hLe hPos
      have hLater : (true, ptr') ∉ s.pending :=
        fun hMem => h hFirst (mem_invokeSpoofer.mpr (.inr hMem))
      exact ⟨fun _ => hLater, fun _ => hCard⟩
  | cancel ptr' =>
      refine forall_congr' fun hPtr => ?_
      subst hPtr
      change pendingFor ptr' (s.cancelSpoofer ptr') = ∅ ↔ _
      rw [pendingFor_eq_empty, mem_cancelSpoofer, mem_cancelSpoofer]
      simp
  | arpCache shared => exact Iff.rfl
  | fire stale code ptr' => exact Iff.rfl

/-- The notifiers of an entry are cancelled, and run one at a time, in exactly the runs in
which none of them is invoked or cancelled while it waits for a later pass. -/
theorem exclusive_iff : Exclusive cfg ptr cs ↔ Patient cfg ptr cs := by
  constructor
  · intro h before c after hEq
    obtain ⟨hSettled, hCard⟩ := h before c after hEq
    rw [calls_concat] at hSettled hCard
    exact (settled_call_iff (card_pendingFor_le.mp hCard)).mp hSettled
  · intro h before c after hEq
    have hSplit : cs = (before ++ [c]) ++ after := by rw [hEq]; simp
    rw [hSplit] at h
    have hOne := h.left.atMostOne
    refine ⟨?_, card_pendingFor_le.mpr hOne⟩
    rw [calls_concat] at hOne ⊢
    exact (settled_call_iff hOne).mpr (h.left before c [] rfl)

/-- The notifier of `throttled` has its first pass and waits for the next one; when it is
cancelled then, that pass stays pending. -/
theorem not_exclusive_throttled : ¬ Exclusive throttled (.allocation 0)
    [.invoke (.allocation 0), .fire ⟨[], 0#32, 0#32, 0#32⟩ false (.allocation 0),
      .cancel (.allocation 0)] := by
  intro h
  have hEmpty := (h [.invoke (.allocation 0), .fire ⟨[], 0#32, 0#32, 0#32⟩ false (.allocation 0)]
    (.cancel (.allocation 0)) [] rfl).1 rfl
  revert hEmpty
  decide +kernel

end Spoofer

end Wackamole
