import Wackamole.GatherSlots
import Mathlib.Algebra.BigOperators.Ring.Finset
import Mathlib.Tactic.Ring

/-! The counters `Members[k].num_allocated` during a gather. A member is credited
with an interface when it claims it and has not lost it to another claim; the
counter of a member is the number of interfaces it is credited with. -/
namespace Wackamole

variable {n : Nat} {cfg : Config n}

/-- The claim of `a` counts: it was not settled, or it owns the interface. -/
def Credits (a : Address) (bids : List Bid) : Prop :=
  a ∈ claimants bids ∧ (a ∉ liveClaimants bids ∨ a = liveOwner bids)

instance (a : Address) (bids : List Bid) : Decidable (Credits a bids) := by
  unfold Credits; infer_instance

section Credits

variable {a sender : Address} {priority : Int} {bids : List Bid}

theorem credits_nil : ¬ Credits a [] := by simp [Credits, claimants]

theorem credits_preference :
    Credits a (bids ++ [.preference sender]) ↔ Credits a bids := by
  have hClaimants : claimants (bids ++ [.preference sender]) = claimants bids := by
    simp [claimants, Bid.claimant?]
  unfold Credits
  by_cases hTaken : taken bids
  · obtain ⟨hLive, hOwner⟩ := liveClaimants_append_of_taken hTaken [.preference sender]
    rw [hClaimants, hLive, hOwner]
  · obtain ⟨hLive, hOwner⟩ := live_snoc_preference hTaken sender
    rw [hClaimants, hLive, hOwner]

theorem BidsWf.fresh (hWf : BidsWf (bids ++ [.claim sender priority])) :
    sender ∉ claimants bids := by
  have hn := hWf.nodup
  rw [claimants, List.filterMap_append] at hn
  exact fun hMem => (List.nodup_append.mp hn).2.2 sender hMem sender (by simp [Bid.claimant?]) rfl

/-- One claim, by the four cases of `Handle_state`. -/
theorem credits_claim (hWf : BidsWf (bids ++ [.claim sender priority])) :
    Credits a (bids ++ [.claim sender priority]) ↔
      let e := Entry.settled bids
      if e.realIf = 0#32 then a = sender ∨ Credits a bids
      else if e.claimPriority = preferClaimed ∨ e.claimPriority = priority then Credits a bids
      else if e.claimPriority = claimed ∧ priority > prefer then
        a = sender ∨ (a ≠ e.realIf ∧ Credits a bids)
      else a = sender ∨ Credits a bids := by
  have hSender : a = sender → a ∉ claimants bids := fun hEq => hEq ▸ hWf.fresh
  -- The formula is read off the slot of a member that held the interface.
  have hBefore : Tracked a 0#32 true bids
      (bids.foldl (Slot.bid a) ⟨Entry.blank, Entry.blank, true⟩) :=
    Tracked.foldl Entry.blank bids hWf.of_append
  have hAfter := (hBefore.bid hWf).acquired
  have hEntry := hBefore.entry
  have hKept := hBefore.acquired
  generalize bids.foldl (Slot.bid a) ⟨Entry.blank, Entry.blank, true⟩ = s at *
  have hLost : a ∉ liveClaimants bids ∨ a = liveOwner bids ↔ s.acquired = true := by
    rw [hKept]
    simp
  have hLostAfter : a ∉ liveClaimants (bids ++ [.claim sender priority]) ∨
      a = liveOwner (bids ++ [.claim sender priority]) ↔
        (s.bid a (.claim sender priority)).acquired = true := by
    rw [hAfter]
    simp
  have hFree : a = sender → s.acquired = true := fun hEq =>
    hLost.mp (.inl fun hMem => hSender hEq (Tracked.mem_claimants_of_live hMem))
  have hClaimants : a ∈ claimants (bids ++ [.claim sender priority]) ↔
      a ∈ claimants bids ∨ a = sender := by
    simp [claimants, Bid.claimant?]
  have hOwner : s.entry.realIf ≠ 0#32 → s.entry.claimPriority = claimed → a = sender →
      a ≠ s.entry.realIf := by
    rintro hNonzero hPriority hEq hSame
    refine hSender hEq ?_
    rw [hSame, hEntry]
    refine (settled_of_not_taken hWf.of_append.wf ?_ ?_).1
    · rw [taken, ← hEntry, hPriority]
      decide
    · rintro rfl
      rw [hEntry] at hNonzero
      exact hNonzero rfl
  unfold Credits
  rw [hLost, hLostAfter, hClaimants, ← hEntry]
  dsimp only [Slot.bid]
  by_cases hVacant : s.entry.realIf = 0#32
  · rw [if_pos hVacant, if_pos hVacant, or_and_right, and_iff_left_of_imp hFree, or_comm]
  rw [if_neg hVacant, if_neg hVacant]
  by_cases hLoses : s.entry.claimPriority = preferClaimed ∨ s.entry.claimPriority = priority
  · rw [if_pos hLoses, if_pos hLoses, Bool.and_eq_true, decide_eq_true_iff]
    constructor
    · rintro ⟨hClaims | hEq, hHeld, hNe⟩
      · exact ⟨hClaims, hHeld⟩
      · exact absurd hEq hNe
    · rintro ⟨hClaims, hHeld⟩
      exact ⟨.inl hClaims, hHeld, fun hEq => hSender hEq hClaims⟩
  rw [if_neg hLoses, if_neg hLoses]
  by_cases hDisplaces : s.entry.claimPriority = claimed ∧ priority > prefer
  · rw [if_pos hDisplaces, if_pos hDisplaces, Bool.and_eq_true, decide_eq_true_iff]
    constructor
    · rintro ⟨hClaims | hEq, hHeld, hNe⟩
      · exact .inr ⟨hNe, hClaims, hHeld⟩
      · exact .inl hEq
    · rintro (hEq | ⟨hNe, hClaims, hHeld⟩)
      · exact ⟨.inr hEq, hFree hEq, hOwner hVacant hDisplaces.1 hEq⟩
      · exact ⟨.inl hClaims, hHeld, hNe⟩
  · rw [if_neg hDisplaces, if_neg hDisplaces, or_and_right, and_iff_left_of_imp hFree, or_comm]

theorem not_credits_of_fresh (hFresh : a ∉ claimants bids) : ¬ Credits a bids :=
  fun h => hFresh h.1

/-- The owner of an interface that no preference has taken is credited with it. -/
theorem credits_owner (hWf : ∀ b ∈ bids, b.Wf) (hTaken : ¬ taken bids) (hne : bids ≠ []) :
    Credits (Entry.settled bids).realIf bids := by
  refine ⟨(settled_of_not_taken hWf hTaken hne).1, .inr ?_⟩
  simp [liveOwner, hTaken]

end Credits

/-- How many interfaces the member with real address `a` is credited with. -/
def tally (a : Address) (bids : Fin n → List Bid) : Int :=
  ∑ j, if Credits a (bids j) then 1 else 0

/-- A sum of which one summand changes. -/
theorem sum_eq_of_change (f f' : Fin n → Int) (j : Fin n) (h : ∀ i, i ≠ j → f' i = f i) :
    ∑ i, f' i = ∑ i, f i - f j + f' j := by
  have hSplit (f : Fin n → Int) : ∑ i, f i = f j + ∑ i ∈ Finset.univ.erase j, f i :=
    (Finset.add_sum_erase _ f (Finset.mem_univ j)).symm
  have hRest : ∑ i ∈ Finset.univ.erase j, f' i = ∑ i ∈ Finset.univ.erase j, f i :=
    Finset.sum_congr rfl fun i hi => h i (Finset.ne_of_mem_erase hi)
  rw [hSplit f, hSplit f', hRest]
  ring

theorem tally_update (a : Address) (bids : Fin n → List Bid) (j : Fin n) (more : List Bid) :
    tally a (Function.update bids j more) =
      tally a bids - (if Credits a (bids j) then 1 else 0) + if Credits a more then 1 else 0 := by
  unfold tally
  rw [sum_eq_of_change (fun i => if Credits a (bids i) then 1 else 0) _ j, Function.update_self]
  intro i hi
  rw [Function.update_of_ne hi]

/-- The claims of a list for interface `j`, as bids. -/
def claimBids (vip : Fin n → Address) (j : Fin n) (sender : Address)
    (claims : List (Address × Int)) : List Bid :=
  (claims.filter fun c => vip j = c.1).map fun c => .claim sender c.2

theorem claimBids_cons (vip : Fin n → Address) (j : Fin n) (sender : Address)
    (c : Address × Int) (claims : List (Address × Int)) :
    claimBids vip j sender (c :: claims) =
      (if vip j = c.1 then [.claim sender c.2] else []) ++ claimBids vip j sender claims := by
  unfold claimBids
  by_cases h : vip j = c.1 <;> simp [h]

/-- The table is settled by the bids so far, and every counter is the tally of its
member, up to the claims that the current message still has to lay out. -/
structure Counted (bids : Fin n → List Bid) (extra : Nat → Int) (d : Daemon n) : Prop where
  entry : ∀ j, d.allocationTable j = Entry.settled (bids j)
  counter : ∀ k < d.numMembers,
    (d.members k).numAllocated = tally (d.members k).realIf bids + extra k

theorem Daemon.allocationTable_eq {d d' : Daemon n} (h : ∀ j, d'.slot j = d.slot j) :
    d'.allocationTable = d.allocationTable := by
  funext j
  exact congrArg Slot.entry (h j)

namespace Daemon

@[simp] theorem members_setAllocation (d : Daemon n) (i : Fin n) (e : Entry) :
    (d.setAllocation i e).members = d.members := rfl

@[simp] theorem members_setOld (d : Daemon n) (i : Fin n) (e : Entry) :
    (d.setOld i e).members = d.members := rfl

@[simp] theorem members_release (d : Daemon n) (i : Fin n) :
    (d.release i).members = d.members := rfl

@[simp] theorem numMembers_release (d : Daemon n) (i : Fin n) :
    (d.release i).numMembers = d.numMembers := rfl

theorem members_debit (d : Daemon n) (i k : Nat) :
    (d.debit i).members k =
      ⟨(d.members k).realIf, (d.members k).numAllocated - (if k = i then 1 else 0),
        (d.members k).gotStateFrom⟩ := by
  by_cases h : k = i
  · subst h
    simp [debit]
  · simp [debit, h]

theorem members_debitOwner (d : Daemon n) (addr : Address) (k : Nat) :
    (d.debitOwner addr).members k =
      ⟨(d.members k).realIf,
        (d.members k).numAllocated -
          (if k < d.numMembers ∧ (d.members k).realIf = addr then 1 else 0),
        (d.members k).gotStateFrom⟩ := by
  by_cases h : k < d.numMembers ∧ (d.members k).realIf = addr
  · simp [debitOwner, h]
  · simp only [debitOwner, h, if_false, sub_zero]

end Daemon

/-- `Handle_state` never changes the real address in a slot of `Members` while it
lays out claims and preferences. -/
theorem ripClaim_realIf (m : StateMess) (s : Daemon n × Nat) (c : Address × Int) (k : Nat) :
    ((ripClaim cfg m s c).1.members k).realIf = (s.1.members k).realIf := by
  obtain ⟨d, r⟩ := s
  unfold ripClaim
  cases hFind : findVE cfg c.1 with
  | none => rfl
  | some j =>
      simp only [releaseAddress_of_findVE hFind]
      split_ifs <;> simp [Daemon.members_debit, Daemon.members_debitOwner]

theorem ripClaim_numMembers (m : StateMess) (s : Daemon n × Nat) (c : Address × Int) :
    (ripClaim cfg m s c).1.numMembers = s.1.numMembers :=
  congrArg Control.numMembers (ripClaim_control m s c)

/-- The slot of the sender, and no other, carries its real address. -/
structure SenderAt (m : StateMess) (d : Daemon n) : Prop where
  index_lt : m.index < d.numMembers
  realIf : (d.members m.index).realIf = m.realAddress
  unique : ∀ k < d.numMembers, (d.members k).realIf = m.realAddress → k = m.index

theorem SenderAt.ripClaim {m : StateMess} {s : Daemon n × Nat} (h : SenderAt m s.1)
    (c : Address × Int) : SenderAt m (ripClaim cfg m s c).1 where
  index_lt := by rw [ripClaim_numMembers]; exact h.index_lt
  realIf := by rw [ripClaim_realIf]; exact h.realIf
  unique k := by rw [ripClaim_numMembers, ripClaim_realIf]; exact h.unique k

/-- What one claim takes from the counter of a member: it was the sender's and is settled, or
it takes the interface from the member. -/
theorem ripClaim_numAllocated (m : StateMess) (s : Daemon n × Nat) {c : Address × Int} {j : Fin n}
    (hFind : findVE cfg c.1 = some j) {k : Nat} (hk : k < s.1.numMembers) :
    ((ripClaim cfg m s c).1.members k).numAllocated = (s.1.members k).numAllocated -
      if (s.1.allocationTable j).realIf = 0#32 then 0
      else if (s.1.allocationTable j).claimPriority = preferClaimed ∨
          (s.1.allocationTable j).claimPriority = c.2 then if k = m.index then 1 else 0
      else if (s.1.allocationTable j).claimPriority = claimed ∧ c.2 > prefer then
        if (s.1.members k).realIf = (s.1.allocationTable j).realIf then 1 else 0
      else 0 := by
  obtain ⟨d, r⟩ := s
  simp only [ripClaim, hFind, releaseAddress_of_findVE hFind]
  by_cases hVacant : (d.allocationTable j).realIf = 0#32
  · rw [if_pos hVacant, if_pos hVacant, sub_zero]
    rfl
  rw [if_neg hVacant, if_neg hVacant]
  by_cases hLoses : (d.allocationTable j).claimPriority = preferClaimed ∨
      (d.allocationTable j).claimPriority = c.2
  · rw [if_pos hLoses, if_pos hLoses]
    split_ifs <;>
      simp only [Daemon.members_setOld, Daemon.members_release, Daemon.members_debit, *, if_true,
        if_false]
  rw [if_neg hLoses, if_neg hLoses]
  by_cases hDisplaces : (d.allocationTable j).claimPriority = claimed ∧ c.2 > prefer
  · rw [if_pos hDisplaces, if_pos hDisplaces]
    split_ifs <;>
      simp only [Daemon.members_setOld, Daemon.members_setAllocation, Daemon.members_debitOwner,
        Daemon.members_release, Daemon.numMembers_release, *, if_true, and_self, and_false,
        if_false]
  · rw [if_neg hDisplaces, if_neg hDisplaces, sub_zero]

/-- One claim keeps the accounts: the counters follow the tally, and the claim is
no longer outstanding for its sender. -/
theorem ripClaim_counted (hVip : Function.Injective cfg.pseudoIf) {m : StateMess}
    {bids : Fin n → List Bid} {extra : Nat → Int} {s : Daemon n × Nat} {c : Address × Int}
    {j : Fin n} (hj : cfg.pseudoIf j = c.1) (hSender : SenderAt m s.1)
    (hWf : BidsWf (bids j ++ [.claim m.realAddress c.2])) (h : Counted bids extra s.1) :
    Counted (Function.update bids j (bids j ++ [.claim m.realAddress c.2]))
      (fun k => extra k - if k = m.index then 1 else 0) (ripClaim cfg m s c).1 where
  entry i := by
    have hSlot := congrArg Slot.entry (ripClaim_slot hVip m s c i)
    rw [Daemon.slot_entry] at hSlot
    rw [hSlot]
    by_cases hi : i = j
    · subst hi
      rw [Function.update_self, ← Entry.foldl_bid _ hWf.wf, List.foldl_append,
        Entry.foldl_bid _ hWf.of_append.wf, ← h.entry]
      simp [hj]
    · have hNe : cfg.pseudoIf i ≠ c.1 := fun hEq => hi (hVip (hEq.trans hj.symm))
      rw [Function.update_of_ne hi, if_neg hNe]
      exact h.entry i
  counter k hk := by
    rw [ripClaim_numMembers] at hk
    rw [ripClaim_realIf, tally_update]
    obtain ⟨d, r⟩ := s
    replace hk : k < d.numMembers := hk
    have hCount : (d.members k).numAllocated = tally (d.members k).realIf bids + extra k :=
      h.counter k hk
    have hSelf : (d.members k).realIf = m.realAddress ↔ k = m.index :=
      ⟨hSender.unique k hk, fun hEq => hEq ▸ hSender.realIf⟩
    have hFresh : k = m.index → ¬ Credits (d.members k).realIf (bids j) := by
      intro hEq
      rw [hSelf.mpr hEq]
      exact not_credits_of_fresh hWf.fresh
    have hOwner : (d.allocationTable j).claimPriority = claimed →
        (d.members k).realIf = (d.allocationTable j).realIf →
          Credits (d.members k).realIf (bids j) := by
      intro hPriority hEq
      rw [hEq, h.entry]
      rw [h.entry] at hPriority
      apply credits_owner hWf.of_append.wf
      · simp [taken, hPriority]
      · rintro hNil
        simp [hNil, Entry.settled, FirstWinner.outcome, Entry.ofStanding] at hPriority
    have hCredits := credits_claim (a := (d.members k).realIf) hWf
    simp only [hSelf, ← h.entry] at hCredits
    rw [ripClaim_numAllocated m (d, r) ((findVE_eq_some hVip).mpr hj) hk]
    simp only [hCredits, hCount]
    by_cases hVacant : (d.allocationTable j).realIf = 0#32
    · simp only [if_pos hVacant]
      by_cases hIndex : k = m.index
      · rw [if_neg (hFresh hIndex), if_pos (.inl hIndex), if_pos hIndex]
        omega
      · simp only [hIndex, false_or, if_false]
        omega
    simp only [if_neg hVacant]
    by_cases hLoses : (d.allocationTable j).claimPriority = preferClaimed ∨
        (d.allocationTable j).claimPriority = c.2
    · simp only [if_pos hLoses]
      omega
    simp only [if_neg hLoses]
    by_cases hDisplaces : (d.allocationTable j).claimPriority = claimed ∧ c.2 > prefer
    · simp only [if_pos hDisplaces]
      by_cases hIndex : k = m.index
      · have hOther : (d.members k).realIf ≠ (d.allocationTable j).realIf := fun hEq =>
          hFresh hIndex (hOwner hDisplaces.1 hEq)
        rw [if_neg hOther, if_neg (hFresh hIndex), if_pos (.inl hIndex), if_pos hIndex]
        omega
      · by_cases hEq : (d.members k).realIf = (d.allocationTable j).realIf
        · have hLost : ¬ (k = m.index ∨ (d.members k).realIf ≠ (d.allocationTable j).realIf ∧
              Credits (d.members k).realIf (bids j)) := fun h =>
            h.elim hIndex fun hKept => hKept.1 hEq
          rw [if_pos hEq, if_pos (hOwner hDisplaces.1 hEq), if_neg hLost, if_neg hIndex]
          omega
        · simp only [hEq, hIndex, ne_eq, not_false_eq_true, true_and, false_or, if_false]
          omega
    · simp only [if_neg hDisplaces]
      by_cases hIndex : k = m.index
      · rw [if_neg (hFresh hIndex), if_pos (.inl hIndex), if_pos hIndex]
        omega
      · simp only [hIndex, false_or, if_false]
        omega

theorem update_claimBids (hVip : Function.Injective cfg.pseudoIf) {bids : Fin n → List Bid}
    {c : Address × Int} {j : Fin n} (hj : cfg.pseudoIf j = c.1) (sender : Address)
    (claims : List (Address × Int)) (i : Fin n) :
    Function.update bids j (bids j ++ [.claim sender c.2]) i ++
        claimBids cfg.pseudoIf i sender claims =
      bids i ++ claimBids cfg.pseudoIf i sender (c :: claims) := by
  rw [claimBids_cons]
  by_cases hi : i = j
  · subst hi
    simp [hj]
  · have hNe : cfg.pseudoIf i ≠ c.1 := fun hEq => hi (hVip (hEq.trans hj.symm))
    simp [hi, hNe]

/-- The loop over the claims of a message, bid by bid. The property may speak of the
claims that the message still has to lay out. -/
theorem foldl_ripClaim_induction (hVip : Function.Injective cfg.pseudoIf) {m : StateMess}
    (P : List (Address × Int) → (Fin n → List Bid) → Daemon n × Nat → Prop)
    (hStep : ∀ claims bids s c j, cfg.pseudoIf j = c.1 →
      BidsWf (bids j ++ [.claim m.realAddress c.2]) → P (c :: claims) bids s →
        P claims (Function.update bids j (bids j ++ [.claim m.realAddress c.2]))
          (ripClaim cfg m s c))
    (claims : List (Address × Int)) (hKnown : ∀ c ∈ claims, ∃ j, cfg.pseudoIf j = c.1)
    (bids : Fin n → List Bid) (s : Daemon n × Nat)
    (hWf : ∀ j, BidsWf (bids j ++ claimBids cfg.pseudoIf j m.realAddress claims))
    (h : P claims bids s) :
    P [] (fun j => bids j ++ claimBids cfg.pseudoIf j m.realAddress claims)
      (claims.foldl (ripClaim cfg m) s) := by
  induction claims generalizing bids s with
  | nil => simpa [claimBids] using h
  | cons c claims ih =>
      obtain ⟨j, hj⟩ := hKnown c List.mem_cons_self
      have hFirst : BidsWf (bids j ++ [.claim m.realAddress c.2]) := by
        have hAll := hWf j
        rw [claimBids_cons, if_pos hj, ← List.append_assoc] at hAll
        exact hAll.of_append
      have hRest := ih (fun c' hc => hKnown c' (List.mem_cons_of_mem c hc)) _ _
        (fun i => by rw [update_claimBids hVip hj]; exact hWf i) (hStep claims bids s c j hj hFirst h)
      simp only [update_claimBids hVip hj] at hRest
      exact hRest

/-- All claims of a message, one after the other. -/
theorem foldl_ripClaim_counted (hVip : Function.Injective cfg.pseudoIf) {m : StateMess}
    (claims : List (Address × Int)) (hKnown : ∀ c ∈ claims, ∃ j, cfg.pseudoIf j = c.1)
    {bids : Fin n → List Bid} {s : Daemon n × Nat} (hSender : SenderAt m s.1)
    (hWf : ∀ j, BidsWf (bids j ++ claimBids cfg.pseudoIf j m.realAddress claims))
    (h : Counted bids (fun k => if k = m.index then (claims.length : Int) else 0) s.1) :
    Counted (fun j => bids j ++ claimBids cfg.pseudoIf j m.realAddress claims) (fun _ => 0)
      (claims.foldl (ripClaim cfg m) s).1 := by
  have hRun := foldl_ripClaim_induction hVip (fun claims bids s => SenderAt m s.1 ∧
    Counted bids (fun k => if k = m.index then (claims.length : Int) else 0) s.1) ?_
    claims hKnown bids s hWf ⟨hSender, h⟩
  · simpa using hRun.2
  · rintro claims bids s c j hj hFirst ⟨hSender, hCounted⟩
    have hNext := ripClaim_counted hVip hj hSender hFirst hCounted
    refine ⟨hSender.ripClaim c, hNext.entry, fun k hk => ?_⟩
    rw [hNext.counter k hk, List.length_cons]
    push_cast
    split_ifs <;> ring

theorem tally_preferences (a : Address) (bids : Fin n → List Bid) (sender : Address)
    (prefers : Fin n → List Address) :
    tally a (fun j => bids j ++ (prefers j).map fun _ => .preference sender) = tally a bids := by
  have hCredits (l : List Address) (before : List Bid) :
      Credits a (before ++ l.map fun _ => .preference sender) ↔ Credits a before := by
    induction l generalizing before with
    | nil => simp
    | cons x l ih =>
        rw [List.map_cons, List.append_cons, ih, credits_preference]
  simp only [tally, hCredits]

theorem ripPrefer_members (m : StateMess) (d : Daemon n) (addr : Address) :
    (ripPrefer cfg m d addr).members = d.members := by
  unfold ripPrefer
  cases findVE cfg addr with
  | none => rfl
  | some j =>
      simp only
      split_ifs <;> rfl

/-- Preferences move entries without touching a counter. -/
theorem foldl_ripPrefer_counted (hVip : Function.Injective cfg.pseudoIf) (m : StateMess)
    {bids : Fin n → List Bid} {extra : Nat → Int} {d : Daemon n}
    (hWf : ∀ j, ∀ b ∈ bids j, b.Wf) (hAddress : m.realAddress ≠ 0#32) (h : Counted bids extra d) :
    Counted (fun j => bids j ++
        (m.prefers.filter fun addr => cfg.pseudoIf j = addr).map fun _ => .preference m.realAddress)
      extra (m.prefers.foldl (ripPrefer cfg m) d) where
  entry j := by
    have hSlot := congrArg Slot.entry (foldl_ripPrefer_slot hVip m m.prefers d j)
    rw [Daemon.slot_entry, Slot.foldl_bid_entry, Daemon.slot_entry, h.entry,
      ← Entry.foldl_bid _ (hWf j), ← List.foldl_append] at hSlot
    rw [hSlot, Entry.foldl_bid]
    intro b hb
    rcases List.mem_append.mp hb with hb | hb
    · exact hWf j b hb
    · obtain ⟨_, _, rfl⟩ := List.mem_map.mp hb
      exact hAddress
  counter k hk := by
    have hNum : (m.prefers.foldl (ripPrefer cfg m) d).numMembers = d.numMembers :=
      congrArg Control.numMembers (Loops.foldl_unchanged Daemon.control (ripPrefer cfg m)
        (ripPrefer_control m) m.prefers d)
    rw [hNum] at hk
    rw [Loops.foldl_unchanged Daemon.members (ripPrefer cfg m) (ripPrefer_members m),
      tally_preferences]
    exact h.counter k hk

theorem Counted.congr {bids : Fin n → List Bid} {extra : Nat → Int} {d d' : Daemon n}
    (h : Counted bids extra d) (hTable : d'.allocationTable = d.allocationTable)
    (hMembers : d'.members = d.members) (hNum : d'.numMembers = d.numMembers) :
    Counted bids extra d' where
  entry := by rw [hTable]; exact h.entry
  counter := by rw [hMembers, hNum]; exact h.counter

/-- The sender joins with the number of its claims, none of which is laid out. -/
theorem Counted.enterMember {m : StateMess} {bids : Fin n → List Bid} {d : Daemon n}
    (h : Counted bids (fun _ => 0) d) (hFresh : ∀ j, m.realAddress ∉ claimants (bids j)) :
    Counted bids (fun k => if k = m.index then m.numAllocated else 0) (enterMember m d) where
  entry := h.entry
  counter k hk := by
    by_cases hIndex : k = m.index
    · have hTally : tally m.realAddress bids = 0 := by
        apply Finset.sum_eq_zero
        intro j _
        exact if_neg (not_credits_of_fresh (hFresh j))
      simp [Wackamole.enterMember, hIndex, hTally]
    · simpa [Wackamole.enterMember, hIndex] using h.counter k hk

/-- The counters after a STATE message are again the tally of what was delivered. -/
theorem ripState_counted (hVip : Function.Injective cfg.pseudoIf) {m : StateMess}
    {bids : Fin n → List Bid} {d : Daemon n} (hSender : SenderAt m (enterMember m d))
    (hKnown : ∀ c ∈ m.claims, ∃ j, cfg.pseudoIf j = c.1)
    (hCount : m.numAllocated = m.claims.length) (hAddress : m.realAddress ≠ 0#32)
    (hFresh : ∀ j, m.realAddress ∉ claimants (bids j))
    (hWf : ∀ j, BidsWf (bids j ++ claimBids cfg.pseudoIf j m.realAddress m.claims))
    (h : Counted bids (fun _ => 0) d) :
    Counted (fun j => bids j ++ bidsOn cfg.pseudoIf j m) (fun _ => 0) (ripState cfg m d) := by
  have hEntered : Counted bids (fun k => if k = m.index then (m.claims.length : Int) else 0)
      (enterMember m d) := by
    rw [← hCount]
    exact h.enterMember hFresh
  have hClaims := foldl_ripClaim_counted hVip m.claims hKnown (s := (enterMember m d, 0)) hSender
    hWf hEntered
  have hReup := hClaims.congr
    (handlePostRelease_unchanged cfg Daemon.allocationTable (fun _ _ => rfl) _)
    (handlePostRelease_unchanged cfg Daemon.members (fun _ _ => rfl) _)
    (handlePostRelease_unchanged cfg Daemon.numMembers (fun _ _ => rfl) _)
  have hPrefers {d' : Daemon n} (h' : Counted (fun j => bids j ++
      claimBids cfg.pseudoIf j m.realAddress m.claims) (fun _ => 0) d') :=
    foldl_ripPrefer_counted hVip m (fun j => (hWf j).wf) hAddress h'
  simp only [ripState, bidsOn, ← List.append_assoc]
  split_ifs
  · exact hPrefers hReup
  · exact hPrefers hClaims

end Wackamole
