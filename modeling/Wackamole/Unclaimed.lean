import Wackamole.Allocation
import Wackamole.Library.LevelRounds
import Mathlib.Data.Fin.VecNotation

/-! `Claim_unclaimed` as a whole: who gets which interface, what this member acquires, and
how even the counters are afterwards. -/
namespace Wackamole

variable {n : Nat}

/-- The interfaces that `Claim_unclaimed` hands to member `k`, in the order of the table. -/
def Daemon.handed (d : Daemon n) (k : Nat) : List (Fin n) :=
  (unowned d.allocationTable (List.finRange n)).filter fun j => d.receiver j = k

/-- The calls of `Acquire` for some interfaces. -/
def Daemon.acquireAll (d : Daemon n) (l : List (Fin n)) : Daemon n :=
  l.foldl (fun d j => d.acquire j) d

/-- The daemon with the counters and the table of another. -/
def Daemon.withAccounts (d d₀ : Daemon n) : Daemon n :=
  { d with members := d₀.members, allocationTable := d₀.allocationTable }

theorem Daemon.takeChosen_withAccounts (d d₀ : Daemon n) (i : Fin n) :
    (d.takeChosen i).withAccounts d₀ =
      (d.withAccounts d₀).acquireAll (if d.chosen = d.myIndex then [i] else []) := by
  unfold takeChosen
  by_cases hMine : d.chosen = d.myIndex
  · rw [if_pos hMine, if_pos hMine.symm]
    rfl
  · rw [if_neg hMine, if_neg (Ne.symm hMine)]
    rfl

/-- The loop of `Claim_unclaimed` over distinct interfaces acquires those that go to this
member, and but for the counters and the table it does nothing else. -/
theorem foldl_claimUnclaimedEntry_acquires (l : List (Fin n)) (hl : l.Nodup) (d d₀ : Daemon n) :
    (l.foldl claimUnclaimedEntry d).withAccounts d₀ =
      (d.withAccounts d₀).acquireAll ((unowned d.allocationTable l).filter fun j =>
        LeastLoaded.receiver d.counter d.numMembers (unowned d.allocationTable l) j =
          d.myIndex) := by
  induction l generalizing d with
  | nil => rfl
  | cons i l ih =>
      obtain ⟨hi, hl⟩ := List.nodup_cons.mp hl
      rw [List.foldl_cons]
      by_cases hUnclaimed : (d.allocationTable i).claimPriority = unclaimed
      · have hControl := claimUnclaimedEntry_control d i
        have hNum : (claimUnclaimedEntry d i).numMembers = d.numMembers :=
          congrArg Control.numMembers hControl
        have hIndex : (claimUnclaimedEntry d i).myIndex = d.myIndex :=
          congrArg Control.myIndex hControl
        have hTaken : (claimUnclaimedEntry d i).withAccounts d₀ =
            (d.takeChosen i).withAccounts d₀ := by
          rw [claimUnclaimedEntry_of_unclaimed d i hUnclaimed]
          rfl
        have hRest : (unowned d.allocationTable l).filter (fun j =>
              LeastLoaded.receiver (LeastLoaded.place d.counter d.numMembers) d.numMembers
                (unowned d.allocationTable l) j = d.myIndex) =
            (unowned d.allocationTable l).filter fun j =>
              LeastLoaded.receiver d.counter d.numMembers (i :: unowned d.allocationTable l) j =
                d.myIndex := by
          refine List.filter_congr fun j hj => ?_
          have hji : j ≠ i := fun hEq => hi (hEq ▸ List.mem_of_mem_filter hj)
          rw [LeastLoaded.receiver, if_neg hji]
        have hFirst : LeastLoaded.receiver d.counter d.numMembers
            (i :: unowned d.allocationTable l) i = d.chosen := by
          rw [LeastLoaded.receiver, if_pos rfl]
          rfl
        rw [ih hl, claimUnclaimedEntry_unowned d hi, claimUnclaimedEntry_counter, if_pos hUnclaimed,
          hNum, hIndex, hTaken, Daemon.takeChosen_withAccounts, unowned_cons, if_pos hUnclaimed,
          List.filter_cons, hFirst, hRest, Daemon.acquireAll, Daemon.acquireAll, ← List.foldl_append]
        by_cases hMine : d.chosen = d.myIndex <;> simp [hMine, Daemon.acquireAll]
      · rw [claimUnclaimedEntry_of_owned d i hUnclaimed, ih hl, unowned_cons, if_neg hUnclaimed]

theorem claimUnclaimed_acquires (d : Daemon n) :
    (claimUnclaimed d).withAccounts d = d.acquireAll (d.handed d.myIndex) :=
  foldl_claimUnclaimedEntry_acquires _ (List.nodup_finRange n) d d

/-- The counters after the loop, for some of the interfaces. -/
theorem foldl_claimUnclaimedEntry_counter (l : List (Fin n)) (hl : l.Nodup) (d : Daemon n) :
    (l.foldl claimUnclaimedEntry d).counter =
      LeastLoaded.filled d.counter d.numMembers (unowned d.allocationTable l).length := by
  induction l generalizing d with
  | nil => rfl
  | cons i l ih =>
      obtain ⟨hi, hl⟩ := List.nodup_cons.mp hl
      have hNum : (claimUnclaimedEntry d i).numMembers = d.numMembers :=
        congrArg Control.numMembers (claimUnclaimedEntry_control d i)
      rw [List.foldl_cons, ih hl, hNum, claimUnclaimedEntry_unowned d hi,
        claimUnclaimedEntry_counter, unowned_cons]
      split_ifs <;> rfl

theorem claimUnclaimed_counter (d : Daemon n) :
    (claimUnclaimed d).counter = LeastLoaded.filled d.counter d.numMembers
      (unowned d.allocationTable (List.finRange n)).length :=
  foldl_claimUnclaimedEntry_counter _ (List.nodup_finRange n) d

theorem unowned_nodup (table : Fin n → Entry) : (unowned table (List.finRange n)).Nodup :=
  (List.nodup_finRange n).filter _

/-- Member `k` is among the receivers as often as an interface is handed to it. -/
theorem Daemon.count_receivers (d : Daemon n) (k : Nat) :
    (LeastLoaded.receivers d.counter d.numMembers
      (unowned d.allocationTable (List.finRange n)).length).count k = (d.handed k).length := by
  rw [LeastLoaded.receivers_eq_map _ _ _ (unowned_nodup _), List.count, List.countP_map,
    List.countP_eq_length_filter]
  congr 1

theorem claimUnclaimed_member (d : Daemon n) (k : Nat) :
    (claimUnclaimed d).members k =
      { d.members k with numAllocated := d.counter k + (d.handed k).length } := by
  have hCounter := congrFun (claimUnclaimed_counter d) k
  rw [LeastLoaded.filled_apply, d.count_receivers, Daemon.counter] at hCounter
  have hReal := claimUnclaimed_realIf d k
  have hGot : ((claimUnclaimed d).members k).gotStateFrom = (d.members k).gotStateFrom := by
    refine Loops.foldl_unchanged (fun d : Daemon n => (d.members k).gotStateFrom)
      claimUnclaimedEntry (fun d i => ?_) (List.finRange n) d
    by_cases hUnclaimed : (d.allocationTable i).claimPriority = unclaimed
    · rw [claimUnclaimedEntry_of_unclaimed d i hUnclaimed, Daemon.members_setAllocation]
      by_cases hk : k = d.chosen
      · simp [hk]
      · simp [hk]
    · rw [claimUnclaimedEntry_of_owned d i hUnclaimed]
  calc (claimUnclaimed d).members k
      = ⟨((claimUnclaimed d).members k).realIf, ((claimUnclaimed d).members k).numAllocated,
          ((claimUnclaimed d).members k).gotStateFrom⟩ := rfl
    _ = _ := by rw [hReal, hCounter, hGot]

/-- `Claim_unclaimed` with at least one member: claimed entries stay; every other entry
goes to a member as CLAIMED, whose counter goes up by what it gets; this member acquires
what goes to it and nothing else; whoever gets something ends at most one above the
smallest counter, so that counters that were level stay level. -/
theorem claimUnclaimed_fills {d : Daemon n} (hMembers : 0 < d.numMembers) :
    (∀ j, (d.allocationTable j).claimPriority ≠ unclaimed →
      (claimUnclaimed d).allocationTable j = d.allocationTable j) ∧
    (∀ j, (d.allocationTable j).claimPriority = unclaimed → ∃ k < d.numMembers,
      (∀ k', j ∈ d.handed k' ↔ k' = k) ∧
        (claimUnclaimed d).allocationTable j = ⟨(d.members k).realIf, claimed⟩) ∧
    (∀ k, (claimUnclaimed d).members k =
      { d.members k with numAllocated := d.counter k + (d.handed k).length }) ∧
    (claimUnclaimed d).withAccounts d = d.acquireAll (d.handed d.myIndex) ∧
    (∀ k < d.numMembers, d.handed k ≠ [] → ∀ m < d.numMembers,
      (claimUnclaimed d).counter k ≤ (claimUnclaimed d).counter m + 1) ∧
    (Levelling.Level d.numMembers d.counter →
      Levelling.Level d.numMembers (claimUnclaimed d).counter) := by
  refine ⟨fun j hOwned => ?_, fun j hUnclaimed => ?_, claimUnclaimed_member d,
    claimUnclaimed_acquires d, fun k _ hGets m hm => ?_, fun hLevel => ?_⟩
  · have hSlot := claimUnclaimed_slot d j
    rw [if_neg hOwned] at hSlot
    exact congrArg Slot.entry hSlot
  · have hSlot := claimUnclaimed_slot d j
    rw [if_pos hUnclaimed] at hSlot
    refine ⟨d.receiver j, LeastLoaded.receiver_lt d.counter hMembers _ j, fun k => ?_,
      congrArg Slot.entry hSlot⟩
    simp [Daemon.handed, unowned, hUnclaimed, eq_comm]
  · rw [claimUnclaimed_counter]
    refine LeastLoaded.filled_le_of_mem ?_ m hm
    rw [← List.count_pos_iff, d.count_receivers]
    exact List.length_pos_of_ne_nil hGets
  · rw [claimUnclaimed_counter]
    exact LeastLoaded.filled_level hLevel

/-- Three members, the first two with one interface each, and three interfaces without an
owner: the counters end level. -/
def skewed : Daemon 5 :=
  { Daemon.initial 5 with
    numMembers := 3
    members := fun k => ⟨BitVec.ofNat 32 (k + 1), if k < 2 then 1 else 0, true⟩
    myIndex := 2
    allocationTable := ![⟨1#32, claimed⟩, ⟨0#32, unclaimed⟩, ⟨2#32, claimed⟩, ⟨0#32, unclaimed⟩,
      ⟨0#32, unclaimed⟩] }

theorem skewed_level : Levelling.Level 3 (claimUnclaimed skewed).counter := by
  have hLevel : Levelling.Level skewed.numMembers skewed.counter := by
    intro i hi k hk
    simp only [Daemon.counter, skewed]
    split_ifs <;> omega
  exact (claimUnclaimed_fills (d := skewed) (by decide)).2.2.2.2.2 hLevel

end Wackamole
