import Wackamole.Cluster
import Mathlib.Data.Fin.VecNotation

/-! When the members of a view come out of the gather with the same table. Claims and
preferences are settled alike everywhere; what can differ are the accounts by which
each member hands out the interfaces that nobody claims or prefers. -/
namespace Wackamole

open LeastLoaded

variable {n : Nat}

/-- How far the account of `a` is off at one interface, at a member whose `Old_table`
had the owner `old` when the view came: at an interface that a preference has taken, a
claim of `a` may still count, and the owner that `Old_table` names has been debited. -/
def excess (a old : Address) (bids : List Bid) : Int :=
  if taken bids then
    (if Credits a bids then 1 else 0) -
      if a = (if 2 ≤ (liveClaimants bids).length then liveOwner bids else old) then 1 else 0
  else 0

/-- The account of the member with address `a`: the interfaces it owns after the gather,
and what the account is off by unless the counters have been counted anew. -/
def account (bids : Fin n → List Bid) (old : Fin n → Address) (recount : Bool) (a : Address) :
    Int :=
  (∑ j, if (Entry.settled (bids j)).realIf = a then 1 else 0) +
    if recount then 0 else ∑ j, excess a (old j) (bids j)

/-- While no preference has taken an interface, its owner is the only member credited. -/
theorem credits_iff_owner {a : Address} (ha : a ≠ 0#32) {bids : List Bid} (hWf : BidsWf bids)
    (hNot : ¬ taken bids) : Credits a bids ↔ (Entry.settled bids).realIf = a := by
  simp only [Credits, liveClaimants, liveOwner, if_neg hNot]
  constructor
  · rintro ⟨hMem, hNotMem | hOwner⟩
    · exact absurd hMem hNotMem
    · exact hOwner.symm
  · rintro rfl
    have hne : bids ≠ [] := by
      rintro rfl
      exact ha rfl
    exact ⟨(settled_of_not_taken hWf.wf hNot hne).1, .inr rfl⟩

theorem credits_add_credit {a : Address} (ha : a ≠ 0#32) {bids : List Bid} (hWf : BidsWf bids)
    (old : Address) :
    ((if Credits a bids then 1 else 0) + (Entry.settled bids).credit a
        (if 2 ≤ (liveClaimants bids).length then liveOwner bids else old) : Int) =
      (if (Entry.settled bids).realIf = a then 1 else 0) + excess a old bids := by
  unfold excess Entry.credit
  generalize (if 2 ≤ (liveClaimants bids).length then liveOwner bids else old) = o
  by_cases hTaken : taken bids
  · have hPrefer : (Entry.settled bids).claimPriority = prefer := hTaken
    rw [if_pos hTaken, if_pos hPrefer]
    by_cases hOwner : a = (Entry.settled bids).realIf
    · by_cases hOld : a = o
      · simp [← hOwner, ← hOld]
      · simp [← hOwner, hOld]
        omega
    · have hOwner' : (Entry.settled bids).realIf ≠ a := fun hEq => hOwner hEq.symm
      by_cases hOld : a = o
      · subst hOld
        simp [hOwner, hOwner']
        omega
      · simp [hOwner, hOwner', hOld]
  · have hPrefer : ¬ (Entry.settled bids).claimPriority = prefer := hTaken
    rw [if_neg hTaken, if_neg hPrefer]
    simp only [credits_iff_owner ha hWf hTaken]

theorem Gathered.settledCount_eq {cfg : Config n} {d₀ d : Daemon n} {ms : List StateMess}
    (h : Gathered cfg d₀ ms d) (hMature : d.maturity = true) {k : Nat}
    (hk : k < d.numMembers) :
    d.settledCount k = account (fun j => bidsIn cfg.pseudoIf j ms)
      (fun j => (d₀.oldTable j).realIf) (! d₀.oldMaturity) (d.members k).realIf := by
  rw [Daemon.settledCount, account, h.oldMaturity]
  by_cases hOld : d₀.oldMaturity = true
  · rw [if_neg (by simp [hOld]), if_neg (by simp [hOld]), h.counted.counter k hk, add_zero, tally,
      ← Finset.sum_add_distrib, ← Finset.sum_add_distrib]
    apply Finset.sum_congr rfl
    intro j _
    rw [Slot.credit, (h.holds.tracked j).old, Daemon.slot_entry, h.entry]
    exact credits_add_credit (h.distinct.ne_zero k hk) (h.bidsWf j) _
  · rw [if_pos ⟨hMature, hOld⟩, if_pos (by simp [hOld]), ownedBy_eq_sum, add_zero]
    simp only [h.entry]

namespace Cluster

variable {m n : Nat} (c : Cluster m n) (script : List Delivery)

/-- The interfaces that no member claims or prefers. -/
def openVips : List (Fin n) :=
  (List.finRange n).filter fun j => (bidsIn c.vip j (statesIn script)).isEmpty

/-- The accounts of all members at member `i` when it hands out the open interfaces. -/
def accountAt (i : Fin m) (k : Nat) : Int :=
  if hk : k < m then
    account (fun j => bidsIn c.vip j (statesIn script))
      (fun j => ((enterView (c.daemon i)).oldTable j).realIf) (! (c.daemon i).oldMaturity)
      (c.cfg ⟨k, hk⟩).realIf
  else 0

/-- The members that enter RUN hold the same owner and priority for every interface,
and an interface that was open has been acquired by the one member that all tables name. -/
structure Agreement (d : Fin m → Daemon n) : Prop where
  table : ∀ i i', (d i).state = .run → (d i').state = .run →
    ∀ j, (d i).allocationTable j = (d i').allocationTable j
  covered : (∀ i, (d i).state = .run) → ∀ j ∈ c.openVips script,
    ∃ i, ∀ i', (j ∈ (d i').acquired ↔ i' = i) ∧
      ((d i').allocationTable j).realIf = (c.cfg i).realIf

section Gather

variable {c script} {ret : Int} {i : Fin m} {d : Daemon n}
  (h : c.IsScript script)
  (hd : Gathered (c.cfg i) (entered (c.cfg i) ret (c.daemon i)) (statesIn script) d)

include hd

theorem numMembers_eq : d.numMembers = m := by
  rw [hd.numMembers]
  exact c.numGroups i

theorem entry_eq (j : Fin n) :
    d.allocationTable j = Entry.settled (bidsIn c.vip j (statesIn script)) := by
  rw [hd.entry, c.pseudoIf]

theorem openVips_eq : unowned d.allocationTable (List.finRange n) = c.openVips script := by
  apply List.filter_congr
  intro j _
  by_cases hNone : bidsIn c.vip j (statesIn script) = []
  · rw [entry_eq hd, hNone]
    rfl
  · have hClaimed : (d.allocationTable j).claimPriority ≠ unclaimed := by
      intro hUnclaimed
      have hEmpty := hd.settled_of_unclaimed hUnclaimed
      rw [c.pseudoIf] at hEmpty
      exact hNone hEmpty
    rw [decide_eq_false hClaimed, eq_comm, List.isEmpty_eq_false_iff]
    exact hNone

include h

theorem members_realIf (k : Fin m) : (d.members k).realIf = (c.cfg k).realIf := by
  have hHeard := hd.heard (c.mess k) ((mem_statesIn h).mpr ⟨k, rfl⟩)
  rwa [c.mess_index] at hHeard

theorem settledCount_eq (hMature : d.maturity = true) {k : Nat} (hk : k < m) :
    d.settledCount k = c.accountAt script i k := by
  rw [hd.settledCount_eq hMature (by rw [numMembers_eq hd]; exact hk), accountAt, dif_pos hk,
    members_realIf h hd ⟨k, hk⟩, c.pseudoIf]
  rfl

/-- The table of member `i` in RUN. -/
theorem settle_entry_eq (hMature : d.maturity = true) (j : Fin n) :
    (settle (c.cfg i) d).allocationTable j =
      if j ∈ c.openVips script then
        ⟨(d.members (receiver (c.accountAt script i) m (c.openVips script) j)).realIf, claimed⟩
      else (Entry.settled (bidsIn c.vip j (statesIn script))).promote := by
  have hPos : 0 < m := Fin.pos i
  have hReceiver : fillReceiver d d.settledCount j =
      receiver (c.accountAt script i) m (c.openVips script) j := by
    rw [fillReceiver, openVips_eq hd, numMembers_eq hd]
    exact receiver_congr hPos (fun k hk => settledCount_eq h hd hMature hk) _ _
  rw [settle_entry d j (by rw [numMembers_eq hd]; exact hPos), hReceiver, entry_eq hd]
  have hOpen : (Entry.settled (bidsIn c.vip j (statesIn script))).claimPriority = unclaimed ↔
      j ∈ c.openVips script := by
    rw [← openVips_eq hd, unowned, List.mem_filter, entry_eq hd, decide_eq_true_iff]
    simp
  simp only [hOpen]

omit h in
/-- Whoever acquires an open interface is whom the own table names. -/
theorem open_acquired_iff {j : Fin n} (hj : j ∈ c.openVips script) :
    j ∈ (settle (c.cfg i) d).acquired ↔
      ((settle (c.cfg i) d).allocationTable j).realIf = (c.cfg i).realIf := by
  apply hd.settle_acquired_of_unclaimed
  rw [← openVips_eq hd, unowned, List.mem_filter] at hj
  exact of_decide_eq_true hj.2

end Gather

/-- The accounts of any two members hand out the open interfaces alike. -/
def SameShares : Prop :=
  ∀ i i', receivers (c.accountAt script i) m (c.openVips script).length =
    receivers (c.accountAt script i') m (c.openVips script).length

instance : Decidable (c.SameShares script) := by unfold SameShares; infer_instance

theorem openVips_nodup : (c.openVips script).Nodup := (List.nodup_finRange n).filter _

/-- Accounts that are right at all members hand out alike. -/
theorem sameShares_of_accurate
    (hAccurate : ∀ i k, ∀ j, excess (c.cfg k).realIf
      ((enterView (c.daemon i)).oldTable j).realIf (bidsIn c.vip j (statesIn script)) = 0) :
    c.SameShares script := by
  have hAccount (i i' : Fin m) : c.accountAt script i = c.accountAt script i' := by
    funext k
    unfold accountAt account
    split_ifs <;> simp [hAccurate]
  intro i i'
  rw [hAccount i i']

/-- The tables of all members in RUN are equal exactly when the accounts hand out the
open interfaces alike. -/
theorem settle_tables_iff (h : c.IsScript script) {ret : Fin m → Int} {d : Fin m → Daemon n}
    (hd : ∀ i, Gathered (c.cfg i) (entered (c.cfg i) (ret i) (c.daemon i)) (statesIn script)
      (d i)) (hMature : ∀ i, (d i).maturity = true) :
    (∀ i i' j, (settle (c.cfg i) (d i)).allocationTable j =
        (settle (c.cfg i') (d i')).allocationTable j) ↔ c.SameShares script := by
  have hReceiver (i : Fin m) (j : Fin n) :
      receiver (c.accountAt script i) m (c.openVips script) j < m :=
    receiver_lt _ (Fin.pos i) _ _
  have hEntry (i : Fin m) (j : Fin n) := settle_entry_eq h (hd i) (hMature i) j
  constructor
  · intro hTables i i'
    rw [receivers_eq_iff _ _ _ _ (c.openVips_nodup script)]
    intro j hj
    have hEq := congrArg Entry.realIf (hTables i i' j)
    rw [hEntry, hEntry, if_pos hj, if_pos hj] at hEq
    have hk := members_realIf h (hd i) ⟨_, hReceiver i j⟩
    have hk' := members_realIf h (hd i') ⟨_, hReceiver i' j⟩
    have hFin := c.realIf_injective (hk.symm.trans (hEq.trans hk'))
    exact congrArg Fin.val hFin
  · intro hShares i i' j
    rw [hEntry, hEntry]
    split_ifs with hj
    · have hSame := (receivers_eq_iff _ _ _ _ (c.openVips_nodup script)).mp (hShares i i') j hj
      have hk := members_realIf h (hd i) ⟨_, hReceiver i j⟩
      have hk' := members_realIf h (hd i') ⟨_, hReceiver i j⟩
      rw [← hSame]
      exact congrArg (Entry.mk · claimed) (hk.trans hk'.symm)
    · rfl

/-- Equal tables cover every open interface. -/
theorem settle_covered (h : c.IsScript script) {ret : Fin m → Int} {d : Fin m → Daemon n}
    (hd : ∀ i, Gathered (c.cfg i) (entered (c.cfg i) (ret i) (c.daemon i)) (statesIn script)
      (d i)) (hMature : ∀ i, (d i).maturity = true)
    (hTables : ∀ i i' j, (settle (c.cfg i) (d i)).allocationTable j =
      (settle (c.cfg i') (d i')).allocationTable j) (hPos : 0 < m) {j : Fin n}
    (hj : j ∈ c.openVips script) :
    ∃ i, ∀ i', (j ∈ (settle (c.cfg i') (d i')).acquired ↔ i' = i) ∧
      ((settle (c.cfg i') (d i')).allocationTable j).realIf = (c.cfg i).realIf := by
  let first : Fin m := ⟨0, hPos⟩
  have hReceiver : receiver (c.accountAt script first) m (c.openVips script) j < m :=
    receiver_lt _ hPos _ _
  have hOwner (i' : Fin m) : ((settle (c.cfg i') (d i')).allocationTable j).realIf =
      (c.cfg ⟨_, hReceiver⟩).realIf := by
    rw [hTables i' first j, settle_entry_eq h (hd first) (hMature first), if_pos hj]
    exact members_realIf h (hd first) ⟨_, hReceiver⟩
  refine ⟨⟨_, hReceiver⟩, fun i' => ⟨?_, hOwner i'⟩⟩
  rw [open_acquired_iff (hd i') hj, hOwner]
  exact ⟨fun hEq => (c.realIf_injective hEq).symm, fun hEq => by rw [hEq]⟩

/-- Agreement after the gather, exactly: the least loaded members are the same by every
account, as far as there are open interfaces to hand out. -/
theorem agreement_iff (mc : Fin m → Multicast) (hSent : ∀ i, 0 ≤ (mc i).ret)
    (hScript : c.IsScript script) :
    ∃ d, c.Outcome script mc d ∧
      (c.Agreement script d ↔ (c.Matures script → c.SameShares script)) := by
  choose d hGathered hMaturity hRun hBoot using run_eq hScript mc hSent
  have hPos := members_pos hScript
  by_cases hMatures : c.Matures script
  · have hMature (i : Fin m) : (d i).maturity = true := (hMaturity i).mpr hMatures
    refine ⟨_, fun i => hRun i hMatures, ?_⟩
    rw [← settle_tables_iff c script hScript hGathered hMature]
    constructor
    · intro hAgree _ i i' j
      exact hAgree.table i i' rfl rfl j
    · intro hTables
      refine ⟨fun i i' _ _ j => hTables hMatures i i' j, fun _ j hj => ?_⟩
      exact settle_covered c script hScript hGathered hMature (hTables hMatures) hPos hj
  · refine ⟨_, fun i => hBoot i hMatures, ?_⟩
    refine ⟨fun _ hYes => absurd hYes hMatures, fun _ => ⟨fun i _ hState => ?_, fun hAll => ?_⟩⟩
    · exact absurd hState (by simp)
    · exact absurd (hAll ⟨0, hPos⟩) (by simp)

theorem pairVip_injective : Function.Injective (![10#32, 11#32] : Fin 2 → Address) := by
  decide

/-- A newcomer that prefers interface 0, and two former views that each hold it and have
lost the member that held interface 1. -/
def mergeWithPreference : Cluster 3 2 :=
  let vip : Fin 2 → Address := ![10#32, 11#32]
  let cfg (i : Fin 3) : Config 2 :=
    ⟨vip, if i = 0 then [10#32] else [], ![1#32, 2#32, 3#32] i, "wack1", 1, false, true⟩
  ofTables vip cfg
    (fun i => if i = 0 then fun _ => ⟨0#32, unclaimed⟩
      else ![⟨(cfg i).realIf, claimed⟩, ⟨9#32, claimed⟩])
    (fun i => i ≠ 0) pairVip_injective (by decide) (by decide) (by decide) (by decide) (by decide)

theorem mergeWithPreference_isScript :
    mergeWithPreference.IsScript (mergeWithPreference.inOrder [0, 1, 2]) :=
  mergeWithPreference.inOrder_isScript [0, 1] 2 (by decide)

theorem mergeWithPreference_agreement_iff :
    let script := mergeWithPreference.inOrder [0, 1, 2]
    ∃ d, mergeWithPreference.Outcome script (fun _ => .success) d ∧
      (mergeWithPreference.Agreement script d ↔
        (mergeWithPreference.Matures script → mergeWithPreference.SameShares script)) :=
  agreement_iff mergeWithPreference _ (fun _ => .success) (by decide)
    mergeWithPreference_isScript

/-- Both former holders of interface 0 think that they themselves have least, and both
acquire interface 1. -/
theorem mergeWithPreference_disagrees :
    ∃ d, mergeWithPreference.Outcome (mergeWithPreference.inOrder [0, 1, 2]) (fun _ => .success) d ∧
      1 ∈ (d 1).acquired ∧ 1 ∈ (d 2).acquired ∧
      ¬ mergeWithPreference.Agreement (mergeWithPreference.inOrder [0, 1, 2]) d := by
  obtain ⟨d, hOutcome⟩ := mergeWithPreference.exists_outcome mergeWithPreference_isScript
    (fun _ => .success) (by decide)
  have hFinal (i : Fin 3) (hi : i ≠ 0) : (mergeWithPreference.run (fun _ => .success)
      (mergeWithPreference.inOrder [0, 1, 2]) i).returns (fun d => d.state = .run ∧
        1 ∈ d.acquired ∧ (d.allocationTable 1).realIf = (mergeWithPreference.cfg i).realIf) =
          true := by
    decide +kernel +revert
  have hFirst := hFinal 1 (by decide)
  have hSecond := hFinal 2 (by decide)
  rw [hOutcome] at hFirst hSecond
  obtain ⟨hState, hUp, hOwner⟩ := of_decide_eq_true hFirst
  obtain ⟨hState', hUp', hOwner'⟩ := of_decide_eq_true hSecond
  refine ⟨d, hOutcome, hUp, hUp', fun hAgree => ?_⟩
  have hEq := congrArg Entry.realIf (hAgree.table 1 2 hState hState' 1)
  rw [hOwner, hOwner'] at hEq
  exact absurd (mergeWithPreference.realIf_injective hEq) (by decide)

end Cluster

end Wackamole
