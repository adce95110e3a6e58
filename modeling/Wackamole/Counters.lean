import Wackamole.Agreement

/-! The counters of a member that enters RUN. -/
namespace Wackamole

variable {n : Nat} {cfg : Config n}

/-- `Priority_claim` moves no owner. -/
theorem priorityClaim_ownedBy (d : Daemon n) (addr : Address) :
    ownedBy (priorityClaim cfg d).allocationTable addr = ownedBy d.allocationTable addr := by
  have hOwner (j : Fin n) : ((priorityClaim cfg d).allocationTable j).realIf =
      (d.allocationTable j).realIf := by
    rw [priorityClaim_entry, Entry.promote]
    split_ifs <;> rfl
  simp only [ownedBy, hOwner]

theorem settle_numMembers (d : Daemon n) : (settle cfg d).numMembers = d.numMembers :=
  (congrArg Control.numMembers (claimUnclaimed_control _)).trans (priorityClaim_numMembers cfg d)

theorem Daemon.Distinct.priorityClaim {d : Daemon n} (h : d.Distinct) :
    (priorityClaim cfg d).Distinct where
  ne_zero k hk := by
    rw [priorityClaim_numMembers] at hk
    rw [(priorityClaim_members d hk).1]
    exact h.ne_zero k hk
  injective k hk k' hk' := by
    rw [priorityClaim_numMembers] at hk hk'
    rw [(priorityClaim_members d hk).1, (priorityClaim_members d hk').1]
    exact h.injective k hk k' hk'

/-- A member that enters RUN is off by what its accounts are off by. -/
theorem Gathered.settle_surplus {d₀ d : Daemon n} {ms : List StateMess}
    (h : Gathered cfg d₀ ms d) (hMature : d.maturity = true) {k : Nat} (hk : k < d.numMembers) :
    (settle cfg d).surplus k =
      if d₀.oldMaturity = true then
        ∑ j, excess (d.members k).realIf (d₀.oldTable j).realIf (bidsIn cfg.pseudoIf j ms)
      else 0 := by
  have hNum : (priorityClaim cfg d).numMembers = d.numMembers := priorityClaim_numMembers cfg d
  have hZero (j : Fin n)
      (hUnclaimed : ((priorityClaim cfg d).allocationTable j).claimPriority = unclaimed) :
      ((priorityClaim cfg d).allocationTable j).realIf = 0#32 := by
    rw [priorityClaim_entry, promote_unclaimed] at hUnclaimed
    rw [priorityClaim_entry, Entry.promote]
    split_ifs <;> exact h.realIf_of_unclaimed hUnclaimed
  have hOwned : (ownedBy d.allocationTable (d.members k).realIf : Int) =
      ∑ j, if (Entry.settled (bidsIn cfg.pseudoIf j ms)).realIf = (d.members k).realIf
        then 1 else 0 := by
    simp only [ownedBy_eq_sum, h.entry]
  rw [settle, claimUnclaimed_surplus (hNum ▸ h.numMembers_pos) h.distinct.priorityClaim hZero
    (hNum ▸ hk), Daemon.surplus, Daemon.counter, (priorityClaim_members d hk).2,
    (priorityClaim_members d hk).1, priorityClaim_ownedBy, h.settledCount_eq hMature hk, account,
    hOwned, add_sub_cancel_left]
  cases d₀.oldMaturity <;> rfl

namespace Cluster

variable {m n : Nat} (c : Cluster m n) (script : List Delivery)

/-- How far the counter of member `k` is off at member `i`, unless `i` has counted anew: the
interfaces taken by a preference of which a claim of `k` still counts, less those that the
`Old_table` of `i` gives to `k`. -/
def surplusAt (i k : Fin m) : Int :=
  ∑ j, excess (c.cfg k).realIf ((enterView (c.daemon i)).oldTable j).realIf
    (bidsIn c.vip j (statesIn script))

/-- The counters of a member that ends the gather in RUN are exact if and only if it has counted
them anew, or its accounts of the preferred interfaces add up for every member. -/
theorem countsOwned_iff (mc : Fin m → Multicast) (hSent : ∀ i, 0 ≤ (mc i).ret)
    (hScript : c.IsScript script) :
    ∃ d, c.Outcome script mc d ∧ ∀ i, (d i).state = .run →
      ((d i).CountsOwned ↔
        (c.daemon i).oldMaturity = false ∨ ∀ k, c.surplusAt script i k = 0) := by
  choose d hGathered hMaturity hRun hBoot using run_eq hScript mc hSent
  by_cases hMatures : c.Matures script
  · refine ⟨_, fun i => hRun i hMatures, fun i _ => ?_⟩
    have hi := hGathered i
    have hNum := numMembers_eq hi
    have hSurplus {k : Nat} (hk : k < m) := hi.settle_surplus ((hMaturity i).mpr hMatures)
      (hNum.symm ▸ hk : k < (d i).numMembers)
    change (settle (c.cfg i) (d i)).CountsOwned ↔ _
    rw [countsOwned_iff_surplus, settle_numMembers, hNum]
    have hOld : (entered (c.cfg i) (mc i).ret (c.daemon i)).oldMaturity =
      (c.daemon i).oldMaturity := rfl
    have hSame (k : Fin m) : (settle (c.cfg i) (d i)).surplus k =
        if (c.daemon i).oldMaturity = true then c.surplusAt script i k else 0 := by
      rw [hSurplus k.isLt, hOld, members_realIf hScript hi k, c.pseudoIf]
      rfl
    cases hKnown : (c.daemon i).oldMaturity with
    | false =>
        refine ⟨fun _ => .inl rfl, fun _ k hk => ?_⟩
        rw [hSame ⟨k, hk⟩, hKnown]
        rfl
    | true =>
        rw [hKnown] at hSame
        refine ⟨fun hExact => .inr fun k => ?_, fun hExact k hk => ?_⟩
        · exact (hSame k).symm.trans (hExact k k.isLt)
        · exact (hSame ⟨k, hk⟩).trans ((hExact.resolve_left nofun) ⟨k, hk⟩)
  · exact ⟨_, fun i => hBoot i hMatures, fun i hState => absurd hState (by simp)⟩

theorem mergeWithPreference_countsOwned_iff :
    let script := mergeWithPreference.inOrder [0, 1, 2]
    ∃ d, mergeWithPreference.Outcome script (fun _ => .success) d ∧ ∀ i, (d i).state = .run →
      ((d i).CountsOwned ↔ (mergeWithPreference.daemon i).oldMaturity = false ∨
        ∀ k, mergeWithPreference.surplusAt script i k = 0) :=
  countsOwned_iff mergeWithPreference _ (fun _ => .success) (by decide)
    mergeWithPreference_isScript

/-- One former holder of interface 0 still counts it for the other one. -/
theorem mergeWithPreference_miscounts :
    ∃ d, mergeWithPreference.Outcome (mergeWithPreference.inOrder [0, 1, 2]) (fun _ => .success) d ∧
      (d 1).state = .run ∧ ¬ (d 1).CountsOwned := by
  obtain ⟨d, hOutcome⟩ := mergeWithPreference.exists_outcome mergeWithPreference_isScript
    (fun _ => .success) (by decide)
  have hFinal : (mergeWithPreference.run (fun _ => .success)
      (mergeWithPreference.inOrder [0, 1, 2]) 1).returns (fun d => d.state = .run ∧
        2 < d.numMembers ∧ d.counter 2 = 1 ∧
        ownedBy d.allocationTable (d.members 2).realIf = 0) = true := by
    decide +kernel
  rw [hOutcome] at hFinal
  obtain ⟨hState, hNum, hCounter, hOwned⟩ := of_decide_eq_true hFinal
  refine ⟨d, hOutcome, hState, fun hExact => ?_⟩
  have hSame := hExact 2 hNum
  rw [hCounter, hOwned] at hSame
  exact absurd hSame (by decide)

end Cluster

end Wackamole
