import Wackamole.Counters
import Mathlib.Data.Fin.VecNotation

/-! Exactly-one coverage after a gather, in the two situations where the accounts of
all members are right: no interface is preferred, or nobody holds anything yet. -/
namespace Wackamole

open LeastLoaded

variable {n : Nat}

/-- The owner of an interface that somebody claims or prefers has sent a message. -/
theorem sender_of_settled {vip : Fin n → Address} {numMembers : Nat} {ms : List StateMess}
    (h : ViewMessages vip numMembers ms) {j : Fin n} (hne : bidsIn vip j ms ≠ []) :
    ∃ m ∈ ms, m.realAddress = (Entry.settled (bidsIn vip j ms)).realIf := by
  by_cases hTaken : taken (bidsIn vip j ms)
  · exact sender_of_taken hTaken
  · have hMem := (settled_of_not_taken (h.bidsWf j).wf hTaken hne).1
    obtain ⟨m, hm, hEq, _⟩ := mem_claimants_bidsIn.mp hMem
    exact ⟨m, hm, hEq⟩

namespace Cluster

variable {m n : Nat} (c : Cluster m n) (script : List Delivery)

/-- Every interface is up at exactly one member, and that member is the one that the
tables of all members name. -/
def Covered (d : Fin m → Daemon n) : Prop :=
  ∀ j, ∃ i, ∀ i', (j ∈ (d i').up ↔ i' = i) ∧
    ((d i').allocationTable j).realIf = (c.cfg i).realIf

/-- All members are in RUN with equal tables and counters, and every interface is covered. -/
structure Running (d : Fin m → Daemon n) : Prop where
  state : ∀ i, (d i).state = .run
  table : ∀ i i', (d i).allocationTable = (d i').allocationTable
  counters : ∀ i i', ∀ k < m,
    ((d i).members k).numAllocated = ((d i').members k).numAllocated
  covered : c.Covered d

section Settle

variable {c script} (h : c.IsScript script) {ret : Fin m → Int} {d : Fin m → Daemon n}
  (hd : ∀ i, Gathered (c.cfg i) (entered (c.cfg i) (ret i) (c.daemon i)) (statesIn script) (d i))
  (hMature : ∀ i, (d i).maturity = true)
  (hAccurate : ∀ i k, ∀ j, excess (c.cfg k).realIf
    ((enterView (c.daemon i)).oldTable j).realIf (bidsIn c.vip j (statesIn script)) = 0)

include h hd in
theorem settle_realIf (i k : Fin m) :
    ((settle (c.cfg i) (d i)).members k).realIf = (c.cfg k).realIf := by
  have hk : (k : Nat) < (d i).numMembers := by
    rw [numMembers_eq (hd i)]
    exact k.isLt
  rw [settle, claimUnclaimed_realIf, (priorityClaim_members (d i) hk).1, members_realIf h (hd i)]

include hd in
theorem settle_numMembers (i : Fin m) : (settle (c.cfg i) (d i)).numMembers = m :=
  (Wackamole.settle_numMembers (d i)).trans (numMembers_eq (hd i))

include h hd hMature hAccurate

/-- With right accounts, the counters in RUN are the numbers of interfaces owned. -/
theorem settle_countsOwned (i : Fin m) : (settle (c.cfg i) (d i)).CountsOwned := by
  have hNum := numMembers_eq (hd i)
  rw [countsOwned_iff_surplus, Wackamole.settle_numMembers]
  intro k hk
  rw [(hd i).settle_surplus (hMature i) hk]
  split_ifs with hOld
  · apply Finset.sum_eq_zero
    intro j _
    rw [members_realIf h (hd i) ⟨k, hNum ▸ hk⟩, c.pseudoIf]
    exact hAccurate i ⟨k, hNum ▸ hk⟩ j
  · rfl

theorem settle_counter (i k : Fin m) : ((settle (c.cfg i) (d i)).members k).numAllocated =
    ownedBy (settle (c.cfg i) (d i)).allocationTable (c.cfg k).realIf := by
  have hCounts := settle_countsOwned h hd hMature hAccurate i k (by
    rw [settle_numMembers hd]
    exact k.isLt)
  rw [settle_realIf h hd] at hCounts
  exact hCounts

/-- With right accounts and nobody stranded, all members come out of the gather alike. -/
theorem settle_running
    (hKept : ∀ i, ∀ j ∈ (c.daemon i).up,
      ¬ Stranded (c.cfg i).realIf (bidsIn c.vip j (statesIn script))) :
    c.Running fun i => { settle (c.cfg i) (d i) with state := .run }.queue .balance := by
  have hTables := (settle_tables_iff c script h hd hMature).mpr
    (sameShares_of_accurate c script hAccurate)
  have hUp (i : Fin m) (j : Fin n) : j ∈ (settle (c.cfg i) (d i)).up ↔
      ((settle (c.cfg i) (d i)).allocationTable j).realIf = (c.cfg i).realIf := by
    have hExact : (settle (c.cfg i) (d i)).up = (settle (c.cfg i) (d i)).acquired :=
      (hd i).settle_exact.up
    rw [hExact, (hd i).settle_acquired_iff, c.pseudoIf]
    rintro ⟨hHeld, hStranded⟩
    change j ∈ (c.daemon i).acquired at hHeld
    rw [c.acquired] at hHeld
    exact hKept i j hHeld hStranded
  refine ⟨fun _ => rfl, fun i i' => funext fun j => hTables i i' j, ?_, ?_⟩
  · intro i i' k hk
    have hCount (i : Fin m) := settle_counter h hd hMature hAccurate i ⟨k, hk⟩
    change ((settle (c.cfg i) (d i)).members k).numAllocated =
      ((settle (c.cfg i') (d i')).members k).numAllocated
    rw [hCount, hCount, funext fun j => hTables i i' j]
  · intro j
    suffices hOwner : ∃ i, ∀ i', ((settle (c.cfg i') (d i')).allocationTable j).realIf =
        (c.cfg i).realIf by
      obtain ⟨i, hi⟩ := hOwner
      refine ⟨i, fun i' => ⟨(hUp i' j).trans ?_, hi i'⟩⟩
      rw [hi i']
      exact ⟨fun hEq => (c.realIf_injective hEq).symm, fun hEq => by rw [hEq]⟩
    have hPos := members_pos h
    by_cases hOpen : j ∈ c.openVips script
    · obtain ⟨i, hi⟩ := settle_covered c script h hd hMature hTables hPos hOpen
      exact ⟨i, fun i' => (hi i').2⟩
    · have hne : bidsIn c.vip j (statesIn script) ≠ [] := by
        intro hNil
        apply hOpen
        rw [openVips, List.mem_filter, hNil]
        exact ⟨List.mem_finRange j, rfl⟩
      obtain ⟨mess, hm, hAddress⟩ := sender_of_settled (messages h) hne
      obtain ⟨i, rfl⟩ := (mem_statesIn h).mp hm
      refine ⟨i, fun i' => ?_⟩
      rw [settle_entry_eq h (hd i') (hMature i'), if_neg hOpen, Entry.promote]
      split_ifs <;> exact hAddress.symm

end Settle

/-- Nobody prefers a managed interface. -/
def NoPreference : Prop := ∀ i, ∀ addr ∈ (c.cfg i).preferAddress, ∀ j, c.vip j ≠ addr

section NoPreference

variable {c script} (h : c.IsScript script) (hPrefer : c.NoPreference)

include h hPrefer

theorem not_taken_of_noPreference (j : Fin n) : ¬ taken (bidsIn c.vip j (statesIn script)) := by
  intro hTaken
  obtain ⟨before, sender, after, hBids, _⟩ := taken_split hTaken
  have hMem : Bid.preference sender ∈ bidsIn c.vip j (statesIn script) := by simp [hBids]
  obtain ⟨mess, hm, hBid⟩ := List.mem_flatMap.mp hMem
  obtain ⟨i, rfl⟩ := (mem_statesIn h).mp hm
  rcases List.mem_append.mp hBid with hClaim | hPreference
  · obtain ⟨_, _, hEq⟩ := List.mem_map.mp hClaim
    exact absurd hEq (by simp)
  · obtain ⟨addr, hAddr, _⟩ := List.mem_map.mp hPreference
    obtain ⟨hAddr, hVip⟩ := List.mem_filter.mp hAddr
    exact hPrefer i addr hAddr j (of_decide_eq_true hVip)

theorem not_stranded_of_noPreference {i : Fin m} {j : Fin n} (hj : j ∈ (c.daemon i).up) :
    ¬ Stranded (c.cfg i).realIf (bidsIn c.vip j (statesIn script)) := by
  rintro ⟨_, hLive⟩
  rw [liveClaimants, if_neg (not_taken_of_noPreference h hPrefer j)] at hLive
  exact hLive ((c.claims_iff h i j).mpr hj)

/-- In BOOT an immature member has nothing up. -/
theorem up_eq_empty {ret : Int} {i : Fin m} {d : Daemon n}
    (hd : Gathered (c.cfg i) (entered (c.cfg i) ret (c.daemon i)) (statesIn script) d)
    (hImmature : (c.daemon i).maturity = false) : d.up = ∅ := by
  rw [Finset.eq_empty_iff_forall_notMem]
  intro j hj
  rcases hd.holds.sound.up_entry j hj with hMem | ⟨_, _, hEntry⟩
  · have hHeld : j ∈ (c.daemon i).acquired := hd.held_of_acquired hMem
    rw [c.acquired, c.immature i hImmature] at hHeld
    exact absurd hHeld (Finset.notMem_empty j)
  · rw [entry_eq hd] at hEntry
    exact not_taken_of_noPreference h hPrefer j hEntry

end NoPreference

/-- Gather without preferences: the members come out in RUN, covering every interface,
or all in BOOT with nothing up, when nobody was or has turned mature. -/
theorem gather_coverage (mc : Fin m → Multicast) (hSent : ∀ i, 0 ≤ (mc i).ret)
    (hScript : c.IsScript script) (hPrefer : c.NoPreference) :
    ∃ d, c.Outcome script mc d ∧
      (c.Matures script ∧ c.Running d ∨
        ¬ c.Matures script ∧ ∀ i, (d i).state = .boot ∧ (d i).up = ∅) := by
  choose d hGathered hMaturity hRun hBoot using run_eq hScript mc hSent
  by_cases hMatures : c.Matures script
  · refine ⟨_, fun i => hRun i hMatures, .inl ⟨hMatures, ?_⟩⟩
    apply settle_running hScript hGathered fun i => (hMaturity i).mpr hMatures
    · intro i k j
      rw [excess, if_neg (not_taken_of_noPreference hScript hPrefer j)]
    · exact fun i j hj => not_stranded_of_noPreference hScript hPrefer hj
  · refine ⟨_, fun i => hBoot i hMatures, .inr ⟨hMatures, fun i => ⟨rfl, ?_⟩⟩⟩
    apply up_eq_empty hScript hPrefer (hGathered i)
    rw [← Bool.not_eq_true]
    exact fun hMature => hMatures (.inl ⟨i, hMature⟩)

/-- Two members, each the only one of its former view, that both hold interface 0. -/
def twoPartitions : Cluster 2 2 :=
  let vip : Fin 2 → Address := ![10#32, 11#32]
  let cfg (i : Fin 2) : Config 2 := ⟨vip, [], ![1#32, 2#32] i, "wack1", 1, false, true⟩
  ofTables vip cfg (fun i => ![⟨(cfg i).realIf, claimed⟩, ⟨9#32, claimed⟩]) (fun _ => true)
    pairVip_injective (by decide) (by decide) (by decide) (by decide) (by decide)

theorem twoPartitions_coverage :
    let script := twoPartitions.inOrder [1, 0]
    ∃ d, twoPartitions.Outcome script (fun _ => .success) d ∧
      (twoPartitions.Matures script ∧ twoPartitions.Running d ∨
        ¬ twoPartitions.Matures script ∧ ∀ i, (d i).state = .boot ∧ (d i).up = ∅) :=
  gather_coverage twoPartitions _ (fun _ => .success) (by decide)
    (twoPartitions.inOrder_isScript [1] 0 (by decide))
    fun i addr h => absurd h List.not_mem_nil

/-- Every member is immature and its `Old_table` names nobody. -/
structure Cold : Prop where
  maturity : ∀ i, (c.daemon i).maturity = false
  old : ∀ i j, ((enterView (c.daemon i)).oldTable j).realIf = 0#32

/-- The first message that prefers interface `j`. -/
def firstPreference (j : Fin n) : Option StateMess :=
  (statesIn script).find? fun mess => c.vip j ∈ mess.prefers

section Cold

variable {c script} (h : c.IsScript script) (hCold : c.Cold)

include hCold

theorem mess_claims_of_cold (i : Fin m) : (c.mess i).claims = [] := by
  rw [List.eq_nil_iff_forall_not_mem]
  intro claim hClaim
  obtain ⟨j, hj, _⟩ := c.mem_claims hClaim
  rw [c.immature i (hCold.maturity i)] at hj
  exact Finset.notMem_empty j hj

include h

theorem claimants_of_cold (j : Fin n) : claimants (bidsIn c.vip j (statesIn script)) = [] := by
  rw [List.eq_nil_iff_forall_not_mem]
  intro a ha
  obtain ⟨mess, hm, _, claim, hClaim, _⟩ := mem_claimants_bidsIn.mp ha
  obtain ⟨i, rfl⟩ := (mem_statesIn h).mp hm
  rw [mess_claims_of_cold hCold] at hClaim
  exact List.not_mem_nil hClaim

theorem excess_of_cold (i k : Fin m) (j : Fin n) :
    excess (c.cfg k).realIf ((enterView (c.daemon i)).oldTable j).realIf
      (bidsIn c.vip j (statesIn script)) = 0 := by
  have hCredits : ¬ Credits (c.cfg k).realIf (bidsIn c.vip j (statesIn script)) := by
    apply not_credits_of_fresh
    rw [claimants_of_cold h hCold]
    exact List.not_mem_nil
  have hLive : ¬ 2 ≤ (liveClaimants (bidsIn c.vip j (statesIn script))).length := by
    have hNone : liveClaimants (bidsIn c.vip j (statesIn script)) = [] := by
      rw [List.eq_nil_iff_forall_not_mem]
      intro a ha
      have hMem := Tracked.mem_claimants_of_live ha
      rw [claimants_of_cold h hCold] at hMem
      exact List.not_mem_nil hMem
    simp [hNone]
  rw [excess, if_neg hCredits, if_neg hLive, hCold.old, if_neg (c.realIf_ne_zero k)]
  simp

end Cold

theorem findSome_bidsOn_of_no_claims (vip : Fin n → Address) {mess : StateMess}
    (hClaims : mess.claims = []) (j : Fin n) :
    (bidsOn vip j mess).findSome? Bid.strong =
      if vip j ∈ mess.prefers then some ⟨mess.realAddress, prefer⟩ else none := by
  have hBids : bidsOn vip j mess =
      (mess.prefers.filter fun addr => vip j = addr).map fun _ => .preference mess.realAddress := by
    simp [bidsOn, hClaims]
  rw [hBids, List.findSome?_map]
  split_ifs with hPrefers
  · have hMem : vip j ∈ mess.prefers.filter fun addr => vip j = addr :=
      List.mem_filter.mpr ⟨hPrefers, by simp⟩
    obtain ⟨addr, rest, hCons⟩ := List.exists_cons_of_ne_nil (List.ne_nil_of_mem hMem)
    rw [hCons]
    rfl
  · have hNil : (mess.prefers.filter fun addr => vip j = addr) = [] := by
      rw [List.filter_eq_nil_iff]
      intro addr hAddr hEq
      exact hPrefers (of_decide_eq_true hEq ▸ hAddr)
    rw [hNil]
    rfl

/-- A cold gather settles each interface for the first message that prefers it. -/
theorem settled_of_no_claims (vip : Fin n → Address) (ms : List StateMess)
    (hClaims : ∀ mess ∈ ms, mess.claims = []) (j : Fin n) :
    Entry.settled (bidsIn vip j ms) =
      match ms.find? fun mess => vip j ∈ mess.prefers with
      | some mess => ⟨mess.realAddress, prefer⟩
      | none => Entry.blank := by
  have hStrong : (bidsIn vip j ms).findSome? Bid.strong =
      (ms.find? fun mess => vip j ∈ mess.prefers).map fun mess => ⟨mess.realAddress, prefer⟩ := by
    induction ms with
    | nil => rfl
    | cons mess ms ih =>
        have hSplit : bidsIn vip j (mess :: ms) = bidsOn vip j mess ++ bidsIn vip j ms := rfl
        have hRest := ih fun mess' hm => hClaims mess' (List.mem_cons_of_mem mess hm)
        rw [hSplit, List.findSome?_append, hRest,
          findSome_bidsOn_of_no_claims vip (hClaims mess List.mem_cons_self)]
        by_cases hPrefers : vip j ∈ mess.prefers
        · simp [hPrefers]
        · simp [hPrefers]
  cases hFirst : ms.find? fun mess => vip j ∈ mess.prefers with
  | some mess =>
      rw [hFirst] at hStrong
      exact settled_eq_of_strong hStrong
  | none =>
      rw [hFirst] at hStrong
      have hWeak : (bidsIn vip j ms).findSome? Bid.weak = none := by
        rw [List.findSome?_eq_none_iff]
        intro b hb
        obtain ⟨mess, hm, hBid⟩ := List.mem_flatMap.mp hb
        rcases List.mem_append.mp hBid with hClaim | hPreference
        · simp [hClaims mess hm] at hClaim
        · obtain ⟨_, _, rfl⟩ := List.mem_map.mp hPreference
          rfl
      rw [settled_of_noStrong hStrong, hWeak]
      rfl

/-- What a cold gather settles, the first MATURING message promotes, and it fills the rest. -/
theorem settle_entry_of_no_claims (hScript : c.IsScript script) {i : Fin m} {ret : Int}
    {d : Daemon n}
    (hd : Gathered (c.cfg i) (entered (c.cfg i) ret (c.daemon i)) (statesIn script) d)
    (hMature : d.maturity = true) (hClaims : ∀ mess ∈ statesIn script, mess.claims = [])
    (j : Fin n) :
    match c.firstPreference script j with
    | some mess => (settle (c.cfg i) d).allocationTable j = ⟨mess.realAddress, preferClaimed⟩
    | none => ((settle (c.cfg i) d).allocationTable j).claimPriority = claimed := by
  have hEntry := settle_entry_eq hScript hd hMature j
  have hSettled := settled_of_no_claims c.vip (statesIn script) hClaims j
  rw [hEntry, firstPreference]
  cases hFind : (statesIn script).find? fun mess => c.vip j ∈ mess.prefers with
  | some mess =>
      rw [hFind] at hSettled
      have hClosed : j ∉ c.openVips script := by
        intro hOpen
        have hEmpty := (List.mem_filter.mp hOpen).2
        rw [List.isEmpty_iff.mp hEmpty] at hSettled
        exact absurd (congrArg Entry.claimPriority hSettled) (by simp)
      simp only [if_neg hClosed, hSettled, Entry.promote, ↓reduceIte]
  | none =>
      rw [hFind] at hSettled
      have hNone : bidsIn (c.cfg i).pseudoIf j (statesIn script) = [] := by
        apply hd.settled_of_unclaimed
        rw [entry_eq hd, hSettled]
      rw [c.pseudoIf] at hNone
      have hOpen : j ∈ c.openVips script := by
        rw [openVips, List.mem_filter, hNone]
        exact ⟨List.mem_finRange j, rfl⟩
      simp only [if_pos hOpen]

/-- Cold start: the STATE messages leave all members in BOOT, and the first MATURING
message brings them to RUN. -/
theorem cold_start (mc : Fin m → Multicast) (hSent : ∀ i, 0 ≤ (mc i).ret)
    (hScript : c.IsScript script) (hCold : c.Cold) (hFirst : .mature ∉ script) :
    ∃ b d, c.Outcome script mc b ∧ (∀ i, (b i).state = .boot) ∧
      c.Outcome (script ++ [.mature]) mc d ∧ c.Running d ∧
      (∀ i j, match c.firstPreference script j with
        | some mess => (d i).allocationTable j = ⟨mess.realAddress, preferClaimed⟩
        | none => ((d i).allocationTable j).claimPriority = claimed) ∧
      ∀ i k : Fin m, ((d i).members k).numAllocated =
        ownedBy (d i).allocationTable (c.cfg k).realIf := by
  choose d hGathered hMaturity hRun hBoot using run_eq hScript mc hSent
  have hImmature : ¬ c.Matures script := by
    rintro (⟨i, hMature⟩ | hMature)
    · rw [hCold.maturity i] at hMature
      exact absurd hMature (by decide)
    · exact hFirst hMature
  have hFlag (i : Fin m) : (d i).maturity = false := by
    rw [← Bool.not_eq_true, hMaturity i]
    exact hImmature
  let d' (i : Fin m) : Daemon n :=
    { d i with state := .boot, maturity := true, events := (d i).events.erase .turnMature }
  have hGathered' (i : Fin m) : Gathered (c.cfg i) (entered (c.cfg i) (mc i).ret (c.daemon i))
      (statesIn script) (d' i) := (hGathered i).withState _ _ _
  have hAccurate := excess_of_cold hScript hCold
  have hClaims : ∀ mess ∈ statesIn script, mess.claims = [] := by
    intro mess hm
    obtain ⟨i, rfl⟩ := (mem_statesIn hScript).mp hm
    exact mess_claims_of_cold hCold i
  refine ⟨fun i => { d i with state := .boot },
    fun i => { settle (c.cfg i) (d' i) with state := .run }.queue .balance,
    fun i => hBoot i hImmature, fun _ => rfl, ?_, ?_, ?_, ?_⟩
  · intro i
    have hRunBoot := hBoot i hImmature
    rw [run, c.handleMembership_eq mc hSent] at hRunBoot ⊢
    have hFold : script.foldl (deliver (c.cfg i))
        (entered (c.cfg i) (mc i).ret (c.daemon i)) = { d i with state := .boot } :=
      Except.ok.inj hRunBoot
    have hLast := handleMature_of_boot (c.cfg i) (hFlag i)
    change Except.ok ((script ++ [Delivery.mature]).foldl _ _) = _
    rw [List.foldl_append, hFold]
    exact congrArg Except.ok hLast
  · apply settle_running hScript hGathered' (fun _ => rfl) hAccurate
    intro i j hj
    rw [c.immature i (hCold.maturity i)] at hj
    exact absurd hj (Finset.notMem_empty j)
  · exact fun i j => c.settle_entry_of_no_claims script hScript (hGathered' i) rfl hClaims j
  · exact fun i k => settle_counter hScript hGathered' (fun _ => rfl) hAccurate i k

/-- Two immature members that both prefer interface 0. -/
def coldPair : Cluster 2 2 :=
  let vip : Fin 2 → Address := ![10#32, 11#32]
  let cfg (i : Fin 2) : Config 2 := ⟨vip, [10#32], ![1#32, 2#32] i, "wack1", 1, false, true⟩
  ofTables vip cfg (fun _ _ => ⟨0#32, unclaimed⟩) (fun _ => false)
    pairVip_injective (by decide) (by decide) (by decide) (by decide) (by decide)

theorem coldPair_start :
    let script := coldPair.inOrder [1, 0]
    ∃ b d, coldPair.Outcome script (fun _ => .success) b ∧ (∀ i, (b i).state = .boot) ∧
      coldPair.Outcome (script ++ [.mature]) (fun _ => .success) d ∧ coldPair.Running d ∧
      (∀ i j, match coldPair.firstPreference script j with
        | some mess => (d i).allocationTable j = ⟨mess.realAddress, preferClaimed⟩
        | none => ((d i).allocationTable j).claimPriority = claimed) ∧
      ∀ i k : Fin 2, ((d i).members k).numAllocated =
        ownedBy (d i).allocationTable (coldPair.cfg k).realIf :=
  cold_start coldPair _ (fun _ => .success) (by decide)
    (coldPair.inOrder_isScript [1] 0 (by decide)) ⟨fun _ => rfl, fun _ _ => rfl⟩
    (by simp [inOrder])

end Cluster

end Wackamole
