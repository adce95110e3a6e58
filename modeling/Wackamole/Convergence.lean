import Wackamole.BalanceOutcome
import Wackamole.Balancing
import Wackamole.Library.LevelRounds

/-! Rounds of balancing in a view that does not change, and how far they get. -/
namespace Wackamole

variable {m n : Nat}

open Levelling

/-- One round: the `Balance` timer of the first member fires, and every member handles
its message before the timer fires again. -/
def round (cfg : Fin (m + 1) → Config n) (daemon : Fin (m + 1) → Daemon n) :
    Fin (m + 1) → Daemon n :=
  if .balance ∈ (daemon 0).events then
    match balance (cfg 0) .success ((daemon 0).dequeue .balance) with
    | .ok d =>
      match balanceSends (cfg 0) (daemon 0) with
      | some mess => fun i =>
        handleBalance (cfg i) ((Function.update daemon 0 d i).load mess.packet)
      | none => Function.update daemon 0 d
    | .error _ => daemon
  else daemon

/-- At every member, the numbers of interfaces of any two members differ by at most one. -/
def Balanced (cfg : Fin (m + 1) → Config n) (daemon : Fin (m + 1) → Daemon n) : Prop :=
  ∀ i k k', ownedBy (daemon i).allocationTable (cfg k).realIf ≤
    ownedBy (daemon i).allocationTable (cfg k').realIf + 1

/-- How many interfaces a table gives to a member. -/
def vips (cfg : Fin (m + 1) → Config n) (table : Fin n → Entry) (k : Nat) : Int :=
  if hk : k < m + 1 then ownedBy table (cfg ⟨k, hk⟩).realIf else 0

/-- `Balance` gives up in the first round exactly when the members are level. -/
theorem planLoop_eq_none_iff {cfg : Config n} {size rate : Nat} {p : Plan n}
    (hWithin : p.levels.Within size) :
    planLoop cfg size rate 0 p = none ↔ 0 < rate ∧ Level size p.load := by
  cases rate with
  | zero => simp [planLoop]
  | succ rate =>
      have hUneven : (p.scan size).Uneven ↔ _ := Plan.scan_uneven
      rw [planLoop_succ]
      by_cases h : (p.scan size).Uneven
      · obtain ⟨result, hLoop⟩ := planLoop_isSome cfg size rate (Nat.succ_ne_zero 0)
          ((p.scan size).pass cfg)
        rw [if_pos h, hLoop]
        exact ⟨fun hNone => (by cases hNone), fun hLevel =>
          absurd hLevel.2 (not_level (hUneven.mp h) hWithin)⟩
      · rw [if_neg h, if_pos rfl]
        exact ⟨fun _ => ⟨Nat.succ_pos rate, level_of_scan fun hGap => h (hUneven.mpr hGap)⟩,
          fun _ => rfl⟩

/-- While nothing is preferred, every pass of `Balance` at uneven members has a move. -/
theorem Plan.Follows.movable {cfg : Config n} {size : Nat} {table : Fin n → Entry} {p : Plan n}
    (h : p.Follows cfg size table) (hWithin : p.levels.Within size)
    (hBelow : ∀ j, (table j).claimPriority < prefer) (hUneven : (p.scan size).Uneven) :
    ∃ j, (p.scan size).movable = some j := by
  rw [← Option.isSome_iff_exists, Option.isSome_iff_ne_none]
  intro hNone
  obtain ⟨hMin, hMax⟩ := Plan.scan_within hWithin
  have hFewest := h.scan.loads _ hMin
  have hMost := h.scan.loads _ hMax
  have hPriority (j : Fin n) : ((p.scan size).tempTable j).claimPriority < prefer := by
    rw [h.scan.tempTable]
    exact hBelow j
  have hOwned : ownedBy (p.scan size).tempTable ((p.scan size).address (p.scan size).maxIndex) =
      (p.scan size).movableOf ((p.scan size).address (p.scan size).maxIndex) := by
    rw [ownedBy_eq_card, Plan.movableOf]
    exact congrArg Finset.card
      (Finset.filter_congr fun j _ => (and_iff_left (hPriority j)).symm)
  rw [Plan.movable_eq_none, ← hOwned] at hNone
  rw [Plan.Uneven] at hUneven
  omega

/-- Then the plan levels the counters. -/
theorem planLoop_levelled {cfg : Config n} (hVip : Function.Injective cfg.pseudoIf)
    {size remaining k : Nat} {table : Fin n → Entry} {p : Plan n} (hSound : p.Sound cfg size)
    (h : p.Follows cfg size table) (hBelow : ∀ j, (table j).claimPriority < prefer)
    {result : Nat × Plan n} (hLoop : planLoop cfg size remaining k p = some result) :
    result.2.load = (levelled size remaining p.levels).load := by
  induction remaining generalizing k p with
  | zero =>
      cases hLoop
      rfl
  | succ remaining ih =>
      rw [planLoop_succ] at hLoop
      have hGap : (p.scan size).Uneven ↔ (p.levels.scan size).load (p.levels.scan size).high -
          (p.levels.scan size).load (p.levels.scan size).low > 1 := by
        rw [← Plan.scan_levels]
        rfl
      simp only [levelled]
      split_ifs at hLoop with hUneven
      · obtain ⟨j, hMove⟩ := h.movable hSound.within hBelow hUneven
        rw [Plan.pass, hMove] at hLoop
        have hRest := ih (hSound.give hVip hUneven hMove) (h.give hVip hSound hUneven hMove) hLoop
        rw [if_pos (hGap.mp hUneven), hRest, Plan.give_levels, Plan.scan_levels]
      · cases hLoop
        rw [if_neg fun h => hUneven (hGap.mpr h), ← Plan.scan_levels]
        rfl

section Rounds

variable {vip : Fin n → Address} {cfg : Fin (m + 1) → Config n} {table : Fin n → Entry}
  {daemon : Fin (m + 1) → Daemon n}

/-- The counters of the first member are the numbers that the table gives. -/
theorem Shared.excess_load (h : Shared cfg table daemon) :
    excess (m + 1) (Plan.start (daemon 0)).load = excess (m + 1) (vips cfg table) := by
  have hFirst := h.inStep 0
  refine excess_congr fun k hk => ?_
  have hCount := hFirst.counts k (hFirst.numMembers.symm ▸ hk)
  rw [vips, dif_pos hk, ← hFirst.allocationTable, ← hFirst.realIf ⟨k, hk⟩]
  exact hCount

/-- `Balance` sends nothing exactly when the members are level and the rate lets it see
that. -/
theorem Shared.sends_none_iff (h : Shared cfg table daemon) :
    balanceSends (cfg 0) (daemon 0) = none ↔
      0 < (cfg 0).balanceRate ∧ excess (m + 1) (vips cfg table) = 0 := by
  have hIndex : (daemon 0).myIndex = 0 := h.myIndex 0
  have hMembers : (daemon 0).numMembers = m + 1 := (h.inStep 0).numMembers
  have hWithin : (Plan.start (daemon 0)).levels.Within (daemon 0).numMembers := by
    rw [hMembers]
    exact ⟨Nat.succ_pos m, Nat.succ_pos m⟩
  rw [balanceSends, if_pos ⟨hIndex, (h.inStep 0).state⟩, balanceMess, Option.map_eq_none_iff,
    planLoop_eq_none_iff hWithin, hMembers, level_iff (Nat.succ_pos m), h.excess_load]

/-- One round in a shared state ends in a shared state, and moves as much of what has to
move as the rate allows. -/
theorem Shared.round (hView : View vip cfg) (h : Shared cfg table daemon)
    (hPending : .balance ∈ (daemon 0).events) :
    ∃ table', Shared cfg table' (round cfg daemon) ∧
      excess (m + 1) (vips cfg table') = excess (m + 1) (vips cfg table) - (cfg 0).balanceRate ∧
      (balanceSends (cfg 0) (daemon 0) = none → table' = table) ∧
      (.balance ∈ (Wackamole.round cfg daemon 0).events ↔ (cfg 0).completeBalance = false) := by
  have hSent : 0 ≤ Multicast.success.ret := le_rfl
  have hIndex : (daemon 0).myIndex = 0 := h.myIndex 0
  have hMembers : (daemon 0).numMembers = m + 1 := (h.inStep 0).numMembers
  obtain ⟨d₀, hBalance, hFired, -⟩ := h.fired hSent
  have hUpdate := h.update hFired
  rw [Wackamole.round, if_pos hPending, hBalance]
  cases hSends : balanceSends (cfg 0) (daemon 0) with
  | none =>
      have hLevel := (h.sends_none_iff.mp hSends).2
      refine ⟨table, hUpdate, by rw [hLevel, Nat.zero_sub], fun _ => rfl, ?_⟩
      dsimp only
      rw [Function.update_self]
      exact hFired.pending
  | some mess =>
      rw [balanceSends, if_pos ⟨hIndex, (h.inStep 0).state⟩, balanceMess,
        Option.map_eq_some_iff] at hSends
      obtain ⟨⟨count, plan⟩, hPlan, rfl⟩ := hSends
      have hAfter := h.handled hView hUpdate hPlan
      obtain ⟨hFollows, hAddress⟩ := h.follows hView hPlan
      refine ⟨plan.tempTable, hAfter, ?_, fun hNone => (by cases hNone), ?_⟩
      · have hWithin : (Plan.start (daemon 0)).levels.Within (m + 1) :=
          ⟨Nat.succ_pos m, Nat.succ_pos m⟩
        have hStart : (Plan.start (daemon 0)).Follows (cfg 0) (daemon 0).numMembers
            (daemon 0).allocationTable := .start (h.inStep 0).counts
        have hBelow (j : Fin n) : ((daemon 0).allocationTable j).claimPriority < prefer := by
          rw [(h.inStep 0).allocationTable]
          exact h.below j
        have hLoad := planLoop_levelled (hView.pseudoIf_injective 0) (h.sound hView) hStart hBelow
          hPlan
        have hVips : ∀ k < m + 1, vips cfg plan.tempTable k = plan.load k := by
          intro k hk
          rw [hFollows.loads k hk, hAddress ⟨k, hk⟩, vips, dif_pos hk]
        rw [excess_congr hVips, hLoad, hMembers, excess_levelled (Nat.succ_pos m) _ hWithin,
          ← h.excess_load]
        rfl
      · have hEvents := congrArg Control.events (handleBalance_control (cfg 0)
          ((Function.update daemon 0 d₀ 0).load (BalanceMess.packet ⟨count, plan.moves⟩)))
        rw [Function.update_self] at hEvents
        rw [← hFired.pending]
        exact iff_of_eq (congrArg (Timer.balance ∈ ·) hEvents)

theorem Shared.balanced_iff (h : Shared cfg table daemon) :
    Balanced cfg daemon ↔ excess (m + 1) (vips cfg table) = 0 := by
  rw [← level_iff (Nat.succ_pos m)]
  constructor
  · intro hBalanced k hk k' hk'
    have hClose := hBalanced 0 ⟨k, hk⟩ ⟨k', hk'⟩
    rw [(h.inStep 0).allocationTable] at hClose
    rw [vips, vips, dif_pos hk, dif_pos hk']
    exact_mod_cast hClose
  · intro hLevel i k k'
    have hClose := hLevel k k.isLt k' k'.isLt
    rw [vips, vips, dif_pos k.isLt, dif_pos k'.isLt] at hClose
    rw [(h.inStep i).allocationTable]
    exact_mod_cast hClose

/-- The state after some rounds, as long as the timer is queued again. -/
theorem Shared.rounds (hView : View vip cfg) (h : Shared cfg table daemon)
    (hPending : .balance ∈ (daemon 0).events) (hGradual : (cfg 0).completeBalance = false)
    (rounds : Nat) :
    ∃ table', Shared cfg table' ((Wackamole.round cfg)^[rounds] daemon) ∧
      excess (m + 1) (vips cfg table') =
        excess (m + 1) (vips cfg table) - rounds * (cfg 0).balanceRate ∧
      .balance ∈ ((Wackamole.round cfg)^[rounds] daemon 0).events := by
  induction rounds with
  | zero => exact ⟨table, h, by rw [Nat.zero_mul, Nat.sub_zero], hPending⟩
  | succ rounds ih =>
      obtain ⟨before, hBefore, hExcess, hQueued⟩ := ih
      obtain ⟨table', hAfter, hMoved, -, hEvents⟩ := hBefore.round hView hQueued
      rw [Function.iterate_succ_apply']
      refine ⟨table', hAfter, ?_, hEvents.mpr hGradual⟩
      rw [hMoved, hExcess, Nat.sub_sub, Nat.succ_mul]

/-- Two shared states with the same owners have as much to move. -/
theorem vips_congr {table table' : Fin n → Entry}
    (h : ∀ j, (table j).realIf = (table' j).realIf) : vips cfg table = vips cfg table' := by
  funext k
  simp only [vips, ownedBy, h]

/-- Gradual balancing reaches a state in which no two members differ by more than one and
stays there, and every round before that gives some interface a new owner. -/
theorem rounds_converge (hView : View vip cfg) (h : Shared cfg table daemon)
    (hPending : .balance ∈ (daemon 0).events) (hGradual : (cfg 0).completeBalance = false)
    (hRate : 1 ≤ (cfg 0).balanceRate) :
    (∃ enough, ∀ rounds ≥ enough,
      let now := (round cfg)^[rounds] daemon
      Balanced cfg now ∧ balanceSends (cfg 0) (now 0) = none ∧
        ∀ i, (round cfg now i).allocationTable = (now i).allocationTable ∧
          (round cfg now i).up = (now i).up) ∧
    ∀ rounds,
      let now := (round cfg)^[rounds] daemon
      ¬ Balanced cfg now → ∃ j, ∀ i,
        ((round cfg now i).allocationTable j).realIf ≠ ((now i).allocationTable j).realIf := by
  constructor
  · refine ⟨excess (m + 1) (vips cfg table), fun rounds hRounds => ?_⟩
    obtain ⟨before, hNow, hExcess, hQueued⟩ := h.rounds hView hPending hGradual rounds
    obtain ⟨table', hNext, -, hSame, -⟩ := hNow.round hView hQueued
    have hZero : excess (m + 1) (vips cfg before) = 0 := by
      have hEnough : excess (m + 1) (vips cfg table) ≤ rounds * (cfg 0).balanceRate :=
        hRounds.trans (Nat.le_mul_of_pos_right rounds hRate)
      rw [hExcess]
      exact Nat.sub_eq_zero_of_le hEnough
    have hSends := hNow.sends_none_iff.mpr ⟨hRate, hZero⟩
    obtain rfl := hSame hSends
    refine ⟨hNow.balanced_iff.mpr hZero, hSends, fun i => ⟨?_, ?_⟩⟩
    · rw [(hNext.inStep i).allocationTable, (hNow.inStep i).allocationTable]
    · ext j
      rw [(hNext.inStep i).up, (hNow.inStep i).up]
  · intro rounds now hUneven
    obtain ⟨before, hNow, -, hQueued⟩ := h.rounds hView hPending hGradual rounds
    obtain ⟨table', hNext, hMoved, -, -⟩ := hNow.round hView hQueued
    rw [hNow.balanced_iff] at hUneven
    have hOwners : ∃ j, (table' j).realIf ≠ (before j).realIf := by
      by_contra! hAll
      rw [vips_congr hAll] at hMoved
      omega
    obtain ⟨j, hj⟩ := hOwners
    refine ⟨j, fun i => ?_⟩
    rw [(hNext.inStep i).allocationTable, (hNow.inStep i).allocationTable]
    exact hj

/-- A first member that owns both interfaces of a view of two gives one of them away. -/
theorem rounds_converge_pair :
    let cfg := memberConfig ![10#32, 11#32] ![1#32, 2#32] 1 false
    let daemon := memberDaemon ![1#32, 2#32] ![0, 0]
    (∃ enough, ∀ rounds ≥ enough,
      let now := (round cfg)^[rounds] daemon
      Balanced cfg now ∧ balanceSends (cfg 0) (now 0) = none ∧
        ∀ i, (round cfg now i).allocationTable = (now i).allocationTable ∧
          (round cfg now i).up = (now i).up) ∧
    ∀ rounds,
      let now := (round cfg)^[rounds] daemon
      ¬ Balanced cfg now → ∃ j, ∀ i,
        ((round cfg now i).allocationTable j).realIf ≠ ((now i).allocationTable j).realIf := by
  intro cfg daemon
  have hView : View ![10#32, 11#32] cfg := ⟨fun _ => rfl, by decide, by decide, by decide⟩
  exact rounds_converge hView (memberDaemon_shared _ _ _ _ _) (by decide) rfl le_rfl

/-- What `Wackamole_init` makes of the configured rate. -/
def initialRate (completeBalance : Bool) (numPseudo balanceRate : Nat) : Nat :=
  let balanceRate := if balanceRate > numPseudo / 2 then numPseudo / 2 else balanceRate
  if completeBalance then numPseudo / 2 else balanceRate

/-- Complete balancing has one round. It levels the members exactly when no more than
half of the interfaces have to move. -/
theorem complete_balanced_iff (hView : View vip cfg) (h : Shared cfg table daemon)
    (hPending : .balance ∈ (daemon 0).events) (hComplete : (cfg 0).completeBalance = true)
    {requested : Nat}
    (hRate : (cfg 0).balanceRate = initialRate (cfg 0).completeBalance n requested) :
    (Balanced cfg (round cfg daemon) ↔ excess (m + 1) (vips cfg table) ≤ n / 2) ∧
      ∀ rounds, (round cfg)^[rounds + 1] daemon = round cfg daemon := by
  obtain ⟨table', hAfter, hMoved, -, hEvents⟩ := h.round hView hPending
  have hHalf : (cfg 0).balanceRate = n / 2 := by
    rw [hRate, initialRate, if_pos hComplete]
  constructor
  · rw [hAfter.balanced_iff, hMoved, hHalf, Nat.sub_eq_zero_iff_le]
  · have hIdle : ¬ .balance ∈ (round cfg daemon 0).events := by
      rw [hEvents, hComplete]
      decide
    have hStays : round cfg (round cfg daemon) = round cfg daemon := by
      rw [round, if_neg hIdle]
    intro rounds
    induction rounds with
    | zero => rfl
    | succ rounds ih => rw [Function.iterate_succ_apply', ih, hStays]

end Rounds

/-- Three members, the first of which owns all three interfaces: two have to move, and
the rate is one. -/
theorem complete_balanced_triple :
    let cfg := memberConfig ![10#32, 11#32, 12#32] ![1#32, 2#32, 3#32] (initialRate true 3 1) true
    let daemon := memberDaemon ![1#32, 2#32, 3#32] ![0, 0, 0]
    (Balanced cfg (round cfg daemon) ↔
      excess 3 (vips cfg (ownerTable ![1#32, 2#32, 3#32] ![0, 0, 0])) ≤ 3 / 2) ∧
      ∀ rounds, (round cfg)^[rounds + 1] daemon = round cfg daemon := by
  intro cfg daemon
  have hView : View ![10#32, 11#32, 12#32] cfg := ⟨fun _ => rfl, by decide, by decide, by decide⟩
  have hRate : (cfg 0).balanceRate = initialRate (cfg 0).completeBalance 3 1 := rfl
  exact complete_balanced_iff hView (memberDaemon_shared _ _ _ _ _) (by decide) rfl hRate

theorem triple_unbalanced :
    let cfg := memberConfig ![10#32, 11#32, 12#32] ![1#32, 2#32, 3#32] (initialRate true 3 1) true
    let daemon := memberDaemon ![1#32, 2#32, 3#32] ![0, 0, 0]
    Shared cfg (ownerTable ![1#32, 2#32, 3#32] ![0, 0, 0]) daemon ∧
      .balance ∈ (daemon 0).events ∧ ¬ Balanced cfg (round cfg daemon) := by
  intro cfg daemon
  have hFirst : ownedBy (round cfg daemon 0).allocationTable (cfg 0).realIf = 2 := by
    decide +kernel
  have hLast : ownedBy (round cfg daemon 0).allocationTable (cfg 2).realIf = 0 := by
    decide +kernel
  refine ⟨memberDaemon_shared _ _ _ _ _, by decide, fun hBalanced => ?_⟩
  have hClose := hBalanced 0 0 2
  rw [hFirst, hLast] at hClose
  exact absurd hClose (by decide)

end Wackamole
