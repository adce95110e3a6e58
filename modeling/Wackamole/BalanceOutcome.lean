import Wackamole.BalanceRound
import Mathlib.Data.Fin.VecNotation

/-! One round of balancing in a view: what `Balance` plans at the first member is what
`Handle_balance` does at every member. -/
namespace Wackamole

variable {m n : Nat} {cfg : Config n}

open Levelling

/-- A plan gives the interfaces of its moves to their new owners and nothing else, none
of them to the owner that it had, and its counters count its own table. -/
structure Plan.Follows (cfg : Config n) (size : Nat) (table : Fin n → Entry) (p : Plan n) :
    Prop where
  tempTable : p.tempTable = moveTable cfg.pseudoIf table p.moves
  away : ∀ move ∈ p.moves, ∀ j, cfg.pseudoIf j = move.2 → (table j).realIf ≠ move.1
  loads : ∀ k < size, p.load k = ownedBy p.tempTable (p.address k)

theorem movedTo_of_fresh {vip : Fin n → Address} {moves : List Move} {j : Fin n}
    (hFresh : vip j ∉ moves.map Prod.snd) : movedTo vip moves j = none := by
  rw [movedTo, Option.map_eq_none_iff, List.find?_eq_none]
  intro move hMem hEq
  rw [decide_eq_true_eq] at hEq
  exact hFresh (List.mem_map.mpr ⟨move, hMem, hEq.symm⟩)

theorem movedTo_snoc_self {vip : Fin n → Address} {moves : List Move} {move : Move} {j : Fin n}
    (hFresh : vip j ∉ moves.map Prod.snd) (hj : vip j = move.2) :
    movedTo vip (moves ++ [move]) j = some move.1 := by
  have hNone := movedTo_of_fresh hFresh
  rw [movedTo, Option.map_eq_none_iff] at hNone
  rw [movedTo, List.find?_append, hNone]
  simp [hj]

theorem movedTo_snoc_other {vip : Fin n → Address} {moves : List Move} {move : Move} {j : Fin n}
    (hj : vip j ≠ move.2) : movedTo vip (moves ++ [move]) j = movedTo vip moves j := by
  rw [movedTo, movedTo, List.find?_append]
  simp [hj]

namespace Plan.Follows

variable {size : Nat} {table : Fin n → Entry} {p : Plan n}

theorem start {d : Daemon n} (hCounts : d.CountsOwned) :
    (Plan.start d).Follows cfg d.numMembers d.allocationTable where
  tempTable := rfl
  away _ hMem := absurd hMem List.not_mem_nil
  loads := hCounts

theorem scan (h : p.Follows cfg size table) : (p.scan size).Follows cfg size table := by
  rw [scan_eq]
  exact ⟨h.tempTable, h.away, h.loads⟩

/-- A round with a move: a VIP that has not been moved leaves the fullest member. -/
theorem give (hVip : Function.Injective cfg.pseudoIf) (hSound : p.Sound cfg size)
    (h : p.Follows cfg size table) (hUneven : (p.scan size).Uneven) {j : Fin n}
    (hMove : (p.scan size).movable = some j) :
    ((p.scan size).give cfg j).Follows cfg size table := by
  have hScan := h.scan
  have hDistinct := hSound.scan.distinct
  obtain ⟨hMin, hMax⟩ := scan_within hSound.within
  have hOwner : ((p.scan size).tempTable j).realIf = (p.scan size).address (p.scan size).maxIndex :=
    (movable_of_some hMove).1
  have hNe : (p.scan size).minIndex ≠ (p.scan size).maxIndex := by
    intro hEq
    rw [Uneven, hEq] at hUneven
    omega
  have hMoves : ((p.scan size).give cfg j).moves = (p.scan size).moves ++
      [((p.scan size).address (p.scan size).minIndex, cfg.pseudoIf j)] := rfl
  have hFresh : cfg.pseudoIf j ∉ (p.scan size).moves.map Prod.snd := by
    have hNodup := (hSound.give hVip hUneven hMove).nodup
    rw [hMoves, List.map_append, List.nodup_append] at hNodup
    exact fun hMem => hNodup.2.2 _ hMem (cfg.pseudoIf j) (by simp) rfl
  have hSame : (p.scan size).tempTable j = table j := by
    have hBefore := congrFun hScan.tempTable j
    rw [moveTable, movedTo_of_fresh hFresh] at hBefore
    exact hBefore
  refine ⟨?_, ?_, ?_⟩
  · funext i
    rw [give_tempTable, hMoves, moveTable]
    by_cases hi : i = j
    · subst hi
      rw [if_pos rfl, movedTo_snoc_self hFresh rfl, Option.getD_some, hSame]
    · have hNot : cfg.pseudoIf i ≠ cfg.pseudoIf j := fun hEq => hi (hVip hEq)
      rw [if_neg hi, movedTo_snoc_other hNot]
      exact congrFun hScan.tempTable i
  · intro move hMem i hi
    rw [hMoves, List.mem_append, List.mem_singleton] at hMem
    rcases hMem with hOld | rfl
    · exact hScan.away move hOld i hi
    · rw [hVip hi, ← hSame, hOwner]
      exact fun hEq => hNe (hDistinct _ hMax _ hMin hEq).symm
  · intro k hk
    have hLoad : ((p.scan size).give cfg j).load k = (p.scan size).levels.pour.load k :=
      congrArg (fun s => Levels.load s k) (give_levels j (p.scan size))
    have hTable : ((p.scan size).give cfg j).tempTable =
        Function.update (p.scan size).tempTable j
          { (p.scan size).tempTable j with
            realIf := (p.scan size).address (p.scan size).minIndex } := by
      funext i
      rw [give_tempTable, Function.update_apply]
      by_cases hi : i = j
      · rw [if_pos hi, if_pos hi, hi]
      · rw [if_neg hi, if_neg hi]
    have hCount := hScan.loads k hk
    have hSameMax : (p.scan size).address (p.scan size).maxIndex = (p.scan size).address k ↔
        k = (p.scan size).maxIndex :=
      ⟨fun hEq => hDistinct k hk _ hMax hEq.symm, fun hEq => hEq ▸ rfl⟩
    have hSameMin : (p.scan size).address (p.scan size).minIndex = (p.scan size).address k ↔
        k = (p.scan size).minIndex :=
      ⟨fun hEq => hDistinct k hk _ hMin hEq.symm, fun hEq => hEq ▸ rfl⟩
    rw [hLoad, Levels.pour_load hNe, give_address, hTable, ownedBy_update, hOwner, ← hCount]
    simp only [hSameMax, hSameMin]
    change (if k = (p.scan size).minIndex then (p.scan size).load k + 1
      else if k = (p.scan size).maxIndex then (p.scan size).load k - 1
      else (p.scan size).load k) = _
    split_ifs with hkMin hkMax
    · exact absurd (hkMin.symm.trans hkMax) hNe
    all_goals omega

end Plan.Follows

theorem planLoop_follows (hVip : Function.Injective cfg.pseudoIf) {size remaining k : Nat}
    {table : Fin n → Entry} {p : Plan n} (hSound : p.Sound cfg size)
    (h : p.Follows cfg size table) {result : Nat × Plan n}
    (hLoop : planLoop cfg size remaining k p = some result) :
    result.2.Follows cfg size table := by
  induction remaining generalizing k p with
  | zero =>
      cases hLoop
      exact h
  | succ remaining ih =>
      rw [planLoop_succ] at hLoop
      split_ifs at hLoop with hUneven
      · rw [Plan.pass] at hLoop
        cases hMove : (p.scan size).movable with
        | some j =>
            rw [hMove] at hLoop
            exact ih (hSound.give hVip hUneven hMove) (h.give hVip hSound hUneven hMove) hLoop
        | none =>
            rw [hMove] at hLoop
            exact ih hSound.scan h.scan hLoop
      · cases hLoop
        exact h.scan

theorem handleBalance_ownCount {d : Daemon n} (h : d.OwnCount cfg) :
    (handleBalance cfg d).OwnCount cfg :=
  handleBalance_invariant (P := Daemon.OwnCount cfg) h (fun _ _ h => h) balanceMove_ownCount
    fun _ _ h => h

/-- What is fixed for the members of a view. The first of them plans, and its
`Balance_rate` is an int. -/
structure View (vip : Fin n → Address) (cfg : Fin (m + 1) → Config n) : Prop where
  pseudoIf : ∀ i, (cfg i).pseudoIf = vip
  vip_injective : Function.Injective vip
  realIf_injective : Function.Injective fun i => (cfg i).realIf
  balanceRate : (cfg 0).balanceRate < 2 ^ 31

theorem View.pseudoIf_injective {vip : Fin n → Address} {cfg : Fin (m + 1) → Config n}
    (h : View vip cfg) (i : Fin (m + 1)) : Function.Injective (cfg i).pseudoIf := by
  rw [h.pseudoIf i]
  exact h.vip_injective

/-- A state of RUN that all members share: one table without preferred entries, counters
that are true to it, and every interface up at its owner. -/
structure Shared (cfg : Fin (m + 1) → Config n) (table : Fin n → Entry)
    (daemon : Fin (m + 1) → Daemon n) : Prop where
  inStep : ∀ i, InStep (cfg i) (fun i => (cfg i).realIf) table (daemon i)
  ownCount : ∀ i, (daemon i).OwnCount (cfg i)
  myIndex : ∀ i, (daemon i).myIndex = i
  below : ∀ j, (table j).claimPriority < prefer

/-- The member is where a plan ends. -/
structure Realises (cfg : Config n) (plan : Plan n) (d : Daemon n) : Prop where
  allocationTable : d.allocationTable = plan.tempTable
  counters : ∀ k < d.numMembers, d.counter k = plan.load k
  ownCount : d.OwnCount cfg
  up : ∀ j, j ∈ d.up ↔ (d.allocationTable j).realIf = cfg.realIf

section Round

variable {vip : Fin n → Address} {cfg : Fin (m + 1) → Config n} {table : Fin n → Entry}
  {daemon : Fin (m + 1) → Daemon n}

theorem InStep.ownCount {cfg : Config n} {addr : Fin m → Address} {d d' : Daemon n}
    (h : InStep cfg addr table d) (h' : InStep cfg addr table d') (hOwn : d.OwnCount cfg)
    (hSame : d'.numAllocated = d.numAllocated) : d'.OwnCount cfg := by
  rw [Daemon.OwnCount, hSame, h'.allocationTable, ← h.allocationTable]
  exact hOwn

theorem Shared.sound (hView : View vip cfg) (h : Shared cfg table daemon) :
    (Plan.start (daemon 0)).Sound (cfg 0) (daemon 0).numMembers := by
  have hWithin : (Plan.start (daemon 0)).levels.Within (daemon 0).numMembers := by
    rw [(h.inStep 0).numMembers]
    exact ⟨Nat.succ_pos m, Nat.succ_pos m⟩
  exact ⟨(h.inStep 0).distinct hView.realIf_injective, hWithin, List.nodup_nil,
    by simp [Plan.start]⟩

/-- A plan of the first member follows the table that it started from. -/
theorem Shared.follows (hView : View vip cfg) (h : Shared cfg table daemon) {rate count : Nat}
    {plan : Plan n} (hPlan : planLoop (cfg 0) (daemon 0).numMembers rate 0
      (Plan.start (daemon 0)) = some (count, plan)) :
    plan.Follows (cfg 0) (m + 1) table ∧ ∀ i : Fin (m + 1), plan.address i = (cfg i).realIf := by
  have hFirst := h.inStep 0
  have hMembers : (daemon 0).numMembers = m + 1 := hFirst.numMembers
  have hStart : (Plan.start (daemon 0)).Follows (cfg 0) (daemon 0).numMembers
      (daemon 0).allocationTable := .start hFirst.counts
  have hSound := h.sound hView
  have hFollows := planLoop_follows (hView.pseudoIf_injective 0) hSound hStart hPlan
  rw [hMembers, hFirst.allocationTable] at hFollows
  have hAddress := (planLoop_sound (hView.pseudoIf_injective 0) hSound hPlan).2
  exact ⟨hFollows, fun i => (hAddress i).trans (hFirst.realIf i)⟩

/-- `Balance` at a first member in RUN that finds the members uneven. -/
theorem balance_of_some {cfg : Config n} {d : Daemon n} {mess : BalanceMess} {mc : Multicast}
    (hIndex : d.myIndex = 0) (hState : d.state = .run) (hMess : balanceMess cfg d = some mess)
    (hSent : 0 ≤ mc.ret) :
    balance cfg mc d = .ok (balanceLeave cfg
      { (d.write mess.words).record (.multicast balanceMessType mess.words mc.ret) with
        state := .run }) := by
  rw [balance, if_neg (not_not.mpr hIndex), if_neg (not_not.mpr hState), hMess]
  dsimp only
  rw [multicast_sent hSent]
  rfl

theorem balance_of_none {cfg : Config n} {d : Daemon n} (mc : Multicast) (hState : d.state = .run)
    (hMess : balanceMess cfg d = none) : balance cfg mc d = .ok (balanceLeave cfg d) := by
  have hSame : ({ d with state := .run } : Daemon n) = d := by rw [← hState]
  rw [balance, if_neg (not_not.mpr hState), hMess, hSame, ite_self]

/-- What the `Balance` timer leaves at the first member. -/
structure Fired (cfg : Fin (m + 1) → Config n) (table : Fin n → Entry) (d d₀ : Daemon n) :
    Prop where
  inStep : InStep (cfg 0) (fun i => (cfg i).realIf) table d₀
  numAllocated : d₀.numAllocated = d.numAllocated
  myIndex : d₀.myIndex = d.myIndex
  pending : .balance ∈ d₀.events ↔ (cfg 0).completeBalance = false

theorem Shared.fired (h : Shared cfg table daemon) {mc : Multicast} (hSent : 0 ≤ mc.ret) :
    ∃ d₀, balance (cfg 0) mc ((daemon 0).dequeue .balance) = .ok d₀ ∧
      Fired cfg table (daemon 0) d₀ ∧
      ∀ mess, balanceMess (cfg 0) (daemon 0) = some mess →
        d₀.trace = .multicast balanceMessType mess.words mc.ret :: (daemon 0).trace := by
  have hIndex : ((daemon 0).dequeue .balance).myIndex = 0 := h.myIndex 0
  have hState : ((daemon 0).dequeue .balance).state = .run := (h.inStep 0).state
  have hSame : balanceMess (cfg 0) ((daemon 0).dequeue .balance) =
      balanceMess (cfg 0) (daemon 0) := rfl
  have hLeave (d : Daemon n) (hAllocated : d.numAllocated = (daemon 0).numAllocated)
      (hIndex : d.myIndex = (daemon 0).myIndex)
      (hEvents : d.events = (daemon 0).events.erase .balance)
      (hInStep : InStep (cfg 0) (fun i => (cfg i).realIf) table (balanceLeave (cfg 0) d)) :
      Fired cfg table (daemon 0) (balanceLeave (cfg 0) d) := by
    refine ⟨hInStep, ?_, ?_, ?_⟩ <;> unfold balanceLeave
    · split_ifs <;> exact hAllocated
    · split_ifs <;> exact hIndex
    · split_ifs with hComplete <;> simp [hComplete, hEvents, Daemon.queue]
  have hTrace (d : Daemon n) : (balanceLeave (cfg 0) d).trace = d.trace := by
    unfold balanceLeave
    split_ifs <;> rfl
  obtain ⟨d₀, hBalance, hFirst⟩ := (h.inStep 0).balance hSent
  refine ⟨d₀, hBalance, ?_⟩
  cases hMess : balanceMess (cfg 0) (daemon 0) with
  | none =>
      rw [balance_of_none mc hState (hSame.trans hMess), Except.ok.injEq] at hBalance
      subst hBalance
      exact ⟨hLeave _ rfl rfl rfl hFirst, fun _ hSome => (by cases hSome)⟩
  | some mess =>
      rw [balance_of_some hIndex hState (hSame.trans hMess) hSent, Except.ok.injEq] at hBalance
      subst hBalance
      refine ⟨hLeave _ rfl rfl rfl hFirst, fun _ hSome => ?_⟩
      cases hSome
      exact hTrace _

/-- The timer does not change what the members share. -/
theorem Shared.update (h : Shared cfg table daemon) {d₀ : Daemon n}
    (hFired : Fired cfg table (daemon 0) d₀) :
    Shared cfg table (Function.update daemon 0 d₀) := by
  have hMember (i : Fin (m + 1)) :
      InStep (cfg i) (fun i => (cfg i).realIf) table (Function.update daemon 0 d₀ i) ∧
      (Function.update daemon 0 d₀ i).OwnCount (cfg i) ∧
      (Function.update daemon 0 d₀ i).myIndex = i := by
    by_cases hi : i = 0
    · subst hi
      rw [Function.update_self]
      exact ⟨hFired.inStep, (h.inStep 0).ownCount hFired.inStep (h.ownCount 0) hFired.numAllocated,
        hFired.myIndex.trans (h.myIndex 0)⟩
    · rw [Function.update_of_ne hi]
      exact ⟨h.inStep i, h.ownCount i, h.myIndex i⟩
  exact ⟨fun i => (hMember i).1, fun i => (hMember i).2.1, fun i => (hMember i).2.2, h.below⟩

/-- All members handle the message of a plan that the first of them has made. -/
theorem Shared.handled (hView : View vip cfg) (h : Shared cfg table daemon)
    {daemon' : Fin (m + 1) → Daemon n} (h' : Shared cfg table daemon') {count : Nat}
    {plan : Plan n} (hPlan : planLoop (cfg 0) (daemon 0).numMembers (cfg 0).balanceRate 0
      (Plan.start (daemon 0)) = some (count, plan)) :
    Shared cfg plan.tempTable fun i =>
      handleBalance (cfg i) ((daemon' i).load (BalanceMess.packet ⟨count, plan.moves⟩)) := by
  obtain ⟨hFollows, _⟩ := h.follows hView hPlan
  have hMess : balanceMess (cfg 0) (daemon 0) = some ⟨count, plan.moves⟩ := by
    rw [balanceMess, hPlan]
    rfl
  have hPlanned := (h.inStep 0).planned (hView.pseudoIf_injective 0) hView.realIf_injective
    (Nat.succ_pos m) hView.balanceRate h.below hMess
  refine ⟨fun i => ?_, fun i => handleBalance_ownCount (h'.ownCount i), fun i => ?_, fun j => ?_⟩
  · have hSameVip : (cfg i).pseudoIf = (cfg 0).pseudoIf :=
      (hView.pseudoIf i).trans (hView.pseudoIf 0).symm
    have hHandled := (h'.inStep i).handleBalance (hView.pseudoIf_injective i) hPlanned
      (.inr fun j hMem => hFollows.away _ hMem j (by rw [hSameVip]))
    rw [hSameVip, ← hFollows.tempTable] at hHandled
    exact hHandled
  · exact (congrArg Control.myIndex (handleBalance_control _ _)).trans (h'.myIndex i)
  · rw [hFollows.tempTable]
    exact h.below j

/-- If the first member multicasts the plan that it has made, and every member handles
the message next, then every member is where the plan ends. -/
theorem handleBalance_realises (hView : View vip cfg) (h : Shared cfg table daemon) {count : Nat}
    {plan : Plan n} (hPlan : planLoop (cfg 0) (daemon 0).numMembers (cfg 0).balanceRate 0
      (Plan.start (daemon 0)) = some (count, plan)) {mc : Multicast} (hSent : 0 ≤ mc.ret) :
    ∃ d₀, balance (cfg 0) mc ((daemon 0).dequeue .balance) = .ok d₀ ∧
      d₀.trace = .multicast balanceMessType (BalanceMess.words ⟨count, plan.moves⟩) mc.ret ::
        (daemon 0).trace ∧
      ∀ i, Realises (cfg i) plan (handleBalance (cfg i)
        ((Function.update daemon 0 d₀ i).load (BalanceMess.packet ⟨count, plan.moves⟩))) := by
  obtain ⟨hFollows, hAddress⟩ := h.follows hView hPlan
  have hMess : balanceMess (cfg 0) (daemon 0) = some ⟨count, plan.moves⟩ := by
    rw [balanceMess, hPlan]
    rfl
  obtain ⟨d₀, hBalance, hFired, hTrace⟩ := h.fired hSent
  have hAfter := h.handled hView (h.update hFired) hPlan
  refine ⟨d₀, hBalance, hTrace _ hMess, fun i => ?_⟩
  have hMember := hAfter.inStep i
  refine ⟨hMember.allocationTable, fun k hk => ?_, hAfter.ownCount i, fun j => ?_⟩
  · have hkm : k < m + 1 := hMember.numMembers ▸ hk
    rw [hMember.counts k hk, hFollows.loads k hkm, hMember.allocationTable,
      hMember.realIf ⟨k, hkm⟩, hAddress ⟨k, hkm⟩]
  · rw [hMember.up j, hMember.allocationTable]

end Round

/-- The tables of a view in which every interface has an owner among the members. -/
def ownerTable (addr : Fin (m + 1) → Address) (owner : Fin n → Fin (m + 1)) (j : Fin n) : Entry :=
  ⟨addr (owner j), claimed⟩

def memberConfig (vip : Fin n → Address) (addr : Fin (m + 1) → Address) (rate : Nat)
    (complete : Bool) (i : Fin (m + 1)) : Config n :=
  ⟨vip, [], addr i, "wack1", rate, complete, false⟩

/-- A member of such a view in RUN. -/
def memberDaemon (addr : Fin (m + 1) → Address) (owner : Fin n → Fin (m + 1)) (i : Fin (m + 1)) :
    Daemon n :=
  { Daemon.initial n with
    state := .run
    oldMaturity := true
    maturity := true
    numMembers := m + 1
    members := fun k =>
      if hk : k < m + 1 then
        ⟨addr ⟨k, hk⟩, ownedBy (ownerTable addr owner) (addr ⟨k, hk⟩), true⟩
      else ⟨0#32, 0, false⟩
    numAllocated := ownedBy (ownerTable addr owner) (addr i)
    myIndex := i
    allocationTable := ownerTable addr owner
    up := Finset.univ.filter fun j => addr (owner j) = addr i
    acquired := Finset.univ.filter fun j => addr (owner j) = addr i
    events := {.balance} }

theorem memberDaemon_members (addr : Fin (m + 1) → Address) (owner : Fin n → Fin (m + 1))
    (i : Fin (m + 1)) {k : Nat} (hk : k < m + 1) : (memberDaemon addr owner i).members k =
      ⟨addr ⟨k, hk⟩, ownedBy (ownerTable addr owner) (addr ⟨k, hk⟩), true⟩ :=
  dif_pos hk

/-- Every distribution of the interfaces over the members is that of a shared state. -/
theorem memberDaemon_shared (vip : Fin n → Address) (addr : Fin (m + 1) → Address) (rate : Nat)
    (complete : Bool) (owner : Fin n → Fin (m + 1)) :
    Shared (memberConfig vip addr rate complete) (ownerTable addr owner)
      (memberDaemon addr owner) where
  inStep i :=
    { state := rfl
      numMembers := rfl
      realIf := fun k => congrArg Member.realIf (memberDaemon_members addr owner i k.isLt)
      counts := fun k hk => by
        rw [Daemon.counter, memberDaemon_members addr owner i hk]
        rfl
      allocationTable := rfl
      up := fun j => by simp [memberDaemon, memberConfig, ownerTable] }
  ownCount _ := rfl
  myIndex _ := rfl
  below _ := by simp [ownerTable]

/-- Two members, the first of which owns both interfaces. -/
theorem handleBalance_realises_pair :
    let cfg := memberConfig ![10#32, 11#32] ![1#32, 2#32] 1 false
    let daemon := memberDaemon ![1#32, 2#32] ![0, 0]
    ∃ count plan, planLoop (cfg 0) (daemon 0).numMembers (cfg 0).balanceRate 0
        (Plan.start (daemon 0)) = some (count, plan) ∧ count = 1 ∧
      ∃ d₀, balance (cfg 0) .success ((daemon 0).dequeue .balance) = .ok d₀ ∧
        d₀.trace = .multicast balanceMessType (BalanceMess.words ⟨count, plan.moves⟩) 0 ::
          (daemon 0).trace ∧
        ∀ i, Realises (cfg i) plan (handleBalance (cfg i)
          ((Function.update daemon 0 d₀ i).load (BalanceMess.packet ⟨count, plan.moves⟩))) := by
  intro cfg daemon
  have hView : View ![10#32, 11#32] cfg := ⟨fun _ => rfl, by decide, by decide, by decide⟩
  have hShared : Shared cfg (ownerTable ![1#32, 2#32] ![0, 0]) daemon :=
    memberDaemon_shared _ _ _ _ _
  have hCount : (planLoop (cfg 0) (daemon 0).numMembers (cfg 0).balanceRate 0
      (Plan.start (daemon 0))).map Prod.fst = some 1 := by decide +kernel
  obtain ⟨⟨count, plan⟩, hPlan, rfl⟩ := Option.map_eq_some_iff.mp hCount
  exact ⟨_, plan, hPlan, rfl, handleBalance_realises hView hShared hPlan le_rfl⟩

end Wackamole
