import Wackamole.BalancePlan
import Wackamole.Allocation
import Wackamole.Library.LevelRounds
import Mathlib.Data.Fin.VecNotation

/-! The moves that `Balance` plans in one round, one by one: who gives, who receives, and
what becomes of the counters. The counters need not be true to the table. -/
namespace Wackamole

variable {n : Nat} {cfg : Config n}

open Levelling Finset

/-- One move of a round. -/
structure Shift (n : Nat) where
  vip : Fin n
  giver : Nat
  receiver : Nat

namespace Plan

/-- A move takes an entry that is not preferred from a fullest member to a least loaded one
that has at least two less. -/
structure Moved (cfg : Config n) (size : Nat) (p : Plan n) (s : Shift n) (p' : Plan n) :
    Prop where
  giver : s.giver < size ∧ ∀ k < size, p.load k ≤ p.load s.giver
  receiver : s.receiver < size ∧ ∀ k < size, p.load s.receiver ≤ p.load k
  apart : p.load s.giver - p.load s.receiver > 1
  movable : p.Movable (p.address s.giver) s.vip
  moves : p'.moves = p.moves ++ [(p.address s.receiver, cfg.pseudoIf s.vip)]
  table : ∀ i, p'.tempTable i =
    if i = s.vip then { p.tempTable i with realIf := p.address s.receiver } else p.tempTable i
  address : p'.address = p.address
  load : ∀ k, p'.load k =
    if k = s.receiver then p.load k + 1 else if k = s.giver then p.load k - 1 else p.load k
  sum : ∑ k ∈ range size, p'.load k = ∑ k ∈ range size, p.load k
  upper : ∀ bound, (∀ k < size, p.load k ≤ bound) → ∀ k < size, p'.load k ≤ bound
  lower : ∀ bound, (∀ k < size, bound ≤ p.load k) → ∀ k < size, bound ≤ p'.load k

/-- The passes of `Balance` with the moves that they make: a search only moves the two
indices. -/
inductive Course (cfg : Config n) (size : Nat) (p : Plan n) : List (Shift n) → Plan n → Prop
  | start : Course cfg size p [] p
  | search {shifts : List (Shift n)} {p' : Plan n} (before : Course cfg size p shifts p') :
      Course cfg size p shifts (p'.scan size)
  | move {shifts : List (Shift n)} {p' p'' : Plan n} {s : Shift n}
      (before : Course cfg size p shifts p') (last : Moved cfg size p' s p'') :
      Course cfg size p (shifts ++ [s]) p''

/-- A pass that finds a movable entry is a move, whatever the indices were before. -/
theorem moved_give {size : Nat} {p : Plan n} (hWithin : p.levels.Within size)
    (hUneven : (p.scan size).Uneven) {j : Fin n} (hMove : (p.scan size).movable = some j) :
    Moved cfg size (p.scan size) ⟨j, (p.scan size).maxIndex, (p.scan size).minIndex⟩
      ((p.scan size).give cfg j) := by
  have hHigh := scan_high size p
  have hLow := scan_low size p
  have hLoad : (p.scan size).load = p.levels.load := scan_load size p
  have hGap : p.levels.load (p.levels.scan size).high - p.levels.load (p.levels.scan size).low > 1 :=
    scan_uneven.mp hUneven
  have hNe := low_ne_high hGap
  have hIndices := scan_within hWithin
  have hGiven (k : Nat) : ((p.scan size).give cfg j).load k = (p.levels.scan size).pour.load k := by
    have hLevels : ((p.scan size).give cfg j).levels = _ := give_levels j (p.scan size)
    rw [scan_levels] at hLevels
    exact congrArg (fun s : Levels => s.load k) hLevels
  refine ⟨⟨hIndices.2, ?_⟩, ⟨hIndices.1, ?_⟩, hUneven, movable_of_some hMove, rfl,
    fun i => give_tempTable j i _, funext fun k => give_address j _ k, fun k => ?_, ?_, ?_, ?_⟩
  · rw [hLoad, hHigh]
    exact Levels.scan_most size p.levels
  · rw [hLoad, hLow]
    exact Levels.scan_least size p.levels
  · rw [hGiven, Levels.pour_load hNe, Levels.scan_load, hLoad, hLow, hHigh]
  · have hSum := pour_sum id (hLow ▸ hIndices.1) (hHigh ▸ hIndices.2) hNe
    simp only [id_eq, Levels.scan_load] at hSum
    simp only [hGiven, hLoad]
    omega
  · intro bound hBound k hk
    rw [hLoad] at hBound
    rw [hGiven]
    exact pour_le hGap hWithin hBound k hk
  · intro bound hBound k hk
    rw [hLoad] at hBound
    rw [hGiven]
    exact le_pour hGap hWithin hBound k hk

/-- What the moves so far have left behind: a receiver keeps what it got and is settled, a
giver is drained, and nobody is both. -/
structure Unshuffled (size : Nat) (shifts : List (Shift n)) (p : Plan n) : Prop where
  distinct : p.Distinct size
  within : p.levels.Within size
  nodup : (shifts.map Shift.vip).Nodup
  received : ∀ s ∈ shifts, s.receiver < size ∧ Settled size p.levels s.receiver ∧
    (p.tempTable s.vip).realIf = p.address s.receiver
  gave : ∀ s ∈ shifts, s.giver < size ∧ Drained size p.levels s.giver
  apart : ∀ s ∈ shifts, ∀ s' ∈ shifts, s.giver ≠ s'.receiver

namespace Unshuffled

variable {size : Nat} {shifts : List (Shift n)} {p : Plan n}

theorem start {p : Plan n} (hDistinct : p.Distinct size) (hWithin : p.levels.Within size) :
    p.Unshuffled size [] where
  distinct := hDistinct
  within := hWithin
  nodup := List.nodup_nil
  received _ hMem := absurd hMem List.not_mem_nil
  gave _ hMem := absurd hMem List.not_mem_nil
  apart _ hMem := absurd hMem List.not_mem_nil

theorem scan (h : p.Unshuffled size shifts) : (p.scan size).Unshuffled size shifts := by
  have hSettled (k : Nat) (hk : Settled size p.levels k) : Settled size (p.scan size).levels k := by
    rw [scan_levels, Settled, Levels.scan_load]
    exact hk
  have hDrained (k : Nat) (hk : Drained size p.levels k) : Drained size (p.scan size).levels k := by
    rw [scan_levels, Drained, Levels.scan_load]
    exact hk
  refine ⟨?_, ?_, h.nodup, fun s hMem => ?_, fun s hMem => ?_, h.apart⟩
  · rw [Distinct, scan_address]
    exact h.distinct
  · rw [scan_levels]
    exact Levels.scan_within h.within
  · obtain ⟨hIndex, hLoad, hOwner⟩ := h.received s hMem
    refine ⟨hIndex, hSettled _ hLoad, ?_⟩
    rw [scan_tempTable, scan_address]
    exact hOwner
  · obtain ⟨hIndex, hLoad⟩ := h.gave s hMem
    exact ⟨hIndex, hDrained _ hLoad⟩

/-- A move with a new entry: its giver has not received, and its receiver has not given. -/
theorem give (h : p.Unshuffled size shifts) (hUneven : (p.scan size).Uneven) {j : Fin n}
    (hMove : (p.scan size).movable = some j) :
    ((p.scan size).give cfg j).Unshuffled size
      (shifts ++ [⟨j, (p.scan size).maxIndex, (p.scan size).minIndex⟩]) := by
  have hScan := h.scan
  have hMoved : Moved cfg size _ _ _ := moved_give h.within hUneven hMove
  have hGap : p.levels.load (p.levels.scan size).high - p.levels.load (p.levels.scan size).low > 1 :=
    scan_uneven.mp hUneven
  have hHigh := scan_high size p
  have hLow := scan_low size p
  have hLevels : ((p.scan size).give cfg j).levels = (p.levels.scan size).pour := by
    rw [give_levels, scan_levels]
  have hReceiver (s : Shift n) (hMem : s ∈ shifts) : (p.scan size).maxIndex ≠ s.receiver := by
    rw [hHigh]
    exact ((h.received s hMem).2.1.ne_high hGap h.within).symm
  have hGiver (s : Shift n) (hMem : s ∈ shifts) : s.giver ≠ (p.scan size).minIndex := by
    rw [hLow]
    exact (h.gave s hMem).2.ne_low hGap h.within
  have hFresh (s : Shift n) (hMem : s ∈ shifts) : s.vip ≠ j := by
    intro hEq
    obtain ⟨hIndex, -, hOwner⟩ := hScan.received s hMem
    rw [hEq, hMoved.movable.1] at hOwner
    exact hReceiver s hMem (hScan.distinct _ hMoved.giver.1 _ hIndex hOwner)
  refine ⟨?_, ?_, ?_, ?_, ?_, ?_⟩
  · rw [Distinct, hMoved.address]
    exact hScan.distinct
  · rw [hLevels]
    exact Levels.scan_within h.within
  · rw [List.map_append, List.nodup_append]
    refine ⟨h.nodup, List.nodup_singleton _, ?_⟩
    rintro i hi i' hi' rfl
    obtain ⟨s, hMem, rfl⟩ := List.mem_map.mp hi
    exact hFresh s hMem (List.mem_singleton.mp hi')
  · intro s hMem
    rw [hLevels, hMoved.address, hMoved.table]
    rcases List.mem_append.mp hMem with hOld | hNew
    · obtain ⟨hIndex, hSettled, -⟩ := h.received s hOld
      refine ⟨hIndex, hSettled.pour hGap h.within hIndex, ?_⟩
      rw [if_neg (hFresh s hOld)]
      exact (hScan.received s hOld).2.2
    · obtain rfl := List.mem_singleton.mp hNew
      refine ⟨hMoved.receiver.1, ?_, ?_⟩
      · rw [hLow]
        exact settled_receiver hGap
      · rw [if_pos rfl]
  · intro s hMem
    rw [hLevels]
    rcases List.mem_append.mp hMem with hOld | hNew
    · obtain ⟨hIndex, hDrained⟩ := h.gave s hOld
      exact ⟨hIndex, hDrained.pour hGap h.within hIndex⟩
    · obtain rfl := List.mem_singleton.mp hNew
      refine ⟨hMoved.giver.1, ?_⟩
      rw [hHigh]
      exact drained_giver hGap
  · intro s hMem s' hMem'
    rcases List.mem_append.mp hMem with hOld | hNew
    · rcases List.mem_append.mp hMem' with hOld' | hNew'
      · exact h.apart s hOld s' hOld'
      · obtain rfl := List.mem_singleton.mp hNew'
        exact hGiver s hOld
    · obtain rfl := List.mem_singleton.mp hNew
      rcases List.mem_append.mp hMem' with hOld' | hNew'
      · exact hReceiver s' hOld'
      · obtain rfl := List.mem_singleton.mp hNew'
        rw [hHigh, hLow]
        exact (low_ne_high hGap).symm

end Unshuffled

/-- What a course has done to the counters and the moves. -/
theorem Course.outcome {size : Nat} {p p' : Plan n} {shifts : List (Shift n)}
    (h : Course cfg size p shifts p') :
    p'.address = p.address ∧
    p'.moves = p.moves ++ shifts.map (fun s => (p.address s.receiver, cfg.pseudoIf s.vip)) ∧
    ∑ k ∈ range size, p'.load k = ∑ k ∈ range size, p.load k ∧
    (∀ bound, (∀ k < size, p.load k ≤ bound) → ∀ k < size, p'.load k ≤ bound) ∧
    ∀ bound, (∀ k < size, bound ≤ p.load k) → ∀ k < size, bound ≤ p'.load k := by
  induction h with
  | start => exact ⟨rfl, by simp, rfl, fun _ h => h, fun _ h => h⟩
  | search before ih =>
      rw [scan_address, scan_moves, scan_load]
      exact ih
  | move before last ih =>
      obtain ⟨hAddress, hMoves, hSum, hUpper, hLower⟩ := ih
      refine ⟨last.address.trans hAddress, ?_, last.sum.trans hSum,
        fun bound h => last.upper bound (hUpper bound h),
        fun bound h => last.lower bound (hLower bound h)⟩
      rw [last.moves, hMoves, hAddress]
      simp

end Plan

theorem planLoop_course {size remaining k : Nat} {p₀ p : Plan n} {shifts : List (Shift n)}
    (hCourse : Plan.Course cfg size p₀ shifts p) (h : p.Unshuffled size shifts)
    {result : Nat × Plan n} (hLoop : planLoop cfg size remaining k p = some result) :
    ∃ shifts, Plan.Course cfg size p₀ shifts result.2 ∧ result.2.Unshuffled size shifts := by
  induction remaining generalizing k p shifts with
  | zero =>
      cases hLoop
      exact ⟨shifts, hCourse, h⟩
  | succ remaining ih =>
      rw [planLoop_succ] at hLoop
      split_ifs at hLoop with hUneven
      · rw [Plan.pass] at hLoop
        cases hMove : (p.scan size).movable with
        | some j =>
            rw [hMove] at hLoop
            exact ih (hCourse.search.move (Plan.moved_give h.within hUneven hMove))
              (h.give hUneven hMove) hLoop
        | none =>
            rw [hMove] at hLoop
            exact ih hCourse.search h.scan hLoop
      · cases hLoop
        exact ⟨shifts, hCourse.search, h.scan⟩

/-- The moves of a round, for any counters, any table and any rate: each takes a VIP below
PREFER from a fullest to a least loaded member with at least two less, no VIP moves twice,
nobody both gives and receives, the counters keep their sum, and none ends above the largest
or below the smallest. -/
theorem balanceMess_course {d : Daemon n}
    (hDistinct : ∀ k < d.numMembers, ∀ k' < d.numMembers,
      (d.members k).realIf = (d.members k').realIf → k = k')
    {m : BalanceMess} (h : balanceMess cfg d = some m) :
    ∃ shifts plan, Plan.Course cfg d.numMembers (Plan.start d) shifts plan ∧
      m.moves = shifts.map (fun s => ((d.members s.receiver).realIf, cfg.pseudoIf s.vip)) ∧
      (shifts.map Shift.vip).Nodup ∧
      (∀ s ∈ shifts, ∀ s' ∈ shifts, s.giver ≠ s'.receiver) ∧
      ∑ k ∈ range d.numMembers, plan.load k = ∑ k ∈ range d.numMembers, d.counter k ∧
      (∀ bound, (∀ k < d.numMembers, d.counter k ≤ bound) →
        ∀ k < d.numMembers, plan.load k ≤ bound) ∧
      ∀ bound, (∀ k < d.numMembers, bound ≤ d.counter k) →
        ∀ k < d.numMembers, bound ≤ plan.load k := by
  obtain ⟨⟨count, plan⟩, hLoop, rfl⟩ := Option.map_eq_some_iff.mp h
  have hCourse : ∃ shifts, Plan.Course cfg d.numMembers (Plan.start d) shifts plan ∧
      (shifts.map Shift.vip).Nodup ∧ ∀ s ∈ shifts, ∀ s' ∈ shifts, s.giver ≠ s'.receiver := by
    rcases Nat.eq_zero_or_pos d.numMembers with hNobody | hMembers
    · rw [hNobody] at hLoop ⊢
      obtain ⟨-, rfl⟩ := Prod.mk.inj (planLoop_nobody hLoop)
      exact ⟨[], .start, List.nodup_nil, fun _ hMem => absurd hMem List.not_mem_nil⟩
    · have hAddresses : (Plan.start d).Distinct d.numMembers := hDistinct
      have hStart : (Plan.start d).Unshuffled d.numMembers [] :=
        .start hAddresses ⟨hMembers, hMembers⟩
      obtain ⟨shifts, hCourse, hShifts⟩ := planLoop_course .start hStart hLoop
      exact ⟨shifts, hCourse, hShifts.nodup, hShifts.apart⟩
  obtain ⟨shifts, hCourse, hNodup, hApart⟩ := hCourse
  obtain ⟨-, hMoves, hSum, hUpper, hLower⟩ := hCourse.outcome
  exact ⟨shifts, plan, hCourse, hMoves, hNodup, hApart, hSum, hUpper, hLower⟩

/-- Three members with five, none and one, the first of which has two preferred entries. Its
counter is one too high. -/
def lopsided : Daemon 5 :=
  { Daemon.initial 5 with
    state := .run
    numMembers := 3
    members := fun k => ⟨BitVec.ofNat 32 (k + 1), if k = 0 then 5 else if k = 1 then 0 else 1, true⟩
    allocationTable := ![⟨1#32, preferClaimed⟩, ⟨1#32, claimed⟩, ⟨3#32, claimed⟩,
      ⟨1#32, claimed⟩, ⟨1#32, preferClaimed⟩] }

theorem lopsided_course :
    let cfg : Config 5 := ⟨![10#32, 11#32, 12#32, 13#32, 14#32], [], 1#32, "wack1", 2, false, true⟩
    balanceMess cfg lopsided = some ⟨2, [(2#32, 11#32), (2#32, 13#32)]⟩ ∧
      ∃ shifts plan, Plan.Course cfg 3 (Plan.start lopsided) shifts plan ∧ shifts.length = 2 := by
  intro cfg
  have hMess : balanceMess cfg lopsided = some ⟨2, [(2#32, 11#32), (2#32, 13#32)]⟩ := by
    decide +kernel
  obtain ⟨shifts, plan, hCourse, hMoves, -⟩ := balanceMess_course (d := lopsided) (by decide) hMess
  have hLength := congrArg List.length hMoves
  rw [List.length_map] at hLength
  exact ⟨hMess, shifts, plan, hCourse, hLength.symm⟩

end Wackamole
