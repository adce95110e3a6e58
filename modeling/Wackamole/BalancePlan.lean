import Wackamole.Balance
import Wackamole.Claim
import Wackamole.Library.Levelling
import Wackamole.Library.HostWords
import Mathlib.Data.Fintype.Card
import Mathlib.Algebra.BigOperators.Fin
import Mathlib.Data.Fin.VecNotation

/-! The BALANCE message that `Balance` writes: the count in front of it and the moves
behind it, for any mixture of priorities. -/
namespace Wackamole

variable {n : Nat} {cfg : Config n}

open Levelling

namespace Plan

/-- The loads of a plan and the two indices of its search. -/
def levels (p : Plan n) : Levels := ⟨p.load, p.minIndex, p.maxIndex⟩

/-- The address of a member. -/
def address (p : Plan n) (k : Nat) : Address := (p.tempMembers k).realIf

/-- Whether `Balance` may move entry `j` away from the member with this address. -/
def Movable (p : Plan n) (addr : Address) (j : Fin n) : Prop :=
  (p.tempTable j).realIf = addr ∧ (p.tempTable j).claimPriority < prefer

instance (p : Plan n) (addr : Address) : DecidablePred (p.Movable addr) := fun _ =>
  inferInstanceAs (Decidable (_ ∧ _))

/-- How many entries of a member `Balance` may move. -/
def movableOf (p : Plan n) (addr : Address) : Nat := (Finset.univ.filter (p.Movable addr)).card

/-- One step of the search in `Balance`. -/
def look (p : Plan n) (i : Nat) : Plan n :=
  let p := if p.load i < p.load p.minIndex then { p with minIndex := i } else p
  if p.load i > p.load p.maxIndex then { p with maxIndex := i } else p

theorem look_eq (p : Plan n) (i : Nat) :
    p.look i =
      { p with minIndex := (p.levels.look i).low, maxIndex := (p.levels.look i).high } := by
  rw [Levels.look_low, Levels.look_high]
  by_cases hLow : p.load i < p.load p.minIndex
  · have hSame (k : Nat) : ({ p with minIndex := i } : Plan n).load k = p.load k := rfl
    by_cases hHigh : p.load i > p.load p.maxIndex <;> simp [look, levels, hLow, hHigh, hSame]
  · by_cases hHigh : p.load i > p.load p.maxIndex <;> simp [look, levels, hLow, hHigh]

theorem scan_eq (size : Nat) (p : Plan n) :
    p.scan size = { p with
      minIndex := (p.levels.scan size).low, maxIndex := (p.levels.scan size).high } := by
  change (List.range size).foldl look p = _
  unfold Levels.scan
  generalize List.range size = l
  induction l generalizing p with
  | nil => rfl
  | cons i l ih =>
      have hLevels : (p.look i).levels = p.levels.look i := by
        rw [look_eq, levels]
        exact congrArg (fun load => Levels.mk load _ _) (Levels.look_load p.levels i).symm
      rw [List.foldl_cons, ih, List.foldl_cons, hLevels, look_eq]

theorem scan_levels (size : Nat) (p : Plan n) : (p.scan size).levels = p.levels.scan size := by
  rw [scan_eq, levels]
  exact congrArg (fun load => Levels.mk load _ _) (Levels.scan_load size p.levels).symm

theorem scan_low (size : Nat) (p : Plan n) : (p.scan size).minIndex = (p.levels.scan size).low := by
  rw [scan_eq]

theorem scan_high (size : Nat) (p : Plan n) :
    (p.scan size).maxIndex = (p.levels.scan size).high := by
  rw [scan_eq]

theorem scan_load (size : Nat) (p : Plan n) : (p.scan size).load = p.load := by
  rw [scan_eq]
  rfl

theorem scan_address (size : Nat) (p : Plan n) : (p.scan size).address = p.address := by
  rw [scan_eq]
  rfl

theorem scan_tempTable (size : Nat) (p : Plan n) : (p.scan size).tempTable = p.tempTable := by
  rw [scan_eq]

theorem give_levels (j : Fin n) (p : Plan n) : (p.give cfg j).levels = p.levels.pour := by
  have hLoad : (p.give cfg j).load = p.levels.pour.load := by
    funext k
    simp only [load, give, Levels.pour, levels, Function.update_apply]
    split_ifs <;> rfl
  rw [levels, hLoad]
  rfl

theorem give_address (j : Fin n) (p : Plan n) (k : Nat) :
    (p.give cfg j).address k = p.address k := by
  simp only [address, give, Function.update_apply]
  split_ifs <;> simp_all

theorem give_tempTable (j i : Fin n) (p : Plan n) :
    (p.give cfg j).tempTable i =
      if i = j then { p.tempTable i with realIf := p.address p.minIndex } else p.tempTable i := by
  by_cases hi : i = j
  · subst hi
    have hEntry : (p.give cfg i).tempTable i =
        { p.tempTable i with realIf := (p.give cfg i).address p.minIndex } := by
      simp [give, address]
    rw [hEntry, give_address, if_pos rfl]
  · simp [give, hi]

theorem movable_of_some {j : Fin n} {p : Plan n} (h : p.movable = some j) :
    p.Movable (p.address p.maxIndex) j := by
  have hFound := List.find?_some h
  exact of_decide_eq_true hFound

theorem movable_eq_none {p : Plan n} :
    p.movable = none ↔ p.movableOf (p.address p.maxIndex) = 0 := by
  rw [movable, List.find?_eq_none, movableOf, Finset.card_eq_zero, Finset.filter_eq_empty_iff]
  constructor
  · exact fun h j _ hj => h j (List.mem_finRange j) (decide_eq_true hj)
  · exact fun h j _ hj => h (Finset.mem_univ j) (of_decide_eq_true hj)

/-- The entry that is moved changes hands. -/
theorem give_movable {j : Fin n} {p : Plan n} (h : p.Movable (p.address p.maxIndex) j)
    (addr : Address) (i : Fin n) :
    (p.give cfg j).Movable addr i ↔
      if i = j then p.address p.minIndex = addr else p.Movable addr i := by
  rw [Movable, give_tempTable]
  by_cases hi : i = j
  · subst hi
    simp only [if_true, and_iff_left h.2]
  · simp only [hi, if_false, Movable]

/-- The giver has one movable entry less, the receiver one more. -/
theorem give_movableOf (cfg : Config n) {j : Fin n} {p : Plan n}
    (h : p.Movable (p.address p.maxIndex) j)
    (hNe : p.address p.minIndex ≠ p.address p.maxIndex) (addr : Address) :
    (p.give cfg j).movableOf addr + (if addr = p.address p.maxIndex then 1 else 0) =
      p.movableOf addr + (if addr = p.address p.minIndex then 1 else 0) := by
  have hOwner : (p.tempTable j).realIf = p.address p.maxIndex := h.1
  by_cases hMax : addr = p.address p.maxIndex
  · have hErase : Finset.univ.filter ((p.give cfg j).Movable addr) =
        (Finset.univ.filter (p.Movable addr)).erase j := by
      ext i
      simp only [Finset.mem_filter, Finset.mem_univ, true_and, Finset.mem_erase, give_movable h]
      by_cases hi : i = j
      · simp [hi, hMax, hNe]
      · simp [hi]
    have hMem : j ∈ Finset.univ.filter (p.Movable addr) := by simpa [hMax] using h
    have hNotMin : addr ≠ p.address p.minIndex := fun hEq => hNe (hEq.symm.trans hMax)
    rw [movableOf, hErase, if_pos hMax, if_neg hNotMin, Finset.card_erase_add_one hMem]
    rfl
  · rw [if_neg hMax]
    have hNot : j ∉ Finset.univ.filter (p.Movable addr) := by
      simp only [Finset.mem_filter, Finset.mem_univ, true_and]
      exact fun hj => hMax (hj.1.symm.trans hOwner)
    by_cases hMin : addr = p.address p.minIndex
    · have hInsert : Finset.univ.filter ((p.give cfg j).Movable addr) =
          insert j (Finset.univ.filter (p.Movable addr)) := by
        ext i
        simp only [Finset.mem_filter, Finset.mem_univ, true_and, Finset.mem_insert, give_movable h]
        by_cases hi : i = j
        · simp [hi, hMin]
        · simp [hi]
      rw [movableOf, hInsert, if_pos hMin, Finset.card_insert_of_notMem hNot]
      rfl
    · have hSame : Finset.univ.filter ((p.give cfg j).Movable addr) =
          Finset.univ.filter (p.Movable addr) := by
        ext i
        simp only [Finset.mem_filter, Finset.mem_univ, true_and, give_movable h] at hNot ⊢
        by_cases hi : i = j
        · simp [hi, hNot, Ne.symm hMin]
        · simp [hi]
      rw [movableOf, hSame, if_neg hMin]
      rfl

/-- The members below `size` have different addresses. -/
def Distinct (size : Nat) (p : Plan n) : Prop :=
  ∀ k < size, ∀ k' < size, p.address k = p.address k' → k = k'

/-- No member is asked for more entries than it may give. -/
def Covers (size rounds : Nat) (p : Plan n) : Prop :=
  ∀ k < size, (givers size rounds p.levels).count k ≤ p.movableOf (p.address k)

/-- The fullest member has too much. -/
def Uneven (p : Plan n) : Prop := p.load p.maxIndex - p.load p.minIndex > 1

instance (p : Plan n) : Decidable p.Uneven := inferInstanceAs (Decidable (_ > _))

theorem scan_uneven {size : Nat} {p : Plan n} : (p.scan size).Uneven ↔
    p.levels.load (p.levels.scan size).high - p.levels.load (p.levels.scan size).low > 1 := by
  rw [Uneven, scan_eq]
  rfl

/-- A pass of `Balance` at members that are not level. -/
def pass (cfg : Config n) (p : Plan n) : Plan n :=
  match p.movable with
  | some j => p.give cfg j
  | none => p

theorem givers_succ (size rounds : Nat) (p : Plan n) :
    givers size (rounds + 1) p.levels =
      if (p.scan size).Uneven then
        (p.scan size).maxIndex :: givers size rounds (p.scan size).levels.pour
      else [] := by
  rw [scan_levels, scan_eq]
  simp only [givers, Uneven, load, Levels.scan_load]
  rfl

section Rounds

variable {size : Nat} {p : Plan n} (hDistinct : p.Distinct size)
  (hWithin : p.levels.Within size) (rounds : Nat)

theorem covers_of_level (h : ¬ (p.scan size).Uneven) : p.Covers size (rounds + 1) := by
  intro k _
  rw [givers_succ, if_neg h]
  exact Nat.zero_le _

include hWithin

theorem scan_within : (p.scan size).minIndex < size ∧ (p.scan size).maxIndex < size := by
  have hScan := Levels.scan_within hWithin
  rw [← scan_levels] at hScan
  exact hScan

theorem not_covers_of_stuck (h : (p.scan size).Uneven) (hStuck : (p.scan size).movable = none) :
    ¬ p.Covers size (rounds + 1) := by
  intro hCovers
  have hCount := hCovers _ (scan_within hWithin).2
  rw [givers_succ, if_pos h, List.count_cons_self] at hCount
  rw [movable_eq_none] at hStuck
  have hSame : (p.scan size).movableOf ((p.scan size).address (p.scan size).maxIndex) =
      p.movableOf (p.address (p.scan size).maxIndex) := by
    rw [scan_eq]
    rfl
  omega

include hDistinct

/-- A round with a move takes one entry from the account of the giver. -/
theorem covers_give (h : (p.scan size).Uneven) {j : Fin n} (hMove : (p.scan size).movable = some j) :
    ((p.scan size).give cfg j).Covers size rounds ↔ p.Covers size (rounds + 1) := by
  obtain ⟨hMin, hMax⟩ := scan_within hWithin
  have hGap : p.levels.load (p.levels.scan size).high - p.levels.load (p.levels.scan size).low > 1 :=
    scan_uneven.mp h
  have hNe : (p.scan size).minIndex ≠ (p.scan size).maxIndex := by
    rw [scan_low, scan_high]
    exact low_ne_high hGap
  have hReceiver : (p.scan size).minIndex ∉ givers size rounds (p.scan size).levels.pour := by
    apply Settled.not_mem_givers hMin
    · rw [scan_levels]
      exact Levels.scan_within hWithin
    · rw [scan_levels, scan_low]
      exact settled_receiver hGap
  have hMovable (addr : Address) : (p.scan size).movableOf addr = p.movableOf addr := by
    rw [scan_eq]
    rfl
  have hAddress {k k' : Nat} (hk : k < size) (hk' : k' < size) :
      p.address k = p.address k' ↔ k = k' := ⟨hDistinct k hk k' hk', fun hEq => hEq ▸ rfl⟩
  have hOwner := movable_of_some hMove
  have hNeAddress : (p.scan size).address (p.scan size).minIndex ≠
      (p.scan size).address (p.scan size).maxIndex := by
    rw [scan_address, ne_eq, hAddress hMin hMax]
    exact hNe
  refine forall₂_congr fun k hk => ?_
  have hCount := give_movableOf cfg hOwner hNeAddress (p.address k)
  rw [scan_address, hMovable] at hCount
  simp only [hAddress hk hMax, hAddress hk hMin] at hCount
  rw [give_address, scan_address, give_levels, givers_succ, if_pos h, List.count_cons]
  by_cases hkMin : k = (p.scan size).minIndex
  · subst hkMin
    rw [List.count_eq_zero.mpr hReceiver]
    simp [hNe.symm]
  · by_cases hkMax : k = (p.scan size).maxIndex
    · subst hkMax
      simp only [hkMin, if_true, if_false, beq_self_eq_true] at hCount ⊢
      omega
    · simp only [hkMin, hkMax, if_false, add_zero, beq_iff_eq, eq_comm (a := (p.scan size).maxIndex)]
        at hCount ⊢
      rw [hCount]

end Rounds

theorem pass_moves (cfg : Config n) (p : Plan n) : (p.pass cfg).moves.length ≤ p.moves.length + 1 := by
  unfold pass
  cases p.movable with
  | some j => simp [give]
  | none => exact Nat.le_succ _

end Plan

theorem planLoop_succ (size remaining k : Nat) (p : Plan n) :
    planLoop cfg size (remaining + 1) k p =
      if (p.scan size).Uneven then planLoop cfg size remaining (k + 1) ((p.scan size).pass cfg)
      else if k = 0 then none else some (k, p.scan size) := by
  rw [planLoop, Plan.pass]
  simp only [Plan.Uneven]
  cases (p.scan size).movable <;> rfl

theorem scan_moves (size : Nat) (p : Plan n) : (p.scan size).moves = p.moves := by
  rw [Plan.scan_eq]

/-- The loop counts at most one move in a round, and no round beyond the rate. -/
theorem planLoop_bound {size remaining k : Nat} {p : Plan n} {result : Nat × Plan n}
    (h : planLoop cfg size remaining k p = some result) :
    result.1 ≤ k + remaining ∧ k + result.2.moves.length ≤ result.1 + p.moves.length := by
  induction remaining generalizing k p with
  | zero =>
      cases h
      exact ⟨le_rfl, le_rfl⟩
  | succ remaining ih =>
      rw [planLoop_succ] at h
      split_ifs at h
      · have hPass := Plan.pass_moves cfg (p.scan size)
        obtain ⟨hRounds, hMoves⟩ := ih h
        rw [scan_moves] at hPass
        omega
      · cases h
        simp only [scan_moves]
        omega

/-- Once a round has been counted, the loop ends with a message. -/
theorem planLoop_isSome (cfg : Config n) (size remaining : Nat) {k : Nat} (hk : k ≠ 0)
    (p : Plan n) :
    ∃ result, planLoop cfg size remaining k p = some result := by
  induction remaining generalizing k p with
  | zero => exact ⟨_, rfl⟩
  | succ remaining ih =>
      rw [planLoop_succ]
      split_ifs
      · exact ih (Nat.succ_ne_zero k) _
      · exact ⟨_, rfl⟩

theorem give_distinct {size : Nat} {p : Plan n} (h : p.Distinct size) (j : Fin n) :
    ((p.scan size).give cfg j).Distinct size := by
  intro k hk k' hk' hEq
  rw [Plan.give_address, Plan.give_address, Plan.scan_address] at hEq
  exact h k hk k' hk' hEq

/-- Every round that is counted has a move exactly when every giver can give. -/
theorem planLoop_covers (cfg : Config n) {size : Nat} (remaining k : Nat) {p : Plan n}
    (hDistinct : p.Distinct size) (hWithin : p.levels.Within size) :
    (p.Covers size remaining → ∀ result, planLoop cfg size remaining k p = some result →
      k + result.2.moves.length = result.1 + p.moves.length) ∧
    (¬ p.Covers size remaining → ∃ result, planLoop cfg size remaining k p = some result ∧
      k + result.2.moves.length < result.1 + p.moves.length) := by
  induction remaining generalizing k p with
  | zero =>
      refine ⟨?_, fun h => absurd (fun k _ => Nat.zero_le _) h⟩
      rintro _ result ⟨⟩
      rfl
  | succ remaining ih =>
      rw [planLoop_succ]
      by_cases hUneven : (p.scan size).Uneven
      · rw [if_pos hUneven, Plan.pass]
        cases hMove : (p.scan size).movable with
        | some j =>
            have hNext := Levels.scan_within hWithin
            have hGiven : ((p.scan size).give cfg j).levels.Within size := by
              rw [Plan.give_levels, Plan.scan_levels]
              exact hNext
            have hLength : ((p.scan size).give cfg j).moves.length = p.moves.length + 1 := by
              simp [Plan.give, scan_moves]
            have hRest := ih (k + 1) (give_distinct hDistinct j) hGiven
            rw [Plan.covers_give hDistinct hWithin remaining hUneven hMove, hLength] at hRest
            refine ⟨fun h result hEq => ?_, fun h => ?_⟩
            · have hCount := hRest.1 h result hEq
              omega
            · obtain ⟨result, hEq, hCount⟩ := hRest.2 h
              exact ⟨result, hEq, by omega⟩
        | none =>
            have hStuck := Plan.not_covers_of_stuck hWithin remaining hUneven hMove
            refine ⟨fun h => absurd h hStuck, fun _ => ?_⟩
            obtain ⟨result, hEq⟩ := planLoop_isSome cfg size remaining (Nat.succ_ne_zero k)
              (p.scan size)
            have hBound := (planLoop_bound hEq).2
            rw [scan_moves] at hBound
            exact ⟨result, hEq, by omega⟩
      · rw [if_neg hUneven]
        refine ⟨fun _ result hEq => ?_, fun h => absurd (Plan.covers_of_level remaining hUneven) h⟩
        split_ifs at hEq
        cases hEq
        simp only [scan_moves]

/-- No VIP is moved twice: whatever has been moved lies with a member that will not be
asked for it. -/
structure Plan.Sound (cfg : Config n) (size : Nat) (p : Plan n) : Prop where
  distinct : p.Distinct size
  within : p.levels.Within size
  nodup : (p.moves.map Prod.snd).Nodup
  placed : ∀ move ∈ p.moves, ∃ j k, cfg.pseudoIf j = move.2 ∧ k < size ∧
    move.1 = p.address k ∧ (p.tempTable j).realIf = p.address k ∧ Settled size p.levels k

namespace Plan.Sound

variable {size : Nat} {p : Plan n}

theorem scan (h : p.Sound cfg size) : (p.scan size).Sound cfg size := by
  have hLevels := scan_levels size p
  have hWithin := Levels.scan_within h.within
  have hSettled (k : Nat) : Settled size (p.levels.scan size) k ↔ Settled size p.levels k := by
    rw [Settled, Settled, Levels.scan_load]
  rw [← hLevels] at hWithin
  refine ⟨?_, hWithin, ?_, ?_⟩
  · rw [scan_eq]
    exact h.distinct
  · rw [scan_eq]
    exact h.nodup
  · intro move hMove
    rw [scan_moves] at hMove
    obtain ⟨j, k, hVip, hk, hAddress, hOwner, hk'⟩ := h.placed move hMove
    rw [hLevels, scan_eq]
    exact ⟨j, k, hVip, hk, hAddress, hOwner, (hSettled k).mpr hk'⟩

/-- A round with a move, after the search of `Balance`. -/
theorem give (hVip : Function.Injective cfg.pseudoIf) (h : p.Sound cfg size)
    (hUneven : (p.scan size).Uneven) {j : Fin n} (hMove : (p.scan size).movable = some j) :
    ((p.scan size).give cfg j).Sound cfg size := by
  have hScan := h.scan
  have hGap : p.levels.load (p.levels.scan size).high - p.levels.load (p.levels.scan size).low > 1 :=
    scan_uneven.mp hUneven
  have hMax := (scan_high size p).symm
  have hMin := (scan_low size p).symm
  have hSettled (k : Nat) : Settled size (p.scan size).levels k ↔ Settled size p.levels k := by
    rw [scan_levels, Settled, Settled, Levels.scan_load]
  have hGiven : ((p.scan size).give cfg j).levels = (p.levels.scan size).pour := by
    rw [give_levels, scan_levels]
  have hOwner : ((p.scan size).tempTable j).realIf = (p.scan size).address (p.scan size).maxIndex :=
    (movable_of_some hMove).1
  -- A VIP that was moved before is with a settled member, and the giver is not settled.
  have hFresh {move : Move} (hOld : move ∈ (p.scan size).moves) : move.2 ≠ cfg.pseudoIf j := by
    intro hEq
    obtain ⟨j', k, hPseudo, hk, _, hWith, hk'⟩ := hScan.placed move hOld
    rw [← hPseudo] at hEq
    rw [hVip hEq] at hWith
    rw [hWith] at hOwner
    have hHigh := hScan.distinct k hk _ (scan_within h.within).2 hOwner
    exact ((hSettled k).mp hk').ne_high hGap h.within (hHigh.trans hMax.symm)
  refine ⟨give_distinct h.distinct j, ?_, ?_, ?_⟩
  · rw [hGiven]
    exact Levels.scan_within h.within
  · have hMoves : ((p.scan size).give cfg j).moves = (p.scan size).moves ++
        [((p.scan size).address (p.scan size).minIndex, cfg.pseudoIf j)] := rfl
    rw [hMoves, List.map_append]
    refine List.Nodup.append hScan.nodup (List.nodup_singleton _) ?_
    intro addr hOld hNew
    obtain ⟨move, hMem, rfl⟩ := List.mem_map.mp hOld
    exact hFresh hMem (by simpa using hNew)
  · intro move hMem
    rw [Plan.give, List.mem_append, List.mem_singleton] at hMem
    rcases hMem with hOld | rfl
    · obtain ⟨j', k, hPseudo, hk, hAddress, hWith, hk'⟩ := hScan.placed move hOld
      have hNe : j' ≠ j := fun hEq => hFresh hOld (hEq ▸ hPseudo.symm)
      refine ⟨j', k, hPseudo, hk, ?_, ?_, ?_⟩
      · rw [give_address]
        exact hAddress
      · rw [give_tempTable, if_neg hNe, give_address]
        exact hWith
      · rw [hGiven]
        exact ((hSettled k).mp hk').pour hGap h.within hk
    · refine ⟨j, (p.scan size).minIndex, rfl, (scan_within h.within).1, ?_, ?_, ?_⟩
      · rw [give_address]
        rfl
      · rw [give_tempTable, if_pos rfl, give_address]
      · rw [hGiven, ← hMin]
        exact settled_receiver hGap

end Plan.Sound

theorem planLoop_sound (hVip : Function.Injective cfg.pseudoIf) {size remaining k : Nat}
    {p : Plan n} (h : p.Sound cfg size) {result : Nat × Plan n}
    (hLoop : planLoop cfg size remaining k p = some result) :
    result.2.Sound cfg size ∧ ∀ k, result.2.address k = p.address k := by
  have hScanned (p : Plan n) (k : Nat) : (p.scan size).address k = p.address k :=
    congrFun (p.scan_address size) k
  induction remaining generalizing k p with
  | zero =>
      cases hLoop
      exact ⟨h, fun _ => rfl⟩
  | succ remaining ih =>
      rw [planLoop_succ] at hLoop
      split_ifs at hLoop with hUneven
      · rw [Plan.pass] at hLoop
        cases hMove : (p.scan size).movable with
        | some j =>
            rw [hMove] at hLoop
            obtain ⟨hSound, hAddress⟩ := ih (h.give hVip hUneven hMove) hLoop
            refine ⟨hSound, fun k => ?_⟩
            rw [hAddress, Plan.give_address, hScanned]
        | none =>
            rw [hMove] at hLoop
            obtain ⟨hSound, hAddress⟩ := ih h.scan hLoop
            exact ⟨hSound, fun k => (hAddress k).trans (hScanned p k)⟩
      · cases hLoop
        exact ⟨h.scan, hScanned p⟩

namespace BalanceMess

/-- The words of a message are in front of the buffer of a receiver, in its byte order. -/
def Received (m : BalanceMess) (d : Daemon n) : Prop :=
  ∀ k < m.words.length, d.word k = m.words.getD k 0#32

variable (n) in
/-- The count in front is the number of pairs behind it, so that the message ends with
the last pair and a receiver in RUN applies the moves and nothing else. -/
structure WellFormed (m : BalanceMess) : Prop where
  count : m.count = m.moves.length
  length : m.words.length = 1 + 2 * m.count
  applied : ∀ (cfg : Config n) (d : Daemon n), d.state = .run → m.Received d →
    handleBalance cfg d = handleBalanceMoves cfg m.moves (d.flipFront m.words.length)

theorem length_words (m : BalanceMess) : m.words.length = 1 + 2 * m.moves.length := by
  rw [words, List.length_cons, Nat.add_comm]
  exact congrArg (1 + ·) (HostWords.length_pairs m.moves Prod.fst Prod.snd)

/-- The moves are read back, whatever stands behind them in the buffer. -/
theorem read_of_received {m : BalanceMess} {d : Daemon n} (hCount : m.count = m.moves.length)
    (hSmall : m.count < 2 ^ 31) (h : m.Received d) : BalanceMess.read d.word = m.moves := by
  have hLength := m.length_words
  have hFirst : (d.word 0).toInt.toNat = m.moves.length := by
    have hNat : (BitVec.ofNat 32 m.count).toNat = m.count := by
      rw [BitVec.toNat_ofNat]
      omega
    rw [h 0 (by omega), words, List.getD_cons_zero, BitVec.toInt_eq_toNat_of_lt (by omega), hNat,
      hCount, Int.toNat_natCast]
  rw [BalanceMess.read, hFirst]
  apply List.ext_getElem
  · simp
  · intro k hk hk'
    obtain ⟨hReal, hPseudo⟩ := HostWords.getD_pairs m.moves Prod.fst Prod.snd hk'
    have hEven : 1 + 2 * k = 2 * k + 1 := by omega
    have hOdd : 2 + 2 * k = 2 * k + 1 + 1 := by omega
    rw [List.getElem_map, List.getElem_range, h (1 + 2 * k) (by omega), h (2 + 2 * k) (by omega),
      words, hEven, hOdd, List.getD_cons_succ, List.getD_cons_succ, hReal, hPseudo]

theorem wellFormed_iff {m : BalanceMess} (hSmall : m.count < 2 ^ 31) :
    m.WellFormed n ↔ m.count = m.moves.length := by
  refine ⟨fun h => h.count, fun hCount => ⟨hCount, ?_, fun cfg d hState h => ?_⟩⟩
  · rw [length_words, hCount]
  · have hRead := read_of_received hCount hSmall h
    rw [handleBalance, if_neg (not_not.mpr hState), hRead, length_words]

end BalanceMess

/-- When the counters alone are levelled, one VIP at a time and no more often than the
rate allows, no member gives more than it owns below PREFER. -/
def Balanceable (cfg : Config n) (d : Daemon n) : Prop :=
  ∀ k < d.numMembers,
    (givers d.numMembers cfg.balanceRate ⟨fun k => (d.members k).numAllocated, 0, 0⟩).count k ≤
      (Finset.univ.filter fun j => (d.allocationTable j).realIf = (d.members k).realIf ∧
        (d.allocationTable j).claimPriority < prefer).card

/-- Without members there is nobody to move anything. -/
theorem planLoop_nobody {cfg : Config n} {rate : Nat} {d : Daemon n} {result : Nat × Plan n}
    (hLoop : planLoop cfg 0 rate 0 (Plan.start d) = some result) :
    result = (0, Plan.start d) := by
  cases rate with
  | zero => exact (Option.some.inj hLoop).symm
  | succ rate =>
      have hEven : ¬ ((Plan.start d).scan 0).Uneven := by simp [Plan.Uneven, Plan.scan, Plan.start]
      rw [planLoop_succ, if_neg hEven, if_pos rfl] at hLoop
      cases hLoop

/-- `Balance` writes well formed messages exactly when no member is asked for a VIP that
it must not give. -/
theorem balanceMess_wellFormed_iff (cfg : Config n) (d : Daemon n)
    (hDistinct : ∀ k < d.numMembers, ∀ k' < d.numMembers,
      (d.members k).realIf = (d.members k').realIf → k = k')
    (hRate : cfg.balanceRate < 2 ^ 31) :
    (∀ m, balanceMess cfg d = some m → m.WellFormed n) ↔ Balanceable cfg d := by
  have hResult (m : BalanceMess) : balanceMess cfg d = some m ↔
      ∃ result, planLoop cfg d.numMembers cfg.balanceRate 0 (Plan.start d) = some result ∧
        ⟨result.1, result.2.moves⟩ = m := by
    rw [balanceMess, Option.map_eq_some_iff]
  have hSmall (m : BalanceMess) (hm : balanceMess cfg d = some m) : m.count < 2 ^ 31 := by
    obtain ⟨result, hLoop, rfl⟩ := (hResult m).mp hm
    have hBound := (planLoop_bound hLoop).1
    change result.1 < 2 ^ 31
    omega
  rcases Nat.eq_zero_or_pos d.numMembers with hNone | hSome
  · refine ⟨fun _ k hk => absurd hk (by omega), fun _ m hm => ?_⟩
    rw [BalanceMess.wellFormed_iff (hSmall m hm)]
    obtain ⟨result, hLoop, rfl⟩ := (hResult m).mp hm
    rw [hNone] at hLoop
    rw [planLoop_nobody hLoop]
    rfl
  · have hCovers := planLoop_covers cfg cfg.balanceRate 0 (p := Plan.start d) hDistinct
      ⟨hSome, hSome⟩
    constructor
    · intro hWellFormed
      by_contra hNot
      obtain ⟨result, hLoop, hLess⟩ := hCovers.2 hNot
      have hCount := (hWellFormed ⟨result.1, result.2.moves⟩ ((hResult _).mpr ⟨_, hLoop, rfl⟩)).count
      simp only [Plan.start, List.length_nil] at hLess hCount
      omega
    · intro hBalanceable m hm
      rw [BalanceMess.wellFormed_iff (hSmall m hm)]
      obtain ⟨result, hLoop, rfl⟩ := (hResult m).mp hm
      have hCount := hCovers.1 hBalanceable result hLoop
      simp only [Plan.start, List.length_nil] at hCount ⊢
      omega

/-- Two members, of which the first owns as many VIPs as `owned`, all of one priority. -/
def pairTable (priority : Int) : Daemon 2 :=
  { Daemon.initial 2 with
    state := .run
    numMembers := 2
    members := fun k => if k = 0 then ⟨1#32, 2, true⟩ else ⟨2#32, 0, true⟩
    allocationTable := fun _ => ⟨1#32, priority⟩ }

def pairConfig : Config 2 := ⟨![10#32, 11#32], [], 1#32, "wack1", 1, false, true⟩

theorem pairTable_wellFormed_iff :
    (∀ m, balanceMess pairConfig (pairTable claimed) = some m → m.WellFormed 2) ↔
      Balanceable pairConfig (pairTable claimed) :=
  balanceMess_wellFormed_iff pairConfig (pairTable claimed) (by decide) (by decide)

/-- The fullest member owns two preferred VIPs and nothing else: the message says one
move and has none. -/
theorem pairTable_malformed :
    balanceMess pairConfig (pairTable preferClaimed) = some ⟨1, []⟩ ∧
      (∀ k < 2, ((pairTable preferClaimed).members k).numAllocated =
        ownedBy (pairTable preferClaimed).allocationTable
          ((pairTable preferClaimed).members k).realIf) ∧
      ¬ ∀ m, balanceMess pairConfig (pairTable preferClaimed) = some m → m.WellFormed 2 := by
  have hMess : balanceMess pairConfig (pairTable preferClaimed) = some ⟨1, []⟩ := by
    decide +kernel
  refine ⟨hMess, by decide +kernel, fun hAll => ?_⟩
  exact absurd (hAll _ hMess).count (by decide)

end Wackamole
