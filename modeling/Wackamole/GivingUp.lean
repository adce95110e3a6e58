import Wackamole.Balancing
import Wackamole.RoundMoves
import Mathlib.Data.Fin.VecNotation

/-! When `Balance` gives up: a round looks at one fullest member only, the first of them, and
moves nothing if all that this member owns is preferred. -/
namespace Wackamole

variable {n : Nat} {cfg : Config n} {d : Daemon n}

open Levelling

theorem Plan.scan_scan (size : Nat) (p : Plan n) : (p.scan size).scan size = p.scan size := by
  have hLevels := Levels.scan_scan size p.levels
  rw [scan_eq, scan_levels, hLevels, scan_eq]

/-- The moves of a round stay, whatever it plans after them. -/
theorem planLoop_moves {size remaining k : Nat} {p : Plan n} {result : Nat × Plan n}
    (hLoop : planLoop cfg size remaining k p = some result) : p.moves <+: result.2.moves := by
  induction remaining generalizing k p with
  | zero =>
      cases hLoop
      exact List.prefix_rfl
  | succ remaining ih =>
      rw [planLoop_succ] at hLoop
      split_ifs at hLoop
      · have hPass : p.moves <+: ((p.scan size).pass cfg).moves := by
          unfold Plan.pass
          cases (p.scan size).movable with
          | some j => exact ⟨_, (congrArg (· ++ _) (scan_moves size p).symm :)⟩
          | none => exact (scan_moves size p) ▸ List.prefix_rfl
        exact hPass.trans (ih hLoop)
      · cases hLoop
        exact (scan_moves size p) ▸ List.prefix_rfl

/-- A pass that finds nothing to move is followed by passes that find nothing. -/
theorem planLoop_stuck {size remaining k : Nat} {p : Plan n}
    (hStuck : (p.scan size).movable = none) {result : Nat × Plan n}
    (hLoop : planLoop cfg size remaining k p = some result) : result.2.moves = p.moves := by
  induction remaining generalizing k p with
  | zero =>
      cases hLoop
      rfl
  | succ remaining ih =>
      rw [planLoop_succ] at hLoop
      split_ifs at hLoop
      · rw [Plan.pass, hStuck] at hLoop
        have hAgain : ((p.scan size).scan size).movable = none := by
          rw [Plan.scan_scan]
          exact hStuck
        exact (ih hAgain hLoop).trans (scan_moves size p)
      · cases hLoop
        exact scan_moves size p

namespace Daemon

/-- The number of entries that a member owns. -/
def vips (d : Daemon n) (k : Nat) : Nat := ownedBy d.allocationTable (d.members k).realIf

/-- A member owns an entry that `Balance` may move. -/
def OwnsMovable (d : Daemon n) (k : Nat) : Prop :=
  ∃ j, (d.allocationTable j).realIf = (d.members k).realIf ∧
    (d.allocationTable j).claimPriority < prefer

/-- The first member that owns the most entries. -/
def FirstFullest (d : Daemon n) (k : Nat) : Prop :=
  k < d.numMembers ∧ (∀ i < d.numMembers, d.vips i ≤ d.vips k) ∧ ∀ i < k, d.vips i < d.vips k

/-- A round of `Balance` has no move. -/
def PlansNothing (cfg : Config n) (d : Daemon n) : Prop :=
  ∀ m, balanceSends cfg d = some m → m.moves = []

/-- A member that owns something movable has at least two entries more than another. -/
def Overloaded (d : Daemon n) (k : Nat) : Prop :=
  k < d.numMembers ∧ d.OwnsMovable k ∧ ∃ i < d.numMembers, d.vips i + 1 < d.vips k

end Daemon

/-- What the search of the first pass finds. -/
theorem firstFullest_iff (hMembers : 0 < d.numMembers) (hCounts : d.CountsOwned) {k : Nat} :
    d.FirstFullest k ↔ k = ((Plan.start d).scan d.numMembers).maxIndex := by
  have hWithin : (Plan.start d).levels.Within d.numMembers := ⟨hMembers, hMembers⟩
  have hIndex : ((Plan.start d).scan d.numMembers).maxIndex =
      ((Plan.start d).levels.scan d.numMembers).high := Plan.scan_high _ _
  have hHigh := (Levels.scan_within hWithin).2
  have hMost := Levels.scan_most d.numMembers (Plan.start d).levels
  have hFirst := Levels.scan_first (s := (Plan.start d).levels) rfl d.numMembers
  rw [hIndex]
  generalize ((Plan.start d).levels.scan d.numMembers).high = high at *
  have hLoad {i : Nat} (hi : i < d.numMembers) : (Plan.start d).levels.load i = d.vips i :=
    hCounts i hi
  have hFullest : d.FirstFullest high := by
    refine ⟨hHigh, fun i hi => ?_, fun i hi => ?_⟩
    · have hLe := hMost i hi
      rw [hLoad hi, hLoad hHigh] at hLe
      exact_mod_cast hLe
    · have hLt := hFirst i hi
      rw [hLoad (hi.trans hHigh), hLoad hHigh] at hLt
      exact_mod_cast hLt
  constructor
  · rintro ⟨hk, hAll, hBefore⟩
    rcases Nat.lt_trichotomy k high with hLess | rfl | hMore
    · exact absurd (hAll high hHigh) (not_le.mpr (hFullest.2.2 k hLess))
    · rfl
    · exact absurd (hFullest.2.1 k hk) (not_le.mpr (hBefore high hMore))
  · rintro rfl
    exact hFullest

/-- A round at the first member has no move exactly when the members are level or the first
of the fullest owns nothing movable. -/
theorem plansNothing_iff (hState : d.state = .run) (hIndex : d.myIndex = 0)
    (hMembers : 0 < d.numMembers) (hCounts : d.CountsOwned) (hRate : 0 < cfg.balanceRate) :
    d.PlansNothing cfg ↔
      Level d.numMembers d.counter ∨ ∀ k, d.FirstFullest k → ¬ d.OwnsMovable k := by
  obtain ⟨rate, hEq⟩ : ∃ rate, cfg.balanceRate = rate + 1 := ⟨_, (Nat.succ_pred_eq_of_pos hRate).symm⟩
  have hWithin : (Plan.start d).levels.Within d.numMembers := ⟨hMembers, hMembers⟩
  have hSends : balanceSends cfg d = (planLoop cfg d.numMembers (rate + 1) 0 (Plan.start d)).map
      fun result => ⟨result.1, result.2.moves⟩ := by
    rw [balanceSends, if_pos ⟨hIndex, hState⟩, balanceMess, hEq]
  have hMoves : (∀ k, d.FirstFullest k → ¬ d.OwnsMovable k) ↔
      ((Plan.start d).scan d.numMembers).movable = none := by
    have hOwner : ((Plan.start d).scan d.numMembers).address
          ((Plan.start d).scan d.numMembers).maxIndex =
        (d.members ((Plan.start d).scan d.numMembers).maxIndex).realIf := by
      rw [Plan.scan_address]
      rfl
    have hTable : ((Plan.start d).scan d.numMembers).tempTable = d.allocationTable :=
      Plan.scan_tempTable _ _
    rw [Plan.movable_eq_none, Plan.movableOf, Finset.card_eq_zero, Finset.filter_eq_empty_iff,
      hOwner]
    simp only [firstFullest_iff hMembers hCounts, forall_eq, Daemon.OwnsMovable, Plan.Movable,
      hTable, Finset.mem_univ, true_imp_iff, not_exists]
  rw [hMoves, Daemon.PlansNothing, hSends, planLoop_succ]
  by_cases hUneven : ((Plan.start d).scan d.numMembers).Uneven
  · have hNotLevel : ¬ Level d.numMembers d.counter := by
      exact not_level (s := (Plan.start d).levels) (Plan.scan_uneven.mp hUneven) hWithin
    obtain ⟨result, hLoop⟩ := planLoop_isSome cfg d.numMembers rate (Nat.succ_ne_zero 0)
      (((Plan.start d).scan d.numMembers).pass cfg)
    rw [if_pos hUneven, hLoop, or_iff_right hNotLevel]
    cases hMove : ((Plan.start d).scan d.numMembers).movable with
    | some j =>
        have hKept := planLoop_moves hLoop
        rw [Plan.pass, hMove] at hKept
        have hNonempty : result.2.moves ≠ [] := by
          intro hNone
          rw [hNone, List.prefix_nil] at hKept
          exact absurd hKept (by simp [Plan.give])
        exact iff_of_false (fun h => hNonempty (h _ rfl)) (by simp)
    | none =>
        rw [Plan.pass, hMove] at hLoop
        have hAgain : (((Plan.start d).scan d.numMembers).scan d.numMembers).movable = none := by
          rw [Plan.scan_scan]
          exact hMove
        have hNone : result.2.moves = [] :=
          (planLoop_stuck hAgain hLoop).trans (scan_moves _ _)
        refine iff_of_true (fun m hm => ?_) rfl
        cases hm
        exact hNone
  · have hLevel : Level d.numMembers d.counter := by
      exact level_of_scan (s := (Plan.start d).levels) fun h => hUneven (Plan.scan_uneven.mpr h)
    rw [if_neg hUneven, if_pos rfl]
    exact iff_of_true (fun m hm => by cases hm) (.inl hLevel)

/-- `Balance` gives up only when it could not help any more, exactly if the first of the
fullest members owns something movable whenever anyone does who has two more than another. -/
theorem givesUp_iff (hState : d.state = .run) (hIndex : d.myIndex = 0)
    (hMembers : 0 < d.numMembers) (hCounts : d.CountsOwned) (hRate : 0 < cfg.balanceRate) :
    (d.PlansNothing cfg → ∀ k < d.numMembers, d.OwnsMovable k →
      ∀ i < d.numMembers, d.vips k ≤ d.vips i + 1) ↔
    ((∃ k, d.Overloaded k) → ∀ k, d.FirstFullest k → d.OwnsMovable k) := by
  have hClose : (∀ k < d.numMembers, d.OwnsMovable k → ∀ i < d.numMembers,
      d.vips k ≤ d.vips i + 1) ↔ ¬ ∃ k, d.Overloaded k := by
    constructor
    · rintro h ⟨k, hk, hOwns, i, hi, hMore⟩
      exact absurd (h k hk hOwns i hi) (not_le.mpr hMore)
    · intro h k hk hOwns i hi
      exact not_lt.mp fun hMore => h ⟨k, hk, hOwns, i, hi, hMore⟩
  rw [plansNothing_iff hState hIndex hMembers hCounts hRate, hClose]
  by_cases hLevel : Level d.numMembers d.counter
  · have hNobody : ¬ ∃ k, d.Overloaded k := by
      rintro ⟨k, hk, -, i, hi, hMore⟩
      have hLe := hLevel k hk i hi
      rw [hCounts k hk, hCounts i hi] at hLe
      change (d.vips k : Int) ≤ d.vips i + 1 at hLe
      omega
    exact iff_of_true (fun _ => hNobody) fun hSome => absurd hSome hNobody
  · rw [or_iff_right hLevel]
    simp only [firstFullest_iff hMembers hCounts, forall_eq]
    exact ⟨fun h hSome => not_not.mp fun hNone => h hNone hSome, fun h hNone hSome =>
      hNone (h hSome)⟩

/-- Two fullest members, of which the first owns preferred entries only, and one without any. -/
def pinned : Daemon 6 :=
  { Daemon.initial 6 with
    state := .run
    oldMaturity := true
    maturity := true
    numMembers := 3
    members := fun k => ⟨BitVec.ofNat 32 (k + 1), if k < 2 then 3 else 0, true⟩
    numAllocated := 3
    allocationTable := ![⟨1#32, preferClaimed⟩, ⟨1#32, preferClaimed⟩, ⟨1#32, preferClaimed⟩,
      ⟨2#32, claimed⟩, ⟨2#32, claimed⟩, ⟨2#32, claimed⟩] }

theorem pinned_countsOwned : pinned.CountsOwned := by
  have hCounts : ∀ k < 3, pinned.counter k = ownedBy pinned.allocationTable
      (pinned.members k).realIf := by decide
  exact hCounts

theorem pinned_givesUp_iff :
    let cfg : Config 6 :=
      ⟨![10#32, 11#32, 12#32, 13#32, 14#32, 15#32], [], 1#32, "wack1", 3, false, true⟩
    (pinned.PlansNothing cfg → ∀ k < 3, pinned.OwnsMovable k → ∀ i < 3,
      pinned.vips k ≤ pinned.vips i + 1) ↔
    ((∃ k, pinned.Overloaded k) → ∀ k, pinned.FirstFullest k → pinned.OwnsMovable k) :=
  givesUp_iff (d := pinned) rfl rfl (by decide) pinned_countsOwned (by decide)

/-- The round plans nothing, and the second member keeps three entries that it could give to
the third. -/
theorem pinned_givesUp :
    let cfg : Config 6 :=
      ⟨![10#32, 11#32, 12#32, 13#32, 14#32, 15#32], [], 1#32, "wack1", 3, false, true⟩
    pinned.state = .run ∧ pinned.CountsOwned ∧ pinned.PlansNothing cfg ∧
      ¬ ∀ k < pinned.numMembers, pinned.OwnsMovable k → ∀ i < pinned.numMembers,
        pinned.vips k ≤ pinned.vips i + 1 := by
  intro cfg
  have hSends : balanceSends cfg pinned = some ⟨3, []⟩ := by decide +kernel
  refine ⟨rfl, pinned_countsOwned, fun m hm => ?_, fun h => ?_⟩
  · rw [hSends] at hm
    cases hm
    rfl
  · exact absurd (h 1 (by decide) ⟨3, rfl, by decide⟩ 2 (by decide)) (by decide)

end Wackamole
