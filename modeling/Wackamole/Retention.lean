import Wackamole.Agreement
import Mathlib.Data.Fin.VecNotation

/-! Whether a member that loses an interface in the gather has taken its address down. -/
namespace Wackamole.Cluster

variable {m n : Nat} (c : Cluster m n) (script : List Delivery)

/-- On entering RUN, member `i` has exactly the interfaces that its table assigns to it. -/
def Retains (d : Fin m → Daemon n) (i : Fin m) : Prop :=
  (d i).state = .run →
    ∀ j, j ∈ (d i).acquired ↔ ((d i).allocationTable j).realIf = (c.cfg i).realIf

/-- Exactly the members that nobody has stranded have what their tables say. -/
theorem retains_iff (mc : Fin m → Multicast) (hSent : ∀ i, 0 ≤ (mc i).ret)
    (hScript : c.IsScript script) :
    ∃ d, c.Outcome script mc d ∧ ∀ i,
      ((d i).state = .run → (d i).up = (d i).acquired) ∧
      (c.Retains d i ↔ (c.Matures script → ∀ j ∈ (c.daemon i).up,
        ¬ Stranded (c.cfg i).realIf (bidsIn c.vip j (statesIn script)))) := by
  choose d hGathered hMaturity hRun hBoot using run_eq hScript mc hSent
  by_cases hMatures : c.Matures script
  · refine ⟨_, fun i => hRun i hMatures, fun i => ⟨fun _ => (hGathered i).settle_exact.up, ?_⟩⟩
    have hIff (j : Fin n) := (hGathered i).settle_acquired_iff j
    have hHeld (j : Fin n) : j ∈ (entered (c.cfg i) (mc i).ret (c.daemon i)).acquired ↔
        j ∈ (c.daemon i).up := by
      rw [← c.acquired]
      rfl
    simp only [hHeld, c.pseudoIf, not_and] at hIff
    constructor
    · exact fun hRetains _ j => (hIff j).mp (hRetains rfl j)
    · exact fun hKept _ j => (hIff j).mpr (hKept hMatures j)
  · refine ⟨_, fun i => hBoot i hMatures, fun i => ⟨fun hState => ?_, ?_⟩⟩
    · exact absurd hState (by simp)
    · exact ⟨fun _ hYes => absurd hYes hMatures, fun _ hState => absurd hState (by simp)⟩

/-- Three former views that each hold the only interface, and a newcomer that prefers it. -/
def threeHolders : Cluster 4 1 :=
  let vip : Fin 1 → Address := ![10#32]
  let cfg (i : Fin 4) : Config 1 :=
    ⟨vip, if i = 3 then [10#32] else [], ![1#32, 2#32, 3#32, 4#32] i, "wack1", 0, false, true⟩
  ofTables vip cfg (fun i _ => if i = 3 then ⟨0#32, unclaimed⟩ else ⟨(cfg i).realIf, claimed⟩)
    (fun i => i ≠ 3) (by decide) (by decide) (by decide) (by decide) (by decide) (by decide)

theorem threeHolders_isScript : threeHolders.IsScript (threeHolders.inOrder [0, 1, 3, 2]) :=
  threeHolders.inOrder_isScript [0, 1, 3] 2 (by decide)

theorem threeHolders_retains_iff :
    let script := threeHolders.inOrder [0, 1, 3, 2]
    ∃ d, threeHolders.Outcome script (fun _ => .success) d ∧ ∀ i,
      ((d i).state = .run → (d i).up = (d i).acquired) ∧
      (threeHolders.Retains d i ↔ (threeHolders.Matures script →
        ∀ j ∈ (threeHolders.daemon i).up,
          ¬ Stranded (threeHolders.cfg i).realIf (bidsIn threeHolders.vip j (statesIn script)))) :=
  retains_iff threeHolders _ (fun _ => .success) (by decide) threeHolders_isScript

/-- The third holder hears two claims, then the preference, then its own claim: it
keeps the address that all tables give to the newcomer. -/
theorem threeHolders_keeps :
    ∃ d, threeHolders.Outcome (threeHolders.inOrder [0, 1, 3, 2]) (fun _ => .success) d ∧
      0 ∈ (d 2).acquired ∧ ¬ threeHolders.Retains d 2 := by
  obtain ⟨d, hOutcome⟩ := threeHolders.exists_outcome threeHolders_isScript (fun _ => .success)
    (by decide)
  have hFinal : (threeHolders.run (fun _ => .success) (threeHolders.inOrder [0, 1, 3, 2])
      2).returns (fun d => d.state = .run ∧ 0 ∈ d.acquired ∧
        (d.allocationTable 0).realIf ≠ (threeHolders.cfg 2).realIf) = true := by
    decide +kernel
  rw [hOutcome 2] at hFinal
  obtain ⟨hState, hUp, hOwner⟩ := of_decide_eq_true hFinal
  exact ⟨d, hOutcome, hUp, fun hRetains => hOwner ((hRetains hState 0).mp hUp)⟩

end Wackamole.Cluster
