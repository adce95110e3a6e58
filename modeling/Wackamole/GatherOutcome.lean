import Wackamole.Cluster
import Wackamole.Reconnect

/-! The table that a gather ends with is a function of the delivered messages. -/
namespace Wackamole

variable {n : Nat} {cfg : Config n}

theorem Collecting.start {d₀ : Daemon n} (hState : d₀.state = .gather)
    (hTable : ∀ j, d₀.allocationTable j = Entry.blank) : Collecting cfg d₀ [] false d₀ :=
  ⟨hState, rfl, rfl, rfl, rfl, by simp, by simp, hTable⟩

/-- The settled entry: the first strong bid, else the first CLAIMED claim, else nobody. -/
theorem Entry.settled_eq (bids : List Bid) :
    Entry.settled bids =
      ((bids.findSome? Bid.strong).or (bids.findSome? Bid.weak)).getD Entry.blank := by
  rw [Entry.settled, FirstWinner.outcome]
  cases bids.findSome? Bid.strong <;> cases bids.findSome? Bid.weak <;> rfl

/-- What `Priority_claim` starts from after the STATE messages of a view, at a mature
member at once and at an immature one with the first MATURING message: the daemon `d₁`, which
has handled the last of these messages and has not yet looked whether any is missing. Neither
the address, the maturity nor the `Old_table` of the member matters. -/
theorem gather_outcome (hVip : Function.Injective cfg.pseudoIf) {mc : Multicast}
    {d d₀ : Daemon n} (hView : handleMembership cfg mc d = .ok d₀) (script : List Delivery)
    (last : StateMess) (hCount : (statesIn script).length + 1 = d.numGroups)
    (hGid : ∀ m ∈ statesIn script ++ [last], m.gid = d₀.gid)
    (hAddress : ∀ m ∈ statesIn script ++ [last], m.realAddress ≠ 0#32)
    (hPriority : ∀ m ∈ statesIn script ++ [last], ∀ c ∈ m.claims,
      c.2 = claimed ∨ c.2 = preferClaimed) :
    let d₁ := collectState cfg last (script.foldl (deliver cfg) d₀)
    (∀ j, d₁.allocationTable j =
        let bids := bidsIn cfg.pseudoIf j (statesIn script ++ [last])
        ((bids.findSome? Bid.strong).or (bids.findSome? Bid.weak)).getD Entry.blank) ∧
      (d₁.maturity = true → (script ++ [Delivery.state last]).foldl (deliver cfg) d₀ =
        { claimUnclaimed (priorityClaim cfg d₁) with state := .run }.queue .balance) ∧
      (d₁.maturity = false → (script ++ [Delivery.state last, .mature]).foldl (deliver cfg) d₀ =
        { claimUnclaimed (priorityClaim cfg { d₁ with
            state := .boot, maturity := true, events := d₁.events.erase .turnMature }) with
          state := .run }.queue .balance) := by
  obtain ⟨hState, hPending, hTable⟩ := handleMembership_ok hView
  have hMissing : ((statesIn script).length : Int) < d₀.numPendingStates := by
    rw [hPending, ← hCount]
    push_cast
    omega
  have hBefore := (Collecting.start hState hTable).run hVip script
    (fun m hm => hGid m (List.mem_append_left _ hm)) hMissing
  have hAfter := hBefore.collectState hVip last
  have hDone : (collectState cfg last (script.foldl (deliver cfg) d₀)).numPendingStates = 0 := by
    rw [hAfter.numPendingStates, hPending, ← hCount, List.length_append, List.length_singleton]
    omega
  have hLast : (script ++ [Delivery.state last]).foldl (deliver cfg) d₀ =
      finishGather cfg (collectState cfg last (script.foldl (deliver cfg) d₀)) := by
    have hEq := hBefore.gid.trans (hGid last (by simp)).symm
    rw [List.foldl_append, List.foldl_cons, List.foldl_nil, deliver, handleStateMess, if_pos hEq]
  refine ⟨fun j => ?_, fun hMature => ?_, fun hImmature => ?_⟩
  · rw [hAfter.table, Entry.foldl_bid _ (bidsIn_wf hAddress hPriority j), Entry.settled_eq]
  · rw [hLast, finishGather_of_mature hDone hMature]
    rfl
  · rw [List.append_cons, List.foldl_append, hLast, finishGather_of_immature hDone hImmature,
      List.foldl_cons, List.foldl_nil, deliver, handleMature_of_boot cfg hImmature]
    rfl

/-- A preference of an immature member beats a CLAIMED claim that came before it. -/
theorem gather_outcome_pair :
    let cfg : Config 1 := ⟨![10#32], [], 1#32, "wack1", 0, false, true⟩
    let mess (addr : Address) (index : Nat) : StateMess :=
      ⟨⟨0#32, 0#32, 0#32⟩, addr, index, 0, 0, [], []⟩
    let first : StateMess := { mess 1#32 0 with numAllocated := 1, claims := [(10#32, claimed)] }
    let last : StateMess := { mess 2#32 1 with prefers := [10#32] }
    let d := Cluster.atView cfg 2 0 (fun _ => ⟨1#32, claimed⟩) true
    let d₁ := collectState cfg last (deliver cfg (entered cfg 0 d) (.state first))
    (∀ j, d₁.allocationTable j =
        let bids := bidsIn cfg.pseudoIf j (statesIn [.state first] ++ [last])
        ((bids.findSome? Bid.strong).or (bids.findSome? Bid.weak)).getD Entry.blank) ∧
      d₁.allocationTable 0 = ⟨2#32, prefer⟩ := by
  intro cfg mess first last d d₁
  have hVip : Function.Injective cfg.pseudoIf := by decide
  have hView : handleMembership cfg .success d = .ok (entered cfg 0 d) :=
    handleMembership_of_sent rfl le_rfl (by decide +kernel)
  have hTable := (gather_outcome hVip hView [.state first] last rfl (by decide) (by decide)
    (by decide)).1
  exact ⟨hTable, hTable 0⟩

end Wackamole
