import Wackamole.BalancePlan
import Wackamole.Allocation
import Wackamole.Reconnect
import Mathlib.Data.List.GetD

/-! One member of a view in RUN: what a BALANCE message does to its table, its counters
and its addresses, and what it sends when its `Balance` timer fires. -/
namespace Wackamole

variable {n : Nat} {cfg : Config n}

open Levelling

/-- The owner that a message gives to an interface, if it moves it. -/
def movedTo (vip : Fin n → Address) (moves : List Move) (j : Fin n) : Option Address :=
  (moves.find? fun move => decide (vip j = move.2)).map Prod.fst

theorem mem_of_movedTo {vip : Fin n → Address} {moves : List Move} {j : Fin n} {addr : Address}
    (h : movedTo vip moves j = some addr) : (addr, vip j) ∈ moves := by
  obtain ⟨move, hFind, rfl⟩ := Option.map_eq_some_iff.mp h
  have hFound := List.find?_some hFind
  have hVip : vip j = move.2 := of_decide_eq_true hFound
  rw [hVip]
  exact List.mem_of_find?_eq_some hFind

/-- The table after the moves of a message. -/
def moveTable (vip : Fin n → Address) (table : Fin n → Entry) (moves : List Move) :
    Fin n → Entry :=
  fun j => { table j with realIf := (movedTo vip moves j).getD (table j).realIf }

/-- What `Handle_balance` does to one interface. -/
def moveSlot (me : Address) (v : Entry × Bool) (addr : Address) : Entry × Bool :=
  ({ v.1 with realIf := addr },
    if me = v.1.realIf then false else if me = addr then true else v.2)

/-- The entry of an interface, and whether its address is up. -/
def Daemon.entryUp (d : Daemon n) (j : Fin n) : Entry × Bool :=
  (d.allocationTable j, decide (j ∈ d.up))

theorem balanceMove_entryUp (hVip : Function.Injective cfg.pseudoIf) (s : Daemon n × Nat)
    (move : Move) (j : Fin n) :
    (balanceMove cfg s move).1.entryUp j =
      if cfg.pseudoIf j = move.2 then moveSlot cfg.realIf (s.1.entryUp j) move.1
      else s.1.entryUp j := by
  obtain ⟨d, r⟩ := s
  unfold balanceMove
  cases hFind : findVE cfg move.2 with
  | none => simp [pseudoIf_ne_of_findVE_none hFind j]
  | some i =>
      have hAddr := pseudoIf_of_findVE hFind
      by_cases hj : j = i
      · subst hj
        simp only [hAddr, if_true, moveSlot, Daemon.entryUp]
        split_ifs <;> simp_all [Daemon.setAllocation, Daemon.acquire, Daemon.release]
      · have hNe : cfg.pseudoIf j ≠ move.2 := fun hEq => hj (hVip (hEq.trans hAddr.symm))
        simp only [hNe, if_false, Daemon.entryUp]
        split_ifs <;> simp [Daemon.setAllocation, Daemon.acquire, Daemon.release, hj]

/-- All moves of a message that moves no interface twice. -/
theorem foldl_balanceMove_entryUp (hVip : Function.Injective cfg.pseudoIf) {moves : List Move}
    (hNodup : (moves.map Prod.snd).Nodup) (s : Daemon n × Nat) (j : Fin n) :
    (moves.foldl (balanceMove cfg) s).1.entryUp j =
      ((movedTo cfg.pseudoIf moves j).map (moveSlot cfg.realIf (s.1.entryUp j))).getD
        (s.1.entryUp j) := by
  rw [Loops.foldl_component (fun s : Daemon n × Nat => s.1.entryUp j) (balanceMove cfg)
    (fun v move => if cfg.pseudoIf j = move.2 then moveSlot cfg.realIf v move.1 else v)
    (fun s move => balanceMove_entryUp hVip s move j)]
  rw [Loops.foldl_of_unique (fun move : Move => cfg.pseudoIf j = move.2)]
  · rw [movedTo]
    cases hFind : moves.find? fun move => decide (cfg.pseudoIf j = move.2) with
    | none => rfl
    | some move =>
        have hFound := List.find?_some hFind
        have hActs : cfg.pseudoIf j = move.2 := of_decide_eq_true hFound
        simp [hActs]
  · intro v move hIdle
    rw [if_neg hIdle]
  · rw [List.nodup_iff_pairwise_ne, List.pairwise_map] at hNodup
    exact hNodup.imp fun hNe hBoth => hNe (hBoth.1.symm.trans hBoth.2)

/-- The address part of one move: the new owner acquires, then the old one releases. -/
def carry (me old new : Address) (i : Fin n) (d : Daemon n) : Daemon n :=
  let d := if me = new then d.acquire i else d
  if me = old then d.release i else d

theorem balanceMove_eq {move : Move} {i : Fin n} (hFind : findVE cfg move.2 = some i)
    (s : Daemon n × Nat) :
    balanceMove cfg s move =
      ({ carry cfg.realIf (s.1.allocationTable i).realIf move.1 i s.1 with
          members := fun k =>
            if k < s.1.numMembers then
              moveCredit (s.1.allocationTable i).realIf move.1 (s.1.members k)
            else s.1.members k
          allocationTable := Function.update s.1.allocationTable i
            { s.1.allocationTable i with realIf := move.1 } },
        if cfg.realIf = (s.1.allocationTable i).realIf then s.2 + 1 else s.2) := by
  simp only [balanceMove, hFind, carry]
  split_ifs <;> rfl

theorem carry_control (me old new : Address) (i : Fin n) (d : Daemon n) :
    (carry me old new i d).control = d.control := by
  simp only [carry]
  split_ifs <;> rfl

theorem balanceMove_control (cfg : Config n) (s : Daemon n × Nat) (move : Move) :
    (balanceMove cfg s move).1.control = s.1.control := by
  cases hFind : findVE cfg move.2 with
  | none => simp [balanceMove, hFind]
  | some i =>
      rw [balanceMove_eq hFind]
      exact carry_control _ _ _ i s.1

theorem balanceMove_numAllocated {s : Daemon n × Nat} {move : Move} {i : Fin n}
    (hFind : findVE cfg move.2 = some i) :
    (balanceMove cfg s move).1.numAllocated =
      s.1.numAllocated - (if (s.1.allocationTable i).realIf = cfg.realIf then 1 else 0) +
        if move.1 = cfg.realIf then 1 else 0 := by
  rw [balanceMove_eq hFind]
  simp only [carry, eq_comm (b := cfg.realIf)]
  split_ifs <;> simp [Daemon.acquire, Daemon.release]

/-- A property that the single moves of a message keep. -/
theorem handleBalanceMoves_invariant {P : Daemon n → Prop}
    (hMove : ∀ s move, P s.1 → P (balanceMove cfg s move).1)
    (hReup : ∀ (d : Daemon n) i, P d → P (d.reup i)) (moves : List Move) {d : Daemon n}
    (hd : P d) : P (handleBalanceMoves cfg moves d) := by
  have hFold : P (moves.foldl (balanceMove cfg) (d, 0)).1 :=
    Loops.foldl_invariant (fun s : Daemon n × Nat => P s.1) (balanceMove cfg) moves
      (fun s move _ => hMove s move) (d, 0) hd
  have hRelease {d : Daemon n} (hd : P d) : P (handlePostRelease cfg d) := by
    unfold handlePostRelease forceReup
    split_ifs
    · apply Loops.foldl_invariant P _ _ _ _ hd
      intro d i _ hd
      split_ifs
      · exact hReup d i hd
      · exact hd
    · exact hd
  unfold handleBalanceMoves
  dsimp only
  split_ifs
  · exact hd
  · exact hRelease hFold
  · exact hFold

theorem handleBalance_invariant {P : Daemon n → Prop} {d : Daemon n} (hd : P d)
    (hMess : ∀ (d : Daemon n) mess, P d → P { d with mess })
    (hMove : ∀ s move, P s.1 → P (balanceMove cfg s move).1)
    (hReup : ∀ (d : Daemon n) i, P d → P (d.reup i)) : P (handleBalance cfg d) := by
  have hFlip (k : Nat) : P (d.flipFront k) := by
    unfold Daemon.flipFront
    split_ifs
    · exact hMess d _ hd
    · exact hd
  unfold handleBalance
  split_ifs
  · exact hd
  · exact handleBalanceMoves_invariant hMove hReup _ (hFlip _)

theorem handleBalanceMoves_control (cfg : Config n) (moves : List Move) (d : Daemon n) :
    (handleBalanceMoves cfg moves d).control = d.control :=
  handleBalanceMoves_invariant (P := fun d' => d'.control = d.control)
    (fun s move h => (balanceMove_control cfg s move).trans h) (fun _ _ h => h) moves rfl

theorem handleBalance_control (cfg : Config n) (d : Daemon n) :
    (handleBalance cfg d).control = d.control :=
  handleBalance_invariant (P := fun d' => d'.control = d.control) rfl (fun _ _ h => h)
    (fun s move h => (balanceMove_control cfg s move).trans h) fun _ _ h => h

theorem moveCredit_realIf (old new : Address) (m : Member) :
    (moveCredit old new m).realIf = m.realIf := by
  simp only [moveCredit]
  split_ifs <;> rfl

theorem moveCredit_numAllocated (old new : Address) (m : Member) :
    (moveCredit old new m).numAllocated =
      m.numAllocated - (if old = m.realIf then 1 else 0) + if new = m.realIf then 1 else 0 := by
  simp only [moveCredit, eq_comm (a := old), eq_comm (a := new)]
  split_ifs <;> simp_all

theorem balanceMove_realIf (s : Daemon n × Nat) (move : Move) (k : Nat) :
    ((balanceMove cfg s move).1.members k).realIf = (s.1.members k).realIf := by
  cases hFind : findVE cfg move.2 with
  | none => simp [balanceMove, hFind]
  | some i =>
      rw [balanceMove_eq hFind]
      dsimp only
      split_ifs
      · exact moveCredit_realIf _ _ _
      · rfl

/-- The counters stay true to the table. -/
theorem balanceMove_countsOwned (s : Daemon n × Nat) (move : Move) (h : s.1.CountsOwned) :
    (balanceMove cfg s move).1.CountsOwned := by
  intro k hk
  have hNum := congrArg Control.numMembers (balanceMove_control cfg s move)
  change k < (balanceMove cfg s move).1.control.numMembers at hk
  rw [hNum] at hk
  rw [balanceMove_realIf]
  cases hFind : findVE cfg move.2 with
  | none =>
      rw [balanceMove, hFind]
      exact h k hk
  | some i =>
      have hk' : k < s.1.numMembers := hk
      have hCount := h k hk'
      rw [balanceMove_eq hFind, Daemon.counter]
      simp only [hk', if_true]
      rw [moveCredit_numAllocated, ownedBy_update, ← hCount]
      rfl

/-- `My.num_allocated` counts what the table names the member for. -/
def Daemon.OwnCount (cfg : Config n) (d : Daemon n) : Prop :=
  d.numAllocated = ownedBy d.allocationTable cfg.realIf

theorem balanceMove_ownCount (s : Daemon n × Nat) (move : Move) (h : s.1.OwnCount cfg) :
    (balanceMove cfg s move).1.OwnCount cfg := by
  cases hFind : findVE cfg move.2 with
  | none =>
      rw [balanceMove, hFind]
      exact h
  | some i =>
      rw [Daemon.OwnCount, balanceMove_numAllocated hFind, balanceMove_eq hFind, ownedBy_update, ← h]

theorem handlePostRelease_up (d : Daemon n) (j : Fin n) :
    j ∈ (handlePostRelease cfg d).up ↔
      j ∈ d.up ∨ cfg.needsForceReup = true ∧ (d.allocationTable j).realIf = cfg.realIf := by
  unfold handlePostRelease
  split_ifs with hBuild
  · rw [forceReup_up, eq_comm (a := cfg.realIf)]
    simp [hBuild]
  · simp [hBuild]

/-- No move gives the member an interface that it owns already. -/
def NoSelfMove (cfg : Config n) (table : Fin n → Entry) : List Move → Prop
  | [] => True
  | move :: moves =>
    (∀ j, cfg.pseudoIf j = move.2 → move.1 = cfg.realIf → (table j).realIf ≠ cfg.realIf) ∧
      NoSelfMove cfg (moveTable cfg.pseudoIf table [move]) moves

/-- Nothing is up but what the table gives to the member. -/
def Backed (cfg : Config n) (d : Daemon n) : Prop :=
  ∀ j ∈ d.up, (d.allocationTable j).realIf = cfg.realIf

/-- Everything is up that the table gives to the member. -/
def Complete (cfg : Config n) (d : Daemon n) : Prop :=
  ∀ j, (d.allocationTable j).realIf = cfg.realIf → j ∈ d.up

section Moves

variable {s : Daemon n × Nat} (hVip : Function.Injective cfg.pseudoIf) (move : Move)

theorem balanceMove_released (h : s.2 ≠ 0) : (balanceMove cfg s move).2 ≠ 0 := by
  cases hFind : findVE cfg move.2 with
  | none =>
      rw [balanceMove, hFind]
      exact h
  | some i =>
      rw [balanceMove_eq hFind]
      dsimp only
      split_ifs
      · exact Nat.succ_ne_zero _
      · exact h

include hVip

theorem balanceMove_allocationTable :
    (balanceMove cfg s move).1.allocationTable =
      moveTable cfg.pseudoIf s.1.allocationTable [move] := by
  funext j
  have hEntry := congrArg Prod.fst (balanceMove_entryUp hVip s move j)
  rw [moveTable, movedTo]
  by_cases hj : cfg.pseudoIf j = move.2
  · rw [if_pos hj] at hEntry
    exact hEntry.trans (by simp [hj, moveSlot, Daemon.entryUp])
  · rw [if_neg hj] at hEntry
    exact hEntry.trans (by simp [hj, Daemon.entryUp])

theorem Backed.balanceMove (h : Backed cfg s.1) : Backed cfg (balanceMove cfg s move).1 := by
  intro j hj
  have hEntryUp := balanceMove_entryUp hVip s move j
  have hEntry := congrArg Prod.fst hEntryUp
  have hUp := congrArg Prod.snd hEntryUp
  simp only [Daemon.entryUp, decide_eq_true hj] at hEntry hUp
  rw [hEntry]
  split_ifs at hUp ⊢ with hAddr
  · simp only [moveSlot] at hUp ⊢
    split_ifs at hUp with hOld hNew
    · exact hNew.symm
    · exact absurd (h j (of_decide_eq_true hUp.symm)).symm hOld
  · exact h j (of_decide_eq_true hUp.symm)

/-- A move completes what was complete, unless it is a self-move; that one counts as a
release. -/
theorem Complete.balanceMove (h : Complete cfg s.1) :
    Complete cfg (balanceMove cfg s move).1 ∨
      (balanceMove cfg s move).2 ≠ 0 ∧
        ∃ j, cfg.pseudoIf j = move.2 ∧ move.1 = cfg.realIf ∧
          (s.1.allocationTable j).realIf = cfg.realIf := by
  by_cases hSelf : ∃ j, cfg.pseudoIf j = move.2 ∧ move.1 = cfg.realIf ∧
      (s.1.allocationTable j).realIf = cfg.realIf
  · obtain ⟨j, hAddr, hNew, hOld⟩ := hSelf
    refine .inr ⟨?_, j, hAddr, hNew, hOld⟩
    rw [balanceMove_eq ((findVE_eq_some hVip).mpr hAddr)]
    dsimp only
    rw [if_pos hOld.symm]
    exact Nat.succ_ne_zero _
  · left
    intro j hj
    have hEntryUp := balanceMove_entryUp hVip s move j
    have hEntry := congrArg Prod.fst hEntryUp
    have hUp := congrArg Prod.snd hEntryUp
    simp only [Daemon.entryUp] at hEntry hUp
    rw [hEntry] at hj
    apply of_decide_eq_true
    rw [hUp]
    split_ifs at hj ⊢ with hAddr
    · simp only [moveSlot] at hj ⊢
      have hOld : cfg.realIf ≠ (s.1.allocationTable j).realIf :=
        fun hOld => hSelf ⟨j, hAddr, hj, hOld.symm⟩
      rw [if_neg hOld, if_pos hj.symm]
    · exact decide_eq_true (h j hj)

end Moves

/-- What was complete stays so, or there has been a release; without self-moves it stays so
in any case. -/
theorem foldl_balanceMove_complete (hVip : Function.Injective cfg.pseudoIf) (moves : List Move)
    {s : Daemon n × Nat} (h : Complete cfg s.1) :
    (Complete cfg (moves.foldl (balanceMove cfg) s).1 ∨
      (moves.foldl (balanceMove cfg) s).2 ≠ 0) ∧
    (NoSelfMove cfg s.1.allocationTable moves →
      Complete cfg (moves.foldl (balanceMove cfg) s).1) := by
  induction moves generalizing s with
  | nil => exact ⟨.inl h, fun _ => h⟩
  | cons move moves ih =>
      rw [List.foldl_cons]
      rcases h.balanceMove hVip move with hNext | ⟨hReleased, j, hAddr, hNew, hOld⟩
      · refine ⟨(ih hNext).1, fun hNone => (ih hNext).2 ?_⟩
        rw [balanceMove_allocationTable hVip]
        exact hNone.2
      · refine ⟨.inr ?_, fun hNone => absurd hOld (hNone.1 j hAddr hNew)⟩
        exact Loops.foldl_invariant (fun s : Daemon n × Nat => s.2 ≠ 0) (balanceMove cfg) moves
          (fun s move _ => balanceMove_released move) _ hReleased

/-- After all moves of a message, what is up is what the table gives to the member. A
self-move takes an address down, which only `force_reup` repairs. -/
theorem handleBalanceMoves_up (hVip : Function.Injective cfg.pseudoIf) {moves : List Move}
    {d : Daemon n} (hState : d.state = .run)
    (hUp : ∀ j, j ∈ d.up ↔ (d.allocationTable j).realIf = cfg.realIf)
    (hFresh : cfg.needsForceReup = true ∨ NoSelfMove cfg d.allocationTable moves) (j : Fin n) :
    j ∈ (handleBalanceMoves cfg moves d).up ↔
      ((handleBalanceMoves cfg moves d).allocationTable j).realIf = cfg.realIf := by
  have hBacked : Backed cfg (moves.foldl (balanceMove cfg) (d, 0)).1 :=
    Loops.foldl_invariant (fun s : Daemon n × Nat => Backed cfg s.1) (balanceMove cfg) moves
      (fun s move _ hs => hs.balanceMove hVip move) (d, 0) fun j => (hUp j).mp
  have hComplete := foldl_balanceMove_complete hVip moves (s := (d, 0)) fun j => (hUp j).mpr
  rw [handleBalanceMoves, if_neg (not_not.mpr hState)]
  generalize moves.foldl (balanceMove cfg) (d, 0) = s at hBacked hComplete ⊢
  dsimp only
  split_ifs with hReleased
  · have hTable : (handlePostRelease cfg s.1).allocationTable = s.1.allocationTable :=
      handlePostRelease_unchanged cfg Daemon.allocationTable (fun _ _ => rfl) s.1
    rw [hTable, handlePostRelease_up]
    refine ⟨fun hj => hj.elim (hBacked j) And.right, fun hj => ?_⟩
    rcases hFresh with hBuild | hNone
    · exact .inr ⟨hBuild, hj⟩
    · exact .inl (hComplete.2 hNone j hj)
  · exact ⟨hBacked j, hComplete.1.resolve_right hReleased j⟩

theorem handleBalanceMoves_allocationTable (hVip : Function.Injective cfg.pseudoIf)
    {moves : List Move} (hNodup : (moves.map Prod.snd).Nodup) {d : Daemon n}
    (hState : d.state = .run) :
    (handleBalanceMoves cfg moves d).allocationTable =
      moveTable cfg.pseudoIf d.allocationTable moves := by
  have hFold : (moves.foldl (balanceMove cfg) (d, 0)).1.allocationTable =
      moveTable cfg.pseudoIf d.allocationTable moves := by
    funext j
    have hEntry := congrArg Prod.fst (foldl_balanceMove_entryUp hVip hNodup (d, 0) j)
    simp only [Daemon.entryUp] at hEntry
    rw [hEntry, moveTable]
    cases movedTo cfg.pseudoIf moves j <;> rfl
  rw [handleBalanceMoves, if_neg (not_not.mpr hState)]
  dsimp only
  split_ifs
  · exact (handlePostRelease_unchanged cfg Daemon.allocationTable (fun _ _ => rfl) _).trans hFold
  · exact hFold

/-- A message that moves no interface twice is judged by the table before it. -/
theorem noSelfMove_of_nodup {table : Fin n → Entry} {moves : List Move}
    (hNodup : (moves.map Prod.snd).Nodup)
    (hFresh : ∀ j, (cfg.realIf, cfg.pseudoIf j) ∈ moves → (table j).realIf ≠ cfg.realIf) :
    NoSelfMove cfg table moves := by
  induction moves generalizing table with
  | nil => trivial
  | cons move moves ih =>
      obtain ⟨hFirst, hRest⟩ := List.nodup_cons.mp hNodup
      refine ⟨fun j hAddr hNew => hFresh j ?_, ih hRest fun j hMem => ?_⟩
      · rw [hAddr, ← hNew]
        exact List.mem_cons_self
      · have hOther : cfg.pseudoIf j ≠ move.2 := fun hEq =>
          hFirst (List.mem_map.mpr ⟨_, hMem, hEq⟩)
        have hKept : movedTo cfg.pseudoIf [move] j = none := by
          simp [movedTo, hOther]
        rw [moveTable, hKept, Option.getD_none]
        exact hFresh j (List.mem_cons_of_mem _ hMem)

/-- A BALANCE message with the shape that `Balance` gives it while nothing is preferred:
as many moves as it says, none of them of an interface that another one moves. -/
structure BalanceMess.Planned {m : Nat} (addr : Fin m → Address) (mess : BalanceMess) : Prop where
  count : mess.count = mess.moves.length
  small : mess.count < 2 ^ 31
  nodup : (mess.moves.map Prod.snd).Nodup
  owner : ∀ move ∈ mess.moves, ∃ i, move.1 = addr i

/-- A member in RUN whose table is `table`. Its counters are true to the table, and it
has up exactly what the table names it for. -/
structure InStep {m : Nat} (cfg : Config n) (addr : Fin m → Address) (table : Fin n → Entry)
    (d : Daemon n) : Prop where
  state : d.state = .run
  numMembers : d.numMembers = m
  realIf : ∀ i : Fin m, (d.members i).realIf = addr i
  counts : d.CountsOwned
  allocationTable : d.allocationTable = table
  up : ∀ j, j ∈ d.up ↔ (table j).realIf = cfg.realIf

/-- A BALANCE message as it is delivered. -/
def BalanceMess.packet (mess : BalanceMess) : Message :=
  ⟨0x10, "", 1, balanceMessType, false, mess.words⟩

namespace InStep

variable {m : Nat} {addr : Fin m → Address} {table : Fin n → Entry} {d : Daemon n}

/-- The moves of a message. A move that names the member for what it already owns brings
the address down, unless the build brings it up again. -/
theorem handleBalanceMoves (hVip : Function.Injective cfg.pseudoIf)
    (h : InStep cfg addr table d) {moves : List Move} (hNodup : (moves.map Prod.snd).Nodup)
    (hFresh : cfg.needsForceReup = true ∨
      ∀ j, (cfg.realIf, cfg.pseudoIf j) ∈ moves → (table j).realIf ≠ cfg.realIf) :
    InStep cfg addr (moveTable cfg.pseudoIf table moves) (handleBalanceMoves cfg moves d) := by
  obtain ⟨hState, hNumMembers, hRealIf, hCounts, rfl, hUp⟩ := h
  have hControl := handleBalanceMoves_control cfg moves d
  have hTable := handleBalanceMoves_allocationTable hVip hNodup hState
  refine ⟨(congrArg Control.state hControl).trans hState,
    (congrArg Control.numMembers hControl).trans hNumMembers, fun i => ?_, ?_, hTable, fun j => ?_⟩
  · exact handleBalanceMoves_invariant (P := fun d' => (d'.members i).realIf = addr i)
      (fun s move h => (balanceMove_realIf s move i).trans h) (fun _ _ h => h) moves (hRealIf i)
  · exact handleBalanceMoves_invariant balanceMove_countsOwned (fun _ _ h => h) moves hCounts
  · rw [← hTable]
    exact handleBalanceMoves_up hVip hState hUp (hFresh.imp_right (noSelfMove_of_nodup hNodup)) j

theorem load (h : InStep cfg addr table d) (packet : Message) :
    InStep cfg addr table (d.load packet) :=
  ⟨h.state, h.numMembers, h.realIf, h.counts, h.allocationTable, h.up⟩

/-- `Handle_balance` on a delivered message. -/
theorem handleBalance (hVip : Function.Injective cfg.pseudoIf) (h : InStep cfg addr table d)
    {mess : BalanceMess} (hMess : mess.Planned addr)
    (hFresh : cfg.needsForceReup = true ∨
      ∀ j, (cfg.realIf, cfg.pseudoIf j) ∈ mess.moves → (table j).realIf ≠ cfg.realIf) :
    InStep cfg addr (moveTable cfg.pseudoIf table mess.moves)
      (handleBalance cfg (d.load mess.packet)) := by
  have hReceived : mess.Received (d.load mess.packet) := by
    intro k hk
    change (mess.words ++ d.mess.drop mess.words.length).getD k 0#32 = _
    rw [List.getD_append _ _ _ _ hk]
  have hRead := BalanceMess.read_of_received hMess.count hMess.small hReceived
  have hLoaded := h.load mess.packet
  rw [Wackamole.handleBalance, if_neg (not_not.mpr hLoaded.state), hRead]
  exact hLoaded.handleBalanceMoves hVip hMess.nodup hFresh

/-- The `Balance` timer moves nothing by itself. -/
theorem balance (h : InStep cfg addr table d) {mc : Multicast} (hSent : 0 ≤ mc.ret) :
    ∃ d', balance cfg mc (d.dequeue .balance) = .ok d' ∧ InStep cfg addr table d' := by
  have hLeave (d' : Daemon n) (hd' : InStep cfg addr table d') :
      InStep cfg addr table (balanceLeave cfg d') := by
    unfold balanceLeave
    split_ifs
    · exact hd'
    · exact ⟨hd'.state, hd'.numMembers, hd'.realIf, hd'.counts, hd'.allocationTable, hd'.up⟩
  have hState : (d.dequeue .balance).state = .run := h.state
  unfold Wackamole.balance
  split_ifs with hIndex
  · exact ⟨_, rfl, hLeave _ ⟨h.state, h.numMembers, h.realIf, h.counts, h.allocationTable, h.up⟩⟩
  · exact absurd hState ‹_›
  · cases balanceMess cfg (d.dequeue .balance) with
    | none =>
        exact ⟨_, rfl, hLeave _ ⟨rfl, h.numMembers, h.realIf, h.counts, h.allocationTable, h.up⟩⟩
    | some mess =>
        dsimp only
        rw [multicast_sent hSent]
        exact ⟨_, rfl, hLeave _ ⟨rfl, h.numMembers, h.realIf, h.counts, h.allocationTable, h.up⟩⟩

theorem distinct (h : InStep cfg addr table d) (hAddr : Function.Injective addr) :
    (Plan.start d).Distinct d.numMembers := by
  intro k hk k' hk' hEq
  rw [h.numMembers] at hk hk'
  have hSame := hAddr ((h.realIf ⟨k, hk⟩).symm.trans (hEq.trans (h.realIf ⟨k', hk'⟩)))
  exact congrArg Fin.val hSame

/-- What `Balance` sends while nothing is preferred. -/
theorem planned (hVip : Function.Injective cfg.pseudoIf) (hAddr : Function.Injective addr)
    (hMembers : 0 < m) (h : InStep cfg addr table d) (hRate : cfg.balanceRate < 2 ^ 31)
    (hBelow : ∀ j, (table j).claimPriority < prefer) {mess : BalanceMess}
    (hMess : balanceMess cfg d = some mess) : mess.Planned addr := by
  have hDistinct := h.distinct hAddr
  have hWithin : (Plan.start d).levels.Within d.numMembers := by
    rw [h.numMembers]
    exact ⟨hMembers, hMembers⟩
  have hBalanceable : Balanceable cfg d := by
    intro k hk
    have hLoad (k : Nat) (hk : k < d.numMembers) : 0 ≤ (Plan.start d).levels.load k := by
      have hCount := h.counts k hk
      change d.counter k ≥ 0
      omega
    have hCount := count_givers_le cfg.balanceRate hWithin hLoad hk
    have hOwned : (Finset.univ.filter fun j => (d.allocationTable j).realIf = (d.members k).realIf ∧
        (d.allocationTable j).claimPriority < prefer).card =
        ownedBy d.allocationTable (d.members k).realIf := by
      rw [ownedBy_eq_card]
      congr 1
      refine Finset.filter_congr fun j _ => and_iff_left ?_
      rw [h.allocationTable]
      exact hBelow j
    rw [hOwned]
    have hCounts := h.counts k hk
    change _ ≤ d.counter k at hCount
    rw [hCounts] at hCount
    exact_mod_cast hCount
  have hWellFormed := (balanceMess_wellFormed_iff cfg d hDistinct hRate).mpr hBalanceable mess hMess
  rw [balanceMess, Option.map_eq_some_iff] at hMess
  obtain ⟨result, hLoop, rfl⟩ := hMess
  obtain ⟨hSound, hAddress⟩ := planLoop_sound hVip
    ⟨hDistinct, hWithin, List.nodup_nil, by simp [Plan.start]⟩ hLoop
  refine ⟨hWellFormed.count, ?_, hSound.nodup, ?_⟩
  · have hBound := (planLoop_bound hLoop).1
    change result.1 < 2 ^ 31
    omega
  · intro move hMove
    obtain ⟨j, k, _, hk, hOwner, _⟩ := hSound.placed move hMove
    rw [h.numMembers] at hk
    exact ⟨⟨k, hk⟩, hOwner.trans ((hAddress k).trans (h.realIf ⟨k, hk⟩))⟩

end InStep

end Wackamole
