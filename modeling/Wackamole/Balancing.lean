import Wackamole.BalanceRound
import Mathlib.Data.Fin.VecNotation

/-! Balancing in a view: `Balance` fires at any time, and its messages are handled by
all members in the order in which they were sent, each member in its own time. -/
namespace Wackamole

variable {m n : Nat}

/-- The members, the BALANCE messages sent so far, and how many of them each member has
handled. -/
structure Balancing (m n : Nat) where
  daemon : Fin m → Daemon n
  sent : List BalanceMess
  handled : Fin m → Nat

inductive BalanceEvent (m : Nat) where
  | timer (i : Fin m)
  | delivery (i : Fin m)
  deriving DecidableEq, Repr

/-- The message that a member multicasts when its `Balance` timer fires. -/
def balanceSends (cfg : Config n) (d : Daemon n) : Option BalanceMess :=
  if d.myIndex = 0 ∧ d.state = .run then balanceMess cfg d else none

namespace Balancing

/-- One event. A member that has handled every message so far has nothing to handle. -/
def step (cfg : Fin m → Config n) (s : Balancing m n) : BalanceEvent m → Balancing m n
  | .timer i =>
    match balance (cfg i) .success ((s.daemon i).dequeue .balance) with
    | .ok d =>
      { s with
        daemon := Function.update s.daemon i d
        sent := s.sent ++ (balanceSends (cfg i) (s.daemon i)).toList }
    | .error _ => s
  | .delivery i =>
    match s.sent[s.handled i]? with
    | some mess =>
      { s with
        daemon := Function.update s.daemon i (handleBalance (cfg i) ((s.daemon i).load mess.packet))
        handled := Function.update s.handled i (s.handled i + 1) }
    | none => s

/-- The message that a member handles next does not give it an interface that its table
already gives to it, or the build brings such an interface up again. -/
def Fresh (cfg : Fin m → Config n) (s : Balancing m n) : BalanceEvent m → Prop
  | .timer _ => True
  | .delivery i => (cfg i).needsForceReup = true ∨ ∀ mess, s.sent[s.handled i]? = some mess →
    ∀ j, ((cfg i).realIf, (cfg i).pseudoIf j) ∈ mess.moves →
      ((s.daemon i).allocationTable j).realIf ≠ (cfg i).realIf

/-- All members have the same table, and every interface is up at exactly one member,
the one that the tables name. -/
def Covered (cfg : Fin m → Config n) (daemon : Fin m → Daemon n) : Prop :=
  ∃ table : Fin n → Entry, (∀ i, (daemon i).allocationTable = table) ∧
    ∀ j, ∃ i, (table j).realIf = (cfg i).realIf ∧ ∀ i', j ∈ (daemon i').up ↔ i' = i

end Balancing

/-- A view in which all members are in RUN with the same table, counters that match it
and no preferred interface, and every interface is up at the member that the table
names. -/
structure BalanceView (m n : Nat) where
  vip : Fin n → Address
  vip_injective : Function.Injective vip
  cfg : Fin m → Config n
  pseudoIf : ∀ i, (cfg i).pseudoIf = vip
  realIf_injective : Function.Injective fun i => (cfg i).realIf
  balanceRate : ∀ i, (cfg i).balanceRate < 2 ^ 31
  table : Fin n → Entry
  claimed : ∀ j, (table j).claimPriority = claimed
  owner : ∀ j, ∃ i, (table j).realIf = (cfg i).realIf
  daemon : Fin m → Daemon n
  state : ∀ i, (daemon i).state = .run
  myIndex : ∀ i, (daemon i).myIndex = i
  numMembers : ∀ i, (daemon i).numMembers = m
  realIf : ∀ i k : Fin m, ((daemon i).members k).realIf = (cfg k).realIf
  counts : ∀ i, (daemon i).CountsOwned
  allocationTable : ∀ i, (daemon i).allocationTable = table
  up : ∀ i j, j ∈ (daemon i).up ↔ (table j).realIf = (cfg i).realIf

namespace BalanceView

variable (v : BalanceView m n)

/-- The members before anything has been sent. -/
def start : Balancing m n := ⟨v.daemon, [], fun _ => 0⟩

def run (es : List (BalanceEvent m)) : Balancing m n := es.foldl (Balancing.step v.cfg) v.start

def addr (i : Fin m) : Address := (v.cfg i).realIf

/-- The table after some messages. -/
def tableAfter (messes : List BalanceMess) : Fin n → Entry :=
  messes.foldl (fun table mess => moveTable v.vip table mess.moves) v.table

theorem tableAfter_append (messes : List BalanceMess) (mess : BalanceMess) :
    v.tableAfter (messes ++ [mess]) = moveTable v.vip (v.tableAfter messes) mess.moves := by
  rw [tableAfter, List.foldl_append]
  rfl

theorem tableAfter_claimed (messes : List BalanceMess) (j : Fin n) :
    (v.tableAfter messes j).claimPriority = Wackamole.claimed := by
  induction messes using List.reverseRecOn with
  | nil => exact v.claimed j
  | append_singleton messes mess ih =>
      rw [tableAfter_append]
      exact ih

theorem tableAfter_owner {messes : List BalanceMess}
    (h : ∀ mess ∈ messes, mess.Planned v.addr) (j : Fin n) :
    ∃ i, (v.tableAfter messes j).realIf = v.addr i := by
  induction messes using List.reverseRecOn with
  | nil => exact v.owner j
  | append_singleton messes mess ih =>
      rw [tableAfter_append, moveTable]
      cases hMoved : movedTo v.vip mess.moves j with
      | none => exact ih fun mess hMem => h mess (List.mem_append_left _ hMem)
      | some addr => exact (h mess (by simp)).owner _ (mem_of_movedTo hMoved)

/-- Every member is at the table of the messages that it has handled. -/
structure Inv (s : Balancing m n) : Prop where
  planned : ∀ mess ∈ s.sent, mess.Planned v.addr
  inStep : ∀ i, InStep (v.cfg i) v.addr (v.tableAfter (s.sent.take (s.handled i))) (s.daemon i)
  handled_le : ∀ i, s.handled i ≤ s.sent.length

theorem inv_start : v.Inv v.start where
  planned _ hMem := absurd hMem List.not_mem_nil
  inStep i := ⟨v.state i, v.numMembers i, v.realIf i, v.counts i, v.allocationTable i, v.up i⟩
  handled_le _ := le_rfl

variable {v}

theorem Inv.timer {s : Balancing m n} (h : v.Inv s) (i : Fin m) :
    v.Inv (s.step v.cfg (.timer i)) := by
  have hVip : Function.Injective (v.cfg i).pseudoIf := by
    rw [v.pseudoIf]
    exact v.vip_injective
  have hSent : 0 ≤ Multicast.success.ret := le_rfl
  obtain ⟨d, hBalance, hInStep⟩ := (h.inStep i).balance hSent
  rw [Balancing.step, hBalance]
  refine ⟨fun mess hMem => ?_, fun i' => ?_, fun i' => ?_⟩
  · rcases List.mem_append.mp hMem with hOld | hNew
    · exact h.planned mess hOld
    · rw [Option.mem_toList, balanceSends] at hNew
      split_ifs at hNew
      exact (h.inStep i).planned hVip v.realIf_injective (Fin.pos i) (v.balanceRate i)
        (fun j => by rw [v.tableAfter_claimed]; decide) hNew
  · dsimp only
    rw [List.take_append_of_le_length (h.handled_le i')]
    by_cases hi : i' = i
    · subst hi
      rw [Function.update_self]
      exact hInStep
    · rw [Function.update_of_ne hi]
      exact h.inStep i'
  · exact (h.handled_le i').trans (by simp)

theorem Inv.delivery {s : Balancing m n} (h : v.Inv s) {i : Fin m}
    (hFresh : s.Fresh v.cfg (.delivery i)) : v.Inv (s.step v.cfg (.delivery i)) := by
  have hVip : Function.Injective (v.cfg i).pseudoIf := by
    rw [v.pseudoIf]
    exact v.vip_injective
  rw [Balancing.step]
  cases hNext : s.sent[s.handled i]? with
  | none => exact h
  | some mess =>
      have hMem := List.mem_of_getElem? hNext
      have hInStep := (h.inStep i).handleBalance hVip (h.planned mess hMem)
        (hFresh.imp_right fun hOld j hMove => by
          rw [← (h.inStep i).allocationTable]
          exact hOld mess hNext j hMove)
      refine ⟨h.planned, fun i' => ?_, fun i' => ?_⟩
      · dsimp only
        by_cases hi : i' = i
        · subst hi
          rw [Function.update_self, Function.update_self, List.take_add_one, hNext,
            Option.toList_some, tableAfter_append]
          rw [v.pseudoIf] at hInStep
          exact hInStep
        · rw [Function.update_of_ne hi, Function.update_of_ne hi]
          exact h.inStep i'
      · dsimp only
        by_cases hi : i' = i
        · subst hi
          rw [Function.update_self]
          exact (List.getElem?_eq_some_iff.mp hNext).1
        · rw [Function.update_of_ne hi]
          exact h.handled_le i'

theorem Inv.step {s : Balancing m n} (h : v.Inv s) {e : BalanceEvent m}
    (hFresh : s.Fresh v.cfg e) : v.Inv (s.step v.cfg e) := by
  cases e with
  | timer i => exact h.timer i
  | delivery i => exact h.delivery hFresh

variable (v)

/-- A run whose deliveries are all fresh keeps the invariant. -/
theorem inv_run {es : List (BalanceEvent m)}
    (hFresh : ∀ before e after, es = before ++ e :: after → (v.run before).Fresh v.cfg e) :
    v.Inv (v.run es) := by
  induction es using List.reverseRecOn with
  | nil => exact v.inv_start
  | append_singleton es e ih =>
      have hBefore := ih (Loops.forall_split_left hFresh)
      have hLast := hBefore.step (hFresh es e [] rfl)
      rw [run, List.foldl_append]
      exact hLast

theorem sent_mono {es es' : List (BalanceEvent m)} (h : es <+: es') :
    (v.run es).sent <+: (v.run es').sent := by
  obtain ⟨rest, rfl⟩ := h
  induction rest using List.reverseRecOn with
  | nil => rw [List.append_nil]
  | append_singleton rest e ih =>
      have hRun : v.run (es ++ (rest ++ [e])) = (v.run (es ++ rest)).step v.cfg e := by
        rw [run, ← List.append_assoc, List.foldl_append]
        rfl
      rw [hRun]
      refine ih.trans ?_
      generalize v.run (es ++ rest) = s
      unfold Balancing.step
      split
      · split
        · exact List.prefix_append _ _
        · exact List.prefix_rfl
      · split <;> exact List.prefix_rfl

/-- In a run whose deliveries are all fresh, look at each member at a time at which it
has handled `k` messages: their tables are equal and every interface is up at exactly
one of them, the one that the tables name. -/
theorem run_covered {es : List (BalanceEvent m)}
    (hFresh : ∀ before e after, es = before ++ e :: after → (v.run before).Fresh v.cfg e)
    {k : Nat} {seen : Fin m → List (BalanceEvent m)} (hAt : ∀ i, seen i <+: es)
    (hHandled : ∀ i, (v.run (seen i)).handled i = k) :
    Balancing.Covered v.cfg fun i => (v.run (seen i)).daemon i := by
  have hInv {es' : List (BalanceEvent m)} (hPrefix : es' <+: es) : v.Inv (v.run es') := by
    obtain ⟨rest, rfl⟩ := hPrefix
    exact v.inv_run (Loops.forall_split_left hFresh)
  have hTake (i : Fin m) : (v.run (seen i)).sent.take k = (v.run es).sent.take k := by
    obtain ⟨rest, hRest⟩ := v.sent_mono (hAt i)
    have hLength := (hInv (hAt i)).handled_le i
    rw [hHandled i] at hLength
    rw [← hRest, List.take_append_of_le_length hLength]
  have hInStep (i : Fin m) : InStep (v.cfg i) v.addr (v.tableAfter ((v.run es).sent.take k))
      ((v.run (seen i)).daemon i) := by
    have hMember := (hInv (hAt i)).inStep i
    rwa [hHandled i, hTake i] at hMember
  have hPlanned : ∀ mess ∈ (v.run es).sent.take k, mess.Planned v.addr := fun mess hMem =>
    (hInv List.prefix_rfl).planned mess (List.mem_of_mem_take hMem)
  refine ⟨_, fun i => (hInStep i).allocationTable, fun j => ?_⟩
  obtain ⟨i, hOwner⟩ := v.tableAfter_owner hPlanned j
  refine ⟨i, hOwner, fun i' => ?_⟩
  rw [(hInStep i').up, hOwner]
  exact ⟨fun hEq => (v.realIf_injective hEq).symm, fun hEq => hEq ▸ rfl⟩

/-- Two members, the first of which owns both interfaces. -/
def pair (needsForceReup : Bool) : BalanceView 2 2 where
  vip := ![10#32, 11#32]
  vip_injective := by decide
  cfg i := ⟨![10#32, 11#32], [], ![1#32, 2#32] i, "wack1", 1, false, needsForceReup⟩
  pseudoIf _ := rfl
  realIf_injective := by cases needsForceReup <;> decide
  balanceRate := by cases needsForceReup <;> decide
  table _ := ⟨1#32, Wackamole.claimed⟩
  claimed _ := rfl
  owner _ := ⟨0, rfl⟩
  daemon i :=
    { Daemon.initial 2 with
      state := .run
      myIndex := i
      numMembers := 2
      members := fun k => if k = 0 then ⟨1#32, 2, true⟩ else ⟨2#32, 0, true⟩
      numAllocated := if i = 0 then 2 else 0
      allocationTable := fun _ => ⟨1#32, Wackamole.claimed⟩
      up := if i = 0 then Finset.univ else ∅
      acquired := if i = 0 then Finset.univ else ∅ }
  state _ := rfl
  myIndex _ := rfl
  numMembers _ := rfl
  realIf := by cases needsForceReup <;> decide
  counts i k hk := by
    match i, k, hk with
    | 0, 0, _ => decide +kernel
    | 0, 1, _ => decide +kernel
    | 1, 0, _ => decide +kernel
    | 1, 1, _ => decide +kernel
  allocationTable _ := rfl
  up := by cases needsForceReup <;> decide

/-- The timer fires twice before the first message arrives, so the same plan is sent
twice. -/
def pairEvents : List (BalanceEvent 2) :=
  [.timer 0, .timer 0, .delivery 0, .delivery 0, .delivery 1, .delivery 1]

theorem pair_run_covered :
    Balancing.Covered (pair true).cfg fun i => ((pair true).run pairEvents).daemon i := by
  have hFresh : ∀ before e after, pairEvents = before ++ e :: after →
      ((pair true).run before).Fresh (pair true).cfg e := by
    intro before e after _
    cases e with
    | timer i => trivial
    | delivery i => exact .inl rfl
  have hHandled : ∀ i, ((pair true).run pairEvents).handled i = 2 := by decide +kernel
  exact (pair true).run_covered hFresh (fun _ => List.prefix_rfl) hHandled

/-- Without `NEEDS_FORCE_REUP`, the second message makes the second member acquire an
interface that it has and then release it: it is up nowhere. -/
theorem pair_run_uncovers :
    (∀ i, ((pair false).run pairEvents).handled i = 2) ∧
      (∀ i, 0 ∉ (((pair false).run pairEvents).daemon i).up) ∧
      ¬ Balancing.Covered (pair false).cfg ((pair false).run pairEvents).daemon := by
  have hDown : ∀ i, 0 ∉ (((pair false).run pairEvents).daemon i).up := by decide +kernel
  refine ⟨by decide +kernel, hDown, ?_⟩
  rintro ⟨table, _, hCovered⟩
  obtain ⟨i, _, hUp⟩ := hCovered 0
  exact hDown i ((hUp i).mpr rfl)

end BalanceView

end Wackamole
