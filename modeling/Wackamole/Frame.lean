import Wackamole.Reconnect
import Wackamole.Allocation

/-! What the protocol handlers leave alone. A property of the daemon that every
elementary update keeps is kept by `Handle_state`, `Handle_mature` and
`Handle_balance`, whatever message they handle. -/
namespace Wackamole

variable {n : Nat}

/-- A property of the daemon that every elementary update keeps. -/
structure Stable (P : Daemon n → Prop) : Prop where
  acquire : ∀ d i, P d → P (d.acquire i)
  release : ∀ d i, P d → P (d.release i)
  reup : ∀ d i, P d → P (d.reup i)
  setAllocation : ∀ d i e, P d → P (d.setAllocation i e)
  setOld : ∀ d i e, P d → P (d.setOld i e)
  members : ∀ (d : Daemon n) members, P d → P { d with members }
  automaton : ∀ (d : Daemon n) state oldMaturity maturity numPendingStates, P d →
    P { d with state, oldMaturity, maturity, numPendingStates }
  queueBalance : ∀ d, P d → P (d.queue .balance)
  dequeueMature : ∀ d, P d → P (d.dequeue .turnMature)
  mess : ∀ (d : Daemon n) mess, P d → P { d with mess }

namespace Stable

variable {P : Daemon n → Prop} (h : Stable P) (cfg : Config n)

include h

theorem releaseAddress (addr : Address) {d : Daemon n} (hd : P d) :
    P (releaseAddress cfg addr d) := by
  unfold Wackamole.releaseAddress
  cases findVE cfg addr with
  | none => exact hd
  | some i => exact h.release d i hd

theorem handlePostRelease {d : Daemon n} (hd : P d) : P (handlePostRelease cfg d) := by
  unfold Wackamole.handlePostRelease
  split_ifs
  · apply Loops.foldl_invariant P _ _ _ _ hd
    intro d i _ hd
    split_ifs
    · exact h.reup d i hd
    · exact hd
  · exact hd

theorem ripClaim (m : StateMess) {s : Daemon n × Nat} (c : Address × Int) (hs : P s.1) :
    P (ripClaim cfg m s c).1 := by
  obtain ⟨d, r⟩ := s
  have hDebit (k : Nat) : P (d.debit k) := h.members d _ hs
  have hDebitOwner {d : Daemon n} (addr : Address) (hd : P d) : P (d.debitOwner addr) :=
    h.members d _ hd
  unfold Wackamole.ripClaim
  cases findVE cfg c.1 with
  | none => exact hs
  | some j =>
      dsimp only
      split_ifs
      · exact h.setAllocation _ _ _ hs
      · exact h.setOld _ _ _ (h.releaseAddress cfg _ (hDebit _))
      · exact h.setOld _ _ _ (hDebit _)
      · exact h.setOld _ _ _ (h.setAllocation _ _ _ (hDebitOwner _ (h.releaseAddress cfg _ hs)))
      · exact h.setOld _ _ _ (h.setAllocation _ _ _ (hDebitOwner _ hs))
      · exact hs

theorem ripPrefer (m : StateMess) {d : Daemon n} (addr : Address) (hd : P d) :
    P (ripPrefer cfg m d addr) := by
  unfold Wackamole.ripPrefer
  cases findVE cfg addr with
  | none => exact hd
  | some j =>
      dsimp only
      split_ifs
      · exact h.setAllocation _ _ _ hd
      · exact hd

theorem ripState (m : StateMess) {d : Daemon n} (hd : P d) : P (ripState cfg m d) := by
  have hClaims : P (m.claims.foldl (Wackamole.ripClaim cfg m) (enterMember m d, 0)).1 :=
    Loops.foldl_invariant (fun s : Daemon n × Nat => P s.1) (Wackamole.ripClaim cfg m) m.claims
      (fun _ c _ hs => h.ripClaim cfg m c hs) (enterMember m d, 0) (h.members d _ hd)
  unfold Wackamole.ripState
  apply Loops.foldl_invariant P _ _ fun _ addr _ hd => h.ripPrefer cfg m addr hd
  split_ifs
  · exact h.handlePostRelease cfg hClaims
  · exact hClaims

theorem priorityClaim {d : Daemon n} (hd : P d) : P (priorityClaim cfg d) := by
  have hLoop : P (prioritized cfg d).1 := by
    apply Loops.foldl_invariant (fun s : Daemon n × Nat => P s.1) _ _ _ (d, 0) hd
    intro s i _ hs
    by_cases hPrefer : (s.1.allocationTable i).claimPriority = prefer
    · have hSettle : P (settleAddress cfg i s.1) := by
        unfold settleAddress
        split_ifs
        · exact h.acquire _ _ hs
        · exact h.release _ _ hs
        · exact hs
      rw [priorityClaimEntry_of_prefer s hPrefer]
      exact h.setAllocation _ _ _ (h.members _ _ hSettle)
    · rw [priorityClaimEntry_of_not_prefer s hPrefer]
      exact hs
  have hRevalidate {d : Daemon n} (hd : P d) : P (revalidate d) := by
    unfold revalidate
    split_ifs
    · exact h.members _ _ (h.automaton d d.state true d.maturity d.numPendingStates hd)
    · exact hd
  rw [priorityClaim_eq]
  apply hRevalidate
  split_ifs
  · exact h.handlePostRelease cfg hLoop
  · exact hLoop

theorem claimUnclaimed {d : Daemon n} (hd : P d) : P (claimUnclaimed d) := by
  apply Loops.foldl_invariant P _ _ _ d hd
  intro d i _ hd
  by_cases hUnclaimed : (d.allocationTable i).claimPriority = unclaimed
  · have hTake : P (d.takeChosen i) := by
      unfold Daemon.takeChosen
      split_ifs
      · exact h.acquire _ _ hd
      · exact hd
    rw [claimUnclaimedEntry_of_unclaimed d i hUnclaimed]
    exact h.setAllocation _ _ _ (h.members _ _ hTake)
  · rw [claimUnclaimedEntry_of_owned d i hUnclaimed]
    exact hd

/-- Entering RUN. -/
theorem settle {d : Daemon n} (hd : P d) :
    P ({ Wackamole.claimUnclaimed (Wackamole.priorityClaim cfg d) with
      state := .run }.queue .balance) :=
  h.queueBalance _ (h.automaton _ _ _ _ _ (h.claimUnclaimed (h.priorityClaim cfg hd)))

theorem handleMature {d : Daemon n} (hd : P d) : P (handleMature cfg d) := by
  have hTurn : P ({ d with maturity := true }.dequeue .turnMature) :=
    h.dequeueMature _ (h.automaton d d.state d.oldMaturity true d.numPendingStates hd)
  unfold Wackamole.handleMature
  dsimp only
  split_ifs
  · exact hd
  · exact h.settle cfg hTurn
  · exact hTurn

theorem collectState (m : StateMess) {d : Daemon n} (hd : P d) : P (collectState cfg m d) := by
  unfold Wackamole.collectState
  apply h.automaton
  split_ifs
  · exact h.handleMature cfg (h.ripState cfg m hd)
  · exact h.ripState cfg m hd

theorem finishGather {d : Daemon n} (hd : P d) : P (finishGather cfg d) := by
  unfold Wackamole.finishGather
  split_ifs
  · exact h.settle cfg hd
  · exact h.automaton _ _ _ _ _ hd
  · exact hd

theorem flipFront (k : Nat) {d : Daemon n} (hd : P d) : P (d.flipFront k) := by
  unfold Daemon.flipFront
  split_ifs
  · exact h.mess _ _ hd
  · exact hd

theorem handleStateMess (m : StateMess) {d : Daemon n} (hd : P d) :
    P (handleStateMess cfg m d) := by
  unfold Wackamole.handleStateMess
  split_ifs
  · exact h.finishGather cfg (h.collectState cfg m hd)
  · exact hd

theorem handleState {d : Daemon n} (hd : P d) : P (handleState cfg d) :=
  h.handleStateMess cfg _ (h.flipFront _ hd)

theorem balanceMove {s : Daemon n × Nat} (move : Move) (hs : P s.1) :
    P (balanceMove cfg s move).1 := by
  obtain ⟨d, r⟩ := s
  unfold Wackamole.balanceMove
  cases findVE cfg move.2 with
  | none => exact hs
  | some i =>
      dsimp only
      apply h.setAllocation
      apply h.members
      split_ifs
      · exact h.release _ _ (h.acquire _ _ hs)
      · exact h.release _ _ hs
      · exact h.acquire _ _ hs
      · exact hs

theorem handleBalanceMoves (moves : List Move) {d : Daemon n} (hd : P d) :
    P (handleBalanceMoves cfg moves d) := by
  have hFold := Loops.foldl_invariant (fun s : Daemon n × Nat => P s.1)
    (Wackamole.balanceMove cfg) moves (fun _ move _ hs => h.balanceMove cfg move hs) (d, 0) hd
  unfold Wackamole.handleBalanceMoves
  dsimp only
  split_ifs
  · exact hd
  · exact h.handlePostRelease cfg hFold
  · exact hFold

theorem handleBalance {d : Daemon n} (hd : P d) : P (handleBalance cfg d) := by
  unfold Wackamole.handleBalance
  split_ifs
  · exact hd
  · exact h.handleBalanceMoves cfg _ (h.flipFront _ hd)

theorem handleRegular (hRecord : ∀ d handler, P d → P (d.record (.handler handler)))
    {d : Daemon n} (hd : P d) : P (handleRegular cfg d) := by
  unfold Wackamole.handleRegular
  split_ifs
  · exact h.handleState cfg (hRecord d _ hd)
  · exact h.handleMature cfg (hRecord d _ hd)
  · exact h.handleBalance cfg (hRecord d _ hd)
  · exact hRecord d _ hd
  · exact hRecord d _ hd
  · exact hd

end Stable

/-- A part of the daemon that no elementary update changes. -/
def Untouched {Read : Type*} (read : Daemon n → Read) : Prop :=
  ∀ v, Stable fun d => read d = v

namespace Untouched

variable {Read : Type*} {read : Daemon n → Read} (h : Untouched read) (cfg : Config n)

include h

theorem queueBalance (d : Daemon n) : read (d.queue .balance) = read d :=
  (h (read d)).queueBalance d rfl

theorem handleState (d : Daemon n) : read (handleState cfg d) = read d :=
  (h (read d)).handleState cfg rfl

theorem handleMature (d : Daemon n) : read (handleMature cfg d) = read d :=
  (h (read d)).handleMature cfg rfl

theorem handleBalance (d : Daemon n) : read (handleBalance cfg d) = read d :=
  (h (read d)).handleBalance cfg rfl

theorem handleRegular (hRecord : ∀ d handler, read (d.record (.handler handler)) = read d)
    (d : Daemon n) : read (handleRegular cfg d) = read d :=
  (h (read d)).handleRegular cfg (fun d handler hd => (hRecord d handler).trans hd) rfl

end Untouched

end Wackamole
