import Wackamole.Settlement

/-! No handler reads the ghost record of acquired addresses: whatever it is set to
before, everything else comes out the same. -/
namespace Wackamole

variable {n : Nat} {cfg : Config n}

namespace Daemon

/-- The daemon with another record of acquired addresses. -/
def grant (a : Finset (Fin n)) (d : Daemon n) : Daemon n := { d with acquired := a }

@[simp] theorem grant_allocationTable (a : Finset (Fin n)) (d : Daemon n) :
    (d.grant a).allocationTable = d.allocationTable := rfl

end Daemon

/-- What does not depend on the record of acquired addresses. -/
def Blind (f : Daemon n → Daemon n) : Prop := ∀ d a, ∃ a', f (d.grant a) = (f d).grant a'

/-- The same for one pass of a loop that counts. -/
def BlindPass (f : Daemon n × Nat → Daemon n × Nat) : Prop :=
  ∀ s a, ∃ a', f (s.1.grant a, s.2) = ((f s).1.grant a', (f s).2)

namespace Blind

variable {f g : Daemon n → Daemon n}

theorem comp (hg : Blind g) (hf : Blind f) : Blind fun d => g (f d) := by
  intro d a
  obtain ⟨a', hFirst⟩ := hf d a
  obtain ⟨a'', hSecond⟩ := hg (f d) a'
  refine ⟨a'', ?_⟩
  dsimp only
  rw [hFirst, hSecond]

theorem ite {p : Daemon n → Prop} [DecidablePred p] (hp : ∀ d a, p (d.grant a) ↔ p d)
    (hf : Blind f) (hg : Blind g) : Blind fun d => if p d then f d else g d := by
  intro d a
  by_cases h : p d
  · simp only [(hp d a).mpr h, h, if_true]
    exact hf d a
  · simp only [mt (hp d a).mp h, h, if_false]
    exact hg d a

theorem loop {Index : Type*} {f : Daemon n → Index → Daemon n} (h : ∀ i, Blind fun d => f d i)
    (l : List Index) : Blind fun d => l.foldl f d := by
  induction l with
  | nil => exact fun d a => ⟨a, rfl⟩
  | cons i l ih => exact comp ih (h i)

/-- A loop that counts, and what is done after it if the count is not zero. -/
theorem counting {Index : Type*} {f : Daemon n × Nat → Index → Daemon n × Nat}
    (h : ∀ i, BlindPass fun s => f s i) (hg : Blind g) (l : List Index) :
    Blind fun d => if (l.foldl f (d, 0)).2 ≠ 0 then g (l.foldl f (d, 0)).1
      else (l.foldl f (d, 0)).1 := by
  have hLoop : BlindPass fun s => l.foldl f s := by
    induction l with
    | nil => exact fun s a => ⟨a, rfl⟩
    | cons i l ih =>
        intro s a
        obtain ⟨a', hFirst⟩ := h i s a
        obtain ⟨a'', hRest⟩ := ih (f s i) a'
        refine ⟨a'', ?_⟩
        dsimp only at hFirst hRest ⊢
        rw [List.foldl_cons, hFirst, hRest, List.foldl_cons]
  intro d a
  obtain ⟨a', hEq⟩ := hLoop (d, 0) a
  dsimp only at hEq ⊢
  rw [hEq]
  split_ifs
  · exact hg _ a'
  · exact ⟨a', rfl⟩

end Blind

theorem ripClaim_blind (m : StateMess) (c : Address × Int) :
    BlindPass fun s => ripClaim cfg m s c := by
  rintro ⟨d, r⟩ a
  unfold ripClaim
  cases hFind : findVE cfg c.1 with
  | none => exact ⟨a, rfl⟩
  | some j =>
      simp only [releaseAddress_of_findVE hFind, Daemon.grant_allocationTable]
      split_ifs <;> exact ⟨_, rfl⟩

theorem priorityClaimEntry_count (s : Daemon n × Nat) {i : Fin n}
    (hPrefer : (s.1.allocationTable i).claimPriority = prefer) :
    (priorityClaimEntry cfg s i).2 = if (s.1.slot i).Loses cfg.realIf then s.2 + 1 else s.2 := by
  obtain ⟨d, r⟩ := s
  simp only [priorityClaimEntry]
  rw [if_pos hPrefer]
  exact apply_ite Prod.snd _ _ _

theorem settleAddress_blind (i : Fin n) : Blind (settleAddress cfg i) := by
  refine Blind.ite (fun _ _ => Iff.rfl) (fun d a => ⟨insert i a, rfl⟩) ?_
  exact Blind.ite (fun _ _ => Iff.rfl) (fun d a => ⟨a.erase i, rfl⟩) fun d a => ⟨a, rfl⟩

theorem priorityClaimEntry_blind (i : Fin n) : BlindPass fun s => priorityClaimEntry cfg s i := by
  intro s a
  by_cases hPrefer : (s.1.allocationTable i).claimPriority = prefer
  · obtain ⟨a', hSettle⟩ := @settleAddress_blind n cfg i s.1 a
    refine ⟨a', Prod.ext ?_ ?_⟩
    · dsimp only
      rw [priorityClaimEntry_of_prefer (s.1.grant a, s.2) hPrefer,
        priorityClaimEntry_of_prefer s hPrefer, hSettle]
      rfl
    · dsimp only
      rw [priorityClaimEntry_count (s.1.grant a, s.2) hPrefer, priorityClaimEntry_count s hPrefer]
      rfl
  · refine ⟨a, ?_⟩
    dsimp only
    rw [priorityClaimEntry_of_not_prefer (s.1.grant a, s.2) hPrefer,
      priorityClaimEntry_of_not_prefer s hPrefer]

theorem claimUnclaimedEntry_blind (i : Fin n) : Blind fun d => claimUnclaimedEntry d i := by
  have hTake : Blind fun d : Daemon n => d.takeChosen i :=
    Blind.ite (fun _ _ => Iff.rfl) (fun d a => ⟨insert i a, rfl⟩) fun d a => ⟨a, rfl⟩
  intro d a
  by_cases hUnclaimed : (d.allocationTable i).claimPriority = unclaimed
  · obtain ⟨a', hTaken⟩ := hTake d a
    refine ⟨a', ?_⟩
    dsimp only at hTaken ⊢
    rw [claimUnclaimedEntry_of_unclaimed (d.grant a) i hUnclaimed,
      claimUnclaimedEntry_of_unclaimed d i hUnclaimed, hTaken]
    rfl
  · refine ⟨a, ?_⟩
    dsimp only
    rw [claimUnclaimedEntry_of_owned (d.grant a) i hUnclaimed,
      claimUnclaimedEntry_of_owned d i hUnclaimed]

theorem ripPrefer_blind (m : StateMess) (addr : Address) :
    Blind fun d => ripPrefer cfg m d addr := by
  cases hFind : findVE cfg addr with
  | none => exact fun d a => ⟨a, by simp only [ripPrefer, hFind]⟩
  | some j =>
      have hTake : Blind fun d : Daemon n =>
          if (d.allocationTable j).claimPriority < prefer then
            d.setAllocation j ⟨m.realAddress, prefer⟩
          else d :=
        Blind.ite (fun _ _ => Iff.rfl) (fun d a => ⟨a, rfl⟩) fun d a => ⟨a, rfl⟩
      simpa only [ripPrefer, hFind] using hTake

variable (cfg)

theorem handlePostRelease_blind : Blind (handlePostRelease cfg) := by
  refine Blind.ite (fun _ _ => Iff.rfl) ?_ fun d a => ⟨a, rfl⟩
  refine Blind.loop (fun i => ?_) (List.finRange n)
  exact Blind.ite (fun _ _ => Iff.rfl) (fun d a => ⟨a, rfl⟩) fun d a => ⟨a, rfl⟩

theorem ripState_blind (m : StateMess) : Blind (ripState cfg m) := by
  have hPrefers : Blind fun d => m.prefers.foldl (ripPrefer cfg m) d :=
    Blind.loop (fun addr => ripPrefer_blind m addr) m.prefers
  have hClaims := Blind.counting (@ripClaim_blind n cfg m)
    (handlePostRelease_blind cfg) m.claims
  have hEnter : Blind (enterMember (n := n) m) := fun d a => ⟨a, rfl⟩
  exact hPrefers.comp (hClaims.comp hEnter)

theorem priorityClaim_blind : Blind (priorityClaim cfg) := by
  have hRevalidate : Blind (revalidate (n := n)) :=
    Blind.ite (fun _ _ => Iff.rfl) (fun d a => ⟨a, rfl⟩) fun d a => ⟨a, rfl⟩
  exact hRevalidate.comp
    (Blind.counting priorityClaimEntry_blind (handlePostRelease_blind cfg) (List.finRange n))

theorem settle_blind : Blind (settle cfg) :=
  (Blind.loop claimUnclaimedEntry_blind (List.finRange n)).comp (priorityClaim_blind cfg)

theorem enterRun_blind : Blind fun d => { settle cfg d with state := .run }.queue .balance := by
  have hRun : Blind fun d : Daemon n => { d with state := .run }.queue .balance :=
    fun d a => ⟨a, rfl⟩
  exact hRun.comp (settle_blind cfg)

theorem handleMature_blind : Blind (handleMature cfg) := by
  have hTurn : Blind fun d : Daemon n => { d with maturity := true }.dequeue .turnMature :=
    fun d a => ⟨a, rfl⟩
  refine Blind.ite (fun _ _ => Iff.rfl) (fun d a => ⟨a, rfl⟩) ?_
  exact Blind.ite (fun _ _ => Iff.rfl) ((enterRun_blind cfg).comp hTurn) hTurn

theorem collectState_blind (m : StateMess) : Blind (collectState cfg m) := by
  have hCount : Blind fun d : Daemon n => { d with numPendingStates := d.numPendingStates - 1 } :=
    fun d a => ⟨a, rfl⟩
  have hTurn : Blind fun d : Daemon n =>
      if d.maturity = false ∧ m.maturity = 1 then handleMature cfg d else d :=
    Blind.ite (fun _ _ => Iff.rfl) (handleMature_blind cfg) fun d a => ⟨a, rfl⟩
  exact hCount.comp (hTurn.comp (ripState_blind cfg m))

end Wackamole
