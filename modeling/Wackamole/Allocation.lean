import Wackamole.GatherHoldings
import Wackamole.Library.LeastLoaded

/-! What `Priority_claim` and `Claim_unclaimed` do: the first turns the preferences of
the gather into allocations, interface by interface, and the second hands out the
interfaces without owner to the least loaded members. -/
namespace Wackamole

variable {n : Nat} {cfg : Config n}

/-- The member has got an interface by its preference that its `Old_table` does not
name it for. -/
def Slot.Gains (me : Address) (s : Slot) : Prop := me = s.entry.realIf ∧ me ≠ s.old.realIf

/-- The interface of a member has gone to somebody who prefers it. -/
def Slot.Loses (me : Address) (s : Slot) : Prop := me = s.old.realIf ∧ me ≠ s.entry.realIf

instance (me : Address) (s : Slot) : Decidable (s.Gains me) := by
  unfold Slot.Gains; infer_instance

instance (me : Address) (s : Slot) : Decidable (s.Loses me) := by
  unfold Slot.Loses; infer_instance

theorem Slot.Gains.not_loses {me : Address} {s : Slot} (h : s.Gains me) : ¬ s.Loses me :=
  fun hLoses => h.2 hLoses.1

/-- `Priority_claim` at one interface. -/
def Slot.prioritize (me : Address) (s : Slot) : Slot :=
  if s.entry.claimPriority = prefer then
    { entry := ⟨s.entry.realIf, preferClaimed⟩
      old := s.old
      acquired := (s.acquired || decide (s.Gains me)) && ! decide (s.Loses me) }
  else s

/-- The change of the counter of `a` in `Priority_claim` at an interface with this
entry that `Old_table` gives to `old`. -/
def Entry.credit (a old : Address) (e : Entry) : Int :=
  if e.claimPriority = prefer then
    (if a = e.realIf ∧ a ≠ old then 1 else 0) - if a = old ∧ a ≠ e.realIf then 1 else 0
  else 0

abbrev Slot.credit (a : Address) (s : Slot) : Int := s.entry.credit a s.old.realIf

theorem transferCredit_eq (old new : Address) (m : Member) :
    transferCredit old new m =
      ⟨m.realIf, m.numAllocated +
        ((if m.realIf = new ∧ m.realIf ≠ old then 1 else 0) -
          if m.realIf = old ∧ m.realIf ≠ new then 1 else 0), m.gotStateFrom⟩ := by
  simp only [transferCredit]
  split_ifs <;> simp_all; omega

/-- What `Priority_claim` does to the address of a preferred interface. -/
def settleAddress (cfg : Config n) (i : Fin n) (d : Daemon n) : Daemon n :=
  if (d.slot i).Gains cfg.realIf then d.acquire i
  else if (d.slot i).Loses cfg.realIf then d.release i
  else d

/-- One pass at a preferred interface. The member that acquires is not the one that
releases. -/
theorem priorityClaimEntry_of_prefer (s : Daemon n × Nat) {i : Fin n}
    (hPrefer : (s.1.allocationTable i).claimPriority = prefer) :
    (priorityClaimEntry cfg s i).1 =
      ({ settleAddress cfg i s.1 with
        members := fun j =>
          if j < s.1.numMembers then
            transferCredit (s.1.oldTable i).realIf (s.1.allocationTable i).realIf (s.1.members j)
          else s.1.members j } : Daemon n).setAllocation i
        ⟨(s.1.allocationTable i).realIf, preferClaimed⟩ := by
  obtain ⟨d, r⟩ := s
  simp only [priorityClaimEntry]
  rw [if_pos hPrefer]
  by_cases hGains : (d.slot i).Gains cfg.realIf
  · have hGains' : cfg.realIf = (d.allocationTable i).realIf ∧
        cfg.realIf ≠ (d.oldTable i).realIf := hGains
    have hKeeps : ¬ (cfg.realIf = (d.oldTable i).realIf ∧
        cfg.realIf ≠ (d.allocationTable i).realIf) := hGains.not_loses
    rw [settleAddress, if_pos hGains]
    simp only [if_pos hGains', if_neg hKeeps]
    rfl
  · have hGains' : ¬ (cfg.realIf = (d.allocationTable i).realIf ∧
        cfg.realIf ≠ (d.oldTable i).realIf) := hGains
    rw [settleAddress, if_neg hGains]
    simp only [if_neg hGains']
    by_cases hLoses : (d.slot i).Loses cfg.realIf
    · have hLoses' : cfg.realIf = (d.oldTable i).realIf ∧
          cfg.realIf ≠ (d.allocationTable i).realIf := hLoses
      simp only [if_pos hLoses, if_pos hLoses']
      rfl
    · have hLoses' : ¬ (cfg.realIf = (d.oldTable i).realIf ∧
          cfg.realIf ≠ (d.allocationTable i).realIf) := hLoses
      simp only [if_neg hLoses, if_neg hLoses']

theorem priorityClaimEntry_of_not_prefer (s : Daemon n × Nat) {i : Fin n}
    (hPrefer : (s.1.allocationTable i).claimPriority ≠ prefer) :
    priorityClaimEntry cfg s i = s := by
  simp [priorityClaimEntry, hPrefer]

theorem settleAddress_slot (cfg : Config n) (d : Daemon n) (i j : Fin n) :
    (settleAddress cfg i d).slot j =
      if j = i then
        { d.slot j with
          acquired := ((d.slot j).acquired || decide ((d.slot j).Gains cfg.realIf)) &&
            ! decide ((d.slot j).Loses cfg.realIf) }
      else d.slot j := by
  unfold settleAddress
  by_cases hj : j = i
  · subst hj
    rw [if_pos rfl]
    by_cases hGains : (d.slot j).Gains cfg.realIf
    · simp [Daemon.slot_acquire, hGains, hGains.not_loses]
    · by_cases hLoses : (d.slot j).Loses cfg.realIf
      · simp [Daemon.slot_release, hGains, hLoses]
      · simp [hGains, hLoses]
        rfl
  · rw [if_neg hj]
    split_ifs <;> simp [Daemon.slot_acquire, Daemon.slot_release, hj]

theorem priorityClaimEntry_slot (cfg : Config n) (s : Daemon n × Nat) (i j : Fin n) :
    (priorityClaimEntry cfg s i).1.slot j =
      if j = i then (s.1.slot j).prioritize cfg.realIf else s.1.slot j := by
  by_cases hPrefer : (s.1.allocationTable i).claimPriority = prefer
  · have hSettle := settleAddress_slot cfg s.1 i j
    rw [priorityClaimEntry_of_prefer s hPrefer, Daemon.slot_setAllocation]
    by_cases hj : j = i
    · subst hj
      have hPrefer' : (s.1.slot j).entry.claimPriority = prefer := hPrefer
      rw [if_pos rfl] at hSettle ⊢
      rw [if_pos rfl, Slot.prioritize, if_pos hPrefer']
      exact congrArg (fun s' : Slot =>
        Slot.mk ⟨(s.1.allocationTable j).realIf, preferClaimed⟩ s'.old s'.acquired) hSettle
    · rw [if_neg hj] at hSettle ⊢
      rw [if_neg hj]
      exact hSettle
  · rw [priorityClaimEntry_of_not_prefer s hPrefer]
    by_cases hj : j = i
    · subst hj
      simp [Slot.prioritize, hPrefer]
    · simp [hj]

/-- One pass, for the counter of member `k`. -/
theorem priorityClaimEntry_member (s : Daemon n × Nat) (i : Fin n) (k : Nat) :
    (priorityClaimEntry cfg s i).1.members k =
      if k < s.1.numMembers then
        ⟨(s.1.members k).realIf,
          (s.1.members k).numAllocated + (s.1.slot i).credit (s.1.members k).realIf,
          (s.1.members k).gotStateFrom⟩
      else s.1.members k := by
  by_cases hPrefer : (s.1.allocationTable i).claimPriority = prefer
  · rw [priorityClaimEntry_of_prefer s hPrefer]
    simp only [Daemon.members_setAllocation]
    split_ifs with hk
    · have hPrefer' : (s.1.slot i).entry.claimPriority = prefer := hPrefer
      rw [Slot.credit, Entry.credit, if_pos hPrefer', transferCredit_eq]
      rfl
    · rfl
  · have hPrefer' : ¬ (s.1.slot i).entry.claimPriority = prefer := hPrefer
    rw [priorityClaimEntry_of_not_prefer s hPrefer, Slot.credit, Entry.credit, if_neg hPrefer',
      add_zero, ite_self]

theorem settleAddress_control (d : Daemon n) (i : Fin n) :
    (settleAddress cfg i d).control = d.control := by
  unfold settleAddress
  split_ifs <;> rfl

theorem priorityClaimEntry_control (s : Daemon n × Nat) (i : Fin n) :
    (priorityClaimEntry cfg s i).1.control = s.1.control := by
  by_cases hPrefer : (s.1.allocationTable i).claimPriority = prefer
  · rw [priorityClaimEntry_of_prefer s hPrefer]
    exact settleAddress_control s.1 i
  · rw [priorityClaimEntry_of_not_prefer s hPrefer]

/-- A member may acquire a preferred interface it does not have, and it has the ones
its `Old_table` names it for. -/
structure Slot.Ready (me : Address) (s : Slot) : Prop where
  fresh : s.entry.claimPriority = prefer → s.Gains me → s.acquired = false
  known : s.entry.claimPriority = prefer → s.old.realIf = me → s.acquired = true

/-- Outside the gather a member has up exactly what it has acquired. -/
structure Holding.Exact (h : Holding n) : Prop where
  numAllocated : h.numAllocated = h.acquired.card
  up : h.up = h.acquired

theorem Holding.Sound.acquire {table table' : Fin n → Entry} {d : Daemon n} {j : Fin n}
    (h : d.holding.Sound cfg table) (hj : j ∉ d.acquired)
    (hTable : ∀ i, i ≠ j → table' i = table i) : (d.acquire j).holding.Sound cfg table' where
  numAllocated := by
    have hCard : d.numAllocated = d.acquired.card := h.numAllocated
    have hInsert : (insert j d.acquired).card = d.acquired.card + 1 := Finset.card_insert_of_notMem hj
    simp only [Daemon.holding, Daemon.acquire, hInsert, hCard]
    push_cast
    rfl
  acquired_up := Finset.insert_subset_insert j h.acquired_up
  up_entry i hi := by
    rcases Finset.mem_insert.mp hi with rfl | hUp
    · exact .inl (Finset.mem_insert_self i _)
    · by_cases hij : i = j
      · exact .inl (hij ▸ Finset.mem_insert_self i _)
      · rw [hTable i hij]
        exact (h.up_entry i hUp).imp_left fun hMem => Finset.mem_insert_of_mem hMem

/-- The table entry of an interface that is not up too early may change. -/
theorem Holding.Sound.of_acquired {table table' : Fin n → Entry} {h : Holding n} {j : Fin n}
    (hSound : h.Sound cfg table)
    (hKnown : (table j).realIf = cfg.realIf → (table j).claimPriority = prefer → j ∈ h.acquired)
    (hTable : ∀ i, i ≠ j → table' i = table i) : h.Sound cfg table' where
  numAllocated := hSound.numAllocated
  acquired_up := hSound.acquired_up
  up_entry i hi := by
    by_cases hij : i = j
    · subst hij
      rcases hSound.up_entry i hi with hMem | ⟨_, hOwner, hPrefer⟩
      · exact .inl hMem
      · exact .inl (hKnown hOwner hPrefer)
    · rw [hTable i hij]
      exact hSound.up_entry i hi

/-- One pass of `Priority_claim` for the addresses of the member. -/
theorem priorityClaimEntry_sound {s : Daemon n × Nat} (i : Fin n)
    (hSound : s.1.holding.Sound cfg s.1.allocationTable)
    (hReady : ∀ j, (s.1.slot j).Ready cfg.realIf) :
    (priorityClaimEntry cfg s i).1.holding.Sound cfg (priorityClaimEntry cfg s i).1.allocationTable ∧
      ∀ j, ((priorityClaimEntry cfg s i).1.slot j).Ready cfg.realIf := by
  constructor
  · have hTable (j : Fin n) (hj : j ≠ i) :
        (priorityClaimEntry cfg s i).1.allocationTable j = s.1.allocationTable j := by
      have hSlot := priorityClaimEntry_slot cfg s i j
      rw [if_neg hj] at hSlot
      exact congrArg Slot.entry hSlot
    by_cases hPrefer : (s.1.allocationTable i).claimPriority = prefer
    · have hHolding : (priorityClaimEntry cfg s i).1.holding =
          (settleAddress cfg i s.1).holding := by
        rw [priorityClaimEntry_of_prefer s hPrefer]
        rfl
      rw [hHolding, settleAddress]
      split_ifs with hGains hLoses
      · have hFresh := (hReady i).fresh hPrefer hGains
        exact hSound.acquire (by simpa using hFresh) hTable
      · have hKnown := (hReady i).known hPrefer hLoses.1.symm
        exact hSound.release (by simpa using hKnown) hTable
      · refine hSound.of_acquired (fun hOwner _ => ?_) hTable
        have hOld : (s.1.slot i).old.realIf = cfg.realIf := by
          by_contra hNe
          exact hGains ⟨hOwner.symm, fun hEq => hNe hEq.symm⟩
        exact of_decide_eq_true ((hReady i).known hPrefer hOld)
    · rw [priorityClaimEntry_of_not_prefer s hPrefer]
      exact hSound
  · intro j
    rw [priorityClaimEntry_slot]
    split_ifs with hj
    · rw [Slot.prioritize]
      split_ifs with hPrefer
      · exact ⟨fun h => by simp at h, fun h => by simp at h⟩
      · exact hReady j
    · exact hReady j

/-- The loop of `Priority_claim`. -/
def prioritized (cfg : Config n) (d : Daemon n) : Daemon n × Nat :=
  (List.finRange n).foldl (priorityClaimEntry cfg) (d, 0)

theorem prioritized_slot (cfg : Config n) (d : Daemon n) (j : Fin n) :
    (prioritized cfg d).1.slot j = (d.slot j).prioritize cfg.realIf :=
  Loops.foldl_finRange_view (fun (s : Daemon n × Nat) j => s.1.slot j) (priorityClaimEntry cfg)
    (fun _ s => s.prioritize cfg.realIf) (priorityClaimEntry_slot cfg) (d, 0) j

theorem prioritized_control (d : Daemon n) : (prioritized cfg d).1.control = d.control :=
  Loops.foldl_unchanged (fun s : Daemon n × Nat => s.1.control) (priorityClaimEntry cfg)
    priorityClaimEntry_control (List.finRange n) (d, 0)

theorem prioritized_realIf (d : Daemon n) (k : Nat) :
    ((prioritized cfg d).1.members k).realIf = (d.members k).realIf := by
  apply Loops.foldl_unchanged (fun s : Daemon n × Nat => (s.1.members k).realIf)
    (priorityClaimEntry cfg)
  intro s i
  rw [priorityClaimEntry_member]
  split_ifs <;> rfl

/-- Every counter moves by the credits of its member. -/
theorem prioritized_counter (d : Daemon n) {k : Nat} (hk : k < d.numMembers) :
    ((prioritized cfg d).1.members k).numAllocated =
      (d.members k).numAllocated + ∑ j, (d.slot j).credit (d.members k).realIf := by
  have hSum := Loops.foldl_finRange_measure
    (fun s : Daemon n × Nat => (s.1.members k).numAllocated)
    (fun s j => (s.1.slot j, (s.1.members k).realIf, s.1.numMembers)) (priorityClaimEntry cfg)
    (fun _ v => if k < v.2.2 then v.1.credit v.2.1 else 0) ?_ ?_ (d, 0)
  · simpa [prioritized, hk] using hSum
  · intro s i j hj
    have hNum : (priorityClaimEntry cfg s i).1.numMembers = s.1.numMembers :=
      congrArg Control.numMembers (priorityClaimEntry_control s i)
    have hReal : ((priorityClaimEntry cfg s i).1.members k).realIf = (s.1.members k).realIf := by
      rw [priorityClaimEntry_member]
      split_ifs <;> rfl
    rw [priorityClaimEntry_slot, if_neg hj, hNum, hReal]
  · intro s i
    rw [priorityClaimEntry_member]
    split_ifs <;> simp

/-- The addresses after the loop. -/
theorem prioritized_exact {d : Daemon n} (hSound : d.holding.Sound cfg d.allocationTable)
    (hReady : ∀ j, (d.slot j).Ready cfg.realIf) : (prioritized cfg d).1.holding.Exact := by
  have hLoop := Loops.foldl_invariant
    (fun s : Daemon n × Nat => s.1.holding.Sound cfg s.1.allocationTable ∧
      ∀ j, (s.1.slot j).Ready cfg.realIf) (priorityClaimEntry cfg) (List.finRange n)
    (fun s i _ h => priorityClaimEntry_sound i h.1 h.2) (d, 0) ⟨hSound, hReady⟩
  have hPrefer (j : Fin n) : ((prioritized cfg d).1.allocationTable j).claimPriority ≠ prefer := by
    have hSlot := congrArg Slot.entry (prioritized_slot cfg d j)
    rw [Daemon.slot_entry, Slot.prioritize] at hSlot
    rw [hSlot]
    split_ifs with h
    · simp
    · exact h
  refine ⟨hLoop.1.numAllocated, Finset.Subset.antisymm ?_ hLoop.1.acquired_up⟩
  intro j hj
  rcases hLoop.1.up_entry j hj with hMem | ⟨_, _, hEntry⟩
  · exact hMem
  · exact absurd hEntry (hPrefer j)

theorem forceReup_exact {d : Daemon n} (h : d.holding.Exact)
    (hKnown : ∀ j, (d.allocationTable j).realIf = cfg.realIf → j ∈ d.acquired) :
    (forceReup cfg d).holding.Exact := by
  have hAcquired : (forceReup cfg d).acquired = d.acquired :=
    forceReup_unchanged cfg Daemon.acquired (fun _ _ => rfl) d
  have hNum : (forceReup cfg d).numAllocated = d.numAllocated :=
    forceReup_unchanged cfg Daemon.numAllocated (fun _ _ => rfl) d
  have hUp : d.up = d.acquired := h.up
  constructor
  · simp only [Daemon.holding, hNum, hAcquired]
    exact h.numAllocated
  · simp only [Daemon.holding, hAcquired]
    ext j
    rw [forceReup_up, hUp]
    constructor
    · rintro (hMem | hOwner)
      · exact hMem
      · exact hKnown j hOwner.symm
    · exact .inl

theorem handlePostRelease_exact {d : Daemon n} (h : d.holding.Exact)
    (hKnown : ∀ j, (d.allocationTable j).realIf = cfg.realIf → j ∈ d.acquired) :
    (handlePostRelease cfg d).holding.Exact := by
  unfold handlePostRelease
  split_ifs
  · exact forceReup_exact h hKnown
  · exact h

/-- `Priority_claim` after its loop: `force_reup` and the recount leave the tables alone. -/
theorem priorityClaim_eq (d : Daemon n) :
    priorityClaim cfg d = revalidate (if (prioritized cfg d).2 ≠ 0 then
      handlePostRelease cfg (prioritized cfg d).1 else (prioritized cfg d).1) := rfl

theorem revalidate_unchanged {Read : Type*} (read : Daemon n → Read)
    (h : ∀ (d : Daemon n) oldMaturity members, read { d with oldMaturity, members } = read d)
    (d : Daemon n) : read (revalidate d) = read d := by
  unfold revalidate
  split_ifs
  · exact h d _ _
  · rfl

theorem priorityClaim_unchanged {Read : Type*} (read : Daemon n → Read)
    (hRecount : ∀ (d : Daemon n) oldMaturity members, read { d with oldMaturity, members } = read d)
    (hReup : ∀ (d : Daemon n) i, read (d.reup i) = read d) (d : Daemon n) :
    read (priorityClaim cfg d) = read (prioritized cfg d).1 := by
  rw [priorityClaim_eq, revalidate_unchanged read hRecount]
  split_ifs
  · exact handlePostRelease_unchanged cfg read hReup _
  · rfl

theorem priorityClaim_slot (cfg : Config n) (d : Daemon n) (j : Fin n) :
    (priorityClaim cfg d).slot j = (d.slot j).prioritize cfg.realIf := by
  rw [priorityClaim_unchanged (fun d => d.slot j) (fun _ _ _ => rfl) (fun _ _ => rfl)]
  exact prioritized_slot cfg d j

theorem priorityClaim_exact {d : Daemon n} (hSound : d.holding.Sound cfg d.allocationTable)
    (hReady : ∀ j, (d.slot j).Ready cfg.realIf)
    (hKnown : ∀ j, (d.allocationTable j).realIf = cfg.realIf →
      (d.allocationTable j).claimPriority ≠ prefer → j ∈ d.acquired) :
    (priorityClaim cfg d).holding.Exact := by
  have hExact := prioritized_exact hSound hReady
  have hOwned (j : Fin n) (hOwner : ((prioritized cfg d).1.allocationTable j).realIf = cfg.realIf) :
      j ∈ (prioritized cfg d).1.acquired := by
    have hSlot := prioritized_slot cfg d j
    rw [Slot.prioritize] at hSlot
    have hEntry := congrArg Slot.entry hSlot
    have hAcquired := congrArg Slot.acquired hSlot
    rw [Daemon.slot_entry] at hEntry
    rw [Daemon.slot_acquired] at hAcquired
    rw [hEntry] at hOwner
    apply of_decide_eq_true
    rw [hAcquired]
    split_ifs at hOwner ⊢ with hPrefer
    · have hLoses : ¬ (d.slot j).Loses cfg.realIf := fun h => h.2 hOwner.symm
      by_cases hOld : (d.slot j).old.realIf = cfg.realIf
      · simp only [(hReady j).known hPrefer hOld, hLoses, Bool.true_or, decide_false, Bool.not_false,
          Bool.and_true]
      · have hGains : (d.slot j).Gains cfg.realIf := ⟨hOwner.symm, fun hEq => hOld hEq.symm⟩
        simp [hGains, hLoses]
    · exact decide_eq_true (hKnown j hOwner hPrefer)
  rw [priorityClaim_eq, revalidate_unchanged Daemon.holding (fun _ _ _ => rfl)]
  split_ifs
  · exact handlePostRelease_exact hExact hOwned
  · exact hExact

/-- The counter of a member after `Priority_claim`: counted anew when the daemon has
just turned mature, else moved by the credits. -/
def Daemon.settledCount (d : Daemon n) (k : Nat) : Int :=
  if d.maturity ∧ ¬ d.oldMaturity then ownedBy d.allocationTable (d.members k).realIf
  else (d.members k).numAllocated + ∑ j, (d.slot j).credit (d.members k).realIf

theorem ownedBy_congr {table table' : Fin n → Entry}
    (h : ∀ j, (table' j).realIf = (table j).realIf) (addr : Address) :
    ownedBy table' addr = ownedBy table addr := by
  simp only [ownedBy, h]

theorem priorityClaim_members (d : Daemon n) {k : Nat} (hk : k < d.numMembers) :
    ((priorityClaim cfg d).members k).realIf = (d.members k).realIf ∧
      ((priorityClaim cfg d).members k).numAllocated = d.settledCount k := by
  have hReup : (if (prioritized cfg d).2 ≠ 0 then handlePostRelease cfg (prioritized cfg d).1
        else (prioritized cfg d).1).members = (prioritized cfg d).1.members ∧
      (if (prioritized cfg d).2 ≠ 0 then handlePostRelease cfg (prioritized cfg d).1
        else (prioritized cfg d).1).control = d.control ∧
      (if (prioritized cfg d).2 ≠ 0 then handlePostRelease cfg (prioritized cfg d).1
        else (prioritized cfg d).1).allocationTable = (prioritized cfg d).1.allocationTable := by
    split_ifs
    · exact ⟨handlePostRelease_unchanged cfg Daemon.members (fun _ _ => rfl) _,
        (handlePostRelease_unchanged cfg Daemon.control (fun _ _ => rfl) _).trans
          (prioritized_control d),
        handlePostRelease_unchanged cfg Daemon.allocationTable (fun _ _ => rfl) _⟩
    · exact ⟨rfl, prioritized_control d, rfl⟩
  have hOwners (j : Fin n) : ((prioritized cfg d).1.allocationTable j).realIf =
      (d.allocationTable j).realIf := by
    have hEntry := congrArg Slot.entry (prioritized_slot cfg d j)
    rw [Daemon.slot_entry, Slot.prioritize] at hEntry
    rw [hEntry]
    split_ifs <;> rfl
  rw [priorityClaim_eq]
  obtain ⟨hMembers, hControl, hTable⟩ := hReup
  generalize (if (prioritized cfg d).2 ≠ 0 then handlePostRelease cfg (prioritized cfg d).1
    else (prioritized cfg d).1) = d' at hMembers hControl hTable
  have hMaturity : d'.maturity = d.maturity := congrArg Control.maturity hControl
  have hOldMaturity : d'.oldMaturity = d.oldMaturity := congrArg Control.oldMaturity hControl
  have hNum : d'.numMembers = d.numMembers := congrArg Control.numMembers hControl
  have hReal : (d'.members k).realIf = (d.members k).realIf := by
    rw [hMembers, prioritized_realIf]
  unfold revalidate Daemon.settledCount
  rw [hMaturity, hOldMaturity]
  split_ifs with hRecount
  · rw [← hTable] at hOwners
    simp only [hNum, hk, ↓reduceIte, hReal, true_and, ownedBy_congr hOwners]
  · exact ⟨hReal, by rw [hMembers]; exact prioritized_counter d hk⟩

theorem priorityClaim_numMembers (cfg : Config n) (d : Daemon n) :
    (priorityClaim cfg d).numMembers = d.numMembers := by
  rw [priorityClaim_unchanged Daemon.numMembers (fun _ _ _ => rfl) (fun _ _ => rfl)]
  exact congrArg Control.numMembers (prioritized_control d)

theorem priorityClaim_myIndex (d : Daemon n) : (priorityClaim cfg d).myIndex = d.myIndex := by
  rw [priorityClaim_unchanged Daemon.myIndex (fun _ _ _ => rfl) (fun _ _ => rfl)]
  exact congrArg Control.myIndex (prioritized_control d)

/-- The search of the source finds the first member with the least load. -/
theorem memberToClaim_eq (load : Nat → Int) (numMembers : Nat) :
    memberToClaim load numMembers = LeastLoaded.least load numMembers := by
  unfold memberToClaim
  fun_induction LeastLoaded.least load numMembers with
  | case1 => rfl
  | case2 => rfl
  | case3 size hLess ih =>
      rw [show size + 2 - 1 = (size + 1 - 1) + 1 by omega, List.range'_concat, List.foldl_append, ih]
      simp [Nat.add_comm 1 size, hLess]
  | case4 size hLess ih =>
      rw [show size + 2 - 1 = (size + 1 - 1) + 1 by omega, List.range'_concat, List.foldl_append, ih]
      simp [Nat.add_comm 1 size, hLess]

def Daemon.counter (d : Daemon n) (k : Nat) : Int := (d.members k).numAllocated

/-- The interfaces of a list that have no owner. -/
def unowned (table : Fin n → Entry) (l : List (Fin n)) : List (Fin n) :=
  l.filter fun j => (table j).claimPriority = unclaimed

/-- An interface without owner after it was handed to member `k`. -/
def Slot.handTo (k : Nat) (addr : Address) (myIndex : Nat) (s : Slot) : Slot :=
  ⟨⟨addr, claimed⟩, s.old, s.acquired || decide (myIndex = k)⟩

section ClaimUnclaimed

variable (d : Daemon n) (i : Fin n)

/-- The member that gets the next interface. -/
def Daemon.chosen : Nat := LeastLoaded.least d.counter d.numMembers

/-- What `Claim_unclaimed` does to the address of the interface it hands out. -/
def Daemon.takeChosen : Daemon n := if d.myIndex = d.chosen then d.acquire i else d

theorem Daemon.takeChosen_slot (j : Fin n) :
    (d.takeChosen i).slot j =
      if j = i then
        { d.slot j with acquired := (d.slot j).acquired || decide (d.myIndex = d.chosen) }
      else d.slot j := by
  unfold takeChosen
  by_cases hMine : d.myIndex = d.chosen
  · rw [if_pos hMine, slot_acquire]
    split_ifs <;> simp [hMine]
  · rw [if_neg hMine]
    split_ifs <;> simp [hMine, slot]

theorem claimUnclaimedEntry_of_unclaimed
    (hUnclaimed : (d.allocationTable i).claimPriority = unclaimed) :
    claimUnclaimedEntry d i =
      ({ d.takeChosen i with
        members := Function.update d.members d.chosen
          { d.members d.chosen with numAllocated := d.counter d.chosen + 1 } } :
        Daemon n).setAllocation i ⟨(d.members d.chosen).realIf, claimed⟩ := by
  have hChosen : memberToClaim (fun j => (d.members j).numAllocated) d.numMembers = d.chosen :=
    memberToClaim_eq d.counter d.numMembers
  simp only [claimUnclaimedEntry]
  rw [if_pos hUnclaimed, hChosen]
  by_cases hMine : d.myIndex = d.chosen
  · simp only [Daemon.takeChosen, if_pos hMine, Daemon.acquire, Function.update_self]
    rfl
  · simp only [Daemon.takeChosen, if_neg hMine, Function.update_self]
    rfl

theorem claimUnclaimedEntry_of_owned
    (hOwned : (d.allocationTable i).claimPriority ≠ unclaimed) :
    claimUnclaimedEntry d i = d := by
  rw [claimUnclaimedEntry, if_neg hOwned]

theorem claimUnclaimedEntry_slot (j : Fin n) :
    (claimUnclaimedEntry d i).slot j =
      if j = i ∧ (d.allocationTable i).claimPriority = unclaimed then
        (d.slot j).handTo d.chosen (d.members d.chosen).realIf d.myIndex
      else d.slot j := by
  by_cases hUnclaimed : (d.allocationTable i).claimPriority = unclaimed
  · have hTake := d.takeChosen_slot i j
    rw [claimUnclaimedEntry_of_unclaimed d i hUnclaimed, Daemon.slot_setAllocation]
    by_cases hj : j = i
    · subst hj
      rw [if_pos rfl] at hTake ⊢
      rw [if_pos ⟨rfl, hUnclaimed⟩]
      exact congrArg (fun s : Slot =>
        Slot.mk ⟨(d.members d.chosen).realIf, claimed⟩ s.old s.acquired) hTake
    · rw [if_neg hj] at hTake ⊢
      rw [if_neg (fun h : j = i ∧ _ => hj h.1)]
      exact hTake
  · rw [claimUnclaimedEntry_of_owned d i hUnclaimed, if_neg (fun h : j = i ∧ _ => hUnclaimed h.2)]

theorem claimUnclaimedEntry_realIf (k : Nat) :
    ((claimUnclaimedEntry d i).members k).realIf = (d.members k).realIf := by
  by_cases hUnclaimed : (d.allocationTable i).claimPriority = unclaimed
  · rw [claimUnclaimedEntry_of_unclaimed d i hUnclaimed]
    by_cases hk : k = d.chosen
    · simp [hk]
    · simp [hk]
  · rw [claimUnclaimedEntry_of_owned d i hUnclaimed]

theorem claimUnclaimedEntry_counter :
    (claimUnclaimedEntry d i).counter =
      if (d.allocationTable i).claimPriority = unclaimed then
        LeastLoaded.place d.counter d.numMembers
      else d.counter := by
  by_cases hUnclaimed : (d.allocationTable i).claimPriority = unclaimed
  · rw [if_pos hUnclaimed, claimUnclaimedEntry_of_unclaimed d i hUnclaimed]
    funext k
    simp only [Daemon.counter, Daemon.members_setAllocation, LeastLoaded.place]
    by_cases hk : k = d.chosen
    · subst hk
      simp [Daemon.chosen]
    · have hk' : k ≠ LeastLoaded.least d.counter d.numMembers := hk
      rw [Function.update_of_ne hk, Function.update_of_ne hk']
      rfl
  · rw [if_neg hUnclaimed, claimUnclaimedEntry_of_owned d i hUnclaimed]

theorem claimUnclaimedEntry_control : (claimUnclaimedEntry d i).control = d.control := by
  by_cases hUnclaimed : (d.allocationTable i).claimPriority = unclaimed
  · rw [claimUnclaimedEntry_of_unclaimed d i hUnclaimed, Daemon.takeChosen]
    split_ifs <;> rfl
  · rw [claimUnclaimedEntry_of_owned d i hUnclaimed]

end ClaimUnclaimed

theorem unowned_cons (table : Fin n → Entry) (i : Fin n) (l : List (Fin n)) :
    unowned table (i :: l) =
      if (table i).claimPriority = unclaimed then i :: unowned table l else unowned table l := by
  simp [unowned, List.filter_cons]

theorem unowned_congr {table table' : Fin n → Entry} {l : List (Fin n)}
    (h : ∀ j ∈ l, table' j = table j) : unowned table' l = unowned table l := by
  apply List.filter_congr
  intro j hj
  rw [h j hj]

/-- What is left to hand out after one pass over an interface. -/
theorem claimUnclaimedEntry_unowned (d : Daemon n) {i : Fin n} {l : List (Fin n)} (hi : i ∉ l) :
    unowned (claimUnclaimedEntry d i).allocationTable l = unowned d.allocationTable l := by
  refine unowned_congr fun j hj => ?_
  have hEntry := congrArg Slot.entry (claimUnclaimedEntry_slot d i j)
  rw [if_neg fun h : j = i ∧ _ => hi (h.1 ▸ hj)] at hEntry
  exact hEntry

/-- The loop of `Claim_unclaimed` over distinct interfaces: those without owner go to
the receivers that the counters determine. -/
theorem foldl_claimUnclaimedEntry_slot (l : List (Fin n)) (hl : l.Nodup) (d : Daemon n)
    (j : Fin n) :
    (l.foldl claimUnclaimedEntry d).slot j =
      if j ∈ l ∧ (d.allocationTable j).claimPriority = unclaimed then
        let k := LeastLoaded.receiver d.counter d.numMembers (unowned d.allocationTable l) j
        (d.slot j).handTo k (d.members k).realIf d.myIndex
      else d.slot j := by
  induction l generalizing d with
  | nil => simp
  | cons i l ih =>
      obtain ⟨hi, hl⟩ := List.nodup_cons.mp hl
      rw [List.foldl_cons]
      by_cases hUnclaimed : (d.allocationTable i).claimPriority = unclaimed
      · have hSlot (j : Fin n) := claimUnclaimedEntry_slot d i j
        have hOther (b : Fin n) (hb : b ≠ i) :
            (claimUnclaimedEntry d i).allocationTable b = d.allocationTable b := by
          have hEntry := hSlot b
          rw [if_neg (fun h : b = i ∧ _ => hb h.1)] at hEntry
          exact congrArg Slot.entry hEntry
        have hControl := claimUnclaimedEntry_control d i
        have hNum : (claimUnclaimedEntry d i).numMembers = d.numMembers :=
          congrArg Control.numMembers hControl
        have hIndex : (claimUnclaimedEntry d i).myIndex = d.myIndex :=
          congrArg Control.myIndex hControl
        rw [ih hl, claimUnclaimedEntry_unowned d hi, hNum, hIndex, claimUnclaimedEntry_counter,
          if_pos hUnclaimed, unowned_cons, if_pos hUnclaimed]
        by_cases hj : j = i
        · subst hj
          rw [if_neg (fun h : j ∈ l ∧ _ => hi h.1), if_pos ⟨List.mem_cons_self, hUnclaimed⟩, hSlot,
            if_pos ⟨rfl, hUnclaimed⟩, LeastLoaded.receiver, if_pos rfl]
          rfl
        · have hSame : (claimUnclaimedEntry d i).slot j = d.slot j := by
            rw [hSlot, if_neg (fun h : j = i ∧ _ => hj h.1)]
          rw [hOther j hj, hSame, LeastLoaded.receiver, if_neg hj]
          simp only [claimUnclaimedEntry_realIf, List.mem_cons, hj, false_or]
      · rw [claimUnclaimedEntry_of_owned d i hUnclaimed, ih hl, unowned_cons, if_neg hUnclaimed]
        by_cases hj : j = i
        · subst hj
          rw [if_neg (fun h : j ∈ l ∧ _ => hUnclaimed h.2),
            if_neg (fun h : j ∈ j :: l ∧ _ => hUnclaimed h.2)]
        · simp only [List.mem_cons, hj, false_or]

/-- The member that `Claim_unclaimed` hands interface `j` to. -/
def Daemon.receiver (d : Daemon n) (j : Fin n) : Nat :=
  LeastLoaded.receiver d.counter d.numMembers (unowned d.allocationTable (List.finRange n)) j

theorem claimUnclaimed_slot (d : Daemon n) (j : Fin n) :
    (claimUnclaimed d).slot j =
      if (d.allocationTable j).claimPriority = unclaimed then
        (d.slot j).handTo (d.receiver j) (d.members (d.receiver j)).realIf d.myIndex
      else d.slot j := by
  have hLoop := foldl_claimUnclaimedEntry_slot (List.finRange n) (List.nodup_finRange n) d j
  simp only [List.mem_finRange, true_and] at hLoop
  exact hLoop

theorem claimUnclaimed_control (d : Daemon n) : (claimUnclaimed d).control = d.control :=
  Loops.foldl_unchanged Daemon.control claimUnclaimedEntry claimUnclaimedEntry_control
    (List.finRange n) d

theorem claimUnclaimed_realIf (d : Daemon n) (k : Nat) :
    ((claimUnclaimed d).members k).realIf = (d.members k).realIf :=
  Loops.foldl_unchanged (fun d : Daemon n => (d.members k).realIf) claimUnclaimedEntry
    (fun d i => claimUnclaimedEntry_realIf d i k) (List.finRange n) d

theorem Holding.Exact.acquire {d : Daemon n} {j : Fin n} (h : d.holding.Exact)
    (hj : j ∉ d.acquired) : (d.acquire j).holding.Exact where
  numAllocated := by
    have hCard : d.numAllocated = d.acquired.card := h.numAllocated
    have hInsert : (insert j d.acquired).card = d.acquired.card + 1 := Finset.card_insert_of_notMem hj
    simp only [Daemon.holding, Daemon.acquire, hInsert, hCard]
    push_cast
    rfl
  up := congrArg (insert j) h.up

/-- A member acquires only interfaces it does not have. -/
theorem claimUnclaimed_exact {d : Daemon n} (h : d.holding.Exact)
    (hFree : ∀ j ∈ d.acquired, (d.allocationTable j).claimPriority ≠ unclaimed) :
    (claimUnclaimed d).holding.Exact := by
  have hLoop := Loops.foldl_invariant
    (fun d : Daemon n => d.holding.Exact ∧
      ∀ j ∈ d.acquired, (d.allocationTable j).claimPriority ≠ unclaimed)
    claimUnclaimedEntry (List.finRange n) ?_ d ⟨h, hFree⟩
  · exact hLoop.1
  · rintro d i - ⟨hExact, hFree⟩
    by_cases hUnclaimed : (d.allocationTable i).claimPriority = unclaimed
    · have hNotAcquired : i ∉ d.acquired := fun hMem => hFree i hMem hUnclaimed
      constructor
      · have hHolding : (claimUnclaimedEntry d i).holding = (d.takeChosen i).holding := by
          rw [claimUnclaimedEntry_of_unclaimed d i hUnclaimed]
          rfl
        rw [hHolding, Daemon.takeChosen]
        split_ifs
        · exact hExact.acquire hNotAcquired
        · exact hExact
      · intro j hj
        have hSlot := claimUnclaimedEntry_slot d i j
        have hEntry := congrArg Slot.entry hSlot
        have hAcquired := congrArg Slot.acquired hSlot
        rw [Daemon.slot_entry] at hEntry
        rw [Daemon.slot_acquired, decide_eq_true hj] at hAcquired
        rw [hEntry]
        split_ifs at hAcquired ⊢ with hij
        · simp [Slot.handTo]
        · exact hFree j (of_decide_eq_true hAcquired.symm)
    · rw [claimUnclaimedEntry_of_owned d i hUnclaimed]
      exact ⟨hExact, hFree⟩

/-- The members of a view have different addresses. -/
structure Daemon.Distinct (d : Daemon n) : Prop where
  ne_zero : ∀ k < d.numMembers, (d.members k).realIf ≠ 0#32
  injective : ∀ k < d.numMembers, ∀ k' < d.numMembers,
    (d.members k).realIf = (d.members k').realIf → k = k'

/-- Every counter is the number of entries that name its member. -/
def Daemon.CountsOwned (d : Daemon n) : Prop :=
  ∀ k < d.numMembers, d.counter k = ownedBy d.allocationTable (d.members k).realIf

theorem ownedBy_eq_sum (table : Fin n → Entry) (addr : Address) :
    (ownedBy table addr : Int) = ∑ j, if (table j).realIf = addr then 1 else 0 := by
  have hList (l : List (Fin n)) : ((l.filter fun j => (table j).realIf = addr).length : Int) =
      (l.map fun j => if (table j).realIf = addr then (1 : Int) else 0).sum := by
    induction l with
    | nil => rfl
    | cons j l ih =>
        by_cases h : (table j).realIf = addr
        · simp only [List.filter_cons, h, decide_true, ↓reduceIte, List.length_cons, List.map_cons,
            List.sum_cons, ← ih]
          push_cast
          ring
        · simpa [List.filter_cons, h] using ih
  rw [ownedBy, hList, Fin.sum_univ_def]

theorem ownedBy_eq_card (table : Fin n → Entry) (addr : Address) :
    ownedBy table addr = (Finset.univ.filter fun j => (table j).realIf = addr).card := by
  have hSum := ownedBy_eq_sum table addr
  rw [Finset.sum_boole] at hSum
  exact_mod_cast hSum

theorem ownedBy_of_iff {table : Fin n → Entry} {addr : Address} {s : Finset (Fin n)}
    (h : ∀ j, (table j).realIf = addr ↔ j ∈ s) : ownedBy table addr = s.card := by
  rw [ownedBy_eq_card]
  congr 1
  ext j
  simp [h j]

theorem ownedBy_update (table : Fin n → Entry) (j : Fin n) (e : Entry) (addr : Address) :
    (ownedBy (Function.update table j e) addr : Int) =
      ownedBy table addr - (if (table j).realIf = addr then 1 else 0) +
        if e.realIf = addr then 1 else 0 := by
  rw [ownedBy_eq_sum, ownedBy_eq_sum,
    sum_eq_of_change (fun i => if (table i).realIf = addr then 1 else 0) _ j, Function.update_self]
  intro i hi
  rw [Function.update_of_ne hi]

/-- By how much a counter exceeds the number of entries that name its member. -/
def Daemon.surplus (d : Daemon n) (k : Nat) : Int :=
  d.counter k - ownedBy d.allocationTable (d.members k).realIf

theorem countsOwned_iff_surplus (d : Daemon n) :
    d.CountsOwned ↔ ∀ k < d.numMembers, d.surplus k = 0 :=
  forall₂_congr fun _ _ => sub_eq_zero.symm

theorem claimUnclaimedEntry_table {d : Daemon n} {i : Fin n}
    (hUnclaimed : (d.allocationTable i).claimPriority = unclaimed) :
    (claimUnclaimedEntry d i).allocationTable =
      Function.update d.allocationTable i ⟨(d.members d.chosen).realIf, claimed⟩ := by
  rw [claimUnclaimedEntry_of_unclaimed d i hUnclaimed]
  unfold Daemon.takeChosen
  split_ifs <;> rfl

/-- An entry without owner is counted where it goes. -/
theorem claimUnclaimedEntry_surplus {d : Daemon n} (hMembers : 0 < d.numMembers)
    (hDistinct : d.Distinct) {i : Fin n}
    (hZero : (d.allocationTable i).claimPriority = unclaimed →
      (d.allocationTable i).realIf = 0#32) {k : Nat} (hk : k < d.numMembers) :
    (claimUnclaimedEntry d i).surplus k = d.surplus k := by
  by_cases hUnclaimed : (d.allocationTable i).claimPriority = unclaimed
  · have hChosen : d.chosen < d.numMembers := LeastLoaded.least_lt d.counter hMembers
    rw [Daemon.surplus, claimUnclaimedEntry_counter, if_pos hUnclaimed, claimUnclaimedEntry_realIf,
      claimUnclaimedEntry_table hUnclaimed, ownedBy_update, hZero hUnclaimed,
      if_neg (hDistinct.ne_zero k hk).symm, LeastLoaded.place]
    change Function.update d.counter d.chosen (d.counter d.chosen + 1) k - _ = _
    by_cases hkc : k = d.chosen
    · subst hkc
      simp [Daemon.surplus]
    · have hNe : (d.members d.chosen).realIf ≠ (d.members k).realIf :=
        fun hEq => hkc (hDistinct.injective _ hChosen _ hk hEq).symm
      simp [Daemon.surplus, hkc, hNe]
  · rw [claimUnclaimedEntry_of_owned d i hUnclaimed]

theorem claimUnclaimedEntry_numMembers (d : Daemon n) (i : Fin n) :
    (claimUnclaimedEntry d i).numMembers = d.numMembers :=
  congrArg Control.numMembers (claimUnclaimedEntry_control d i)

theorem Daemon.Distinct.claimUnclaimedEntry {d : Daemon n} (h : d.Distinct) (i : Fin n) :
    (claimUnclaimedEntry d i).Distinct where
  ne_zero k hk := by
    rw [claimUnclaimedEntry_numMembers] at hk
    rw [claimUnclaimedEntry_realIf]
    exact h.ne_zero k hk
  injective k hk k' hk' := by
    rw [claimUnclaimedEntry_numMembers] at hk hk'
    rw [claimUnclaimedEntry_realIf, claimUnclaimedEntry_realIf]
    exact h.injective k hk k' hk'

/-- `Claim_unclaimed` counts what it hands out: what the counters were off by stays. -/
theorem claimUnclaimed_surplus {d : Daemon n} (hMembers : 0 < d.numMembers)
    (hDistinct : d.Distinct)
    (hZero : ∀ j, (d.allocationTable j).claimPriority = unclaimed →
      (d.allocationTable j).realIf = 0#32) {k : Nat} (hk : k < d.numMembers) :
    (claimUnclaimed d).surplus k = d.surplus k := by
  have hLoop := Loops.foldl_invariant
    (fun d' : Daemon n => d'.numMembers = d.numMembers ∧ d'.Distinct ∧
      d'.surplus k = d.surplus k ∧
      ∀ j, (d'.allocationTable j).claimPriority = unclaimed → (d'.allocationTable j).realIf = 0#32)
    claimUnclaimedEntry (List.finRange n) ?_ d ⟨rfl, hDistinct, rfl, hZero⟩
  · exact hLoop.2.2.1
  · rintro d' i - ⟨hNum, hDistinct, hSurplus, hZero⟩
    rw [← hNum] at hMembers hk
    refine ⟨(claimUnclaimedEntry_numMembers d' i).trans hNum, hDistinct.claimUnclaimedEntry i,
      (claimUnclaimedEntry_surplus hMembers hDistinct (hZero i) hk).trans hSurplus, fun j hj => ?_⟩
    by_cases hUnclaimed : (d'.allocationTable i).claimPriority = unclaimed
    · rw [claimUnclaimedEntry_table hUnclaimed] at hj ⊢
      by_cases hji : j = i
      · subst hji
        simp at hj
      · rw [Function.update_of_ne hji] at hj ⊢
        exact hZero j hj
    · rw [claimUnclaimedEntry_of_owned d' i hUnclaimed] at hj ⊢
      exact hZero j hj

end Wackamole
