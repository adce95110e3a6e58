import Wackamole.Gather
import Wackamole.Slot
import Wackamole.Library.Loops

/-! `Handle_state` acts on every virtual interface as the bids of the message do:
the loops over claims and preferences refine `Slot.bid`, interface by interface. -/
namespace Wackamole

variable {n : Nat} {cfg : Config n}

namespace Daemon

/-- What a daemon knows of interface `j`. -/
def slot (d : Daemon n) (j : Fin n) : Slot :=
  ⟨d.allocationTable j, d.oldTable j, decide (j ∈ d.acquired)⟩

@[simp] theorem slot_entry (d : Daemon n) (j : Fin n) : (d.slot j).entry = d.allocationTable j :=
  rfl

@[simp] theorem slot_old (d : Daemon n) (j : Fin n) : (d.slot j).old = d.oldTable j := rfl

@[simp] theorem slot_acquired (d : Daemon n) (j : Fin n) :
    (d.slot j).acquired = decide (j ∈ d.acquired) := rfl

theorem slot_setAllocation (d : Daemon n) (i j : Fin n) (e : Entry) :
    (d.setAllocation i e).slot j = if j = i then { d.slot j with entry := e } else d.slot j := by
  by_cases h : j = i
  · subst h
    simp only [slot, setAllocation, Function.update_self, ↓reduceIte]
    rfl
  · simp only [slot, setAllocation, h, ↓reduceIte, ne_eq, not_false_eq_true, Function.update_of_ne]
    rfl

theorem slot_setOld (d : Daemon n) (i j : Fin n) (e : Entry) :
    (d.setOld i e).slot j = if j = i then { d.slot j with old := e } else d.slot j := by
  by_cases h : j = i
  · subst h
    simp only [slot, setOld, Function.update_self, ↓reduceIte]
    rfl
  · simp only [slot, setOld, h, ↓reduceIte, ne_eq, not_false_eq_true, Function.update_of_ne]
    rfl

theorem slot_release (d : Daemon n) (i j : Fin n) :
    (d.release i).slot j = if j = i then { d.slot j with acquired := false } else d.slot j := by
  by_cases h : j = i
  · subst h
    simp [slot, release]
  · simp [slot, release, h]

theorem slot_acquire (d : Daemon n) (i j : Fin n) :
    (d.acquire i).slot j = if j = i then { d.slot j with acquired := true } else d.slot j := by
  by_cases h : j = i
  · subst h
    simp [slot, acquire]
  · simp [slot, acquire, h]

@[simp] theorem slot_debit (d : Daemon n) (k : Nat) (j : Fin n) : (d.debit k).slot j = d.slot j :=
  rfl

@[simp] theorem slot_debitOwner (d : Daemon n) (addr : Address) (j : Fin n) :
    (d.debitOwner addr).slot j = d.slot j := rfl

end Daemon

theorem findVE_eq_some (hVip : Function.Injective cfg.pseudoIf) {addr : Address} {j : Fin n} :
    findVE cfg addr = some j ↔ cfg.pseudoIf j = addr := by
  unfold findVE
  constructor
  · intro h
    simpa using List.find?_some h
  · rintro rfl
    obtain ⟨i, hi⟩ : ∃ i, (List.finRange n).find? (fun i => cfg.pseudoIf i = cfg.pseudoIf j) =
        some i := by
      rw [← Option.isSome_iff_exists, List.find?_isSome]
      exact ⟨j, List.mem_finRange j, by simp⟩
    have hEq : cfg.pseudoIf i = cfg.pseudoIf j := by simpa using List.find?_some hi
    rw [hi, hVip hEq]

theorem pseudoIf_of_findVE {addr : Address} {j : Fin n} (h : findVE cfg addr = some j) :
    cfg.pseudoIf j = addr := by
  simpa using List.find?_some h

theorem pseudoIf_ne_of_findVE_none {addr : Address} (h : findVE cfg addr = none) (j : Fin n) :
    cfg.pseudoIf j ≠ addr := by
  simpa using List.find?_eq_none.mp h j (List.mem_finRange j)

theorem releaseAddress_of_findVE {addr : Address} {j : Fin n} (h : findVE cfg addr = some j)
    (d : Daemon n) : releaseAddress cfg addr d = d.release j := by
  simp [releaseAddress, h]

variable (cfg) in
/-- What `force_reup` leaves alone, it leaves alone in every pass. -/
theorem forceReup_unchanged {Read : Type*} (read : Daemon n → Read)
    (h : ∀ (d : Daemon n) i, read (d.reup i) = read d) (d : Daemon n) :
    read (forceReup cfg d) = read d := by
  apply Loops.foldl_unchanged
  intro s a
  split_ifs
  · exact h s a
  · rfl

variable (cfg) in
theorem handlePostRelease_unchanged {Read : Type*} (read : Daemon n → Read)
    (h : ∀ (d : Daemon n) i, read (d.reup i) = read d) (d : Daemon n) :
    read (handlePostRelease cfg d) = read d := by
  unfold handlePostRelease
  split_ifs
  · exact forceReup_unchanged cfg read h d
  · rfl

@[simp] theorem handlePostRelease_slot (d : Daemon n) (j : Fin n) :
    (handlePostRelease cfg d).slot j = d.slot j :=
  handlePostRelease_unchanged cfg (fun d => d.slot j) (fun _ _ => rfl) d

/-- The bids for interface `j` in one STATE message, claims before preferences. -/
def bidsOn (vip : Fin n → Address) (j : Fin n) (m : StateMess) : List Bid :=
  (m.claims.filter fun c => vip j = c.1).map (fun c => .claim m.realAddress c.2) ++
  (m.prefers.filter fun addr => vip j = addr).map fun _ => .preference m.realAddress

/-- The bids for interface `j` in a sequence of STATE messages. -/
def bidsIn (vip : Fin n → Address) (j : Fin n) (ms : List StateMess) : List Bid :=
  ms.flatMap (bidsOn vip j)

@[simp] theorem bidsIn_append (vip : Fin n → Address) (j : Fin n) (ms ms' : List StateMess) :
    bidsIn vip j (ms ++ ms') = bidsIn vip j ms ++ bidsIn vip j ms' := List.flatMap_append

/-- One claim is one bid for the interface it names. -/
theorem ripClaim_slot (hVip : Function.Injective cfg.pseudoIf) (m : StateMess)
    (s : Daemon n × Nat) (c : Address × Int) (j : Fin n) :
    (ripClaim cfg m s c).1.slot j =
      if cfg.pseudoIf j = c.1 then (s.1.slot j).bid cfg.realIf (.claim m.realAddress c.2)
      else s.1.slot j := by
  obtain ⟨d, r⟩ := s
  unfold ripClaim
  cases hFind : findVE cfg c.1 with
  | none => simp [pseudoIf_ne_of_findVE_none hFind j]
  | some i =>
      have hAddr := pseudoIf_of_findVE hFind
      by_cases hj : j = i
      · subst hj
        simp only [hAddr, ↓reduceIte, Slot.bid, releaseAddress_of_findVE hFind]
        split_ifs <;>
          simp_all [Daemon.slot_setAllocation, Daemon.slot_setOld, Daemon.slot_release]
      · have hNe : cfg.pseudoIf j ≠ c.1 := by
          rw [← hAddr]
          exact fun hEq => hj (hVip hEq)
        simp only [hNe, ↓reduceIte, releaseAddress_of_findVE hFind]
        split_ifs <;>
          simp [Daemon.slot_setAllocation, Daemon.slot_setOld, Daemon.slot_release, hj]

theorem ripPrefer_slot (hVip : Function.Injective cfg.pseudoIf) (m : StateMess) (d : Daemon n)
    (addr : Address) (j : Fin n) :
    (ripPrefer cfg m d addr).slot j =
      if cfg.pseudoIf j = addr then (d.slot j).bid cfg.realIf (.preference m.realAddress)
      else d.slot j := by
  unfold ripPrefer
  cases hFind : findVE cfg addr with
  | none => simp [pseudoIf_ne_of_findVE_none hFind j]
  | some i =>
      have hAddr := pseudoIf_of_findVE hFind
      by_cases hj : j = i
      · subst hj
        by_cases hPriority : (d.allocationTable j).claimPriority < prefer
        · simp only [hAddr, hPriority, ↓reduceIte, Daemon.slot_setAllocation, Slot.bid, Entry.bid,
            Daemon.slot_entry]
        · simp only [hAddr, hPriority, ↓reduceIte, Slot.bid, Entry.bid, Daemon.slot_entry]
          rfl
      · have hNe : cfg.pseudoIf j ≠ addr := by
          rw [← hAddr]
          exact fun hEq => hj (hVip hEq)
        simp only [hNe, ↓reduceIte]
        split_ifs <;> simp [Daemon.slot_setAllocation, hj]

theorem foldl_ripClaim_slot (hVip : Function.Injective cfg.pseudoIf) (m : StateMess)
    (claims : List (Address × Int)) (s : Daemon n × Nat) (j : Fin n) :
    (claims.foldl (ripClaim cfg m) s).1.slot j =
      ((claims.filter fun c => cfg.pseudoIf j = c.1).map fun c =>
        Bid.claim m.realAddress c.2).foldl (Slot.bid cfg.realIf) (s.1.slot j) := by
  rw [List.foldl_map, List.foldl_filter]
  apply Loops.foldl_component (fun s : Daemon n × Nat => s.1.slot j)
  intro s c
  simp [ripClaim_slot hVip]

theorem foldl_ripPrefer_slot (hVip : Function.Injective cfg.pseudoIf) (m : StateMess)
    (prefers : List Address) (d : Daemon n) (j : Fin n) :
    (prefers.foldl (ripPrefer cfg m) d).slot j =
      ((prefers.filter fun addr => cfg.pseudoIf j = addr).map fun _ =>
        Bid.preference m.realAddress).foldl (Slot.bid cfg.realIf) (d.slot j) := by
  rw [List.foldl_map, List.foldl_filter]
  apply Loops.foldl_component (fun d : Daemon n => d.slot j)
  intro d addr
  simp [ripPrefer_slot hVip]

/-- A STATE message is, for every interface, the sequence of its bids there. -/
theorem ripState_slot (hVip : Function.Injective cfg.pseudoIf) (m : StateMess) (d : Daemon n)
    (j : Fin n) :
    (ripState cfg m d).slot j =
      (bidsOn cfg.pseudoIf j m).foldl (Slot.bid cfg.realIf) (d.slot j) := by
  unfold ripState bidsOn
  simp only [foldl_ripPrefer_slot hVip, List.foldl_append]
  congr 1
  have hClaims := foldl_ripClaim_slot hVip m m.claims (enterMember m d, 0) j
  split_ifs with h
  · rw [handlePostRelease_slot, hClaims]
    rfl
  · rw [hClaims]
    rfl

/-- The fields that the claims and preferences of a message leave alone. -/
structure Control where
  state : Automaton
  oldMaturity : Bool
  maturity : Bool
  numMembers : Nat
  myIndex : Nat
  gid : GroupId
  numPendingStates : Int
  events : Finset Timer

def Daemon.control (d : Daemon n) : Control :=
  ⟨d.state, d.oldMaturity, d.maturity, d.numMembers, d.myIndex, d.gid, d.numPendingStates, d.events⟩

theorem ripClaim_control (m : StateMess) (s : Daemon n × Nat) (c : Address × Int) :
    (ripClaim cfg m s c).1.control = s.1.control := by
  obtain ⟨d, r⟩ := s
  unfold ripClaim
  cases hFind : findVE cfg c.1 with
  | none => rfl
  | some j =>
      simp only [releaseAddress_of_findVE hFind]
      split_ifs <;> rfl

theorem ripPrefer_control (m : StateMess) (d : Daemon n) (addr : Address) :
    (ripPrefer cfg m d addr).control = d.control := by
  unfold ripPrefer
  cases findVE cfg addr with
  | none => rfl
  | some j =>
      simp only
      split_ifs <;> rfl

variable (cfg) in
theorem ripState_control (m : StateMess) (d : Daemon n) :
    (ripState cfg m d).control = d.control := by
  have hClaims := Loops.foldl_unchanged (fun s : Daemon n × Nat => s.1.control) (ripClaim cfg m)
    (ripClaim_control m) m.claims (enterMember m d, 0)
  unfold ripState
  rw [Loops.foldl_unchanged Daemon.control (ripPrefer cfg m) (ripPrefer_control m)]
  split_ifs with h
  · exact (handlePostRelease_unchanged cfg Daemon.control (fun _ _ => rfl) _).trans hClaims
  · exact hClaims

end Wackamole
