import Wackamole.NotifierRestart
import Mathlib.Data.List.OfFn

/-! The addresses of a virtual interface, as the four parts of the program that walk over
them see them. -/
namespace Wackamole

/-- The interfaces of an `entry`, and what memory holds behind `extra_ifs`. -/
structure EntryIfs where
  pseudoIf : Interface
  extraIfs : Fin maxDepIf → Interface
  beyond : Nat → Interface

/-- An element that a loop reads: the head, or `extra_ifs[n]`. -/
inductive Element where
  | pseudoIf
  | extraIf (n : Nat)
  deriving DecidableEq

def Element.Inside : Element → Prop
  | pseudoIf => True
  | extraIf n => n < maxDepIf

/-- The interfaces that a loop works on, and the elements that it reads. -/
structure Visit where
  used : List Interface
  read : List Element
  deriving DecidableEq

namespace EntryIfs

variable (e : EntryIfs)

/-- `extra_ifs[n]`, in the array or behind it. -/
def extraIf (n : Nat) : Interface :=
  if h : n < maxDepIf then e.extraIfs ⟨n, h⟩ else e.beyond (n - maxDepIf)

def fetch : Element → Interface
  | .pseudoIf => e.pseudoIf
  | .extraIf n => e.extraIf n

/-- The loop that `Acquire` and `Release` share: `nif` is the element of this pass, and `n`
the index of the next one. -/
def upDownLoop (nif : Element) (n : Nat) : Visit :=
  if n < maxDepIf then
    if (e.fetch nif).ipaddr = 0#32 then ⟨[], [nif]⟩
    else
      let rest := upDownLoop (.extraIf n) (n + 1)
      ⟨e.fetch nif :: rest.used, nif :: rest.read⟩
  else ⟨[], []⟩
termination_by maxDepIf - n
decreasing_by exact Nat.sub_succ_lt_self _ _ (by assumption)

/-- The loop over `extra_ifs` that `arp_spoof_notifier` and `perl_handler` have with
different bounds. -/
def extraLoop (bound i : Nat) : Visit :=
  if i < bound then
    if (e.extraIf i).ipaddr = 0#32 then ⟨[], [.extraIf i]⟩
    else
      let rest := extraLoop bound (i + 1)
      ⟨e.extraIf i :: rest.used, .extraIf i :: rest.read⟩
  else ⟨[], []⟩
termination_by bound - i

/-- The addresses that `Acquire` brings up. -/
def acquire : Visit := e.upDownLoop .pseudoIf 0

/-- The addresses that `Release` brings down. -/
def release : Visit := e.upDownLoop .pseudoIf 0

/-- The addresses that `arp_spoof_notifier` appends to `lVIF`. -/
def arpSpoofNotifier : Visit :=
  let rest := e.extraLoop maxPseudo 0
  ⟨([e.pseudoIf].filter fun vif => vif.ipaddr ≠ 0#32) ++ rest.used, .pseudoIf :: rest.read⟩

/-- The addresses that `perl_handler` hands to a hook. -/
def perlHandler : Visit :=
  let rest := e.extraLoop maxDepIf 0
  ⟨e.pseudoIf :: rest.used, .pseudoIf :: rest.read⟩

/-- The addresses that an entry has: the head, and `extra_ifs` up to the first zero address
or the end of the array. -/
def addresses : List Interface :=
  e.pseudoIf :: (List.ofFn e.extraIfs).takeWhile fun vif => vif.ipaddr ≠ 0#32

/-- A loop that visits the addresses of the entry, and nothing outside it. -/
def Covers (v : Visit) : Prop := v.used = e.addresses ∧ ∀ element ∈ v.read, element.Inside

def Agree : Prop :=
  e.Covers e.acquire ∧ e.Covers e.release ∧ e.Covers e.arpSpoofNotifier ∧ e.Covers e.perlHandler

variable {e}

theorem upDownLoop_extraIf (i : Nat) :
    e.upDownLoop (.extraIf i) (i + 1) = e.extraLoop (maxDepIf - 1) i := by
  induction hLeft : maxDepIf - i generalizing i with
  | zero =>
      rw [upDownLoop, if_neg (by omega), extraLoop, if_neg (by omega)]
  | succ left ih =>
      rw [upDownLoop, extraLoop]
      by_cases hBound : i + 1 < maxDepIf
      · have hShort : i < maxDepIf - 1 := by omega
        rw [if_pos hBound, if_pos hShort, ih (i + 1) (by omega)]
        rfl
      · have hShort : ¬ i < maxDepIf - 1 := by omega
        rw [if_neg hBound, if_neg hShort]

/-- `Acquire` and `Release` reach one address less than the array has room for. -/
theorem acquire_eq (hHead : e.pseudoIf.ipaddr ≠ 0#32) : e.acquire =
    ⟨e.pseudoIf :: (e.extraLoop (maxDepIf - 1) 0).used,
      .pseudoIf :: (e.extraLoop (maxDepIf - 1) 0).read⟩ := by
  rw [acquire, upDownLoop, if_pos (by decide), fetch, if_neg hHead, upDownLoop_extraIf]

theorem arpSpoofNotifier_eq (hHead : e.pseudoIf.ipaddr ≠ 0#32) : e.arpSpoofNotifier =
    ⟨e.pseudoIf :: (e.extraLoop maxPseudo 0).used,
      .pseudoIf :: (e.extraLoop maxPseudo 0).read⟩ := by
  simp [arpSpoofNotifier, hHead]

/-- The elements before `k` are used and read, one after the other. -/
theorem extraLoop_skip {bound i k : Nat} (hik : i ≤ k) (hkb : k ≤ bound)
    (hFull : ∀ j, i ≤ j → j < k → (e.extraIf j).ipaddr ≠ 0#32) : e.extraLoop bound i =
      ⟨(List.range' i (k - i)).map e.extraIf ++ (e.extraLoop bound k).used,
        (List.range' i (k - i)).map .extraIf ++ (e.extraLoop bound k).read⟩ := by
  induction hLeft : k - i generalizing i with
  | zero =>
      obtain rfl : i = k := by omega
      rfl
  | succ left ih =>
      rw [extraLoop, if_pos (by omega), if_neg (hFull i (Nat.le_refl i) (by omega)),
        ih (i := i + 1) (by omega) (fun j hj => hFull j (by omega)) (by omega)]
      rfl

theorem extraIf_fin (k : Fin maxDepIf) : e.extraIf k = e.extraIfs k := dif_pos k.isLt

theorem ofFn_extraIfs : List.ofFn e.extraIfs = (List.range maxDepIf).map e.extraIf := by
  apply List.ext_getElem
  · rw [List.length_ofFn, List.length_map, List.length_range]
  · intro k hk _
    have hBound : k < maxDepIf := by rwa [List.length_ofFn] at hk
    rw [List.getElem_ofFn, List.getElem_map, List.getElem_range, extraIf, dif_pos hBound]

section Closed

variable {k : Nat} (hZero : (e.extraIf k).ipaddr = 0#32)
  (hBefore : ∀ j, j < k → (e.extraIf j).ipaddr ≠ 0#32)

include hZero hBefore

/-- The loops stop at the first zero address, or just before it at their bound. -/
theorem extraLoop_closed {bound : Nat} (hk : k < maxDepIf) (hBound : k ≤ bound) :
    (e.extraLoop bound 0).used = (List.range k).map e.extraIf ∧
      ∀ element ∈ (e.extraLoop bound 0).read, element.Inside := by
  have hStop : (e.extraLoop bound k).used = [] ∧ ∀ element ∈ (e.extraLoop bound k).read,
      element.Inside := by
    rw [extraLoop]
    split_ifs
    · refine ⟨rfl, fun element hMem => ?_⟩
      rw [List.mem_singleton.mp hMem]
      exact hk
    · exact ⟨rfl, fun element hMem => absurd hMem List.not_mem_nil⟩
  rw [extraLoop_skip (Nat.zero_le k) hBound fun j _ => hBefore j, hStop.1, Nat.sub_zero,
    ← List.range_eq_range', List.append_nil]
  refine ⟨rfl, fun element hMem => ?_⟩
  rcases List.mem_append.mp hMem with hSkipped | hLast
  · obtain ⟨j, hj, rfl⟩ := List.mem_map.mp hSkipped
    exact (List.mem_range.mp hj).trans hk
  · exact hStop.2 element hLast

theorem addresses_closed (hk : k < maxDepIf) :
    e.addresses = e.pseudoIf :: (List.range k).map e.extraIf := by
  obtain ⟨rest, hRest⟩ : ∃ rest, maxDepIf = k + (rest + 1) := ⟨maxDepIf - k - 1, by omega⟩
  rw [addresses, ofFn_extraIfs, hRest, List.range_add, List.range_succ_eq_map, List.map_append,
    List.takeWhile_append_of_pos, List.map_cons, List.map_cons, List.takeWhile_cons_of_neg,
    List.append_nil]
  · simpa using hZero
  · intro vif hMem
    obtain ⟨j, hj, rfl⟩ := List.mem_map.mp hMem
    exact decide_eq_true (hBefore j (List.mem_range.mp hj))

theorem agree_closed (hHead : e.pseudoIf.ipaddr ≠ 0#32) (hk : k < maxDepIf) : e.Agree := by
  have hCovers {bound : Nat} (hBound : k ≤ bound) : e.Covers
      ⟨e.pseudoIf :: (e.extraLoop bound 0).used, .pseudoIf :: (e.extraLoop bound 0).read⟩ := by
    obtain ⟨hUsed, hRead⟩ := extraLoop_closed hZero hBefore hk hBound
    refine ⟨by rw [hUsed, addresses_closed hZero hBefore hk], fun element hMem => ?_⟩
    rcases List.mem_cons.mp hMem with rfl | hRest
    · trivial
    · exact hRead element hRest
  have hAcquire : e.Covers e.acquire := by
    rw [acquire_eq hHead]
    exact hCovers (by omega)
  refine ⟨hAcquire, hAcquire, ?_, hCovers hk.le⟩
  rw [arpSpoofNotifier_eq hHead]
  exact hCovers (hk.le.trans (by decide))

end Closed

/-- In a filled array `Acquire` misses the last address. -/
theorem not_covers_acquire (hHead : e.pseudoIf.ipaddr ≠ 0#32)
    (hFull : ∀ k, k < maxDepIf → (e.extraIf k).ipaddr ≠ 0#32) : ¬ e.Covers e.acquire := by
  rintro ⟨hUsed, _⟩
  have hAll : ((List.range maxDepIf).map e.extraIf).takeWhile
      (fun vif => decide (vif.ipaddr ≠ 0#32)) = (List.range maxDepIf).map e.extraIf := by
    apply List.takeWhile_eq_self_iff.mpr
    intro vif hMem
    obtain ⟨k, hk, rfl⟩ := List.mem_map.mp hMem
    exact decide_eq_true (hFull k (List.mem_range.mp hk))
  have hEnd : (e.extraLoop (maxDepIf - 1) (maxDepIf - 1)).used = [] := by
    rw [extraLoop, if_neg (Nat.lt_irrefl _)]
  rw [acquire_eq hHead, extraLoop_skip (Nat.zero_le _) (Nat.le_refl _)
    fun j _ hj => hFull j (by omega), addresses, ofFn_extraIfs, hAll, hEnd] at hUsed
  have hLength := congrArg List.length hUsed
  simp at hLength

/-- The parts of the program agree on the addresses of a virtual interface exactly if its
array of dependent addresses is not filled. -/
theorem agree_iff (hHead : e.pseudoIf.ipaddr ≠ 0#32) :
    e.Agree ↔ ∃ k, (e.extraIfs k).ipaddr = 0#32 := by
  constructor
  · intro h
    by_contra hNone
    refine not_covers_acquire hHead (fun k hk hZero => hNone ⟨⟨k, hk⟩, ?_⟩) h.1
    rwa [← extraIf_fin]
  · rintro ⟨k, hk⟩
    have hSome : ∃ j, (e.extraIf j).ipaddr = 0#32 := ⟨k, by rwa [extraIf_fin]⟩
    have hFirst : Nat.find hSome ≤ k := Nat.find_min' hSome (by rwa [extraIf_fin])
    exact agree_closed (Nat.find_spec hSome) (fun j hj => Nat.find_min hSome hj) hHead
      (hFirst.trans_lt k.isLt)

/-- The interface 10.0.0.1 with `m` dependent addresses. -/
def grouped (m : Nat) : EntryIfs where
  pseudoIf := ⟨['e', 't', 'h', '0'], 0x0100000a#32, 0xffffffff#32, 0x00ffffff#32⟩
  extraIfs k :=
    if k < m then ⟨['e', 't', 'h', '1'], 0x0100010a#32 + (BitVec.ofNat 32 k <<< 24), 0xffffffff#32,
      0x00ffffff#32⟩
    else ⟨[], 0#32, 0#32, 0#32⟩
  beyond _ := ⟨[], 0#32, 0#32, 0#32⟩

theorem agree_grouped : (grouped 29).Agree := (agree_iff (by decide)).mpr ⟨29, by decide⟩

theorem not_agree_grouped :
    (grouped maxDepIf).pseudoIf.ipaddr ≠ 0#32 ∧ ¬ (grouped maxDepIf).Agree :=
  ⟨by decide, fun h => not_covers_acquire (by decide) (by decide) h.1⟩

theorem extraLoop_used (bound i : Nat) : (e.extraLoop bound i).used =
    ((List.range' i (bound - i)).map e.extraIf).takeWhile fun vif => vif.ipaddr ≠ 0#32 := by
  induction hLeft : bound - i generalizing i with
  | zero =>
      rw [extraLoop, if_neg (by omega)]
      rfl
  | succ left ih =>
      rw [extraLoop, if_pos (by omega), List.range'_succ, List.map_cons]
      split_ifs with hZero
      · rw [List.takeWhile_cons_of_neg (by simpa using hZero)]
      · rw [List.takeWhile_cons_of_pos (by simpa using hZero), ← ih (i + 1) (by omega)]

/-- A first pass of the notifier appends what its loop uses. -/
theorem lVIF_prepare {n : Nat} {cfg : SpoofConfig n} {ptr : EntryPtr n}
    (hHead : e.pseudoIf = cfg.pseudoIf (Spoofer.entryOf ptr))
    (hExtra : List.ofFn e.extraIfs = cfg.extraIfs (Spoofer.entryOf ptr))
    {beyond : Fin n → Nat → Interface} (hBeyond : e.beyond = beyond (Spoofer.entryOf ptr))
    (d : SpoofData) : (Spoofer.prepare (Spoofer.readable cfg beyond) false ptr d).lVIF =
      d.lVIF ++ e.arpSpoofNotifier.used := by
  have hSlots : (List.range maxPseudo).map e.extraIf =
      cfg.extraIfs (Spoofer.entryOf ptr) ++
        (List.range (maxPseudo - (cfg.extraIfs (Spoofer.entryOf ptr)).length)).map
          (beyond (Spoofer.entryOf ptr)) := by
    have hBehind : (List.range (maxPseudo - maxDepIf)).map (e.extraIf ∘ fun k => maxDepIf + k) =
        (List.range (maxPseudo - maxDepIf)).map e.beyond := by
      refine List.map_congr_left fun k _ => ?_
      rw [Function.comp_apply, extraIf, dif_neg (by omega), Nat.add_sub_cancel_left]
    rw [← hExtra, ofFn_extraIfs, List.length_map, List.length_range, ← hBeyond, ← hBehind,
      ← List.map_map, ← List.map_append, ← List.range_add]
    rfl
  rw [arpSpoofNotifier, extraLoop_used, Nat.sub_zero, ← List.range_eq_range', hSlots, hHead,
    ← List.append_assoc]
  rfl

end EntryIfs

end Wackamole
