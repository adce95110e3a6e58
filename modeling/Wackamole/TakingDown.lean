import Wackamole.AliasLabels
import Mathlib.Data.List.OfFn

/-! `if_down` of `ife-sockpacket.c`: its search runs over the whole local array, of which
`if_list_ips` has filled the first `ic` elements only. -/
namespace Wackamole

/-- What the kernel answers for the interface of a name: whether `SIOCGIFFLAGS` and
`SIOCSIFFLAGS` succeed. It knows no names that do not fit `ifr_name`. -/
structure Kernel where
  getFlags : List Char → Bool
  setFlags : List Char → Bool
  short : ∀ name, getFlags name = true → name.length < ifNamSiz

/-- How `if_down` ends. -/
inductive IfDown where
  | errorIllegalInterface
  | errorSetRunning
  | errorNoSuchInterface
  /-- This interface has been taken down. -/
  | down (vif : Interface)
  deriving DecidableEq

/-- The requested name, or one of its aliases, when a name is requested. -/
def nameMatches (areq : Interface) (name : List Char) : Prop :=
  areq.ifname = [] ∨ nameKind areq.ifname name ≠ .other

/-- `iname && ipaddr`. -/
def ifMatches (areq vif : Interface) : Prop :=
  nameMatches areq vif.ifname ∧ (areq.ipaddr = 0#32 ∨ areq.ipaddr = vif.ipaddr)

instance (areq : Interface) (name : List Char) : Decidable (nameMatches areq name) :=
  inferInstanceAs (Decidable (_ ∨ _))

instance (areq vif : Interface) : Decidable (ifMatches areq vif) :=
  inferInstanceAs (Decidable (_ ∧ _))

def ifDownLoop (kernel : Kernel) (areq : Interface) : List Interface → IfDown
  | [] => .errorNoSuchInterface
  | vif :: ifs =>
    if ifMatches areq vif then
      if kernel.getFlags vif.ifname then
        if kernel.setFlags vif.ifname then .down vif else .errorSetRunning
      else ifDownLoop kernel areq ifs
    else ifDownLoop kernel areq ifs

/-- An element of the array that has not been filled. Its name ends within `IFNAMSIZ` characters;
a longer one would overflow `ifr_name`, into which the loop copies a name that matches. -/
abbrev Unfilled := { vif : Interface // vif.ifname.length < ifNamSiz }

/-- `if_down`, with what the rest of its array holds. -/
def ifDown (kernel : Kernel) (areq : Interface) (listing : Listing)
    (stale : Fin (1024 - listing.entries.length) → Unfilled) : IfDown :=
  if areq.ifname = [] ∧ areq.ipaddr = 0#32 then .errorIllegalInterface
  else ifDownLoop kernel areq (listing.entries ++ (List.ofFn stale).map Subtype.val)

/-- The outcome depends on the listed interfaces only, and only one of these that is
requested is taken down. -/
def TouchesListed (kernel : Kernel) (areq : Interface) (listing : Listing) : Prop :=
  (∀ stale stale', ifDown kernel areq listing stale = ifDown kernel areq listing stale') ∧
    ∀ stale vif, ifDown kernel areq listing stale = .down vif →
      vif ∈ listing.entries ∧ (areq.ipaddr ≠ 0#32 → vif.ipaddr = areq.ipaddr) ∧
        (areq.ifname ≠ [] → vif.ifname = areq.ifname ∨
          ∃ suffix, vif.ifname = areq.ifname ++ ':' :: suffix)

/-- Where the loop ends: the first interface that matches and that the kernel knows. -/
def stops (kernel : Kernel) (areq vif : Interface) : Bool :=
  ifMatches areq vif && kernel.getFlags vif.ifname

def finish (kernel : Kernel) : Option Interface → IfDown
  | none => .errorNoSuchInterface
  | some vif => if kernel.setFlags vif.ifname then .down vif else .errorSetRunning

section Loop

variable {kernel : Kernel} {areq : Interface} {listing : Listing}

theorem stops_iff {vif : Interface} : stops kernel areq vif = true ↔
    ifMatches areq vif ∧ kernel.getFlags vif.ifname = true := by
  rw [stops, Bool.and_eq_true, decide_eq_true_eq]

theorem ifDownLoop_eq (ifs : List Interface) :
    ifDownLoop kernel areq ifs = finish kernel (ifs.find? (stops kernel areq)) := by
  induction ifs with
  | nil => rfl
  | cons vif ifs ih =>
      rw [ifDownLoop, List.find?_cons]
      by_cases hMatch : ifMatches areq vif
      · cases hKnown : kernel.getFlags vif.ifname with
        | true =>
            have hStop : stops kernel areq vif = true := by simp [stops, hMatch, hKnown]
            simp only [if_pos hMatch, hStop, if_true]
            rfl
        | false =>
            have hStop : stops kernel areq vif = false := by simp [stops, hKnown]
            simp only [if_pos hMatch, hStop, ih]
            rfl
      · have hStop : stops kernel areq vif = false := by simp [stops, hMatch]
        simp only [if_neg hMatch, hStop, ih]

theorem finish_eq_down {found : Option Interface} {vif : Interface}
    (h : finish kernel found = .down vif) : found = some vif := by
  cases found with
  | none => cases h
  | some vif' =>
      rw [finish] at h
      split_ifs at h
      cases h
      rfl

theorem finish_some_ne (vif : Interface) : finish kernel (some vif) ≠ .errorNoSuchInterface := by
  rw [finish]
  split_ifs <;> simp

/-- The loop over listed and other interfaces ends at the first one of the two searches that
ends. -/
theorem ifDown_eq (hRequest : ¬ (areq.ifname = [] ∧ areq.ipaddr = 0#32))
    (stale : Fin (1024 - listing.entries.length) → Unfilled) :
    ifDown kernel areq listing stale = finish kernel
      ((listing.entries.find? (stops kernel areq)).or
        (((List.ofFn stale).map Subtype.val).find? (stops kernel areq))) := by
  rw [ifDown, if_neg hRequest, ifDownLoop_eq, List.find?_append]

/-- A matching interface is a requested one. -/
theorem ifMatches_requested {vif : Interface} (h : ifMatches areq vif) :
    (areq.ipaddr ≠ 0#32 → vif.ipaddr = areq.ipaddr) ∧
      (areq.ifname ≠ [] → vif.ifname = areq.ifname ∨
        ∃ suffix, vif.ifname = areq.ifname ++ ':' :: suffix) := by
  obtain ⟨hName, hAddr⟩ := h
  constructor
  · intro hAsked
    exact (hAddr.resolve_left hAsked).symm
  · intro hAsked
    have hKind := hName.resolve_left hAsked
    cases hCase : nameKind areq.ifname vif.ifname with
    | base => exact .inl (nameKind_eq_base.mp hCase)
    | numbered number =>
        obtain ⟨suffix, hEq, _⟩ := nameKind_eq_numbered.mp hCase
        exact .inr ⟨suffix, hEq⟩
    | other => exact absurd hCase hKind

/-- It is enough that the rest of the array is never reached, or never stops the loop. -/
theorem touchesListed_of_eq (h : ∀ stale, ifDown kernel areq listing stale =
    finish kernel (listing.entries.find? (stops kernel areq))) :
    TouchesListed kernel areq listing := by
  refine ⟨fun stale stale' => (h stale).trans (h stale').symm, fun stale vif hDown => ?_⟩
  rw [h stale] at hDown
  have hFound := finish_eq_down hDown
  have hStops := stops_iff.mp (List.find?_some hFound)
  exact ⟨List.mem_of_find?_eq_some hFound, ifMatches_requested hStops.1⟩

/-- An element that has been zeroed. -/
def Unfilled.zero : Unfilled := ⟨⟨[], 0#32, 0#32, 0#32⟩, by decide⟩

/-- An array that has been zeroed does not stop the loop. -/
theorem not_stops_zero (hRequest : ¬ (areq.ifname = [] ∧ areq.ipaddr = 0#32)) :
    stops kernel areq Unfilled.zero.val = false := by
  have hMatch : ¬ ifMatches areq Unfilled.zero.val := by
    rintro ⟨hName, hAddr⟩
    have hZero : areq.ipaddr = 0#32 := hAddr.elim id id
    rcases hName with hEmpty | hKind
    · exact hRequest ⟨hEmpty, hZero⟩
    · refine hKind ?_
      rw [nameKind, if_neg]
      intro hPrefix
      exact hRequest ⟨List.prefix_nil.mp hPrefix, hZero⟩
  rw [stops, decide_eq_false hMatch, Bool.false_and]

theorem find?_const (vif : Unfilled) {m : Nat} :
    ((List.ofFn fun _ : Fin (m + 1) => vif).map Subtype.val).find? (stops kernel areq) =
      if stops kernel areq vif.val then some vif.val else none := by
  rw [List.ofFn_const, List.map_replicate, List.find?_replicate, if_neg (Nat.succ_ne_zero m)]

/-- A request for nothing is refused. -/
theorem touchesListed_illegal (hRequest : areq.ifname = [] ∧ areq.ipaddr = 0#32) :
    TouchesListed kernel areq listing := by
  have hIllegal (stale) : ifDown kernel areq listing stale = .errorIllegalInterface :=
    if_pos hRequest
  refine ⟨fun stale stale' => (hIllegal stale).trans (hIllegal stale').symm, ?_⟩
  intro stale vif hDown
  rw [hIllegal stale] at hDown
  cases hDown

section Request

variable (hRequest : ¬ (areq.ifname = [] ∧ areq.ipaddr = 0#32))

include hRequest

theorem touchesListed_full (hFull : listing.entries.length = 1024) :
    TouchesListed kernel areq listing := by
  apply touchesListed_of_eq
  intro stale
  have hEmpty : List.ofFn stale = [] := by
    rw [← List.length_eq_zero_iff, List.length_ofFn, hFull, Nat.sub_self]
  rw [ifDown_eq hRequest, hEmpty, List.map_nil, List.find?_nil, Option.or_none]

theorem touchesListed_found {vif : Interface} (hMem : vif ∈ listing.entries)
    (hStops : stops kernel areq vif = true) : TouchesListed kernel areq listing := by
  apply touchesListed_of_eq
  intro stale
  have hSome := List.find?_isSome.mpr ⟨vif, hMem, hStops⟩
  obtain ⟨found, hFound⟩ := Option.isSome_iff_exists.mp hSome
  rw [ifDown_eq hRequest, hFound, Option.some_or]

theorem touchesListed_unknown
    (hUnknown : ∀ name, nameMatches areq name → kernel.getFlags name = false) :
    TouchesListed kernel areq listing := by
  apply touchesListed_of_eq
  intro stale
  have hNone : ((List.ofFn stale).map Subtype.val).find? (stops kernel areq) = none := by
    rw [List.find?_eq_none]
    intro vif _ hStops
    obtain ⟨hMatch, hKnown⟩ := stops_iff.mp hStops
    rw [hUnknown vif.ifname hMatch.1] at hKnown
    cases hKnown
  rw [ifDown_eq hRequest, hNone, Option.or_none]

/-- With room behind the listed interfaces and none of these to stop at, the outcome tells a
zeroed array from one full of an interface that the kernel knows. -/
theorem not_touchesListed_stale (hPart : listing.entries.length ≠ 1024)
    (hNone : listing.entries.find? (stops kernel areq) = none) {vif : Unfilled}
    (hStops : stops kernel areq vif.val = true) : ¬ TouchesListed kernel areq listing := by
  intro h
  have hSize := listing.size
  obtain ⟨m, hm⟩ : ∃ m, 1024 - listing.entries.length = m + 1 :=
    ⟨1024 - listing.entries.length - 1, by omega⟩
  have hSame := h.1 (fun _ => vif) fun _ => .zero
  rw [ifDown_eq hRequest, ifDown_eq hRequest, hNone, Option.none_or, Option.none_or] at hSame
  rw [hm, find?_const, find?_const, hStops, not_stops_zero hRequest] at hSame
  exact finish_some_ne _ hSame

end Request

/-- `if_down` keeps to the listed interfaces exactly if it is asked for nothing, the list
fills the array, a listed interface stops its search, or none that it could find elsewhere is
known to the kernel. -/
theorem touchesListed_iff : TouchesListed kernel areq listing ↔
    (areq.ifname = [] ∧ areq.ipaddr = 0#32) ∨ listing.entries.length = 1024 ∨
      (∃ vif ∈ listing.entries, ifMatches areq vif ∧ kernel.getFlags vif.ifname = true) ∨
        ∀ name, nameMatches areq name → kernel.getFlags name = false := by
  by_cases hRequest : areq.ifname = [] ∧ areq.ipaddr = 0#32
  · exact ⟨fun _ => .inl hRequest, fun _ => touchesListed_illegal hRequest⟩
  · constructor
    · intro h
      by_contra hNot
      simp only [not_or] at hNot
      obtain ⟨_, hPart, hListed, hElsewhere⟩ := hNot
      push Not at hElsewhere
      obtain ⟨name, hName, hKnown⟩ := hElsewhere
      have hNone : listing.entries.find? (stops kernel areq) = none := by
        rw [List.find?_eq_none]
        exact fun vif hMem hStops => hListed ⟨vif, hMem, stops_iff.mp hStops⟩
      have hKnows : kernel.getFlags name = true := by simpa using hKnown
      obtain ⟨vif, hVif⟩ : ∃ vif : Unfilled, vif.val = ⟨name, areq.ipaddr, 0#32, 0#32⟩ :=
        ⟨⟨_, kernel.short name hKnows⟩, rfl⟩
      have hStops : stops kernel areq vif.val = true := by
        rw [hVif]
        exact stops_iff.mpr ⟨⟨hName, .inr rfl⟩, hKnows⟩
      exact not_touchesListed_stale hRequest hPart hNone hStops h
    · rintro (hIllegal | hFull | ⟨vif, hMem, hStops⟩ | hUnknown)
      · exact touchesListed_illegal hIllegal
      · exact touchesListed_full hRequest hFull
      · exact touchesListed_found hRequest hMem (stops_iff.mpr hStops)
      · exact touchesListed_unknown hRequest hUnknown

/-- A host that has an interface and two aliases of it. -/
def host : Kernel where
  getFlags name := name ∈ [['e', 't', 'h', '0'], ['e', 't', 'h', '0', ':', '1'],
    ['e', 't', 'h', '0', ':', '2']]
  setFlags _ := true
  short := by simp [ifNamSiz]

/-- When the second alias is not listed, but left in the array by an earlier listing, it is
taken down. -/
theorem not_touchesListed_host : ¬ TouchesListed host
    ⟨['e', 't', 'h', '0'], 0x0300000a#32, 0x00ffffff#32, 0#32⟩ aliased := by
  intro h
  let areq : Interface := ⟨['e', 't', 'h', '0'], 0x0300000a#32, 0x00ffffff#32, 0#32⟩
  let left : Unfilled :=
    ⟨⟨['e', 't', 'h', '0', ':', '2'], 0x0300000a#32, 0x00ffffff#32, 0#32⟩, by decide⟩
  have hStale : ((List.ofFn fun _ : Fin (1021 + 1) => left).map Subtype.val).find?
      (stops host areq) = some left.val :=
    (find?_const left).trans (if_pos (by decide))
  have hListed : aliased.entries.find? (stops host areq) = none := by decide
  have hDown : ifDown host areq aliased (fun _ => left) = .down left.val := by
    rw [ifDown_eq (by decide), hListed, Option.none_or]
    exact congrArg (finish host) hStale
  exact absurd (h.2 _ _ hDown).1 (by decide)

end Loop

end Wackamole
