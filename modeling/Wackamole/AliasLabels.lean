import Wackamole.Spoofing
import Wackamole.Library.Decimal

/-! `if_up` of `ife-sockpacket.c`: the label under which a virtual interface is brought up
on Linux. -/
namespace Wackamole

/-- What `if_list_ips(ifs, 1024)` puts into `ifs`. -/
structure Listing where
  entries : List Interface
  size : entries.length ≤ 1024
  names : ∀ vif ∈ entries, vif.ifname.length < ifNamSiz

/-- What a name is to a requested one: the same, one of its aliases with the number that
`atoi` reads in its suffix, or neither. -/
inductive NameKind where
  | base
  | numbered (number : Int)
  | other
  deriving DecidableEq

/-- The comparison of names that `if_up` and `if_down` share: `strncmp` up to the length of
the requested name, and the character behind it. -/
def nameKind (areq name : List Char) : NameKind :=
  if areq <+: name then
    match name.drop areq.length with
    | [] => .base
    | ':' :: suffix => .numbered (Decimal.atoi suffix)
    | _ :: _ => .other
  else .other

/-- `%d`. -/
def formatInt : Int → List Char
  | .ofNat k => Nat.toDigits 10 k
  | .negSucc k => '-' :: Nat.toDigits 10 (k + 1)

/-- `snprintf(label, IFNAMSIZ, "%s:%d", ifname, k)`. -/
def formatLabel (ifname : List Char) (k : Int) : List Char :=
  (ifname ++ ':' :: formatInt k).take (ifNamSiz - 1)

/-- How `if_up` gets to a label, or fails before. -/
inductive IfUp where
  | errorExists
  | errorNoneLeft
  /-- An access outside `vin`. -/
  | overrun
  /-- The label that is passed to `SIOCSIFADDR`. -/
  | label (ifname : List Char)
  deriving DecidableEq

/-- The loop over the listed interfaces, with `vin` and the name in `realreq`. -/
def scanIfs (areq : Interface) : List Interface → (Nat → Int) → List Char →
    Except IfUp ((Nat → Int) × List Char)
  | [], vin, realreq => .ok (vin, realreq)
  | vif :: ifs, vin, realreq =>
    if vif.ipaddr = areq.ipaddr then .error .errorExists
    else
      match nameKind areq.ifname vif.ifname with
      | .base => scanIfs areq ifs vin (formatLabel areq.ifname 0)
      | .numbered tvin =>
        if 0 ≤ tvin ∧ tvin < 1024 then
          scanIfs areq ifs (Function.update vin tvin.toNat (-1)) realreq
        else .error .overrun
      | .other => scanIfs areq ifs vin realreq

/-- `while(vin[i]==-1) i++`, with so many elements of `vin` left. -/
def searchVin (vin : Nat → Int) : Nat → Nat → Option Nat
  | 0, _ => none
  | left + 1, i => if vin i = -1 then searchVin vin left (i + 1) else some i

/-- `if_up` up to the label. -/
def ifUp (areq : Interface) (listing : Listing) : IfUp :=
  match scanIfs areq listing.entries (fun i => if i = 0 then -1 else i) [] with
  | .error failure => failure
  | .ok (vin, realreq) =>
    if realreq = [] then .label areq.ifname
    else
      match searchVin vin 1024 0 with
      | none => .overrun
      | some i => if i > 1023 then .errorNoneLeft else .label (formatLabel areq.ifname (vin i))

/-- The numbers of the aliases of `areq` in a list. -/
def aliasNumbers (areq : List Char) (ifs : List Interface) : List Int :=
  ifs.filterMap fun vif =>
    match nameKind areq vif.ifname with
    | .base => none
    | .numbered number => some number
    | .other => none

/-- A label that no listed interface has, and that is a numbered one of the requested
interface. -/
def FreshLabel (areq : Interface) (listing : Listing) : IfUp → Prop
  | .errorExists => True
  | .errorNoneLeft => True
  | .overrun => False
  | .label ifname => (∀ vif ∈ listing.entries, vif.ifname ≠ ifname) ∧
      ∃ k, 1 ≤ k ∧ ifname = areq.ifname ++ ':' :: Nat.toDigits 10 k

section Names

variable {areq name : List Char}

theorem nameKind_eq_base : nameKind areq name = .base ↔ name = areq := by
  constructor
  · intro h
    rw [nameKind] at h
    split_ifs at h with hPrefix
    split at h
    · rename_i hDrop
      exact (hPrefix.eq_of_length_le (List.drop_eq_nil_iff.mp hDrop)).symm
    · cases h
    · cases h
  · rintro rfl
    simp [nameKind]

theorem nameKind_eq_numbered {number : Int} : nameKind areq name = .numbered number ↔
    ∃ suffix, name = areq ++ ':' :: suffix ∧ Decimal.atoi suffix = number := by
  constructor
  · intro h
    rw [nameKind] at h
    split_ifs at h with hPrefix
    obtain ⟨rest, rfl⟩ := hPrefix
    rw [List.drop_left] at h
    split at h
    · cases h
    · rename_i suffix
      cases h
      exact ⟨suffix, rfl, rfl⟩
    · cases h
  · rintro ⟨suffix, rfl, rfl⟩
    simp [nameKind]

theorem mem_aliasNumbers {ifs : List Interface} {number : Int} :
    number ∈ aliasNumbers areq ifs ↔
      ∃ vif ∈ ifs, ∃ suffix, vif.ifname = areq ++ ':' :: suffix ∧ Decimal.atoi suffix = number := by
  rw [aliasNumbers, List.mem_filterMap]
  refine exists_congr fun vif => and_congr_right fun _ => ?_
  rw [← nameKind_eq_numbered]
  cases nameKind areq vif.ifname <;> simp

end Names

section Scan

variable {areq : Interface}

/-- `vin` without the numbers of the aliases in a list. -/
def without (numbers : List Int) (vin : Nat → Int) (i : Nat) : Int :=
  if (i : Int) ∈ numbers then -1 else vin i

theorem without_update {numbers : List Int} {number : Int} (h : 0 ≤ number) (vin : Nat → Int) :
    without numbers (Function.update vin number.toNat (-1)) = without (number :: numbers) vin := by
  funext i
  by_cases hi : i = number.toNat
  · have hNumber : (i : Int) = number := by omega
    subst hi
    simp [without, hNumber]
  · have hNumber : (i : Int) ≠ number := by omega
    simp [without, hNumber, Function.update_of_ne hi]

/-- When all alias numbers fit the table, the loop crosses them out, and notes whether the
requested interface is there itself. -/
theorem scanIfs_eq {ifs : List Interface} (hAddr : ∀ vif ∈ ifs, vif.ipaddr ≠ areq.ipaddr)
    (hNumbers : ∀ number ∈ aliasNumbers areq.ifname ifs, 0 ≤ number ∧ number < 1024)
    (vin : Nat → Int) (realreq : List Char) : scanIfs areq ifs vin realreq =
      .ok (without (aliasNumbers areq.ifname ifs) vin,
        if ∃ vif ∈ ifs, vif.ifname = areq.ifname then formatLabel areq.ifname 0 else realreq) := by
  induction ifs generalizing vin realreq with
  | nil =>
      simp only [scanIfs, aliasNumbers, List.filterMap_nil, List.not_mem_nil, false_and,
        exists_false, if_false]
      rfl
  | cons vif ifs ih =>
      have hHere := hAddr vif List.mem_cons_self
      have hRest := ih fun vif' hMem => hAddr vif' (List.mem_cons_of_mem vif hMem)
      rw [scanIfs, if_neg hHere]
      cases hKind : nameKind areq.ifname vif.ifname with
      | base =>
          have hName := nameKind_eq_base.mp hKind
          have hSame : aliasNumbers areq.ifname (vif :: ifs) = aliasNumbers areq.ifname ifs := by
            simp [aliasNumbers, hKind]
          rw [hSame] at hNumbers ⊢
          simp only [hRest hNumbers, ite_self]
          simp [hName]
      | numbered number =>
          have hName : vif.ifname ≠ areq.ifname := mt nameKind_eq_base.mpr (by simp [hKind])
          have hMore : aliasNumbers areq.ifname (vif :: ifs) =
              number :: aliasNumbers areq.ifname ifs := by
            simp [aliasNumbers, hKind]
          rw [hMore] at hNumbers ⊢
          have hNumber := hNumbers number List.mem_cons_self
          have hOthers := hRest fun number' hMem =>
            hNumbers number' (List.mem_cons_of_mem number hMem)
          simp only [if_pos hNumber, hOthers, without_update hNumber.1]
          simp [hName]
      | other =>
          have hName : vif.ifname ≠ areq.ifname := mt nameKind_eq_base.mpr (by simp [hKind])
          have hSame : aliasNumbers areq.ifname (vif :: ifs) = aliasNumbers areq.ifname ifs := by
            simp [aliasNumbers, hKind]
          rw [hSame] at hNumbers ⊢
          simp only [hRest hNumbers]
          simp [hName]

/-- An alias number outside the table makes the loop write there. -/
theorem scanIfs_overrun {ifs : List Interface} (hAddr : ∀ vif ∈ ifs, vif.ipaddr ≠ areq.ipaddr)
    (hOutside : ∃ number ∈ aliasNumbers areq.ifname ifs, ¬ (0 ≤ number ∧ number < 1024))
    (vin : Nat → Int) (realreq : List Char) :
    scanIfs areq ifs vin realreq = .error .overrun := by
  induction ifs generalizing vin realreq with
  | nil =>
      obtain ⟨number, hMem, _⟩ := hOutside
      cases hMem
  | cons vif ifs ih =>
      have hHere := hAddr vif List.mem_cons_self
      have hRest := ih fun vif' hMem => hAddr vif' (List.mem_cons_of_mem vif hMem)
      rw [scanIfs, if_neg hHere]
      cases hKind : nameKind areq.ifname vif.ifname with
      | base => exact hRest (by simpa [aliasNumbers, hKind] using hOutside) _ _
      | numbered number =>
          by_cases hNumber : 0 ≤ number ∧ number < 1024
          · have hMore : aliasNumbers areq.ifname (vif :: ifs) =
                number :: aliasNumbers areq.ifname ifs := by
              simp [aliasNumbers, hKind]
            obtain ⟨number', hMem, hBad⟩ := hOutside
            rw [hMore] at hMem
            rcases List.mem_cons.mp hMem with rfl | hLater
            · exact absurd hNumber hBad
            · simp only [if_pos hNumber, hRest ⟨number', hLater, hBad⟩]
          · simp only [if_neg hNumber]
      | other => exact hRest (by simpa [aliasNumbers, hKind] using hOutside) _ _

/-- The search stops at the first element that is not crossed out. -/
theorem searchVin_spec (vin : Nat → Int) (left i : Nat) :
    (∀ k, searchVin vin left i = some k → i ≤ k ∧ k < i + left ∧ vin k ≠ -1 ∧
      ∀ j, i ≤ j → j < k → vin j = -1) ∧
    (searchVin vin left i = none → ∀ j, i ≤ j → j < i + left → vin j = -1) := by
  induction left generalizing i with
  | zero =>
      constructor
      · intro k hk
        cases hk
      · intro _ j hj hjk
        omega
  | succ left ih =>
      obtain ⟨hSome, hNone⟩ := ih (i + 1)
      rw [searchVin]
      split_ifs with hi
      · constructor
        · intro k hk
          obtain ⟨hLow, hHigh, hFree, hBefore⟩ := hSome k hk
          refine ⟨by omega, by omega, hFree, fun j hj hjk => ?_⟩
          rcases Nat.eq_or_lt_of_le hj with rfl | hLater
          · exact hi
          · exact hBefore j hLater hjk
        · intro hEnd j hj hjk
          rcases Nat.eq_or_lt_of_le hj with rfl | hLater
          · exact hi
          · exact hNone hEnd j hLater (by omega)
      · constructor
        · intro k hk
          cases hk
          exact ⟨Nat.le_refl i, by omega, hi, fun j _ _ => by omega⟩
        · intro hEnd
          cases hEnd

end Scan

section Labels

variable {areq : Interface} {listing : Listing}

/-- The numbered label of an interface. -/
def numberedLabel (ifname : List Char) (k : Nat) : List Char := ifname ++ ':' :: Nat.toDigits 10 k

/-- A number that `if_up` may choose. -/
def FreeNumber (areq : Interface) (listing : Listing) (k : Nat) : Prop :=
  1 ≤ k ∧ (k : Int) ∉ aliasNumbers areq.ifname listing.entries

theorem without_ne_iff {numbers : List Int} {i : Nat} :
    without numbers (fun i => if i = 0 then -1 else i) i ≠ -1 ↔ 1 ≤ i ∧ (i : Int) ∉ numbers := by
  rw [without]
  split_ifs with hMem hZero
  · simp [hMem]
  · simp [hZero]
  · simp [hMem]
    omega

theorem without_of_free {numbers : List Int} {i : Nat} (h : 1 ≤ i ∧ (i : Int) ∉ numbers) :
    without numbers (fun i => if i = 0 then -1 else i) i = i := by
  rw [without, if_neg h.2, if_neg (by omega)]

section Table

variable (hAddr : ∀ vif ∈ listing.entries, vif.ipaddr ≠ areq.ipaddr)
  (hBase : ∃ vif ∈ listing.entries, vif.ifname = areq.ifname)
  (hNumbers : ∀ number ∈ aliasNumbers areq.ifname listing.entries, 0 ≤ number ∧ number < 1024)

include hAddr hBase hNumbers

/-- `if_up` comes to the label with the least free number of the table, or leaves the table
when there is none. -/
theorem ifUp_spec :
    (ifUp areq listing = .overrun ∧ ∀ k, k < 1024 → ¬ FreeNumber areq listing k) ∨
      ∃ k, k < 1024 ∧ FreeNumber areq listing k ∧
        (∀ j, j < k → ¬ FreeNumber areq listing j) ∧
          ifUp areq listing = .label ((numberedLabel areq.ifname k).take (ifNamSiz - 1)) := by
  have hNamed : formatLabel areq.ifname 0 ≠ [] := by
    rw [formatLabel, Ne, List.take_eq_nil_iff]
    simp
  obtain ⟨hSome, hNone⟩ := searchVin_spec (without (aliasNumbers areq.ifname listing.entries)
    fun i => if i = 0 then -1 else i) 1024 0
  have hScan := scanIfs_eq hAddr hNumbers (fun i => if i = 0 then -1 else i) []
  rw [if_pos hBase] at hScan
  rw [ifUp, hScan]
  simp only [if_neg hNamed]
  cases hSearch : searchVin (without (aliasNumbers areq.ifname listing.entries)
      fun i => if i = 0 then -1 else i) 1024 0 with
  | none =>
      refine .inl ⟨rfl, fun k hk hFree => ?_⟩
      exact without_ne_iff.mpr hFree (hNone hSearch k (Nat.zero_le k) (by omega))
  | some k =>
      obtain ⟨_, hHigh, hFree, hBefore⟩ := hSome k hSearch
      have hFree' := without_ne_iff.mp hFree
      refine .inr ⟨k, by omega, hFree', fun j hj hFreeJ => ?_, ?_⟩
      · exact without_ne_iff.mpr hFreeJ (hBefore j (Nat.zero_le j) hj)
      · simp only [if_neg (show ¬ k > 1023 by omega), without_of_free hFree']
        rfl

end Table

/-- A label that was not cut off is new, since its number was free. -/
theorem freshLabel_of_fits {k : Nat} (hFree : FreeNumber areq listing k)
    (hFits : (numberedLabel areq.ifname k).length < ifNamSiz) :
    FreshLabel areq listing (.label ((numberedLabel areq.ifname k).take (ifNamSiz - 1))) := by
  rw [List.take_of_length_le (by omega)]
  refine ⟨fun vif hMem hName => hFree.2 ?_, k, hFree.1, rfl⟩
  exact mem_aliasNumbers.mpr ⟨vif, hMem, _, hName, Decimal.atoi_toDigits k⟩

/-- A label that was cut off is one with a smaller number, which was taken, or none. -/
theorem fits_of_freshLabel {k : Nat} (hLeast : ∀ j, j < k → ¬ FreeNumber areq listing j)
    (hFresh : FreshLabel areq listing
      (.label ((numberedLabel areq.ifname k).take (ifNamSiz - 1)))) :
    (numberedLabel areq.ifname k).length < ifNamSiz := by
  by_contra hLong
  obtain ⟨hNew, m, hm, hLabel⟩ := hFresh
  have hLength := congrArg List.length hLabel
  rw [List.length_take, Nat.min_eq_left (by omega), List.length_append, List.length_cons] at hLength
  have hSmaller : m < k := by
    by_contra hNot
    have hMono := Decimal.length_toDigits_mono (Nat.le_of_not_lt hNot)
    rw [numberedLabel, List.length_append, List.length_cons] at hLong
    omega
  have hTaken : (m : Int) ∈ aliasNumbers areq.ifname listing.entries := by
    by_contra hNot
    exact hLeast m hSmaller ⟨hm, hNot⟩
  obtain ⟨vif, hMem, suffix, hName, hNumber⟩ := mem_aliasNumbers.mp hTaken
  have hShort := listing.names vif hMem
  rw [hName, List.length_append, List.length_cons] at hShort
  have hSuffix := Decimal.eq_toDigits hm hNumber (by omega)
  exact hNew vif hMem (by rw [hName, hSuffix, hLabel])

/-- The label of `if_up` is new exactly if no alias number is negative and some free number
of the table fits behind the name. -/
theorem freshLabel_ifUp_iff (hAddr : ∀ vif ∈ listing.entries, vif.ipaddr ≠ areq.ipaddr)
    (hBase : ∃ vif ∈ listing.entries, vif.ifname = areq.ifname)
    (hNumbers : ∀ number ∈ aliasNumbers areq.ifname listing.entries, number < 1024) :
    FreshLabel areq listing (ifUp areq listing) ↔
      (∀ number ∈ aliasNumbers areq.ifname listing.entries, 0 ≤ number) ∧
        ∃ k, k < 1024 ∧ FreeNumber areq listing k ∧
          (numberedLabel areq.ifname k).length < ifNamSiz := by
  by_cases hNatural : ∀ number ∈ aliasNumbers areq.ifname listing.entries, 0 ≤ number
  · have hInside : ∀ number ∈ aliasNumbers areq.ifname listing.entries, 0 ≤ number ∧ number < 1024 :=
      fun number hMem => ⟨hNatural number hMem, hNumbers number hMem⟩
    rcases ifUp_spec hAddr hBase hInside with ⟨hOverrun, hFull⟩ | ⟨k, hk, hFree, hLeast, hLabel⟩
    · rw [hOverrun]
      refine ⟨fun h => h.elim, fun ⟨_, k, hk, hFree, _⟩ => hFull k hk hFree⟩
    · rw [hLabel]
      constructor
      · exact fun h => ⟨hNatural, k, hk, hFree, fits_of_freshLabel hLeast h⟩
      · rintro ⟨_, m, _, hFreeM, hFits⟩
        have hkm : k ≤ m := Nat.le_of_not_lt fun hLt => hLeast m hLt hFreeM
        have hMono := Decimal.length_toDigits_mono hkm
        refine freshLabel_of_fits hFree ?_
        rw [numberedLabel, List.length_append, List.length_cons] at hFits ⊢
        omega
  · have hOverrun : ifUp areq listing = .overrun := by
      push Not at hNatural
      obtain ⟨number, hMem, hNegative⟩ := hNatural
      rw [ifUp, scanIfs_overrun hAddr ⟨number, hMem, by omega⟩]
    rw [hOverrun]
    exact ⟨fun h => h.elim, fun h => (hNatural h.1).elim⟩

/-- An interface and its first alias. -/
def aliased : Listing where
  entries := [⟨['e', 't', 'h', '0'], 0x0100000a#32, 0x00ffffff#32, 0#32⟩,
    ⟨['e', 't', 'h', '0', ':', '1'], 0x0200000a#32, 0x00ffffff#32, 0#32⟩]
  size := by decide
  names := by decide

theorem freshLabel_aliased :
    let areq : Interface := ⟨['e', 't', 'h', '0'], 0x0300000a#32, 0x00ffffff#32, 0#32⟩
    FreshLabel areq aliased (ifUp areq aliased) := by
  refine (freshLabel_ifUp_iff (by decide) (by decide) (by decide)).mpr
    ⟨by decide, 2, by decide, ?_, ?_⟩
  · exact ⟨by decide, by decide⟩
  · decide

/-- An interface whose name has 14 characters. -/
def longNamed : Listing where
  entries := [⟨['e', 'n', 'p', '1', '3', '0', 's', '3', '1', 'f', '6', 'n', 'p', '0'],
    0x0100000a#32, 0x00ffffff#32, 0#32⟩]
  size := by decide
  names := by decide

/-- Its alias gets a label without a number. -/
theorem not_freshLabel_longNamed :
    let areq : Interface := ⟨['e', 'n', 'p', '1', '3', '0', 's', '3', '1', 'f', '6', 'n', 'p', '0'],
      0x0200000a#32, 0x00ffffff#32, 0#32⟩
    (∀ vif ∈ longNamed.entries, vif.ipaddr ≠ areq.ipaddr) ∧
      (∃ vif ∈ longNamed.entries, vif.ifname = areq.ifname) ∧
        (∀ number ∈ aliasNumbers areq.ifname longNamed.entries, number < 1024) ∧
          ¬ FreshLabel areq longNamed (ifUp areq longNamed) := by
  intro areq
  have hLabel : ifUp areq longNamed = .label (areq.ifname ++ [':']) := by decide +kernel
  refine ⟨by decide, by decide, by decide, ?_⟩
  rw [hLabel]
  rintro ⟨_, k, _, hEq⟩
  have hDigits := List.append_cancel_left hEq
  cases hEnd : Nat.toDigits 10 k with
  | nil => exact Nat.toDigits_ne_nil hEnd
  | cons c ds =>
      rw [hEnd] at hDigits
      cases hDigits

end Labels

end Wackamole
