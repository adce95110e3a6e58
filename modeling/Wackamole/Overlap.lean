import Wackamole.Spoofing
import Mathlib.Data.List.Nodup

/-! `calc_new_cidr`: the addresses that the network of an interface has in common with a
block. -/
namespace Wackamole

open HostWords

variable (o : ByteOrder)

theorem ntohl_injective : Function.Injective (ntohl o) :=
  Function.Involutive.injective (ntohl_ntohl o)

theorem ntohl_and (w w' : Word) : ntohl o (w &&& w') = ntohl o w &&& ntohl o w' := by
  cases o
  · exact swap_and w w'
  · rfl

theorem ntohl_not (w : Word) : ntohl o (~~~w) = ~~~ntohl o w := by
  cases o
  · exact swap_not w
  · rfl

theorem ntohl_or (w w' : Word) : ntohl o (w ||| w') = ntohl o w ||| ntohl o w' := by
  have hAnd := congrArg (~~~ ·) (ntohl_and o (~~~w) (~~~w'))
  simp only [← ntohl_not, BitVec.not_and, BitVec.not_not] at hAnd
  simpa only [ntohl_not, BitVec.not_not] using hAnd

/-- The addresses, as numbers, from the first to the last one with this mask. -/
def rangeFirst (addr mask : Address) : Nat := (ntohl o (addr &&& mask)).toNat

def rangeLast (addr mask : Address) : Nat := (ntohl o (addr ||| ~~~mask)).toNat

/-- An address lies between the first and the last one with this mask. -/
def Covers (addr mask x : Address) : Prop :=
  rangeFirst o addr mask ≤ (ntohl o x).toNat ∧ (ntohl o x).toNat ≤ rangeLast o addr mask

instance (addr mask x : Address) : Decidable (Covers o addr mask x) := by
  unfold Covers; infer_instance

/-- For a mask of leading bits, these are the addresses with the same network. -/
theorem covers_iff_masked {addr mask x : Address} {k : Nat} (hk : k ≤ 32)
    (hMask : ntohl o mask = prefixMask k) : Covers o addr mask x ↔ x &&& mask = addr &&& mask := by
  have hPos := Nat.two_pow_pos k
  have hSelf := Nat.div_add_mod (ntohl o x).toNat (2 ^ k)
  have hMod := Nat.mod_lt (ntohl o x).toNat hPos
  rw [Nat.mul_comm] at hSelf
  rw [← (ntohl_injective o).eq_iff, ntohl_and, ntohl_and, hMask, ← BitVec.toNat_inj,
    toNat_and_prefixMask, toNat_and_prefixMask, Nat.mul_left_inj hPos.ne', Covers, rangeFirst,
    rangeLast, ntohl_and, ntohl_or, ntohl_not, hMask, toNat_and_prefixMask,
    toNat_or_not_prefixMask _ hk]
  constructor
  · rintro ⟨hFirst, hLast⟩
    apply Nat.le_antisymm
    · rw [← Nat.lt_succ_iff, Nat.div_lt_iff_lt_mul hPos, Nat.succ_mul]
      omega
    · rwa [Nat.le_div_iff_mul_le hPos]
  · intro hSame
    rw [← hSame]
    omega

/-- The first address that the network of `i₁` and the block of `i₂` have in common, if there
is one. -/
def overlapFirst (i₁ i₂ : Interface) : Nat :=
  max (rangeFirst o i₁.ipaddr i₁.network) (rangeFirst o i₂.ipaddr i₂.netmask)

/-- How many addresses they have in common. -/
def overlapSize (i₁ i₂ : Interface) : Nat :=
  min (rangeLast o i₁.ipaddr i₁.network) (rangeLast o i₂.ipaddr i₂.netmask) + 1 -
    overlapFirst o i₁ i₂

/-- These addresses, in order. -/
def targets (i₁ i₂ : Interface) : List Address :=
  (List.range (overlapSize o i₁ i₂)).map fun k =>
    ntohl o (BitVec.ofNat 32 (overlapFirst o i₁ i₂ + k))

section Targets

variable {o} {i₁ i₂ : Interface}

@[simp] theorem length_targets : (targets o i₁ i₂).length = overlapSize o i₁ i₂ := by
  simp [targets]

theorem overlap_lt {k : Nat} (hk : k < overlapSize o i₁ i₂) : overlapFirst o i₁ i₂ + k < 2 ^ 32 := by
  have hLast : rangeLast o i₁.ipaddr i₁.network < 2 ^ 32 := BitVec.isLt _
  rw [overlapSize] at hk
  omega

theorem mem_targets {x : Address} :
    x ∈ targets o i₁ i₂ ↔
      Covers o i₁.ipaddr i₁.network x ∧ Covers o i₂.ipaddr i₂.netmask x := by
  have hBounds : Covers o i₁.ipaddr i₁.network x ∧ Covers o i₂.ipaddr i₂.netmask x ↔
      overlapFirst o i₁ i₂ ≤ (ntohl o x).toNat ∧
        (ntohl o x).toNat < overlapFirst o i₁ i₂ + overlapSize o i₁ i₂ := by
    rw [overlapSize, overlapFirst, Covers, Covers]
    omega
  rw [hBounds, targets, List.mem_map]
  constructor
  · rintro ⟨k, hk, rfl⟩
    rw [List.mem_range] at hk
    rw [ntohl_ntohl, BitVec.toNat_ofNat, Nat.mod_eq_of_lt (overlap_lt hk)]
    omega
  · rintro ⟨hFirst, hLast⟩
    refine ⟨(ntohl o x).toNat - overlapFirst o i₁ i₂, List.mem_range.mpr (by omega), ?_⟩
    rw [Nat.add_sub_cancel' hFirst, BitVec.ofNat_toNat, BitVec.setWidth_eq, ntohl_ntohl]

theorem nodup_targets : (targets o i₁ i₂).Nodup := by
  refine List.Nodup.map_on ?_ List.nodup_range
  intro k hk k' hk' hEq
  rw [List.mem_range] at hk hk'
  have hNat := congrArg BitVec.toNat (ntohl_injective o hEq)
  rw [BitVec.toNat_ofNat, BitVec.toNat_ofNat, Nat.mod_eq_of_lt (overlap_lt hk),
    Nat.mod_eq_of_lt (overlap_lt hk')] at hNat
  omega

theorem calcNewCidr_of_disjoint (out : Interface) (h : overlapSize o i₁ i₂ = 0) :
    calcNewCidr o i₁ i₂ out = (0#32, out) := by
  simp only [overlapSize, overlapFirst, rangeFirst, rangeLast] at h
  rw [calcNewCidr, if_pos]
  simp only [gt_iff_lt, BitVec.lt_def]
  split_ifs <;> omega

theorem calcNewCidr_of_overlap (out : Interface) (h : overlapSize o i₁ i₂ ≠ 0) :
    calcNewCidr o i₁ i₂ out =
      (BitVec.ofNat 32 (overlapSize o i₁ i₂),
        { out with
          ipaddr := ntohl o (BitVec.ofNat 32 (overlapFirst o i₁ i₂))
          ifname := i₁.ifname }) := by
  have hFirst (s s' : Word) : (if s > s' then s else s') = BitVec.ofNat 32 (max s.toNat s'.toNat) := by
    apply BitVec.eq_of_toNat_eq
    rw [BitVec.toNat_ofNat, Nat.mod_eq_of_lt (by omega)]
    simp only [gt_iff_lt, BitVec.lt_def]
    split_ifs <;> omega
  have hLast (e e' : Word) : (if e < e' then e else e') = BitVec.ofNat 32 (min e.toNat e'.toNat) := by
    apply BitVec.eq_of_toNat_eq
    rw [BitVec.toNat_ofNat, Nat.mod_eq_of_lt (by omega)]
    simp only [BitVec.lt_def]
    split_ifs <;> omega
  simp only [overlapSize, overlapFirst, rangeFirst, rangeLast] at h ⊢
  rw [calcNewCidr, hFirst, hLast, if_neg]
  · congr 1
    apply BitVec.eq_of_toNat_eq
    rw [BitVec.toNat_add, BitVec.toNat_sub]
    simp only [BitVec.toNat_ofNat]
    omega
  · rw [BitVec.lt_def, BitVec.toNat_ofNat, BitVec.toNat_ofNat]
    omega

/-- The block of one address that `send_arp_spoof_arp_cache` makes of an entry. -/
theorem calcNewCidr_entry (vif out : Interface) (ip : Address) :
    calcNewCidr o vif ⟨[], ip, ~~~0#32, 0#32⟩ out =
      if Covers o vif.ipaddr vif.network ip then
        (1#32, { out with ipaddr := ip, ifname := vif.ifname })
      else (0#32, out) := by
  have hFirst : rangeFirst o ip (~~~0#32) = (ntohl o ip).toNat := by
    rw [rangeFirst, BitVec.not_zero, BitVec.and_allOnes]
  have hLast : rangeLast o ip (~~~0#32) = (ntohl o ip).toNat := by
    rw [rangeLast, BitVec.not_not, BitVec.or_zero]
  by_cases hCovers : Covers o vif.ipaddr vif.network ip
  · have hOverlap : overlapFirst o vif ⟨[], ip, ~~~0#32, 0#32⟩ = (ntohl o ip).toNat := by
      rw [overlapFirst, hFirst, max_eq_right hCovers.1]
    have hSize : overlapSize o vif ⟨[], ip, ~~~0#32, 0#32⟩ = 1 := by
      rw [overlapSize, hOverlap, hLast, min_eq_right hCovers.2]
      omega
    rw [if_pos hCovers, calcNewCidr_of_overlap out (by omega), hSize, hOverlap, BitVec.ofNat_toNat,
      BitVec.setWidth_eq, ntohl_ntohl]
  · have hSize : overlapSize o vif ⟨[], ip, ~~~0#32, 0#32⟩ = 0 := by
      rw [overlapSize, overlapFirst, hFirst, hLast]
      rw [Covers] at hCovers
      omega
    rw [if_neg hCovers, calcNewCidr_of_disjoint out hSize]

end Targets

end Wackamole
