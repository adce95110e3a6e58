import Wackamole.Grammar

/-! Interface addresses that are not well-formed: `toCIDR` reports some of them, and the
configuration is accepted all the same. -/
namespace Wackamole

open HostWords

variable {machine : Machine} {t : AddressText}

/-- The token of a text is exactly what the text says, or every configuration with this token
is refused. -/
def RefusedOrExact (machine : Machine) (t : AddressText) : Prop :=
  ∃ v reported, ifaceAction machine t.text = some (v, reported) ∧
    ∀ before after : List Token, Spells machine t v ∨ ¬ Accepts (before ++ .ipaddr v :: after)

/-- A list of virtual interfaces with this one is accepted, whatever its value is. -/
theorem accepts_vifs (v : IpValue) : Accepts ([.vifs, .openBrace] ++ .ipaddr v :: [.closeBrace]) :=
  ⟨.cons (.vifs (.one (.ipaddr v))) .nil, rfl⟩

/-- The token holds at most as much of the name as fits. -/
theorem iface_length_lt {v : IpValue} {reported : Bool}
    (h : ifaceAction machine t.text = some (v, reported)) : v.iface.length < ifNamSiz := by
  rw [ifaceAction, Option.map_eq_some_iff] at h
  obtain ⟨cidr, _, hValue⟩ := h
  cases hValue
  exact Nat.lt_succ_of_le (AddressText.copyIface_length_le (ifNamSiz - 1) t.text)

/-- Only well-formed addresses have values that say what they do. -/
theorem Spells.wellFormed {v : IpValue} {reported : Bool}
    (hValue : ifaceAction machine t.text = some (v, reported)) (h : Spells machine t v) :
    t.WellFormed where
  name := by
    rw [← h.iface]
    exact iface_length_lt hValue
  octets k := by
    have hByte := (byte (ntohl machine.byteOrder v.addr) (3 - k)).isLt
    rw [h.addr k] at hByte
    omega
  mask := h.maskLength
  network := h.network.1

/-- A network of no bits has the value that the machine gives a shift by 32. -/
theorem Spells.shiftLeft_eq_zero {v : IpValue} {reported : Bool}
    (hValue : ifaceAction machine t.text = some (v, reported)) (h : Spells machine t v)
    (hZero : t.networkLength = 0) : machine.shiftLeft 32 = 0#32 := by
  have hName := (h.wellFormed hValue).name
  rw [AddressText.ifaceAction_text machine t hName] at hValue
  cases hValue
  have hOnes := h.network.2
  rw [AddressText.value, ntohl_ntohl, hZero] at hOnes
  apply BitVec.eq_of_getLsbD_eq
  intro i hi
  rw [BitVec.getLsbD_zero]
  exact (hOnes i hi).trans (decide_eq_false (by omega))

/-- An interface address is read exactly or refused if and only if its name fits, its numbers
are in their ranges, and a network length of zero gives a zero mask. -/
theorem refusedOrExact_iff : RefusedOrExact machine t ↔
    t.WellFormed ∧ (t.networkLength = 0 → machine.shiftLeft 32 = 0#32) := by
  constructor
  · rintro ⟨v, reported, hValue, hExact⟩
    have hSpells := (hExact _ _).resolve_right (not_not_intro (accepts_vifs v))
    exact ⟨hSpells.wellFormed hValue, hSpells.shiftLeft_eq_zero hValue⟩
  · rintro ⟨hFormed, hZero⟩
    obtain ⟨v, hValue, hSpells⟩ := hFormed.spells hZero
    exact ⟨v, false, hValue, fun _ _ => .inl hSpells⟩

/-- `eth0:10.0.0.300/24` -/
def outOfRange : AddressText :=
  { ethernet with
    octets := fun k => match k with
      | 0 => ['1', '0']
      | 1 => ['0']
      | 2 => ['0']
      | 3 => ['3', '0', '0']
    mask := ['2', '4']
    network := none
    octets_digits := by decide
    mask_digits := by decide
    network_digits := by decide }

theorem not_refusedOrExact_outOfRange : ¬ RefusedOrExact (modular .little) outOfRange := by
  rintro ⟨v, reported, hValue, hExact⟩
  have hSpells := (hExact _ _).resolve_right (not_not_intro (accepts_vifs v))
  exact absurd ((hSpells.wellFormed hValue).octets 3) (by decide)

end Wackamole
