import Wackamole.Grammar

/-! Where the actions of the grammar write to the tables: which configurations keep all
writes inside them. -/
namespace Wackamole

namespace IPList

/-- The addresses after the head. -/
def dependents : IPList → Nat
  | one _ => 0
  | snoc list _ => list.dependents + 1

end IPList

namespace VIF

def dependents : VIF → Nat
  | ipaddr _ => 0
  | closedIPList list => list.dependents

end VIF

namespace VIFList

/-- The numbers of dependent addresses of the virtual interfaces in a list. -/
def dependents : VIFList → List Nat
  | one vif => [vif.dependents]
  | snoc list vif => list.dependents ++ [vif.dependents]

end VIFList

namespace NIPList

def length : NIPList → Nat
  | one _ => 1
  | snoc list _ => list.length + 1

end NIPList

namespace Setting

def dependents : Setting → List Nat
  | vifs list => list.dependents
  | _ => []

def notifications : Setting → Nat
  | notifyArpCache => 1
  | notify (.braces list) => list.length
  | _ => 0

end Setting

namespace Settings

/-- The numbers of dependent addresses of all virtual interfaces of a configuration. -/
def dependents : Settings → List Nat
  | cons setting settings => setting.dependents ++ settings.dependents
  | nil => []

def notifications : Settings → Nat
  | cons setting settings => setting.notifications + settings.notifications
  | nil => 0

end Settings

namespace ParseState

/-- All writes so far were inside the tables. -/
def Safe (p : ParseState) : Prop := ∀ w ∈ p.writes, w.Inside

theorem safe_write (p : ParseState) (w : TableWrite) : (p.write w).Safe ↔ p.Safe ∧ w.Inside := by
  simp only [Safe, write, List.mem_append, List.mem_singleton]
  constructor
  · exact fun h => ⟨fun w' hMem => h w' (.inl hMem), h w (.inr rfl)⟩
  · rintro ⟨hBefore, hLast⟩ w' (hMem | rfl)
    · exact hBefore w' hMem
    · exact hLast

/-- What a part of a configuration does to the parser between two lists of addresses: it
adds virtual interfaces with these numbers of dependent addresses, and this many
notifications. -/
structure Effect (p p' : ParseState) (vifs : List Nat) (notifications : Nat) : Prop where
  numPseudo : p'.numPseudo = p.numPseudo + vifs.length
  numNotifications : p'.numNotifications = p.numNotifications + notifications
  iplistn : p'.iplistn = 0
  safe : p'.Safe ↔ p.Safe ∧ (∀ dependents ∈ vifs, dependents < maxDepIf) ∧
    (vifs = [] ∨ p.numPseudo + vifs.length ≤ maxPseudo) ∧
      (notifications = 0 ∨ p.numNotifications + notifications ≤ maxNotif)

theorem Effect.refl {p : ParseState} (hZero : p.iplistn = 0) : Effect p p [] 0 where
  numPseudo := rfl
  numNotifications := rfl
  iplistn := hZero
  safe := by simp

theorem Effect.trans {p p' p'' : ParseState} {vifs vifs' : List Nat}
    {notifications notifications' : Nat} (h : Effect p p' vifs notifications)
    (h' : Effect p' p'' vifs' notifications') :
    Effect p p'' (vifs ++ vifs') (notifications + notifications') where
  numPseudo := by rw [h'.numPseudo, h.numPseudo, List.length_append, Nat.add_assoc]
  numNotifications := by rw [h'.numNotifications, h.numNotifications, Nat.add_assoc]
  iplistn := h'.iplistn
  safe := by
    rw [h'.safe, h.safe, h.numPseudo, h.numNotifications, List.forall_mem_append,
      List.append_eq_nil_iff, List.length_append, ← List.length_eq_zero_iff,
      ← List.length_eq_zero_iff]
    constructor
    · rintro ⟨⟨hSafe, hSmall, hRoom, hNotif⟩, hSmall', hRoom', hNotif'⟩
      exact ⟨hSafe, ⟨hSmall, hSmall'⟩, by omega, by omega⟩
    · rintro ⟨hSafe, ⟨hSmall, hSmall'⟩, hRoom, hNotif⟩
      exact ⟨⟨hSafe, hSmall, by omega, by omega⟩, hSmall', by omega, by omega⟩

section Items

variable {p : ParseState} (hZero : p.iplistn = 0)

include hZero

/-- `add_prefer` checks its own limit. -/
theorem effect_addPrefer (addr : Address) : Effect p (p.addPrefer addr) [] 0 := by
  rw [addPrefer]
  split_ifs with hFull
  · exact Effect.refl hZero
  · refine ⟨rfl, rfl, hZero, ?_⟩
    have hInside : (TableWrite.prefer p.preferAddress.length addr).Inside := Nat.lt_of_not_le hFull
    refine (safe_write p _).trans ?_
    simp [hInside]

theorem effect_preferPasses (mask addr : Address) (passes : Nat) (sAddr : Address) :
    Effect p (preferPasses mask addr passes sAddr p) [] 0 := by
  induction passes generalizing sAddr p with
  | zero => exact Effect.refl hZero
  | succ passes ih =>
      rw [preferPasses]
      split_ifs
      · have hFirst := effect_addPrefer hZero sAddr
        exact hFirst.trans (ih hFirst.iplistn _)
      · exact Effect.refl hZero

theorem effect_notify (ni : Notification) : Effect p (p.notify ni) [] 1 := by
  refine ⟨rfl, rfl, hZero, (safe_write p _).trans ?_⟩
  rw [TableWrite.Inside, Nat.lt_iff_add_one_le]
  simp

theorem effect_notifyArpCache : Effect p
    { p.write (.notificationName p.numNotifications arpCacheName) with
      numNotifications := p.numNotifications + 1 } [] 1 := by
  refine ⟨rfl, rfl, hZero, (safe_write p _).trans ?_⟩
  rw [TableWrite.Inside, Nat.lt_iff_add_one_le]
  simp

end Items

end ParseState

open ParseState

section Lists

variable (env : ParseEnv) {p : ParseState} (hZero : p.iplistn = 0)

include hZero

theorem NotifyItem.effect (item : NotifyItem) : Effect p (item.reduce env p) [] 1 := by
  cases item with
  | ipaddr ip throttle ping => exact effect_notify hZero _
  | arpCache ping => exact effect_notify hZero _

theorem NIPList.effect (list : NIPList) : Effect p (list.reduce env p) [] list.length := by
  induction list with
  | one item => exact item.effect env hZero
  | snoc list item ih => exact ih.trans (item.effect env ih.iplistn)

theorem PIPList.effect (list : PIPList) : Effect p (list.reduce env p) [] 0 := by
  induction list with
  | one ip => exact effect_preferPasses hZero _ _ _ _
  | snoc list ip ih => exact ih.trans (effect_preferPasses ih.iplistn _ _ _ _)

/-- The actions of a list of addresses: the head, and one dependent address after the
other. -/
theorem IPList.reduce_spec (list : IPList) :
    (list.reduce env p).numPseudo = p.numPseudo ∧
      (list.reduce env p).numNotifications = p.numNotifications ∧
        (list.reduce env p).iplistn = list.dependents ∧
          ((list.reduce env p).Safe ↔
            p.Safe ∧ p.numPseudo < maxPseudo ∧ list.dependents ≤ maxDepIf) := by
  induction list with
  | one ip =>
      refine ⟨rfl, rfl, hZero, (safe_write p _).trans ?_⟩
      simp [TableWrite.Inside, dependents]
  | snoc list ip ih =>
      obtain ⟨hPseudo, hNotif, hCount, hSafe⟩ := ih
      refine ⟨hPseudo, hNotif, congrArg (· + 1) hCount, (safe_write (list.reduce env p) _).trans ?_⟩
      rw [hSafe, TableWrite.Inside, hPseudo, hCount, dependents]
      constructor
      · rintro ⟨⟨hBefore, hRoom, _⟩, _, hSmall⟩
        exact ⟨hBefore, hRoom, hSmall⟩
      · rintro ⟨hBefore, hRoom, hSmall⟩
        exact ⟨⟨hBefore, hRoom, by omega⟩, hRoom, hSmall⟩

/-- The closing write needs one more slot than the dependent addresses. -/
theorem IPList.close_spec (list : IPList) :
    (list.close env p).numPseudo = p.numPseudo ∧
      (list.close env p).numNotifications = p.numNotifications ∧ (list.close env p).iplistn = 0 ∧
        ((list.close env p).Safe ↔
          p.Safe ∧ p.numPseudo < maxPseudo ∧ list.dependents < maxDepIf) := by
  obtain ⟨hPseudo, hNotif, hCount, hSafe⟩ := list.reduce_spec env hZero
  by_cases hCheck : (list.reduce env p).iplistn < maxPseudo
  · have hClose : list.close env p = { (list.reduce env p).write
        (.endExtraIfs (list.reduce env p).numPseudo (list.reduce env p).iplistn) with
          iplistn := 0 } := by
      simp only [close, if_pos hCheck]
    rw [hClose]
    refine ⟨hPseudo, hNotif, rfl, (safe_write (list.reduce env p) _).trans ?_⟩
    rw [hSafe, TableWrite.Inside, hPseudo, hCount]
    constructor
    · rintro ⟨⟨hBefore, hRoom, _⟩, _, hSmall⟩
      exact ⟨hBefore, hRoom, hSmall⟩
    · rintro ⟨hBefore, hRoom, hSmall⟩
      exact ⟨⟨hBefore, hRoom, hSmall.le⟩, hRoom, hSmall⟩
  · have hClose : list.close env p = { list.reduce env p with iplistn := 0 } := by
      simp only [close, if_neg hCheck]
    rw [hClose]
    refine ⟨hPseudo, hNotif, rfl, Iff.trans hSafe ?_⟩
    rw [hCount] at hCheck
    constructor
    · rintro ⟨_, _, hSmall⟩
      exact absurd (hSmall.trans_lt (by decide)) hCheck
    · rintro ⟨_, _, hSmall⟩
      exact absurd (hSmall.trans (by decide)) hCheck

theorem VIF.reduce_spec (vif : VIF) :
    (vif.reduce env p).numPseudo = p.numPseudo ∧
      (vif.reduce env p).numNotifications = p.numNotifications ∧ (vif.reduce env p).iplistn = 0 ∧
        ((vif.reduce env p).Safe ↔
          p.Safe ∧ p.numPseudo < maxPseudo ∧ vif.dependents < maxDepIf) := by
  cases vif with
  | ipaddr ip =>
      refine ⟨rfl, rfl, hZero, (safe_write p _).trans ?_⟩
      simp [TableWrite.Inside, dependents]
  | closedIPList list => exact list.close_spec env hZero

theorem VIF.effect (vif : VIF) : Effect p
    { vif.reduce env p with numPseudo := (vif.reduce env p).numPseudo + 1 } [vif.dependents] 0 := by
  obtain ⟨hPseudo, hNotif, hCount, hSafe⟩ := vif.reduce_spec env hZero
  refine ⟨congrArg (· + 1) hPseudo, hNotif, hCount, Iff.trans hSafe ?_⟩
  rw [List.forall_mem_singleton, List.length_singleton]
  constructor
  · rintro ⟨hBefore, hRoom, hSmall⟩
    exact ⟨hBefore, hSmall, .inr hRoom, .inl rfl⟩
  · rintro ⟨hBefore, hSmall, hRoom, _⟩
    exact ⟨hBefore, hRoom.resolve_left (List.cons_ne_nil _ _), hSmall⟩

theorem VIFList.effect (list : VIFList) : Effect p (list.reduce env p) list.dependents 0 := by
  induction list with
  | one vif => exact vif.effect env hZero
  | snoc list vif ih => exact ih.trans (vif.effect env ih.iplistn)

/-- Only three settings fill tables that may overflow. -/
theorem Setting.effect (setting : Setting) :
    Effect p (setting.reduce env p) setting.dependents setting.notifications := by
  cases setting with
  | notifyArpCache => exact effect_notifyArpCache hZero
  | notify list =>
      cases list with
      | none => exact Effect.refl hZero
      | braces list => exact list.effect env hZero
  | preferNone => exact effect_addPrefer hZero _
  | preferString text =>
      rw [reduce]
      split_ifs
      · exact Effect.refl hZero
      · exact effect_addPrefer hZero _
  | preferIpaddr ip => exact effect_preferPasses hZero _ _ _ _
  | prefer list => exact list.effect env hZero
  | vifs list => exact list.effect env hZero
  | _ => exact Effect.refl hZero

theorem Settings.effect (settings : Settings) :
    Effect p (settings.reduce env p) settings.dependents settings.notifications := by
  induction settings generalizing p with
  | nil => exact Effect.refl hZero
  | cons setting settings ih =>
      have hFirst := setting.effect env hZero
      exact hFirst.trans (ih hFirst.iplistn)

end Lists

/-- The parse of a configuration writes inside the tables only. -/
def WritesInside (env : ParseEnv) (config : Settings) : Prop :=
  (config.reduce env ParseState.initial).Safe

/-- A configuration keeps its writes inside the tables exactly if it does not have too many
virtual interfaces, dependent addresses of one of them, or notifications. -/
theorem writesInside_iff (env : ParseEnv) (config : Settings) : WritesInside env config ↔
    config.dependents.length ≤ maxPseudo ∧
      (∀ dependents ∈ config.dependents, dependents < maxDepIf) ∧
      config.notifications ≤ maxNotif := by
  have hStart : ParseState.initial.Safe := fun w hMem => absurd hMem List.not_mem_nil
  have hPseudo : ParseState.initial.numPseudo = 0 := rfl
  have hNotif : ParseState.initial.numNotifications = 0 := rfl
  rw [WritesInside, (config.effect env rfl).safe, hPseudo, hNotif,
    ← List.length_eq_zero_iff]
  constructor
  · rintro ⟨_, hSmall, hRoom, hNotifs⟩
    exact ⟨by omega, hSmall, by omega⟩
  · rintro ⟨hRoom, hSmall, hNotifs⟩
    exact ⟨hStart, hSmall, by omega, by omega⟩

/-- A group of an address and `k` dependent ones. -/
def groupOf (ip : IpValue) : Nat → IPList
  | 0 => .one ip
  | k + 1 => .snoc (groupOf ip k) ip

/-- `VirtualInterfaces { { eth0:10.0.0.1/32 .. } }` with `k` dependent addresses. -/
def oneGroup (k : Nat) : Settings :=
  .cons (.vifs (.one (.closedIPList
    (groupOf ⟨['e', 't', 'h', '0'], 0x0100000a#32, 32, 0x00ffffff#32⟩ k)))) .nil

/-- A group that fills the array is closed behind it. -/
theorem not_writesInside_filled : ¬ WritesInside ⟨modular .little, 0, 0#32⟩ (oneGroup 30) := by
  intro h
  have hEffect := (oneGroup 30).effect ⟨modular .little, 0, 0#32⟩ (p := ParseState.initial) rfl
  have hSmall := (hEffect.safe.mp h).2.1 30 (by decide)
  exact absurd hSmall (by decide)

end Wackamole
