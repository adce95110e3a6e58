import Wackamole.Alone

/-! A notifier whose entry has only its head address. -/
namespace Wackamole

open HostWords Batches Progress

variable {n : Nat} {o : ByteOrder} {vif : Interface} {nis : List Notification}
  {ni : Notification} {i : Nat} {snapshot : List ArpEntry}

/-- What is sent for a notification to the only address. The code lets nothing through for a
negative throttle, and for a netblock on an interface without a name. -/
def due (o : ByteOrder) (snapshot : List ArpEntry) (vif : Interface) (ni : Notification) :
    List SpoofRequest :=
  if ni.throttle < 0 ∨ ni.isArpCache = false ∧ vif.ifname = [] then []
  else wanted o vif ni snapshot

/-- At most one notification is to the ARP cache. -/
def OneArpCache (nis : List Notification) : Prop := (nis.filter Notification.isArpCache).length ≤ 1

instance (nis : List Notification) : Decidable (OneArpCache nis) := Nat.decLe _ _

theorem OneArpCache.only (h : OneArpCache nis) {i i' : Nat} {ni ni' : Notification}
    (hNi : nis[i]? = some ni) (hNi' : nis[i']? = some ni') (hKind : ni.isArpCache = true)
    (hKind' : ni'.isArpCache = true) : i = i' := by
  induction nis generalizing i i' with
  | nil => cases hNi
  | cons first nis ih =>
      rw [OneArpCache, List.filter_cons] at h
      have hRest (hFirst : first.isArpCache = true) (k : Nat) : ∀ ni, nis[k]? = some ni →
          ni.isArpCache ≠ true := by
        intro ni hNi hKind
        rw [if_pos hFirst, List.length_cons] at h
        have hMem := List.mem_filter.mpr ⟨List.mem_of_getElem? hNi, hKind⟩
        have hPos := List.length_pos_of_mem hMem
        omega
      cases i with
      | zero =>
          cases i' with
          | zero => rfl
          | succ k =>
              cases hNi
              exact absurd hKind' (hRest hKind k ni' hNi')
      | succ k =>
          cases i' with
          | zero =>
              cases hNi'
              exact absurd hKind (hRest hKind' k ni hNi)
          | succ k' =>
              have hOne : OneArpCache nis := by
                split_ifs at h
                · exact Nat.le_of_succ_le h
                · exact h
              rw [ih hOne hNi hNi']

/-- An `int` can count what the network of an address has in common with each block. -/
def Countable (o : ByteOrder) (vif : Interface) (nis : List Notification) : Prop :=
  ∀ ni ∈ nis, ni.isArpCache = false → vif.ifname = ni.destination.ifname →
    overlapSize o vif ni.destination < 2 ^ 31

instance (o : ByteOrder) (vif : Interface) (nis : List Notification) :
    Decidable (Countable o vif nis) := by
  unfold Countable; infer_instance

theorem works_single (stale : Nat → Nat → Nat → Interface)
    (hArp : OneArpCache nis)
    (hSnapshot : ∀ e ∈ snapshot, e.ip ≠ 0#32)
    (hBound : Countable o vif nis) (hNi : nis[i]? = some ni) :
    Works ni.throttle.toNat (due o snapshot vif ni) fun m =>
      sentTo 0 (((invoked snapshot).after o [vif] nis stale m).sentFor i) := by
  by_cases hThrottle : ni.throttle < 0
  · rw [due, if_pos (.inl hThrottle)]
    exact works_negative stale snapshot hNi hThrottle _ _
  cases hKind : ni.isArpCache with
  | true =>
      rw [due, if_neg (by simp [hThrottle, hKind])]
      refine works_arpCache stale hNi hKind (Int.not_lt.mp hThrottle) ?_ hSnapshot ?_ rfl
      · exact fun i' ni' hNi' hKind' => hArp.only hNi' hNi hKind' hKind
      · intro e _ slot slot' vif vif' hVif hVif' _ _
        have hSlot := (List.getElem?_eq_some_iff.mp hVif).1
        have hSlot' := (List.getElem?_eq_some_iff.mp hVif').1
        simp only [List.length_singleton] at hSlot hSlot'
        omega
  | false =>
      by_cases hNamed : vif.ifname = []
      · rw [due, if_pos (.inr ⟨hKind, hNamed⟩)]
        exact works_netblock_nobody stale snapshot hNi hKind
          (fun vif' hMem _ => .inr (List.mem_singleton.mp hMem ▸ hNamed)) _ _
      · rw [due, if_neg (by simp [hThrottle, hNamed])]
        refine works_netblock stale snapshot hNi hKind ?_ rfl
        by_cases hName : vif.ifname = ni.destination.ifname
        · exact .inr ⟨[], vif, [], rfl, fun _ h => absurd h List.not_mem_nil, hName, hNamed,
            Int.not_lt.mp hThrottle, hBound ni (List.mem_of_getElem? hNi) hKind hName,
            fun _ h => absurd h List.not_mem_nil⟩
        · exact .inl fun vif' hMem hName' => absurd (List.mem_singleton.mp hMem ▸ hName') hName

/-- With one address the requests for a notification are all for this address. -/
theorem sentTo_single (stale : Nat → Nat → Nat → Interface) (m : Nat) :
    sentTo 0 (((invoked snapshot).after o [vif] nis stale m).sentFor i) =
      (((invoked snapshot).after o [vif] nis stale m).sentFor i).map Announcement.request := by
  rw [sentTo, List.filter_eq_self.mpr]
  intro a ha
  obtain ⟨⟨vif', hVif⟩, -⟩ := mem_log stale (List.mem_of_mem_filter ha)
  have hSlot := (List.getElem?_eq_some_iff.mp hVif).1
  rw [List.length_singleton] at hSlot
  exact decide_eq_true (by omega)

/-- No pass sends more for a notification than its throttle. -/
theorem throttled_single (stale : Nat → Nat → Nat → Interface) (hArp : OneArpCache nis)
    (hSnapshot : ∀ e ∈ snapshot, e.ip ≠ 0#32)
    (hBound : Countable o vif nis) (hNi : nis[i]? = some ni)
    (hThrottle : 0 < ni.throttle) (m : Nat) :
    let state := (invoked snapshot).after o [vif] nis stale
    (((state (m + 1)).sentFor i).length : Int) ≤ ((state m).sentFor i).length + ni.throttle := by
  intro state
  have hLength : (sentTo 0 ((state (m + 1)).sentFor i)).length ≤
      (sentTo 0 ((state m).sentFor i)).length + ni.throttle.toNat :=
    (works_single stale hArp hSnapshot hBound hNi).length_le (by omega) m
  rw [sentTo_single, sentTo_single, List.length_map, List.length_map] at hLength
  have hCap : (ni.throttle.toNat : Int) = ni.throttle := Int.toNat_of_nonneg (Int.le_of_lt hThrottle)
  rw [← hCap]
  exact_mod_cast hLength

/-- The notifier stops when every notification has got what is due. -/
theorem stops_single (stale : Nat → Nat → Nat → Interface) (hArp : OneArpCache nis)
    (hSnapshot : ∀ e ∈ snapshot, e.ip ≠ 0#32)
    (hBound : Countable o vif nis) :
    let state := (invoked snapshot).after o [vif] nis stale
    ∃ last, Stops state last ∧ ∀ (i : Nat) (ni : Notification), nis[i]? = some ni →
      ((state last).sentFor i).map Announcement.request = due o snapshot vif ni := by
  intro state
  obtain ⟨last, hStops, hDue⟩ : ∃ last, Stops state last ∧
      ∀ (slot : Nat) (vif' : Interface) (i : Nat) (ni : Notification), [vif][slot]? = some vif' →
        nis[i]? = some ni → sentTo slot ((state last).sentFor i) = due o snapshot vif' ni :=
    stops_of_works (due o snapshot) (fun slot vif' i ni hVif hNi => by
      obtain ⟨hSlot, rfl⟩ := List.getElem?_eq_some_iff.mp hVif
      rw [List.length_singleton, Nat.lt_one_iff] at hSlot
      subst hSlot
      exact works_single stale hArp hSnapshot hBound hNi)
  refine ⟨last, hStops, fun i ni hNi => ?_⟩
  rw [← hDue 0 vif i ni rfl hNi, sentTo_single]

/-- Where nothing is due, nothing is ever sent. -/
theorem silent_single (stale : Nat → Nat → Nat → Interface) (hArp : OneArpCache nis)
    (hSnapshot : ∀ e ∈ snapshot, e.ip ≠ 0#32)
    (hBound : Countable o vif nis)
    (hNone : ∀ ni ∈ nis, due o snapshot vif ni = []) (m : Nat) :
    ((invoked snapshot).after o [vif] nis stale m).log = [] := by
  rw [List.eq_nil_iff_forall_not_mem]
  intro a ha
  obtain ⟨-, ni, hNi⟩ := mem_log stale ha
  have hWorks : Works ni.throttle.toNat (due o snapshot vif ni) _ :=
    works_single stale hArp hSnapshot hBound hNi
  rw [hNone ni (List.mem_of_getElem? hNi)] at hWorks
  have hSent := hWorks.eq_nil m
  rw [sentTo_single, List.map_eq_nil_iff, sentFor, List.filter_eq_nil_iff] at hSent
  exact hSent a ha (decide_eq_true rfl)

theorem entryQueue_of_nonzero (hSnapshot : ∀ e ∈ snapshot, e.ip ≠ 0#32) :
    entryQueue o vif ni snapshot = (snapshot.filter fun e =>
      decide (Covers o vif.ipaddr vif.network e.ip)).map (entryRequest vif ni) := by
  rw [entryQueue]
  congr 1
  refine List.filter_congr fun e hMem => ?_
  simp [heard, hSnapshot e hMem]

theorem count_blockRequest (x : Address) :
    (((targets o vif ni.destination).map (blockRequest vif ni)).map SpoofRequest.remoteIp).count x =
      if Covers o vif.ipaddr vif.network x ∧
        Covers o ni.destination.ipaddr ni.destination.netmask x then 1 else 0 := by
  have hRemote : ((targets o vif ni.destination).map (blockRequest vif ni)).map
      SpoofRequest.remoteIp = targets o vif ni.destination := by
    rw [List.map_map]
    exact List.map_id _
  rw [hRemote, nodup_targets.count]
  exact if_congr mem_targets rfl rfl

section Notifier

variable (cfg : SpoofConfig n) (stale : Nat → Interface) (ptr : EntryPtr n) (s : Spoofer n)

/-- The first call of `arp_spoof_notifier` for an entry with its head address only. -/
theorem prepare_single (hFirst : (s.data ptr).lVIF = [])
    (hHead : (cfg.pseudoIf (Spoofer.entryOf ptr)).ipaddr ≠ 0#32)
    (hOnly : (cfg.extraIfs (Spoofer.entryOf ptr)).takeWhile (fun vif => vif.ipaddr ≠ 0#32) = []) :
    (Spoofer.prepare cfg false ptr (s.data ptr)).lVIF = [cfg.pseudoIf (Spoofer.entryOf ptr)] := by
  simp only [Spoofer.prepare, Bool.false_eq_true, if_false, hFirst, hOnly, List.nil_append,
    List.append_nil]
  exact List.filter_cons_of_pos (decide_eq_true hHead)

theorem passes_log (m : Nat) :
    let d := Spoofer.prepare cfg false ptr (s.data ptr)
    (s.passes cfg stale ptr m).2 = ((invoked (s.data ptr).arpcache).after cfg.byteOrder d.lVIF
      cfg.notifications (fun m _ _ => stale m) m).log.map Announcement.request := by
  cases m with
  | zero => rfl
  | succ m => exact (s.passes_eq cfg stale ptr m).2

/-- 10.0.0.1, with one of the four addresses of a block in each call, and an ARP cache of which
one entry is in its network. -/
def blockAndCache : SpoofConfig 1 :=
  { Spoofer.throttled with
    notifications := Spoofer.throttled.notifications ++
      [⟨⟨['a', 'r', 'p', '-', 'c', 'a', 'c', 'h', 'e'], 0#32, 0#32, 0#32⟩, 0, 0⟩] }

end Notifier

/-- 10.0.0.1 with the block 10.0.0.0/30 on an interface of the same name. -/
def oneBlock (ifname : List Char) (throttle : Int) : SpoofConfig 1 where
  byteOrder := .little
  pseudoIf _ := ⟨ifname, 0x0100000a#32, 0xffffffff#32, 0x00ffffff#32⟩
  extraIfs _ := []
  notifications := [⟨⟨ifname, 0x0000000a#32, 0xfcffffff#32, 0#32⟩, throttle, 0⟩]

theorem oneBlock_silent_of (ifname : List Char) (throttle : Int)
    (hKind : (⟨⟨ifname, 0x0000000a#32, 0xfcffffff#32, 0#32⟩, throttle, 0⟩ : Notification).isArpCache =
      false) (hNone : throttle < 0 ∨ ifname = []) (stale : Nat → Interface) (m : Nat) :
    (((Spoofer.initial 1).acquire 0).passes (oneBlock ifname throttle) stale (.allocation 0) m).2 =
      [] := by
  rw [passes_log, prepare_single _ _ _ rfl (show 0x0100000a#32 ≠ 0#32 by decide) rfl,
    List.map_eq_nil_iff]
  apply silent_single
  · exact List.length_filter_le _ _
  · exact fun e hMem => absurd hMem List.not_mem_nil
  · intro ni hMem _ _
    rw [List.mem_singleton.mp hMem]
    show overlapSize .little ⟨ifname, _, _, _⟩ ⟨ifname, _, _, _⟩ < 2 ^ 31
    simp only [overlapSize, overlapFirst]
    decide
  · intro ni hMem
    rw [List.mem_singleton.mp hMem, due, if_pos]
    exact hNone.imp_right fun h => ⟨hKind, h⟩

end Wackamole
