import Wackamole.Delivery

/-! Notifications that no two addresses of an entry share. They work off what is due to each
address. -/
namespace Wackamole

open HostWords Batches

variable {o : ByteOrder} {vifs : List Interface} {nis : List Notification}
  {ni : Notification} {i : Nat}

/-- At most one address has anything to do with a netblock notification, and it gets there:
it has a name, the throttle and the count are not negative, and nobody with this name comes
before it, or after it while its own requests are not all sent. -/
def NetblockAlone (o : ByteOrder) (vifs : List Interface) (ni : Notification) : Prop :=
  (∀ vif ∈ vifs, vif.ifname = ni.destination.ifname → overlapSize o vif ni.destination = 0) ∨
  ∃ before vif later, vifs = before ++ vif :: later ∧
    (∀ vif' ∈ before, vif'.ifname ≠ ni.destination.ifname) ∧
    vif.ifname = ni.destination.ifname ∧ vif.ifname ≠ [] ∧ 0 ≤ ni.throttle ∧
    overlapSize o vif ni.destination < 2 ^ 31 ∧
    ∀ vif' ∈ later, vif'.ifname = ni.destination.ifname →
      overlapSize o vif' ni.destination = 0 ∧
        (ni.throttle = 0 ∨ (overlapSize o vif ni.destination : Int) ≤ ni.throttle)

/-- No entry is in the networks of two addresses. -/
def ApartOn (o : ByteOrder) (vifs : List Interface) (ac : List ArpEntry) : Prop :=
  ∀ e ∈ ac, ∀ (slot slot' : Nat) (vif vif' : Interface), vifs[slot]? = some vif →
    vifs[slot']? = some vif' → heard o vif e = true → heard o vif' e = true → slot = slot'

/-- There is nobody to tell for an `arp-cache` notification, or it is the only one and no entry
is in the networks of two addresses. -/
def ArpCacheAlone (o : ByteOrder) (vifs : List Interface) (nis : List Notification)
    (snapshot : List ArpEntry) (i : Nat) (ni : Notification) : Prop :=
  (∀ vif ∈ vifs, ∀ e ∈ snapshot, heard o vif e = false) ∨
  (0 ≤ ni.throttle ∧ (∀ i' ni', nis[i']? = some ni' → ni'.isArpCache = true → i' = i) ∧
    ApartOn o vifs snapshot)

section Netblock

open Progress

/-- Calls with another name, or after everything has been sent, do nothing. -/
theorem foldl_netblockStep_idle {calls : List Call} {t : Int × List Announcement}
    (h : ∀ c ∈ calls, t.1 = 0 ∨ c.vif.ifname ≠ c.ni.destination.ifname) :
    calls.foldl (netblockStep o) t = t := by
  induction calls with
  | nil => rfl
  | cons c calls ih =>
      have hSame : netblockStep o t c = t := by
        rw [netblockStep, Call.netblock_idle (h c List.mem_cons_self)]
        exact congrArg (Prod.mk _) (List.append_nil _)
      rw [List.foldl_cons, hSame]
      exact ih fun c' hMem => h c' (List.mem_cons_of_mem c hMem)

/-- The pass of an address that is alone: it takes its batch. -/
theorem foldl_netblockStep_alone {before later : List Call} {c : Call}
    {t : Int × List Announcement} (hBefore : ∀ c' ∈ before, c'.vif.ifname ≠ c'.ni.destination.ifname)
    (hName : c.vif.ifname = c.ni.destination.ifname) (hNamed : c.vif.ifname ≠ [])
    (hSize : 0 < c.size o) (hBound : c.size o < 2 ^ 31) (hThrottle : 0 ≤ c.ni.throttle)
    (hLater : ∀ c' ∈ later, c'.vif.ifname = c'.ni.destination.ifname →
      c.ni.throttle = 0 ∨ (c.size o : Int) ≤ c.ni.throttle)
    (hCount : t.1 = -1 ∨ 0 ≤ t.1 ∧ t.1 ≤ c.size o) :
    let t' := (before ++ c :: later).foldl (netblockStep o) t
    t'.2 = t.2 ++ announce c (batch c.ni.throttle.toNat (c.blockQueue o t.1)) ∧
      (0 ≤ t'.1 ∧ t'.1 ≤ c.size o) ∧
      c.blockQueue o t'.1 = rest c.ni.throttle.toNat (c.blockQueue o t.1) := by
  obtain ⟨hSent, hRange, hQueue⟩ := Call.netblock_overlap hName hNamed hSize hBound hThrottle hCount
  rw [List.foldl_append, foldl_netblockStep_idle fun c' hMem => .inr (hBefore c' hMem),
    List.foldl_cons]
  have hDone : later.foldl (netblockStep o) (netblockStep o t c) = netblockStep o t c := by
    by_cases hShared : ∃ c' ∈ later, c'.vif.ifname = c'.ni.destination.ifname
    · obtain ⟨c', hMem, hName'⟩ := hShared
      have hAll : rest c.ni.throttle.toNat (c.blockQueue o t.1) = [] := by
        have hLength : (c.blockQueue o t.1).length ≤ c.size o := by
          rw [Call.blockQueue, List.length_map, List.length_drop, Call.length_targets_eq]
          exact Nat.sub_le _ _
        obtain hFree | hEnough := hLater c' hMem hName'
        · rw [rest, if_pos (by omega)]
        · rw [rest, if_neg (by omega), List.drop_eq_nil_iff]
          omega
      have hZero : (c.netblock o t.1).1 = 0 := by
        rw [hAll, Call.blockQueue, if_neg (by omega), List.map_eq_nil_iff, List.drop_eq_nil_iff,
          Call.length_targets_eq] at hQueue
        omega
      exact foldl_netblockStep_idle fun _ _ => .inl hZero
    · exact foldl_netblockStep_idle fun c' hMem => .inr fun hName' => hShared ⟨c', hMem, hName'⟩
  rw [hDone]
  exact ⟨congrArg (fun sent => t.2 ++ announce c sent) hSent, hRange, hQueue⟩

/-- The address that a netblock notification is for, among the addresses of an entry. -/
structure Foremost (o : ByteOrder) (ni : Notification) (before : List Interface)
    (first : Interface) (later : List Interface) : Prop where
  others : ∀ vif ∈ before, vif.ifname ≠ ni.destination.ifname
  name : first.ifname = ni.destination.ifname
  named : first.ifname ≠ []
  throttle : 0 ≤ ni.throttle
  size : 0 < overlapSize o first ni.destination
  bound : overlapSize o first ni.destination < 2 ^ 31
  later : ∀ vif ∈ later, vif.ifname = ni.destination.ifname →
    overlapSize o vif ni.destination = 0 ∧
      (ni.throttle = 0 ∨ (overlapSize o first ni.destination : Int) ≤ ni.throttle)

variable {before later : List Interface} {first : Interface}

theorem NetblockAlone.foremost (hAlone : NetblockAlone o vifs ni)
    (hSome : ¬∀ vif ∈ vifs, vif.ifname = ni.destination.ifname →
      overlapSize o vif ni.destination = 0) :
    ∃ before first later, vifs = before ++ first :: later ∧ Foremost o ni before first later := by
  obtain ⟨before, first, later, rfl, hBefore, hName, hNamed, hThrottle, hBound, hLater⟩ :=
    hAlone.resolve_left hSome
  have hSize : 0 < overlapSize o first ni.destination := by
    refine Nat.pos_of_ne_zero fun hZero => hSome fun vif hMem hName => ?_
    simp only [List.mem_append, List.mem_cons] at hMem
    obtain hMem | rfl | hMem := hMem
    · exact absurd hName (hBefore vif hMem)
    · exact hZero
    · exact (hLater vif hMem hName).1
  exact ⟨before, first, later, rfl, hBefore, hName, hNamed, hThrottle, hSize, hBound, hLater⟩

theorem Foremost.pass (h : Foremost o ni before first later) (stale : Nat → Interface)
    {t : Int × List Announcement}
    (hCount : t.1 = -1 ∨ 0 ≤ t.1 ∧ t.1 ≤ overlapSize o first ni.destination) :
    let c := slotCall ni i stale (first, before.length)
    let t' := (slotCalls (before ++ first :: later) ni i stale).foldl (netblockStep o) t
    t'.2 = t.2 ++ announce c (batch ni.throttle.toNat (c.blockQueue o t.1)) ∧
      (0 ≤ t'.1 ∧ t'.1 ≤ overlapSize o first ni.destination) ∧
      c.blockQueue o t'.1 = rest ni.throttle.toNat (c.blockQueue o t.1) := by
  rw [slotCalls_append]
  refine foldl_netblockStep_alone ?_ h.name h.named h.size h.bound h.throttle ?_ hCount
  · intro c hMem
    obtain ⟨hVif, hNi, -⟩ := mem_slotCalls hMem
    rw [hNi]
    exact h.others c.vif (List.mem_of_getElem? hVif)
  · intro c hMem hName
    obtain ⟨x, hMem', rfl⟩ := List.mem_map.mp hMem
    exact (h.later x.1 (List.fst_mem_of_mem_zipIdx hMem') hName).2

theorem wanted_netblock {vif : Interface} {snapshot : List ArpEntry}
    (hArp : ni.isArpCache = false) (hName : vif.ifname = ni.destination.ifname) :
    wanted o vif ni snapshot = (targets o vif ni.destination).map (blockRequest vif ni) := by
  rw [wanted, hArp, if_neg Bool.false_ne_true, if_pos hName]

theorem wanted_disjoint {vif : Interface} {snapshot : List ArpEntry}
    (hArp : ni.isArpCache = false) (hNone : vif.ifname = ni.destination.ifname →
      overlapSize o vif ni.destination = 0) : wanted o vif ni snapshot = [] := by
  by_cases hName : vif.ifname = ni.destination.ifname
  · rw [wanted_netblock hArp hName, List.map_eq_nil_iff, ← List.length_eq_zero_iff, length_targets]
    exact hNone hName
  · rw [wanted, hArp, if_neg Bool.false_ne_true, if_neg hName]

/-- Nothing is due to the other addresses. -/
theorem Foremost.wanted_other (h : Foremost o ni before first later)
    (hArp : ni.isArpCache = false) {slot : Nat} {vif : Interface} {snapshot : List ArpEntry}
    (hVif : (before ++ first :: later)[slot]? = some vif) (hSlot : slot ≠ before.length) :
    wanted o vif ni snapshot = [] := by
  apply wanted_disjoint hArp
  intro hName
  obtain hLess | hMore := Nat.lt_or_gt_of_ne hSlot
  · rw [List.getElem?_append_left hLess] at hVif
    exact absurd hName (h.others vif (List.mem_of_getElem? hVif))
  · obtain ⟨k, hk⟩ : ∃ k, slot - before.length = k + 1 := ⟨slot - before.length - 1, by omega⟩
    rw [List.getElem?_append_right (Nat.le_of_lt hMore), hk, List.getElem?_cons_succ] at hVif
    exact (h.later vif (List.mem_of_getElem? hVif) hName).1

variable (stale : Nat → Nat → Nat → Interface) (snapshot : List ArpEntry)

theorem Foremost.works_first (h : Foremost o ni before first later) (hNi : nis[i]? = some ni)
    (hArp : ni.isArpCache = false) :
    Works ni.throttle.toNat (wanted o first ni snapshot) fun m => sentTo before.length
      (((invoked snapshot).after o (before ++ first :: later) nis stale m).sentFor i) := by
  apply works_of_invariant
    (fun m => netblockShare i ((invoked snapshot).after o (before ++ first :: later) nis stale m))
    (fun t => t.1 = -1 ∨ 0 ≤ t.1 ∧ t.1 ≤ overlapSize o first ni.destination)
    (fun t => (slotCall ni i (fun _ => first) (first, before.length)).blockQueue o t.1)
    (fun t => sentTo before.length t.2)
  · exact .inl rfl
  · rfl
  · rw [wanted_netblock hArp h.name]
    rfl
  · intro m hCount
    obtain ⟨hSent, hRange, hQueue⟩ := h.pass (fun slot => stale m slot i) hCount
    rw [netblockShare_after stale snapshot hNi hArp, hSent, sentTo_append, sentTo_announce]
    exact ⟨.inr hRange, congrArg _ (if_pos rfl), hQueue⟩

theorem Foremost.works_other (h : Foremost o ni before first later) (hNi : nis[i]? = some ni)
    (hArp : ni.isArpCache = false) (cap : Nat) {slot : Nat} (hSlot : slot ≠ before.length) :
    Works cap [] fun m => sentTo slot
      (((invoked snapshot).after o (before ++ first :: later) nis stale m).sentFor i) := by
  apply works_of_invariant
    (fun m => netblockShare i ((invoked snapshot).after o (before ++ first :: later) nis stale m))
    (fun t => t.1 = -1 ∨ 0 ≤ t.1 ∧ t.1 ≤ overlapSize o first ni.destination)
    (fun _ => []) (fun t => sentTo slot t.2)
  · exact .inl rfl
  · rfl
  · rfl
  · intro m hCount
    obtain ⟨hSent, hRange, -⟩ := h.pass (fun slot => stale m slot i) hCount
    rw [netblockShare_after stale snapshot hNi hArp, hSent, sentTo_append, sentTo_announce]
    exact ⟨.inr hRange, congrArg _ ((if_neg (Ne.symm hSlot)).trans batch_nil.symm), rest_nil.symm⟩

/-- A netblock notification with at most one address works off what is due to each. -/
theorem works_netblock (hNi : nis[i]? = some ni) (hArp : ni.isArpCache = false)
    (hAlone : NetblockAlone o vifs ni) {slot : Nat} {vif : Interface}
    (hVif : vifs[slot]? = some vif) :
    Works ni.throttle.toNat (wanted o vif ni snapshot) fun m =>
      sentTo slot (((invoked snapshot).after o vifs nis stale m).sentFor i) := by
  by_cases hNobody : ∀ vif ∈ vifs, vif.ifname = ni.destination.ifname →
      overlapSize o vif ni.destination = 0
  · rw [wanted_disjoint hArp (hNobody vif (List.mem_of_getElem? hVif))]
    exact works_netblock_nobody stale snapshot hNi hArp
      (fun vif hMem hName => .inl (hNobody vif hMem hName)) _ slot
  obtain ⟨before, first, later, rfl, hForemost⟩ := hAlone.foremost hNobody
  by_cases hSlot : slot = before.length
  · subst hSlot
    obtain rfl : first = vif := by simpa using hVif
    exact hForemost.works_first stale snapshot hNi hArp
  · rw [hForemost.wanted_other hArp hVif hSlot]
    exact hForemost.works_other stale snapshot hNi hArp _ hSlot

end Netblock

section ArpCache

open Progress

theorem mem_zeroed {vif : Interface} {ac ac' : List ArpEntry} {e : ArpEntry}
    (h : List.Forall₂ (Zeroed o vif) ac ac') (hMem : e ∈ ac') : e ∈ ac ∨ e.ip = 0#32 := by
  induction h with
  | nil => exact .inl hMem
  | cons hHead _ ih =>
      obtain rfl | hMem := List.mem_cons.mp hMem
      · obtain rfl | ⟨-, rfl⟩ := hHead
        · exact .inl List.mem_cons_self
        · exact .inr rfl
      · exact (ih hMem).imp_left (List.mem_cons_of_mem _)

theorem ApartOn.zeroed {vif : Interface} {ac ac' : List ArpEntry} (hApart : ApartOn o vifs ac)
    (h : List.Forall₂ (Zeroed o vif) ac ac') : ApartOn o vifs ac' := by
  intro e hMem slot slot' vif vif' hVif hVif' hHeard hHeard'
  obtain hOld | hZero := mem_zeroed h hMem
  · exact hApart e hOld slot slot' vif vif' hVif hVif' hHeard hHeard'
  · rw [not_heard_zero hZero] at hHeard
    cases hHeard

/-- The count is the length of the copy, or will be. -/
def CountsWhole (count : Int) (ac : List ArpEntry) : Prop :=
  count = ac.length ∨ count = -1 ∧ ∀ e ∈ ac, e.ip ≠ 0#32

/-- In a pass every address takes its batch. -/
theorem foldl_arpCacheStep {stale : Nat → Interface} (hThrottle : 0 ≤ ni.throttle)
    {t : Int × List ArpEntry × List Announcement} (hCount : CountsWhole t.1 t.2.1)
    (hApart : ApartOn o vifs t.2.1) :
    let t' := (slotCalls vifs ni i stale).foldl (arpCacheStep o) t
    (CountsWhole t'.1 t'.2.1 ∧ ApartOn o vifs t'.2.1) ∧
      ∀ (slot : Nat) (vif : Interface), vifs[slot]? = some vif →
        sentTo slot t'.2.2 =
          sentTo slot t.2.2 ++ batch ni.throttle.toNat (entryQueue o vif ni t.2.1) ∧
        entryQueue o vif ni t'.2.1 = rest ni.throttle.toNat (entryQueue o vif ni t.2.1) := by
  have hLoop := Loops.foldl_view_of_invariant
    (fun t : Int × List ArpEntry × List Announcement =>
      CountsWhole t.1 t.2.1 ∧ ApartOn o vifs t.2.1)
    (fun t x => (sentTo x.2 t.2.2, entryQueue o x.1 ni t.2.1))
    (fun t x => arpCacheStep o t (slotCall ni i stale x))
    (fun _ v => (v.1 ++ batch ni.throttle.toNat v.2, rest ni.throttle.toNat v.2))
    vifs.zipIdx ?_ vifs.zipIdx (fun _ h => h) ?_ t ⟨hCount, hApart⟩
  · rw [slotCalls, List.foldl_map]
    refine ⟨hLoop.1, fun slot vif hVif => ?_⟩
    have hMem : (vif, slot) ∈ vifs.zipIdx := List.mem_zipIdx_iff_getElem?.mpr hVif
    have hView := hLoop.2 (vif, slot) hMem
    rw [if_pos hMem, Prod.mk.injEq] at hView
    exact hView
  · rintro t ⟨vif, slot⟩ hMem ⟨hCount, hApart⟩
    have hVif := List.mem_zipIdx_iff_getElem?.mp hMem
    obtain ⟨hWhole, hZeroed, hSent, hQueue⟩ :=
      Call.arpCache_batch (o := o) (c := slotCall ni i stale (vif, slot)) hThrottle hCount
    refine ⟨⟨.inl ?_, hApart.zeroed hZeroed⟩, ?_⟩
    · exact hWhole.trans (congrArg _ hZeroed.length_eq)
    · rintro ⟨vif', slot'⟩ hMem'
      have hVif' := List.mem_zipIdx_iff_getElem?.mp hMem'
      by_cases hSlot : slot' = slot
      · subst hSlot
        obtain rfl : vif = vif' := Option.some.inj (hVif.symm.trans hVif')
        rw [if_pos rfl]
        refine Prod.ext ?_ hQueue
        dsimp only [arpCacheStep]
        rw [sentTo_append, sentTo_announce, hSent]
        exact congrArg _ (if_pos rfl)
      · have hNot : (vif', slot') ≠ (vif, slot) := fun hEq => hSlot (congrArg Prod.snd hEq)
        rw [if_neg hNot]
        refine Prod.ext ?_ ?_
        · dsimp only [arpCacheStep]
          rw [sentTo_append, sentTo_announce]
          exact (congrArg _ (if_neg (Ne.symm hSlot))).trans (List.append_nil _)
        · refine congrArg (List.map _) (filter_zeroed hZeroed fun e hMem hHeard => ?_)
          by_contra hHeard'
          exact hSlot (hApart e hMem slot slot' vif vif' hVif hVif' hHeard (by simpa using hHeard')).symm
  · have hSlots : (vifs.zipIdx.map Prod.snd).Nodup := by
      rw [List.zipIdx_map_snd]
      exact List.nodup_range'
    exact hSlots.of_map

variable (stale : Nat → Nat → Nat → Interface) {snapshot : List ArpEntry}

/-- The only `arp-cache` notification works off what is due to each address. -/
theorem works_arpCache (hNi : nis[i]? = some ni) (hArp : ni.isArpCache = true)
    (hThrottle : 0 ≤ ni.throttle)
    (hOnly : ∀ i' ni', nis[i']? = some ni' → ni'.isArpCache = true → i' = i)
    (hSnapshot : ∀ e ∈ snapshot, e.ip ≠ 0#32) (hApart : ApartOn o vifs snapshot) {slot : Nat}
    {vif : Interface} (hVif : vifs[slot]? = some vif) :
    Works ni.throttle.toNat (wanted o vif ni snapshot) fun m =>
      sentTo slot (((invoked snapshot).after o vifs nis stale m).sentFor i) := by
  rw [wanted, if_pos hArp]
  apply works_of_invariant (fun m => arpCacheShare i ((invoked snapshot).after o vifs nis stale m))
    (fun t => CountsWhole t.1 t.2.1 ∧ ApartOn o vifs t.2.1) (fun t => entryQueue o vif ni t.2.1)
    (fun t => sentTo slot t.2.2)
  · exact ⟨.inr ⟨rfl, hSnapshot⟩, hApart⟩
  · rfl
  · rfl
  · rintro m ⟨hCount, hApart⟩
    have hPass : arpCacheShare i ((invoked snapshot).after o vifs nis stale (m + 1)) = _ :=
      pass_arpCache _ hNi hArp hOnly (stale m)
    rw [hPass]
    obtain ⟨hInv, hEach⟩ := foldl_arpCacheStep hThrottle hCount hApart
    exact ⟨hInv, (hEach slot vif hVif).1, (hEach slot vif hVif).2⟩

end ArpCache

end Wackamole
