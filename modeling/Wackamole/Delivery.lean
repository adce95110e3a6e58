import Wackamole.Announcing

/-! Each notification of an entry by itself: what the passes of `arp_spoof_notifier` send for it
depends on its own `left_todo`, and for `arp-cache` on the copy of the ARP cache. -/
namespace Wackamole

open HostWords Batches

variable {o : ByteOrder} {vifs : List Interface} {nis : List Notification}
  {ni : Notification} {i : Nat}

def slotCall (ni : Notification) (i : Nat) (stale : Nat → Interface) (x : Interface × Nat) : Call :=
  ⟨stale x.2, x.1, x.2, ni, i⟩

/-- The calls of a pass for one notification. -/
def slotCalls (vifs : List Interface) (ni : Notification) (i : Nat) (stale : Nat → Interface) :
    List Call :=
  vifs.zipIdx.map (slotCall ni i stale)

theorem filter_zipIdx (nis : List Notification) (first i : Nat) :
    (nis.zipIdx first).filter (fun x => decide (x.2 = first + i)) =
      nis[i]?.toList.map fun ni => (ni, first + i) := by
  induction nis generalizing first i with
  | nil => rfl
  | cons ni nis ih =>
      rw [List.zipIdx_cons]
      cases i with
      | zero =>
          have hRest : (nis.zipIdx (first + 1)).filter (fun x => decide (x.2 = first + 0)) = [] := by
            rw [List.filter_eq_nil_iff]
            intro x hx
            have hLater := List.le_snd_of_mem_zipIdx hx
            simp only [decide_eq_true_iff]
            omega
          rw [List.filter_cons_of_pos (by simp), hRest]
          rfl
      | succ i =>
          have hRest := ih (first + 1) i
          rw [Nat.add_right_comm, Nat.add_assoc] at hRest
          rw [List.filter_cons_of_neg (by simp), hRest]
          rfl

theorem passCalls_filter (hNi : nis[i]? = some ni) (stale : Nat → Nat → Interface) :
    (passCalls vifs nis stale).filter (fun c => decide (c.index = i)) =
      slotCalls vifs ni i fun slot => stale slot i := by
  have hOne := filter_zipIdx nis 0 i
  rw [hNi, Nat.zero_add] at hOne
  rw [passCalls, List.filter_flatMap, slotCalls, List.map_eq_flatMap]
  congr 1
  funext x
  rw [List.filter_map]
  exact congrArg (List.map _) hOne

theorem mem_passCalls {stale : Nat → Nat → Interface} {c : Call}
    (h : c ∈ passCalls vifs nis stale) : vifs[c.slot]? = some c.vif ∧ nis[c.index]? = some c.ni := by
  rw [passCalls, List.mem_flatMap] at h
  obtain ⟨⟨vif, slot⟩, hVif, hCall⟩ := h
  obtain ⟨⟨ni, index⟩, hNi, rfl⟩ := List.mem_map.mp hCall
  exact ⟨List.mem_zipIdx_iff_getElem?.mp hVif, List.mem_zipIdx_iff_getElem?.mp hNi⟩

theorem mem_slotCalls {stale : Nat → Interface} {c : Call} (h : c ∈ slotCalls vifs ni i stale) :
    vifs[c.slot]? = some c.vif ∧ c.ni = ni ∧ c.index = i := by
  obtain ⟨⟨vif, slot⟩, hMem, rfl⟩ := List.mem_map.mp h
  exact ⟨List.mem_zipIdx_iff_getElem?.mp hMem, rfl, rfl⟩

theorem slotCalls_append (before : List Interface) (vif : Interface) (later : List Interface)
    (stale : Nat → Interface) :
    slotCalls (before ++ vif :: later) ni i stale =
      slotCalls before ni i stale ++ slotCall ni i stale (vif, before.length) ::
        (later.zipIdx (before.length + 1)).map (slotCall ni i stale) := by
  rw [slotCalls, List.zipIdx_append, List.zipIdx_cons, List.map_append, List.map_cons, Nat.zero_add]
  rfl

namespace Progress

variable (s : Progress) (c : Call)

/-- The announcements of a call. -/
def announce (c : Call) (sent : List SpoofRequest) : List Announcement :=
  sent.map fun request => ⟨c.slot, c.index, request⟩

theorem call_netblock (hArp : c.ni.isArpCache = false) :
    s.call o c =
      let r := c.netblock o (s.leftTodo c.index)
      ⟨Function.update s.leftTodo c.index r.1, s.arpcache, s.log ++ announce c r.2⟩ := by
  rw [call, c.notify_netblock o hArp]
  rfl

theorem call_arpCache (hArp : c.ni.isArpCache = true) :
    s.call o c =
      let r := c.arpCache o (s.leftTodo c.index) s.arpcache
      ⟨Function.update s.leftTodo c.index r.1, r.2.1, s.log ++ announce c r.2.2⟩ := by
  rw [call, c.notify_arpCache o hArp]
  rfl

theorem sentFor_append (s : Progress) (left : Nat → Int) (ac : List ArpEntry)
    (sent : List SpoofRequest) (i : Nat) :
    (⟨left, ac, s.log ++ announce c sent⟩ : Progress).sentFor i =
      s.sentFor i ++ if c.index = i then announce c sent else [] := by
  rw [sentFor, List.filter_append]
  congr 1
  split_ifs with hIndex
  · exact List.filter_eq_self.mpr fun a ha => by
      obtain ⟨r, -, rfl⟩ := List.mem_map.mp ha
      exact decide_eq_true hIndex
  · exact List.filter_eq_nil_iff.mpr fun a ha => by
      obtain ⟨r, -, rfl⟩ := List.mem_map.mp ha
      simpa using hIndex

/-- What a call can change for its own notification, and for no other. -/
theorem call_other {i : Nat} (hIndex : c.index ≠ i) :
    (s.call o c).leftTodo i = s.leftTodo i ∧ (s.call o c).sentFor i = s.sentFor i := by
  cases hArp : c.ni.isArpCache with
  | true =>
      rw [call_arpCache s c hArp, sentFor_append, if_neg hIndex, List.append_nil]
      exact ⟨Function.update_of_ne (Ne.symm hIndex) _ _, rfl⟩
  | false =>
      rw [call_netblock s c hArp, sentFor_append, if_neg hIndex, List.append_nil]
      exact ⟨Function.update_of_ne (Ne.symm hIndex) _ _, rfl⟩

/-- What a netblock notification has of the state. -/
def netblockShare (i : Nat) (s : Progress) : Int × List Announcement := (s.leftTodo i, s.sentFor i)

def netblockStep (o : ByteOrder) (t : Int × List Announcement) (c : Call) :
    Int × List Announcement :=
  let r := c.netblock o t.1
  (r.1, t.2 ++ announce c r.2)

theorem pass_netblock (hNi : nis[i]? = some ni) (hArp : ni.isArpCache = false)
    (stale : Nat → Nat → Interface) :
    netblockShare i ((passCalls vifs nis stale).foldl (call o) s) =
      (slotCalls vifs ni i fun slot => stale slot i).foldl (netblockStep o) (netblockShare i s) := by
  rw [← passCalls_filter hNi]
  apply Loops.foldl_filter_component
  · intro s c hMem hIndex
    have hIndex' : c.index = i := of_decide_eq_true hIndex
    have hSame := (mem_passCalls hMem).2
    rw [hIndex', hNi, Option.some.injEq] at hSame
    subst hIndex'
    rw [call_netblock s c (hSame ▸ hArp), netblockShare, sentFor_append, if_pos rfl]
    dsimp only
    rw [Function.update_self]
    rfl
  · intro s c _ hIndex
    obtain ⟨hLeft, hSent⟩ := call_other (o := o) s c (of_decide_eq_false hIndex)
    rw [netblockShare, hLeft, hSent, netblockShare]

theorem netblockShare_after (stale : Nat → Nat → Nat → Interface) (snapshot : List ArpEntry)
    (hNi : nis[i]? = some ni) (hArp : ni.isArpCache = false)
    (m : Nat) :
    netblockShare i ((invoked snapshot).after o vifs nis stale (m + 1)) =
      (slotCalls vifs ni i fun slot => stale m slot i).foldl (netblockStep o)
        (netblockShare i ((invoked snapshot).after o vifs nis stale m)) :=
  pass_netblock _ hNi hArp (stale m)

/-- What the only `arp-cache` notification has of the state. -/
def arpCacheShare (i : Nat) (s : Progress) : Int × List ArpEntry × List Announcement :=
  (s.leftTodo i, s.arpcache, s.sentFor i)

def arpCacheStep (o : ByteOrder) (t : Int × List ArpEntry × List Announcement) (c : Call) :
    Int × List ArpEntry × List Announcement :=
  let r := c.arpCache o t.1 t.2.1
  (r.1, r.2.1, t.2.2 ++ announce c r.2.2)

theorem pass_arpCache (hNi : nis[i]? = some ni) (hArp : ni.isArpCache = true)
    (hOnly : ∀ i' ni', nis[i']? = some ni' → ni'.isArpCache = true → i' = i)
    (stale : Nat → Nat → Interface) :
    arpCacheShare i ((passCalls vifs nis stale).foldl (call o) s) =
      (slotCalls vifs ni i fun slot => stale slot i).foldl (arpCacheStep o) (arpCacheShare i s) := by
  rw [← passCalls_filter hNi]
  apply Loops.foldl_filter_component
  · intro s c hMem hIndex
    have hIndex' : c.index = i := of_decide_eq_true hIndex
    have hSame := (mem_passCalls hMem).2
    rw [hIndex', hNi, Option.some.injEq] at hSame
    subst hIndex'
    rw [call_arpCache s c (hSame ▸ hArp), arpCacheShare, sentFor_append, if_pos rfl]
    dsimp only
    rw [Function.update_self]
    rfl
  · intro s c hMem hIndex
    have hOther : c.index ≠ i := of_decide_eq_false hIndex
    obtain ⟨hLeft, hSent⟩ := call_other (o := o) s c hOther
    have hNot : c.ni.isArpCache = false := by
      by_contra hYes
      exact hOther (hOnly _ _ (mem_passCalls hMem).2 (by simpa using hYes))
    have hCache : (s.call o c).arpcache = s.arpcache := by rw [call_netblock s c hNot]
    rw [arpCacheShare, hLeft, hSent, hCache, arpCacheShare]

end Progress

/-- The requests for an address that are due to a notification. -/
def wanted (o : ByteOrder) (vif : Interface) (ni : Notification) (snapshot : List ArpEntry) :
    List SpoofRequest :=
  if ni.isArpCache then entryQueue o vif ni snapshot
  else if vif.ifname = ni.destination.ifname then
    (targets o vif ni.destination).map (blockRequest vif ni)
  else []

/-- What has been sent for an address and a notification. -/
def sentTo (slot : Nat) (log : List Announcement) : List SpoofRequest :=
  (log.filter fun a => decide (a.slot = slot)).map Announcement.request

theorem sentTo_append (slot : Nat) (log log' : List Announcement) :
    sentTo slot (log ++ log') = sentTo slot log ++ sentTo slot log' := by
  simp [sentTo]

theorem sentTo_announce (slot : Nat) (c : Call) (sent : List SpoofRequest) :
    sentTo slot (Progress.announce c sent) = if c.slot = slot then sent else [] := by
  rw [sentTo, Progress.announce]
  split_ifs with hSlot
  · rw [List.filter_eq_self.mpr, List.map_map]
    · exact List.map_id sent
    · intro a ha
      obtain ⟨r, -, rfl⟩ := List.mem_map.mp ha
      exact decide_eq_true hSlot
  · rw [List.filter_eq_nil_iff.mpr, List.map_nil]
    intro a ha
    obtain ⟨r, -, rfl⟩ := List.mem_map.mp ha
    simpa using hSlot

section Silent

open Progress

variable (stale : Nat → Nat → Nat → Interface) (snapshot : List ArpEntry)

/-- A notification whose calls send nothing while an invariant of all calls holds. -/
theorem works_silent (Inv : Progress → Prop) (hStart : Inv (invoked snapshot))
    (hCall : ∀ (s : Progress) (c : Call), vifs[c.slot]? = some c.vif → nis[c.index]? = some c.ni →
      Inv s → Inv (s.call o c) ∧ (c.index = i → (s.call o c).log = s.log)) (cap slot : Nat) :
    Works cap [] fun m => sentTo slot (((invoked snapshot).after o vifs nis stale m).sentFor i) := by
  apply works_of_invariant (fun m => (invoked snapshot).after o vifs nis stale m)
    (fun s => Inv s ∧ s.sentFor i = []) (fun _ => []) (fun s => sentTo slot (s.sentFor i))
  · exact ⟨hStart, rfl⟩
  · rfl
  · rfl
  · intro m hBefore
    have hAfter : Inv ((invoked snapshot).after o vifs nis stale (m + 1)) ∧
        ((invoked snapshot).after o vifs nis stale (m + 1)).sentFor i = [] := by
      apply Loops.foldl_invariant (fun s : Progress => Inv s ∧ s.sentFor i = []) _ _ _ _ hBefore
      rintro s c hMem ⟨hInv, hSent⟩
      obtain ⟨hVif, hNi⟩ := mem_passCalls hMem
      obtain ⟨hInv', hLog⟩ := hCall s c hVif hNi hInv
      refine ⟨hInv', ?_⟩
      by_cases hIndex : c.index = i
      · rw [sentFor, hLog hIndex]
        exact hSent
      · rw [(call_other s c hIndex).2, hSent]
    refine ⟨hAfter, ?_, rest_nil.symm⟩
    rw [hAfter.2, hBefore.2, batch_nil]
    rfl

theorem call_log_netblock {s : Progress} {c : Call} (hArp : c.ni.isArpCache = false)
    (hNone : (c.netblock o (s.leftTodo c.index)).2 = []) : (s.call o c).log = s.log := by
  rw [call_netblock s c hArp]
  dsimp only
  rw [hNone]
  exact List.append_nil _

theorem call_log_arpCache {s : Progress} {c : Call} (hArp : c.ni.isArpCache = true)
    (hNone : (c.arpCache o (s.leftTodo c.index) s.arpcache).2.2 = []) :
    (s.call o c).log = s.log := by
  rw [call_arpCache s c hArp]
  dsimp only
  rw [hNone]
  exact List.append_nil _

theorem works_negative (hNi : nis[i]? = some ni) (hThrottle : ni.throttle < 0) (cap slot : Nat) :
    Works cap [] fun m => sentTo slot (((invoked snapshot).after o vifs nis stale m).sentFor i) := by
  apply works_silent stale snapshot (fun _ => True) trivial
  intro s c _ hNi' _
  refine ⟨trivial, fun hIndex => ?_⟩
  rw [hIndex, hNi, Option.some.injEq] at hNi'
  cases hArp : c.ni.isArpCache with
  | true => exact call_log_arpCache hArp (Call.arpCache_negative (hNi' ▸ hThrottle))
  | false => exact call_log_netblock hArp (Call.netblock_negative (hNi' ▸ hThrottle))

/-- A netblock notification without a target, or without a name, has nothing to send. -/
theorem works_netblock_nobody (hNi : nis[i]? = some ni) (hArp : ni.isArpCache = false)
    (hNobody : ∀ vif ∈ vifs, vif.ifname = ni.destination.ifname →
      overlapSize o vif ni.destination = 0 ∨ vif.ifname = []) (cap slot : Nat) :
    Works cap [] fun m => sentTo slot (((invoked snapshot).after o vifs nis stale m).sentFor i) := by
  apply works_silent stale snapshot (fun s => s.leftTodo i = -1 ∨ s.leftTodo i = 0) (.inl rfl)
  intro s c hVif hNi' hCount
  by_cases hIndex : c.index = i
  · rw [hIndex, hNi, Option.some.injEq] at hNi'
    subst hNi'
    have hQuiet : (c.netblock o (s.leftTodo c.index)).2 = [] ∧
        ((c.netblock o (s.leftTodo c.index)).1 = -1 ∨
          (c.netblock o (s.leftTodo c.index)).1 = 0) := by
      rw [hIndex]
      by_cases hName : c.vif.ifname = c.ni.destination.ifname
      · exact Call.netblock_disjoint (hNobody c.vif (List.mem_of_getElem? hVif) hName) hCount
      · rw [Call.netblock_idle (.inr hName)]
        exact ⟨rfl, hCount⟩
    refine ⟨?_, fun _ => call_log_netblock hArp hQuiet.1⟩
    rw [call_netblock s c hArp, ← hIndex]
    dsimp only
    rw [Function.update_self]
    exact hQuiet.2
  · rw [(call_other s c hIndex).1]
    exact ⟨hCount, fun h => absurd h hIndex⟩

/-- While no entry is in the network of an address, the copy of the ARP cache stays as it is. -/
theorem works_arpCache_nobody (hNi : nis[i]? = some ni) (hArp : ni.isArpCache = true)
    (hNobody : ∀ vif ∈ vifs, ∀ e ∈ snapshot, heard o vif e = false) (cap slot : Nat) :
    Works cap [] fun m => sentTo slot (((invoked snapshot).after o vifs nis stale m).sentFor i) := by
  apply works_silent stale snapshot (fun s => s.arpcache = snapshot) rfl
  intro s c hVif hNi' hCache
  have hNone : ∀ e ∈ s.arpcache, heard o c.vif e = false := by
    rw [hCache]
    exact hNobody c.vif (List.mem_of_getElem? hVif)
  cases hArp' : c.ni.isArpCache with
  | true =>
      have hQuiet : (c.arpCache o (s.leftTodo c.index) s.arpcache).2 = (s.arpcache, []) :=
        Call.arpCache_nobody hNone
      refine ⟨?_, fun _ => call_log_arpCache hArp' (congrArg Prod.snd hQuiet)⟩
      rw [call_arpCache s c hArp']
      exact (congrArg Prod.fst hQuiet).trans hCache
  | false =>
      rw [call_netblock s c hArp']
      refine ⟨hCache, fun hIndex => ?_⟩
      rw [hIndex, hNi, Option.some.injEq] at hNi'
      rw [← hNi', hArp] at hArp'
      cases hArp'

end Silent

section Stops

open Progress

variable (stale : Nat → Nat → Nat → Interface) (s : Progress)

/-- A pass adds to the log, for its own addresses and notifications. -/
theorem log_pass (calls : List Call) (s : Progress) :
    ∃ sent, (calls.foldl (call o) s).log = s.log ++ sent ∧
      ∀ a ∈ sent, ∃ c ∈ calls, a.slot = c.slot ∧ a.index = c.index := by
  induction calls generalizing s with
  | nil => exact ⟨[], (List.append_nil _).symm, fun a ha => absurd ha List.not_mem_nil⟩
  | cons c calls ih =>
      obtain ⟨sent, hLog, hSent⟩ := ih (s.call o c)
      have hCall : (s.call o c).log = s.log ++ announce c
          (notify o c.stale c.vif ⟨s.leftTodo, s.arpcache, []⟩ (c.ni, c.index)).sent := rfl
      refine ⟨_, by rw [List.foldl_cons, hLog, hCall, List.append_assoc], ?_⟩
      intro a ha
      obtain ha | ha := List.mem_append.mp ha
      · obtain ⟨r, -, rfl⟩ := List.mem_map.mp ha
        exact ⟨c, List.mem_cons_self, rfl, rfl⟩
      · obtain ⟨c', hMem, hTags⟩ := hSent a ha
        exact ⟨c', List.mem_cons_of_mem c hMem, hTags⟩

theorem log_after (m : Nat) :
    ∃ sent, (s.after o vifs nis stale (m + 1)).log = (s.after o vifs nis stale m).log ++ sent ∧
      ∀ a ∈ sent, (∃ vif, vifs[a.slot]? = some vif) ∧ ∃ ni, nis[a.index]? = some ni := by
  obtain ⟨sent, hLog, hSent⟩ := log_pass (o := o) (passCalls vifs nis (stale m))
    (s.after o vifs nis stale m)
  refine ⟨sent, hLog, fun a ha => ?_⟩
  obtain ⟨c, hMem, hSlot, hIndex⟩ := hSent a ha
  obtain ⟨hVif, hNi⟩ := mem_passCalls hMem
  rw [hSlot, hIndex]
  exact ⟨⟨c.vif, hVif⟩, c.ni, hNi⟩

theorem sentTo_le_of_le {m m' : Nat} (h : m ≤ m') (slot i : Nat) :
    (sentTo slot ((s.after o vifs nis stale m).sentFor i)).length ≤
      (sentTo slot ((s.after o vifs nis stale m').sentFor i)).length := by
  induction m', h using Nat.le_induction with
  | base => exact Nat.le_refl _
  | succ m' _ ih =>
      obtain ⟨sent, hLog, -⟩ : ∃ sent, (s.after o vifs nis stale (m' + 1)).log = _ ++ sent ∧ _ :=
        log_after stale s m'
      simp only [sentFor, hLog, List.filter_append, sentTo_append, List.length_append] at ih ⊢
      omega

theorem mem_log {snapshot : List ArpEntry} {m : Nat} {a : Announcement}
    (ha : a ∈ ((invoked snapshot).after o vifs nis stale m).log) :
    (∃ vif, vifs[a.slot]? = some vif) ∧ ∃ ni, nis[a.index]? = some ni := by
  induction m with
  | zero => exact absurd ha List.not_mem_nil
  | succ m ih =>
      obtain ⟨sent, hLog, hSent⟩ := log_after (o := o) stale (invoked snapshot) m
      rw [hLog] at ha
      exact (List.mem_append.mp ha).elim ih (hSent a)

/-- A pass in which nobody is sent anything for any notification sends nothing. -/
theorem log_quiet {m : Nat}
    (hQuiet : ∀ (slot : Nat) (vif : Interface) (i : Nat) (ni : Notification),
      vifs[slot]? = some vif → nis[i]? = some ni →
        sentTo slot ((s.after o vifs nis stale (m + 1)).sentFor i) =
          sentTo slot ((s.after o vifs nis stale m).sentFor i)) :
    (s.after o vifs nis stale (m + 1)).log = (s.after o vifs nis stale m).log := by
  obtain ⟨sent, hLog, hSent⟩ : ∃ sent, (s.after o vifs nis stale (m + 1)).log = _ ++ sent ∧ _ :=
    log_after stale s m
  rw [hLog, List.append_right_eq_self, List.eq_nil_iff_forall_not_mem]
  intro a ha
  obtain ⟨⟨vif, hVif⟩, ni, hNi⟩ := hSent a ha
  have hNone := hQuiet a.slot vif a.index ni hVif hNi
  simp only [sentFor, hLog, List.filter_append, sentTo_append, List.append_right_eq_self] at hNone
  simp only [sentTo, List.map_eq_nil_iff, List.filter_eq_nil_iff, List.mem_filter] at hNone
  exact hNone a ⟨ha, decide_eq_true rfl⟩ (decide_eq_true rfl)

/-- Where every notification works off what is due to every address, the notifier stops, and has
then sent it all. -/
theorem stops_of_works {snapshot : List ArpEntry} {stale : Nat → Nat → Nat → Interface}
    (due : Interface → Notification → List SpoofRequest)
    (hWorks : ∀ (slot : Nat) (vif : Interface) (i : Nat) (ni : Notification),
      vifs[slot]? = some vif → nis[i]? = some ni → Works ni.throttle.toNat (due vif ni) fun m =>
        sentTo slot (((invoked snapshot).after o vifs nis stale m).sentFor i)) :
    ∃ last, Stops ((invoked snapshot).after o vifs nis stale) last ∧
      ∀ (slot : Nat) (vif : Interface) (i : Nat) (ni : Notification), vifs[slot]? = some vif →
        nis[i]? = some ni →
          sentTo slot (((invoked snapshot).after o vifs nis stale last).sentFor i) = due vif ni := by
  obtain ⟨enough, hEnough⟩ : ∃ enough, ∀ vif ∈ vifs, ∀ ni ∈ nis, (due vif ni).length ≤ enough := by
    refine ⟨(vifs.toFinset ×ˢ nis.toFinset).sup fun x => (due x.1 x.2).length, ?_⟩
    intro vif hVif ni hNi
    have hPair : (vif, ni) ∈ vifs.toFinset ×ˢ nis.toFinset :=
      Finset.mem_product.mpr ⟨List.mem_toFinset.mpr hVif, List.mem_toFinset.mpr hNi⟩
    exact Finset.le_sup (f := fun x : Interface × Notification => (due x.1 x.2).length) hPair
  have hQuiet : ∃ m, ((invoked snapshot).after o vifs nis stale (m + 1)).log =
      ((invoked snapshot).after o vifs nis stale m).log := by
    refine ⟨enough, log_quiet stale _ fun slot vif i ni hVif hNi => ?_⟩
    exact (hWorks slot vif i ni hVif hNi).quiet
      (hEnough vif (List.mem_of_getElem? hVif) ni (List.mem_of_getElem? hNi))
  refine ⟨Nat.find hQuiet, ⟨Nat.find_spec hQuiet, fun m hm => Nat.find_min hQuiet hm⟩, ?_⟩
  intro slot vif i ni hVif hNi
  refine (hWorks slot vif i ni hVif hNi).complete ?_
  simp only [sentFor, Nat.find_spec hQuiet]

end Stops

end Wackamole
