import Wackamole.Alone
import Mathlib.Data.List.Count

/-! What the passes of `arp_spoof_notifier` can send at most: a netblock notification no more
than its count was once set to, and the `arp-cache` notifications one request for every entry of
the copy. -/
namespace Wackamole

open HostWords Batches Progress

variable {o : ByteOrder} {vifs : List Interface} {nis : List Notification}
  {ni : Notification} {i : Nat}

theorem countP_add_countP_le {Item : Type*} {p q r : Item → Bool} (l : List Item)
    (hp : ∀ a, p a = true → r a = true ∧ q a = false) (hq : ∀ a, q a = true → r a = true) :
    l.countP p + l.countP q ≤ l.countP r := by
  induction l with
  | nil => exact Nat.le_refl 0
  | cons a l ih =>
      have hHead : (if p a = true then 1 else 0) + (if q a = true then 1 else 0) ≤
          if r a = true then 1 else 0 := by
        cases hpa : p a with
        | true => simp [hp a hpa]
        | false =>
            cases hqa : q a with
            | true => simp [hq a hqa]
            | false => simp
      simp only [List.countP_cons]
      omega

theorem length_sentTo (slot : Nat) (log : List Announcement) :
    (sentTo slot log).length = log.countP fun a => decide (a.slot = slot) := by
  rw [sentTo, List.length_map, List.countP_eq_length_filter]

theorem length_sentTo_le (slot : Nat) (log : List Announcement) :
    (sentTo slot log).length ≤ log.length := by
  rw [sentTo, List.length_map]
  exact List.length_filter_le _ _

/-- Two addresses share what is sent. -/
theorem length_sentTo_add_le {slot slot' : Nat} (hSlot : slot ≠ slot') (log : List Announcement) :
    (sentTo slot log).length + (sentTo slot' log).length ≤ log.length := by
  rw [length_sentTo, length_sentTo, ← List.countP_true]
  apply countP_add_countP_le
  · intro a ha
    exact ⟨rfl, decide_eq_false fun h => hSlot ((of_decide_eq_true ha).symm.trans h)⟩
  · exact fun _ _ => rfl

section Netblock

variable {c : Call} {count : Int}

/-- What a call has left to send: `csize`, if the count is to be set. -/
def Call.left (o : ByteOrder) (c : Call) (count : Int) : Int :=
  if count = -1 then (BitVec.ofNat 32 (c.size o)).toInt else count

/-- How much of it the call sends. -/
def Call.taken (o : ByteOrder) (c : Call) (count : Int) : Nat :=
  if c.ni.throttle = 0 then (c.left o count).toNat
  else min (c.left o count).toNat c.ni.throttle.toNat

/-- A call that passes the tests of `send_arp_spoof_netblock`: the names are the same, and the
name in `newcidr` is not empty, be it set or stale. -/
def Call.Acts (c : Call) : Prop :=
  c.vif.ifname = c.ni.destination.ifname ∧ c.vif.ifname ≠ [] ∧ c.stale.ifname ≠ []

theorem Call.Acts.netblock (hActs : c.Acts) (count : Int) :
    (c.netblock o count).1 = c.left o count - c.taken o count ∧
      (c.netblock o count).2.length = c.taken o count := by
  obtain ⟨hName, hNamed, hStale⟩ := hActs
  by_cases hZero : count = 0
  · subst hZero
    rw [Call.netblock_idle (.inl rfl)]
    simp [Call.taken, Call.left]
  obtain ⟨newcidr, hCidr, hCidrName⟩ : ∃ newcidr,
      calcNewCidr o c.vif c.ni.destination c.stale = (BitVec.ofNat 32 (c.size o), newcidr) ∧
        newcidr.ifname ≠ [] := by
    by_cases hSize : c.size o = 0
    · exact ⟨c.stale, by rw [calcNewCidr_of_disjoint _ hSize, hSize], hStale⟩
    · exact ⟨_, calcNewCidr_of_overlap _ hSize, hNamed⟩
  have hSkip : ¬(count = 0 ∨ c.vif.ifname ≠ c.ni.destination.ifname ∨ newcidr.ifname = []) := by
    tauto
  rw [Call.netblock, hCidr]
  dsimp only
  rw [if_neg hSkip]
  exact ⟨rfl, by rw [List.length_map, List.length_range]; rfl⟩

theorem Call.taken_le (o : ByteOrder) (c : Call) (count : Int) :
    c.taken o count ≤ (c.left o count).toNat := by
  rw [Call.taken]
  split_ifs
  · exact Nat.le_refl _
  · exact Nat.min_le_left _ _

/-- The first call leaves what is over its throttle. -/
theorem Call.Acts.leaves (hActs : c.Acts) (hBound : c.size o < 2 ^ 31)
    (hThrottle : 0 < c.ni.throttle) (hMore : c.ni.throttle < c.size o) :
    (c.netblock o (-1)).1 = c.size o - c.ni.throttle := by
  have hInt : c.left o (-1) = c.size o := toInt_size hBound
  rw [(hActs.netblock (-1)).1, Call.taken, hInt, if_neg (Int.ne_of_gt hThrottle)]
  omega

/-- A later call takes something of it. -/
theorem Call.Acts.steals (hActs : c.Acts) (hCount : 0 < count) (hThrottle : 0 < c.ni.throttle) :
    0 < (c.netblock o count).2.length := by
  have hLeft : c.left o count = count := if_neg (by omega)
  rw [(hActs.netblock count).2, Call.taken, hLeft, if_neg (Int.ne_of_gt hThrottle)]
  omega

/-- The step of a call that acts. -/
theorem netblockStep_acts (hActs : c.Acts) (t : Int × List Announcement) :
    (netblockStep o t c).1 = c.left o t.1 - c.taken o t.1 ∧
      (netblockStep o t c).2.length = t.2.length + c.taken o t.1 := by
  obtain ⟨hCount, hLength⟩ := hActs.netblock (o := o) t.1
  refine ⟨hCount, ?_⟩
  rw [← hLength, netblockStep, List.length_append, announce, List.length_map]

theorem netblockStep_other (hOther : c.vif.ifname ≠ c.ni.destination.ifname)
    (t : Int × List Announcement) : netblockStep o t c = t := by
  rw [netblockStep, Call.netblock_idle (.inr hOther)]
  exact congrArg (Prod.mk _) (List.append_nil _)

/-- Before the count is set nothing has been sent, and then never more than an `int` counts. -/
def Limited (t : Int × List Announcement) : Prop :=
  t.1 = -1 ∧ t.2 = [] ∨ t.1 ≠ -1 ∧ t.1.toNat + t.2.length < 2 ^ 31

theorem length_lt_of_limited {t : Int × List Announcement} (h : Limited t) :
    t.2.length < 2 ^ 31 := by
  obtain ⟨-, hNone⟩ | ⟨-, hLess⟩ := h
  · rw [hNone, List.length_nil]
    omega
  · omega

theorem Limited.step {t : Int × List Announcement} (h : Limited t)
    (hCall : c.Acts ∨ c.vif.ifname ≠ c.ni.destination.ifname) : Limited (netblockStep o t c) := by
  obtain hActs | hOther := hCall
  · obtain ⟨hCount, hLog⟩ := netblockStep_acts (o := o) hActs t
    have hTaken := c.taken_le o t.1
    have hInt : (BitVec.ofNat 32 (c.size o)).toInt < 2 ^ 31 := BitVec.toInt_lt
    rw [Limited, ← List.length_eq_zero_iff, hLog, hCount]
    obtain ⟨hUnset, hNone⟩ | ⟨hSet, hLess⟩ := h
    · rw [hNone, List.length_nil]
      rw [Call.left, if_pos hUnset] at hTaken ⊢
      omega
    · rw [Call.left, if_neg hSet] at hTaken ⊢
      omega
  · rwa [netblockStep_other hOther]

/-- The count and what has been sent make up the size of the first address that was served. -/
def Served (size : Nat) (t : Int × List Announcement) : Prop :=
  0 ≤ t.1 ∧ t.1 + t.2.length = size

theorem Served.step {size : Nat} {t : Int × List Announcement} (h : Served size t)
    (hCall : c.Acts ∨ c.vif.ifname ≠ c.ni.destination.ifname) :
    Served size (netblockStep o t c) := by
  obtain hActs | hOther := hCall
  · obtain ⟨hCount, hLog⟩ := netblockStep_acts (o := o) hActs t
    have hTaken := c.taken_le o t.1
    obtain ⟨hSet, hSize⟩ := h
    rw [Call.left, if_neg (by omega)] at hTaken hCount
    rw [Served, hLog, hCount]
    omega
  · rwa [netblockStep_other hOther]

theorem Served.first {t : Int × List Announcement} (hActs : c.Acts) (hBound : c.size o < 2 ^ 31)
    (hUnset : t.1 = -1) (hNone : t.2 = []) : Served (c.size o) (netblockStep o t c) := by
  obtain ⟨hCount, hLog⟩ := netblockStep_acts (o := o) hActs t
  have hTaken := c.taken_le o t.1
  rw [hNone, List.length_nil] at hLog
  rw [Call.left, if_pos hUnset, Call.toInt_size hBound] at hTaken hCount
  rw [Served, hLog, hCount]
  omega

/-- What `newcidr` may hold if it is not set. -/
def garbage : Interface := ⟨['?'], 0#32, 0#32, 0#32⟩

variable {snapshot : List ArpEntry}

theorem garbage_named : garbage.ifname ≠ [] := by decide

/-- The run in which `newcidr` always holds it. -/
def garbled (o : ByteOrder) (vifs : List Interface) (nis : List Notification)
    (snapshot : List ArpEntry) : Nat → Progress :=
  (invoked snapshot).after o vifs nis fun _ _ _ => garbage

theorem acts_slotCall (hNamed : ni.destination.ifname ≠ []) {vif : Interface}
    (hName : vif.ifname = ni.destination.ifname) (slot : Nat) :
    (slotCall ni i (fun _ => garbage) (vif, slot)).Acts :=
  ⟨hName, fun h => hNamed (hName.symm.trans h), garbage_named⟩

theorem acts_or_other (hNamed : ni.destination.ifname ≠ []) {c : Call}
    (hMem : c ∈ slotCalls vifs ni i fun _ => garbage) :
    c.Acts ∨ c.vif.ifname ≠ c.ni.destination.ifname := by
  obtain ⟨x, -, rfl⟩ := List.mem_map.mp hMem
  by_cases hName : x.1.ifname = ni.destination.ifname
  · exact .inl (acts_slotCall hNamed hName x.2)
  · exact .inr hName

/-- Addresses with other names are passed over. -/
theorem foldl_others {others : List Interface}
    (hOthers : ∀ vif ∈ others, vif.ifname ≠ ni.destination.ifname) (start : Nat)
    (t : Int × List Announcement) :
    ((others.zipIdx start).map (slotCall ni i fun _ => garbage)).foldl (netblockStep o) t = t := by
  apply foldl_netblockStep_idle
  intro c hMem
  obtain ⟨x, hMem', rfl⟩ := List.mem_map.mp hMem
  exact .inr (hOthers x.1 (List.fst_mem_of_mem_zipIdx hMem'))

section Runs

variable (hNi : nis[i]? = some ni) (hArp : ni.isArpCache = false)
  (hNamed : ni.destination.ifname ≠ [])

include hNi hArp hNamed

theorem limited_after (m : Nat) : Limited (netblockShare i (garbled o vifs nis snapshot m)) := by
  induction m with
  | zero => exact .inl ⟨rfl, rfl⟩
  | succ m ih =>
      rw [garbled, netblockShare_after _ _ hNi hArp]
      exact Loops.foldl_invariant Limited _ _
        (fun t c hMem h => h.step (acts_or_other hNamed hMem)) _ ih

variable {before later : List Interface} {first : Interface}
  (hBefore : ∀ vif ∈ before, vif.ifname ≠ ni.destination.ifname)
  (hName : first.ifname = ni.destination.ifname)
  (hBound : overlapSize o first ni.destination < 2 ^ 31)

include hBefore hName hBound

theorem served_after (m : Nat) :
    Served (overlapSize o first ni.destination)
      (netblockShare i (garbled o (before ++ first :: later) nis snapshot (m + 1))) := by
  induction m with
  | zero =>
      rw [garbled, netblockShare_after _ _ hNi hArp, slotCalls_append, List.foldl_append, slotCalls,
        foldl_others hBefore, List.foldl_cons]
      apply Loops.foldl_invariant (Served (overlapSize o first ni.destination))
      · intro t c hMem h
        refine h.step (acts_or_other hNamed (?_ : c ∈ slotCalls (before ++ first :: later) ni i _))
        rw [slotCalls_append]
        exact List.mem_append_right _ (List.mem_cons_of_mem _ hMem)
      · have hSize : (slotCall ni i (fun _ => garbage) (first, before.length)).size o =
          overlapSize o first ni.destination := rfl
        rw [← hSize] at hBound ⊢
        exact Served.first (acts_slotCall hNamed hName before.length) hBound rfl rfl
  | succ m ih =>
      rw [garbled, netblockShare_after _ _ hNi hArp]
      exact Loops.foldl_invariant (Served _) _ _
        (fun t c hMem h => h.step (acts_or_other hNamed hMem)) _ ih

/-- A second address with the name of the interface takes what the first one has left in its
first pass. -/
theorem stolen_after {mid rest : List Interface} {second : Interface}
    (hLater : later = mid ++ second :: rest)
    (hMid : ∀ vif ∈ mid, vif.ifname ≠ ni.destination.ifname)
    (hSecond : second.ifname = ni.destination.ifname) (hThrottle : 0 < ni.throttle)
    (hMore : ni.throttle < overlapSize o first ni.destination) :
    0 < (sentTo (before.length + 1 + mid.length)
      ((garbled o (before ++ first :: later) nis snapshot 1).sentFor i)).length := by
  let share : Int × List Announcement :=
    netblockStep o (-1, []) (slotCall ni i (fun _ => garbage) (first, before.length))
  have hLeft : share.1 = overlapSize o first ni.destination - ni.throttle :=
    (acts_slotCall hNamed hName before.length).leaves hBound hThrottle hMore
  have hTaken : 0 < (sentTo (before.length + 1 + mid.length) (netblockStep o share
      (slotCall ni i (fun _ => garbage) (second, before.length + 1 + mid.length))).2).length := by
    have hSteals := (acts_slotCall (i := i) hNamed hSecond (before.length + 1 + mid.length)).steals
      (o := o) (show 0 < share.1 by omega) hThrottle
    rw [netblockStep, sentTo_append, sentTo_announce, List.length_append]
    refine Nat.add_pos_right _ (lt_of_lt_of_eq hSteals ?_)
    exact congrArg List.length (if_pos rfl).symm
  have hShare : ((garbled o (before ++ first :: later) nis snapshot 1).sentFor i) = _ :=
    congrArg Prod.snd (netblockShare_after (fun _ _ _ => garbage) snapshot hNi hArp 0)
  rw [hShare, hLater, slotCalls_append, List.foldl_append, slotCalls, foldl_others hBefore,
    List.foldl_cons, List.zipIdx_append, List.map_append, List.foldl_append, foldl_others hMid,
    List.zipIdx_cons, List.map_cons, List.foldl_cons]
  apply Loops.foldl_invariant
    (fun t : Int × List Announcement => 0 < (sentTo (before.length + 1 + mid.length) t.2).length)
  · intro t c _ h
    rw [netblockStep, sentTo_append, List.length_append]
    exact Nat.add_pos_left h _
  · exact hTaken

end Runs

theorem split_first {p : Interface → Prop} [DecidablePred p] {vifs : List Interface}
    (h : ∃ vif ∈ vifs, p vif) : ∃ before vif later, vifs = before ++ vif :: later ∧
      (∀ vif' ∈ before, ¬p vif') ∧ p vif := by
  obtain ⟨vif, hMem, hVif⟩ := h
  cases hFind : vifs.find? fun vif => decide (p vif) with
  | none => exact absurd (decide_eq_true hVif) (List.find?_eq_none.mp hFind vif hMem)
  | some first =>
      obtain ⟨hFirst, before, later, hSplit, hBefore⟩ := List.find?_eq_some_iff_append.mp hFind
      exact ⟨before, first, later, hSplit, fun vif' hMem' => by simpa using hBefore vif' hMem',
        of_decide_eq_true hFirst⟩

/-- If every address got as many requests for a netblock as it has targets there, at most one
has any. -/
theorem netblockAlone_of_sent (snapshot : List ArpEntry) (last : Nat) (hNi : nis[i]? = some ni)
    (hArp : ni.isArpCache = false)
    (hSent : ∀ (slot : Nat) (vif : Interface), vifs[slot]? = some vif →
      vif.ifname = ni.destination.ifname → overlapSize o vif ni.destination ≤
        (sentTo slot ((garbled o vifs nis snapshot last).sentFor i)).length) :
    NetblockAlone o vifs ni := by
  by_cases hNobody : ∀ vif ∈ vifs, vif.ifname = ni.destination.ifname →
    overlapSize o vif ni.destination = 0
  · exact .inl hNobody
  push Not at hNobody
  obtain ⟨target, hMem, hTargetName, hTarget⟩ := hNobody
  obtain ⟨slot, hSlot⟩ := List.mem_iff_getElem?.mp hMem
  -- Somebody is sent something, so that nothing keeps the loop from sending.
  have hSome : sentTo slot ((garbled o vifs nis snapshot last).sentFor i) ≠ [] := by
    intro hNone
    have hEnough := hSent slot target hSlot hTargetName
    rw [hNone] at hEnough
    exact hTarget (Nat.le_zero.mp hEnough)
  have hThrottle : 0 ≤ ni.throttle := by
    by_contra hNegative
    exact hSome ((works_negative _ snapshot hNi (Int.not_le.mp hNegative) 0 slot).eq_nil last)
  have hNamed : ni.destination.ifname ≠ [] := by
    intro hEmpty
    exact hSome ((works_netblock_nobody _ snapshot hNi hArp
      (fun vif _ hName => .inr (hName.trans hEmpty)) 0 slot).eq_nil last)
  obtain ⟨passes, rfl⟩ : ∃ passes, last = passes + 1 := by
    cases last with
    | zero => exact absurd rfl hSome
    | succ passes => exact ⟨passes, rfl⟩
  obtain ⟨before, first, later, rfl, hBefore, hName⟩ : ∃ before vif later,
      vifs = before ++ vif :: later ∧ (∀ vif' ∈ before, ¬vif'.ifname = ni.destination.ifname) ∧
        vif.ifname = ni.destination.ifname := split_first ⟨target, hMem, hTargetName⟩
  -- All requests together are no more than the targets of the first address with the name.
  have hFirst := hSent before.length first (by simp) hName
  have hBound : overlapSize o first ni.destination < 2 ^ 31 := by
    refine Nat.lt_of_le_of_lt (hFirst.trans (length_sentTo_le before.length _)) ?_
    exact length_lt_of_limited (limited_after hNi hArp hNamed (passes + 1))
  obtain ⟨hCount, hTotal⟩ : Served (overlapSize o first ni.destination) (netblockShare i
      (garbled o (before ++ first :: later) nis snapshot (passes + 1))) :=
    served_after hNi hArp hNamed hBefore hName hBound passes
  have hOther {slot : Nat} (hSlot : before.length ≠ slot) : (sentTo slot ((garbled o
      (before ++ first :: later) nis snapshot (passes + 1)).sentFor i)).length = 0 := by
    have hShare := length_sentTo_add_le hSlot ((garbled o (before ++ first :: later) nis snapshot
      (passes + 1)).sentFor i)
    simp only [netblockShare] at hCount hTotal
    omega
  refine .inr ⟨before, first, later, rfl, hBefore, hName, fun h => hNamed (hName.symm.trans h),
    hThrottle, hBound, fun vif hMem hName' => ⟨?_, ?_⟩⟩
  · obtain ⟨k, hk⟩ := List.mem_iff_getElem?.mp hMem
    have hVif : (before ++ first :: later)[before.length + (k + 1)]? = some vif := by
      rw [List.getElem?_append_right (Nat.le_add_right _ _), Nat.add_sub_cancel_left,
        List.getElem?_cons_succ, hk]
    have hMost := hSent (before.length + (k + 1)) vif hVif hName'
    rw [hOther (by omega)] at hMost
    exact Nat.le_zero.mp hMost
  · by_contra hThrottled
    obtain ⟨mid, second, rest, hLater, hMid, hSecond⟩ : ∃ mid vif rest,
        later = mid ++ vif :: rest ∧ (∀ vif' ∈ mid, ¬vif'.ifname = ni.destination.ifname) ∧
          vif.ifname = ni.destination.ifname := split_first ⟨vif, hMem, hName'⟩
    have hStolen : 0 < (sentTo (before.length + 1 + mid.length) ((garbled o
        (before ++ first :: later) nis snapshot (passes + 1)).sentFor i)).length :=
      lt_of_lt_of_le (stolen_after hNi hArp hNamed hBefore hName hBound hLater hMid hSecond
        (by omega) (by omega)) (sentTo_le_of_le _ _ (Nat.le_add_left 1 passes) _ i)
    rw [hOther (by omega)] at hStolen
    exact Nat.lt_irrefl 0 hStolen

end Netblock

section ArpCache

variable {snapshot : List ArpEntry} {e : ArpEntry}

/-- A request that an entry of the copy is used up for. -/
def SpoofRequest.isFor (e : ArpEntry) (r : SpoofRequest) : Bool :=
  decide (r.remoteIp = e.ip ∧ r.remoteMac = some e.mac)

theorem isFor_entryRequest {vif : Interface} {e' : ArpEntry} :
    (entryRequest vif ni e').isFor e = (e' == e) := by
  cases e
  cases e'
  rw [Bool.eq_iff_iff]
  simp [entryRequest, SpoofRequest.isFor]

/-- Every request to an entry uses up one copy of it. -/
theorem arpCacheLoop_count {stale vif : Interface} (hIp : e.ip ≠ 0#32) (left : Nat) (sent : Int)
    (ac : List ArpEntry) :
    let r := arpCacheLoop o stale vif ni left sent ac
    r.1.countP (SpoofRequest.isFor e) + r.2.count e = ac.count e := by
  induction ac generalizing left sent with
  | nil => cases left <;> rfl
  | cons e' ac ih =>
      cases left with
      | zero => exact Nat.zero_add _
      | succ left =>
          rw [arpCacheLoop_cons]
          split_ifs with hFull hHeard
          · exact Nat.zero_add _
          · have hRest := ih left (sent + 1)
            have hZeroed : ({ e' with ip := 0#32 } == e) = false :=
              beq_eq_false_iff_ne.mpr fun h => hIp (congrArg ArpEntry.ip h).symm
            dsimp only at hRest ⊢
            rw [List.countP_cons, List.count_cons, List.count_cons, isFor_entryRequest, hZeroed]
            simp only [Bool.false_eq_true, if_false]
            omega
          · have hRest := ih left sent
            dsimp only at hRest ⊢
            rw [List.count_cons, List.count_cons]
            omega

theorem netblock_remoteMac {c : Call} {count : Int} :
    ∀ r ∈ (c.netblock o count).2, r.remoteMac = none := by
  rw [Call.netblock]
  dsimp only
  split_ifs with hSkip hUnset hFree
  · exact fun r hMem => absurd hMem List.not_mem_nil
  all_goals
    intro r hMem
    obtain ⟨s, -, rfl⟩ := List.mem_map.mp hMem
    rfl

theorem call_count (hIp : e.ip ≠ 0#32) (s : Progress) (c : Call) :
    (s.call o c).log.countP (fun a => a.request.isFor e) + (s.call o c).arpcache.count e =
      s.log.countP (fun a => a.request.isFor e) + s.arpcache.count e := by
  have hAnnounce (sent : List SpoofRequest) :
      (announce c sent).countP (fun a => a.request.isFor e) = sent.countP (SpoofRequest.isFor e) := by
    rw [announce, List.countP_map]
    rfl
  cases hArp : c.ni.isArpCache with
  | true =>
      rw [call_arpCache s c hArp]
      dsimp only
      have hLoop : (c.arpCache o (s.leftTodo c.index) s.arpcache).2.2.countP (SpoofRequest.isFor e) +
        (c.arpCache o (s.leftTodo c.index) s.arpcache).2.1.count e = s.arpcache.count e :=
          arpCacheLoop_count hIp _ _ _
      rw [List.countP_append, hAnnounce]
      omega
  | false =>
      rw [call_netblock s c hArp]
      dsimp only
      have hNone : (c.netblock o (s.leftTodo c.index)).2.countP (SpoofRequest.isFor e) = 0 := by
        rw [List.countP_eq_zero]
        intro r hMem
        simp [SpoofRequest.isFor, netblock_remoteMac r hMem]
      rw [List.countP_append, hAnnounce, hNone, Nat.add_zero]

variable (stale : Nat → Nat → Nat → Interface)

theorem count_after (hIp : e.ip ≠ 0#32) (m : Nat) :
    let s := (invoked snapshot).after o vifs nis stale m
    s.log.countP (fun a => a.request.isFor e) + s.arpcache.count e = snapshot.count e := by
  induction m with
  | zero => exact Nat.zero_add _
  | succ m ih =>
      dsimp only at ih ⊢
      rw [← ih, after]
      exact Loops.foldl_unchanged
        (fun s : Progress => s.log.countP (fun a => a.request.isFor e) + s.arpcache.count e) _
        (fun s c => call_count hIp s c) _ _

theorem count_sentTo (s : Progress) (slot i : Nat) (r : SpoofRequest) :
    (sentTo slot (s.sentFor i)).count r =
      s.log.countP fun a => decide (a.slot = slot ∧ a.index = i ∧ a.request = r) := by
  rw [sentTo, sentFor, List.count_eq_countP, List.countP_map, List.countP_filter,
    List.countP_filter]
  congr 1
  funext a
  rw [Bool.eq_iff_iff]
  simp only [Function.comp_apply, Bool.and_eq_true, beq_iff_eq, decide_eq_true_iff]
  tauto

/-- If every address got a request for every entry in its network, no entry is in two of them. -/
theorem arpCacheAlone_of_sent (last : Nat) (hSnapshot : ∀ e ∈ snapshot, e.ip ≠ 0#32)
    (hSent : ∀ (slot : Nat) (vif : Interface) (i : Nat) (ni : Notification),
      vifs[slot]? = some vif → nis[i]? = some ni → ni.isArpCache = true → ∀ e ∈ snapshot,
        heard o vif e = true → snapshot.count e ≤ (sentTo slot
          (((invoked snapshot).after o vifs nis stale last).sentFor i)).count (entryRequest vif ni e))
    (hNi : nis[i]? = some ni) (hArp : ni.isArpCache = true) :
    ArpCacheAlone o vifs nis snapshot i ni := by
  -- Two requests for one entry would use it up twice.
  have hOnce {slot slot' i i' : Nat} {vif vif' : Interface} {ni ni' : Notification} {e : ArpEntry}
      (hVif : vifs[slot]? = some vif) (hVif' : vifs[slot']? = some vif') (hNi : nis[i]? = some ni)
      (hNi' : nis[i']? = some ni') (hArp : ni.isArpCache = true) (hArp' : ni'.isArpCache = true)
      (hMem : e ∈ snapshot) (hHeard : heard o vif e = true) (hHeard' : heard o vif' e = true) :
      slot = slot' ∧ i = i' := by
    by_contra hDistinct
    have hFirst := hSent slot vif i ni hVif hNi hArp e hMem hHeard
    have hSecond := hSent slot' vif' i' ni' hVif' hNi' hArp' e hMem hHeard'
    have hTotal : ((invoked snapshot).after o vifs nis stale last).log.countP
        (fun a => a.request.isFor e) + _ = snapshot.count e :=
      count_after stale (hSnapshot e hMem) last
    have hPos := List.count_pos_iff.mpr hMem
    rw [count_sentTo] at hFirst hSecond
    have hBoth := countP_add_countP_le ((invoked snapshot).after o vifs nis stale last).log
      (p := fun a => decide (a.slot = slot ∧ a.index = i ∧ a.request = entryRequest vif ni e))
      (q := fun a => decide (a.slot = slot' ∧ a.index = i' ∧ a.request = entryRequest vif' ni' e))
      (r := fun a => a.request.isFor e) ?_ ?_
    · omega
    · intro a ha
      obtain ⟨hSlot, hIndex, hRequest⟩ := of_decide_eq_true ha
      refine ⟨?_, decide_eq_false fun h => ?_⟩
      · rw [hRequest, isFor_entryRequest, beq_self_eq_true]
      · exact hDistinct ⟨hSlot.symm.trans h.1, hIndex.symm.trans h.2.1⟩
    · intro a ha
      obtain ⟨-, -, hRequest⟩ := of_decide_eq_true ha
      rw [hRequest, isFor_entryRequest, beq_self_eq_true]
  by_cases hNobody : ∀ vif ∈ vifs, ∀ e ∈ snapshot, heard o vif e = false
  · exact .inl hNobody
  push Not at hNobody
  obtain ⟨vif, hMem, e, hEntry, hHeard⟩ := hNobody
  obtain ⟨slot, hVif⟩ := List.mem_iff_getElem?.mp hMem
  have hHeard : heard o vif e = true := by simpa using hHeard
  refine .inr ⟨?_, fun i' ni' hNi' hArp' => ?_, ?_⟩
  · by_contra hNegative
    have hNone : sentTo slot (((invoked snapshot).after o vifs nis stale last).sentFor i) = [] :=
      (works_negative stale snapshot hNi (Int.not_le.mp hNegative) 0 slot).eq_nil last
    have hEnough := hSent slot vif i ni hVif hNi hArp e hEntry hHeard
    rw [hNone, List.count_nil] at hEnough
    exact absurd (List.count_pos_iff.mpr hEntry) (Nat.not_lt.mpr hEnough)
  · exact (hOnce hVif hVif hNi' hNi hArp' hArp hEntry hHeard hHeard).2
  · intro e hMem slot slot' vif vif' hVif hVif' hHeard hHeard'
    exact (hOnce hVif hVif' hNi hNi hArp hArp hMem hHeard hHeard').1

end ArpCache

end Wackamole
