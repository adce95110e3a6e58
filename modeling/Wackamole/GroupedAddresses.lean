import Wackamole.Shortfall

/-! Entries with several addresses. The counts in `left_todo` and the copy of the ARP cache are
kept for each notification and not for each address, so that an address can use up what another
one still needs. -/
namespace Wackamole

open HostWords Batches Progress

variable {o : ByteOrder} {vifs : List Interface} {nis : List Notification}
  {ni : Notification} {i : Nat}

/-- The entries of an array that ends with the first zero. -/
def terminated (ac : List ArpEntry) : List ArpEntry := ac.takeWhile fun e => e.ip ≠ 0#32

section Terminated

/-- Two states whose copies of the ARP cache differ behind the end only. -/
structure Extends (nis : List Notification) (tail : List ArpEntry) (s s' : Progress) : Prop where
  leftTodo : s.leftTodo = s'.leftTodo
  log : s.log = s'.log
  arpcache : s.arpcache = s'.arpcache ++ tail
  within : ∀ (i : Nat) (ni : Notification), nis[i]? = some ni → ni.isArpCache = true →
    s'.leftTodo i ≤ s'.arpcache.length

theorem arpCacheLoop_append {stale vif : Interface} {left : Nat} {ac : List ArpEntry}
    (hLeft : left ≤ ac.length) (sent : Int) (tail : List ArpEntry) :
    arpCacheLoop o stale vif ni left sent (ac ++ tail) =
      ((arpCacheLoop o stale vif ni left sent ac).1,
        (arpCacheLoop o stale vif ni left sent ac).2 ++ tail) := by
  induction ac generalizing left sent with
  | nil =>
      obtain rfl : left = 0 := Nat.le_zero.mp hLeft
      rfl
  | cons e ac ih =>
      cases left with
      | zero => rfl
      | succ left =>
          have hRest := ih (Nat.le_of_succ_le_succ hLeft)
          rw [List.cons_append, arpCacheLoop_cons, arpCacheLoop_cons]
          split_ifs with hFull hHeard
          · rfl
          · rw [hRest]
            rfl
          · rw [hRest]
            rfl

theorem takeWhile_length_append {ac tail : List ArpEntry} (hTail : terminated tail = []) :
    ((ac ++ tail).takeWhile fun e => e.ip ≠ 0#32).length =
      (ac.takeWhile fun e => e.ip ≠ 0#32).length := by
  rw [List.takeWhile_append]
  split_ifs with hAll
  · have hEnd : (tail.takeWhile fun e => decide (e.ip ≠ 0#32)) = [] := hTail
    rw [hEnd, List.append_nil, hAll]
  · rfl

theorem Extends.call {tail : List ArpEntry} (hTail : terminated tail = []) {s s' : Progress}
    (h : Extends nis tail s s') {c : Call} (hNi : nis[c.index]? = some c.ni) :
    Extends nis tail (s.call o c) (s'.call o c) := by
  cases hArp : c.ni.isArpCache with
  | false =>
      rw [call_netblock s c hArp, call_netblock s' c hArp, h.leftTodo]
      refine ⟨rfl, congrArg (· ++ _) h.log, h.arpcache, fun i ni hNi' hArp' => ?_⟩
      have hIndex : i ≠ c.index := by
        rintro rfl
        rw [hNi, Option.some.injEq] at hNi'
        rw [hNi', hArp'] at hArp
        cases hArp
      exact (le_of_eq (Function.update_of_ne hIndex _ _)).trans (h.within i ni hNi' hArp')
  | true =>
      have hWithin := h.within c.index c.ni hNi hArp
      obtain ⟨count, hCount⟩ : ∃ count : Int, count =
        if s'.leftTodo c.index = -1 then
          ((s'.arpcache.takeWhile fun e => e.ip ≠ 0#32).length : Int)
        else s'.leftTodo c.index := ⟨_, rfl⟩
      have hMost : count ≤ s'.arpcache.length := by
        rw [hCount]
        split_ifs
        · have hStart : (s'.arpcache.takeWhile fun e => decide (e.ip ≠ 0#32)) <+: s'.arpcache :=
            List.takeWhile_prefix _
          exact_mod_cast hStart.length_le
        · exact hWithin
      have hShort : c.arpCache o (s'.leftTodo c.index) s'.arpcache =
          (count, (arpCacheLoop o c.stale c.vif c.ni count.toNat 0 s'.arpcache).2,
            (arpCacheLoop o c.stale c.vif c.ni count.toNat 0 s'.arpcache).1) := by
        rw [Call.arpCache, ← hCount]
      have hLong : c.arpCache o (s'.leftTodo c.index) (s'.arpcache ++ tail) =
          (count, (arpCacheLoop o c.stale c.vif c.ni count.toNat 0 s'.arpcache).2 ++ tail,
            (arpCacheLoop o c.stale c.vif c.ni count.toNat 0 s'.arpcache).1) := by
        rw [Call.arpCache, takeWhile_length_append hTail, ← hCount]
        dsimp only
        rw [arpCacheLoop_append (Int.toNat_le.mpr hMost)]
      have hLength : s'.arpcache.length =
          (arpCacheLoop o c.stale c.vif c.ni count.toNat 0 s'.arpcache).2.length :=
        (arpCacheLoop_zeroed _ _ _).length_eq
      rw [call_arpCache s c hArp, call_arpCache s' c hArp, h.leftTodo, h.arpcache, hLong, hShort]
      refine ⟨rfl, congrArg (· ++ _) h.log, rfl, fun i ni hNi' hArp' => ?_⟩
      dsimp only
      rw [← hLength]
      by_cases hIndex : i = c.index
      · rw [hIndex, Function.update_self]
        exact hMost
      · rw [Function.update_of_ne hIndex]
        exact h.within i ni hNi' hArp'

/-- What stands behind the first zero plays no part. -/
theorem log_terminated (stale : Nat → Nat → Nat → Interface) (ac : List ArpEntry) (m : Nat) :
    ((invoked ac).after o vifs nis stale m).log =
      ((invoked (terminated ac)).after o vifs nis stale m).log := by
  have hTail : terminated (ac.dropWhile fun e => e.ip ≠ 0#32) = [] := by
    cases hDrop : ac.dropWhile fun e => e.ip ≠ 0#32 with
    | nil => rfl
    | cons e tail =>
        have hHead := List.head_dropWhile_not (fun e : ArpEntry => e.ip ≠ 0#32)
          (by rw [hDrop]; exact List.cons_ne_nil e tail)
        simp only [hDrop, List.head_cons] at hHead
        exact List.takeWhile_cons_of_neg (by simpa using hHead)
  have hExtends : Extends nis (ac.dropWhile fun e => e.ip ≠ 0#32)
      ((invoked ac).after o vifs nis stale m)
      ((invoked (terminated ac)).after o vifs nis stale m) := by
    induction m with
    | zero =>
        refine ⟨rfl, rfl, List.takeWhile_append_dropWhile.symm, fun _ _ _ _ => ?_⟩
        exact (by decide : (-1 : Int) ≤ 0).trans (Int.natCast_nonneg _)
    | succ m ih =>
        exact List.foldl_rel ih fun c hMem s s' h => h.call hTail (mem_passCalls hMem).2
  exact hExtends.log

end Terminated

/-- Whatever `newcidr` holds where it is not set, the notifier stops, and has then sent to every
target of every notification one request for every address that has the target in its range. -/
def AnnouncesAll (o : ByteOrder) (vifs : List Interface) (nis : List Notification)
    (ac : List ArpEntry) : Prop :=
  ∀ stale, ∃ last, Stops ((invoked ac).after o vifs nis stale) last ∧
    ∀ (slot : Nat) (vif : Interface) (i : Nat) (ni : Notification), vifs[slot]? = some vif →
      nis[i]? = some ni → ∀ r ∈ wanted o vif ni (terminated ac),
        (sentTo slot (((invoked ac).after o vifs nis stale last).sentFor i)).count r =
          (wanted o vif ni (terminated ac)).count r

theorem terminated_nonzero {ac : List ArpEntry} : ∀ e ∈ terminated ac, e.ip ≠ 0#32 :=
  fun _ hMem => by simpa using List.mem_takeWhile_imp hMem

theorem terminated_idem (ac : List ArpEntry) : terminated (terminated ac) = terminated ac :=
  List.takeWhile_eq_self_iff.mpr fun e hMem => decide_eq_true (terminated_nonzero e hMem)

theorem announcesAll_terminated (ac : List ArpEntry) :
    AnnouncesAll o vifs nis (terminated ac) ↔ AnnouncesAll o vifs nis ac := by
  simp only [AnnouncesAll, Stops, sentFor, terminated_idem, log_terminated]

theorem works_of_alone {snapshot : List ArpEntry} (stale : Nat → Nat → Nat → Interface)
    (hSnapshot : ∀ e ∈ snapshot, e.ip ≠ 0#32) {slot : Nat} {vif : Interface}
    (hVif : vifs[slot]? = some vif) (hNi : nis[i]? = some ni)
    (hAlone : if ni.isArpCache then ArpCacheAlone o vifs nis snapshot i ni
      else NetblockAlone o vifs ni) :
    Works ni.throttle.toNat (wanted o vif ni snapshot) fun m =>
      sentTo slot (((invoked snapshot).after o vifs nis stale m).sentFor i) := by
  cases hArp : ni.isArpCache with
  | false =>
      rw [hArp] at hAlone
      exact works_netblock stale snapshot hNi hArp hAlone hVif
  | true =>
      rw [hArp] at hAlone
      obtain hNobody | ⟨hThrottle, hOnly, hApart⟩ := hAlone
      · have hNone : wanted o vif ni snapshot = [] := by
          rw [wanted, if_pos hArp, entryQueue, List.map_eq_nil_iff, List.filter_eq_nil_iff]
          intro e hMem
          rw [hNobody vif (List.mem_of_getElem? hVif) e hMem]
          decide
        rw [hNone]
        exact works_arpCache_nobody stale snapshot hNi hArp hNobody _ slot
      · exact works_arpCache stale hNi hArp hThrottle hOnly hSnapshot hApart hVif

theorem count_entryQueue {snapshot : List ArpEntry} {vif : Interface} {e : ArpEntry}
    (hHeard : heard o vif e = true) :
    (entryQueue o vif ni snapshot).count (entryRequest vif ni e) = snapshot.count e := by
  have hInjective : Function.Injective (entryRequest vif ni) := by
    rintro ⟨ip, mac⟩ ⟨ip', mac'⟩ hEq
    simp only [entryRequest, SpoofRequest.mk.injEq, Option.some.injEq] at hEq
    rw [hEq.2.2.1, hEq.2.2.2.1]
  rw [entryQueue, List.count_map_of_injective _ _ hInjective, List.count_filter hHeard]

theorem alone_of_announcesAll {ac : List ArpEntry} (hAll : AnnouncesAll o vifs nis (terminated ac))
    (hNi : nis[i]? = some ni) :
    if ni.isArpCache then ArpCacheAlone o vifs nis (terminated ac) i ni
      else NetblockAlone o vifs ni := by
  rw [AnnouncesAll, terminated_idem] at hAll
  obtain ⟨last, -, hCounts⟩ := hAll fun _ _ _ => garbage
  cases hArp : ni.isArpCache with
  | true =>
      refine arpCacheAlone_of_sent (fun _ _ _ => garbage) last terminated_nonzero
        (fun slot vif i ni hVif hNi hArp e hMem hHeard => ?_) hNi hArp
      have hWanted : wanted o vif ni (terminated ac) = entryQueue o vif ni (terminated ac) :=
        if_pos hArp
      have hDue : entryRequest vif ni e ∈ wanted o vif ni (terminated ac) := by
        rw [hWanted]
        exact List.mem_map_of_mem (List.mem_filter.mpr ⟨hMem, hHeard⟩)
      rw [hCounts slot vif i ni hVif hNi _ hDue, hWanted, count_entryQueue hHeard]
  | false =>
      refine netblockAlone_of_sent (terminated ac) last hNi hArp fun slot vif hVif hName => ?_
      have hAmong : List.Subperm (wanted o vif ni (terminated ac)) (sentTo slot
          ((garbled o vifs nis (terminated ac) last).sentFor i)) :=
        List.subperm_ext_iff.mpr fun r hMem => (hCounts slot vif i ni hVif hNi r hMem).ge
      have hLength := hAmong.length_le
      rw [wanted_netblock hArp hName, List.length_map, length_targets] at hLength
      exact hLength

theorem announcesAll_of_alone {ac : List ArpEntry}
    (hAlone : ∀ (i : Nat) (ni : Notification), nis[i]? = some ni →
      if ni.isArpCache then ArpCacheAlone o vifs nis (terminated ac) i ni
      else NetblockAlone o vifs ni) : AnnouncesAll o vifs nis (terminated ac) := by
  rw [AnnouncesAll, terminated_idem]
  intro stale
  obtain ⟨last, hStops, hSent⟩ := stops_of_works
    (fun vif ni => wanted o vif ni (terminated ac)) fun slot vif i ni hVif hNi =>
      works_of_alone stale terminated_nonzero hVif hNi (hAlone i ni hNi)
  refine ⟨last, hStops, fun slot vif i ni hVif hNi r _ => ?_⟩
  rw [hSent slot vif i ni hVif hNi]

/-- 10.0.0.1 and 10.0.0.2 on one interface. -/
def sharedName : List Interface :=
  [⟨['e', 't', 'h', '0'], 0x0100000a#32, 0xffffffff#32, 0x00ffffff#32⟩,
    ⟨['e', 't', 'h', '0'], 0x0200000a#32, 0xffffffff#32, 0x00ffffff#32⟩]

end Wackamole
