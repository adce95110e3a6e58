import Wackamole.Overlap
import Wackamole.Library.Batches
import Mathlib.Data.List.Forall2
import Mathlib.Data.List.TakeWhile

/-! The passes of `arp_spoof_notifier` for an entry since it was invoked, with a log that says
for every request which address and which notification it is sent for. -/
namespace Wackamole

open HostWords Batches

variable {n : Nat}

/-- One call in the loops of `arp_spoof_notifier`: an interface in a slot of `lVIF`, a
notification with its index, and what the memory holds that the call does not initialise. -/
structure Call where
  stale : Interface
  vif : Interface
  slot : Nat
  ni : Notification
  index : Nat

structure Announcement where
  slot : Nat
  index : Nat
  request : SpoofRequest
  deriving DecidableEq

/-- `left_todo`, the copy of the ARP cache, and everything sent so far. -/
structure Progress where
  leftTodo : Nat → Int
  arpcache : List ArpEntry
  log : List Announcement

/-- The calls of one pass, in their order. -/
def passCalls (vifs : List Interface) (nis : List Notification) (stale : Nat → Nat → Interface) :
    List Call :=
  vifs.zipIdx.flatMap fun (vif, slot) =>
    nis.zipIdx.map fun (ni, index) => ⟨stale slot index, vif, slot, ni, index⟩

namespace Progress

variable (o : ByteOrder)

def call (s : Progress) (c : Call) : Progress :=
  let p := notify o c.stale c.vif ⟨s.leftTodo, s.arpcache, []⟩ (c.ni, c.index)
  ⟨p.leftTodo, p.arpcache, s.log ++ p.sent.map fun request => ⟨c.slot, c.index, request⟩⟩

/-- A notifier that has been invoked, with its copy of the ARP cache. -/
def invoked (arpcache : List ArpEntry) : Progress := ⟨fun _ => -1, arpcache, []⟩

/-- The state after a number of passes. -/
def after (vifs : List Interface) (nis : List Notification) (stale : Nat → Nat → Nat → Interface)
    (s : Progress) : Nat → Progress
  | 0 => s
  | m + 1 => (passCalls vifs nis (stale m)).foldl (call o) (after vifs nis stale s m)

/-- The first pass that sends nothing. The notifier queues itself again after all before it. -/
def Stops (state : Nat → Progress) (last : Nat) : Prop :=
  (state (last + 1)).log = (state last).log ∧ ∀ m < last, (state (m + 1)).log ≠ (state m).log

/-- What has been sent for a notification. -/
def sentFor (s : Progress) (index : Nat) : List Announcement :=
  s.log.filter fun a => decide (a.index = index)

end Progress

namespace Call

variable (o : ByteOrder) (c : Call)

/-- What `send_arp_spoof_arp_cache` makes of its count and of the copy of the ARP cache, and the
requests that it sends. -/
def arpCache (count : Int) (ac : List ArpEntry) : Int × List ArpEntry × List SpoofRequest :=
  let count := if count = -1 then ((ac.takeWhile fun e => e.ip ≠ 0#32).length : Int) else count
  let (sent, ac) := arpCacheLoop o c.stale c.vif c.ni count.toNat 0 ac
  (count, ac, sent)

/-- What `send_arp_spoof_netblock` makes of its count, and the requests that it sends. -/
def netblock (count : Int) : Int × List SpoofRequest :=
  let (size, newcidr) := calcNewCidr o c.vif c.ni.destination c.stale
  let csize := size.toInt
  if count = 0 ∨ c.vif.ifname ≠ c.ni.destination.ifname ∨ newcidr.ifname = [] then (count, [])
  else
    let count := if count = -1 then csize else count
    let first := ntohl o newcidr.ipaddr + BitVec.ofInt 32 (csize - count)
    let passes := if c.ni.throttle = 0 then count.toNat else min count.toNat c.ni.throttle.toNat
    (count - passes, (List.range passes).map fun s =>
      ⟨c.vif.ifname, c.vif.ipaddr, ntohl o (first + BitVec.ofNat 32 s), none, c.ni.ping⟩)

theorem notify_arpCache (hArp : c.ni.isArpCache = true) (p : Pass) :
    notify o c.stale c.vif p (c.ni, c.index) =
      let r := c.arpCache o (p.leftTodo c.index) p.arpcache
      ⟨Function.update p.leftTodo c.index r.1, r.2.1, p.sent ++ r.2.2⟩ := by
  rw [notify, if_pos hArp]
  rfl

theorem notify_netblock (hArp : c.ni.isArpCache = false) (p : Pass) :
    notify o c.stale c.vif p (c.ni, c.index) =
      let r := c.netblock o (p.leftTodo c.index)
      ⟨Function.update p.leftTodo c.index r.1, p.arpcache, p.sent ++ r.2⟩ := by
  rw [notify, if_neg (by rw [hArp]; decide)]
  unfold sendArpSpoofNetblock netblock
  dsimp only
  split_ifs
  · rw [Function.update_eq_self, List.append_nil]
  all_goals rfl

end Call

section Notifier

/-- The pass behind requests that were sent before it. -/
def Pass.behind (before : List SpoofRequest) (p : Pass) : Pass := { p with sent := before ++ p.sent }

theorem notify_behind (o : ByteOrder) (c : Call) (before : List SpoofRequest) (p : Pass) :
    notify o c.stale c.vif (p.behind before) (c.ni, c.index) =
      (notify o c.stale c.vif p (c.ni, c.index)).behind before := by
  cases hArp : c.ni.isArpCache with
  | true =>
      rw [c.notify_arpCache o hArp, c.notify_arpCache o hArp]
      exact congrArg (Pass.mk _ _) (List.append_assoc _ _ _)
  | false =>
      rw [c.notify_netblock o hArp, c.notify_netblock o hArp]
      exact congrArg (Pass.mk _ _) (List.append_assoc _ _ _)

/-- The state as `arp_spoof_notifier` has it. -/
def Progress.toPass (s : Progress) : Pass :=
  ⟨s.leftTodo, s.arpcache, s.log.map Announcement.request⟩

theorem toPass_call (o : ByteOrder) (s : Progress) (c : Call) :
    (s.call o c).toPass = notify o c.stale c.vif s.toPass (c.ni, c.index) := by
  have hBehind := notify_behind o c (s.log.map Announcement.request) ⟨s.leftTodo, s.arpcache, []⟩
  rw [Pass.behind, List.append_nil] at hBehind
  rw [Progress.toPass, Progress.toPass, hBehind]
  simp [Progress.call, Pass.behind, Function.comp_def]

variable (cfg : SpoofConfig n)

/-- A pass logs the requests of `arp_spoof_notifier`. -/
theorem toPass_passCalls (stale : Interface) (d : SpoofData) {s : Progress}
    (hData : s.leftTodo = d.leftTodo ∧ s.arpcache = d.arpcache) :
    ((passCalls d.lVIF cfg.notifications fun _ _ => stale).foldl (Progress.call cfg.byteOrder)
      s).toPass = (Spoofer.pass cfg stale d).behind (s.log.map Announcement.request) := by
  have hStart : s.toPass =
      (⟨d.leftTodo, d.arpcache, []⟩ : Pass).behind (s.log.map Announcement.request) := by
    rw [Progress.toPass, hData.1, hData.2, Pass.behind, List.append_nil]
  have hSlots (f : Pass → Interface → Pass) (p : Pass) :
      d.lVIF.zipIdx.foldl (fun p vif => f p vif.1) p = d.lVIF.foldl f p := by
    conv_rhs => rw [← List.zipIdx_map_fst 0 d.lVIF, List.foldl_map]
  rw [Loops.foldl_component Progress.toPass _
    (fun p c => notify cfg.byteOrder c.stale c.vif p (c.ni, c.index)) (toPass_call cfg.byteOrder),
    passCalls, List.foldl_flatMap]
  simp only [List.foldl_map, Prod.mk.eta]
  rw [hSlots fun p vif => cfg.notifications.zipIdx.foldl (notify cfg.byteOrder stale vif) p, hStart,
    Spoofer.pass, Loops.foldl_component (Pass.behind (s.log.map Announcement.request))]
  intro p vif
  rw [Loops.foldl_component (Pass.behind (s.log.map Announcement.request))]
  exact fun p ni => (notify_behind cfg.byteOrder ⟨stale, vif, 0, ni.1, ni.2⟩ _ p).symm

theorem arpSpoofNotifier_eq (stale : Interface) (code : Bool) (ptr : EntryPtr n) (s : Spoofer n)
    (state : Progress) {lVIF : List Interface}
    (hData : Spoofer.prepare cfg code ptr (s.data ptr) = ⟨lVIF, state.leftTodo, state.arpcache⟩) :
    let next := s.arpSpoofNotifier cfg stale code ptr
    let state' := (passCalls lVIF cfg.notifications fun _ _ => stale).foldl
      (Progress.call cfg.byteOrder) state
    next.1.data ptr = ⟨lVIF, state'.leftTodo, state'.arpcache⟩ ∧
      state'.log.map Announcement.request = state.log.map Announcement.request ++ next.2 := by
  have hPass := toPass_passCalls cfg stale ⟨lVIF, state.leftTodo, state.arpcache⟩ ⟨rfl, rfl⟩
  rw [Progress.toPass, Pass.behind, Pass.mk.injEq] at hPass
  obtain ⟨hLeft, hCache, hSent⟩ := hPass
  simp only [Spoofer.arpSpoofNotifier, hData, Function.update_self]
  exact ⟨congrArg₂ (SpoofData.mk lVIF) hLeft.symm hCache.symm, hSent⟩

/-- The calls of `arp_spoof_notifier` for an entry, the first with code zero, and all requests. -/
def Spoofer.passes (stale : Nat → Interface) (ptr : EntryPtr n) (s : Spoofer n) :
    Nat → Spoofer n × List SpoofRequest
  | 0 => (s, [])
  | m + 1 =>
    let before := passes stale ptr s m
    let next := before.1.arpSpoofNotifier cfg (stale m) (decide (m ≠ 0)) ptr
    (next.1, before.2 ++ next.2)

/-- These calls go through the states of a `Progress`, which logs their requests. -/
theorem Spoofer.passes_eq (stale : Nat → Interface) (ptr : EntryPtr n) (s : Spoofer n) (m : Nat) :
    let d := prepare cfg false ptr (s.data ptr)
    let state := (Progress.invoked d.arpcache).after cfg.byteOrder d.lVIF cfg.notifications
      (fun m _ _ => stale m) (m + 1)
    (s.passes cfg stale ptr (m + 1)).1.data ptr = ⟨d.lVIF, state.leftTodo, state.arpcache⟩ ∧
      (s.passes cfg stale ptr (m + 1)).2 = state.log.map Announcement.request := by
  intro d
  induction m with
  | zero =>
      have hFirst := arpSpoofNotifier_eq cfg (stale 0) false ptr s (Progress.invoked d.arpcache)
        (show prepare cfg false ptr (s.data ptr) = ⟨d.lVIF, _, _⟩ from rfl)
      exact ⟨hFirst.1, hFirst.2.symm⟩
  | succ m ih =>
      obtain ⟨hData, hSent⟩ := ih
      have hNext := arpSpoofNotifier_eq cfg (stale (m + 1)) true ptr
        (s.passes cfg stale ptr (m + 1)).1 _ hData
      refine ⟨hNext.1, ?_⟩
      rw [passes, hSent]
      exact hNext.2.symm

end Notifier

/-- The request for an address of a netblock. -/
def blockRequest (vif : Interface) (ni : Notification) (x : Address) : SpoofRequest :=
  ⟨vif.ifname, vif.ipaddr, x, none, ni.ping⟩

/-- The request for an entry of the ARP cache. -/
def entryRequest (vif : Interface) (ni : Notification) (e : ArpEntry) : SpoofRequest :=
  ⟨vif.ifname, vif.ipaddr, e.ip, some e.mac, ni.ping⟩

namespace Call

variable {o : ByteOrder} {c : Call} {count : Int}

/-- How many addresses the block of the notification has in common with the network. -/
def size (o : ByteOrder) (c : Call) : Nat := overlapSize o c.vif c.ni.destination

theorem toInt_size (hBound : c.size o < 2 ^ 31) : (BitVec.ofNat 32 (c.size o)).toInt = c.size o := by
  rw [BitVec.toInt_eq_toNat_of_lt] <;> rw [BitVec.toNat_ofNat] <;> omega

/-- The requests that a count leaves to be sent, before the count is set all of them. -/
def blockQueue (o : ByteOrder) (c : Call) (count : Int) : List SpoofRequest :=
  ((targets o c.vif c.ni.destination).drop
    (if count = -1 then 0 else c.size o - count.toNat)).map (blockRequest c.vif c.ni)

theorem netblock_idle (h : count = 0 ∨ c.vif.ifname ≠ c.ni.destination.ifname) :
    c.netblock o count = (count, []) := by
  rw [netblock]
  dsimp only
  rw [if_pos (by tauto)]

/-- Without an address in common, or without a name, nothing is sent, but the count may be
used up. -/
theorem netblock_disjoint (hNone : c.size o = 0 ∨ c.vif.ifname = [])
    (hCount : count = -1 ∨ count = 0) :
    (c.netblock o count).2 = [] ∧ ((c.netblock o count).1 = -1 ∨ (c.netblock o count).1 = 0) := by
  rw [netblock]
  by_cases hSize : c.size o = 0
  · rw [calcNewCidr_of_disjoint _ hSize]
    dsimp only
    split_ifs with hSkip hUnset
    · exact ⟨rfl, hCount⟩
    all_goals simp_all
  · rw [calcNewCidr_of_overlap _ hSize]
    dsimp only
    rw [if_pos (.inr (.inr (hNone.resolve_left hSize)))]
    exact ⟨rfl, hCount⟩

/-- A negative throttle lets nothing through. -/
theorem netblock_negative (hThrottle : c.ni.throttle < 0) : (c.netblock o count).2 = [] := by
  rw [netblock]
  dsimp only
  rw [if_neg (Int.ne_of_lt hThrottle), Int.toNat_of_nonpos (Int.le_of_lt hThrottle), Nat.min_zero]
  split_ifs <;> rfl

theorem length_targets_eq : (targets o c.vif c.ni.destination).length = c.size o := length_targets

/-- The requests behind some offset, as the loop counts them up. -/
theorem map_range_eq (offset passes : Nat) (hRange : offset + passes ≤ c.size o) :
    ((List.range passes).map fun s : Nat => (⟨c.vif.ifname, c.vif.ipaddr,
      ntohl o (BitVec.ofNat 32 (overlapFirst o c.vif c.ni.destination + offset) + BitVec.ofNat 32 s),
      none, c.ni.ping⟩ : SpoofRequest)) =
      (((targets o c.vif c.ni.destination).drop offset).take passes).map
        (blockRequest c.vif c.ni) := by
  have hLength := c.length_targets_eq (o := o)
  apply List.ext_getElem
  · simp only [List.length_map, List.length_range, List.length_take, List.length_drop, hLength]
    omega
  · intro k hk hk'
    simp only [List.getElem_map, List.getElem_range, List.getElem_take, List.getElem_drop,
      blockRequest, targets, ← BitVec.ofNat_add, Nat.add_assoc]

/-- The loop sends the next addresses, as many as the throttle allows. -/
theorem netblock_eq (hName : c.vif.ifname = c.ni.destination.ifname) (hNamed : c.vif.ifname ≠ [])
    (hSize : 0 < c.size o) (hBound : c.size o < 2 ^ 31) (hCount : count ≠ 0) {left : Nat}
    (hLeft : (if count = -1 then (c.size o : Int) else count) = left) (hWithin : left ≤ c.size o)
    {passes : Nat}
    (hPasses : passes = if c.ni.throttle = 0 then left else min left c.ni.throttle.toNat) :
    c.netblock o count = ((left : Int) - passes,
      (((targets o c.vif c.ni.destination).drop (c.size o - left)).take passes).map
        (blockRequest c.vif c.ni)) := by
  have hMost : passes ≤ left := by
    rw [hPasses]
    split_ifs <;> omega
  have hFirst : BitVec.ofInt 32 ((c.size o : Int) - left) = BitVec.ofNat 32 (c.size o - left) := by
    rw [← Int.ofNat_sub hWithin, BitVec.ofInt_natCast]
  have hSkip : ¬(count = 0 ∨ c.vif.ifname ≠ c.ni.destination.ifname ∨ c.vif.ifname = []) := by
    tauto
  have hCidr : calcNewCidr o c.vif c.ni.destination c.stale = _ :=
    calcNewCidr_of_overlap c.stale (Nat.ne_of_gt hSize)
  rw [netblock, hCidr]
  dsimp only
  rw [if_neg hSkip, show overlapSize o c.vif c.ni.destination = c.size o from rfl,
    toInt_size hBound, hLeft,
    hFirst, Int.toNat_natCast, ← hPasses, ntohl_ntohl, ← BitVec.ofNat_add]
  exact congrArg (Prod.mk _) (c.map_range_eq _ _ (by omega))

/-- With addresses in common, a call takes a batch off what is to be sent. -/
theorem netblock_overlap (hName : c.vif.ifname = c.ni.destination.ifname)
    (hNamed : c.vif.ifname ≠ []) (hSize : 0 < c.size o) (hBound : c.size o < 2 ^ 31)
    (hThrottle : 0 ≤ c.ni.throttle) (hCount : count = -1 ∨ 0 ≤ count ∧ count ≤ c.size o) :
    (c.netblock o count).2 = batch c.ni.throttle.toNat (c.blockQueue o count) ∧
      (0 ≤ (c.netblock o count).1 ∧ (c.netblock o count).1 ≤ c.size o) ∧
      c.blockQueue o (c.netblock o count).1 =
        rest c.ni.throttle.toNat (c.blockQueue o count) := by
  have hLength := c.length_targets_eq (o := o)
  by_cases hZero : count = 0
  · have hEmpty : c.blockQueue o 0 = [] := by
      rw [blockQueue, if_neg (by decide), List.drop_of_length_le (by rw [hLength]; simp)]
      rfl
    subst hZero
    rw [netblock_idle (.inl rfl), hEmpty, batch_nil, rest_nil]
    exact ⟨rfl, ⟨le_rfl, by omega⟩, rfl⟩
  obtain ⟨left, hLeft, hWithin⟩ : ∃ left : Nat,
      (if count = -1 then (c.size o : Int) else count) = left ∧ left ≤ c.size o := by
    split_ifs with hUnset
    · exact ⟨c.size o, rfl, le_rfl⟩
    · exact ⟨count.toNat, by omega, by omega⟩
  have hQueue : c.blockQueue o count = ((targets o c.vif c.ni.destination).drop
      (c.size o - left)).map (blockRequest c.vif c.ni) := by
    rw [blockQueue]
    congr 2
    split_ifs at hLeft ⊢ <;> omega
  have hQueueLength : ((targets o c.vif c.ni.destination).drop (c.size o - left)).length = left := by
    rw [List.length_drop, hLength]
    omega
  have hCap : c.ni.throttle.toNat = 0 ↔ c.ni.throttle = 0 := by omega
  obtain ⟨passes, hPasses⟩ : ∃ passes : Nat,
      passes = if c.ni.throttle = 0 then left else min left c.ni.throttle.toNat := ⟨_, rfl⟩
  have hMost : passes ≤ left := by
    rw [hPasses]
    split_ifs <;> omega
  rw [netblock_eq hName hNamed hSize hBound hZero hLeft hWithin hPasses, hQueue, ← map_batch,
    ← map_rest, batch_eq_take, rest_eq_drop, hQueueLength]
  simp only [hCap, ← hPasses]
  refine ⟨trivial, by omega, ?_⟩
  rw [blockQueue, if_neg (by omega), List.drop_drop]
  congr 2
  omega

end Call

section ArpCache

variable (o : ByteOrder)

/-- The loop of `send_arp_spoof_arp_cache` sends to this entry. -/
def heard (vif : Interface) (e : ArpEntry) : Bool :=
  decide (e.ip ≠ 0#32 ∧ Covers o vif.ipaddr vif.network e.ip)

variable {o} {stale vif : Interface} {ni : Notification}

theorem not_heard_zero {e : ArpEntry} (h : e.ip = 0#32) : heard o vif e = false := by
  simp [heard, h]

theorem arpCacheLoop_cons (left : Nat) (sent : Int) (e : ArpEntry) (ac : List ArpEntry) :
    arpCacheLoop o stale vif ni (left + 1) sent (e :: ac) =
      if ni.throttle ≠ 0 ∧ ¬sent < ni.throttle then ([], e :: ac)
      else if heard o vif e = true then
        let r := arpCacheLoop o stale vif ni left (sent + 1) ac
        (entryRequest vif ni e :: r.1, { e with ip := 0#32 } :: r.2)
      else
        let r := arpCacheLoop o stale vif ni left sent ac
        (r.1, e :: r.2) := by
  rw [arpCacheLoop, calcNewCidr_entry]
  split_ifs with hFull hCovers hHeard hHeard
  · rfl
  all_goals simp_all [heard, entryRequest]

/-- An entry and what the loop leaves of it. -/
def Zeroed (o : ByteOrder) (vif : Interface) (e e' : ArpEntry) : Prop :=
  e' = e ∨ heard o vif e = true ∧ e' = { e with ip := 0#32 }

theorem arpCacheLoop_zeroed (left : Nat) (sent : Int) (ac : List ArpEntry) :
    List.Forall₂ (Zeroed o vif) ac (arpCacheLoop o stale vif ni left sent ac).2 := by
  have hSame (ac : List ArpEntry) : List.Forall₂ (Zeroed o vif) ac ac :=
    List.forall₂_same.mpr fun _ _ => .inl rfl
  induction ac generalizing left sent with
  | nil => cases left <;> exact .nil
  | cons e ac ih =>
      cases left with
      | zero => exact hSame _
      | succ left =>
          rw [arpCacheLoop_cons]
          split_ifs with hFull hHeard
          · exact hSame _
          · exact .cons (.inr ⟨hHeard, rfl⟩) (ih left (sent + 1))
          · exact .cons (.inl rfl) (ih left sent)

/-- What is zeroed was to be sent to, so other addresses find what they look for. -/
theorem filter_zeroed {ac ac' : List ArpEntry} (h : List.Forall₂ (Zeroed o vif) ac ac')
    {vif' : Interface}
    (hDisjoint : ∀ e ∈ ac, heard o vif e = true → heard o vif' e = false) :
    ac'.filter (heard o vif') = ac.filter (heard o vif') := by
  induction h with
  | nil => rfl
  | cons hHead _ ih =>
      rename_i e e' ac ac' _
      have hRest := ih fun e' hMem => hDisjoint e' (List.mem_cons_of_mem e hMem)
      have hSame : heard o vif' e' = heard o vif' e ∧ (heard o vif' e = true → e' = e) := by
        obtain rfl | ⟨hHeard, rfl⟩ := hHead
        · exact ⟨rfl, fun _ => rfl⟩
        · have hNot := hDisjoint e List.mem_cons_self hHeard
          rw [hNot, not_heard_zero rfl]
          exact ⟨rfl, fun h => by cases h⟩
      simp only [List.filter_cons, hSame.1, hRest]
      split_ifs with hHeard
      · rw [hSame.2 hHeard]
      · rfl

theorem arpCacheLoop_negative (hThrottle : ni.throttle < 0) (left : Nat) (ac : List ArpEntry) :
    (arpCacheLoop o stale vif ni left 0 ac).1 = [] := by
  cases left with
  | zero => rfl
  | succ left =>
      cases ac with
      | nil => rfl
      | cons e ac => rw [arpCacheLoop_cons, if_pos ⟨by omega, by omega⟩]

/-- Without an entry for the address nothing is sent, and the copy is left alone. -/
theorem arpCacheLoop_nobody {ac : List ArpEntry} (hNone : ∀ e ∈ ac, heard o vif e = false)
    (left : Nat) (sent : Int) : arpCacheLoop o stale vif ni left sent ac = ([], ac) := by
  induction ac generalizing left sent with
  | nil => cases left <;> rfl
  | cons e ac ih =>
      cases left with
      | zero => rfl
      | succ left =>
          have hRest := ih (fun e' hMem => hNone e' (List.mem_cons_of_mem e hMem)) left sent
          rw [arpCacheLoop_cons, hNone e List.mem_cons_self, if_neg Bool.false_ne_true, hRest]
          split_ifs <;> rfl

theorem Call.arpCache_negative {c : Call} {count : Int} {ac : List ArpEntry}
    (hThrottle : c.ni.throttle < 0) : (c.arpCache o count ac).2.2 = [] :=
  arpCacheLoop_negative hThrottle _ ac

theorem Call.arpCache_nobody {c : Call} {count : Int} {ac : List ArpEntry}
    (hNone : ∀ e ∈ ac, heard o c.vif e = false) : (c.arpCache o count ac).2 = (ac, []) := by
  rw [Call.arpCache]
  dsimp only
  rw [arpCacheLoop_nobody hNone]

/-- The loop sends to the first entries that it can, and leaves the others. -/
theorem arpCacheLoop_spec (ac : List ArpEntry) (sent : Int) (room : Nat)
    (hFree : ni.throttle = 0 → (ac.filter (heard o vif)).length ≤ room)
    (hRoom : ni.throttle ≠ 0 → room = (ni.throttle - sent).toNat) :
    let r := arpCacheLoop o stale vif ni ac.length sent ac
    r.1 = ((ac.filter (heard o vif)).take room).map (entryRequest vif ni) ∧
      r.2.filter (heard o vif) = (ac.filter (heard o vif)).drop room := by
  induction ac generalizing sent room with
  | nil => simp [arpCacheLoop]
  | cons e ac ih =>
      rw [List.length_cons, arpCacheLoop_cons]
      split_ifs with hFull hHeard
      · have hNone : room = 0 := by
          rw [hRoom hFull.1]
          omega
        subst hNone
        exact ⟨rfl, rfl⟩
      · rw [List.filter_cons_of_pos hHeard] at hFree ⊢
        rw [List.length_cons] at hFree
        obtain ⟨room, rfl⟩ : ∃ k, room = k + 1 := by
          refine ⟨room - 1, ?_⟩
          by_cases hThrottle : ni.throttle = 0
          · have hMore := hFree hThrottle
            omega
          · have hMore := hRoom hThrottle
            have hSpace : sent < ni.throttle := not_not.mp fun hNot => hFull ⟨hThrottle, hNot⟩
            omega
        obtain ⟨hSent, hLeft⟩ := ih (sent + 1) room
          (fun hThrottle => Nat.le_of_succ_le_succ (hFree hThrottle))
          (fun hThrottle => by
            have hMore := hRoom hThrottle
            omega)
        refine ⟨by simp [hSent], ?_⟩
        rw [List.filter_cons_of_neg (by simp [not_heard_zero]), hLeft]
        rfl
      · rw [List.filter_cons_of_neg hHeard] at hFree ⊢
        obtain ⟨hSent, hLeft⟩ := ih sent room hFree hRoom
        exact ⟨hSent, by rw [List.filter_cons_of_neg hHeard, hLeft]⟩

/-- The requests that are left for an address. -/
def entryQueue (o : ByteOrder) (vif : Interface) (ni : Notification) (ac : List ArpEntry) :
    List SpoofRequest :=
  (ac.filter (heard o vif)).map (entryRequest vif ni)

/-- A call that looks through the whole copy takes a batch off what is left for its address. -/
theorem Call.arpCache_batch {c : Call} {count : Int} {ac : List ArpEntry}
    (hThrottle : 0 ≤ c.ni.throttle)
    (hCount : count = ac.length ∨ count = -1 ∧ ∀ e ∈ ac, e.ip ≠ 0#32) :
    let r := c.arpCache o count ac
    r.1 = ac.length ∧ List.Forall₂ (Zeroed o c.vif) ac r.2.1 ∧
      r.2.2 = batch c.ni.throttle.toNat (entryQueue o c.vif c.ni ac) ∧
      entryQueue o c.vif c.ni r.2.1 = rest c.ni.throttle.toNat (entryQueue o c.vif c.ni ac) := by
  have hWhole : (if count = -1 then ((ac.takeWhile fun e => e.ip ≠ 0#32).length : Int) else count) =
      ac.length := by
    split_ifs with hUnset
    · have hAll : ∀ e ∈ ac, e.ip ≠ 0#32 := by
        obtain hLength | ⟨-, hAll⟩ := hCount
        · omega
        · exact hAll
      rw [List.takeWhile_eq_self_iff.mpr (by simpa using hAll)]
    · exact hCount.resolve_right fun h => hUnset h.1
  obtain ⟨room, hRoom⟩ : ∃ room, room = if c.ni.throttle.toNat = 0 then
    (ac.filter (heard o c.vif)).length else c.ni.throttle.toNat := ⟨_, rfl⟩
  have hBatch : batch c.ni.throttle.toNat (ac.filter (heard o c.vif)) =
      (ac.filter (heard o c.vif)).take room := by
    rw [batch, hRoom]
    split_ifs
    · exact List.take_length.symm
    · rfl
  have hRest : rest c.ni.throttle.toNat (ac.filter (heard o c.vif)) =
      (ac.filter (heard o c.vif)).drop room := by
    rw [rest, hRoom]
    split_ifs
    · exact List.drop_length.symm
    · rfl
  obtain ⟨hSent, hLeft⟩ : (arpCacheLoop o c.stale c.vif c.ni ac.length 0 ac).1 = _ ∧ _ :=
    arpCacheLoop_spec ac 0 room (fun hZero => by rw [hRoom, if_pos (by omega)])
      (fun hZero => by rw [hRoom, if_neg (by omega), sub_zero])
  simp only [Call.arpCache, hWhole, Int.toNat_natCast, entryQueue, ← map_batch, ← map_rest, hBatch,
    hRest]
  exact ⟨trivial, arpCacheLoop_zeroed _ _ ac, hSent, congrArg _ hLeft⟩

end ArpCache

end Wackamole
