import Wackamole.Types
import Wackamole.Library.HostWords
import Wackamole.Library.Loops
import Mathlib.Data.Fintype.Fin
import Mathlib.Data.List.FinRange
import Mathlib.Data.Finset.Basic

/-! `spoofmanager.c` in the build without threads: the notifiers that spread the news of an
address, and the events that they leave in Spread's queue. -/
namespace Wackamole

open HostWords

variable {n : Nat}

/-- `ntohl` and `htonl` on a host of some byte order. -/
def ntohl (o : ByteOrder) (w : Word) : Word :=
  match o with
  | .little => swap w
  | .big => w

@[simp] theorem ntohl_ntohl (o : ByteOrder) (w : Word) : ntohl o (ntohl o w) = w := by
  cases o <;> simp [ntohl]

/-- What the notifiers use of a `struct interface`. -/
structure Interface where
  ifname : List Char
  ipaddr : Address
  netmask : Address
  network : Address
  deriving DecidableEq

structure Notification where
  destination : Interface
  throttle : Int
  ping : Int
  deriving DecidableEq

structure ArpEntry where
  ip : Address
  mac : BitVec 48
  deriving DecidableEq

/-- One call of `if_send_spoof_request`. -/
structure SpoofRequest where
  dev : List Char
  newIp : Address
  remoteIp : Address
  remoteMac : Option (BitVec 48)
  ping : Int
  deriving DecidableEq

/-- `_is_arp_cache`. -/
def Notification.isArpCache (ni : Notification) : Bool :=
  ni.destination.ifname.take 9 = ['a', 'r', 'p', '-', 'c', 'a', 'c', 'h', 'e']

/-- `calc_new_cidr`: the size of the overlap, and its first address in `out` if there is
one. -/
def calcNewCidr (o : ByteOrder) (i₁ i₂ out : Interface) : Word × Interface :=
  let s₁ := ntohl o (i₁.ipaddr &&& i₁.network)
  let e₁ := ntohl o (i₁.ipaddr ||| ~~~i₁.network)
  let s₂ := ntohl o (i₂.ipaddr &&& i₂.netmask)
  let e₂ := ntohl o (i₂.ipaddr ||| ~~~i₂.netmask)
  let s₁ := if s₁ > s₂ then s₁ else s₂
  let e₁ := if e₁ < e₂ then e₁ else e₂
  if e₁ < s₁ then (0#32, out)
  else (e₁ - s₁ + 1#32, { out with ipaddr := ntohl o s₁, ifname := i₁.ifname })

/-- The loop of `send_arp_spoof_arp_cache`, with `*count` passes left and `c` requests
sent. The entries that it has used are zeroed in the copy of the cache. A count from an
older and longer copy ends with the copy here. -/
def arpCacheLoop (o : ByteOrder) (stale vif : Interface) (ni : Notification) :
    Nat → Int → List ArpEntry → List SpoofRequest × List ArpEntry
  | 0, _, ac => ([], ac)
  | _ + 1, _, [] => ([], [])
  | left + 1, c, entry :: ac =>
    if ni.throttle ≠ 0 ∧ ¬ c < ni.throttle then ([], entry :: ac)
    else
      let (size, dest) := calcNewCidr o vif ⟨[], entry.ip, ~~~0#32, 0#32⟩ stale
      if entry.ip ≠ 0#32 ∧ size ≠ 0#32 then
        let (sent, ac) := arpCacheLoop o stale vif ni left (c + 1) ac
        (⟨vif.ifname, vif.ipaddr, dest.ipaddr, some entry.mac, ni.ping⟩ :: sent,
          { entry with ip := 0#32 } :: ac)
      else
        let (sent, ac) := arpCacheLoop o stale vif ni left c ac
        (sent, entry :: ac)

/-- What a notifier works on: `left_todo`, its copy of the ARP cache, and the requests
that it has sent in this pass. -/
structure Pass where
  leftTodo : Nat → Int
  arpcache : List ArpEntry
  sent : List SpoofRequest

/-- `send_arp_spoof_arp_cache` for the notification with index `i`. -/
def sendArpSpoofArpCache (o : ByteOrder) (stale vif : Interface) (ni : Notification) (i : Nat)
    (p : Pass) : Pass :=
  let count :=
    if p.leftTodo i = -1 then ((p.arpcache.takeWhile fun e => e.ip ≠ 0#32).length : Int)
    else p.leftTodo i
  let (sent, arpcache) := arpCacheLoop o stale vif ni count.toNat 0 p.arpcache
  ⟨Function.update p.leftTodo i count, arpcache, p.sent ++ sent⟩

/-- `send_arp_spoof_netblock` for the notification with index `i`. Its `newcidr` is not
initialised; `stale` is what it holds. -/
def sendArpSpoofNetblock (o : ByteOrder) (stale vif : Interface) (ni : Notification) (i : Nat)
    (p : Pass) : Pass :=
  let (size, newcidr) := calcNewCidr o vif ni.destination stale
  let csize := size.toInt
  if p.leftTodo i = 0 ∨ vif.ifname ≠ ni.destination.ifname ∨ newcidr.ifname = [] then p
  else
    let count := if p.leftTodo i = -1 then csize else p.leftTodo i
    let first := ntohl o newcidr.ipaddr + BitVec.ofInt 32 (csize - count)
    let passes := if ni.throttle = 0 then count.toNat else min count.toNat ni.throttle.toNat
    ⟨Function.update p.leftTodo i (count - passes), p.arpcache,
      p.sent ++ (List.range passes).map fun s =>
        ⟨vif.ifname, vif.ipaddr, ntohl o (first + BitVec.ofNat 32 s), none, ni.ping⟩⟩

def notify (o : ByteOrder) (stale vif : Interface) (p : Pass) (ni : Notification × Nat) : Pass :=
  if ni.1.isArpCache then sendArpSpoofArpCache o stale vif ni.1 ni.2 p
  else sendArpSpoofNetblock o stale vif ni.1 ni.2 p

/-- An entry of one of the two tables, as a pointer. -/
inductive EntryPtr (n : Nat) where
  | allocation (i : Fin n)
  | old (i : Fin n)
  deriving DecidableEq

/-- `arp_spoof_data` of an entry: the first `ifcount` slots of `lVIF`, `left_todo` and the
copy of the ARP cache. -/
structure SpoofData where
  lVIF : List Interface
  leftTodo : Nat → Int
  arpcache : List ArpEntry

/-- What the configuration and the host fix for the notifiers. -/
structure SpoofConfig (n : Nat) where
  byteOrder : ByteOrder
  pseudoIf : Fin n → Interface
  extraIfs : Fin n → List Interface
  notifications : List Notification

/-- The notifiers of a daemon: which interfaces are up, the pending events of
`arp_spoof_notifier` with their code (whether it is a repetition) and entry, and the
shared ARP cache. -/
structure Spoofer (n : Nat) where
  up : Finset (Fin n)
  pending : Finset (Bool × EntryPtr n)
  data : EntryPtr n → SpoofData
  shared : List ArpEntry

def Spoofer.initial (n : Nat) : Spoofer n := ⟨∅, ∅, fun _ => ⟨[], fun _ => 0, []⟩, []⟩

namespace Spoofer

/-- `cancel_spoofer`: only an event with code zero is removed. -/
def cancelSpoofer (ptr : EntryPtr n) (s : Spoofer n) : Spoofer n :=
  { s with pending := s.pending.erase (false, ptr) }

/-- `invoke_spoofer`. -/
def invokeSpoofer (ptr : EntryPtr n) (s : Spoofer n) : Spoofer n :=
  let s := s.cancelSpoofer ptr
  { s with
    data := Function.update s.data ptr { s.data ptr with arpcache := s.shared }
    pending := insert (false, ptr) s.pending }

/-- `Acquire`, which is called with entries of `Allocation_table` only. -/
def acquire (i : Fin n) (s : Spoofer n) : Spoofer n :=
  { s with up := insert i s.up }.invokeSpoofer (.allocation i)

/-- `Release`. It does not touch the notifiers. -/
def release (i : Fin n) (s : Spoofer n) : Spoofer n := { s with up := s.up.erase i }

/-- `Clean_up`, which works on the entries of `Old_table`. -/
def cleanUp (s : Spoofer n) : Spoofer n :=
  (List.finRange n).foldl (fun s i => (s.cancelSpoofer (.old i)).release i) s

def entryOf : EntryPtr n → Fin n
  | .allocation i => i
  | .old i => i

/-- The start of `arp_spoof_notifier`: with code zero it appends the interfaces of the
entry to `lVIF` and sets everything to be done. -/
def prepare (cfg : SpoofConfig n) (code : Bool) (ptr : EntryPtr n) (d : SpoofData) : SpoofData :=
  if code then d
  else
    { d with
      lVIF := d.lVIF ++ ([cfg.pseudoIf (entryOf ptr)].filter fun vif => vif.ipaddr ≠ 0#32) ++
        (cfg.extraIfs (entryOf ptr)).takeWhile fun vif => vif.ipaddr ≠ 0#32
      leftTodo := fun _ => -1 }

/-- The loops of `arp_spoof_notifier` over its interfaces and the notifications. -/
def pass (cfg : SpoofConfig n) (stale : Interface) (d : SpoofData) : Pass :=
  d.lVIF.foldl (fun p vif => cfg.notifications.zipIdx.foldl (notify cfg.byteOrder stale vif) p)
    ⟨d.leftTodo, d.arpcache, []⟩

/-- `arp_spoof_notifier`: it queues itself again if it has sent something. -/
def arpSpoofNotifier (cfg : SpoofConfig n) (stale : Interface) (code : Bool) (ptr : EntryPtr n)
    (s : Spoofer n) : Spoofer n × List SpoofRequest :=
  let d := prepare cfg code ptr (s.data ptr)
  let p := pass cfg stale d
  ({ s with
      data := Function.update s.data ptr ⟨d.lVIF, p.leftTodo, p.arpcache⟩
      pending := if p.sent = [] then s.pending else insert (true, ptr) s.pending }, p.sent)

end Spoofer

inductive SpoofEvent (n : Nat) where
  | acquire (i : Fin n)
  | release (i : Fin n)
  | cleanUp
  /-- `insert_arp_cache_shared` has changed the shared cache. -/
  | arpCache (shared : List ArpEntry)
  /-- A pending event of `arp_spoof_notifier` fires. -/
  | notifier (stale : Interface) (code : Bool) (ptr : EntryPtr n)

namespace Spoofer

/-- One event, and the requests that are sent in it. An event that is not pending cannot
fire. -/
def step (cfg : SpoofConfig n) (s : Spoofer n) : SpoofEvent n → Spoofer n × List SpoofRequest
  | .acquire i => (s.acquire i, [])
  | .release i => (s.release i, [])
  | .cleanUp => (s.cleanUp, [])
  | .arpCache shared => ({ s with shared }, [])
  | .notifier stale code ptr =>
    if (code, ptr) ∈ s.pending then
      { s with pending := s.pending.erase (code, ptr) }.arpSpoofNotifier cfg stale code ptr
    else (s, [])

def run (cfg : SpoofConfig n) (es : List (SpoofEvent n)) : Spoofer n :=
  es.foldl (fun s e => (s.step cfg e).1) (initial n)

/-- No entry is brought down while one of its notifiers is pending. -/
def Undisturbed (s : Spoofer n) : SpoofEvent n → Prop
  | .release i => ∀ code, (code, .allocation i) ∉ s.pending
  | .cleanUp => ∀ i code, (code, .allocation i) ∉ s.pending
  | .acquire _ => True
  | .arpCache _ => True
  | .notifier _ _ _ => True

/-- Every pending notifier is one for an interface that is up. -/
def Inv (s : Spoofer n) : Prop :=
  ∀ code ptr, (code, ptr) ∈ s.pending → ∃ i, ptr = .allocation i ∧ i ∈ s.up

variable {cfg : SpoofConfig n} {s : Spoofer n}

theorem inv_initial : (initial n).Inv := fun _ _ hPending => absurd hPending (Finset.notMem_empty _)

theorem Inv.acquire (h : s.Inv) (i : Fin n) : (s.acquire i).Inv := by
  intro code ptr hPending
  rcases Finset.mem_insert.mp hPending with hNew | hOld
  · cases hNew
    exact ⟨i, rfl, Finset.mem_insert_self i _⟩
  · obtain ⟨k, hPtr, hUp⟩ := h code ptr (Finset.mem_of_mem_erase hOld)
    exact ⟨k, hPtr, Finset.mem_insert_of_mem hUp⟩

theorem Inv.release (h : s.Inv) {i : Fin n} (hIdle : ∀ code, (code, .allocation i) ∉ s.pending) :
    (s.release i).Inv := by
  intro code ptr hPending
  obtain ⟨k, rfl, hUp⟩ := h code ptr hPending
  refine ⟨k, rfl, Finset.mem_erase.mpr ⟨fun hEq => ?_, hUp⟩⟩
  subst hEq
  exact hIdle code hPending

theorem cleanUp_pending (s : Spoofer n) : s.cleanUp.pending ⊆ s.pending := by
  apply Loops.foldl_invariant (fun s' : Spoofer n => s'.pending ⊆ s.pending)
  · exact fun s' i _ h => (Finset.erase_subset _ _).trans h
  · exact Finset.Subset.refl _

theorem Inv.cleanUp (h : s.Inv) (hIdle : ∀ i code, (code, .allocation i) ∉ s.pending) :
    s.cleanUp.Inv := by
  intro code ptr hPending
  have hBefore := cleanUp_pending s hPending
  obtain ⟨k, rfl, _⟩ := h code ptr hBefore
  exact absurd hBefore (hIdle k code)

/-- A notifier that has fired queues itself for the entry that it was pending for. -/
theorem Inv.arpSpoofNotifier (h : s.Inv) {i : Fin n} (hUp : i ∈ s.up) (stale : Interface)
    (code : Bool) : (s.arpSpoofNotifier cfg stale code (.allocation i)).1.Inv := by
  intro code' ptr hPending
  simp only [Spoofer.arpSpoofNotifier] at hPending ⊢
  split_ifs at hPending
  · exact h code' ptr hPending
  · rcases Finset.mem_insert.mp hPending with hNew | hOld
    · cases hNew
      exact ⟨i, rfl, hUp⟩
    · exact h code' ptr hOld

theorem Inv.step (h : s.Inv) {e : SpoofEvent n} (hUndisturbed : s.Undisturbed e) :
    (s.step cfg e).1.Inv := by
  cases e with
  | acquire i => exact h.acquire i
  | release i => exact h.release hUndisturbed
  | cleanUp => exact h.cleanUp hUndisturbed
  | arpCache shared => exact h
  | notifier stale code ptr =>
      rw [Spoofer.step]
      split_ifs with hPending
      · obtain ⟨i, rfl, hUp⟩ := h code ptr hPending
        have hFired : Inv { s with pending := s.pending.erase (code, .allocation i) } :=
          fun code' ptr' hMem => h code' ptr' (Finset.mem_of_mem_erase hMem)
        exact hFired.arpSpoofNotifier hUp stale code
      · exact h

theorem inv_run {es : List (SpoofEvent n)}
    (hUndisturbed : ∀ before e after, es = before ++ e :: after → (run cfg before).Undisturbed e) :
    (run cfg es).Inv := by
  induction es using List.reverseRecOn with
  | nil => exact inv_initial
  | append_singleton es e ih =>
      have hBefore := ih fun before e' after hEq =>
        hUndisturbed before e' (after ++ [e]) (by rw [hEq]; simp)
      rw [run, List.foldl_append]
      exact hBefore.step (hUndisturbed es e [] rfl)

/-- In a run in which no entry is brought down while one of its notifiers is pending, every
spoof is for an interface that is up. -/
theorem run_spoofs_up {es : List (SpoofEvent n)}
    (hUndisturbed : ∀ before e after, es = before ++ e :: after → (run cfg before).Undisturbed e)
    {before after : List (SpoofEvent n)} {stale : Interface} {code : Bool} {ptr : EntryPtr n}
    (hRun : es = before ++ .notifier stale code ptr :: after)
    (hSends : ((run cfg before).step cfg (.notifier stale code ptr)).2 ≠ []) :
    entryOf ptr ∈ (run cfg before).up := by
  have hInv : (run cfg before).Inv := inv_run fun before' e after' hEq =>
    hUndisturbed before' e (after' ++ .notifier stale code ptr :: after) (by rw [hRun, hEq]; simp)
  have hPending : (code, ptr) ∈ (run cfg before).pending := by
    by_contra hNot
    rw [step, if_neg hNot] at hSends
    exact hSends rfl
  obtain ⟨i, rfl, hUp⟩ := hInv code ptr hPending
  exact hUp

/-- The interface 10.0.0.1, whose notifiers tell the four addresses of 10.0.0.0/30, one in
each pass. -/
def throttled : SpoofConfig 1 where
  byteOrder := .little
  pseudoIf _ := ⟨['e', 't', 'h', '0'], 0x0100000a#32, 0xffffffff#32, 0x00ffffff#32⟩
  extraIfs _ := []
  notifications := [⟨⟨['e', 't', 'h', '0'], 0x0000000a#32, 0xfcffffff#32, 0#32⟩, 1, 0⟩]

theorem throttled_spoofs_up :
    entryOf (.allocation 0) ∈ (run throttled
      [.acquire 0, .notifier ⟨[], 0#32, 0#32, 0#32⟩ false (.allocation 0)]).up := by
  have hUndisturbed : ∀ before e after,
      [.acquire 0, .notifier ⟨[], 0#32, 0#32, 0#32⟩ false (.allocation 0),
        .notifier ⟨[], 0#32, 0#32, 0#32⟩ true (.allocation 0)] = before ++ e :: after →
      (run throttled before).Undisturbed e := by
    intro before e after hEq
    have hMem : e ∈ before ++ e :: after := by simp
    rw [← hEq] at hMem
    simp only [List.mem_cons, List.not_mem_nil, or_false] at hMem
    rcases hMem with rfl | rfl | rfl <;> trivial
  exact run_spoofs_up hUndisturbed rfl (by decide +kernel)

/-- The interface is released after the first pass, and the second pass sends its request
all the same. -/
theorem throttled_spoofs_down :
    let before : List (SpoofEvent 1) :=
      [.acquire 0, .notifier ⟨[], 0#32, 0#32, 0#32⟩ false (.allocation 0), .release 0]
    ((run throttled before).step throttled
      (.notifier ⟨[], 0#32, 0#32, 0#32⟩ true (.allocation 0))).2 =
        [⟨['e', 't', 'h', '0'], 0x0100000a#32, 0x0100000a#32, none, 0⟩] ∧
      0 ∉ (run throttled before).up := by
  decide +kernel

end Spoofer

end Wackamole
