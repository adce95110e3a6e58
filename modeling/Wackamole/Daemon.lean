import Wackamole.Types
import Mathlib.Data.Fintype.Fin
import Mathlib.Data.List.FinRange
import Mathlib.Data.Finset.Basic

/-! The state of one daemon (the static variables of `wackamole.c`) and the
operations that bring a virtual interface up and down. The interface calls
themselves, the ARP spoofers and the user hooks act outside this state. -/
namespace Wackamole

variable {n : Nat}

/-- The globals of `wackamole.c`, together with three ghost fields: the virtual
interfaces whose addresses are up, those acquired and not released since, and
the trace of actions, latest first. -/
structure Daemon (n : Nat) where
  state : Automaton
  oldMaturity : Bool
  maturity : Bool
  spreadLock : Bool
  numMembers : Nat
  members : Nat → Member
  /-- `My.num_allocated`. -/
  numAllocated : Int
  myIndex : Nat
  gid : GroupId
  mbox : Int
  mess : List Word
  messType : Int
  endianMismatch : Bool
  serviceType : Int
  numGroups : Nat
  numPendingStates : Int
  sender : String
  allocationTable : Fin n → Entry
  oldTable : Fin n → Entry
  /-- The events pending in Spread's queue. -/
  events : Finset Timer
  up : Finset (Fin n)
  acquired : Finset (Fin n)
  trace : List (Act n)

/-- The globals as the loader leaves them, with the tables as `Get_conf` copies
them: no owner and priority zero. -/
def Daemon.initial (n : Nat) : Daemon n where
  state := .unset
  oldMaturity := false
  maturity := false
  spreadLock := false
  numMembers := 0
  members := fun _ => ⟨0#32, 0, false⟩
  numAllocated := 0
  myIndex := 0
  gid := ⟨0#32, 0#32, 0#32⟩
  mbox := -1
  mess := []
  messType := 0
  endianMismatch := false
  serviceType := 0
  numGroups := 0
  numPendingStates := 0
  sender := ""
  allocationTable := fun _ => ⟨0#32, unclaimed⟩
  oldTable := fun _ => ⟨0#32, unclaimed⟩
  events := ∅
  up := ∅
  acquired := ∅
  trace := []

namespace Daemon

def record (act : Act n) (d : Daemon n) : Daemon n :=
  { d with trace := act :: d.trace }

/-- `E_queue`: a pending event with the same function, code and data is replaced. -/
def queue (timer : Timer) (d : Daemon n) : Daemon n :=
  { d with events := insert timer d.events }

/-- `E_dequeue`. -/
def dequeue (timer : Timer) (d : Daemon n) : Daemon n :=
  { d with events := d.events.erase timer }

/-- `memcpy` into the front of the message buffer; the rest of it stays. -/
def write (words : List Word) (d : Daemon n) : Daemon n :=
  { d with mess := words ++ d.mess.drop words.length }

def setAllocation (i : Fin n) (e : Entry) (d : Daemon n) : Daemon n :=
  { d with allocationTable := Function.update d.allocationTable i e }

def setOld (i : Fin n) (e : Entry) (d : Daemon n) : Daemon n :=
  { d with oldTable := Function.update d.oldTable i e }

/-- `Acquire`. The counter moves whether or not the address was up before. -/
def acquire (i : Fin n) (d : Daemon n) : Daemon n :=
  { d with
    numAllocated := d.numAllocated + 1
    up := insert i d.up
    acquired := insert i d.acquired
    trace := .acquire i :: d.trace }

/-- `Release`. It does not ask whether the address is up. -/
def release (i : Fin n) (d : Daemon n) : Daemon n :=
  { d with
    numAllocated := d.numAllocated - 1
    up := d.up.erase i
    acquired := d.acquired.erase i
    trace := .release i :: d.trace }

/-- One pass of the loop in `force_reup`: the addresses come up again, and
neither the counter nor the user hooks are touched. -/
def reup (i : Fin n) (d : Daemon n) : Daemon n :=
  { d with up := insert i d.up, trace := .reup i :: d.trace }

end Daemon

/-- `findVEFromAddress`: the first entry with this virtual address. -/
def findVE (cfg : Config n) (addr : Address) : Option (Fin n) :=
  (List.finRange n).find? fun j => cfg.pseudoIf j = addr

/-- `ReleaseAddress`; an unknown address is only reported. -/
def releaseAddress (cfg : Config n) (addr : Address) (d : Daemon n) : Daemon n :=
  match findVE cfg addr with
  | none => d
  | some i => d.release i

def forceReup (cfg : Config n) (d : Daemon n) : Daemon n :=
  (List.finRange n).foldl (fun d i =>
    if cfg.realIf = (d.allocationTable i).realIf then d.reup i else d) d

/-- `Handle_Post_Release`. -/
def handlePostRelease (cfg : Config n) (d : Daemon n) : Daemon n :=
  if cfg.needsForceReup then forceReup cfg d else d

/-- One pass of the loop in `Clean_up`. The priorities are left as they are. -/
def cleanUpEntry (d : Daemon n) (i : Fin n) : Daemon n :=
  let d := d.release i
  let d := d.setAllocation i { d.allocationTable i with realIf := 0#32 }
  d.setOld i { d.oldTable i with realIf := 0#32 }

def cleanUp (d : Daemon n) : Daemon n :=
  (List.finRange n).foldl cleanUpEntry d

end Wackamole
