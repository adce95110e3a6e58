import Mathlib.Data.BitVec
import Mathlib.Data.Fintype.Basic
import Mathlib.Data.Fin.Basic

/-! The types of `defines.h` and `configuration.h`, and the automaton, claim
and message constants of `wackamole.c`. A daemon manages `n` virtual interfaces
(`Num_pseudo`), so both of its tables are indexed by `Fin n`. -/
namespace Wackamole

/-- `unsigned int`: an IPv4 address as `s_addr` holds it. Zero stands for "nobody". -/
abbrev Address := BitVec 32

instance : LawfulBEq Address := inferInstance

/-- A four byte cell of the message buffer `Mess`. -/
abbrev Word := BitVec 32

/-- `group_id`: the view identifier that Spread puts in front of a membership message. -/
structure GroupId where
  id0 : Word
  id1 : Word
  id2 : Word
  deriving DecidableEq, Repr

@[simp] abbrev maxPseudo : Nat := 254

@[simp] abbrev maxDepIf : Nat := 30

/-- `IFNAMSIZ`. -/
@[simp] abbrev ifNamSiz : Nat := 16

/-- The automaton states. `unset` is the value zero that the static `State`
has until the first connection to Spread succeeds. -/
inductive Automaton where
  | unset
  | boot
  | run
  | gather
  | balance
  deriving DecidableEq, Repr

/-- Claim priorities are plain integers: the code compares them by order. -/
@[simp] abbrev unclaimed : Int := 0
@[simp] abbrev claimedBoot : Int := 1
@[simp] abbrev claimed : Int := 2
@[simp] abbrev preferBoot : Int := 3
@[simp] abbrev prefer : Int := 4
@[simp] abbrev preferClaimed : Int := 5

@[simp] abbrev stateMessType : Int := 1
@[simp] abbrev maturingMessType : Int := 2
@[simp] abbrev balanceMessType : Int := 3
@[simp] abbrev operatorMessType : Int := 4
@[simp] abbrev arpcacheMessType : Int := 5

/-- What the protocol reads and writes of an `entry`: the owner `real_if` and the
claim priority. The virtual address `pseudo_if` is fixed by the configuration
and is the same in `Allocation_table` and `Old_table`; see `Config.pseudoIf`. -/
structure Entry where
  realIf : Address
  claimPriority : Int
  deriving DecidableEq, Repr

/-- One slot of `Members`. -/
structure Member where
  realIf : Address
  numAllocated : Int
  gotStateFrom : Bool
  deriving DecidableEq, Repr

/-- What `Get_conf` and `Wackamole_init` fix for the whole run of a daemon. -/
structure Config (n : Nat) where
  /-- `_pif_ip_s` of the table entries. -/
  pseudoIf : Fin n → Address
  preferAddress : List Address
  /-- `_rif_ip_s(My)`. -/
  realIf : Address
  spreadGroup : String
  /-- After the cap to half the number of virtual interfaces. -/
  balanceRate : Nat
  completeBalance : Bool
  /-- Whether the build defines `NEEDS_FORCE_REUP`, as the Linux build does. -/
  needsForceReup : Bool

/-- The events that wackamole keeps in Spread's queue. Each is queued with one
function, code and data only, so a pending event is a member of a set. -/
inductive Timer where
  | turnMature
  | balance
  | spreadReconnect
  | sendLocalArpCache
  deriving DecidableEq, Repr

inductive Handler where
  | membership
  | state
  | mature
  | balance
  | operator
  | arpCache
  deriving DecidableEq, Repr

/-- Observable actions of a daemon, kept in its trace. -/
inductive Act (n : Nat) where
  | handler (handler : Handler)
  | acquire (i : Fin n)
  | release (i : Fin n)
  | reup (i : Fin n)
  | multicast (messType : Int) (words : List Word) (ret : Int)
  deriving DecidableEq, Repr

end Wackamole
