import Wackamole.Tokens
import Wackamole.Preferring

/-! The grammar of the configuration and the tables that its actions fill. Settings that
are kept in single variables are parsed without an effect here. -/
namespace Wackamole

open HostWords

abbrev maxNotif : Nat := 1024

inductive Token where
  | spread
  | spreadRetryInterval
  | log
  | group
  | vifs
  | ipaddr (ip : IpValue)
  | prefer
  | notify
  | none
  | arpCache
  | ping
  | aqpr
  | all
  | throttle
  | openBrace
  | closeBrace
  | equals
  | string (text : List Char)
  | mature
  | timeInterval (seconds : Int)
  | balance
  | number (number : Int)
  | interval
  | control
  | runDynamic
  | actionType (type : Int)
  | moduleDir
  | perlUseLib
  | perlUse
  deriving DecidableEq

inductive BParam where
  | aqpr (number : Int)
  | aqprAll
  | interval (seconds : Int)

inductive BParams where
  | cons (param : BParam) (params : BParams)
  | one (param : BParam)

/-- An item of an `NIPList`, which the grammar has after a list and at its start. -/
inductive NotifyItem where
  | ipaddr (ip : IpValue) (throttle : Option Int) (ping : Bool)
  | arpCache (ping : Bool)

inductive NIPList where
  | one (item : NotifyItem)
  | snoc (list : NIPList) (item : NotifyItem)

inductive ClosedNOTIFYList where
  | none
  | braces (list : NIPList)

inductive PIPList where
  | one (ip : IpValue)
  | snoc (list : PIPList) (ip : IpValue)

inductive IPList where
  | one (ip : IpValue)
  | snoc (list : IPList) (ip : IpValue)

inductive VIF where
  | ipaddr (ip : IpValue)
  | closedIPList (list : IPList)

inductive VIFList where
  | one (vif : VIF)
  | snoc (list : VIFList) (vif : VIF)

inductive Setting where
  | spreadString (text : List Char)
  | spreadNumber (number : Int)
  | spreadRetryInterval (seconds : Int)
  | group (text : List Char)
  | log (text : List Char)
  | control (text : List Char)
  | mature (seconds : Int)
  | arpCache (seconds : Int)
  | balance (params : BParams)
  | notifyArpCache
  | notify (list : ClosedNOTIFYList)
  | preferNone
  | preferString (text : List Char)
  | preferIpaddr (ip : IpValue)
  | moduleDir (text : List Char)
  | perlUse (text : List Char)
  | perlUseLib (text : List Char)
  | runDynamic (text : List Char) (type : Int)
  | prefer (list : PIPList)
  | vifs (list : VIFList)

/-- A derivation from `Config`, which is one from `Settings`. -/
inductive Settings where
  | cons (setting : Setting) (settings : Settings)
  | nil

section Tokens

def BParam.tokens : BParam → List Token
  | aqpr number => [.aqpr, .equals, .number number]
  | aqprAll => [.aqpr, .equals, .all]
  | interval seconds => [.interval, .equals, .timeInterval seconds]

def BParams.tokens : BParams → List Token
  | cons param params => param.tokens ++ params.tokens
  | one param => param.tokens

def NotifyItem.tokens : NotifyItem → List Token
  | ipaddr ip throttle ping =>
    .ipaddr ip :: (throttle.elim [] fun number => [.throttle, .number number]) ++
      if ping then [.ping] else []
  | arpCache ping => .arpCache :: if ping then [.ping] else []

def NIPList.tokens : NIPList → List Token
  | one item => item.tokens
  | snoc list item => list.tokens ++ item.tokens

def ClosedNOTIFYList.tokens : ClosedNOTIFYList → List Token
  | none => [.none]
  | braces list => .openBrace :: list.tokens ++ [.closeBrace]

def PIPList.tokens : PIPList → List Token
  | one ip => [.ipaddr ip]
  | snoc list ip => list.tokens ++ [.ipaddr ip]

def IPList.tokens : IPList → List Token
  | one ip => [.ipaddr ip]
  | snoc list ip => list.tokens ++ [.ipaddr ip]

def VIF.tokens : VIF → List Token
  | ipaddr ip => [.ipaddr ip]
  | closedIPList list => .openBrace :: list.tokens ++ [.closeBrace]

def VIFList.tokens : VIFList → List Token
  | one vif => vif.tokens
  | snoc list vif => list.tokens ++ vif.tokens

def Setting.tokens : Setting → List Token
  | spreadString text => [.spread, .equals, .string text]
  | spreadNumber number => [.spread, .equals, .number number]
  | spreadRetryInterval seconds => [.spreadRetryInterval, .equals, .timeInterval seconds]
  | group text => [.group, .equals, .string text]
  | log text => [.log, .equals, .string text]
  | control text => [.control, .equals, .string text]
  | mature seconds => [.mature, .equals, .timeInterval seconds]
  | arpCache seconds => [.arpCache, .equals, .timeInterval seconds]
  | balance params => .balance :: .openBrace :: params.tokens ++ [.closeBrace]
  | notifyArpCache => [.notify, .arpCache]
  | notify list => .notify :: list.tokens
  | preferNone => [.prefer, .none]
  | preferString text => [.prefer, .string text]
  | preferIpaddr ip => [.prefer, .ipaddr ip]
  | moduleDir text => [.moduleDir, .equals, .string text]
  | perlUse text => [.perlUse, .string text]
  | perlUseLib text => [.perlUseLib, .string text]
  | runDynamic text type => [.runDynamic, .string text, .actionType type]
  | prefer list => .prefer :: .openBrace :: list.tokens ++ [.closeBrace]
  | vifs list => .vifs :: .openBrace :: list.tokens ++ [.closeBrace]

def Settings.tokens : Settings → List Token
  | cons setting settings => setting.tokens ++ settings.tokens
  | nil => []

end Tokens

/-- The token sequences for which `wackparse` returns zero. -/
def Accepts (tokens : List Token) : Prop := ∃ config : Settings, config.tokens = tokens

/-- A write to one of the tables. -/
inductive TableWrite where
  /-- `tmpe[Num_pseudo].pseudo_if` -/
  | pseudoIf (numPseudo : Nat) (vif : Interface)
  /-- `tmpe[Num_pseudo].extra_ifs[iplistn]` -/
  | extraIf (numPseudo iplistn : Nat) (vif : Interface)
  /-- `tmpe[Num_pseudo].extra_ifs[iplistn].ipaddr.s_addr=0` -/
  | endExtraIfs (numPseudo iplistn : Nat)
  | notification (numNotifications : Nat) (ni : Notification)
  /-- Only the name of the destination is written. -/
  | notificationName (numNotifications : Nat) (ifname : List Char)
  | prefer (numPrefer : Nat) (addr : Address)

def TableWrite.Inside : TableWrite → Prop
  | pseudoIf numPseudo _ => numPseudo < maxPseudo
  | extraIf numPseudo iplistn _ => numPseudo < maxPseudo ∧ iplistn < maxDepIf
  | endExtraIfs numPseudo iplistn => numPseudo < maxPseudo ∧ iplistn < maxDepIf
  | notification numNotifications _ => numNotifications < maxNotif
  | notificationName numNotifications _ => numNotifications < maxNotif
  | prefer numPrefer _ => numPrefer < maxPseudo

/-- The counters of the parser, `Prefer_address` up to `Num_prefer`, and the writes to the
tables so far. -/
structure ParseState where
  numPseudo : Nat
  iplistn : Nat
  numNotifications : Nat
  preferAddress : List Address
  writes : List TableWrite

def ParseState.initial : ParseState := ⟨0, 0, 0, [], []⟩

/-- What a parse depends on besides its tokens: the machine, how many passes the loops over
preferred blocks have made, and an address that `lookup_name` leaves uninitialised. -/
structure ParseEnv where
  machine : Machine
  passes : Nat
  ipaddr : Address

/-- `wackstype_to_interface`. -/
def ParseEnv.toInterface (env : ParseEnv) (ip : IpValue) : Interface where
  ifname := ip.iface
  ipaddr := ip.addr
  netmask := ntohl env.machine.byteOrder (env.machine.shiftLeft (32 - ip.mask))
  network := ip.network

def arpCacheName : List Char := ['a', 'r', 'p', '-', 'c', 'a', 'c', 'h', 'e']

namespace ParseState

def write (p : ParseState) (w : TableWrite) : ParseState := { p with writes := p.writes ++ [w] }

/-- `add_prefer`. -/
def addPrefer (p : ParseState) (addr : Address) : ParseState :=
  if maxPseudo ≤ p.preferAddress.length then p
  else
    { p.write (.prefer p.preferAddress.length addr) with
      preferAddress := p.preferAddress ++ [addr] }

/-- The passes of a loop over a preferred block. -/
def preferPasses (mask addr : Address) : Nat → Address → ParseState → ParseState
  | 0, _, p => p
  | passes + 1, sAddr, p =>
    if addr &&& mask = sAddr &&& mask then
      preferPasses mask addr passes (sAddr + 1#32) (p.addPrefer sAddr)
    else p

def preferBlock (env : ParseEnv) (mask : Address) (ip : IpValue) (p : ParseState) : ParseState :=
  preferPasses mask (ip.addr &&& mask) env.passes (ip.addr &&& mask) p

def notify (p : ParseState) (ni : Notification) : ParseState :=
  { p.write (.notification p.numNotifications ni) with
    numNotifications := p.numNotifications + 1 }

end ParseState

section Actions

variable (env : ParseEnv)

def NotifyItem.reduce (p : ParseState) : NotifyItem → ParseState
  | ipaddr ip throttle ping =>
    p.notify ⟨env.toInterface ip, throttle.getD 0, if ping then 1 else 0⟩
  | arpCache ping =>
    p.notify ⟨⟨arpCacheName, 0#32, 0#32, 0#32⟩, 0, if ping then 1 else 0⟩

def NIPList.reduce (p : ParseState) : NIPList → ParseState
  | one item => item.reduce env p
  | snoc list item => item.reduce env (list.reduce p)

def ClosedNOTIFYList.reduce (p : ParseState) : ClosedNOTIFYList → ParseState
  | none => p
  | braces list => list.reduce env p

def PIPList.reduce (p : ParseState) : PIPList → ParseState
  | one ip => p.preferBlock env (env.machine.shiftLeft (32 - ip.mask)) ip
  | snoc list ip => (list.reduce p).preferBlock env (env.machine.shiftLeft (32 - ip.mask)) ip

def IPList.reduce (p : ParseState) : IPList → ParseState
  | one ip => p.write (.pseudoIf p.numPseudo (env.toInterface ip))
  | snoc list ip =>
    let p := list.reduce p
    { p.write (.extraIf p.numPseudo p.iplistn (env.toInterface ip)) with
      iplistn := p.iplistn + 1 }

/-- `ClosedIPList`. Its check is for another table. -/
def IPList.close (p : ParseState) (list : IPList) : ParseState :=
  let p := list.reduce env p
  let p := if p.iplistn < maxPseudo then p.write (.endExtraIfs p.numPseudo p.iplistn) else p
  { p with iplistn := 0 }

def VIF.reduce (p : ParseState) : VIF → ParseState
  | ipaddr ip => p.write (.pseudoIf p.numPseudo (env.toInterface ip))
  | closedIPList list => list.close env p

def VIFList.reduce (p : ParseState) : VIFList → ParseState
  | one vif =>
    let p := vif.reduce env p
    { p with numPseudo := p.numPseudo + 1 }
  | snoc list vif =>
    let p := vif.reduce env (list.reduce p)
    { p with numPseudo := p.numPseudo + 1 }

def Setting.reduce (p : ParseState) : Setting → ParseState
  | notifyArpCache =>
    { p.write (.notificationName p.numNotifications arpCacheName) with
      numNotifications := p.numNotifications + 1 }
  | notify list => list.reduce env p
  | preferNone => p.addPrefer 0#32
  | preferString _ => if env.ipaddr = 0#32 then p else p.addPrefer env.ipaddr
  | preferIpaddr ip =>
    p.preferBlock env (ntohl env.machine.byteOrder (env.machine.shiftLeft (32 - ip.mask))) ip
  | prefer list => list.reduce env p
  | vifs list => list.reduce env p
  | _ => p

/-- The parser after the settings, as long as no action has ended the program. -/
def Settings.reduce (p : ParseState) : Settings → ParseState
  | cons setting settings => settings.reduce (setting.reduce env p)
  | nil => p

end Actions

/-- Once the loop over a block has ended, it has preferred what it should. -/
theorem ParseState.preferPasses_of_preferLoop {mask addr sAddr : Address} {passes : Nat}
    {p : ParseState} {result : List Address}
    (h : preferLoop mask addr passes sAddr p.preferAddress = some result) :
    (preferPasses mask addr passes sAddr p).preferAddress = result := by
  induction passes generalizing sAddr p with
  | zero => cases h
  | succ passes ih =>
      rw [preferLoop] at h
      rw [preferPasses]
      split_ifs at h ⊢
      · refine ih ?_
        rw [← h, addPrefer, Wackamole.addPrefer]
        split_ifs <;> rfl
      · exact Option.some.inj h

section Blocks

variable {env : ParseEnv} {p : ParseState} {ip : IpValue} {m : Nat} {result : List Address}

/-- `Prefer if:a/m` and `Prefer { if:a/m }` are the two spellings. -/
theorem reduce_preferIpaddr (hm : 1 ≤ m) (hm' : m ≤ 32) (hMask : ip.mask = m)
    (h : expandPrefer env.machine.byteOrder .setting ip.addr m p.preferAddress env.passes =
      some result) : (Setting.reduce env p (.preferIpaddr ip)).preferAddress = result := by
  rw [Setting.reduce, hMask, env.machine.shiftLeft_mask hm hm']
  exact ParseState.preferPasses_of_preferLoop h

theorem reduce_preferBraces (hm : 1 ≤ m) (hm' : m ≤ 32) (hMask : ip.mask = m)
    (h : expandPrefer env.machine.byteOrder .braces ip.addr m p.preferAddress env.passes =
      some result) : (Setting.reduce env p (.prefer (.one ip))).preferAddress = result := by
  rw [Setting.reduce, PIPList.reduce, hMask, env.machine.shiftLeft_mask hm hm']
  exact ParseState.preferPasses_of_preferLoop h

end Blocks

end Wackamole
