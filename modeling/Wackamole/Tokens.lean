import Wackamole.Overlap
import Wackamole.Library.Decimal

/-! The actions of the scanner for time intervals and interface addresses. -/
namespace Wackamole

open HostWords

-- For the numerals of `Fin 4`, by which the octets are numbered.
local instance neZeroOctets : NeZero (4 : Nat) := ⟨by decide⟩

/-- The machine that runs the scanner. What `0xffffffff << count` is for other counts is
not defined by the language. -/
structure Machine where
  byteOrder : ByteOrder
  shiftLeft : Int → Word
  shiftLeft_eq : ∀ count : Nat, count < 32 → shiftLeft count = prefixMask count

/-- A mask of at least one bit is shifted by less than the width of the word. -/
theorem Machine.shiftLeft_mask (machine : Machine) {m : Nat} (hm : 1 ≤ m) (hm' : m ≤ 32) :
    machine.shiftLeft (32 - m) = prefixMask (32 - m) := by
  have hCount : (32 : Int) - m = (32 - m : Nat) := by omega
  rw [hCount]
  exact machine.shiftLeft_eq _ (by omega)

/-- `yylval.ip`. -/
structure IpValue where
  iface : List Char
  addr : Address
  mask : Int
  network : Address
  deriving DecidableEq

/-- The seconds in `yylval.tv` for a `timeint`, as long as they are below `2^31`: the code counts
them in an `int`. -/
def timeInterval (yytext : List Char) : Int :=
  let i := Decimal.atoi yytext
  match yytext.getLast? with
  | some 'm' => i * 60
  | some 'M' => i * 60
  | _ => i

/-- `strchr`, and the zero byte that replaces the character that it finds: the text before
it, and the text from the next character on. -/
def cut (c : Char) : List Char → Option (List Char × List Char)
  | [] => none
  | d :: text => if d = c then some ([], text) else (cut c text).map fun (c₁, c₂) => (d :: c₁, c₂)

/-- What `toCIDR` stores, and whether it calls `wackerror`. -/
structure Cidr where
  addr : Address
  mask : Int
  network : Address
  reported : Bool
  deriving DecidableEq

/-- The strings that `toCIDR` cuts its text into. -/
structure CidrParts where
  c₁ : List Char
  c₂ : List Char
  c₃ : List Char
  c₄ : List Char
  c₅ : Option (List Char)
  c₆ : Option (List Char)

/-- The cuts of `toCIDR`. A missing dot makes it write through a null pointer. -/
def cutCidr (yytext : List Char) : Option CidrParts := do
  let (c₁, c₂) ← cut '.' yytext
  let (c₂, c₃) ← cut '.' c₂
  let (c₃, c₄) ← cut '.' c₃
  match cut '/' c₄ with
  | none => some ⟨c₁, c₂, c₃, c₄, none, none⟩
  | some (c₄, c₅) =>
    match cut 'n' c₅ with
    | none => some ⟨c₁, c₂, c₃, c₄, some c₅, none⟩
    | some (c₅, c₆) => some ⟨c₁, c₂, c₃, c₄, some c₅, some c₆⟩

/-- `toCIDR`. The range check does nothing but call `wackerror`. -/
def toCIDR (machine : Machine) (yytext : List Char) : Option Cidr :=
  (cutCidr yytext).map fun parts =>
    let a₁ := Decimal.atoi parts.c₁
    let a₂ := Decimal.atoi parts.c₂
    let a₃ := Decimal.atoi parts.c₃
    let a₄ := Decimal.atoi parts.c₄
    let a₅ := (parts.c₅.map Decimal.atoi).getD 32
    let a₆ := (parts.c₆.map Decimal.atoi).getD 24
    { addr := ntohl machine.byteOrder (BitVec.ofInt 32 a₁ <<< 24 ||| BitVec.ofInt 32 a₂ <<< 16 |||
        BitVec.ofInt 32 a₃ <<< 8 ||| BitVec.ofInt 32 a₄)
      mask := a₅
      network := ntohl machine.byteOrder (machine.shiftLeft (32 - a₆))
      reported := decide (a₁ < 0 ∨ a₁ > 255 ∨ a₂ < 0 ∨ a₂ > 255 ∨ a₃ < 0 ∨ a₃ > 255 ∨
        a₄ < 0 ∨ a₄ > 255 ∨ a₅ < 0 ∨ a₅ > 32 ∨ a₆ < 0 ∨ a₆ > 32) }

/-- The loop that copies the name, with so many passes left. -/
def copyIface : Nat → List Char → List Char
  | 0, _ => []
  | _ + 1, [] => []
  | left + 1, c :: yytext => if c = ':' then [] else c :: copyIface left yytext

/-- The action for `snc:ipaddr` and `snc:ipaddrn`. The address is read from one character
behind the part of the name that was copied. -/
def ifaceAction (machine : Machine) (yytext : List Char) : Option (IpValue × Bool) :=
  let iface := copyIface (ifNamSiz - 1) yytext
  (toCIDR machine (yytext.drop (iface.length + 1))).map fun cidr =>
    (⟨iface, cidr.addr, cidr.mask, cidr.network⟩, cidr.reported)

/-- A text that matches `snc:ipaddr`, or `snc:ipaddrn` if it has a network length. -/
structure AddressText where
  name : List Char
  octets : Fin 4 → List Char
  mask : List Char
  network : Option (List Char)
  name_ne_nil : name ≠ []
  name_chars : ∀ c ∈ name, c ∉ [' ', '\t', '\r', '\n', '#', '\x7b', '\x7d', ':']
  octets_digits : ∀ k, Decimal.Numeral (octets k) ∧ (octets k).length ≤ 3
  mask_digits : Decimal.Numeral mask ∧ mask.length ≤ 2
  network_digits : ∀ ds ∈ network, Decimal.Numeral ds ∧ ds.length ≤ 2

namespace AddressText

variable (t : AddressText)

/-- The text behind the colon. -/
def address : List Char :=
  t.octets 0 ++ '.' :: (t.octets 1 ++ '.' :: (t.octets 2 ++ '.' :: (t.octets 3 ++ '/' :: (t.mask ++
    (t.network.elim [] fun ds => 'n' :: ds)))))

def text : List Char := t.name ++ ':' :: t.address

def octet (k : Fin 4) : Nat := Nat.ofDigitChars 10 (t.octets k) 0

def maskLength : Nat := Nat.ofDigitChars 10 t.mask 0

/-- Without a network length it is 24. -/
def networkLength : Nat := t.network.elim 24 fun ds => Nat.ofDigitChars 10 ds 0

/-- An address has a name that fits, and numbers in their ranges. -/
structure WellFormed : Prop where
  name : t.name.length < ifNamSiz
  octets : ∀ k, t.octet k ≤ 255
  mask : t.maskLength ≤ 32
  network : t.networkLength ≤ 32

end AddressText

inductive TimeUnit where
  | second
  | minute
  | hour
  deriving DecidableEq

def TimeUnit.seconds : TimeUnit → Nat
  | second => 1
  | minute => 60
  | hour => 3600

/-- A text that matches `timeint`. -/
structure TimeText where
  digits : List Char
  unit : TimeUnit
  upper : Bool
  numeral : Decimal.Numeral digits

namespace TimeText

variable (t : TimeText)

def letter : Char :=
  match t.unit, t.upper with
  | .second, false => 's'
  | .second, true => 'S'
  | .minute, false => 'm'
  | .minute, true => 'M'
  | .hour, false => 'h'
  | .hour, true => 'H'

def text : List Char := t.digits ++ [t.letter]

def amount : Nat := Nat.ofDigitChars 10 t.digits 0

/-- The token holds the seconds that the text says. -/
def Denotes : Prop := timeInterval t.text = t.amount * t.unit.seconds

end TimeText

/-- A word with this many leading ones. -/
def LeadingOnes (length : Nat) (w : Word) : Prop :=
  length ≤ 32 ∧ ∀ i, i < 32 → w.getLsbD i = decide (32 - length ≤ i)

/-- A value that is exactly what a text says. -/
structure Spells (machine : Machine) (t : AddressText) (v : IpValue) : Prop where
  iface : v.iface = t.name
  addr : ∀ k : Fin 4, (byte (ntohl machine.byteOrder v.addr) (3 - k)).toNat = t.octet k
  maskLength : t.maskLength ≤ 32
  mask : v.mask = t.maskLength
  network : LeadingOnes t.networkLength (ntohl machine.byteOrder v.network)

section Cut

theorem cut_append {c : Char} {before : List Char} (h : ∀ d ∈ before, d ≠ c) (after : List Char) :
    cut c (before ++ c :: after) = some (before, after) := by
  induction before with
  | nil => exact if_pos rfl
  | cons d before ih =>
      have hRest := ih fun d' hMem => h d' (List.mem_cons_of_mem d hMem)
      rw [List.cons_append, cut, if_neg (h d List.mem_cons_self), hRest]
      rfl

theorem cut_eq_none {c : Char} {text : List Char} (h : ∀ d ∈ text, d ≠ c) : cut c text = none := by
  induction text with
  | nil => rfl
  | cons d text ih =>
      have hRest := ih fun d' hMem => h d' (List.mem_cons_of_mem d hMem)
      rw [cut, if_neg (h d List.mem_cons_self), hRest]
      rfl

theorem numeral_ne {ds : List Char} (h : Decimal.Numeral ds) {c : Char} (hc : c.isDigit = false) :
    ∀ d ∈ ds, d ≠ c := by
  rintro d hMem rfl
  rw [h.2 d hMem] at hc
  cases hc

end Cut

namespace AddressText

variable (machine : Machine) (t : AddressText)

theorem cutCidr_address : cutCidr t.address =
    some ⟨t.octets 0, t.octets 1, t.octets 2, t.octets 3, some t.mask, t.network⟩ := by
  have hDigits (k : Fin 4) {c : Char} (hc : c.isDigit = false) : ∀ d ∈ t.octets k, d ≠ c :=
    numeral_ne (t.octets_digits k).1 hc
  have hMask : ∀ d ∈ t.mask, d ≠ 'n' := numeral_ne t.mask_digits.1 rfl
  have h₁ := cut_append (hDigits 0 (c := '.') rfl)
  have h₂ := cut_append (hDigits 1 (c := '.') rfl)
  have h₃ := cut_append (hDigits 2 (c := '.') rfl)
  have h₄ := cut_append (hDigits 3 (c := '/') rfl)
  simp only [cutCidr, address, h₁, h₂, h₃, h₄, Option.bind_eq_bind, Option.bind_some]
  cases hNetwork : t.network with
  | none => simp [cut_eq_none hMask]
  | some ds => simp [cut_append hMask ds]

/-- What `toCIDR` makes of an address text: the numbers in it, in their places. -/
theorem toCIDR_address : toCIDR machine t.address = some
    { addr := ntohl machine.byteOrder (BitVec.ofNat 32 (t.octet 0) <<< 24 |||
        BitVec.ofNat 32 (t.octet 1) <<< 16 ||| BitVec.ofNat 32 (t.octet 2) <<< 8 |||
          BitVec.ofNat 32 (t.octet 3))
      mask := t.maskLength
      network := ntohl machine.byteOrder (machine.shiftLeft (32 - t.networkLength))
      reported :=
        decide (¬ ((∀ k, t.octet k ≤ 255) ∧ t.maskLength ≤ 32 ∧ t.networkLength ≤ 32)) } := by
  have hOctet (k : Fin 4) : Decimal.atoi (t.octets k) = t.octet k :=
    Decimal.atoi_numeral (t.octets_digits k).1
  have hMask : Decimal.atoi t.mask = t.maskLength := Decimal.atoi_numeral t.mask_digits.1
  have hNetwork : (t.network.map Decimal.atoi).getD 24 = t.networkLength := by
    rw [networkLength]
    cases hGiven : t.network with
    | none => rfl
    | some ds => exact Decimal.atoi_numeral (t.network_digits ds hGiven).1
  rw [toCIDR, cutCidr_address, Option.map_some]
  simp only [hOctet, hMask, hNetwork, Option.map_some, Option.getD_some, BitVec.ofInt_natCast]
  congr 2
  have hAll : (∀ k, t.octet k ≤ 255) ↔
      t.octet 0 ≤ 255 ∧ t.octet 1 ≤ 255 ∧ t.octet 2 ≤ 255 ∧ t.octet 3 ≤ 255 := by
    refine ⟨fun h => ⟨h 0, h 1, h 2, h 3⟩, fun ⟨h₀, h₁, h₂, h₃⟩ k => ?_⟩
    match k with
    | 0 => exact h₀
    | 1 => exact h₁
    | 2 => exact h₂
    | 3 => exact h₃
  rw [decide_eq_decide, hAll]
  omega

/-- A name that fits is copied, and the address is read behind its colon. -/
theorem copyIface_text {left : Nat} {name : List Char} (hColon : ∀ c ∈ name, c ≠ ':')
    (hLength : name.length ≤ left) (rest : List Char) :
    copyIface left (name ++ ':' :: rest) = name := by
  induction name generalizing left with
  | nil => cases left <;> rfl
  | cons c name ih =>
      obtain ⟨left, rfl⟩ : ∃ left', left = left' + 1 := ⟨left - 1, by
        rw [List.length_cons] at hLength
        omega⟩
      have hRest := ih (fun d hMem => hColon d (List.mem_cons_of_mem c hMem))
        (Nat.le_of_succ_le_succ hLength)
      rw [List.cons_append, copyIface, if_neg (hColon c List.mem_cons_self), hRest]

theorem copyIface_length_le (left : Nat) (yytext : List Char) :
    (copyIface left yytext).length ≤ left := by
  induction left generalizing yytext with
  | zero => exact Nat.le_refl 0
  | succ left ih =>
      cases yytext with
      | nil => exact Nat.zero_le _
      | cons c yytext =>
          rw [copyIface]
          split_ifs
          · exact Nat.zero_le _
          · exact Nat.succ_le_succ (ih yytext)

theorem name_ne_colon : ∀ c ∈ t.name, c ≠ ':' := by
  rintro c hMem rfl
  exact t.name_chars ':' hMem (by simp)

/-- The value of a text whose name fits. -/
def value : IpValue where
  iface := t.name
  addr := ntohl machine.byteOrder (BitVec.ofNat 32 (t.octet 0) <<< 24 |||
    BitVec.ofNat 32 (t.octet 1) <<< 16 ||| BitVec.ofNat 32 (t.octet 2) <<< 8 |||
      BitVec.ofNat 32 (t.octet 3))
  mask := t.maskLength
  network := ntohl machine.byteOrder (machine.shiftLeft (32 - t.networkLength))

theorem ifaceAction_text (hName : t.name.length < ifNamSiz) :
    ifaceAction machine t.text = some (t.value machine,
      decide (¬ ((∀ k, t.octet k ≤ 255) ∧ t.maskLength ≤ 32 ∧ t.networkLength ≤ 32))) := by
  have hCopy : copyIface (ifNamSiz - 1) t.text = t.name :=
    copyIface_text t.name_ne_colon (Nat.le_sub_one_of_lt hName) t.address
  have hDrop : t.text.drop (t.name.length + 1) = t.address := by
    rw [text, ← List.singleton_append, ← List.append_assoc]
    exact List.drop_left' (by simp)
  simp only [ifaceAction, hCopy, hDrop, toCIDR_address, Option.map_some]
  rfl

end AddressText

section Values

/-- Four octets, put together with shifts. -/
theorem toNat_octets {a b c d : Nat} (ha : a ≤ 255) (hb : b ≤ 255) (hc : c ≤ 255) (hd : d ≤ 255) :
    (BitVec.ofNat 32 a <<< 24 ||| BitVec.ofNat 32 b <<< 16 ||| BitVec.ofNat 32 c <<< 8 |||
      BitVec.ofNat 32 d).toNat = ((a * 256 + b) * 256 + c) * 256 + d := by
  have hShift {x k : Nat} (hx : x <<< k < 2 ^ 32) : (BitVec.ofNat 32 x <<< k).toNat = x <<< k := by
    rw [BitVec.toNat_shiftLeft, BitVec.toNat_ofNat]
    have hSmall : x < 2 ^ 32 := by
      rw [Nat.shiftLeft_eq] at hx
      exact (Nat.le_mul_of_pos_right x (Nat.two_pow_pos k)).trans_lt hx
    rw [Nat.mod_eq_of_lt hSmall, Nat.mod_eq_of_lt hx]
  have hJoin {x y : Nat} (hy : y ≤ 255) : x <<< 8 ||| y = x * 256 + y := by
    rw [← Nat.shiftLeft_add_eq_or_of_lt (show y < 2 ^ 8 by omega), Nat.shiftLeft_eq]
  have hTwo : a <<< 24 ||| b <<< 16 = (a * 256 + b) <<< 16 := by
    rw [← hJoin hb, Nat.shiftLeft_or_distrib, ← Nat.shiftLeft_add]
  have hThree : (a * 256 + b) <<< 16 ||| c <<< 8 = ((a * 256 + b) * 256 + c) <<< 8 := by
    rw [← hJoin hc, Nat.shiftLeft_or_distrib, ← Nat.shiftLeft_add]
  rw [BitVec.toNat_or, BitVec.toNat_or, BitVec.toNat_or, hShift, hShift, hShift, BitVec.toNat_ofNat,
    Nat.mod_eq_of_lt (show d < 2 ^ 32 by omega), hTwo, hThree, hJoin hd]
  all_goals
    rw [Nat.shiftLeft_eq]
    omega

theorem toNat_byte (w : Word) (k : Nat) : (byte w k).toNat = w.toNat / 2 ^ (8 * k) % 256 := by
  rw [byte, BitVec.extractLsb'_toNat, Nat.shiftRight_eq_div_pow]

theorem leadingOnes_prefixMask {length : Nat} (h : length ≤ 32) :
    LeadingOnes length (prefixMask (32 - length)) := by
  refine ⟨h, fun i hi => ?_⟩
  rw [BitVec.getLsbD_shiftLeft, BitVec.getLsbD_allOnes]
  by_cases hIn : 32 - length ≤ i
  · simp [hi, hIn]
    omega
  · simp [hi, hIn]

end Values

/-- Only minutes are converted. -/
theorem TimeText.timeInterval_text (t : TimeText) :
    timeInterval t.text = t.amount * if t.unit = .minute then 60 else 1 := by
  obtain ⟨digits, unit, upper, hDigits⟩ := t
  have hLast (c : Char) : (digits ++ [c]).getLast? = some c := List.getLast?_concat
  have hAtoi (c : Char) (hc : c.isDigit = false) :
      Decimal.atoi (digits ++ [c]) = Nat.ofDigitChars 10 digits 0 :=
    Decimal.atoi_append hDigits fun d hd => by cases hd; exact hc
  cases unit <;> cases upper <;> simp [timeInterval, text, letter, hLast, hAtoi, amount]

theorem TimeText.denotes_iff (t : TimeText) : t.Denotes ↔ t.unit ≠ .hour ∨ t.amount = 0 := by
  rw [Denotes, timeInterval_text]
  cases t.unit <;> simp [TimeUnit.seconds]
  omega

/-- A well-formed address is read as it is written. -/
theorem AddressText.WellFormed.spells {machine : Machine} {t : AddressText} (h : t.WellFormed)
    (hZero : t.networkLength = 0 → machine.shiftLeft 32 = 0#32) :
    ∃ v, ifaceAction machine t.text = some (v, false) ∧ Spells machine t v := by
  have hShift : machine.shiftLeft (32 - t.networkLength) = prefixMask (32 - t.networkLength) := by
    by_cases hNone : t.networkLength = 0
    · rw [hNone]
      exact (hZero hNone).trans (by decide)
    · exact machine.shiftLeft_mask (Nat.one_le_iff_ne_zero.mpr hNone) h.network
  have hReported : ¬ ¬ ((∀ k, t.octet k ≤ 255) ∧ t.maskLength ≤ 32 ∧ t.networkLength ≤ 32) :=
    not_not_intro ⟨h.octets, h.mask, h.network⟩
  refine ⟨t.value machine, ?_, ?_⟩
  · rw [ifaceAction_text machine t h.name, decide_eq_false hReported]
  · refine ⟨rfl, fun k => ?_, h.mask, rfl, ?_⟩
    · have h₀ := h.octets 0
      have h₁ := h.octets 1
      have h₂ := h.octets 2
      have h₃ := h.octets 3
      rw [AddressText.value, ntohl_ntohl, toNat_byte, toNat_octets h₀ h₁ h₂ h₃]
      match k with
      | 0 => simp; omega
      | 1 => simp; omega
      | 2 => simp; omega
      | 3 => simp; omega
    · rw [AddressText.value, ntohl_ntohl, hShift]
      exact leadingOnes_prefixMask h.network

/-- A time interval denotes what it says unless it is in hours, and an address always does. -/
theorem tokens_denote (machine : Machine) :
    (∀ t : TimeText, t.amount * t.unit.seconds < 2 ^ 31 →
      (t.Denotes ↔ t.unit ≠ .hour ∨ t.amount = 0)) ∧
    ∀ t : AddressText, t.WellFormed → 1 ≤ t.maskLength → 1 ≤ t.networkLength →
      ∃ v, ifaceAction machine t.text = some (v, false) ∧ Spells machine t v := by
  refine ⟨fun t _ => t.denotes_iff, fun t hFormed _ hNetwork => hFormed.spells fun hZero => ?_⟩
  omega

/-- A machine that uses the count of a shift modulo the width of the word. -/
def modular (byteOrder : ByteOrder) : Machine where
  byteOrder := byteOrder
  shiftLeft count := prefixMask (count % 32).toNat
  shiftLeft_eq count hCount := by
    have hMod : ((count : Int) % 32).toNat = count := by omega
    rw [hMod]

/-- `5m` -/
def fiveMinutes : TimeText := ⟨['5'], .minute, false, by decide⟩

/-- `eth0:10.0.0.1/32n8` -/
def ethernet : AddressText where
  name := ['e', 't', 'h', '0']
  octets k := match k with
    | 0 => ['1', '0']
    | 1 => ['0']
    | 2 => ['0']
    | 3 => ['1']
  mask := ['3', '2']
  network := some ['8']
  name_ne_nil := by decide
  name_chars := by simp
  octets_digits := by decide
  mask_digits := by decide
  network_digits := by decide

theorem ethernet_wellFormed : ethernet.WellFormed := ⟨by decide, by decide, by decide, by decide⟩

theorem tokens_denote_sample : fiveMinutes.Denotes ∧
    ∃ v, ifaceAction (modular .little) ethernet.text = some (v, false) ∧
      Spells (modular .little) ethernet v :=
  ⟨((tokens_denote (modular .little)).1 fiveMinutes (by decide)).mpr (.inl (by decide)),
    (tokens_denote (modular .little)).2 ethernet ethernet_wellFormed (by decide) (by decide)⟩

/-- `1h` is one second. -/
theorem not_denotes_hour :
    ¬ ∀ t : TimeText, t.amount * t.unit.seconds < 2 ^ 31 → t.Denotes := by
  intro h
  have hHour := h ⟨['1'], .hour, false, by decide⟩ (by decide)
  revert hHour
  unfold TimeText.Denotes
  decide

end Wackamole
