import Wackamole.Types
import Wackamole.Library.HostWords
import Wackamole.Library.OnesComplement
import Mathlib.Algebra.Group.Nat.Even

/-! The ICMP echo requests of `ife-icmp-support.c` and their checksums. -/
namespace Wackamole

open HostWords

/-- Two bytes of memory as an `unsigned short`. -/
def halfword (o : ByteOrder) (b₀ b₁ : Byte) : BitVec 16 :=
  match o with
  | .little => b₁ ++ b₀
  | .big => b₀ ++ b₁

/-- An `unsigned short` in memory. -/
def storeHalfword (o : ByteOrder) (w : BitVec 16) : List Byte :=
  match o with
  | .little => [w.extractLsb' 0 8, w.extractLsb' 8 8]
  | .big => [w.extractLsb' 8 8, w.extractLsb' 0 8]

/-- The words of a buffer of even length. -/
def halfwords (o : ByteOrder) : List Byte → List Nat
  | b₀ :: b₁ :: buf => (halfword o b₀ b₁).toNat :: halfwords o buf
  | [_] => []
  | [] => []

/-- The loop of `in_checksum`, and the last byte of a buffer of odd length. -/
def checksumLoop (o : ByteOrder) : List Byte → Nat → Nat
  | b₀ :: b₁ :: buf, sum => checksumLoop o buf (sum + (halfword o b₀ b₁).toNat)
  | [b], sum => sum + (halfword o b 0#8).toNat
  | [], sum => sum

/-- `in_checksum`. -/
def inChecksum (o : ByteOrder) (buf : List Byte) : BitVec 16 :=
  let sum := checksumLoop o buf 0
  let sum := (sum >>> 16) + (sum &&& 0xffff)
  let sum := sum + (sum >>> 16)
  ~~~BitVec.ofNat 16 sum

/-- `memcpy` to `buf + off`. -/
def memcpy : List Byte → Nat → List Byte → List Byte
  | buf, _, [] => buf
  | buf, off, b :: bytes => memcpy (buf.set off b) (off + 1) bytes

def slice (off len : Nat) (buf : List Byte) : List Byte := (buf.drop off).take len

/-- What `compose_ping` is called with. -/
structure PingArgs where
  myMac : Fin 6 → Byte
  remoteMac : Fin 6 → Byte
  newIp : Word
  rIp : Word

/-- The static packet of `compose_ping`, with the zero byte that ends the literal. -/
def initialPkt : List Byte :=
  [0xff#8, 0xff#8, 0xff#8, 0xff#8, 0xff#8, 0xff#8, 0xff#8, 0xff#8, 0xff#8, 0xff#8, 0xff#8, 0xff#8,
    0x08#8, 0x00#8, 0x45#8, 0x00#8, 0x00#8, 0x1c#8, 0xfe#8, 0xfe#8, 0x00#8, 0x00#8,
    0x40#8, 0x01#8, 0x00#8, 0x00#8, 0x00#8, 0x00#8, 0x00#8, 0x00#8, 0x00#8, 0x00#8, 0x00#8, 0x00#8,
    0x08#8, 0x00#8, 0x00#8, 0x00#8, 0xfe#8, 0xfe#8, 0xfe#8, 0xfe#8, 0x00#8]

/-- `compose_ping`, from the packet of the call before to the packet that it copies out. -/
def composePing (o : ByteOrder) (pkt : List Byte) (args : PingArgs) : List Byte :=
  let pkt := memcpy pkt 0 (List.ofFn args.remoteMac)
  let pkt := memcpy pkt 6 (List.ofFn args.myMac)
  let pkt := memcpy pkt (14 + 12) (o.store args.newIp)
  let pkt := memcpy pkt (14 + 16) (o.store args.rIp)
  let pkt := memcpy pkt (14 + 10) [0#8, 0#8]
  let pkt := memcpy pkt (14 + 10) (storeHalfword o (inChecksum o (slice 14 20 pkt)))
  let pkt := memcpy pkt (14 + 20 + 2) [0#8, 0#8]
  memcpy pkt (14 + 20 + 2) (storeHalfword o (inChecksum o (slice (14 + 20) 8 pkt)))

/-- What a receiver checks: the ones-complement sum of all words has all bits set. -/
def Verifies (o : ByteOrder) (buf : List Byte) : Prop :=
  OnesComplement.sum (2 ^ 16) (halfwords o buf) = 0xffff

section Words

variable (o : ByteOrder)

theorem halfword_storeHalfword (w : BitVec 16) :
    ∃ b₀ b₁, storeHalfword o w = [b₀, b₁] ∧ halfword o b₀ b₁ = w := by
  have hJoin : w.extractLsb' 8 8 ++ w.extractLsb' 0 8 = w := by
    apply BitVec.eq_of_getElem_eq
    intro i hi
    simp only [BitVec.getElem_append, BitVec.getElem_extractLsb']
    split_ifs <;> grind
  cases o
  · exact ⟨_, _, rfl, hJoin⟩
  · exact ⟨_, _, rfl, hJoin⟩

theorem toNat_halfword_big (b₀ b₁ : Byte) :
    (halfword .big b₀ b₁).toNat = 256 * b₀.toNat + b₁.toNat := by
  rw [halfword, BitVec.toNat_append, ← Nat.shiftLeft_add_eq_or_of_lt b₁.isLt, Nat.shiftLeft_eq,
    Nat.mul_comm]

theorem halfword_other (b₀ b₁ : Byte) : halfword o.other b₀ b₁ = halfword o b₁ b₀ := by
  cases o <;> rfl

theorem halfword_zero : halfword o 0#8 0#8 = 0#16 := by cases o <;> rfl

theorem halfwords_lt (buf : List Byte) : ∀ w ∈ halfwords o buf, w < 2 ^ 16 := by
  induction buf using halfwords.induct with
  | case1 b₀ b₁ buf ih =>
      intro w hw
      rcases List.mem_cons.mp hw with rfl | hw
      · exact BitVec.isLt _
      · exact ih w hw
  | case2 b => exact fun w hw => absurd hw List.not_mem_nil
  | case3 => exact fun w hw => absurd hw List.not_mem_nil

theorem halfwords_append (before after : List Byte) (hEven : Even before.length) :
    halfwords o (before ++ after) = halfwords o before ++ halfwords o after := by
  induction before using halfwords.induct with
  | case1 b₀ b₁ before ih =>
      rw [List.length_cons, List.length_cons, Nat.add_assoc] at hEven
      have hRest : Even before.length := (Nat.even_add.mp hEven).mpr (by decide)
      rw [List.cons_append, List.cons_append, halfwords, ih hRest, halfwords, List.cons_append]
  | case2 b => exact absurd hEven Nat.not_even_one
  | case3 => rfl

theorem checksumLoop_eq (buf : List Byte) (hEven : Even buf.length) (sum : Nat) :
    checksumLoop o buf sum = sum + (halfwords o buf).sum := by
  induction buf using halfwords.induct generalizing sum with
  | case1 b₀ b₁ buf ih =>
      rw [List.length_cons, List.length_cons, Nat.add_assoc] at hEven
      have hRest : Even buf.length := (Nat.even_add.mp hEven).mpr (by decide)
      rw [checksumLoop, ih hRest, halfwords, List.sum_cons, Nat.add_assoc]
  | case2 b => exact absurd hEven Nat.not_even_one
  | case3 => rfl

/-- The sum of a buffer of at most 65534 bytes fits a `long` of 32 bits. -/
theorem sum_halfwords_le (buf : List Byte) :
    2 * (halfwords o buf).sum ≤ 65535 * buf.length := by
  induction buf using halfwords.induct with
  | case1 b₀ b₁ buf ih =>
      have hWord := (halfword o b₀ b₁).isLt
      rw [halfwords, List.sum_cons, List.length_cons, List.length_cons]
      omega
  | case2 b => exact Nat.zero_le _
  | case3 => exact Nat.le_refl _

/-- A host of the other byte order reads a sum that is 256 times as large, up to multiples of
the modulus. -/
theorem sum_halfwords_other (buf : List Byte) :
    (halfwords o.other buf).sum ≡ 256 * (halfwords o buf).sum [MOD 65535] ∧
      ((halfwords o.other buf).sum = 0 ↔ (halfwords o buf).sum = 0) := by
  induction buf using halfwords.induct with
  | case1 b₀ b₁ buf ih =>
      have hWord : (halfword o b₁ b₀).toNat ≡ 256 * (halfword o b₀ b₁).toNat [MOD 65535] ∧
          ((halfword o b₁ b₀).toNat = 0 ↔ (halfword o b₀ b₁).toNat = 0) := by
        have hBig := toNat_halfword_big b₀ b₁
        have hLittle := toNat_halfword_big b₁ b₀
        have h₀ := b₀.isLt
        have h₁ := b₁.isLt
        rw [Nat.ModEq]
        cases o with
        | big => omega
        | little =>
            have hSwap (b b' : Byte) : halfword .little b b' = halfword .big b' b := rfl
            rw [hSwap, hSwap]
            omega
      rw [halfwords, halfwords, List.sum_cons, List.sum_cons, halfword_other, Nat.mul_add]
      exact ⟨hWord.1.add ih.1, by omega⟩
  | case2 b => exact ⟨Nat.ModEq.refl _, Iff.rfl⟩
  | case3 => exact ⟨Nat.ModEq.refl _, Iff.rfl⟩

/-- A buffer that verifies does so on hosts of either byte order. -/
theorem Verifies.other {buf : List Byte} (h : Verifies o buf) : Verifies o.other buf := by
  obtain ⟨hDvd, hNe⟩ := (OnesComplement.sum_eq_last_iff (by decide) (halfwords_lt o buf)).mp h
  obtain ⟨hMod, hZero⟩ := sum_halfwords_other o buf
  refine (OnesComplement.sum_eq_last_iff (by decide) (halfwords_lt o.other buf)).mpr ⟨?_, ?_⟩
  · have hMul := (Nat.modEq_zero_iff_dvd).mpr (hDvd.mul_left 256)
    exact (Nat.modEq_zero_iff_dvd).mp (hMod.trans hMul)
  · rwa [Ne, hZero]

/-- `in_checksum` complements the sum: folding twice is enough for buffers of this size. -/
theorem inChecksum_spec {buf : List Byte} (hEven : Even buf.length) (hLength : buf.length ≤ 65534) :
    65535 ∣ (halfwords o buf).sum + (inChecksum o buf).toNat ∧
      (halfwords o buf).sum + (inChecksum o buf).toNat ≠ 0 := by
  have hBound := sum_halfwords_le o buf
  have hAnswer : (inChecksum o buf).toNat + OnesComplement.fold (2 ^ 16)
      (OnesComplement.fold (2 ^ 16) (halfwords o buf).sum) = 65535 := by
    rw [inChecksum, checksumLoop_eq o buf hEven, BitVec.toNat_not, BitVec.toNat_ofNat]
    rw [show (0xffff : Nat) = 2 ^ 16 - 1 from rfl, Nat.and_two_pow_sub_one_eq_mod,
      Nat.shiftRight_eq_div_pow, Nat.shiftRight_eq_div_pow, OnesComplement.fold,
      OnesComplement.fold]
    omega
  have hMod : OnesComplement.fold (2 ^ 16) (OnesComplement.fold (2 ^ 16) (halfwords o buf).sum) ≡
      (halfwords o buf).sum [MOD 65535] :=
    (OnesComplement.fold_modEq (by decide) _).trans (OnesComplement.fold_modEq (by decide) _)
  have hZero :
      OnesComplement.fold (2 ^ 16) (OnesComplement.fold (2 ^ 16) (halfwords o buf).sum) = 0 ↔
      (halfwords o buf).sum = 0 :=
    OnesComplement.fold_eq_zero.trans OnesComplement.fold_eq_zero
  constructor
  · refine (Nat.modEq_zero_iff_dvd).mp ?_
    calc (halfwords o buf).sum + (inChecksum o buf).toNat
        ≡ OnesComplement.fold (2 ^ 16) (OnesComplement.fold (2 ^ 16) (halfwords o buf).sum) +
          (inChecksum o buf).toNat [MOD 65535] := hMod.symm.add_right _
      _ = 65535 := by omega
      _ ≡ 0 [MOD 65535] := (Nat.modEq_zero_iff_dvd).mpr (Nat.dvd_refl _)
  · omega

end Words

section Memory

theorem length_memcpy (buf : List Byte) (off : Nat) (bytes : List Byte) :
    (memcpy buf off bytes).length = buf.length := by
  induction bytes generalizing buf off with
  | nil => rfl
  | cons b bytes ih => rw [memcpy, ih, List.length_set]

theorem slice_set (off len i : Nat) (b : Byte) (buf : List Byte) :
    slice off len (buf.set i b) =
      if i < off then slice off len buf else (slice off len buf).set (i - off) b := by
  rw [slice, List.drop_set]
  split_ifs
  · rfl
  · rw [List.take_set]
    rfl

/-- A copy into a slice. -/
theorem slice_memcpy {off start : Nat} (len : Nat) (hInside : off ≤ start) (buf bytes : List Byte) :
    slice off len (memcpy buf start bytes) = memcpy (slice off len buf) (start - off) bytes := by
  induction bytes generalizing buf start with
  | nil => rfl
  | cons b bytes ih =>
      rw [memcpy, ih (Nat.le_succ_of_le hInside), slice_set, if_neg (Nat.not_lt.mpr hInside),
        memcpy, Nat.succ_sub hInside]

/-- A copy behind a buffer. -/
theorem memcpy_of_length_le {buf : List Byte} {off : Nat} (hBehind : buf.length ≤ off)
    (bytes : List Byte) : memcpy buf off bytes = buf := by
  induction bytes generalizing off with
  | nil => rfl
  | cons b bytes ih =>
      rw [memcpy, List.set_eq_of_length_le hBehind, ih (Nat.le_succ_of_le hBehind)]

theorem memcpy_append (before after : List Byte) (b₀ b₁ c₀ c₁ : Byte) :
    memcpy (before ++ b₀ :: b₁ :: after) before.length [c₀, c₁] =
      before ++ c₀ :: c₁ :: after := by
  simp [memcpy]

end Memory

section Checksums

variable {o : ByteOrder}

theorem Verifies.on (o' : ByteOrder) {buf : List Byte} (h : Verifies o buf) : Verifies o' buf := by
  by_cases hSame : o' = o
  · rwa [hSame]
  · have hOther : o' = o.other := by cases o <;> cases o' <;> simp_all [ByteOrder.other]
    rw [hOther]
    exact h.other o

/-- A buffer with a zero word verifies when its checksum is stored there. -/
theorem verifies_append {before after : List Byte} (hBefore : Even before.length)
    (hEven : Even (before ++ 0#8 :: 0#8 :: after).length)
    (hLength : (before ++ 0#8 :: 0#8 :: after).length ≤ 65534) :
    Verifies o (memcpy (before ++ 0#8 :: 0#8 :: after) before.length
      (storeHalfword o (inChecksum o (before ++ 0#8 :: 0#8 :: after)))) := by
  obtain ⟨hDvd, hNe⟩ := inChecksum_spec o hEven hLength
  obtain ⟨c₀, c₁, hStore, hWord⟩ :=
    halfword_storeHalfword o (inChecksum o (before ++ 0#8 :: 0#8 :: after))
  rw [hStore, memcpy_append]
  refine (OnesComplement.sum_eq_last_iff (by decide) (halfwords_lt o _)).mpr ?_
  have hSum : (halfwords o (before ++ c₀ :: c₁ :: after)).sum =
      (halfwords o (before ++ 0#8 :: 0#8 :: after)).sum +
        (inChecksum o (before ++ 0#8 :: 0#8 :: after)).toNat := by
    rw [halfwords_append o _ _ hBefore, halfwords_append o _ _ hBefore, List.sum_append,
      List.sum_append, halfwords, halfwords, hWord, halfword_zero, List.sum_cons, List.sum_cons,
      BitVec.toNat_zero]
    omega
  rw [hSum]
  exact ⟨hDvd, hNe⟩

/-- Storing the checksum of a buffer in its zero checksum word makes it verify. -/
theorem verifies_memcpy {buf : List Byte} {off : Nat} (hEven : Even buf.length)
    (hLength : buf.length ≤ 65534) (hOff : Even off) (h₀ : buf[off]? = some 0#8)
    (h₁ : buf[off + 1]? = some 0#8) :
    Verifies o (memcpy buf off (storeHalfword o (inChecksum o buf))) := by
  obtain ⟨hLt₀, hGet₀⟩ := List.getElem?_eq_some_iff.mp h₀
  obtain ⟨hLt₁, hGet₁⟩ := List.getElem?_eq_some_iff.mp h₁
  have hSplit : buf = buf.take off ++ 0#8 :: 0#8 :: buf.drop (off + 2) := by
    rw [← hGet₁, ← List.drop_eq_getElem_cons hLt₁]
    conv_rhs => rw [hGet₁, ← hGet₀]
    rw [← List.drop_eq_getElem_cons hLt₀, List.take_append_drop]
  have hTake : (buf.take off).length = off := List.length_take_of_le hLt₀.le
  have hBefore : Even (buf.take off).length := by rwa [hTake]
  rw [hSplit] at hEven hLength
  have hVerifies := verifies_append (o := o) hBefore hEven hLength
  rwa [← hSplit, hTake] at hVerifies

/-- A checksum word may hold anything before it is zeroed. -/
theorem verifies_zeroed {buf : List Byte} {off : Nat} (hEven : Even buf.length)
    (hLength : buf.length ≤ 65534) (hOff : Even off) (hFits : off + 2 ≤ buf.length) :
    Verifies o (memcpy (memcpy buf off [0#8, 0#8]) off
      (storeHalfword o (inChecksum o (memcpy buf off [0#8, 0#8])))) := by
  have hSize := length_memcpy buf off [0#8, 0#8]
  rw [← hSize] at hEven hLength
  refine verifies_memcpy hEven hLength hOff ?_ ?_
  · rw [memcpy, memcpy, memcpy, List.getElem?_set_ne (by omega), List.getElem?_set_self (by omega)]
  · rw [memcpy, memcpy, memcpy, List.getElem?_set_self (by rw [List.length_set]; omega)]

theorem length_composePing (pkt : List Byte) (args : PingArgs) :
    (composePing o pkt args).length = pkt.length := by
  simp only [composePing, length_memcpy]

theorem length_slice {off len : Nat} {buf : List Byte} (h : off + len ≤ buf.length) :
    (slice off len buf).length = len := by
  rw [slice, List.length_take, List.length_drop]
  omega

/-- Whatever the packet of the call before was, both checksums are right. -/
theorem composePing_verifies {pkt : List Byte} (hLength : pkt.length = 43) (args : PingArgs) :
    Verifies o (slice 14 20 (composePing o pkt args)) ∧
      Verifies o (slice 34 8 (composePing o pkt args)) := by
  obtain ⟨base, hBase, hEq⟩ : ∃ base : List Byte, base.length = 43 ∧ composePing o pkt args =
      let pkt := memcpy base 24 [0#8, 0#8]
      let pkt := memcpy pkt 24 (storeHalfword o (inChecksum o (slice 14 20 pkt)))
      let pkt := memcpy pkt 36 [0#8, 0#8]
      memcpy pkt 36 (storeHalfword o (inChecksum o (slice 34 8 pkt))) :=
    ⟨_, by simp only [length_memcpy, hLength], rfl⟩
  rw [hEq]
  constructor
  · -- the ICMP checksum lies behind the IP header
    have hHeader : (slice 14 20 base).length = 20 := length_slice (by omega)
    have hBehind (buf bytes : List Byte) (hBuf : (slice 14 20 buf).length = 20) :
        slice 14 20 (memcpy buf 36 bytes) = slice 14 20 buf := by
      rw [slice_memcpy 20 (by decide), memcpy_of_length_le (by omega)]
    have hInner (buf bytes : List Byte) :
        slice 14 20 (memcpy buf 24 bytes) = memcpy (slice 14 20 buf) 10 bytes :=
      slice_memcpy 20 (by decide) buf bytes
    simp only [hBehind, hInner, length_memcpy, hHeader]
    exact verifies_zeroed (by rw [hHeader]; decide) (by omega) (by decide) (by omega)
  · have hMessage (buf : List Byte) (hBuf : buf.length = 43) : (slice 34 8 buf).length = 8 :=
      length_slice (by omega)
    have hInner (buf bytes : List Byte) :
        slice 34 8 (memcpy buf 36 bytes) = memcpy (slice 34 8 buf) 2 bytes :=
      slice_memcpy 8 (by decide) buf bytes
    have hLength8 := hMessage (memcpy (memcpy base 24 [0#8, 0#8]) 24 (storeHalfword o
      (inChecksum o (slice 14 20 (memcpy base 24 [0#8, 0#8])))))
        (by rw [length_memcpy, length_memcpy, hBase])
    simp only [hInner]
    exact verifies_zeroed (by rw [hLength8]; decide) (by omega) (by decide) (by omega)

/-- The packet after a sequence of calls. -/
def composed (o : ByteOrder) (calls : List PingArgs) : List Byte :=
  calls.foldl (composePing o) initialPkt

theorem length_composed (calls : List PingArgs) : (composed o calls).length = 43 := by
  induction calls using List.reverseRecOn with
  | nil => rfl
  | append_singleton calls args ih =>
      rw [composed, List.foldl_concat, length_composePing]
      exact ih

end Checksums

/-- Stored checksums verify on hosts of either byte order, and so do those of every packet
that is ever composed. -/
theorem ping_checksums (o o' : ByteOrder) :
    (∀ (buf : List Byte) (off : Nat), Even buf.length → buf.length ≤ 65534 → Even off →
      buf[off]? = some 0#8 → buf[off + 1]? = some 0#8 →
        Verifies o' (memcpy buf off (storeHalfword o (inChecksum o buf)))) ∧
    ∀ (calls : List PingArgs) (args : PingArgs),
      Verifies o' (slice 14 20 (composed o (calls ++ [args]))) ∧
        Verifies o' (slice 34 8 (composed o (calls ++ [args]))) := by
  constructor
  · intro buf off hEven hLength hOff h₀ h₁
    exact (verifies_memcpy hEven hLength hOff h₀ h₁).on o'
  · intro calls args
    obtain ⟨hHeader, hMessage⟩ := composePing_verifies (length_composed (o := o) calls) args
    rw [composed, List.foldl_concat]
    exact ⟨hHeader.on o', hMessage.on o'⟩

/-- A message of the four bytes `08 00 00 00`. -/
theorem ping_checksums_request : Verifies .big (memcpy [0x08#8, 0x00#8, 0x00#8, 0x00#8] 2
    (storeHalfword .little (inChecksum .little [0x08#8, 0x00#8, 0x00#8, 0x00#8]))) :=
  (ping_checksums .little .big).1 [0x08#8, 0x00#8, 0x00#8, 0x00#8] 2 (by decide) (by decide)
    (by decide) rfl rfl

end Wackamole
