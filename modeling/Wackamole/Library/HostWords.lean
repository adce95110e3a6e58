import Mathlib.Data.BitVec
import Mathlib.Data.List.GetD

/-! Words of four bytes in the memory of hosts of either byte order, and what one host
reads of the words of the other. -/
namespace HostWords

abbrev Byte := BitVec 8

/-- A byte of a word, from the least significant one on. -/
def byte (w : BitVec 32) (k : Nat) : Byte := w.extractLsb' (8 * k) 8

/-- The word with these bytes, the most significant one first. -/
def join (b₃ b₂ b₁ b₀ : Byte) : BitVec 32 := b₃ ++ b₂ ++ b₁ ++ b₀

theorem join_bytes (w : BitVec 32) : join (byte w 3) (byte w 2) (byte w 1) (byte w 0) = w := by
  change w.extractLsb' 24 8 ++ w.extractLsb' 16 8 ++ w.extractLsb' 8 8 ++ w.extractLsb' 0 8 = w
  apply BitVec.eq_of_getElem_eq
  intro i hi
  simp only [BitVec.getElem_append, BitVec.getElem_extractLsb']
  split_ifs <;> grind

@[simp] theorem byte_join (b₃ b₂ b₁ b₀ : Byte) {k : Nat} (hk : k < 4) :
    byte (join b₃ b₂ b₁ b₀) k = [b₀, b₁, b₂, b₃].getD k 0#8 := by
  obtain rfl | rfl | rfl | rfl : k = 0 ∨ k = 1 ∨ k = 2 ∨ k = 3 := by omega
  all_goals
    apply BitVec.eq_of_getElem_eq
    intro i hi
    simp only [join, byte, BitVec.getElem_extractLsb', BitVec.getLsbD_append, List.getD_cons_zero,
      List.getD_cons_succ]
    grind

/-- The word with the bytes in the opposite order. -/
def swap (w : BitVec 32) : BitVec 32 := join (byte w 0) (byte w 1) (byte w 2) (byte w 3)

@[simp] theorem swap_swap (w : BitVec 32) : swap (swap w) = w := by
  simp [swap, join_bytes]

theorem swap_and (w w' : BitVec 32) : swap (w &&& w') = swap w &&& swap w' := by
  simp only [swap, byte, BitVec.extractLsb'_and]
  change (_ ++ _ ++ _ ++ _ : BitVec (8 + 8 + 8 + 8)) =
    (_ ++ _ ++ _ ++ _ : BitVec (8 + 8 + 8 + 8)) &&& (_ ++ _ ++ _ ++ _ : BitVec (8 + 8 + 8 + 8))
  simp only [BitVec.and_append]

theorem byte_not (w : BitVec 32) {k : Nat} (hk : k < 4) : byte (~~~w) k = ~~~byte w k := by
  apply BitVec.eq_of_getElem_eq
  intro i hi
  have hBit : 8 * k + i < 32 := by omega
  simp only [byte, BitVec.getElem_extractLsb', BitVec.getElem_not, BitVec.getLsbD_not, hBit,
    decide_true, Bool.true_and]

theorem swap_not (w : BitVec 32) : swap (~~~w) = ~~~swap w := by
  rw [swap, byte_not w (by decide), byte_not w (by decide), byte_not w (by decide),
    byte_not w (by decide)]
  change (_ ++ _ ++ _ ++ _ : BitVec (8 + 8 + 8 + 8)) = ~~~(_ ++ _ ++ _ ++ _ : BitVec (8 + 8 + 8 + 8))
  simp only [BitVec.not_append]

/-- The word with all but the lowest `k` bits. -/
abbrev prefixMask (k : Nat) : BitVec 32 := BitVec.allOnes 32 <<< k

theorem toNat_and_prefixMask (w : BitVec 32) (k : Nat) :
    (w &&& prefixMask k).toNat = w.toNat / 2 ^ k * 2 ^ k := by
  rw [← BitVec.shiftLeft_ushiftRight, BitVec.toNat_shiftLeft, BitVec.toNat_ushiftRight,
    Nat.shiftRight_eq_div_pow, Nat.shiftLeft_eq]
  exact Nat.mod_eq_of_lt ((Nat.div_mul_le_self _ _).trans_lt w.isLt)

theorem toNat_or_not_prefixMask (w : BitVec 32) {k : Nat} (hk : k ≤ 32) :
    (w ||| ~~~prefixMask k).toNat = w.toNat / 2 ^ k * 2 ^ k + (2 ^ k - 1) := by
  have hSplit : w ||| ~~~prefixMask k = (w &&& prefixMask k) + ~~~prefixMask k := by
    rw [BitVec.add_eq_or_of_and_eq_zero]
    · apply BitVec.eq_of_getElem_eq
      intro i hi
      simp only [BitVec.getElem_or, BitVec.getElem_and, BitVec.getElem_not]
      cases w[i] <;> cases (prefixMask k)[i] <;> rfl
    · rw [BitVec.and_assoc, BitVec.and_not_self]
      exact BitVec.and_zero
  have hPow : 2 ^ (32 - k) * 2 ^ k = 2 ^ 32 := by rw [← Nat.pow_add, Nat.sub_add_cancel hk]
  have hPos := Nat.two_pow_pos k
  have hRound {a : Nat} (ha : a < 2 ^ 32) : a / 2 ^ k * 2 ^ k + 2 ^ k ≤ 2 ^ 32 := by
    rw [← hPow] at ha ⊢
    rw [← Nat.succ_mul]
    exact Nat.mul_le_mul_right _ (Nat.div_lt_of_lt_mul (by rwa [Nat.mul_comm]))
  have hMask : (~~~prefixMask k).toNat = 2 ^ k - 1 := by
    have hAll := toNat_and_prefixMask (BitVec.allOnes 32) k
    rw [BitVec.allOnes_and, BitVec.toNat_allOnes] at hAll
    have hMod := Nat.mod_lt (2 ^ 32 - 1) hPos
    have hSelf := Nat.div_add_mod (2 ^ 32 - 1) (2 ^ k)
    rw [Nat.mul_comm] at hSelf
    have hUpper := hRound (a := 2 ^ 32 - 1) (by decide)
    rw [BitVec.toNat_not, hAll]
    omega
  have hUpper := hRound w.isLt
  rw [hSplit, BitVec.toNat_add, hMask, toNat_and_prefixMask]
  exact Nat.mod_eq_of_lt (by omega)

inductive ByteOrder where
  | little
  | big
  deriving DecidableEq

namespace ByteOrder

def other : ByteOrder → ByteOrder
  | little => big
  | big => little

/-- The bytes of a word in memory, from the lowest address on. -/
def store : ByteOrder → BitVec 32 → List Byte
  | little, w => [byte w 0, byte w 1, byte w 2, byte w 3]
  | big, w => [byte w 3, byte w 2, byte w 1, byte w 0]

/-- The word in the four bytes from an address on. -/
def fetch (o : ByteOrder) (memory : List Byte) (addr : Nat) : BitVec 32 :=
  let b (k : Nat) := memory.getD (addr + k) 0#8
  match o with
  | little => join (b 3) (b 2) (b 1) (b 0)
  | big => join (b 0) (b 1) (b 2) (b 3)

variable (o : ByteOrder)

@[simp] theorem length_store (w : BitVec 32) : (o.store w).length = 4 := by cases o <;> rfl

theorem store_injective : Function.Injective o.store := by
  intro w w' h
  cases o <;>
  · simp only [store, List.cons.injEq] at h
    rw [← join_bytes w, ← join_bytes w']
    grind

/-- A word in memory is the swapped word in the other byte order. -/
theorem other_store (w : BitVec 32) : o.other.store (swap w) = o.store w := by
  cases o <;> simp [other, store, swap]

theorem fetch_append_left {before : List Byte} (after : List Byte) (addr : Nat) :
    o.fetch (before ++ after) (before.length + addr) = o.fetch after addr := by
  have hGet (k : Nat) : (before ++ after).getD (before.length + addr + k) 0#8 =
      after.getD (addr + k) 0#8 := by
    rw [Nat.add_assoc, List.getD_append_right _ _ _ _ (Nat.le_add_right _ _),
      Nat.add_sub_cancel_left]
  simp only [fetch, hGet]

theorem fetch_store (w : BitVec 32) (rest : List Byte) : o.fetch (o.store w ++ rest) 0 = w := by
  cases o <;> exact join_bytes w

/-- The words of a message in memory. -/
def pack (words : List (BitVec 32)) : List Byte := words.flatMap o.store

theorem length_pack (words : List (BitVec 32)) : (o.pack words).length = 4 * words.length := by
  induction words with
  | nil => rfl
  | cons w words ih =>
      rw [pack, List.flatMap_cons, List.length_append, length_store, List.length_cons]
      change 4 + (o.pack words).length = _
      omega

theorem fetch_pack (rest : List Byte) {words : List (BitVec 32)} {k : Nat}
    (hk : k < words.length) : o.fetch (o.pack words ++ rest) (4 * k) = words.getD k 0#32 := by
  induction words generalizing k with
  | nil => exact absurd hk (Nat.not_lt_zero k)
  | cons w words ih =>
      have hPack : o.pack (w :: words) ++ rest = o.store w ++ (o.pack words ++ rest) := by
        rw [pack, List.flatMap_cons, List.append_assoc]
        rfl
      rw [hPack]
      cases k with
      | zero => exact o.fetch_store w _
      | succ k =>
          have hAddr : 4 * (k + 1) = (o.store w).length + 4 * k := by
            rw [length_store]
            omega
          rw [hAddr, fetch_append_left, ih (Nat.lt_of_succ_lt_succ hk), List.getD_cons_succ]

theorem other_pack (words : List (BitVec 32)) : o.other.pack (words.map swap) = o.pack words := by
  rw [pack, List.flatMap_map]
  exact congrArg words.flatMap (funext o.other_store)

/-- What a host of the other byte order reads. -/
theorem fetch_other_pack (rest : List Byte) {words : List (BitVec 32)} {k : Nat}
    (hk : k < words.length) :
    o.other.fetch (o.pack words ++ rest) (4 * k) = swap (words.getD k 0#32) := by
  rw [← other_pack, fetch_pack _ _ (by simpa using hk)]
  simp [hk]

end ByteOrder

theorem getD_append_add (before after : List (BitVec 32)) (k : Nat) :
    (before ++ after).getD (before.length + k) 0#32 = after.getD k 0#32 := by
  rw [List.getD_append_right _ _ _ _ (Nat.le_add_right _ _), Nat.add_sub_cancel_left]

/-- The words of a section of pairs. -/
theorem getD_pairs {Item : Type*} (items : List Item) (first second : Item → BitVec 32) {k : Nat}
    (hk : k < items.length) :
    (items.flatMap fun item => [first item, second item]).getD (2 * k) 0#32 = first items[k] ∧
      (items.flatMap fun item => [first item, second item]).getD (2 * k + 1) 0#32 =
        second items[k] := by
  induction items generalizing k with
  | nil => exact absurd hk (Nat.not_lt_zero k)
  | cons item items ih =>
      cases k with
      | zero => exact ⟨rfl, rfl⟩
      | succ k => exact ih (Nat.lt_of_succ_lt_succ hk)

theorem length_pairs {Item : Type*} (items : List Item) (first second : Item → BitVec 32) :
    (items.flatMap fun item => [first item, second item]).length = 2 * items.length := by
  induction items with
  | nil => rfl
  | cons item items ih =>
      rw [List.flatMap_cons, List.length_append, ih, List.length_cons]
      simp only [List.length_cons, List.length_nil]
      omega

end HostWords
