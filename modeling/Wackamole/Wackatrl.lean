import Wackamole.ControlSession
import Wackamole.GetoptRuns
import Wackamole.Preferring

/-! `wackatrl.c` by itself: how `main` reads its options, and the prefix lengths that `get_state`
prints. -/
namespace Wackamole

namespace Wackatrl

open HostWords Getopt MaskedCounting

/-- What `main` has read of its arguments. There is no `op` at first. -/
structure Chosen where
  filename : Option Arg
  op : Option Byte

/-- The operation that an option names. -/
def operation : Ret → Option Byte
  | .char 'f' => some wackServiceFailure
  | .char 's' => some wackServiceSuccess
  | .char 'l' => some getWackState
  | _ => none

/-- One pass of the loop, unless it calls `usage`. -/
def Chosen.next (chosen : Chosen) (call : Getopt.Call) : Option Chosen :=
  if call.1 = .char 'c' then some { chosen with filename := call.2 }
  else (operation call.1).map fun op => { chosen with op := some op }

/-- How `main` goes on behind its options. -/
inductive Start where
  | usage
  | run (filename : Option Arg) (op : Byte)
  deriving DecidableEq

def Chosen.start (chosen : Chosen) : Start :=
  match chosen.op with
  | none => .usage
  | some op => .run chosen.filename op

def setup (posixlyCorrect : Bool) : Setup := ⟨"c:fsl".toList, true, posixlyCorrect⟩

/-- The option loop of `main`, for so many calls of `getopt` at most. -/
def optionLoop (posixlyCorrect : Bool) : Nat → Scanner → Chosen → Option Start
  | 0, _, _ => none
  | fuel + 1, s, chosen =>
    (getopt (setup posixlyCorrect) s).bind fun
      | (.finished, _) => some chosen.start
      | (ret, s) =>
        match chosen.next (ret, s.optarg) with
        | none => some .usage
        | some chosen => optionLoop posixlyCorrect fuel s chosen

/-- What these calls come to: the last operation counts, and the last file. -/
def started (calls : List Getopt.Call) : Start :=
  if ∀ call ∈ calls, call.1 = .char 'c' ∨ (operation call.1).isSome then
    match calls.reverse.findSome? fun call => operation call.1 with
    | none => .usage
    | some op => .run ((calls.reverse.find? fun call => call.1 = .char 'c').bind Prod.snd) op
  else .usage

/-- The calls one after the other, from any choice on. -/
theorem foldlM_next (calls : List Getopt.Call) (chosen : Chosen) :
    calls.foldlM Chosen.next chosen =
      if ∀ call ∈ calls, call.1 = .char 'c' ∨ (operation call.1).isSome then
        some ⟨match calls.reverse.find? fun call => call.1 = .char 'c' with
            | some call => call.2
            | none => chosen.filename,
          (calls.reverse.findSome? fun call => operation call.1).or chosen.op⟩
      else none := by
  induction calls generalizing chosen with
  | nil => rfl
  | cons call calls ih =>
      simp only [List.foldlM_cons, List.reverse_cons, List.find?_append, List.findSome?_append,
        List.forall_mem_cons]
      by_cases hFile : call.1 = .char 'c'
      · have hOp : operation call.1 = none := by rw [hFile]; rfl
        have hNext : chosen.next call = some { chosen with filename := call.2 } := if_pos hFile
        rw [hNext]
        simp only [Option.bind_eq_bind, Option.bind_some, ih, hFile, true_or, true_and]
        split_ifs with hKnown
        · cases calls.reverse.find? fun call => call.1 = .char 'c' <;> simp [hFile, operation]
        · rfl
      · have hNext : chosen.next call = (operation call.1).map fun op => { chosen with op := some op } :=
          if_neg hFile
        rw [hNext]
        cases hOp : operation call.1 with
        | none => simp [hFile]
        | some op =>
            simp only [Option.map_some, Option.bind_eq_bind, Option.bind_some, ih, Option.isSome_some,
              or_true, true_and]
            split_ifs with hKnown
            · simp [hFile, hOp]
            · rfl

/-- The option loop makes its choice from the calls of `getopt`, up to the first that it does
not know. -/
theorem optionLoop_of_loop {posixlyCorrect : Bool} {s s' : Scanner} {calls : List Getopt.Call}
    (h : Loop (setup posixlyCorrect) s calls s') (chosen : Chosen) :
    optionLoop posixlyCorrect (calls.length + 1) s chosen =
      some ((calls.foldlM Chosen.next chosen).elim .usage Chosen.start) := by
  induction h generalizing chosen with
  | done hCall => rw [optionLoop, hCall]; rfl
  | @more s s' s'' ret calls hCall hRet hRest ih =>
      have hPass : optionLoop posixlyCorrect (calls.length + 2) s chosen =
          match chosen.next (ret, s'.optarg) with
          | none => some .usage
          | some chosen => optionLoop posixlyCorrect (calls.length + 1) s' chosen := by
        rw [optionLoop, hCall, Option.bind_some]
        cases ret with
        | finished => exact absurd rfl hRet
        | marker => rfl
        | inOrder => rfl
        | char c => rfl
      rw [List.length_cons, hPass, List.foldlM_cons]
      cases chosen.next (ret, s'.optarg) with
      | none => rfl
      | some chosen => exact ih chosen

/-- For all arguments: `wackatrl` reads its options wherever they stand, and the last one of each
kind counts. -/
theorem optionLoop_started (posixlyCorrect : Bool) (prog : Arg) (args : List Arg) :
    let calls := (parse (setup posixlyCorrect) args).calls
    optionLoop posixlyCorrect (calls.length + 1) (.start (prog :: args)) ⟨none, none⟩ =
      some (started calls) := by
  obtain ⟨s, hLoop, -⟩ := loop_parse (setup posixlyCorrect) prog args
  dsimp only
  rw [optionLoop_of_loop hLoop, foldlM_next, started]
  split_ifs with hKnown
  · rw [Option.or_none, Option.elim_some, Chosen.start]
    cases (parse (setup posixlyCorrect) args).calls.reverse.findSome? fun call =>
      operation call.1 with
    | none => rfl
    | some op =>
        cases (parse (setup posixlyCorrect) args).calls.reverse.find? fun call =>
          call.1 = .char 'c' <;> rfl
  · rfl

/-- The loop of `mask2bits`. The shift keeps the sign. -/
def mask2bitsLoop : Nat → Word → Nat
  | 0, _ => 0
  | bits + 1, s => if s ||| 1#32 = s then bits + 1 else mask2bitsLoop bits (s.sshiftRight 1)

/-- `mask2bits`, for the number behind the slash. -/
def mask2bits (s : Word) : Nat := mask2bitsLoop 32 s

theorem or_one_iff (s : Word) : s ||| 1#32 = s ↔ s.getLsbD 0 = true := by
  constructor
  · intro h
    rw [← h, BitVec.getLsbD_or]
    simp
  · intro h
    apply BitVec.eq_of_getLsbD_eq
    intro i hi
    rw [BitVec.getLsbD_or]
    cases i with
    | zero => simp [h]
    | succ i => simp [BitVec.getLsbD_one]

theorem lowestBit_shift {s : Word} {p : Nat} (h : LowestBit s (p + 1)) :
    LowestBit (s.sshiftRight 1) p := by
  have hWidth := h.lt
  have hShift {j : Nat} (hj : j ≤ p) : (s.sshiftRight 1).getLsbD j = s.getLsbD (j + 1) := by
    rw [BitVec.getLsbD_sshiftRight, if_pos (by omega), Nat.add_comm]
    simp only [show ¬ 32 ≤ j by omega, decide_false, Bool.not_false, Bool.true_and]
  exact ⟨(hShift le_rfl).trans h.set, fun j hj =>
    (hShift hj.le).trans (h.below (j + 1) (Nat.succ_lt_succ hj))⟩

theorem mask2bitsLoop_lowest {s : Word} {p : Nat} (h : LowestBit s p) {bits : Nat} (hp : p < bits) :
    mask2bitsLoop bits s = bits - p := by
  induction p generalizing s bits with
  | zero =>
      obtain ⟨bits, rfl⟩ : ∃ k, bits = k + 1 := ⟨bits - 1, by omega⟩
      rw [mask2bitsLoop, if_pos ((or_one_iff s).mpr h.set), Nat.sub_zero]
  | succ p ih =>
      obtain ⟨bits, rfl⟩ : ∃ k, bits = k + 1 := ⟨bits - 1, by omega⟩
      have hLow : s.getLsbD 0 = false := h.below 0 (Nat.succ_pos p)
      rw [mask2bitsLoop, if_neg (by rw [or_one_iff, hLow]; exact Bool.false_ne_true),
        ih (lowestBit_shift h) (by omega)]
      omega

theorem mask2bitsLoop_zero (bits : Nat) : mask2bitsLoop bits 0#32 = 0 := by
  induction bits with
  | zero => rfl
  | succ bits ih =>
      rw [mask2bitsLoop, if_neg (by decide), BitVec.zero_sshiftRight]
      exact ih

theorem getLsbD_swap_low (w : Word) {j : Nat} (hj : j < 8) :
    (swap w).getLsbD j = w.getLsbD (24 + j) := by
  rw [swap, join, BitVec.getLsbD_append]
  simp [byte, hj]

/-- In memory the bytes of a mask stand the other way round than on a little-endian host. -/
theorem lowestBit_swap {m : Nat} (hm : 1 ≤ m) (hm' : m ≤ 32) :
    LowestBit (swap (prefixMask (32 - m))) (8 - m) := by
  have hBit {j : Nat} (hj : j < 8) : (swap (prefixMask (32 - m))).getLsbD j =
      decide (32 - m ≤ 24 + j) := by
    rw [getLsbD_swap_low _ hj, prefixMask, BitVec.getLsbD_shiftLeft, BitVec.getLsbD_allOnes]
    by_cases hBelow : 24 + j < 32 - m
    · simp [hBelow, show ¬ 32 - m ≤ 24 + j by omega]
    · simp [hBelow, show 32 - m ≤ 24 + j by omega]
      omega
  refine ⟨(hBit (by omega)).trans ?_, fun j hj => (hBit (by omega)).trans ?_⟩
  · rw [decide_eq_true_eq]
    omega
  · rw [decide_eq_false_iff_not]
    omega

/-- The number is counted from the lowest bit that is set. -/
theorem mask2bits_lowest (s : Word) :
    s = 0#32 ∧ mask2bits s = 0 ∨ ∃ p, LowestBit s p ∧ mask2bits s = 32 - p := by
  by_cases hZero : s = 0#32
  · exact .inl ⟨hZero, by rw [hZero, mask2bits, mask2bitsLoop_zero]⟩
  · obtain ⟨p, hLowest⟩ := exists_lowestBit hZero
    exact .inr ⟨p, hLowest, mask2bitsLoop_lowest hLowest hLowest.lt⟩

theorem mask2bits_prefix (o : ByteOrder) {m : Nat} (hm : m ≤ 32) :
    mask2bits (ntohl o (prefixMask (32 - m))) = m ↔ o = .big ∨ m = 0 ∨ m = 32 := by
  rcases Nat.eq_zero_or_pos m with rfl | hPos
  · have hZero : ntohl o (prefixMask (32 - 0)) = 0#32 := by cases o <;> rfl
    rw [hZero, mask2bits, mask2bitsLoop_zero]
    simp
  · cases o with
    | big =>
        have hBits := mask2bitsLoop_lowest (lowestBit_prefixMask (m := m) hPos)
          (show 32 - m < 32 by omega)
        rw [mask2bits, ntohl, hBits]
        simp only [true_or, iff_true]
        omega
    | little =>
        have hBits := mask2bitsLoop_lowest (lowestBit_swap hPos hm) (show 8 - m < 32 by omega)
        rw [mask2bits, ntohl, hBits]
        simp only [reduceCtorEq, false_or]
        omega

/-- Of any mask `get_state` prints the width of a word less the place of the lowest bit that is
set in memory. So the length of a prefix stands behind the slash exactly on a big-endian host, or
where the prefix is empty or a whole address. -/
theorem mask2bits_iff (o : ByteOrder) :
    (∀ mask : Word, mask = 0#32 ∧ mask2bits (ntohl o mask) = 0 ∨
      ∃ p, LowestBit (ntohl o mask) p ∧ mask2bits (ntohl o mask) = 32 - p) ∧
    ∀ m, m ≤ 32 →
      (mask2bits (ntohl o (prefixMask (32 - m))) = m ↔ o = .big ∨ m = 0 ∨ m = 32) := by
  refine ⟨fun mask => ?_, fun m hm => mask2bits_prefix o hm⟩
  refine (mask2bits_lowest (ntohl o mask)).imp_left fun ⟨hZero, hBits⟩ => ⟨?_, hBits⟩
  rw [← ntohl_ntohl o mask, hZero]
  cases o <;> rfl

/-- A prefix of 24 bits is printed as 32 on a little-endian host. -/
theorem mask2bits_slash24 : mask2bits (ntohl .little (prefixMask (32 - 24))) ≠ 24 := by
  rw [ne_eq, (mask2bits_iff .little).2 24 (by decide)]
  decide

end Wackatrl

end Wackamole
