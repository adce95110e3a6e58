import Wackamole.Library.BlockExchange
import Mathlib.Data.List.Basic

/-! `getopt` of `getopt_long.c`, with which `wackatrl` reads its arguments. Options may come
after other arguments: the scan exchanges the blocks of the two in `argv` as it goes. -/
namespace Wackamole

namespace Getopt

open BlockExchange

abbrev Arg := List Char

section Permute

variable {α : Type*}

/-- The loop of `gcd`. The second argument is smaller each time. -/
def gcdLoop : Nat → Nat → Nat → Nat
  | 0, _, b => b
  | fuel + 1, a, b =>
    let c := a % b
    if c = 0 then b else gcdLoop fuel b c

/-- `gcd`, unless it divides by zero. -/
def gcd (a b : Nat) : Option Nat := if b = 0 then none else some (gcdLoop b a b)

/-- Two arguments change places. -/
def swapArgs (pos cstart : Nat) (argv : List α) : List α :=
  match argv[pos]?, argv[cstart]? with
  | some swap, some arg => (argv.set pos arg).set cstart swap
  | _, _ => argv

/-- `permute_args`, unless it divides by zero. -/
def permuteArgs (panonoptStart panonoptEnd optEnd : Nat) (argv : List α) : Option (List α) :=
  let nnonopts := panonoptEnd - panonoptStart
  let nopts := optEnd - panonoptEnd
  (gcd nnonopts nopts).map fun ncycle =>
    let cyclelen := (optEnd - panonoptStart) / ncycle
    (List.range ncycle).foldl (fun argv i =>
      let cstart := panonoptEnd + i
      ((fun (pos, argv) =>
        let pos := if panonoptEnd ≤ pos then pos - nnonopts else pos + nopts
        (pos, swapArgs pos cstart argv))^[cyclelen] (cstart, argv)).2) argv

theorem gcdLoop_eq {fuel a b : Nat} (hPos : 0 < b) (hFuel : b ≤ fuel) :
    gcdLoop fuel a b = Nat.gcd a b := by
  induction fuel generalizing a b with
  | zero => omega
  | succ fuel ih =>
      have hLess := Nat.mod_lt a hPos
      rw [gcdLoop]
      split_ifs with hLast
      · rw [Nat.gcd_eq_right (Nat.dvd_of_mod_eq_zero hLast)]
      · rw [ih (by omega) (by omega), Nat.gcd_comm a b, Nat.gcd_rec b a, Nat.gcd_comm]

theorem gcd_eq {a b : Nat} (hPos : 0 < b) : gcd a b = some (Nat.gcd a b) := by
  rw [gcd, if_neg hPos.ne', gcdLoop_eq hPos le_rfl]

theorem length_swapArgs (pos cstart : Nat) (argv : List α) :
    (swapArgs pos cstart argv).length = argv.length := by
  unfold swapArgs
  split <;> simp

theorem getElem?_swapArgs {pos cstart : Nat} {argv : List α} (hPos : pos < argv.length)
    (hStart : cstart < argv.length) :
    (fun p => (swapArgs pos cstart argv)[p]?) = exchange (fun p => argv[p]?) pos cstart := by
  funext p
  simp only [swapArgs, List.getElem?_eq_getElem hPos, List.getElem?_eq_getElem hStart]
  by_cases hs : p = cstart
  · rw [hs, exchange_right, List.getElem?_set_self (by simpa using hStart),
      List.getElem?_eq_getElem hPos]
  · rw [List.getElem?_set_ne (Ne.symm hs)]
    by_cases hp : p = pos
    · rw [hp, exchange_left, List.getElem?_set_self hPos, List.getElem?_eq_getElem hStart]
    · rw [exchange_other _ hp hs, List.getElem?_set_ne (Ne.symm hp)]

/-- The inner loop of `permute_args` walks a cycle of the arguments as of any cells. -/
theorem hop_swapArgs (start left right : Nat) {first : Nat} {argv : List α}
    (hLength : start + left + right ≤ argv.length) (hLow : start ≤ first)
    (hHigh : first < start + left + right) (k : Nat) :
    let s := ((fun (pos, argv) =>
        let pos := if start + left ≤ pos then pos - left else pos + right
        (pos, swapArgs pos first argv))^[k] (first, argv) : Nat × List α)
    let t := (hop (follow start left right) first)^[k] (first, fun p => argv[p]?)
    s.1 = t.1 ∧ (fun p => s.2[p]?) = t.2 ∧ s.2.length = argv.length ∧
      start ≤ s.1 ∧ s.1 < start + left + right := by
  induction k with
  | zero => exact ⟨rfl, rfl, rfl, hLow, hHigh⟩
  | succ k ih =>
      simp only [Function.iterate_succ_apply'] at ih ⊢
      obtain ⟨hPos, hCells, hSame, hStart, hEnd⟩ := ih
      generalize ((fun (pos, argv) => (if start + left ≤ pos then pos - left else pos + right,
        swapArgs (if start + left ≤ pos then pos - left else pos + right) first
          argv))^[k] (first, argv) : Nat × List α) = s at *
      generalize (hop (follow start left right) first)^[k] (first, fun p => argv[p]?) = t at *
      have hNext : (if start + left ≤ s.1 then s.1 - left else s.1 + right) =
          follow start left right t.1 := by rw [← hPos]; rfl
      have hWithin : start ≤ follow start left right t.1 ∧
          follow start left right t.1 < start + left + right := by
        rw [← hPos, follow]
        split_ifs <;> omega
      rw [hNext]
      refine ⟨rfl, ?_, (length_swapArgs _ _ _).trans hSame, hWithin⟩
      rw [getElem?_swapArgs (by omega) (by omega), hCells]
      rfl

theorem getElem?_blocks (front first second rest : List α) :
    (∀ p < front.length, (front ++ first ++ second ++ rest)[p]? = front[p]?) ∧
    (∀ x < first.length, (front ++ first ++ second ++ rest)[front.length + x]? = first[x]?) ∧
    (∀ x < second.length,
      (front ++ first ++ second ++ rest)[front.length + first.length + x]? = second[x]?) ∧
    ∀ x, (front ++ first ++ second ++ rest)[front.length + first.length + second.length + x]? =
      rest[x]? := by
  refine ⟨fun p hp => ?_, fun x hx => ?_, fun x hx => ?_, fun x => ?_⟩
  · rw [List.append_assoc, List.append_assoc, List.getElem?_append_left hp]
  · rw [List.append_assoc, List.append_assoc, List.getElem?_append_right (by omega),
      Nat.add_sub_cancel_left, List.getElem?_append_left hx]
  · rw [List.append_assoc, ← List.length_append, List.getElem?_append_right (by omega),
      Nat.add_sub_cancel_left, List.getElem?_append_left hx]
  · rw [← List.length_append, ← List.length_append, List.getElem?_append_right (by omega),
      Nat.add_sub_cancel_left]

/-- `permute_args` lets the two blocks change places, whatever their lengths. -/
theorem permuteArgs_eq {front nonopts opts : List α} (rest : List α) (hNonopts : nonopts ≠ [])
    (hOpts : opts ≠ []) :
    permuteArgs front.length (front.length + nonopts.length)
      (front.length + nonopts.length + opts.length) (front ++ nonopts ++ opts ++ rest) =
        some (front ++ opts ++ nonopts ++ rest) := by
  have hLeft := List.length_pos_of_ne_nil hNonopts
  have hRight := List.length_pos_of_ne_nil hOpts
  generalize hArgv : front ++ nonopts ++ opts ++ rest = argv
  have hLength : front.length + nonopts.length + opts.length ≤ argv.length := by
    rw [← hArgv]
    simp only [List.length_append]
    omega
  have hLess := Nat.gcd_le_right nonopts.length hRight
  rw [permuteArgs, show front.length + nonopts.length - front.length = nonopts.length by omega,
    show front.length + nonopts.length + opts.length - (front.length + nonopts.length) =
      opts.length by omega,
    show front.length + nonopts.length + opts.length - front.length =
      nonopts.length + opts.length by omega, gcd_eq hRight, Option.map_some]
  -- The outer loop does to the arguments what it does to any cells.
  have hCells (k : Nat) (hk : k ≤ Nat.gcd nonopts.length opts.length) :
      let argv' := (List.range k).foldl (fun argv i =>
        ((fun (pos, argv) =>
          let pos := if front.length + nonopts.length ≤ pos then pos - nonopts.length
            else pos + opts.length
          (pos, swapArgs pos (front.length + nonopts.length + i) argv))^[
            (nonopts.length + opts.length) / Nat.gcd nonopts.length opts.length]
          (front.length + nonopts.length + i, argv) : Nat × List α).2) argv
      (fun p => argv'[p]?) = exchangeBlocks (fun p => argv[p]?) front.length nonopts.length
        opts.length k ((nonopts.length + opts.length) / Nat.gcd nonopts.length opts.length) ∧
      argv'.length = argv.length := by
    induction k with
    | zero => exact ⟨rfl, rfl⟩
    | succ k ih =>
        obtain ⟨hSame, hKept⟩ := ih (Nat.le_of_succ_le hk)
        simp only [exchangeBlocks, List.range_succ, List.foldl_append, List.foldl_cons,
          List.foldl_nil] at hSame hKept ⊢
        rw [← hSame]
        generalize (List.range k).foldl _ argv = argv' at hKept
        have hCycle := hop_swapArgs front.length nonopts.length opts.length
          (hLength.trans_eq hKept.symm) (show _ ≤ front.length + nonopts.length + k by omega)
          (by omega) ((nonopts.length + opts.length) / Nat.gcd nonopts.length opts.length)
        exact ⟨hCycle.2.1, hCycle.2.2.1.trans hKept⟩
  obtain ⟨hDone, hKept⟩ := hCells _ le_rfl
  obtain ⟨hNon, hOpt, hRest⟩ := exchangeBlocks_spec (fun p => argv[p]?) hLeft hRight front.length
  rw [Option.some.injEq]
  apply List.ext_getElem?
  intro p
  rw [congrFun hDone p]
  obtain ⟨hFront, hNonopt, hOption, hTail⟩ := getElem?_blocks front nonopts opts rest
  obtain ⟨hFront', hOption', hNonopt', hTail'⟩ := getElem?_blocks front opts nonopts rest
  rw [hArgv] at hFront hNonopt hOption hTail
  rcases Nat.lt_or_ge p front.length with hp | hp
  · rw [hRest p (.inl hp), hFront p hp, hFront' p hp]
  obtain ⟨x, rfl⟩ := Nat.exists_eq_add_of_le hp
  rcases Nat.lt_or_ge x opts.length with hx | hx
  · rw [hOpt x hx, hOption x hx, hOption' x hx]
  obtain ⟨y, rfl⟩ := Nat.exists_eq_add_of_le hx
  rw [← Nat.add_assoc]
  rcases Nat.lt_or_ge y nonopts.length with hy | hy
  · rw [hNon y hy, hNonopt y hy, hNonopt' y hy]
  obtain ⟨z, rfl⟩ := Nat.exists_eq_add_of_le hy
  rw [hRest _ (.inr (by omega)), ← Nat.add_assoc, hTail', Nat.add_right_comm front.length, hTail]

end Permute

/-- What the caller and the environment decide. -/
structure Setup where
  options : List Char
  opterr : Bool
  /-- `IS_POSIXLY_CORRECT`. -/
  posixlyCorrect : Bool

namespace Setup

variable (o : Setup)

/-- `IGNORE_FIRST`. -/
def ignoreFirst : Bool := o.options.head? = some '-' || o.options.head? = some '+'

/-- `PRINT_ERROR`. -/
def printError : Bool :=
  o.opterr && (o.options.head? ≠ some ':' || (o.ignoreFirst && o.options[1]? ≠ some ':'))

/-- `PERMUTE`. -/
def permute : Bool := !o.posixlyCorrect && !o.ignoreFirst

/-- `IN_ORDER`. -/
def inOrder : Bool := !o.posixlyCorrect && o.options.head? = some '-'

/-- `BADARG`. -/
def badArg : Char :=
  if (o.ignoreFirst && o.options[1]? = some ':') || o.options.head? = some ':' then ':' else '?'

/-- `strchr` on the options: what stands behind the letter there. -/
def strchr (optchar : Char) : Option (List Char) :=
  match (o.options.drop (if o.ignoreFirst then 1 else 0)).dropWhile (· ≠ optchar) with
  | [] => none
  | _ :: oli => some oli

end Setup

/-- What `getopt` prints to `stderr`. -/
inductive Complaint where
  | recargchar (optchar : Char)
  | illoptchar (optchar : Char)
  deriving DecidableEq, Repr

def Complaint.text : Complaint → List Char
  | .recargchar optchar => "option requires an argument -- ".toList ++ [optchar]
  | .illoptchar optchar => "unknown option -- ".toList ++ [optchar]

/-- `nonopt_start` and `nonopt_end`: no argument has been skipped, all since `start` have, or
those from `start` to `stop` have, and options came after them. -/
inductive Skipped where
  | none
  | from (start : Nat)
  | block (start stop : Nat)
  deriving DecidableEq, Repr

/-- The first option after other arguments sets `nonopt_end`. -/
def Skipped.close (optind : Nat) : Skipped → Skipped
  | .from start => .block start optind
  | skipped => skipped

/-- The variables of `getopt_long.c` and the arguments. -/
structure Scanner where
  argv : List Arg
  optind : Nat
  optreset : Bool
  optarg : Option Arg
  optopt : Char
  place : List Char
  skipped : Skipped
  stderr : List Complaint

/-- Before the first call. -/
def Scanner.start (argv : List Arg) : Scanner := ⟨argv, 1, false, none, '?', [], .none, []⟩

/-- What a call returns: -1, -2, `INORDER`, or a character, which may be `BADCH` or `BADARG`. -/
inductive Ret where
  | finished
  | marker
  | inOrder
  | char (c : Char)
  deriving DecidableEq, Repr

variable (o : Setup)

/-- An error at an option character. -/
def Scanner.complain (complaint : Complaint) (optchar : Char) (s : Scanner) : Scanner :=
  { s with
    stderr := if o.printError then s.stderr ++ [complaint] else s.stderr
    optopt := optchar }

/-- `getopt_internal` at the end of the arguments. -/
def finish (s : Scanner) : Option (Ret × Scanner) :=
  let s := { s with place := [] }
  match s.skipped with
  | .block start stop =>
    (permuteArgs start stop s.optind s.argv).map fun argv =>
      (.finished, { s with argv, optind := s.optind - (stop - start), skipped := .none })
  | .from start => some (.finished, { s with optind := start, skipped := .none })
  | .none => some (.finished, s)

/-- What `getopt_internal` does from the label `start` on, as long as `place` is empty. Unless
it returns, it goes on with an option character. -/
def scan : Nat → Scanner → Option (Option Ret × Scanner)
  | 0, s => (finish s).map fun (ret, s) => (some ret, s)
  | fuel + 1, s =>
    match s.argv[s.optind]? with
    | none => (finish s).map fun (ret, s) => (some ret, s)
    | some ('-' :: c :: place) =>
      let skipped := s.skipped.close s.optind
      if c = '-' then some (some .marker, { s with skipped, place })
      else some (none, { s with skipped, place := c :: place })
    | some arg =>
      let s := { s with place := [] }
      if o.inOrder then
        some (some .inOrder, { s with optarg := some arg, optind := s.optind + 1 })
      else if !o.permute then some (some .finished, s)
      else
        match s.skipped with
        | .none => scan fuel { s with skipped := .from s.optind, optind := s.optind + 1 }
        | .from _ => scan fuel { s with optind := s.optind + 1 }
        | .block start stop =>
          (permuteArgs start stop s.optind s.argv).bind fun argv =>
            scan fuel
              { s with argv, skipped := .from (s.optind - (stop - start)), optind := s.optind + 1 }

/-- What `getopt_internal` does with an option character. `place` is never empty here. -/
def letter (s : Scanner) : Ret × Scanner :=
  match s.place with
  | [] => (.char '?', s)
  | optchar :: place =>
    let s := { s with place }
    match if optchar = ':' then none else o.strchr optchar with
    | none =>
      let s := if place = [] then { s with optind := s.optind + 1 } else s
      (.char '?', s.complain o (.illoptchar optchar) optchar)
    | some oli =>
      if optchar = 'W' ∧ oli.head? = some ';' then
        if place ≠ [] then (.marker, s)
        else
          let s := { s with optind := s.optind + 1 }
          match s.argv[s.optind]? with
          | none => (.char o.badArg,
              { s with place := [] }.complain o (.recargchar optchar) optchar)
          | some arg => (.marker, { s with place := arg })
      else if oli.head? ≠ some ':' then
        (.char optchar, if place = [] then { s with optind := s.optind + 1 } else s)
      else if place ≠ [] then
        (.char optchar, { s with optarg := some place, place := [], optind := s.optind + 1 })
      else if oli[1]? ≠ some ':' then
        let s := { s with optind := s.optind + 1 }
        match s.argv[s.optind]? with
        | none => (.char o.badArg,
            { s with optarg := none, place := [] }.complain o (.recargchar optchar) optchar)
        | some arg =>
          (.char optchar, { s with optarg := some arg, place := [], optind := s.optind + 1 })
      else
        (.char optchar, { s with optarg := none, place := [], optind := s.optind + 1 })

/-- Behind `scan`. -/
def resume : Option Ret × Scanner → Ret × Scanner
  | (some ret, s) => (ret, s)
  | (none, s) => letter o s

/-- `getopt_internal`, unless it divides by zero. -/
def getoptInternal (s : Scanner) : Option (Ret × Scanner) :=
  let s := { s with
    optarg := none
    optind := if s.optind = 0 then 1 else s.optind
    skipped := if s.optreset then .none else s.skipped }
  if s.optreset ∨ s.place = [] then
    (scan o (s.argv.length - s.optind) { s with optreset := false }).map (resume o)
  else some (letter o s)

/-- What `getopt` does when it is told of `--`. -/
def passMarker (s : Scanner) : Option (Ret × Scanner) :=
  let s := { s with optind := s.optind + 1 }
  match s.skipped with
  | .block start stop =>
    (permuteArgs start stop s.optind s.argv).map fun argv =>
      (.finished, { s with argv, optind := s.optind - (stop - start), skipped := .none })
  | _ => some (.finished, { s with skipped := .none })

/-- `getopt`, unless it divides by zero. -/
def getopt (s : Scanner) : Option (Ret × Scanner) :=
  (getoptInternal o s).bind fun
    | (.marker, s) => passMarker s
    | result => some result

/-- A call: what it returns and what `optarg` is then. -/
abbrev Call := Ret × Option Arg

/-- The calls of `while ((c = getopt(...)) != -1)`, and the variables at its end. -/
inductive Loop : Scanner → List Call → Scanner → Prop where
  | done {s s' : Scanner} (hCall : getopt o s = some (.finished, s')) : Loop s [] s'
  | more {s s' s'' : Scanner} {ret : Ret} {calls : List Call}
      (hCall : getopt o s = some (ret, s')) (hRet : ret ≠ .finished)
      (hRest : Loop s' calls s'') : Loop s ((ret, s'.optarg) :: calls) s''

/-- The same for so many calls at most. -/
def getoptAll : Nat → Scanner → Option (List Call × Scanner)
  | 0, _ => none
  | fuel + 1, s =>
    (getopt o s).bind fun
      | (.finished, s') => some ([], s')
      | (ret, s') => (getoptAll fuel s').map fun (calls, s'') => ((ret, s'.optarg) :: calls, s'')

/-- What an option character takes. -/
inductive Takes where
  | nothing
  | argument
  | argumentIfThere
  | long
  deriving DecidableEq, Repr

def Setup.takes (c : Char) : Option Takes :=
  (if c = ':' then none else o.strchr c).map fun oli =>
    if c = 'W' ∧ oli.head? = some ';' then .long
    else if oli.head? ≠ some ':' then .nothing
    else if oli[1]? ≠ some ':' then .argument
    else .argumentIfThere

/-- What one argument with options amounts to. -/
structure Cluster where
  calls : List Call
  takesNext : Bool
  ends : Bool

/-- The characters of an argument one by one. The last one may take the next argument. -/
def cluster (next : Option Arg) : List Char → Cluster
  | [] => ⟨[], false, false⟩
  | c :: place =>
    let later := cluster next place
    match o.takes c with
    | none => { later with calls := (.char '?', none) :: later.calls }
    | some .nothing => { later with calls := (.char c, none) :: later.calls }
    | some .argumentIfThere =>
      ⟨[(.char c, if place = [] then none else some place)], false, false⟩
    | some .argument =>
      if place ≠ [] then ⟨[(.char c, some place)], false, false⟩
      else match next with
        | some arg => ⟨[(.char c, some arg)], true, false⟩
        | none => ⟨[(.char o.badArg, none)], false, false⟩
    | some .long =>
      if place ≠ [] then ⟨[], false, true⟩
      else match next with
        | some _ => ⟨[], true, true⟩
        | none => ⟨[(.char o.badArg, none)], false, false⟩

/-- What the arguments amount to: the calls, the arguments that these have taken, and the
others. -/
structure Parsed where
  calls : List Call
  taken : List Arg
  left : List Arg

def Parsed.take (calls : List Call) (taken : List Arg) (p : Parsed) : Parsed :=
  ⟨calls ++ p.calls, taken ++ p.taken, p.left⟩

/-- The arguments from left to right, without moving any. -/
def parse : List Arg → Parsed
  | [] => ⟨[], [], []⟩
  | ('-' :: c :: place) :: rest =>
    if c = '-' then ⟨[], ['-' :: c :: place], rest⟩
    else
      let k := cluster o rest.head? (c :: place)
      match k.takesNext, rest with
      | true, next :: rest =>
        (if k.ends then ⟨[], [], rest⟩ else parse rest).take k.calls ['-' :: c :: place, next]
      | _, rest =>
        (if k.ends then ⟨[], [], rest⟩ else parse rest).take k.calls ['-' :: c :: place]
  | arg :: rest =>
    if o.inOrder then (parse rest).take [(.inOrder, some arg)] [arg]
    else if o.permute then { parse rest with left := arg :: (parse rest).left }
    else ⟨[], [], arg :: rest⟩

end Getopt

end Wackamole
