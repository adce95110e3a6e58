import Wackamole.Getopt

/-! The calls of `getopt` until it returns -1, on any arguments: they find what stands there
from left to right, and leave the other arguments behind the options, both in their order. -/
namespace Wackamole

namespace Getopt

/-- Between two calls: the arguments up to `optind` are options, then other arguments, then
options again. The two blocks stand where `nonopt_start` and `nonopt_end` say. -/
structure Laid (prog : Arg) (s : Scanner) (done left since rest : List Arg) : Prop where
  argv : s.argv = (prog :: done) ++ left ++ since ++ rest
  optind : s.optind = (prog :: done).length + left.length + since.length
  optreset : s.optreset = false
  skipped : match s.skipped with
    | .none => left = [] ∧ since = []
    | .from start => start = (prog :: done).length ∧ left ≠ [] ∧ since = []
    | .block start stop => start = (prog :: done).length ∧
      stop = (prog :: done).length + left.length ∧ left ≠ []

/-- No option is half read: a block of other arguments has options behind it. -/
def Scanner.Whole (s : Scanner) (since : List Arg) : Prop :=
  s.place = [] ∧ ∀ start stop, s.skipped = .block start stop → since ≠ []

/-- An option is half read. -/
def Scanner.Partial (s : Scanner) : Prop := ∀ start, s.skipped ≠ .from start

/-- The end of the scan. -/
structure Ended (prog : Arg) (s : Scanner) (taken left : List Arg) : Prop where
  argv : s.argv = prog :: (taken ++ left)
  optind : s.optind = taken.length + 1

variable {o : Setup} {prog : Arg} {s s' : Scanner} {done left since rest : List Arg}

theorem Laid.start (prog : Arg) (args : List Arg) :
    Laid prog (.start (prog :: args)) [] [] [] args :=
  ⟨rfl, rfl, rfl, rfl, rfl⟩

theorem Laid.getElem?_optind (h : Laid prog s done left since rest) :
    s.argv[s.optind]? = rest.head? := by
  rw [h.argv, h.optind, ← List.length_append, ← List.length_append, List.getElem?_append_right
    le_rfl, Nat.sub_self, List.head?_eq_getElem?]

theorem Laid.length_sub (h : Laid prog s done left since rest) :
    s.argv.length - s.optind = rest.length := by
  rw [h.argv, h.optind]
  simp only [List.length_append]
  omega

/-- The blocks change places. -/
theorem Laid.permuted (h : Laid prog s done left since rest) {start stop : Nat}
    (hBlock : s.skipped = .block start stop) (hSince : since ≠ []) :
    permuteArgs start stop s.optind s.argv = some ((prog :: done) ++ since ++ left ++ rest) ∧
      s.optind - (stop - start) = (prog :: done).length + since.length := by
  have hSkipped := h.skipped
  rw [hBlock] at hSkipped
  obtain ⟨rfl, rfl, hLeft⟩ := hSkipped
  refine ⟨?_, ?_⟩
  · rw [h.argv, h.optind]
    exact permuteArgs_eq rest hLeft hSince
  · rw [h.optind]
    omega

theorem ended_of_argv {taken left : List Arg} (hArgv : s.argv = (prog :: done) ++ since ++ left)
    (hOptind : s.optind = (prog :: done).length + since.length) (hTaken : taken = done ++ since) :
    Ended prog s taken left := by
  subst hTaken
  refine ⟨by simp [hArgv], ?_⟩
  rw [hOptind, List.length_append, List.length_cons]
  omega

/-- The end of the arguments. -/
theorem Laid.finish (h : Laid prog s done left since []) (hWhole : s.Whole since) :
    ∃ s', finish s = some (.finished, s') ∧ Ended prog s' (done ++ since) left := by
  have hSkipped := h.skipped
  unfold Getopt.finish
  cases hCase : s.skipped with
  | none =>
      rw [hCase] at hSkipped
      obtain ⟨rfl, rfl⟩ := hSkipped
      refine ⟨_, rfl, ended_of_argv ?_ ?_ rfl⟩
      · simpa using h.argv
      · simpa using h.optind
  | «from» start =>
      rw [hCase] at hSkipped
      obtain ⟨rfl, hLeft, rfl⟩ := hSkipped
      refine ⟨_, rfl, ended_of_argv ?_ rfl rfl⟩
      simpa using h.argv
  | block start stop =>
      obtain ⟨hArgv, hOptind⟩ := h.permuted hCase (hWhole.2 start stop hCase)
      simp only [hArgv, Option.map_some]
      refine ⟨_, rfl, ended_of_argv ?_ hOptind rfl⟩
      simp

/-- Options have been read. -/
theorem Laid.take {x : List Arg} (h : Laid prog s done left since (x ++ rest)) (s' : Scanner)
    (hx : x ≠ []) (hPartial : s.Partial) (hArgv : s'.argv = s.argv)
    (hOptind : s'.optind = s.optind + x.length) (hReset : s'.optreset = s.optreset)
    (hSame : s'.skipped = s.skipped) :
    ∃ done' since', done' ++ since' = done ++ since ++ x ∧ Laid prog s' done' left since' rest ∧
      ∀ start stop, s'.skipped = .block start stop → since' ≠ [] := by
  have hSkipped := h.skipped
  cases hCase : s.skipped with
  | none =>
      rw [hCase] at hSkipped
      obtain ⟨rfl, rfl⟩ := hSkipped
      refine ⟨done ++ x, [], by simp, ⟨?_, ?_, hReset.trans h.optreset, ?_⟩, ?_⟩
      · simp [hArgv, h.argv]
      · rw [hOptind, h.optind]
        simp
        omega
      · rw [hSame, hCase]
        exact ⟨rfl, rfl⟩
      · intro start stop hBlock
        rw [hSame, hCase] at hBlock
        cases hBlock
  | «from» start => exact absurd hCase (hPartial start)
  | block start stop =>
      rw [hCase] at hSkipped
      refine ⟨done, since ++ x, by simp, ⟨?_, ?_, hReset.trans h.optreset, ?_⟩, ?_⟩
      · simp [hArgv, h.argv]
      · rw [hOptind, h.optind]
        simp
        omega
      · rw [hSame, hCase]
        exact hSkipped
      · intro _ _ _
        simp [hx]

/-- Behind `--`, or behind `-W` and what belongs to it. -/
theorem Laid.passMarker {x : List Arg} (h : Laid prog s done left since (x ++ rest)) (hx : x ≠ [])
    (hPartial : s.Partial) (hArgv : s'.argv = s.argv) (hOptind : s'.optind + 1 = s.optind + x.length)
    (hReset : s'.optreset = s.optreset) (hSame : s'.skipped = s.skipped) :
    ∃ s'', passMarker s' = some (.finished, s'') ∧
      Ended prog s'' (done ++ since ++ x) (left ++ rest) := by
  obtain ⟨done', since', hTaken, hLaid, hSince⟩ :=
    h.take { s' with optind := s'.optind + 1 } hx hPartial hArgv hOptind hReset hSame
  rw [← hTaken]
  have hSkipped := hLaid.skipped
  unfold Getopt.passMarker
  cases hCase : s'.skipped with
  | none =>
      simp only [hCase] at hSkipped
      obtain ⟨rfl, rfl⟩ := hSkipped
      refine ⟨_, rfl, ended_of_argv ?_ ?_ rfl⟩
      · simpa using hLaid.argv
      · simpa using hLaid.optind
  | «from» start => exact absurd (hSame.symm.trans hCase) (hPartial start)
  | block start stop =>
      obtain ⟨hBlocks, hBack⟩ := hLaid.permuted hCase (hSince start stop hCase)
      simp only at hBlocks hBack
      simp only [hBlocks, Option.map_some]
      refine ⟨_, rfl, ended_of_argv ?_ hBack rfl⟩
      simp

theorem scan_other {arg : Arg} (fuel : Nat) (hHead : s.argv[s.optind]? = some arg)
    (hArg : ∀ c place, arg ≠ '-' :: c :: place) :
    scan o (fuel + 1) s =
      if o.inOrder then some (some .inOrder,
        { s with place := [], optarg := some arg, optind := s.optind + 1 })
      else if !o.permute then some (some .finished, { s with place := [] })
      else match s.skipped with
        | .none => scan o fuel
            { s with place := [], skipped := .from s.optind, optind := s.optind + 1 }
        | .from _ => scan o fuel { s with place := [], optind := s.optind + 1 }
        | .block start stop =>
          (permuteArgs start stop s.optind s.argv).bind fun argv =>
            scan o fuel
              { s with
                place := [], argv, skipped := .from (s.optind - (stop - start))
                optind := s.optind + 1 } := by
  rw [scan, hHead]
  split
  · contradiction
  · rename_i c place hEq
    exact absurd (Option.some.inj hEq) (hArg c place)
  · rename_i hEq
    cases hEq
    rfl

theorem scan_option {c : Char} {place : List Char} (fuel : Nat)
    (hHead : s.argv[s.optind]? = some ('-' :: c :: place)) :
    scan o (fuel + 1) s =
      if c = '-' then some (some .marker, { s with skipped := s.skipped.close s.optind, place })
      else some (none, { s with skipped := s.skipped.close s.optind, place := c :: place }) := by
  rw [scan, hHead]
  rfl

/-- Another argument has been skipped. -/
theorem Laid.skip {arg : Arg} (h : Laid prog s done left since (arg :: rest))
    (hWhole : s.Whole since) (fuel : Nat) (hOrder : o.inOrder = false)
    (hPermute : o.permute = true) (hArg : ∀ c place, arg ≠ '-' :: c :: place) :
    ∃ s', scan o (fuel + 1) s = scan o fuel s' ∧
      Laid prog s' (done ++ since) (left ++ [arg]) [] rest ∧ s'.Whole [] ∧
      s'.optarg = s.optarg := by
  have hSkipped := h.skipped
  rw [scan_other fuel h.getElem?_optind hArg, hOrder, hPermute]
  simp only [Bool.false_eq_true, if_false, Bool.not_true]
  cases hCase : s.skipped with
  | none =>
      rw [hCase] at hSkipped
      obtain ⟨rfl, rfl⟩ := hSkipped
      refine ⟨_, rfl, ⟨?_, ?_, h.optreset, ?_⟩, ⟨rfl, nofun⟩, rfl⟩
      · simp [h.argv]
      · simp [h.optind]
      · simp [h.optind]
  | «from» start =>
      rw [hCase] at hSkipped
      obtain ⟨rfl, hLeft, rfl⟩ := hSkipped
      refine ⟨_, rfl, ⟨?_, ?_, h.optreset, ?_⟩, ⟨rfl, ?_⟩, rfl⟩
      · simp [h.argv]
      · simp [h.optind]
        omega
      · simp
      · intro start stop hBlock
        simp at hBlock
  | block start stop =>
      obtain ⟨hArgv, hOptind⟩ := h.permuted hCase (hWhole.2 start stop hCase)
      simp only [hArgv, Option.bind_some]
      refine ⟨_, rfl, ⟨?_, ?_, h.optreset, ?_⟩, ⟨rfl, nofun⟩, rfl⟩
      · simp
      · simp [h.optind]
        omega
      · simp [hOptind]
        omega

/-- An option comes after what has been skipped. -/
theorem Laid.close (h : Laid prog s done left since rest) (s' : Scanner) (hArgv : s'.argv = s.argv)
    (hOptind : s'.optind = s.optind) (hReset : s'.optreset = s.optreset)
    (hSkip : s'.skipped = s.skipped.close s.optind) :
    Laid prog s' done left since rest ∧ s'.Partial := by
  have hSkipped := h.skipped
  refine ⟨⟨hArgv.trans h.argv, hOptind.trans h.optind, hReset.trans h.optreset, ?_⟩, ?_⟩
  · rw [hSkip]
    cases hCase : s.skipped with
    | none =>
        rw [hCase] at hSkipped
        exact hSkipped
    | «from» start =>
        rw [hCase] at hSkipped
        obtain ⟨rfl, hLeft, rfl⟩ := hSkipped
        exact ⟨rfl, h.optind, hLeft⟩
    | block start stop =>
        rw [hCase] at hSkipped
        exact hSkipped
  · intro start hFrom
    rw [hSkip] at hFrom
    cases hCase : s.skipped <;> rw [hCase] at hFrom <;> cases hFrom

/-- A call has gone on in the argument, or to one of the next arguments. -/
structure Reads (s s' : Scanner) (place : List Char) (k : Nat) : Prop where
  argv : s'.argv = s.argv
  optind : s'.optind = s.optind + k
  optreset : s'.optreset = s.optreset
  skipped : s'.skipped = s.skipped
  place : s'.place = place

theorem Reads.of_optarg {optarg : Option Arg} {place : List Char} {k : Nat}
    (h : Reads { s with optarg := optarg } s' place k) : Reads s s' place k :=
  ⟨h.argv, h.optind, h.optreset, h.skipped, h.place⟩

/-- A character takes the next argument, if there is one. -/
def TakesNext (o : Setup) (s : Scanner) (c : Char) : Option Arg → Prop
  | some arg => ∃ s', letter o s = (.char c, s') ∧ s'.optarg = some arg ∧ Reads s s' [] 2
  | none => ∃ s', letter o s = (.char o.badArg, s') ∧ s'.optarg = none ∧ Reads s s' [] 1

/-- `-W` takes it. -/
def TakesLong (o : Setup) (s : Scanner) : Option Arg → Prop
  | some arg => ∃ s', letter o s = (.marker, s') ∧ Reads s s' arg 1
  | none => ∃ s', letter o s = (.char o.badArg, s') ∧ s'.optarg = s.optarg ∧ Reads s s' [] 1

/-- What the call for a character does, by what that takes. -/
def LetterTakes (o : Setup) (s : Scanner) (c : Char) (place : List Char) : Option Takes → Prop
  | none => ∃ s', letter o s = (.char '?', s') ∧ s'.optarg = s.optarg ∧
      Reads s s' place (if place = [] then 1 else 0)
  | some .nothing => ∃ s', letter o s = (.char c, s') ∧ s'.optarg = s.optarg ∧
      Reads s s' place (if place = [] then 1 else 0)
  | some .argumentIfThere => ∃ s', letter o s = (.char c, s') ∧
      s'.optarg = (if place = [] then none else some place) ∧ Reads s s' [] 1
  | some .argument =>
    if place ≠ [] then ∃ s', letter o s = (.char c, s') ∧ s'.optarg = some place ∧ Reads s s' [] 1
    else TakesNext o s c s.argv[s.optind + 1]?
  | some .long =>
    if place ≠ [] then ∃ s', letter o s = (.marker, s') ∧ Reads s s' place 0
    else TakesLong o s s.argv[s.optind + 1]?

theorem letter_takes {c : Char} {place : List Char} (hPlace : s.place = c :: place) :
    LetterTakes o s c place (o.takes c) := by
  cases hFound : if c = ':' then none else o.strchr c with
  | none =>
      have hTakes : o.takes c = none := by rw [Setup.takes, hFound, Option.map_none]
      rw [hTakes]
      simp only [LetterTakes, letter, hPlace, hFound]
      refine ⟨_, rfl, ?_, ?_⟩
      · split_ifs <;> rfl
      · split_ifs <;> exact ⟨rfl, rfl, rfl, rfl, rfl⟩
  | some oli =>
      by_cases hLong : c = 'W' ∧ oli.head? = some ';'
      · have hTakes : o.takes c = some .long := by
          rw [Setup.takes, hFound, Option.map_some, if_pos hLong]
        rw [hTakes]
        simp only [LetterTakes, TakesLong, letter, hPlace, hFound, if_pos hLong]
        by_cases hMore : place ≠ []
        · simp only [if_pos hMore]
          exact ⟨_, rfl, rfl, rfl, rfl, rfl, rfl⟩
        · simp only [if_neg hMore]
          cases s.argv[s.optind + 1]? with
          | none => exact ⟨_, rfl, rfl, rfl, rfl, rfl, rfl, rfl⟩
          | some arg => exact ⟨_, rfl, rfl, rfl, rfl, rfl, rfl⟩
      by_cases hNothing : oli.head? ≠ some ':'
      · have hTakes : o.takes c = some .nothing := by
          rw [Setup.takes, hFound, Option.map_some, if_neg hLong, if_pos hNothing]
        rw [hTakes]
        simp only [LetterTakes, letter, hPlace, hFound, if_neg hLong, if_pos hNothing]
        refine ⟨_, rfl, ?_, ?_⟩
        · split_ifs <;> rfl
        · split_ifs <;> exact ⟨rfl, rfl, rfl, rfl, rfl⟩
      by_cases hNeeded : oli[1]? ≠ some ':'
      · have hTakes : o.takes c = some .argument := by
          rw [Setup.takes, hFound, Option.map_some, if_neg hLong, if_neg hNothing,
            if_pos hNeeded]
        rw [hTakes]
        simp only [LetterTakes, TakesNext, letter, hPlace, hFound, if_neg hLong, if_neg hNothing,
          if_pos hNeeded]
        by_cases hMore : place ≠ []
        · simp only [if_pos hMore]
          exact ⟨_, rfl, rfl, rfl, rfl, rfl, rfl, rfl⟩
        · simp only [if_neg hMore]
          cases s.argv[s.optind + 1]? with
          | none => exact ⟨_, rfl, rfl, rfl, rfl, rfl, rfl, rfl⟩
          | some arg => exact ⟨_, rfl, rfl, rfl, rfl, rfl, rfl, rfl⟩
      · have hTakes : o.takes c = some .argumentIfThere := by
          rw [Setup.takes, hFound, Option.map_some, if_neg hLong, if_neg hNothing,
            if_neg hNeeded]
        rw [hTakes]
        simp only [LetterTakes, letter, hPlace, hFound, if_neg hLong, if_neg hNothing,
          if_neg hNeeded]
        by_cases hMore : place ≠ []
        · simp only [if_pos hMore]
          exact ⟨_, rfl, (if_neg hMore).symm, rfl, rfl, rfl, rfl, rfl⟩
        · simp only [if_neg hMore]
          exact ⟨_, rfl, (if_pos (not_not.mp hMore)).symm, rfl, rfl, rfl, rfl, rfl⟩

/-- In the middle of an argument, the call reads the next character. -/
theorem getoptInternal_partial (hPlace : s.place ≠ []) (hReset : s.optreset = false)
    (hOptind : s.optind ≠ 0) : getoptInternal o s = some (letter o { s with optarg := none }) := by
  simp [getoptInternal, hPlace, hReset, hOptind]

/-- From here the loop makes these calls. Then it has ended, or it goes on behind these
arguments. -/
def Reached (o : Setup) (prog : Arg) (s : Scanner) (calls : List Call) (ends : Bool)
    (done left since x rest : List Arg) : Prop :=
  if ends then ∃ s', Loop o s calls s' ∧ Ended prog s' (done ++ since ++ x) (left ++ rest)
  else ∃ s₁ done' since', done' ++ since' = done ++ since ++ x ∧
    Laid prog s₁ done' left since' rest ∧ s₁.Whole since' ∧
    ∀ calls' s', Loop o s₁ calls' s' → Loop o s (calls ++ calls') s'

section Reached

variable {x : List Arg} {calls : List Call} {ends : Bool} {ret : Ret} {arg : Option Arg}

theorem Reached.more (hCall : getopt o s = some (ret, s')) (hRet : ret ≠ .finished)
    (hArg : s'.optarg = arg) (h : Reached o prog s' calls ends done left since x rest) :
    Reached o prog s ((ret, arg) :: calls) ends done left since x rest := by
  subst hArg
  cases ends with
  | true =>
      obtain ⟨s'', hLoop, hEnded⟩ := h
      exact ⟨s'', .more hCall hRet hLoop, hEnded⟩
  | false =>
      obtain ⟨s₁, done', since', hTaken, hLaid, hWhole, hNext⟩ := h
      exact ⟨s₁, done', since', hTaken, hLaid, hWhole, fun calls' s'' hLoop =>
        .more hCall hRet (hNext calls' s'' hLoop)⟩

variable (hLaid : Laid prog s done left since (x ++ rest)) (hx : x ≠ []) (hPartial : s.Partial)

include hLaid hx hPartial

/-- The last call for an argument. -/
theorem reached_whole (hCall : getopt o s = some (ret, s')) (hRet : ret ≠ .finished)
    (hArg : s'.optarg = arg) (hReads : Reads s s' [] x.length) :
    Reached o prog s [(ret, arg)] false done left since x rest := by
  subst hArg
  obtain ⟨done', since', hTaken, hLaid', hSince⟩ :=
    hLaid.take _ hx hPartial hReads.argv hReads.optind hReads.optreset hReads.skipped
  exact ⟨s', done', since', hTaken, hLaid', ⟨hReads.place, hSince⟩, fun calls' s'' hLoop =>
    .more hCall hRet hLoop⟩

theorem reached_marker {place : List Char} {k : Nat} (hLong : getopt o s = passMarker s')
    (hReads : Reads s s' place k) (hk : k + 1 = x.length) :
    Reached o prog s [] true done left since x rest := by
  have hOptind : s'.optind + 1 = s.optind + x.length := by
    rw [hReads.optind, ← hk, Nat.add_assoc]
  obtain ⟨s'', hPass, hEnded⟩ :=
    hLaid.passMarker hx hPartial hReads.argv hOptind hReads.optreset hReads.skipped
  exact ⟨s'', .done (hLong.trans hPass), hEnded⟩

end Reached

/-- The arguments that an argument with options takes, and the ones behind them. -/
def consumed (arg : Arg) : Bool → List Arg → List Arg × List Arg
  | true, next :: rest => ([arg, next], rest)
  | _, rest => ([arg], rest)

theorem consumed_false (arg : Arg) (rest : List Arg) : consumed arg false rest = ([arg], rest) := by
  cases rest <;> rfl

theorem Laid.getElem?_next {arg : Arg} (h : Laid prog s done left since (arg :: rest)) :
    s.argv[s.optind + 1]? = rest.head? := by
  have hArgv : s.argv = ((prog :: done) ++ left ++ since ++ [arg]) ++ rest := by simp [h.argv]
  have hOptind : s.optind + 1 = ((prog :: done) ++ left ++ since ++ [arg]).length := by
    rw [h.optind]
    simp only [List.length_append, List.length_singleton]
  rw [hArgv, hOptind, List.getElem?_append_right le_rfl, Nat.sub_self, List.head?_eq_getElem?]

theorem Laid.reads {place : List Char} (h : Laid prog s done left since rest)
    (hPartial : s.Partial) (hReads : Reads s s' place 0) :
    Laid prog s' done left since rest ∧ s'.Partial := by
  refine ⟨⟨hReads.argv.trans h.argv, hReads.optind.trans h.optind,
    hReads.optreset.trans h.optreset, ?_⟩, fun start => ?_⟩
  · rw [hReads.skipped]
    exact h.skipped
  · rw [hReads.skipped]
    exact hPartial start

section Cluster

variable {arg : Arg} {c : Char} {place : List Char}

theorem char_ne_finished (c : Char) : Ret.char c ≠ .finished := fun h => by cases h

/-- The characters of an argument from one of them on. -/
def FromHere (o : Setup) (prog : Arg) (s : Scanner) (done left since : List Arg) (arg : Arg)
    (rest : List Arg) (k : Cluster) : Prop :=
  Reached o prog s k.calls k.ends done left since (consumed arg k.takesNext rest).1
    (consumed arg k.takesNext rest).2

/-- One character, if the characters behind it are read as they should be. -/
theorem cluster_step (hPlace : s.place = c :: place)
    (hLaid : Laid prog s done left since (arg :: rest)) (hPartial : s.Partial)
    (hMore : ∀ s', place ≠ [] → s'.place = place → Laid prog s' done left since (arg :: rest) →
      s'.Partial → FromHere o prog s' done left since arg rest (cluster o rest.head? place)) :
    FromHere o prog s done left since arg rest (cluster o rest.head? (c :: place)) := by
  have hOptind : s.optind ≠ 0 := by
    rw [hLaid.optind, List.length_cons]
    omega
  have hInternal : getoptInternal o s = some (letter o { s with optarg := none }) :=
    getoptInternal_partial (by rw [hPlace]; exact List.cons_ne_nil _ _) hLaid.optreset hOptind
  have hLetter := letter_takes (o := o) (s := { s with optarg := none }) hPlace
  have hNext := hLaid.getElem?_next
  have hChar {c : Char} {s' : Scanner} (hEq : letter o { s with optarg := none } = (.char c, s')) :
      getopt o s = some (.char c, s') := by
    rw [getopt, hInternal, hEq]
    rfl
  have hMarker {s' : Scanner} (hEq : letter o { s with optarg := none } = (.marker, s')) :
      getopt o s = passMarker s' := by
    rw [getopt, hInternal, hEq]
    rfl
  have hSingle : Laid prog s done left since ([arg] ++ rest) := hLaid
  have hLast {c : Char} {optarg : Option Arg} {s' : Scanner}
      (hEq : letter o { s with optarg := none } = (.char c, s')) (hArg : s'.optarg = optarg)
      (hReads : Reads s s' [] 1) : Reached o prog s [(.char c, optarg)] false done left since
        [arg] rest :=
    reached_whole hSingle (List.cons_ne_nil _ _) hPartial (hChar hEq) (char_ne_finished _) hArg
      hReads
  have hSkips {c : Char} {s' : Scanner} (hEq : letter o { s with optarg := none } = (.char c, s'))
      (hArg : s'.optarg = none) (hReads : Reads s s' place (if place = [] then 1 else 0)) :
      FromHere o prog s done left since arg rest { cluster o rest.head? place with
        calls := (.char c, none) :: (cluster o rest.head? place).calls } := by
    by_cases hEnd : place = []
    · subst hEnd
      have hNone : cluster o rest.head? [] = ⟨[], false, false⟩ := rfl
      simp only [FromHere, hNone, consumed_false]
      exact hLast hEq hArg hReads
    · rw [if_neg hEnd] at hReads
      obtain ⟨hLaid', hPartial'⟩ := hLaid.reads hPartial hReads
      exact (hMore s' hEnd hReads.place hLaid' hPartial').more (hChar hEq) (char_ne_finished _) hArg
  cases hTakes : o.takes c with
  | none =>
      rw [hTakes] at hLetter
      simp only [cluster, hTakes]
      obtain ⟨s', hEq, hArg, hReads⟩ := hLetter
      exact hSkips hEq hArg hReads.of_optarg
  | some takes =>
      cases takes with
      | nothing =>
          rw [hTakes] at hLetter
          simp only [cluster, hTakes]
          obtain ⟨s', hEq, hArg, hReads⟩ := hLetter
          exact hSkips hEq hArg hReads.of_optarg
      | argumentIfThere =>
          rw [hTakes] at hLetter
          simp only [cluster, hTakes, FromHere, consumed_false]
          obtain ⟨s', hEq, hArg, hReads⟩ := hLetter
          exact hLast hEq hArg hReads.of_optarg
      | argument =>
          rw [hTakes] at hLetter
          simp only [cluster, hTakes]
          by_cases hHere : place ≠ []
          · rw [LetterTakes, if_pos hHere] at hLetter
            simp only [if_pos hHere, FromHere, consumed_false]
            obtain ⟨s', hEq, hArg, hReads⟩ := hLetter
            exact hLast hEq hArg hReads.of_optarg
          rw [LetterTakes, if_neg hHere, hNext] at hLetter
          simp only [if_neg hHere]
          cases rest with
          | nil =>
              obtain ⟨s', hEq, hArg, hReads⟩ := hLetter
              exact hLast hEq hArg hReads.of_optarg
          | cons next rest =>
              obtain ⟨s', hEq, hArg, hReads⟩ := hLetter
              have hPair : Laid prog s done left since ([arg, next] ++ rest) := hLaid
              exact reached_whole hPair (List.cons_ne_nil _ _) hPartial (hChar hEq)
                (char_ne_finished _) hArg hReads.of_optarg
      | long =>
          rw [hTakes] at hLetter
          simp only [cluster, hTakes]
          by_cases hHere : place ≠ []
          · rw [LetterTakes, if_pos hHere] at hLetter
            simp only [if_pos hHere, FromHere, consumed_false]
            obtain ⟨s', hEq, hReads⟩ := hLetter
            exact reached_marker hSingle (List.cons_ne_nil _ _) hPartial (hMarker hEq)
              hReads.of_optarg rfl
          rw [LetterTakes, if_neg hHere, hNext] at hLetter
          simp only [if_neg hHere]
          cases rest with
          | nil =>
              obtain ⟨s', hEq, hArg, hReads⟩ := hLetter
              exact hLast hEq hArg hReads.of_optarg
          | cons next rest =>
              obtain ⟨s', hEq, hReads⟩ := hLetter
              have hPair : Laid prog s done left since ([arg, next] ++ rest) := hLaid
              exact reached_marker hPair (List.cons_ne_nil _ _) hPartial (hMarker hEq)
                hReads.of_optarg rfl

/-- All characters of an argument. -/
theorem cluster_reached (hPlace : s.place = place) (hSome : place ≠ [])
    (hLaid : Laid prog s done left since (arg :: rest)) (hPartial : s.Partial) :
    FromHere o prog s done left since arg rest (cluster o rest.head? place) := by
  induction place generalizing s with
  | nil => exact absurd rfl hSome
  | cons c place ih =>
      exact cluster_step hPlace hLaid hPartial fun s' hMore hPlace' hLaid' hPartial' =>
        ih hPlace' hMore hLaid' hPartial'

end Cluster

theorem parse_option {c : Char} (hc : c ≠ '-') (place : List Char) (rest : List Arg) :
    parse o (('-' :: c :: place) :: rest) =
      let k := cluster o rest.head? (c :: place)
      let after := consumed ('-' :: c :: place) k.takesNext rest
      (if k.ends then ⟨[], [], after.2⟩ else parse o after.2).take k.calls after.1 := by
  rw [parse, if_neg hc]
  dsimp only
  generalize cluster o rest.head? (c :: place) = k
  obtain ⟨calls, takesNext, ends⟩ := k
  cases takesNext <;> cases rest <;> rfl

theorem parse_other {arg : Arg} (hArg : ∀ c place, arg ≠ '-' :: c :: place) (rest : List Arg) :
    parse o (arg :: rest) =
      if o.inOrder then (parse o rest).take [(.inOrder, some arg)] [arg]
      else if o.permute then { parse o rest with left := arg :: (parse o rest).left }
      else ⟨[], [], arg :: rest⟩ := by
  rw [parse.eq_def]
  split
  · contradiction
  · rename_i c place rest hEq
    cases hEq
    exact absurd rfl (hArg c place)
  · rename_i hEq
    cases hEq
    rfl

theorem Setup.permute_of_inOrder (h : o.inOrder = true) : o.permute = false := by
  simp only [Setup.inOrder, Setup.permute, Setup.ignoreFirst, Bool.and_eq_true] at h ⊢
  simp [of_decide_eq_true h.2]

/-- Between two arguments, the call looks at the next one. -/
theorem getoptInternal_whole (hPlace : s.place = []) (hReset : s.optreset = false)
    (hOptind : s.optind ≠ 0) :
    getoptInternal o s = (scan o (s.argv.length - s.optind) { s with optarg := none }).map
      (resume o) := by
  obtain ⟨argv, optind, optreset, optarg, optopt, place, skipped, stderr⟩ := s
  subst hPlace hReset
  simp only [getoptInternal, if_neg hOptind, Bool.false_eq_true, if_false, or_true, if_true]

theorem Loop.congr {calls : List Call} {s'' : Scanner} (hSame : getopt o s = getopt o s')
    (h : Loop o s' calls s'') : Loop o s calls s'' := by
  cases h with
  | done hCall => exact .done (hSame.trans hCall)
  | more hCall hRet hRest => exact .more (hSame.trans hCall) hRet hRest

theorem Laid.none_of_nil (h : Laid prog s done left since rest) (hLeft : left = []) :
    s.skipped = .none := by
  have hSkipped := h.skipped
  cases hCase : s.skipped with
  | none => rfl
  | «from» start =>
      rw [hCase] at hSkipped
      exact absurd hLeft hSkipped.2.1
  | block start stop =>
      rw [hCase] at hSkipped
      exact absurd hLeft hSkipped.2.2

theorem Laid.optarg (h : Laid prog s done left since rest) (optarg : Option Arg) :
    Laid prog { s with optarg := optarg } done left since rest :=
  ⟨h.argv, h.optind, h.optreset, h.skipped⟩

theorem Laid.optind_ne_zero (h : Laid prog s done left since rest) : s.optind ≠ 0 := by
  rw [h.optind, List.length_cons]
  omega

/-- The first call from between two arguments. -/
theorem Laid.getoptInternal (h : Laid prog s done left since rest) (hWhole : s.Whole since) :
    getoptInternal o s = (scan o rest.length { s with optarg := none }).map
      (resume o) := by
  rw [getoptInternal_whole hWhole.1 h.optreset h.optind_ne_zero, h.length_sub]

section Next

variable {arg : Arg} (h : Laid prog s done left since (arg :: rest)) (hWhole : s.Whole since)

include h hWhole

/-- `IN_ORDER`: the argument is returned. -/
theorem Laid.inOrder (hLeft : left = []) (hOrder : o.inOrder = true)
    (hArg : ∀ c place, arg ≠ '-' :: c :: place) :
    ∃ s₁ done' since', getopt o s = some (.inOrder, s₁) ∧ s₁.optarg = some arg ∧
      done' ++ since' = done ++ since ++ [arg] ∧ Laid prog s₁ done' left since' rest ∧
      s₁.Whole since' := by
  have hScan := scan_other (o := o) rest.length (h.optarg none).getElem?_optind hArg
  rw [if_pos hOrder] at hScan
  have hPartial : s.Partial := fun start hFrom => by
    rw [h.none_of_nil hLeft] at hFrom
    cases hFrom
  have hSingle : Laid prog s done left since ([arg] ++ rest) := h
  obtain ⟨done', since', hTaken, hLaid, hSince⟩ := hSingle.take
    { s with place := [], optarg := some arg, optind := s.optind + 1 }
    (List.cons_ne_nil _ _) hPartial rfl rfl rfl rfl
  refine ⟨_, done', since', ?_, ?_, hTaken, hLaid, rfl, hSince⟩
  · rw [getopt, h.getoptInternal hWhole, List.length_cons, hScan]
    rfl
  · rfl

/-- `PERMUTE`: the argument is skipped. -/
theorem Laid.permute (hOrder : o.inOrder = false) (hPermute : o.permute = true)
    (hArg : ∀ c place, arg ≠ '-' :: c :: place) :
    ∃ s₁, getopt o s = getopt o s₁ ∧ Laid prog s₁ (done ++ since) (left ++ [arg]) [] rest ∧
      s₁.Whole [] := by
  obtain ⟨s₁, hScan, hLaid, hWhole₁, hOptarg⟩ :=
    (h.optarg none).skip hWhole rest.length hOrder hPermute hArg
  have hSame : { s₁ with optarg := none } = s₁ := by
    obtain ⟨argv, optind, optreset, optarg, optopt, place, skipped, stderr⟩ := s₁
    subst hOptarg
    rfl
  refine ⟨s₁, ?_, hLaid, hWhole₁⟩
  rw [getopt, getopt, h.getoptInternal hWhole, hLaid.getoptInternal hWhole₁, List.length_cons,
    hScan, hSame]

/-- Neither: the scan ends before the argument. -/
theorem Laid.stop (hLeft : left = []) (hOrder : o.inOrder = false) (hPermute : o.permute = false)
    (hArg : ∀ c place, arg ≠ '-' :: c :: place) :
    ∃ s', getopt o s = some (.finished, s') ∧ Ended prog s' (done ++ since) (arg :: rest) := by
  have hScan := scan_other (o := o) rest.length (h.optarg none).getElem?_optind hArg
  rw [hOrder, hPermute, if_neg Bool.false_ne_true, Bool.not_false, if_pos rfl] at hScan
  have hSkipped := h.skipped
  rw [h.none_of_nil hLeft] at hSkipped
  obtain ⟨rfl, rfl⟩ := hSkipped
  refine ⟨_, ?_, ended_of_argv (s := { s with place := [], optarg := none }) ?_ ?_ rfl⟩
  · rw [getopt, h.getoptInternal hWhole, List.length_cons, hScan]
    rfl
  · simpa using h.argv
  · simpa using h.optind

end Next

section Option

variable {c : Char} {place : List Char}
  (h : Laid prog s done left since (('-' :: c :: place) :: rest)) (hWhole : s.Whole since)

include h hWhole

/-- An argument with options. -/
theorem Laid.option (hc : c ≠ '-') :
    ∃ s₂, getopt o s = getopt o s₂ ∧ s₂.place = c :: place ∧
      Laid prog s₂ done left since (('-' :: c :: place) :: rest) ∧ s₂.Partial := by
  have hScan := scan_option (o := o) rest.length (h.optarg none).getElem?_optind
  rw [if_neg hc] at hScan
  obtain ⟨hLaid, hPartial⟩ := h.close { s with
    optarg := none, skipped := s.skipped.close s.optind, place := c :: place } rfl rfl rfl rfl
  refine ⟨_, ?_, rfl, hLaid, hPartial⟩
  rw [getopt, getopt, h.getoptInternal hWhole, List.length_cons, hScan,
    getoptInternal_partial (List.cons_ne_nil _ _) hLaid.optreset hLaid.optind_ne_zero]
  rfl

/-- `--`, alone or with more behind it. -/
theorem Laid.dashes (hc : c = '-') :
    ∃ s', getopt o s = some (.finished, s') ∧
      Ended prog s' (done ++ since ++ ['-' :: c :: place]) (left ++ rest) := by
  have hScan := scan_option (o := o) rest.length (h.optarg none).getElem?_optind
  rw [if_pos hc] at hScan
  obtain ⟨hLaid, hPartial⟩ := h.close { s with
    optarg := none, skipped := s.skipped.close s.optind, place } rfl rfl rfl rfl
  have hSingle : Laid prog { s with
      optarg := none, skipped := s.skipped.close s.optind, place } done left since
      (['-' :: c :: place] ++ rest) := hLaid
  obtain ⟨s', hPass, hEnded⟩ := hSingle.passMarker (List.cons_ne_nil _ _) hPartial rfl rfl rfl rfl
  refine ⟨s', ?_, hEnded⟩
  rw [← hPass, getopt, h.getoptInternal hWhole, List.length_cons, hScan]
  rfl

end Option

/-- The loop from between two arguments on. -/
theorem Laid.loop (h : Laid prog s done left since rest) (hWhole : s.Whole since)
    (hMode : o.permute = false → left = []) :
    ∃ s', Loop o s (parse o rest).calls s' ∧
      Ended prog s' (done ++ since ++ (parse o rest).taken) (left ++ (parse o rest).left) := by
  induction hLength : rest.length using Nat.strong_induction_on
    generalizing s done left since rest with
  | _ length ih =>
    subst hLength
    cases rest with
    | nil =>
        obtain ⟨s', hFinish, hEnded⟩ := (h.optarg none).finish hWhole
        refine ⟨s', .done ?_, by simpa [parse] using hEnded⟩
        rw [getopt, h.getoptInternal hWhole, List.length_nil, scan, hFinish]
        rfl
    | cons arg rest =>
        have hShorter : rest.length < (arg :: rest).length := Nat.lt_succ_self _
        by_cases hArg : ∀ c place, arg ≠ '-' :: c :: place
        · rw [parse_other hArg]
          by_cases hOrder : o.inOrder = true
          · rw [if_pos hOrder]
            have hLeft := hMode (Setup.permute_of_inOrder hOrder)
            obtain ⟨s₁, done', since', hCall, hOptarg, hTaken, hLaid, hWhole₁⟩ :=
              h.inOrder hWhole hLeft hOrder hArg
            obtain ⟨s', hLoop, hEnded⟩ := ih _ hShorter hLaid hWhole₁ hMode rfl
            rw [hTaken, List.append_assoc] at hEnded
            have hMore := Loop.more hCall nofun hLoop
            rw [hOptarg] at hMore
            exact ⟨s', hMore, hEnded⟩
          rw [if_neg hOrder]
          rw [Bool.not_eq_true] at hOrder
          by_cases hPermute : o.permute = true
          · rw [if_pos hPermute]
            obtain ⟨s₁, hSame, hLaid, hWhole₁⟩ := h.permute hWhole hOrder hPermute hArg
            obtain ⟨s', hLoop, hEnded⟩ := ih _ hShorter hLaid hWhole₁ (fun hNot => by
              rw [hPermute] at hNot
              cases hNot) rfl
            rw [List.append_nil, List.append_assoc left] at hEnded
            exact ⟨s', hLoop.congr hSame, hEnded⟩
          · rw [if_neg hPermute]
            rw [Bool.not_eq_true] at hPermute
            have hLeft := hMode hPermute
            obtain ⟨s', hCall, hEnded⟩ := h.stop hWhole hLeft hOrder hPermute hArg
            rw [hLeft, List.append_nil]
            exact ⟨s', .done hCall, hEnded⟩
        · push Not at hArg
          obtain ⟨c, place, rfl⟩ := hArg
          by_cases hc : c = '-'
          · rw [parse, if_pos hc]
            obtain ⟨s', hCall, hEnded⟩ := h.dashes hWhole hc
            exact ⟨s', .done hCall, hEnded⟩
          obtain ⟨s₂, hSame, hPlace, hLaid₂, hPartial⟩ := h.option hWhole hc
          have hReached := cluster_reached (o := o) hPlace (List.cons_ne_nil _ _) hLaid₂ hPartial
          rw [parse_option hc]
          generalize cluster o rest.head? (c :: place) = k at hReached
          obtain ⟨calls, takesNext, ends⟩ := k
          dsimp only [FromHere] at hReached ⊢
          have hBehind : (consumed ('-' :: c :: place) takesNext rest).2.length <
              (('-' :: c :: place) :: rest).length := by
            cases takesNext <;> cases rest <;> simp only [consumed, List.length_cons] <;> omega
          generalize consumed ('-' :: c :: place) takesNext rest = after at hReached hBehind ⊢
          cases ends with
          | true =>
              obtain ⟨s', hLoop, hEnded⟩ := hReached
              refine ⟨s', ?_, ?_⟩
              · simpa [Parsed.take] using hLoop.congr hSame
              · simpa [Parsed.take] using hEnded
          | false =>
              obtain ⟨s₁, done', since', hTaken, hLaid, hWhole₁, hNext⟩ := hReached
              obtain ⟨s', hLoop, hEnded⟩ := ih _ hBehind hLaid hWhole₁ hMode rfl
              rw [hTaken, List.append_assoc] at hEnded
              exact ⟨s', (hNext _ s' hLoop).congr hSame, hEnded⟩

theorem Loop.getoptAll {calls : List Call} (h : Loop o s calls s') :
    getoptAll o (calls.length + 1) s = some (calls, s') := by
  induction h with
  | done hCall => simp [Getopt.getoptAll, hCall]
  | @more s s' s'' ret calls hCall hRet hRest ih =>
      rw [Getopt.getoptAll, hCall, Option.bind_some]
      cases ret with
      | finished => exact absurd rfl hRet
      | marker => simp [ih]
      | inOrder => simp [ih]
      | char c => simp [ih]

theorem loop_parse (o : Setup) (prog : Arg) (args : List Arg) :
    ∃ s, Loop o (.start (prog :: args)) (parse o args).calls s ∧
      Ended prog s (parse o args).taken (parse o args).left :=
  (Laid.start prog args).loop ⟨rfl, nofun⟩ fun _ => rfl

/-- The loop over `getopt` ends, on any arguments and for any options, without a division by
zero. It finds what stands there from left to right; then the arguments are those that it has
taken, in their order, and behind them, where `optind` points, the others in theirs. -/
theorem getoptAll_parse (o : Setup) (prog : Arg) (args : List Arg) :
    ∃ s, getoptAll o ((parse o args).calls.length + 1) (.start (prog :: args)) =
        some ((parse o args).calls, s) ∧
      s.argv = prog :: ((parse o args).taken ++ (parse o args).left) ∧
      s.optind = (parse o args).taken.length + 1 := by
  obtain ⟨s, hLoop, hEnded⟩ := loop_parse o prog args
  exact ⟨s, hLoop.getoptAll, hEnded.argv, hEnded.optind⟩

end Getopt

end Wackamole
