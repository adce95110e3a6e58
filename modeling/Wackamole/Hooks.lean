import Wackamole.Frame
import Wackamole.Runs

/-! The user hooks of `userloader.c` that `Acquire` and `Release` run. -/
namespace Wackamole

variable {n : Nat} {cfg : Config n} {svc : ServiceTypes}

/-- The loops of `Acquire` and `Release` over an entry: `pseudo_if` and `extra_ifs`, at
most `MAX_DEP_IF` interfaces in all, up to the first one without an address. -/
def interfaces (cfg : Config n) (extraIfs : Fin n → List Address) (i : Fin n) : List Address :=
  ((cfg.pseudoIf i :: extraIfs i).take maxDepIf).takeWhile fun addr => decide (addr ≠ 0#32)

inductive Hook where
  | onUp
  | onDown
  deriving DecidableEq, Repr

/-- The invocations of `execute_all_user` for an entry. `Acquire` has its call behind the
loop over the interfaces, `Release` has it inside. -/
def Act.hooks (cfg : Config n) (extraIfs : Fin n → List Address) (i : Fin n) : Act n → List Hook
  | .acquire j => if j = i then [.onUp] else []
  | .release j => if j = i then (interfaces cfg extraIfs i).map fun _ => .onDown else []
  | _ => []

/-- The hooks that a daemon has run for an entry, in order. -/
def Daemon.hooks (cfg : Config n) (extraIfs : Fin n → List Address) (i : Fin n) (d : Daemon n) :
    List Hook :=
  d.trace.reverse.flatMap (Act.hooks cfg extraIfs i)

def Hook.other : Hook → Hook
  | .onUp => .onDown
  | .onDown => .onUp

/-- The two hooks in turn, beginning with the given one. -/
def Alternates : Hook → List Hook → Prop
  | _, [] => True
  | next, hook :: hooks => hook = next ∧ Alternates next.other hooks

/-- The daemon in which a call has returned or ended. -/
def Run.last : Run n → Daemon n
  | .ok d => d
  | .error halted => halted.last

namespace Run

theorem last_bind {P : Daemon n → Prop} {r : Run n} {f : Daemon n → Run n} (hr : P (last r))
    (hf : ∀ d, P d → P (last (f d))) : P (last (r >>= f)) := by
  cases r with
  | error halted => exact hr
  | ok d => exact hf d hr

theorem last_map {P : Daemon n → Prop} {r : Run n} {f : Daemon n → Daemon n} (hr : P (last r))
    (hf : ∀ d, P d → P (f d)) : P (last (r.map f)) := by
  cases r with
  | error halted => exact hr
  | ok d => exact hf d hr

end Run

open Run

/-- Everything that was in the trace is still in it, behind what was added. -/
def Logs (log : List (Act n)) (d : Daemon n) : Prop := log <:+ d.trace

section Logs

variable {log : List (Act n)}

theorem Logs.cons {d d' : Daemon n} {act : Act n} (h : Logs log d)
    (hTrace : d'.trace = act :: d.trace) : Logs log d' := by
  rw [Logs, hTrace]
  exact h.trans (List.suffix_cons act d.trace)

theorem logs_stable (log : List (Act n)) : Stable (Logs log) where
  acquire _ _ h := h.cons rfl
  release _ _ h := h.cons rfl
  reup _ _ h := h.cons rfl
  setAllocation _ _ _ h := h
  setOld _ _ _ h := h
  members _ _ h := h
  automaton _ _ _ _ _ h := h
  queueBalance _ h := h
  dequeueMature _ h := h
  mess _ _ h := h

theorem cleanUp_logs {d : Daemon n} (h : Logs log d) : Logs log (cleanUp d) := by
  rw [cleanUp_eq]
  exact h.trans (List.suffix_append _ _)

theorem spreadReconnect_logs {ret : Int} {c : Connection} {d : Daemon n} (h : Logs log d) :
    Logs log (last (spreadReconnect ret c d)) := by
  by_cases hCode : acceptedCode ret
  · obtain ⟨d', hEq, hReconnected, _⟩ := spreadReconnect_accepted hCode c d
    rw [hEq, Logs, last, hReconnected.trace]
    exact h.trans (List.suffix_append _ _)
  · rw [spreadReconnect_rejected hCode]
    exact h

theorem multicast_logs {messType : Int} {words : List Word} {mc : Multicast} {d : Daemon n}
    (h : Logs log d) : Logs log (last (multicast messType words mc d)) := by
  have hRecord : Logs log (d.record (.multicast messType words mc.ret)) := h.cons rfl
  unfold multicast
  dsimp only
  split_ifs
  · exact spreadReconnect_logs hRecord
  · exact hRecord

theorem handleMembership_logs {mc : Multicast} {d : Daemon n} (h : Logs log d) :
    Logs log (last (handleMembership cfg mc d)) := by
  by_cases hSender : d.sender = cfg.spreadGroup
  · by_cases hCount : Accountable cfg d
    · rw [handleMembership_accountable hSender hCount]
      exact last_map (multicast_logs (d := announcing cfg d) h) fun _ h => h
    · rw [handleMembership_unaccountable hSender hCount]
      exact h
  · rw [handleMembership_stranger hSender]
    exact cleanUp_logs h

theorem dispatch_logs {ret : Int} {a : Answers} {d : Daemon n} (h : Logs log d) :
    Logs log (last (dispatch svc cfg ret a d)) := by
  unfold dispatch
  split_ifs
  · exact last_bind (handleMembership_logs (h.cons rfl)) fun d h =>
      multicast_logs (d := d.write a.arps) h
  · exact h
  · exact cleanUp_logs (h.cons rfl)
  · exact (logs_stable log).handleRegular cfg (fun _ _ h => h.cons rfl) h
  · exact h

theorem balance_logs {mc : Multicast} {d : Daemon n} (h : Logs log d) :
    Logs log (last (balance cfg mc d)) := by
  have hLeave {d : Daemon n} (h : Logs log d) : Logs log (balanceLeave cfg d) := by
    unfold balanceLeave
    split_ifs <;> exact h
  unfold balance
  split_ifs
  · exact hLeave h
  · exact h
  · cases balanceMess cfg d with
    | none => exact hLeave (d := { d with state := .run }) h
    | some m =>
        have hSent : Logs log ({ d with state := .balance }.write m.words) := h
        refine last_bind (multicast_logs hSent) fun d' h' => ?_
        have hRun : Logs log { d' with state := .run } := h'
        exact hLeave hRun

theorem step_logs {d : Daemon n} {e : Event} (h : Logs log d) :
    Logs log (last (step svc cfg d e)) := by
  cases e with
  | network r a =>
      cases r with
      | message m => exact dispatch_logs (d := d.load m) h
      | failed ret => exact last_bind (spreadReconnect_logs h) fun _ h => dispatch_logs h
  | turnMature mc => exact multicast_logs (d := d.dequeue .turnMature) h
  | balance mc => exact balance_logs (d := d.dequeue .balance) h
  | spreadReconnect c => exact spreadReconnect_logs (d := d.dequeue .spreadReconnect) h
  | sendLocalArpCache arps mc =>
      exact multicast_logs (d := (d.dequeue .sendLocalArpCache).write arps) h
  | command command c =>
      cases command with
      | failure =>
          have hDown : Logs log (cleanUp { d with spreadLock := true, mbox := -1 }) :=
            cleanUp_logs h
          change Logs log (last (spreadReconnect (-8) c _))
          exact spreadReconnect_logs hDown
      | success =>
          have hSame : Logs log { d with spreadLock := false } := h
          change Logs log (last (spreadReconnect (-8) c _))
          exact spreadReconnect_logs hSame
  | signal => exact cleanUp_logs h

theorem handleEvents_logs {es : List Event} {d : Daemon n} (h : Logs log d) :
    Logs log (last (handleEvents svc cfg es d)) := by
  induction es generalizing d with
  | nil => exact h
  | cons e es ih =>
      rw [handleEvents, List.foldlM_cons]
      exact last_bind (step_logs h) fun _ h => ih h

end Logs

/-- `Clean_up` of the first `Spread_reconnect` releases every entry. -/
theorem startUp_logs (c : Connection) (arps : List Word) (mc : Multicast) :
    Logs ((List.finRange n).map .release).reverse (last (startUp (n := n) c arps mc)) := by
  have hCode : acceptedCode (-8) := .inl rfl
  obtain ⟨d, hEq, hReconnected, _⟩ := spreadReconnect_accepted hCode c (Daemon.initial n)
  have hReleased : Logs ((List.finRange n).map .release).reverse d := by
    rw [Logs, hReconnected.trace, Daemon.initial, List.append_nil]
  rw [startUp, hEq]
  change Logs _ (last (sendLocalArpCache arps mc d >>= _))
  exact last_bind (multicast_logs (d := d.write arps) hReleased) fun _ h => h

/-- The releases of `Clean_up`, for the hooks of one entry. -/
theorem hooks_releases (extraIfs : Fin n → List Address) (i : Fin n) :
    ((List.finRange n).map Act.release).flatMap (Act.hooks cfg extraIfs i) =
      (interfaces cfg extraIfs i).map fun _ => .onDown := by
  have hList (l : List (Fin n)) (hl : l.Nodup) :
      (l.map Act.release).flatMap (Act.hooks cfg extraIfs i) =
        if i ∈ l then (interfaces cfg extraIfs i).map fun _ => .onDown else [] := by
    induction l with
    | nil => rfl
    | cons j l ih =>
        obtain ⟨hj, hl⟩ := List.nodup_cons.mp hl
        rw [List.map_cons, List.flatMap_cons, ih hl, Act.hooks]
        by_cases hi : j = i
        · subst hi
          simp [hj]
        · simp [hi, Ne.symm hi]
  rw [hList _ (List.nodup_finRange n), if_pos (List.mem_finRange i)]

/-- In no run from start-up do the hooks of an entry with a head address alternate: the
first hook of every run is ON_DOWN. -/
theorem run_not_alternates (svc : ServiceTypes) (cfg : Config n)
    (extraIfs : Fin n → List Address) (c : Connection) (arps : List Word) (mc : Multicast)
    (es : List Event) {i : Fin n} (hHead : cfg.pseudoIf i ≠ 0#32) :
    ¬ Alternates .onUp
      ((last (startUp c arps mc >>= handleEvents svc cfg es)).hooks cfg extraIfs i) := by
  have hLogs : Logs ((List.finRange n).map .release).reverse
      (last (startUp c arps mc >>= handleEvents svc cfg es)) :=
    last_bind (startUp_logs c arps mc) fun d h => handleEvents_logs h
  obtain ⟨later, hTrace⟩ := hLogs
  rw [Daemon.hooks, ← hTrace, List.reverse_append, List.reverse_reverse, List.flatMap_append,
    hooks_releases]
  have hFirst : interfaces cfg extraIfs i =
      cfg.pseudoIf i :: (interfaces cfg extraIfs i).tail := by
    simp [interfaces, hHead]
  rw [hFirst]
  rintro ⟨hDown, _⟩
  cases hDown

/-- A daemon that is alone matures, acquires its interface and is ended by a signal. -/
def alone : List Event :=
  let a : Answers := ⟨⟨true, 3, 0⟩, .success, [], .success⟩
  let regular (messType : Int) (words : List Word) : Event :=
    .network (.message ⟨0x10, "#wack1#a", 1, messType, false, words⟩) a
  let state : StateMess := ⟨⟨1#32, 0#32, 0#32⟩, 1#32, 0, 0, 0, [], []⟩
  [.network (.message ⟨0x1000, "wack1", 1, 0, false, [1#32, 0#32, 0#32]⟩) a,
    regular stateMessType state.words, regular maturingMessType [], .signal]

theorem alone_not_alternates :
    let cfg : Config 1 := ⟨![10#32], [], 1#32, "wack1", 0, false, true⟩
    ¬ Alternates .onUp ((last (startUp ⟨true, 3, 0⟩ [] .success >>=
      handleEvents spreadTypes cfg alone)).hooks cfg (fun _ => [11#32]) 0) :=
  run_not_alternates spreadTypes _ _ _ _ _ _ (by decide)

/-- Two of its hooks run before anything is up, and the interface with two addresses
goes down once and is announced twice. -/
theorem alone_hooks :
    let cfg : Config 1 := ⟨![10#32], [], 1#32, "wack1", 0, false, true⟩
    let hooks := (last (startUp ⟨true, 3, 0⟩ [] .success >>=
      handleEvents spreadTypes cfg alone)).hooks cfg (fun _ => [11#32]) 0
    hooks = [.onDown, .onDown, .onUp, .onDown, .onDown] ∧ ¬ Alternates .onUp hooks := by
  intro cfg hooks
  have hHooks : hooks = [.onDown, .onDown, .onUp, .onDown, .onDown] := by decide +kernel
  refine ⟨hHooks, ?_⟩
  rw [hHooks]
  rintro ⟨hDown, _⟩
  cases hDown

end Wackamole
