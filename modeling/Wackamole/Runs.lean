import Wackamole.Network

/-! Runs of the event loop from start-up, event by event. -/
namespace Wackamole

variable {n : Nat} {cfg : Config n} {svc : ServiceTypes}

/-- The event loop over some events. -/
def handleEvents (svc : ServiceTypes) (cfg : Config n) (es : List Event) (d : Daemon n) : Run n :=
  es.foldlM (step svc cfg) d

theorem handleEvents_snoc {es : List Event} {e : Event} {d d' : Daemon n} :
    handleEvents svc cfg (es ++ [e]) d = .ok d' ↔
      ∃ d₁, handleEvents svc cfg es d = .ok d₁ ∧ step svc cfg d₁ e = .ok d' := by
  rw [handleEvents, List.foldlM_append]
  simp only [List.foldlM_cons, List.foldlM_nil, bind_pure]
  exact Run.bind_ok

/-- The connection attempt of a start-up, and the share of the ARP cache after it. -/
theorem startUp_ok {c : Connection} {arps : List Word} {mc : Multicast} {d : Daemon n}
    (h : startUp c arps mc = .ok d) :
    ∃ d₁ d₂, spreadReconnect (-8) c (Daemon.initial n) = .ok d₁ ∧
      multicast arpcacheMessType arps mc (d₁.write arps) = .ok d₂ ∧
      d = d₂.queue .sendLocalArpCache := by
  unfold startUp at h
  obtain ⟨d₁, hConnect, hRest⟩ := Run.bind_ok.mp h
  obtain ⟨d₂, hShare, hQueued⟩ := Run.bind_ok.mp hRest
  exact ⟨d₁, d₂, hConnect, hShare, (Except.ok.inj hQueued).symm⟩

/-- What holds of every event of a run holds of its first event and of all after it. -/
theorem forall_event_cons {P : Daemon n → Event → Prop} {e : Event} {es : List Event}
    {d : Daemon n} :
    (∀ before e' after, e :: es = before ++ e' :: after →
      ∀ d', handleEvents svc cfg before d = .ok d' → P d' e') ↔
    P d e ∧ ∀ d₁, step svc cfg d e = .ok d₁ → ∀ before e' after, es = before ++ e' :: after →
      ∀ d', handleEvents svc cfg before d₁ = .ok d' → P d' e' := by
  constructor
  · refine fun h => ⟨h [] e es rfl d rfl, fun d₁ hStep before e' after hEq d' hBefore => ?_⟩
    refine h (e :: before) e' after (by rw [hEq]; rfl) d' ?_
    rw [handleEvents, List.foldlM_cons, hStep]
    exact hBefore
  · rintro ⟨hFirst, hRest⟩ before e' after hEq d' hBefore
    cases before with
    | nil =>
        cases hEq
        cases hBefore
        exact hFirst
    | cons e₀ before =>
        cases hEq
        rw [handleEvents, List.foldlM_cons] at hBefore
        obtain ⟨d₁, hStep, hAfter⟩ := Run.bind_ok.mp hBefore
        exact hRest d₁ hStep before e' after rfl d' hAfter

/-- A property that an event keeps exactly under a condition holds in every state of a
run exactly when all events of the run that return meet the condition. -/
theorem handleEvents_iff {P : Daemon n → Prop} {Q : Daemon n → Event → Prop}
    (hStep : ∀ d d' e, step svc cfg d e = .ok d' → P d → (P d' ↔ Q d e)) {d₀ : Daemon n}
    (hStart : P d₀) {es : List Event} :
    (∀ before after, es = before ++ after →
      ∀ d, handleEvents svc cfg before d₀ = .ok d → P d) ↔
    ∀ before e after, es = before ++ e :: after → ∀ d d',
      handleEvents svc cfg before d₀ = .ok d → step svc cfg d e = .ok d' → Q d e := by
  constructor
  · intro h before e after hEq d d' hBefore hLast
    have hd := h before (e :: after) hEq d hBefore
    have hd' := h (before ++ [e]) after (by rw [hEq]; simp) d'
      (handleEvents_snoc.mpr ⟨d, hBefore, hLast⟩)
    exact (hStep d d' e hLast hd).mp hd'
  · intro hEvents before
    induction before using List.reverseRecOn with
    | nil =>
        rintro after - d ⟨⟩
        exact hStart
    | append_singleton before e ih =>
        intro after hEq d hRun
        obtain ⟨d₁, hBefore, hLast⟩ := handleEvents_snoc.mp hRun
        have hSplit : es = before ++ e :: after := by rw [hEq]; simp
        exact (hStep d₁ d e hLast (ih (e :: after) hSplit d₁ hBefore)).mpr
          (hEvents before e after hSplit d₁ d hBefore hLast)

end Wackamole
