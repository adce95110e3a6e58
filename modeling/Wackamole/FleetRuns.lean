import Wackamole.FleetViews

/-! Every run of the hosts: whatever the order of the steps, a host that has handled `k`
messages of a view is where the ledger of these messages is. -/
namespace Wackamole

variable {hosts n : Nat}

namespace Fleet

/-- The message that a host handles next. -/
def due (s : Fleet hosts n) (i : Fin hosts) : Option Delivery :=
  match s.place i with
  | some (v, k) => ((s.views v).bind fun view => view.log[k]?).bind Parcel.delivery?
  | none => none

/-- No view interrupts a gather in which the host has lost track of an address that it has
up; no BALANCE message gives a host what it has, unless the build repairs it; and a lost
connection does not handle a message once more that matters to a new one. -/
def Legal (cfg : Fin hosts → Config n) (s : Fleet hosts n) : Action hosts → Prop
  | .enter i _ _ => (s.daemon i).state = .gather →
    ∀ j ∈ (s.daemon i).up, ((s.daemon i).oldTable j).realIf = (cfg i).realIf
  | .handle i =>
    match s.due i with
    | some (.balance moves) => (s.daemon i).state = .run → (cfg i).needsForceReup = true ∨
      ∀ j, ((cfg i).realIf, (cfg i).pseudoIf j) ∈ moves →
        ((s.daemon i).allocationTable j).realIf ≠ (cfg i).realIf
    | _ => True
  | .act i e => e.Mild (s.daemon i)
  | _ => True

/-- Every step is legal where it is taken. -/
def LegalFrom (cfg : Fin hosts → Config n) (s : Fleet hosts n) : List (Action hosts) → Prop
  | [] => True
  | action :: rest => s.Legal cfg action ∧ LegalFrom cfg (next cfg s action) rest

def LegalRun (cfg : Fin hosts → Config n) (actions : List (Action hosts)) : Prop :=
  LegalFrom cfg initial actions

variable (vip : Fin n → Address) (cfg : Fin hosts → Config n)

/-- A host that is in a view is where the ledger of what it has handled is. -/
def Follows (entry : Fin hosts → Daemon n) (views : Nat → Option (GroupView hosts))
    (i : Fin hosts) (v k : Nat) (d : Daemon n) : Prop :=
  ∃ view, views v = some view ∧ i ∈ view.entered ∧ k ≤ view.log.length ∧
    Wackamole.Follows (cfg i) (view.addr cfg) (entry i) (view.ledger cfg vip k) d

/-- A host follows its view, has ended, or has nothing if it has a connection. -/
def HostInv (entry : Nat → Fin hosts → Daemon n) (s : Fleet hosts n) (i : Fin hosts) : Prop :=
  match s.place i with
  | none => s.ended i = none → (s.daemon i).Reset
  | some (v, k) => s.ended i = none ∧ Follows vip cfg (entry v) s.views i v k (s.daemon i)

/-- What holds at all times, of some of the hosts. `entry` is how each member has entered
each view. -/
structure Inv (entry : Nat → Fin hosts → Daemon n) (here : Fin hosts → Prop)
    (s : Fleet hosts n) : Prop where
  view : ∀ v view, s.views v = some view → view.Inv cfg (entry v)
  host : ∀ i, here i → HostInv vip cfg entry s i
  ended : ∀ i ending, s.ended i = some ending → ending = .exit
  stray : ∀ parcel ∈ s.stray, parcel.1 = maturingMessType ∨ parcel.1 = arpcacheMessType

variable {vip cfg} {entry entry' : Nat → Fin hosts → Daemon n} {s s' : Fleet hosts n}
  {i : Fin hosts}

theorem Follows.grow {views views' : Nat → Option (GroupView hosts)} {v k : Nat} {d : Daemon n}
    (hGrows : ∀ view, views v = some view → ∃ view', views' v = some view' ∧ view.Grows view')
    (hEntry : entry' v i = entry v i) (h : Follows vip cfg (entry v) views i v k d) :
    Follows vip cfg (entry' v) views' i v k d := by
  obtain ⟨view, hView, hEntered, hLength, hFollows⟩ := h
  obtain ⟨view', hView', hMembers, _, hSub, hLog⟩ := hGrows view hView
  obtain ⟨rest, hLog⟩ := hLog
  refine ⟨view', hView', hSub hEntered, ?_, ?_⟩
  · rw [← hLog, List.length_append]
    omega
  · obtain ⟨gid', members', entered', sent', log', shared'⟩ := view'
    obtain rfl : members' = view.members := hMembers
    rw [hEntry]
    have hLedger : GroupView.ledger cfg ⟨gid', view.members, entered', sent', log', shared'⟩ vip k =
        view.ledger cfg vip k := by
      obtain rfl : view.log ++ rest = log' := hLog
      rw [GroupView.ledger, GroupView.ledger, List.take_append_of_le_length hLength]
      rfl
    rw [hLedger]
    exact hFollows

theorem HostInv.grow (hPlace : s'.place i = s.place i) (hEnded : s'.ended i = s.ended i)
    (hDaemon : s'.daemon i = s.daemon i)
    (hGrows : ∀ v view, s.views v = some view →
      ∃ view', s'.views v = some view' ∧ view.Grows view')
    (hEntry : ∀ v k, s.place i = some (v, k) → entry' v i = entry v i)
    (h : HostInv vip cfg entry s i) : HostInv vip cfg entry' s' i := by
  unfold HostInv at h ⊢
  rw [hPlace, hEnded, hDaemon]
  cases hp : s.place i with
  | none =>
      rw [hp] at h
      exact h
  | some at' =>
      obtain ⟨v, k⟩ := at'
      rw [hp] at h
      exact ⟨h.1, h.2.grow (hGrows v) (hEntry v k hp)⟩

theorem posted_grows (here : Option (Nat × Nat)) (new : List Parcel) {v : Nat}
    {view : GroupView hosts} (hView : s.views v = some view) :
    ∃ view', s.posted here new v = some view' ∧ view.Grows view' := by
  unfold posted
  cases here with
  | none => exact ⟨view, hView, .refl view⟩
  | some at' =>
      by_cases hv : v = at'.1
      · subst hv
        refine ⟨view.carry new, ?_, rfl, rfl, Finset.Subset.refl _, List.prefix_rfl⟩
        · dsimp only
          rw [Function.update_self, hView]
          rfl
      · refine ⟨view, ?_, .refl view⟩
        dsimp only
        rw [Function.update_of_ne hv, hView]

theorem perform_of_ok {e : Event} {here : Option (Nat × Nat)} {new : List Parcel}
    {d' : Daemon n} (hPosts : Posts (s.daemon i) (step spreadTypes (cfg i) (s.daemon i) e) new)
    (hStep : step spreadTypes (cfg i) (s.daemon i) e = .ok d') :
    perform cfg i e here s =
      { daemon := Function.update s.daemon i d'
        place := Function.update s.place i
          (if e.calls spreadTypes (cfg i) (s.daemon i) = [] then here else none)
        ended := s.ended
        views := s.posted here new
        stray := s.strayed here (s.daemon i).mbox new } := by
  have hNew := hPosts.parcels
  rw [hStep] at hNew
  have hDrop : (Run.last (.ok d')).parcels.drop (s.daemon i).parcels.length = new := by
    rw [hNew, List.drop_left]
  simp only [perform, hStep, hDrop]

theorem perform_of_error {e : Event} {here : Option (Nat × Nat)} {new : List Parcel}
    {halted : Halted n}
    (hPosts : Posts (s.daemon i) (step spreadTypes (cfg i) (s.daemon i) e) new)
    (hStep : step spreadTypes (cfg i) (s.daemon i) e = .error halted) :
    perform cfg i e here s =
      { daemon := Function.update s.daemon i halted.last
        place := Function.update s.place i none
        ended := Function.update s.ended i (some halted.ending)
        views := s.posted here new
        stray := s.strayed here (s.daemon i).mbox new } := by
  have hNew := hPosts.parcels
  rw [hStep] at hNew
  have hDrop : (Run.last (.error halted)).parcels.drop (s.daemon i).parcels.length = new := by
    rw [hNew, List.drop_left]
  simp only [perform, hStep, hDrop]

/-- What is multicast outside of the views. -/
theorem Inv.strayed {here : Fin hosts → Prop} (h : Inv vip cfg entry here s)
    (place : Option (Nat × Nat)) (mbox : Int) (new : List Parcel) :
    ∀ parcel ∈ s.strayed place mbox new,
      parcel.1 = maturingMessType ∨ parcel.1 = arpcacheMessType := by
  intro parcel hMem
  rw [Fleet.strayed] at hMem
  split_ifs at hMem
  · rcases List.mem_append.mp hMem with hOld | hNew
    · exact h.stray parcel hOld
    · exact of_decide_eq_true (List.mem_filter.mp hNew).2
  · exact h.stray parcel hMem

/-- A call at one host, if its multicasts may come and it leaves the daemon where the host
then is. -/
theorem Inv.perform (h : Inv vip cfg entry (· ≠ i) s) {e : Event} {here : Option (Nat × Nat)}
    {new : List Parcel} (hEnded : s.ended i = none)
    (hPosts : Posts (s.daemon i) (step spreadTypes (cfg i) (s.daemon i) e) new)
    (hView : ∀ v k view, here = some (v, k) → s.views v = some view →
      (view.carry new).Inv cfg (entry v))
    (hStay : ∀ d', step spreadTypes (cfg i) (s.daemon i) e = .ok d' →
      e.calls spreadTypes (cfg i) (s.daemon i) = [] →
      match here with
      | none => d'.Reset
      | some (v, k) => Follows vip cfg (entry v) s.views i v k d')
    (hLeave : ∀ d', step spreadTypes (cfg i) (s.daemon i) e = .ok d' →
      e.calls spreadTypes (cfg i) (s.daemon i) ≠ [] → d'.Reset) :
    Inv vip cfg entry (fun _ => True) (perform cfg i e here s) := by
  have hViews : ∀ v view, s.posted here new v = some view → view.Inv cfg (entry v) := by
    intro v view hv
    unfold posted at hv
    cases here with
    | none => exact h.view v view hv
    | some at' =>
        by_cases hSame : v = at'.1
        · subst hSame
          dsimp only at hv
          rw [Function.update_self, Option.map_eq_some_iff] at hv
          obtain ⟨view, hBefore, rfl⟩ := hv
          exact hView _ at'.2 view rfl hBefore
        · dsimp only at hv
          rw [Function.update_of_ne hSame] at hv
          exact h.view v view hv
  have hGrows (v : Nat) (view : GroupView hosts) (hv : s.views v = some view) :=
    posted_grows here new hv
  have hStray := h.strayed here (s.daemon i).mbox new
  cases hStep : step spreadTypes (cfg i) (s.daemon i) e with
  | ok d' =>
      rw [perform_of_ok hPosts hStep]
      refine ⟨hViews, fun i' _ => ?_, h.ended, hStray⟩
      by_cases hi : i' = i
      · subst hi
        unfold HostInv
        simp only [Function.update_self]
        split_ifs with hCalls
        · have hNow := hStay d' hStep hCalls
          cases here with
          | none => exact fun _ => hNow
          | some at' => exact ⟨hEnded, hNow.grow (hGrows _) rfl⟩
        · exact fun _ => hLeave d' hStep hCalls
      · exact (h.host i' hi).grow (Function.update_of_ne hi _ _) rfl (Function.update_of_ne hi _ _)
          hGrows fun _ _ _ => rfl
  | error halted =>
      rw [perform_of_error hPosts hStep]
      refine ⟨hViews, fun i' _ => ?_, fun i' ending hEnding => ?_, hStray⟩
      · by_cases hi : i' = i
        · subst hi
          unfold HostInv
          simp only [Function.update_self]
          exact fun hNever => by cases hNever
        · exact (h.host i' hi).grow (Function.update_of_ne hi _ _) (Function.update_of_ne hi _ _)
            (Function.update_of_ne hi _ _) hGrows fun _ _ _ => rfl
      · by_cases hi : i' = i
        · subst hi
          dsimp only at hEnding
          rw [Function.update_self, Option.some.injEq] at hEnding
          rw [← hEnding]
          exact hPosts.ending halted hStep
        · dsimp only at hEnding
          rw [Function.update_of_ne hi] at hEnding
          exact h.ended i' ending hEnding

theorem Inv.others (h : Inv vip cfg entry (fun _ => True) s) (i : Fin hosts) :
    Inv vip cfg entry (· ≠ i) s :=
  ⟨h.view, fun i' _ => h.host i' trivial, h.ended, h.stray⟩

/-- A view goes on. -/
theorem Inv.replace {here : Fin hosts → Prop} (h : Inv vip cfg entry here s) {v : Nat}
    {view view' : GroupView hosts} (hView : s.views v = some view) (hGrows : view.Grows view')
    {entered : Fin hosts → Daemon n} (hInv : view'.Inv cfg entered)
    (hSame : ∀ i, here i → entered i = entry v i) :
    Inv vip cfg (Function.update entry v entered) here
      { s with views := Function.update s.views v (some view') } := by
  refine ⟨fun v' view₁ hView₁ => ?_, fun i hi => ?_, h.ended, h.stray⟩
  · dsimp only at hView₁
    by_cases hv : v' = v
    · subst hv
      rw [Function.update_self, Option.some.injEq] at hView₁
      rw [Function.update_self, ← hView₁]
      exact hInv
    · rw [Function.update_of_ne hv] at hView₁ ⊢
      exact h.view v' view₁ hView₁
  · refine HostInv.grow (s := s) rfl rfl rfl (fun v' view₁ hView₁ => ?_) (fun v' _ _ => ?_)
      (h.host i hi)
    · by_cases hv : v' = v
      · subst hv
        obtain rfl : view = view₁ := Option.some.inj (hView.symm.trans hView₁)
        exact ⟨view', Function.update_self _ _ _, hGrows⟩
      · exact ⟨view₁, (Function.update_of_ne hv _ _).trans hView₁, .refl view₁⟩
    · by_cases hv : v' = v
      · subst hv
        rw [Function.update_self, hSame i hi]
      · rw [Function.update_of_ne hv]

theorem Buffered_reset {d d' : Daemon n} (hSame : d.Buffered d') (h : d.Reset) : d'.Reset := by
  rw [hSame]
  exact h

/-- What is neither a part of a gather nor a plan. -/
theorem Parcel.plain {parcel : Parcel}
    (h : parcel.1 = maturingMessType ∨ parcel.1 = arpcacheMessType) :
    parcel.1 ≠ stateMessType ∧ parcel.1 ≠ balanceMessType := by
  rcases h with hMature | hArp
  · rw [hMature]
    decide
  · rw [hArp]
    decide

variable (hSites : Sites vip cfg)

include hSites

theorem addr_injective {view : GroupView hosts} (hNodup : view.members.Nodup) :
    Function.Injective (view.addr cfg) := fun _ _ hEq =>
  List.nodup_iff_injective_get.mp hNodup (hSites.realIf_injective hEq)

/-- The own events of a host. -/
theorem Inv.act (h : Inv vip cfg entry (fun _ => True) s) {e : Event} (hOwn : e.isOwn = true)
    (hMild : e.Mild (s.daemon i)) (hEnded : s.ended i = none) :
    Inv vip cfg entry (fun _ => True) (Fleet.perform cfg i e (s.place i) s) := by
  have hVip := hSites.pseudoIf_injective i
  obtain ⟨new, hPosts, hNew⟩ : ∃ new, Posts (s.daemon i)
      (step spreadTypes (cfg i) (s.daemon i) e) new ∧
        ∀ parcel ∈ new, Own (cfg i) (s.daemon i) parcel := step_posts hOwn hMild
  have hHost := h.host i trivial
  have hLeave (d' : Daemon n) (hStep : step spreadTypes (cfg i) (s.daemon i) e = .ok d')
      (hCalls : e.calls spreadTypes (cfg i) (s.daemon i) ≠ []) : d'.Reset :=
    step_own_reset hVip (hSites.realIf_ne_zero i) hOwn hMild hStep hCalls
  have hOthers := h.others i
  unfold HostInv at hHost
  cases hPlace : s.place i with
  | none =>
      rw [hPlace] at hHost
      refine hOthers.perform hEnded hPosts (fun _ _ _ hNone => by cases hNone) ?_ hLeave
      exact fun d' hStep hCalls => Buffered_reset (step_buffered hOwn hStep hCalls) (hHost hEnded)
  | some at' =>
      obtain ⟨v, k⟩ := at'
      rw [hPlace] at hHost
      obtain ⟨_, view, hView, hEntered, hLength, hFollows⟩ := hHost
      have hInv := h.view v view hView
      refine hOthers.perform hEnded hPosts ?_ (fun d' hStep hCalls => ?_) hLeave
      · rintro _ _ view' ⟨⟩ hView'
        obtain rfl : view = view' := Option.some.inj (hView.symm.trans hView')
        refine hInv.post (fun parcel hMem => ?_) fun parcel hMem hType => ?_
        · rcases hNew parcel hMem with hMature | hArp | ⟨mess, rfl, _⟩
          · exact (Parcel.plain (.inl hMature)).1
          · exact (Parcel.plain (.inr hArp)).1
          · change ¬ balanceMessType = stateMessType
            decide
        · rcases hNew parcel hMem with hMature | hArp | ⟨mess, rfl, hState, hMess⟩
          · exact absurd hType (Parcel.plain (.inl hMature)).2
          · exact absurd hType (Parcel.plain (.inr hArp)).2
          · refine ⟨mess, ?_, rfl⟩
            exact hFollows.planned hVip (hInv.joined i hEntered)
              (addr_injective hSites hInv.nodup) (hSites.balanceRate i)
              (Ledger.after_of vip _ _).claimed hState hMess
      · exact ⟨view, hView, hEntered, hLength,
          hFollows.buffered (step_buffered hOwn hStep hCalls)⟩

/-- A host handles the next message of its view. -/
theorem Inv.handle (h : Inv vip cfg entry (fun _ => True) s) (hLegal : s.Legal cfg (.handle i))
    {v k : Nat} {view : GroupView hosts} {parcel : Parcel} (hPlace : s.place i = some (v, k))
    (hView : s.views v = some view) (hParcel : view.log[k]? = some parcel) :
    Inv vip cfg entry (fun _ => True)
      (Fleet.perform cfg i (.network (.message parcel.message) .unasked) (some (v, k + 1)) s) := by
  have hHost := h.host i trivial
  rw [HostInv, hPlace] at hHost
  obtain ⟨hEnded, view', hView', hEntered, hLength, hFollows⟩ := hHost
  obtain rfl : view = view' := Option.some.inj (hView.symm.trans hView')
  have hInv := h.view v view hView
  have hDue : s.due i = parcel.delivery? := by
    rw [due, hPlace]
    dsimp only
    rw [hView, Option.bind_some, hParcel]
    rfl
  refine (h.others i).perform hEnded (parcel_posts _ parcel .unasked) ?_ (fun d' hEq _ => ?_)
    fun d' _ hCalls => absurd (calls_parcel parcel .unasked) hCalls
  · rintro _ _ view' ⟨⟩ hView'
    rw [GroupView.carry_nil]
    exact h.view v view' hView'
  · rw [step_parcel] at hEq
    cases hEq
    refine ⟨view, hView, hEntered, ?_, hInv.handle hSites hEntered hParcel hFollows ?_⟩
    · obtain ⟨hLt, _⟩ := List.getElem?_eq_some_iff.mp hParcel
      exact hLt
    · intro moves hMoves hState
      rw [Legal, hDue.trans hMoves] at hLegal
      exact hLegal hState

omit hSites in
/-- A host gets a message that is not ordered. -/
theorem Inv.hear (h : Inv vip cfg entry (fun _ => True) s) {v handled k : Nat}
    {view : GroupView hosts} {parcel : Parcel} (hPlace : s.place i = some (v, handled))
    (hView : s.views v = some view) (hParcel : view.shared[k]? = some parcel) :
    Inv vip cfg entry (fun _ => True)
      (Fleet.perform cfg i (.network (.message parcel.message) .unasked) (some (v, handled))
        s) := by
  have hHost := h.host i trivial
  rw [HostInv, hPlace] at hHost
  obtain ⟨hEnded, view', hView', hEntered, hLength, hFollows⟩ := hHost
  obtain rfl : view = view' := Option.some.inj (hView.symm.trans hView')
  have hArp : parcel.1 = arpcacheMessType := by
    simpa [Parcel.isOrdered] using
      (h.view v view hView).shared parcel (List.mem_of_getElem? hParcel)
  refine (h.others i).perform hEnded (parcel_posts _ parcel .unasked) ?_ (fun d' hEq _ => ?_)
    fun d' _ hCalls => absurd (calls_parcel parcel .unasked) hCalls
  · rintro _ _ view' ⟨⟩ hView'
    rw [GroupView.carry_nil]
    exact h.view v view' hView'
  · rw [step_parcel] at hEq
    cases hEq
    exact ⟨view, hView, hEntered, hLength, hFollows.other_parcel (Parcel.delivery?_arp hArp)⟩

omit hSites in
/-- The host is where the next view accounts for what it has up. -/
theorem HostInv.accounted (hSites : Sites vip cfg)
    (hViews : ∀ v view, s.views v = some view → view.Inv cfg (entry v))
    (h : HostInv vip cfg entry s i) (hEnded : s.ended i = none) (hOnline : 0 ≤ (s.daemon i).mbox)
    (hTracks : (s.daemon i).state = .gather →
      ∀ j ∈ (s.daemon i).up, ((s.daemon i).oldTable j).realIf = (cfg i).realIf) :
    (Accounted (cfg i) (s.daemon i) ∧ ((s.daemon i).maturity = false → (s.daemon i).up = ∅)) ∧
      ∀ j, ((enterView (s.daemon i)).oldTable j).Tidy := by
  have hMe := hSites.realIf_ne_zero i
  rw [HostInv] at h
  cases hPlace : s.place i with
  | none =>
      rw [hPlace] at h
      have hVacant := h hEnded hOnline
      refine ⟨⟨hVacant.accounted hMe, fun _ => hVacant.1⟩, fun j hOwner => absurd ?_ hOwner⟩
      unfold enterView
      dsimp only
      split_ifs
      · exact hVacant.2.2.1 j
      · exact hVacant.2.2.2 j
  | some at' =>
      obtain ⟨v, k⟩ := at'
      rw [hPlace] at h
      obtain ⟨_, view, hView, hEntered, _, hFollows⟩ := h
      have hInv := hViews v view hView
      refine ⟨hFollows.accounted (hSites.pseudoIf_injective i) hMe (hInv.joined i hEntered)
        (hInv.told_ledger hSites hEntered k) hTracks, hFollows.tidy fun table hStage j _ => ?_⟩
      exact (Ledger.after_of vip _ _).claimed table hStage j

/-- A host gets the membership message of a view. -/
theorem Inv.enter (h : Inv vip cfg entry (fun _ => True) s) {v : Nat} {a : Answers}
    (hLegal : s.Legal cfg (.enter i v a)) {view : GroupView hosts} (hView : s.views v = some view)
    (hMember : i ∈ view.members) (hFirst : i ∉ view.entered) (hEnded : s.ended i = none)
    (hOnline : 0 ≤ (s.daemon i).mbox) :
    ∃ entry', Inv vip cfg entry' (fun _ => True)
      (Fleet.perform cfg i (.network (.message (view.membership cfg i)) a) (some (v, 0))
        { s with
          views := Function.update s.views v
            (some { view with entered := insert i view.entered }) }) := by
  obtain ⟨⟨hAccounted, hImmature⟩, hTidy⟩ :=
    (h.host i trivial).accounted hSites h.view hEnded hOnline hLegal
  have hInv := h.view v view hView
  obtain ⟨d, hLoad⟩ : ∃ d, d =
    ((s.daemon i).load (view.membership cfg i)).record (.handler .membership) := ⟨_, rfl⟩
  have hAccounted' : Accounted (cfg i) d := by rw [hLoad]; exact hAccounted
  obtain ⟨d₀, hEntry⟩ : ∃ d₀, d₀ = entered (cfg i) a.state.ret d := ⟨_, rfl⟩
  have hLt : view.members.idxOf i < view.members.length := List.idxOf_lt_length_of_mem hMember
  have hMine : d₀.myIndex = view.members.idxOf i := by
    rw [hEntry, hLoad]
    exact if_pos (Nat.zero_lt_of_lt hLt)
  have hEntered : Entered (cfg i) d₀ := by
    rw [hEntry]
    exact hAccounted'.entered a.state.ret (by rw [hLoad]; exact hLt) (by rw [hLoad]; exact hImmature)
  have hJoined : Joined (cfg i) (view.addr cfg) d₀ := by
    refine ⟨hEntered, ?_, ⟨_, hLt⟩, hMine, GroupView.addr_idxOf hMember⟩
    rw [hEntry, hLoad]
    rfl
  have hGid : d₀.gid = view.gid := by
    rw [hEntry, hLoad]
    rfl
  have hTidy' : ∀ j, (d₀.oldTable j).Tidy := by
    rw [hEntry, hLoad]
    exact hTidy
  have hNow := hInv.enter hFirst hMember hJoined hMine hGid hTidy'
  have hSent : stateMess (cfg i) (enterView d) = stateMess (cfg i) d₀ := by rw [hEntry]; rfl
  obtain ⟨more, hPosts, hMore⟩ := step_membership_posts (a := a) hLoad hAccounted'.1
  refine ⟨Function.update entry v (Function.update (entry v) i d₀), ?_⟩
  have hGrows : view.Grows { view with entered := insert i view.entered } :=
    ⟨rfl, rfl, Finset.subset_insert _ _, List.prefix_rfl⟩
  have hOthers := (h.others i).replace hView hGrows hNow
    fun i' hi' => Function.update_of_ne hi' _ _
  refine hOthers.perform hEnded hPosts ?_ (fun d' hStep hCalls => ?_) fun d' hStep hCalls =>
    step_reset hStep hCalls fun _ _ hEq => by cases hEq
  · rintro _ _ view' ⟨⟩ hView'
    dsimp only at hView'
    rw [Function.update_self, Option.some.injEq] at hView'
    rw [Function.update_self, ← hView', GroupView.carry_append]
    have hArp (parcel : Parcel) (hMem : parcel ∈ more) : parcel.1 ≠ stateMessType ∧
        parcel.1 ≠ balanceMessType := by
      rw [hMore parcel hMem]
      decide
    have hState : GroupView.Inv cfg
        (GroupView.carry
          (if 0 ≤ a.state.ret then
            [(stateMessType, (stateMess (cfg i) (enterView d)).words)] else [])
          { view with entered := insert i view.entered })
        (Function.update (entry v) i d₀) := by
      split_ifs
      · have hOwn : Function.update (entry v) i d₀ i = d₀ := Function.update_self _ _ _
        have hAnnounced := hNow.announce hSites (Finset.mem_insert_self i _) fun mess hMess hSame =>
          hFirst (hInv.entered_of_index hSites hMember hMess (hSame.trans (by rw [hOwn, hMine])))
        rw [hOwn, ← hSent] at hAnnounced
        exact hAnnounced
      · rw [GroupView.carry_nil]
        exact hNow
    exact hState.post (fun parcel hMem => (hArp parcel hMem).1)
      fun parcel hMem hType => absurd hType (hArp parcel hMem).2
  · have hSame := step_membership_entered hLoad hAccounted'.1 hCalls hStep
    refine ⟨_, Function.update_self _ _ _, Finset.mem_insert_self _ _, Nat.zero_le _, ?_⟩
    rw [Function.update_self, Function.update_self]
    rw [← hEntry] at hSame
    exact (Follows.start hJoined hTidy').buffered hSame

omit hSites in
/-- Spread forms a view. -/
theorem Inv.form (h : Inv vip cfg entry (fun _ => True) s) {v : Nat} (hFree : s.views v = none)
    {gid : GroupId} {members : List (Fin hosts)} (hNodup : members.Nodup)
    (hSize : members.length ≤ maxPseudo) :
    Inv vip cfg entry (fun _ => True)
      { s with views := Function.update s.views v (some ⟨gid, members, ∅, [], [], []⟩) } := by
  refine ⟨fun v' view hView => ?_, fun i _ => ?_, h.ended, h.stray⟩
  · dsimp only at hView
    by_cases hv : v' = v
    · subst hv
      rw [Function.update_self, Option.some.injEq] at hView
      subst hView
      exact ⟨hNodup, hSize, nofun, nofun, nofun, nofun, nofun, nofun, nofun, List.nodup_nil, nofun⟩
    · rw [Function.update_of_ne hv] at hView
      exact h.view v' view hView
  · refine HostInv.grow (s := s) rfl rfl rfl (fun v' view hView => ⟨view, ?_, .refl view⟩)
      (fun _ _ _ => rfl) (h.host i trivial)
    have hv : v' ≠ v := by
      rintro rfl
      rw [hFree] at hView
      cases hView
    exact (Function.update_of_ne hv _ _).trans hView

omit hSites in
/-- Spread orders one of the multicasts. -/
theorem Inv.order (h : Inv vip cfg entry (fun _ => True) s) {v k : Nat} {view : GroupView hosts}
    (hView : s.views v = some view) {parcel : Parcel} (hParcel : view.sent[k]? = some parcel) :
    Inv vip cfg entry (fun _ => True)
      { s with
        views := Function.update s.views v (some
          { view with sent := view.sent.eraseIdx k, log := view.log ++ [parcel] }) } := by
  obtain ⟨hk, rfl⟩ := List.getElem?_eq_some_iff.mp hParcel
  have hPerm : ((view.log ++ [view.sent[k]]) ++ view.sent.eraseIdx k).Perm
      (view.log ++ view.sent) := by
    rw [List.append_assoc]
    exact (List.getElem_cons_eraseIdx_perm hk).append_left view.log
  have hGrows : view.Grows
      { view with sent := view.sent.eraseIdx k, log := view.log ++ [view.sent[k]] } :=
    ⟨rfl, rfl, Finset.Subset.refl _, List.prefix_append _ _⟩
  have hNext := h.replace hView hGrows ((h.view v view hView).reorder hPerm) fun _ _ => rfl
  rwa [Function.update_eq_self] at hNext

omit hSites in
/-- A multicast from outside comes to a view. -/
theorem Inv.carry (h : Inv vip cfg entry (fun _ => True) s) {v k : Nat} {view : GroupView hosts}
    (hView : s.views v = some view) {parcel : Parcel} (hParcel : s.stray[k]? = some parcel) :
    Inv vip cfg entry (fun _ => True)
      { s with
        views := Function.update s.views v (some (view.carry [parcel]))
        stray := s.stray.eraseIdx k } := by
  have hPlain := Parcel.plain (h.stray parcel (List.mem_of_getElem? hParcel))
  have hGrows : view.Grows (view.carry [parcel]) :=
    ⟨rfl, rfl, Finset.Subset.refl _, List.prefix_rfl⟩
  have hInv : (view.carry [parcel]).Inv cfg (entry v) := by
    refine (h.view v view hView).post (fun parcel' hMem => ?_) fun parcel' hMem hBalance => ?_
    · rw [List.mem_singleton.mp hMem]
      exact hPlain.1
    · rw [List.mem_singleton.mp hMem] at hBalance
      exact absurd hBalance hPlain.2
  have hNext := h.replace hView hGrows hInv fun _ _ => rfl
  rw [Function.update_eq_self] at hNext
  exact ⟨hNext.view, hNext.host, hNext.ended, fun parcel' hMem =>
    h.stray parcel' (List.mem_of_mem_eraseIdx hMem)⟩

/-- Every legal step. -/
theorem Inv.next (h : Inv vip cfg entry (fun _ => True) s) {action : Action hosts}
    (hLegal : s.Legal cfg action) :
    ∃ entry', Inv vip cfg entry' (fun _ => True) (Fleet.next cfg s action) := by
  cases action with
  | form v gid members =>
      unfold Fleet.next
      dsimp only
      split_ifs with hForm
      · obtain ⟨hFree, hNodup, hSize⟩ := hForm
        exact ⟨entry, h.form hFree hNodup hSize⟩
      · exact ⟨entry, h⟩
  | order v k =>
      simp only [Fleet.next]
      cases hView : s.views v with
      | none => exact ⟨entry, h⟩
      | some view =>
          cases hParcel : view.sent[k]? with
          | none => exact ⟨entry, by simpa only [hParcel] using h⟩
          | some parcel => exact ⟨entry, by simpa only [hParcel] using h.order hView hParcel⟩
  | stray v k =>
      simp only [Fleet.next]
      cases hView : s.views v with
      | none => exact ⟨entry, h⟩
      | some view =>
          cases hParcel : s.stray[k]? with
          | none => exact ⟨entry, by simpa only [hParcel] using h⟩
          | some parcel => exact ⟨entry, by simpa only [hParcel] using h.carry hView hParcel⟩
  | enter i v a =>
      simp only [Fleet.next]
      cases hView : s.views v with
      | none => exact ⟨entry, h⟩
      | some view =>
          dsimp only
          split_ifs with hEnter
          · obtain ⟨hMember, hFirst, hEnded, hOnline⟩ := hEnter
            exact h.enter hSites hLegal hView hMember hFirst hEnded hOnline
          · exact ⟨entry, h⟩
  | handle i =>
      simp only [Fleet.next]
      cases hPlace : s.place i with
      | none => exact ⟨entry, h⟩
      | some at' =>
          obtain ⟨v, k⟩ := at'
          dsimp only
          cases hView : s.views v with
          | none => exact ⟨entry, h⟩
          | some view =>
              rw [Option.bind_some]
              cases hParcel : view.log[k]? with
              | none => exact ⟨entry, h⟩
              | some parcel => exact ⟨entry, h.handle hSites hLegal hPlace hView hParcel⟩
  | hear i k =>
      simp only [Fleet.next]
      cases hPlace : s.place i with
      | none => exact ⟨entry, h⟩
      | some at' =>
          obtain ⟨v, handled⟩ := at'
          dsimp only
          cases hView : s.views v with
          | none => exact ⟨entry, h⟩
          | some view =>
              rw [Option.bind_some]
              cases hParcel : view.shared[k]? with
              | none => exact ⟨entry, h⟩
              | some parcel => exact ⟨entry, h.hear hPlace hView hParcel⟩
  | act i e =>
      simp only [Fleet.next]
      split_ifs with hAct
      · exact ⟨entry, h.act hSites hAct.2 hLegal hAct.1⟩
      · exact ⟨entry, h⟩

omit hSites in
theorem inv_initial (entry : Nat → Fin hosts → Daemon n) :
    Inv vip cfg entry (fun _ => True) (initial : Fleet hosts n) :=
  ⟨nofun, fun _ _ _ hOnline => absurd hOnline (show ¬ (0 : Int) ≤ -1 by decide), nofun, nofun⟩

/-- Every run of legal steps. -/
theorem run_inv {actions : List (Action hosts)} (hLegal : LegalRun cfg actions) :
    ∃ entry, Inv vip cfg entry (fun _ => True) (run cfg actions : Fleet hosts n) := by
  have hFrom (actions : List (Action hosts)) : ∀ (s : Fleet hosts n) entry,
      Inv vip cfg entry (fun _ => True) s → LegalFrom cfg s actions →
      ∃ entry, Inv vip cfg entry (fun _ => True) (actions.foldl (Fleet.next cfg) s) := by
    induction actions with
    | nil => exact fun s entry h _ => ⟨entry, h⟩
    | cons action rest ih =>
        rintro s entry h ⟨hNow, hRest⟩
        obtain ⟨entry', hNext⟩ := h.next hSites hNow
        exact ih _ entry' hNext hRest
  exact hFrom actions initial (fun _ _ => Daemon.initial n) (inv_initial _) hLegal

end Fleet

end Wackamole
