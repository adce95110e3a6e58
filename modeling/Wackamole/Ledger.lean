import Wackamole.Cascade
import Wackamole.Coverage

/-! A view as one machine: while nobody prefers a managed interface, the table of a view is
a function of the messages delivered in it so far, and every member follows it. -/
namespace Wackamole

open LeastLoaded

variable {m n : Nat}

/-- How far the messages so far have brought a view. -/
inductive Stage (n : Nat) where
  | gathering
  | waiting
  | running (table : Fin n → Entry)

/-- What a view owes to the messages delivered in it. -/
structure Ledger (n : Nat) where
  heard : List StateMess
  matured : Bool
  stage : Stage n

/-- The address of a member by its position in the view. -/
def addressAt (addr : Fin m → Address) (k : Nat) : Address :=
  if hk : k < m then addr ⟨k, hk⟩ else 0#32

namespace Ledger

def opening : Ledger n := ⟨[], false, .gathering⟩

/-- The first member that claims the interface. -/
def holder (vip : Fin n → Address) (heard : List StateMess) (j : Fin n) : Option Address :=
  (heard.find? fun mess => vip j ∈ mess.claims.map Prod.fst).map StateMess.realAddress

/-- The claims as a table: who is first to claim an interface has it. -/
def held (vip : Fin n → Address) (heard : List StateMess) (j : Fin n) : Entry :=
  match holder vip heard j with
  | some a => ⟨a, claimed⟩
  | none => Entry.blank

/-- How many interfaces a member is the first to claim. -/
def share (vip : Fin n → Address) (addr : Fin m → Address) (heard : List StateMess) (k : Nat) :
    Int :=
  ownedBy (held vip heard) (addressAt addr k)

/-- The table with which a view starts to run: the claims stand, and what nobody claims goes
one by one to whoever has least. -/
def allot (vip : Fin n → Address) (addr : Fin m → Address) (heard : List StateMess)
    (j : Fin n) : Entry :=
  match holder vip heard j with
  | some a => ⟨a, claimed⟩
  | none =>
    let unheld := (List.finRange n).filter fun j => (holder vip heard j).isNone
    ⟨addressAt addr (receiver (share vip addr heard) m unheld j), claimed⟩

/-- One message of the view. -/
def handle (vip : Fin n → Address) (addr : Fin m → Address) (l : Ledger n) :
    Delivery → Ledger n
  | .state mess =>
    match l.stage with
    | .gathering =>
      let heard := l.heard ++ [mess]
      let matured := l.matured || decide (mess.maturity = 1)
      if heard.length = m then
        if matured then ⟨heard, matured, .running (allot vip addr heard)⟩
        else ⟨heard, matured, .waiting⟩
      else ⟨heard, matured, .gathering⟩
    | _ => l
  | .mature =>
    match l.stage with
    | .gathering => { l with matured := true }
    | .waiting => ⟨l.heard, true, .running (allot vip addr l.heard)⟩
    | .running _ => l
  | .balance moves =>
    match l.stage with
    | .running table => { l with stage := .running (moveTable vip table moves) }
    | _ => l

/-- The view after some messages. -/
def after (vip : Fin n → Address) (addr : Fin m → Address) (log : List Delivery) : Ledger n :=
  log.foldl (handle vip addr) opening

section After

variable {vip : Fin n → Address} {addr : Fin m → Address} {log : List Delivery}

theorem after_append (vip : Fin n → Address) (addr : Fin m → Address) (log : List Delivery)
    (item : Delivery) :
    after vip addr (log ++ [item]) = (after vip addr log).handle vip addr item := by
  rw [after, List.foldl_append]
  rfl

/-- How a ledger belongs to the log that it is made from. -/
structure Of (size : Nat) (log : List Delivery) (l : Ledger n) : Prop where
  heard : l.heard <+: statesIn log
  gathering : l.stage = .gathering → l.heard = statesIn log
  full : l.stage ≠ .gathering → l.heard.length = size
  claimed : ∀ table, l.stage = .running table → ∀ j, (table j).claimPriority = claimed

theorem allot_claimed (heard : List StateMess) (j : Fin n) :
    (allot vip addr heard j).claimPriority = Wackamole.claimed := by
  unfold allot
  cases holder vip heard j <;> rfl

theorem Of.handle {l : Ledger n} (h : Of m log l) (item : Delivery) :
    Of m (log ++ [item]) (l.handle vip addr item) := by
  have hLater : l.heard <+: statesIn (log ++ [item]) := by
    rw [statesIn_append]
    exact h.heard.trans (List.prefix_append _ _)
  obtain ⟨heard, matured, stage⟩ := l
  cases stage with
  | gathering =>
      obtain rfl : heard = statesIn log := h.gathering rfl
      cases item with
      | state mess =>
          simp only [Ledger.handle]
          split_ifs with hLast hMature
          · refine ⟨by simp, nofun, fun _ => hLast, ?_⟩
            rintro table ⟨⟩
            exact allot_claimed _
          · exact ⟨by simp, nofun, fun _ => hLast, nofun⟩
          · exact ⟨by simp, fun _ => by simp, fun hLeft => absurd rfl hLeft, nofun⟩
      | mature => exact ⟨by simp [Ledger.handle], fun _ => by simp [Ledger.handle],
          fun hLeft => absurd rfl hLeft, nofun⟩
      | balance moves => exact ⟨by simp [Ledger.handle], fun _ => by simp [Ledger.handle],
          fun hLeft => absurd rfl hLeft, nofun⟩
  | waiting =>
      have hFull := h.full nofun
      cases item with
      | state mess => exact ⟨hLater, nofun, fun _ => hFull, nofun⟩
      | balance moves => exact ⟨hLater, nofun, fun _ => hFull, nofun⟩
      | mature =>
          refine ⟨hLater, nofun, fun _ => hFull, ?_⟩
          rintro table ⟨⟩
          exact allot_claimed heard
  | running table =>
      have hFull := h.full nofun
      cases item with
      | state mess => exact ⟨hLater, nofun, fun _ => hFull, h.claimed⟩
      | mature => exact ⟨hLater, nofun, fun _ => hFull, h.claimed⟩
      | balance moves =>
          refine ⟨hLater, nofun, fun _ => hFull, ?_⟩
          rintro table' ⟨⟩ j
          exact h.claimed table rfl j

theorem after_of (vip : Fin n → Address) (addr : Fin m → Address) (log : List Delivery) :
    Of m log (after vip addr log) := by
  induction log using List.reverseRecOn with
  | nil => exact ⟨List.prefix_rfl, fun _ => rfl, fun hLeft => absurd rfl hLeft, nofun⟩
  | append_singleton log item ih =>
      rw [after_append]
      exact ih.handle item

end After

end Ledger

/-- A STATE message of a member that holds nothing by preference and prefers no managed
interface. -/
structure StateMess.Plain (vip : Fin n → Address) (mess : StateMess) : Prop where
  claims : ∀ c ∈ mess.claims, c.2 = claimed
  prefers : ∀ addr ∈ mess.prefers, ∀ j, vip j ≠ addr

section Plain

variable {vip : Fin n → Address} {heard : List StateMess}

theorem StateMess.Plain.bidsOn {mess : StateMess} (h : mess.Plain vip) (j : Fin n) :
    bidsOn vip j mess = (mess.claims.filter fun c => vip j = c.1).map fun _ =>
      .claim mess.realAddress claimed := by
  have hPrefers : (mess.prefers.filter fun addr => vip j = addr) = [] := by
    rw [List.filter_eq_nil_iff]
    intro addr hAddr hEq
    exact h.prefers addr hAddr j (of_decide_eq_true hEq)
  rw [Wackamole.bidsOn, hPrefers, List.map_nil, List.append_nil]
  apply List.map_congr_left
  intro c hc
  rw [h.claims c (List.mem_of_mem_filter hc)]

theorem mem_bidsIn_of_plain (h : ∀ mess ∈ heard, mess.Plain vip) {j : Fin n} {b : Bid}
    (hb : b ∈ bidsIn vip j heard) : ∃ sender, b = .claim sender claimed := by
  obtain ⟨mess, hMess, hb⟩ := List.mem_flatMap.mp hb
  rw [(h mess hMess).bidsOn] at hb
  obtain ⟨_, _, rfl⟩ := List.mem_map.mp hb
  exact ⟨mess.realAddress, rfl⟩

/-- Without preferences, the entry of an interface is that of its first claimant. -/
theorem settled_of_plain (h : ∀ mess ∈ heard, mess.Plain vip) (j : Fin n) :
    Entry.settled (bidsIn vip j heard) = Ledger.held vip heard j := by
  have hStrong : (bidsIn vip j heard).findSome? Bid.strong = none := by
    rw [List.findSome?_eq_none_iff]
    intro b hb
    obtain ⟨sender, rfl⟩ := mem_bidsIn_of_plain h hb
    rfl
  have hWeak : (bidsIn vip j heard).findSome? Bid.weak =
      (Ledger.holder vip heard j).map fun a => ⟨a, claimed⟩ := by
    induction heard with
    | nil => rfl
    | cons mess heard ih =>
        have hRest := ih (fun mess' hMess => h mess' (List.mem_cons_of_mem mess hMess)) (by
          rw [List.findSome?_eq_none_iff]
          intro b hb
          obtain ⟨sender, rfl⟩ := mem_bidsIn_of_plain
            (fun mess' hMess => h mess' (List.mem_cons_of_mem mess hMess)) hb
          rfl)
        have hSplit : bidsIn vip j (mess :: heard) = bidsOn vip j mess ++ bidsIn vip j heard := rfl
        rw [hSplit, List.findSome?_append, hRest, (h mess List.mem_cons_self).bidsOn]
        by_cases hClaims : vip j ∈ mess.claims.map Prod.fst
        · obtain ⟨c, hc, hAddr⟩ := List.mem_map.mp hClaims
          have hMem : c ∈ mess.claims.filter fun c => vip j = c.1 :=
            List.mem_filter.mpr ⟨hc, by simp [hAddr]⟩
          obtain ⟨c', rest, hCons⟩ := List.exists_cons_of_ne_nil (List.ne_nil_of_mem hMem)
          have hFind : Ledger.holder vip (mess :: heard) j = some mess.realAddress := by
            rw [Ledger.holder, List.find?_cons_of_pos (by simpa using hClaims)]
            rfl
          rw [hCons, hFind]
          rfl
        · have hNil : (mess.claims.filter fun c => vip j = c.1) = [] := by
            rw [List.filter_eq_nil_iff]
            intro c hc hEq
            exact hClaims (List.mem_map.mpr ⟨c, hc, (of_decide_eq_true hEq).symm⟩)
          have hFind : Ledger.holder vip (mess :: heard) j = Ledger.holder vip heard j := by
            rw [Ledger.holder, List.find?_cons_of_neg (by simpa using hClaims)]
            rfl
          rw [hNil, hFind]
          rfl
  rw [settled_of_noStrong hStrong, hWeak, Ledger.held]
  cases Ledger.holder vip heard j <;> rfl

theorem not_taken_of_plain (h : ∀ mess ∈ heard, mess.Plain vip) (j : Fin n) :
    ¬ taken (bidsIn vip j heard) := by
  rw [taken, settled_of_plain h, Ledger.held]
  cases Ledger.holder vip heard j <;> simp

end Plain

/-- The member at a position of the view sent this. -/
def StateMess.From (addr : Fin m → Address) (mess : StateMess) : Prop :=
  ∃ k : Fin m, mess.index = k ∧ mess.realAddress = addr k

theorem Ledger.allot_owner {vip : Fin n → Address} {addr : Fin m → Address}
    {heard : List StateMess} (hPos : 0 < m) (hSender : ∀ mess ∈ heard, mess.From addr)
    (j : Fin n) : ∃ k, (allot vip addr heard j).realIf = addr k := by
  unfold allot
  cases hHolder : holder vip heard j with
  | some a =>
      obtain ⟨mess, hFind, rfl⟩ := Option.map_eq_some_iff.mp hHolder
      obtain ⟨k, _, hAddress⟩ := hSender mess (List.mem_of_find?_eq_some hFind)
      exact ⟨k, hAddress⟩
  | none => exact ⟨⟨_, receiver_lt _ hPos _ _⟩, dif_pos _⟩

/-- In RUN, every interface belongs to a member of the view. -/
theorem Ledger.after_owner {vip : Fin n → Address} {addr : Fin m → Address}
    {log : List Delivery} (hPos : 0 < m) (hSender : ∀ mess ∈ statesIn log, mess.From addr)
    (hMoves : ∀ moves, .balance moves ∈ log → ∀ move ∈ moves, ∃ k, move.1 = addr k)
    {table : Fin n → Entry} (hStage : (after vip addr log).stage = .running table) (j : Fin n) :
    ∃ k, (table j).realIf = addr k := by
  induction log using List.reverseRecOn generalizing table with
  | nil => cases hStage
  | append_singleton log item ih =>
      have hBefore {table : Fin n → Entry} (hRunning : (after vip addr log).stage =
          .running table) : ∃ k, (table j).realIf = addr k :=
        ih (fun mess hMem => hSender mess (by simp [hMem]))
          (fun moves hMem => hMoves moves (List.mem_append_left _ hMem)) hRunning
      have hOf := after_of vip addr log
      rw [after_append] at hStage
      generalize after vip addr log = l at hBefore hOf hStage
      have hHeard : ∀ mess ∈ l.heard, mess.From addr := fun mess hMem =>
        hSender mess (by simp [hOf.heard.subset hMem])
      obtain ⟨heard, matured, stage⟩ := l
      cases item with
      | state mess =>
          cases stage with
          | gathering =>
              simp only [handle] at hStage
              split_ifs at hStage
              cases hStage
              apply allot_owner hPos
              intro mess' hMem
              rcases List.mem_append.mp hMem with hOld | hNew
              · exact hHeard mess' hOld
              · exact hSender mess' (by simp [List.mem_singleton.mp hNew])
          | waiting => cases hStage
          | running table' => exact hBefore hStage
      | mature =>
          cases stage with
          | gathering => cases hStage
          | waiting =>
              cases hStage
              exact allot_owner hPos hHeard j
          | running table' => exact hBefore hStage
      | balance moves =>
          cases stage with
          | gathering => cases hStage
          | waiting => cases hStage
          | running table' =>
              cases hStage
              rw [moveTable]
              cases hMoved : movedTo vip moves j with
              | none => exact hBefore rfl
              | some a => exact hMoves moves (by simp) _ (mem_of_movedTo hMoved)

/-- A daemon that has entered a view as one of the members with these addresses. -/
structure Joined (cfg : Config n) (addr : Fin m → Address) (d₀ : Daemon n) : Prop where
  entered : Entered cfg d₀
  numMembers : d₀.numMembers = m
  self : ∃ k : Fin m, d₀.myIndex = k ∧ addr k = cfg.realIf

/-- What a member may hear in a view where nobody prefers a managed interface. -/
structure Told (cfg : Config n) (addr : Fin m → Address) (d₀ : Daemon n)
    (ms : List StateMess) : Prop where
  heard : Heard cfg d₀ ms
  sender : ∀ mess ∈ ms, mess.From addr
  plain : ∀ mess ∈ ms, mess.Plain cfg.pseudoIf

section Settle

variable {cfg : Config n} {addr : Fin m → Address} {d₀ d : Daemon n} {heard : List StateMess}
  {a : Finset (Fin n)} (hJoined : Joined cfg addr d₀) (hTold : Told cfg addr d₀ heard)
  (h : Gathered cfg (d₀.grant d₀.up) heard (d.grant a))

include hJoined h

theorem Gathered.numMembers_eq : d.numMembers = m :=
  h.numMembers.trans hJoined.numMembers

include hTold

/-- Every member of the view stands in `Members` where the view has it. -/
theorem Gathered.realIf_eq (k : Fin m) : (d.members k).realIf = addr k := by
  have hk : (k : Nat) < d₀.numMembers := by
    rw [hJoined.numMembers]
    exact k.isLt
  obtain ⟨mess, hMem, hIndex⟩ := h.full k hk
  obtain ⟨k', hIndex', hAddress⟩ := hTold.sender mess hMem
  obtain rfl : k' = k := Fin.ext (hIndex'.symm.trans hIndex)
  have hHeard := h.heard mess hMem
  rw [hIndex, hAddress] at hHeard
  exact hHeard

/-- The load by which a member hands out the unclaimed interfaces is what the view counts. -/
theorem Gathered.settledCount_share (hMature : d.maturity = true) {k : Nat} (hk : k < m) :
    d.settledCount k = Ledger.share cfg.pseudoIf addr heard k := by
  have hNum := h.numMembers_eq hJoined
  have hCount := h.settledCount_eq hMature (k := k) (by
    change k < d.numMembers
    omega)
  have hAddress : ((d.grant a).members k).realIf = addr ⟨k, hk⟩ :=
    h.realIf_eq hJoined hTold ⟨k, hk⟩
  have hne : addr ⟨k, hk⟩ ≠ 0#32 := by
    rw [← hAddress]
    exact h.distinct.ne_zero k (hk.trans_eq hNum.symm)
  have hExcess (j : Fin n) : excess (addr ⟨k, hk⟩) ((d₀.grant d₀.up).oldTable j).realIf
      (bidsIn cfg.pseudoIf j heard) = 0 := by
    rw [excess, if_neg (not_taken_of_plain hTold.plain j)]
  change d.settledCount k = _ at hCount
  rw [hCount, hAddress, account, Ledger.share, addressAt, dif_pos hk, ownedBy_eq_sum]
  simp only [hExcess, settled_of_plain hTold.plain, Finset.sum_const_zero, ite_self, add_zero]

/-- A member that leaves the gather for RUN has the table of the view. -/
theorem Gathered.settle_allot (hMature : d.maturity = true) (j : Fin n) :
    (settle cfg d).allocationTable j = Ledger.allot cfg.pseudoIf addr heard j := by
  have hNum := h.numMembers_eq hJoined
  have hPos : 0 < d.numMembers := h.numMembers_pos
  have hEntry (j : Fin n) : d.allocationTable j = Ledger.held cfg.pseudoIf heard j :=
    (h.entry j).trans (settled_of_plain hTold.plain j)
  have hUnclaimed (j : Fin n) : (Ledger.held cfg.pseudoIf heard j).claimPriority = unclaimed ↔
      (Ledger.holder cfg.pseudoIf heard j).isNone = true := by
    rw [Ledger.held]
    cases Ledger.holder cfg.pseudoIf heard j <;> simp
  have hUnowned : unowned d.allocationTable (List.finRange n) =
      (List.finRange n).filter fun j => (Ledger.holder cfg.pseudoIf heard j).isNone := by
    apply List.filter_congr
    intro j _
    rw [hEntry, Bool.eq_iff_iff, decide_eq_true_iff]
    exact hUnclaimed j
  have hReceiver : fillReceiver d d.settledCount j =
      receiver (Ledger.share cfg.pseudoIf addr heard) m
        ((List.finRange n).filter fun j => (Ledger.holder cfg.pseudoIf heard j).isNone) j := by
    rw [fillReceiver, hUnowned, hNum]
    exact receiver_congr (hPos.trans_eq hNum)
      (fun k hk => h.settledCount_share hJoined hTold hMature hk) _ _
  rw [settle_entry d j hPos, hReceiver, hEntry, Ledger.allot, Ledger.held]
  cases hHolder : Ledger.holder cfg.pseudoIf heard j with
  | some a' => simp [Entry.promote]
  | none =>
      have hLt := receiver_lt (Ledger.share cfg.pseudoIf addr heard) (hPos.trans_eq hNum)
        ((List.finRange n).filter fun j => (Ledger.holder cfg.pseudoIf heard j).isNone) j
      have hAddress := h.realIf_eq hJoined hTold ⟨_, hLt⟩
      simp only [↓reduceIte, addressAt, dif_pos hLt]
      rw [← hAddress]

omit hJoined in
/-- What nobody prefers, nobody is stranded with. -/
theorem Gathered.kept : Kept cfg d₀ heard := by
  rintro j hj ⟨_, hLive⟩
  apply hLive
  rw [liveClaimants, if_neg (not_taken_of_plain hTold.plain j)]
  exact (h.held_iff j).mp hj

/-- A member that leaves the gather for RUN is in step with the view. -/
theorem Gathered.inStep (hMature : d.maturity = true) :
    InStep cfg addr (Ledger.allot cfg.pseudoIf addr heard)
        ({ settle cfg d with state := .run }.queue .balance) ∧
      Named cfg (settle cfg d) := by
  have hNum := h.numMembers_eq hJoined
  have hNamed := h.named (h.kept hTold)
  have hTable : (settle cfg d).allocationTable = Ledger.allot cfg.pseudoIf addr heard :=
    funext (h.settle_allot hJoined hTold hMature)
  have hMembers (k : Nat) (hk : k < d.numMembers) :
      ((settle cfg d).members k).realIf = (d.members k).realIf := by
    rw [settle, claimUnclaimed_realIf, (priorityClaim_members d hk).1]
  have hSettled : (settle cfg d).numMembers = d.numMembers := settle_numMembers d
  refine ⟨⟨rfl, hSettled.trans hNum, fun k => ?_, ?_, hTable, fun j => ?_⟩, hNamed⟩
  · exact (hMembers k (k.isLt.trans_eq hNum.symm)).trans (h.realIf_eq hJoined hTold k)
  · obtain ⟨a', hGrant⟩ := settle_blind cfg d a
    have hCounts : (settle cfg (d.grant a)).CountsOwned := by
      rw [countsOwned_iff_surplus]
      intro k hk
      rw [settle_numMembers] at hk
      rw [h.settle_surplus hMature hk]
      split_ifs
      · apply Finset.sum_eq_zero
        intro j _
        rw [excess, if_neg (not_taken_of_plain hTold.plain j)]
      · rfl
    rw [hGrant] at hCounts
    exact hCounts
  · rw [← hTable]
    exact hNamed.up j

end Settle

/-- An entry that has an owner has it by a claim. -/
def Entry.Tidy (e : Entry) : Prop := e.realIf ≠ 0#32 → e.claimPriority = claimed

/-- One member somewhere in a view, compared with the ledger of what it has handled. -/
inductive Follows (cfg : Config n) (addr : Fin m → Address) (d₀ : Daemon n) :
    Ledger n → Daemon n → Prop where
  | gathering {heard : List StateMess} {matured : Bool} {d : Daemon n} (raised : Bool)
      (a : Finset (Fin n)) (hMissing : heard.length < m)
      (hMatured : matured = (heard.any (fun mess => mess.maturity = 1) || raised))
      (h : Gathering cfg (d₀.grant d₀.up) heard raised (d.grant a))
      (hTidy : ∀ j, (d.oldTable j).Tidy) :
      Follows cfg addr d₀ ⟨heard, matured, .gathering⟩ d
  | waiting {heard : List StateMess} {d : Daemon n} (a : Finset (Fin n))
      (hAll : heard.length = m) (hState : d.state = .boot) (hImmature : d.maturity = false)
      (hNone : d₀.up = ∅) (h : Gathered cfg (d₀.grant d₀.up) heard (d.grant a))
      (hTidy : ∀ j, (d.oldTable j).Tidy) : Follows cfg addr d₀ ⟨heard, false, .waiting⟩ d
  | running {heard : List StateMess} {table : Fin n → Entry} {d : Daemon n}
      (hAll : heard.length = m) (hMature : d.maturity = true) (h : InStep cfg addr table d)
      (hCount : d.numAllocated = d.up.card) :
      Follows cfg addr d₀ ⟨heard, true, .running table⟩ d

section Tidy

variable {cfg : Config n} {mess : StateMess}

/-- A plain message leaves no other entries than claimed ones. -/
theorem ripState_tidy (hVip : Function.Injective cfg.pseudoIf) (hPlain : mess.Plain cfg.pseudoIf)
    {d : Daemon n} {j : Fin n} (hEntry : (d.allocationTable j).Tidy)
    (hOld : (d.oldTable j).Tidy) : ((ripState cfg mess d).oldTable j).Tidy := by
  have hBids (bids : List Bid) (hClaims : ∀ b ∈ bids, ∃ sender, b = .claim sender claimed)
      (s : Slot) (hs : s.entry.Tidy ∧ s.old.Tidy) :
      (bids.foldl (Slot.bid cfg.realIf) s).entry.Tidy ∧
        (bids.foldl (Slot.bid cfg.realIf) s).old.Tidy := by
    apply Loops.foldl_invariant (fun s : Slot => s.entry.Tidy ∧ s.old.Tidy) _ _ _ _ hs
    rintro s b hb ⟨hEntry, hOld⟩
    obtain ⟨sender, rfl⟩ := hClaims b hb
    unfold Slot.bid
    dsimp only
    split_ifs with hFree hSame hHigher
    · exact ⟨fun _ => rfl, hOld⟩
    · exact ⟨hEntry, hEntry⟩
    · exact absurd hHigher.2 (by decide)
    · exact ⟨hEntry, hOld⟩
  have hSlot := ripState_slot hVip mess d j
  have hOldSlot := congrArg Slot.old hSlot
  rw [Daemon.slot_old] at hOldSlot
  rw [hOldSlot]
  refine (hBids _ (fun b hb => ?_) _ ⟨hEntry, hOld⟩).2
  rw [hPlain.bidsOn] at hb
  obtain ⟨_, _, rfl⟩ := List.mem_map.mp hb
  exact ⟨mess.realAddress, rfl⟩

theorem Ledger.held_tidy (vip : Fin n → Address) (heard : List StateMess) (j : Fin n) :
    (Ledger.held vip heard j).Tidy := by
  unfold Ledger.held
  cases Ledger.holder vip heard j with
  | some a => exact fun _ => rfl
  | none => exact fun hOwner => absurd rfl hOwner

end Tidy

namespace Follows

variable {cfg : Config n} {addr : Fin m → Address} {d₀ d : Daemon n} {l : Ledger n}

/-- The daemon that enters a view follows the empty log. -/
theorem start (hJoined : Joined cfg addr d₀) (hTidy : ∀ j, (d₀.oldTable j).Tidy) :
    Follows cfg addr d₀ .opening d₀ := by
  have h := hJoined.entered
  have hPos : 0 < m := by
    obtain ⟨k, _⟩ := hJoined.self
    exact Fin.pos k
  exact .gathering false d₀.up hPos rfl
    (Gathering.start h.state h.allocationTable h.members ⟨h.numAllocated, rfl⟩) hTidy

variable (hVip : Function.Injective cfg.pseudoIf) (hMe : cfg.realIf ≠ 0#32)
  (hJoined : Joined cfg addr d₀)

include hVip hMe hJoined

/-- `Handle_state` on a message of the view. -/
theorem handleStateMess {mess : StateMess} (hTold : Told cfg addr d₀ (l.heard ++ [mess]))
    (hStage : l.stage = .gathering) (hGid : d.gid = mess.gid) (h : Follows cfg addr d₀ l d) :
    Follows cfg addr d₀ (l.handle cfg.pseudoIf addr (.state mess))
      (handleStateMess cfg mess d) := by
  cases h with
  | waiting => cases hStage
  | running => cases hStage
  | @gathering heard matured _ raised a hMissing hMatured h hTidy =>
      have hHeard : Heard cfg d₀ (heard ++ [mess]) := hTold.heard
      have hPlain : mess.Plain cfg.pseudoIf := hTold.plain mess (by simp)
      have hBefore : ∀ mess ∈ heard, mess.Plain cfg.pseudoIf := fun mess' hMess =>
        hTold.plain mess' (List.mem_append_left _ hMess)
      rw [Wackamole.handleStateMess, if_pos hGid]
      have hState : d.state = .gather := h.state
      have hEntry (j : Fin n) : (d.allocationTable j).Tidy := by
        have hSettled : d.allocationTable j = Entry.settled (bidsIn cfg.pseudoIf j heard) :=
          h.counted.entry j
        rw [hSettled, settled_of_plain hBefore]
        exact Ledger.held_tidy _ _ j
      have hTidy' (j : Fin n) : ((collectState cfg mess d).oldTable j).Tidy := by
        obtain ⟨events, hCollect⟩ := collectState_of_gather cfg mess hState
        rw [hCollect]
        exact ripState_tidy hVip hPlain (hEntry j) (hTidy j)
      obtain ⟨a', hCollect⟩ := collectState_blind cfg mess d a
      have hHonest := hHeard.honest hVip hJoined.entered
      have hNext := h.collectState hVip hMe hHeard.messages hHonest
      rw [hCollect] at hNext
      generalize collectState cfg mess d = d₁ at hNext hTidy' ⊢
      have hLength : (heard ++ [mess]).length = heard.length + 1 := List.length_append
      have hPending : d₁.numPendingStates = m - (heard.length + 1) := by
        have hCount := hNext.numPendingStates
        rw [hLength] at hCount
        push_cast at hCount
        refine hCount.trans ?_
        change d₀.numPendingStates - _ = _
        rw [hJoined.entered.numPendingStates, hJoined.numMembers]
      have hMaturity : d₁.maturity = (d₀.maturity ||
          ((heard ++ [mess]).any (fun mess => mess.maturity = 1) || raised)) := by
        rw [← Bool.or_assoc]
        exact hNext.maturity
      have hMatured' : (matured || decide (mess.maturity = 1)) =
          ((heard ++ [mess]).any (fun mess => mess.maturity = 1) || raised) := by
        rw [hMatured, List.any_append, List.any_cons, List.any_nil, Bool.or_false]
        cases heard.any fun mess => decide (mess.maturity = 1) <;> cases raised <;> simp
      simp only [Ledger.handle, hLength, hMatured']
      by_cases hLast : heard.length + 1 = m
      · have hDone : d₁.numPendingStates = 0 := by
          rw [hPending]
          omega
        have hAll : (heard ++ [mess]).length = d₀.numMembers := by
          rw [hLength, hLast, hJoined.numMembers]
        have hGathered := hHeard.gathered hVip hMe hJoined.entered hAll hNext
        have hOwn : d₀.maturity = true →
            (heard ++ [mess]).any (fun mess => mess.maturity = 1) = true := by
          intro hMature
          obtain ⟨own, hMem, hIndex⟩ := hHeard.full hAll hJoined.entered.myIndex_lt
          rw [List.any_eq_true]
          refine ⟨own, hMem, ?_⟩
          rw [hHeard.own own hMem (.inl hIndex)]
          simp [stateMess, hMature]
        rw [if_pos hLast]
        by_cases hMature : ((heard ++ [mess]).any (fun mess => mess.maturity = 1) || raised) = true
        · have hMature₁ : d₁.maturity = true := by rw [hMaturity, hMature, Bool.or_true]
          obtain ⟨hInStep, hNamed⟩ := hGathered.inStep hJoined hTold hMature₁
          rw [hMature, if_pos rfl, finishGather_of_mature hDone hMature₁]
          exact .running (hLength.trans hLast) ((settle_maturity d₁).trans hMature₁) hInStep
            hNamed.numAllocated
        · rw [Bool.not_eq_true] at hMature
          have hStart : d₀.maturity = false := by
            rw [← Bool.not_eq_true]
            intro hOld
            rw [hOwn hOld, Bool.true_or] at hMature
            cases hMature
          have hImmature : d₁.maturity = false := by rw [hMaturity, hMature, hStart]; rfl
          rw [hMature, if_neg Bool.false_ne_true, finishGather_of_immature hDone hImmature]
          exact .waiting a' (hLength.trans hLast) rfl hImmature
            (hJoined.entered.immature hStart) (hGathered.withState .boot d₁.maturity d₁.events)
            hTidy'
      · have hMore : d₁.numPendingStates ≠ 0 := by
          rw [hPending]
          omega
        rw [if_neg hLast, finishGather, if_neg hMore]
        exact .gathering raised a' (by rw [hLength]; omega) rfl hNext hTidy'

omit hVip hMe in
/-- `Handle_mature`. -/
theorem handleMature (hTold : Told cfg addr d₀ l.heard) (h : Follows cfg addr d₀ l d) :
    Follows cfg addr d₀ (l.handle cfg.pseudoIf addr .mature) (handleMature cfg d) := by
  cases h with
  | gathering raised a hMissing hMatured h hTidy =>
      obtain ⟨a', hBlind⟩ := handleMature_blind cfg d a
      obtain ⟨events, hSame⟩ := handleMature_of_gather cfg (d := d) h.state
      have hNext := h.mature
      rw [hBlind] at hNext
      refine .gathering true a' hMissing (by rw [Bool.or_true]) hNext fun j => ?_
      rw [hSame]
      exact hTidy j
  | waiting a hAll hState hImmature hNone h hTidy =>
      have hBoot : d = { d with state := .boot } := by
        cases d
        cases hState
        rfl
      have hMatured := h.withState .boot true (d.events.erase .turnMature)
      obtain ⟨hInStep, hNamed⟩ := Gathered.inStep (d := { d with
        state := .boot, maturity := true, events := d.events.erase .turnMature }) hJoined hTold
        hMatured rfl
      rw [hBoot, handleMature_of_boot cfg hImmature]
      exact .running hAll (settle_maturity _) hInStep hNamed.numAllocated
  | running hAll hMature h hCount =>
      rw [Wackamole.handleMature, if_pos hMature]
      exact .running hAll hMature h hCount

omit hMe hJoined in
/-- `Handle_balance`. -/
theorem handleBalanceMoves {moves : List Move} (hNodup : (moves.map Prod.snd).Nodup)
    (hFresh : d.state = .run → cfg.needsForceReup = true ∨ ∀ j,
      (cfg.realIf, cfg.pseudoIf j) ∈ moves → (d.allocationTable j).realIf ≠ cfg.realIf)
    (h : Follows cfg addr d₀ l d) :
    Follows cfg addr d₀ (l.handle cfg.pseudoIf addr (.balance moves))
      (handleBalanceMoves cfg moves d) := by
  cases h with
  | gathering raised a hMissing hMatured h hTidy =>
      rw [handleBalanceMoves_of_gather moves (d := d) h.state]
      exact .gathering raised a hMissing hMatured h hTidy
  | waiting a hAll hState hImmature hNone h hTidy =>
      rw [Wackamole.handleBalanceMoves, if_pos (by simp [hState])]
      exact .waiting a hAll hState hImmature hNone h hTidy
  | running hAll hMature h hCount =>
      have hFresh' := hFresh h.state
      rw [h.allocationTable] at hFresh'
      have hNext := h.handleBalanceMoves hVip hNodup hFresh'
      have hControl := handleBalanceMoves_control cfg moves d
      have hBefore : d.OwnCount cfg := by
        rw [Daemon.OwnCount, hCount, ownedBy_of_iff fun j => by
          rw [h.allocationTable]
          exact (h.up j).symm]
      have hAfter : (Wackamole.handleBalanceMoves cfg moves d).OwnCount cfg :=
        handleBalanceMoves_invariant balanceMove_ownCount (fun _ _ h => h) moves hBefore
      refine .running hAll ((congrArg Control.maturity hControl).trans hMature) hNext ?_
      rw [hAfter, ownedBy_of_iff fun j => by
        rw [hNext.allocationTable]
        exact (hNext.up j).symm]

omit hVip hMe hJoined in
/-- What a received message and a multicast overwrite does not matter. -/
theorem buffered {d' : Daemon n} (hSame : d.Buffered d') (h : Follows cfg addr d₀ l d) :
    Follows cfg addr d₀ l d' := by
  rw [hSame]
  cases h with
  | gathering raised a hMissing hMatured h hTidy =>
      exact .gathering raised a hMissing hMatured
        ⟨⟨h.state, h.gid, h.numMembers, h.myIndex, h.oldMaturity, h.numPendingStates, h.maturity,
          h.table⟩, h.counted.congr rfl rfl rfl, h.heard, h.silent, h.holds.congr (fun _ => rfl) rfl⟩
        hTidy
  | waiting a hAll hState hImmature hNone h hTidy =>
      exact .waiting a hAll hState hImmature hNone
        ⟨h.numMembers, h.myIndex, h.oldMaturity, h.counted.congr rfl rfl rfl, h.heard,
          h.holds.congr (fun _ => rfl) rfl, h.messages, h.honest, h.realIf, h.full, h.self⟩ hTidy
  | running hAll hMature h hCount =>
      exact .running hAll hMature
        ⟨h.state, h.numMembers, h.realIf, h.counts, h.allocationTable, h.up⟩ hCount

omit hVip hMe in
theorem inView (h : Follows cfg addr d₀ l d) : InView cfg d₀ l.heard d := by
  have hNum := hJoined.numMembers
  cases h with
  | gathering raised a hMissing hMatured h hTidy =>
      exact .gathers raised a (hMissing.trans_eq hNum.symm) h
  | waiting a hAll hState hImmature hNone h hTidy =>
      exact .waits a (hAll.trans hNum.symm) hState hImmature hNone h
  | running hAll hMature h hCount =>
      refine .runs (hAll.trans hNum.symm) h.state hMature ⟨hCount, fun j => ?_⟩
      rw [h.allocationTable]
      exact h.up j

omit hMe in
/-- A member in a gather that still tracks what it has up is not stranded. -/
theorem kept (hTold : Told cfg addr d₀ l.heard)
    (hTracks : d.state = .gather → ∀ j ∈ d.up, (d.oldTable j).realIf = cfg.realIf)
    (hOutside : d.state ≠ .run) (h : Follows cfg addr d₀ l d) : Kept cfg d₀ l.heard := by
  cases h with
  | gathering raised a hMissing hMatured h hTidy =>
      rintro j hj hStranded
      have hHonest := hTold.heard.honest hVip hJoined.entered
      have hHeld : (d₀.oldTable j).realIf = cfg.realIf ↔ decide (j ∈ d₀.up) = true := by
        simpa using hHonest.old_iff j
      have hLost := (h.holds.tracked j).lost_iff (hTold.heard.messages.bidsWf j) hHeld
      obtain ⟨hAcquired, hOld⟩ := hLost.mpr ⟨decide_eq_true hj, hStranded⟩
      have hUp : j ∈ d.up := h.holds.sound.acquired_up (of_decide_eq_true hAcquired)
      exact hOld (hTracks h.state j hUp)
  | waiting a hAll hState hImmature hNone h hTidy =>
      intro j hj
      rw [hNone] at hj
      cases hj
  | running hAll hMature h hCount => exact absurd h.state hOutside

/-- If the gather, as far as it has come, has not stranded the member, the next view finds
it accounted for, and with nothing up if it is immature. -/
theorem accounted (hTold : Told cfg addr d₀ l.heard)
    (hTracks : d.state = .gather → ∀ j ∈ d.up, (d.oldTable j).realIf = cfg.realIf)
    (h : Follows cfg addr d₀ l d) : Accounted cfg d ∧ (d.maturity = false → d.up = ∅) := by
  refine (h.inView hJoined).accounted hVip hMe hJoined.entered hTold.heard fun hOutside =>
    ⟨h.kept hVip hJoined hTold hTracks hOutside, ?_⟩
  rintro j ⟨_, hSettled, _⟩
  exact not_taken_of_plain hTold.plain j (congrArg Entry.claimPriority hSettled)

omit hVip hMe hJoined in
/-- The entries that the next view announces are claimed ones. -/
theorem tidy (hTable : ∀ table, l.stage = .running table → ∀ j, (table j).Tidy)
    (h : Follows cfg addr d₀ l d) (j : Fin n) : ((enterView d).oldTable j).Tidy := by
  cases h with
  | gathering raised a hMissing hMatured h hTidy =>
      rw [enterView_oldTable_kept (.inl (by exact h.state))]
      exact hTidy j
  | waiting a hAll hState hImmature hNone h hTidy =>
      rw [enterView_oldTable_kept (.inr hState)]
      exact hTidy j
  | running hAll hMature h hCount =>
      rw [enterView_oldTable_run h.state, h.allocationTable]
      exact hTable _ rfl j

omit hMe in
/-- What `Balance` sends keeps to the members. -/
theorem planned (hAddr : Function.Injective addr) (hRate : cfg.balanceRate < 2 ^ 31)
    (hTable : ∀ table, l.stage = .running table → ∀ j, (table j).claimPriority = claimed)
    (h : Follows cfg addr d₀ l d) (hState : d.state = .run) {mess : BalanceMess}
    (hMess : balanceMess cfg d = some mess) : mess.Planned addr := by
  cases h with
  | gathering raised a hMissing hMatured h hTidy =>
      have hGather : d.state = .gather := h.state
      rw [hGather] at hState
      cases hState
  | waiting a hAll hBoot hImmature hNone h hTidy =>
      rw [hBoot] at hState
      cases hState
  | @running heard table _ hAll hMature h hCount =>
      obtain ⟨k, _⟩ := hJoined.self
      refine h.planned hVip hAddr (Fin.pos k) hRate (fun j => ?_) hMess
      rw [hTable table rfl j]
      decide

end Follows

end Wackamole
