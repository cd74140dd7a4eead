import LimitOrderBook.EngineReasons
import LimitOrderBook.OrderManagerMirror
import LimitOrderBook.OrderManagerRisk

namespace LimitOrderBook

/-!
# Local risk and exchange risk

A command that passes the check of a client's order manager is not rejected by
the engine for a risk reason, even if the manager has not yet consumed the
fills that other clients caused since the client's last command.

The manager that has consumed everything counts what the engine counts.  The
manager that is behind counts at least as much, because what it has not
consumed only takes.
-/

namespace OrderManager

open MatchingEngine

variable {manager : OrderManager} {engine : MatchingEngine} {c : Message}
  {client : ClientId} {slots : Nat}

/-! ## A mirror counts what the engine counts -/

/-- A client's resting orders under its own ids. -/
def restingOf (engine : MatchingEngine) (client : ClientId) :
    List (OrderId × OrderTerms) :=
  (engine.resting.entries.filter fun entry =>
      decide (entry.2.clientId = client)).map fun entry =>
    (entry.2.orderId, entry.2.terms)

theorem mem_restingOf {orderId : OrderId} {terms : OrderTerms} :
    (orderId, terms) ∈ restingOf engine client ↔
      ∃ id m, engine.resting.find? id = some m ∧ m.clientId = client ∧
        m.orderId = orderId ∧ m.terms = terms := by
  simp only [restingOf, List.mem_map, List.mem_filter, decide_eq_true_eq,
    Prod.mk.injEq]
  constructor
  · rintro ⟨⟨id, m⟩, ⟨member, own⟩, sameOrder, sameTerms⟩
    exact ⟨id, m, OrderedMap.mem_entries.mp member, own, sameOrder, sameTerms⟩
  · rintro ⟨id, m, stored, own, sameOrder, sameTerms⟩
    exact ⟨(id, m), ⟨OrderedMap.mem_entries.mpr stored, own⟩, sameOrder,
      sameTerms⟩

theorem restingOf_nodup (sound : engine.Sound slots) (client : ClientId) :
    (restingOf engine client).Nodup := by
  have distinct : engine.resting.entries.Nodup :=
    .of_map Prod.fst engine.resting.keys_nodup
  refine (distinct.filter _).map_on ?_
  rintro ⟨id, m⟩ member ⟨other, n⟩ otherMember same
  simp only [List.mem_filter, decide_eq_true_eq] at member otherMember
  have stored := OrderedMap.mem_entries.mp member.1
  have otherStored := OrderedMap.mem_entries.mp otherMember.1
  have key := sound.linked.find?_key stored
  have otherKey := sound.linked.find?_key otherStored
  rw [member.2, (Prod.mk.inj same).1, ← otherMember.2, otherKey] at key
  cases key
  exact congrArg (Prod.mk id) (Option.some.inj (stored.symm.trans otherStored))

/-- The orders of a mirror are the client's resting orders. -/
theorem Mirrors.perm
    (mirrors : manager.Mirrors engine client) (sound : engine.Sound slots) :
    (manager.orders.entries.map fun entry => (entry.1, entry.2.terms)).Perm
      (restingOf engine client) := by
  have distinct : (manager.orders.entries.map fun entry =>
      (entry.1, entry.2.terms)).Nodup := by
    refine .of_map Prod.fst ?_
    rw [List.map_map]
    exact manager.orders.keys_nodup
  refine (List.perm_ext_iff_of_nodup distinct
    (restingOf_nodup sound client)).mpr ?_
  rintro ⟨orderId, terms⟩
  rw [mem_restingOf]
  refine Iff.trans ?_ sound.linked.blotter_eq_some
  rw [← mirrors.shows.orders, List.mem_map, Option.map_eq_some_iff]
  constructor
  · rintro ⟨⟨id, order⟩, member, same⟩
    cases same
    exact ⟨order, OrderedMap.mem_entries.mp member, rfl⟩
  · rintro ⟨order, found, same⟩
    exact ⟨(orderId, order), OrderedMap.mem_entries.mpr found,
      congrArg (Prod.mk orderId) same⟩

/-- The contribution of the resting orders of one client. -/
def ofClient {μ : Type} [AddMonoid μ] (client : ClientId) (f : OrderTerms → μ)
    (_ : OrderId) (m : Message) : μ :=
  if m.clientId = client then f m.terms else 0

theorem Mirrors.total
    {μ : Type} [AddCommMonoid μ] (mirrors : manager.Mirrors engine client)
    (sound : engine.Sound slots) (f : OrderTerms → μ) :
    (manager.orders.total fun _ order => f order.terms) =
      engine.resting.total (ofClient client f) := by
  have sums := ((mirrors.perm sound).map fun entry => f entry.2).sum_eq
  rw [List.map_map, restingOf, List.map_map] at sums
  refine sums.trans ?_
  unfold OrderedMap.total
  induction engine.resting.entries with
  | nil => rfl
  | cons entry rest inductionHypothesis =>
      by_cases own : entry.2.clientId = client
      · simp only [List.filter_cons, own, decide_true, if_true, List.map_cons,
          List.sum_cons, ofClient]
        exact congrArg (f entry.2.terms + ·) inductionHypothesis
      · simp only [List.filter_cons, own, decide_false, Bool.false_eq_true,
          if_false, List.map_cons, List.sum_cons, ofClient, zero_add]
        exact inductionHypothesis

/-- No order is stored under the id that stands for a new one. -/
theorem erase_zero (sound : engine.Sound slots) :
    engine.resting.erase 0 = engine.resting := by
  refine OrderedMap.erase_of_find?_none ?_
  cases found : engine.resting.find? 0 with
  | none => rfl
  | some m =>
      exact absurd (sound.linked.numbered 0 m found).2.1 (Nat.lt_irrefl 0)

/-- The same when an order that is being replaced is left out. -/
theorem Mirrors.total_others
    {μ : Type} [AddCancelCommMonoid μ] {oldId : OrderId}
    (mirrors : manager.Mirrors engine c.clientId) (sound : engine.Sound slots)
    (action : c.action = .new ∨ c.action = .replace)
    (replaces : engine.replacing c = some oldId) (f : OrderTerms → μ) :
    ((manager.others c).total fun _ order => f order.terms) =
      (engine.resting.erase oldId).total (ofClient c.clientId f) := by
  have whole := mirrors.total sound f
  rcases action with isNew | isReplace
  · rw [replacing, if_pos isNew] at replaces
    cases replaces
    rw [others, if_neg (by rw [isNew]; decide), erase_zero sound]
    exact whole
  · rw [replacing, if_neg (by rw [isReplace]; decide)] at replaces
    rw [others, if_pos isReplace]
    obtain ⟨old, stored, own, named⟩ : ∃ old,
        engine.resting.find? oldId = some old ∧ old.clientId = c.clientId ∧
          old.orderId = c.orderId := (sound.linked.keyed _ _ _).mp replaces
    obtain ⟨order, found, sameTerms⟩ : ∃ order,
        manager.orders.find? c.orderId = some order ∧
          order.terms = old.terms := by
      refine Option.map_eq_some_iff.mp ?_
      rw [mirrors.shows.orders, ← own, ← named]
      exact sound.linked.blotter_of_found stored
    rw [OrderedMap.total_erase_of_find?_some found,
      OrderedMap.total_erase_of_find?_some stored, ofClient, if_pos own,
      sameTerms] at whole
    exact add_left_cancel whole

/-- A mirror has the exposure that the engine checks. -/
theorem Mirrors.exposure
    {oldId : OrderId} (mirrors : manager.Mirrors engine c.clientId)
    (sound : engine.Sound slots)
    (action : c.action = .new ∨ c.action = .replace)
    (replaces : engine.replacing c = some oldId) :
    (manager.exposure c).reserved = (engine.exposure c oldId).reserved ∧
      (manager.exposure c).openOrders =
        (engine.exposure c oldId).openOrders := by
  constructor
  · rw [exposure_reserved, MatchingEngine.exposure_reserved,
      mirrors.total_others sound action replaces]
    congr 1
    funext id m
    simp only [ofClient, reservedOn, heldBy, Message.terms]
    exact (ite_and ..).symm
  · rw [exposure_openOrders, MatchingEngine.exposure_openOrders]
    exact mirrors.total_others sound action replaces fun _ => 1

/--
A client whose mirror counts no more than a manager that lets a command pass
can afford the command.
-/
theorem Passes.affords
    {later : OrderManager} {oldId : OrderId} {limits : InstrumentRules}
    (passes : manager.Passes c limits)
    (covers : c.side.Listed → manager.Covers later c)
    (mirrors : later.Mirrors engine c.clientId) (sound : engine.Sound slots)
    (keeps : engine.KeepsLimits)
    (rules : engine.instruments.find? c.instrumentId = some limits)
    (action : c.action = .new ∨ c.action = .replace)
    (replaces : engine.replacing c = some oldId) :
    Turn.Affords engine c oldId limits where
  size := passes.size
  notional := passes.notional
  risk side := by
    obtain ⟨reserved, openOrders⟩ := mirrors.exposure sound action replaces
    have covered := covers side
    refine ⟨?_, ?_⟩
    · rw [← openOrders]
      exact Nat.lt_of_le_of_lt covered.openOrders passes.openOrders
    · have above := Int.le_trans
        (Int.add_le_add_right covered.atRisk _) passes.atRisk
      rw [OrderManager.atRisk, mirrors.shows.position, reserved] at above
      -- The position alone keeps within the limit on the other side.
      have bounded := keeps.limited.bounded c.clientId c.instrumentId
      rw [positionLimit_of_find? rules] at bounded
      have held : 0 ≤ (engine.exposure c oldId).reserved := by
        rw [MatchingEngine.exposure_reserved]
        exact total_nonneg _ (heldBy_nonneg _ _ _)
      have quantity := Int.natCast_nonneg c.quantity
      unfold worst
      rcases side with isBid | isAsk
      · simp only [isBid, Side.sign, if_true] at above ⊢
        omega
      · simp only [isAsk, Side.sign, reduceCtorEq, if_false] at above ⊢
        omega

/-! ## The reports that a manager has still to consume -/

variable {pool : PoolBytes} {turn : Turn} {reports pending : List Message}

/-- What a client hears of other clients takes from the orders of its mirror. -/
theorem Shows.drains
    {blotter : Blotter} {positions : Positions}
    (shows : manager.Shows client blotter positions)
    (kinds : ∀ m ∈ reports, m.kind = .report)
    (later : ∀ m ∈ reports, manager.lastReport < m.sequence)
    (rising : reports.Pairwise fun earlier later =>
      earlier.sequence < later.sequence)
    (fulfils : Blotter.Fulfils client blotter reports) :
    manager.Drains (reports.filter fun m => decide (m.clientId = client)) := by
  induction reports using List.reverseRecOn with
  | nil => trivial
  | append_singleton front m inductionHypothesis =>
      obtain ⟨frontFulfils, fulfilled⟩ := fulfils.split
      have frontKinds : ∀ m ∈ front, m.kind = .report :=
        fun other member => kinds other (List.mem_append_left _ member)
      have frontLater : ∀ m ∈ front, manager.lastReport < m.sequence :=
        fun other member => later other (List.mem_append_left _ member)
      have frontRising := (List.pairwise_append.mp rising).1
      rw [List.filter_append]
      refine (inductionHypothesis frontKinds frontLater frontRising
        frontFulfils).append ?_
      by_cases own : m.clientId = client
      · obtain ⟨terms, held, takes⟩ := fulfilled own
        have shown := (shows.consumeAll frontKinds frontLater
          frontRising).orders m.orderId
        rw [held] at shown
        obtain ⟨order, found, rfl⟩ := Option.map_eq_some_iff.mp shown
        rw [List.filter_cons_of_pos (by simpa using own)]
        exact ⟨Or.inr (Or.inr ⟨order, found, takes⟩), trivial⟩
      · rw [List.filter_cons_of_neg (by simpa using own)]
        trivial

/-- No completion comes last, so none is left behind. -/
theorem nil_of_completed
    {front earlier : List Message} {last : Message}
    (parts : front ++ [last] = earlier ++ pending)
    (completes : last.report = .complete)
    (noComplete : ∀ m ∈ pending, m.report ≠ .complete) : pending = [] := by
  rcases List.eq_nil_or_concat' pending with isNil | ⟨rest, other, rfl⟩
  · exact isNil
  · rw [← List.append_assoc] at parts
    obtain ⟨_, same⟩ := List.append_inj' parts rfl
    cases same
    exact absurd completes (noComplete last (by simp))

/--
Of the reports of one call, those after its completion only take from what the
manager holds by then.
-/
theorem Mirrors.drains
    {earlier : List Message} (mirrors : manager.Mirrors engine client)
    (reachable : Reachable pool engine)
    (processed : engine.process c = .ok turn)
    (parts : turn.batch.addressedTo client = earlier ++ pending)
    (noComplete : ∀ m ∈ pending, m.report ≠ .complete) :
    (manager.consumeAll earlier).Drains pending := by
  obtain ⟨outcome, _⟩ := reachable.outcome_of processed
  have sound := reachable.invariant.sound
  have inBatch : ∀ m ∈ pending, m ∈ turn.batch.reports ∧ m.clientId = client := by
    intro m member
    have addressed : m ∈ turn.batch.addressedTo client := by
      rw [parts]
      exact List.mem_append_right _ member
    simpa [Batch.addressedTo] using addressed
  by_cases retries : engine.Retries c
  · rw [outcome.of_retries retries] at inBatch
    refine drains_of_stale fun m member => ?_
    obtain ⟨cached, own⟩ := inBatch m member
    have sameClient := (reachable.cachesOwn c.clientId m cached).symm.trans own
    rw [← sameClient] at mirrors
    exact (mirrors.answered m cached).mono (lastReport_le_consumeAll manager _)
  by_cases own : c.clientId = client
  · have completed : ∀ (done : Turn) (m : Message),
        turn.batch = (done.report m .complete).batch → m.clientId = client →
        (manager.consumeAll earlier).Drains pending := by
      intro done m batch ownReport
      have last : (done.report m .complete).batch.addressedTo client =
          done.batch.addressedTo client ++ [m.asReport .complete .none
            done.engine.epoch (done.engine.responseSequence + 1)] := by
        simp [Batch.addressedTo, Turn.report, Message.asReport, ownReport]
      rw [batch, last] at parts
      rw [nil_of_completed parts rfl noComplete]
      trivial
    cases outcome with
    | refused _ =>
        refine drains_of_silent fun m member => Or.inl ?_
        rw [List.mem_singleton.mp (inBatch m member).1]
    | status _ _ =>
        refine drains_of_silent fun m member => Or.inr ?_
        rw [List.mem_singleton.mp (inBatch m member).1]
    | anonymous _ _ => exact completed _ c rfl own
    | retried isRetry => exact absurd isRetry retries
    | unsequenced _ _ _ _ _ => exact completed _ c rfl own
    | @handled done _ _ =>
        exact completed _ (done.completion c) rfl
          ((completion_fields done c).1.trans own)
  · have stamps := outcome.stamps retries
    have drains := mirrors.shows.drains stamps.kinds
      (fun m member => Nat.lt_of_le_of_lt mirrors.behind
        (stamps.within m member).1) stamps.rising
      (outcome.fulfils sound (fun same => own same.symm) retries)
    change manager.Drains (turn.batch.addressedTo client) at drains
    rw [parts] at drains
    exact drains.suffix

/-! ## Runs -/

/--
What a client hears during a run of the engine from one state to another, in
which every command is one that is admitted.
-/
inductive Heard (client : ClientId)
    (admits : MatchingEngine → Message → Prop) (first : MatchingEngine) :
    List Message → MatchingEngine → Prop where
  | nothing : Heard client admits first [] first
  | step {engine : MatchingEngine} {reports : List Message} {c : Message}
      {turn : Turn} :
      Heard client admits first reports engine →
      admits engine c →
      engine.process c = .ok turn →
      Heard client admits first (reports ++ turn.batch.addressedTo client)
        turn.engine

variable {first later : MatchingEngine} {more : List Message}

theorem consumeAll_append
    (manager : OrderManager) (earlier reports : List Message) :
    manager.consumeAll (earlier ++ reports) =
      (manager.consumeAll earlier).consumeAll reports :=
  List.foldl_append

/--
All reports together give a mirror of the engine, and those after the last
completion only take.
-/
structure Followed (pool : PoolBytes) (client : ClientId)
    (engine : MatchingEngine) (reports : List Message) : Prop where
  reachable : Reachable pool engine
  mirrors : (consumeAll {} reports).Mirrors engine client
  drains : ∀ consumed pending, reports = consumed ++ pending →
    (∀ m ∈ pending, m.report ≠ .complete) →
    (consumeAll {} consumed).Drains pending

theorem Followed.start (created : Created pool engine) (client : ClientId) :
    Followed pool client engine [] where
  reachable := .start created
  mirrors := .start created client
  drains consumed pending parts _ := by
    obtain ⟨_, rfl⟩ := List.append_eq_nil_iff.mp parts.symm
    trivial

theorem Followed.step
    (followed : Followed pool client engine reports)
    (truthful : engine.Truthful client c)
    (processed : engine.process c = .ok turn) :
    Followed pool client turn.engine
      (reports ++ turn.batch.addressedTo client) where
  reachable := .step followed.reachable processed
  mirrors := by
    rw [consumeAll_append]
    exact followed.mirrors.step followed.reachable truthful processed
  drains consumed pending parts noComplete := by
    rcases List.append_eq_append_iff.mp parts with
      ⟨fresh, rfl, new⟩ | ⟨old, rfl, rfl⟩
    · rw [consumeAll_append]
      exact followed.mirrors.drains followed.reachable processed new noComplete
    · refine (followed.drains consumed old rfl fun m member =>
        noComplete m (List.mem_append_left _ member)).append ?_
      rw [← consumeAll_append]
      exact followed.mirrors.drains followed.reachable processed
        (List.nil_append _).symm fun m member =>
          noComplete m (List.mem_append_right _ member)

theorem Heard.followed
    (heard : Heard client (Truthful · client) first more later)
    (followed : Followed pool client first reports) :
    Followed pool client later (reports ++ more) := by
  induction heard with
  | nothing =>
      rw [List.append_nil]
      exact followed
  | step _ truthful processed inductionHypothesis =>
      rw [← List.append_assoc]
      exact inductionHypothesis.step truthful processed

theorem Heard.after
    {admits : MatchingEngine → Message → Prop} {answers : List Message}
    (heard : Heard client admits first reports engine)
    (admitted : admits engine c)
    (answered : ((engine.process c).map fun turn =>
      turn.batch.addressedTo client).toOption = some answers) :
    Heard client admits first (reports ++ answers) (engine.after [c]) := by
  cases processed : engine.process c with
  | error fault =>
      rw [processed] at answered
      cases answered
  | ok turn =>
      rw [processed] at answered
      cases answered
      have next : engine.after [c] = turn.engine := by
        simp [MatchingEngine.after, processed]
      rw [next]
      exact .step heard admitted processed

theorem Heard.mono
    {admits admitsMore : MatchingEngine → Message → Prop}
    (heard : Heard client admits first reports engine)
    (weaker : ∀ engine c, admits engine c → admitsMore engine c) :
    Heard client admitsMore first reports engine := by
  induction heard with
  | nothing => exact .nothing
  | step _ admitted processed inductionHypothesis =>
      exact .step inductionHypothesis (weaker _ _ admitted) processed

/-- Somebody else sends a command. -/
def Foreign (client : ClientId) (_ : MatchingEngine) (c : Message) : Prop :=
  c.clientId ≠ client

theorem Foreign.truthful
    (foreign : Foreign client engine c) : engine.Truthful client c :=
  fun own => absurd own foreign

/-- Other clients' commands bring no completion. -/
theorem Heard.noComplete
    (heard : Heard client (Foreign client) first more later)
    (reachable : Reachable pool first) :
    Reachable pool later ∧ ∀ m ∈ more, m.report ≠ .complete := by
  induction heard with
  | nothing => exact ⟨reachable, fun m member => by cases member⟩
  | @step engine reports c turn _ foreign processed inductionHypothesis =>
      obtain ⟨before, noComplete⟩ := inductionHypothesis
      obtain ⟨outcome, after⟩ := before.outcome_of processed
      refine ⟨after, fun m member => ?_⟩
      rcases List.mem_append.mp member with old | new
      · exact noComplete m old
      obtain ⟨inBatch, own⟩ : m ∈ turn.batch.reports ∧ m.clientId = client := by
        simpa [Batch.addressedTo] using new
      by_cases retries : engine.Retries c
      · rw [outcome.of_retries retries] at inBatch
        exact absurd ((before.cachesOwn c.clientId m inBatch).symm.trans own)
          foreign
      · have fulfils := outcome.fulfils before.invariant.sound
          (fun same => foreign same.symm) retries
        rw [fulfils.fill inBatch own]
        decide

/-- The rules of the instruments never change. -/
theorem Heard.instruments
    {admits : MatchingEngine → Message → Prop}
    (heard : Heard client admits first more later)
    (reachable : Reachable pool first) :
    Reachable pool later ∧ later.instruments = first.instruments := by
  induction heard with
  | nothing => exact ⟨reachable, rfl⟩
  | step _ _ processed inductionHypothesis =>
      obtain ⟨before, same⟩ := inductionHypothesis
      obtain ⟨outcome, after⟩ := before.outcome_of processed
      exact ⟨after, (outcome.instruments before.invariant.sound).trans same⟩

/-! ## The two checks agree -/

/--
Suppose a client's refused commands all state what is left of the live orders
they name.  If the check of its manager lets a command pass, after a part of
the client's reports with the last completion, then after any further commands
of other clients the engine does not reject it for a risk reason, whatever the
loss test has come to.  Where the command replaces an order, that order has no
fill that was not consumed.
-/
theorem check_agrees
    {consumed : List Message} {limits : InstrumentRules}
    {market : MarketReplica} {pastLoss : Bool}
    (created : Created pool first)
    (heard : Heard c.clientId (Truthful · c.clientId) first
      (consumed ++ pending) engine)
    (noComplete : ∀ m ∈ pending, m.report ≠ .complete)
    (rules : engine.instruments.find? c.instrumentId = some limits)
    (passed : (consumeAll {} consumed).checkWith pastLoss c limits market =
      .none)
    (meanwhile : Heard c.clientId (Foreign c.clientId) engine more later)
    (sequenced : later.WellSequenced c)
    (action : c.action = .new ∨
      c.action = .replace ∧
        ∀ m ∈ pending ++ more, m.report = .fill → m.orderId ≠ c.orderId) :
    ∃ turn, later.process c = .ok turn ∧
      ∀ m ∈ turn.batch.reports, m.report = .rejected →
        m.reject ≠ .riskQuantity ∧ m.reject ≠ .riskNotional ∧
          m.reject ≠ .riskOpenOrders ∧ m.reject ≠ .riskPosition := by
  have before : Followed pool c.clientId engine (consumed ++ pending) :=
    heard.followed (.start created c.clientId)
  have after : Followed pool c.clientId later (consumed ++ (pending ++ more)) := by
    rw [← List.append_assoc]
    exact (meanwhile.mono fun _ _ => Foreign.truthful).followed before
  have sound := after.reachable.invariant.sound
  have drains : (consumeAll {} consumed).Drains (pending ++ more) := by
    refine after.drains consumed _ rfl fun m member => ?_
    rcases List.mem_append.mp member with old | new
    · exact noComplete m old
    · exact (meanwhile.noComplete before.reachable).2 m new
  have opens : c.action = .new ∨ c.action = .replace := by
    rcases action with isNew | ⟨isReplace, _⟩
    · exact Or.inl isNew
    · exact Or.inr isReplace
  have covers : c.side.Listed → (consumeAll {} consumed).Covers
      (consumeAll {} (consumed ++ (pending ++ more))) c := by
    intro side
    rw [consumeAll_append]
    refine drains.covers side fun isReplace => ?_
    rcases action with isNew | ⟨_, unfilled⟩
    · rw [isReplace] at isNew
      cases isNew
    · exact unfilled
  obtain ⟨turn, processed, _⟩ := after.reachable.outcome c
  have unrisked := after.reachable.unrisked sequenced opens
    (fun oldId replaces r found => by
      rw [(meanwhile.instruments before.reachable).2, rules] at found
      cases found
      refine (passes_of_check opens passed).affords covers after.mirrors sound
        after.reachable.keepsLimits ?_ opens replaces
      rw [(meanwhile.instruments before.reachable).2, rules]) processed
  refine ⟨turn, processed, fun m member rejects => ?_⟩
  have harmless := unrisked m member rejects
  simpa only [Reject.Risk, not_or] using harmless

/-- A second order is sent before the fills of the first one are consumed. -/
theorem check_agrees_behind_two_fills :
    ∃ consumed pending engine more later turn,
      Heard 7 (Truthful · 7) single (consumed ++ pending) engine ∧
        pending.map Message.report = [.fill] ∧
        Heard 7 (Foreign 7) engine more later ∧
        more.map Message.report = [.fill] ∧
        (consumeAll {} consumed).check
            { clientId := 7, requestId := 2, orderId := 2
              instrumentId := 1, price := 10, quantity := 3 } {}
            { pool := .capacity, synchronized := true } 1000 = .none ∧
        later.process
            { clientId := 7, requestId := 2, orderId := 2
              instrumentId := 1, price := 10, quantity := 3 } = .ok turn ∧
        ∀ m ∈ turn.batch.reports, m.report = .rejected →
          m.reject ≠ .riskQuantity ∧ m.reject ≠ .riskNotional ∧
            m.reject ≠ .riskOpenOrders ∧ m.reject ≠ .riskPosition := by
  let order : Message :=
    { clientId := 7, requestId := 1, orderId := 1
      instrumentId := 1, price := 10, quantity := 5 }
  let sale (number : Nat) : Message :=
    { clientId := 8, requestId := number, orderId := number, side := .ask
      instrumentId := 1, price := 10, quantity := 2 }
  let c : Message :=
    { clientId := 7, requestId := 2, orderId := 2
      instrumentId := 1, price := 10, quantity := 3 }
  let answers : List Message :=
    [{ order.asReport .accepted .none 1 1 with
        exchangeId := 1, remaining := 5 },
      { order.asReport .complete .none 1 2 with
        exchangeId := 1, remaining := 5 }]
  let fill : Message :=
    { order.asReport .fill .none 1 4 with
      exchangeId := 1, quantity := 2, remaining := 3, tradeId := 1 }
  let fillAgain : Message :=
    { order.asReport .fill .none 1 8 with
      exchangeId := 1, quantity := 2, remaining := 1, tradeId := 2 }
  have created : Created .capacity single :=
    ⟨OrderedMap.empty.insert 1 {}, 1, rfl⟩
  have foreign : ∀ engine number, Foreign 7 engine (sale number) :=
    fun _ _ => (by decide : (8 : ClientId) ≠ 7)
  have ordered : Heard 7 (Truthful · 7) single ([] ++ answers)
      (single.after [order]) := by
    refine Heard.nothing.after (InSequence.truthful fun _ _ => Or.inl ?_)
      (by decide +kernel)
    exact ⟨⟨rfl, by decide, by decide⟩, by decide, rfl⟩
  have heard : Heard 7 (Truthful · 7) single (answers ++ [fill])
      ((single.after [order]).after [sale 1]) :=
    ordered.after (foreign _ 1).truthful (by decide +kernel)
  have meanwhile : Heard 7 (Foreign 7) ((single.after [order]).after [sale 1])
      ([] ++ [fillAgain])
      (((single.after [order]).after [sale 1]).after [sale 2]) :=
    Heard.nothing.after (foreign _ 2) (by decide +kernel)
  have passed : (consumeAll {} answers).check c {}
      { pool := .capacity, synchronized := true } 1000 = .none := by
    decide +kernel
  have anyLoss : (consumeAll {} answers).checkWith false c {}
      { pool := .capacity, synchronized := true } = .none := by
    decide +kernel
  have sequenced :
      (((single.after [order]).after [sale 1]).after [sale 2]).WellSequenced
        c :=
    ⟨⟨rfl, by decide, by decide⟩, by decide, by decide +kernel⟩
  obtain ⟨turn, placed, harmless⟩ := check_agrees created heard (by decide)
    (by decide +kernel) anyLoss meanwhile sequenced (Or.inl rfl)
  exact ⟨answers, [fill], _, _, _, turn, heard, rfl, meanwhile, rfl, passed,
    placed, harmless⟩

/--
A cancellation with a request number that is too high makes the manager forget
an order.  The check then lets a second order pass, which the engine rejects.
-/
theorem check_misses_live_order :
    ∃ first engine consumed turn,
      Created .capacity first ∧
        Heard 7 (fun _ _ => True) first consumed engine ∧
        engine.instruments.find? 1 = some { maxOpenOrders := 1 } ∧
        (consumeAll {} consumed).check
            { clientId := 7, requestId := 2, orderId := 2
              instrumentId := 1, price := 10, quantity := 5 }
            { maxOpenOrders := 1 }
            { pool := .capacity, synchronized := true } 1000 = .none ∧
        engine.WellSequenced
            { clientId := 7, requestId := 2, orderId := 2
              instrumentId := 1, price := 10, quantity := 5 } ∧
        engine.process
            { clientId := 7, requestId := 2, orderId := 2
              instrumentId := 1, price := 10, quantity := 5 } = .ok turn ∧
        ∃ m ∈ turn.batch.reports,
          m.report = .rejected ∧ m.reject = .riskOpenOrders := by
  let order : Message :=
    { clientId := 7, requestId := 1, orderId := 1
      instrumentId := 1, price := 10, quantity := 5 }
  let cancel : Message :=
    { action := .cancel, clientId := 7, requestId := 5, orderId := 1
      instrumentId := 1 }
  let c : Message :=
    { clientId := 7, requestId := 2, orderId := 2
      instrumentId := 1, price := 10, quantity := 5 }
  let instruments : Instruments :=
    OrderedMap.empty.insert 1 { maxOpenOrders := 1 }
  let first : MatchingEngine :=
    { instruments := instruments
      books := instruments.mapValues fun _ => PoolBytes.capacity.book
      epoch := 1 }
  let answers : List Message :=
    [{ order.asReport .accepted .none 1 1 with
        exchangeId := 1, remaining := 5 },
      { order.asReport .complete .none 1 2 with
        exchangeId := 1, remaining := 5 }]
  let refusal : List Message :=
    [cancel.asReport .rejected .sequence 1 3,
      cancel.asReport .complete .none 1 4]
  have created : Created .capacity first := ⟨instruments, 1, rfl⟩
  have ordered : Heard 7 (fun _ _ => True) first ([] ++ answers)
      (first.after [order]) :=
    Heard.nothing.after trivial (by decide +kernel)
  have heard : Heard 7 (fun _ _ => True) first (answers ++ refusal)
      ((first.after [order]).after [cancel]) :=
    ordered.after trivial (by decide +kernel)
  obtain ⟨reachable, sameRules⟩ := heard.instruments (.start created)
  obtain ⟨turn, processed, _⟩ := reachable.outcome c
  have evaluated : ((((first.after [order]).after [cancel]).process c).map
      fun turn => turn.batch.reports.map fun m => (m.report, m.reject)).toOption =
      some [(.rejected, .riskOpenOrders), (.complete, .none)] := by
    decide +kernel
  rw [processed] at evaluated
  simp only [Except.map, Except.toOption, Option.some.injEq] at evaluated
  obtain ⟨m, member, same⟩ :=
    List.mem_map.mp (evaluated ▸ List.mem_cons_self)
  refine ⟨first, _, answers ++ refusal, turn, created, heard, ?_, ?_, ?_,
    processed, m, member, congrArg Prod.fst same, congrArg Prod.snd same⟩
  · rw [sameRules]
    rfl
  · decide +kernel
  · exact ⟨⟨rfl, by decide, by decide⟩, by decide, by decide +kernel⟩

end OrderManager

end LimitOrderBook
