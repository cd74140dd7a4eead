import LimitOrderBook.EngineReplies
import LimitOrderBook.Fallible

namespace LimitOrderBook

/-!
# Where a risk rejection comes from

`submit` gives a risk reason only when the quantity or the price of the command
exceeds a rule of its instrument, or when the client's resting orders and its
position do together with it.  No part of the engine after the checks gives one.
-/

/-- The reasons of the risk checks. -/
def Reject.Risk (reason : Reject) : Prop :=
  reason = .riskQuantity ∨ reason = .riskNotional ∨
    reason = .riskOpenOrders ∨ reason = .riskPosition

instance (reason : Reject) : Decidable reason.Risk :=
  inferInstanceAs (Decidable (_ ∨ _))

namespace Turn

variable {turn final : Turn} {c : Message}

/-- No report so far rejects for a risk reason. -/
def Unrisked (turn : Turn) : Prop :=
  ∀ m ∈ turn.batch.reports, m.report = .rejected → ¬ m.reject.Risk

/-- A computation that gives no risk reason, if it answers. -/
def Spares (first : Except Fault Turn) : Prop :=
  Fallible.Ends (fun _ => True) Unrisked first

/-- Adding a report that states no risk reason. -/
theorem Unrisked.report
    (unrisked : turn.Unrisked) (m : Message) {type : ReportType}
    {reason : Reject} (harmless : type = .rejected → ¬ reason.Risk) :
    (turn.report m type reason).Unrisked := by
  intro reported member
  rcases List.mem_append.mp member with before | isNew
  · exact unrisked reported before
  · rw [List.mem_singleton.mp isNew]
    exact harmless

theorem Unrisked.reject
    (unrisked : turn.Unrisked) (c : Message) {reason : Reject}
    (harmless : ¬ reason.Risk) : (turn.reject c reason).Unrisked := by
  intro reported member
  rcases List.mem_append.mp member with before | isNew
  · exact unrisked reported before
  · rw [List.mem_singleton.mp isNew]
    exact fun _ => harmless

/-- A call of a book reports nothing. -/
theorem applyBook_spares
    (unrisked : turn.Unrisked) (instrument : InstrumentId)
    (operation : OrderBook → OrderBook × ApplyResult) (text : String) :
    Spares (turn.applyBook instrument operation text) := by
  unfold applyBook
  refine Fallible.Ends.bind (.anyhow _) fun book _ => ?_
  refine Fallible.Ends.bind (.anyhow _) fun _ _ => ?_
  exact unrisked

/-- Each part of a placement leaves a turn without a risk reason. -/
theorem reduce_spares
    (unrisked : turn.Unrisked) (oldId : OrderId) (old : Message) :
    Spares (turn.reduce c oldId old) := by
  unfold reduce
  by_cases reduced : old.quantity - c.quantity ≠ 0
  · simp only [if_pos reduced]
    refine Fallible.Ends.bind (applyBook_spares unrisked _ _ _)
      fun done doneUnrisked => ?_
    exact Unrisked.report doneUnrisked _ (by decide)
  · simp only [if_neg reduced]
    exact Unrisked.report unrisked _ (by decide)

theorem retire_spares
    (unrisked : turn.Unrisked) (oldId newId : OrderId) (restsHere : Bool) :
    Spares (turn.retire c oldId newId restsHere) := by
  unfold retire
  refine Fallible.Ends.bind (.anyhow _) fun old _ => ?_
  refine Fallible.Ends.bind (applyBook_spares unrisked _ _ _)
    fun done doneUnrisked => ?_
  cases restsHere with
  | true =>
      refine Fallible.Ends.bind (.anyhow _) fun _ _ => ?_
      exact doneUnrisked
  | false => exact doneUnrisked

theorem enter_spares
    (unrisked : turn.Unrisked) (oldId : OrderId) (incoming : Message)
    (restsHere : Bool) : Spares (turn.enter c oldId incoming restsHere) := by
  have entered : ∀ done : Turn, done.Unrisked →
      ((done.raiseOrderId c).report incoming
        (if oldId = 0 then .accepted else .replaced)).Unrisked := by
    intro done doneUnrisked
    have raised : (done.raiseOrderId c).Unrisked := doneUnrisked
    refine raised.report _ ?_
    split
    · exact fun same => by cases same
    · exact fun same => by cases same
  unfold enter
  by_cases replaces : oldId ≠ 0
  · simp only [if_pos replaces]
    refine Fallible.Ends.bind (retire_spares ?_ _ _ _) entered
    exact unrisked
  · simp only [if_neg replaces]
    exact entered _ unrisked

theorem settle_spares
    (unrisked : turn.Unrisked) (maker : Message) (fill : Fill) :
    Spares (turn.settle maker c fill) := by
  unfold settle
  refine Fallible.Ends.bind (.anyhow _) fun makerPosition _ => ?_
  refine Fallible.Ends.bind (.anyhow _) fun takerPosition _ => ?_
  exact unrisked

theorem executeFill_spares
    (incoming : Message) {state : Turn × Quantity} (fill : Fill)
    (unrisked : state.1.Unrisked) :
    Fallible.Ends (fun _ => True) (fun after => Unrisked after.1)
      (executeFill c incoming state fill) := by
  obtain ⟨turn, before⟩ := state
  unfold executeFill
  refine Fallible.Ends.bind (.anyhow _) fun stored _ => ?_
  refine Fallible.Ends.bind (applyBook_spares ?_ _ _ _)
    fun done doneUnrisked => ?_
  · exact unrisked
  · refine Fallible.Ends.bind (settle_spares ?_ _ _)
      fun settled settledUnrisked => ?_
    · refine Unrisked.report ?_ _ (by decide)
      exact doneUnrisked.report _ (by decide)
    · by_cases gone : stored.quantity - fill.size = 0
      · simp only [if_pos gone]
        exact settledUnrisked
      · simp only [if_neg gone]
        exact settledUnrisked

/-- What rests or is cancelled in the end is no matter of risk. -/
theorem publishResidual_unrisked
    (unrisked : turn.Unrisked) (incoming : Message) (leaves : Quantity)
    (restsHere : Bool) :
    (turn.publishResidual incoming leaves restsHere).Unrisked := by
  unfold publishResidual
  split
  · exact unrisked
  · split
    · exact unrisked.report _ (by decide)
    · exact unrisked

/-- What the visitor of a plan may reject for. -/
def Planned (reason : Reject) : Prop :=
  reason = .none ∨ reason = .postOnly ∨ reason = .selfTrade

/-- The plan stops a command only for a reason of its own. -/
theorem planVisitor_planned
    (engine : MatchingEngine) (c : Message) {plan : Plan} (order : OrderView)
    (planned : Planned plan.rejection) :
    Fallible.Ends (fun _ => True) (fun next => Planned next.1.rejection)
      (planVisitor engine c plan order) := by
  unfold planVisitor
  refine .ite (fun _ => planned) fun _ => ?_
  refine .ite (fun _ => Or.inr (Or.inl rfl)) fun _ => ?_
  refine Fallible.Ends.bind (.anyhow _) fun owner _ => ?_
  exact .ite (fun _ => Or.inr (Or.inr rfl)) fun _ => planned

/-- The walk over the other side keeps what its visitor keeps. -/
theorem visitWhile_planned
    (engine : MatchingEngine) (c : Message) {plan : Plan}
    (orders : List OrderView) (planned : Planned plan.rejection) :
    Fallible.Ends (fun _ => True) (fun final => Planned final.rejection)
      (OrderBook.visitWhile (planVisitor engine c) plan orders) := by
  induction orders generalizing plan with
  | nil => exact planned
  | cons order rest inductionHypothesis =>
      refine Fallible.Ends.bind (planVisitor_planned engine c order planned) ?_
      rintro ⟨next, more⟩ nextPlanned
      exact .ite (fun _ => inductionHypothesis nextPlanned) fun _ => nextPlanned

/-- A reservation says nothing to anybody. -/
theorem reserve_batch
    (turn : Turn) (c : Message) (oldId : OrderId) (rest : Message)
    (book : OrderBook) :
    (turn.reserve c oldId rest book).1.batch = turn.batch := by
  unfold reserve
  simp only
  split
  · rfl
  · rfl

/-- A placement is refused for a full book or by its plan, never for risk. -/
theorem place_spares
    (unrisked : turn.Unrisked) (c : Message) (oldId : OrderId)
    (book : OrderBook) : Spares (turn.place c oldId book) := by
  have placed : ∀ (plan : Plan) (incoming : Message) (restsHere : Bool)
      (reserved : Turn) (result : ApplyResult), reserved.Unrisked →
      Spares (if result ≠ .ok then
          (pure (reserved.reject c .capacity) : Except Fault Turn)
        else do
          let turn ← reserved.enter c oldId incoming restsHere
          let swept ←
            plan.planned.foldlM (executeFill c incoming) (turn, c.quantity)
          return swept.1.publishResidual incoming plan.leaves restsHere) := by
    intro plan incoming restsHere reserved result reservedUnrisked
    refine .ite (fun _ => reservedUnrisked.reject c (by decide)) fun _ => ?_
    refine Fallible.Ends.bind (enter_spares reservedUnrisked _ _ _)
      fun entered enteredUnrisked => ?_
    refine Fallible.Ends.bind
      (Fallible.Ends.foldlM (fun _ state => state.1.Unrisked) enteredUnrisked
        fun _ fill state _ held => executeFill_spares incoming fill held) ?_
    rintro ⟨swept, left⟩ sweptUnrisked
    exact publishResidual_unrisked sweptUnrisked _ _ _
  have reserved : ∀ rest,
      ((turn.openPosition c.clientId c.instrumentId).reserve c oldId rest
        book).1.Unrisked := by
    intro rest
    unfold Unrisked
    rw [reserve_batch]
    exact unrisked
  unfold place
  refine Fallible.Ends.bind
    (visitWhile_planned turn.engine c _ (Or.inl rfl)) fun plan planned => ?_
  refine .ite (fun _ => unrisked.reject c ?_) fun _ => ?_
  · rcases planned with none | postOnly | selfTrade
    · rw [none]
      decide
    · rw [postOnly]
      decide
    · rw [selfTrade]
      decide
  · refine .ite (fun _ => unrisked.reject c (by decide)) fun _ => ?_
    cases rests c plan.leaves with
    | true => exact placed plan _ true _ _ (reserved _)
    | false => exact placed plan _ false _ _ unrisked

/-- What the checks of a command establish when they give no risk reason. -/
structure Affords (engine : MatchingEngine) (c : Message) (oldId : OrderId)
    (r : InstrumentRules) : Prop where
  size : c.quantity ≤ r.maxOrderQuantity.toNat
  notional :
    (if c.orderType = .market then r.maxPrice.toNat else c.price) *
      c.quantity ≤ r.maxNotional.toNat
  risk : c.side.Listed →
    (engine.exposure c oldId).openOrders < r.maxOpenOrders ∧
      (engine.worst c oldId).natAbs ≤ r.maxPosition

variable {r : InstrumentRules} {oldId : OrderId} {engine : MatchingEngine}

/-- The rules of the instrument find no risk in what is afforded. -/
theorem Affords.checkCommand_harmless
    (affords : Affords engine c oldId r) :
    ¬ (checkCommand r c oldId).Risk := by
  unfold checkCommand
  rw [if_neg (Nat.not_lt_of_le affords.size),
    if_neg (Nat.not_lt_of_le affords.notional)]
  split
  · decide
  · split
    · decide
    · split
      · decide
      · decide

/-- Nor does the check of the limits of the client. -/
theorem Affords.checkRisk_harmless
    (affords : Affords engine c oldId r) (side : c.side.Listed)
    (state : ClientState) : ¬ (engine.checkRisk r state c oldId).Risk := by
  obtain ⟨few, bounded⟩ := affords.risk side
  unfold MatchingEngine.checkRisk
  rw [if_neg (Nat.not_le_of_lt few), if_neg (Int.not_lt_of_ge bounded)]
  split
  · decide
  · decide

/-- A command that is afforded is not rejected for risk. -/
theorem submit_spares
    (unrisked : turn.Unrisked)
    (affords : ∀ r, turn.engine.instruments.find? c.instrumentId = some r →
      Affords turn.engine c oldId r) :
    Spares (turn.submit c oldId) := by
  unfold submit
  cases rules : turn.engine.instruments.find? c.instrumentId with
  | none => exact unrisked.reject c (by decide)
  | some r =>
      have harmless := affords r rules
      refine .ite (fun _ => unrisked.reject c harmless.checkCommand_harmless)
        fun passed => ?_
      have command := checkCommand_none (not_not.mp passed)
      refine Fallible.Ends.bind (.anyhow _) fun state _ => ?_
      refine .ite (fun _ => unrisked.reject c
        (harmless.checkRisk_harmless command.side state)) fun _ => ?_
      refine Fallible.Ends.bind (.anyhow _) fun book _ => ?_
      refine .ite (fun _ => ?_) fun _ => place_spares unrisked c oldId book
      refine Fallible.Ends.bind (.anyhow _) fun old _ => ?_
      refine .ite (fun _ => unrisked.reject c (by decide)) fun _ => ?_
      exact .ite (fun _ => reduce_spares unrisked oldId old)
        fun _ => place_spares unrisked c oldId book

end Turn

namespace MatchingEngine

variable {slots : Nat} {engine : MatchingEngine} {c : Message} {turn : Turn}
  {pool : PoolBytes}

/-- The engine's own id of the order a command replaces, 0 for a new order. -/
def replacing (engine : MatchingEngine) (c : Message) : Option OrderId :=
  if c.action = .new then some 0
  else engine.byClient.find? (c.clientId, c.orderId)

/-- A command that the client can afford is not rejected for a risk reason. -/
theorem Reachable.unrisked
    (reachable : Reachable pool engine) (sequenced : engine.WellSequenced c)
    (action : c.action = .new ∨ c.action = .replace)
    (affords : ∀ oldId, engine.replacing c = some oldId →
      ∀ r, engine.instruments.find? c.instrumentId = some r →
        Turn.Affords engine c oldId r)
    (processed : engine.process c = .ok turn) : turn.Unrisked := by
  have sound := start_sound reachable.invariant.sound c
  have started : (engine.start c).Unrisked := by
    intro m member
    cases member
  obtain ⟨final, dispatched, _, finalSound⟩ := Turn.dispatch_ok sound
    sequenced.client (start_known engine c)
  have whole := process_dispatched sequenced dispatched finalSound
  rw [processed] at whole
  cases whole
  have submits : ∀ oldId, engine.replacing c = some oldId →
      Turn.Spares ((engine.start c).submit c oldId) := by
    intro oldId replaces
    refine Turn.submit_spares started fun r rules => ?_
    have harmless := affords oldId replaces r rules
    exact ⟨harmless.size, harmless.notional, harmless.risk⟩
  have spares : Turn.Spares (Turn.dispatch (engine.start c) c) := by
    unfold Turn.dispatch
    rcases action with isNew | isReplace
    · rw [isNew]
      exact submits 0 (if_pos isNew)
    · rw [isReplace]
      have replaces : engine.replacing c =
          engine.byClient.find? (c.clientId, c.orderId) :=
        if_neg (by rw [isReplace]; decide)
      dsimp only
      cases indexed : (engine.start c).engine.byClient.find?
          (c.clientId, c.orderId) with
      | none => exact started.reject c (by decide)
      | some id =>
          refine Fallible.Ends.bind (.anyhow _) fun order _ => ?_
          refine .ite (fun _ => started.reject c (by decide)) fun _ => ?_
          exact submits id (replaces.trans indexed)
  rw [dispatched] at spares
  have finalUnrisked : final.Unrisked := spares
  exact finalUnrisked.report _ (by decide)

end MatchingEngine

end LimitOrderBook
