import LimitOrderBook.EngineInvariant
import LimitOrderBook.TwoRuns

namespace LimitOrderBook

/-!
# Engines that agree

The epoch of an engine and the sequence of its reports are written on what it
sends and are never read again.  Two engines that agree on everything else
answer every message with the same batch up to these stamps and agree again.
-/

open TwoRuns

/-- A report without its epoch and its sequence. -/
def Message.unstamped (m : Message) : Message :=
  { m with epoch := 0, sequence := 0 }

/-- A market data delta without its epoch. -/
def Message.withoutEpoch (m : Message) : Message :=
  { m with epoch := 0 }

/-- Equal batches up to the stamps. -/
structure Batch.Agrees (first second : Batch) : Prop where
  reports :
    first.reports.map Message.unstamped = second.reports.map Message.unstamped
  updates : first.updates.map Message.withoutEpoch =
    second.updates.map Message.withoutEpoch

/-- Equal client states up to the stamps of the cached reports. -/
structure ClientState.Agrees (first second : ClientState) : Prop where
  lastRequest : first.lastRequest = second.lastRequest
  maxOrderId : first.maxOrderId = second.maxOrderId
  lastCommand : first.lastCommand = second.lastCommand
  cached :
    first.cached.map Message.unstamped = second.cached.map Message.unstamped

/-- Equal engines up to the epoch and the stamps of the cached reports. -/
structure MatchingEngine.Agrees (first second : MatchingEngine) : Prop where
  instruments : first.instruments = second.instruments
  books : first.books = second.books
  resting : first.resting = second.resting
  byClient : first.byClient = second.byClient
  positions : first.positions = second.positions
  sequence : first.sequence = second.sequence
  nextOrder : first.nextOrder = second.nextOrder
  nextTrade : first.nextTrade = second.nextTrade
  stats : first.stats = second.stats
  clients : ∀ client, Option.Rel ClientState.Agrees
    (first.clients.find? client) (second.clients.find? client)

/-- Turns of two engines that agree. -/
structure Turn.Agrees (first second : Turn) : Prop where
  engine : first.engine.Agrees second.engine
  batch : first.batch.Agrees second.batch

/-- The reports for one client. -/
theorem Batch.Agrees.addressed
    {first second : Batch} (agrees : first.Agrees second) (client : ClientId) :
    (first.reports.filter fun m => decide (m.clientId = client)).map
        Message.unstamped =
      (second.reports.filter fun m => decide (m.clientId = client)).map
        Message.unstamped := by
  have moved : ∀ reports : List Message,
      (reports.filter fun m => decide (m.clientId = client)).map
          Message.unstamped =
        (reports.map Message.unstamped).filter
          fun m => decide (m.clientId = client) := by
    intro reports
    rw [List.filter_map]
    rfl
  rw [moved, moved, agrees.reports]

/-- A state agrees with itself. -/
theorem ClientState.Agrees.refl (state : ClientState) : state.Agrees state :=
  ⟨rfl, rfl, rfl, rfl⟩

/-- A batch agrees with itself. -/
theorem Batch.Agrees.refl (batch : Batch) : batch.Agrees batch :=
  ⟨rfl, rfl⟩

namespace MatchingEngine

variable {first second : MatchingEngine}

/-- The states of one client in both engines. -/
theorem Agrees.clientState (agrees : first.Agrees second)
    (client : ClientId) :
    (first.clientState client).Agrees (second.clientState client) := by
  have related := agrees.clients client
  unfold MatchingEngine.clientState
  generalize first.clients.find? client = stored at related ⊢
  generalize second.clients.find? client = otherStored at related ⊢
  cases related with
  | some same => exact same
  | none => exact .refl {}

/-- Opening the state of a client on its first command. -/
theorem Agrees.openClient (agrees : first.Agrees second)
    (client : ClientId) :
    (first.openClient client).Agrees (second.openClient client) :=
  { agrees with
    clients := fun other => by
      simp only [MatchingEngine.openClient, OrderedMap.find?_emplace]
      split
      · exact .some (agrees.clientState client)
      · exact agrees.clients other }

/-- A stored state is there in both engines or in neither. -/
theorem Agrees.atClient (agrees : first.Agrees second)
    (client : ClientId) :
    Both ClientState.Agrees (atKey first.clients client)
      (atKey second.clients client) := by
  have related := agrees.clients client
  unfold atKey
  generalize first.clients.find? client = stored at related ⊢
  generalize second.clients.find? client = otherStored at related ⊢
  cases related with
  | some same => exact .ok same
  | none => exact .error

/-- The plan looks at resting orders, never at stamps. -/
theorem Agrees.planVisitor (agrees : first.Agrees second) (c : Message) :
    planVisitor first c = planVisitor second c := by
  funext plan order
  simp only [LimitOrderBook.planVisitor, agrees.resting]

/-- The limits of a client do not depend on stamps. -/
theorem Agrees.checkRisk (agrees : first.Agrees second)
    {state otherState : ClientState} (states : state.Agrees otherState)
    (r : InstrumentRules) (c : Message) (oldId : OrderId) :
    first.checkRisk r state c oldId = second.checkRisk r otherState c oldId := by
  have exposures : first.exposure c oldId = second.exposure c oldId := by
    simp only [exposure, agrees.resting]
  have worsts : first.worst c oldId = second.worst c oldId := by
    simp only [worst, position, exposures, agrees.positions]
  unfold MatchingEngine.checkRisk
  rw [exposures, worsts, states.maxOrderId]

/-- Writing client states that agree. -/
theorem Agrees.modifyClient (agrees : first.Agrees second)
    (client : ClientId) {f g : ClientState → ClientState}
    (keeps : ∀ state other : ClientState, state.Agrees other →
      (f state).Agrees (g other)) :
    { first with clients := first.clients.modify client f }.Agrees
      { second with clients := second.clients.modify client g } :=
  { agrees with
    clients := fun other => by
      simp only [OrderedMap.find?_modify]
      split
      · have related := agrees.clients client
        generalize first.clients.find? client = stored at related ⊢
        generalize second.clients.find? client = otherStored at related ⊢
        cases related with
        | some same => exact .some (keeps _ _ same)
        | none => exact .none
      · exact agrees.clients other }

end MatchingEngine

namespace Turn.Agrees

variable {first second : Turn}

/-! ## Parts of a turn that cannot fail -/

/-- Reports differ in their stamps only. -/
theorem report (agrees : first.Agrees second) (m : Message)
    (type : ReportType) (reason : Reject := .none) :
    (first.report m type reason).Agrees (second.report m type reason) where
  engine := { agrees.engine with }
  batch :=
    { agrees.batch with
      reports := by
        simp [Turn.report, agrees.batch.reports, Message.unstamped] }

/-- Updates have their own numbers, in which the engines agree. -/
theorem update (agrees : first.Agrees second) (m : Message)
    (type : UpdateType) :
    (first.update m type).Agrees (second.update m type) where
  engine :=
    { agrees.engine with
      sequence := congrArg (· + 1) agrees.engine.sequence }
  batch :=
    { agrees.batch with
      updates := by
        simp [Turn.update, agrees.batch.updates, agrees.engine.sequence,
          Message.withoutEpoch] }

/-- Counting the same thing in both statistics. -/
theorem withStats (agrees : first.Agrees second)
    (count : EngineStats → EngineStats) :
    Turn.Agrees
      { first with
        engine := { first.engine with stats := count first.engine.stats } }
      { second with
        engine := { second.engine with stats := count second.engine.stats } } where
  engine :=
    { agrees.engine with stats := congrArg count agrees.engine.stats }
  batch := agrees.batch

/-- Numbering a trade. -/
theorem withNextTrade (agrees : first.Agrees second) (trade : Nat) :
    Turn.Agrees
      { first with engine := { first.engine with nextTrade := trade } }
      { second with engine := { second.engine with nextTrade := trade } } :=
  ⟨{ agrees.engine with nextTrade := rfl }, agrees.batch⟩

/-- Writing the same change to both order stores. -/
theorem withOrders (agrees : first.Agrees second)
    (resting : OrderedMap OrderId Message (· < ·) →
      OrderedMap OrderId Message (· < ·))
    (byClient : OrderedMap (ClientId × OrderId) OrderId pairLt →
      OrderedMap (ClientId × OrderId) OrderId pairLt) :
    Turn.Agrees
      { first with
        engine :=
          { first.engine with
            resting := resting first.engine.resting
            byClient := byClient first.engine.byClient } }
      { second with
        engine :=
          { second.engine with
            resting := resting second.engine.resting
            byClient := byClient second.engine.byClient } } where
  engine :=
    { agrees.engine with
      resting := congrArg resting agrees.engine.resting
      byClient := congrArg byClient agrees.engine.byClient }
  batch := agrees.batch

/-- Rejecting the command. -/
theorem reject (agrees : first.Agrees second) (c : Message)
    (reason : Reject) :
    (first.reject c reason).Agrees (second.reject c reason) :=
  (agrees.withStats fun stats =>
    { stats with rejected := stats.rejected + 1 }).report c .rejected reason

/-- Writing a book. -/
theorem setBook (agrees : first.Agrees second) (instrument : InstrumentId)
    (book : OrderBook) :
    (first.setBook instrument book).Agrees (second.setBook instrument book) where
  engine :=
    { agrees.engine with
      books := by simp only [Turn.setBook, agrees.engine.books] }
  batch := agrees.batch

/-- Opening a position that is flat. -/
theorem openPosition (agrees : first.Agrees second) (client : ClientId)
    (instrument : InstrumentId) :
    (first.openPosition client instrument).Agrees
      (second.openPosition client instrument) where
  engine :=
    { agrees.engine with
      positions := by
        simp only [Turn.openPosition, agrees.engine.positions] }
  batch := agrees.batch

/-- Raising the largest order id of the client. -/
theorem raiseOrderId (agrees : first.Agrees second) (c : Message) :
    (first.raiseOrderId c).Agrees (second.raiseOrderId c) where
  engine := agrees.engine.modifyClient c.clientId fun _ _ same =>
    { same with maxOrderId := congrArg (max · c.orderId) same.maxOrderId }
  batch := agrees.batch

/-- The update of an order that rests, or the report of its rest. -/
theorem publishResidual (agrees : first.Agrees second) (incoming : Message)
    (leaves : Quantity) (rests : Bool) :
    (first.publishResidual incoming leaves rests).Agrees
      (second.publishResidual incoming leaves rests) := by
  unfold Turn.publishResidual
  split
  · exact agrees.update _ _
  · split
    · exact agrees.report _ _
    · exact agrees

/-- The residual is reserved on both sides or on neither. -/
theorem reserve (agrees : first.Agrees second) (c : Message)
    (oldId : OrderId) (rest : Message) (book : OrderBook) :
    (first.reserve c oldId rest book).1.Agrees
        (second.reserve c oldId rest book).1 ∧
      (first.reserve c oldId rest book).2 =
        (second.reserve c oldId rest book).2 := by
  have ⟨engine, batch⟩ := agrees
  unfold Turn.reserve
  rw [engine.nextOrder, engine.resting, engine.byClient, engine.books]
  simp only
  split
  · exact ⟨⟨{ engine with
      resting := rfl, byClient := rfl, books := rfl }, batch⟩, rfl⟩
  · exact ⟨⟨{ engine with
      resting := rfl, byClient := rfl, books := rfl }, batch⟩, rfl⟩

/-- Storing the command with its answers, for a retry. -/
theorem remember (agrees : first.Agrees second) (c : Message) :
    (first.remember c).Agrees (second.remember c) where
  engine := agrees.engine.modifyClient c.clientId fun _ _ same =>
    { same with
      lastRequest := rfl
      lastCommand := rfl
      cached := agrees.batch.addressed c.clientId }
  batch := agrees.batch

/-! ## Parts that can fault -/

/-- A book takes the same operation and answers the same. -/
theorem applyBook (agrees : first.Agrees second) (instrument : InstrumentId)
    (operation : OrderBook → OrderBook × ApplyResult) (text : String) :
    Both Turn.Agrees (first.applyBook instrument operation text)
      (second.applyBook instrument operation text) := by
  unfold Turn.applyBook
  rw [agrees.engine.books]
  refine .bindSame _ fun book => .bindSame _ fun _ => .ok ?_
  exact agrees.setBook instrument _

/-- One withdrawn order. -/
theorem cancel (agrees : first.Agrees second) (id : OrderId)
    (request : Nat) :
    Both Turn.Agrees (first.cancel id request) (second.cancel id request) := by
  unfold Turn.cancel
  rw [agrees.engine.resting]
  refine .bindSame _ fun order =>
    (agrees.applyBook _ _ _).bind fun done other same => .ok ?_
  exact ((same.update _ _).report _ _).withOrders (·.erase id)
    (·.erase (order.clientId, order.orderId))

/-- An order that keeps its place with a smaller quantity. -/
theorem reduce (agrees : first.Agrees second) (c : Message)
    (oldId : OrderId) (old : Message) :
    Both Turn.Agrees (first.reduce c oldId old) (second.reduce c oldId old) := by
  have written : ∀ done other : Turn, done.Agrees other → _ :=
    fun _ _ same => same.withOrders
      (·.insert oldId { old with quantity := c.quantity }) id
  unfold Turn.reduce
  simp only
  split
  · refine (agrees.applyBook _ _ _).bind fun done other same => .ok ?_
    exact (written _ _ (same.update _ .reduce)).report _ _
  · exact .ok ((written first second agrees).report _ _)

/-- Leaving the place of the order that is replaced. -/
theorem retire (agrees : first.Agrees second) (c : Message)
    (oldId newId : OrderId) (rests : Bool) :
    Both Turn.Agrees (first.retire c oldId newId rests)
      (second.retire c oldId newId rests) := by
  unfold Turn.retire
  rw [agrees.engine.resting]
  refine .bindSame _ fun old =>
    (agrees.applyBook _ _ _).bind fun done other same => ?_
  have updated := same.update old .cancel
  cases rests with
  | true =>
      have looked : ∀ key, atKey (done.update old .cancel).engine.byClient key =
          atKey (other.update old .cancel).engine.byClient key :=
        fun key => by rw [updated.engine.byClient]
      simp only [if_true, looked]
      exact .bindSame _ fun _ => .ok (updated.withOrders (·.erase oldId)
        (·.insert (c.clientId, c.orderId) newId))
  | false =>
      exact .ok (updated.withOrders (·.erase oldId)
        (·.erase (c.clientId, c.orderId)))

/-- The residual enters the book, or is refused for a full one. -/
theorem enter (agrees : first.Agrees second) (c : Message)
    (oldId : OrderId) (incoming : Message) (rests : Bool) :
    Both Turn.Agrees (first.enter c oldId incoming rests)
      (second.enter c oldId incoming rests) := by
  unfold Turn.enter
  rw [agrees.engine.nextOrder]
  have numbered : Turn.Agrees
      { first with
        engine :=
          { first.engine with nextOrder := second.engine.nextOrder + 1 } }
      { second with
        engine :=
          { second.engine with nextOrder := second.engine.nextOrder + 1 } } :=
    ⟨{ agrees.engine with nextOrder := rfl }, agrees.batch⟩
  simp only
  split
  · exact (numbered.retire _ _ _ _).bind fun _ _ same =>
      .ok ((same.raiseOrderId c).report _ _)
  · exact .ok ((numbered.raiseOrderId c).report _ _)

/-- One fill, with the positions of both clients. -/
theorem settle (agrees : first.Agrees second) (maker c : Message)
    (fill : Fill) :
    Both Turn.Agrees (first.settle maker c fill)
      (second.settle maker c fill) := by
  unfold Turn.settle
  rw [agrees.engine.positions]
  refine .bindSame _ fun makerPosition => .bindSame _ fun takerPosition => ?_
  exact .ok ⟨{ agrees.engine with positions := rfl }, agrees.batch⟩

/-- One fill on both sides; what the taker has left is the same. -/
theorem executeFill (c incoming : Message)
    (state other : Turn × Quantity) (fill : Fill)
    (agrees : state.1.Agrees other.1 ∧ state.2 = other.2) :
    Both (fun done otherDone : Turn × Quantity =>
        done.1.Agrees otherDone.1 ∧ done.2 = otherDone.2)
      (Turn.executeFill c incoming state fill)
      (Turn.executeFill c incoming other fill) := by
  obtain ⟨turn, before⟩ := state
  obtain ⟨otherTurn, otherBefore⟩ := other
  obtain ⟨agrees, rfl⟩ := agrees
  unfold Turn.executeFill
  simp only
  rw [agrees.engine.resting]
  refine .bindSame _ fun stored => ?_
  have written := agrees.withOrders (·.insert fill.id
    { stored with quantity := stored.quantity - fill.size }) id
  rw [agrees.engine.resting] at written
  refine (written.applyBook _ _ _).bind fun done otherDone same => ?_
  rw [same.engine.nextTrade]
  refine Both.bind (settle
    (((((same.report _ .fill).update _ .execute).withNextTrade _).report _
      .fill).update _ .trade) _ _ _) fun done otherDone same => ?_
  have counted := fun (done otherDone : Turn) (same : done.Agrees otherDone) =>
    same.withStats fun stats =>
      { stats with
        trades := stats.trades + 1
        volume := stats.volume + fill.size }
  by_cases filled : stored.quantity - fill.size = 0
  · simp only [filled, if_true]
    exact .ok ⟨counted _ _ (same.withOrders (·.erase fill.id)
      (·.erase (stored.clientId, stored.orderId))), rfl⟩
  · simp only [filled, if_false]
    exact .ok ⟨counted _ _ same, rfl⟩

/-- Everything `place` does once the residual is reserved. -/
theorem enterAndFill (agrees : first.Agrees second) (c : Message)
    (oldId : OrderId) (incoming : Message) (plan : Plan) (rests : Bool) :
    Both Turn.Agrees
      (do
        let turn ← first.enter c oldId incoming rests
        let (turn, _) ← plan.planned.foldlM (Turn.executeFill c incoming)
          (turn, c.quantity)
        return turn.publishResidual incoming plan.leaves rests)
      (do
        let turn ← second.enter c oldId incoming rests
        let (turn, _) ← plan.planned.foldlM (Turn.executeFill c incoming)
          (turn, c.quantity)
        return turn.publishResidual incoming plan.leaves rests) :=
  (agrees.enter c oldId incoming rests).bind fun done otherDone same =>
    (Both.foldlM (executeFill c incoming) plan.planned
      (show (done, c.quantity).1.Agrees (otherDone, c.quantity).1 ∧ _ from
        ⟨same, rfl⟩)).bind
      fun _ _ filled => .ok (filled.1.publishResidual incoming plan.leaves rests)

/-- A command that meets the other side of its book. -/
theorem place (agrees : first.Agrees second) (c : Message)
    (oldId : OrderId) (book : OrderBook) :
    Both Turn.Agrees (first.place c oldId book) (second.place c oldId book) := by
  unfold Turn.place
  rw [agrees.engine.planVisitor]
  refine .bindSame _ fun plan => ?_
  split
  · exact .ok (agrees.reject _ _)
  · split
    · exact .ok (agrees.reject _ _)
    · have opened := agrees.openPosition c.clientId c.instrumentId
      simp only [opened.engine.nextOrder]
      split
      · obtain ⟨reserved, result⟩ := opened.reserve c oldId
          { c with
            exchangeId :=
              (second.openPosition c.clientId c.instrumentId).engine.nextOrder
            quantity := plan.leaves
            remaining := plan.leaves } book
        simp only [result]
        split
        · exact .ok (reserved.reject _ _)
        · exact reserved.enterAndFill _ _ _ _ _
      · exact opened.enterAndFill _ _ _ _ _

/-- An Add, a Market or the new order of a Replace. -/
theorem submit (agrees : first.Agrees second) (c : Message)
    (oldId : OrderId := 0) :
    Both Turn.Agrees (first.submit c oldId) (second.submit c oldId) := by
  unfold Turn.submit
  rw [agrees.engine.instruments]
  split
  · exact .ok (agrees.reject _ _)
  · split
    · exact .ok (agrees.reject _ _)
    · refine Both.bind (agrees.engine.atClient c.clientId)
        fun state otherState states => ?_
      simp only [agrees.engine.checkRisk states]
      split
      · exact .ok (agrees.reject _ _)
      · rw [agrees.engine.books]
        refine .bindSame _ fun book => ?_
        split
        · rw [agrees.engine.resting]
          refine .bindSame _ fun old => ?_
          split
          · exact .ok (agrees.reject _ _)
          · split
            · exact agrees.reduce _ _ _
            · exact agrees.place _ _ _
        · exact agrees.place _ _ _

/-- Each action of a command. -/
theorem dispatch (agrees : first.Agrees second) (c : Message) :
    Both Turn.Agrees (first.dispatch c) (second.dispatch c) := by
  have ids : cancelAllIds first.engine c = cancelAllIds second.engine c := by
    simp only [cancelAllIds, agrees.engine.resting]
  unfold Turn.dispatch
  rw [ids, agrees.engine.byClient, agrees.engine.resting]
  split
  · exact agrees.submit c
  · exact .foldlM (fun _ _ id same => same.cancel id c.requestId) _ agrees
  · split
    · exact .ok (agrees.reject _ _)
    · refine .bindSame _ fun order => ?_
      split
      · exact .ok (agrees.reject _ _)
      · exact agrees.cancel _ _
  · split
    · exact .ok (agrees.reject _ _)
    · refine .bindSame _ fun order => ?_
      split
      · exact .ok (agrees.reject _ _)
      · split
        · exact agrees.cancel _ _
        · exact agrees.submit _ _
  · exact .ok (agrees.reject _ _)

/-- The Complete that ends the reports of a command. -/
theorem complete (agrees : first.Agrees second) (c : Message) :
    Both Turn.Agrees (first.complete c) (second.complete c) := by
  unfold Turn.complete
  rw [agrees.engine.byClient, agrees.engine.resting]
  split
  · exact .ok (agrees.report _ _)
  · exact .bindSame _ fun order => .ok (agrees.report _ _)

end Turn.Agrees

namespace MatchingEngine.Agrees

variable {first second : MatchingEngine}

/-- Engines that agree answer every message alike and agree again. -/
theorem process (agrees : first.Agrees second) (c : Message) :
    Both Turn.Agrees (first.process c) (second.process c) := by
  have silent : ∀ {first second : MatchingEngine}, first.Agrees second →
      Turn.Agrees ⟨first, {}⟩ ⟨second, {}⟩ :=
    fun agrees => ⟨agrees, .refl {}⟩
  have opened := agrees.openClient c.clientId
  have states := opened.clientState c.clientId
  unfold MatchingEngine.process
  split
  · exact .ok ((silent agrees).reject _ _)
  · split
    · simp only [lastRequest, (agrees.clientState c.clientId).lastRequest]
      exact .ok ((silent agrees).report _ _)
    · split
      · exact .ok (((silent agrees).reject _ _).report _ _)
      · simp only [states.lastRequest, states.lastCommand]
        split
        · exact .ok ⟨opened, ⟨states.cached, rfl⟩⟩
        · split
          · exact .ok (((silent opened).reject _ _).report _ _)
          · have counted := (silent opened).withStats fun stats =>
              { stats with commands := stats.commands + 1 }
            exact (counted.dispatch c).bind fun _ _ dispatched =>
              (dispatched.complete c).bind fun _ _ completed =>
                .ok (completed.remember c)

end MatchingEngine.Agrees

end LimitOrderBook
