import LimitOrderBook.EngineInvariant
import LimitOrderBook.RenamedMaps
import LimitOrderBook.TwoRuns

namespace LimitOrderBook

/-!
# Engines under renamed clients

Client ids are used as keys and compared with each other, and no loop of the
engine runs over a map that they are keys of.  Two engines that differ by an
injective renaming of the clients answer renamed messages with the same market
data and with renamed reports, and differ by the renaming again.
-/

open TwoRuns

/-- An injective renaming of the nonzero client ids. -/
structure Renaming where
  rename : ClientId → ClientId
  nonzero : ∀ client, client ≠ 0 → rename client ≠ 0
  apart : ∀ first second, first ≠ 0 → second ≠ 0 →
    rename first = rename second → first = second

namespace Renaming

/-- The renaming leaves the id of no client alone. -/
def apply (names : Renaming) (client : ClientId) : ClientId :=
  if client = 0 then 0 else names.rename client

/-- Two ids are never renamed to one, the id of no client included. -/
theorem apply_injective (names : Renaming) :
    Function.Injective names.apply := by
  intro first second same
  unfold apply at same
  split_ifs at same with firstZero secondZero secondZero
  · rw [firstZero, secondZero]
  · exact absurd same.symm (names.nonzero second secondZero)
  · exact absurd same (names.nonzero first firstZero)
  · exact names.apart first second firstZero secondZero same

/-- Only the id of no client is renamed to it. -/
theorem apply_eq_zero (names : Renaming) (client : ClientId) :
    names.apply client = 0 ↔ client = 0 := by
  have zero : names.apply 0 = 0 := if_pos rfl
  rw [← zero, names.apply_injective.eq_iff, zero]

/-- Keys of a client's orders and positions. -/
def onKey (names : Renaming) (key : ClientId × Nat) : ClientId × Nat :=
  (names.apply key.1, key.2)

/-- Keys are kept apart, as their clients are. -/
theorem onKey_injective (names : Renaming) :
    Function.Injective names.onKey := by
  rintro ⟨client, number⟩ ⟨other, otherNumber⟩ same
  simp only [onKey, Prod.mk.injEq] at same
  rw [names.apply_injective same.1, same.2]

/-- A message of the renamed client. -/
def message (names : Renaming) (m : Message) : Message :=
  { m with clientId := names.apply m.clientId }

/-- Messages are kept apart too: a retry stays a retry, and only that. -/
theorem message_injective (names : Renaming) :
    Function.Injective names.message := by
  intro first second same
  have client : first.clientId = second.clientId :=
    names.apply_injective (congrArg Message.clientId same)
  cases first
  cases second
  simp only [message, Message.mk.injEq] at same client ⊢
  simp_all

end Renaming

variable (names : Renaming)

/-- Equal market data without private ids, and renamed reports. -/
structure Batch.Renames (first second : Batch) : Prop where
  reports : second.reports = first.reports.map names.message
  updates : second.updates = first.updates
  anonymous : ∀ m ∈ first.updates,
    m.clientId = 0 ∧ m.requestId = 0 ∧ m.orderId = 0

structure ClientState.Renames (first second : ClientState) : Prop where
  lastRequest : second.lastRequest = first.lastRequest
  maxOrderId : second.maxOrderId = first.maxOrderId
  lastCommand : second.lastCommand = names.message first.lastCommand
  cached : second.cached = first.cached.map names.message

/-- Equal engines up to the names of the clients. -/
structure MatchingEngine.Renames (first second : MatchingEngine) : Prop where
  instruments : second.instruments = first.instruments
  books : second.books = first.books
  resting : second.resting = first.resting.mapValues names.message
  byClient : OrderedMap.Rekeyed names.onKey Eq first.byClient
    second.byClient
  clients : OrderedMap.Rekeyed names.apply (ClientState.Renames names)
    first.clients second.clients
  positions : OrderedMap.Rekeyed names.onKey Eq first.positions
    second.positions
  epoch : second.epoch = first.epoch
  sequence : second.sequence = first.sequence
  responseSequence : second.responseSequence = first.responseSequence
  nextOrder : second.nextOrder = first.nextOrder
  nextTrade : second.nextTrade = first.nextTrade
  stats : second.stats = first.stats

structure Turn.Renames (first second : Turn) : Prop where
  engine : first.engine.Renames names second.engine
  batch : first.batch.Renames names second.batch

variable {names}

/-- `at` in maps whose keys are renamed. -/
theorem both_atKey {κ ν : Type} {lt : κ → κ → Prop}
    [DecidableEq κ] {rename : κ → κ} {related : ν → ν → Prop}
    {first second : OrderedMap κ ν lt}
    (rekeyed : OrderedMap.Rekeyed rename related first second) (key : κ) :
    Both related (atKey first key) (atKey second (rename key)) := by
  have found := rekeyed key
  unfold atKey
  generalize first.find? key = stored at found ⊢
  generalize second.find? (rename key) = other at found ⊢
  cases found with
  | some same => exact .ok same
  | none => exact .error

/-- A client that is not known yet has no name in its state. -/
theorem ClientState.Renames.default :
    ClientState.Renames names {} {} :=
  ⟨rfl, rfl, rfl, rfl⟩

/-- The reports for one client. -/
theorem Batch.Renames.addressed
    {first second : Batch} (renames : first.Renames names second)
    (client : ClientId) :
    (second.reports.filter fun m =>
        decide (m.clientId = names.apply client)) =
      (first.reports.filter fun m => decide (m.clientId = client)).map
        names.message := by
  rw [renames.reports, List.filter_map]
  refine congrArg _ (List.filter_congr fun m _ => ?_)
  simp [Renaming.message, names.apply_injective.eq_iff]

namespace MatchingEngine.Renames

variable {first second : MatchingEngine}

/-- The state of a client is found under its other name. -/
theorem clientState (renames : first.Renames names second)
    (client : ClientId) :
    (first.clientState client).Renames names
      (second.clientState (names.apply client)) :=
  renames.clients.getD client .default

/-- Opening the state of a client on its first command. -/
theorem openClient (renames : first.Renames names second)
    (client : ClientId) :
    (first.openClient client).Renames names
      (second.openClient (names.apply client)) :=
  { renames with
    clients := renames.clients.emplace names.apply_injective client
      .default }

/-- A stored order and the same order of the renamed client. -/
theorem atOrder (renames : first.Renames names second) (id : OrderId) :
    Both (fun m other => other = names.message m)
      (atKey first.resting id) (atKey second.resting id) := by
  rw [renames.resting]
  unfold atKey
  rw [OrderedMap.find?_mapValues]
  cases first.resting.find? id with
  | some m => exact .ok rfl
  | none => exact .error

/-- The plan compares clients for equality only. -/
theorem planVisitor (renames : first.Renames names second) (c : Message)
    (plan : Plan) (order : OrderView) :
    LimitOrderBook.planVisitor second (names.message c) plan order =
      LimitOrderBook.planVisitor first c plan order := by
  unfold LimitOrderBook.planVisitor
  rw [renames.resting]
  unfold atKey
  rw [OrderedMap.find?_mapValues]
  cases first.resting.find? order.orderId with
  | none => rfl
  | some owner =>
      have same : (names.message owner).clientId =
          (names.message c).clientId ↔ owner.clientId = c.clientId :=
        names.apply_injective.eq_iff
      simp only [Option.map_some, Bind.bind, Except.bind, same]
      rfl

/-- The open orders of a client are summed under either name. -/
theorem exposure (renames : first.Renames names second) (c : Message)
    (oldId : OrderId) :
    second.exposure (names.message c) oldId = first.exposure c oldId := by
  unfold MatchingEngine.exposure
  rw [renames.resting, OrderedMap.mapValues, List.foldl_map]
  refine congrArg (fun visit => List.foldl visit ({} : Exposure)
    first.resting.entries) ?_
  funext exposure entry
  have same : (names.message entry.2).clientId =
      (names.message c).clientId ↔ entry.2.clientId = c.clientId :=
    names.apply_injective.eq_iff
  exact if_congr (or_congr Iff.rfl (not_congr same)) rfl rfl

/-- The limits of a client do not depend on its name. -/
theorem checkRisk (renames : first.Renames names second)
    {state otherState : ClientState}
    (states : state.Renames names otherState) (r : InstrumentRules)
    (c : Message) (oldId : OrderId) :
    second.checkRisk r otherState (names.message c) oldId =
      first.checkRisk r state c oldId := by
  have position : second.position (names.apply c.clientId) c.instrumentId =
      first.position c.clientId c.instrumentId := by
    have looked := renames.positions.find?_eq (c.clientId, c.instrumentId)
    simp only [Renaming.onKey] at looked
    rw [MatchingEngine.position, MatchingEngine.position, looked]
  have worst : second.worst (names.message c) oldId =
      first.worst c oldId := by
    unfold MatchingEngine.worst
    rw [renames.exposure]
    simp only [Renaming.message, position]
    rfl
  unfold MatchingEngine.checkRisk
  rw [renames.exposure, worst, states.maxOrderId]
  rfl

/-- The orders a CancelAll withdraws, in the order of their ids. -/
theorem cancelAllIds (renames : first.Renames names second)
    (c : Message) :
    Turn.cancelAllIds second (names.message c) =
      Turn.cancelAllIds first c := by
  unfold Turn.cancelAllIds
  rw [renames.resting, OrderedMap.mapValues, List.filter_map, List.map_map]
  refine congrArg₂ _ rfl (List.filter_congr fun entry _ => ?_)
  simp [Renaming.message, names.apply_injective.eq_iff]

/-- A client's live order. -/
theorem find?_byClient (renames : first.Renames names second)
    (c : Message) :
    second.byClient.find?
        ((names.message c).clientId, (names.message c).orderId) =
      first.byClient.find? (c.clientId, c.orderId) :=
  renames.byClient.find?_eq (c.clientId, c.orderId)

/-- A public snapshot names no client. -/
theorem snapshot (renames : first.Renames names second) :
    second.snapshot = first.snapshot := by
  have size : second.resting.size = first.resting.size := by
    rw [renames.resting]
    simp [OrderedMap.size, OrderedMap.mapValues]
  simp only [MatchingEngine.snapshot, MatchingEngine.envelope, renames.books,
    renames.epoch, renames.sequence, size]

end MatchingEngine.Renames

namespace Turn.Renames

variable {first second : Turn}

/-! ## Parts of a turn that cannot fail -/

/-- A report goes to the client under its other name. -/
theorem report (renames : first.Renames names second) (m : Message)
    (type : ReportType) (reason : Reject := .none) :
    (first.report m type reason).Renames names
      (second.report (names.message m) type reason) where
  engine :=
    { renames.engine with
      responseSequence := congrArg (· + 1) renames.engine.responseSequence }
  batch :=
    { renames.batch with
      reports := by
        simp only [Turn.report, renames.batch.reports, renames.engine.epoch,
          renames.engine.responseSequence, List.map_append, List.map_cons,
          List.map_nil]
        rfl }

/-- A market data delta drops the only field that differs. -/
theorem update (renames : first.Renames names second) (m : Message)
    (type : UpdateType) :
    (first.update m type).Renames names
      (second.update (names.message m) type) where
  engine :=
    { renames.engine with
      sequence := congrArg (· + 1) renames.engine.sequence }
  batch :=
    { reports := renames.batch.reports
      updates := by
        simp only [Turn.update, renames.batch.updates, renames.engine.epoch,
          renames.engine.sequence]
        rfl
      anonymous := by
        intro published member
        rcases List.mem_append.mp member with earlier | latest
        · exact renames.batch.anonymous published earlier
        · rw [List.mem_singleton.mp latest]
          exact ⟨rfl, rfl, rfl⟩ }

/-- Counting the same thing in both statistics. -/
theorem withStats (renames : first.Renames names second)
    (count : EngineStats → EngineStats) :
    Turn.Renames names
      { first with
        engine := { first.engine with stats := count first.engine.stats } }
      { second with
        engine := { second.engine with stats := count second.engine.stats } } where
  engine :=
    { renames.engine with stats := congrArg count renames.engine.stats }
  batch := renames.batch

/-- Numbering a trade. -/
theorem withNextTrade (renames : first.Renames names second) (trade : Nat) :
    Turn.Renames names
      { first with engine := { first.engine with nextTrade := trade } }
      { second with engine := { second.engine with nextTrade := trade } } :=
  ⟨{ renames.engine with nextTrade := rfl }, renames.batch⟩

/-- Writing an order that keeps its owner. -/
theorem writeOrder (renames : first.Renames names second) (id : OrderId)
    (m : Message) :
    Turn.Renames names
      { first with
        engine :=
          { first.engine with resting := first.engine.resting.insert id m } }
      { second with
        engine :=
          { second.engine with
            resting :=
              second.engine.resting.insert id (names.message m) } } where
  engine :=
    { renames.engine with
      resting := by
        simp only [renames.engine.resting, OrderedMap.mapValues_insert] }
  batch := renames.batch

/-- Taking an order out of both stores. -/
theorem eraseOrder (renames : first.Renames names second) (id : OrderId)
    (key : ClientId × OrderId) :
    Turn.Renames names
      { first with
        engine :=
          { first.engine with
            byClient := first.engine.byClient.erase key
            resting := first.engine.resting.erase id } }
      { second with
        engine :=
          { second.engine with
            byClient := second.engine.byClient.erase (names.onKey key)
            resting := second.engine.resting.erase id } } where
  engine :=
    { renames.engine with
      byClient := renames.engine.byClient.erase names.onKey_injective key
      resting := by
        simp only [renames.engine.resting, OrderedMap.mapValues_erase] }
  batch := renames.batch

/-- Rejecting the command. -/
theorem reject (renames : first.Renames names second) (c : Message)
    (reason : Reject) :
    (first.reject c reason).Renames names
      (second.reject (names.message c) reason) :=
  (renames.withStats fun stats =>
    { stats with rejected := stats.rejected + 1 }).report c .rejected reason

/-- Writing a book, which knows no clients. -/
theorem setBook (renames : first.Renames names second)
    (instrument : InstrumentId) (book : OrderBook) :
    (first.setBook instrument book).Renames names
      (second.setBook instrument book) where
  engine :=
    { renames.engine with
      books := by simp only [Turn.setBook, renames.engine.books] }
  batch := renames.batch

/-- Opening a position that is flat. -/
theorem openPosition (renames : first.Renames names second)
    (client : ClientId) (instrument : InstrumentId) :
    (first.openPosition client instrument).Renames names
      (second.openPosition (names.apply client) instrument) where
  engine :=
    { renames.engine with
      positions := renames.engine.positions.emplace names.onKey_injective
        (client, instrument) rfl }
  batch := renames.batch

/-- Raising the largest order id of the client. -/
theorem raiseOrderId (renames : first.Renames names second) (c : Message) :
    (first.raiseOrderId c).Renames names
      (second.raiseOrderId (names.message c)) where
  engine :=
    { renames.engine with
      clients := renames.engine.clients.modify names.apply_injective c.clientId
        fun _ _ same =>
          { same with
            maxOrderId := congrArg (max · c.orderId) same.maxOrderId } }
  batch := renames.batch

/-- The update of an order that rests, or the report of its rest. -/
theorem publishResidual (renames : first.Renames names second)
    (incoming : Message) (leaves : Quantity) (rests : Bool) :
    (first.publishResidual incoming leaves rests).Renames names
      (second.publishResidual (names.message incoming) leaves rests) := by
  unfold Turn.publishResidual
  split
  · exact renames.update { incoming with
      quantity := leaves, remaining := leaves } _
  · split
    · exact renames.report { incoming with
        quantity := leaves, remaining := 0 } _
    · exact renames

/-- The residual is reserved on both sides or on neither. -/
theorem reserve (renames : first.Renames names second) (c : Message)
    (oldId : OrderId) (rest : Message) (book : OrderBook) :
    (first.reserve c oldId rest book).1.Renames names
        (second.reserve (names.message c) oldId (names.message rest) book).1 ∧
      (second.reserve (names.message c) oldId (names.message rest) book).2 =
        (first.reserve c oldId rest book).2 := by
  have ⟨engine, batch⟩ := renames
  have key : ((names.message c).clientId, (names.message c).orderId) =
      names.onKey (c.clientId, c.orderId) := rfl
  have asked : (⟨first.engine.nextOrder, (names.message c).side,
      (names.message c).price, (names.message rest).quantity⟩ : AddOrder) =
      ⟨first.engine.nextOrder, c.side, c.price, rest.quantity⟩ := rfl
  have emplaced := engine.byClient.emplace names.onKey_injective
    (c.clientId, c.orderId) (rfl : first.engine.nextOrder = _)
  have erased := emplaced.erase names.onKey_injective (c.clientId, c.orderId)
  unfold Turn.reserve
  simp only [engine.nextOrder, engine.resting, engine.books, key, asked,
    ← OrderedMap.mapValues_emplace, ← OrderedMap.mapValues_erase]
  split_ifs
  · exact ⟨⟨{ engine with
      resting := rfl
      byClient := erased
      books := rfl
      nextOrder := rfl }, batch⟩, rfl⟩
  · exact ⟨⟨{ engine with
      resting := rfl
      books := rfl
      nextOrder := rfl }, batch⟩, rfl⟩
  · exact ⟨⟨{ engine with
      resting := rfl
      byClient := emplaced
      books := rfl
      nextOrder := rfl }, batch⟩, rfl⟩
  · exact ⟨⟨{ engine with
      resting := rfl
      books := rfl
      nextOrder := rfl }, batch⟩, rfl⟩

/-- Storing the command with its answers, for a retry. -/
theorem remember (renames : first.Renames names second) (c : Message) :
    (first.remember c).Renames names
      (second.remember (names.message c)) where
  engine :=
    { renames.engine with
      clients := renames.engine.clients.modify names.apply_injective c.clientId
        fun _ _ same =>
          { same with
            lastRequest := rfl
            lastCommand := rfl
            cached := renames.batch.addressed c.clientId } }
  batch := renames.batch

/-! ## Parts that can fault -/

/-- A book takes the same operation and answers the same. -/
theorem applyBook (renames : first.Renames names second)
    (instrument : InstrumentId)
    (operation : OrderBook → OrderBook × ApplyResult) (text : String) :
    Both (Turn.Renames names) (first.applyBook instrument operation text)
      (second.applyBook instrument operation text) := by
  unfold Turn.applyBook
  rw [renames.engine.books]
  refine .bindSame _ fun book => .bindSame _ fun _ => .ok ?_
  exact renames.setBook instrument _

/-- One withdrawn order. -/
theorem cancel (renames : first.Renames names second) (id : OrderId)
    (request : Nat) :
    Both (Turn.Renames names) (first.cancel id request)
      (second.cancel id request) := by
  unfold Turn.cancel
  refine (renames.engine.atOrder id).bind fun order _ owned => ?_
  subst owned
  refine (renames.applyBook _ _ _).bind fun done other same => .ok ?_
  exact ((same.update { order with requestId := request, remaining := 0 }
    .cancel).report { order with requestId := request, remaining := 0 }
    .cancelled).eraseOrder id (order.clientId, order.orderId)

/-- An order that keeps its place with a smaller quantity. -/
theorem reduce (renames : first.Renames names second) (c : Message)
    (oldId : OrderId) (old : Message) :
    Both (Turn.Renames names) (first.reduce c oldId old)
      (second.reduce (names.message c) oldId (names.message old)) := by
  have written : ∀ done other : Turn, done.Renames names other → _ :=
    fun _ _ same => (same.writeOrder oldId
      { old with quantity := c.quantity }).report
      { c with exchangeId := oldId, remaining := c.quantity } .replaced
  unfold Turn.reduce
  by_cases reduced : old.quantity - c.quantity ≠ 0
  · have otherReduced :
        (names.message old).quantity - (names.message c).quantity ≠ 0 := reduced
    simp only [if_pos reduced, if_pos otherReduced]
    refine (renames.applyBook _ _ _).bind fun done other same => .ok ?_
    exact written _ _ (same.update
      { c with exchangeId := oldId, remaining := c.quantity } .reduce)
  · have notReduced :
        ¬ (names.message old).quantity - (names.message c).quantity ≠ 0 :=
      reduced
    simp only [if_neg reduced, if_neg notReduced]
    exact .ok (written _ _ renames)

/-- Leaving the place of the order that is replaced. -/
theorem retire (renames : first.Renames names second) (c : Message)
    (oldId newId : OrderId) (rests : Bool) :
    Both (Turn.Renames names) (first.retire c oldId newId rests)
      (second.retire (names.message c) oldId newId rests) := by
  unfold Turn.retire
  refine (renames.engine.atOrder oldId).bind fun old _ owned => ?_
  subst owned
  refine (renames.applyBook _ _ _).bind fun done other same => ?_
  have updated := same.update old .cancel
  cases rests with
  | true =>
      have looked : atKey (other.update (names.message old)
            .cancel).engine.byClient
          ((names.message c).clientId, (names.message c).orderId) =
          atKey (done.update old .cancel).engine.byClient
            (c.clientId, c.orderId) := by
        unfold atKey
        rw [updated.engine.find?_byClient c]
      simp only [if_true, looked]
      refine .bindSame _ fun _ => .ok ⟨{ updated.engine with
        resting := ?_
        byClient := updated.engine.byClient.insert names.onKey_injective
          (c.clientId, c.orderId) rfl }, updated.batch⟩
      rw [updated.engine.resting, OrderedMap.mapValues_erase]
  | false =>
      exact .ok (updated.eraseOrder oldId (c.clientId, c.orderId))

/-- The residual enters the book, or is refused for a full one. -/
theorem enter (renames : first.Renames names second) (c : Message)
    (oldId : OrderId) (incoming : Message) (rests : Bool) :
    Both (Turn.Renames names) (first.enter c oldId incoming rests)
      (second.enter (names.message c) oldId (names.message incoming)
        rests) := by
  unfold Turn.enter
  rw [renames.engine.nextOrder]
  have numbered : Turn.Renames names
      { first with
        engine :=
          { first.engine with nextOrder := first.engine.nextOrder + 1 } }
      { second with
        engine :=
          { second.engine with nextOrder := first.engine.nextOrder + 1 } } :=
    ⟨{ renames.engine with nextOrder := rfl }, renames.batch⟩
  simp only
  split
  · exact (numbered.retire _ _ _ _).bind fun _ _ same =>
      .ok ((same.raiseOrderId c).report _ _)
  · exact .ok ((numbered.raiseOrderId c).report _ _)

/-- One fill between two clients, which stay two. -/
theorem settle (renames : first.Renames names second) (maker c : Message)
    (fill : Fill) :
    Both (Turn.Renames names) (first.settle maker c fill)
      (second.settle (names.message maker) (names.message c) fill) := by
  have before := renames.engine.positions
  unfold Turn.settle
  refine (both_atKey before (maker.clientId, c.instrumentId)).bind
    fun makerPosition _ same => ?_
  subst same
  have between := before.insert names.onKey_injective
    (maker.clientId, c.instrumentId)
    (rfl : makerPosition.fill maker.side fill.price fill.size = _)
  refine (both_atKey between (c.clientId, c.instrumentId)).bind
    fun takerPosition _ same => ?_
  subst same
  exact .ok ⟨{ renames.engine with
    positions := between.insert names.onKey_injective
      (c.clientId, c.instrumentId) rfl }, renames.batch⟩

/-- One fill on both sides; what the taker has left is the same. -/
theorem executeFill (c incoming : Message)
    (state other : Turn × Quantity) (fill : Fill)
    (renames : state.1.Renames names other.1 ∧ state.2 = other.2) :
    Both (fun done otherDone : Turn × Quantity =>
        done.1.Renames names otherDone.1 ∧ done.2 = otherDone.2)
      (Turn.executeFill c incoming state fill)
      (Turn.executeFill (names.message c) (names.message incoming) other
        fill) := by
  obtain ⟨turn, before⟩ := state
  obtain ⟨otherTurn, otherBefore⟩ := other
  obtain ⟨renames, rfl⟩ := renames
  unfold Turn.executeFill
  refine (renames.engine.atOrder fill.id).bind fun stored _ owned => ?_
  subst owned
  have written := renames.writeOrder fill.id
    { stored with quantity := stored.quantity - fill.size }
  refine (written.applyBook _ _ _).bind fun done otherDone same => ?_
  simp only [same.engine.nextTrade]
  have execution := (same.report
    { stored with
      quantity := fill.size
      remaining := stored.quantity - fill.size
      tradeId := done.engine.nextTrade } .fill).update
    { stored with
      quantity := fill.size
      remaining := stored.quantity - fill.size
      tradeId := done.engine.nextTrade } .execute
  have trade := ((execution.withNextTrade (done.engine.nextTrade + 1)).report
    { incoming with
      price := fill.price
      quantity := fill.size
      remaining := before - fill.size
      tradeId := done.engine.nextTrade } .fill).update
    { incoming with
      price := fill.price
      quantity := fill.size
      remaining := before - fill.size
      tradeId := done.engine.nextTrade } .trade
  refine Both.bind (settle trade
    { stored with quantity := stored.quantity - fill.size } c fill)
    fun done otherDone same => ?_
  have counted := fun (done otherDone : Turn)
      (same : done.Renames names otherDone) =>
    same.withStats fun stats =>
      { stats with
        trades := stats.trades + 1
        volume := stats.volume + fill.size }
  by_cases filled : stored.quantity - fill.size = 0
  · have otherFilled : (names.message stored).quantity - fill.size = 0 := filled
    simp only [filled, otherFilled, if_true]
    exact .ok ⟨counted _ _ (same.eraseOrder fill.id
      (stored.clientId, stored.orderId)), rfl⟩
  · have notFilled : ¬ (names.message stored).quantity - fill.size = 0 := filled
    simp only [filled, notFilled, if_false]
    exact .ok ⟨counted _ _ same, rfl⟩

/-- Everything `place` does once the residual is reserved. -/
theorem enterAndFill (renames : first.Renames names second) (c : Message)
    (oldId : OrderId) (incoming : Message) (plan : Plan) (rests : Bool) :
    Both (Turn.Renames names)
      (do
        let turn ← first.enter c oldId incoming rests
        let (turn, _) ← plan.planned.foldlM (Turn.executeFill c incoming)
          (turn, c.quantity)
        return turn.publishResidual incoming plan.leaves rests)
      (do
        let turn ← second.enter (names.message c) oldId
          (names.message incoming) rests
        let (turn, _) ← plan.planned.foldlM
          (Turn.executeFill (names.message c) (names.message incoming))
          (turn, c.quantity)
        return turn.publishResidual (names.message incoming) plan.leaves
          rests) :=
  (renames.enter c oldId incoming rests).bind fun done otherDone same =>
    (Both.foldlM (executeFill c incoming) plan.planned
      (show (done, c.quantity).1.Renames names (otherDone, c.quantity).1 ∧ _
        from ⟨same, rfl⟩)).bind
      fun _ _ filled => .ok (filled.1.publishResidual incoming plan.leaves rests)

/-- A command that meets the other side of its book. -/
theorem place (renames : first.Renames names second) (c : Message)
    (oldId : OrderId) (book : OrderBook) :
    Both (Turn.Renames names) (first.place c oldId book)
      (second.place (names.message c) oldId book) := by
  have visitors : LimitOrderBook.planVisitor second.engine (names.message c) =
      LimitOrderBook.planVisitor first.engine c :=
    funext fun plan => funext fun order =>
      renames.engine.planVisitor c plan order
  unfold Turn.place
  rw [visitors]
  refine .bindSame _ fun plan => ?_
  refine .ite Iff.rfl (fun _ => .ok (renames.reject c _)) fun _ => ?_
  refine .ite Iff.rfl (fun _ => .ok (renames.reject c _)) fun _ => ?_
  have opened := renames.openPosition c.clientId c.instrumentId
  have numbered : (second.openPosition (names.message c).clientId
      (names.message c).instrumentId).engine.nextOrder =
      (first.openPosition c.clientId c.instrumentId).engine.nextOrder :=
    opened.engine.nextOrder
  have sameRests : Turn.rests (names.message c) plan.leaves =
      Turn.rests c plan.leaves := rfl
  simp only [numbered, sameRests]
  cases Turn.rests c plan.leaves with
  | true =>
      obtain ⟨reserved, result⟩ := opened.reserve c oldId
        { c with
          exchangeId :=
            (first.openPosition c.clientId c.instrumentId).engine.nextOrder
          quantity := plan.leaves
          remaining := plan.leaves } book
      refine .ite ?_ (fun _ => .ok (reserved.reject c _))
        fun _ => reserved.enterAndFill _ _ _ _ _
      exact iff_of_eq (congrArg (· ≠ ApplyResult.ok) result.symm)
  | false => exact opened.enterAndFill _ _ _ _ _

/-- An Add, a Market or the new order of a Replace. -/
theorem submit (renames : first.Renames names second) (c : Message)
    (oldId : OrderId := 0) :
    Both (Turn.Renames names) (first.submit c oldId)
      (second.submit (names.message c) oldId) := by
  have instruments : second.engine.instruments.find?
      (names.message c).instrumentId =
      first.engine.instruments.find? c.instrumentId := by
    rw [renames.engine.instruments]
    rfl
  unfold Turn.submit
  rw [instruments]
  cases first.engine.instruments.find? c.instrumentId with
  | none => exact .ok (renames.reject c _)
  | some r =>
      refine .ite Iff.rfl (fun _ => .ok (renames.reject c _)) fun _ => ?_
      refine (both_atKey renames.engine.clients c.clientId).bind
        fun state otherState states => ?_
      simp only [renames.engine.checkRisk states]
      refine .ite Iff.rfl (fun _ => .ok (renames.reject c _)) fun _ => ?_
      rw [renames.engine.books]
      refine .bindSame _ fun book => ?_
      refine .ite Iff.rfl (fun _ => ?_) fun _ => renames.place c oldId book
      refine (renames.engine.atOrder oldId).bind fun old _ owned => ?_
      subst owned
      refine .ite Iff.rfl (fun _ => .ok (renames.reject c _)) fun _ => ?_
      exact .ite Iff.rfl (fun _ => renames.reduce c oldId old)
        fun _ => renames.place c oldId book

/-- Each action of a command. -/
theorem dispatch (renames : first.Renames names second) (c : Message) :
    Both (Turn.Renames names) (first.dispatch c)
      (second.dispatch (names.message c)) := by
  have action : (names.message c).action = c.action := rfl
  have request : (names.message c).requestId = c.requestId := rfl
  unfold Turn.dispatch
  rw [renames.engine.cancelAllIds, renames.engine.find?_byClient, action,
    request]
  split
  · exact renames.submit c
  · exact .foldlM (fun _ _ id same => same.cancel id c.requestId) _ renames
  · split
    · exact .ok (renames.reject c _)
    · refine (renames.engine.atOrder _).bind fun order _ owned => ?_
      subst owned
      refine .ite Iff.rfl (fun _ => .ok (renames.reject c _)) fun _ => ?_
      exact .ite Iff.rfl (fun _ => renames.cancel _ _)
        fun _ => renames.submit c _
  · split
    · exact .ok (renames.reject c _)
    · refine (renames.engine.atOrder _).bind fun order _ owned => ?_
      subst owned
      refine .ite Iff.rfl (fun _ => .ok (renames.reject c _)) fun _ => ?_
      exact .ite Iff.rfl (fun _ => renames.cancel _ _)
        fun _ => renames.submit c _
  · exact .ok (renames.reject c _)

/-- The Complete that ends the reports of a command. -/
theorem complete (renames : first.Renames names second) (c : Message) :
    Both (Turn.Renames names) (first.complete c)
      (second.complete (names.message c)) := by
  unfold Turn.complete
  rw [renames.engine.find?_byClient]
  split
  · exact .ok (renames.report c _)
  · refine (renames.engine.atOrder _).bind fun order _ owned => ?_
    subst owned
    exact .ok (renames.report { c with
      remaining := order.quantity, exchangeId := _ } _)

end Turn.Renames

namespace MatchingEngine

variable {first second : MatchingEngine}

/-- One command under either name: the same faults, renamed reports. -/
theorem Renames.process (renames : first.Renames names second) (c : Message) :
    Both (Turn.Renames names) (first.process c)
      (second.process (names.message c)) := by
  have silent : ∀ {first second : MatchingEngine},
      first.Renames names second →
        Turn.Renames names ⟨first, {}⟩ ⟨second, {}⟩ :=
    fun renames => ⟨renames, rfl, rfl, fun _ member => by cases member⟩
  have opened := renames.openClient c.clientId
  have states := opened.clientState c.clientId
  unfold MatchingEngine.process
  refine .ite Iff.rfl (fun _ => .ok ((silent renames).reject c _)) fun _ => ?_
  refine .ite Iff.rfl (fun _ => ?_) fun _ => ?_
  · have last : second.lastRequest (names.message c).clientId =
        first.lastRequest c.clientId :=
      (renames.clientState c.clientId).lastRequest
    rw [last]
    exact .ok ((silent renames).report { c with
      requestId := first.lastRequest c.clientId } _)
  refine .ite (or_congr (names.apply_eq_zero c.clientId).symm Iff.rfl)
    (fun _ => .ok (((silent renames).reject c _).report c _)) fun _ => ?_
  have lastRequest := states.lastRequest
  have lastCommand : names.message c =
      ((second.openClient (names.apply c.clientId)).clientState
        (names.apply c.clientId)).lastCommand ↔
      c = ((first.openClient c.clientId).clientState c.clientId).lastCommand := by
    rw [states.lastCommand]
    exact names.message_injective.eq_iff
  refine .ite (and_congr (by rw [← lastRequest]; rfl) lastCommand.symm)
    (fun _ => .ok ⟨opened, states.cached, rfl, fun _ member => by cases member⟩)
    fun _ => ?_
  refine .ite (by rw [← lastRequest]; rfl)
    (fun _ => .ok (((silent opened).reject c _).report c _)) fun _ => ?_
  have counted := (silent opened).withStats fun stats =>
    { stats with commands := stats.commands + 1 }
  exact (counted.dispatch c).bind fun _ _ dispatched =>
    (dispatched.complete c).bind fun _ _ completed =>
      .ok (completed.remember c)

/-- A new engine has not seen any client. -/
theorem Created.renames {pool : PoolBytes} {engine : MatchingEngine}
    (created : Created pool engine) : engine.Renames names engine := by
  obtain ⟨instruments, epoch, constructed⟩ := created
  obtain ⟨_, _, rfl⟩ := create_ok constructed
  exact
    { instruments := rfl
      books := rfl
      resting := rfl
      byClient := fun _ => .none
      clients := fun _ => .none
      positions := fun _ => .none
      epoch := rfl
      sequence := rfl
      responseSequence := rfl
      nextOrder := rfl
      nextTrade := rfl
      stats := rfl }

/--
The market data and the snapshots of a run do not depend on the names of the
clients, the reports depend on them by the renaming alone, and no published
update carries a client, a request or a client's order id.
-/
theorem feed_ignores_names
    (names : Renaming) (pool : PoolBytes) (instruments : Instruments)
    (epoch : Nat) {engine : MatchingEngine}
    (created : create pool instruments epoch = .ok engine)
    (commands : List Message) :
    ∃ turns renamed,
      StepSystem.run process Turn.engine engine commands = .ok turns ∧
        StepSystem.run process Turn.engine engine
            (commands.map names.message) = .ok renamed ∧
        turns.length = commands.length ∧
        List.Forall₂
          (fun turn other =>
            other.batch.updates = turn.batch.updates ∧
              other.batch.reports =
                turn.batch.reports.map names.message ∧
              other.engine.snapshot = turn.engine.snapshot ∧
              ∀ m ∈ turn.batch.updates,
                m.clientId = 0 ∧ m.requestId = 0 ∧ m.orderId = 0)
          turns renamed := by
  have fresh : Created pool engine := ⟨instruments, epoch, created⟩
  have start : engine.Renames names engine := fresh.renames
  obtain ⟨turns, ran, sameLength, _⟩ := StepSystem.run_ok
    (fun state c invariant => by
      obtain ⟨turn, processed, _, after⟩ := process_invariant invariant c
      exact ⟨turn, processed, after⟩) fresh.invariant commands
  refine ⟨turns, ?_⟩
  simp only [StepSystem.run_map, ran, true_and, sameLength]
  refine (run_forall₂ ?_ start ran).imp
    fun renamed run => ⟨run.1, run.2.1⟩
  intro state other c renames
  exact (renames.process c).imp fun turn otherTurn answered =>
    ⟨⟨answered.batch.updates, answered.batch.reports,
      answered.engine.snapshot, answered.batch.anonymous⟩, answered.engine⟩

/-- Two clients trade; the renaming swaps the order of their ids. -/
theorem feed_ignores_names_of_a_trade :
    ∃ engine turns renamed,
      create .capacity (OrderedMap.empty.insert 1 {}) 1 = .ok engine ∧
        StepSystem.run process Turn.engine engine
            [{ clientId := 7, requestId := 1, orderId := 1
               instrumentId := 1, price := 10, quantity := 5 },
             { clientId := 8, requestId := 1, orderId := 1, side := .ask
               instrumentId := 1, price := 10, quantity := 5 }] = .ok turns ∧
        StepSystem.run process Turn.engine engine
            [{ clientId := 3, requestId := 1, orderId := 1
               instrumentId := 1, price := 10, quantity := 5 },
             { clientId := 2, requestId := 1, orderId := 1, side := .ask
               instrumentId := 1, price := 10, quantity := 5 }] =
          .ok renamed ∧
        List.Forall₂
          (fun turn other => other.batch.updates = turn.batch.updates)
          turns renamed := by
  let names : Renaming :=
    { rename := fun client => if client < 10 then 10 - client else client
      nonzero := by
        intro client nonzero
        split <;> lia
      apart := by
        intro first second firstNonzero secondNonzero same
        split_ifs at same <;> lia }
  obtain ⟨turns, renamed, ran, renamedRan, _, related⟩ :=
    feed_ignores_names names .capacity (OrderedMap.empty.insert 1 {}) 1 rfl
      [{ clientId := 7, requestId := 1, orderId := 1
         instrumentId := 1, price := 10, quantity := 5 },
       { clientId := 8, requestId := 1, orderId := 1, side := .ask
         instrumentId := 1, price := 10, quantity := 5 }]
  exact ⟨_, turns, renamed, rfl, ran, renamedRan,
    related.imp fun _ _ same => same.1⟩

end MatchingEngine

end LimitOrderBook
