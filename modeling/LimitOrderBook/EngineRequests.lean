import LimitOrderBook.EngineMakers
import LimitOrderBook.EngineReplies
import LimitOrderBook.EngineReports
import LimitOrderBook.EngineTranscript

namespace LimitOrderBook

/-!
# Whose request a report answers

A command touches orders of its own client under its own request number, and
resting orders of other clients under the number these were entered with.  So
the number of a resting order is never above the last request of its client,
and a client can tell the answer to a request from news of older orders.
-/

/-- Reports to others move no position of a client. -/
theorem Positions.foldl_read_of_ne
    {positions : Positions} {reports : List Message} {client : ClientId}
    (foreign : ∀ m ∈ reports, m.clientId ≠ client) :
    reports.foldl Positions.read positions client = positions client := by
  induction reports generalizing positions with
  | nil => rfl
  | cons m rest inductionHypothesis =>
      rw [List.foldl_cons, inductionHypothesis fun other member =>
        foreign other (List.mem_cons_of_mem m member)]
      funext instrument
      rw [Positions.read,
        if_neg fun same => foreign m List.mem_cons_self same.2.1.symm]

namespace MatchingEngine

/-- The names of the command, or of an order that rested before the call. -/
def Names (start : MatchingEngine) (c m : Message) : Prop :=
  m.clientId = c.clientId ∧ m.requestId = c.requestId ∨
    ∃ id old, start.resting.find? id = some old ∧
      old.clientId = m.clientId ∧ old.requestId = m.requestId

/-- A part of the command, or of an order that rested before the call. -/
def Stems (start : MatchingEngine) (c m : Message) : Prop :=
  (c.action = .new ∨ c.action = .replace) ∧ m.clientId = c.clientId ∧
      m.requestId = c.requestId ∧ m.quantity ≤ c.quantity ∨
    ∃ id old, start.resting.find? id = some old ∧
      old.clientId = m.clientId ∧ old.requestId = m.requestId ∧
      m.quantity ≤ old.quantity

/-- A message that stems from the command or an order names one. -/
theorem Stems.names
    {start : MatchingEngine} {c m : Message} (stems : start.Stems c m) :
    start.Names c m := by
  rcases stems with ⟨_, client, request, _⟩ |
    ⟨id, old, found, client, request, _⟩
  · exact Or.inl ⟨client, request⟩
  · exact Or.inr ⟨id, old, found, client, request⟩

/-- Less of the same order. -/
theorem Stems.resize
    {start : MatchingEngine} {c m : Message} (stems : start.Stems c m)
    {quantity : Quantity} (smaller : quantity ≤ m.quantity) :
    start.Stems c { m with quantity := quantity } := by
  rcases stems with ⟨action, client, request, bound⟩ |
    ⟨id, old, found, client, request, bound⟩
  · exact Or.inl ⟨action, client, request, Nat.le_trans smaller bound⟩
  · exact Or.inr
      ⟨id, old, found, client, request, Nat.le_trans smaller bound⟩

/-- A report of a call, by whom it names. -/
structure Traced (start : MatchingEngine) (c m : Message) : Prop where
  epoch : m.epoch = start.epoch
  names : start.Names c m
  own : m.clientId = c.clientId → m.requestId = c.requestId

end MatchingEngine

namespace Turn

variable {slots : Nat} {start : MatchingEngine} {turn final : Turn}
  {c m incoming maker : Message} {fill : Fill} {left after : Quantity}
  {books : Books}

/-- In the middle of a command all orders and reports can be traced. -/
structure Traces (start : MatchingEngine) (c : Message) (turn : Turn) :
    Prop where
  epoch : turn.engine.epoch = start.epoch
  resting : ∀ id m, turn.engine.resting.find? id = some m → start.Stems c m
  reports : ∀ m ∈ turn.batch.reports, start.Traced c m

/-- At first nothing is reported. -/
theorem traces_start (engine : MatchingEngine) (c : Message) :
    Traces engine c (engine.start c) where
  epoch := rfl
  resting id m found := Or.inr ⟨id, m, found, rfl, rfl, Nat.le_refl _⟩
  reports m member := by cases member

/-- A report of an order or of the command itself. -/
theorem Traces.report
    (traces : Traces start c turn) (names : start.Names c m)
    (own : m.clientId = c.clientId → m.requestId = c.requestId)
    (type : ReportType) (reason : Reject := .none) :
    Traces start c (turn.report m type reason) where
  epoch := traces.epoch
  resting := traces.resting
  reports other member := by
    rcases List.mem_append.mp member with before | isLast
    · exact traces.reports other before
    · rw [List.mem_singleton.mp isLast]
      exact ⟨traces.epoch, names, own⟩

/-- A report that carries the names of the command. -/
theorem Traces.reportOwn
    (traces : Traces start c turn) (client : m.clientId = c.clientId)
    (request : m.requestId = c.requestId) (type : ReportType)
    (reason : Reject := .none) :
    Traces start c (turn.report m type reason) :=
  traces.report (Or.inl ⟨client, request⟩) (fun _ => request) type reason

/-- A rejection is of the command. -/
theorem Traces.reject
    (traces : Traces start c turn) (reason : Reject) :
    Traces start c (turn.reject c reason) := by
  have rejected := traces.reportOwn (m := c) rfl rfl .rejected reason
  exact ⟨rejected.epoch, rejected.resting, rejected.reports⟩

/-- A fill names the resting order and the command. -/
theorem Traces.afterFill
    (traces : Traces start c turn)
    (fillOf : FillOf turn.engine c maker fill left)
    (client : incoming.clientId = c.clientId)
    (request : incoming.requestId = c.requestId) :
    Traces start c (turn.afterFill c incoming maker fill left books) := by
  have stems := traces.resting _ maker fillOf.found
  have made := traces.report
    (m := execution maker fill turn.engine.nextTrade) stems.names
    (fun own => absurd own fillOf.foreign) .fill
  have taken := made.reportOwn
    (m := takerFill incoming fill (left - fill.size) turn.engine.nextTrade)
    client request .fill
  refine ⟨traces.epoch, fun id m found => ?_, taken.reports⟩
  rcases Ledger.find?_execute found with ⟨_, _, rfl⟩ | ⟨_, kept⟩
  · exact stems.resize (Nat.sub_le _ _)
  · exact traces.resting id m kept

/-- Fills name the command and the orders it meets. -/
theorem Fills.traces
    {fills : List Fill}
    (executed : Fills slots c incoming turn left fills final after)
    (client : incoming.clientId = c.clientId)
    (request : incoming.requestId = c.requestId)
    (traces : Traces start c turn) : Traces start c final := by
  induction executed with
  | done => exact traces
  | next fillOf _ _ inductionHypothesis =>
      exact inductionHypothesis (traces.afterFill fillOf client request)

/-- Cancellations name orders of the client. -/
theorem Cancels.traces
    {ms : List Message} (cancels : Cancels slots c.requestId turn ms final)
    (own : ∀ m ∈ ms, m.clientId = c.clientId)
    (traces : Traces start c turn) : Traces start c final := by
  induction cancels with
  | done => exact traces
  | @next turn final m rest books found _ _ inductionHypothesis =>
      have reported := traces.reportOwn
        (m := { m with requestId := c.requestId, remaining := 0 })
        (own m List.mem_cons_self) rfl .cancelled
      refine inductionHypothesis
        (fun other member => own other (List.mem_cons_of_mem m member))
        ⟨traces.epoch, fun id other stored => ?_, reported.reports⟩
      simp only [afterCancel, withBooks, update, Turn.report,
        OrderedMap.find?_erase] at stored
      split at stored
      · cases stored
      · exact traces.resting id other stored

/-- What rests is a part of the command. -/
theorem Traces.afterEntry
    {old : Option Message} {leaves : Quantity} (traces : Traces start c turn)
    (action : c.action = .new ∨ c.action = .replace)
    (less : leaves ≤ c.quantity) :
    Traces start c
      (turn.afterEntry c old (turn.restOf c leaves) books) := by
  have entered := traces.reportOwn (m := turn.engine.incoming c) rfl rfl
    (entryReport old)
  refine ⟨?_, fun id m found => ?_, ?_⟩
  · rw [afterEntry_engine]
    exact traces.epoch
  · rw [afterEntry_engine] at found
    rcases Ledger.find?_exchange found with ⟨isRest, _⟩ | before
    · obtain ⟨_, rfl⟩ := restOf_eq_some isRest
      exact Or.inl ⟨action, rfl, rfl, less⟩
    · exact traces.resting id m before
  · rw [afterEntry_reports]
    exact entered.reports

/-- A reduced order is a part of what it was. -/
theorem Traces.afterReduce
    {old : Message} (traces : Traces start c turn)
    (found : turn.engine.resting.find? old.exchangeId = some old)
    (smaller : c.quantity ≤ old.quantity) :
    Traces start c (turn.afterReduce c old books) := by
  have reported := traces.reportOwn (m := reduction c old) rfl rfl .replaced
  refine ⟨?_, fun id m stored => ?_, ?_⟩
  · rw [afterReduce_engine]
    exact traces.epoch
  · simp only [afterReduce_engine, OrderedMap.find?_insert] at stored
    split at stored
    · cases stored
      exact (traces.resting _ old found).resize smaller
    · exact traces.resting id m stored
  · rw [afterReduce_reports]
    exact reported.reports

/-- After a command all orders and reports can be traced. -/
theorem Handled.traces
    (handled : Handled slots turn c final) (traces : Traces start c turn) :
    Traces start c final := by
  cases handled with
  | rejected _ => exact traces.reject _
  | full =>
      have opened : Traces start c
          (turn.openPosition c.clientId c.instrumentId) :=
        ⟨traces.epoch, traces.resting, traces.reports⟩
      exact opened.reject _
  | cancelled targets cancels =>
      exact cancels.traces (fun m member => targets.own member) traces
  | reduced _ _ replaces _ smaller _ =>
      exact traces.afterReduce replaces.found smaller
  | @placed old _ _ _ _ _ action placement =>
      have enters : c.action = .new ∨ c.action = .replace := by
        cases old with
        | none => exact Or.inl action
        | some m => exact Or.inr action
      have less := placement.rest.trans_le (Nat.sub_le _ _)
      have swept := placement.executed.traces rfl rfl
        (traces.afterEntry enters less)
      unfold publishResidual
      split
      · exact ⟨swept.epoch, swept.resting, swept.reports⟩
      · split
        · apply swept.reportOwn
          · rfl
          · rfl
        · exact swept

/-- So can the report that ends the batch. -/
theorem Traces.finish
    (traces : Traces start c turn) : Traces start c (turn.finish c) := by
  obtain ⟨client, request, _⟩ := MatchingEngine.completion_fields turn c
  have completed := traces.reportOwn client request .complete
  exact ⟨completed.epoch, completed.resting, completed.reports⟩

end Turn

namespace MatchingEngine

variable {slots : Nat} {engine : MatchingEngine} {c : Message} {turn : Turn}
  {pool : PoolBytes} {client : ClientId}

/-- What a well-sequenced command leaves and reports can be traced. -/
theorem Outcome.traces
    (outcome : Outcome slots engine c turn) (sequenced : engine.WellSequenced c) :
    Turn.Traces engine c turn := by
  obtain ⟨done, handled, rfl⟩ := outcome.handled_of_sequenced sequenced
  exact (handled.traces (Turn.traces_start engine c)).finish

/-- A resting order is part of the command or of an older order. -/
theorem Outcome.stems
    (outcome : Outcome slots engine c turn) {id : OrderId} {m : Message}
    (found : turn.engine.resting.find? id = some m) : engine.Stems c m := by
  rcases outcome.quiet_or_handled with quiet | ⟨sequenced, _⟩
  · rw [quiet.stores.resting] at found
    exact Or.inr ⟨id, m, found, rfl, rfl, Nat.le_refl _⟩
  · exact (outcome.traces sequenced).resting id m found

/-! ## The numbers of resting orders -/

/-- A resting order has the number of a request of its client. -/
def RequestsKnown (engine : MatchingEngine) : Prop :=
  ∀ id m, engine.resting.find? id = some m →
    m.requestId ≠ 0 ∧ m.requestId ≤ engine.lastRequest m.clientId

/-- The next command of a client becomes its last request. -/
theorem Outcome.lastRequest_sequenced
    (outcome : Outcome slots engine c turn) (sequenced : engine.WellSequenced c) :
    turn.engine.lastRequest c.clientId = c.requestId :=
  (outcome.remembers sequenced).clientState.1

/-- The number of the last request only grows. -/
theorem Outcome.lastRequest_le
    (outcome : Outcome slots engine c turn) (client : ClientId) :
    engine.lastRequest client ≤ turn.engine.lastRequest client := by
  rcases outcome.clientState_or_sequenced client with same | ⟨rfl, sequenced⟩
  · exact Nat.le_of_eq (congrArg ClientState.lastRequest same).symm
  · rw [outcome.lastRequest_sequenced sequenced, sequenced.next]
    exact Nat.le_succ _

/-- What is named has a request that was made. -/
theorem RequestsKnown.names
    (known : engine.RequestsKnown) (sequenced : engine.WellSequenced c)
    {m : Message} (names : engine.Names c m) :
    m.requestId ≠ 0 ∧
      (m.clientId = c.clientId ∧ m.requestId = c.requestId ∨
        m.requestId ≤ engine.lastRequest m.clientId) := by
  rcases names with ⟨own, request⟩ | ⟨id, old, found, sameClient, sameRequest⟩
  · exact ⟨request ▸ sequenced.request, Or.inl ⟨own, request⟩⟩
  · obtain ⟨positive, bounded⟩ := known id old found
    rw [sameClient, sameRequest] at bounded
    rw [sameRequest] at positive
    exact ⟨positive, Or.inr bounded⟩

/-- Orders that rest are of requests that were made. -/
theorem Reachable.requestsKnown
    (reachable : Reachable pool engine) : engine.RequestsKnown := by
  refine reachable.induction ?_ ?_
  · intro engine created id m found
    obtain ⟨instruments, epoch, constructed⟩ := created
    obtain ⟨_, _, rfl⟩ := create_ok constructed
    simp at found
  · intro engine c turn _ outcome known id m found
    rcases outcome.quiet_or_handled with quiet | ⟨sequenced, _⟩
    · rw [quiet.stores.resting] at found
      obtain ⟨positive, bounded⟩ := known id m found
      exact ⟨positive, Nat.le_trans bounded (outcome.lastRequest_le _)⟩
    · obtain ⟨positive, bounded⟩ := known.names sequenced
        ((outcome.traces sequenced).resting id m found).names
      refine ⟨positive, ?_⟩
      rcases bounded with ⟨own, request⟩ | older
      · rw [own, outcome.lastRequest_sequenced sequenced, request]
      · exact Nat.le_trans older (outcome.lastRequest_le _)

/-! ## What a client hears -/

/-- What a command of another client tells a client. -/
structure Unsolicited (engine : MatchingEngine) (client : ClientId)
    (m : Message) : Prop where
  kind : m.kind = .report
  fill : m.report = .fill
  epoch : m.epoch = engine.epoch
  request : m.requestId ≠ 0 ∧ m.requestId ≤ engine.lastRequest client

/-- A client hears from others only of fills of its orders. -/
theorem Reachable.unsolicited
    (reachable : Reachable pool engine) (processed : engine.process c = .ok turn)
    (foreign : c.clientId ≠ client) :
    ∀ m ∈ turn.batch.addressedTo client, engine.Unsolicited client m := by
  obtain ⟨outcome, _⟩ := reachable.outcome_of processed
  intro m member
  obtain ⟨inBatch, own⟩ : m ∈ turn.batch.reports ∧ m.clientId = client := by
    simpa [Batch.addressedTo] using member
  by_cases retries : engine.Retries c
  · rw [outcome.of_retries retries] at inBatch
    have isOwn := reachable.cachesOwn c.clientId m inBatch
    exact absurd (isOwn.symm.trans own) foreign
  · have fill := (outcome.fulfils reachable.invariant.sound
      (fun same => foreign same.symm) retries).fill inBatch own
    have kind := (outcome.stamps retries).kinds m inBatch
    have apart : m.clientId ≠ c.clientId := fun same =>
      foreign (same.symm.trans own)
    by_cases sequenced : engine.WellSequenced c
    · have traced := (outcome.traces sequenced).reports m inBatch
      obtain ⟨positive, known⟩ := reachable.requestsKnown.names sequenced
        traced.names
      have bounded := known.resolve_left fun isOwn => apart isOwn.1
      rw [own] at bounded
      exact ⟨kind, fill, traced.epoch, positive, bounded⟩
    · exact absurd fill ((outcome.no_fill retries sequenced).1 m inBatch)

/-- What a client hears of its own next command. -/
structure Solicited (engine : MatchingEngine) (c m : Message) : Prop where
  kind : m.kind = .report
  client : m.clientId = c.clientId
  epoch : m.epoch = engine.epoch
  request : m.requestId = c.requestId

/-- What a client hears of its own next command answers that request. -/
theorem Reachable.solicited
    (reachable : Reachable pool engine) (processed : engine.process c = .ok turn)
    (sequenced : engine.WellSequenced c) :
    ∀ m ∈ turn.batch.addressedTo c.clientId, engine.Solicited c m := by
  obtain ⟨outcome, _⟩ := reachable.outcome_of processed
  intro m member
  obtain ⟨inBatch, own⟩ : m ∈ turn.batch.reports ∧
      m.clientId = c.clientId := by
    simpa [Batch.addressedTo] using member
  have traced := (outcome.traces sequenced).reports m inBatch
  exact ⟨(outcome.stamps sequenced.notRetry).kinds m inBatch, own, traced.epoch,
    traced.own own⟩

/-! ## Clients without a history -/

/-- Nothing is stored for a client. -/
structure Unheard (engine : MatchingEngine) (client : ClientId) : Prop where
  resting : ∀ id m, engine.resting.find? id = some m → m.clientId ≠ client
  position : ∀ instrument, engine.position client instrument = {}
  cached : (engine.clientState client).cached = []

/-- A client without orders hears nothing of what others do. -/
theorem Reachable.unaddressed
    (reachable : Reachable pool engine)
    (resting : ∀ id m, engine.resting.find? id = some m → m.clientId ≠ client)
    (processed : engine.process c = .ok turn) (foreign : c.clientId ≠ client) :
    turn.batch.addressedTo client = [] := by
  obtain ⟨outcome, _⟩ := reachable.outcome_of processed
  apply List.eq_nil_iff_forall_not_mem.mpr
  intro m member
  have heard := reachable.unsolicited processed foreign m member
  obtain ⟨inBatch, own⟩ : m ∈ turn.batch.reports ∧ m.clientId = client := by
    simpa [Batch.addressedTo] using member
  have retries : ¬ engine.Retries c := by
    intro retries
    rw [outcome.of_retries retries] at inBatch
    exact foreign ((reachable.cachesOwn c.clientId m inBatch).symm.trans own)
  by_cases sequenced : engine.WellSequenced c
  · rcases ((outcome.traces sequenced).reports m inBatch).names with
      ⟨same, _⟩ | ⟨id, old, found, sameClient, _⟩
    · exact foreign (same.symm.trans own)
    · exact resting id old found (sameClient.trans own)
  · exact (outcome.no_fill retries sequenced).1 m inBatch heard.fill

/-- A client that never sent a command has no orders and no positions. -/
theorem Reachable.unheard
    (reachable : Reachable pool engine)
    (noHistory : engine.lastRequest client = 0) : engine.Unheard client := by
  induction reachable with
  | start created =>
      obtain ⟨instruments, epoch, constructed⟩ := created
      obtain ⟨_, _, rfl⟩ := create_ok constructed
      exact ⟨by simp, fun _ => rfl, rfl⟩
  | @step engine c turn reachable processed inductionHypothesis =>
      obtain ⟨outcome, next⟩ := Reachable.outcome_of reachable processed
      have before : engine.lastRequest client = 0 :=
        Nat.le_zero.mp (noHistory ▸ outcome.lastRequest_le client)
      have unheard := inductionHypothesis before
      have notNext : ¬ (client = c.clientId ∧ engine.WellSequenced c) := by
        rintro ⟨rfl, sequenced⟩
        rw [outcome.lastRequest_sequenced sequenced] at noHistory
        exact sequenced.request noHistory
      refine ⟨fun id m found own => ?_, fun instrument => ?_, ?_⟩
      · obtain ⟨positive, bounded⟩ := next.requestsKnown id m found
        rw [own, noHistory] at bounded
        exact positive (Nat.le_zero.mp bounded)
      · rcases outcome.quiet_or_handled with quiet | ⟨sequenced, _⟩
        · rw [← unheard.position instrument, position, position,
            quiet.stores.positions]
        · have foreign : c.clientId ≠ client :=
            fun own => notNext ⟨own.symm, sequenced⟩
          have silent := List.filter_eq_nil_iff.mp
            (Reachable.unaddressed reachable unheard.resting processed foreign)
          rw [← (outcome.follows (Reachable.invariant reachable).sound
            (Reachable.keepsLimits reachable) sequenced.notRetry).replay,
            Positions.foldl_read_of_ne (by simpa using silent)]
          exact unheard.position instrument
      · rw [(outcome.clientState_or_sequenced client).resolve_right notNext]
        exact unheard.cached

end MatchingEngine

end LimitOrderBook
