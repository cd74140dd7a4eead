import LimitOrderBook.EnginePositions

namespace LimitOrderBook

/-!
# A rejection changes nothing

A command is either carried out, and then no report of its batch is a
rejection, or it is rejected before any store is changed.  The one rejection
after a store was written, a full book, leaves behind only an empty position.
-/

namespace Turn

variable {slots : Nat} {turn final swept : Turn} {c incoming : Message}

/-- No report so far is a rejection. -/
def Unrejected (turn : Turn) : Prop :=
  ∀ m ∈ turn.batch.reports, m.report ≠ .rejected

theorem Unrejected.report
    (clean : turn.Unrejected) (m : Message) {type : ReportType}
    (other : type ≠ .rejected) (reason : Reject) :
    (turn.report m type reason).Unrejected := by
  intro reported member
  rcases List.mem_append.mp member with before | new
  · exact clean reported before
  · rw [List.mem_singleton.mp new]
    exact other

theorem Fills.unrejected
    {left after : Quantity} {fills : List Fill}
    (executed : Fills slots c incoming turn left fills final after)
    (clean : turn.Unrejected) : final.Unrejected := by
  induction executed with
  | done => exact clean
  | @next turn _ _ _ fill _ maker books _ _ _ inductionHypothesis =>
      refine inductionHypothesis ?_
      have made : ((turn.withBooks books).report
          (execution maker fill turn.engine.nextTrade) .fill).Unrejected :=
        clean.report _ (by decide) .none
      exact made.report _ (by decide) .none

theorem Cancels.unrejected
    {request : Nat} {ms : List Message}
    (cancels : Cancels slots request turn ms final)
    (clean : turn.Unrejected) : final.Unrejected := by
  induction cancels with
  | done => exact clean
  | next _ _ _ inductionHypothesis =>
      exact inductionHypothesis (clean.report _ (by decide) .none)

theorem afterEntry_unrejected
    (clean : turn.Unrejected) (c : Message) (old rest : Option Message)
    (books : Books) : (turn.afterEntry c old rest books).Unrejected := by
  cases old with
  | none => exact clean.report _ (by simp [entryReport]) .none
  | some m => exact clean.report _ (by simp [entryReport]) .none

theorem publishResidual_unrejected
    (clean : turn.Unrejected) (m : Message) (leaves : Quantity)
    (restsHere : Bool) :
    (turn.publishResidual m leaves restsHere).Unrejected := by
  unfold publishResidual
  split
  · exact clean
  · split
    · exact clean.report _ (by decide) .none
    · exact clean

theorem afterReduce_unrejected
    (clean : turn.Unrejected) (c old : Message) (books : Books) :
    (turn.afterReduce c old books).Unrejected := by
  unfold Unrejected
  rw [afterReduce_reports]
  exact clean.report (reduction c old) (by decide) .none

/-- What a rejection changes in the engine. -/
theorem TurnedDown.engine_eq
    (turnedDown : TurnedDown turn c final) :
    ∃ positions stats,
      final.engine =
          { turn.engine with
            positions := positions
            stats := stats
            responseSequence := turn.engine.responseSequence + 1 } ∧
        (∀ client instrument, final.engine.position client instrument =
          turn.engine.position client instrument) ∧
        stats.trades = turn.engine.stats.trades ∧
        stats.volume = turn.engine.stats.volume ∧
        final.batch.updates = turn.batch.updates := by
  cases turnedDown with
  | rejected _ => exact ⟨_, _, rfl, fun _ _ => rfl, rfl, rfl, rfl⟩
  | full =>
      refine ⟨_, _, rfl, fun client instrument => ?_, rfl, rfl, rfl⟩
      exact congrFun (congrFun (openPosition_position turn c.clientId
        c.instrumentId) client) instrument

/-- A command that is turned down has a rejection in its batch. -/
theorem TurnedDown.rejects
    (turnedDown : TurnedDown turn c final) :
    ∃ m ∈ final.batch.reports, m.report = .rejected := by
  cases turnedDown with
  | rejected _ => exact ⟨_, List.mem_append_right _ List.mem_cons_self, rfl⟩
  | full => exact ⟨_, List.mem_append_right _ List.mem_cons_self, rfl⟩

/-- Either a command is turned down or nothing in its batch is a rejection. -/
theorem Handled.turnedDown_or_unrejected
    (handled : Handled slots turn c final) (clean : turn.Unrejected) :
    TurnedDown turn c final ∨ final.Unrejected := by
  cases handled with
  | rejected nonzero => exact Or.inl (.rejected nonzero)
  | full => exact Or.inl .full
  | cancelled _ cancels => exact Or.inr (cancels.unrejected clean)
  | reduced _ _ _ _ _ _ =>
      exact Or.inr (afterReduce_unrejected clean c _ _)
  | placed _ placement =>
      exact Or.inr (publishResidual_unrejected
        (placement.executed.unrejected
          (afterEntry_unrejected clean c _ _ _)) _ _ _)

end Turn

/-! ## The clients -/

namespace Turn

variable {slots : Nat} {turn final swept : Turn} {c incoming : Message}

theorem Fills.clients
    {left after : Quantity} {fills : List Fill}
    (executed : Fills slots c incoming turn left fills final after) :
    final.engine.clients = turn.engine.clients := by
  induction executed with
  | done => rfl
  | next _ _ _ inductionHypothesis => exact inductionHypothesis

theorem Cancels.clients
    {request : Nat} {ms : List Message}
    (cancels : Cancels slots request turn ms final) :
    final.engine.clients = turn.engine.clients := by
  induction cancels with
  | done => rfl
  | next _ _ _ inductionHypothesis => exact inductionHypothesis

/-- The business part raises at most the highest order id of its client. -/
theorem Handled.clients
    (handled : Handled slots turn c final) :
    final.engine.clients = turn.engine.clients ∨
      final.engine.clients = turn.engine.clients.modify c.clientId fun state =>
        { state with maxOrderId := max state.maxOrderId c.orderId } := by
  cases handled with
  | rejected _ => exact Or.inl rfl
  | full => exact Or.inl rfl
  | cancelled _ cancels => exact Or.inl cancels.clients
  | reduced _ _ _ _ _ _ =>
      left
      rw [afterReduce_engine]
  | placed _ placement =>
      obtain ⟨sequence, responseSequence, published⟩ :=
        publishResidual_engine _ (turn.engine.incoming c) _ _
      right
      rw [published]
      simp only
      rw [placement.executed.clients, afterEntry_engine]

end Turn

namespace MatchingEngine

variable {slots : Nat} {engine : MatchingEngine} {c : Message} {turn : Turn}
  {pool : PoolBytes}

/-- What `remember` writes for the client of a handled command. -/
theorem clientState_finish
    (turn : Turn) (c : Message) (client : ClientId)
    (known : (turn.engine.clients.find? c.clientId).isSome) :
    (turn.finish c).engine.clientState client =
      if client = c.clientId then
        { turn.engine.clientState client with
          lastRequest := c.requestId
          lastCommand := c
          cached := (turn.finish c).batch.reports.filter fun m =>
            decide (m.clientId = c.clientId) }
      else
        turn.engine.clientState client := by
  obtain ⟨state, found⟩ := Option.isSome_iff_exists.mp known
  by_cases own : client = c.clientId
  · subst own
    simp [clientState, Turn.finish, Turn.remember, Turn.report, found]
  · simp [clientState, Turn.finish, Turn.remember, Turn.report, own]

/-- What a call that rejects leaves as it was. -/
structure Untouched (engine next : MatchingEngine) : Prop where
  instruments : next.instruments = engine.instruments
  books : next.books = engine.books
  resting : next.resting = engine.resting
  byClient : next.byClient = engine.byClient
  position : ∀ client instrument,
    next.position client instrument = engine.position client instrument
  epoch : next.epoch = engine.epoch
  sequence : next.sequence = engine.sequence
  nextOrder : next.nextOrder = engine.nextOrder
  nextTrade : next.nextTrade = engine.nextTrade
  maxOrderId : ∀ client, (next.clientState client).maxOrderId =
    (engine.clientState client).maxOrderId
  trades : next.stats.trades = engine.stats.trades
  volume : next.stats.volume = engine.stats.volume

theorem Untouched.snapshot
    {next : MatchingEngine} (untouched : Untouched engine next) :
    next.snapshot = engine.snapshot := by
  simp [MatchingEngine.snapshot, envelope, untouched.books, untouched.resting,
    untouched.epoch, untouched.sequence]

/-- Only the last request, its command and its reports of one client differ. -/
structure SameClients (engine next : MatchingEngine) (c : Message) : Prop where
  others : ∀ client, client ≠ c.clientId ∨ ¬ engine.WellSequenced c →
    next.clientState client = engine.clientState client
  own : ∃ lastRequest lastCommand cached,
    next.clientState c.clientId =
      { engine.clientState c.clientId with
        lastRequest := lastRequest
        lastCommand := lastCommand
        cached := cached }

/-- A call outside the business part. -/
structure Quiet (engine : MatchingEngine) (turn : Turn) : Prop where
  stores : SameStores engine turn.engine
  clients : ∀ client,
    turn.engine.clientState client = engine.clientState client
  trades : turn.engine.stats.trades = engine.stats.trades
  volume : turn.engine.stats.volume = engine.stats.volume
  updates : turn.batch.updates = []

/-- Only the business part of a well-sequenced command does anything. -/
theorem Outcome.quiet_or_handled
    (outcome : Outcome slots engine c turn) :
    Quiet engine turn ∨
      engine.WellSequenced c ∧ ∃ done,
        Turn.Handled slots (engine.start c) c done ∧ turn = done.finish c := by
  cases outcome with
  | refused _ =>
      exact Or.inl ⟨⟨rfl, rfl, rfl, rfl, rfl, rfl, rfl, rfl, rfl⟩,
        fun _ => rfl, rfl, rfl, rfl⟩
  | status _ _ =>
      exact Or.inl ⟨⟨rfl, rfl, rfl, rfl, rfl, rfl, rfl, rfl, rfl⟩,
        fun _ => rfl, rfl, rfl, rfl⟩
  | anonymous _ _ =>
      exact Or.inl ⟨⟨rfl, rfl, rfl, rfl, rfl, rfl, rfl, rfl, rfl⟩,
        fun _ => rfl, rfl, rfl, rfl⟩
  | retried _ =>
      exact Or.inl ⟨⟨rfl, rfl, rfl, rfl, rfl, rfl, rfl, rfl, rfl⟩,
        clientState_openClient engine c.clientId, rfl, rfl, rfl⟩
  | unsequenced _ _ _ _ _ =>
      exact Or.inl ⟨⟨rfl, rfl, rfl, rfl, rfl, rfl, rfl, rfl, rfl⟩,
        clientState_openClient engine c.clientId, rfl, rfl, rfl⟩
  | @handled done sequenced handled =>
      exact Or.inr ⟨sequenced, done, handled, rfl⟩

/-- A well-sequenced command reaches the business part. -/
theorem Outcome.handled_of_sequenced
    (outcome : Outcome slots engine c turn) (sequenced : engine.WellSequenced c) :
    ∃ done, Turn.Handled slots (engine.start c) c done ∧
      turn = done.finish c := by
  cases outcome with
  | refused query =>
      rcases query with notCommand | isSnapshot
      · exact absurd sequenced.business.1 notCommand
      · exact absurd isSnapshot sequenced.business.2.1
  | status _ isStatus => exact absurd isStatus sequenced.business.2.2
  | anonymous _ anonymous =>
      exact absurd anonymous
        (not_or.mpr ⟨sequenced.client, sequenced.request⟩)
  | retried retries => exact absurd retries sequenced.notRetry
  | unsequenced _ _ _ outOfSequence _ =>
      exact absurd sequenced.next outOfSequence
  | @handled done _ handled => exact ⟨done, handled, rfl⟩

theorem Quiet.untouched
    (quiet : Quiet engine turn) : Untouched engine turn.engine where
  instruments := quiet.stores.instruments
  books := quiet.stores.books
  resting := quiet.stores.resting
  byClient := quiet.stores.byClient
  position client instrument := by
    simp only [position, quiet.stores.positions]
  epoch := quiet.stores.epoch
  sequence := quiet.stores.sequence
  nextOrder := quiet.stores.nextOrder
  nextTrade := quiet.stores.nextTrade
  maxOrderId client := by rw [quiet.clients]
  trades := quiet.trades
  volume := quiet.volume

theorem Quiet.sameClients
    (quiet : Quiet engine turn) (c : Message) :
    SameClients engine turn.engine c where
  others client _ := quiet.clients client
  own := ⟨_, _, _, quiet.clients c.clientId⟩

@[simp] theorem clientState_start
    (engine : MatchingEngine) (c : Message) (client : ClientId) :
    (engine.start c).engine.clientState client = engine.clientState client :=
  clientState_openClient engine c.clientId client

theorem start_known (engine : MatchingEngine) (c : Message) :
    ((engine.start c).engine.clients.find? c.clientId).isSome := by
  simp [start, openClient]

/-- A well-sequenced command that is turned down. -/
theorem untouched_of_turnedDown
    (sequenced : engine.WellSequenced c)
    (turnedDown : Turn.TurnedDown (engine.start c) c turn) :
    (turn.finish c).batch.updates = [] ∧
      Untouched engine (turn.finish c).engine ∧
      SameClients engine (turn.finish c).engine c := by
  obtain ⟨positions, stats, shape, same, trades, volume, updates⟩ :=
    turnedDown.engine_eq
  have states : ∀ client,
      turn.engine.clientState client = engine.clientState client := by
    intro client
    rw [← clientState_start engine c client, shape]
    rfl
  have known : (turn.engine.clients.find? c.clientId).isSome := by
    rw [shape]
    exact start_known engine c
  have finished := fun client => clientState_finish turn c client known
  refine ⟨updates, ?_, ?_⟩
  · have stores : SameStores turn.engine (turn.finish c).engine :=
      ⟨rfl, rfl, rfl, rfl, rfl, rfl, rfl, rfl, rfl⟩
    exact
      { instruments := stores.instruments.trans (by rw [shape]; rfl)
        books := stores.books.trans (by rw [shape]; rfl)
        resting := stores.resting.trans (by rw [shape]; rfl)
        byClient := stores.byClient.trans (by rw [shape]; rfl)
        position := same
        epoch := stores.epoch.trans (by rw [shape]; rfl)
        sequence := stores.sequence.trans (by rw [shape]; rfl)
        nextOrder := stores.nextOrder.trans (by rw [shape]; rfl)
        nextTrade := stores.nextTrade.trans (by rw [shape]; rfl)
        maxOrderId := fun client => by
          rw [finished]
          split
          · simp only [states]
          · rw [states]
        trades := (congrArg (fun e => e.stats.trades) shape).trans trades
        volume := (congrArg (fun e => e.stats.volume) shape).trans volume }
  · refine ⟨?_, ?_⟩
    · intro client other
      have foreign : client ≠ c.clientId :=
        other.resolve_right (not_not.mpr sequenced)
      rw [finished, if_neg foreign, states]
    · rw [finished, if_pos rfl, states]
      exact ⟨_, _, _, rfl⟩

theorem Outcome.untouched
    (outcome : Outcome slots engine c turn)
    (rejected : ∃ m ∈ turn.batch.reports, m.report = .rejected) :
    turn.batch.updates = [] ∧ Untouched engine turn.engine ∧
      SameClients engine turn.engine c := by
  rcases outcome.quiet_or_handled with
    quiet | ⟨sequenced, done, handled, rfl⟩
  · exact ⟨quiet.updates, quiet.untouched, quiet.sameClients c⟩
  · have clean : (engine.start c).Unrejected := by
      intro m member
      cases member
    rcases handled.turnedDown_or_unrejected clean with turnedDown | carriedOut
    · exact untouched_of_turnedDown sequenced turnedDown
    · obtain ⟨m, member, isRejection⟩ := rejected
      exact absurd isRejection
        (carriedOut.report (done.completion c) (by decide) .none m member)

/--
A call whose batch contains a rejection publishes nothing and leaves every
order, position, id and counter of the business state as it was.  Besides the
report numbers and the counters of commands and rejections, only the last
request of a well-sequenced client and its cached reports may differ.
-/
theorem rejection_atomic
    (reachable : Reachable pool engine)
    (processed : engine.process c = .ok turn)
    (rejected : ∃ m ∈ turn.batch.reports, m.report = .rejected) :
    turn.batch.updates = [] ∧ turn.engine.snapshot = engine.snapshot ∧
      Untouched engine turn.engine ∧ SameClients engine turn.engine c := by
  obtain ⟨outcome, _⟩ := reachable.outcome_of processed
  obtain ⟨updates, untouched, clients⟩ := outcome.untouched rejected
  exact ⟨updates, untouched.snapshot, untouched, clients⟩

/-- An engine like `single` with room for one order. -/
def narrow : MatchingEngine where
  instruments := OrderedMap.empty.insert 1 {}
  books := (OrderedMap.empty.insert 1 ({} : InstrumentRules)).mapValues
    fun _ => PoolBytes.book ⟨nodeBytes, by decide, by decide⟩
  epoch := 1

/-- After a trade, there is no room for an offer beside the rest of the bid. -/
theorem rejection_atomic_full_book :
    ∃ turn,
      (narrow.after oneTrade).process
          { clientId := 8, requestId := 2, orderId := 2, side := .ask
            instrumentId := 1, price := 12, quantity := 4 } = .ok turn ∧
        (∃ m ∈ turn.batch.reports,
          m.report = .rejected ∧ m.reject = .capacity) ∧
        turn.batch.updates = [] ∧
        turn.engine.snapshot = (narrow.after oneTrade).snapshot ∧
        turn.engine.resting.size = 1 ∧
        (turn.engine.position 8 1).quantity = -2 := by
  let offer : Message :=
    { clientId := 8, requestId := 2, orderId := 2, side := .ask
      instrumentId := 1, price := 12, quantity := 4 }
  have reachable : Reachable ⟨nodeBytes, by decide, by decide⟩
      (narrow.after oneTrade) :=
    MatchingEngine.Reachable.after
      (.start ⟨OrderedMap.empty.insert 1 {}, 1, rfl⟩) oneTrade
  have before : (narrow.after oneTrade).resting.size = 1 ∧
      ((narrow.after oneTrade).position 8 1).quantity = -2 := by
    decide +kernel
  have full : ((narrow.after oneTrade).process offer).toOption.map
      (fun turn => turn.batch.reports.any fun m =>
        decide (m.report = .rejected ∧ m.reject = .capacity)) =
      some true := by
    decide +kernel
  obtain ⟨turn, processed, _⟩ := reachable.outcome offer
  rw [processed] at full
  simp only [Except.toOption, Option.map_some, Option.some.injEq,
    List.any_eq_true, decide_eq_true_eq] at full
  obtain ⟨m, member, rejected, reason⟩ := full
  obtain ⟨updates, snapshot, untouched, _⟩ :=
    rejection_atomic reachable processed ⟨m, member, rejected⟩
  refine ⟨turn, processed, ⟨m, member, rejected, reason⟩, updates, snapshot,
    ?_, ?_⟩
  · rw [untouched.resting]
    exact before.1
  · rw [untouched.position]
    exact before.2

end MatchingEngine

end LimitOrderBook
