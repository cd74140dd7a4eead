import LimitOrderBook.EngineAtomicity

namespace LimitOrderBook

/-!
# Exactly-once retries

The engine remembers the last well-sequenced command of every client together
with the reports its batch addressed to the client.  Nothing but the client's
next command overwrites that memory, so a retry is answered from it at any
later time.
-/

/-- The reports of a batch that are addressed to a client. -/
def Batch.addressedTo (batch : Batch) (client : ClientId) : List Message :=
  batch.reports.filter fun m => decide (m.clientId = client)

namespace MatchingEngine

variable {slots : Nat} {engine later : MatchingEngine} {c m : Message}
  {turn first : Turn} {pool : PoolBytes} {reports : List Message}

/-- The engine remembers a command and the reports that answered it. -/
def Remembers (engine : MatchingEngine) (c : Message)
    (reports : List Message) : Prop :=
  ∃ maxOrderId, engine.clients.find? c.clientId =
    some
      { lastRequest := c.requestId
        maxOrderId := maxOrderId
        lastCommand := c
        cached := reports }

theorem Remembers.clientState
    (remembers : engine.Remembers c reports) :
    (engine.clientState c.clientId).lastRequest = c.requestId ∧
      (engine.clientState c.clientId).lastCommand = c ∧
      (engine.clientState c.clientId).cached = reports := by
  obtain ⟨maxOrderId, known⟩ := remembers
  simp [MatchingEngine.clientState, known]

/-- A handled command keeps its client known. -/
theorem handled_known
    (handled : Turn.Handled slots (engine.start c) c turn) :
    (turn.engine.clients.find? c.clientId).isSome := by
  have started := start_known engine c
  rcases handled.clients with same | raised
  · rw [same]
    exact started
  · obtain ⟨state, found⟩ := Option.isSome_iff_exists.mp started
    simp [raised, found]

/-- A well-sequenced command is remembered with its own reports. -/
theorem Outcome.remembers
    (outcome : Outcome slots engine c turn) (sequenced : engine.WellSequenced c) :
    turn.engine.Remembers c (turn.batch.addressedTo c.clientId) := by
  obtain ⟨done, handled, rfl⟩ := outcome.handled_of_sequenced sequenced
  obtain ⟨state, found⟩ := Option.isSome_iff_exists.mp (handled_known handled)
  refine ⟨state.maxOrderId, ?_⟩
  simp [Turn.finish, Turn.remember, Turn.report, Batch.addressedTo, found]

/-- Only the client's next command overwrites what is remembered. -/
theorem Outcome.keeps_remembering
    (outcome : Outcome slots engine m turn)
    (notNext : ¬ (m.clientId = c.clientId ∧ engine.WellSequenced m))
    (remembers : engine.Remembers c reports) :
    turn.engine.Remembers c reports := by
  obtain ⟨maxOrderId, known⟩ := remembers
  have opened : (engine.openClient m.clientId).Remembers c reports := by
    refine ⟨maxOrderId, ?_⟩
    by_cases own : c.clientId = m.clientId
    · rw [own] at known
      simp [openClient, own, known]
    · simp [openClient, own, known]
  cases outcome with
  | refused _ => exact ⟨maxOrderId, known⟩
  | status _ _ => exact ⟨maxOrderId, known⟩
  | anonymous _ _ => exact ⟨maxOrderId, known⟩
  | retried _ => exact opened
  | unsequenced _ _ _ _ _ => exact opened
  | @handled done sequenced handled =>
      have foreign : c.clientId ≠ m.clientId := fun own =>
        notNext ⟨own.symm, sequenced⟩
      obtain ⟨openedOrderId, openedKnown⟩ := opened
      have kept : done.engine.clients.find? c.clientId =
          (engine.start m).engine.clients.find? c.clientId := by
        rcases handled.clients with same | raised
        · rw [same]
        · rw [raised, OrderedMap.find?_modify, if_neg foreign]
      refine ⟨openedOrderId, ?_⟩
      simp only [Turn.finish, Turn.remember, Turn.report,
        OrderedMap.find?_modify, if_neg foreign, kept]
      exact openedKnown

/-- Messages among which a client does not send its next command. -/
def Undisturbed (client : ClientId) : MatchingEngine → List Message → Prop
  | _, [] => True
  | engine, m :: rest =>
      ¬ (m.clientId = client ∧ engine.WellSequenced m) ∧
        ∀ turn, engine.process m = .ok turn →
          Undisturbed client turn.engine rest

/-- A run without the client's next command keeps what is remembered. -/
theorem Reachable.run_remembers
    (reachable : Reachable pool engine) (messages : List Message)
    (undisturbed : Undisturbed c.clientId engine messages)
    (remembers : engine.Remembers c reports) :
    ∃ turns,
      StepSystem.run process Turn.engine engine messages = .ok turns ∧
        Reachable pool (StepSystem.last Turn.engine engine turns) ∧
        (StepSystem.last Turn.engine engine turns).Remembers c reports := by
  induction messages generalizing engine with
  | nil => exact ⟨[], rfl, reachable, remembers⟩
  | cons m rest inductionHypothesis =>
      obtain ⟨notNext, restUndisturbed⟩ := undisturbed
      obtain ⟨turn, processed, outcome, next⟩ := reachable.outcome m
      obtain ⟨turns, ran, lastReachable, lastRemembers⟩ :=
        inductionHypothesis next (restUndisturbed turn processed)
          (outcome.keeps_remembering notNext remembers)
      exact ⟨turn :: turns, StepSystem.run_cons_of_ok processed ran,
        lastReachable, lastRemembers⟩

/-- The retry of a remembered command is answered from memory. -/
theorem process_retry
    (remembers : engine.Remembers c reports) (business : c.Business)
    (client : c.clientId ≠ 0) (request : c.requestId ≠ 0) :
    engine.process c = .ok ⟨engine, { reports := reports }⟩ := by
  obtain ⟨sameRequest, sameCommand, cached⟩ := remembers.clientState
  obtain ⟨maxOrderId, known⟩ := remembers
  have opened : engine.openClient c.clientId = engine := by
    simp [openClient, OrderedMap.emplace, known]
  have notQuery : ¬ (c.kind ≠ .command ∨ c.action = .snapshot) := by
    rintro (notCommand | isSnapshot)
    · exact notCommand business.1
    · exact business.2.1 isSnapshot
  rw [process, if_neg notQuery, if_neg business.2.2,
    if_neg (not_or.mpr ⟨client, request⟩)]
  simp only [opened, sameRequest, sameCommand, cached, and_self, if_true]

/-- Any other command of that client that is out of sequence is rejected. -/
theorem Outcome.sequence_rejection
    (outcome : Outcome slots engine m turn) (business : m.Business)
    (client : m.clientId ≠ 0) (request : m.requestId ≠ 0)
    (outOfSequence : m.requestId ≠ engine.lastRequest m.clientId + 1)
    (notRetry : ¬ engine.Retries m) :
    turn.batch =
        { reports :=
            [m.asReport .rejected .sequence engine.epoch
                (engine.responseSequence + 1),
              m.asReport .complete .none engine.epoch
                (engine.responseSequence + 2)] } ∧
      turn.engine.lastRequest m.clientId = engine.lastRequest m.clientId := by
  cases outcome with
  | refused query =>
      rcases query with notCommand | isSnapshot
      · exact absurd business.1 notCommand
      · exact absurd isSnapshot business.2.1
  | status _ isStatus => exact absurd isStatus business.2.2
  | anonymous _ anonymous =>
      exact absurd anonymous (not_or.mpr ⟨client, request⟩)
  | retried retries => exact absurd retries notRetry
  | unsequenced _ _ _ _ _ =>
      refine ⟨rfl, ?_⟩
      exact congrArg ClientState.lastRequest
        (clientState_openClient engine m.clientId m.clientId)
  | handled sequenced _ => exact absurd sequenced.next outOfSequence

/--
After a well-sequenced command any messages may follow, as long as the next
command of its client is not among them: the command again is answered with
the reports of its first batch and changes nothing, and every other command of
the client that is not the next one is rejected as out of sequence.
-/
theorem retry_exactly_once
    (reachable : Reachable pool engine) (sequenced : engine.WellSequenced c)
    (processed : engine.process c = .ok first) (messages : List Message)
    (undisturbed : Undisturbed c.clientId first.engine messages) :
    ∃ turns,
      StepSystem.run process Turn.engine first.engine messages = .ok turns ∧
        (StepSystem.last Turn.engine first.engine turns).process c =
          .ok ⟨StepSystem.last Turn.engine first.engine turns,
            { reports := first.batch.addressedTo c.clientId, updates := [] }⟩ ∧
        (StepSystem.last Turn.engine first.engine turns).lastRequest
          c.clientId = c.requestId ∧
        ∀ other : Message, other.Business → other.clientId = c.clientId →
          other.requestId ≠ 0 → other.requestId ≠ c.requestId + 1 →
          other ≠ c →
          ∃ turn,
            (StepSystem.last Turn.engine first.engine turns).process other =
                .ok turn ∧
              turn.batch.updates = [] ∧
              (∃ m ∈ turn.batch.reports,
                m.report = .rejected ∧ m.reject = .sequence) ∧
              turn.engine.lastRequest c.clientId = c.requestId := by
  obtain ⟨outcome, firstReachable⟩ := reachable.outcome_of processed
  obtain ⟨turns, ran, lastReachable, remembers⟩ :=
    firstReachable.run_remembers messages undisturbed
      (outcome.remembers sequenced)
  obtain ⟨sameRequest, sameCommand, _⟩ := remembers.clientState
  refine ⟨turns, ran,
    process_retry remembers sequenced.business sequenced.client
      sequenced.request,
    sameRequest, ?_⟩
  intro other business sameClient otherRequest notNext different
  obtain ⟨turn, otherProcessed, otherOutcome, _⟩ := lastReachable.outcome other
  have notRetry : ¬ (StepSystem.last Turn.engine first.engine turns).Retries
      other := by
    intro retries
    have isLast := retries.sameCommand
    rw [sameClient, sameCommand] at isLast
    exact different isLast
  obtain ⟨batch, kept⟩ := otherOutcome.sequence_rejection business
    (by rw [sameClient]; exact sequenced.client) otherRequest
    (by rw [sameClient, lastRequest, sameRequest]; exact notNext) notRetry
  refine ⟨turn, otherProcessed, by rw [batch], ?_, ?_⟩
  · rw [batch]
    exact ⟨_, List.mem_cons_self, rfl, rfl⟩
  · rw [sameClient, lastRequest, lastRequest, sameRequest] at kept
    exact kept

/-- A resting order is hit by another client before it is sent again. -/
theorem retry_exactly_once_after_fill :
    ∃ first turns,
      single.process
          { clientId := 7, requestId := 1, orderId := 1
            instrumentId := 1, price := 10, quantity := 5 } = .ok first ∧
        StepSystem.run process Turn.engine first.engine
          [{ clientId := 8, requestId := 1, orderId := 1, side := .ask
             instrumentId := 1, price := 10, quantity := 5 }] = .ok turns ∧
        (StepSystem.last Turn.engine first.engine turns).process
            { clientId := 7, requestId := 1, orderId := 1
              instrumentId := 1, price := 10, quantity := 5 } =
          .ok ⟨StepSystem.last Turn.engine first.engine turns,
            { reports := first.batch.addressedTo 7, updates := [] }⟩ := by
  obtain ⟨first, processed⟩ : ∃ first, single.process
      { clientId := 7, requestId := 1, orderId := 1
        instrumentId := 1, price := 10, quantity := 5 } = .ok first := ⟨_, rfl⟩
  obtain ⟨turns, ran, retried, _⟩ := retry_exactly_once single_reachable
    ⟨⟨rfl, by decide, by decide⟩, by decide, rfl⟩ processed
    [{ clientId := 8, requestId := 1, orderId := 1, side := .ask
       instrumentId := 1, price := 10, quantity := 5 }]
    ⟨fun own => absurd own.1 (by decide), fun _ _ => trivial⟩
  exact ⟨first, turns, processed, ran, retried⟩

end MatchingEngine

end LimitOrderBook
