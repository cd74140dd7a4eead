import LimitOrderBook.EngineProtocol

namespace LimitOrderBook

/-!
# The transcript of a run

A retry repeats reports that were sent before; every other call adds its own.
Read one after the other, these reports are numbered without a gap, and so are
the trades they tell of.
-/

/-- Reports numbered one by one after one number and up to another. -/
def Counted (first : Sequence) (reports : List Message) (last : Sequence) :
    Prop :=
  reports.map Message.sequence = List.range' (first + 1) reports.length ∧
    last = first + reports.length

namespace Counted

variable {first middle last : Sequence} {reports more : List Message}

theorem nil (first : Sequence) : Counted first [] first := ⟨rfl, rfl⟩

theorem append
    (before : Counted first reports middle) (after : Counted middle more last) :
    Counted first (reports ++ more) last := by
  obtain ⟨numbers, isMiddle⟩ := before
  obtain ⟨moreNumbers, isLast⟩ := after
  refine ⟨?_, ?_⟩
  · rw [List.map_append, numbers, moreNumbers, List.length_append, isMiddle,
      Nat.add_right_comm, List.range'_append_1]
  · rw [isLast, isMiddle, List.length_append, Nat.add_assoc]

theorem single {m : Message} (next : m.sequence = first + 1) :
    Counted first [m] (first + 1) :=
  ⟨congrArg (fun number => [number]) next, rfl⟩

/-- Reports are counted as they are added. -/
theorem continues (first : Sequence) : Turn.Continues (Counted first) :=
  fun _ _ _ before _ _ _ next => before.append (single next)

end Counted

/-- The trade ids of the fills among some reports. -/
def fillIds (reports : List Message) : List Nat :=
  (reports.filter fun m => decide (m.report = .fill)).map Message.tradeId

@[simp] theorem fillIds_append (first second : List Message) :
    fillIds (first ++ second) = fillIds first ++ fillIds second := by
  simp [fillIds]

theorem fillIds_eq_nil
    {reports : List Message} (none : ∀ m ∈ reports, m.report ≠ .fill) :
    fillIds reports = [] := by
  rw [fillIds, List.filter_eq_nil_iff.mpr fun m member => by
    simpa using none m member]
  rfl

/-- Every trade id twice, for the maker's and for the taker's fill. -/
def inPairs (ids : List Nat) : List Nat :=
  ids.flatMap fun id => [id, id]

theorem tradeIds_reports
    {engine : MatchingEngine} {c : Message} {prints : List TradePrint}
    (agrees : ∀ print ∈ prints, print.Agrees engine c) :
    (prints.flatMap TradePrint.reports).map Message.tradeId =
      inPairs (prints.map TradePrint.tradeId) := by
  rw [List.map_flatMap, inPairs, List.flatMap_map]
  refine List.flatMap_congr fun print member => ?_
  have shared := (agrees print member).shared
  simp [TradePrint.reports, shared print.maker (by simp [TradePrint.reports]),
    shared print.taker (by simp [TradePrint.reports])]

/-- The fills of an answer are the next trades. -/
theorem Answered.fillIds
    {engine : MatchingEngine} {c : Message} {turn : Turn}
    (answered : Answered engine c turn) :
    ∃ count,
      LimitOrderBook.fillIds turn.batch.reports =
          inPairs (List.range' engine.nextTrade count) ∧
        turn.engine.nextTrade = engine.nextTrade + count := by
  cases answered with
  | rejected _ reports isRefusal _ isComplete _ nextTrade =>
      refine ⟨0, ?_, nextTrade⟩
      rw [reports]
      exact fillIds_eq_nil (by simp [isRefusal, isComplete])
  | @executed opening complete prints expiry _ answer =>
      refine ⟨prints.length, ?_, answer.nextTrade⟩
      rw [LimitOrderBook.fillIds, answer.fills, tradeIds_reports answer.agrees,
        answer.tradeIds]
  | cancelled _ reports isComplete withdrawn nextTrade =>
      refine ⟨0, ?_, nextTrade⟩
      rw [reports]
      refine fillIds_eq_nil fun m member => ?_
      rcases List.mem_append.mp member with isGone | isLast
      · rw [(withdrawn.each m isGone).1]
        decide
      · rw [List.mem_singleton.mp isLast, isComplete]
        decide

namespace MatchingEngine

variable {slots : Nat} {engine : MatchingEngine} {c : Message} {turn : Turn}
  {pool : PoolBytes} {reports : List Message}

/-- The reports of a call that is no retry are counted. -/
theorem Outcome.counted
    (outcome : Outcome slots engine c turn) (notRetry : ¬ engine.Retries c) :
    Counted engine.responseSequence turn.batch.reports
      turn.engine.responseSequence := by
  have two : ∀ {first second : Message},
      first.sequence = engine.responseSequence + 1 →
      second.sequence = engine.responseSequence + 1 + 1 →
      Counted engine.responseSequence [first, second]
        (engine.responseSequence + 1 + 1) :=
    fun isFirst isSecond => (Counted.single isFirst).append (.single isSecond)
  cases outcome with
  | refused _ => exact .single rfl
  | status _ _ => exact .single rfl
  | anonymous _ _ => exact two rfl rfl
  | retried retries => exact absurd retries notRetry
  | unsequenced _ _ _ _ _ => exact two rfl rfl
  | handled _ handled =>
      have counted := handled.continues
        (Counted.continues engine.responseSequence) (.nil _)
      exact counted.append (.single rfl)

/-- A call without a place in the sequence reports no fill. -/
theorem Outcome.no_fill
    (outcome : Outcome slots engine c turn) (notRetry : ¬ engine.Retries c)
    (notNext : ¬ engine.WellSequenced c) :
    (∀ m ∈ turn.batch.reports, m.report ≠ .fill) ∧
      turn.engine.nextTrade = engine.nextTrade := by
  cases outcome with
  | refused _ => simp [Turn.reject, Turn.report]
  | status _ _ => simp [Turn.report]
  | anonymous _ _ => simp [Turn.reject, Turn.report]
  | retried retries => exact absurd retries notRetry
  | unsequenced _ _ _ _ _ => simp [Turn.reject, Turn.report, openClient]
  | handled sequenced _ => exact absurd sequenced notNext

theorem process_fillIds
    (sound : engine.Sound slots) (notRetry : ¬ engine.Retries c)
    (processed : engine.process c = .ok turn) :
    ∃ count,
      fillIds turn.batch.reports =
          inPairs (List.range' engine.nextTrade count) ∧
        turn.engine.nextTrade = engine.nextTrade + count := by
  by_cases sequenced : engine.WellSequenced c
  · exact (process_answered sound sequenced processed).fillIds
  · obtain ⟨turn', processed', outcome, _⟩ := process_outcome sound c
    rw [processed] at processed'
    cases processed'
    obtain ⟨none, nextTrade⟩ := outcome.no_fill notRetry sequenced
    exact ⟨0, fillIds_eq_nil none, nextTrade⟩

/-- The reports of all calls of a run that are no retries. -/
inductive Transcript (pool : PoolBytes) : MatchingEngine → List Message → Prop
    where
  | start {engine : MatchingEngine} :
      Created pool engine → Transcript pool engine []
  | answered {engine : MatchingEngine} {reports : List Message} {c : Message}
      {turn : Turn} :
      Transcript pool engine reports →
      engine.process c = .ok turn →
      ¬ engine.Retries c →
      Transcript pool turn.engine (reports ++ turn.batch.reports)
  | retried {engine : MatchingEngine} {reports : List Message} {c : Message}
      {turn : Turn} :
      Transcript pool engine reports →
      engine.process c = .ok turn →
      engine.Retries c →
      Transcript pool turn.engine reports

theorem Transcript.reachable
    (transcript : Transcript pool engine reports) : Reachable pool engine := by
  induction transcript with
  | start created => exact .start created
  | answered _ processed _ inductionHypothesis =>
      exact .step inductionHypothesis processed
  | retried _ processed _ inductionHypothesis =>
      exact .step inductionHypothesis processed

/-- Every run has a transcript. -/
theorem Reachable.transcript
    (reachable : Reachable pool engine) :
    ∃ reports, Transcript pool engine reports := by
  induction reachable with
  | start created => exact ⟨[], .start created⟩
  | @step engine c turn _ processed inductionHypothesis =>
      obtain ⟨reports, transcript⟩ := inductionHypothesis
      by_cases retries : engine.Retries c
      · exact ⟨reports, .retried transcript processed retries⟩
      · exact ⟨_, .answered transcript processed retries⟩

/-- The reports of a run are numbered from one on. -/
theorem Transcript.counted
    (transcript : Transcript pool engine reports) :
    Counted 0 reports engine.responseSequence := by
  induction transcript with
  | start created =>
      obtain ⟨instruments, epoch, constructed⟩ := created
      obtain ⟨_, _, rfl⟩ := create_ok constructed
      exact .nil 0
  | answered transcript processed notRetry inductionHypothesis =>
      obtain ⟨outcome, _⟩ := transcript.reachable.outcome_of processed
      exact inductionHypothesis.append (outcome.counted notRetry)
  | retried transcript processed retries inductionHypothesis =>
      obtain ⟨outcome, _⟩ := transcript.reachable.outcome_of processed
      rw [outcome.of_retries retries]
      exact inductionHypothesis

/-- The trades of a run are numbered from one on. -/
theorem Transcript.fillIds
    (transcript : Transcript pool engine reports) :
    ∃ count,
      LimitOrderBook.fillIds reports = inPairs (List.range' 1 count) ∧
        engine.nextTrade = 1 + count := by
  induction transcript with
  | start created =>
      obtain ⟨instruments, epoch, constructed⟩ := created
      obtain ⟨_, _, rfl⟩ := create_ok constructed
      exact ⟨0, rfl, rfl⟩
  | answered transcript processed notRetry inductionHypothesis =>
      obtain ⟨before, ids, nextTrade⟩ := inductionHypothesis
      obtain ⟨count, newIds, next⟩ := process_fillIds
        transcript.reachable.invariant.sound notRetry processed
      refine ⟨before + count, ?_, by rw [next, nextTrade, Nat.add_assoc]⟩
      rw [fillIds_append, ids, newIds, nextTrade, inPairs, inPairs, inPairs,
        ← List.flatMap_append, List.range'_append_1]
  | retried transcript processed retries inductionHypothesis =>
      obtain ⟨outcome, _⟩ := transcript.reachable.outcome_of processed
      rw [outcome.of_retries retries]
      exact inductionHypothesis

/--
Every well-sequenced command of a reachable engine is answered by the protocol,
and over the whole run so far the reports and the trades are numbered from one
on without a gap.
-/
theorem report_protocol (reachable : Reachable pool engine) :
    (∀ c, engine.WellSequenced c →
      ∃ turn, engine.process c = .ok turn ∧ Answered engine c turn) ∧
    ∀ reports, Transcript pool engine reports →
      reports.map Message.sequence = List.range' 1 reports.length ∧
        ∃ count,
          fillIds reports = inPairs (List.range' 1 count) ∧
            engine.nextTrade = 1 + count := by
  refine ⟨fun c sequenced => ?_, fun reports transcript => ?_⟩
  · obtain ⟨turn, processed, _⟩ := reachable.outcome c
    exact ⟨turn, processed,
      process_answered reachable.invariant.sound sequenced processed⟩
  · refine ⟨?_, transcript.fillIds⟩
    simpa using transcript.counted.1

/-- A buyer hits an offer and rests what is left. -/
theorem report_protocol_partial_fill :
    ∃ engine turn,
      engine = single.after
          [{ clientId := 7, requestId := 1, orderId := 1, side := .ask
             instrumentId := 1, price := 10, quantity := 3 }] ∧
        engine.process
            { clientId := 8, requestId := 1, orderId := 1
              instrumentId := 1, price := 10, quantity := 5 } = .ok turn ∧
        Answered engine
          { clientId := 8, requestId := 1, orderId := 1
            instrumentId := 1, price := 10, quantity := 5 } turn := by
  have reachable := single_reachable.after
    [{ clientId := 7, requestId := 1, orderId := 1, side := .ask
       instrumentId := 1, price := 10, quantity := 3 }]
  obtain ⟨turn, processed, answered⟩ := (report_protocol reachable).1
    { clientId := 8, requestId := 1, orderId := 1
      instrumentId := 1, price := 10, quantity := 5 }
    ⟨⟨rfl, by decide, by decide⟩, by decide, rfl⟩
  exact ⟨_, turn, rfl, processed, answered⟩

end MatchingEngine

end LimitOrderBook
