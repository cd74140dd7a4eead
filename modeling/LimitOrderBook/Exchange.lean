import LimitOrderBook.EngineAgreement
import LimitOrderBook.EngineChecker

namespace LimitOrderBook

/-!
# The exchange and its journal

The engine thread of `run_exchange` in `trading/server.cpp`: a snapshot query
is answered without the engine's `process`, a status query is processed and not
recorded, and every other command is appended to the journal before it is
processed.  At the start the journal is replayed on a new engine.  The journal
is kept here as the list of commands it decodes to.
-/

open TwoRuns MatchingEngine

structure Exchange where
  engine : MatchingEngine
  journal : List Message := []

/-- The exchange after one message and what it sends. -/
structure Served where
  exchange : Exchange
  batch : Batch

namespace Exchange

/-- One message from the queue of requests. -/
def serve (exchange : Exchange) (c : Message) : Except Fault Served :=
  if c.action = .snapshot then
    .ok ⟨exchange, { reports := exchange.engine.snapshot }⟩
  else do
    let journal :=
      if c.action ≠ .status then exchange.journal ++ [c]
      else exchange.journal
    let turn ← exchange.engine.process c
    return ⟨⟨turn.engine, journal⟩, turn.batch⟩

/-- The messages that are appended to the journal. -/
def journaled (c : Message) : Bool :=
  decide (c.action ≠ .snapshot ∧ c.action ≠ .status)

/-- What ends `run_exchange` before it serves anybody. -/
inductive StartFailure where
  | invalidArgument (text : String)
  | thrown (fault : Fault)
  | recoveryInvariant (reason : String)

/-- The start of `run_exchange`: replay the journal and validate the result. -/
def recover (pool : PoolBytes) (instruments : Instruments) (epoch : Nat)
    (journal : List Message) : Except StartFailure MatchingEngine :=
  match create pool instruments epoch with
  | .error text => .error (.invalidArgument text)
  | .ok engine =>
      match StepSystem.run process Turn.engine engine journal with
      | .error fault => .error (.thrown fault)
      | .ok turns =>
          match (StepSystem.last Turn.engine engine turns).checkInvariants with
          | .error reason => .error (.recoveryInvariant reason)
          | .ok () => .ok (StepSystem.last Turn.engine engine turns)

variable {pool : PoolBytes} {instruments : Instruments} {epoch : Nat}
  {engine : MatchingEngine} {exchange : Exchange} {journal : List Message}

theorem recover_ok
    (recovered : recover pool instruments epoch journal = .ok engine) :
    ∃ initial turns,
      create pool instruments epoch = .ok initial ∧
        StepSystem.run process Turn.engine initial journal = .ok turns ∧
        engine = StepSystem.last Turn.engine initial turns := by
  unfold recover at recovered
  split at recovered
  · cases recovered
  · rename_i initial created
    split at recovered
    · cases recovered
    · rename_i turns ran
      split at recovered
      · cases recovered
      · cases recovered
        exact ⟨initial, turns, created, ran, rfl⟩

theorem recover_of_run
    {initial : MatchingEngine} {turns : List Turn}
    (created : create pool instruments epoch = .ok initial)
    (ran : StepSystem.run process Turn.engine initial journal = .ok turns) :
    recover pool instruments epoch journal =
      .ok (StepSystem.last Turn.engine initial turns) := by
  have reachable : Reachable pool (StepSystem.last Turn.engine initial turns) :=
    StepSystem.Reachable.run (.start ⟨instruments, epoch, created⟩) ran
  have validated := reachable.invariant.validates pool.slots_lt
  unfold validateInvariants at validated
  cases checked : (StepSystem.last Turn.engine initial
      turns).checkInvariants with
  | error reason => rw [checked] at validated; cases validated
  | ok _ => simp only [recover, created, ran, checked]

theorem recover_reachable
    (recovered : recover pool instruments epoch journal = .ok engine) :
    Reachable pool engine := by
  obtain ⟨initial, turns, created, ran, rfl⟩ := recover_ok recovered
  exact StepSystem.Reachable.run (.start ⟨instruments, epoch, created⟩) ran

/-! ## Serving -/

theorem serve_ok
    (reachable : Reachable pool exchange.engine) (c : Message) :
    ∃ served, exchange.serve c = .ok served ∧
      Reachable pool served.exchange.engine := by
  unfold serve
  split
  · exact ⟨_, rfl, reachable⟩
  · obtain ⟨turn, processed, _, next⟩ := reachable.outcome c
    exact ⟨_, by rw [processed]; rfl, next⟩

theorem serve_journal
    {c : Message} {served : Served} (serves : exchange.serve c = .ok served) :
    served.exchange.journal =
      exchange.journal ++ [c].filter journaled := by
  unfold serve at serves
  split at serves
  · rename_i isSnapshot
    cases serves
    simp [journaled, isSnapshot]
  · rename_i notSnapshot
    cases processed : exchange.engine.process c with
    | error fault => rw [processed] at serves; cases serves
    | ok turn =>
        rw [processed] at serves
        cases serves
        by_cases isStatus : c.action = .status
        · simp [journaled, isStatus]
        · simp [journaled, isStatus, notSnapshot]

/-- The journal of a run has the journaled messages in order. -/
theorem run_journal
    {history : List Message} {served : List Served}
    (ran : StepSystem.run serve Served.exchange exchange history = .ok served) :
    (StepSystem.last Served.exchange exchange served).journal =
      exchange.journal ++ history.filter journaled := by
  induction history generalizing exchange served with
  | nil =>
      cases ran
      exact (List.append_nil _).symm
  | cons c rest inductionHypothesis =>
      obtain ⟨first, others, serves, restRan, rfl⟩ := StepSystem.run_cons_ok ran
      have split : c :: rest = [c] ++ rest := rfl
      rw [split, List.filter_append, ← List.append_assoc,
        ← serve_journal serves]
      exact inductionHypothesis restRan

/-- Serving a journaled command is processing it. -/
theorem serve_agrees
    {other : MatchingEngine} {c : Message}
    (agrees : exchange.engine.Agrees other) (isJournaled : journaled c = true) :
    Both (fun (served : Served) (turn : Turn) =>
        served.exchange.engine.Agrees turn.engine)
      (exchange.serve c) (other.process c) := by
  have notSnapshot : c.action ≠ .snapshot := by
    simp only [journaled, decide_eq_true_eq] at isJournaled
    exact isJournaled.1
  have both := agrees.process c
  unfold serve
  rw [if_neg notSnapshot]
  generalize exchange.engine.process c = result at both
  generalize other.process c = otherResult at both
  cases both with
  | ok same => exact .ok same.engine
  | error => exact .error

/-- A query changes nothing but the sequence of reports. -/
theorem serve_query
    {other : MatchingEngine} {c : Message} {served : Served}
    (agrees : exchange.engine.Agrees other) (isCommand : c.kind = .command)
    (isQuery : journaled c = false) (serves : exchange.serve c = .ok served) :
    served.exchange.engine.Agrees other := by
  unfold serve at serves
  split at serves
  · cases serves
    exact agrees
  · rename_i notSnapshot
    have isStatus : c.action = .status := by
      by_contra notStatus
      simp [journaled, notSnapshot, notStatus] at isQuery
    simp only [process, isCommand, isStatus] at serves
    cases serves
    exact { agrees with }

/-- Serving a history agrees with processing what it journals. -/
theorem run_serve_agrees
    {other : MatchingEngine} (agrees : exchange.engine.Agrees other)
    {history : List Message} (commands : ∀ c ∈ history, c.kind = .command)
    {served : List Served}
    (ran : StepSystem.run serve Served.exchange exchange history = .ok served) :
    ∃ turns,
      StepSystem.run process Turn.engine other (history.filter journaled) =
          .ok turns ∧
        (StepSystem.last Served.exchange exchange served).engine.Agrees
          (StepSystem.last Turn.engine other turns) := by
  refine run_filter (fun (exchange : Exchange) other =>
    exchange.engine.Agrees other) ?_ ?_ agrees commands ran
  · exact fun _ _ _ same => serve_agrees same
  · exact fun _ _ _ _ same isCommand => serve_query same isCommand

/-- New engines agree whatever their epochs. -/
theorem create_agrees
    {initial : MatchingEngine} {other : Nat}
    (created : create pool instruments epoch = .ok initial)
    (nonzero : other ≠ 0) :
    ∃ otherInitial, create pool instruments other = .ok otherInitial ∧
      initial.Agrees otherInitial := by
  unfold create at created ⊢
  split at created
  · cases created
  · rename_i given
    split at created
    · cases created
    · rename_i accepted
      cases created
      rw [if_neg (by tauto), if_neg accepted]
      refine ⟨_, rfl, ⟨rfl, rfl, rfl, rfl, rfl, rfl, rfl, rfl, rfl, ?_⟩⟩
      exact fun _ => .none

/-- Runs of engines that agree give the same batches up to the stamps. -/
theorem run_agrees
    {other : MatchingEngine} (agrees : engine.Agrees other)
    {messages : List Message} {turns : List Turn}
    (ran : StepSystem.run process Turn.engine engine messages = .ok turns) :
    ∃ others,
      StepSystem.run process Turn.engine other messages = .ok others ∧
        List.Forall₂ (fun turn otherTurn : Turn =>
          turn.batch.Agrees otherTurn.batch) turns others ∧
        (StepSystem.last Turn.engine engine turns).Agrees
          (StepSystem.last Turn.engine other others) := by
  refine run_forall₂ ?_ agrees ran
  intro state otherState c same
  exact (same.process c).imp fun _ _ answered =>
    ⟨answered.batch, answered.engine⟩

/--
Durable replay.  An exchange that starts from any journal, an empty one for the
first start, serves commands and queries.  Recovering from its journal under
any other epoch gives an engine that agrees with the live one, and every later
list of messages is answered with the same batches up to the stamps.
-/
theorem durable_replay
    (started : recover pool instruments epoch journal = .ok engine)
    (history : List Message) (commands : ∀ c ∈ history, c.kind = .command)
    (other : Nat) (nonzero : other ≠ 0) :
    ∃ served live recovered,
      StepSystem.run serve Served.exchange ⟨engine, journal⟩ history =
          .ok served ∧
        live = StepSystem.last Served.exchange ⟨engine, journal⟩ served ∧
        live.journal = journal ++ history.filter journaled ∧
        recover pool instruments other live.journal = .ok recovered ∧
        live.engine.Agrees recovered ∧
        ∀ later, ∃ turns others,
          StepSystem.run process Turn.engine live.engine later = .ok turns ∧
            StepSystem.run process Turn.engine recovered later = .ok others ∧
            List.Forall₂ (fun turn otherTurn : Turn =>
              turn.batch.Agrees otherTurn.batch) turns others ∧
            (StepSystem.last Turn.engine live.engine turns).Agrees
              (StepSystem.last Turn.engine recovered others) := by
  have reachable := recover_reachable started
  obtain ⟨initial, before, created, ranBefore, isEngine⟩ := recover_ok started
  have start : Reachable pool (⟨engine, journal⟩ : Exchange).engine := reachable
  obtain ⟨served, ran, _, allReachable⟩ := StepSystem.run_ok
    (fun (exchange : Exchange) c
      (reachable : Reachable pool exchange.engine) => serve_ok reachable c)
    start history
  obtain ⟨otherInitial, otherCreated, sameStart⟩ :=
    create_agrees created nonzero
  obtain ⟨othersBefore, otherRanBefore, _, sameBefore⟩ :=
    run_agrees sameStart ranBefore
  rw [← isEngine] at sameBefore
  obtain ⟨replayed, ranReplay, sameLive⟩ :=
    run_serve_agrees sameBefore commands ran
  obtain ⟨ranAll, final⟩ := StepSystem.run_append otherRanBefore ranReplay
  have kept := run_journal ran
  rw [← final] at sameLive
  refine ⟨served, _, _, ran, rfl, kept, ?_, sameLive, ?_⟩
  · rw [kept]
    exact recover_of_run otherCreated ranAll
  · intro later
    have liveReachable : Reachable pool
        (StepSystem.last Served.exchange ⟨engine, journal⟩ served).engine :=
      StepSystem.last_holds
        (fun exchange : Exchange => Reachable pool exchange.engine)
        start allReachable
    obtain ⟨turns, ranLater, _⟩ := StepSystem.run_ok
      (fun _ c reachable => by
        obtain ⟨turn, processed, _, next⟩ := Reachable.outcome reachable c
        exact ⟨turn, processed, next⟩) liveReachable later
    obtain ⟨others, otherRanLater, sameBatches, sameFinal⟩ :=
      run_agrees sameLive ranLater
    exact ⟨turns, others, ranLater, otherRanLater, sameBatches, sameFinal⟩

/-- An order, a status query, a snapshot query and a retry. -/
theorem durable_replay_of_an_order :
    ∃ engine served live recovered,
      recover .capacity (OrderedMap.empty.insert 1 {}) 1 [] = .ok engine ∧
        StepSystem.run serve Served.exchange ⟨engine, []⟩
          [{ clientId := 7, requestId := 1, orderId := 1
             instrumentId := 1, price := 10, quantity := 5 },
            { action := .status, clientId := 7 },
            { action := .snapshot },
            { clientId := 7, requestId := 1, orderId := 1
              instrumentId := 1, price := 10, quantity := 5 }] = .ok served ∧
        live = StepSystem.last Served.exchange ⟨engine, []⟩ served ∧
        live.journal.length = 2 ∧
        recover .capacity (OrderedMap.empty.insert 1 {}) 2 live.journal =
          .ok recovered ∧
        live.engine.Agrees recovered := by
  have started : recover .capacity (OrderedMap.empty.insert 1 {}) 1 [] =
      .ok single := by
    have empty : StepSystem.run process Turn.engine single [] = .ok [] := rfl
    exact recover_of_run rfl empty
  obtain ⟨served, live, recovered, ran, isLive, journal, replayed, agrees, _⟩ :=
    durable_replay started
      [{ clientId := 7, requestId := 1, orderId := 1
         instrumentId := 1, price := 10, quantity := 5 },
        { action := .status, clientId := 7 },
        { action := .snapshot },
        { clientId := 7, requestId := 1, orderId := 1
          instrumentId := 1, price := 10, quantity := 5 }]
      (by simp) 2 (by decide)
  exact ⟨single, served, live, recovered, started, ran, isLive,
    by rw [journal]; rfl, replayed, agrees⟩

end Exchange

end LimitOrderBook
