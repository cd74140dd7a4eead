import LimitOrderBook.EngineFeed
import LimitOrderBook.TradingSession

namespace LimitOrderBook

/-!
# What `submit` returns

In a session every request is processed once and in order, as the next one of
its client.  Every report passes the check of `receive_report`, and a call of
`submit` that returns hands out the whole answer to its request and nothing
else, whatever was reported or was late in between.
-/

/-- The reports under one request number. -/
def under (request : Nat) (reports : List Message) : List Message :=
  reports.filter fun m => decide (m.requestId = request)

theorem under_append (request : Nat) (earlier later : List Message) :
    under request (earlier ++ later) =
      under request earlier ++ under request later :=
  List.filter_append ..

/-- Reports with one completion, which comes last. -/
def EndsComplete (reports : List Message) : Prop :=
  ∃ front last, reports = front ++ [last] ∧ last.report = .complete ∧
    ∀ m ∈ front, m.report ≠ .complete

/-- Of one list of reports only one prefix ends with its first completion. -/
theorem EndsComplete.unique
    {first second reports : List Message} (ends : EndsComplete first)
    (otherEnds : EndsComplete second) (isPrefix : first <+: reports)
    (otherPrefix : second <+: reports) : first = second := by
  have cut : ∀ {front later : List Message} {last : Message},
      last.report = .complete → (∀ m ∈ front, m.report ≠ .complete) →
      (front ++ last :: later).takeWhile
        (fun m => decide (m.report ≠ .complete)) = front := by
    intro front later last complete open_
    rw [List.takeWhile_append_of_pos (by simpa using open_),
      List.takeWhile_cons_of_neg (by simp [complete]), List.append_nil]
  obtain ⟨front, last, rfl, complete, noneBefore⟩ := ends
  obtain ⟨otherFront, otherLast, rfl, otherComplete, otherNone⟩ := otherEnds
  obtain ⟨later, rfl⟩ := isPrefix
  obtain ⟨otherLater, same⟩ := otherPrefix
  simp only [List.append_assoc, List.singleton_append] at same
  have fronts := congrArg
    (List.takeWhile fun m => decide (m.report ≠ .complete)) same
  rw [cut complete noneBefore, cut otherComplete otherNone] at fronts
  subst fronts
  have tails := List.append_cancel_left same
  cases tails
  rfl

namespace MatchingEngine

variable {engine : MatchingEngine} {c : Message} {turn : Turn}
  {pool : PoolBytes}

/-- The answer to a well-sequenced command ends with its only completion. -/
theorem Reachable.endsComplete
    (reachable : Reachable pool engine) (processed : engine.process c = .ok turn)
    (sequenced : engine.WellSequenced c) :
    EndsComplete (turn.batch.addressedTo c.clientId) := by
  obtain ⟨outcome, _⟩ := reachable.outcome_of processed
  obtain ⟨done, handled, rfl⟩ := outcome.handled_of_sequenced sequenced
  have started : (engine.start c).Unanswered := fun m member => by cases member
  have interim := handled.unanswered started
  obtain ⟨own, _, _⟩ := completion_fields done c
  refine ⟨done.batch.addressedTo c.clientId,
    (done.completion c).asReport .complete .none done.engine.epoch
      (done.engine.responseSequence + 1), ?_, rfl, fun m member => ?_⟩
  · simp [Batch.addressedTo, Turn.finish, Turn.remember, Turn.report,
      Message.asReport, own]
  · have goesOn := (interim m (List.mem_of_mem_filter member)).goesOn
    simp only [ReportType.goesOn, decide_eq_true_eq] at goesOn
    exact goesOn.1

end MatchingEngine

namespace TradingSession

open TradingClient MatchingEngine OrderManager

variable {pool : PoolBytes} {session next : TradingSession} {m : Message}
  {config : ClientConfig}
  {admits : TradingSession → TradingSession → Prop}

/-- All reports to the client so far, consumed or not. -/
def stream (session : TradingSession) : List Message :=
  session.heard ++ session.reports

/-- A report that reached the client or is on its way there. -/
structure Received (owner : ClientId) (epoch requests : Nat) (m : Message) :
    Prop where
  kind : m.kind = .report
  client : m.clientId = owner
  epoch : m.epoch = epoch
  request : m.requestId ≤ requests

/-- A request that was processed as the next one of its client. -/
def Served (pool : PoolBytes) (owner : ClientId)
    (entry : Message × List Message) : Prop :=
  entry.1.clientId = owner ∧
    ∃ engine turn, Reachable pool engine ∧ engine.WellSequenced entry.1 ∧
      engine.process entry.1 = .ok turn ∧
      entry.2 = turn.batch.addressedTo owner

theorem Served.endsComplete
    {owner : ClientId} {entry : Message × List Message}
    (served : Served pool owner entry) : EndsComplete entry.2 := by
  obtain ⟨rfl, engine, turn, reachable, sequenced, processed, answer⟩ := served
  rw [answer]
  exact reachable.endsComplete processed sequenced

/-- The invariant of a session. -/
structure Orderly (pool : PoolBytes) (session : TradingSession) : Prop where
  named : session.owner ≠ 0
  epoch : session.client.epoch = session.engine.epoch
  sent : session.sent = session.answered.map Prod.fst ++ session.requests
  own : ∀ c ∈ session.requests, c.Business ∧ c.clientId = session.owner
  answeredIds : session.answered.map (fun entry => entry.1.requestId) =
    List.range' 1 session.answered.length
  queuedIds : session.requests.map Message.requestId =
    List.range' (session.answered.length + 1) session.requests.length
  last : session.engine.lastRequest session.owner = session.answered.length
  next : session.client.closed = false →
    session.client.requestId = session.sent.length
  manager : session.client.manager = consumeAll {} session.heard
  followed : Followed pool session.owner session.engine session.stream
  received : ∀ m ∈ session.stream,
    Received session.owner session.engine.epoch session.answered.length m
  served : ∀ entry ∈ session.answered, Served pool session.owner entry
  answers : ∀ entry ∈ session.answered,
    entry.2 <+: under entry.1.requestId session.stream
  waits : ∀ waiting ∈ session.waiting,
    waiting.requestId ≠ 0 ∧
      waiting.result = under waiting.requestId session.heard ∧
      ∀ m ∈ waiting.result, m.report ≠ .complete
  returned : ∀ entry ∈ session.returned, ∃ c,
    (c, entry.2) ∈ session.answered ∧ c.requestId = entry.1

namespace Orderly

theorem look
    (orderly : session.Orderly pool) {client : TradingClient}
    (looks : Looks session.client client) :
    Orderly pool { session with client := client } := by
  obtain ⟨market, features, recoveries, rfl⟩ := looks
  exact { orderly with }

theorem close
    (orderly : session.Orderly pool) :
    Orderly pool
      { session with client := { session.client with closed := true } } :=
  { orderly with next := fun isOpen => by cases isOpen }

theorem refuse
    (orderly : session.Orderly pool) {command : Message}
    {client : TradingClient} {text : String}
    (asked : session.client.request command = (client, .error text)) :
    Orderly pool { session with client := client } := by
  rcases request_eq_error asked with rfl | ⟨isClosed, rfl⟩
  · exact orderly
  · exact { orderly with next := fun isOpen => by simp [isClosed] at isOpen }

theorem expire
    (orderly : session.Orderly pool) :
    Orderly pool { session with waiting := none } :=
  { orderly with waits := fun waiting isWaiting => by cases isWaiting }

/-- The number of requests is that of the last one sent. -/
theorem length_sent
    (orderly : session.Orderly pool) :
    session.sent.length = session.answered.length + session.requests.length := by
  rw [orderly.sent, List.length_append, List.length_map]

theorem submit
    (orderly : session.Orderly pool) {command request : Message}
    {client : TradingClient} (tradable : command.Tradable)
    (asked : session.client.request command = (client, .ok request)) :
    Orderly pool
      { session with
        client := client
        requests := session.requests ++ [request]
        waiting := some { requestId := request.requestId }
        sent := session.sent ++ [request] } := by
  obtain ⟨_, isOpen, rfl, rfl⟩ := request_eq_ok asked
  have number : session.client.requestId + 1 =
      session.answered.length + 1 + session.requests.length := by
    rw [orderly.next isOpen, orderly.length_sent]
    lia
  refine
    { orderly with
      sent := ?_
      own := ?_
      queuedIds := ?_
      next := ?_
      waits := ?_ }
  · rw [orderly.sent, List.append_assoc]
  · intro c member
    rcases List.mem_append.mp member with before | isLast
    · exact orderly.own c before
    · rw [List.mem_singleton.mp isLast]
      exact ⟨⟨rfl, tradable⟩, rfl⟩
  · rw [List.map_append, orderly.queuedIds, List.length_append]
    simp only [List.map_cons, List.map_nil, List.length_singleton]
    rw [List.range'_concat, number, Nat.one_mul]
  · intro _
    simp only [List.length_append, List.length_singleton]
    rw [orderly.next isOpen]
  · intro waiting isWaiting
    cases isWaiting
    refine ⟨Nat.succ_ne_zero _, ?_, by simp⟩
    refine (List.filter_eq_nil_iff.mpr fun m member => ?_).symm
    have known := (orderly.received m (List.mem_append_left _ member)).request
    simp only [decide_eq_true_eq]
    lia

/-- The requests that were processed have the numbers from one on. -/
theorem entry_of_request
    (orderly : session.Orderly pool) {request : Nat} (positive : request ≠ 0)
    (known : request ≤ session.answered.length) :
    ∃ entry ∈ session.answered, entry.1.requestId = request := by
  have listed : request ∈
      session.answered.map fun entry => entry.1.requestId := by
    rw [orderly.answeredIds, List.mem_range'_1]
    lia
  simpa using listed

/-- The reports so far, when the first one in the queue is taken. -/
theorem receives
    (orderly : session.Orderly pool) {rest : List Message}
    (queued : session.reports = m :: rest) :
    ∃ handled,
      session.client.receiveReport m =
        ({ session.client with
            manager := consumeAll {} (session.heard ++ [m])
            handled := handled }, .ok m) := by
  have received := orderly.received m (by simp [stream, queued])
  obtain ⟨handled, taken⟩ := receiveReport_ok received.kind received.client
    (received.epoch.trans orderly.epoch.symm)
  refine ⟨handled, taken.trans ?_⟩
  rw [consumeAll_append, ← orderly.manager]
  rfl

/-- What a report does to a session. -/
theorem receive_eq
    (orderly : session.Orderly pool) {rest : List Message}
    (queued : session.reports = m :: rest) :
    ∃ handled,
      session.receive m rest =
        { session with
          client :=
            { session.client with
              manager := consumeAll {} (session.heard ++ [m])
              handled := handled }
          reports := rest
          waiting := (hear session.waiting m).1
          heard := session.heard ++ [m]
          returned := session.returned ++ (hear session.waiting m).2 } := by
  obtain ⟨handled, taken⟩ := orderly.receives queued
  refine ⟨handled, ?_⟩
  unfold TradingSession.receive
  rw [taken]

/-- The call that waits, after a report. -/
theorem hears
    (orderly : session.Orderly pool) {rest : List Message}
    (queued : session.reports = m :: rest) :
    (∀ waiting ∈ (hear session.waiting m).1, waiting.requestId ≠ 0 ∧
        waiting.result = under waiting.requestId (session.heard ++ [m]) ∧
        ∀ m ∈ waiting.result, m.report ≠ .complete) ∧
      ∀ entry ∈ (hear session.waiting m).2, ∃ c,
        (c, entry.2) ∈ session.answered ∧ c.requestId = entry.1 := by
  cases isWaiting : session.waiting with
  | none => simp [hear]
  | some waiting =>
      obtain ⟨positive, collected, incomplete⟩ :=
        orderly.waits waiting (by simp [isWaiting])
      unfold hear Waiting.take
      by_cases own : m.requestId = waiting.requestId
      · have extended : waiting.result ++ [m] =
            under waiting.requestId (session.heard ++ [m]) := by
          rw [under_append, ← collected]
          simp [under, own]
        simp only [own, if_true]
        by_cases complete : m.report = .complete
        · have known := (orderly.received m (by simp [stream, queued])).request
          rw [own] at known
          obtain ⟨⟨c, answer⟩, listed, sameRequest⟩ :=
            orderly.entry_of_request positive known
          have whole : answer = waiting.result ++ [m] := by
            refine (orderly.served _ listed).endsComplete.unique
              ⟨waiting.result, m, rfl, complete, incomplete⟩
              (orderly.answers _ listed) ?_
            have parts : session.stream = session.heard ++ [m] ++ rest := by
              simp [stream, queued]
            rw [sameRequest, parts, under_append, ← extended]
            exact List.prefix_append _ _
          simp only [complete, decide_true]
          refine ⟨by simp, fun entry member => ?_⟩
          rw [List.mem_singleton.mp member, ← whole]
          exact ⟨c, listed, sameRequest⟩
        · simp only [complete, decide_false]
          refine ⟨fun call isCall => ?_, by simp⟩
          cases isCall
          refine ⟨positive, extended, fun other member => ?_⟩
          rcases List.mem_append.mp member with before | isLast
          · exact incomplete other before
          · rw [List.mem_singleton.mp isLast]
            exact complete
      · simp only [own, if_false]
        refine ⟨fun call isCall => ?_, by simp⟩
        cases isCall
        refine ⟨positive, ?_, incomplete⟩
        rw [under_append, ← collected]
        simp [under, own]

theorem receive
    (orderly : session.Orderly pool) {rest : List Message}
    (queued : session.reports = m :: rest) :
    (session.receive m rest).Orderly pool := by
  obtain ⟨handled, received⟩ := orderly.receive_eq queued
  obtain ⟨waits, returns⟩ := orderly.hears queued
  have sameStream : session.heard ++ [m] ++ rest = session.stream := by
    rw [stream, queued, List.append_assoc, List.singleton_append]
  rw [received]
  refine
    { orderly with
      manager := rfl
      followed := ?_
      received := ?_
      answers := ?_
      waits := waits
      returned := fun entry member => ?_ }
  · simp only [stream, sameStream]
    exact orderly.followed
  · simp only [stream, sameStream]
    exact orderly.received
  · simp only [stream, sameStream]
    exact orderly.answers
  · rcases List.mem_append.mp member with before | isNew
    · exact orderly.returned entry before
    · exact returns entry isNew

/-- The oldest request has the first number that is not answered. -/
theorem queuedIds_cons
    (orderly : session.Orderly pool) {c : Message} {rest : List Message}
    (queued : session.requests = c :: rest) :
    c.requestId = session.answered.length + 1 ∧
      rest.map Message.requestId =
        List.range' (session.answered.length + 1 + 1) rest.length := by
  have ids := orderly.queuedIds
  rw [queued, List.map_cons, List.length_cons, List.range'_succ] at ids
  exact List.cons.inj ids

/-- The oldest request is the next one of its client. -/
theorem wellSequenced
    (orderly : session.Orderly pool) {c : Message} {rest : List Message}
    (queued : session.requests = c :: rest) :
    session.engine.WellSequenced c ∧ c.clientId = session.owner := by
  obtain ⟨business, own⟩ := orderly.own c (by simp [queued])
  refine ⟨⟨business, own ▸ orderly.named, ?_⟩, own⟩
  rw [own, orderly.last, (orderly.queuedIds_cons queued).1]

/-- Further reports of the engine, and what they are an answer to. -/
theorem serve
    (orderly : session.Orderly pool) {c : Message} {rest : List Message}
    {turn : Turn} (queued : session.requests = c :: rest)
    (processed : session.engine.process c = .ok turn) :
    Orderly pool
      { session with
        engine := turn.engine
        requests := rest
        reports := session.reports ++ turn.batch.addressedTo session.owner
        answered := session.answered ++
          [(c, turn.batch.addressedTo session.owner)] } := by
  obtain ⟨sequenced, own⟩ := orderly.wellSequenced queued
  obtain ⟨number, restIds⟩ := orderly.queuedIds_cons queued
  have reachable := orderly.followed.reachable
  have solicited := reachable.solicited processed sequenced
  rw [own] at solicited
  obtain ⟨outcome, next⟩ := reachable.outcome_of processed
  have epoch := (outcome.feeding reachable.invariant.sound).epoch
  have longer : session.heard ++ (session.reports ++
      turn.batch.addressedTo session.owner) =
        session.stream ++ turn.batch.addressedTo session.owner :=
    (List.append_assoc _ _ _).symm
  refine
    { orderly with
      epoch := orderly.epoch.trans epoch.symm
      sent := ?_
      own := fun other member => orderly.own other (by simp [queued, member])
      answeredIds := ?_
      queuedIds := ?_
      last := ?_
      followed := ?_
      received := ?_
      served := ?_
      answers := ?_
      returned := ?_ }
  · rw [orderly.sent, queued]
    simp
  · rw [List.map_append, orderly.answeredIds, List.length_append,
      List.length_singleton, List.range'_concat]
    simp [number, Nat.add_comm]
  · rw [List.length_append]
    exact restIds
  · have last := outcome.lastRequest_sequenced sequenced
    rw [own] at last
    simp only [List.length_append, List.length_singleton]
    exact last.trans number
  · simp only [stream, longer]
    exact orderly.followed.step (c := c)
      (InSequence.truthful fun _ _ => Or.inl sequenced) processed
  · simp only [stream, longer, List.length_append, List.length_singleton]
    intro m member
    rcases List.mem_append.mp member with before | isNew
    · have received := orderly.received m before
      exact
        { received with
          epoch := received.epoch.trans epoch.symm
          request := Nat.le_succ_of_le received.request }
    · have heard := solicited m isNew
      exact
        { kind := heard.kind
          client := heard.client.trans own
          epoch := heard.epoch.trans epoch.symm
          request := Nat.le_of_eq (heard.request.trans number) }
  · intro entry member
    rcases List.mem_append.mp member with before | isNew
    · exact orderly.served entry before
    · rw [List.mem_singleton.mp isNew]
      exact ⟨own, _, turn, reachable, sequenced, processed, rfl⟩
  · intro entry member
    change entry.2 <+: under entry.1.requestId (session.heard ++ (_ ++ _))
    rw [longer, under_append]
    rcases List.mem_append.mp member with before | isNew
    · exact (orderly.answers entry before).trans (List.prefix_append _ _)
    · rw [List.mem_singleton.mp isNew]
      have nothing : under c.requestId session.stream = [] := by
        refine List.filter_eq_nil_iff.mpr fun m inStream => ?_
        have known := (orderly.received m inStream).request
        simp only [decide_eq_true_eq]
        lia
      have everything : under c.requestId
          (turn.batch.addressedTo session.owner) =
            turn.batch.addressedTo session.owner :=
        List.filter_eq_self.mpr fun m inBatch => by
          simpa using (solicited m inBatch).request
      rw [nothing, List.nil_append, everything]
  · intro entry member
    obtain ⟨other, listed, sameRequest⟩ := orderly.returned entry member
    exact ⟨other, List.mem_append_left _ listed, sameRequest⟩

theorem other
    (orderly : session.Orderly pool) {c : Message} {turn : Turn}
    (foreign : c.clientId ≠ session.owner)
    (processed : session.engine.process c = .ok turn) :
    Orderly pool
      { session with
        engine := turn.engine
        reports := session.reports ++ turn.batch.addressedTo session.owner } := by
  have reachable := orderly.followed.reachable
  have unsolicited := reachable.unsolicited processed foreign
  obtain ⟨outcome, next⟩ := reachable.outcome_of processed
  have epoch := (outcome.feeding reachable.invariant.sound).epoch
  have longer : session.heard ++ (session.reports ++
      turn.batch.addressedTo session.owner) =
        session.stream ++ turn.batch.addressedTo session.owner :=
    (List.append_assoc _ _ _).symm
  refine
    { orderly with
      epoch := orderly.epoch.trans epoch.symm
      last := ?_
      followed := ?_
      received := ?_
      answers := ?_ }
  · refine Eq.trans (congrArg ClientState.lastRequest ?_) orderly.last
    exact (outcome.clientState_or_sequenced session.owner).resolve_right
      fun same => foreign same.1.symm
  · simp only [stream, longer]
    exact orderly.followed.step (c := c)
      (fun own => absurd own foreign) processed
  · simp only [stream, longer]
    intro m member
    rcases List.mem_append.mp member with before | isNew
    · have received := orderly.received m before
      exact { received with epoch := received.epoch.trans epoch.symm }
    · have heard := unsolicited m isNew
      exact
        { kind := heard.kind
          client := by simpa using (List.mem_filter.mp isNew).2
          epoch := heard.epoch.trans epoch.symm
          request := orderly.last ▸ heard.request.2 }
  · intro entry member
    change entry.2 <+: under entry.1.requestId (session.heard ++ (_ ++ _))
    rw [longer, under_append]
    exact (orderly.answers entry member).trans (List.prefix_append _ _)

theorem step
    (orderly : session.Orderly pool) (moved : Step session next) :
    next.Orderly pool := by
  cases moved with
  | submit _ tradable asked => exact orderly.submit tradable asked
  | refuse _ asked => exact orderly.refuse asked
  | expire _ => exact orderly.expire
  | receive queued => exact orderly.receive queued
  | look looks => exact orderly.look looks
  | close => exact orderly.close
  | serve queued processed => exact orderly.serve queued processed
  | other foreign processed => exact orderly.other foreign processed

end Orderly

/-! ## Runs -/

/-- A manager without reports mirrors a client without a history. -/
theorem mirrors_of_unheard
    {engine : MatchingEngine} {client : ClientId}
    (reachable : Reachable pool engine) (unheard : engine.Unheard client) :
    Mirrors {} engine client := by
  refine ⟨⟨fun orderId => ?_, fun instrument => ?_⟩, Nat.zero_le _, ?_⟩
  · cases held : engine.ledger.blotter client orderId with
    | none => simp
    | some terms =>
        obtain ⟨id, m, found, own, _⟩ :=
          reachable.invariant.sound.linked.blotter_eq_some.mp held
        exact absurd own (unheard.resting id m found)
  · rw [unheard.position]
    simp [OrderManager.position]
  · intro m member
    rw [unheard.cached] at member
    cases member

/-- The constructor only accepts a client without a history. -/
theorem orderly_start
    {engine : MatchingEngine} {turn : Turn} {status : Message}
    {client : TradingClient} (reachable : Reachable pool engine)
    (processed : engine.process (hello config) = .ok turn)
    (answer : turn.batch.reports = [status])
    (connected : connect pool config status = .ok client) :
    Orderly pool { engine := turn.engine, client := client } := by
  have next : Reachable pool turn.engine := .step reachable processed
  have replied : turn = Turn.report ⟨engine, {}⟩
      { hello config with
        requestId := engine.lastRequest config.clientId } .status := by
    simp [process, hello] at processed
    exact processed.symm
  have isStatus : status = ({ hello config with
      requestId := engine.lastRequest config.clientId } : Message).asReport
        .status .none engine.epoch (engine.responseSequence + 1) := by
    rw [replied] at answer
    exact (List.singleton_inj.mp answer).symm
  have sameEngine : turn.engine.epoch = engine.epoch ∧
      turn.engine.lastRequest = engine.lastRequest := by
    rw [replied]
    exact ⟨rfl, rfl⟩
  unfold connect at connected
  split at connected
  · cases connected
  rename_i configured
  split at connected
  · cases connected
  split at connected
  · cases connected
  rename_i fresh
  cases connected
  have noHistory : turn.engine.lastRequest config.clientId = 0 := by
    rw [sameEngine.2]
    rw [isStatus] at fresh
    exact not_not.mp fresh
  exact
    { named := fun anonymous => configured (Or.inl anonymous)
      epoch := by
        rw [sameEngine.1, isStatus]
        rfl
      sent := rfl
      own := by simp
      answeredIds := rfl
      queuedIds := rfl
      last := noHistory
      next := fun _ => by
        rw [isStatus]
        exact not_not.mp (isStatus ▸ fresh)
      manager := rfl
      followed :=
        { reachable := next
          mirrors := mirrors_of_unheard next (next.unheard noHistory)
          drains := fun consumed pending parts _ => by
            obtain ⟨_, rfl⟩ := List.append_eq_nil_iff.mp parts.symm
            trivial }
      received := by simp [stream]
      served := by simp
      answers := by simp
      waits := by simp
      returned := by simp }

theorem Opens.orderly (opens : Opens pool config session) :
    session.Orderly pool := by
  cases opens with
  | greeted reachable processed answer connected =>
      exact orderly_start reachable processed answer connected

theorem Opens.unheard (opens : Opens pool config session) :
    session.engine.Unheard session.owner := by
  have orderly := opens.orderly
  cases opens with
  | greeted _ _ _ _ =>
      exact orderly.followed.reachable.unheard orderly.last

theorem Run.orderly (run : Run pool config admits session) :
    session.Orderly pool := by
  induction run with
  | start opens => exact opens.orderly
  | step _ moved _ inductionHypothesis => exact inductionHypothesis.step moved

/--
In a session every request is processed once, in the order and under the
numbers in which the requests were sent, and as the next command of its client.
No report makes `receive_report` throw.  A call of `submit` that returns
returns all reports to its client of the batch that answers its request, also
when the client gave up waiting for earlier requests.
-/
theorem requests_answered_once (run : Run pool config admits session) :
    session.sent = session.answered.map Prod.fst ++ session.requests ∧
      session.sent.map Message.requestId =
        List.range' 1 session.sent.length ∧
      (∀ entry ∈ session.answered, Served pool session.owner entry) ∧
      (∀ m rest, session.reports = m :: rest →
        ∃ next, session.client.receiveReport m = (next, .ok m)) ∧
      ∀ entry ∈ session.returned, ∃ c,
        (c, entry.2) ∈ session.answered ∧ c.requestId = entry.1 := by
  have orderly := run.orderly
  refine ⟨orderly.sent, ?_, orderly.served, fun m rest queued => ?_,
    orderly.returned⟩
  · have ids := congrArg (List.map Message.requestId) orderly.sent
    rw [List.map_append, List.map_map, orderly.queuedIds] at ids
    refine ids.trans ?_
    rw [orderly.length_sent, ← List.range'_append_1, Nat.add_comm 1]
    exact congrArg (· ++ _) orderly.answeredIds
  · obtain ⟨handled, taken⟩ := orderly.receives queued
    exact ⟨_, taken⟩

/-- The first of two requests is given up before its answer arrives. -/
theorem requests_answered_once_late :
    ∃ session answer, Run .capacity {} Anyhow session ∧
      session.returned = [(2, answer)] ∧
      answer.map Message.report = [.accepted, .complete] ∧
      ∃ c, (c, answer) ∈ session.answered ∧ c.requestId = 2 := by
  let command (n : Nat) : Message :=
    { orderId := n, instrumentId := 1, price := 10, quantity := 5 }
  let request (n : Nat) : Message :=
    { command n with clientId := 1, requestId := n }
  let answer (n : Nat) : List Message :=
    [{ (request n).asReport .accepted .none 1 (2 * n) with
        exchangeId := n, remaining := 5 },
      { (request n).asReport .complete .none 1 (2 * n + 1) with
        exchangeId := n, remaining := 5 }]
  let greeted := Turn.report ⟨single, {}⟩ (hello {}) .status
  let client : TradingClient :=
    { config := {}, market := { pool := .capacity }, epoch := 1 }
  let market : MarketReplica := { pool := .capacity, synchronized := true }
  have greeting : single.process (hello {}) = .ok greeted := rfl
  have reachable : Reachable .capacity greeted.engine :=
    .step single_reachable greeting
  have started : Run .capacity {} Anyhow
      { engine := greeted.engine, client := client } :=
    .start (.greeted single_reachable greeting rfl rfl)
  have watching := started.step (.look ⟨market, {}, 1, rfl⟩) trivial
  let at_ (n : Nat) : TradingClient :=
    { client with market := market, recoveries := 1, requestId := n }
  have asked : (at_ 0).request (command 1) = (at_ 1, .ok (request 1)) ∧
      (at_ 1).request (command 2) = (at_ 2, .ok (request 2)) := by
    have passed : ({} : OrderManager).check (command 1) {} market 100000 =
        .none ∧ ({} : OrderManager).check (command 2) {} market 100000 =
          .none := by decide +kernel
    constructor
    · simp [TradingClient.request, at_, client, passed.1, command, request]
    · simp [TradingClient.request, at_, client, passed.2, command, request]
  have first := watching.step (.submit rfl ⟨by decide, by decide⟩ asked.1)
    trivial
  have second := (first.step (.expire rfl) trivial).step
    (.submit rfl ⟨by decide, by decide⟩ asked.2) trivial
  obtain ⟨turn, processed, _, nextReachable⟩ := reachable.outcome (request 1)
  obtain ⟨last, processedLast, _, _⟩ := nextReachable.outcome (request 2)
  have evaluated : ((greeted.engine.process (request 1)).map fun turn =>
      (turn.batch.addressedTo 1, ((turn.engine.process (request 2)).map
        fun last => last.batch.addressedTo 1).toOption)).toOption =
      some (answer 1, some (answer 2)) := by decide +kernel
  rw [processed] at evaluated
  simp only [Except.map, Except.toOption, Option.some.injEq, Prod.mk.injEq]
    at evaluated
  obtain ⟨answered, answeredLast⟩ := evaluated
  rw [processedLast] at answeredLast
  simp only [Option.some.injEq] at answeredLast
  have served := (second.step (.serve rfl processed) trivial).step
    (.serve rfl processedLast) trivial
  have owner : ∀ n, (at_ n).config.clientId = 1 := fun _ => rfl
  simp only [TradingSession.owner, owner, answered, answeredLast] at served
  have heard := (((served.step (.receive rfl) trivial).step (.receive rfl)
    trivial).step (.receive rfl) trivial).step (.receive rfl) trivial
  obtain ⟨_, _, _, _, returned⟩ := requests_answered_once heard
  exact ⟨_, answer 2, heard, rfl, rfl,
    returned (2, answer 2) (List.mem_singleton.mpr rfl)⟩

end TradingSession

end LimitOrderBook
