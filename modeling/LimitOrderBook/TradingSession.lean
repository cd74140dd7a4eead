import LimitOrderBook.EngineRequests
import LimitOrderBook.OrderManagerAgreement
import LimitOrderBook.TradingClient

namespace LimitOrderBook

/-!
# A trading client next to the exchange

Between the strategy thread of a client and the engine stand the queues of the
gateway worker, a connection and the queues of the server.  All of them keep
order, so there is one queue in each direction here.  The two parties take
their steps in any order, and other clients send what they like in between.

The history fields of a session are not part of the program.
-/

/-- The `Status` query of the constructor. -/
def TradingClient.hello (config : ClientConfig) : Message :=
  { action := .status, clientId := config.clientId }

/-- The commands that the callers of `submit` build. -/
def Message.Tradable (command : Message) : Prop :=
  command.action ≠ .snapshot ∧ command.action ≠ .status

structure TradingSession where
  engine : MatchingEngine
  client : TradingClient
  /-- Requests on their way to the engine. -/
  requests : List Message := []
  /-- Reports on their way to the strategy thread. -/
  reports : List Message := []
  /-- The call of `submit` that has not returned yet. -/
  waiting : Option TradingClient.Waiting := none
  /-- The requests that were sent. -/
  sent : List Message := []
  /-- The requests that were processed, with the reports to the client. -/
  answered : List (Message × List Message) := []
  /-- The reports that were received. -/
  heard : List Message := []
  /-- What the calls of `submit` returned, by the numbers of their requests. -/
  returned : List (Nat × List Message) := []

namespace TradingSession

open TradingClient

abbrev owner (session : TradingSession) : ClientId :=
  session.client.config.clientId

/-- The call of `submit` after a report, and what it returns if it does. -/
def hear (waiting : Option Waiting) (m : Message) :
    Option Waiting × List (Nat × List Message) :=
  match waiting with
  | none => (none, [])
  | some waiting =>
      match waiting.take m with
      | (done, true) => (none, [(waiting.requestId, done.result)])
      | (more, false) => (some more, [])

/-- The strategy thread takes a report from its queue. -/
def receive (session : TradingSession) (m : Message) (rest : List Message) :
    TradingSession :=
  match session.client.receiveReport m with
  | (next, .error _) =>
      { session with client := next, reports := rest, waiting := none }
  | (next, .ok m) =>
      { session with
        client := next
        reports := rest
        waiting := (hear session.waiting m).1
        heard := session.heard ++ [m]
        returned := session.returned ++ (hear session.waiting m).2 }

/-- The client after something that only concerns its view of the market. -/
def Looks (client next : TradingClient) : Prop :=
  ∃ market features recoveries,
    next =
      { client with
        market := market
        features := features
        recoveries := recoveries }

inductive Step (session : TradingSession) : TradingSession → Prop where
  /-- `submit` sends a request and waits. -/
  | submit {command request : Message} {next : TradingClient} :
      session.waiting = none →
      command.Tradable →
      session.client.request command = (next, .ok request) →
      Step session
        { session with
          client := next
          requests := session.requests ++ [request]
          waiting := some { requestId := request.requestId }
          sent := session.sent ++ [request] }
  /-- `submit` throws before it sends anything. -/
  | refuse {command : Message} {next : TradingClient} {text : String} :
      session.waiting = none →
      session.client.request command = (next, .error text) →
      Step session { session with client := next }
  /-- The deadline of `submit` passes. -/
  | expire {waiting : Waiting} :
      session.waiting = some waiting →
      Step session { session with waiting := none }
  | receive {m : Message} {rest : List Message} :
      session.reports = m :: rest →
      Step session (session.receive m rest)
  /-- `recover` and `drain_market`, whatever they meet. -/
  | look {next : TradingClient} :
      Looks session.client next →
      Step session { session with client := next }
  | close :
      Step session
        { session with client := { session.client with closed := true } }
  /-- The engine processes the client's oldest request. -/
  | serve {c : Message} {rest : List Message} {turn : Turn} :
      session.requests = c :: rest →
      session.engine.process c = .ok turn →
      Step session
        { session with
          engine := turn.engine
          requests := rest
          reports := session.reports ++ turn.batch.addressedTo session.owner
          answered := session.answered ++
            [(c, turn.batch.addressedTo session.owner)] }
  /-- The engine processes what somebody else sent. -/
  | other {c : Message} {turn : Turn} :
      c.clientId ≠ session.owner →
      session.engine.process c = .ok turn →
      Step session
        { session with
          engine := turn.engine
          reports := session.reports ++ turn.batch.addressedTo session.owner }

/-- A session right after the `Status` query of the constructor. -/
inductive Opens (pool : PoolBytes) (config : ClientConfig) :
    TradingSession → Prop where
  | greeted {engine : MatchingEngine} {turn : Turn} {status : Message}
      {client : TradingClient} :
      MatchingEngine.Reachable pool engine →
      engine.process (hello config) = .ok turn →
      turn.batch.reports = [status] →
      connect pool config status = .ok client →
      Opens pool config { engine := turn.engine, client := client }

/-- A session from there on, with admitted steps only. -/
inductive Run (pool : PoolBytes) (config : ClientConfig)
    (admits : TradingSession → TradingSession → Prop) :
    TradingSession → Prop where
  | start {session : TradingSession} :
      Opens pool config session →
      Run pool config admits session
  | step {session next : TradingSession} :
      Run pool config admits session →
      Step session next →
      admits session next →
      Run pool config admits next

/-- Every step is admitted. -/
def Anyhow (_ _ : TradingSession) : Prop :=
  True

/-! ## The calls of the client -/

variable {client next : TradingClient} {command request m : Message}

/-- A request that is sent has passed the check and takes the next number. -/
theorem request_eq_ok
    (asked : client.request command = (next, .ok request)) :
    client.manager.check command client.config.limits client.market
        client.config.maxLoss = .none ∧
      client.closed = false ∧
      next = { client with requestId := client.requestId + 1 } ∧
      request =
        { command with
          kind := .command
          clientId := client.config.clientId
          requestId := client.requestId + 1 } := by
  unfold TradingClient.request at asked
  dsimp only at asked
  split at asked
  · cases asked
  · rename_i passed
    split at asked
    · cases asked
    · rename_i isOpen
      cases asked
      exact ⟨not_not.mp passed, by simpa using isOpen, rfl, rfl⟩

/-- A request that is not sent leaves the account as it was. -/
theorem request_eq_error
    {text : String} (asked : client.request command = (next, .error text)) :
    next = client ∨
      client.closed = true ∧
        next = { client with requestId := client.requestId + 1 } := by
  unfold TradingClient.request at asked
  dsimp only at asked
  split at asked
  · cases asked
    exact Or.inl rfl
  · split at asked
    · rename_i isClosed
      cases asked
      exact Or.inr ⟨isClosed, rfl⟩
    · cases asked

/-- A report that is meant for the client reaches its manager. -/
theorem receiveReport_ok
    (kind : m.kind = .report) (own : m.clientId = client.config.clientId)
    (epoch : m.epoch = client.epoch) :
    ∃ handled,
      client.receiveReport m =
        ({ client with
            manager := (client.manager.consume m).1
            handled := handled }, .ok m) := by
  unfold receiveReport
  rw [if_neg (by simp [kind, own, epoch])]
  exact ⟨_, rfl⟩

end TradingSession

end LimitOrderBook
