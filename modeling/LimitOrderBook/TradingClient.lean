import LimitOrderBook.Features
import LimitOrderBook.MessageFrames
import LimitOrderBook.OrderManager

namespace LimitOrderBook

/-!
# The trading client

The model of `trading/client.cpp`.  Two workers exchange messages with one
strategy thread: the subscriber queues what it hears of the market, the gateway
worker sends requests and queues reports.  The strategy thread owns everything
else.

Deadlines end the loops of the source after any number of iterations.  A
function is therefore given what its calls of `receive` and `try_pop` return
until the deadline, and a call may also throw.  A function that throws leaves
its client behind, so the result is a pair of the new client and the outcome.
-/

/-- `to_string` of a reject. -/
def Reject.text (reject : Reject) : String :=
  ["none", "invalid_command", "unknown_instrument", "invalid_price",
    "invalid_quantity", "duplicate_order", "unknown_order", "sequence",
    "post_only", "fok", "self_trade", "risk_quantity", "risk_notional",
    "risk_position", "risk_open_orders", "capacity", "session_busy",
    "kill_switch"][reject.toByte.toNat]?.getD "unknown"

/-- The fields of `ClientConfig` that are not addresses. -/
structure ClientConfig where
  clientId : ClientId := 1
  limits : InstrumentRules := {}
  maxLoss : Rat := 100000

structure TradingClient where
  config : ClientConfig
  market : MarketReplica
  manager : OrderManager := {}
  requestId : Nat := 0
  epoch : Nat := 0
  recoveries : Nat := 0
  /-- The calls of the report handler so far. -/
  handled : List Message := []
  features : FeatureEngine := {}
  closed : Bool := false

/-! ## The workers -/

/-- A datagram of `MulticastSubscriber::receive`. -/
structure Packet where
  size : Nat
  truncated : Bool
  frame : Frame

/-- A message of no kind makes the strategy thread recover. -/
def unreadable : Message :=
  { kind := .unlisted 0 (Or.inl rfl) }

/-- What the subscriber thread queues for a datagram. -/
def subscribed (packet : Packet) : Message :=
  if packet.truncated = false ∧ packet.size = frameSize then
    match decode packet.frame with
    | some m =>
        if m.kind = .delta ∨ m.kind = .heartbeat then m else unreadable
    | none => unreadable
  else
    unreadable

/-- What the gateway worker queues for a frame. -/
def gatewayReport (frame : Frame) : Except String Message :=
  match decode frame with
  | some m =>
      if m.kind = .report then .ok m else .error "Malformed gateway report"
  | none => .error "Malformed gateway report"

/-- `receive`; no frame is a connection that was closed. -/
def receiveMessage (frame : Option Frame) : Except String Message :=
  match frame with
  | none =>
      .error "Gateway disconnected; order outcome requires reconciliation"
  | some frame =>
      match decode frame with
      | some m => .ok m
      | none => .error "Malformed gateway frame"

/-- Only messages of the feed in datagrams of one frame are queued as they are. -/
theorem subscribed_cases (packet : Packet) :
    subscribed packet = unreadable ∨
      packet.truncated = false ∧ packet.size = frameSize ∧
        decode packet.frame = some (subscribed packet) := by
  unfold subscribed
  split
  · rename_i whole
    cases decoded : decode packet.frame with
    | none => exact Or.inl rfl
    | some m =>
        dsimp only
        split
        · exact Or.inr ⟨whole.1, whole.2, rfl⟩
        · exact Or.inl rfl
  · exact Or.inl rfl

/-- The gateway worker queues what was encoded as a report, and nothing else. -/
theorem gatewayReport_iff {frame : Frame} {m : Message} :
    gatewayReport frame = .ok m ↔
      m.kind = .report ∧ m.Fits ∧ encode m = .ok frame := by
  rw [← decode_iff]
  unfold gatewayReport
  cases decoded : decode frame with
  | none => simp
  | some other =>
      dsimp only
      split
      · rename_i isReport
        rw [Except.ok.injEq, Option.some.injEq]
        exact ⟨fun same => ⟨same ▸ isReport, same⟩, And.right⟩
      · rename_i notReport
        simp only [reduceCtorEq, Option.some.injEq, false_iff, not_and]
        exact fun isReport same => notReport (same ▸ isReport)

theorem receiveMessage_iff {frame : Frame} {m : Message} :
    receiveMessage (some frame) = .ok m ↔ m.Fits ∧ encode m = .ok frame := by
  rw [← decode_iff]
  unfold receiveMessage
  dsimp only
  cases decoded : decode frame with
  | none => simp
  | some other => simp

namespace TradingClient

/-- The constructor up to `recover`, with the answer to its `Status` query. -/
def connect (pool : PoolBytes) (config : ClientConfig) (status : Message) :
    Except String TradingClient :=
  if config.clientId = 0 ∨ config.maxLoss < 0 then
    .error "Invalid trading client configuration"
  else if status.kind ≠ .report ∨ status.report ≠ .status then
    .error ("Cannot open client session: " ++ status.reject.text)
  else if status.requestId ≠ 0 then
    .error ("Client ID has history; use a fresh ID or reconcile positions " ++
      "before trading")
  else
    .ok
      { config := config
        market := { pool := pool }
        requestId := status.requestId
        epoch := status.epoch }

/-! ## The market -/

/-- A delta that the replica has not applied yet. -/
def Fresh (market : MarketReplica) (m : Message) : Prop :=
  m.kind = .delta ∧ m.epoch = market.epoch ∧ market.sequence < m.sequence

instance (market : MarketReplica) (m : Message) : Decidable (Fresh market m) :=
  inferInstanceAs (Decidable (_ ∧ _))

/-- The body of both loops that pop the market queue. -/
def observe (client : TradingClient) (m : Message) : TradingClient × Bool :=
  let features :=
    if Fresh client.market m then
      client.features.before m (client.market.book m.instrumentId)
    else
      client.features
  let (market, accepted) := client.market.consume m
  if accepted = false then
    ({ client with market := market, features := features }, false)
  else if Fresh client.market m then
    ({ client with
        market := market
        features := features.after m (market.book m.instrumentId) }, true)
  else
    ({ client with market := market, features := features }, true)

def invalidate (client : TradingClient) : TradingClient :=
  { client with market := client.market.invalidate }

/-- The rows of a snapshot; none when the deadline passes before its end. -/
def receiveSnapshot (epoch : Nat) (snapshot : List Message) :
    List (Except String Message) → Except String (Option (List Message))
  | [] => .ok none
  | .error text :: _ => .error text
  | .ok m :: rest =>
      let snapshot := snapshot ++ [m]
      if 1000000 < snapshot.length then
        .error "Snapshot exceeds client resource bound"
      else if m.kind ≠ .snapshotEnd then
        receiveSnapshot epoch snapshot rest
      else if m.epoch ≠ epoch then
        .error ("Exchange restarted; reconcile private order state before " ++
          "trading")
      else
        .ok (some snapshot)

/-- The features after `reset` and a `refresh` for every order row. -/
def refreshed (market : MarketReplica) (snapshot : List Message) :
    FeatureEngine :=
  snapshot.foldl
    (fun features row =>
      if row.kind = .snapshotOrder then
        features.refresh row.instrumentId (market.book row.instrumentId)
      else
        features) {}

/-- The most messages that one round of `recover` pops. -/
def suffixBudget : Nat := 4096

/-- The loop over the buffered suffix; the flag is `valid`. -/
def verifySuffix (client : TradingClient) :
    Nat → List (Except String Message) → TradingClient × Except String Bool
  | 0, _ => (client, .ok false)
  | _ + 1, [] => (client, .ok true)
  | _ + 1, .error text :: _ => (client, .error text)
  | budget + 1, .ok m :: rest =>
      let (next, accepted) := client.observe m
      if accepted then
        next.verifySuffix budget rest
      else
        (next, .ok false)

/--
What one round of `recover` meets: what the calls of `receive` return until the
deadline, and what the pops of the market queue return until it is empty.
-/
structure Round where
  received : List (Except String Message)
  buffered : List (Except String Message)

/-- One round with a complete snapshot; the flag is `valid`. -/
def reload (client : TradingClient) (snapshot : List Message)
    (buffered : List (Except String Message)) :
    TradingClient × Except String Bool :=
  match client.market.restore snapshot with
  | (market, .error text) => ({ client with market := market }, .error text)
  | (market, .ok ()) =>
      let client :=
        { client with
          market := market
          features := refreshed market snapshot }
      if client.closed then
        (client, .ok true)
      else
        client.verifySuffix suffixBudget buffered

/-- The loop of `recover`. -/
def recoverLoop (client : TradingClient) :
    List Round → TradingClient × Except String Unit
  | [] => (client, .error "Snapshot/suffix recovery deadline expired")
  | round :: rest =>
      match receiveSnapshot client.epoch [] round.received with
      | .error text => (client, .error text)
      | .ok none =>
          (client, .error "Snapshot/suffix recovery deadline expired")
      | .ok (some snapshot) =>
          match client.reload snapshot round.buffered with
          | (next, .error text) => (next, .error text)
          | (next, .ok true) =>
              ({ next with recoveries := next.recoveries + 1 }, .ok ())
          | (next, .ok false) => next.invalidate.recoverLoop rest

/-- `TradingClient::recover`. -/
def recover (client : TradingClient) (rounds : List Round) :
    TradingClient × Except String Unit :=
  client.invalidate.recoverLoop rounds

/-- The loop of `drain_market`; the flag is `needs_recovery`. -/
def popMarket (client : TradingClient) :
    List (Except String Message) → TradingClient × Except String Bool
  | [] => (client, .ok false)
  | .error text :: _ => (client, .error text)
  | .ok m :: rest =>
      let (next, accepted) := client.observe m
      if accepted then
        next.popMarket rest
      else
        (next, .ok true)

/-- `TradingClient::drain_market`; a silence is half a second without news. -/
def drainMarket (client : TradingClient)
    (popped : List (Except String Message)) (silence : Bool)
    (rounds : List Round) : TradingClient × Except String Unit :=
  match client.popMarket popped with
  | (next, .error text) => (next, .error text)
  | (next, .ok needsRecovery) =>
      if needsRecovery = true ∨ silence = true then
        next.recover rounds
      else
        (next, .ok ())

/-! ## Reports and requests -/

/-- `TradingClient::receive_report` of a report that was popped. -/
def receiveReport (client : TradingClient) (m : Message) :
    TradingClient × Except String Message :=
  if m.kind ≠ .report ∨ m.clientId ≠ client.config.clientId ∨
      m.epoch ≠ client.epoch then
    (client, .error "Unexpected gateway/session report")
  else
    let (manager, consumed) := client.manager.consume m
    ({ client with
        manager := manager
        handled := if consumed then client.handled ++ [m] else client.handled },
      .ok m)

/-- The part of `submit` from the risk check to the request that is sent. -/
def request (client : TradingClient) (command : Message) :
    TradingClient × Except String Message :=
  let risk := client.manager.check command client.config.limits client.market
    client.config.maxLoss
  if risk ≠ .none then
    (client, .error ("Local risk check: " ++ risk.text))
  else
    let next := { client with requestId := client.requestId + 1 }
    if client.closed then
      (next, .error "Trading client is closed")
    else
      (next, .ok
        { command with
          kind := .command
          clientId := client.config.clientId
          requestId := client.requestId + 1 })

/-- The local variables of `submit` while it waits for its reports. -/
structure Waiting where
  requestId : Nat
  result : List Message := []

/-- A report while `submit` waits; the flag says that it returns `result`. -/
def Waiting.take (waiting : Waiting) (m : Message) : Waiting × Bool :=
  if m.requestId = waiting.requestId then
    ({ waiting with result := waiting.result ++ [m] },
      decide (m.report = .complete))
  else
    (waiting, false)

end TradingClient

end LimitOrderBook
