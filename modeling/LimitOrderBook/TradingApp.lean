import LimitOrderBook.MakerQuotes
import LimitOrderBook.TradingSessionPhases
import Mathlib.Data.Rat.Floor

namespace LimitOrderBook

/-!
# The strategies of the trading application

The model of `strategy` in `tools/trading_app.cpp` and of `taker_quote` in
`trading/strategy.cpp`.  A turn of the loop looks at the inventory and at the
features, and calls `submit` for what it wants: the maker for each side in turn,
the others at most once.  Between a decision and the risk check of its `submit`
there is a call of `poll`, so further reports can come in.

The trader's steps are interleaved with those of its session in any order.
-/

/-- The fields of `StrategyConfig` in full. -/
structure StrategyOptions extends StrategyConfig where
  instrument : InstrumentId := 1
  useMicroprice : Bool := false
  useTradeRatio : Bool := false
  tradeRatio : Rat := 1 / 2

inductive Strategy where
  | maker
  | taker
  | random
  deriving DecidableEq

namespace StrategyConfig

/-- A bid at the best ask, if that is cheap and there is room for it. -/
def buyQuote (c : StrategyConfig) (book : OrderBook) (inventory : Int) :
    Option Quote :=
  match book.bestAsk with
  | some ask =>
      if ask + c.edge ≤ c.fairPrice ∧ inventory + c.clip ≤ c.inventoryLimit then
        some ⟨.bid, ask, c.clip⟩
      else
        none
  | none => none

/-- An ask at the best bid, if that is dear and there is room for it. -/
def sellQuote (c : StrategyConfig) (book : OrderBook) (inventory : Int) :
    Option Quote :=
  match book.bestBid with
  | some bid =>
      if c.fairPrice + c.edge ≤ bid ∧ -c.inventoryLimit ≤ inventory - c.clip then
        some ⟨.ask, bid, c.clip⟩
      else
        none
  | none => none

/-- `taker_quote` -/
def takerQuote (c : StrategyConfig) (book : Option OrderBook) (inventory : Int) :
    Option Quote :=
  match book with
  | none => none
  | some book =>
      if c.clip = 0 ∨ c.inventoryLimit ≤ 0 then
        none
      else
        (c.buyQuote book inventory).or (c.sellQuote book inventory)

end StrategyConfig

namespace StrategyOptions

/-- `std::round`: halves are rounded away from zero. -/
def round (value : Rat) : Int :=
  if value < 0 then -⌊-value + 1 / 2⌋ else ⌊value + 1 / 2⌋

/-- The variable `pricing` of the loop. -/
def pricing (c : StrategyOptions) (feature : Features) : StrategyConfig :=
  match c.useMicroprice, feature.microprice with
  | true, some price => { c.toStrategyConfig with fairPrice := (round price).toNat }
  | _, _ => c.toStrategyConfig

/-- The clip with the sign of a side. -/
def signedClip (c : StrategyOptions) (side : Side) : Int :=
  if side = .bid then c.clip else -c.clip

/-- The branch of the taker that follows large trades, and `consumed_trade`. -/
def ratioQuote (c : StrategyOptions) (feature : Features)
    (book : Option OrderBook) (inventory : Int) (consumed : Nat) :
    Option Quote × Nat :=
  match book, feature.aggressiveRatio with
  | some book, some ratio =>
      if c.tradeRatio ≤ ratio ∧ consumed < feature.tradeId then
        let price :=
          if feature.aggressor = .bid then book.bestAsk else book.bestBid
        let projected := inventory + c.signedClip feature.aggressor
        match price with
        | some price =>
            (if |projected| ≤ c.inventoryLimit then
              some ⟨feature.aggressor, price, c.clip⟩
            else
              none, feature.tradeId)
        | none => (none, feature.tradeId)
      else
        (none, consumed)
  | _, _ => (none, consumed)

/-- What the taker wants in one turn. -/
def takerTurn (c : StrategyOptions) (client : TradingClient) (consumed : Nat) :
    Option Quote × Nat :=
  let inventory := (client.manager.position c.instrument).quantity
  let feature := client.features.get c.instrument
  let book := client.market.book c.instrument
  if c.useTradeRatio then
    c.ratioQuote feature book inventory consumed
  else
    ((c.pricing feature).takerQuote book inventory, consumed)

/-- What the random strategy wants in one turn, once it has drawn a side. -/
def randomTurn (c : StrategyOptions) (client : TradingClient) (side : Side) :
    Option Quote :=
  let inventory := (client.manager.position c.instrument).quantity
  if |inventory + c.signedClip side| ≤ c.inventoryLimit then
    some ⟨side, c.fairPrice, c.clip⟩
  else
    none

/-- The order of the taker and of the random strategy. -/
def immediate (c : StrategyOptions) (orderId : OrderId) (quote : Quote) :
    Message :=
  { instrumentId := c.instrument
    orderId := orderId
    side := quote.side
    price := quote.price
    quantity := quote.quantity
    tif := .ioc }

/-- What the maker submits for a side, and the next id it uses. -/
def makerCommand (c : StrategyOptions) (manager : OrderManager)
    (desired : List Quote) (side : Side) (nextId : OrderId) :
    Option Message × OrderId :=
  let wanted := desired.find? fun quote => decide (quote.side = side)
  let current := manager.orders.entries.find? fun entry =>
    decide (entry.2.instrumentId = c.instrument ∧ entry.2.side = side)
  let command : Message :=
    { instrumentId := c.instrument, side := side, postOnly := true }
  match wanted, current with
  | none, none => (none, nextId)
  | none, some (orderId, _) =>
      (some { command with action := .cancel, orderId := orderId }, nextId)
  | some quote, none =>
      (some
        { command with
          price := quote.price
          quantity := quote.quantity
          orderId := nextId }, nextId + 1)
  | some quote, some (orderId, order) =>
      if order.price = quote.price ∧ order.quantity = quote.quantity then
        (none, nextId)
      else
        (some
          { command with
            price := quote.price
            quantity := quote.quantity
            action := .replace
            orderId := orderId }, nextId)

end StrategyOptions

/-- The command after the loop. -/
def cancelEverything : Message :=
  { action := .cancelAll }

/-- A trading application with its session. -/
structure Trader where
  session : TradingSession
  nextId : OrderId := 1
  consumedTrade : Nat := 0
  /-- The quotes of the maker's turn. -/
  desired : List Quote := []
  /-- The sides that the maker's turn has not visited yet. -/
  sides : List Side := []
  /-- The argument of a call of `submit` that has not reached its check yet. -/
  command : Option Message := none
  /-- The loop was left, at its end or by an exception. -/
  left : Bool := false

namespace TradingSession

/-- Everything but the beginning and the end of a call of `submit`. -/
structure Around (session next : TradingSession) : Prop where
  step : Step session next
  sent : next.sent = session.sent
  calls : next.returned.length + next.waiting.toList.length =
    session.returned.length + session.waiting.toList.length

end TradingSession

namespace Trader

/-- No call of `submit` is under way and the loop goes on. -/
def Ready (trader : Trader) : Prop :=
  trader.left = false ∧ trader.command = none ∧ trader.session.waiting = none

/-- The trader after it took a quote, if there was one. -/
def take (trader : Trader) (c : StrategyOptions) (quote : Option Quote) :
    Trader :=
  { trader with
    command := quote.map (c.immediate trader.nextId)
    nextId := if quote.isSome then trader.nextId + 1 else trader.nextId }

inductive Step (strategy : Strategy) (c : StrategyOptions) (trader : Trader) :
    Trader → Prop where
  | around {next : TradingSession} :
      TradingSession.Around trader.session next →
      Step strategy c trader { trader with session := next }
  /-- The maker begins a turn. -/
  | quote {desired : List Quote} :
      strategy = .maker →
      trader.Ready →
      trader.sides = [] →
      (c.pricing (trader.session.client.features.get
        c.instrument)).makerQuotes
          (trader.session.client.manager.position c.instrument).quantity =
        some desired →
      Step strategy c trader
        { trader with desired := desired, sides := [.bid, .ask] }
  /-- The maker visits a side. -/
  | visit {side : Side} {rest : List Side} :
      trader.Ready →
      trader.sides = side :: rest →
      Step strategy c trader
        { trader with
          sides := rest
          command := (c.makerCommand trader.session.client.manager
            trader.desired side trader.nextId).1
          nextId := (c.makerCommand trader.session.client.manager
            trader.desired side trader.nextId).2 }
  /-- A turn of the taker. -/
  | follow :
      strategy = .taker →
      trader.Ready →
      Step strategy c trader
        { trader.take c
            (c.takerTurn trader.session.client trader.consumedTrade).1 with
          consumedTrade :=
            (c.takerTurn trader.session.client trader.consumedTrade).2 }
  /-- A turn of the random strategy. -/
  | gamble {side : Side} :
      strategy = .random →
      side.Listed →
      trader.Ready →
      Step strategy c trader
        (trader.take c (c.randomTurn trader.session.client side))
  /-- The last command of `strategy`, or one of `close`. -/
  | leave :
      trader.sides = [] →
      trader.command = none →
      trader.session.waiting = none →
      Step strategy c trader
        { trader with command := some cancelEverything, left := true }
  | submit {command request : Message} {client : TradingClient} :
      trader.command = some command →
      trader.session.waiting = none →
      trader.session.client.request command = (client, .ok request) →
      Step strategy c trader
        { trader with
          session :=
            { trader.session with
              client := client
              requests := trader.session.requests ++ [request]
              waiting := some { requestId := request.requestId }
              sent := trader.session.sent ++ [request] }
          command := none }
  /-- The check of `submit` throws, or the client is closed. -/
  | refuse {command : Message} {client : TradingClient} {text : String} :
      trader.command = some command →
      trader.session.waiting = none →
      trader.session.client.request command = (client, .error text) →
      Step strategy c trader
        { trader with
          session := { trader.session with client := client }
          sides := []
          command := none
          left := true }
  /-- Any other exception, also the deadline of `submit`. -/
  | throw :
      Step strategy c trader
        { trader with
          session := { trader.session with waiting := none }
          sides := []
          command := none
          left := true }

/-- A trader from the `Status` query of its client on. -/
inductive Run (pool : PoolBytes) (config : ClientConfig) (strategy : Strategy)
    (c : StrategyOptions) : Trader → Prop where
  | start {session : TradingSession} :
      TradingSession.Opens pool config session →
      Run pool config strategy c { session := session }
  | step {trader next : Trader} :
      Run pool config strategy c trader →
      Step strategy c trader next →
      Run pool config strategy c next

end Trader

end LimitOrderBook
