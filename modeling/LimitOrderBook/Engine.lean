import LimitOrderBook.OrderBook
import Mathlib.Data.Rat.Defs
import Mathlib.Algebra.Order.Ring.Rat
import Mathlib.Algebra.Field.Rat

namespace LimitOrderBook

/-!
# The matching engine

The model of `trading/engine.hpp` and `trading/engine.cpp`.  A call of
`process` is a computation on a `Turn`: the engine as it stands in the middle
of the call and the batch built so far.  A failed `require` and a failed `at`
are faults, which end the call as the source's exceptions do.

`submit` is one long function in the source.  Its consecutive parts have names
here: `checkCommand` and `checkRisk` for the rejections before any state is
touched, `reduce` for the replacement that keeps its place, and `place` for
the rest (`planVisitor`, `reserve`, `enter`, `executeFill`, `publishResidual`
in the order in which they run).
-/

/-- Rules of one instrument, in the types of the source. -/
structure InstrumentRules where
  tickSize : UInt32 := 1
  lotSize : UInt32 := 1
  minPrice : UInt32 := 1
  maxPrice : UInt32 := 1000000
  maxOrderQuantity : UInt32 := 100000
  maxNotional : UInt64 := 10000000000
  maxPosition : Int := 1000000
  maxOpenOrders : Nat := 128
  deriving DecidableEq

abbrev Instruments := OrderedMap InstrumentId InstrumentRules (· < ·)

/--
A client's position.  The source keeps the last three fields as `long double`;
they are exact here, so that accounting identities can be stated.
-/
structure Position where
  quantity : Int := 0
  volume : Nat := 0
  averagePrice : Rat := 0
  realizedPnl : Rat := 0
  cash : Int := 0
  deriving DecidableEq

namespace Position

def fill (position : Position) (side : Side) (price : Price)
    (size : Quantity) : Position :=
  let signedSize : Int := if side = .bid then size else -size
  let old := position.quantity
  let oldAbs := old.natAbs
  let next := old + signedSize
  let closed := min oldAbs size
  let increases := old = 0 ∨ (0 < old ↔ 0 < signedSize)
  { quantity := next
    volume := position.volume + size
    averagePrice :=
      if increases then
        (position.averagePrice * oldAbs + price * size) / next.natAbs
      else if next = 0 then
        0
      else if ¬ (0 < next ↔ 0 < old) then
        price
      else
        position.averagePrice
    realizedPnl :=
      if increases then
        position.realizedPnl
      else
        position.realizedPnl +
          (price - position.averagePrice) * closed *
            (if 0 < old then 1 else -1)
    cash := position.cash - price * signedSize }

end Position

structure Batch where
  reports : List Message := []
  updates : List Message := []
  deriving DecidableEq

structure EngineStats where
  commands : Nat := 0
  rejected : Nat := 0
  trades : Nat := 0
  volume : Nat := 0
  deriving DecidableEq

structure ClientState where
  lastRequest : Nat := 0
  maxOrderId : OrderId := 0
  lastCommand : Message := {}
  cached : List Message := []
  deriving DecidableEq

/-- The lexicographic order of `std::pair`. -/
def pairLt (first second : Nat × Nat) : Prop :=
  first.1 < second.1 ∨ first.1 = second.1 ∧ first.2 < second.2

instance : DecidableRel pairLt := fun first second =>
  inferInstanceAs
    (Decidable (first.1 < second.1 ∨
      first.1 = second.1 ∧ first.2 < second.2))

instance : IsStrictTotalOrder (Nat × Nat) pairLt where
  trichotomous first second notBefore notAfter := by
    obtain ⟨firstLeft, firstRight⟩ := first
    obtain ⟨secondLeft, secondRight⟩ := second
    simp only [pairLt, Prod.mk.injEq] at *
    omega
  irrefl _ before := by
    simp only [pairLt] at before
    omega
  trans _ _ _ before after := by
    simp only [pairLt] at *
    omega

structure MatchingEngine where
  instruments : Instruments
  books : OrderedMap InstrumentId OrderBook (· < ·)
  resting : OrderedMap OrderId Message (· < ·) := .empty
  byClient : OrderedMap (ClientId × OrderId) OrderId pairLt := .empty
  clients : OrderedMap ClientId ClientState (· < ·) := .empty
  positions : OrderedMap (ClientId × InstrumentId) Position pairLt := .empty
  epoch : Nat
  sequence : Sequence := 0
  responseSequence : Sequence := 0
  nextOrder : OrderId := 1
  nextTrade : Nat := 1
  stats : EngineStats := {}
  deriving DecidableEq

/-- What makes a call of the engine throw. -/
inductive Fault where
  | logicError (text : String)
  | outOfRange
  deriving DecidableEq, Repr

/-- `require`. -/
def require (condition : Prop) [Decidable condition] (text : String) :
    Except Fault Unit :=
  if condition then .ok () else .error (.logicError text)

/-- `std::map::at`. -/
def atKey {κ ν : Type} {lt : κ → κ → Prop} [DecidableEq κ]
    (map : OrderedMap κ ν lt) (key : κ) : Except Fault ν :=
  match map.find? key with
  | some value => .ok value
  | none => .error .outOfRange

/-! ## Construction -/

/-- The bytes of a book's pool; `capacityBytes` in the source. -/
structure PoolBytes where
  bytes : Nat
  positive : 0 < bytes
  fits : bytes < 2 ^ 32

/-- The pool every book of the source has. -/
def PoolBytes.capacity : PoolBytes :=
  ⟨capacityBytes, by decide, by decide⟩

/-- A default-constructed book; its storage is aligned as `operator new` does. -/
def PoolBytes.book (pool : PoolBytes) : OrderBook :=
  .ofPool 4096 pool.bytes

/-- The rules the constructor lets pass. -/
def InstrumentRules.Accepted (id : InstrumentId) (r : InstrumentRules) : Prop :=
  ¬ (id = 0 ∨ r.tickSize = 0 ∨ r.lotSize = 0 ∨ r.minPrice = 0 ∨
    r.maxPrice < r.minPrice ∨ r.maxOrderQuantity = 0 ∨ r.maxNotional = 0 ∨
    r.maxPosition ≤ 0 ∨ 1000000000000 < r.maxPosition ∨
    r.maxOpenOrders = 0 ∨ 4096 < r.maxOpenOrders)

instance (id : InstrumentId) (r : InstrumentRules) :
    Decidable (r.Accepted id) :=
  inferInstanceAs (Decidable (¬ _))

namespace MatchingEngine

/-- The constructor; a refusal carries the text of `invalid_argument`. -/
def create (pool : PoolBytes) (instruments : Instruments) (epoch : Nat) :
    Except String MatchingEngine :=
  if instruments.entries = [] ∨ epoch = 0 then
    .error "Nonempty instruments/nonzero epoch required"
  else if ∃ entry ∈ instruments.entries, ¬ entry.2.Accepted entry.1 then
    .error "Invalid instrument rules"
  else
    .ok
      { instruments := instruments
        books := instruments.mapValues fun _ => pool.book
        epoch := epoch }

/-- `MatchingEngine::position`. -/
def position (engine : MatchingEngine) (client : ClientId)
    (instrument : InstrumentId) : Position :=
  (engine.positions.find? (client, instrument)).getD {}

/-- What `clients_` holds for a client, the default when it holds nothing. -/
def clientState (engine : MatchingEngine) (client : ClientId) : ClientState :=
  (engine.clients.find? client).getD {}

/-- `MatchingEngine::last_request`. -/
def lastRequest (engine : MatchingEngine) (client : ClientId) : Nat :=
  (engine.clientState client).lastRequest

end MatchingEngine

/-! ## One call of `process` -/

/-- The engine in the middle of a call and the batch built so far. -/
structure Turn where
  engine : MatchingEngine
  batch : Batch
  deriving DecidableEq

namespace Turn

/-- `MatchingEngine::report`. -/
def report (turn : Turn) (m : Message) (type : ReportType)
    (reason : Reject := .none) : Turn where
  engine :=
    { turn.engine with responseSequence := turn.engine.responseSequence + 1 }
  batch :=
    { turn.batch with
      reports := turn.batch.reports ++
        [{ m with
            kind := .report
            report := type
            reject := reason
            epoch := turn.engine.epoch
            sequence := turn.engine.responseSequence + 1 }] }

/-- `MatchingEngine::update`. -/
def update (turn : Turn) (m : Message) (type : UpdateType) : Turn where
  engine := { turn.engine with sequence := turn.engine.sequence + 1 }
  batch :=
    { turn.batch with
      updates := turn.batch.updates ++
        [{ m with
            kind := .delta
            update := type
            epoch := turn.engine.epoch
            sequence := turn.engine.sequence + 1
            clientId := 0
            requestId := 0
            orderId := 0 }] }

/-- `MatchingEngine::reject`. -/
def reject (turn : Turn) (c : Message) (reason : Reject) : Turn :=
  let counted : Turn :=
    { turn with
      engine :=
        { turn.engine with
          stats :=
            { turn.engine.stats with
              rejected := turn.engine.stats.rejected + 1 } } }
  counted.report c .rejected reason

/-- Write a book back after an operation on the reference to it. -/
def setBook (turn : Turn) (instrument : InstrumentId) (book : OrderBook) :
    Turn :=
  { turn with
    engine :=
      { turn.engine with
        books := turn.engine.books.insert instrument book } }

/-- Apply an execution or a cancellation that must succeed. -/
def applyBook (turn : Turn) (instrument : InstrumentId)
    (operation : OrderBook → OrderBook × ApplyResult) (text : String) :
    Except Fault Turn := do
  let book ← atKey turn.engine.books instrument
  let (next, result) := operation book
  require (result = .ok) text
  return turn.setBook instrument next

/-- `MatchingEngine::cancel`. -/
def cancel (turn : Turn) (id : OrderId) (request : Nat) :
    Except Fault Turn := do
  let order ← atKey turn.engine.resting id
  let m := { order with requestId := request, remaining := 0 }
  let turn ← turn.applyBook m.instrumentId
    (OrderBook.applyCancel · ⟨id⟩) "Cancel invariant"
  let turn := (turn.update m .cancel).report m .cancelled
  return { turn with
    engine :=
      { turn.engine with
        byClient := turn.engine.byClient.erase (m.clientId, m.orderId)
        resting := turn.engine.resting.erase id } }

end Turn

/-! ## Checks before any state is touched -/

def crosses (c : Message) (price : Price) : Bool :=
  decide (c.orderType = .market) ||
    (if c.side = .bid then decide (price ≤ c.price)
      else decide (c.price ≤ price))

/-- A command whose fields do not fit together. -/
def Malformed (c : Message) (oldId : OrderId) : Prop :=
  ¬ c.side.Listed ∨ c.orderId = 0 ∨
    ¬ (c.orderType = .limit ∨ c.orderType = .market) ∨
    ¬ (c.tif = .gtc ∨ c.tif = .ioc ∨ c.tif = .fok) ∨
    (c.orderType = .market ∧
      (c.price ≠ 0 ∨ c.tif = .gtc ∨ c.postOnly = true)) ∨
    (c.postOnly = true ∧ c.tif ≠ .gtc) ∨
    (oldId ≠ 0 ∧ (c.orderType ≠ .limit ∨ c.tif ≠ .gtc))

instance (c : Message) (oldId : OrderId) : Decidable (Malformed c oldId) :=
  inferInstanceAs (Decidable (_ ∨ _))

/-- The checks of `submit` that look at the command and the rules alone. -/
def checkCommand (r : InstrumentRules) (c : Message) (oldId : OrderId) :
    Reject :=
  if Malformed c oldId then
    .invalidCommand
  else if c.quantity = 0 ∨ c.quantity % r.lotSize.toNat ≠ 0 then
    .invalidQuantity
  else if c.orderType = .limit ∧
      (c.price < r.minPrice.toNat ∨ r.maxPrice.toNat < c.price ∨
        c.price % r.tickSize.toNat ≠ 0) then
    .invalidPrice
  else if r.maxOrderQuantity.toNat < c.quantity then
    .riskQuantity
  else if r.maxNotional.toNat <
      (if c.orderType = .market then r.maxPrice.toNat else c.price) *
        c.quantity then
    .riskNotional
  else
    .none

/-- What the loop over the resting orders accumulates. -/
structure Exposure where
  reserved : Int := 0
  openOrders : Nat := 0

/-- One iteration of the loop over the resting orders. -/
def Exposure.visit (c : Message) (oldId : OrderId) (exposure : Exposure)
    (entry : OrderId × Message) : Exposure :=
  if entry.1 = oldId ∨ entry.2.clientId ≠ c.clientId then
    exposure
  else
    { reserved :=
        if entry.2.instrumentId = c.instrumentId ∧ entry.2.side = c.side then
          exposure.reserved + entry.2.quantity
        else
          exposure.reserved
      openOrders := exposure.openOrders + 1 }

namespace MatchingEngine

/-- The client's orders apart from the one that is being replaced. -/
def exposure (engine : MatchingEngine) (c : Message) (oldId : OrderId) :
    Exposure :=
  engine.resting.entries.foldl (Exposure.visit c oldId) {}

/-- The position after everything on this side would be filled. -/
def worst (engine : MatchingEngine) (c : Message) (oldId : OrderId) : Int :=
  (engine.position c.clientId c.instrumentId).quantity +
    (if c.side = .bid then 1 else -1) *
      ((engine.exposure c oldId).reserved + c.quantity)

/-- The checks of `submit` against the client's state. -/
def checkRisk (engine : MatchingEngine) (r : InstrumentRules)
    (state : ClientState) (c : Message) (oldId : OrderId) : Reject :=
  if oldId = 0 ∧ c.orderId ≤ state.maxOrderId then
    .duplicateOrder
  else if r.maxOpenOrders ≤ (engine.exposure c oldId).openOrders then
    .riskOpenOrders
  else if r.maxPosition < (engine.worst c oldId).natAbs then
    .riskPosition
  else
    .none

end MatchingEngine

/-! ## The sweep -/

structure Fill where
  id : OrderId
  price : Price
  size : Quantity
  deriving DecidableEq

structure Plan where
  planned : List Fill := []
  leaves : Quantity
  rejection : Reject := .none

/-- The visitor that plans the sweep without touching any state. -/
def planVisitor (engine : MatchingEngine) (c : Message) (plan : Plan)
    (order : OrderView) : Except Fault (Plan × Bool) :=
  if plan.leaves = 0 ∨ crosses c order.price = false then
    .ok (plan, false)
  else if c.postOnly then
    .ok ({ plan with rejection := .postOnly }, false)
  else do
    let owner ← atKey engine.resting order.orderId
    if owner.clientId = c.clientId then
      return ({ plan with rejection := .selfTrade }, false)
    else
      let size := min plan.leaves order.quantity
      let leaves := plan.leaves - size
      let next := { plan with
        planned := plan.planned ++ [⟨order.orderId, order.price, size⟩]
        leaves := leaves }
      return (next, decide (leaves ≠ 0))

namespace Turn

/-- The replacement that keeps the order's place in its queue. -/
def reduce (turn : Turn) (c : Message) (oldId : OrderId) (old : Message) :
    Except Fault Turn := do
  let reduction := old.quantity - c.quantity
  let m := { c with exchangeId := oldId, remaining := c.quantity }
  let turn ←
    if reduction ≠ 0 then do
      let turn ← turn.applyBook c.instrumentId
        (OrderBook.applyExecute · ⟨oldId, reduction⟩) "Reduce invariant"
      pure (turn.update m .reduce)
    else
      pure turn
  let turn : Turn :=
    { turn with
      engine :=
        { turn.engine with
          resting := turn.engine.resting.insert oldId
            { old with quantity := c.quantity } } }
  return turn.report m .replaced

/-- `positions_.try_emplace`. -/
def openPosition (turn : Turn) (client : ClientId)
    (instrument : InstrumentId) : Turn :=
  { turn with
    engine :=
      { turn.engine with
        positions := turn.engine.positions.emplace (client, instrument) {} } }

/--
Reserve the residual in all three stores.  When the book refuses it, the other
two are rolled back.
-/
def reserve (turn : Turn) (c : Message) (oldId : OrderId) (rest : Message)
    (book : OrderBook) : Turn × ApplyResult :=
  let newId := turn.engine.nextOrder
  let resting := turn.engine.resting.emplace newId rest
  let byClient :=
    if oldId = 0 then
      turn.engine.byClient.emplace (c.clientId, c.orderId) newId
    else
      turn.engine.byClient
  let (next, result) :=
    book.applyAdd {} ⟨newId, c.side, c.price, rest.quantity⟩
  let stored :=
    { turn.engine with
      resting := resting
      byClient := byClient
      books := turn.engine.books.insert c.instrumentId next }
  if result ≠ .ok then
    ({ turn with
        engine :=
          { stored with
            resting := resting.erase newId
            byClient :=
              if oldId = 0 then byClient.erase (c.clientId, c.orderId)
              else byClient } },
      result)
  else
    ({ turn with engine := stored }, result)

/-- Take the replaced order out after its successor has been reserved. -/
def retire (turn : Turn) (c : Message) (oldId newId : OrderId)
    (rests : Bool) : Except Fault Turn := do
  let old ← atKey turn.engine.resting oldId
  let turn ← turn.applyBook c.instrumentId
    (OrderBook.applyCancel · ⟨oldId⟩) "Replace invariant"
  let turn := turn.update old .cancel
  let key := (c.clientId, c.orderId)
  let _ ← if rests then atKey turn.engine.byClient key else pure newId
  return { turn with
    engine :=
      { turn.engine with
        resting := turn.engine.resting.erase oldId
        byClient :=
          if rests then turn.engine.byClient.insert key newId
          else turn.engine.byClient.erase key } }

/-- Raise the client's highest order id. -/
def raiseOrderId (turn : Turn) (c : Message) : Turn :=
  { turn with
    engine :=
      { turn.engine with
        clients := turn.engine.clients.modify c.clientId fun state =>
          { state with maxOrderId := max state.maxOrderId c.orderId } } }

/-- Take the id of an accepted command, retire what it replaces and say so. -/
def enter (turn : Turn) (c : Message) (oldId : OrderId) (incoming : Message)
    (rests : Bool) : Except Fault Turn := do
  let newId := turn.engine.nextOrder
  let turn : Turn :=
    { turn with engine := { turn.engine with nextOrder := newId + 1 } }
  let turn ←
    if oldId ≠ 0 then turn.retire c oldId newId rests else pure turn
  return (turn.raiseOrderId c).report incoming
    (if oldId = 0 then .accepted else .replaced)

/-- The positions of both parties after one fill. -/
def settle (turn : Turn) (maker c : Message) (fill : Fill) :
    Except Fault Turn := do
  let instrument := c.instrumentId
  let makerPosition ←
    atKey turn.engine.positions (maker.clientId, instrument)
  let positions := turn.engine.positions.insert (maker.clientId, instrument)
    (makerPosition.fill maker.side fill.price fill.size)
  let takerPosition ← atKey positions (c.clientId, instrument)
  return { turn with
    engine :=
      { turn.engine with
        positions := positions.insert (c.clientId, instrument)
          (takerPosition.fill c.side fill.price fill.size) } }

/-- One planned fill; the second component is what the taker has left. -/
def executeFill (c incoming : Message) (state : Turn × Quantity)
    (fill : Fill) : Except Fault (Turn × Quantity) := do
  let (turn, before) := state
  let stored ← atKey turn.engine.resting fill.id
  let maker := { stored with quantity := stored.quantity - fill.size }
  let takerLeaves := before - fill.size
  let turn : Turn :=
    { turn with
      engine :=
        { turn.engine with
          resting := turn.engine.resting.insert fill.id maker } }
  let turn ← turn.applyBook c.instrumentId
    (OrderBook.applyExecute · ⟨fill.id, fill.size⟩) "Fill invariant"
  let trade := turn.engine.nextTrade
  let execution :=
    { maker with
      quantity := fill.size
      remaining := maker.quantity
      tradeId := trade }
  let turn := (turn.report execution .fill).update execution .execute
  let taker :=
    { incoming with
      price := fill.price
      quantity := fill.size
      remaining := takerLeaves
      tradeId := trade }
  let turn : Turn :=
    { turn with engine := { turn.engine with nextTrade := trade + 1 } }
  let turn := (turn.report taker .fill).update taker .trade
  let turn ← turn.settle maker c fill
  let turn : Turn :=
    if maker.quantity = 0 then
      { turn with
        engine :=
          { turn.engine with
            byClient :=
              turn.engine.byClient.erase (maker.clientId, maker.orderId)
            resting := turn.engine.resting.erase fill.id } }
    else
      turn
  let turn : Turn :=
    { turn with
      engine :=
        { turn.engine with
          stats :=
            { turn.engine.stats with
              trades := turn.engine.stats.trades + 1
              volume := turn.engine.stats.volume + fill.size } } }
  return (turn, takerLeaves)

/-- Publish the residual, or report its expiry. -/
def publishResidual (turn : Turn) (incoming : Message) (leaves : Quantity)
    (rests : Bool) : Turn :=
  if rests then
    turn.update { incoming with quantity := leaves, remaining := leaves } .add
  else if leaves ≠ 0 then
    turn.report { incoming with quantity := leaves, remaining := 0 } .cancelled
  else
    turn

/-- Whether what is left of a command goes into the book. -/
def rests (c : Message) (leaves : Quantity) : Bool :=
  decide (leaves ≠ 0 ∧ c.tif = .gtc ∧ c.orderType = .limit)

/-- The part of `submit` from the plan on. -/
def place (turn : Turn) (c : Message) (oldId : OrderId) (book : OrderBook) :
    Except Fault Turn := do
  let plan ← book.forEachOrder c.side.opposite
    (planVisitor turn.engine c) { leaves := c.quantity }
  if plan.rejection ≠ .none then
    return turn.reject c plan.rejection
  else if c.tif = .fok ∧ plan.leaves ≠ 0 then
    return turn.reject c .fok
  else
    let rests := rests c plan.leaves
    let turn := turn.openPosition c.clientId c.instrumentId
    let incoming :=
      { c with exchangeId := turn.engine.nextOrder, remaining := c.quantity }
    let (turn, result) :=
      if rests then
        turn.reserve c oldId
          { incoming with quantity := plan.leaves, remaining := plan.leaves }
          book
      else
        (turn, .ok)
    if result ≠ .ok then
      return turn.reject c .capacity
    else
      let turn ← turn.enter c oldId incoming rests
      let (turn, _) ←
        plan.planned.foldlM (executeFill c incoming) (turn, c.quantity)
      return turn.publishResidual incoming plan.leaves rests

/-- `MatchingEngine::submit`. -/
def submit (turn : Turn) (c : Message) (oldId : OrderId := 0) :
    Except Fault Turn :=
  match turn.engine.instruments.find? c.instrumentId with
  | none => .ok (turn.reject c .unknownInstrument)
  | some r =>
      if checkCommand r c oldId ≠ .none then
        .ok (turn.reject c (checkCommand r c oldId))
      else do
        let state ← atKey turn.engine.clients c.clientId
        let risk := turn.engine.checkRisk r state c oldId
        if risk ≠ .none then
          return turn.reject c risk
        else
          let book ← atKey turn.engine.books c.instrumentId
          if oldId ≠ 0 then
            let old ← atKey turn.engine.resting oldId
            if old.instrumentId ≠ c.instrumentId ∨ old.side ≠ c.side then
              return turn.reject c .invalidCommand
            else if old.price = c.price ∧ c.quantity ≤ old.quantity then
              turn.reduce c oldId old
            else
              turn.place c oldId book
          else
            turn.place c oldId book

/-- The orders a cancel-all takes, in the order of their ids. -/
def cancelAllIds (engine : MatchingEngine) (c : Message) : List OrderId :=
  (engine.resting.entries.filter fun entry =>
    decide (entry.2.clientId = c.clientId ∧
      (c.instrumentId = 0 ∨ entry.2.instrumentId = c.instrumentId))).map
    Prod.fst

/-- The business part of a well-sequenced command. -/
def dispatch (turn : Turn) (c : Message) : Except Fault Turn :=
  match c.action with
  | .new => turn.submit c
  | .cancelAll =>
      (cancelAllIds turn.engine c).foldlM
        (fun turn id => turn.cancel id c.requestId) turn
  | .cancel | .replace =>
      match turn.engine.byClient.find? (c.clientId, c.orderId) with
      | none => .ok (turn.reject c .unknownOrder)
      | some id => do
          let order ← atKey turn.engine.resting id
          if order.instrumentId ≠ c.instrumentId then
            return turn.reject c .unknownOrder
          else if c.action = .cancel then
            turn.cancel id c.requestId
          else
            turn.submit c id
  | _ => .ok (turn.reject c .invalidCommand)

/-- The terminal report of a well-sequenced command. -/
def complete (turn : Turn) (c : Message) : Except Fault Turn :=
  match turn.engine.byClient.find? (c.clientId, c.orderId) with
  | none => .ok (turn.report c .complete)
  | some id => do
      let order ← atKey turn.engine.resting id
      return turn.report
        { c with remaining := order.quantity, exchangeId := id } .complete

/-- Remember the command and the client's own reports for a retry. -/
def remember (turn : Turn) (c : Message) : Turn :=
  { turn with
    engine :=
      { turn.engine with
        clients := turn.engine.clients.modify c.clientId fun state =>
          { state with
            lastRequest := c.requestId
            lastCommand := c
            cached := turn.batch.reports.filter fun m =>
              decide (m.clientId = c.clientId) } } }

end Turn

namespace MatchingEngine

/-- `clients_[client]`. -/
def openClient (engine : MatchingEngine) (client : ClientId) :
    MatchingEngine :=
  { engine with clients := engine.clients.emplace client {} }

/-- `MatchingEngine::process`. -/
def process (engine : MatchingEngine) (c : Message) : Except Fault Turn :=
  if c.kind ≠ .command ∨ c.action = .snapshot then
    .ok (Turn.reject ⟨engine, {}⟩ c .invalidCommand)
  else if c.action = .status then
    .ok (Turn.report ⟨engine, {}⟩
      { c with requestId := engine.lastRequest c.clientId } .status)
  else if c.clientId = 0 ∨ c.requestId = 0 then
    .ok ((Turn.reject ⟨engine, {}⟩ c .invalidCommand).report c .complete)
  else
    let engine := engine.openClient c.clientId
    let state := engine.clientState c.clientId
    if c.requestId = state.lastRequest ∧ c = state.lastCommand then
      .ok ⟨engine, { reports := state.cached }⟩
    else if c.requestId ≤ state.lastRequest ∨
        c.requestId - state.lastRequest ≠ 1 then
      .ok ((Turn.reject ⟨engine, {}⟩ c .sequence).report c .complete)
    else do
      let counted :=
        { engine with
          stats :=
            { engine.stats with commands := engine.stats.commands + 1 } }
      let turn ← Turn.dispatch ⟨counted, {}⟩ c
      let turn ← turn.complete c
      return turn.remember c

/-- The first and, with its kind changed, the last row of a snapshot. -/
def envelope (engine : MatchingEngine) : Message :=
  { kind := .snapshotBegin
    epoch := engine.epoch
    sequence := engine.sequence
    quantity := engine.resting.size % 2 ^ 32 }

/-- The row of one order. -/
def orderRow (epoch : Nat) (sequence : Sequence) (instrument : InstrumentId)
    (order : OrderView) : Message :=
  { kind := .snapshotOrder
    epoch := epoch
    sequence := sequence
    instrumentId := instrument
    exchangeId := order.orderId
    side := order.side
    price := order.price
    quantity := order.quantity }

/-- The rows of one book. -/
def bookRows (epoch : Nat) (sequence : Sequence)
    (entry : InstrumentId × OrderBook) : List Message :=
  entry.2.snapshot.flatMap fun level =>
    level.orders.map (orderRow epoch sequence entry.1)

/-- `MatchingEngine::snapshot`. -/
def snapshot (engine : MatchingEngine) : List Message :=
  [engine.envelope] ++
    engine.books.entries.flatMap (bookRows engine.epoch engine.sequence) ++
    [{ engine.envelope with kind := .snapshotEnd }]

/-! ## The runtime checker -/

/-- The check of one order against its owner metadata. -/
def checkOrder (engine : MatchingEngine) (instrument : InstrumentId)
    (order : OrderView) : Except String Unit :=
  match engine.resting.find? order.orderId with
  | none => .error "Missing owner metadata"
  | some m =>
      if m.instrumentId ≠ instrument ∨ m.side ≠ order.side ∨
          m.price ≠ order.price ∨ m.quantity ≠ order.quantity then
        .error "Book/owner mismatch"
      else if engine.byClient.find? (m.clientId, m.orderId) ≠
          some order.orderId then
        .error "Client index mismatch"
      else
        .ok ()

/-- Best prices that meet or cross. -/
def Crossed (book : OrderBook) : Prop :=
  ∃ bid ∈ book.bestBid, ∃ ask ∈ book.bestAsk, ask ≤ bid

instance (book : OrderBook) : Decidable (Crossed book) :=
  inferInstanceAs (Decidable (∃ _ ∈ _, _))

/-- The check of one book; `count` is the number of orders seen before. -/
def checkBook (engine : MatchingEngine) (count : Nat)
    (entry : InstrumentId × OrderBook) : Except String Nat := do
  entry.2.checkInvariants
  if Crossed entry.2 then
    .error "Crossed book"
  else
    entry.2.snapshot.forM fun level =>
      level.orders.forM (checkOrder engine entry.1)
    return count + entry.2.orderCount

/--
The sum of the quantities of all clients on one instrument.  The source adds up
in an `int64`, which may wrap on the way but finds a sum of zero to be zero.
-/
def netQuantity (engine : MatchingEngine) (instrument : InstrumentId) : Int :=
  engine.positions.total fun key position =>
    if key.2 = instrument then position.quantity else 0

/--
The sum of the cash of all clients on one instrument.  It is exact, where the
source adds up in a `long double` and rounds what is not below `2 ^ 64`.
-/
def netCash (engine : MatchingEngine) (instrument : InstrumentId) : Int :=
  engine.positions.total fun key position =>
    if key.2 = instrument then position.cash else 0

/-- `MatchingEngine::validate_invariants` with the reason it reports. -/
def checkInvariants (engine : MatchingEngine) : Except String Unit := do
  let count ← engine.books.entries.foldlM (checkBook engine) 0
  if count ≠ engine.resting.size ∨ count ≠ engine.byClient.size then
    .error "Order counts mismatch"
  else if ∃ key ∈ engine.positions.keys,
      engine.netQuantity key.2 ≠ 0 ∨ engine.netCash key.2 ≠ 0 then
    .error "Position/cash conservation"
  else
    .ok ()

/-- `MatchingEngine::validate_invariants`. -/
def validateInvariants (engine : MatchingEngine) : Bool :=
  (checkInvariants engine).isOk

end MatchingEngine

end LimitOrderBook
