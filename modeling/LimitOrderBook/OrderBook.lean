import LimitOrderBook.OrderedMap
import LimitOrderBook.Messages
import LimitOrderBook.FixedSlotPool

namespace LimitOrderBook

/-!
# The order book

The model of `core/order_book.hpp` and `core/order_book.cpp`: two level maps
in priority order, a first-in-first-out queue and a running total per level,
and an index from order ids to queue nodes.  A queue node carries the address
its pool slot has; that address is what a list iterator denotes.

The bodies that the source shares between its two sides as generic lambdas act
here on a `Shelf`: one level map together with the pool and the index.
-/

structure QueueNode where
  handle : Nat
  orderId : OrderId
  remainingQuantity : Quantity
  deriving DecidableEq

structure PriceLevel where
  orders : List QueueNode := []
  aggregateQuantity : UInt64 := 0
  deriving DecidableEq

structure OrderLocation where
  side : Side
  price : Price
  iterator : Nat
  deriving DecidableEq

abbrev BidLevels := OrderedMap Price PriceLevel (· > ·)
abbrev AskLevels := OrderedMap Price PriceLevel (· < ·)
abbrev OrderIndex := OrderedMap OrderId OrderLocation (· < ·)

/-- A moved-from book owns no pool. -/
structure OrderBook where
  pool : Option FixedSlotPool
  bids : BidLevels := .empty
  asks : AskLevels := .empty
  ordersById : OrderIndex := .empty
  deriving DecidableEq

structure OrderView where
  orderId : OrderId
  side : Side
  price : Price
  quantity : Quantity
  deriving DecidableEq

structure LevelView where
  side : Side
  price : Price
  quantity : UInt64
  orders : List OrderView
  deriving DecidableEq

/-- Which heap requests of one insertion are granted. -/
structure HeapGrants where
  levelNode : Bool := true
  poolMetadata : Bool := true
  indexNode : Bool := true

/-- A list node holds two links, the order id and the padded quantity. -/
def nodeBytes : Nat := 32

def nodeAlignment : Nat := 8

/-- `CAPACITY_BYTES`: the default pool of a book. -/
def capacityBytes : Nat := 16 * 1024

namespace PriceLevel

/-- Dereference a queue iterator. -/
def remainingAt (level : PriceLevel) (iterator : Nat) : Quantity :=
  ((level.orders.find? fun node => decide (node.handle = iterator)).map
    QueueNode.remainingQuantity).getD 0

/-- Unlink a queue node. -/
def eraseNode (level : PriceLevel) (iterator : Nat) : List QueueNode :=
  level.orders.filter fun node => decide (node.handle ≠ iterator)

/-- Write the remaining quantity of a queue node. -/
def setRemaining (level : PriceLevel) (iterator : Nat) (quantity : Quantity) :
    List QueueNode :=
  level.orders.map fun node =>
    if node.handle = iterator then
      { node with remainingQuantity := quantity }
    else
      node

end PriceLevel

/-- One side's levels with the pool and the index they share. -/
structure Shelf (lt : Price → Price → Prop) where
  levels : OrderedMap Price PriceLevel lt
  pool : FixedSlotPool
  index : OrderIndex

namespace Shelf

variable {lt : Price → Price → Prop} [DecidableRel lt]
  [IsStrictTotalOrder Price lt]

/-- `try_emplace` of an empty level; the flag says whether it was created. -/
def tryEmplaceLevel
    (levels : OrderedMap Price PriceLevel lt) (price : Price) :
    OrderedMap Price PriceLevel lt × PriceLevel × Bool :=
  match levels.find? price with
  | some level => (levels, level, false)
  | none => (levels.insert price {}, {}, true)

/-- Erase a level that this call created. -/
def rollbackLevel
    (levels : OrderedMap Price PriceLevel lt) (price : Price)
    (created : Bool) : OrderedMap Price PriceLevel lt :=
  if created then levels.erase price else levels

/-- The lambda `add_to` of `OrderBook::apply(AddOrder)`. -/
def addTo (shelf : Shelf lt) (heap : HeapGrants) (event : AddOrder) :
    Shelf lt × ApplyResult :=
  if shelf.levels.find? event.price = none ∧ heap.levelNode = false then
    (shelf, .allocationFailed)
  else
    let (levels, level, created) := tryEmplaceLevel shelf.levels event.price
    match shelf.pool.allocate heap.poolMetadata nodeBytes nodeAlignment with
    | (pool, .address handle) =>
        let undone : Shelf lt :=
          { levels := rollbackLevel levels event.price created
            pool := pool.deallocate handle nodeBytes
            index := shelf.index }
        if shelf.index.contains event.orderId then
          (undone, .duplicateOrder)
        else if heap.indexNode = false then
          (undone, .allocationFailed)
        else
          let node : QueueNode := ⟨handle, event.orderId, event.quantity⟩
          ({ levels := levels.insert event.price
                { orders := level.orders ++ [node]
                  aggregateQuantity :=
                    level.aggregateQuantity + UInt64.ofNat event.quantity }
             pool := pool
             index := shelf.index.insert event.orderId
                ⟨event.side, event.price, handle⟩ },
            .ok)
    | (pool, _) =>
        ({ shelf with
            levels := rollbackLevel levels event.price created
            pool := pool },
          .allocationFailed)

/-- Unlink a node and drop its level when that was the last one. -/
def unlink
    (shelf : Shelf lt) (orderId : OrderId) (location : OrderLocation)
    (level : PriceLevel) (taken : Quantity) : Shelf lt where
  levels :=
    if (level.eraseNode location.iterator).isEmpty then
      shelf.levels.erase location.price
    else
      shelf.levels.insert location.price
        { orders := level.eraseNode location.iterator
          aggregateQuantity :=
            level.aggregateQuantity - UInt64.ofNat taken }
  pool := shelf.pool.deallocate location.iterator nodeBytes
  index := shelf.index.erase orderId

/-- The cancellation of an indexed order on its own side. -/
def cancelFrom
    (shelf : Shelf lt) (orderId : OrderId) (location : OrderLocation) :
    Shelf lt × ApplyResult :=
  match shelf.levels.find? location.price with
  | none => (shelf, .unknownOrder)
  | some level =>
      (shelf.unlink orderId location level
        (level.remainingAt location.iterator), .ok)

/-- The execution of an indexed order on its own side. -/
def executeOn
    (shelf : Shelf lt) (orderId : OrderId) (location : OrderLocation)
    (quantity : Quantity) : Shelf lt × ApplyResult :=
  match shelf.levels.find? location.price with
  | none => (shelf, .unknownOrder)
  | some level =>
      let left := level.remainingAt location.iterator - quantity
      if left = 0 then
        (shelf.unlink orderId location level quantity, .ok)
      else
        ({ shelf with
            levels := shelf.levels.insert location.price
              { orders := level.setRemaining location.iterator left
                aggregateQuantity :=
                  level.aggregateQuantity - UInt64.ofNat quantity } },
          .ok)

/-- The lambda `adjust` of `OrderBook::replace`. -/
def adjust (shelf : Shelf lt) (old : OrderLocation) (quantity : Quantity) :
    Shelf lt × ApplyResult :=
  -- The level of an indexed order exists, so the default is never read.
  let level := (shelf.levels.find? old.price).getD {}
  ({ shelf with
      levels := shelf.levels.insert old.price
        { orders := level.setRemaining old.iterator quantity
          aggregateQuantity :=
            level.aggregateQuantity -
                UInt64.ofNat (level.remainingAt old.iterator) +
              UInt64.ofNat quantity } },
    .ok)

/-- What `move_to` does once everything it allocates is there. -/
def commitMove
    (levels : OrderedMap Price PriceLevel lt) (level : PriceLevel)
    (handle : Nat) (old : OrderLocation) (next : AddOrder) :
    OrderedMap Price PriceLevel lt :=
  let node : QueueNode := ⟨handle, next.orderId, next.quantity⟩
  let linked := levels.insert next.price
    { level with orders := level.orders ++ [node] }
  let previous := (linked.find? old.price).getD {}
  let unlinked := linked.insert old.price
    { orders := previous.eraseNode old.iterator
      aggregateQuantity :=
        previous.aggregateQuantity -
          UInt64.ofNat (previous.remainingAt old.iterator) }
  let counted := unlinked.modify next.price fun grown =>
    { grown with
      aggregateQuantity :=
        grown.aggregateQuantity + UInt64.ofNat next.quantity }
  if (previous.eraseNode old.iterator).isEmpty then
    counted.erase old.price
  else
    counted

/-- The lambda `move_to` of `OrderBook::replace`. -/
def moveTo
    (shelf : Shelf lt) (heap : HeapGrants) (oldId : OrderId)
    (old : OrderLocation) (next : AddOrder) : Shelf lt × ApplyResult :=
  if shelf.levels.find? next.price = none ∧ heap.levelNode = false then
    (shelf, .allocationFailed)
  else
    let (levels, level, created) := tryEmplaceLevel shelf.levels next.price
    match shelf.pool.allocate heap.poolMetadata nodeBytes nodeAlignment with
    | (pool, .address handle) =>
        let location : OrderLocation := ⟨next.side, next.price, handle⟩
        if next.orderId ≠ oldId ∧ heap.indexNode = false then
          ({ levels := rollbackLevel levels next.price created
             pool := pool.deallocate handle nodeBytes
             index := shelf.index },
            .allocationFailed)
        else
          ({ levels := commitMove levels level handle old next
             pool := pool.deallocate old.iterator nodeBytes
             index :=
              if next.orderId = oldId then
                shelf.index.insert oldId location
              else
                (shelf.index.emplace next.orderId location).erase oldId },
            .ok)
    | (pool, _) =>
        ({ shelf with
            levels := rollbackLevel levels next.price created
            pool := pool },
          .allocationFailed)

end Shelf

namespace OrderBook

/-- `OrderBook(pool_bytes)` with the address of the pool's storage. -/
def ofPool (storage poolBytes : Nat) : OrderBook where
  pool := some { storage := storage, capacityBytes := poolBytes }

/-- Put back what a side's operation left behind. -/
def withBids (book : OrderBook) (shelf : Shelf (· > ·)) : OrderBook :=
  { book with
    bids := shelf.levels
    pool := some shelf.pool
    ordersById := shelf.index }

/-- Put back what a side's operation left behind. -/
def withAsks (book : OrderBook) (shelf : Shelf (· < ·)) : OrderBook :=
  { book with
    asks := shelf.levels
    pool := some shelf.pool
    ordersById := shelf.index }

/-- Run one of the side-generic bodies on the chosen side. -/
def onSide
    (book : OrderBook) (pool : FixedSlotPool) (side : Side)
    (onBids : Shelf (· > ·) → Shelf (· > ·) × ApplyResult)
    (onAsks : Shelf (· < ·) → Shelf (· < ·) × ApplyResult)
    (otherwise : ApplyResult) : OrderBook × ApplyResult :=
  match side with
  | .bid =>
      let (shelf, result) := onBids ⟨book.bids, pool, book.ordersById⟩
      (book.withBids shelf, result)
  | .ask =>
      let (shelf, result) := onAsks ⟨book.asks, pool, book.ordersById⟩
      (book.withAsks shelf, result)
  | .unlisted _ _ => (book, otherwise)

/-- `OrderBook::apply(AddOrder)`. -/
def applyAdd (book : OrderBook) (heap : HeapGrants) (event : AddOrder) :
    OrderBook × ApplyResult :=
  if event.quantity = 0 then
    (book, .invalidQuantity)
  else if event.price = 0 then
    (book, .invalidPrice)
  else if book.ordersById.contains event.orderId then
    (book, .duplicateOrder)
  else if ¬ event.side.Listed then
    (book, .unknownOrder)
  else
    match book.pool with
    | none => (book, .allocationFailed)
    | some pool =>
        book.onSide pool event.side
          (Shelf.addTo · heap event) (Shelf.addTo · heap event) .unknownOrder

/-- `OrderBook::apply(CancelOrder)`. -/
def applyCancel (book : OrderBook) (event : CancelOrder) :
    OrderBook × ApplyResult :=
  match book.ordersById.find? event.orderId, book.pool with
  | some location, some pool =>
      book.onSide pool location.side
        (Shelf.cancelFrom · event.orderId location)
        (Shelf.cancelFrom · event.orderId location) .notImplemented
  | _, _ => (book, .unknownOrder)

/-- The queue node an index entry points at. -/
def remainingAt (book : OrderBook) (location : OrderLocation) : Quantity :=
  let level :=
    match location.side with
    | .bid => book.bids.find? location.price
    | .ask => book.asks.find? location.price
    | .unlisted _ _ => none
  (level.map (PriceLevel.remainingAt · location.iterator)).getD 0

/-- `OrderBook::apply(ExecuteOrder)`. -/
def applyExecute (book : OrderBook) (event : ExecuteOrder) :
    OrderBook × ApplyResult :=
  match book.ordersById.find? event.orderId, book.pool with
  | some location, some pool =>
      if event.quantity = 0 then
        (book, .invalidQuantity)
      else if book.remainingAt location < event.quantity then
        (book, .quantityExceedsRemaining)
      else
        book.onSide pool location.side
          (Shelf.executeOn · event.orderId location event.quantity)
          (Shelf.executeOn · event.orderId location event.quantity)
          .notImplemented
  | _, _ => (book, .unknownOrder)

/-- `OrderBook::replace`. -/
def replace
    (book : OrderBook) (heap : HeapGrants) (oldId : OrderId) (next : AddOrder)
    (maintainPriority : Bool) : OrderBook × ApplyResult :=
  match book.ordersById.find? oldId, book.pool with
  | some old, some pool =>
      -- Both lambdas take every side but `Bid` to the asks.
      let side : Side := if old.side = .bid then .bid else .ask
      if next.quantity = 0 then
        (book, .invalidQuantity)
      else if next.price = 0 then
        (book, .invalidPrice)
      else if next.side ≠ old.side then
        (book, .unknownOrder)
      else if next.orderId ≠ oldId ∧
          book.ordersById.contains next.orderId then
        (book, .duplicateOrder)
      else if maintainPriority then
        if next.price ≠ old.price ∨ next.orderId ≠ oldId then
          (book, .invalidPrice)
        else
          book.onSide pool side
            (Shelf.adjust · old next.quantity)
            (Shelf.adjust · old next.quantity) .ok
      else
        book.onSide pool side
          (Shelf.moveTo · heap oldId old next)
          (Shelf.moveTo · heap oldId old next) .ok
  | _, _ => (book, .unknownOrder)

/-- Return every node of a queue to the pool. -/
def releaseAll (pool : FixedSlotPool) (nodes : List QueueNode) :
    FixedSlotPool :=
  nodes.foldl (fun pool node => pool.deallocate node.handle nodeBytes) pool

/-- The queue nodes of a level map in the order of its iteration. -/
def shelfQueue {lt : Price → Price → Prop}
    (levels : OrderedMap Price PriceLevel lt) : List QueueNode :=
  levels.entries.flatMap fun entry => entry.2.orders

/-- `OrderBook::reset`: clearing a level map destroys its queues. -/
def reset (book : OrderBook) : OrderBook where
  pool := book.pool.map fun pool =>
    releaseAll (releaseAll pool (shelfQueue book.bids)) (shelfQueue book.asks)

/-- `OrderBook::best_quantity`. -/
def bestQuantity (book : OrderBook) : Side → UInt64
  | .bid => (book.bids.entries.head?.map fun entry =>
      entry.2.aggregateQuantity).getD 0
  | .ask => (book.asks.entries.head?.map fun entry =>
      entry.2.aggregateQuantity).getD 0
  | .unlisted _ _ => 0

def bestBid (book : OrderBook) : Option Price :=
  book.bids.entries.head?.map Prod.fst

def bestAsk (book : OrderBook) : Option Price :=
  book.asks.entries.head?.map Prod.fst

def remainingQuantity (book : OrderBook) (orderId : OrderId) :
    Option Quantity :=
  (book.ordersById.find? orderId).map book.remainingAt

def orderCount (book : OrderBook) : Nat :=
  book.ordersById.size

/-- `OrderBook::order`. -/
def order (book : OrderBook) (orderId : OrderId) : Option OrderView :=
  (book.ordersById.find? orderId).map fun location =>
    ⟨orderId, location.side, location.price, book.remainingAt location⟩

/-- The order at the head of the best queue. -/
def frontId {lt : Price → Price → Prop}
    (levels : OrderedMap Price PriceLevel lt) : Option OrderId :=
  levels.entries.head?.bind fun entry =>
    entry.2.orders.head?.map QueueNode.orderId

/-- `OrderBook::front`. -/
def front (book : OrderBook) : Side → Option OrderView
  | .bid => (frontId book.bids).bind book.order
  | .ask => (frontId book.asks).bind book.order
  | .unlisted _ _ => none

def bidLevelCount (book : OrderBook) : Nat :=
  book.bids.size

def askLevelCount (book : OrderBook) : Nat :=
  book.asks.size

/-- The orders of one level as views, first in first. -/
def levelOrders (side : Side) (price : Price) (level : PriceLevel) :
    List OrderView :=
  level.orders.map fun node =>
    ⟨node.orderId, side, price, node.remainingQuantity⟩

/-- All orders of one level map in the order of its iteration. -/
def shelfOrders {lt : Price → Price → Prop} (side : Side)
    (levels : OrderedMap Price PriceLevel lt) : List OrderView :=
  levels.entries.flatMap fun entry => levelOrders side entry.1 entry.2

/-- The orders `for_each_order` visits on a side, in price-time order. -/
def sideOrders (book : OrderBook) : Side → List OrderView
  | .bid => shelfOrders .bid book.bids
  | .ask => shelfOrders .ask book.asks
  | .unlisted _ _ => []

/-- Visit a list until the visitor answers `false`. -/
def visitWhile {σ ε ω : Type} (visitor : σ → ω → Except ε (σ × Bool)) :
    σ → List ω → Except ε σ
  | state, [] => .ok state
  | state, order :: rest => do
      let (next, more) ← visitor state order
      if more then visitWhile visitor next rest else .ok next

/-- `OrderBook::for_each_order`, threading the state the visitor captures. -/
def forEachOrder {σ ε : Type} (book : OrderBook) (side : Side)
    (visitor : σ → OrderView → Except ε (σ × Bool)) (state : σ) :
    Except ε σ :=
  visitWhile visitor state (book.sideOrders side)

/-- The level views of one level map. -/
def shelfLevels {lt : Price → Price → Prop} (side : Side)
    (levels : OrderedMap Price PriceLevel lt) : List LevelView :=
  levels.entries.map fun entry =>
    ⟨side, entry.1, entry.2.aggregateQuantity,
      levelOrders side entry.1 entry.2⟩

/-- `OrderBook::snapshot`. -/
def snapshot (book : OrderBook) : List LevelView :=
  shelfLevels .bid book.bids ++ shelfLevels .ask book.asks

/-! ## The runtime checker -/

/-- `to_string(Side)`. -/
def sideName (side : Side) : String :=
  if side = .bid then "bid" else "ask"

/-- The variables the checker's loops share. -/
structure Audit where
  seenOrderIds : List OrderId := []
  levelOrderCount : Nat := 0
  expectedBest : Option Price := none

/-- One iteration of the checker over a queue; `computed` is the running sum. -/
def validateOrder
    (book : OrderBook) (expectedSide : Side) (price : Price)
    (state : Audit × Nat) (node : QueueNode) :
    Except String (Audit × Nat) :=
  let (audit, computed) := state
  let name := "order " ++ toString node.orderId
  if node.remainingQuantity = 0 then
    .error (name ++ " has zero remaining quantity")
  else if node.orderId ∈ audit.seenOrderIds then
    .error (name ++ " appears in more than one price level")
  else if 2 ^ 64 - 1 - node.remainingQuantity < computed then
    .error (sideName expectedSide ++ " level " ++ toString price ++
      " aggregate quantity overflows")
  else
    match book.ordersById.find? node.orderId with
    | none =>
        .error (name ++
          " exists in a price level but not in the order index")
    | some location =>
        if location.side ≠ expectedSide then
          .error (name ++ " has the wrong side in the order index")
        else if location.price ≠ price then
          .error (name ++ " has the wrong price in the order index")
        else if location.iterator ≠ node.handle then
          .error (name ++ " has the wrong queue iterator in the order index")
        else
          .ok
            ({ audit with
                seenOrderIds := node.orderId :: audit.seenOrderIds
                levelOrderCount := audit.levelOrderCount + 1 },
              computed + node.remainingQuantity)

/-- Whether a level price improves on the best one seen so far. -/
def improves (expectedSide : Side) (price : Price) : Option Price → Bool
  | none => true
  | some best =>
      if expectedSide = .bid then decide (best < price)
      else decide (price < best)

/-- One iteration of the checker over a level map. -/
def validateLevel
    (book : OrderBook) (expectedSide : Side) (audit : Audit)
    (entry : Price × PriceLevel) : Except String Audit :=
  let name := sideName expectedSide ++ " level "
  if entry.1 = 0 then
    .error (name ++ "has an invalid zero price")
  else if entry.2.orders.isEmpty then
    .error (name ++ toString entry.1 ++ " is empty")
  else do
    let best :=
      if improves expectedSide entry.1 audit.expectedBest then
        some entry.1
      else
        audit.expectedBest
    let (audited, computed) ←
      entry.2.orders.foldlM (validateOrder book expectedSide entry.1)
        ({ audit with expectedBest := best }, 0)
    if UInt64.ofNat computed ≠ entry.2.aggregateQuantity then
      .error (name ++ toString entry.1 ++
        " aggregate quantity mismatch: stored=" ++
        toString entry.2.aggregateQuantity ++ ", computed=" ++
        toString computed)
    else
      .ok audited

/-- The lambda `validate_levels`. -/
def validateLevels {lt : Price → Price → Prop}
    (book : OrderBook) (expectedSide : Side)
    (levels : OrderedMap Price PriceLevel lt) (audit : Audit) :
    Except String Audit :=
  levels.entries.foldlM (validateLevel book expectedSide)
    { audit with expectedBest := none }

/-- `OrderBook::validate_invariants` with the reason it reports. -/
def checkInvariants (book : OrderBook) : Except String Unit := do
  let bidAudit ← validateLevels book .bid book.bids {}
  let askAudit ← validateLevels book .ask book.asks bidAudit
  match book.ordersById.keys.find?
      fun orderId => decide (orderId ∉ askAudit.seenOrderIds) with
  | some orderId =>
      .error ("order " ++ toString orderId ++
        " exists in the order index but not in a price level")
  | none =>
      if askAudit.levelOrderCount ≠ book.ordersById.size then
        .error ("order count mismatch: levels=" ++
          toString askAudit.levelOrderCount ++ ", index=" ++
          toString book.ordersById.size)
      else if book.bestBid ≠ bidAudit.expectedBest then
        .error "best bid does not match the highest live bid level"
      else if book.bestAsk ≠ askAudit.expectedBest then
        .error "best ask does not match the lowest live ask level"
      else
        .ok ()

/-- `OrderBook::validate_invariants`. -/
def validateInvariants (book : OrderBook) : Bool :=
  (checkInvariants book).isOk

end OrderBook

end LimitOrderBook
