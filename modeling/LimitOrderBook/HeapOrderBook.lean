import LimitOrderBook.OrderBookRegistry
import LimitOrderBook.RenamedMaps
import Mathlib.Data.List.Find

namespace LimitOrderBook

/-!
# The heap reference of the order book

The model of `benchmarks/support/heap_order_book.cpp`, the book as it was
before its queue nodes came from a pool.  The heap never fails, so every new
list node gets an address that no node had before; that address is what a list
iterator denotes.

The pooled book reuses its addresses and the heap does not.  The bodies of both
books are compared on one side whose nodes are renamed, and what a side holds
after an operation is bounded by what it held before.
-/

/-- One side's levels of the reference with the index and the heap. -/
structure HeapShelf (lt : Price → Price → Prop) where
  levels : OrderedMap Price PriceLevel lt
  index : OrderIndex
  nextNode : Nat

namespace HeapShelf

variable {lt : Price → Price → Prop} [DecidableRel lt]
  [IsStrictTotalOrder Price lt]

/-- Count, enqueue and index a new order on its level. -/
def enqueue (shelf : HeapShelf lt) (event : AddOrder) (level : PriceLevel) :
    HeapShelf lt where
  levels := shelf.levels.insert event.price
    { aggregateQuantity :=
        level.aggregateQuantity + UInt64.ofNat event.quantity
      orders := level.orders ++
        [⟨shelf.nextNode, event.orderId, event.quantity⟩] }
  index := shelf.index.insert event.orderId
    ⟨event.side, event.price, shelf.nextNode⟩
  nextNode := shelf.nextNode + 1

/-- The two branches of `HeapOrderBook::apply(AddOrder)` on a side. -/
def addTo (shelf : HeapShelf lt) (event : AddOrder) :
    HeapShelf lt × ApplyResult :=
  match shelf.levels.find? event.price with
  | some level => (shelf.enqueue event level, .ok)
  | none =>
      let created := { shelf with levels := shelf.levels.insert event.price {} }
      (created.enqueue event {}, .ok)

/-- Erase a node, its level when it was the last one, and its index entry. -/
def unlink
    (shelf : HeapShelf lt) (orderId : OrderId) (location : OrderLocation)
    (level : PriceLevel) (taken : Quantity) : HeapShelf lt where
  levels :=
    if (level.eraseNode location.iterator).isEmpty then
      shelf.levels.erase location.price
    else
      shelf.levels.insert location.price
        { orders := level.eraseNode location.iterator
          aggregateQuantity :=
            level.aggregateQuantity - UInt64.ofNat taken }
  index := shelf.index.erase orderId
  nextNode := shelf.nextNode

/-- The branches of `HeapOrderBook::apply(CancelOrder)` on a side. -/
def cancelFrom
    (shelf : HeapShelf lt) (orderId : OrderId) (location : OrderLocation) :
    HeapShelf lt × ApplyResult :=
  match shelf.levels.find? location.price with
  | none => (shelf, .unknownOrder)
  | some level =>
      (shelf.unlink orderId location level
        (level.remainingAt location.iterator), .ok)

/-- The branches of `HeapOrderBook::apply(ExecuteOrder)` on a side. -/
def executeOn
    (shelf : HeapShelf lt) (orderId : OrderId) (location : OrderLocation)
    (quantity : Quantity) : HeapShelf lt × ApplyResult :=
  match shelf.levels.find? location.price with
  | none => (shelf, .unknownOrder)
  | some level =>
      let left := level.remainingAt location.iterator - quantity
      if left = 0 then
        (shelf.unlink orderId location level quantity, .ok)
      else
        ({ shelf with
            levels := shelf.levels.insert location.price
              { orders := level.setRemaining location.iterator left
                aggregateQuantity :=
                  level.aggregateQuantity - UInt64.ofNat quantity } },
          .ok)

end HeapShelf

/-- The address that the heap gives next is above all that it gave before. -/
structure HeapOrderBook where
  bids : BidLevels := .empty
  asks : AskLevels := .empty
  ordersById : OrderIndex := .empty
  nextNode : Nat := 0
  deriving DecidableEq

namespace HeapOrderBook

/-- Run one of the side-generic bodies on the chosen side. -/
def onSide
    (book : HeapOrderBook) (side : Side)
    (onBids : HeapShelf (· > ·) → HeapShelf (· > ·) × ApplyResult)
    (onAsks : HeapShelf (· < ·) → HeapShelf (· < ·) × ApplyResult)
    (otherwise : ApplyResult) : HeapOrderBook × ApplyResult :=
  match side with
  | .bid =>
      let (shelf, result) := onBids ⟨book.bids, book.ordersById, book.nextNode⟩
      (⟨shelf.levels, book.asks, shelf.index, shelf.nextNode⟩, result)
  | .ask =>
      let (shelf, result) := onAsks ⟨book.asks, book.ordersById, book.nextNode⟩
      (⟨book.bids, shelf.levels, shelf.index, shelf.nextNode⟩, result)
  | .unlisted _ _ => (book, otherwise)

/-- `HeapOrderBook::apply(AddOrder)`. -/
def applyAdd (book : HeapOrderBook) (event : AddOrder) :
    HeapOrderBook × ApplyResult :=
  if event.quantity = 0 then
    (book, .invalidQuantity)
  else if event.price = 0 then
    (book, .invalidPrice)
  else if book.ordersById.contains event.orderId then
    (book, .duplicateOrder)
  else
    book.onSide event.side (HeapShelf.addTo · event) (HeapShelf.addTo · event)
      .unknownOrder

/-- `HeapOrderBook::apply(CancelOrder)`. -/
def applyCancel (book : HeapOrderBook) (event : CancelOrder) :
    HeapOrderBook × ApplyResult :=
  match book.ordersById.find? event.orderId with
  | none => (book, .unknownOrder)
  | some location =>
      book.onSide location.side
        (HeapShelf.cancelFrom · event.orderId location)
        (HeapShelf.cancelFrom · event.orderId location) .notImplemented

/-- The queue node an index entry points at. -/
def remainingAt (book : HeapOrderBook) (location : OrderLocation) : Quantity :=
  let level :=
    match location.side with
    | .bid => book.bids.find? location.price
    | .ask => book.asks.find? location.price
    | .unlisted _ _ => none
  (level.map (PriceLevel.remainingAt · location.iterator)).getD 0

/-- `HeapOrderBook::apply(ExecuteOrder)`. -/
def applyExecute (book : HeapOrderBook) (event : ExecuteOrder) :
    HeapOrderBook × ApplyResult :=
  match book.ordersById.find? event.orderId with
  | none => (book, .unknownOrder)
  | some location =>
      if event.quantity = 0 then
        (book, .invalidQuantity)
      else if book.remainingAt location < event.quantity then
        (book, .quantityExceedsRemaining)
      else
        book.onSide location.side
          (HeapShelf.executeOn · event.orderId location event.quantity)
          (HeapShelf.executeOn · event.orderId location event.quantity)
          .notImplemented

/-- `HeapOrderBook::apply(EventPayload)`. -/
def apply (book : HeapOrderBook) : EventPayload → HeapOrderBook × ApplyResult
  | .add event => book.applyAdd event
  | .cancel event => book.applyCancel event
  | .execute event => book.applyExecute event

def bestBid (book : HeapOrderBook) : Option Price :=
  book.bids.entries.head?.map Prod.fst

def bestAsk (book : HeapOrderBook) : Option Price :=
  book.asks.entries.head?.map Prod.fst

def remainingQuantity (book : HeapOrderBook) (orderId : OrderId) :
    Option Quantity :=
  (book.ordersById.find? orderId).map book.remainingAt

def orderCount (book : HeapOrderBook) : Nat :=
  book.ordersById.size

def bidLevelCount (book : HeapOrderBook) : Nat :=
  book.bids.size

def askLevelCount (book : HeapOrderBook) : Nat :=
  book.asks.size

/-- `BookInspection::snapshot`: every level with its total and its queue. -/
def snapshot (book : HeapOrderBook) : List LevelView :=
  OrderBook.shelfLevels .bid book.bids ++ OrderBook.shelfLevels .ask book.asks

end HeapOrderBook

/-! ## Renamed addresses -/

/-- A node at another address. -/
def QueueNode.readdress (f : Nat → Nat) (node : QueueNode) : QueueNode :=
  { node with handle := f node.handle }

def PriceLevel.readdress (f : Nat → Nat) (level : PriceLevel) : PriceLevel :=
  { level with orders := level.orders.map (QueueNode.readdress f) }

def OrderLocation.readdress (f : Nat → Nat) (location : OrderLocation) :
    OrderLocation :=
  { location with iterator := f location.iterator }

namespace PriceLevel

variable {f : Nat → Nat} {level : PriceLevel} {iterator : Nat}

/-- No other node of a level gets the address of this one. -/
def Keeps (f : Nat → Nat) (level : PriceLevel) (iterator : Nat) : Prop :=
  ∀ node ∈ level.orders, f node.handle = f iterator → node.handle = iterator

theorem Keeps.iff
    (keeps : level.Keeps f iterator) {node : QueueNode}
    (member : node ∈ level.orders) :
    (node.readdress f).handle = f iterator ↔ node.handle = iterator := by
  constructor
  · exact keeps node member
  · intro same
    exact congrArg f same

theorem Keeps.eraseNode (keeps : level.Keeps f iterator) :
    (level.readdress f).eraseNode (f iterator) =
      (level.eraseNode iterator).map (QueueNode.readdress f) := by
  simp only [PriceLevel.eraseNode, readdress, List.filter_map]
  congr 1
  refine List.filter_congr fun node member => ?_
  simp [keeps.iff member]

theorem Keeps.setRemaining
    (keeps : level.Keeps f iterator) (quantity : Quantity) :
    (level.readdress f).setRemaining (f iterator) quantity =
      (level.setRemaining iterator quantity).map (QueueNode.readdress f) := by
  simp only [PriceLevel.setRemaining, readdress, List.map_map]
  refine List.map_congr_left fun node member => ?_
  simp only [Function.comp_apply, keeps.iff member]
  split_ifs
  · rfl
  · rfl

theorem Keeps.remainingAt (keeps : level.Keeps f iterator) :
    (level.readdress f).remainingAt (f iterator) =
      level.remainingAt iterator := by
  unfold PriceLevel.remainingAt
  have found : (level.readdress f).orders.find?
      (fun node => decide (node.handle = f iterator)) =
        (level.orders.find? fun node =>
          decide (node.handle = iterator)).map (QueueNode.readdress f) := by
    simp only [readdress, List.find?_map]
    congr 1
    refine List.find?_congr fun node member => ?_
    simp only [Function.comp_apply, keeps.iff member]
  rw [found, Option.map_map]
  rfl

end PriceLevel

namespace Shelf

variable {lt : Price → Price → Prop} [DecidableRel lt]
  [IsStrictTotalOrder Price lt] {f : Nat → Nat} {nextNode : Nat}
  {shelf : Shelf lt} {orderId : OrderId} {location : OrderLocation}
  {quantity : Quantity}

/-- The same side with its nodes on the heap. -/
def onHeap (f : Nat → Nat) (nextNode : Nat) (shelf : Shelf lt) :
    HeapShelf lt where
  levels := shelf.levels.mapValues (PriceLevel.readdress f)
  index := shelf.index.mapValues (OrderLocation.readdress f)
  nextNode := nextNode

/-- The iterator of an index entry keeps its node apart from the others. -/
def Keeps (f : Nat → Nat) (shelf : Shelf lt) (location : OrderLocation) :
    Prop :=
  ∀ level, shelf.levels.find? location.price = some level →
    level.Keeps f location.iterator

theorem unlink_onHeap
    {level : PriceLevel} (keeps : level.Keeps f location.iterator)
    (taken : Quantity) :
    (shelf.onHeap f nextNode).unlink orderId (location.readdress f)
        (level.readdress f) taken =
      (shelf.unlink orderId location level taken).onHeap f nextNode := by
  have erased : (level.readdress f).eraseNode (location.readdress f).iterator =
      (level.eraseNode location.iterator).map (QueueNode.readdress f) :=
    keeps.eraseNode
  simp only [HeapShelf.unlink, unlink, onHeap, erased, List.isEmpty_map,
    OrderedMap.mapValues_erase, HeapShelf.mk.injEq, and_true]
  split_ifs
  · rw [OrderedMap.mapValues_erase]
    rfl
  · rw [OrderedMap.mapValues_insert]
    rfl

omit [DecidableRel lt] [IsStrictTotalOrder Price lt] in
theorem find?_onHeap (shelf : Shelf lt) (location : OrderLocation) :
    (shelf.onHeap f nextNode).levels.find? (location.readdress f).price =
      (shelf.levels.find? location.price).map (PriceLevel.readdress f) :=
  OrderedMap.find?_mapValues ..

theorem cancelFrom_onHeap (keeps : shelf.Keeps f location) :
    (shelf.onHeap f nextNode).cancelFrom orderId (location.readdress f) =
      ((shelf.cancelFrom orderId location).1.onHeap f nextNode,
        (shelf.cancelFrom orderId location).2) := by
  unfold HeapShelf.cancelFrom cancelFrom
  rw [find?_onHeap]
  cases found : shelf.levels.find? location.price with
  | none => rfl
  | some level =>
      have taken : (level.readdress f).remainingAt
          (location.readdress f).iterator =
            level.remainingAt location.iterator :=
        (keeps level found).remainingAt
      simp only [Option.map_some, taken, unlink_onHeap (keeps level found)]

theorem executeOn_onHeap (keeps : shelf.Keeps f location) :
    (shelf.onHeap f nextNode).executeOn orderId (location.readdress f)
        quantity =
      ((shelf.executeOn orderId location quantity).1.onHeap f nextNode,
        (shelf.executeOn orderId location quantity).2) := by
  unfold HeapShelf.executeOn executeOn
  rw [find?_onHeap]
  cases found : shelf.levels.find? location.price with
  | none => rfl
  | some level =>
      have taken : (level.readdress f).remainingAt
          (location.readdress f).iterator =
            level.remainingAt location.iterator :=
        (keeps level found).remainingAt
      have written : ∀ left, (level.readdress f).setRemaining
          (location.readdress f).iterator left =
            (level.setRemaining location.iterator left).map
              (QueueNode.readdress f) :=
        (keeps level found).setRemaining
      simp only [Option.map_some, taken, unlink_onHeap (keeps level found),
        written]
      split_ifs
      · rfl
      · simp only [onHeap, OrderedMap.mapValues_insert]
        rfl

omit [DecidableRel lt] in
/-- Levels without a node at an address do not see it renamed. -/
theorem readdress_update
    {levels : OrderedMap Price PriceLevel lt} {handle : Nat}
    (freshNode : ∀ price level, levels.find? price = some level →
      ∀ node ∈ level.orders, node.handle ≠ handle) :
    levels.mapValues
        (PriceLevel.readdress (Function.update f handle nextNode)) =
      levels.mapValues (PriceLevel.readdress f) := by
  refine OrderedMap.mapValues_congr fun price level found => ?_
  simp only [PriceLevel.readdress, PriceLevel.mk.injEq, and_true]
  refine List.map_congr_left fun node member => ?_
  simp [QueueNode.readdress, freshNode price level found node member]

variable (f nextNode shelf) in
/-- A new node gets the next address of the heap. -/
theorem appendNode_onHeap
    {handle : Nat} (event : AddOrder) (pool : FixedSlotPool)
    (freshNode : ∀ price level, shelf.levels.find? price = some level →
      ∀ node ∈ level.orders, node.handle ≠ handle)
    (freshIndex : ∀ id location, shelf.index.find? id = some location →
      location.iterator ≠ handle) :
    (shelf.onHeap f nextNode).addTo event =
      ((Shelf.mk
          (appendNode shelf.levels event.price
            ⟨handle, event.orderId, event.quantity⟩)
          pool
          (shelf.index.insert event.orderId
            ⟨event.side, event.price, handle⟩)).onHeap
        (Function.update f handle nextNode) (nextNode + 1), .ok) := by
  have sameIndex :
      shelf.index.mapValues (OrderLocation.readdress
          (Function.update f handle nextNode)) =
        shelf.index.mapValues (OrderLocation.readdress f) := by
    refine OrderedMap.mapValues_congr fun id location found => ?_
    simp [OrderLocation.readdress, freshIndex id location found]
  have sameQueue :
      (levelAt shelf.levels event.price).orders.map
          (QueueNode.readdress (Function.update f handle nextNode)) =
        (levelAt shelf.levels event.price).orders.map
          (QueueNode.readdress f) := by
    refine List.map_congr_left fun node member => ?_
    unfold levelAt at member
    cases found : shelf.levels.find? event.price with
    | none => simp [found] at member
    | some level =>
        rw [found] at member
        simp [QueueNode.readdress,
          freshNode event.price level found node member]
  have appended :
      (appendNode shelf.levels event.price
          ⟨handle, event.orderId, event.quantity⟩).mapValues
        (PriceLevel.readdress (Function.update f handle nextNode)) =
      (shelf.levels.mapValues (PriceLevel.readdress f)).insert event.price
        { orders :=
            (levelAt shelf.levels event.price).orders.map
                (QueueNode.readdress f) ++
              [⟨nextNode, event.orderId, event.quantity⟩]
          aggregateQuantity :=
            (levelAt shelf.levels event.price).aggregateQuantity +
              UInt64.ofNat event.quantity } := by
    rw [appendNode, OrderedMap.mapValues_insert, readdress_update freshNode]
    simp [PriceLevel.readdress, sameQueue, QueueNode.readdress]
  simp only [onHeap, appended, OrderedMap.mapValues_insert, sameIndex,
    HeapShelf.addTo, OrderedMap.find?_mapValues, levelAt]
  cases found : shelf.levels.find? event.price with
  | none =>
      simp [HeapShelf.enqueue, OrderLocation.readdress]
  | some level =>
      simp [HeapShelf.enqueue, OrderLocation.readdress, PriceLevel.readdress]

/-! ## What a side sheds -/

/-- Every node of a side after an operation was there before. -/
def Sheds (side : Side) (levels next : OrderedMap Price PriceLevel lt) : Prop :=
  ∀ entry ∈ shelfNodes side next,
    ∃ old ∈ shelfNodes side levels, old.node.handle = entry.node.handle

variable {side : Side} {levels : OrderedMap Price PriceLevel lt}

omit [DecidableRel lt] in
theorem sheds_erase (price : Price) : Sheds side levels (levels.erase price) := by
  intro entry member
  obtain ⟨here, level, found, inQueue⟩ := mem_shelfNodes.mp member
  simp only [OrderedMap.find?_erase] at found
  split_ifs at found
  exact ⟨entry, mem_shelfNodes.mpr ⟨here, level, found, inQueue⟩, rfl⟩

theorem sheds_insert
    {price : Price} {level fresh : PriceLevel}
    (found : levels.find? price = some level)
    (sheds : ∀ node ∈ fresh.orders,
      ∃ old ∈ level.orders, old.handle = node.handle) :
    Sheds side levels (levels.insert price fresh) := by
  intro entry member
  obtain ⟨here, stored, storedFound, inQueue⟩ := mem_shelfNodes.mp member
  simp only [OrderedMap.find?_insert] at storedFound
  split_ifs at storedFound with same
  · cases storedFound
    obtain ⟨old, oldMember, sameHandle⟩ := sheds entry.node inQueue
    exact ⟨⟨side, price, old⟩,
      mem_shelfNodes.mpr ⟨rfl, level, found, oldMember⟩, sameHandle⟩
  · exact ⟨entry, mem_shelfNodes.mpr ⟨here, stored, storedFound, inQueue⟩, rfl⟩

theorem unlink_sheds
    {level : PriceLevel} (found : shelf.levels.find? location.price = some level)
    (taken : Quantity) :
    Sheds side shelf.levels (shelf.unlink orderId location level taken).levels := by
  unfold unlink
  dsimp only
  split_ifs
  · exact sheds_erase location.price
  · refine sheds_insert found fun node kept => ?_
    exact ⟨node, List.mem_of_mem_filter kept, rfl⟩

theorem cancelFrom_sheds :
    Sheds side shelf.levels (shelf.cancelFrom orderId location).1.levels := by
  unfold cancelFrom
  cases found : shelf.levels.find? location.price with
  | none => exact fun entry member => ⟨entry, member, rfl⟩
  | some level => exact unlink_sheds found _

theorem executeOn_sheds :
    Sheds side shelf.levels
      (shelf.executeOn orderId location quantity).1.levels := by
  unfold executeOn
  cases found : shelf.levels.find? location.price with
  | none => exact fun entry member => ⟨entry, member, rfl⟩
  | some level =>
      dsimp only
      split_ifs
      · exact unlink_sheds found _
      · refine sheds_insert found fun node written => ?_
        obtain ⟨old, oldMember, rfl⟩ := List.mem_map.mp written
        refine ⟨old, oldMember, ?_⟩
        split_ifs
        · rfl
        · rfl

end Shelf

end LimitOrderBook
