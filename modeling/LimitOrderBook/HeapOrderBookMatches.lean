import LimitOrderBook.HeapOrderBook

namespace LimitOrderBook

/-!
# The pooled book against its heap reference

A book and its reference hold the same nodes up to a renaming of addresses,
which changes with every addition.  `Copies` states that relation; each event
that the pool can store keeps it and is answered alike, and a refused event
leaves the book to the reference that skipped it.
-/


namespace HeapOrderBook

variable {f : Nat → Nat} {book next : OrderBook} {heap : HeapOrderBook}
  {pool : FixedSlotPool}

/-- The reference holds the nodes of the book at other addresses. -/
structure Copies (f : Nat → Nat) (book : OrderBook) (heap : HeapOrderBook) :
    Prop where
  bids : heap.bids = book.bids.mapValues (PriceLevel.readdress f)
  asks : heap.asks = book.asks.mapValues (PriceLevel.readdress f)
  ordersById :
    heap.ordersById = book.ordersById.mapValues (OrderLocation.readdress f)
  apart : ∀ first ∈ book.placed, ∀ second ∈ book.placed,
    f first.node.handle = f second.node.handle →
      first.node.handle = second.node.handle
  below : ∀ entry ∈ book.placed, f entry.node.handle < heap.nextNode

/-- The answer and the next state of the reference are those of the book. -/
def Follows (heap : HeapOrderBook) (event : EventPayload)
    (outcome : OrderBook × ApplyResult) : Prop :=
  (heap.apply event).2 = outcome.2 ∧
    ∃ f, Copies f outcome.1 (heap.apply event).1

/-- A book that was put back has the same copy. -/
theorem Copies.restored
    (copies : Copies f book heap) (restored : book.Restored next) :
    Copies f next heap := by
  have samePlaced : next.placed = book.placed := by
    simp [OrderBook.placed, restored.bids, restored.asks]
  refine ⟨?_, ?_, ?_, ?_, ?_⟩
  · rw [restored.bids]
    exact copies.bids
  · rw [restored.asks]
    exact copies.asks
  · rw [restored.ordersById]
    exact copies.ordersById
  · rw [samePlaced]
    exact copies.apart
  · rw [samePlaced]
    exact copies.below

/-- Fewer nodes at the same addresses. -/
theorem Copies.shed
    {after : HeapOrderBook} (copies : Copies f book heap)
    (sheds : ∀ entry ∈ next.placed,
      ∃ old ∈ book.placed, old.node.handle = entry.node.handle)
    (bids : after.bids = next.bids.mapValues (PriceLevel.readdress f))
    (asks : after.asks = next.asks.mapValues (PriceLevel.readdress f))
    (ordersById : after.ordersById =
      next.ordersById.mapValues (OrderLocation.readdress f))
    (nextNode : after.nextNode = heap.nextNode) : Copies f next after where
  bids := bids
  asks := asks
  ordersById := ordersById
  apart first firstMember second secondMember same := by
    obtain ⟨old, oldMember, oldHandle⟩ := sheds first firstMember
    obtain ⟨other, otherMember, otherHandle⟩ := sheds second secondMember
    rw [← oldHandle, ← otherHandle] at same ⊢
    exact copies.apart old oldMember other otherMember same
  below entry member := by
    obtain ⟨old, oldMember, sameHandle⟩ := sheds entry member
    rw [← sameHandle, nextNode]
    exact copies.below old oldMember

/-- An indexed node keeps its address apart from those of its level. -/
theorem Copies.keeps
    (copies : Copies f book heap) (wf : book.Wf) {orderId : OrderId}
    {location : OrderLocation}
    (found : book.ordersById.find? orderId = some location)
    {price : Price} {level : PriceLevel}
    (stored : book.bids.find? price = some level ∨
      book.asks.find? price = some level) :
    level.Keeps f location.iterator := by
  obtain ⟨entry, entryMember, _, rfl⟩ := (wf.indexed.exact _ _).mp found
  intro node member same
  have placed : ∃ placed ∈ book.placed, placed.node = node := by
    rcases stored with isBid | isAsk
    · exact ⟨⟨.bid, price, node⟩, List.mem_append_left _
        (mem_shelfNodes.mpr ⟨rfl, level, isBid, member⟩), rfl⟩
    · exact ⟨⟨.ask, price, node⟩, List.mem_append_right _
        (mem_shelfNodes.mpr ⟨rfl, level, isAsk, member⟩), rfl⟩
  obtain ⟨placed, placedMember, rfl⟩ := placed
  exact copies.apart placed placedMember entry entryMember same

/-- An operation that only sheds nodes, on the side it belongs to. -/
theorem Copies.onSide
    (copies : Copies f book heap) {side : Side}
    {onBids : Shelf (· > ·) → Shelf (· > ·) × ApplyResult}
    {onAsks : Shelf (· < ·) → Shelf (· < ·) × ApplyResult}
    {heapBids : HeapShelf (· > ·) → HeapShelf (· > ·) × ApplyResult}
    {heapAsks : HeapShelf (· < ·) → HeapShelf (· < ·) × ApplyResult}
    {otherwise : ApplyResult}
    (bids :
      heapBids (Shelf.onHeap f heap.nextNode
          ⟨book.bids, pool, book.ordersById⟩) =
        ((onBids ⟨book.bids, pool, book.ordersById⟩).1.onHeap f heap.nextNode,
          (onBids ⟨book.bids, pool, book.ordersById⟩).2) ∧
      Shelf.Sheds .bid book.bids
        (onBids ⟨book.bids, pool, book.ordersById⟩).1.levels)
    (asks :
      heapAsks (Shelf.onHeap f heap.nextNode
          ⟨book.asks, pool, book.ordersById⟩) =
        ((onAsks ⟨book.asks, pool, book.ordersById⟩).1.onHeap f heap.nextNode,
          (onAsks ⟨book.asks, pool, book.ordersById⟩).2) ∧
      Shelf.Sheds .ask book.asks
        (onAsks ⟨book.asks, pool, book.ordersById⟩).1.levels) :
    (heap.onSide side heapBids heapAsks otherwise).2 =
        (book.onSide pool side onBids onAsks otherwise).2 ∧
      ∃ g, Copies g (book.onSide pool side onBids onAsks otherwise).1
        (heap.onSide side heapBids heapAsks otherwise).1 := by
  cases side with
  | bid =>
      obtain ⟨ran, sheds⟩ := bids
      have start : HeapShelf.mk heap.bids heap.ordersById heap.nextNode =
          Shelf.onHeap f heap.nextNode ⟨book.bids, pool, book.ordersById⟩ := by
        rw [Shelf.onHeap, copies.bids, copies.ordersById]
      simp only [HeapOrderBook.onSide, start, ran]
      refine ⟨rfl, f, copies.shed ?_ rfl copies.asks rfl rfl⟩
      intro entry member
      rcases List.mem_append.mp member with isBid | isAsk
      · obtain ⟨old, oldMember, same⟩ := sheds entry isBid
        exact ⟨old, List.mem_append_left _ oldMember, same⟩
      · exact ⟨entry, List.mem_append_right _ isAsk, rfl⟩
  | ask =>
      obtain ⟨ran, sheds⟩ := asks
      have start : HeapShelf.mk heap.asks heap.ordersById heap.nextNode =
          Shelf.onHeap f heap.nextNode ⟨book.asks, pool, book.ordersById⟩ := by
        rw [Shelf.onHeap, copies.asks, copies.ordersById]
      simp only [HeapOrderBook.onSide, start, ran]
      refine ⟨rfl, f, copies.shed ?_ copies.bids rfl rfl rfl⟩
      intro entry member
      rcases List.mem_append.mp member with isBid | isAsk
      · exact ⟨entry, List.mem_append_left _ isBid, rfl⟩
      · obtain ⟨old, oldMember, same⟩ := sheds entry isAsk
        exact ⟨old, List.mem_append_right _ oldMember, same⟩
  | unlisted raw outside => exact ⟨rfl, f, copies⟩

/-- An id is found at the address of the copy. -/
theorem Copies.find?
    (copies : Copies f book heap) (orderId : OrderId) :
    heap.ordersById.find? orderId =
      (book.ordersById.find? orderId).map (OrderLocation.readdress f) := by
  rw [copies.ordersById, OrderedMap.find?_mapValues]

/-- The copy has the same ids. -/
theorem Copies.contains
    (copies : Copies f book heap) (orderId : OrderId) :
    heap.ordersById.contains orderId = book.ordersById.contains orderId := by
  simp [OrderedMap.contains, copies.find? orderId]

/-- The copy has the same quantities. -/
theorem Copies.remainingAt
    (copies : Copies f book heap) (wf : book.Wf) {orderId : OrderId}
    {location : OrderLocation}
    (found : book.ordersById.find? orderId = some location) :
    heap.remainingAt (location.readdress f) = book.remainingAt location := by
  unfold HeapOrderBook.remainingAt OrderBook.remainingAt
  cases side : location.side with
  | bid =>
      simp only [OrderLocation.readdress, side, copies.bids,
        OrderedMap.find?_mapValues]
      cases stored : book.bids.find? location.price with
      | none => rfl
      | some level =>
          exact (copies.keeps wf found (Or.inl stored)).remainingAt
  | ask =>
      simp only [OrderLocation.readdress, side, copies.asks,
        OrderedMap.find?_mapValues]
      cases stored : book.asks.find? location.price with
      | none => rfl
      | some level =>
          exact (copies.keeps wf found (Or.inr stored)).remainingAt
  | unlisted raw outside => simp [OrderLocation.readdress, side]

/-- A cancellation leads to a copy again. -/
theorem Copies.cancel_follows
    (copies : Copies f book heap) (wf : book.Wf) (event : CancelOrder) :
    heap.Follows (.cancel event) (book.applyCancel event) := by
  obtain ⟨pool, owned, _⟩ := wf.pooled
  simp only [Follows, HeapOrderBook.apply, HeapOrderBook.applyCancel,
    OrderBook.applyCancel, copies.find?, owned]
  cases found : book.ordersById.find? event.orderId with
  | none => exact ⟨rfl, f, copies⟩
  | some location =>
      refine copies.onSide ⟨?_, Shelf.cancelFrom_sheds⟩
        ⟨?_, Shelf.cancelFrom_sheds⟩
      · exact Shelf.cancelFrom_onHeap fun level stored =>
          copies.keeps wf found (Or.inl stored)
      · exact Shelf.cancelFrom_onHeap fun level stored =>
          copies.keeps wf found (Or.inr stored)

/-- So does an execution. -/
theorem Copies.execute_follows
    (copies : Copies f book heap) (wf : book.Wf) (event : ExecuteOrder) :
    heap.Follows (.execute event) (book.applyExecute event) := by
  obtain ⟨pool, owned, _⟩ := wf.pooled
  simp only [Follows, HeapOrderBook.apply, HeapOrderBook.applyExecute,
    OrderBook.applyExecute, copies.find?, owned]
  cases found : book.ordersById.find? event.orderId with
  | none => exact ⟨rfl, f, copies⟩
  | some location =>
      simp only [Option.map_some, copies.remainingAt wf found]
      split_ifs with noQuantity tooMuch
      · exact ⟨rfl, f, copies⟩
      · exact ⟨rfl, f, copies⟩
      refine copies.onSide ⟨?_, Shelf.executeOn_sheds⟩
        ⟨?_, Shelf.executeOn_sheds⟩
      · exact Shelf.executeOn_onHeap fun level stored =>
          copies.keeps wf found (Or.inl stored)
      · exact Shelf.executeOn_onHeap fun level stored =>
          copies.keeps wf found (Or.inr stored)

/-- No node of the book has the address. -/
def Unheld (book : OrderBook) (handle : Nat) : Prop :=
  ∀ entry ∈ book.placed, entry.node.handle ≠ handle

/-- No bid lies at an address that is not held. -/
theorem Unheld.bidLevels
    {handle : Nat} (unheld : Unheld book handle) (price : Price)
    (level : PriceLevel) (found : book.bids.find? price = some level) :
    ∀ node ∈ level.orders, node.handle ≠ handle := by
  intro node member
  exact unheld ⟨.bid, price, node⟩ (List.mem_append_left _
    (mem_shelfNodes.mpr ⟨rfl, level, found, member⟩))

/-- Nor does an ask. -/
theorem Unheld.askLevels
    {handle : Nat} (unheld : Unheld book handle) (price : Price)
    (level : PriceLevel) (found : book.asks.find? price = some level) :
    ∀ node ∈ level.orders, node.handle ≠ handle := by
  intro node member
  exact unheld ⟨.ask, price, node⟩ (List.mem_append_right _
    (mem_shelfNodes.mpr ⟨rfl, level, found, member⟩))

/-- Nor does the index lead there. -/
theorem Unheld.index
    {handle : Nat} (unheld : Unheld book handle) (wf : book.Wf)
    (orderId : OrderId) (location : OrderLocation)
    (found : book.ordersById.find? orderId = some location) :
    location.iterator ≠ handle := by
  obtain ⟨entry, member, _, rfl⟩ := (wf.indexed.exact _ _).mp found
  exact unheld entry member

/-- One node more, whose address the heap had not given before. -/
theorem Copies.grown
    {after : HeapOrderBook} {fresh : PlacedNode} (copies : Copies f book heap)
    (unheld : Unheld book fresh.node.handle)
    (placed : next.placed.Perm (fresh :: book.placed))
    (bids : after.bids = next.bids.mapValues (PriceLevel.readdress
      (Function.update f fresh.node.handle heap.nextNode)))
    (asks : after.asks = next.asks.mapValues (PriceLevel.readdress
      (Function.update f fresh.node.handle heap.nextNode)))
    (ordersById : after.ordersById = next.ordersById.mapValues
      (OrderLocation.readdress
        (Function.update f fresh.node.handle heap.nextNode)))
    (nextNode : after.nextNode = heap.nextNode + 1) :
    Copies (Function.update f fresh.node.handle heap.nextNode) next after where
  bids := bids
  asks := asks
  ordersById := ordersById
  apart first firstMember second secondMember same := by
    have firstPlaced := List.mem_cons.mp (placed.mem_iff.mp firstMember)
    have secondPlaced := List.mem_cons.mp (placed.mem_iff.mp secondMember)
    rcases firstPlaced with rfl | firstOld
    · rcases secondPlaced with rfl | secondOld
      · rfl
      · rw [Function.update_self,
          Function.update_of_ne (unheld second secondOld)] at same
        exact absurd same (Nat.ne_of_gt (copies.below second secondOld))
    · rw [Function.update_of_ne (unheld first firstOld)] at same
      rcases secondPlaced with rfl | secondOld
      · rw [Function.update_self] at same
        exact absurd same (Nat.ne_of_lt (copies.below first firstOld))
      · rw [Function.update_of_ne (unheld second secondOld)] at same
        exact copies.apart first firstOld second secondOld same
  below entry member := by
    rw [nextNode]
    rcases List.mem_cons.mp (placed.mem_iff.mp member) with rfl | old
    · rw [Function.update_self]
      exact Nat.lt_succ_self _
    · rw [Function.update_of_ne (unheld entry old)]
      exact Nat.lt_succ_of_lt (copies.below entry old)

/-- A bid is added to the copy too, at an address of its own. -/
theorem Copies.addBid
    {handle : Nat} (copies : Copies f book heap) (wf : book.Wf)
    (unheld : Unheld book handle) (event : AddOrder)
    (owned nextPool : FixedSlotPool) (otherwise : ApplyResult) :
    (heap.onSide .bid (HeapShelf.addTo · event) (HeapShelf.addTo · event)
        otherwise).2 = .ok ∧
      ∃ g, Copies g
        (book.withBids
          ⟨appendNode book.bids event.price
              ⟨handle, event.orderId, event.quantity⟩, nextPool,
            book.ordersById.insert event.orderId
              ⟨event.side, event.price, handle⟩⟩)
        (heap.onSide .bid (HeapShelf.addTo · event) (HeapShelf.addTo · event)
          otherwise).1 := by
  let fresh : PlacedNode :=
    ⟨.bid, event.price, ⟨handle, event.orderId, event.quantity⟩⟩
  have start : HeapShelf.mk heap.bids heap.ordersById heap.nextNode =
      Shelf.onHeap f heap.nextNode ⟨book.bids, owned, book.ordersById⟩ := by
    rw [Shelf.onHeap, copies.bids, copies.ordersById]
  have ran := Shelf.appendNode_onHeap f heap.nextNode
    ⟨book.bids, owned, book.ordersById⟩ event nextPool unheld.bidLevels
    (unheld.index wf)
  have freshUnheld : Unheld book fresh.node.handle := unheld
  simp only [HeapOrderBook.onSide, start, ran]
  refine ⟨trivial, _, copies.grown freshUnheld ?_ rfl
    (copies.asks.trans (Shelf.readdress_update unheld.askLevels).symm) rfl rfl⟩
  simp only [OrderBook.placed, OrderBook.withBids, shelfNodes_appendNode]
  exact (List.perm_orderedInsert _ _ _).append_right _

/-- So is an ask. -/
theorem Copies.addAsk
    {handle : Nat} (copies : Copies f book heap) (wf : book.Wf)
    (unheld : Unheld book handle) (event : AddOrder)
    (owned nextPool : FixedSlotPool) (otherwise : ApplyResult) :
    (heap.onSide .ask (HeapShelf.addTo · event) (HeapShelf.addTo · event)
        otherwise).2 = .ok ∧
      ∃ g, Copies g
        (book.withAsks
          ⟨appendNode book.asks event.price
              ⟨handle, event.orderId, event.quantity⟩, nextPool,
            book.ordersById.insert event.orderId
              ⟨event.side, event.price, handle⟩⟩)
        (heap.onSide .ask (HeapShelf.addTo · event) (HeapShelf.addTo · event)
          otherwise).1 := by
  let fresh : PlacedNode :=
    ⟨.ask, event.price, ⟨handle, event.orderId, event.quantity⟩⟩
  have start : HeapShelf.mk heap.asks heap.ordersById heap.nextNode =
      Shelf.onHeap f heap.nextNode ⟨book.asks, owned, book.ordersById⟩ := by
    rw [Shelf.onHeap, copies.asks, copies.ordersById]
  have ran := Shelf.appendNode_onHeap f heap.nextNode
    ⟨book.asks, owned, book.ordersById⟩ event nextPool unheld.askLevels
    (unheld.index wf)
  have freshUnheld : Unheld book fresh.node.handle := unheld
  simp only [HeapOrderBook.onSide, start, ran]
  refine ⟨trivial, _, copies.grown freshUnheld ?_
    (copies.bids.trans (Shelf.readdress_update unheld.bidLevels).symm) rfl rfl
    rfl⟩
  simp only [OrderBook.placed, OrderBook.withAsks, shelfNodes_appendNode]
  exact ((List.perm_orderedInsert _ _ _).append_left _).trans List.perm_middle

/-- An addition that the pool can store. -/
theorem Copies.add_follows
    (copies : Copies f book heap) (wf : book.Wf) (grants : HeapGrants)
    (event : AddOrder)
    (stored : (book.applyAdd grants event).2 ≠ .allocationFailed) :
    heap.Follows (.add event) (book.applyAdd grants event) := by
  obtain ⟨pool, owned, holds⟩ := wf.pooled
  simp only [Follows, HeapOrderBook.apply, HeapOrderBook.applyAdd,
    copies.contains]
  by_cases quantityPos : event.quantity = 0
  · simpa [OrderBook.applyAdd, quantityPos] using ⟨f, copies⟩
  by_cases pricePos : event.price = 0
  · simpa [OrderBook.applyAdd, quantityPos, pricePos] using ⟨f, copies⟩
  by_cases used : book.ordersById.contains event.orderId = true
  · simpa [OrderBook.applyAdd, quantityPos, pricePos, used] using ⟨f, copies⟩
  have unused : book.ordersById.find? event.orderId = none := by
    simpa [OrderedMap.contains] using used
  simp only [quantityPos, pricePos, used, if_false, Bool.false_eq_true]
  have unheld :
      ∀ {nextPool handle},
        pool.allocate grants.poolMetadata nodeBytes nodeAlignment =
          (nextPool, .address handle) → Unheld book handle := by
    intro nextPool handle served entry member same
    refine (FixedSlotPool.allocate_address (by decide) (by decide) holds
      served).1 ?_
    exact List.mem_map.mpr ⟨entry, member, same⟩
  cases side : event.side with
  | bid =>
      have addable : book.Addable event :=
        ⟨quantityPos, pricePos, unused, Or.inl side⟩
      have bidsHold : (Shelf.mk book.bids pool book.ordersById).pool.Holds
          nodeBytes nodeAlignment _ := holds
      rw [addable.applyAdd_eq owned] at stored ⊢
      rcases Shelf.addTo_cases bidsHold grants unused with
        ⟨next, failed, _⟩ | ⟨nextPool, handle, served, added⟩
      · simp [OrderBook.onSide, side, failed] at stored
      · simp only [OrderBook.onSide, side, added]
        have grown := copies.addBid wf (unheld served) event pool
          nextPool .unknownOrder
        rwa [side] at grown
  | ask =>
      have addable : book.Addable event :=
        ⟨quantityPos, pricePos, unused, Or.inr side⟩
      have asksHold : (Shelf.mk book.asks pool book.ordersById).pool.Holds
          nodeBytes nodeAlignment _ := holds
      rw [addable.applyAdd_eq owned] at stored ⊢
      rcases Shelf.addTo_cases asksHold grants unused with
        ⟨next, failed, _⟩ | ⟨nextPool, handle, served, added⟩
      · simp [OrderBook.onSide, side, failed] at stored
      · simp only [OrderBook.onSide, side, added]
        have grown := copies.addAsk wf (unheld served) event pool
          nextPool .unknownOrder
        rwa [side] at grown
  | unlisted raw outside =>
      simpa [OrderBook.applyAdd, quantityPos, pricePos, used, side,
        Side.Listed, HeapOrderBook.onSide] using ⟨f, copies⟩

/-- Every event that finds memory leads to a copy again. -/
theorem Copies.follows
    (copies : Copies f book heap) (wf : book.Wf) (grants : HeapGrants)
    (event : EventPayload)
    (stored : (book.call (event.call grants)).2 ≠ .allocationFailed) :
    heap.Follows event (book.call (event.call grants)) := by
  cases event with
  | add event => exact copies.add_follows wf grants event stored
  | cancel event => exact copies.cancel_follows wf event
  | execute event => exact copies.execute_follows wf event

/-- A refused event leaves a book that the reference still copies. -/
theorem Copies.refused
    (copies : Copies f book heap) (wf : book.Wf) {made : BookCall}
    (failed : (book.call made).2 = .allocationFailed) :
    Copies f (book.call made).1 heap := by
  rcases wf.call_ends made with
    ⟨result, _, refused⟩ | ⟨next, ranOut, facts⟩ | ⟨next, done, _⟩
  · rw [refused]
    exact copies
  · rw [ranOut]
    exact copies.restored facts.restored
  · rw [done] at failed
    cases failed

/-! ## What both books show -/

/-- Every query shows the same of the reference and of the book. -/
structure Matches (heap : HeapOrderBook) (book : OrderBook) : Prop where
  snapshot : heap.snapshot = book.snapshot
  remainingQuantity : ∀ orderId,
    heap.remainingQuantity orderId = book.remainingQuantity orderId
  orderCount : heap.orderCount = book.orderCount
  bidLevelCount : heap.bidLevelCount = book.bidLevelCount
  askLevelCount : heap.askLevelCount = book.askLevelCount
  bestBid : heap.bestBid = book.bestBid
  bestAsk : heap.bestAsk = book.bestAsk

/-- Addresses do not show in the levels. -/
theorem shelfLevels_readdress
    {lt : Price → Price → Prop} (side : Side)
    (levels : OrderedMap Price PriceLevel lt) :
    OrderBook.shelfLevels side (levels.mapValues (PriceLevel.readdress f)) =
      OrderBook.shelfLevels side levels := by
  simp only [OrderBook.shelfLevels, OrderedMap.mapValues, List.map_map]
  refine List.map_congr_left fun entry _ => ?_
  simp [PriceLevel.readdress, OrderBook.levelOrders, QueueNode.readdress]

/-- Nor do they in the best price. -/
theorem head_mapValues
    {lt : Price → Price → Prop} (levels : OrderedMap Price PriceLevel lt) :
    (levels.mapValues (PriceLevel.readdress f)).entries.head?.map Prod.fst =
      levels.entries.head?.map Prod.fst := by
  simp only [OrderedMap.mapValues, List.head?_map, Option.map_map]
  rfl

/-- Addresses are not seen by any query. -/
theorem Copies.matched (copies : Copies f book heap) (wf : book.Wf) :
    heap.Matches book where
  snapshot := by
    simp only [HeapOrderBook.snapshot, OrderBook.snapshot, copies.bids,
      copies.asks, shelfLevels_readdress]
  remainingQuantity orderId := by
    unfold HeapOrderBook.remainingQuantity OrderBook.remainingQuantity
    rw [copies.find?]
    cases found : book.ordersById.find? orderId with
    | none => rfl
    | some location =>
        simp only [Option.map_some, copies.remainingAt wf found]
  orderCount := by
    simp [HeapOrderBook.orderCount, OrderBook.orderCount, copies.ordersById,
      OrderedMap.size, OrderedMap.mapValues]
  bidLevelCount := by
    simp [HeapOrderBook.bidLevelCount, OrderBook.bidLevelCount, copies.bids,
      OrderedMap.size, OrderedMap.mapValues]
  askLevelCount := by
    simp [HeapOrderBook.askLevelCount, OrderBook.askLevelCount, copies.asks,
      OrderedMap.size, OrderedMap.mapValues]
  bestBid := by
    rw [HeapOrderBook.bestBid, OrderBook.bestBid, copies.bids, head_mapValues]
  bestAsk := by
    rw [HeapOrderBook.bestAsk, OrderBook.bestAsk, copies.asks, head_mapValues]

/-! ## Both books on one sequence of events -/

/-- An event with what the heap grants the pooled book for it. -/
structure PooledEvent where
  payload : EventPayload
  grants : HeapGrants := {}

/-- The answer of the pooled book to an event. -/
def pooledAnswer (book : OrderBook) (offered : PooledEvent) : ApplyResult :=
  (book.call (offered.payload.call offered.grants)).2

/-- One event on both books; the reference skips what cannot be stored. -/
def applyBoth
    (books : OrderBook × HeapOrderBook) (offered : PooledEvent) :
    OrderBook × HeapOrderBook :=
  ((books.1.call (offered.payload.call offered.grants)).1,
    if pooledAnswer books.1 offered = .allocationFailed then
      books.2
    else
      (books.2.apply offered.payload).1)

/-- Two fresh books after a sequence of events. -/
def afterBoth (storage poolBytes : Nat) (events : List PooledEvent) :
    OrderBook × HeapOrderBook :=
  events.foldl applyBoth (.ofPool storage poolBytes, {})

/-- Both books take an event and stay copies. -/
theorem applyBoth_copies
    (copies : ∃ f, Copies f book heap) (wf : book.Wf)
    (offered : PooledEvent) :
    (∃ f, Copies f (applyBoth (book, heap) offered).1
      (applyBoth (book, heap) offered).2) ∧
      (applyBoth (book, heap) offered).1.Wf := by
  obtain ⟨f, copies⟩ := copies
  refine ⟨?_, (wf.call_wf _).1⟩
  unfold applyBoth
  dsimp only
  split_ifs with failed
  · exact ⟨f, copies.refused wf failed⟩
  · exact (copies.follows wf offered.grants offered.payload failed).2

/-- From books that copy each other, events lead to books that do. -/
theorem foldl_copies
    (copies : ∃ f, Copies f book heap) (wf : book.Wf)
    (events : List PooledEvent) :
    (∃ f, Copies f (events.foldl applyBoth (book, heap)).1
      (events.foldl applyBoth (book, heap)).2) ∧
      (events.foldl applyBoth (book, heap)).1.Wf := by
  induction events generalizing book heap with
  | nil => exact ⟨copies, wf⟩
  | cons offered rest inductionHypothesis =>
      obtain ⟨nextCopies, nextWf⟩ := applyBoth_copies copies wf offered
      exact inductionHypothesis nextCopies nextWf

/-- Two empty books are copies. -/
theorem fresh_copies (storage poolBytes : Nat) :
    Copies id (.ofPool storage poolBytes) {} where
  bids := rfl
  asks := rfl
  ordersById := rfl
  apart first member := by cases member
  below entry member := by cases member

/--
After any events the two books show the same, and they answer the next event
alike unless the pool cannot store it.
-/
theorem pooled_matches
    (storage poolBytes : Nat) (storagePos : 0 < storage)
    (events : List PooledEvent) :
    (afterBoth storage poolBytes events).2.Matches
        (afterBoth storage poolBytes events).1 ∧
      ∀ offered,
        pooledAnswer (afterBoth storage poolBytes events).1 offered ≠
            .allocationFailed →
          ((afterBoth storage poolBytes events).2.apply offered.payload).2 =
            pooledAnswer (afterBoth storage poolBytes events).1 offered := by
  obtain ⟨⟨f, copies⟩, wf⟩ := foldl_copies
    ⟨id, fresh_copies storage poolBytes⟩ (OrderBook.ofPool_wf storagePos) events
  refine ⟨copies.matched wf, fun offered stored => ?_⟩
  exact (copies.follows wf offered.grants offered.payload stored).1

/-- A full pool of two nodes, and an address that is used again. -/
theorem pooled_matches_reused :
    let filled : List PooledEvent :=
      [⟨.add ⟨1, .bid, 100, 5⟩, {}⟩, ⟨.add ⟨2, .bid, 100, 7⟩, {}⟩]
    let events : List PooledEvent :=
      filled ++ [⟨.add ⟨3, .ask, 110, 4⟩, {}⟩, ⟨.cancel ⟨1⟩, {}⟩,
        ⟨.add ⟨4, .ask, 120, 9⟩, {}⟩, ⟨.execute ⟨2, 3⟩, {}⟩]
    pooledAnswer (afterBoth 8 64 filled).1 ⟨.add ⟨3, .ask, 110, 4⟩, {}⟩ =
        .allocationFailed ∧
      (afterBoth 8 64 events).2.snapshot =
        [⟨.bid, 100, 4, [⟨2, .bid, 100, 4⟩]⟩,
          ⟨.ask, 120, 9, [⟨4, .ask, 120, 9⟩]⟩] ∧
      (afterBoth 8 64 events).2.Matches (afterBoth 8 64 events).1 := by
  intro filled events
  exact ⟨by decide +kernel, by decide +kernel,
    (pooled_matches 8 64 (by decide) events).1⟩

end HeapOrderBook

end LimitOrderBook
