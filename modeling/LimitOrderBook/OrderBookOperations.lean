import LimitOrderBook.OrderBookShelf

namespace LimitOrderBook

/-!
# What the operations do to a well-formed book

One specification per operation of the order book.  Each says that the result
is well formed again and gives the two priority lists after the call.
-/

namespace OrderBook

variable {book : OrderBook}

/-- The queue nodes of one side. -/
def sideNodes (book : OrderBook) : Side → List PlacedNode
  | .bid => shelfNodes .bid book.bids
  | .ask => shelfNodes .ask book.asks
  | .unlisted _ _ => []

theorem sideOrders_eq (book : OrderBook) (side : Side) :
    book.sideOrders side = (book.sideNodes side).map PlacedNode.view := by
  cases side with
  | bid => exact shelfOrders_eq .bid book.bids
  | ask => exact shelfOrders_eq .ask book.asks
  | unlisted raw outside => rfl

theorem mem_placed_of_mem_sideNodes
    {side : Side} {entry : PlacedNode} (member : entry ∈ book.sideNodes side) :
    entry ∈ book.placed := by
  cases side with
  | bid => exact List.mem_append_left _ member
  | ask => exact List.mem_append_right _ member
  | unlisted raw outside => cases member

/-- A live order is a placed node, and its index entry points at it. -/
theorem Wf.located
    (wf : book.Wf) {side : Side} {order : OrderView}
    (live : order ∈ book.sideOrders side) :
    ∃ entry ∈ book.sideNodes side,
      entry.view = order ∧ entry.side = side ∧
        book.ordersById.find? order.orderId = some entry.location := by
  rw [sideOrders_eq] at live
  obtain ⟨entry, member, rfl⟩ := List.mem_map.mp live
  have entrySide : entry.side = side := by
    cases side with
    | bid => exact (mem_shelfNodes.mp member).1
    | ask => exact (mem_shelfNodes.mp member).1
    | unlisted raw outside => cases member
  exact ⟨entry, member, rfl, entrySide,
    (wf.indexed.exact _ _).mpr
      ⟨entry, mem_placed_of_mem_sideNodes member, rfl, rfl⟩⟩

/-- An order of one side has another id than an order of another side. -/
theorem Wf.id_ne_of_sides
    (wf : book.Wf) {first second : Side} (apart : first ≠ second)
    {left right : OrderView} (leftLive : left ∈ book.sideOrders first)
    (rightLive : right ∈ book.sideOrders second) :
    left.orderId ≠ right.orderId := by
  intro sameId
  obtain ⟨leftEntry, _, _, leftSide, leftFound⟩ := wf.located leftLive
  obtain ⟨rightEntry, _, _, rightSide, rightFound⟩ := wf.located rightLive
  rw [sameId, rightFound, Option.some.injEq] at leftFound
  have sameSide : rightEntry.side = leftEntry.side :=
    congrArg OrderLocation.side leftFound
  exact apart (leftSide ▸ rightSide ▸ sameSide.symm)

/-- The quantity an index entry shows is the quantity of the live order. -/
theorem Wf.remainingAt_location
    (wf : book.Wf) {side : Side} {entry : PlacedNode}
    (member : entry ∈ book.sideNodes side) :
    book.remainingAt entry.location = entry.node.remainingQuantity := by
  cases side with
  | bid =>
      obtain ⟨entrySide, level, found, _⟩ := mem_shelfNodes.mp member
      have remaining := remainingAt_of_placed wf.handlesApart_bids member found
      simp [remainingAt, PlacedNode.location, entrySide, found, remaining]
  | ask =>
      obtain ⟨entrySide, level, found, _⟩ := mem_shelfNodes.mp member
      have remaining := remainingAt_of_placed wf.handlesApart_asks member found
      simp [remainingAt, PlacedNode.location, entrySide, found, remaining]
  | unlisted raw outside =>
      cases member

theorem remainingQuantity_of_live
    (wf : book.Wf) {side : Side} {order : OrderView}
    (live : order ∈ book.sideOrders side) :
    book.remainingQuantity order.orderId = some order.quantity := by
  obtain ⟨entry, member, rfl, _, located⟩ := wf.located live
  rw [remainingQuantity, located, Option.map_some,
    wf.remainingAt_location member]
  rfl

/-- An index entry describes a live order. -/
theorem Wf.live_of_found
    (wf : book.Wf) {orderId : OrderId} {location : OrderLocation}
    (found : book.ordersById.find? orderId = some location) :
    (⟨orderId, location.side, location.price,
      book.remainingAt location⟩ : OrderView) ∈
        book.sideOrders location.side := by
  obtain ⟨entry, member, rfl, rfl⟩ :=
    (wf.indexed.exact orderId location).mp found
  have sideMember : entry ∈ book.sideNodes entry.side := by
    rcases List.mem_append.mp member with isBid | isAsk
    · rw [(mem_shelfNodes.mp isBid).1]
      exact isBid
    · rw [(mem_shelfNodes.mp isAsk).1]
      exact isAsk
  rw [wf.remainingAt_location sideMember, sideOrders_eq]
  exact List.mem_map_of_mem sideMember

/-! ## The two sides as shelves -/

/-- The bids with the nodes of the asks beside them. -/
theorem Wf.bidShelf
    (wf : book.Wf) {pool : FixedSlotPool} (owned : book.pool = some pool) :
    Shelf.Wf .bid (shelfNodes .ask book.asks)
      ⟨book.bids, pool, book.ordersById⟩ := by
  obtain ⟨stored, poolEq, holds⟩ := wf.pooled
  rw [owned, Option.some.injEq] at poolEq
  subst poolEq
  exact ⟨wf.bidLevels, wf.indexed, holds⟩

/-- The asks with the nodes of the bids beside them. -/
theorem Wf.askShelf
    (wf : book.Wf) {pool : FixedSlotPool} (owned : book.pool = some pool) :
    Shelf.Wf .ask (shelfNodes .bid book.bids)
      ⟨book.asks, pool, book.ordersById⟩ := by
  obtain ⟨stored, poolEq, holds⟩ := wf.pooled
  rw [owned, Option.some.injEq] at poolEq
  subst poolEq
  have swap : book.placed.Perm
      (shelfNodes .ask book.asks ++ shelfNodes .bid book.bids) :=
    List.perm_append_comm
  exact ⟨wf.askLevels, wf.indexed.perm swap, holds.perm (swap.map _)⟩

theorem Wf.withBids
    (wf : book.Wf) {shelf : Shelf (· > ·)}
    (shelfWf : shelf.Wf .bid (shelfNodes .ask book.asks)) :
    (book.withBids shelf).Wf :=
  ⟨shelfWf.levels, wf.askLevels, shelfWf.indexed, shelf.pool, rfl,
    shelfWf.pooled⟩

theorem Wf.withAsks
    (wf : book.Wf) {shelf : Shelf (· < ·)}
    (shelfWf : shelf.Wf .ask (shelfNodes .bid book.bids)) :
    (book.withAsks shelf).Wf := by
  have swap :
      (shelfNodes .ask shelf.levels ++ shelfNodes .bid book.bids).Perm
        (book.withAsks shelf).placed := List.perm_append_comm
  exact ⟨wf.bidLevels, shelfWf.levels, shelfWf.indexed.perm swap, shelf.pool,
    rfl, shelfWf.pooled.perm (swap.map _)⟩

/-- What an operation on one side does to the two priority lists. -/
structure Becomes
    (side : Side) (change : List OrderView → List OrderView)
    (book next : OrderBook) : Prop where
  wf : next.Wf
  sameSlots : next.slots = book.slots
  orders : ∀ other, next.sideOrders other =
    if other = side then change (book.sideOrders other)
    else book.sideOrders other

/-- Nothing changed but that the pool may have been set up. -/
structure Restored (book next : OrderBook) : Prop where
  bids : next.bids = book.bids
  asks : next.asks = book.asks
  ordersById : next.ordersById = book.ordersById
  pool : next.pool = book.pool ∨
    ∃ pool ready, book.pool = some pool ∧
      pool.prepare true nodeBytes nodeAlignment = some ready ∧
      next.pool = some ready

/-- What a side-generic body does to its side, it does to the book. -/
theorem Wf.onSide_becomes
    (wf : book.Wf) {pool : FixedSlotPool} (owned : book.pool = some pool)
    {side : Side} (listed : side.Listed)
    {onBids : Shelf (· > ·) → Shelf (· > ·) × ApplyResult}
    {onAsks : Shelf (· < ·) → Shelf (· < ·) × ApplyResult}
    {result otherwise : ApplyResult}
    {change : List OrderView → List OrderView}
    (bids : side = .bid → ∃ next,
      onBids ⟨book.bids, pool, book.ordersById⟩ = (next, result) ∧
        Shelf.Becomes .bid (shelfNodes .ask book.asks) change
          ⟨book.bids, pool, book.ordersById⟩ next)
    (asks : side = .ask → ∃ next,
      onAsks ⟨book.asks, pool, book.ordersById⟩ = (next, result) ∧
        Shelf.Becomes .ask (shelfNodes .bid book.bids) change
          ⟨book.asks, pool, book.ordersById⟩ next) :
    ∃ next,
      book.onSide pool side onBids onAsks otherwise = (next, result) ∧
        Becomes side change book next := by
  rcases listed with rfl | rfl
  · obtain ⟨shelf, ran, becomes⟩ := bids rfl
    refine ⟨book.withBids shelf, by simp [onSide, ran],
      wf.withBids becomes.wf, ?_, ?_⟩
    · simpa [slots, OrderBook.withBids, owned] using becomes.sameSlots
    · intro other
      cases other with
      | bid => exact becomes.orders
      | ask => rfl
      | unlisted raw outside => rfl
  · obtain ⟨shelf, ran, becomes⟩ := asks rfl
    refine ⟨book.withAsks shelf, by simp [onSide, ran],
      wf.withAsks becomes.wf, ?_, ?_⟩
    · simpa [slots, OrderBook.withAsks, owned] using becomes.sameSlots
    · intro other
      cases other with
      | bid => rfl
      | ask => exact becomes.orders
      | unlisted raw outside => rfl

/-- A body that restores its side restores the book. -/
theorem onSide_restored
    {pool : FixedSlotPool} (owned : book.pool = some pool)
    {side : Side} (listed : side.Listed)
    {onBids : Shelf (· > ·) → Shelf (· > ·) × ApplyResult}
    {onAsks : Shelf (· < ·) → Shelf (· < ·) × ApplyResult}
    {result otherwise : ApplyResult}
    (bids : side = .bid → ∃ next,
      onBids ⟨book.bids, pool, book.ordersById⟩ = (next, result) ∧
        Shelf.Restored ⟨book.bids, pool, book.ordersById⟩ next)
    (asks : side = .ask → ∃ next,
      onAsks ⟨book.asks, pool, book.ordersById⟩ = (next, result) ∧
        Shelf.Restored ⟨book.asks, pool, book.ordersById⟩ next) :
    ∃ next,
      book.onSide pool side onBids onAsks otherwise = (next, result) ∧
        book.Restored next := by
  have poolRestored :
      ∀ {next : FixedSlotPool},
        (next = pool ∨
          pool.prepare true nodeBytes nodeAlignment = some next) →
        some next = book.pool ∨
          ∃ pool ready, book.pool = some pool ∧
            pool.prepare true nodeBytes nodeAlignment = some ready ∧
            some next = some ready := by
    rintro next (same | prepared)
    · exact Or.inl (same ▸ owned.symm)
    · exact Or.inr ⟨pool, next, owned, prepared, rfl⟩
  rcases listed with rfl | rfl
  · obtain ⟨shelf, ran, restored⟩ := bids rfl
    exact ⟨book.withBids shelf, by simp [onSide, ran], restored.levels, rfl,
      restored.index, poolRestored restored.pool⟩
  · obtain ⟨shelf, ran, restored⟩ := asks rfl
    exact ⟨book.withAsks shelf, by simp [onSide, ran], rfl, restored.levels,
      restored.index, poolRestored restored.pool⟩

/-- An operation that allocates: it goes through, or it restores the book. -/
def Tries
    (side : Side) (change : List OrderView → List OrderView)
    (book : OrderBook) (outcome : OrderBook × ApplyResult) : Prop :=
  (∃ next, outcome = (next, .allocationFailed) ∧ book.Restored next) ∨
    ∃ next, outcome = (next, .ok) ∧ Becomes side change book next

theorem Wf.onSide_tries
    (wf : book.Wf) {pool : FixedSlotPool} (owned : book.pool = some pool)
    {side : Side} (listed : side.Listed)
    {onBids : Shelf (· > ·) → Shelf (· > ·) × ApplyResult}
    {onAsks : Shelf (· < ·) → Shelf (· < ·) × ApplyResult}
    {otherwise : ApplyResult} {change : List OrderView → List OrderView}
    (bids : side = .bid →
      Shelf.Tries .bid (shelfNodes .ask book.asks) change
        ⟨book.bids, pool, book.ordersById⟩
        (onBids ⟨book.bids, pool, book.ordersById⟩))
    (asks : side = .ask →
      Shelf.Tries .ask (shelfNodes .bid book.bids) change
        ⟨book.asks, pool, book.ordersById⟩
        (onAsks ⟨book.asks, pool, book.ordersById⟩)) :
    Tries side change book
      (book.onSide pool side onBids onAsks otherwise) := by
  rcases listed with rfl | rfl
  · rcases bids rfl with failed | done
    · exact Or.inl (onSide_restored owned (Or.inl rfl) (fun _ => failed)
        (fun impossible => by cases impossible))
    · exact Or.inr (wf.onSide_becomes owned (Or.inl rfl) (fun _ => done)
        (fun impossible => by cases impossible))
  · rcases asks rfl with failed | done
    · exact Or.inl (onSide_restored owned (Or.inr rfl)
        (fun impossible => by cases impossible) (fun _ => failed))
    · exact Or.inr (wf.onSide_becomes owned (Or.inr rfl)
        (fun impossible => by cases impossible) (fun _ => done))

/-- Rewriting one order by its id may be done on both sides at once. -/
theorem Wf.filterMap_other_side
    (wf : book.Wf) {side other : Side} (apart : other ≠ side)
    {order : OrderView} (live : order ∈ book.sideOrders side)
    {change : OrderView → Option OrderView}
    (elsewhere : ∀ view : OrderView,
      view.orderId ≠ order.orderId → change view = some view) :
    (book.sideOrders other).filterMap change = book.sideOrders other :=
  filterMap_of_fixed fun view viewLive =>
    elsewhere view (wf.id_ne_of_sides apart viewLive live)

/-! ## Additions -/

/-- An addition the book has no reason to refuse but for its pool. -/
structure Addable (book : OrderBook) (event : AddOrder) : Prop where
  quantityPos : event.quantity ≠ 0
  pricePos : event.price ≠ 0
  unused : book.ordersById.find? event.orderId = none
  listed : event.side.Listed

/-- What is left of `apply(AddOrder)` once its arguments are checked. -/
theorem Addable.applyAdd_eq
    {event : AddOrder} (addable : book.Addable event) {pool : FixedSlotPool}
    (owned : book.pool = some pool) (heap : HeapGrants) :
    book.applyAdd heap event =
      book.onSide pool event.side
        (Shelf.addTo · heap event) (Shelf.addTo · heap event)
        .unknownOrder := by
  have contained : book.ordersById.contains event.orderId = false := by
    simp [OrderedMap.contains, addable.unused]
  simp [applyAdd, addable.quantityPos, addable.pricePos, contained,
    addable.listed, owned]

/-- An addition that is accepted had nothing to be refused for. -/
theorem addable_of_ok
    {heap : HeapGrants} {event : AddOrder}
    (answer : (book.applyAdd heap event).2 = .ok) : book.Addable event := by
  by_cases quantityPos : event.quantity = 0
  · simp [applyAdd, quantityPos] at answer
  by_cases pricePos : event.price = 0
  · simp [applyAdd, quantityPos, pricePos] at answer
  cases found : book.ordersById.find? event.orderId with
  | some location =>
      simp [applyAdd, quantityPos, pricePos, OrderedMap.contains, found]
        at answer
  | none =>
      by_cases listed : event.side.Listed
      · exact ⟨quantityPos, pricePos, found, listed⟩
      · simp [applyAdd, quantityPos, pricePos, OrderedMap.contains, found,
          listed] at answer

theorem withBids_self
    {pool : FixedSlotPool} (owned : book.pool = some pool) :
    book.withBids ⟨book.bids, pool, book.ordersById⟩ = book := by
  simp [OrderBook.withBids, ← owned]

theorem withAsks_self
    {pool : FixedSlotPool} (owned : book.pool = some pool) :
    book.withAsks ⟨book.asks, pool, book.ordersById⟩ = book := by
  simp [OrderBook.withAsks, ← owned]

/-- A book with a full pool refuses an addition and stays as it was. -/
theorem applyAdd_full
    (wf : book.Wf) {event : AddOrder} (addable : book.Addable event)
    (full : book.orderCount = book.slots) (heap : HeapGrants) :
    book.applyAdd heap event = (book, .allocationFailed) := by
  obtain ⟨pool, owned, holds⟩ := wf.pooled
  have refused := FixedSlotPool.allocate_full (by decide) (by decide) holds
    (by
      rw [wf.orderCount_eq] at full
      simpa [slots, owned] using full) heap.poolMetadata
  rw [addable.applyAdd_eq owned]
  rcases addable.listed with isBid | isAsk
  · have kept := Shelf.addTo_full
      (.mk book.bids pool book.ordersById) event refused
    simp [onSide, isBid, kept, withBids_self owned]
  · have kept := Shelf.addTo_full
      (.mk book.asks pool book.ordersById) event refused
    simp [onSide, isAsk, kept, withAsks_self owned]

/-- An arrival on the priority list of a side. -/
def arrive (side : Side) (event : AddOrder) :
    List OrderView → List OrderView :=
  List.orderedInsert (Better side) (addedView event)

/-- Whatever the heap grants, an addition arrives or restores the book. -/
theorem applyAdd_tries
    (wf : book.Wf) {event : AddOrder} (addable : book.Addable event)
    (heap : HeapGrants) :
    Tries event.side (arrive event.side event) book (book.applyAdd heap event) := by
  obtain ⟨pool, owned, _⟩ := wf.pooled
  rw [addable.applyAdd_eq owned]
  refine wf.onSide_tries owned addable.listed ?_ ?_
  · intro isBid
    rw [isBid]
    exact Shelf.addTo_tries (wf.bidShelf owned) isBid addable.pricePos
      addable.quantityPos addable.unused heap
  · intro isAsk
    rw [isAsk]
    exact Shelf.addTo_tries (wf.askShelf owned) isAsk addable.pricePos
      addable.quantityPos addable.unused heap

/-- With a working heap an addition only fails on a full pool. -/
theorem applyAdd_granted
    (wf : book.Wf) {event : AddOrder} (addable : book.Addable event)
    (room : book.orderCount < book.slots) :
    (book.applyAdd {} event).2 = .ok := by
  obtain ⟨pool, owned, holds⟩ := wf.pooled
  obtain ⟨nextPool, handle, served, _⟩ :=
    FixedSlotPool.allocate_free (by decide) (by decide) holds
      (by
        rw [wf.orderCount_eq] at room
        simpa [slots, owned] using room)
  rw [addable.applyAdd_eq owned]
  rcases addable.listed with isBid | isAsk
  · have added := Shelf.addTo_ok
      (.mk book.bids pool book.ordersById) served addable.unused
    simp [onSide, isBid, added]
  · have added := Shelf.addTo_ok
      (.mk book.asks pool book.ordersById) served addable.unused
    simp [onSide, isAsk, added]

/-- A book with a free slot takes an addition behind all better orders. -/
theorem applyAdd_ok
    (wf : book.Wf) {event : AddOrder} (addable : book.Addable event)
    (room : book.orderCount < book.slots) :
    ∃ next,
      book.applyAdd {} event = (next, .ok) ∧
        next.Wf ∧ next.slots = book.slots ∧
        ∀ side, next.sideOrders side =
          if side = event.side then
            (book.sideOrders side).orderedInsert (Better side)
              (addedView event)
          else
            book.sideOrders side := by
  have granted := applyAdd_granted wf addable room
  rcases applyAdd_tries wf addable {} with
    ⟨next, failed, _⟩ | ⟨next, added, becomes⟩
  · rw [failed] at granted
    cases granted
  · refine ⟨next, added, becomes.wf, becomes.sameSlots, fun side => ?_⟩
    rw [becomes.orders side]
    by_cases same : side = event.side
    · subst same
      rfl
    · simp [same]

/-! ## Removing and reducing -/

/-- The body of an operation on an indexed order, run on the order's side. -/
theorem Wf.onSide_indexed
    (wf : book.Wf) {pool : FixedSlotPool} (owned : book.pool = some pool)
    {side : Side} {entry : PlacedNode} (member : entry ∈ book.sideNodes side)
    {onBids : Shelf (· > ·) → Shelf (· > ·) × ApplyResult}
    {onAsks : Shelf (· < ·) → Shelf (· < ·) × ApplyResult}
    {otherwise : ApplyResult} {change : List OrderView → List OrderView}
    (bids : ∀ {others : List PlacedNode} {shelf : Shelf (· > ·)},
      shelf.Wf .bid others → entry ∈ shelfNodes .bid shelf.levels →
      ∃ next, onBids shelf = (next, .ok) ∧
        shelf.Becomes .bid others change next)
    (asks : ∀ {others : List PlacedNode} {shelf : Shelf (· < ·)},
      shelf.Wf .ask others → entry ∈ shelfNodes .ask shelf.levels →
      ∃ next, onAsks shelf = (next, .ok) ∧
        shelf.Becomes .ask others change next) :
    ∃ next,
      book.onSide pool side onBids onAsks otherwise = (next, .ok) ∧
        Becomes side change book next := by
  cases side with
  | bid =>
      exact wf.onSide_becomes owned (Or.inl rfl)
        (fun _ => bids (wf.bidShelf owned) member)
        (fun impossible => by cases impossible)
  | ask =>
      exact wf.onSide_becomes owned (Or.inr rfl)
        (fun impossible => by cases impossible)
        (fun _ => asks (wf.askShelf owned) member)
  | unlisted raw outside =>
      cases member

/-- A change of one order may be read on both sides at once. -/
theorem Becomes.both_sides
    {next : OrderBook} {side : Side} {order : OrderView}
    {change : OrderView → Option OrderView}
    (becomes : Becomes side (List.filterMap change) book next)
    (wf : book.Wf) (live : order ∈ book.sideOrders side)
    (elsewhere : ∀ view : OrderView,
      view.orderId ≠ order.orderId → change view = some view)
    (other : Side) :
    next.sideOrders other = (book.sideOrders other).filterMap change := by
  rw [becomes.orders other]
  split_ifs with same
  · rfl
  · exact (wf.filterMap_other_side same live elsewhere).symm

/-- A live order can be cancelled. -/
theorem applyCancel_becomes
    (wf : book.Wf) {side : Side} {order : OrderView}
    (live : order ∈ book.sideOrders side) :
    ∃ next,
      book.applyCancel ⟨order.orderId⟩ = (next, .ok) ∧
        Becomes side (List.filterMap (Shelf.cancelView order.orderId)) book
          next := by
  obtain ⟨entry, member, rfl, rfl, located⟩ := wf.located live
  obtain ⟨pool, owned, _⟩ := wf.pooled
  simp only [applyCancel, located, owned]
  exact wf.onSide_indexed owned member
    Shelf.cancelFrom_becomes Shelf.cancelFrom_becomes

/-- A live order can be cancelled, and it alone leaves the book. -/
theorem applyCancel_ok
    (wf : book.Wf) {side : Side} {order : OrderView}
    (live : order ∈ book.sideOrders side) :
    ∃ next,
      book.applyCancel ⟨order.orderId⟩ = (next, .ok) ∧
        next.Wf ∧ next.slots = book.slots ∧
        ∀ other, next.sideOrders other =
          (book.sideOrders other).filter
            fun resting => decide (resting.orderId ≠ order.orderId) := by
  obtain ⟨next, cancelled, becomes⟩ := applyCancel_becomes wf live
  refine ⟨next, cancelled, becomes.wf, becomes.sameSlots, fun other => ?_⟩
  rw [← Shelf.filterMap_cancelView]
  refine becomes.both_sides wf live (fun view apart => ?_) other
  simp [Shelf.cancelView, apart]

/-- A live order can be executed up to its remaining quantity. -/
theorem applyExecute_becomes
    (wf : book.Wf) {side : Side} {order : OrderView}
    (live : order ∈ book.sideOrders side) {quantity : Quantity}
    (positive : quantity ≠ 0) (enough : quantity ≤ order.quantity) :
    ∃ next,
      book.applyExecute ⟨order.orderId, quantity⟩ = (next, .ok) ∧
        Becomes side (List.filterMap (executeView order.orderId quantity))
          book next := by
  obtain ⟨entry, member, rfl, rfl, located⟩ := wf.located live
  obtain ⟨pool, owned, _⟩ := wf.pooled
  have enough' : quantity ≤ entry.node.remainingQuantity := enough
  simp only [applyExecute, located, owned, positive, if_false,
    wf.remainingAt_location member, Nat.not_lt.mpr enough']
  exact wf.onSide_indexed owned member
    (fun shelfWf shelfMember =>
      Shelf.executeOn_becomes shelfWf shelfMember enough)
    (fun shelfWf shelfMember =>
      Shelf.executeOn_becomes shelfWf shelfMember enough)

theorem applyExecute_ok
    (wf : book.Wf) {side : Side} {order : OrderView}
    (live : order ∈ book.sideOrders side) {quantity : Quantity}
    (positive : quantity ≠ 0) (enough : quantity ≤ order.quantity) :
    ∃ next,
      book.applyExecute ⟨order.orderId, quantity⟩ = (next, .ok) ∧
        next.Wf ∧ next.slots = book.slots ∧
        ∀ other, next.sideOrders other =
          (book.sideOrders other).filterMap
            (executeView order.orderId quantity) := by
  obtain ⟨next, executed, becomes⟩ :=
    applyExecute_becomes wf live positive enough
  refine ⟨next, executed, becomes.wf, becomes.sameSlots, fun other =>
    becomes.both_sides wf live (fun view apart => ?_) other⟩
  simp [executeView, apart]

/-! ## Replacement -/

/-- A replacement the book has no reason to refuse but for its pool. -/
structure Replaceable
    (book : OrderBook) (order : OrderView) (next : AddOrder) : Prop where
  live : order ∈ book.sideOrders order.side
  quantityPos : next.quantity ≠ 0
  pricePos : next.price ≠ 0
  sameSide : next.side = order.side
  unused : next.orderId = order.orderId ∨
    book.ordersById.find? next.orderId = none

/-- What is left of `replace` once its arguments are checked. -/
theorem Replaceable.replace_eq
    {order : OrderView} {next : AddOrder}
    (replaceable : book.Replaceable order next) (wf : book.Wf) :
    ∃ entry ∈ book.sideNodes order.side, ∃ pool,
      entry.view = order ∧ book.pool = some pool ∧
        order.side.Listed ∧
        ∀ heap maintainPriority,
          book.replace heap order.orderId next maintainPriority =
            if maintainPriority then
              if next.price ≠ order.price ∨ next.orderId ≠ order.orderId then
                (book, .invalidPrice)
              else
                book.onSide pool order.side
                  (Shelf.adjust · entry.location next.quantity)
                  (Shelf.adjust · entry.location next.quantity) .ok
            else
              book.onSide pool order.side
                (Shelf.moveTo · heap order.orderId entry.location next)
                (Shelf.moveTo · heap order.orderId entry.location next)
                .ok := by
  obtain ⟨entry, member, rfl, entrySide, located⟩ :=
    wf.located replaceable.live
  obtain ⟨pool, owned, _⟩ := wf.pooled
  have listed : entry.view.side.Listed := by
    cases side : entry.view.side with
    | bid => exact Or.inl rfl
    | ask => exact Or.inr rfl
    | unlisted raw outside =>
        rw [side] at member
        cases member
  have sameSide :
      (if entry.location.side = .bid then Side.bid else Side.ask) =
        entry.view.side := by
    rcases listed with isBid | isAsk
    · have entryBid : entry.location.side = .bid := isBid
      simp [entryBid, isBid]
    · have entryAsk : entry.location.side = .ask := isAsk
      simp [entryAsk, isAsk]
  have free :
      ¬ (next.orderId ≠ entry.view.orderId ∧
        book.ordersById.contains next.orderId = true) := by
    rintro ⟨otherId, used⟩
    have missing := replaceable.unused.resolve_left otherId
    simp [OrderedMap.contains, missing] at used
  refine ⟨entry, member, pool, rfl, owned, listed, ?_⟩
  intro heap maintainPriority
  have nextSide : ¬ next.side ≠ entry.location.side :=
    not_not_intro replaceable.sameSide
  simp only [replace, located, owned, replaceable.quantityPos,
    replaceable.pricePos, nextSide, free, if_false, sameSide]
  rfl

/-- A replacement that keeps its priority writes one quantity. -/
theorem replace_keeps
    (wf : book.Wf) {order : OrderView} {next : AddOrder}
    (replaceable : book.Replaceable order next)
    (samePrice : next.price = order.price)
    (sameId : next.orderId = order.orderId) (heap : HeapGrants) :
    ∃ after,
      book.replace heap order.orderId next true = (after, .ok) ∧
        Becomes order.side
          (List.map (Shelf.writeView order.orderId next.quantity)) book
          after := by
  obtain ⟨entry, member, pool, rfl, owned, _, shape⟩ :=
    replaceable.replace_eq wf
  simp only [shape, if_true, samePrice, sameId, ne_eq, not_true_eq_false,
    or_self, if_false]
  exact wf.onSide_indexed owned member
    (fun shelfWf shelfMember =>
      Shelf.adjust_becomes shelfWf shelfMember replaceable.quantityPos)
    (fun shelfWf shelfMember =>
      Shelf.adjust_becomes shelfWf shelfMember replaceable.quantityPos)

/-- Any other replacement moves the order, or restores the book. -/
theorem replace_tries
    (wf : book.Wf) {order : OrderView} {next : AddOrder}
    (replaceable : book.Replaceable order next) (heap : HeapGrants) :
    Tries order.side
      (fun orders => arrive order.side next
        (orders.filterMap (Shelf.cancelView order.orderId)))
      book (book.replace heap order.orderId next false) := by
  obtain ⟨entry, member, pool, rfl, owned, listed, shape⟩ :=
    replaceable.replace_eq wf
  simp only [shape, Bool.false_eq_true, if_false]
  refine wf.onSide_tries owned listed ?_ ?_
  · intro isBid
    rw [isBid] at member ⊢
    exact Shelf.moveTo_tries (wf.bidShelf owned) member
      (replaceable.sameSide.trans isBid) replaceable.pricePos
      replaceable.quantityPos replaceable.unused heap
  · intro isAsk
    rw [isAsk] at member ⊢
    exact Shelf.moveTo_tries (wf.askShelf owned) member
      (replaceable.sameSide.trans isAsk) replaceable.pricePos
      replaceable.quantityPos replaceable.unused heap

/-! ## Reset -/

/-- Returning some of the held slots leaves the others held. -/
theorem releaseAll_holds
    {pool : FixedSlotPool} {nodes : List QueueNode} {rest : List Nat}
    (holds : pool.Holds nodeBytes nodeAlignment
      (nodes.map QueueNode.handle ++ rest)) :
    (releaseAll pool nodes).Holds nodeBytes nodeAlignment rest ∧
      (releaseAll pool nodes).storage = pool.storage ∧
      (releaseAll pool nodes).capacityBytes = pool.capacityBytes := by
  induction nodes generalizing pool with
  | nil =>
      exact ⟨holds, rfl, rfl⟩
  | cons node others inductionHypothesis =>
      obtain ⟨released, storage, capacity⟩ :=
        FixedSlotPool.deallocate_held (by decide) (by decide) holds
          (List.mem_cons_self (a := node.handle))
      rw [List.map_cons, List.cons_append, List.erase_cons_head] at released
      obtain ⟨done, doneStorage, doneCapacity⟩ := inductionHypothesis released
      exact ⟨done, doneStorage.trans storage, doneCapacity.trans capacity⟩

theorem shelfQueue_handles
    {lt : Price → Price → Prop} (side : Side)
    (levels : OrderedMap Price PriceLevel lt) :
    (shelfQueue levels).map QueueNode.handle =
      (shelfNodes side levels).map fun entry => entry.node.handle := by
  simp [shelfQueue, shelfNodes, levelNodes, List.map_flatMap,
    Function.comp_def]

/-- Resetting empties the book and gives every slot back. -/
theorem reset_wf (wf : book.Wf) :
    book.reset.Wf ∧ book.reset.slots = book.slots := by
  obtain ⟨pool, owned, holds⟩ := wf.pooled
  rw [placed, List.map_append, ← shelfQueue_handles,
    ← shelfQueue_handles] at holds
  obtain ⟨bidsFreed, bidStorage, bidCapacity⟩ := releaseAll_holds holds
  rw [← List.append_nil ((shelfQueue book.asks).map _)] at bidsFreed
  obtain ⟨freed, storage, capacity⟩ := releaseAll_holds bidsFreed
  constructor
  · exact
      { bidLevels := fun _ _ found => nomatch found
        askLevels := fun _ _ found => nomatch found
        indexed :=
          { idsNodup := .nil
            exact := by simp [reset, placed, shelfNodes, OrderedMap.empty,
              OrderedMap.find?] }
        pooled := ⟨_, by simp [reset, owned], freed⟩ }
  · simp [reset, slots, owned, FixedSlotPool.slotTotal, storage, capacity,
      bidStorage, bidCapacity]

@[simp] theorem reset_sideOrders (book : OrderBook) (side : Side) :
    book.reset.sideOrders side = [] := by
  cases side <;> rfl

end OrderBook

end LimitOrderBook
