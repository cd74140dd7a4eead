import LimitOrderBook.OrderBookCalls

namespace LimitOrderBook

/-!
# Consistency of the four views

What `validate_invariants` looks for, stated on the level maps and the index:
no empty level, no zero price or quantity, exact totals, an index that holds
the live orders and points at their own nodes, and best prices, quantities and
orders taken from the best level.  Every book that calls on a new book lead to
is consistent, and the runtime checker accepts it.
-/

namespace OrderBook

variable {book : OrderBook}

/-- The levels of one side, best first. -/
def sideLevels (book : OrderBook) : Side → List (Price × PriceLevel)
  | .bid => book.bids.entries
  | .ask => book.asks.entries
  | .unlisted _ _ => []

/-- `best_bid` or `best_ask`. -/
def bestPrice (book : OrderBook) : Side → Option Price
  | .bid => book.bestBid
  | .ask => book.bestAsk
  | .unlisted _ _ => none

/-- The four best-of-side queries on an empty side. -/
structure ShowsNothing (book : OrderBook) (side : Side) : Prop where
  empty : book.sideLevels side = []
  bestPrice : book.bestPrice side = none
  bestQuantity : book.bestQuantity side = 0
  front : book.front side = none

/-- The four best-of-side queries when `level` is the best level. -/
structure ShowsLevel
    (book : OrderBook) (side : Side) (price : Price) (level : PriceLevel) :
    Prop where
  present : (price, level) ∈ book.sideLevels side
  best : ∀ other ∈ book.sideLevels side,
    other.1 = price ∨ priceLt side price other.1
  bestPrice : book.bestPrice side = some price
  bestQuantity : (book.bestQuantity side).toNat =
    (level.orders.map QueueNode.remainingQuantity).sum
  front : book.front side =
    level.orders.head?.map fun node =>
      ⟨node.orderId, side, price, node.remainingQuantity⟩

structure Consistent (book : OrderBook) : Prop where
  levels : ∀ side, ∀ entry ∈ book.sideLevels side, LevelSound entry.1 entry.2
  once : (book.placed.map fun entry => entry.node.orderId).Nodup
  handles : (book.placed.map fun entry => entry.node.handle).Nodup
  indexed : ∀ orderId location,
    book.ordersById.find? orderId = some location ↔
      ∃ level node,
        (location.price, level) ∈ book.sideLevels location.side ∧
          node ∈ level.orders ∧ node.orderId = orderId ∧
          node.handle = location.iterator
  best : ∀ side, side.Listed →
    book.ShowsNothing side ∨
      ∃ price level, book.ShowsLevel side price level

/-- Every level of a side may stand in a book. -/
theorem Wf.sideLevel
    (wf : book.Wf) {side : Side} {entry : Price × PriceLevel}
    (member : entry ∈ book.sideLevels side) : LevelWf entry.1 entry.2 := by
  cases side with
  | bid => exact wf.bidLevels.of_entry member
  | ask => exact wf.askLevels.of_entry member
  | unlisted raw outside => cases member

/-- The nodes of a book are those of its levels. -/
theorem mem_placed_iff
    {entry : PlacedNode} :
    entry ∈ book.placed ↔
      ∃ level, (entry.price, level) ∈ book.sideLevels entry.side ∧
        entry.node ∈ level.orders := by
  rw [placed, List.mem_append]
  constructor
  · rintro (isBid | isAsk)
    · obtain ⟨entrySide, level, found, member⟩ := mem_shelfNodes.mp isBid
      rw [entrySide]
      exact ⟨level, OrderedMap.mem_entries.mpr found, member⟩
    · obtain ⟨entrySide, level, found, member⟩ := mem_shelfNodes.mp isAsk
      rw [entrySide]
      exact ⟨level, OrderedMap.mem_entries.mpr found, member⟩
  · rintro ⟨level, present, member⟩
    obtain ⟨side, price, node⟩ := entry
    cases side with
    | bid =>
        exact Or.inl (mem_shelfNodes.mpr
          ⟨rfl, level, OrderedMap.mem_entries.mp present, member⟩)
    | ask =>
        exact Or.inr (mem_shelfNodes.mpr
          ⟨rfl, level, OrderedMap.mem_entries.mp present, member⟩)
    | unlisted raw outside =>
        cases present

/-- No level total leaves the 64 bits it is kept in. -/
theorem Wf.level_sum_lt
    (wf : book.Wf) (slotsFit : book.slots < 2 ^ 32) (fits : book.Fits)
    {side : Side} {entry : Price × PriceLevel}
    (member : entry ∈ book.sideLevels side) :
    (entry.2.orders.map QueueNode.remainingQuantity).sum < 2 ^ 64 := by
  have totals := wf.totalsFit (by lia) fun order live => by
    obtain ⟨other, otherLive⟩ := mem_orders.mp live
    exact fits other _ otherLive
  cases side with
  | bid => exact totals.sum_lt (fun _ => List.mem_append_left _) member
  | ask => exact totals.sum_lt (fun _ => List.mem_append_right _) member
  | unlisted raw outside => cases member

theorem Wf.levelSound
    (wf : book.Wf) (slotsFit : book.slots < 2 ^ 32) (fits : book.Fits)
    {side : Side} {entry : Price × PriceLevel}
    (member : entry ∈ book.sideLevels side) :
    LevelSound entry.1 entry.2 :=
  levelSound_iff.mpr
    ⟨wf.sideLevel member, wf.level_sum_lt slotsFit fits member⟩

/-- The best-of-side queries read the first level. -/
theorem Wf.shows_best
    (wf : book.Wf) (slotsFit : book.slots < 2 ^ 32) (fits : book.Fits)
    {side : Side} (listed : side.Listed) :
    book.ShowsNothing side ∨
      ∃ price level, book.ShowsLevel side price level := by
  have bestShape :
      book.bestPrice side = (book.sideLevels side).head?.map Prod.fst ∧
        book.bestQuantity side =
          ((book.sideLevels side).head?.map fun entry =>
            entry.2.aggregateQuantity).getD 0 ∧
        book.sideOrders side = (book.sideLevels side).flatMap fun entry =>
          levelOrders side entry.1 entry.2 := by
    rcases listed with rfl | rfl <;> exact ⟨rfl, rfl, rfl⟩
  obtain ⟨bestPrice, bestQuantity, orders⟩ := bestShape
  have sorted : (book.sideLevels side).Pairwise
      fun first second => priceLt side first.1 second.1 := by
    rcases listed with rfl | rfl
    · exact book.bids.sorted
    · exact book.asks.sorted
  cases shape : book.sideLevels side with
  | nil =>
      refine Or.inl ⟨shape, ?_, ?_, ?_⟩
      · simp [bestPrice, shape]
      · simp [bestQuantity, shape]
      · simp [wf.front_eq, orders, shape]
  | cons entry rest =>
      have member : entry ∈ book.sideLevels side := by simp [shape]
      have sound := wf.levelSound slotsFit fits member
      refine Or.inr ⟨entry.1, entry.2, member, ?_, ?_, ?_, ?_⟩
      · intro other otherMember
        rw [shape] at otherMember sorted
        rcases List.mem_cons.mp otherMember with isFirst | later
        · exact Or.inl (congrArg Prod.fst isFirst)
        · exact Or.inr ((List.pairwise_cons.mp sorted).1 other later)
      · simp [bestPrice, shape]
      · simpa [bestQuantity, shape] using sound.aggregate
      · cases queue : entry.2.orders with
        | nil => exact absurd queue sound.nonempty
        | cons node others =>
            simp [wf.front_eq, orders, shape, levelOrders, queue]

theorem Wf.consistent
    (wf : book.Wf) (slotsFit : book.slots < 2 ^ 32) (fits : book.Fits) :
    book.Consistent where
  levels _ _ member := wf.levelSound slotsFit fits member
  once := wf.indexed.idsNodup
  handles := wf.handlesApart
  indexed orderId location := by
    rw [wf.indexed.exact]
    constructor
    · rintro ⟨entry, member, sameId, rfl⟩
      obtain ⟨level, present, nodeMember⟩ := mem_placed_iff.mp member
      exact ⟨level, entry.node, present, nodeMember, sameId, rfl⟩
    · rintro ⟨level, node, present, nodeMember, sameId, sameHandle⟩
      refine ⟨⟨location.side, location.price, node⟩,
        mem_placed_iff.mpr ⟨level, present, nodeMember⟩, sameId, ?_⟩
      simp [PlacedNode.location, sameHandle]
  best _ listed := wf.shows_best slotsFit fits listed

theorem afterCalls_fits
    {calls : List BookCall} (wf : book.Wf) (fits : book.Fits)
    (callsFit : ∀ made ∈ calls, made.Fits) :
    (book.afterCalls calls).Fits := by
  induction calls generalizing book with
  | nil => exact fits
  | cons made rest inductionHypothesis =>
      exact inductionHypothesis (wf.call_wf made).1
        (wf.call_fits (callsFit made (by simp)) fits)
        fun other member => callsFit other (by simp [member])

/-- A book whose quantities fit passes its own checker. -/
theorem Wf.validates
    (wf : book.Wf) (slotsFit : book.slots < 2 ^ 32) (fits : book.Fits) :
    book.validateInvariants = true := by
  have accepted := wf.checkInvariants_ok slotsFit fun order live => by
    obtain ⟨side, sideLive⟩ := mem_orders.mp live
    exact fits side order sideLive
  rw [validateInvariants, accepted]
  rfl

/-- A new book keeps its form and its slots, and its quantities fit. -/
theorem ofPool_afterCalls
    {storage poolBytes : Nat} (storagePos : 0 < storage)
    (slotsFit : (ofPool storage poolBytes).slots < 2 ^ 32)
    {calls : List BookCall} (callsFit : ∀ made ∈ calls, made.Fits) :
    ((ofPool storage poolBytes).afterCalls calls).Wf ∧
      ((ofPool storage poolBytes).afterCalls calls).slots < 2 ^ 32 ∧
      ((ofPool storage poolBytes).afterCalls calls).Fits := by
  obtain ⟨wf, sameSlots⟩ := afterCalls_wf poolBytes storagePos calls
  rw [← sameSlots] at slotsFit
  refine ⟨wf, slotsFit, afterCalls_fits (ofPool_wf storagePos) ?_ callsFit⟩
  intro side order live
  rw [ofPool_sideOrders] at live
  cases live

/--
After any calls with any arguments and any refused heap requests, a book of
fewer than `2 ^ 32` slots is consistent and passes its own checker.
-/
theorem afterCalls_consistent
    {storage poolBytes : Nat} (storagePos : 0 < storage)
    (slotsFit : (ofPool storage poolBytes).slots < 2 ^ 32)
    (calls : List BookCall) (callsFit : ∀ made ∈ calls, made.Fits) :
    ((ofPool storage poolBytes).afterCalls calls).Consistent ∧
      ((ofPool storage poolBytes).afterCalls calls).validateInvariants =
        true := by
  obtain ⟨wf, slotsFit, fits⟩ := ofPool_afterCalls storagePos slotsFit callsFit
  exact ⟨wf.consistent slotsFit fits, wf.validates slotsFit fits⟩

/-- Two orders share a level, one moves away and fails to move back. -/
theorem afterCalls_consistent_moved :
    ((ofPool 8 64).afterCalls
        [.add {} ⟨1, .bid, 100, 10⟩, .add {} ⟨2, .bid, 100, 20⟩,
          .replace {} 1 ⟨3, .bid, 101, 5⟩ false, .execute ⟨2, 20⟩,
          .replace ⟨false, true, true⟩ 3 ⟨1, .bid, 100, 7⟩ false]).Consistent ∧
      ((ofPool 8 64).afterCalls
        [.add {} ⟨1, .bid, 100, 10⟩, .add {} ⟨2, .bid, 100, 20⟩,
          .replace {} 1 ⟨3, .bid, 101, 5⟩ false, .execute ⟨2, 20⟩,
          .replace ⟨false, true, true⟩ 3 ⟨1, .bid, 100, 7⟩
            false]).validateInvariants = true :=
  afterCalls_consistent (by decide) (by decide) _ (by simp [BookCall.Fits])

end OrderBook

end LimitOrderBook
