import LimitOrderBook.OrderBookCalls

namespace LimitOrderBook

/-!
# The flat reference model of a book

A reference book is one map from ids to side, price, remaining quantity and
arrival stamp.  It has no levels, no queues and no pool: everything it shows
comes from sorting its orders by price and stamp.  As long as no allocation
fails, the order book answers every call as the reference does and shows the
same orders in the same places.
-/

structure ReferenceOrder where
  side : Side
  price : Price
  remaining : Quantity
  stamp : Nat
  deriving DecidableEq

structure Reference where
  orders : OrderedMap OrderId ReferenceOrder (· < ·) := .empty
  clock : Nat := 0

namespace Reference

/-- Store an order under the next stamp. -/
def arrive (reference : Reference) (event : AddOrder) : Reference where
  orders := reference.orders.insert event.orderId
    ⟨event.side, event.price, event.quantity, reference.clock⟩
  clock := reference.clock + 1

/-- Change the remaining quantity of an order and nothing else. -/
def setRemaining
    (reference : Reference) (orderId : OrderId) (order : ReferenceOrder)
    (quantity : Quantity) : Reference :=
  { reference with
    orders := reference.orders.insert orderId
      { order with remaining := quantity } }

def remove (reference : Reference) (orderId : OrderId) : Reference :=
  { reference with orders := reference.orders.erase orderId }

def add (reference : Reference) (event : AddOrder) :
    Reference × ApplyResult :=
  if event.quantity = 0 then
    (reference, .invalidQuantity)
  else if event.price = 0 then
    (reference, .invalidPrice)
  else if reference.orders.contains event.orderId then
    (reference, .duplicateOrder)
  else if ¬ event.side.Listed then
    (reference, .unknownOrder)
  else
    (reference.arrive event, .ok)

def cancel (reference : Reference) (orderId : OrderId) :
    Reference × ApplyResult :=
  match reference.orders.find? orderId with
  | none => (reference, .unknownOrder)
  | some _ => (reference.remove orderId, .ok)

def execute (reference : Reference) (orderId : OrderId)
    (quantity : Quantity) : Reference × ApplyResult :=
  match reference.orders.find? orderId with
  | none => (reference, .unknownOrder)
  | some order =>
      if quantity = 0 then
        (reference, .invalidQuantity)
      else if order.remaining < quantity then
        (reference, .quantityExceedsRemaining)
      else if order.remaining = quantity then
        (reference.remove orderId, .ok)
      else
        (reference.setRemaining orderId order (order.remaining - quantity),
          .ok)

def replace (reference : Reference) (oldId : OrderId) (next : AddOrder)
    (maintainPriority : Bool) : Reference × ApplyResult :=
  match reference.orders.find? oldId with
  | none => (reference, .unknownOrder)
  | some old =>
      if next.quantity = 0 then
        (reference, .invalidQuantity)
      else if next.price = 0 then
        (reference, .invalidPrice)
      else if next.side ≠ old.side then
        (reference, .unknownOrder)
      else if next.orderId ≠ oldId ∧
          reference.orders.contains next.orderId then
        (reference, .duplicateOrder)
      else if maintainPriority then
        if next.price ≠ old.price ∨ next.orderId ≠ oldId then
          (reference, .invalidPrice)
        else
          (reference.setRemaining oldId old next.quantity, .ok)
      else
        ((reference.remove oldId).arrive next, .ok)

def call (reference : Reference) : BookCall → Reference × ApplyResult
  | .add _ event => reference.add event
  | .cancel event => reference.cancel event.orderId
  | .execute event => reference.execute event.orderId event.quantity
  | .replace _ oldId next maintainPriority =>
      reference.replace oldId next maintainPriority
  | .reset => ({ reference with orders := .empty }, .ok)

/-- The answers to a list of calls. -/
def answers (reference : Reference) : List BookCall → List ApplyResult
  | [] => []
  | made :: rest =>
      (reference.call made).2 :: answers (reference.call made).1 rest

/-- The reference after a list of calls. -/
def afterCalls (reference : Reference) (calls : List BookCall) : Reference :=
  calls.foldl (fun reference made => (reference.call made).1) reference

/-! ## What a reference shows -/

/-- The orders of a side, better prices first and then earlier arrivals. -/
def queue (reference : Reference) (side : Side) :
    List (OrderId × ReferenceOrder) :=
  (reference.orders.entries.filter fun entry =>
    decide (entry.2.side = side)).mergeSort
      (PriorityQueue.ranks (OrderBook.priceLt side)
        (fun entry => entry.2.price) (fun entry => entry.2.stamp))

def view (entry : OrderId × ReferenceOrder) : OrderView :=
  ⟨entry.1, entry.2.side, entry.2.price, entry.2.remaining⟩

def sideOrders (reference : Reference) (side : Side) : List OrderView :=
  (reference.queue side).map view

/-- The prices of a side, best first. -/
def prices (reference : Reference) (side : Side) : List Price :=
  ((reference.sideOrders side).map OrderView.price).dedup

/-- The orders of a side at one price, first in first. -/
def ordersAt (reference : Reference) (side : Side) (price : Price) :
    List OrderView :=
  (reference.sideOrders side).filter fun order => decide (order.price = price)

/-- The quantity of a side at one price. -/
def quantityAt (reference : Reference) (side : Side) (price : Price) :
    UInt64 :=
  UInt64.ofNat ((reference.ordersAt side price).map OrderView.quantity).sum

def levels (reference : Reference) (side : Side) : List LevelView :=
  (reference.prices side).map fun price =>
    ⟨side, price, reference.quantityAt side price,
      reference.ordersAt side price⟩

def snapshot (reference : Reference) : List LevelView :=
  reference.levels .bid ++ reference.levels .ask

def order (reference : Reference) (orderId : OrderId) : Option OrderView :=
  (reference.orders.find? orderId).map fun order => view (orderId, order)

end Reference

namespace OrderBook

/-- The answers to a list of calls. -/
def answers (book : OrderBook) : List BookCall → List ApplyResult
  | [] => []
  | made :: rest => (book.call made).2 :: answers (book.call made).1 rest

/-- Every query answers from a book what it would answer from a reference. -/
structure Shows (book : OrderBook) (reference : Reference) : Prop where
  snapshot : book.snapshot = reference.snapshot
  forEachOrder : ∀ {σ ε : Type} (side : Side)
    (visitor : σ → OrderView → Except ε (σ × Bool)) (state : σ),
    book.forEachOrder side visitor state =
      visitWhile visitor state (reference.sideOrders side)
  order : ∀ orderId, book.order orderId = reference.order orderId
  remainingQuantity : ∀ orderId,
    book.remainingQuantity orderId =
      (reference.order orderId).map OrderView.quantity
  front : ∀ side, book.front side = (reference.sideOrders side).head?
  bestBid : book.bestBid = (reference.prices .bid).head?
  bestAsk : book.bestAsk = (reference.prices .ask).head?
  bestQuantity : ∀ side, book.bestQuantity side =
    ((reference.prices side).head?.map (reference.quantityAt side)).getD 0
  orderCount : book.orderCount = reference.orders.size
  bidLevelCount : book.bidLevelCount = (reference.prices .bid).length
  askLevelCount : book.askLevelCount = (reference.prices .ask).length

/-! ## Levels are the price groups of the priority list -/

section Levels

variable {lt : Price → Price → Prop} [DecidableRel lt]
  [IsStrictTotalOrder Price lt] {side : Side}
  {levels : OrderedMap Price PriceLevel lt}

/-- A level's queue is the part of the priority list at its price. -/
theorem levelOrders_eq_filter
    {price : Price} {level : PriceLevel}
    (found : levels.find? price = some level) :
    levelOrders side price level =
      (shelfOrders side levels).filter
        fun order => decide (order.price = price) := by
  obtain ⟨before, after, shape, smaller, larger, _⟩ :=
    OrderedMap.split_of_find?_some found
  have elsewhere :
      ∀ entries : List (Price × PriceLevel),
        (∀ entry ∈ entries, entry.1 ≠ price) →
        (entries.flatMap fun entry =>
          levelOrders side entry.1 entry.2).filter
            (fun order => decide (order.price = price)) = [] := by
    intro entries otherPrices
    refine List.filter_eq_nil_iff.mpr fun order member => ?_
    obtain ⟨entry, entryMember, orderMember⟩ := List.mem_flatMap.mp member
    obtain ⟨node, _, rfl⟩ := List.mem_map.mp orderMember
    simpa using otherPrices entry entryMember
  have here :
      (levelOrders side price level).filter
          (fun order => decide (order.price = price)) =
        levelOrders side price level := by
    refine List.filter_eq_self.mpr fun order member => ?_
    obtain ⟨node, _, rfl⟩ := List.mem_map.mp member
    simp
  rw [shelfOrders, shape, List.flatMap_append, List.flatMap_cons,
    List.filter_append, List.filter_append, here,
    elsewhere before fun entry member same =>
      irrefl_of lt price (same ▸ smaller entry member),
    elsewhere after fun entry member same =>
      irrefl_of lt price (same ▸ larger entry member),
    List.nil_append, List.append_nil]

/-- The level prices are the prices of the priority list. -/
theorem keys_eq_dedup (wf : LevelsWf levels) :
    levels.keys =
      ((shelfOrders side levels).map OrderView.price).dedup := by
  have keysOrdered : levels.keys.Pairwise lt :=
    List.pairwise_map.mpr levels.sorted
  have inOrder :
      ((shelfOrders side levels).map OrderView.price).Pairwise
        fun first second => ¬ lt second first := by
    rw [shelfOrders_eq, List.map_map]
    exact List.pairwise_map.mpr (shelfNodes_inOrder side levels)
  have dedupOrdered :
      ((shelfOrders side levels).map OrderView.price).dedup.Pairwise lt := by
    refine ((inOrder.sublist (List.dedup_sublist _)).and
      (List.nodup_dedup _)).imp ?_
    rintro first second ⟨notWorse, different⟩
    rcases trichotomous_of lt first second with better | same | worse
    · exact better
    · exact absurd same different
    · exact absurd worse notWorse
  have sameMembers :
      ∀ price, price ∈ levels.keys ↔
        price ∈ ((shelfOrders side levels).map OrderView.price).dedup := by
    intro price
    rw [List.mem_dedup, OrderedMap.mem_keys, Option.isSome_iff_exists]
    constructor
    · rintro ⟨level, found⟩
      obtain ⟨node, nodeMember⟩ :=
        List.exists_mem_of_ne_nil _ (wf price level found).nonempty
      have inLevel : (⟨node.orderId, side, price, node.remainingQuantity⟩ :
          OrderView) ∈ levelOrders side price level :=
        List.mem_map_of_mem nodeMember
      rw [levelOrders_eq_filter found] at inLevel
      exact List.mem_map.mpr ⟨_, List.mem_of_mem_filter inLevel, rfl⟩
    · intro member
      obtain ⟨order, orderMember, rfl⟩ := List.mem_map.mp member
      obtain ⟨entry, entryMember, inLevel⟩ := List.mem_flatMap.mp orderMember
      obtain ⟨node, _, rfl⟩ := List.mem_map.mp inLevel
      exact ⟨entry.2, OrderedMap.mem_entries.mp entryMember⟩
  refine List.Perm.eq_of_pairwise ?_ keysOrdered dedupOrdered
    ((List.perm_ext_iff_of_nodup levels.keys_nodup
      (List.nodup_dedup _)).mpr sameMembers)
  intro first second _ _ before after
  exact absurd after (asymm_of lt before)

variable {reference : Reference}

/-- The views of a level map are those of a reference with its orders. -/
theorem shelfLevels_eq
    (wf : LevelsWf levels)
    (same : shelfOrders side levels = reference.sideOrders side) :
    shelfLevels side levels = reference.levels side := by
  rw [Reference.levels, Reference.prices, ← same, ← keys_eq_dedup wf,
    OrderedMap.keys, List.map_map, shelfLevels]
  refine List.map_congr_left fun entry member => ?_
  have found := OrderedMap.mem_entries.mp member
  have queue : levelOrders side entry.1 entry.2 = _ :=
    levelOrders_eq_filter found
  have levelWf := wf _ _ found
  simp only [Function.comp_apply, Reference.quantityAt, Reference.ordersAt,
    ← same, ← queue, LevelView.mk.injEq, true_and, and_true]
  rw [levelWf.aggregate, levelOrders, List.map_map]
  rfl

end Levels

end OrderBook

/-! ## Priority order of the reference -/

namespace Reference

/-- Stamps are handed out once and sides have a level map. -/
structure Wf (reference : Reference) : Prop where
  listed : ∀ orderId order, reference.orders.find? orderId = some order →
    order.side.Listed
  stamped : ∀ orderId order, reference.orders.find? orderId = some order →
    order.stamp < reference.clock
  distinct : ∀ first second order other,
    reference.orders.find? first = some order →
      reference.orders.find? second = some other →
      order.stamp = other.stamp → first = second

variable {reference : Reference} {side : Side}

abbrev Ahead (side : Side) :
    OrderId × ReferenceOrder → OrderId × ReferenceOrder → Prop :=
  PriorityQueue.Ahead (OrderBook.priceLt side) (fun entry => entry.2.price)
    (fun entry => entry.2.stamp)

theorem mem_queue
    {entry : OrderId × ReferenceOrder} :
    entry ∈ reference.queue side ↔
      reference.orders.find? entry.1 = some entry.2 ∧
        entry.2.side = side := by
  rw [queue, List.mem_mergeSort, List.mem_filter, decide_eq_true_eq,
    ← OrderedMap.mem_entries]

theorem Wf.queue_ahead (wf : reference.Wf) (side : Side) :
    (reference.queue side).Pairwise (Ahead side) := by
  refine PriorityQueue.mergeSort_ahead ?_
  refine List.Nodup.sublist (List.filter_sublist.map _) ?_
  refine List.pairwise_map.mpr ((List.pairwise_map.mp
    reference.orders.keys_nodup).imp_of_mem ?_)
  intro first second firstMember secondMember differentIds sameStamp
  exact differentIds (wf.distinct first.1 second.1 first.2 second.2
    (OrderedMap.mem_entries.mp firstMember)
    (OrderedMap.mem_entries.mp secondMember) sameStamp)

/-- A list in priority order with the right members is the queue. -/
theorem Wf.queue_eq
    (wf : reference.Wf) {items : List (OrderId × ReferenceOrder)}
    (ordered : items.Pairwise (Ahead side))
    (members : ∀ orderId order, (orderId, order) ∈ items ↔
      reference.orders.find? orderId = some order ∧ order.side = side) :
    reference.queue side = items := by
  refine PriorityQueue.eq_of_mem_iff (wf.queue_ahead side) ordered ?_
  intro entry
  rw [mem_queue, members]

theorem mem_sideOrders
    {order : OrderView} :
    order ∈ reference.sideOrders side ↔
      reference.order order.orderId = some order ∧ order.side = side := by
  simp only [sideOrders, List.mem_map, mem_queue, Reference.order,
    Option.map_eq_some_iff]
  constructor
  · rintro ⟨entry, ⟨found, entrySide⟩, rfl⟩
    exact ⟨⟨entry.2, found, rfl⟩, entrySide⟩
  · rintro ⟨⟨stored, found, shown⟩, orderSide⟩
    refine ⟨(order.orderId, stored), ⟨found, ?_⟩, shown⟩
    rw [← orderSide, ← shown]
    rfl

end Reference

namespace OrderBook

/-- A book and a reference that hold the same orders in the same order. -/
structure Refines (book : OrderBook) (reference : Reference) : Prop where
  wf : book.Wf
  referenceWf : reference.Wf
  orders : ∀ side, book.sideOrders side = reference.sideOrders side

namespace Refines

variable {book : OrderBook} {reference : Reference}

/-- Both look up the same orders. -/
theorem order_eq
    (refines : book.Refines reference) (orderId : OrderId) :
    book.order orderId = reference.order orderId := by
  cases found : reference.order orderId with
  | some order =>
      obtain ⟨stored, storedFound, rfl⟩ := Option.map_eq_some_iff.mp found
      have live : Reference.view (orderId, stored) ∈
          book.sideOrders stored.side := by
        rw [refines.orders]
        exact Reference.mem_sideOrders.mpr ⟨found, rfl⟩
      exact refines.wf.order_of_live live
  | none =>
      cases bookFound : book.ordersById.find? orderId with
      | none => simp [OrderBook.order, bookFound]
      | some location =>
          have live := refines.wf.live_of_found bookFound
          rw [refines.orders] at live
          have shown := (Reference.mem_sideOrders.mp live).1
          rw [found] at shown
          cases shown

theorem orderCount_eq (refines : book.Refines reference) :
    book.orderCount = reference.orders.size := by
  have sameKeys :
      ∀ orderId, orderId ∈ book.ordersById.keys ↔
        orderId ∈ reference.orders.keys := by
    intro orderId
    have same := congrArg Option.isSome (refines.order_eq orderId)
    simp only [OrderBook.order, Reference.order, Option.isSome_map] at same
    rw [OrderedMap.mem_keys, OrderedMap.mem_keys, same]
  have perm := (List.perm_ext_iff_of_nodup book.ordersById.keys_nodup
    reference.orders.keys_nodup).mpr sameKeys
  simpa [orderCount, OrderedMap.size, OrderedMap.keys] using perm.length_eq

/-- A book that holds the reference's orders shows what the reference shows. -/
theorem shows (refines : book.Refines reference) : book.Shows reference where
  snapshot := by
    rw [OrderBook.snapshot, Reference.snapshot,
      shelfLevels_eq refines.wf.bidLevels (refines.orders .bid),
      shelfLevels_eq refines.wf.askLevels (refines.orders .ask)]
  forEachOrder side visitor state := by
    rw [OrderBook.forEachOrder, refines.orders]
  order := refines.order_eq
  remainingQuantity orderId := by
    rw [← refines.order_eq, OrderBook.order, OrderBook.remainingQuantity,
      Option.map_map]
    rfl
  front side := by rw [refines.wf.front_eq, refines.orders]
  bestBid := by
    rw [Reference.prices, ← refines.orders]
    exact (List.head?_map ..).symm.trans
      (congrArg List.head? (keys_eq_dedup refines.wf.bidLevels))
  bestAsk := by
    rw [Reference.prices, ← refines.orders]
    exact (List.head?_map ..).symm.trans
      (congrArg List.head? (keys_eq_dedup refines.wf.askLevels))
  bestQuantity side := by
    have best : ((reference.levels side).head?.map LevelView.quantity).getD 0 =
        ((reference.prices side).head?.map
          (reference.quantityAt side)).getD 0 := by
      rw [Reference.levels, List.head?_map, Option.map_map]
      rfl
    rw [← best]
    cases side with
    | bid =>
        rw [← shelfLevels_eq refines.wf.bidLevels (refines.orders .bid),
          shelfLevels, List.head?_map, Option.map_map]
        rfl
    | ask =>
        rw [← shelfLevels_eq refines.wf.askLevels (refines.orders .ask),
          shelfLevels, List.head?_map, Option.map_map]
        rfl
    | unlisted raw outside =>
        rw [Reference.levels, Reference.prices, ← refines.orders]
        rfl
  orderCount := refines.orderCount_eq
  bidLevelCount := by
    rw [Reference.prices, ← refines.orders]
    exact (List.length_map ..).symm.trans
      (congrArg List.length (keys_eq_dedup refines.wf.bidLevels))
  askLevelCount := by
    rw [Reference.prices, ← refines.orders]
    exact (List.length_map ..).symm.trans
      (congrArg List.length (keys_eq_dedup refines.wf.askLevels))

end Refines

end OrderBook

end LimitOrderBook
