import LimitOrderBook.OrderBookLevels

namespace LimitOrderBook

/-!
# The representation invariant of the order book

`OrderBook.Wf` ties the four redundant views of a book together: level maps,
queues with their totals, index and pool.  The operations keep it, and their
effect is described once, on the priority lists `sideOrders`:

* an addition inserts behind every order that does not have a worse price,
* a cancellation removes one order,
* an execution reduces one order and removes it at zero.

The rest of the development uses these equations and never looks at levels.
-/

/-- The index holds exactly the placed nodes, each under its own id. -/
structure Indexed (placed : List PlacedNode) (index : OrderIndex) : Prop where
  idsNodup : (placed.map fun entry => entry.node.orderId).Nodup
  exact : ∀ orderId location,
    index.find? orderId = some location ↔
      ∃ entry ∈ placed,
        entry.node.orderId = orderId ∧ location = entry.location

namespace Indexed

variable {placed other : List PlacedNode} {index : OrderIndex}

theorem perm (indexed : Indexed placed index) (same : placed.Perm other) :
    Indexed other index where
  idsNodup := (same.map _).nodup_iff.mp indexed.idsNodup
  exact orderId location := by
    rw [indexed.exact]
    exact exists_congr fun entry => and_congr_left fun _ => same.mem_iff

/-- Placed nodes under one order id are the same node. -/
theorem eq_of_id
    (indexed : Indexed placed index) {first second : PlacedNode}
    (firstMember : first ∈ placed) (secondMember : second ∈ placed)
    (sameId : first.node.orderId = second.node.orderId) :
    first = second :=
  List.inj_on_of_nodup_map indexed.idsNodup firstMember secondMember sameId

theorem size_eq (indexed : Indexed placed index) :
    index.size = placed.length := by
  have sameIds :
      index.keys.Perm (placed.map fun entry => entry.node.orderId) := by
    refine (List.perm_ext_iff_of_nodup index.keys_nodup
      indexed.idsNodup).mpr fun orderId => ?_
    rw [OrderedMap.mem_keys, Option.isSome_iff_exists, List.mem_map]
    constructor
    · rintro ⟨location, found⟩
      obtain ⟨entry, member, sameId, _⟩ :=
        (indexed.exact orderId location).mp found
      exact ⟨entry, member, sameId⟩
    · rintro ⟨entry, member, sameId⟩
      exact ⟨entry.location,
        (indexed.exact orderId _).mpr ⟨entry, member, sameId, rfl⟩⟩
  have sameLength := sameIds.length_eq
  simpa [OrderedMap.size, OrderedMap.keys] using sameLength

theorem add
    (indexed : Indexed placed index) {fresh : PlacedNode}
    (unused : index.find? fresh.node.orderId = none) :
    Indexed (fresh :: placed)
      (index.insert fresh.node.orderId fresh.location) where
  idsNodup := by
    refine List.nodup_cons.mpr ⟨?_, indexed.idsNodup⟩
    intro member
    obtain ⟨entry, entryMember, sameId⟩ := List.mem_map.mp member
    have found :=
      (indexed.exact fresh.node.orderId entry.location).mpr
        ⟨entry, entryMember, sameId, rfl⟩
    rw [unused] at found
    cases found
  exact orderId location := by
    simp only [OrderedMap.find?_insert, List.mem_cons]
    split_ifs with same
    · subst same
      constructor
      · intro found
        exact ⟨fresh, Or.inl rfl, rfl, (Option.some.inj found).symm⟩
      · rintro ⟨entry, isFresh | old, sameId, rfl⟩
        · rw [isFresh]
        · have found := (indexed.exact _ entry.location).mpr
            ⟨entry, old, sameId, rfl⟩
          rw [unused] at found
          cases found
    · rw [indexed.exact]
      constructor
      · rintro ⟨entry, member, facts⟩
        exact ⟨entry, Or.inr member, facts⟩
      · rintro ⟨entry, isFresh | member, sameId, sameLocation⟩
        · exact absurd (isFresh ▸ sameId.symm) same
        · exact ⟨entry, member, sameId, sameLocation⟩

/-- A node is dropped by its handle exactly when it is erased by its id. -/
theorem handle_iff_id
    (indexed : Indexed placed index) (apart : HandlesApart placed)
    {entry target : PlacedNode}
    (entryMember : entry ∈ placed) (targetMember : target ∈ placed) :
    entry.node.handle = target.node.handle ↔
      entry.node.orderId = target.node.orderId := by
  constructor
  · intro sameHandle
    rw [apart.eq_of_handle entryMember targetMember sameHandle]
  · intro sameId
    rw [indexed.eq_of_id entryMember targetMember sameId]

theorem drop
    (indexed : Indexed placed index) (apart : HandlesApart placed)
    {target : PlacedNode} (member : target ∈ placed) :
    Indexed (placed.filterMap (dropHandle target.node.handle))
      (index.erase target.node.orderId) where
  idsNodup := by
    refine List.Nodup.sublist ?_ indexed.idsNodup
    refine List.Sublist.map _ ?_
    rw [filterMap_dropHandle]
    exact List.filter_sublist
  exact orderId location := by
    simp only [OrderedMap.find?_erase, List.mem_filterMap, dropHandle]
    split_ifs with same
    · subst same
      constructor
      · intro impossible
        cases impossible
      · rintro ⟨entry, ⟨original, originalMember, kept⟩, sameId, _⟩
        split_ifs at kept with dropped
        cases kept
        exact absurd
          ((indexed.handle_iff_id apart originalMember member).mpr sameId)
          dropped
    · rw [indexed.exact]
      constructor
      · rintro ⟨entry, entryMember, sameId, sameLocation⟩
        refine ⟨entry, ⟨entry, entryMember, ?_⟩, sameId, sameLocation⟩
        have kept : entry.node.handle ≠ target.node.handle := fun sameHandle =>
          same (sameId.symm.trans
            ((indexed.handle_iff_id apart entryMember member).mp sameHandle))
        simp [kept]
      · rintro ⟨entry, ⟨original, originalMember, kept⟩, facts⟩
        split_ifs at kept
        cases kept
        exact ⟨entry, originalMember, facts⟩

/-- Rewriting a quantity changes neither ids nor places. -/
theorem write
    (indexed : Indexed placed index) (handle : Nat) (quantity : Quantity) :
    Indexed (placed.filterMap (writeHandle handle quantity)) index where
  idsNodup := by
    have sameIds :
        (placed.filterMap (writeHandle handle quantity)).map
            (fun entry => entry.node.orderId) =
          placed.map fun entry => entry.node.orderId := by
      rw [List.map_filterMap, ← List.filterMap_eq_map]
      congr 1
      funext entry
      by_cases here : entry.node.handle = handle <;>
        simp [writeHandle, here, PlacedNode.withRemaining]
    rw [sameIds]
    exact indexed.idsNodup
  exact orderId location := by
    rw [indexed.exact]
    constructor
    · rintro ⟨entry, member, sameId, sameLocation⟩
      by_cases here : entry.node.handle = handle
      · exact ⟨entry.withRemaining quantity,
          List.mem_filterMap.mpr ⟨entry, member, by simp [writeHandle, here]⟩,
          sameId, sameLocation⟩
      · exact ⟨entry,
          List.mem_filterMap.mpr ⟨entry, member, by simp [writeHandle, here]⟩,
          sameId, sameLocation⟩
    · rintro ⟨entry, member, sameId, sameLocation⟩
      obtain ⟨original, originalMember, written⟩ :=
        List.mem_filterMap.mp member
      unfold writeHandle at written
      split_ifs at written
      · cases written
        exact ⟨original, originalMember, sameId, sameLocation⟩
      · cases written
        exact ⟨entry, originalMember, sameId, sameLocation⟩

end Indexed

/-- The handles left after dropping one. -/
theorem handles_drop
    {placed : List PlacedNode} (apart : HandlesApart placed) (handle : Nat) :
    (placed.filterMap (dropHandle handle)).map (fun entry => entry.node.handle) =
      (placed.map fun entry => entry.node.handle).erase handle := by
  rw [apart.erase_eq_filter, List.map_filterMap, List.filter_map,
    ← List.filterMap_eq_filter, List.map_filterMap]
  congr 1
  funext entry
  by_cases here : entry.node.handle = handle <;>
    simp [dropHandle, Option.guard, here]

/-- Rewriting a quantity keeps the handles. -/
theorem handles_write
    (placed : List PlacedNode) (handle : Nat) (quantity : Quantity) :
    (placed.filterMap (writeHandle handle quantity)).map
        (fun entry => entry.node.handle) =
      placed.map fun entry => entry.node.handle := by
  rw [List.map_filterMap, ← List.filterMap_eq_map]
  congr 1
  funext entry
  by_cases here : entry.node.handle = handle <;>
    simp [writeHandle, here, PlacedNode.withRemaining]

namespace FixedSlotPool

variable {pool : FixedSlotPool} {bytes alignment : Nat} {held other : List Nat}

theorem Holds.nodup (holds : pool.Holds bytes alignment held) :
    held.Nodup := by
  cases init : pool.firstInit with
  | true => exact (holds.afterInit init).heldNodup
  | false => simp [holds.beforeInit init]

/-- The order in which addresses are listed does not matter. -/
theorem Holds.perm
    (holds : pool.Holds bytes alignment held) (same : held.Perm other) :
    pool.Holds bytes alignment other where
  storagePos := holds.storagePos
  beforeInit fresh := by
    have nothingHeld := holds.beforeInit fresh
    subst nothingHeld
    exact same.nil_eq.symm
  afterInit init := by
    have ready := holds.afterInit init
    exact
      { ready with
        accounted := same.length_eq ▸ ready.accounted
        heldNodup := same.nodup_iff.mp ready.heldNodup
        heldSlot := fun address member =>
          ready.heldSlot address (same.mem_iff.mpr member) }

end FixedSlotPool

namespace OrderBook

/-- All queue nodes of a book, bids first. -/
def placed (book : OrderBook) : List PlacedNode :=
  shelfNodes .bid book.bids ++ shelfNodes .ask book.asks

/-- The number of pool slots of a book. -/
def slots (book : OrderBook) : Nat :=
  (book.pool.map fun pool => pool.slotTotal nodeBytes nodeAlignment).getD 0

/-- The four views of a book describe the same orders. -/
structure Wf (book : OrderBook) : Prop where
  bidLevels : LevelsWf book.bids
  askLevels : LevelsWf book.asks
  indexed : Indexed book.placed book.ordersById
  pooled : ∃ pool, book.pool = some pool ∧
    pool.Holds nodeBytes nodeAlignment
      (book.placed.map fun entry => entry.node.handle)

/-- Prices of one side, the better ones first. -/
def priceLt (side : Side) (first second : Price) : Prop :=
  if side = .bid then second < first else first < second

instance (side : Side) : DecidableRel (priceLt side) := fun first second =>
  inferInstanceAs
    (Decidable (if side = .bid then second < first else first < second))

instance (side : Side) : IsStrictTotalOrder Price (priceLt side) := by
  by_cases isBid : side = .bid
  · have descending : priceLt side = (· > ·) := by
      funext first second
      simp [priceLt, isBid]
    rw [descending]
    infer_instance
  · have ascending : priceLt side = (· < ·) := by
      funext first second
      simp [priceLt, isBid]
    rw [ascending]
    infer_instance

/-- The strict price priority of one side. -/
abbrev Better (side : Side) : OrderView → OrderView → Prop :=
  PriorityQueue.Outranks (priceLt side) OrderView.price

/-- The order an addition creates. -/
def addedView (event : AddOrder) : OrderView :=
  ⟨event.orderId, event.side, event.price, event.quantity⟩

/-- What an execution leaves of an order. -/
def executeView (orderId : OrderId) (quantity : Quantity) (order : OrderView) :
    Option OrderView :=
  if order.orderId = orderId then
    if order.quantity ≤ quantity then none
    else some { order with quantity := order.quantity - quantity }
  else
    some order

namespace Wf

variable {book : OrderBook}

theorem handlesApart (wf : book.Wf) : HandlesApart book.placed := by
  obtain ⟨pool, _, holds⟩ := wf.pooled
  exact holds.nodup

theorem handlesApart_bids (wf : book.Wf) :
    HandlesApart (shelfNodes .bid book.bids) := by
  have apart := wf.handlesApart
  unfold HandlesApart placed at *
  rw [List.map_append] at apart
  exact (List.nodup_append.mp apart).1

theorem handlesApart_asks (wf : book.Wf) :
    HandlesApart (shelfNodes .ask book.asks) := by
  have apart := wf.handlesApart
  unfold HandlesApart placed at *
  rw [List.map_append] at apart
  exact (List.nodup_append.mp apart).2.1

/-- The index holds as many orders as the levels. -/
theorem orderCount_eq (wf : book.Wf) :
    book.orderCount = book.placed.length :=
  wf.indexed.size_eq

end Wf

end OrderBook

end LimitOrderBook
