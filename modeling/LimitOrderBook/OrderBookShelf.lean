import LimitOrderBook.OrderBookInvariant

namespace LimitOrderBook

/-!
# What the operations do to one side

The bodies that the source shares between its two sides, described on the
priority list of the side they work on: an addition inserts, a cancellation
and an execution rewrite node by node, a kept priority writes one quantity and
a move removes the old order and lets the new one arrive.

Additions and moves allocate at several points.  Whatever fails, the levels
and the index are as before; all a failed attempt can leave behind is the slot
layout that the first allocation of a pool sets up.

A side is described together with the nodes of the other side, which share its
index and its pool.
-/

namespace Shelf

variable {lt : Price → Price → Prop}

/-- A side fits together with the nodes of the other side. -/
structure Wf (side : Side) (others : List PlacedNode) (shelf : Shelf lt) :
    Prop where
  levels : LevelsWf shelf.levels
  indexed : Indexed (shelfNodes side shelf.levels ++ others) shelf.index
  pooled : shelf.pool.Holds nodeBytes nodeAlignment
    ((shelfNodes side shelf.levels ++ others).map
      fun entry => entry.node.handle)

/-- What an operation on one side does to its priority list. -/
structure Becomes
    (side : Side) (others : List PlacedNode)
    (change : List OrderView → List OrderView) (shelf next : Shelf lt) :
    Prop where
  wf : next.Wf side others
  sameSlots : next.pool.slotTotal nodeBytes nodeAlignment =
    shelf.pool.slotTotal nodeBytes nodeAlignment
  orders : OrderBook.shelfOrders side next.levels =
    change (OrderBook.shelfOrders side shelf.levels)

/-- Nothing changed but that the pool may have been set up. -/
structure Restored (shelf next : Shelf lt) : Prop where
  levels : next.levels = shelf.levels
  index : next.index = shelf.index
  pool : next.pool = shelf.pool ∨
    shelf.pool.prepare true nodeBytes nodeAlignment = some next.pool

/-- An operation that allocates: it goes through, or it restores the side. -/
def Tries
    (side : Side) (others : List PlacedNode)
    (change : List OrderView → List OrderView) (shelf : Shelf lt)
    (outcome : Shelf lt × ApplyResult) : Prop :=
  (∃ next, outcome = (next, .allocationFailed) ∧ shelf.Restored next) ∨
    ∃ next, outcome = (next, .ok) ∧ shelf.Becomes side others change next

/-- Nothing has changed. -/
theorem Restored.refl (shelf : Shelf lt) : shelf.Restored shelf :=
  ⟨rfl, rfl, Or.inl rfl⟩

variable {side : Side} {others : List PlacedNode} {shelf : Shelf lt}

/-- No two nodes of the book share an address. -/
theorem Wf.handlesApart (wf : shelf.Wf side others) :
    HandlesApart (shelfNodes side shelf.levels ++ others) :=
  wf.pooled.nodup

/-- Nor do those of one side. -/
theorem Wf.shelfApart (wf : shelf.Wf side others) :
    HandlesApart (shelfNodes side shelf.levels) := by
  have apart := wf.handlesApart
  unfold HandlesApart at *
  rw [List.map_append] at apart
  exact (List.nodup_append.mp apart).1

/-- A handle of this side is not a handle of the other. -/
theorem Wf.handle_ne_other
    (wf : shelf.Wf side others) {entry other : PlacedNode}
    (member : entry ∈ shelfNodes side shelf.levels)
    (otherMember : other ∈ others) :
    entry.node.handle ≠ other.node.handle := by
  have apart := wf.handlesApart
  unfold HandlesApart at apart
  rw [List.map_append] at apart
  exact (List.nodup_append.mp apart).2.2 _
    (List.mem_map_of_mem member) _ (List.mem_map_of_mem otherMember)

/-- A rewriting by handle on this side leaves the other side alone. -/
theorem Wf.rewrite_others
    (wf : shelf.Wf side others) {entry : PlacedNode}
    (member : entry ∈ shelfNodes side shelf.levels)
    {rewrite : PlacedNode → Option PlacedNode}
    (elsewhere : ∀ other : PlacedNode,
      other.node.handle ≠ entry.node.handle → rewrite other = some other) :
    others.filterMap rewrite = others :=
  filterMap_of_fixed fun other otherMember =>
    elsewhere other (wf.handle_ne_other member otherMember).symm

/-- A node at another address stays. -/
theorem dropHandle_other
    {handle : Nat} {other : PlacedNode} (apart : other.node.handle ≠ handle) :
    dropHandle handle other = some other := by
  simp [dropHandle, apart]

/-- A node at another address is not written. -/
theorem writeHandle_other
    {handle : Nat} {quantity : Quantity} {other : PlacedNode}
    (apart : other.node.handle ≠ handle) :
    writeHandle handle quantity other = some other := by
  simp [writeHandle, apart]

/-- A rewriting by handle shows as a rewriting by id on the views. -/
theorem Wf.views_rewrite
    (wf : shelf.Wf side others) {entry : PlacedNode}
    (member : entry ∈ shelfNodes side shelf.levels)
    {rewrite : PlacedNode → Option PlacedNode}
    {change : OrderView → Option OrderView}
    (elsewhere : ∀ other : PlacedNode,
      other.node.handle ≠ entry.node.handle → rewrite other = some other)
    (viewElsewhere : ∀ order : OrderView,
      order.orderId ≠ entry.node.orderId → change order = some order)
    (here : (rewrite entry).map PlacedNode.view = change entry.view) :
    ((shelfNodes side shelf.levels).filterMap rewrite).map PlacedNode.view =
      (OrderBook.shelfOrders side shelf.levels).filterMap change := by
  rw [shelfOrders_eq, List.map_filterMap, List.filterMap_map]
  refine List.filterMap_congr fun other otherMember => ?_
  by_cases sameId : other.node.orderId = entry.node.orderId
  · rw [wf.indexed.eq_of_id (List.mem_append_left _ otherMember)
      (List.mem_append_left _ member) sameId]
    exact here
  · have apart : other.node.handle ≠ entry.node.handle := fun same =>
      sameId ((wf.indexed.handle_iff_id wf.handlesApart
        (List.mem_append_left _ otherMember)
        (List.mem_append_left _ member)).mp same)
    rw [elsewhere other apart]
    exact (viewElsewhere other.view sameId).symm

/-- The orders of a side are its nodes as they are seen. -/
theorem shelfOrders_of_nodes
    {levels : OrderedMap Price PriceLevel lt} {nodes : List PlacedNode}
    {orders : List OrderView} (shape : shelfNodes side levels = nodes)
    (views : nodes.map PlacedNode.view = orders) :
    OrderBook.shelfOrders side levels = orders := by
  rw [shelfOrders_eq, shape, views]

/-- A cancellation on the views. -/
def cancelView (orderId : OrderId) (order : OrderView) : Option OrderView :=
  if order.orderId = orderId then none else some order

/-- A cancellation leaves the orders with other ids. -/
theorem filterMap_cancelView (orderId : OrderId) (orders : List OrderView) :
    orders.filterMap (cancelView orderId) =
      orders.filter fun order => decide (order.orderId ≠ orderId) := by
  rw [← List.filterMap_eq_filter]
  congr 1
  funext order
  by_cases same : order.orderId = orderId <;>
    simp [cancelView, Option.guard, same]

/-- A kept priority writes the quantity of one order. -/
def writeView (orderId : OrderId) (quantity : Quantity) (order : OrderView) :
    OrderView :=
  if order.orderId = orderId then { order with quantity := quantity }
  else order

/-- Writing a quantity touches neither the index nor the pool. -/
theorem Wf.write
    (wf : shelf.Wf side others) {entry : PlacedNode}
    (member : entry ∈ shelfNodes side shelf.levels) {quantity : Quantity}
    {levels : OrderedMap Price PriceLevel lt} (levelsWf : LevelsWf levels)
    (nodes : shelfNodes side levels =
      (shelfNodes side shelf.levels).filterMap
        (writeHandle entry.node.handle quantity)) :
    Wf side others { shelf with levels := levels } := by
  have both :
      shelfNodes side levels ++ others =
        (shelfNodes side shelf.levels ++ others).filterMap
          (writeHandle entry.node.handle quantity) := by
    rw [List.filterMap_append,
      wf.rewrite_others member fun _ apart => writeHandle_other apart, nodes]
  refine ⟨levelsWf, ?_, ?_⟩
  · rw [both]
    exact wf.indexed.write _ _
  · rw [both, handles_write]
    exact wf.pooled

variable [DecidableRel lt] [IsStrictTotalOrder Price lt]

/-- Erasing the level this call created gives the old levels back. -/
theorem rollback_tryEmplace
    (levels : OrderedMap Price PriceLevel lt) (price : Price) :
    rollbackLevel (tryEmplaceLevel levels price).1 price
        (tryEmplaceLevel levels price).2.2 = levels := by
  cases found : levels.find? price with
  | none =>
      simp [tryEmplaceLevel, rollbackLevel, found,
        OrderedMap.erase_of_find?_none found]
  | some level =>
      simp [tryEmplaceLevel, rollbackLevel, found]

/-- The level that is found or made is the one at the price. -/
theorem tryEmplace_level
    (levels : OrderedMap Price PriceLevel lt) (price : Price) :
    (tryEmplaceLevel levels price).2.1 = levelAt levels price := by
  cases found : levels.find? price <;> simp [tryEmplaceLevel, levelAt, found]

/-- Making a level and writing it is writing it. -/
theorem insert_tryEmplace
    (levels : OrderedMap Price PriceLevel lt) (price : Price)
    (level : PriceLevel) :
    (tryEmplaceLevel levels price).1.insert price level =
      levels.insert price level := by
  cases found : levels.find? price <;> simp [tryEmplaceLevel, found]

/-- A slot taken and returned leaves the side as it was. -/
theorem restored_of_undo
    {held : List Nat}
    (holds : shelf.pool.Holds nodeBytes nodeAlignment held)
    {metadata : Bool} {pool : FixedSlotPool} {handle : Nat}
    (served : shelf.pool.allocate metadata nodeBytes nodeAlignment =
      (pool, .address handle))
    (price : Price) :
    shelf.Restored
      { levels := rollbackLevel (tryEmplaceLevel shelf.levels price).1 price
          (tryEmplaceLevel shelf.levels price).2.2
        pool := pool.deallocate handle nodeBytes
        index := shelf.index } where
  levels := rollback_tryEmplace shelf.levels price
  index := rfl
  pool := by
    have undone := FixedSlotPool.allocate_undo (by decide) (by decide)
      (by decide) holds served
    exact Or.inr (FixedSlotPool.prepare_ready (by decide) (by decide) holds
      undone).1

/-- An add that finds no node leaves the side as it was. -/
theorem restored_of_refused
    {held : List Nat}
    (holds : shelf.pool.Holds nodeBytes nodeAlignment held)
    {metadata : Bool} {pool : FixedSlotPool}
    (refused : shelf.pool.allocate metadata nodeBytes nodeAlignment =
      (pool, .badAlloc))
    (price : Price) :
    shelf.Restored
      { shelf with
        levels := rollbackLevel (tryEmplaceLevel shelf.levels price).1 price
          (tryEmplaceLevel shelf.levels price).2.2
        pool := pool } where
  levels := rollback_tryEmplace shelf.levels price
  index := rfl
  pool := Or.inl
    (FixedSlotPool.allocate_badAlloc holds (by decide) (by decide) refused)

/-- The pool never answers a node request with the null pointer. -/
theorem allocate_ne_null
    (pool next : FixedSlotPool) (metadata : Bool) :
    pool.allocate metadata nodeBytes nodeAlignment ≠ (next, .null) := by
  intro isNull
  have bytesNe : nodeBytes ≠ 0 := by decide
  cases prepared : pool.prepare metadata nodeBytes nodeAlignment with
  | none =>
      simp [FixedSlotPool.allocate, prepared, bytesNe] at isNull
  | some ready =>
      simp only [FixedSlotPool.allocate, bytesNe, if_false, prepared,
        FixedSlotPool.take] at isNull
      split_ifs at isNull <;> cases isNull

/-- An addition of an unused id adds its node or restores the side. -/
theorem addTo_cases
    {held : List Nat}
    (holds : shelf.pool.Holds nodeBytes nodeAlignment held)
    (heap : HeapGrants) {event : AddOrder}
    (unused : shelf.index.find? event.orderId = none) :
    (∃ next, shelf.addTo heap event = (next, .allocationFailed) ∧
      shelf.Restored next) ∨
    ∃ pool handle,
      shelf.pool.allocate heap.poolMetadata nodeBytes nodeAlignment =
          (pool, .address handle) ∧
        shelf.addTo heap event =
          (⟨appendNode shelf.levels event.price
              ⟨handle, event.orderId, event.quantity⟩, pool,
            shelf.index.insert event.orderId
              ⟨event.side, event.price, handle⟩⟩, .ok) := by
  have contained : shelf.index.contains event.orderId = false := by
    simp [OrderedMap.contains, unused]
  by_cases noNode :
      shelf.levels.find? event.price = none ∧ heap.levelNode = false
  · exact Or.inl ⟨shelf, by simp [addTo, noNode], .refl shelf⟩
  rcases served :
      shelf.pool.allocate heap.poolMetadata nodeBytes nodeAlignment with
    ⟨pool, answer⟩
  cases answer with
  | null => exact absurd served (allocate_ne_null _ _ _)
  | badAlloc =>
      exact Or.inl ⟨_, by simp only [addTo, noNode, if_false, served],
        restored_of_refused holds served event.price⟩
  | address handle =>
      by_cases granted : heap.indexNode = false
      · refine Or.inl ⟨_, ?_, restored_of_undo holds served event.price⟩
        simp only [addTo, noNode, if_false, served, contained, granted,
          if_true, Bool.false_eq_true]
      · refine Or.inr ⟨pool, handle, rfl, ?_⟩
        simp only [addTo, noNode, if_false, served, contained, granted,
          Bool.false_eq_true, Bool.true_eq_false, insert_tryEmplace,
          tryEmplace_level, appendNode]

/-- An add that gets a node appends it to its level. -/
theorem addTo_ok
    (shelf : Shelf lt) {event : AddOrder} {pool : FixedSlotPool} {handle : Nat}
    (served : shelf.pool.allocate true nodeBytes nodeAlignment =
      (pool, .address handle))
    (unused : shelf.index.find? event.orderId = none) :
    shelf.addTo {} event =
      (⟨appendNode shelf.levels event.price
          ⟨handle, event.orderId, event.quantity⟩, pool,
        shelf.index.insert event.orderId
          ⟨event.side, event.price, handle⟩⟩, .ok) := by
  cases found : shelf.levels.find? event.price with
  | none =>
      simp [addTo, tryEmplaceLevel, found, served, OrderedMap.contains, unused,
        appendNode, levelAt]
  | some level =>
      simp [addTo, tryEmplaceLevel, found, served, OrderedMap.contains, unused,
        appendNode, levelAt]

/-- An add to a full pool changes nothing. -/
theorem addTo_full
    (shelf : Shelf lt) (event : AddOrder) {heap : HeapGrants}
    (refused : shelf.pool.allocate heap.poolMetadata nodeBytes nodeAlignment =
      (shelf.pool, .badAlloc)) :
    shelf.addTo heap event = (shelf, .allocationFailed) := by
  cases found : shelf.levels.find? event.price with
  | none =>
      have restored := OrderedMap.erase_of_find?_none found
      by_cases granted : heap.levelNode = false
      · simp [addTo, found, granted]
      · simp [addTo, tryEmplaceLevel, rollbackLevel, found, granted, refused,
          restored]
  | some level =>
      simp [addTo, tryEmplaceLevel, rollbackLevel, found, refused]

/-- What a granted addition does to its side. -/
theorem addTo_becomes
    {pool : FixedSlotPool} {handle : Nat} {metadata : Bool}
    (wf : shelf.Wf side others) {event : AddOrder}
    (sameSide : event.side = side)
    (pricePos : event.price ≠ 0) (quantityPos : event.quantity ≠ 0)
    (unused : shelf.index.find? event.orderId = none)
    (served : shelf.pool.allocate metadata nodeBytes nodeAlignment =
      (pool, .address handle)) :
    shelf.Becomes side others
      (List.orderedInsert (PriorityQueue.Outranks lt OrderView.price)
        (OrderBook.addedView event))
      ⟨appendNode shelf.levels event.price
          ⟨handle, event.orderId, event.quantity⟩, pool,
        shelf.index.insert event.orderId
          ⟨event.side, event.price, handle⟩⟩ := by
  let node : QueueNode := ⟨handle, event.orderId, event.quantity⟩
  obtain ⟨_, storage, capacity, holds⟩ :=
    FixedSlotPool.allocate_address (by decide) (by decide) wf.pooled served
  have perm :
      ((⟨side, event.price, node⟩ : PlacedNode) ::
          (shelfNodes side shelf.levels ++ others)).Perm
        (shelfNodes side (appendNode shelf.levels event.price node) ++
          others) := by
    rw [shelfNodes_appendNode]
    exact ((List.perm_orderedInsert _ _ _).append_right others).symm
  have indexed :
      Indexed
        (⟨side, event.price, node⟩ ::
          (shelfNodes side shelf.levels ++ others))
        (shelf.index.insert event.orderId ⟨side, event.price, handle⟩) :=
    wf.indexed.add unused
  rw [sameSide]
  refine ⟨⟨appendNode_wf wf.levels pricePos quantityPos, indexed.perm perm,
    holds.perm (perm.map fun entry : PlacedNode => entry.node.handle)⟩, ?_, ?_⟩
  · simp [FixedSlotPool.slotTotal, storage, capacity]
  · simp only [OrderBook.addedView, sameSide]
    exact shelfOrders_appendNode side shelf.levels event.price node

/-- An add puts its order in its place, or fails for want of memory. -/
theorem addTo_tries
    (wf : shelf.Wf side others) {event : AddOrder}
    (sameSide : event.side = side)
    (pricePos : event.price ≠ 0) (quantityPos : event.quantity ≠ 0)
    (unused : shelf.index.find? event.orderId = none) (heap : HeapGrants) :
    shelf.Tries side others
      (List.orderedInsert (PriorityQueue.Outranks lt OrderView.price)
        (OrderBook.addedView event))
      (shelf.addTo heap event) := by
  rcases addTo_cases wf.pooled heap unused with
    failed | ⟨next, handle, served, added⟩
  · exact Or.inl failed
  · exact Or.inr ⟨_, added,
      addTo_becomes wf sameSide pricePos quantityPos unused served⟩

/-- What the removal of an indexed node does to its side. -/
theorem unlink_becomes
    {entry : PlacedNode} {level : PriceLevel} (wf : shelf.Wf side others)
    (member : entry ∈ shelfNodes side shelf.levels)
    (found : shelf.levels.find? entry.price = some level)
    {change : OrderView → Option OrderView}
    (viewElsewhere : ∀ order : OrderView,
      order.orderId ≠ entry.node.orderId → change order = some order)
    (here : change entry.view = none) :
    shelf.Becomes side others (List.filterMap change)
      (shelf.unlink entry.node.orderId entry.location level
        entry.node.remainingQuantity) := by
  have shelfMember : entry ∈ shelfNodes side shelf.levels ++ others :=
    List.mem_append_left _ member
  obtain ⟨levelsWf, nodes⟩ := unlink_levels shelf wf.levels wf.shelfApart
    member found entry.node.orderId
  obtain ⟨released, storage, capacity⟩ :=
    FixedSlotPool.deallocate_held (by decide) (by decide) wf.pooled
      (List.mem_map.mpr ⟨entry, shelfMember, rfl⟩)
  have both :
      shelfNodes side (shelf.unlink entry.node.orderId entry.location level
          entry.node.remainingQuantity).levels ++ others =
        (shelfNodes side shelf.levels ++ others).filterMap
          (dropHandle entry.node.handle) := by
    rw [List.filterMap_append,
      wf.rewrite_others member fun _ apart => dropHandle_other apart, nodes]
  refine ⟨⟨levelsWf, ?_, ?_⟩, ?_, ?_⟩
  · rw [both]
    exact wf.indexed.drop wf.handlesApart shelfMember
  · rw [both, handles_drop wf.handlesApart]
    exact released
  · simp only [unlink, PlacedNode.location, FixedSlotPool.slotTotal, storage,
      capacity]
  · refine shelfOrders_of_nodes nodes (wf.views_rewrite member
      (fun _ apart => dropHandle_other apart) viewElsewhere ?_)
    simp [dropHandle, here]

/-- A cancellation takes out its order and no other. -/
theorem cancelFrom_becomes
    {entry : PlacedNode} (wf : shelf.Wf side others)
    (member : entry ∈ shelfNodes side shelf.levels) :
    ∃ next,
      shelf.cancelFrom entry.node.orderId entry.location = (next, .ok) ∧
        shelf.Becomes side others
          (List.filterMap (cancelView entry.node.orderId)) next := by
  obtain ⟨_, level, found, _⟩ := mem_shelfNodes.mp member
  have taken := remainingAt_of_placed wf.shelfApart member found
  refine ⟨_, ?_, unlink_becomes wf member found ?_ ?_⟩
  · simp only [cancelFrom, PlacedNode.location, found, taken]
  · intro order apart
    simp [cancelView, apart]
  · simp [cancelView, PlacedNode.view]

/-- An execution of at most the remaining quantity. -/
theorem executeOn_becomes
    {entry : PlacedNode} (wf : shelf.Wf side others)
    (member : entry ∈ shelfNodes side shelf.levels) {quantity : Quantity}
    (enough : quantity ≤ entry.node.remainingQuantity) :
    ∃ next,
      shelf.executeOn entry.node.orderId entry.location quantity =
          (next, .ok) ∧
        shelf.Becomes side others
          (List.filterMap
            (OrderBook.executeView entry.node.orderId quantity)) next := by
  obtain ⟨_, level, found, _⟩ := mem_shelfNodes.mp member
  have taken := remainingAt_of_placed wf.shelfApart member found
  have viewElsewhere :
      ∀ order : OrderView, order.orderId ≠ entry.node.orderId →
        OrderBook.executeView entry.node.orderId quantity order =
          some order := by
    intro order apart
    simp [OrderBook.executeView, apart]
  rcases Nat.lt_or_eq_of_le enough with partly | all
  · obtain ⟨levelsWf, nodes⟩ := reduce_levels shelf wf.levels wf.shelfApart
      member found partly
    refine ⟨_, ?_, wf.write member levelsWf nodes, rfl,
      shelfOrders_of_nodes nodes (wf.views_rewrite member
        (fun _ apart => writeHandle_other apart) viewElsewhere ?_)⟩
    · simp [executeOn, PlacedNode.location, found, taken,
        Nat.sub_ne_zero_of_lt partly]
    · simp [writeHandle, OrderBook.executeView, PlacedNode.view,
        PlacedNode.withRemaining, Nat.not_le.mpr partly]
  · subst all
    refine ⟨_, ?_, unlink_becomes wf member found viewElsewhere ?_⟩
    · simp [executeOn, PlacedNode.location, found, taken]
    · simp [OrderBook.executeView, PlacedNode.view]

/-- A new quantity is written to one order. -/
theorem adjust_becomes
    {entry : PlacedNode} (wf : shelf.Wf side others)
    (member : entry ∈ shelfNodes side shelf.levels) {quantity : Quantity}
    (quantityPos : quantity ≠ 0) :
    ∃ next,
      shelf.adjust entry.location quantity = (next, .ok) ∧
        shelf.Becomes side others
          (List.map (writeView entry.node.orderId quantity)) next := by
  obtain ⟨_, level, found, _⟩ := mem_shelfNodes.mp member
  have taken := remainingAt_of_placed wf.shelfApart member found
  obtain ⟨levelsWf, nodes⟩ := write_levels shelf wf.levels wf.shelfApart
    member found quantityPos
  refine ⟨_, ?_, wf.write member levelsWf nodes, rfl, ?_⟩
  · simp only [adjust, PlacedNode.location, found, Option.getD_some, taken]
  · rw [← List.filterMap_eq_map]
    refine shelfOrders_of_nodes nodes (wf.views_rewrite member
      (fun _ apart => writeHandle_other apart) ?_ ?_)
    · intro order apart
      simp [writeView, apart]
    · simp [writeHandle, writeView, PlacedNode.view,
        PlacedNode.withRemaining]

/-- Moving a node links the new one and unlinks the old one. -/
theorem commitMove_eq
    {levels : OrderedMap Price PriceLevel lt} {previous : PriceLevel}
    (old : OrderLocation) (next : AddOrder) (handle : Nat)
    (pool : FixedSlotPool) (index : OrderIndex) (oldId : OrderId)
    (found : (appendNode levels next.price
      ⟨handle, next.orderId, next.quantity⟩).find? old.price =
        some previous) :
    commitMove (tryEmplaceLevel levels next.price).1
        (tryEmplaceLevel levels next.price).2.1 handle old next =
      (unlink
        ⟨appendNode levels next.price ⟨handle, next.orderId, next.quantity⟩,
          pool, index⟩
        oldId old previous (previous.remainingAt old.iterator)).levels := by
  simp only [appendNode, OrderedMap.find?_insert] at found
  simp only [commitMove, insert_tryEmplace, tryEmplace_level, unlink,
    OrderedMap.find?_insert]
  split_ifs at found with samePrice
  · -- The order stays at its price: one level takes both changes.
    cases found
    have sameTaken :
        PriceLevel.remainingAt
            { levelAt levels next.price with
              orders := (levelAt levels next.price).orders ++
                [⟨handle, next.orderId, next.quantity⟩] } old.iterator =
          PriceLevel.remainingAt
            { orders := (levelAt levels next.price).orders ++
                [⟨handle, next.orderId, next.quantity⟩]
              aggregateQuantity :=
                (levelAt levels next.price).aggregateQuantity +
                  UInt64.ofNat next.quantity } old.iterator := rfl
    simp only [samePrice, if_true, Option.getD_some, PriceLevel.eraseNode,
      sameTaken]
    have swapped :
        ∀ taken : UInt64,
          (levelAt levels next.price).aggregateQuantity - taken +
              UInt64.ofNat next.quantity =
            (levelAt levels next.price).aggregateQuantity +
                UInt64.ofNat next.quantity - taken := by
      intro taken
      rw [UInt64.sub_eq_add_neg, UInt64.sub_eq_add_neg, UInt64.add_assoc,
        UInt64.add_comm (-taken), ← UInt64.add_assoc]
    apply OrderedMap.ext_find?
    intro price
    split_ifs <;> by_cases here : price = next.price <;>
      simp [here, OrderedMap.modify, swapped, appendNode]
  · simp only [samePrice, if_false, found, Option.getD_some]
    apply OrderedMap.ext_find?
    intro price
    have apart : next.price ≠ old.price := fun same => samePrice same.symm
    split_ifs <;> by_cases atNew : price = next.price <;>
      by_cases atOld : price = old.price <;>
      simp_all [OrderedMap.modify, appendNode]

/-- A move to an id that is free unlinks the old node or restores the side. -/
theorem moveTo_cases
    {held : List Nat}
    (holds : shelf.pool.Holds nodeBytes nodeAlignment held)
    (heap : HeapGrants) (oldId : OrderId) (old : OrderLocation)
    (next : AddOrder) :
    (∃ restored,
      shelf.moveTo heap oldId old next = (restored, .allocationFailed) ∧
        shelf.Restored restored) ∨
    ∃ pool handle,
      shelf.pool.allocate heap.poolMetadata nodeBytes nodeAlignment =
          (pool, .address handle) ∧
        shelf.moveTo heap oldId old next =
          (⟨commitMove (tryEmplaceLevel shelf.levels next.price).1
              (tryEmplaceLevel shelf.levels next.price).2.1 handle old next,
            pool.deallocate old.iterator nodeBytes,
            if next.orderId = oldId then
              shelf.index.insert oldId ⟨next.side, next.price, handle⟩
            else
              (shelf.index.emplace next.orderId
                ⟨next.side, next.price, handle⟩).erase oldId⟩, .ok) := by
  by_cases noNode :
      shelf.levels.find? next.price = none ∧ heap.levelNode = false
  · exact Or.inl ⟨shelf, by simp [moveTo, noNode], .refl shelf⟩
  rcases served :
      shelf.pool.allocate heap.poolMetadata nodeBytes nodeAlignment with
    ⟨pool, answer⟩
  cases answer with
  | null => exact absurd served (allocate_ne_null _ _ _)
  | badAlloc =>
      exact Or.inl ⟨_, by simp only [moveTo, noNode, if_false, served],
        restored_of_refused holds served next.price⟩
  | address handle =>
      by_cases refused : next.orderId ≠ oldId ∧ heap.indexNode = false
      · refine Or.inl ⟨_, ?_, restored_of_undo holds served next.price⟩
        simp only [moveTo, noNode, if_false, served, refused, if_true,
          and_self, ne_eq, not_false_eq_true]
      · refine Or.inr ⟨pool, handle, rfl, ?_⟩
        simp only [moveTo, noNode, if_false, served, refused]

/-- A move on the priority list: the old order leaves, the new one arrives. -/
def movedOrders (lt : Price → Price → Prop) [DecidableRel lt]
    (oldId : OrderId) (next : AddOrder) (orders : List OrderView) :
    List OrderView :=
  (orders.filterMap (cancelView oldId)).orderedInsert
    (PriorityQueue.Outranks lt OrderView.price) (OrderBook.addedView next)

/-- The levels after a move and their nodes. -/
theorem commitMove_levels
    {handle : Nat} {entry : PlacedNode} (wf : shelf.Wf side others)
    (member : entry ∈ shelfNodes side shelf.levels) (next : AddOrder)
    (pricePos : next.price ≠ 0) (quantityPos : next.quantity ≠ 0)
    (unheld : ∀ other ∈ shelfNodes side shelf.levels,
      other.node.handle ≠ handle) :
    let levels := commitMove (tryEmplaceLevel shelf.levels next.price).1
      (tryEmplaceLevel shelf.levels next.price).2.1 handle entry.location next
    LevelsWf levels ∧
      shelfNodes side levels =
        ((shelfNodes side shelf.levels).orderedInsert
          (PriorityQueue.Outranks lt PlacedNode.price)
          ⟨side, next.price, handle, next.orderId, next.quantity⟩).filterMap
            (dropHandle entry.node.handle) := by
  intro levels
  let node : QueueNode := ⟨handle, next.orderId, next.quantity⟩
  let linked : Shelf lt :=
    ⟨appendNode shelf.levels next.price node, shelf.pool, shelf.index⟩
  have linkedNodes := shelfNodes_appendNode side shelf.levels next.price node
  have linkedPerm :
      (shelfNodes side linked.levels).Perm
        (⟨side, next.price, node⟩ :: shelfNodes side shelf.levels) := by
    rw [linkedNodes]
    exact List.perm_orderedInsert _ _ _
  have linkedApart : HandlesApart (shelfNodes side linked.levels) := by
    refine (linkedPerm.map _).nodup_iff.mpr (List.nodup_cons.mpr
      ⟨?_, wf.shelfApart⟩)
    intro held
    obtain ⟨other, otherMember, sameHandle⟩ := List.mem_map.mp held
    exact unheld other otherMember sameHandle
  have linkedMember : entry ∈ shelfNodes side linked.levels :=
    linkedPerm.mem_iff.mpr (List.mem_cons_of_mem _ member)
  obtain ⟨_, previous, found, _⟩ := mem_shelfNodes.mp linkedMember
  have taken := remainingAt_of_placed linkedApart linkedMember found
  have unlinked := unlink_levels linked
    (appendNode_wf wf.levels pricePos quantityPos) linkedApart linkedMember
    found entry.node.orderId
  have shape := commitMove_eq entry.location next handle shelf.pool
    shelf.index entry.node.orderId found
  have sameTaken :
      previous.remainingAt entry.location.iterator =
        entry.node.remainingQuantity := taken
  rw [sameTaken] at shape
  rw [← linkedNodes]
  simp only [levels, shape]
  exact unlinked

/-- What a move with everything allocated does to its side. -/
theorem moveTo_becomes
    {pool : FixedSlotPool} {handle : Nat} {entry : PlacedNode}
    {metadata : Bool} (wf : shelf.Wf side others)
    (member : entry ∈ shelfNodes side shelf.levels) {next : AddOrder}
    (sameSide : next.side = side)
    (pricePos : next.price ≠ 0) (quantityPos : next.quantity ≠ 0)
    (unused : next.orderId = entry.node.orderId ∨
      shelf.index.find? next.orderId = none)
    (served : shelf.pool.allocate metadata nodeBytes nodeAlignment =
      (pool, .address handle)) :
    shelf.Becomes side others (movedOrders lt entry.node.orderId next)
      ⟨commitMove (tryEmplaceLevel shelf.levels next.price).1
          (tryEmplaceLevel shelf.levels next.price).2.1 handle entry.location
          next,
        pool.deallocate entry.node.handle nodeBytes,
        if next.orderId = entry.node.orderId then
          shelf.index.insert entry.node.orderId
            ⟨next.side, next.price, handle⟩
        else
          (shelf.index.emplace next.orderId
            ⟨next.side, next.price, handle⟩).erase entry.node.orderId⟩ := by
  let nodes := shelfNodes side shelf.levels
  let added : PlacedNode :=
    ⟨side, next.price, handle, next.orderId, next.quantity⟩
  have shelfMember : entry ∈ nodes ++ others := List.mem_append_left _ member
  obtain ⟨fresh, storage, capacity, holds⟩ :=
    FixedSlotPool.allocate_address (by decide) (by decide) wf.pooled served
  have unheld : ∀ other ∈ nodes ++ others, other.node.handle ≠ handle :=
    fun other otherMember same =>
      fresh (same ▸ List.mem_map_of_mem otherMember)
  obtain ⟨levelsWf, movedNodes⟩ := commitMove_levels wf member next pricePos
    quantityPos fun other otherMember =>
      unheld other (List.mem_append_left _ otherMember)
  have addedKept :
      dropHandle entry.node.handle added = some added := by
    simp [dropHandle, added, (unheld entry shelfMember).symm]
  -- Both sides together: the old node is out, the new one in.
  have perm :
      ((nodes.orderedInsert (PriorityQueue.Outranks lt PlacedNode.price)
            added).filterMap (dropHandle entry.node.handle) ++ others).Perm
        (added ::
          (nodes ++ others).filterMap (dropHandle entry.node.handle)) := by
    have inserted := (List.perm_orderedInsert
      (PriorityQueue.Outranks lt PlacedNode.price) added nodes).filterMap
        (dropHandle entry.node.handle)
    rw [List.filterMap_cons, addedKept] at inserted
    rw [List.filterMap_append,
      wf.rewrite_others member fun _ apart => dropHandle_other apart]
    exact inserted.append_right others
  have indexEq :
      (if next.orderId = entry.node.orderId then
          shelf.index.insert entry.node.orderId
            ⟨next.side, next.price, handle⟩
        else
          (shelf.index.emplace next.orderId
            ⟨next.side, next.price, handle⟩).erase entry.node.orderId) =
        (shelf.index.erase entry.node.orderId).insert next.orderId
          ⟨next.side, next.price, handle⟩ := by
    split_ifs with sameId
    · rw [sameId, OrderedMap.insert_erase]
    · have missing := unused.resolve_left sameId
      rw [OrderedMap.emplace_of_find?_none missing,
        OrderedMap.erase_insert_of_ne _ _ sameId]
  have freed : (shelf.index.erase entry.node.orderId).find? next.orderId =
      none := by
    rcases unused with sameId | missing
    · simp [sameId]
    · simp [missing]
  refine ⟨⟨levelsWf, ?_, ?_⟩, ?_, ?_⟩
  · have indexed :
        Indexed
          (added ::
            (nodes ++ others).filterMap (dropHandle entry.node.handle))
          ((shelf.index.erase entry.node.orderId).insert next.orderId
            ⟨side, next.price, handle⟩) :=
      (wf.indexed.drop wf.handlesApart shelfMember).add freed
    rw [indexEq, movedNodes, sameSide]
    exact indexed.perm perm.symm
  · obtain ⟨released, _, _⟩ := FixedSlotPool.deallocate_held (by decide)
      (by decide) holds (List.mem_cons_of_mem _
        (List.mem_map_of_mem (f := fun entry : PlacedNode =>
          entry.node.handle) shelfMember))
    rw [List.erase_cons_tail (by
      simpa using (unheld entry shelfMember).symm)] at released
    refine released.perm ?_
    have handles := perm.symm.map fun entry : PlacedNode => entry.node.handle
    rw [List.map_cons, handles_drop wf.handlesApart] at handles
    rw [movedNodes]
    exact handles
  · obtain ⟨_, releasedStorage, releasedCapacity⟩ :=
      FixedSlotPool.deallocate_held (by decide) (by decide) holds
        (List.mem_cons_of_mem _ (List.mem_map_of_mem
          (f := fun entry : PlacedNode => entry.node.handle) shelfMember))
    simp [FixedSlotPool.slotTotal, releasedStorage, releasedCapacity, storage,
      capacity]
  · have views :
        ((shelfNodes side shelf.levels).filterMap
            (dropHandle entry.node.handle)).map PlacedNode.view =
          (OrderBook.shelfOrders side shelf.levels).filterMap
            (cancelView entry.node.orderId) :=
      wf.views_rewrite member
      (fun _ apart => dropHandle_other apart)
      (fun _ apart => by simp [cancelView, apart])
      (by simp [dropHandle, cancelView, PlacedNode.view])
    have keptAdded :
        decide (added.node.handle ≠ entry.node.handle) = true := by
      simpa [added] using (unheld entry shelfMember).symm
    have sameView : OrderBook.addedView next = added.view := by
      simp [OrderBook.addedView, added, PlacedNode.view, sameSide]
    rw [movedOrders, ← views, sameView]
    refine shelfOrders_of_nodes movedNodes ?_
    simp only [filterMap_dropHandle]
    rw [PriorityQueue.filter_orderedInsert (shelfNodes_inOrder side _)
      keptAdded]
    exact List.map_orderedInsert (PriorityQueue.Outranks lt PlacedNode.price)
      (PriorityQueue.Outranks lt OrderView.price) PlacedNode.view _ added
      (fun _ _ => Iff.rfl) (fun _ _ => Iff.rfl)

/-- An order moves behind those at its new price, or nothing changes. -/
theorem moveTo_tries
    {entry : PlacedNode} (wf : shelf.Wf side others)
    (member : entry ∈ shelfNodes side shelf.levels) {next : AddOrder}
    (sameSide : next.side = side)
    (pricePos : next.price ≠ 0) (quantityPos : next.quantity ≠ 0)
    (unused : next.orderId = entry.node.orderId ∨
      shelf.index.find? next.orderId = none) (heap : HeapGrants) :
    shelf.Tries side others (movedOrders lt entry.node.orderId next)
      (shelf.moveTo heap entry.node.orderId entry.location next) := by
  rcases moveTo_cases wf.pooled heap entry.node.orderId entry.location next
    with failed | ⟨pool, handle, served, moved⟩
  · exact Or.inl failed
  · exact Or.inr ⟨_, moved,
      moveTo_becomes wf member sameSide pricePos quantityPos unused served⟩

end Shelf

end LimitOrderBook
