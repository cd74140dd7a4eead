import LimitOrderBook.OrderBook
import LimitOrderBook.PriorityQueue
import Mathlib.Tactic.SplitIfs

namespace LimitOrderBook

/-!
# Level maps as one priority list

A level map holds its orders nested: levels in price order, and in each level
a queue.  This module flattens it.  Appending a node to its level is insertion
behind every node that does not have a worse price; unlinking a node and
rewriting one act on the flat list node by node.  What the order book proves
about its views comes from these three equations.
-/

/-- A queue node together with the level it stands in. -/
structure PlacedNode where
  side : Side
  price : Price
  node : QueueNode
  deriving DecidableEq

namespace PlacedNode

/-- What the book shows of a node. -/
def view (placed : PlacedNode) : OrderView :=
  ⟨placed.node.orderId, placed.side, placed.price,
    placed.node.remainingQuantity⟩

/-- The index entry that points at a node. -/
def location (placed : PlacedNode) : OrderLocation :=
  ⟨placed.side, placed.price, placed.node.handle⟩

/-- The node with another remaining quantity. -/
def withRemaining (placed : PlacedNode) (quantity : Quantity) : PlacedNode :=
  { placed with node := { placed.node with remainingQuantity := quantity } }

end PlacedNode

/-- A level that may stand in a book. -/
structure LevelWf (price : Price) (level : PriceLevel) : Prop where
  pricePos : price ≠ 0
  nonempty : level.orders ≠ []
  positive : ∀ node ∈ level.orders, node.remainingQuantity ≠ 0
  aggregate : level.aggregateQuantity =
    UInt64.ofNat (level.orders.map QueueNode.remainingQuantity).sum

/-- A level that may stand in a book and has the exact total. -/
structure LevelSound (price : Price) (level : PriceLevel) : Prop where
  pricePos : price ≠ 0
  nonempty : level.orders ≠ []
  positive : ∀ node ∈ level.orders, node.remainingQuantity ≠ 0
  aggregate : level.aggregateQuantity.toNat =
    (level.orders.map QueueNode.remainingQuantity).sum

theorem levelSound_iff {price : Price} {level : PriceLevel} :
    LevelSound price level ↔
      LevelWf price level ∧
        (level.orders.map QueueNode.remainingQuantity).sum < 2 ^ 64 := by
  constructor
  · rintro ⟨pricePos, nonempty, positive, aggregate⟩
    exact ⟨⟨pricePos, nonempty, positive,
      by rw [← aggregate, UInt64.ofNat_toNat]⟩,
      aggregate ▸ level.aggregateQuantity.toNat_lt⟩
  · rintro ⟨⟨pricePos, nonempty, positive, aggregate⟩, fits⟩
    exact ⟨pricePos, nonempty, positive,
      by rw [aggregate, UInt64.toNat_ofNat_of_lt' fits]⟩

section Shelf

variable {lt : Price → Price → Prop}

/-- Every level of a map may stand in a book. -/
def LevelsWf (levels : OrderedMap Price PriceLevel lt) : Prop :=
  ∀ price level, levels.find? price = some level → LevelWf price level

/-- The nodes of one level. -/
def levelNodes (side : Side) (entry : Price × PriceLevel) : List PlacedNode :=
  entry.2.orders.map fun node => ⟨side, entry.1, node⟩

/-- The nodes of a level map in the order of its iteration. -/
def shelfNodes (side : Side) (levels : OrderedMap Price PriceLevel lt) :
    List PlacedNode :=
  levels.entries.flatMap (levelNodes side)

theorem shelfOrders_eq
    (side : Side) (levels : OrderedMap Price PriceLevel lt) :
    OrderBook.shelfOrders side levels =
      (shelfNodes side levels).map PlacedNode.view := by
  simp only [OrderBook.shelfOrders, shelfNodes, List.map_flatMap]
  congr 1
  funext entry
  simp [OrderBook.levelOrders, levelNodes, PlacedNode.view]

variable [IsStrictTotalOrder Price lt]

theorem mem_shelfNodes
    {side : Side} {levels : OrderedMap Price PriceLevel lt}
    {placed : PlacedNode} :
    placed ∈ shelfNodes side levels ↔
      placed.side = side ∧
        ∃ level, levels.find? placed.price = some level ∧
          placed.node ∈ level.orders := by
  simp only [shelfNodes, List.mem_flatMap, levelNodes, List.mem_map]
  constructor
  · rintro ⟨⟨price, level⟩, member, node, nodeMember, rfl⟩
    exact ⟨rfl, level, OrderedMap.mem_entries.mp member, nodeMember⟩
  · rintro ⟨rfl, level, found, nodeMember⟩
    exact ⟨(placed.price, level), OrderedMap.mem_entries.mpr found,
      placed.node, nodeMember, rfl⟩

/-- Iteration goes from the best price to the worst. -/
theorem shelfNodes_inOrder
    (side : Side) (levels : OrderedMap Price PriceLevel lt) :
    PriorityQueue.InOrder lt PlacedNode.price (shelfNodes side levels) := by
  refine List.pairwise_flatMap.mpr ⟨?_, levels.sorted.imp ?_⟩
  · intro entry _
    refine List.pairwise_map.mpr (List.pairwise_of_forall fun _ _ => ?_)
    exact irrefl_of lt entry.1
  · intro first second before left leftMember right rightMember
    obtain ⟨_, _, rfl⟩ := List.mem_map.mp leftMember
    obtain ⟨_, _, rfl⟩ := List.mem_map.mp rightMember
    exact asymm_of lt before

theorem LevelsWf.of_entry
    {levels : OrderedMap Price PriceLevel lt}
    (wf : LevelsWf levels) {entry : Price × PriceLevel}
    (member : entry ∈ levels.entries) :
    LevelWf entry.1 entry.2 :=
  wf entry.1 entry.2 (OrderedMap.mem_entries.mp member)

end Shelf

section Insertion

open PriorityQueue

variable {lt : Price → Price → Prop} [DecidableRel lt]
  [IsStrictTotalOrder Price lt]

/-- The level a node is appended to, empty when it does not exist yet. -/
def levelAt (levels : OrderedMap Price PriceLevel lt) (price : Price) :
    PriceLevel :=
  (levels.find? price).getD {}

/-- Append a node to the queue of its level. -/
def appendNode
    (levels : OrderedMap Price PriceLevel lt) (price : Price)
    (node : QueueNode) : OrderedMap Price PriceLevel lt :=
  levels.insert price
    { orders := (levelAt levels price).orders ++ [node]
      aggregateQuantity :=
        (levelAt levels price).aggregateQuantity +
          UInt64.ofNat node.remainingQuantity }

/-- Appending is insertion behind everything that is not worse. -/
theorem shelfNodes_appendNode
    (side : Side) (levels : OrderedMap Price PriceLevel lt)
    (price : Price) (node : QueueNode) :
    shelfNodes side (appendNode levels price node) =
      (shelfNodes side levels).orderedInsert (Outranks lt PlacedNode.price)
        ⟨side, price, node⟩ := by
  have smallerStays :
      ∀ {entries : List (Price × PriceLevel)},
        (∀ entry ∈ entries, lt entry.1 price) →
        ∀ placed ∈ entries.flatMap (levelNodes side),
          ¬ Outranks lt PlacedNode.price ⟨side, price, node⟩ placed := by
    intro entries smaller placed member
    obtain ⟨entry, entryMember, nodeMember⟩ := List.mem_flatMap.mp member
    obtain ⟨other, _, rfl⟩ := List.mem_map.mp nodeMember
    exact asymm_of lt (smaller entry entryMember)
  have largerAfter :
      ∀ {entries : List (Price × PriceLevel)},
        (∀ entry ∈ entries, lt price entry.1) →
        ∀ placed ∈ entries.flatMap (levelNodes side),
          Outranks lt PlacedNode.price ⟨side, price, node⟩ placed := by
    intro entries larger placed member
    obtain ⟨entry, entryMember, nodeMember⟩ := List.mem_flatMap.mp member
    obtain ⟨other, _, rfl⟩ := List.mem_map.mp nodeMember
    exact larger entry entryMember
  cases found : levels.find? price with
  | none =>
      obtain ⟨before, after, shape, smaller, larger, inserted⟩ :=
        OrderedMap.split_of_find?_none found
      simp only [shelfNodes, appendNode, levelAt, found, inserted, shape,
        List.flatMap_append, List.flatMap_cons, Option.getD_none]
      rw [orderedInsert_append (smallerStays smaller),
        orderedInsert_head (largerAfter larger)]
      simp [levelNodes]
  | some level =>
      obtain ⟨before, after, shape, smaller, larger, inserted, _⟩ :=
        OrderedMap.split_of_find?_some found
      have levelStays :
          ∀ placed ∈ levelNodes side (price, level),
            ¬ Outranks lt PlacedNode.price ⟨side, price, node⟩ placed := by
        intro placed member
        obtain ⟨other, _, rfl⟩ := List.mem_map.mp member
        exact irrefl_of lt price
      simp only [shelfNodes, appendNode, levelAt, found, inserted, shape,
        List.flatMap_append, List.flatMap_cons, Option.getD_some]
      rw [orderedInsert_append (smallerStays smaller),
        orderedInsert_append levelStays,
        orderedInsert_head (largerAfter larger)]
      simp [levelNodes]

theorem shelfOrders_appendNode
    (side : Side) (levels : OrderedMap Price PriceLevel lt)
    (price : Price) (node : QueueNode) :
    OrderBook.shelfOrders side (appendNode levels price node) =
      (OrderBook.shelfOrders side levels).orderedInsert
        (Outranks lt OrderView.price)
        ⟨node.orderId, side, price, node.remainingQuantity⟩ := by
  rw [shelfOrders_eq, shelfOrders_eq, shelfNodes_appendNode]
  exact List.map_orderedInsert (Outranks lt PlacedNode.price)
    (Outranks lt OrderView.price) PlacedNode.view _ ⟨side, price, node⟩
    (fun _ _ => Iff.rfl) (fun _ _ => Iff.rfl)

theorem appendNode_wf
    {levels : OrderedMap Price PriceLevel lt}
    (wf : LevelsWf levels) {price : Price} {node : QueueNode}
    (pricePos : price ≠ 0) (quantityPos : node.remainingQuantity ≠ 0) :
    LevelsWf (appendNode levels price node) := by
  intro other level found
  simp only [appendNode, OrderedMap.find?_insert] at found
  split_ifs at found with same
  · cases found
    subst same
    have previous :
        (∀ queued ∈ (levelAt levels other).orders,
            queued.remainingQuantity ≠ 0) ∧
          (levelAt levels other).aggregateQuantity =
            UInt64.ofNat ((levelAt levels other).orders.map
              QueueNode.remainingQuantity).sum := by
      unfold levelAt
      cases existing : levels.find? other with
      | none => simp
      | some level =>
          exact ⟨(wf other level existing).positive,
            (wf other level existing).aggregate⟩
    refine ⟨pricePos, by simp, ?_, ?_⟩
    · intro queued member
      rcases List.mem_append.mp member with old | new
      · exact previous.1 queued old
      · exact List.mem_singleton.mp new ▸ quantityPos
    · simp [previous.2]
  · exact wf other level found

end Insertion

section Unlinking

variable {lt : Price → Price → Prop}

/-- Nodes of a map under pairwise different handles. -/
def HandlesApart (nodes : List PlacedNode) : Prop :=
  (nodes.map fun placed => placed.node.handle).Nodup

/-- A node is determined by its handle. -/
theorem HandlesApart.eq_of_handle
    {nodes : List PlacedNode} (apart : HandlesApart nodes)
    {first second : PlacedNode}
    (firstMember : first ∈ nodes) (secondMember : second ∈ nodes)
    (sameHandle : first.node.handle = second.node.handle) :
    first = second :=
  List.inj_on_of_nodup_map apart firstMember secondMember sameHandle

/-- The queue behind a handle that is present. -/
theorem PriceLevel.remainingAt_of_mem
    {level : PriceLevel} {node : QueueNode}
    (member : node ∈ level.orders)
    (unique : ∀ other ∈ level.orders,
      other.handle = node.handle → other = node) :
    level.remainingAt node.handle = node.remainingQuantity := by
  unfold PriceLevel.remainingAt
  cases found :
      level.orders.find? (fun other => decide (other.handle = node.handle)) with
  | none =>
      have missing := List.find?_eq_none.mp found node member
      simp at missing
  | some other =>
      have sameHandle : other.handle = node.handle := by
        simpa using List.find?_some found
      have same : other = node :=
        unique other (List.mem_of_find?_eq_some found) sameHandle
      simp [same]

/-- A rewriting that keeps every element keeps the list. -/
theorem filterMap_of_fixed
    {α : Type} {items : List α} {rewrite : α → Option α}
    (fixed : ∀ item ∈ items, rewrite item = some item) :
    items.filterMap rewrite = items := by
  induction items with
  | nil =>
      rfl
  | cons head rest inductionHypothesis =>
      rw [List.filterMap_cons, fixed head (by simp)]
      simp only [List.cons.injEq, true_and]
      exact inductionHypothesis fun item member =>
        fixed item (by simp [member])

/-- Rewriting the queue of one level rewrites the flat list there. -/
theorem shelfNodes_insert_level
    [IsStrictTotalOrder Price lt] [DecidableRel lt]
    (side : Side) {levels : OrderedMap Price PriceLevel lt}
    {price : Price} {level fresh : PriceLevel}
    (found : levels.find? price = some level)
    (rewrite : PlacedNode → Option PlacedNode)
    (elsewhere : ∀ placed ∈ shelfNodes side levels,
      placed.price ≠ price → rewrite placed = some placed)
    (here : levelNodes side (price, fresh) =
      (levelNodes side (price, level)).filterMap rewrite) :
    shelfNodes side (levels.insert price fresh) =
        (shelfNodes side levels).filterMap rewrite ∧
      (fresh.orders = [] →
        shelfNodes side (levels.erase price) =
          (shelfNodes side levels).filterMap rewrite) := by
  obtain ⟨before, after, shape, smaller, larger, inserted, erased⟩ :=
    OrderedMap.split_of_find?_some found
  -- Levels at other prices are left alone.
  have untouched :
      ∀ entries : List (Price × PriceLevel),
        (∀ entry ∈ entries, entry ∈ levels.entries ∧ entry.1 ≠ price) →
        (entries.flatMap (levelNodes side)).filterMap rewrite =
          entries.flatMap (levelNodes side) := by
    intro entries inside
    have fixed :
        ∀ placed ∈ entries.flatMap (levelNodes side),
          rewrite placed = some placed := by
      intro placed member
      obtain ⟨entry, entryMember, nodeMember⟩ := List.mem_flatMap.mp member
      obtain ⟨isEntry, otherPrice⟩ := inside entry entryMember
      have shelfMember : placed ∈ shelfNodes side levels :=
        List.mem_flatMap.mpr ⟨entry, isEntry, nodeMember⟩
      obtain ⟨node, _, rfl⟩ := List.mem_map.mp nodeMember
      exact elsewhere _ shelfMember otherPrice
    exact filterMap_of_fixed fixed
  have beforeSame := untouched before fun entry member =>
    ⟨by rw [shape]; simp [member], fun same =>
      irrefl_of lt price (same ▸ smaller entry member)⟩
  have afterSame := untouched after fun entry member =>
    ⟨by rw [shape]; simp [member], fun same =>
      irrefl_of lt price (same ▸ larger entry member)⟩
  constructor
  · simp only [shelfNodes, inserted, shape, List.flatMap_append,
      List.flatMap_cons, List.filterMap_append, beforeSame, afterSame, here]
  · intro emptied
    have hereEmpty :
        (levelNodes side (price, level)).filterMap rewrite = [] := by
      rw [← here]
      simp [levelNodes, emptied]
    simp only [shelfNodes, erased, shape, List.flatMap_append,
      List.flatMap_cons, List.filterMap_append, beforeSame, afterSame,
      hereEmpty, List.nil_append]

/-- Keep every node but the one under a handle. -/
def dropHandle (handle : Nat) (placed : PlacedNode) : Option PlacedNode :=
  if placed.node.handle = handle then none else some placed

theorem filterMap_dropHandle (handle : Nat) (nodes : List PlacedNode) :
    nodes.filterMap (dropHandle handle) =
      nodes.filter fun placed => decide (placed.node.handle ≠ handle) := by
  rw [← List.filterMap_eq_filter]
  congr 1
  funext placed
  by_cases same : placed.node.handle = handle <;>
    simp [dropHandle, Option.guard, same]

/-- Rewrite the remaining quantity of the node under a handle. -/
def writeHandle (handle : Nat) (quantity : Quantity) (placed : PlacedNode) :
    Option PlacedNode :=
  if placed.node.handle = handle then
    some (placed.withRemaining quantity)
  else
    some placed

theorem levelNodes_eraseNode
    (side : Side) (price : Price) (level : PriceLevel) (handle : Nat)
    (aggregate : UInt64) :
    levelNodes side (price, ⟨level.eraseNode handle, aggregate⟩) =
      (levelNodes side (price, level)).filterMap (dropHandle handle) := by
  simp only [levelNodes, PriceLevel.eraseNode, List.filterMap_map]
  induction level.orders with
  | nil =>
      rfl
  | cons head rest inductionHypothesis =>
      by_cases same : head.handle = handle
      · simpa [dropHandle, same] using inductionHypothesis
      · simpa [dropHandle, same] using inductionHypothesis

theorem levelNodes_setRemaining
    (side : Side) (price : Price) (level : PriceLevel) (handle : Nat)
    (quantity : Quantity) (aggregate : UInt64) :
    levelNodes side (price, ⟨level.setRemaining handle quantity, aggregate⟩) =
      (levelNodes side (price, level)).filterMap
        (writeHandle handle quantity) := by
  simp only [levelNodes, PriceLevel.setRemaining, List.filterMap_map,
    List.map_map]
  induction level.orders with
  | nil =>
      rfl
  | cons head rest inductionHypothesis =>
      by_cases same : head.handle = handle
      · simpa [writeHandle, same, PlacedNode.withRemaining] using
          inductionHypothesis
      · simpa [writeHandle, same] using inductionHypothesis

variable {side : Side} {levels : OrderedMap Price PriceLevel lt}
  {placed : PlacedNode} {level : PriceLevel}

/-- A node under its handle stands in no level of another price. -/
theorem other_price_of_handle
    (apart : HandlesApart (shelfNodes side levels))
    (member : placed ∈ shelfNodes side levels)
    {other : PlacedNode} (otherMember : other ∈ shelfNodes side levels)
    (otherPrice : other.price ≠ placed.price) :
    other.node.handle ≠ placed.node.handle := by
  intro sameHandle
  exact otherPrice
    (congrArg PlacedNode.price
      (apart.eq_of_handle otherMember member sameHandle))

theorem remainingAt_of_placed
    [IsStrictTotalOrder Price lt]
    (apart : HandlesApart (shelfNodes side levels))
    (member : placed ∈ shelfNodes side levels)
    (found : levels.find? placed.price = some level) :
    level.remainingAt placed.node.handle = placed.node.remainingQuantity := by
  obtain ⟨sameSide, stored, storedFound, nodeMember⟩ :=
    mem_shelfNodes.mp member
  rw [found] at storedFound
  cases storedFound
  refine PriceLevel.remainingAt_of_mem nodeMember fun other otherMember same => ?_
  have otherPlaced :
      (⟨side, placed.price, other⟩ : PlacedNode) ∈ shelfNodes side levels :=
    mem_shelfNodes.mpr ⟨rfl, level, found, otherMember⟩
  exact congrArg PlacedNode.node (apart.eq_of_handle otherPlaced member same)

/-- The sum over a queue splits off one node. -/
theorem sum_eraseNode
    {orders : List QueueNode} {node : QueueNode}
    (member : node ∈ orders)
    (distinct : (orders.map QueueNode.handle).Nodup) :
    (orders.map QueueNode.remainingQuantity).sum =
      node.remainingQuantity +
        ((orders.filter fun other => decide (other.handle ≠ node.handle)).map
          QueueNode.remainingQuantity).sum := by
  induction orders with
  | nil =>
      cases member
  | cons head rest inductionHypothesis =>
      obtain ⟨headApart, restDistinct⟩ := List.nodup_cons.mp distinct
      rcases List.mem_cons.mp member with isHead | inRest
      · subst isHead
        have restKept :
            rest.filter (fun other => decide (other.handle ≠ node.handle)) =
              rest := by
          refine List.filter_eq_self.mpr fun other otherMember => ?_
          have apart : other.handle ≠ node.handle := fun same =>
            headApart (same ▸ List.mem_map_of_mem otherMember)
          simpa using apart
        rw [List.filter_cons_of_neg (by simp), restKept]
        simp
      · have headKept : head.handle ≠ node.handle := fun same =>
          headApart (same ▸ List.mem_map_of_mem inRest)
        have restSplit := inductionHypothesis inRest restDistinct
        rw [List.filter_cons_of_pos (by simpa using headKept)]
        simp only [List.map_cons, List.sum_cons]
        lia

/-- The sum over a queue exchanges one remaining quantity. -/
theorem sum_setRemaining
    {level : PriceLevel} {node : QueueNode} (quantity : Quantity)
    (member : node ∈ level.orders)
    (distinct : (level.orders.map QueueNode.handle).Nodup) :
    ((level.setRemaining node.handle quantity).map
        QueueNode.remainingQuantity).sum + node.remainingQuantity =
      (level.orders.map QueueNode.remainingQuantity).sum + quantity := by
  obtain ⟨orders, aggregate⟩ := level
  simp only [PriceLevel.setRemaining] at member distinct ⊢
  induction orders with
  | nil =>
      cases member
  | cons head rest inductionHypothesis =>
      obtain ⟨headApart, restDistinct⟩ := List.nodup_cons.mp distinct
      rcases List.mem_cons.mp member with isHead | inRest
      · subst isHead
        have restKept :
            rest.map (fun other =>
                if other.handle = node.handle then
                  { other with remainingQuantity := quantity }
                else other) = rest := by
          refine (List.map_congr_left fun other otherMember => ?_).trans
            (List.map_id rest)
          have apart : other.handle ≠ node.handle := fun same =>
            headApart (same ▸ List.mem_map_of_mem otherMember)
          simp [apart]
        simp only [List.map_cons, List.sum_cons, restKept, if_true]
        lia
      · have headKept : head.handle ≠ node.handle := fun same =>
          headApart (same ▸ List.mem_map_of_mem inRest)
        have restSplit := inductionHypothesis inRest restDistinct
        simp only [List.map_cons, List.sum_cons, headKept, if_false]
        lia

theorem handles_nodup_of_level
    [IsStrictTotalOrder Price lt] [DecidableRel lt]
    (apart : HandlesApart (shelfNodes side levels))
    {price : Price} (found : levels.find? price = some level) :
    (level.orders.map QueueNode.handle).Nodup := by
  obtain ⟨before, after, shape, _⟩ := OrderedMap.split_of_find?_some found
  unfold HandlesApart shelfNodes at apart
  rw [shape, List.flatMap_append, List.flatMap_cons, List.map_append,
    List.map_append] at apart
  have middle := (List.nodup_append.mp (List.nodup_append.mp apart).2.1).1
  simpa [levelNodes, Function.comp_def] using middle

end Unlinking

namespace Shelf

variable {lt : Price → Price → Prop} [IsStrictTotalOrder Price lt]
  [DecidableRel lt] {side : Side} {placed : PlacedNode}

/-- Unlinking a node takes exactly that node out of the flat list. -/
theorem unlink_levels
    (shelf : Shelf lt) (wf : LevelsWf shelf.levels)
    (apart : HandlesApart (shelfNodes side shelf.levels))
    (member : placed ∈ shelfNodes side shelf.levels)
    {level : PriceLevel}
    (found : shelf.levels.find? placed.price = some level)
    (orderId : OrderId) :
    let next := shelf.unlink orderId placed.location level
      placed.node.remainingQuantity
    LevelsWf next.levels ∧
      shelfNodes side next.levels =
        (shelfNodes side shelf.levels).filterMap
          (dropHandle placed.node.handle) := by
  intro next
  obtain ⟨_, stored, storedFound, nodeMember⟩ := mem_shelfNodes.mp member
  rw [found] at storedFound
  cases storedFound
  have levelWf := wf placed.price level found
  have flattened :=
    shelfNodes_insert_level side found
      (dropHandle placed.node.handle)
      (fun other otherMember otherPrice => by
        simp [dropHandle,
          other_price_of_handle apart member otherMember otherPrice])
      (levelNodes_eraseNode side placed.price level placed.node.handle
        (level.aggregateQuantity -
          UInt64.ofNat placed.node.remainingQuantity))
  by_cases emptied : level.eraseNode placed.node.handle = []
  · have nextLevels : next.levels = shelf.levels.erase placed.price := by
      simp [next, unlink, PlacedNode.location, emptied]
    rw [nextLevels]
    refine ⟨?_, flattened.2 emptied⟩
    intro price other otherFound
    simp only [OrderedMap.find?_erase] at otherFound
    split_ifs at otherFound
    exact wf price other otherFound
  · have nextLevels :
        next.levels = shelf.levels.insert placed.price
          ⟨level.eraseNode placed.node.handle,
            level.aggregateQuantity -
              UInt64.ofNat placed.node.remainingQuantity⟩ := by
      simp [next, unlink, PlacedNode.location, emptied]
    rw [nextLevels]
    refine ⟨?_, flattened.1⟩
    intro price other otherFound
    simp only [OrderedMap.find?_insert] at otherFound
    split_ifs at otherFound with same
    · cases otherFound
      subst same
      refine ⟨levelWf.pricePos, emptied, ?_, ?_⟩
      · intro node kept
        exact levelWf.positive node (List.mem_of_mem_filter kept)
      · have split := sum_eraseNode nodeMember (handles_nodup_of_level apart found)
        simp only [levelWf.aggregate, PriceLevel.eraseNode]
        rw [split, UInt64.ofNat_add, UInt64.add_comm, UInt64.add_sub_cancel]
    · exact wf price other otherFound

/-- Rewriting a node's remaining quantity rewrites it in the flat list. -/
theorem write_levels
    (shelf : Shelf lt) (wf : LevelsWf shelf.levels)
    (apart : HandlesApart (shelfNodes side shelf.levels))
    (member : placed ∈ shelfNodes side shelf.levels)
    {level : PriceLevel}
    (found : shelf.levels.find? placed.price = some level)
    {quantity : Quantity} (quantityPos : quantity ≠ 0) :
    let next := shelf.levels.insert placed.price
      { orders := level.setRemaining placed.node.handle quantity
        aggregateQuantity :=
          level.aggregateQuantity -
              UInt64.ofNat placed.node.remainingQuantity +
            UInt64.ofNat quantity }
    LevelsWf next ∧
      shelfNodes side next =
        (shelfNodes side shelf.levels).filterMap
          (writeHandle placed.node.handle quantity) := by
  intro next
  obtain ⟨_, stored, storedFound, nodeMember⟩ := mem_shelfNodes.mp member
  rw [found] at storedFound
  cases storedFound
  have levelWf := wf placed.price level found
  refine ⟨?_, (shelfNodes_insert_level side found _ ?_
    (levelNodes_setRemaining side placed.price level placed.node.handle
      quantity _)).1⟩
  · intro price other otherFound
    simp only [next, OrderedMap.find?_insert] at otherFound
    split_ifs at otherFound with same
    · cases otherFound
      subst same
      refine ⟨levelWf.pricePos, ?_, ?_, ?_⟩
      · simpa [PriceLevel.setRemaining] using levelWf.nonempty
      · intro node written
        obtain ⟨original, originalMember, rfl⟩ := List.mem_map.mp written
        by_cases here : original.handle = placed.node.handle
        · simpa [here] using quantityPos
        · simpa [here] using levelWf.positive original originalMember
      · have exchanged := congrArg UInt64.ofNat
          (sum_setRemaining quantity nodeMember
            (handles_nodup_of_level apart found))
        simp only [UInt64.ofNat_add] at exchanged
        simp only [levelWf.aggregate]
        grind
    · exact wf price other otherFound
  · intro other otherMember otherPrice
    simp [writeHandle,
      other_price_of_handle apart member otherMember otherPrice]

/-- An execution of a part takes that part off the running total. -/
theorem reduce_levels
    (shelf : Shelf lt) (wf : LevelsWf shelf.levels)
    (apart : HandlesApart (shelfNodes side shelf.levels))
    (member : placed ∈ shelfNodes side shelf.levels)
    {level : PriceLevel}
    (found : shelf.levels.find? placed.price = some level)
    {taken : Quantity} (partly : taken < placed.node.remainingQuantity) :
    let left := placed.node.remainingQuantity - taken
    let next := shelf.levels.insert placed.price
      { orders := level.setRemaining placed.node.handle left
        aggregateQuantity :=
          level.aggregateQuantity - UInt64.ofNat taken }
    LevelsWf next ∧
      shelfNodes side next =
        (shelfNodes side shelf.levels).filterMap
          (writeHandle placed.node.handle left) := by
  intro left next
  have split : placed.node.remainingQuantity = left + taken := by lia
  have sameTotal :
      level.aggregateQuantity - UInt64.ofNat placed.node.remainingQuantity +
          UInt64.ofNat left =
        level.aggregateQuantity - UInt64.ofNat taken := by
    rw [split, UInt64.ofNat_add]
    grind
  have leftPos : left ≠ 0 := by lia
  have written := write_levels shelf wf apart member found leftPos
  rw [sameTotal] at written
  exact written

end Shelf

end LimitOrderBook
