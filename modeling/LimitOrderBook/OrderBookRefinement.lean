import LimitOrderBook.OrderBookReference

namespace LimitOrderBook

/-!
# The book refines its reference

Each call on a book gives the answer the reference assigns and leads to a book
that holds the orders of the reference after the call, in the reference's
order.  An arrival takes a fresh stamp and so stands last at its price; a
quantity that is written keeps its stamp and so its place.
-/

namespace Reference

variable {reference : Reference}

/-- A first arrival under an id that is free. -/
theorem Wf.arrive
    (wf : reference.Wf) {event : AddOrder} (listed : event.side.Listed) :
    (reference.arrive event).Wf where
  listed orderId order found := by
    simp only [Reference.arrive, OrderedMap.find?_insert] at found
    split_ifs at found
    · cases found
      exact listed
    · exact wf.listed orderId order found
  stamped orderId order found := by
    simp only [Reference.arrive, OrderedMap.find?_insert] at found ⊢
    split_ifs at found
    · cases found
      exact Nat.lt_succ_self _
    · exact Nat.lt_succ_of_lt (wf.stamped orderId order found)
  distinct first second order other firstFound secondFound sameStamp := by
    simp only [Reference.arrive, OrderedMap.find?_insert]
      at firstFound secondFound
    split_ifs at firstFound secondFound with firstNew secondNew secondNew
    · rw [firstNew, secondNew]
    · cases firstFound
      have earlier := wf.stamped second other secondFound
      exact absurd sameStamp (Nat.ne_of_gt earlier)
    · cases secondFound
      have earlier := wf.stamped first order firstFound
      exact absurd sameStamp (Nat.ne_of_lt earlier)
    · exact wf.distinct first second order other firstFound secondFound
        sameStamp

theorem Wf.remove
    (wf : reference.Wf) (orderId : OrderId) :
    (reference.remove orderId).Wf := by
  have kept :
      ∀ other order, (reference.remove orderId).orders.find? other =
          some order → reference.orders.find? other = some order := by
    intro other order found
    simp only [Reference.remove, OrderedMap.find?_erase] at found
    split_ifs at found
    exact found
  exact
    { listed := fun other order found =>
        wf.listed other order (kept other order found)
      stamped := fun other order found =>
        wf.stamped other order (kept other order found)
      distinct := fun first second order other firstFound secondFound =>
        wf.distinct first second order other (kept first order firstFound)
          (kept second other secondFound) }

theorem Wf.setRemaining
    (wf : reference.Wf) {orderId : OrderId} {order : ReferenceOrder}
    (found : reference.orders.find? orderId = some order)
    (quantity : Quantity) :
    (reference.setRemaining orderId order quantity).Wf := by
  -- Every order after the change is an old one up to its quantity.
  have same :
      ∀ other changed,
        (reference.setRemaining orderId order quantity).orders.find? other =
            some changed →
        ∃ old, reference.orders.find? other = some old ∧
          changed.side = old.side ∧ changed.stamp = old.stamp := by
    intro other changed changedFound
    simp only [Reference.setRemaining, OrderedMap.find?_insert]
      at changedFound
    split_ifs at changedFound with here
    · cases changedFound
      exact ⟨order, here ▸ found, rfl, rfl⟩
    · exact ⟨changed, changedFound, rfl, rfl⟩
  constructor
  · intro other changed changedFound
    obtain ⟨old, oldFound, sameSide, _⟩ := same other changed changedFound
    exact sameSide ▸ wf.listed other old oldFound
  · intro other changed changedFound
    obtain ⟨old, oldFound, _, sameStamp⟩ := same other changed changedFound
    exact sameStamp ▸ wf.stamped other old oldFound
  · intro first second firstChanged secondChanged firstFound secondFound
      sameStamps
    obtain ⟨firstOld, firstOldFound, _, firstStamp⟩ :=
      same first firstChanged firstFound
    obtain ⟨secondOld, secondOldFound, _, secondStamp⟩ :=
      same second secondChanged secondFound
    exact wf.distinct first second firstOld secondOld firstOldFound
      secondOldFound (firstStamp ▸ secondStamp ▸ sameStamps)

/-- An arrival stands behind every order that is not worse. -/
theorem Wf.sideOrders_arrive
    (wf : reference.Wf) {event : AddOrder} (listed : event.side.Listed)
    (unused : reference.orders.find? event.orderId = none) (side : Side) :
    (reference.arrive event).sideOrders side =
      if side = event.side then
        OrderBook.arrive side event (reference.sideOrders side)
      else
        reference.sideOrders side := by
  let fresh : OrderId × ReferenceOrder :=
    (event.orderId,
      ⟨event.side, event.price, event.quantity, reference.clock⟩)
  split_ifs with here
  · subst here
    have queueEq :
        (reference.arrive event).queue event.side =
          (reference.queue event.side).orderedInsert
            (PriorityQueue.Outranks (OrderBook.priceLt event.side)
              fun entry => entry.2.price) fresh := by
      refine (wf.arrive listed).queue_eq
        (PriorityQueue.pairwise_orderedInsert (wf.queue_ahead event.side) ?_)
        ?_
      · intro item member
        exact wf.stamped item.1 item.2 (mem_queue.mp member).1
      · intro orderId order
        rw [List.mem_orderedInsert, mem_queue]
        simp only [Reference.arrive, OrderedMap.find?_insert, fresh]
        by_cases isNew : orderId = event.orderId
        · subst isNew
          simp only [if_true, unused, Prod.mk.injEq, true_and,
            Option.some.injEq, reduceCtorEq, false_and, or_false]
          constructor
          · rintro rfl
            exact ⟨rfl, rfl⟩
          · rintro ⟨rfl, _⟩
            rfl
        · simp [isNew]
    rw [sideOrders, queueEq]
    exact List.map_orderedInsert _ (OrderBook.Better event.side) view _ fresh
      (fun _ _ => Iff.rfl) (fun _ _ => Iff.rfl)
  · have queueEq :
        (reference.arrive event).queue side = reference.queue side := by
      refine (wf.arrive listed).queue_eq (wf.queue_ahead side) ?_
      intro orderId order
      rw [mem_queue]
      simp only [Reference.arrive, OrderedMap.find?_insert]
      by_cases isNew : orderId = event.orderId
      · subst isNew
        simp only [if_true, unused, Option.some.injEq, reduceCtorEq,
          false_and, false_iff]
        rintro ⟨rfl, sameSide⟩
        exact here sameSide.symm
      · simp [isNew]
    rw [sideOrders, queueEq]
    rfl

/-- A removal takes one order out of its list. -/
theorem Wf.sideOrders_remove
    (wf : reference.Wf) (orderId : OrderId) (side : Side) :
    (reference.remove orderId).sideOrders side =
      (reference.sideOrders side).filterMap (Shelf.cancelView orderId) := by
  have queueEq :
      (reference.remove orderId).queue side =
        (reference.queue side).filter fun entry =>
          decide (entry.1 ≠ orderId) := by
    refine (wf.remove orderId).queue_eq ((wf.queue_ahead side).filter _) ?_
    intro other order
    rw [List.mem_filter, mem_queue]
    by_cases here : other = orderId <;>
      simp [Reference.remove, here]
  rw [Shelf.filterMap_cancelView, sideOrders, queueEq, sideOrders,
    List.filter_map]
  rfl

/-- A new quantity leaves every order in its place. -/
theorem Wf.sideOrders_setRemaining
    (wf : reference.Wf) {orderId : OrderId} {order : ReferenceOrder}
    (found : reference.orders.find? orderId = some order)
    (quantity : Quantity) (side : Side) :
    (reference.setRemaining orderId order quantity).sideOrders side =
      (reference.sideOrders side).map (Shelf.writeView orderId quantity) := by
  let write : OrderId × ReferenceOrder → OrderId × ReferenceOrder :=
    fun entry =>
      if entry.1 = orderId then
        (entry.1, { entry.2 with remaining := quantity })
      else
        entry
  have samePlace :
      ∀ entry, (write entry).1 = entry.1 ∧
        (write entry).2.price = entry.2.price ∧
        (write entry).2.stamp = entry.2.stamp ∧
        (write entry).2.side = entry.2.side := by
    intro entry
    by_cases here : entry.1 = orderId <;> simp [write, here]
  have queueEq :
      (reference.setRemaining orderId order quantity).queue side =
        (reference.queue side).map write := by
    refine (wf.setRemaining found quantity).queue_eq ?_ ?_
    · refine List.pairwise_map.mpr ((wf.queue_ahead side).imp ?_)
      intro first second before
      simpa [PriorityQueue.Ahead, samePlace] using before
    · intro other changed
      simp only [List.mem_map, mem_queue, Reference.setRemaining,
        OrderedMap.find?_insert]
      constructor
      · rintro ⟨entry, ⟨entryFound, entrySide⟩, written⟩
        by_cases here : entry.1 = orderId
        · rw [here, found, Option.some.injEq] at entryFound
          simp only [write, here, if_true, Prod.mk.injEq] at written
          obtain ⟨rfl, rfl⟩ := written
          simp [← entryFound] at entrySide ⊢
          exact entrySide
        · simp only [write, here, if_false] at written
          subst written
          simpa [here] using ⟨entryFound, entrySide⟩
      · by_cases here : other = orderId
        · subst here
          simp only [if_true, Option.some.injEq]
          rintro ⟨rfl, changedSide⟩
          exact ⟨(other, order), ⟨found, changedSide⟩, by simp [write]⟩
        · simp only [here, if_false]
          intro facts
          exact ⟨(other, changed), facts, by simp [write, here]⟩
  rw [sideOrders, queueEq, sideOrders, List.map_map, List.map_map]
  refine List.map_congr_left fun entry _ => ?_
  by_cases here : entry.1 = orderId <;>
    simp [write, here, view, Shelf.writeView]

end Reference

namespace OrderBook.Refines

variable {book : OrderBook} {reference : Reference}

/-- What a call must answer and leave behind. -/
def Follows (reference : Reference) (made : BookCall)
    (outcome : OrderBook × ApplyResult) : Prop :=
  outcome.2 = (reference.call made).2 ∧
    outcome.1.Refines (reference.call made).1

/-- Both miss an id, or both have the same order under it. -/
theorem lookup (refines : book.Refines reference) (orderId : OrderId) :
    (reference.orders.find? orderId = none ∧
      book.ordersById.find? orderId = none) ∨
    ∃ order location,
      reference.orders.find? orderId = some order ∧
        book.ordersById.find? orderId = some location ∧
        location.side = order.side ∧ location.price = order.price ∧
        book.remainingAt location = order.remaining := by
  have same := refines.order_eq orderId
  simp only [OrderBook.order, Reference.order, Reference.view] at same
  cases found : reference.orders.find? orderId with
  | none =>
      cases bookFound : book.ordersById.find? orderId with
      | none => exact Or.inl ⟨rfl, rfl⟩
      | some location => simp [found, bookFound] at same
  | some order =>
      cases bookFound : book.ordersById.find? orderId with
      | none => simp [found, bookFound] at same
      | some location =>
          simp only [found, bookFound, Option.map_some, Option.some.injEq,
            OrderView.mk.injEq, true_and] at same
          exact Or.inr ⟨order, location, rfl, rfl, same.1, same.2.1,
            same.2.2⟩

theorem contains_eq
    (refines : book.Refines reference) (orderId : OrderId) :
    book.ordersById.contains orderId = reference.orders.contains orderId := by
  rcases refines.lookup orderId with
    ⟨found, bookFound⟩ | ⟨order, location, found, bookFound, _⟩ <;>
    simp [OrderedMap.contains, found, bookFound]

theorem live
    (refines : book.Refines reference) {orderId : OrderId}
    {order : ReferenceOrder}
    (found : reference.orders.find? orderId = some order) :
    Reference.view (orderId, order) ∈ book.sideOrders order.side := by
  rw [refines.orders]
  exact Reference.mem_sideOrders.mpr ⟨by simp [Reference.order, Reference.view,
    found], rfl⟩

/-- The priority lists agree when each side changed in the same way. -/
theorem becomes
    (refines : book.Refines reference) {side : Side}
    {change : List OrderView → List OrderView} {next : OrderBook}
    {after : Reference} (bookBecomes : Becomes side change book next)
    (afterWf : after.Wf)
    (orders : ∀ other, after.sideOrders other =
      if other = side then change (reference.sideOrders other)
      else reference.sideOrders other) :
    next.Refines after where
  wf := bookBecomes.wf
  referenceWf := afterWf
  orders other := by
    rw [bookBecomes.orders other, orders other, refines.orders other]

/-- Changing one order leaves the lists of the other sides alone. -/
theorem filterMap_side
    (refines : book.Refines reference) {orderId : OrderId}
    {order : ReferenceOrder}
    (found : reference.orders.find? orderId = some order)
    {change : OrderView → Option OrderView}
    (elsewhere : ∀ view : OrderView,
      view.orderId ≠ orderId → change view = some view) (other : Side) :
    (reference.sideOrders other).filterMap change =
      if other = order.side then
        (reference.sideOrders other).filterMap change
      else
        reference.sideOrders other := by
  split_ifs with here
  · rfl
  · rw [← refines.orders]
    exact refines.wf.filterMap_other_side here (refines.live found) elsewhere

theorem add_follows
    (refines : book.Refines reference) (heap : HeapGrants) (event : AddOrder)
    (granted : (book.applyAdd heap event).2 ≠ .allocationFailed) :
    Follows reference (.add heap event) (book.applyAdd heap event) := by
  have contained := refines.contains_eq event.orderId
  simp only [Follows, Reference.call]
  by_cases quantityPos : event.quantity = 0
  · simpa [applyAdd, Reference.add, quantityPos] using refines
  by_cases pricePos : event.price = 0
  · simpa [applyAdd, Reference.add, quantityPos, pricePos] using refines
  by_cases used : reference.orders.contains event.orderId = true
  · simpa [applyAdd, Reference.add, quantityPos, pricePos, contained, used]
      using refines
  by_cases listed : event.side.Listed
  case neg =>
    simpa [applyAdd, Reference.add, quantityPos, pricePos, contained, used,
      listed] using refines
  rcases refines.lookup event.orderId with
    ⟨found, bookFound⟩ | ⟨order, location, found, _⟩
  case inr => simp [OrderedMap.contains, found] at used
  rcases applyAdd_tries refines.wf ⟨quantityPos, pricePos, bookFound, listed⟩
    heap with ⟨next, failed, _⟩ | ⟨next, added, bookBecomes⟩
  · rw [failed] at granted
    exact absurd rfl granted
  · have answered : reference.add event = (reference.arrive event, .ok) := by
      simp [Reference.add, quantityPos, pricePos, used, listed]
    rw [added, answered]
    refine ⟨rfl, refines.becomes bookBecomes
      (refines.referenceWf.arrive listed) fun other => ?_⟩
    rw [refines.referenceWf.sideOrders_arrive listed found other]
    split_ifs with here
    · rw [here]
    · rfl

theorem cancel_follows
    (refines : book.Refines reference) (event : CancelOrder) :
    Follows reference (.cancel event) (book.applyCancel event) := by
  simp only [Follows, Reference.call]
  rcases refines.lookup event.orderId with
    ⟨found, bookFound⟩ | ⟨order, location, found, _⟩
  · simpa [applyCancel, Reference.cancel, found, bookFound] using refines
  · obtain ⟨next, cancelled, bookBecomes⟩ :=
      applyCancel_becomes refines.wf (refines.live found)
    simp only [Reference.cancel, found]
    have sameCall : book.applyCancel event = (next, .ok) := cancelled
    rw [sameCall]
    refine ⟨rfl, refines.becomes bookBecomes
      (refines.referenceWf.remove event.orderId) fun other => ?_⟩
    rw [refines.referenceWf.sideOrders_remove event.orderId other]
    exact refines.filterMap_side found
      (fun view apart => by simp [Shelf.cancelView, apart]) other

/-- An execution of the whole order is its removal, of a part a new quantity. -/
theorem executed_sideOrders
    (refines : book.Refines reference) {orderId : OrderId}
    {order : ReferenceOrder} {quantity : Quantity}
    (found : reference.orders.find? orderId = some order)
    (enough : quantity ≤ order.remaining) (side : Side) :
    (if order.remaining = quantity then reference.remove orderId
      else reference.setRemaining orderId order
        (order.remaining - quantity)).sideOrders side =
      (reference.sideOrders side).filterMap
        (executeView orderId quantity) := by
  have quantityOf :
      ∀ view ∈ reference.sideOrders side, view.orderId = orderId →
        view.quantity = order.remaining := by
    intro view member sameId
    have shown := (Reference.mem_sideOrders.mp member).1
    rw [sameId, Reference.order, found, Option.map_some,
      Option.some.injEq] at shown
    exact shown ▸ rfl
  split_ifs with all
  · rw [refines.referenceWf.sideOrders_remove]
    refine List.filterMap_congr fun view member => ?_
    by_cases sameId : view.orderId = orderId
    · simp [Shelf.cancelView, executeView, sameId,
        quantityOf view member sameId, all]
    · simp [Shelf.cancelView, executeView, sameId]
  · have partly : ¬ order.remaining ≤ quantity := by lia
    rw [refines.referenceWf.sideOrders_setRemaining found,
      ← List.filterMap_eq_map]
    refine List.filterMap_congr fun view member => ?_
    by_cases sameId : view.orderId = orderId
    · simp [Shelf.writeView, executeView, sameId,
        quantityOf view member sameId, partly]
    · simp [Shelf.writeView, executeView, sameId]

theorem execute_follows
    (refines : book.Refines reference) (event : ExecuteOrder) :
    Follows reference (.execute event) (book.applyExecute event) := by
  obtain ⟨pool, owned, _⟩ := refines.wf.pooled
  simp only [Follows, Reference.call]
  rcases refines.lookup event.orderId with
    ⟨found, bookFound⟩ | ⟨order, location, found, bookFound, _, _, remaining⟩
  · simpa [applyExecute, Reference.execute, found, bookFound] using refines
  by_cases positive : event.quantity = 0
  · simpa [applyExecute, Reference.execute, found, bookFound, owned, positive]
      using refines
  by_cases tooMuch : order.remaining < event.quantity
  · simpa [applyExecute, Reference.execute, found, bookFound, owned, positive,
      remaining, tooMuch] using refines
  have enough := Nat.not_lt.mp tooMuch
  obtain ⟨next, executed, bookBecomes⟩ :=
    applyExecute_becomes refines.wf (refines.live found) positive enough
  have sameCall : book.applyExecute event = (next, .ok) := executed
  have answered :
      reference.execute event.orderId event.quantity =
        (if order.remaining = event.quantity then
            reference.remove event.orderId
          else
            reference.setRemaining event.orderId order
              (order.remaining - event.quantity), .ok) := by
    simp only [Reference.execute, found, positive, tooMuch, if_false]
    split_ifs <;> rfl
  rw [sameCall, answered]
  refine ⟨rfl, refines.becomes bookBecomes ?_ fun other => ?_⟩
  · split_ifs
    · exact refines.referenceWf.remove _
    · exact refines.referenceWf.setRemaining found _
  · rw [refines.executed_sideOrders found enough other]
    exact refines.filterMap_side found
      (fun view apart => by simp [executeView, apart]) other

theorem replace_follows
    (refines : book.Refines reference) (heap : HeapGrants) (oldId : OrderId)
    (next : AddOrder) (maintainPriority : Bool)
    (granted : (book.replace heap oldId next maintainPriority).2 ≠
      .allocationFailed) :
    Follows reference (.replace heap oldId next maintainPriority)
      (book.replace heap oldId next maintainPriority) := by
  obtain ⟨pool, owned, _⟩ := refines.wf.pooled
  have contained := refines.contains_eq next.orderId
  simp only [Follows, Reference.call]
  rcases refines.lookup oldId with
    ⟨found, bookFound⟩ |
      ⟨old, location, found, bookFound, oldSide, oldPrice, _⟩
  · simpa [replace, Reference.replace, found, bookFound] using refines
  by_cases quantityPos : next.quantity = 0
  · simpa [replace, Reference.replace, found, bookFound, owned, quantityPos]
      using refines
  by_cases pricePos : next.price = 0
  · simpa [replace, Reference.replace, found, bookFound, owned, quantityPos,
      pricePos] using refines
  by_cases sameSide : next.side = old.side
  case neg =>
    simpa [replace, Reference.replace, found, bookFound, owned, quantityPos,
      pricePos, oldSide, sameSide] using refines
  by_cases used : next.orderId ≠ oldId ∧
      reference.orders.contains next.orderId = true
  · simpa [replace, Reference.replace, found, bookFound, owned, quantityPos,
      pricePos, oldSide, sameSide, contained, used] using refines
  have freed : (reference.remove oldId).orders.find? next.orderId = none := by
    simp only [Reference.remove, OrderedMap.find?_erase]
    split_ifs with sameId
    · rfl
    · cases other : reference.orders.find? next.orderId with
      | none => rfl
      | some order =>
          exact absurd ⟨sameId, by simp [OrderedMap.contains, other]⟩ used
  have unused : next.orderId = oldId ∨
      book.ordersById.find? next.orderId = none := by
    by_cases sameId : next.orderId = oldId
    · exact Or.inl sameId
    · refine Or.inr ?_
      rcases refines.lookup next.orderId with
        ⟨_, missing⟩ | ⟨order, _, otherFound, _⟩
      · exact missing
      · exact absurd ⟨sameId, by simp [OrderedMap.contains, otherFound]⟩ used
  have replaceable :
      book.Replaceable (Reference.view (oldId, old)) next :=
    ⟨refines.live found, quantityPos, pricePos, sameSide, unused⟩
  cases maintainPriority with
  | true =>
      by_cases moved : next.price ≠ old.price ∨ next.orderId ≠ oldId
      · simpa [replace, Reference.replace, found, bookFound, owned,
          quantityPos, pricePos, oldSide, oldPrice, sameSide, contained, used,
          moved] using refines
      · have kept : next.price = old.price ∧ next.orderId = oldId := by
          simpa [not_or] using moved
        obtain ⟨after, replaced, bookBecomes⟩ :=
          replace_keeps refines.wf replaceable kept.1 kept.2 heap
        have sameCall : book.replace heap oldId next true = (after, .ok) :=
          replaced
        have answered :
            reference.replace oldId next true =
              (reference.setRemaining oldId old next.quantity, .ok) := by
          have oldPricePos : old.price ≠ 0 := kept.1 ▸ pricePos
          simp [Reference.replace, found, quantityPos, oldPricePos, sameSide,
            kept.1, kept.2]
        rw [sameCall, answered]
        refine ⟨rfl, refines.becomes bookBecomes
          (refines.referenceWf.setRemaining found _) fun other => ?_⟩
        rw [refines.referenceWf.sideOrders_setRemaining found]
        simp only [← List.filterMap_eq_map]
        exact refines.filterMap_side found
          (fun view apart => by simp [Shelf.writeView, apart]) other
  | false =>
      rcases replace_tries refines.wf replaceable heap with
        ⟨after, failed, _⟩ | ⟨after, replaced, bookBecomes⟩
      · have sameCall : book.replace heap oldId next false =
            (after, .allocationFailed) := failed
        rw [sameCall] at granted
        exact absurd rfl granted
      · have sameCall : book.replace heap oldId next false = (after, .ok) :=
          replaced
        have answered :
            reference.replace oldId next false =
              ((reference.remove oldId).arrive next, .ok) := by
          simp [Reference.replace, found, quantityPos, pricePos, sameSide,
            used]
        have listed : next.side.Listed :=
          sameSide ▸ refines.referenceWf.listed oldId old found
        have removedWf := refines.referenceWf.remove oldId
        rw [sameCall, answered]
        refine ⟨rfl, refines.becomes bookBecomes (removedWf.arrive listed)
          fun other => ?_⟩
        rw [removedWf.sideOrders_arrive listed freed other,
          refines.referenceWf.sideOrders_remove oldId other, sameSide]
        by_cases here : other = old.side
        · subst here
          exact (if_pos rfl).trans (if_pos rfl).symm
        · have kept :
              (reference.sideOrders other).filterMap
                (Shelf.cancelView oldId) = _ :=
            refines.filterMap_side found
              (fun view apart => by simp [Shelf.cancelView, apart]) other
          rw [if_neg here] at kept
          rw [if_neg here, kept]
          exact (if_neg here).symm

/-- One call: the same answer, and the correspondence again. -/
theorem call_follows
    (refines : book.Refines reference) {made : BookCall}
    (granted : (book.call made).2 ≠ .allocationFailed) :
    Follows reference made (book.call made) := by
  cases made with
  | add heap event => exact refines.add_follows heap event granted
  | cancel event => exact refines.cancel_follows event
  | execute event => exact refines.execute_follows event
  | replace heap oldId next maintainPriority =>
      exact refines.replace_follows heap oldId next maintainPriority granted
  | reset =>
      refine ⟨rfl, (reset_wf refines.wf).1, ⟨?_, ?_, ?_⟩, fun side => ?_⟩
      · intro _ _ found
        cases found
      · intro _ _ found
        cases found
      · intro _ _ _ _ found
        cases found
      · rw [OrderBook.call, reset_sideOrders]
        simp [Reference.call, Reference.sideOrders, Reference.queue,
          OrderedMap.empty]

theorem calls_follow
    (refines : book.Refines reference) {calls : List BookCall}
    (granted : ∀ answer ∈ book.answers calls, answer ≠ .allocationFailed) :
    book.answers calls = reference.answers calls ∧
      (book.afterCalls calls).Refines (reference.afterCalls calls) := by
  induction calls generalizing book reference with
  | nil => exact ⟨rfl, refines⟩
  | cons made rest inductionHypothesis =>
      have thisGranted : (book.call made).2 ≠ .allocationFailed :=
        granted _ (by simp [OrderBook.answers])
      obtain ⟨sameAnswer, nextRefines⟩ := refines.call_follows thisGranted
      obtain ⟨sameAnswers, lastRefines⟩ := inductionHypothesis nextRefines
        fun answer member => granted answer (by
          simp [OrderBook.answers, member])
      exact ⟨by rw [OrderBook.answers, Reference.answers, sameAnswer,
        sameAnswers], lastRefines⟩

theorem start
    {storage : Nat} (poolBytes : Nat) (storagePos : 0 < storage) :
    (ofPool storage poolBytes).Refines {} where
  wf := ofPool_wf storagePos
  referenceWf :=
    { listed := fun _ _ found => nomatch found
      stamped := fun _ _ found => nomatch found
      distinct := fun _ _ _ _ found => nomatch found }
  orders side := by
    rw [ofPool_sideOrders]
    simp [Reference.sideOrders, Reference.queue, OrderedMap.empty]

end OrderBook.Refines

namespace OrderBook

/--
While no allocation fails, a book answers every call as the reference does and
every query shows what sorting the reference by price and stamp gives.
-/
theorem refines_reference
    {storage : Nat} (poolBytes : Nat) (storagePos : 0 < storage)
    (calls : List BookCall)
    (granted : ∀ answer ∈ (ofPool storage poolBytes).answers calls,
      answer ≠ .allocationFailed) :
    (ofPool storage poolBytes).answers calls = Reference.answers {} calls ∧
      ((ofPool storage poolBytes).afterCalls calls).Shows
        (Reference.afterCalls {} calls) := by
  obtain ⟨sameAnswers, refines⟩ :=
    (Refines.start poolBytes storagePos).calls_follow granted
  exact ⟨sameAnswers, refines.shows⟩

/-- Keeping the priority, moving within a level and moving away from it. -/
theorem refines_reference_moves :
    let calls : List BookCall :=
      [.add {} ⟨1, .ask, 100, 10⟩, .add {} ⟨2, .ask, 100, 20⟩,
        .replace {} 1 ⟨1, .ask, 100, 15⟩ true,
        .replace {} 1 ⟨3, .ask, 100, 5⟩ false, .cancel ⟨1⟩,
        .replace {} 2 ⟨2, .ask, 99, 8⟩ false]
    (ofPool 8 128).answers calls =
        [.ok, .ok, .ok, .ok, .unknownOrder, .ok] ∧
      (ofPool 8 128).answers calls = Reference.answers {} calls ∧
      ((ofPool 8 128).afterCalls calls).Shows
        (Reference.afterCalls {} calls) := by
  intro calls
  have answers : (ofPool 8 128).answers calls =
      [.ok, .ok, .ok, .ok, .unknownOrder, .ok] := by decide +kernel
  refine ⟨answers, refines_reference 128 (by decide) calls ?_⟩
  rw [answers]
  decide

end OrderBook

end LimitOrderBook
