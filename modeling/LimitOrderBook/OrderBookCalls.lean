import LimitOrderBook.OrderBookChecker

namespace LimitOrderBook

/-!
# Sequences of calls on one book

A book is driven by any calls with any arguments, and the heap grants or
refuses every request as it likes.  A call either is refused and leaves the
book alone, or runs out of memory and restores it, or goes through.  From that
one case list follow the representation invariant after every call and the
atomicity of every failure.
-/

inductive BookCall where
  | add (heap : HeapGrants) (event : AddOrder)
  | cancel (event : CancelOrder)
  | execute (event : ExecuteOrder)
  | replace (heap : HeapGrants) (oldId : OrderId) (next : AddOrder)
      (maintainPriority : Bool)
  | reset

namespace BookCall

/-- The quantities of a call are values of the source's 32-bit type. -/
def Fits : BookCall → Prop
  | .add _ event => event.quantity < 2 ^ 32
  | .cancel _ => True
  | .execute event => event.quantity < 2 ^ 32
  | .replace _ _ next _ => next.quantity < 2 ^ 32
  | .reset => True

/-- The same call with every heap request granted. -/
def granted : BookCall → BookCall
  | .add _ event => .add {} event
  | .cancel event => .cancel event
  | .execute event => .execute event
  | .replace _ oldId next maintainPriority =>
      .replace {} oldId next maintainPriority
  | .reset => .reset

end BookCall

namespace OrderBook

variable {book : OrderBook}

/-- One call and its answer; `reset` answers nothing. -/
def call (book : OrderBook) : BookCall → OrderBook × ApplyResult
  | .add heap event => book.applyAdd heap event
  | .cancel event => book.applyCancel event
  | .execute event => book.applyExecute event
  | .replace heap oldId next maintainPriority =>
      book.replace heap oldId next maintainPriority
  | .reset => (book.reset, .ok)

/-- The book after a list of calls. -/
def afterCalls (book : OrderBook) (calls : List BookCall) : OrderBook :=
  calls.foldl (fun book made => (book.call made).1) book

/-- The free slots of the pool. -/
def freeSlots (book : OrderBook) : Nat :=
  (book.pool.map FixedSlotPool.freeCount).getD 0

/-- The pool has been set up by a first allocation. -/
def Initialised (book : OrderBook) : Prop :=
  ∃ pool, book.pool = some pool ∧ pool.firstInit = true

/-- Quantities in the range of the source's 32-bit type. -/
def Fits (book : OrderBook) : Prop :=
  ∀ side, ∀ order ∈ book.sideOrders side, order.quantity < 2 ^ 32

/-! ## Every call refuses, restores or goes through -/

/-- A call that went through. -/
structure Done (book : OrderBook) (made : BookCall) (next : OrderBook) :
    Prop where
  wf : next.Wf
  sameSlots : next.slots = book.slots
  fits : made.Fits → book.Fits → next.Fits

/-- A call that ran out of memory. -/
structure Failed (book : OrderBook) (made : BookCall) (next : OrderBook) :
    Prop where
  restored : book.Restored next
  retried : next.call made.granted = book.call made.granted

/-- A side that has changed is a call that is done. -/
theorem Becomes.done
    {made : BookCall} {side : Side} {next : OrderBook}
    {change : List OrderView → List OrderView}
    (becomes : Becomes side change book next)
    (fits : made.Fits → ∀ orders : List OrderView,
      (∀ order ∈ orders, order.quantity < 2 ^ 32) →
      ∀ order ∈ change orders, order.quantity < 2 ^ 32) :
    Done book made next where
  wf := becomes.wf
  sameSlots := becomes.sameSlots
  fits madeFits bookFits other order live := by
    rw [becomes.orders other] at live
    split_ifs at live with here
    · exact fits madeFits _ (bookFits other) order live
    · exact bookFits other order live

/-- A restored book of a set-up pool runs a body as the old book would. -/
theorem onSide_prepared
    {next : OrderBook} (restored : book.Restored next)
    {pool ready : FixedSlotPool} {side : Side} (listed : side.Listed)
    {onBids : Shelf (· > ·) → Shelf (· > ·) × ApplyResult}
    {onAsks : Shelf (· < ·) → Shelf (· < ·) × ApplyResult}
    {otherwise : ApplyResult}
    (sameBids : ∀ levels index,
      onBids ⟨levels, ready, index⟩ = onBids ⟨levels, pool, index⟩)
    (sameAsks : ∀ levels index,
      onAsks ⟨levels, ready, index⟩ = onAsks ⟨levels, pool, index⟩) :
    next.onSide ready side onBids onAsks otherwise =
      book.onSide pool side onBids onAsks otherwise := by
  rcases listed with rfl | rfl
  · simp only [onSide, restored.bids, restored.ordersById, sameBids,
      OrderBook.withBids, restored.asks]
  · simp only [onSide, restored.asks, restored.ordersById, sameAsks,
      OrderBook.withAsks, restored.bids]

/-- A prepared pool makes no difference to an add. -/
theorem addTo_prepared
    {lt : Price → Price → Prop} [DecidableRel lt] [IsStrictTotalOrder Price lt]
    {pool ready : FixedSlotPool}
    (prepared : pool.prepare true nodeBytes nodeAlignment = some ready)
    (event : AddOrder) (levels : OrderedMap Price PriceLevel lt)
    (index : OrderIndex) :
    Shelf.addTo ⟨levels, ready, index⟩ {} event =
      Shelf.addTo ⟨levels, pool, index⟩ {} event := by
  simp only [Shelf.addTo, FixedSlotPool.allocate_prepared prepared
    (by decide)]
  simp

/-- Nor does it to a move. -/
theorem moveTo_prepared
    {lt : Price → Price → Prop} [DecidableRel lt] [IsStrictTotalOrder Price lt]
    {pool ready : FixedSlotPool}
    (prepared : pool.prepare true nodeBytes nodeAlignment = some ready)
    (oldId : OrderId) (old : OrderLocation) (event : AddOrder)
    (levels : OrderedMap Price PriceLevel lt) (index : OrderIndex) :
    Shelf.moveTo ⟨levels, ready, index⟩ {} oldId old event =
      Shelf.moveTo ⟨levels, pool, index⟩ {} oldId old event := by
  simp only [Shelf.moveTo, FixedSlotPool.allocate_prepared prepared
    (by decide)]
  simp

/-- A restored book is as before, or has its pool prepared. -/
theorem Restored.eq_or_prepared
    {next : OrderBook} (restored : book.Restored next) :
    next = book ∨
      ∃ pool ready, book.pool = some pool ∧ next.pool = some ready ∧
        pool.prepare true nodeBytes nodeAlignment = some ready := by
  rcases restored.pool with samePool | ⟨pool, ready, owned, prepared, nextPool⟩
  · left
    obtain ⟨nextOwned, bids, asks, ordersById⟩ := next
    obtain ⟨owned, bids', asks', ordersById'⟩ := book
    obtain ⟨sameBids, sameAsks, sameIndex, _⟩ := restored
    simp only at samePool sameBids sameAsks sameIndex
    rw [samePool, sameBids, sameAsks, sameIndex]
  · exact Or.inr ⟨pool, ready, owned, nextPool, prepared⟩

/-- A restored book is well formed and has its slots. -/
theorem Restored.wf
    {next : OrderBook} (restored : book.Restored next) (wf : book.Wf) :
    next.Wf ∧ next.slots = book.slots := by
  rcases restored.eq_or_prepared with
    rfl | ⟨pool, ready, owned, nextOwned, prepared⟩
  · exact ⟨wf, rfl⟩
  · obtain ⟨stored, poolEq, holds⟩ := wf.pooled
    rw [owned, Option.some.injEq] at poolEq
    subst poolEq
    obtain ⟨_, storage, capacity, init, isReady⟩ :=
      FixedSlotPool.prepare_ready (by decide) (by decide) holds prepared
    have samePlaced : next.placed = book.placed := by
      simp [placed, restored.bids, restored.asks]
    constructor
    · refine ⟨?_, ?_, ?_, ready, nextOwned, ?_⟩
      · rw [restored.bids]
        exact wf.bidLevels
      · rw [restored.asks]
        exact wf.askLevels
      · rw [samePlaced, restored.ordersById]
        exact wf.indexed
      · rw [samePlaced]
        exact
          { storagePos := storage ▸ holds.storagePos
            beforeInit := by simp [init]
            afterInit := fun _ => isReady }
    · simp [slots, owned, nextOwned, FixedSlotPool.slotTotal, storage,
        capacity]

/-- How a call on a well-formed book ends. -/
def Ends (book : OrderBook) (made : BookCall) : Prop :=
  (∃ result, result ≠ .ok ∧ book.call made = (book, result)) ∨
  (∃ next, book.call made = (next, .allocationFailed) ∧
    Failed book made next) ∨
  ∃ next, book.call made = (next, .ok) ∧ Done book made next

/-- How an add ends. -/
theorem Wf.add_ends
    (wf : book.Wf) (heap : HeapGrants) (event : AddOrder) :
    book.Ends (.add heap event) := by
  obtain ⟨pool, owned, _⟩ := wf.pooled
  unfold Ends
  simp only [call]
  by_cases quantityPos : event.quantity = 0
  · exact Or.inl ⟨.invalidQuantity, by decide,
      by simp [applyAdd, quantityPos]⟩
  by_cases pricePos : event.price = 0
  · exact Or.inl ⟨.invalidPrice, by decide,
      by simp [applyAdd, quantityPos, pricePos]⟩
  cases found : book.ordersById.find? event.orderId with
  | some location =>
      exact Or.inl ⟨.duplicateOrder, by decide, by
        simp [applyAdd, quantityPos, pricePos, OrderedMap.contains, found]⟩
  | none =>
      by_cases listed : event.side.Listed
      · have addable : book.Addable event :=
          ⟨quantityPos, pricePos, found, listed⟩
        rcases applyAdd_tries wf addable heap with
          ⟨next, failed, restored⟩ | ⟨next, added, becomes⟩
        · refine Or.inr (Or.inl ⟨next, failed, restored, ?_⟩)
          rcases restored.eq_or_prepared with
            rfl | ⟨pool, ready, owned, nextOwned, prepared⟩
          · rfl
          · have nextAddable : next.Addable event :=
              ⟨quantityPos, pricePos, restored.ordersById ▸ found, listed⟩
            simp only [BookCall.granted, call]
            rw [addable.applyAdd_eq owned, nextAddable.applyAdd_eq nextOwned]
            exact onSide_prepared restored listed
              (addTo_prepared prepared event) (addTo_prepared prepared event)
        · refine Or.inr (Or.inr ⟨next, added, becomes.done ?_⟩)
          intro eventFits orders ordersFit order live
          rcases List.mem_orderedInsert _ |>.mp live with isNew | old
          · rw [isNew]
            exact eventFits
          · exact ordersFit order old
      · exact Or.inl ⟨.unknownOrder, by decide, by
          simp [applyAdd, quantityPos, pricePos, OrderedMap.contains, found,
            listed]⟩

/-- How a cancellation ends. -/
theorem Wf.cancel_ends (wf : book.Wf) (event : CancelOrder) :
    book.Ends (.cancel event) := by
  unfold Ends
  simp only [call]
  cases found : book.ordersById.find? event.orderId with
  | none =>
      exact Or.inl ⟨.unknownOrder, by decide, by simp [applyCancel, found]⟩
  | some location =>
      obtain ⟨next, cancelled, becomes⟩ :=
        applyCancel_becomes wf (wf.live_of_found found)
      refine Or.inr (Or.inr ⟨next, cancelled, becomes.done ?_⟩)
      intro _ orders ordersFit order live
      rw [Shelf.filterMap_cancelView] at live
      exact ordersFit order (List.mem_of_mem_filter live)

/-- How an execution ends. -/
theorem Wf.execute_ends (wf : book.Wf) (event : ExecuteOrder) :
    book.Ends (.execute event) := by
  obtain ⟨pool, owned, _⟩ := wf.pooled
  unfold Ends
  simp only [call]
  cases found : book.ordersById.find? event.orderId with
  | none =>
      exact Or.inl ⟨.unknownOrder, by decide, by simp [applyExecute, found]⟩
  | some location =>
      by_cases positive : event.quantity = 0
      · exact Or.inl ⟨.invalidQuantity, by decide,
          by simp [applyExecute, found, owned, positive]⟩
      by_cases tooMuch : book.remainingAt location < event.quantity
      · exact Or.inl ⟨.quantityExceedsRemaining, by decide,
          by simp [applyExecute, found, owned, positive, tooMuch]⟩
      obtain ⟨next, executed, becomes⟩ := applyExecute_becomes wf
        (wf.live_of_found found) positive (Nat.not_lt.mp tooMuch)
      refine Or.inr (Or.inr ⟨next, executed, becomes.done ?_⟩)
      intro _ orders ordersFit order live
      obtain ⟨original, originalLive, executedTo⟩ :=
        List.mem_filterMap.mp live
      have originalFits := ordersFit original originalLive
      unfold executeView at executedTo
      split_ifs at executedTo
      · cases executedTo
        exact Nat.lt_of_le_of_lt (Nat.sub_le _ _) originalFits
      · cases executedTo
        exact originalFits

/-- How a replacement ends. -/
theorem Wf.replace_ends
    (wf : book.Wf) (heap : HeapGrants) (oldId : OrderId) (next : AddOrder)
    (maintainPriority : Bool) :
    book.Ends (.replace heap oldId next maintainPriority) := by
  obtain ⟨pool, owned, _⟩ := wf.pooled
  unfold Ends
  simp only [call]
  cases found : book.ordersById.find? oldId with
  | none =>
      exact Or.inl ⟨.unknownOrder, by decide, by simp [replace, found]⟩
  | some old =>
      by_cases quantityPos : next.quantity = 0
      · exact Or.inl ⟨.invalidQuantity, by decide,
          by simp [replace, found, owned, quantityPos]⟩
      by_cases pricePos : next.price = 0
      · exact Or.inl ⟨.invalidPrice, by decide,
          by simp [replace, found, owned, quantityPos, pricePos]⟩
      by_cases sameSide : next.side = old.side
      case neg =>
        exact Or.inl ⟨.unknownOrder, by decide, by
          simp [replace, found, owned, quantityPos, pricePos, sameSide]⟩
      by_cases used : next.orderId ≠ oldId ∧
          book.ordersById.contains next.orderId = true
      · exact Or.inl ⟨.duplicateOrder, by decide, by
          simp [replace, found, owned, quantityPos, pricePos, sameSide,
            used]⟩
      have unused : next.orderId = oldId ∨
          book.ordersById.find? next.orderId = none := by
        by_cases sameId : next.orderId = oldId
        · exact Or.inl sameId
        · refine Or.inr ?_
          cases other : book.ordersById.find? next.orderId with
          | none => rfl
          | some location =>
              exact absurd ⟨sameId, by simp [OrderedMap.contains, other]⟩ used
      have replaceable :
          book.Replaceable
            ⟨oldId, old.side, old.price, book.remainingAt old⟩ next :=
        ⟨wf.live_of_found found, quantityPos, pricePos, sameSide, unused⟩
      cases maintainPriority with
      | true =>
          by_cases kept : next.price = old.price ∧ next.orderId = oldId
          · obtain ⟨after, replaced, becomes⟩ :=
              replace_keeps wf replaceable kept.1 kept.2 heap
            refine Or.inr (Or.inr ⟨after, replaced, becomes.done ?_⟩)
            intro nextFits orders ordersFit order live
            obtain ⟨original, originalLive, rfl⟩ := List.mem_map.mp live
            unfold Shelf.writeView
            split_ifs
            · exact nextFits
            · exact ordersFit original originalLive
          · refine Or.inl ⟨.invalidPrice, by decide, ?_⟩
            have moved : next.price ≠ old.price ∨ next.orderId ≠ oldId := by
              rwa [← not_and_or]
            simp [replace, found, owned, quantityPos, pricePos, sameSide,
              used, moved]
      | false =>
          rcases replace_tries wf replaceable heap with
            ⟨after, failed, restored⟩ | ⟨after, replaced, becomes⟩
          · refine Or.inr (Or.inl ⟨after, failed, restored, ?_⟩)
            rcases restored.eq_or_prepared with
              rfl | ⟨pool, ready, owned, nextOwned, prepared⟩
            · rfl
            · simp only [BookCall.granted, call, replace,
                restored.ordersById, found, owned, nextOwned, quantityPos,
                pricePos, sameSide, used, if_false, ne_eq,
                not_true_eq_false, Bool.false_eq_true]
              refine onSide_prepared restored ?_
                (moveTo_prepared prepared oldId old next)
                (moveTo_prepared prepared oldId old next)
              split_ifs
              · exact Or.inl rfl
              · exact Or.inr rfl
          · refine Or.inr (Or.inr ⟨after, replaced, becomes.done ?_⟩)
            intro nextFits orders ordersFit order live
            rcases List.mem_orderedInsert _ |>.mp live with isNew | kept
            · rw [isNew]
              exact nextFits
            · rw [Shelf.filterMap_cancelView] at kept
              exact ordersFit order (List.mem_of_mem_filter kept)

/-- Every call refuses, restores the book or goes through. -/
theorem Wf.call_ends (wf : book.Wf) (made : BookCall) : book.Ends made := by
  cases made with
  | add heap event => exact wf.add_ends heap event
  | cancel event => exact wf.cancel_ends event
  | execute event => exact wf.execute_ends event
  | replace heap oldId next maintainPriority =>
      exact wf.replace_ends heap oldId next maintainPriority
  | reset =>
      refine Or.inr (Or.inr ⟨book.reset, rfl, (reset_wf wf).1,
        (reset_wf wf).2, ?_⟩)
      intro _ _ side order live
      rw [reset_sideOrders] at live
      cases live

/-- Each call leaves a book that is well formed, with its slots. -/
theorem Wf.call_wf (wf : book.Wf) (made : BookCall) :
    (book.call made).1.Wf ∧ (book.call made).1.slots = book.slots := by
  rcases wf.call_ends made with
    ⟨result, _, refused⟩ | ⟨next, failed, facts⟩ | ⟨next, done, facts⟩
  · rw [refused]
    exact ⟨wf, rfl⟩
  · rw [failed]
    exact facts.restored.wf wf
  · rw [done]
    exact ⟨facts.wf, facts.sameSlots⟩

/-- A restored book has the same orders. -/
theorem Restored.sideOrders
    {next : OrderBook} (restored : book.Restored next) (side : Side) :
    next.sideOrders side = book.sideOrders side := by
  cases side with
  | bid => simp only [OrderBook.sideOrders, restored.bids]
  | ask => simp only [OrderBook.sideOrders, restored.asks]
  | unlisted raw outside => rfl

/-- Quantities that fit stay so. -/
theorem Wf.call_fits
    (wf : book.Wf) {made : BookCall} (madeFits : made.Fits)
    (fits : book.Fits) : (book.call made).1.Fits := by
  rcases wf.call_ends made with
    ⟨result, _, refused⟩ | ⟨next, failed, facts⟩ | ⟨next, done, facts⟩
  · rw [refused]
    exact fits
  · rw [failed]
    intro side order live
    rw [facts.restored.sideOrders] at live
    exact fits side order live
  · rw [done]
    exact facts.fits madeFits fits

/-- Every book that calls on a new book lead to is well formed. -/
theorem afterCalls_wf
    {storage : Nat} (poolBytes : Nat) (storagePos : 0 < storage)
    (calls : List BookCall) :
    ((ofPool storage poolBytes).afterCalls calls).Wf ∧
      ((ofPool storage poolBytes).afterCalls calls).slots =
        (ofPool storage poolBytes).slots := by
  have kept :
      ∀ book : OrderBook, book.Wf →
        (book.afterCalls calls).Wf ∧
          (book.afterCalls calls).slots = book.slots := by
    induction calls with
    | nil =>
        exact fun book wf => ⟨wf, rfl⟩
    | cons made rest inductionHypothesis =>
        intro book wf
        obtain ⟨nextWf, nextSlots⟩ := wf.call_wf made
        obtain ⟨lastWf, lastSlots⟩ := inductionHypothesis _ nextWf
        exact ⟨lastWf, lastSlots.trans nextSlots⟩
  exact kept _ (ofPool_wf storagePos)

/-! ## Failures are atomic and lose no slot -/

/-- A restored book has the same snapshot. -/
theorem Restored.snapshot
    {next : OrderBook} (restored : book.Restored next) :
    next.snapshot = book.snapshot := by
  simp only [OrderBook.snapshot, restored.bids, restored.asks]

/-- Once the pool is set up, a failed call leaves the book exactly alone. -/
theorem Restored.eq_of_initialised
    {next : OrderBook} (restored : book.Restored next)
    (initialised : book.Initialised) : next = book := by
  rcases restored.eq_or_prepared with
    same | ⟨pool, ready, owned, nextOwned, prepared⟩
  · exact same
  · obtain ⟨stored, storedOwned, init⟩ := initialised
    rw [owned, Option.some.injEq] at storedOwned
    subst storedOwned
    simp only [FixedSlotPool.prepare, init, if_true,
      Option.some.injEq] at prepared
    subst prepared
    obtain ⟨nextPool, bids, asks, ordersById⟩ := next
    obtain ⟨bookPool, bids', asks', ordersById'⟩ := book
    obtain ⟨sameBids, sameAsks, sameIndex, _⟩ := restored
    simp only at nextOwned owned sameBids sameAsks sameIndex
    rw [nextOwned, owned, sameBids, sameAsks, sameIndex]

/-! ## A call that goes through would have with every grant -/

/-- An add that is done is done with all memory granted. -/
theorem addTo_answers_ok
    {lt : Price → Price → Prop} [DecidableRel lt] [IsStrictTotalOrder Price lt]
    {shelf next : Shelf lt} {heap : HeapGrants} {event : AddOrder}
    (added : shelf.addTo heap event = (next, .ok)) :
    shelf.addTo {} event = (next, .ok) ∧ next.pool.firstInit = true := by
  by_cases noNode :
      shelf.levels.find? event.price = none ∧ heap.levelNode = false
  · simp [Shelf.addTo, noNode] at added
  rcases served :
      shelf.pool.allocate heap.poolMetadata nodeBytes nodeAlignment with
    ⟨pool, answer⟩
  cases answer with
  | null => simp [Shelf.addTo, noNode, served] at added
  | badAlloc => simp [Shelf.addTo, noNode, served] at added
  | address handle =>
      obtain ⟨granted, init⟩ := FixedSlotPool.allocate_granted served
      simp only [Shelf.addTo, noNode, if_false, served] at added
      split_ifs at added with used noIndex
      · cases added
      · cases added
      simp only [Shelf.addTo, granted, used, Bool.true_eq_false, and_false,
        if_false]
      refine ⟨added, ?_⟩
      rw [← (Prod.mk.inj added).1]
      exact init

/-- A call that is done was done on its side. -/
theorem onSide_answers_ok
    {pool : FixedSlotPool} {side : Side} {next : OrderBook}
    {onBids : Shelf (· > ·) → Shelf (· > ·) × ApplyResult}
    {onAsks : Shelf (· < ·) → Shelf (· < ·) × ApplyResult}
    {otherwise : ApplyResult}
    (ran : book.onSide pool side onBids onAsks otherwise = (next, .ok)) :
    (∃ shelf, side = .bid ∧ next = book.withBids shelf ∧
      onBids ⟨book.bids, pool, book.ordersById⟩ = (shelf, .ok)) ∨
    (∃ shelf, side = .ask ∧ next = book.withAsks shelf ∧
      onAsks ⟨book.asks, pool, book.ordersById⟩ = (shelf, .ok)) ∨
    otherwise = .ok := by
  cases side with
  | bid =>
      rcases done : onBids ⟨book.bids, pool, book.ordersById⟩ with
        ⟨shelf, result⟩
      simp only [onSide, done, Prod.mk.injEq] at ran
      exact Or.inl ⟨shelf, rfl, ran.1.symm, by rw [ran.2]⟩
  | ask =>
      rcases done : onAsks ⟨book.asks, pool, book.ordersById⟩ with
        ⟨shelf, result⟩
      simp only [onSide, done, Prod.mk.injEq] at ran
      exact Or.inr (Or.inl ⟨shelf, rfl, ran.1.symm, by rw [ran.2]⟩)
  | unlisted raw outside =>
      exact Or.inr (Or.inr (Prod.mk.inj ran).2)

/-- An add that is done leaves the pool initialised. -/
theorem applyAdd_answers_ok
    {next : OrderBook} {heap : HeapGrants} {event : AddOrder}
    (added : book.applyAdd heap event = (next, .ok)) :
    book.applyAdd {} event = (next, .ok) ∧ next.Initialised := by
  unfold applyAdd at added ⊢
  split_ifs at added ⊢ with noQuantity noPrice used listed
  · cases added
  · cases added
  · cases added
  · cases owned : book.pool with
    | none => simp [owned] at added
    | some pool =>
        simp only [owned] at added
        rcases onSide_answers_ok added with
          ⟨shelf, isBid, rfl, done⟩ | ⟨shelf, isAsk, rfl, done⟩ | unlisted
        · obtain ⟨granted, init⟩ := addTo_answers_ok done
          exact ⟨by simp [onSide, isBid, granted], shelf.pool, rfl, init⟩
        · obtain ⟨granted, init⟩ := addTo_answers_ok done
          exact ⟨by simp [onSide, isAsk, granted], shelf.pool, rfl, init⟩
        · cases unlisted
  · cases added

/-- A cancellation leaves a pool initialised or not. -/
theorem cancelFrom_firstInit
    {lt : Price → Price → Prop} [DecidableRel lt] [IsStrictTotalOrder Price lt]
    (shelf : Shelf lt) (orderId : OrderId) (location : OrderLocation) :
    (shelf.cancelFrom orderId location).1.pool.firstInit =
      shelf.pool.firstInit := by
  unfold Shelf.cancelFrom
  split
  · rfl
  · simp [Shelf.unlink]

/-- So does an execution. -/
theorem executeOn_firstInit
    {lt : Price → Price → Prop} [DecidableRel lt] [IsStrictTotalOrder Price lt]
    (shelf : Shelf lt) (orderId : OrderId) (location : OrderLocation)
    (quantity : Quantity) :
    (shelf.executeOn orderId location quantity).1.pool.firstInit =
      shelf.pool.firstInit := by
  unfold Shelf.executeOn
  split
  · rfl
  · dsimp only
    split_ifs
    · simp [Shelf.unlink]
    · rfl

/-- A set-up pool stays set up. -/
theorem Initialised.applyCancel
    (initialised : book.Initialised) {next : OrderBook} {event : CancelOrder}
    (cancelled : book.applyCancel event = (next, .ok)) :
    next.Initialised := by
  obtain ⟨pool, owned, init⟩ := initialised
  unfold OrderBook.applyCancel at cancelled
  rw [owned] at cancelled
  cases found : book.ordersById.find? event.orderId with
  | none => simp [found] at cancelled
  | some location =>
      simp only [found] at cancelled
      rcases onSide_answers_ok cancelled with
        ⟨shelf, _, rfl, done⟩ | ⟨shelf, _, rfl, done⟩ | unlisted
      · have kept := cancelFrom_firstInit
          ⟨book.bids, pool, book.ordersById⟩ event.orderId location
        rw [done] at kept
        exact ⟨shelf.pool, rfl, kept.trans init⟩
      · have kept := cancelFrom_firstInit
          ⟨book.asks, pool, book.ordersById⟩ event.orderId location
        rw [done] at kept
        exact ⟨shelf.pool, rfl, kept.trans init⟩
      · cases unlisted

/-- An initialised book stays so. -/
theorem Initialised.applyExecute
    (initialised : book.Initialised) {next : OrderBook} {event : ExecuteOrder}
    (executed : book.applyExecute event = (next, .ok)) :
    next.Initialised := by
  obtain ⟨pool, owned, init⟩ := initialised
  unfold OrderBook.applyExecute at executed
  rw [owned] at executed
  cases found : book.ordersById.find? event.orderId with
  | none => simp [found] at executed
  | some location =>
      simp only [found] at executed
      split_ifs at executed
      · cases executed
      · cases executed
      rcases onSide_answers_ok executed with
        ⟨shelf, _, rfl, done⟩ | ⟨shelf, _, rfl, done⟩ | unlisted
      · have kept := executeOn_firstInit
          ⟨book.bids, pool, book.ordersById⟩ event.orderId location event.quantity
        rw [done] at kept
        exact ⟨shelf.pool, rfl, kept.trans init⟩
      · have kept := executeOn_firstInit
          ⟨book.asks, pool, book.ordersById⟩ event.orderId location event.quantity
        rw [done] at kept
        exact ⟨shelf.pool, rfl, kept.trans init⟩
      · cases unlisted

/-- Every slot of a set-up pool is free or holds a live order. -/
theorem Wf.slots_accounted
    (wf : book.Wf) (initialised : book.Initialised) :
    book.freeSlots + book.orderCount = book.slots := by
  obtain ⟨pool, owned, holds⟩ := wf.pooled
  obtain ⟨stored, storedOwned, init⟩ := initialised
  rw [owned, Option.some.injEq] at storedOwned
  subst storedOwned
  have ready := holds.afterInit init
  have accounted := ready.accounted
  rw [ready.slotCount, List.length_map] at accounted
  rw [wf.orderCount_eq]
  simpa [freeSlots, slots, owned] using accounted

/-- With a working heap, only a full pool refuses a valid addition. -/
theorem Wf.refused_iff_full
    (wf : book.Wf) {event : AddOrder} (addable : book.Addable event) :
    (book.applyAdd {} event).2 = .allocationFailed ↔
      book.orderCount = book.slots := by
  constructor
  · intro failed
    by_contra notFull
    have countLe : book.orderCount ≤ book.slots := by
      obtain ⟨pool, owned, holds⟩ := wf.pooled
      rw [wf.orderCount_eq]
      simpa [slots, owned] using holds.length_le
    rw [applyAdd_granted wf addable (Nat.lt_of_le_of_ne countLe notFull)]
      at failed
    cases failed
  · intro full
    rw [applyAdd_full wf addable full]

/-- A call that does not answer `Ok` leaves nothing behind. -/
structure LeavesNothing (book : OrderBook) (made : BookCall) : Prop where
  snapshot : (book.call made).1.snapshot = book.snapshot
  ordersById : (book.call made).1.ordersById = book.ordersById
  freeSlots : book.Initialised →
    (book.call made).1.freeSlots = book.freeSlots
  retried : (book.call made).1.call made.granted = book.call made.granted

/-- A call that fails leaves nothing behind. -/
theorem Wf.leavesNothing
    (wf : book.Wf) {made : BookCall} (failed : (book.call made).2 ≠ .ok) :
    book.LeavesNothing made := by
  rcases wf.call_ends made with
    ⟨result, _, refused⟩ | ⟨next, ranOut, facts⟩ | ⟨next, done, _⟩
  · constructor <;> simp [refused]
  · constructor
    · rw [ranOut]
      exact facts.restored.snapshot
    · rw [ranOut]
      exact facts.restored.ordersById
    · intro initialised
      rw [ranOut, facts.restored.eq_of_initialised initialised]
    · rw [ranOut]
      exact facts.retried
  · rw [done] at failed
    exact absurd rfl failed

/--
In every book that calls lead to, failed calls leave nothing behind, slots are
free or hold an order, and only a full pool refuses a valid addition.
-/
theorem failures_atomic
    {storage : Nat} (poolBytes : Nat) (storagePos : 0 < storage)
    (calls : List BookCall) :
    let book := (ofPool storage poolBytes).afterCalls calls
    let slots := (ofPool storage poolBytes).slots
    (∀ made, (book.call made).2 ≠ .ok → book.LeavesNothing made) ∧
      (book.Initialised → book.freeSlots + book.orderCount = slots) ∧
      ∀ event, book.Addable event →
        ((book.applyAdd {} event).2 = .allocationFailed ↔
          book.orderCount = slots) := by
  intro book slots
  obtain ⟨wf, sameSlots⟩ := afterCalls_wf poolBytes storagePos calls
  refine ⟨fun _ failed => wf.leavesNothing failed, fun initialised => ?_,
    fun event addable => ?_⟩
  · exact (wf.slots_accounted initialised).trans sameSlots
  · exact (wf.refused_iff_full addable).trans (by rw [sameSlots])

/-- A pool of two slots refuses the third order and loses neither slot. -/
theorem failures_atomic_full :
    let book := (ofPool 8 64).afterCalls
      [.add {} ⟨1, .bid, 100, 10⟩, .add {} ⟨2, .ask, 101, 20⟩]
    let third : BookCall := .add {} ⟨3, .bid, 100, 5⟩
    (book.call third).2 = .allocationFailed ∧ book.LeavesNothing third ∧
      book.freeSlots + book.orderCount = 2 := by
  intro book third
  have refused : (book.call third).2 = .allocationFailed := by decide +kernel
  have atomic := failures_atomic 64 (show 0 < 8 by decide)
    [.add {} ⟨1, .bid, 100, 10⟩, .add {} ⟨2, .ask, 101, 20⟩]
  exact ⟨refused, atomic.1 third (by rw [refused]; decide),
    atomic.2.1 ⟨_, rfl, by decide +kernel⟩⟩

end OrderBook

end LimitOrderBook
