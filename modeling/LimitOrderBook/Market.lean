import LimitOrderBook.OrderBookViews

namespace LimitOrderBook

/-!
# Markets

A market says which orders are live on every instrument and side, in priority
order.  It is the abstract state that the books of the engine and the books of
a replica both stand for.  The operations here are what the market data
deltas mean; the theorems at the end say that a map of well-formed books
follows them.
-/

abbrev Books := OrderedMap InstrumentId OrderBook (· < ·)

abbrev Market := InstrumentId → Side → List OrderView

/-- Write the quantity of one order. -/
def OrderView.resize (orderId : OrderId) (quantity : Quantity)
    (order : OrderView) : OrderView :=
  if order.orderId = orderId then { order with quantity := quantity }
  else order

namespace Market

/-- No live orders. -/
def empty : Market := fun _ _ => []

/-- An arrival behind everything that does not have a worse price. -/
def insert (market : Market) (instrument : InstrumentId) (order : OrderView) :
    Market := fun other side =>
  if other = instrument ∧ side = order.side then
    (market other side).orderedInsert (OrderBook.Better side) order
  else
    market other side

/-- An order leaves the market. -/
def remove (market : Market) (instrument : InstrumentId) (orderId : OrderId) :
    Market := fun other side =>
  if other = instrument then
    (market other side).filter fun order => decide (order.orderId ≠ orderId)
  else
    market other side

/-- An order keeps its place with another quantity. -/
def resize (market : Market) (instrument : InstrumentId) (orderId : OrderId)
    (quantity : Quantity) : Market := fun other side =>
  if other = instrument then
    (market other side).map (OrderView.resize orderId quantity)
  else
    market other side

/-- An order loses quantity and leaves the market with its last unit. -/
def execute (market : Market) (instrument : InstrumentId) (orderId : OrderId)
    (quantity : Quantity) : Market := fun other side =>
  if other = instrument then
    (market other side).filterMap (OrderBook.executeView orderId quantity)
  else
    market other side

/-- The number of live orders of an instrument. -/
def count (market : Market) (instrument : InstrumentId) : Nat :=
  (market instrument .bid).length + (market instrument .ask).length

/-- A complete execution is a removal. -/
theorem execute_eq_remove
    {market : Market} {instrument : InstrumentId} {orderId : OrderId}
    {quantity : Quantity}
    (complete : ∀ side, ∀ order ∈ market instrument side,
      order.orderId = orderId → order.quantity = quantity) :
    market.execute instrument orderId quantity =
      market.remove instrument orderId := by
  funext other side
  by_cases here : other = instrument
  · subst here
    simp only [execute, remove, if_true, ← List.filterMap_eq_filter]
    refine List.filterMap_congr fun order member => ?_
    by_cases target : order.orderId = orderId
    · have all := complete side order member target
      simp [OrderBook.executeView, target, all, Option.guard]
    · simp [OrderBook.executeView, target, Option.guard]
  · simp [execute, remove, here]

/-- A partial execution only changes a quantity. -/
theorem execute_eq_resize
    {market : Market} {instrument : InstrumentId} {orderId : OrderId}
    {quantity left : Quantity} (some_left : left ≠ 0)
    (partly : ∀ side, ∀ order ∈ market instrument side,
      order.orderId = orderId → order.quantity = quantity + left) :
    market.execute instrument orderId quantity =
      market.resize instrument orderId left := by
  funext other side
  by_cases here : other = instrument
  · subst here
    simp only [execute, resize, if_true, ← List.filterMap_eq_map]
    refine List.filterMap_congr fun order member => ?_
    by_cases target : order.orderId = orderId
    · have split := partly side order member target
      have more : ¬ quantity + left ≤ quantity := by lia
      have rest : quantity + left - quantity = left := by lia
      simp [OrderBook.executeView, OrderView.resize, target, split, more, rest]
    · simp [OrderBook.executeView, OrderView.resize, target]
  · simp [execute, resize, here]

end Market

/-! ## What market data deltas mean -/

namespace Market

/-- The market after one delta. -/
def applyDelta (market : Market) (m : Message) : Market :=
  match m.update with
  | .add =>
      market.insert m.instrumentId ⟨m.exchangeId, m.side, m.price, m.quantity⟩
  | .cancel => market.remove m.instrumentId m.exchangeId
  | .execute => market.execute m.instrumentId m.exchangeId m.quantity
  | .reduce => market.resize m.instrumentId m.exchangeId m.quantity
  | .trade => market
  | .unlisted _ _ => market

/-- A live order with an id. -/
def Live (market : Market) (instrument : InstrumentId) (orderId : OrderId)
    (quantity : Quantity) : Prop :=
  ∃ side, ∃ order ∈ market instrument side,
    order.orderId = orderId ∧ order.quantity = quantity

/-- A delta that books with a given number of slots can follow. -/
def Admits (slots : Nat) (market : Market) (m : Message) : Prop :=
  match m.update with
  | .add =>
      m.quantity ≠ 0 ∧ m.price ≠ 0 ∧ m.side.Listed ∧
        (∀ quantity, ¬ market.Live m.instrumentId m.exchangeId quantity) ∧
        market.count m.instrumentId < slots
  | .cancel => ∃ quantity, market.Live m.instrumentId m.exchangeId quantity
  | .execute =>
      ∃ quantity, market.Live m.instrumentId m.exchangeId quantity ∧
        m.quantity ≠ 0 ∧ m.quantity ≤ quantity
  | .reduce =>
      ∃ quantity, market.Live m.instrumentId m.exchangeId quantity ∧
        m.quantity ≠ 0 ∧ m.quantity < quantity
  | .trade => True
  | .unlisted _ _ => False

/-- A list of deltas that can be followed one after the other. -/
inductive Feed (slots : Nat) : Market → List Message → Market → Prop where
  | done {market : Market} : Feed slots market [] market
  | next {market final : Market} {m : Message} {rest : List Message} :
      market.Admits slots m →
      Feed slots (market.applyDelta m) rest final →
      Feed slots market (m :: rest) final

namespace Feed

variable {slots : Nat} {market middle final : Market}
  {first second : List Message}

theorem append
    (before : Feed slots market first middle)
    (after : Feed slots middle second final) :
    Feed slots market (first ++ second) final := by
  induction before with
  | done => exact after
  | next admitted _ inductionHypothesis =>
      exact .next admitted (inductionHypothesis after)

theorem single {m : Message} (admitted : market.Admits slots m) :
    Feed slots market [m] (market.applyDelta m) :=
  .next admitted .done

/-- The final market is determined by the deltas. -/
theorem final_eq (feed : Feed slots market first final) :
    final = first.foldl applyDelta market := by
  induction feed with
  | done => rfl
  | next _ _ inductionHypothesis => exact inductionHypothesis

end Feed

end Market

/-! ## Maps of books -/

/-- The market a map of books shows. -/
def marketOf (books : Books) : Market := fun instrument side =>
  ((books.find? instrument).map fun book => book.sideOrders side).getD []

/-- Well-formed books with pools of one size. -/
def BooksWf (slots : Nat) (books : Books) : Prop :=
  ∀ instrument book, books.find? instrument = some book →
    book.Wf ∧ book.slots = slots

/-- Books that still have the same keys and now show another market. -/
structure Reshelved (slots : Nat) (books next : Books) (market : Market) :
    Prop where
  wf : BooksWf slots next
  shows : marketOf next = market
  sameKeys : next.keys = books.keys

theorem marketOf_of_find?
    {books : Books} {instrument : InstrumentId} {book : OrderBook}
    (found : books.find? instrument = some book) (side : Side) :
    marketOf books instrument side = book.sideOrders side := by
  simp [marketOf, found]

theorem marketOf_insert
    (books : Books) (instrument : InstrumentId) (next : OrderBook) :
    marketOf (books.insert instrument next) = fun other side =>
      if other = instrument then next.sideOrders side
      else marketOf books other side := by
  funext other side
  by_cases here : other = instrument <;> simp [marketOf, here]

/-- A live order is an order of a book. -/
theorem book_of_mem
    {books : Books} {instrument : InstrumentId} {side : Side}
    {order : OrderView} (live : order ∈ marketOf books instrument side) :
    ∃ book, books.find? instrument = some book ∧
      order ∈ book.sideOrders side := by
  cases found : books.find? instrument with
  | none => simp [marketOf, found] at live
  | some book => exact ⟨book, rfl, by simpa [marketOf, found] using live⟩

namespace BooksWf

variable {slots : Nat} {books : Books} {instrument : InstrumentId}

theorem insert
    (wf : BooksWf slots books) {next : OrderBook} (nextWf : next.Wf)
    (nextSlots : next.slots = slots) :
    BooksWf slots (books.insert instrument next) := by
  intro other book found
  rw [OrderedMap.find?_insert] at found
  split at found
  · cases found
    exact ⟨nextWf, nextSlots⟩
  · exact wf other book found

theorem mem_market
    (wf : BooksWf slots books) {side : Side} {order : OrderView}
    (live : order ∈ marketOf books instrument side) :
    order.side = side ∧ side.Listed ∧ order.price ≠ 0 ∧ order.quantity ≠ 0 := by
  obtain ⟨book, found, member⟩ := book_of_mem live
  obtain ⟨shownSide, pricePos, quantityPos⟩ :=
    (wf instrument book found).1.mem_sideOrders member
  refine ⟨shownSide, ?_, pricePos, quantityPos⟩
  cases side with
  | bid => exact Or.inl rfl
  | ask => exact Or.inr rfl
  | unlisted raw outside => cases member

theorem orderCount_eq
    (wf : BooksWf slots books) {book : OrderBook}
    (found : books.find? instrument = some book) :
    book.orderCount = (marketOf books).count instrument := by
  rw [(wf instrument book found).1.orderCount_orders]
  simp [OrderBook.orders, Market.count, marketOf_of_find? found]

/-- No instrument has more live orders than slots. -/
theorem count_le
    (wf : BooksWf slots books) (instrument : InstrumentId) :
    (marketOf books).count instrument ≤ slots := by
  cases found : books.find? instrument with
  | none => simp [Market.count, marketOf, found]
  | some book =>
      obtain ⟨bookWf, bookSlots⟩ := wf instrument book found
      rw [← wf.orderCount_eq found, ← bookSlots, bookWf.orderCount_eq]
      obtain ⟨pool, owned, holds⟩ := bookWf.pooled
      simpa [OrderBook.slots, owned] using holds.length_le

/-- A book has no live order with an id that the market does not show. -/
theorem unused
    (wf : BooksWf slots books) {book : OrderBook}
    (found : books.find? instrument = some book) {orderId : OrderId}
    (absent : ∀ quantity, ¬ (marketOf books).Live instrument orderId quantity) :
    book.ordersById.find? orderId = none := by
  refine (wf instrument book found).1.find?_eq_none.mpr ?_
  intro order member sameId
  obtain ⟨side, sideMember⟩ := OrderBook.mem_orders.mp member
  exact absent order.quantity
    ⟨side, order, by rwa [marketOf_of_find? found], sameId, rfl⟩

theorem remainingQuantity_of_live
    (wf : BooksWf slots books) {book : OrderBook}
    (found : books.find? instrument = some book) {orderId : OrderId}
    {quantity : Quantity}
    (live : (marketOf books).Live instrument orderId quantity) :
    book.remainingQuantity orderId = some quantity := by
  obtain ⟨side, order, member, rfl, rfl⟩ := live
  rw [marketOf_of_find? found] at member
  exact OrderBook.remainingQuantity_of_live (wf instrument book found).1 member

/-- A book that shows its part of a market replaces the one before it. -/
theorem reshelved
    (wf : BooksWf slots books) {book next : OrderBook} {market : Market}
    (found : books.find? instrument = some book) (nextWf : next.Wf)
    (nextSlots : next.slots = book.slots)
    (here : ∀ side, next.sideOrders side = market instrument side)
    (elsewhere : ∀ other, other ≠ instrument → ∀ side,
      market other side = marketOf books other side) :
    Reshelved slots books (books.insert instrument next) market := by
  refine ⟨wf.insert nextWf (nextSlots.trans (wf instrument book found).2), ?_,
    OrderedMap.keys_insert_of_find?_some found next⟩
  rw [marketOf_insert]
  funext other side
  split_ifs with same
  · rw [same, here]
  · rw [elsewhere other same side]

/-- Cancelling a live order in its book removes it from the market. -/
theorem applyCancel
    (wf : BooksWf slots books) {orderId : OrderId} {quantity : Quantity}
    (live : (marketOf books).Live instrument orderId quantity) :
    ∃ book next,
      books.find? instrument = some book ∧
        book.applyCancel ⟨orderId⟩ = (next, .ok) ∧
        Reshelved slots books (books.insert instrument next)
          ((marketOf books).remove instrument orderId) := by
  obtain ⟨side, order, member, rfl, rfl⟩ := live
  obtain ⟨book, found, bookMember⟩ := book_of_mem member
  obtain ⟨next, applied, nextWf, nextSlots, shown⟩ :=
    OrderBook.applyCancel_ok (wf instrument book found).1 bookMember
  refine ⟨book, next, found, applied,
    wf.reshelved found nextWf nextSlots ?_ ?_⟩
  · intro otherSide
    simp [Market.remove, shown, marketOf_of_find? found]
  · intro other apart side
    simp [Market.remove, apart]

/-- Executing a live order in its book executes it in the market. -/
theorem applyExecute
    (wf : BooksWf slots books) {orderId : OrderId}
    {quantity executed : Quantity}
    (live : (marketOf books).Live instrument orderId quantity)
    (positive : executed ≠ 0) (enough : executed ≤ quantity) :
    ∃ book next,
      books.find? instrument = some book ∧
        book.applyExecute ⟨orderId, executed⟩ = (next, .ok) ∧
        Reshelved slots books (books.insert instrument next)
          ((marketOf books).execute instrument orderId executed) := by
  obtain ⟨side, order, member, rfl, rfl⟩ := live
  obtain ⟨book, found, bookMember⟩ := book_of_mem member
  obtain ⟨next, applied, nextWf, nextSlots, shown⟩ :=
    OrderBook.applyExecute_ok (wf instrument book found).1 bookMember positive
      enough
  refine ⟨book, next, found, applied,
    wf.reshelved found nextWf nextSlots ?_ ?_⟩
  · intro otherSide
    simp [Market.execute, shown, marketOf_of_find? found]
  · intro other apart side
    simp [Market.execute, apart]

/-- Adding a new order to a book with room adds it to the market. -/
theorem applyAdd
    (wf : BooksWf slots books) {book : OrderBook}
    (found : books.find? instrument = some book) (event : AddOrder)
    (quantityPos : event.quantity ≠ 0) (pricePos : event.price ≠ 0)
    (listed : event.side.Listed)
    (absent : ∀ quantity,
      ¬ (marketOf books).Live instrument event.orderId quantity)
    (room : (marketOf books).count instrument < slots) :
    ∃ next,
      book.applyAdd {} event = (next, .ok) ∧
        Reshelved slots books (books.insert instrument next)
          ((marketOf books).insert instrument (OrderBook.addedView event)) := by
  obtain ⟨bookWf, bookSlots⟩ := wf instrument book found
  have addable : book.Addable event :=
    ⟨quantityPos, pricePos, wf.unused found absent, listed⟩
  obtain ⟨next, applied, nextWf, nextSlots, shown⟩ :=
    OrderBook.applyAdd_ok bookWf addable
      (by rw [wf.orderCount_eq found, bookSlots]; exact room)
  refine ⟨next, applied, wf.reshelved found nextWf nextSlots ?_ ?_⟩
  · intro side
    simp only [shown, Market.insert, marketOf_of_find? found, true_and]
    rfl
  · intro other apart side
    simp [Market.insert, apart]

/-- A full book refuses a new order and stays as it was. -/
theorem applyAdd_full
    (wf : BooksWf slots books) {book : OrderBook}
    (found : books.find? instrument = some book) (event : AddOrder)
    (quantityPos : event.quantity ≠ 0) (pricePos : event.price ≠ 0)
    (listed : event.side.Listed)
    (absent : ∀ quantity,
      ¬ (marketOf books).Live instrument event.orderId quantity)
    (full : (marketOf books).count instrument = slots) :
    book.applyAdd {} event = (book, .allocationFailed) := by
  obtain ⟨bookWf, bookSlots⟩ := wf instrument book found
  exact OrderBook.applyAdd_full bookWf
    ⟨quantityPos, pricePos, wf.unused found absent, listed⟩
    (by rw [wf.orderCount_eq found, bookSlots]; exact full) {}

end BooksWf

end LimitOrderBook
