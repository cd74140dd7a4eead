import LimitOrderBook.OrderBookChecker
import Mathlib.Data.List.Lex
import Mathlib.Data.Prod.Lex

namespace LimitOrderBook.Feed

/-!
# Books rebuilt from an exchange feed

The model of `feed/books.hpp` and `feed/books.cpp`.  Normalised events of many
venues and channels are routed to one core book per venue, channel and symbol.
Routes are kept for every order, also of symbols the filter leaves out, because
follow-up events carry no symbol.

A throwing call leaves behind what it had already done, so a failure carries
the state at the throw.  Strings are the bytes they hold.  Feed quantities and
prices are 64-bit in the source and natural numbers here; only the conversion
to the core's 32 bits can cut, and it is written with its modulus.  All memory
other than the pools' slots is granted.
-/

/-- `std::string`. -/
abbrev Text := List UInt8

inductive EventType where
  | metadata
  | directory
  | add
  | reduce
  | execute
  | delete
  | replace
  | executeRemaining
  | trade
  | clear
  | unlisted (raw : Int)
  deriving DecidableEq

structure Event where
  type : EventType := .metadata
  sequence : Nat := 0
  timestampNs : Nat := 0
  channel : Nat := 0
  symbol : Text := []
  orderId : OrderId := 0
  newOrderId : OrderId := 0
  side : Side := .bid
  price : Nat := 0
  quantity : Nat := 0
  remaining : Nat := 0
  matchId : Nat := 0
  maintainPriority : Bool := false
  deriving DecidableEq

structure BookKey where
  venue : Text
  channel : Nat
  symbol : Text
  deriving DecidableEq

structure OrderKey where
  venue : Text
  channel : Nat
  orderId : OrderId
  deriving DecidableEq

/-- Strings compare by their bytes. -/
def textOrder (text : Text) : List Nat :=
  text.map UInt8.toNat

theorem textOrder_injective : Function.Injective textOrder :=
  List.map_injective_iff.mpr fun _ _ => UInt8.toNat_inj.mp

/-- The defaulted comparison: member by member. -/
instance : LinearOrder BookKey :=
  LinearOrder.lift'
    (fun key : BookKey =>
      toLex (textOrder key.venue, toLex (key.channel, textOrder key.symbol)))
    (by
      rintro ⟨venue, channel, symbol⟩ ⟨venue', channel', symbol'⟩ same
      simp only [EmbeddingLike.apply_eq_iff_eq, Prod.mk.injEq] at same
      rw [textOrder_injective same.1, same.2.1, textOrder_injective same.2.2])

instance : LinearOrder OrderKey :=
  LinearOrder.lift'
    (fun key : OrderKey =>
      toLex (textOrder key.venue, toLex (key.channel, key.orderId)))
    (by
      rintro ⟨venue, channel, orderId⟩ ⟨venue', channel', orderId'⟩ same
      simp only [EmbeddingLike.apply_eq_iff_eq, Prod.mk.injEq] at same
      rw [textOrder_injective same.1, same.2.1, same.2.2])

structure Tracked where
  book : BookKey
  side : Side
  price : Nat
  quantity : Nat
  deriving DecidableEq

abbrev BookMap := OrderedMap BookKey OrderBook (· < ·)
abbrev Routes := OrderedMap OrderKey Tracked (· < ·)

structure Books where
  filter : Text
  poolBytes : Nat
  valid : Bool := true
  updates : Nat := 0
  books : BookMap := .empty
  orders : Routes := .empty
  deriving DecidableEq

/-- A thrown `Error` and the state it left behind. -/
structure Thrown where
  state : Books
  what : String

/-- `to_string(ApplyResult)`. -/
def resultName : ApplyResult → String
  | .ok => "ok"
  | .duplicateOrder => "duplicate_order"
  | .unknownOrder => "unknown_order"
  | .invalidPrice => "invalid_price"
  | .invalidQuantity => "invalid_quantity"
  | .unknownInstrument => "unknown_instrument"
  | .quantityExceedsRemaining => "quantity_exceeds_remaining"
  | .parseError => "parse_error"
  | .notImplemented => "not_implemented"
  | .allocationFailed => "allocation_failed"

namespace Books

/-- The constructor. -/
def create (filter : Text) (poolBytes : Nat) : Except String Books :=
  if poolBytes = 0 then
    .error "Nonzero per-book pool budget required"
  else
    .ok { filter := filter, poolBytes := poolBytes }

def selected (books : Books) (symbol : Text) : Bool :=
  decide (books.filter = [] ∨ books.filter = symbol)

/-- `detail::require`. -/
def require (books : Books) (value : Bool) (message : String) :
    Except Thrown Unit :=
  if value then .ok () else .error ⟨books, message⟩

/-- `applied`: keep what the call did to the book and check its result. -/
def applied (books : Books) (key : BookKey)
    (outcome : OrderBook × ApplyResult) : Except Thrown Books :=
  let after := { books with books := books.books.insert key outcome.1 }
  if outcome.2 = .ok then
    .ok after
  else
    .error ⟨after, "LOB apply failed: " ++ resultName outcome.2⟩

/-- `add`: narrow an order to the core's types. -/
def addOrder (books : Books) (orderId : OrderId) (side : Side)
    (price quantity : Nat) : Except Thrown AddOrder := do
  books.require (0 < price ∧ price ≤ 2 ^ 32 - 1)
    "Feed price cannot be represented by the core LOB"
  books.require (0 < quantity ∧ quantity ≤ 2 ^ 32 - 1)
    "Feed quantity cannot be represented by the core LOB"
  .ok ⟨orderId, side, price, quantity⟩

/-- A new core book; its storage is aligned as `operator new` does. -/
def newBook (books : Books) : OrderBook :=
  .ofPool 4096 books.poolBytes

/-- The branch of `apply` for additions. -/
def applyAdd (books : Books) (venue : Text) (e : Event) :
    Except Thrown Books := do
  let key : OrderKey := ⟨venue, e.channel, e.orderId⟩
  let book : BookKey := ⟨venue, e.channel, e.symbol⟩
  books.require (e.symbol ≠ [] ∧ books.orders.contains key = false)
    "Missing symbol or duplicate order ID"
  books.require (0 < e.price ∧ 0 < e.quantity)
    "Nonpositive feed price/quantity"
  let added ←
    if books.selected e.symbol then do
      let order ← books.addOrder e.orderId e.side e.price e.quantity
      let opened :=
        { books with books := books.books.emplace book books.newBook }
      let core := (opened.books.find? book).getD books.newBook
      let after ← opened.applied book (core.applyAdd {} order)
      .ok { after with updates := after.updates + 1 }
    else
      .ok books
  .ok
    { added with
      orders := added.orders.emplace key ⟨book, e.side, e.price, e.quantity⟩ }

/-- Run an operation on a book that exists. -/
def touch (books : Books) (key : BookKey)
    (operation : OrderBook → Except Thrown (OrderBook × ApplyResult)) :
    Except Thrown Books :=
  match books.books.find? key with
  | none => .ok books
  | some core => do
      let outcome ← operation core
      books.applied key outcome

/-- Write a route's quantity and drop the route at zero. -/
def setQuantity (books : Books) (key : OrderKey) (old : Tracked)
    (quantity : Nat) : Books :=
  { books with
    orders :=
      if quantity = 0 then
        books.orders.erase key
      else
        books.orders.insert key { old with quantity := quantity } }

/-- The branch of `apply` for `Replace`. -/
def applyReplace (books : Books) (venue : Text) (e : Event) (old : Tracked) :
    Except Thrown Books := do
  let key : OrderKey := ⟨venue, e.channel, e.orderId⟩
  let next : OrderKey := ⟨venue, e.channel, e.newOrderId⟩
  books.require (next = key ∨ books.orders.contains next = false)
    "Replacement ID already exists"
  books.require (0 < e.price ∧ 0 < e.quantity)
    "Nonpositive replacement price/quantity"
  books.require
    (e.maintainPriority = false ∨ next = key ∧ e.price = old.price)
    "Maintain-priority replacement changes price/ID"
  let touched ← books.touch old.book fun core => do
    let order ← books.addOrder e.newOrderId old.side e.price e.quantity
    .ok (core.replace {} e.orderId order e.maintainPriority)
  let tracked := { old with price := e.price, quantity := e.quantity }
  .ok
    { touched with
      orders :=
        if next = key then
          touched.orders.insert key tracked
        else
          (touched.orders.emplace next tracked).erase key }

/-- The branches of `apply` for events on a known order. -/
def applyKnown (books : Books) (venue : Text) (e : Event) (old : Tracked) :
    Except Thrown Books :=
  let key : OrderKey := ⟨venue, e.channel, e.orderId⟩
  match e.type with
  | .delete => do
      let touched ← books.touch old.book fun core =>
        .ok (core.applyCancel ⟨e.orderId⟩)
      .ok { touched with orders := touched.orders.erase key }
  | .reduce | .execute => do
      books.require (0 < e.quantity ∧ e.quantity ≤ old.quantity)
        "Invalid feed decrement"
      let touched ← books.touch old.book fun core =>
        .ok (core.applyExecute ⟨e.orderId, e.quantity % 2 ^ 32⟩)
      .ok (touched.setQuantity key old (old.quantity - e.quantity))
  | .executeRemaining => do
      -- Hidden size executes too: what remains is not the old size less this.
      books.require (0 < e.quantity ∧ e.remaining ≤ 2 ^ 32 - 1)
        "Invalid PITCH execution/remaining quantity"
      let touched ← books.touch old.book fun core =>
        if e.remaining = 0 then
          .ok (core.applyCancel ⟨e.orderId⟩)
        else do
          let order ←
            books.addOrder e.orderId old.side old.price e.remaining
          .ok (core.replace {} e.orderId order true)
      .ok (touched.setQuantity key old e.remaining)
  | .replace => books.applyReplace venue e old
  | _ => .error ⟨books, "Unsupported normalized book event"⟩

/-- `Books::apply`. -/
def apply (books : Books) (venue : Text) (e : Event) :
    Except Thrown Books := do
  let key : OrderKey := ⟨venue, e.channel, e.orderId⟩
  books.require (venue ≠ []) "Venue namespace required"
  match e.type with
  | .metadata | .directory | .trade => .ok books
  | .clear =>
      .ok
        { books with
          orders := books.orders.eraseIf fun key =>
            decide (key.venue = venue ∧ key.channel = e.channel)
          books := books.books.eraseIf fun key =>
            decide (key.venue = venue ∧ key.channel = e.channel) }
  | .add => books.applyAdd venue e
  | _ =>
      match books.orders.find? key with
      | none =>
          .error
            ⟨books, "Unknown feed order; missing history or wrong channel"⟩
      | some old => do
          books.require (e.symbol = [] ∨ old.book.symbol = e.symbol)
            "Order belongs to another symbol"
          let after ← books.applyKnown venue e old
          if (books.books.find? old.book).isSome then
            .ok { after with updates := after.updates + 1 }
          else
            .ok after

/-- `Books::consume`: the state after the call and what it threw. -/
def consume (books : Books) (venue : Text) (e : Event) :
    Books × Option String :=
  if books.valid then
    match books.apply venue e with
    | .ok after => (after, none)
    | .error thrown =>
        ({ thrown.state with valid := false }, some thrown.what)
  else
    (books, some "Feed books require rebuild after error")

/-! ## The runtime checker -/

/-- One iteration of the checker over the routes; the state counts orders. -/
def validateRoute (books : Books) (count : Nat) (entry : OrderKey × Tracked) :
    Except String Nat :=
  if books.selected entry.2.book.symbol then
    match books.books.find? entry.2.book with
    | none => .error "Missing reconstructed book"
    | some core =>
        match core.order entry.1.orderId with
        | none => .error "Routing state and core book disagree"
        | some order =>
            if order.price ≠ entry.2.price ∨
                order.quantity ≠ entry.2.quantity ∨
                order.side ≠ entry.2.side then
              .error "Routing state and core book disagree"
            else
              .ok (count + 1)
  else
    .ok count

/-- One iteration of the checker over the books. -/
def validateBook (count : Nat) (entry : BookKey × OrderBook) :
    Except String Nat := do
  entry.2.checkInvariants
  .ok (count + entry.2.orderCount)

/-- `Books::validate_invariants` with the reason it reports. -/
def checkInvariants (books : Books) : Except String Unit :=
  if books.valid then do
    let selectedOrders ← books.orders.entries.foldlM books.validateRoute 0
    let count ← books.books.entries.foldlM validateBook 0
    if count = selectedOrders then
      .ok ()
    else
      .error "Untracked reconstructed orders"
  else
    .error "Feed stream is invalid"

/-- `Books::validate_invariants`. -/
def validateInvariants (books : Books) : Bool :=
  books.checkInvariants.isOk

end Books

end LimitOrderBook.Feed
