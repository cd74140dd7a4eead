import LimitOrderBook.Market
import LimitOrderBook.Engine

namespace LimitOrderBook

/-!
# Market replicas

The model of `trading/replica.hpp` and `trading/replica.cpp`.  A replica
rebuilds the books of an engine from a snapshot and follows the deltas.  Its
books are default constructed, so it carries the size of their pools.  A
`restore` that throws still leaves the replica unsynchronized, so the result
is a pair of the new state and the outcome.
-/

structure MarketReplica where
  pool : PoolBytes
  books : Books := .empty
  epoch : Nat := 0
  sequence : Sequence := 0
  synchronized : Bool := false

namespace MarketReplica

def invalidate (replica : MarketReplica) : MarketReplica :=
  { replica with synchronized := false }

/-- `books[instrument].apply(AddOrder)`, which opens missing books. -/
def addOrder (pool : PoolBytes) (books : Books) (m : Message) :
    Books × ApplyResult :=
  let book := (books.find? m.instrumentId).getD pool.book
  let (next, result) :=
    book.applyAdd {} ⟨m.exchangeId, m.side, m.price, m.quantity⟩
  (books.insert m.instrumentId next, result)

/-! ## Snapshots -/

/-- The checks of one order row; the ids are the set of the source. -/
def restoreOrder (pool : PoolBytes) (state : Books × List OrderId)
    (m : Message) : Except String (Books × List OrderId) :=
  let (books, ids) := state
  if m.kind ≠ .snapshotOrder ∨ m.instrumentId = 0 ∨ m.exchangeId = 0 ∨
      m.exchangeId ∈ ids then
    .error "Invalid snapshot order"
  else
    let (next, result) := addOrder pool books m
    if result ≠ .ok then
      .error "Invalid snapshot order"
    else
      .ok (next, m.exchangeId :: ids)

/-- One iteration over the rows; the envelope rows only have a watermark. -/
def restoreRow (pool : PoolBytes) (front : Message) (size : Nat)
    (state : Books × List OrderId) (row : Message × Nat) :
    Except String (Books × List OrderId) :=
  let (m, index) := row
  if m.epoch ≠ front.epoch ∨ m.sequence ≠ front.sequence then
    .error "Inconsistent snapshot watermark"
  else if index = 0 ∨ index = size - 1 then
    .ok state
  else
    restoreOrder pool state m

/-- A book that must not become visible. -/
def Refused (book : OrderBook) : Prop :=
  book.validateInvariants = false ∨ MatchingEngine.Crossed book

instance (book : OrderBook) : Decidable (Refused book) :=
  inferInstanceAs (Decidable (_ ∨ _))

/-- What `restore` builds before the swap. -/
def rebuild (pool : PoolBytes) (rows : List Message) :
    Except String (Message × Books) :=
  match rows.head?, rows.getLast? with
  | some front, some back =>
      if rows.length < 2 ∨ front.kind ≠ .snapshotBegin ∨
          back.kind ≠ .snapshotEnd ∨ front.epoch = 0 ∨
          rows.length - 2 ≠ front.quantity ∨
          back.quantity ≠ front.quantity then
        .error "Invalid snapshot envelope/count"
      else do
        let (books, _) ←
          rows.zipIdx.foldlM (restoreRow pool front rows.length) (.empty, [])
        if ∃ entry ∈ books.entries, Refused entry.2 then
          .error "Invalid snapshot book"
        else
          .ok (front, books)
  | _, _ => .error "Invalid snapshot envelope/count"

/-- `MarketReplica::restore`. -/
def restore (replica : MarketReplica) (rows : List Message) :
    MarketReplica × Except String Unit :=
  match rebuild replica.pool rows with
  | .error text => (replica.invalidate, .error text)
  | .ok (front, books) =>
      ({ replica with
          books := books
          epoch := front.epoch
          sequence := front.sequence
          synchronized := true }, .ok ())

/-! ## Deltas -/

/-- The operation of a delta on a book that exists. -/
def applyToBook (book : OrderBook) (m : Message) : OrderBook × ApplyResult :=
  match m.update with
  | .cancel => book.applyCancel ⟨m.exchangeId⟩
  | .execute => book.applyExecute ⟨m.exchangeId, m.quantity⟩
  | .reduce =>
      match book.remainingQuantity m.exchangeId with
      | none => (book, .invalidQuantity)
      | some old =>
          if m.quantity = 0 ∨ old ≤ m.quantity then
            (book, .invalidQuantity)
          else
            book.applyExecute ⟨m.exchangeId, old - m.quantity⟩
  | _ => (book, .parseError)

/-- The books after a delta in sequence, with the result of the operation. -/
def applyUpdate (pool : PoolBytes) (books : Books) (m : Message) :
    Books × ApplyResult :=
  match m.update with
  | .trade => (books, .ok)
  | .add => addOrder pool books m
  | _ =>
      match books.find? m.instrumentId with
      | none => (books, .unknownInstrument)
      | some book =>
          let (next, result) := applyToBook book m
          (books.insert m.instrumentId next, result)

/-- `MarketReplica::consume`. -/
def consume (replica : MarketReplica) (m : Message) : MarketReplica × Bool :=
  if replica.synchronized = false then
    (replica, false)
  else if m.epoch ≠ replica.epoch then
    (replica.invalidate, false)
  else if m.kind = .heartbeat then
    let next :=
      if replica.sequence < m.sequence then replica.invalidate else replica
    (next, next.synchronized)
  else if m.kind ≠ .delta then
    (replica.invalidate, false)
  else if m.sequence ≤ replica.sequence then
    (replica, true)
  else if m.sequence - replica.sequence ≠ 1 then
    (replica.invalidate, false)
  else
    let (books, result) := applyUpdate replica.pool replica.books m
    let replica := { replica with books := books }
    if result ≠ .ok then
      (replica.invalidate, false)
    else
      ({ replica with sequence := m.sequence }, true)

/-- Consume a list of messages; the flag says whether all were accepted. -/
def consumeAll (replica : MarketReplica) :
    List Message → MarketReplica × Bool
  | [] => (replica, true)
  | m :: rest =>
      let (next, accepted) := replica.consume m
      let (final, others) := next.consumeAll rest
      (final, accepted && others)

/-! ## Views -/

/-- `MarketReplica::book`. -/
def book (replica : MarketReplica) (instrument : InstrumentId) :
    Option OrderBook :=
  replica.books.find? instrument

/-- `MarketReplica::order_count`. -/
def orderCount (replica : MarketReplica) : Nat :=
  (replica.books.entries.map fun entry => entry.2.orderCount).sum

def envelope (replica : MarketReplica) : Message :=
  { kind := .snapshotBegin
    epoch := replica.epoch
    sequence := replica.sequence
    quantity := replica.orderCount % 2 ^ 32 }

/-- `MarketReplica::snapshot`. -/
def snapshot (replica : MarketReplica) : Except String (List Message) :=
  if replica.synchronized = false then
    .error "Unsynchronized book is unavailable"
  else
    .ok ([replica.envelope] ++
      replica.books.entries.flatMap
        (MatchingEngine.bookRows replica.epoch replica.sequence) ++
      [{ replica.envelope with kind := .snapshotEnd }])

end MarketReplica

end LimitOrderBook
