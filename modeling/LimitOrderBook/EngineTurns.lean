import LimitOrderBook.EngineLedger

namespace LimitOrderBook

/-!
# Turns that succeed

Each fallible part of a call has here the turn it ends in, written without
faults, and a theorem that the part ends in that turn when the engine is
`Sound`.  The only component that is not spelled out is the map of books: the
theorems say which market it shows.
-/

/-- What the rules of an instrument ask of a live order. -/
structure InstrumentRules.Allows (r : InstrumentRules) (m : Message) :
    Prop where
  side : m.side.Listed
  lowPrice : r.minPrice.toNat ≤ m.price
  highPrice : m.price ≤ r.maxPrice.toNat
  tick : m.price % r.tickSize.toNat = 0
  lot : m.quantity % r.lotSize.toNat = 0
  size : m.quantity ≤ r.maxOrderQuantity.toNat
  notional : m.price * m.quantity ≤ r.maxNotional.toNat

namespace MatchingEngine

/-- What the other stores hold for the owner of a live order. -/
structure Backs (engine : MatchingEngine) (m : Message) : Prop where
  allowed : ∃ r, engine.instruments.find? m.instrumentId = some r ∧ r.Allows m
  owner : ∃ state, engine.clients.find? m.clientId = some state ∧
    m.orderId ≤ state.maxOrderId
  position : (engine.positions.find? (m.clientId, m.instrumentId)).isSome
  named : m.clientId ≠ 0 ∧ m.orderId ≠ 0

/-- The stores of an engine fit together, also in the middle of a call. -/
structure Sound (slots : Nat) (engine : MatchingEngine) : Prop where
  rules : ∀ instrument r, engine.instruments.find? instrument = some r →
    r.Accepted instrument
  booksWf : BooksWf slots engine.books
  listed : engine.books.keys = engine.instruments.keys
  linked : engine.ledger.Linked engine.nextOrder
  nextPos : 0 < engine.nextOrder
  backed : ∀ id m, engine.resting.find? id = some m → engine.Backs m

/-- The stores only gain clients and positions. -/
structure Extends (engine next : MatchingEngine) : Prop where
  instruments : next.instruments = engine.instruments
  clients : ∀ client state, engine.clients.find? client = some state →
    ∃ later, next.clients.find? client = some later ∧
      state.maxOrderId ≤ later.maxOrderId
  positions : ∀ key, (engine.positions.find? key).isSome →
    (next.positions.find? key).isSome

namespace Backs

variable {engine next : MatchingEngine} {m : Message}

theorem mono (backs : engine.Backs m) (grows : engine.Extends next) :
    next.Backs m where
  allowed := by
    rw [grows.instruments]
    exact backs.allowed
  owner := by
    obtain ⟨state, known, used⟩ := backs.owner
    obtain ⟨later, laterKnown, raised⟩ := grows.clients _ state known
    exact ⟨later, laterKnown, Nat.le_trans used raised⟩
  position := grows.positions _ backs.position
  named := backs.named

/-- A smaller order of whole lots is backed as well. -/
theorem resize
    (backs : engine.Backs m) {quantity : Quantity}
    (smaller : quantity ≤ m.quantity)
    (lots : ∀ r, engine.instruments.find? m.instrumentId = some r →
      quantity % r.lotSize.toNat = 0) :
    engine.Backs { m with quantity := quantity } where
  allowed := by
    obtain ⟨r, found, allows⟩ := backs.allowed
    exact ⟨r, found,
      { side := allows.side
        lowPrice := allows.lowPrice
        highPrice := allows.highPrice
        tick := allows.tick
        lot := lots r found
        size := Nat.le_trans smaller allows.size
        notional :=
          Nat.le_trans (Nat.mul_le_mul_left m.price smaller) allows.notional }⟩
  owner := backs.owner
  position := backs.position
  named := backs.named

end Backs

namespace Sound

variable {slots : Nat} {engine next : MatchingEngine}

/-- Soundness after a step that rewrites the stores. -/
theorem step
    (sound : engine.Sound slots)
    {market : Market}
    (reshelved : Reshelved slots engine.books next.books market)
    (grows : engine.Extends next)
    (linked : next.ledger.Linked next.nextOrder)
    (nextPos : 0 < next.nextOrder)
    (backed : ∀ id m, next.resting.find? id = some m →
      engine.resting.find? id = some m ∨ next.Backs m) :
    next.Sound slots where
  rules := by
    rw [grows.instruments]
    exact sound.rules
  booksWf := reshelved.wf
  listed := by
    rw [reshelved.sameKeys, grows.instruments]
    exact sound.listed
  linked := linked
  nextPos := nextPos
  backed id m found := by
    rcases backed id m found with old | new
    · exact (sound.backed id m old).mono grows
    · exact new

/-- Soundness only looks at the stores. -/
theorem congr
    (sound : engine.Sound slots)
    (books : next.books = engine.books)
    (resting : next.resting = engine.resting)
    (byClient : next.byClient = engine.byClient)
    (nextOrder : next.nextOrder = engine.nextOrder)
    (grows : engine.Extends next) :
    next.Sound slots := by
  have unchanged : Reshelved slots engine.books next.books
      (marketOf engine.books) := by
    rw [books]
    exact ⟨sound.booksWf, rfl, rfl⟩
  refine sound.step unchanged grows ?_ ?_ ?_
  · have linked := sound.linked
    unfold ledger at *
    rw [books, resting, byClient, nextOrder]
    exact linked
  · rw [nextOrder]
    exact sound.nextPos
  · intro id m found
    rw [resting] at found
    exact Or.inl found

theorem exchangeId_eq
    (sound : engine.Sound slots) {id : OrderId} {m : Message}
    (found : engine.resting.find? id = some m) : m.exchangeId = id :=
  (sound.linked.numbered id m found).1

/-- Every stored order is live in its book. -/
theorem live
    (sound : engine.Sound slots) {id : OrderId} {m : Message}
    (found : engine.resting.find? id = some m) :
    (marketOf engine.books).Live m.instrumentId id m.quantity :=
  sound.linked.live found

/-- A stored order has a positive quantity and price. -/
theorem positive
    (sound : engine.Sound slots) {id : OrderId} {m : Message}
    (found : engine.resting.find? id = some m) :
    m.price ≠ 0 ∧ m.quantity ≠ 0 := by
  have shown := sound.linked.mem_market found
  obtain ⟨_, _, pricePos, quantityPos⟩ := sound.booksWf.mem_market shown
  exact ⟨pricePos, quantityPos⟩

/-- Every instrument has a book. -/
theorem book_of_rules
    (sound : engine.Sound slots) {instrument : InstrumentId}
    {r : InstrumentRules}
    (found : engine.instruments.find? instrument = some r) :
    ∃ book, engine.books.find? instrument = some book := by
  have member : instrument ∈ engine.books.keys := by
    rw [sound.listed]
    exact OrderedMap.mem_keys.mpr (by simp [found])
  exact Option.isSome_iff_exists.mp (OrderedMap.mem_keys.mp member)

end Sound

/-- Untouched stores are extended. -/
theorem Extends.of_eq
    {engine next : MatchingEngine}
    (instruments : next.instruments = engine.instruments)
    (clients : next.clients = engine.clients)
    (positions : next.positions = engine.positions) :
    engine.Extends next where
  instruments := instruments
  clients client state known :=
    ⟨state, by rw [clients]; exact known, Nat.le_refl _⟩
  positions key known := by
    rw [positions]
    exact known

end MatchingEngine

theorem atKey_of_find?
    {κ ν : Type} {lt : κ → κ → Prop} [DecidableEq κ]
    {map : OrderedMap κ ν lt} {key : κ} {value : ν}
    (found : map.find? key = some value) : atKey map key = .ok value := by
  simp [atKey, found]

namespace Message

/-- A message as `report` stamps it. -/
def asReport (m : Message) (type : ReportType) (reason : Reject) (epoch : Nat)
    (sequence : Sequence) : Message :=
  { m with
    kind := .report
    report := type
    reject := reason
    epoch := epoch
    sequence := sequence }

/-- A message as `update` stamps it. -/
def asDelta (m : Message) (type : UpdateType) (epoch : Nat)
    (sequence : Sequence) : Message :=
  { m with
    kind := .delta
    update := type
    epoch := epoch
    sequence := sequence
    clientId := 0
    requestId := 0
    orderId := 0 }

end Message

namespace Turn

variable {slots : Nat} {turn : Turn} {c m : Message}

/-- The turn with other books. -/
def withBooks (turn : Turn) (books : Books) : Turn :=
  { turn with engine := { turn.engine with books := books } }

theorem applyBook_ok
    {instrument : InstrumentId} {book next : OrderBook}
    {operation : OrderBook → OrderBook × ApplyResult} {text : String}
    (found : turn.engine.books.find? instrument = some book)
    (applied : operation book = (next, .ok)) :
    turn.applyBook instrument operation text =
      .ok (turn.withBooks (turn.engine.books.insert instrument next)) := by
  simp [applyBook, atKey_of_find? found, applied, require, setBook, withBooks,
    Bind.bind, Except.bind, pure, Except.pure]

/-! ## Cancellations -/

/-- The turn after the cancellation of an order. -/
def afterCancel (turn : Turn) (m : Message) (request : Nat) (books : Books) :
    Turn :=
  let gone := { m with requestId := request, remaining := 0 }
  let turn :=
    ((turn.withBooks books).update gone .cancel).report gone .cancelled
  { turn with
    engine :=
      { turn.engine with
        byClient := turn.engine.byClient.erase (m.clientId, m.orderId)
        resting := turn.engine.resting.erase m.exchangeId } }

theorem cancel_ok
    (sound : turn.engine.Sound slots)
    (found : turn.engine.resting.find? m.exchangeId = some m)
    (request : Nat) :
    ∃ books,
      turn.cancel m.exchangeId request =
          .ok (turn.afterCancel m request books) ∧
        Reshelved slots turn.engine.books books
          (turn.engine.ledger.remove m).market := by
  obtain ⟨book, next, bookFound, applied, reshelved⟩ :=
    sound.booksWf.applyCancel (sound.live found)
  refine ⟨_, ?_, reshelved⟩
  simp only [cancel, atKey_of_find? found, Bind.bind, Except.bind, pure,
    Except.pure]
  rw [applyBook_ok bookFound applied]
  rfl

theorem afterCancel_ledger
    {request : Nat} {books : Books}
    (reshelved : Reshelved slots turn.engine.books books
      (turn.engine.ledger.remove m).market) :
    (turn.afterCancel m request books).engine.ledger =
      turn.engine.ledger.remove m :=
  congrArg
    (Ledger.mk · (turn.engine.resting.erase m.exchangeId)
      (turn.engine.byClient.erase (m.clientId, m.orderId)))
    reshelved.shows

theorem afterCancel_sound
    (sound : turn.engine.Sound slots)
    (found : turn.engine.resting.find? m.exchangeId = some m)
    {request : Nat} {books : Books}
    (reshelved : Reshelved slots turn.engine.books books
      (turn.engine.ledger.remove m).market) :
    (turn.afterCancel m request books).engine.Sound slots := by
  refine sound.step reshelved (.of_eq rfl rfl rfl) ?_ sound.nextPos ?_
  · rw [afterCancel_ledger reshelved]
    exact sound.linked.remove found
  · intro id stored storedFound
    left
    simp only [afterCancel, withBooks, update, report,
      OrderedMap.find?_erase] at storedFound
    split at storedFound
    · cases storedFound
    · exact storedFound

/-! ## The replacement that keeps its place -/

/-- The message that reports a reduction. -/
def reduction (c old : Message) : Message :=
  { c with exchangeId := old.exchangeId, remaining := c.quantity }

/-- The turn after a replacement that keeps its place. -/
def afterReduce (turn : Turn) (c old : Message) (books : Books) : Turn :=
  let turn := turn.withBooks books
  let turn :=
    if old.quantity - c.quantity ≠ 0 then
      turn.update (reduction c old) .reduce
    else
      turn
  let turn : Turn :=
    { turn with
      engine :=
        { turn.engine with
          resting := turn.engine.resting.insert old.exchangeId
            { old with quantity := c.quantity } } }
  turn.report (reduction c old) .replaced

/-- Writing the quantity an order already has changes nothing. -/
theorem resize_self
    {ledger : Ledger} {nextOrder : OrderId} {old : Message}
    (linked : ledger.Linked nextOrder)
    (found : ledger.resting.find? old.exchangeId = some old) :
    (ledger.resize old old.quantity).market = ledger.market := by
  funext instrument side
  simp only [Ledger.resize, Market.resize]
  split
  · conv_rhs => rw [← List.map_id (ledger.market instrument side)]
    refine List.map_congr_left fun order member => ?_
    unfold OrderView.resize
    split
    · rename_i target
      rw [(linked.quantity_of_shown found member target).1]
      rfl
    · rfl
  · rfl

theorem reduce_ok
    {old : Message} (sound : turn.engine.Sound slots)
    (found : turn.engine.resting.find? old.exchangeId = some old)
    (sameInstrument : old.instrumentId = c.instrumentId)
    (positive : c.quantity ≠ 0) (smaller : c.quantity ≤ old.quantity) :
    ∃ books,
      turn.reduce c old.exchangeId old = .ok (turn.afterReduce c old books) ∧
        Reshelved slots turn.engine.books books
          (turn.engine.ledger.resize old c.quantity).market := by
  by_cases same : old.quantity - c.quantity = 0
  · have sameQuantity : c.quantity = old.quantity := by lia
    refine ⟨turn.engine.books, ?_, ?_⟩
    · simp [reduce, afterReduce, same, reduction, withBooks, Bind.bind,
        Except.bind, pure, Except.pure]
    · rw [sameQuantity, resize_self sound.linked found]
      exact ⟨sound.booksWf, rfl, rfl⟩
  · have taken : old.quantity - c.quantity ≤ old.quantity := Nat.sub_le _ _
    obtain ⟨book, next, bookFound, applied, reshelved⟩ :=
      sound.booksWf.applyExecute (sound.live found) same taken
    have left : old.quantity - (old.quantity - c.quantity) = c.quantity := by
      lia
    have market := sound.linked.execute_market found taken
    refine ⟨turn.engine.books.insert old.instrumentId next, ?_, ?_⟩
    · rw [sameInstrument] at bookFound ⊢
      simp only [reduce, ne_eq, same, not_false_eq_true, if_true, Bind.bind,
        Except.bind, pure, Except.pure]
      rw [applyBook_ok bookFound applied]
      simp only [afterReduce, ne_eq, same, not_false_eq_true, if_true]
      rfl
    · rw [Ledger.execute, left, if_neg positive] at market
      exact ⟨reshelved.wf, reshelved.shows.trans market.symm,
        reshelved.sameKeys⟩

/-- What a kept place changes in the engine. -/
theorem afterReduce_engine (turn : Turn) (c old : Message) (books : Books) :
    (turn.afterReduce c old books).engine =
      { turn.engine with
        books := books
        resting := turn.engine.resting.insert old.exchangeId
          { old with quantity := c.quantity }
        sequence :=
          if old.quantity - c.quantity ≠ 0 then turn.engine.sequence + 1
          else turn.engine.sequence
        responseSequence := turn.engine.responseSequence + 1 } := by
  unfold afterReduce
  split <;> rfl

theorem afterReduce_ledger
    {old : Message} {books : Books}
    (reshelved : Reshelved slots turn.engine.books books
      (turn.engine.ledger.resize old c.quantity).market) :
    (turn.afterReduce c old books).engine.ledger =
      turn.engine.ledger.resize old c.quantity := by
  rw [afterReduce_engine]
  exact congrArg (Ledger.mk · _ _) reshelved.shows

theorem afterReduce_sound
    {old : Message} (sound : turn.engine.Sound slots)
    (found : turn.engine.resting.find? old.exchangeId = some old)
    (smaller : c.quantity ≤ old.quantity)
    (lots : ∀ r, turn.engine.instruments.find? old.instrumentId = some r →
      c.quantity % r.lotSize.toNat = 0)
    {books : Books}
    (reshelved : Reshelved slots turn.engine.books books
      (turn.engine.ledger.resize old c.quantity).market) :
    (turn.afterReduce c old books).engine.Sound slots := by
  have ledger := afterReduce_ledger reshelved
  rw [afterReduce_engine] at *
  refine sound.step reshelved (.of_eq rfl rfl rfl) ?_ sound.nextPos ?_
  · rw [ledger]
    exact sound.linked.resize found _
  · intro id stored storedFound
    simp only [OrderedMap.find?_insert] at storedFound
    split at storedFound
    · cases storedFound
      right
      exact ((sound.backed _ old found).resize smaller lots).mono
        (.of_eq rfl rfl rfl)
    · exact Or.inl storedFound

/-! ## The entry of an accepted command -/

end Turn

/-- One order may leave a ledger and one may enter it. -/
def Ledger.exchange (ledger : Ledger) (old rest : Option Message) : Ledger :=
  let left :=
    match old with
    | some m => ledger.remove m
    | none => ledger
  match rest with
  | some m => left.add m
  | none => left

/-- An order stored after an exchange is the new one or was stored before. -/
theorem Ledger.find?_exchange
    {ledger : Ledger} {old rest : Option Message} {id : OrderId} {m : Message}
    (found : (ledger.exchange old rest).resting.find? id = some m) :
    rest = some m ∧ id = m.exchangeId ∨
      ledger.resting.find? id = some m := by
  have kept : ∀ m, (ledger.exchange old none).resting.find? id = some m →
      ledger.resting.find? id = some m := by
    intro m found
    cases old with
    | none => exact found
    | some gone =>
        simp only [exchange, remove, OrderedMap.find?_erase] at found
        split at found
        · cases found
        · exact found
  cases rest with
  | none => exact Or.inr (kept m found)
  | some new =>
      simp only [exchange, add, OrderedMap.find?_insert] at found
      split at found
      · rename_i isNew
        cases found
        exact Or.inl ⟨rfl, isNew⟩
      · exact Or.inr (kept m found)

/-- The command under the exchange id it is given. -/
def MatchingEngine.incoming (engine : MatchingEngine) (c : Message) : Message :=
  { c with exchangeId := engine.nextOrder, remaining := c.quantity }

/-- What rests of a command. -/
def MatchingEngine.residual (engine : MatchingEngine) (c : Message)
    (leaves : Quantity) : Message :=
  { engine.incoming c with quantity := leaves, remaining := leaves }

namespace Turn

variable {slots : Nat} {turn : Turn} {c m : Message}

/-- The turn after the reservation of a residual. -/
def afterReserve (turn : Turn) (c : Message) (oldId : OrderId)
    (rest : Message) (books : Books) : Turn :=
  { turn with
    engine :=
      { turn.engine with
        books := books
        resting := turn.engine.resting.insert turn.engine.nextOrder rest
        byClient :=
          if oldId = 0 then
            turn.engine.byClient.insert (c.clientId, c.orderId)
              turn.engine.nextOrder
          else
            turn.engine.byClient } }

theorem reserve_eq
    (turn : Turn) {oldId : OrderId} (rest : Message) {book next : OrderBook}
    {result : ApplyResult}
    (fresh : turn.engine.resting.find? turn.engine.nextOrder = none)
    (unused : oldId = 0 →
      turn.engine.byClient.find? (c.clientId, c.orderId) = none)
    (applied : book.applyAdd {}
      ⟨turn.engine.nextOrder, c.side, c.price, rest.quantity⟩ =
        (next, result)) :
    turn.reserve c oldId rest book =
      if result = .ok then
        (turn.afterReserve c oldId rest
          (turn.engine.books.insert c.instrumentId next), result)
      else
        (turn.withBooks (turn.engine.books.insert c.instrumentId next),
          result) := by
  by_cases isNew : oldId = 0
  · by_cases accepted : result = .ok <;>
      simp [reserve, applied, accepted, isNew, afterReserve, withBooks,
        OrderedMap.emplace_of_find?_none, fresh, unused isNew,
        OrderedMap.erase_of_find?_none]
  · by_cases accepted : result = .ok <;>
      simp [reserve, applied, accepted, isNew, afterReserve, withBooks,
        OrderedMap.emplace_of_find?_none, fresh,
        OrderedMap.erase_of_find?_none]

/-- The turn after the retirement of a replaced order. -/
def afterRetire (turn : Turn) (c old : Message) (newId : OrderId)
    (rests : Bool) (books : Books) : Turn :=
  let turn := (turn.withBooks books).update old .cancel
  { turn with
    engine :=
      { turn.engine with
        resting := turn.engine.resting.erase old.exchangeId
        byClient :=
          if rests then
            turn.engine.byClient.insert (c.clientId, c.orderId) newId
          else
            turn.engine.byClient.erase (c.clientId, c.orderId) } }

theorem retire_eq
    {old : Message} {newId : OrderId} {rests : Bool}
    {book next : OrderBook}
    (found : turn.engine.resting.find? old.exchangeId = some old)
    (indexed : turn.engine.byClient.find? (c.clientId, c.orderId) =
      some old.exchangeId)
    (bookFound : turn.engine.books.find? c.instrumentId = some book)
    (applied : book.applyCancel ⟨old.exchangeId⟩ = (next, .ok)) :
    turn.retire c old.exchangeId newId rests =
      .ok (turn.afterRetire c old newId rests
        (turn.engine.books.insert c.instrumentId next)) := by
  simp only [retire, atKey_of_find? found, Bind.bind, Except.bind, pure,
    Except.pure]
  rw [applyBook_ok bookFound applied]
  cases rests with
  | false => rfl
  | true =>
      simp only [if_true]
      have stillIndexed :
          ((turn.withBooks (turn.engine.books.insert c.instrumentId
            next)).update old .cancel).engine.byClient.find?
              (c.clientId, c.orderId) = some old.exchangeId := indexed
      rw [atKey_of_find? stillIndexed]
      rfl

end Turn

end LimitOrderBook
