import LimitOrderBook.Replica

namespace LimitOrderBook

/-!
# The client's order manager

The model of `OrderManager` in `trading/strategy.cpp`: a client's own record of
its orders and positions, kept from the reports of the exchange alone, and the
check of a command against them before it is sent.
-/

/-- `Position::pnl`. -/
def Position.pnl (position : Position) (mark : Rat) : Rat :=
  position.cash + position.quantity * mark

structure OrderManager where
  lastReport : Sequence := 0
  orders : OrderedMap OrderId Message (· < ·) := .empty
  positions : OrderedMap InstrumentId Position (· < ·) := .empty
  deriving DecidableEq

namespace OrderManager

/-- Write what is left of an order and drop it with its last unit. -/
def settle (orders : OrderedMap OrderId Message (· < ·)) (m : Message) :
    OrderedMap OrderId Message (· < ·) :=
  match orders.find? m.orderId with
  | none => orders
  | some order =>
      if m.remaining = 0 then orders.erase m.orderId
      else orders.insert m.orderId { order with quantity := m.remaining }

/-- `OrderManager::position`. -/
def position (manager : OrderManager) (id : InstrumentId) : Position :=
  (manager.positions.find? id).getD {}

/-- A message `consume` passes over. -/
def Stale (manager : OrderManager) (m : Message) : Prop :=
  m.kind ≠ .report ∨ m.report = .status ∨ m.sequence ≤ manager.lastReport

instance (manager : OrderManager) (m : Message) : Decidable (manager.Stale m) :=
  inferInstanceAs (Decidable (_ ∨ _))

/-- What a report that is not passed over does. -/
def apply (manager : OrderManager) (m : Message) : OrderManager :=
  let manager := { manager with lastReport := m.sequence }
  match m.report with
  | .accepted | .replaced =>
      { manager with
        orders := manager.orders.insert m.orderId
          { m with quantity := m.remaining } }
  | .fill =>
      { manager with
        positions := manager.positions.insert m.instrumentId
          ((manager.position m.instrumentId).fill m.side m.price m.quantity)
        orders := settle manager.orders m }
  | .cancelled =>
      { manager with orders := manager.orders.erase m.orderId }
  | .complete =>
      if m.reject = .none ∧ m.orderId ≠ 0 then
        { manager with orders := settle manager.orders m }
      else
        manager
  | _ => manager

/-- `OrderManager::consume`. -/
def consume (manager : OrderManager) (m : Message) : OrderManager × Bool :=
  if manager.Stale m then (manager, false) else (manager.apply m, true)

/-- The manager after a list of messages. -/
def consumeAll (manager : OrderManager) (ms : List Message) : OrderManager :=
  ms.foldl (fun manager m => (manager.consume m).1) manager

/-! ## The local risk check -/

/-- One iteration of the loop of `check` over the orders. -/
def count (c : Message) (exposure : Exposure) (entry : OrderId × Message) :
    Exposure :=
  if c.action = .replace ∧ entry.1 = c.orderId then
    exposure
  else
    { reserved :=
        if entry.2.instrumentId = c.instrumentId ∧ entry.2.side = c.side then
          exposure.reserved + entry.2.quantity
        else
          exposure.reserved
      openOrders := exposure.openOrders + 1 }

/-- The client's own orders apart from the one that is being replaced. -/
def exposure (manager : OrderManager) (c : Message) : Exposure :=
  manager.orders.entries.foldl (count c) {}

/-- The price at which `check` values a position. -/
def mark (position : Position) (c : Message) (market : MarketReplica) : Rat :=
  let own : Rat := if c.price ≠ 0 then c.price else position.averagePrice
  match market.books.find? c.instrumentId with
  | none => own
  | some book =>
      match book.bestBid, book.bestAsk with
      | some bid, some ask => (bid + ask) / 2
      | _, _ => own

/--
`OrderManager::check` but for its loss test, of which only the outcome is given:
the source computes the loss in a `long double`, which rounds.
-/
def checkWith (manager : OrderManager) (pastLoss : Bool) (c : Message)
    (limits : InstrumentRules) (market : MarketReplica) : Reject :=
  let position := manager.position c.instrumentId
  if c.action = .cancel ∨ c.action = .cancelAll then
    .none
  else if market.synchronized = false then
    .killSwitch
  else if c.quantity = 0 ∨ limits.maxOrderQuantity.toNat < c.quantity then
    .riskQuantity
  else if pastLoss = true then
    .killSwitch
  else if limits.maxNotional.toNat <
      (if c.orderType = .market then limits.maxPrice.toNat else c.price) *
        c.quantity then
    .riskNotional
  else if limits.maxOpenOrders ≤ (manager.exposure c).openOrders then
    .riskOpenOrders
  else if limits.maxPosition <
      (position.quantity + (if c.side = .bid then 1 else -1) *
        ((manager.exposure c).reserved + c.quantity)).natAbs then
    .riskPosition
  else
    .none

/-- `OrderManager::check` with an exact loss. -/
def check (manager : OrderManager) (c : Message) (limits : InstrumentRules)
    (market : MarketReplica) (maxLoss : Rat) : Reject :=
  let position := manager.position c.instrumentId
  manager.checkWith
    (decide (position.pnl (mark position c market) < -maxLoss)) c limits market

variable {manager : OrderManager} {m : Message}

@[simp] theorem consumeAll_nil (manager : OrderManager) :
    manager.consumeAll [] = manager := rfl

@[simp] theorem consumeAll_cons
    (manager : OrderManager) (m : Message) (rest : List Message) :
    manager.consumeAll (m :: rest) =
      (manager.consume m).1.consumeAll rest := rfl

theorem consume_of_stale (stale : manager.Stale m) :
    (manager.consume m).1 = manager := by
  simp [consume, stale]

theorem consume_of_not_stale (fresh : ¬ manager.Stale m) :
    (manager.consume m).1 = manager.apply m := by
  simp [consume, fresh]

@[simp] theorem apply_lastReport (manager : OrderManager) (m : Message) :
    (manager.apply m).lastReport = m.sequence := by
  unfold apply
  split
  all_goals try rfl
  split <;> rfl

/-! ## Deliveries -/

theorem lastReport_le_consume (manager : OrderManager) (m : Message) :
    manager.lastReport ≤ (manager.consume m).1.lastReport := by
  unfold consume
  split
  · exact Nat.le_refl _
  · rename_i fresh
    simp only [Stale, not_or, Nat.not_le] at fresh
    rw [apply_lastReport]
    exact Nat.le_of_lt fresh.2.2

/-- What is passed over once is passed over ever after. -/
theorem Stale.mono
    {later : OrderManager} (stale : manager.Stale m)
    (grown : manager.lastReport ≤ later.lastReport) : later.Stale m := by
  rcases stale with notReport | isStatus | old
  · exact Or.inl notReport
  · exact Or.inr (Or.inl isStatus)
  · exact Or.inr (Or.inr (Nat.le_trans old grown))

/-- A message is stale once it has been consumed. -/
theorem stale_consume (manager : OrderManager) (m : Message) :
    (manager.consume m).1.Stale m := by
  unfold consume
  split
  · assumption
  · exact Or.inr (Or.inr (by rw [apply_lastReport]))

theorem lastReport_le_consumeAll
    (manager : OrderManager) (ms : List Message) :
    manager.lastReport ≤ (manager.consumeAll ms).lastReport := by
  induction ms generalizing manager with
  | nil => exact Nat.le_refl _
  | cons m rest inductionHypothesis =>
      exact Nat.le_trans (lastReport_le_consume manager m)
        (inductionHypothesis (manager.consume m).1)

theorem stale_consumeAll
    (manager : OrderManager) {ms : List Message} (member : m ∈ ms) :
    (manager.consumeAll ms).Stale m := by
  induction ms generalizing manager with
  | nil => cases member
  | cons first rest inductionHypothesis =>
      rcases List.mem_cons.mp member with isFirst | later
      · subst isFirst
        exact (stale_consume manager m).mono (lastReport_le_consumeAll _ rest)
      · exact inductionHypothesis _ later

theorem consumeAll_of_stale
    {ms : List Message} (stale : ∀ m ∈ ms, manager.Stale m) :
    manager.consumeAll ms = manager := by
  induction ms with
  | nil => rfl
  | cons m rest inductionHypothesis =>
      rw [consumeAll_cons, consume_of_stale (stale m (by simp))]
      exact inductionHypothesis fun other member =>
        stale other (by simp [member])

/--
A delivery of new reports in order, between which any report that has been
delivered before comes again.
-/
inductive Delivers : List Message → List Message → List Message → Prop where
  | done {seen : List Message} : Delivers seen [] []
  | fresh {seen reports delivered : List Message} {m : Message} :
      Delivers (m :: seen) reports delivered →
      Delivers seen (m :: reports) (m :: delivered)
  | again {seen reports delivered : List Message} {m : Message} :
      m ∈ seen →
      Delivers seen reports delivered →
      Delivers seen reports (m :: delivered)

theorem Delivers.refl (seen reports : List Message) :
    Delivers seen reports reports := by
  induction reports generalizing seen with
  | nil => exact .done
  | cons m rest inductionHypothesis =>
      exact .fresh (inductionHypothesis (m :: seen))

/-- Reports that come again change nothing. -/
theorem Delivers.consumeAll
    {seen reports delivered : List Message}
    (delivers : Delivers seen reports delivered)
    (stale : ∀ m ∈ seen, manager.Stale m) :
    manager.consumeAll delivered = manager.consumeAll reports := by
  induction delivers generalizing manager with
  | done => rfl
  | @fresh seen reports delivered m _ inductionHypothesis =>
      rw [consumeAll_cons, consumeAll_cons]
      refine inductionHypothesis fun other member => ?_
      rcases List.mem_cons.mp member with isFirst | before
      · subst isFirst
        exact stale_consume manager other
      · exact (stale other before).mono (lastReport_le_consume manager m)
  | @again seen reports delivered m member _ inductionHypothesis =>
      rw [consumeAll_cons, consume_of_stale (stale m member)]
      exact inductionHypothesis stale

end OrderManager

end LimitOrderBook
