import LimitOrderBook.Market
import LimitOrderBook.Engine

namespace LimitOrderBook

/-!
# The ledger of live orders

The engine keeps every live order three times: in a book, in `resting_` and
in `by_client_`.  A ledger is those three stores with the books read as a
market, and `Linked` says that they agree.  Every change the engine makes to
them is one of three operations, each of which keeps the ledger linked.
-/

structure Ledger where
  market : Market
  resting : OrderedMap OrderId Message (· < ·)
  byClient : OrderedMap (ClientId × OrderId) OrderId pairLt

/-- What the book shows of a resting order. -/
def orderView (m : Message) : OrderView :=
  ⟨m.exchangeId, m.side, m.price, m.quantity⟩

/-- Priority by price and, at one price, by exchange id. -/
abbrev Ahead (side : Side) : OrderView → OrderView → Prop :=
  PriorityQueue.Ahead (OrderBook.priceLt side) OrderView.price OrderView.orderId

namespace Ledger

/-- A new order in all three stores. -/
def add (ledger : Ledger) (m : Message) : Ledger where
  market := ledger.market.insert m.instrumentId (orderView m)
  resting := ledger.resting.insert m.exchangeId m
  byClient := ledger.byClient.insert (m.clientId, m.orderId) m.exchangeId

/-- An order leaves all three stores. -/
def remove (ledger : Ledger) (m : Message) : Ledger where
  market := ledger.market.remove m.instrumentId m.exchangeId
  resting := ledger.resting.erase m.exchangeId
  byClient := ledger.byClient.erase (m.clientId, m.orderId)

/-- An order keeps its place with another quantity. -/
def resize (ledger : Ledger) (m : Message) (quantity : Quantity) : Ledger :=
  { ledger with
    market := ledger.market.resize m.instrumentId m.exchangeId quantity
    resting := ledger.resting.insert m.exchangeId
      { m with quantity := quantity } }

/-- An order loses quantity and leaves with its last unit. -/
def execute (ledger : Ledger) (m : Message) (quantity : Quantity) : Ledger :=
  if m.quantity - quantity = 0 then ledger.remove m
  else ledger.resize m (m.quantity - quantity)

/-- An order stored after an execution is what is left of it, or another. -/
theorem find?_execute
    {ledger : Ledger} {maker m : Message} {quantity : Quantity} {id : OrderId}
    (found : (ledger.execute maker quantity).resting.find? id = some m) :
    id = maker.exchangeId ∧ maker.quantity - quantity ≠ 0 ∧
        m = { maker with quantity := maker.quantity - quantity } ∨
      id ≠ maker.exchangeId ∧ ledger.resting.find? id = some m := by
  unfold execute at found
  split at found
  · simp only [remove, OrderedMap.find?_erase] at found
    split at found
    · cases found
    · rename_i other
      exact Or.inr ⟨other, found⟩
  · rename_i someLeft
    simp only [resize, OrderedMap.find?_insert] at found
    split at found
    · rename_i target
      cases found
      exact Or.inl ⟨target, someLeft, rfl⟩
    · rename_i other
      exact Or.inr ⟨other, found⟩

/-- The three stores describe the same orders, in price-time order. -/
structure Linked (ledger : Ledger) (nextOrder : OrderId) : Prop where
  shown : ∀ instrument side order,
    order ∈ ledger.market instrument side ↔
      ∃ m, ledger.resting.find? order.orderId = some m ∧
        m.instrumentId = instrument ∧ m.side = side ∧ orderView m = order
  keyed : ∀ client orderId id,
    ledger.byClient.find? (client, orderId) = some id ↔
      ∃ m, ledger.resting.find? id = some m ∧
        m.clientId = client ∧ m.orderId = orderId
  numbered : ∀ id m, ledger.resting.find? id = some m →
    m.exchangeId = id ∧ 0 < id ∧ id < nextOrder
  queued : ∀ instrument side,
    (ledger.market instrument side).Pairwise (Ahead side)

namespace Linked

variable {ledger : Ledger} {nextOrder : OrderId} {m : Message}

/-- A stored order stands in its queue. -/
theorem mem_market
    (linked : ledger.Linked nextOrder) {id : OrderId}
    (found : ledger.resting.find? id = some m) :
    orderView m ∈ ledger.market m.instrumentId m.side := by
  have sameId := (linked.numbered id m found).1
  refine (linked.shown _ _ _).mpr ⟨m, ?_, rfl, rfl, rfl⟩
  simpa [orderView, sameId] using found

theorem find?_key
    (linked : ledger.Linked nextOrder) {id : OrderId}
    (found : ledger.resting.find? id = some m) :
    ledger.byClient.find? (m.clientId, m.orderId) = some id :=
  (linked.keyed _ _ _).mpr ⟨m, found, rfl, rfl⟩

/-- An order that is not stored is not shown anywhere. -/
theorem not_live_of_find?_none
    (linked : ledger.Linked nextOrder) {id : OrderId}
    (missing : ledger.resting.find? id = none)
    (instrument : InstrumentId) (quantity : Quantity) :
    ¬ ledger.market.Live instrument id quantity := by
  rintro ⟨side, order, member, rfl, rfl⟩
  obtain ⟨stored, found, _⟩ := (linked.shown _ _ _).mp member
  rw [missing] at found
  cases found

/-- Ids from the counter on are not in use. -/
theorem find?_none_of_le
    (linked : ledger.Linked nextOrder) {id : OrderId} (fresh : nextOrder ≤ id) :
    ledger.resting.find? id = none := by
  cases found : ledger.resting.find? id with
  | none => rfl
  | some stored =>
      have used := (linked.numbered id stored found).2.2
      exact absurd fresh (Nat.not_le_of_lt used)

theorem live
    (linked : ledger.Linked nextOrder) {id : OrderId}
    (found : ledger.resting.find? id = some m) :
    ledger.market.Live m.instrumentId id m.quantity := by
  have sameId := (linked.numbered id m found).1
  exact ⟨m.side, orderView m, linked.mem_market found, sameId, rfl⟩

/-- Shown orders with the id of a stored one have its quantity. -/
theorem quantity_of_shown
    (linked : ledger.Linked nextOrder) {id : OrderId}
    (found : ledger.resting.find? id = some m)
    {instrument : InstrumentId} {side : Side} {order : OrderView}
    (member : order ∈ ledger.market instrument side)
    (sameId : order.orderId = id) :
    order = orderView m ∧ instrument = m.instrumentId ∧ side = m.side := by
  obtain ⟨stored, storedFound, rfl, rfl, rfl⟩ := (linked.shown _ _ _).mp member
  rw [sameId, found] at storedFound
  cases storedFound
  exact ⟨rfl, rfl, rfl⟩

theorem mono
    (linked : ledger.Linked nextOrder) {later : OrderId}
    (after : nextOrder ≤ later) : ledger.Linked later :=
  { linked with
    numbered := fun id m found => by
      obtain ⟨sameId, positive, used⟩ := linked.numbered id m found
      exact ⟨sameId, positive, Nat.lt_of_lt_of_le used after⟩ }

/-! ## The operations keep a ledger linked -/

theorem add
    (linked : ledger.Linked nextOrder) (fresh : m.exchangeId = nextOrder)
    (positive : 0 < nextOrder)
    (unused : ledger.byClient.find? (m.clientId, m.orderId) = none) :
    (ledger.add m).Linked (nextOrder + 1) where
  shown instrument side order := by
    have missing := linked.find?_none_of_le (Nat.le_of_eq fresh.symm)
    simp only [Ledger.add, Market.insert, OrderedMap.find?_insert]
    by_cases isNew : order.orderId = m.exchangeId
    · have notOld : order ∉ ledger.market instrument side := fun member =>
        linked.not_live_of_find?_none missing instrument order.quantity
          ⟨side, order, member, isNew, rfl⟩
      rw [if_pos isNew]
      split
      · rename_i here
        rw [List.mem_orderedInsert]
        constructor
        · rintro (rfl | old)
          · exact ⟨m, rfl, here.1.symm, here.2.symm, rfl⟩
          · exact absurd old notOld
        · rintro ⟨stored, found, _, _, rfl⟩
          cases found
          exact Or.inl rfl
      · rename_i elsewhere
        refine iff_of_false notOld ?_
        rintro ⟨stored, found, rfl, rfl, _⟩
        cases found
        exact elsewhere ⟨rfl, rfl⟩
    · rw [if_neg isNew, ← linked.shown]
      split
      · rw [List.mem_orderedInsert]
        refine or_iff_right ?_
        rintro rfl
        exact isNew rfl
      · exact Iff.rfl
  keyed client orderId id := by
    have missing := linked.find?_none_of_le (Nat.le_of_eq fresh.symm)
    simp only [Ledger.add, OrderedMap.find?_insert]
    by_cases sameKey : (client, orderId) = (m.clientId, m.orderId)
    · rw [if_pos sameKey]
      obtain ⟨rfl, rfl⟩ := Prod.mk.injEq .. ▸ sameKey
      constructor
      · intro isNew
        cases isNew
        exact ⟨m, by simp, rfl, rfl⟩
      · rintro ⟨stored, found, sameClient, sameOrder⟩
        by_cases isNew : id = m.exchangeId
        · rw [isNew]
        · rw [if_neg isNew] at found
          have used := linked.find?_key found
          rw [sameClient, sameOrder, unused] at used
          cases used
    · rw [if_neg sameKey, linked.keyed]
      refine exists_congr fun stored => and_congr_left ?_
      rintro ⟨sameClient, sameOrder⟩
      by_cases isNew : id = m.exchangeId
      · rw [if_pos isNew, isNew, missing]
        refine iff_of_false (by simp) fun found => sameKey ?_
        cases found
        rw [← sameClient, ← sameOrder]
      · rw [if_neg isNew]
  numbered id stored found := by
    simp only [Ledger.add, OrderedMap.find?_insert] at found
    split at found
    · rename_i isNew
      cases found
      exact ⟨isNew.symm, by rw [isNew, fresh]; exact positive,
        by rw [isNew, fresh]; exact Nat.lt_succ_self _⟩
    · obtain ⟨sameId, idPos, used⟩ := linked.numbered id stored found
      exact ⟨sameId, idPos, Nat.lt_succ_of_lt used⟩
  queued instrument side := by
    simp only [Ledger.add, Market.insert]
    split
    · refine PriorityQueue.pairwise_orderedInsert (linked.queued _ _) ?_
      intro order member
      obtain ⟨stored, found, _⟩ := (linked.shown _ _ _).mp member
      have used := (linked.numbered _ stored found).2.2
      simpa [orderView, fresh] using used
    · exact linked.queued instrument side

theorem remove
    (linked : ledger.Linked nextOrder)
    (found : ledger.resting.find? m.exchangeId = some m) :
    (ledger.remove m).Linked nextOrder where
  shown instrument side order := by
    simp only [Ledger.remove, Market.remove, OrderedMap.find?_erase]
    by_cases target : order.orderId = m.exchangeId
    · simp only [target, if_true]
      refine iff_of_false ?_ (by simp)
      split
      · simp [target]
      · rename_i elsewhere
        intro member
        exact elsewhere
          (linked.quantity_of_shown found member target).2.1
    · rw [if_neg target, ← linked.shown]
      split
      · simp [target]
      · exact Iff.rfl
  keyed client orderId id := by
    simp only [Ledger.remove, OrderedMap.find?_erase]
    by_cases sameKey : (client, orderId) = (m.clientId, m.orderId)
    · rw [if_pos sameKey]
      obtain ⟨rfl, rfl⟩ := Prod.mk.injEq .. ▸ sameKey
      refine iff_of_false (by simp) ?_
      rintro ⟨stored, storedFound, sameClient, sameOrder⟩
      split at storedFound
      · cases storedFound
      · rename_i other
        have one := linked.find?_key storedFound
        rw [sameClient, sameOrder, linked.find?_key found] at one
        cases one
        exact other rfl
    · rw [if_neg sameKey, linked.keyed]
      refine exists_congr fun stored => and_congr_left ?_
      rintro ⟨sameClient, sameOrder⟩
      by_cases target : id = m.exchangeId
      · rw [if_pos target, target, found]
        refine iff_of_false ?_ (by simp)
        intro isTarget
        cases isTarget
        exact sameKey (by rw [← sameClient, ← sameOrder])
      · rw [if_neg target]
  numbered id stored storedFound := by
    simp only [Ledger.remove, OrderedMap.find?_erase] at storedFound
    split at storedFound
    · cases storedFound
    · exact linked.numbered id stored storedFound
  queued instrument side := by
    simp only [Ledger.remove, Market.remove]
    split
    · exact (linked.queued instrument side).filter _
    · exact linked.queued instrument side

theorem resize
    (linked : ledger.Linked nextOrder)
    (found : ledger.resting.find? m.exchangeId = some m)
    (quantity : Quantity) :
    (ledger.resize m quantity).Linked nextOrder where
  shown instrument side order := by
    simp only [Ledger.resize, Market.resize, OrderedMap.find?_insert]
    have kept : ∀ other ∈ ledger.market instrument side,
        (OrderView.resize m.exchangeId quantity other).orderId =
          other.orderId := by
      intro other _
      unfold OrderView.resize
      split <;> rfl
    by_cases target : order.orderId = m.exchangeId
    · rw [if_pos target]
      constructor
      · intro member
        split at member
        · obtain ⟨old, oldMember, rfl⟩ := List.mem_map.mp member
          rw [kept old oldMember] at target
          obtain ⟨rfl, rfl, rfl⟩ := linked.quantity_of_shown found oldMember target
          exact ⟨_, rfl, rfl, rfl, by simp [OrderView.resize, orderView]⟩
        · rename_i elsewhere
          exact absurd (linked.quantity_of_shown found member target).2.1 elsewhere
      · rintro ⟨stored, storedFound, rfl, rfl, rfl⟩
        cases storedFound
        simp only [if_true]
        exact List.mem_map.mpr ⟨orderView m, linked.mem_market found,
          by simp [OrderView.resize, orderView]⟩
    · rw [if_neg target, ← linked.shown]
      split
      · rw [List.mem_map]
        constructor
        · rintro ⟨old, oldMember, rfl⟩
          rw [kept old oldMember] at target
          simpa [OrderView.resize, target] using oldMember
        · intro member
          exact ⟨order, member, by simp [OrderView.resize, target]⟩
      · exact Iff.rfl
  keyed client orderId id := by
    simp only [Ledger.resize, OrderedMap.find?_insert]
    rw [linked.keyed]
    by_cases target : id = m.exchangeId
    · rw [target, found]
      simp
    · simp [target]
  numbered id stored storedFound := by
    simp only [Ledger.resize, OrderedMap.find?_insert] at storedFound
    split at storedFound
    · rename_i target
      cases storedFound
      have numbered := linked.numbered _ m found
      exact ⟨target.symm, target ▸ numbered.2⟩
    · exact linked.numbered id stored storedFound
  queued instrument side := by
    simp only [Ledger.resize, Market.resize]
    split
    · refine List.pairwise_map.mpr ((linked.queued instrument side).imp ?_)
      intro first second before
      have keeps : ∀ order : OrderView,
          (OrderView.resize m.exchangeId quantity order).price = order.price ∧
            (OrderView.resize m.exchangeId quantity order).orderId =
              order.orderId := by
        intro order
        unfold OrderView.resize
        split <;> exact ⟨rfl, rfl⟩
      unfold Ahead PriorityQueue.Ahead at *
      rw [(keeps first).1, (keeps first).2, (keeps second).1, (keeps second).2]
      exact before
    · exact linked.queued instrument side

theorem execute
    (linked : ledger.Linked nextOrder)
    (found : ledger.resting.find? m.exchangeId = some m)
    (quantity : Quantity) :
    (ledger.execute m quantity).Linked nextOrder := by
  unfold Ledger.execute
  split
  · exact linked.remove found
  · exact linked.resize found _

/-- The market of an executed ledger is the executed market. -/
theorem execute_market
    (linked : ledger.Linked nextOrder)
    (found : ledger.resting.find? m.exchangeId = some m)
    {quantity : Quantity} (enough : quantity ≤ m.quantity) :
    (ledger.execute m quantity).market =
      ledger.market.execute m.instrumentId m.exchangeId quantity := by
  unfold Ledger.execute
  split
  · rename_i nothingLeft
    refine (Market.execute_eq_remove ?_).symm
    intro side order member sameId
    rw [(linked.quantity_of_shown found member sameId).1]
    exact Nat.le_antisymm (Nat.sub_eq_zero_iff_le.mp nothingLeft) enough
  · rename_i someLeft
    refine (Market.execute_eq_resize someLeft ?_).symm
    intro side order member sameId
    rw [(linked.quantity_of_shown found member sameId).1]
    exact (Nat.add_sub_cancel' enough).symm

end Linked

end Ledger

namespace MatchingEngine

/-- The three stores of live orders. -/
def ledger (engine : MatchingEngine) : Ledger where
  market := marketOf engine.books
  resting := engine.resting
  byClient := engine.byClient

@[simp] theorem ledger_market (engine : MatchingEngine) :
    engine.ledger.market = marketOf engine.books := rfl

@[simp] theorem ledger_resting (engine : MatchingEngine) :
    engine.ledger.resting = engine.resting := rfl

@[simp] theorem ledger_byClient (engine : MatchingEngine) :
    engine.ledger.byClient = engine.byClient := rfl

end MatchingEngine

end LimitOrderBook
