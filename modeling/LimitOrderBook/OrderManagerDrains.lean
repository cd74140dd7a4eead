import LimitOrderBook.EngineExposure
import LimitOrderBook.OrderManagerAgreement

namespace LimitOrderBook

/-!
# What a manager that runs behind counts

Reports that only take leave small orders small and add no order.  Against a
replacement the order it replaces does not count; this makes a difference of at
most that order's quantity.
-/

namespace OrderManager

variable {manager : OrderManager} {m c : Message} {reports : List Message}
  {bound : Quantity}

/-- No order of the manager is larger than a bound. -/
def Small (bound : Quantity) (manager : OrderManager) : Prop :=
  ∀ orderId order, manager.orders.find? orderId = some order →
    order.quantity ≤ bound

theorem Small.mono
    {wider : Quantity} (small : manager.Small bound) (le : bound ≤ wider) :
    manager.Small wider :=
  fun orderId order found => Nat.le_trans (small orderId order found) le

/-- Every order is one of before, with at most its quantity. -/
def Shrinks (manager later : OrderManager) : Prop :=
  ∀ orderId order, later.orders.find? orderId = some order →
    ∃ before, manager.orders.find? orderId = some before ∧
      order.instrumentId = before.instrumentId ∧ order.side = before.side ∧
      order.quantity ≤ before.quantity

theorem Shrinks.refl (manager : OrderManager) : manager.Shrinks manager :=
  fun _ order found => ⟨order, found, rfl, rfl, Nat.le_refl _⟩

theorem Shrinks.trans
    {middle later : OrderManager} (first : manager.Shrinks middle)
    (second : middle.Shrinks later) : manager.Shrinks later := by
  intro orderId order found
  obtain ⟨between, foundBetween, instrument, side, less⟩ :=
    second orderId order found
  obtain ⟨before, foundBefore, sameInstrument, sameSide, lessBefore⟩ :=
    first orderId between foundBetween
  exact ⟨before, foundBefore, instrument.trans sameInstrument,
    side.trans sameSide, Nat.le_trans less lessBefore⟩

theorem find?_settle_shrinks
    {orders : OrderedMap OrderId Message (· < ·)} {old : Message}
    (found : orders.find? m.orderId = some old) (takes : m.Takes old.terms)
    {orderId : OrderId} {order : Message}
    (settled : (settle orders m).find? orderId = some order) :
    ∃ before, orders.find? orderId = some before ∧
      order.instrumentId = before.instrumentId ∧ order.side = before.side ∧
      order.quantity ≤ before.quantity := by
  have whole : old.quantity = m.quantity + m.remaining := takes.quantity
  unfold settle at settled
  rw [found] at settled
  by_cases gone : m.remaining = 0
  · simp only [gone, if_true, OrderedMap.find?_erase] at settled
    split at settled
    · cases settled
    · exact ⟨order, settled, rfl, rfl, Nat.le_refl _⟩
  · simp only [gone, if_false, OrderedMap.find?_insert] at settled
    split at settled
    · rename_i here
      cases settled
      refine ⟨old, here ▸ found, rfl, rfl, ?_⟩
      change m.remaining ≤ old.quantity
      lia
    · exact ⟨order, settled, rfl, rfl, Nat.le_refl _⟩

theorem Drained.shrinks
    (drained : manager.Drained m) : manager.Shrinks (manager.consume m).1 := by
  by_cases stale : manager.Stale m
  · rw [consume_of_stale stale]
    exact .refl manager
  · rw [consume_of_not_stale stale]
    intro orderId order found
    rcases drained with isStale | rejected | ⟨old, oldFound, takes⟩
    · exact absurd isStale stale
    · have same : (manager.apply m).orders = manager.orders := by
        simp [apply, rejected]
      rw [same] at found
      exact ⟨order, found, rfl, rfl, Nat.le_refl _⟩
    · have settled : (manager.apply m).orders = settle manager.orders m := by
        simp [apply, takes.fill]
      rw [settled] at found
      exact find?_settle_shrinks oldFound takes found

/-- Reports that only take add no order and enlarge none. -/
theorem Drains.shrinks
    (drains : manager.Drains reports) :
    manager.Shrinks (manager.consumeAll reports) := by
  induction reports generalizing manager with
  | nil => exact .refl manager
  | cons m rest inductionHypothesis =>
      exact drains.1.shrinks.trans (inductionHypothesis drains.2)

theorem Drains.small
    (drains : manager.Drains reports) (small : manager.Small bound) :
    (manager.consumeAll reports).Small bound := by
  intro orderId order found
  obtain ⟨before, foundBefore, _, _, less⟩ := drains.shrinks orderId order found
  exact Nat.le_trans less (small orderId before foundBefore)

/-- The manager knows no order on a side of an instrument. -/
def Lacks (instrument : InstrumentId) (side : Side) (manager : OrderManager) :
    Prop :=
  ∀ orderId order, manager.orders.find? orderId = some order →
    ¬ (order.instrumentId = instrument ∧ order.side = side)

theorem Drains.lacks
    {instrument : InstrumentId} {side : Side}
    (drains : manager.Drains reports) (lacks : manager.Lacks instrument side) :
    (manager.consumeAll reports).Lacks instrument side := by
  rintro orderId order found ⟨here, onSide⟩
  obtain ⟨before, foundBefore, sameInstrument, sameSide, _⟩ :=
    drains.shrinks orderId order found
  exact lacks orderId before foundBefore
    ⟨sameInstrument.symm.trans here, sameSide.symm.trans onSide⟩

/-- Without an order it does not matter what was left of it. -/
theorem erase_settle_self
    (orders : OrderedMap OrderId Message (· < ·)) (m : Message) :
    (settle orders m).erase m.orderId = orders.erase m.orderId := by
  apply OrderedMap.ext_find?
  intro orderId
  by_cases own : orderId = m.orderId
  · simp [own]
  · unfold settle
    cases orders.find? m.orderId with
    | none => rfl
    | some order =>
        by_cases gone : m.remaining = 0
        · simp [gone, own]
        · simp [gone, own]

/-- A fill adds no order to those that count, whichever order it takes from. -/
theorem Drained.openOrders_le
    (drained : manager.Drained m) (c : Message) :
    ((manager.consume m).1.exposure c).openOrders ≤
      (manager.exposure c).openOrders := by
  by_cases stale : manager.Stale m
  · rw [consume_of_stale stale]
  · rw [consume_of_not_stale stale, exposure_openOrders, exposure_openOrders]
    rcases drained with isStale | rejected | ⟨order, found, takes⟩
    · exact absurd isStale stale
    · have same : (manager.apply m).orders = manager.orders := by
        simp [apply, rejected]
      rw [others, same]
      exact Nat.le_refl _
    · have settled : (manager.apply m).orders = settle manager.orders m := by
        simp [apply, takes.fill]
      unfold others
      rw [settled]
      split
      · by_cases own : m.orderId = c.orderId
        · rw [← own, erase_settle_self]
        · rw [erase_settle manager.orders own]
          exact open_settle _ m
      · exact open_settle _ m

theorem Drains.openOrders_le
    (drains : manager.Drains reports) (c : Message) :
    ((manager.consumeAll reports).exposure c).openOrders ≤
      (manager.exposure c).openOrders := by
  induction reports generalizing manager with
  | nil => exact Nat.le_refl _
  | cons m rest inductionHypothesis =>
      exact Nat.le_trans (inductionHypothesis drains.2)
        (drains.1.openOrders_le c)

/-! ## The order that is replaced -/

/-- The command as if it replaced nothing. -/
def afresh (c : Message) : Message :=
  { c with action := .new }

theorem others_afresh (manager : OrderManager) (c : Message) :
    manager.others (afresh c) = manager.orders := by
  simp [others, afresh]

/-- An order counts against the command unless the command replaces it. -/
theorem atRisk_afresh
    {order : Message} (replaces : c.action = .replace)
    (found : manager.orders.find? c.orderId = some order) :
    manager.atRisk (afresh c) =
      manager.atRisk c + reservedOn c.instrumentId c.side order.terms := by
  have whole := OrderedMap.total_erase_of_find?_some found fun _ order =>
    reservedOn c.instrumentId c.side order.terms
  have without : manager.others c = manager.orders.erase c.orderId := by
    simp [others, replaces]
  unfold atRisk
  rw [exposure_reserved, exposure_reserved, others_afresh, without]
  change c.side.sign * (manager.position c.instrumentId).quantity +
    (manager.orders.total fun _ order =>
      reservedOn c.instrumentId c.side order.terms) = _
  rw [whole]
  ring

/-- What is replaced makes a difference of at most its quantity. -/
theorem atRisk_afresh_le
    (small : manager.Small bound) (c : Message) :
    manager.atRisk (afresh c) ≤ manager.atRisk c + bound := by
  have more : (manager.orders.total fun _ order =>
      reservedOn c.instrumentId c.side order.terms) ≤
        ((manager.others c).total fun _ order =>
          reservedOn c.instrumentId c.side order.terms) + bound := by
    unfold others
    split
    · cases found : manager.orders.find? c.orderId with
      | none =>
          rw [OrderedMap.erase_of_find?_none found]
          exact le_add_of_nonneg_right (Int.natCast_nonneg bound)
      | some order =>
          rw [OrderedMap.total_erase_of_find?_some found, add_comm]
          refine Int.add_le_add_left ?_ _
          unfold reservedOn
          split
          · exact Int.ofNat_le.mpr (small c.orderId order found)
          · exact Int.natCast_nonneg bound
    · exact le_add_of_nonneg_right (Int.natCast_nonneg bound)
  unfold atRisk
  rw [exposure_reserved, exposure_reserved, others_afresh, add_assoc]
  exact Int.add_le_add_left more _

section Mirrors

variable {engine : MatchingEngine} {client : ClientId} {slots : Nat}

/-- Every order of a mirror is an order of the engine. -/
theorem Mirrors.small
    (mirrors : manager.Mirrors engine client) (sound : engine.Sound slots)
    (bounded : ∀ id m, engine.resting.find? id = some m →
      m.clientId = client → m.quantity ≤ bound) : manager.Small bound := by
  intro orderId order found
  have shown := mirrors.shows.orders orderId
  rw [found, Option.map_some] at shown
  obtain ⟨id, m, stored, own, _, sameTerms⟩ :=
    sound.linked.blotter_eq_some.mp shown.symm
  have sameQuantity : m.quantity = order.quantity :=
    congrArg OrderTerms.quantity sameTerms
  rw [← sameQuantity]
  exact bounded id m stored own

/-- Every order of the engine is an order of a mirror. -/
theorem Mirrors.liveOn_eq_zero
    {instrument : InstrumentId} {side : Side}
    (mirrors : manager.Mirrors engine client) (sound : engine.Sound slots)
    (lacks : manager.Lacks instrument side) :
    engine.liveOn client instrument side = 0 := by
  refine OrderedMap.total_eq_zero fun id m stored => if_neg ?_
  rintro ⟨rfl, here, onSide⟩
  obtain ⟨order, found, sameTerms⟩ := Option.map_eq_some_iff.mp
    ((mirrors.shows.orders m.orderId).trans
      (sound.linked.blotter_of_found stored))
  exact lacks m.orderId order found
    ⟨(congrArg OrderTerms.instrumentId sameTerms).trans here,
      (congrArg OrderTerms.side sameTerms).trans onSide⟩

end Mirrors

end OrderManager

end LimitOrderBook
