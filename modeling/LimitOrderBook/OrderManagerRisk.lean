import LimitOrderBook.EngineMakers
import LimitOrderBook.OrderManager

namespace LimitOrderBook

/-!
# What the local check counts

`check` adds up the client's own orders.  Reports that only take from these
orders, fills of resting orders above all, never raise what is counted: a fill
moves quantity from the orders into the position of the same side.  So a check
on fewer reports counts at least as much as one on more.
-/

namespace OrderManager

variable {manager : OrderManager} {m c : Message} {reports : List Message}

/-- What an order reserves on one side of an instrument. -/
def reservedOn (instrument : InstrumentId) (side : Side) (terms : OrderTerms) :
    Int :=
  if terms.instrumentId = instrument ∧ terms.side = side then terms.quantity
  else 0

/-- The orders that count against a command: a replaced order does not. -/
def others (manager : OrderManager) (c : Message) :
    OrderedMap OrderId Message (· < ·) :=
  if c.action = .replace then manager.orders.erase c.orderId
  else manager.orders

theorem count_of_counted
    {entry : OrderId × Message} (start : Exposure)
    (counted : ¬ (c.action = .replace ∧ entry.1 = c.orderId)) :
    count c start entry =
      { reserved := start.reserved +
          reservedOn c.instrumentId c.side entry.2.terms
        openOrders := start.openOrders + 1 } := by
  unfold count reservedOn
  rw [if_neg counted]
  by_cases here : entry.2.instrumentId = c.instrumentId ∧ entry.2.side = c.side
  · simp [Message.terms, here]
  · simp [Message.terms, here]

/-- The loop of `check` adds up the orders that count. -/
theorem foldl_count
    (c : Message) (entries : List (OrderId × Message)) (start : Exposure) :
    let counted := entries.filter fun entry =>
      decide (¬ (c.action = .replace ∧ entry.1 = c.orderId))
    (entries.foldl (count c) start).reserved =
        start.reserved + (counted.map fun entry =>
          reservedOn c.instrumentId c.side entry.2.terms).sum ∧
      (entries.foldl (count c) start).openOrders =
        start.openOrders + (counted.map fun _ => 1).sum := by
  induction entries generalizing start with
  | nil => simp
  | cons entry rest inductionHypothesis =>
      obtain ⟨reserved, openOrders⟩ := inductionHypothesis (count c start entry)
      simp only [List.foldl_cons]
      rw [reserved, openOrders]
      by_cases replaced : c.action = .replace ∧ entry.1 = c.orderId
      · simp [count, replaced]
      · have kept := decide_eq_true replaced
        rw [count_of_counted start replaced]
        simp only [List.filter_cons, kept, if_true, List.map_cons,
          List.sum_cons, add_assoc, and_self]

theorem others_entries (manager : OrderManager) (c : Message) :
    (manager.others c).entries = manager.orders.entries.filter fun entry =>
      decide (¬ (c.action = .replace ∧ entry.1 = c.orderId)) := by
  unfold others
  by_cases replaces : c.action = .replace
  · simp [replaces, OrderedMap.erase]
  · simp [replaces]

theorem exposure_reserved (manager : OrderManager) (c : Message) :
    (manager.exposure c).reserved =
      (manager.others c).total fun _ order =>
        reservedOn c.instrumentId c.side order.terms := by
  have sums := (foldl_count c manager.orders.entries {}).1
  rw [← others_entries] at sums
  simpa [exposure, OrderedMap.total] using sums

theorem exposure_openOrders (manager : OrderManager) (c : Message) :
    (manager.exposure c).openOrders =
      (manager.others c).total fun _ _ => 1 := by
  have sums := (foldl_count c manager.orders.entries {}).2
  rw [← others_entries] at sums
  simpa [exposure, OrderedMap.total] using sums

/-! ## Reports that only take -/

/-- A report that is passed over, rejects, or fills one of the orders. -/
def Drained (manager : OrderManager) (m : Message) : Prop :=
  manager.Stale m ∨ m.report = .rejected ∨
    ∃ order, manager.orders.find? m.orderId = some order ∧ m.Takes order.terms

/-- Read in order, all reports only take. -/
def Drains : OrderManager → List Message → Prop
  | _, [] => True
  | manager, m :: rest =>
      manager.Drained m ∧ Drains (manager.consume m).1 rest

theorem Drains.suffix
    {earlier : List Message} (drains : manager.Drains (earlier ++ reports)) :
    (manager.consumeAll earlier).Drains reports := by
  induction earlier generalizing manager with
  | nil => exact drains
  | cons m rest inductionHypothesis => exact inductionHypothesis drains.2

theorem Drains.append
    {later : List Message} (drains : manager.Drains reports)
    (next : (manager.consumeAll reports).Drains later) :
    manager.Drains (reports ++ later) := by
  induction reports generalizing manager with
  | nil => exact next
  | cons m rest inductionHypothesis =>
      exact ⟨drains.1, inductionHypothesis drains.2 next⟩

theorem drains_of_stale (stale : ∀ m ∈ reports, manager.Stale m) :
    manager.Drains reports := by
  induction reports with
  | nil => trivial
  | cons m rest inductionHypothesis =>
      refine ⟨Or.inl (stale m List.mem_cons_self), ?_⟩
      rw [consume_of_stale (stale m List.mem_cons_self)]
      exact inductionHypothesis fun other member =>
        stale other (List.mem_cons_of_mem m member)

/-- Rejections and answers to queries say nothing about the orders. -/
theorem drains_of_silent
    (silent : ∀ m ∈ reports, m.report = .rejected ∨ m.report = .status) :
    manager.Drains reports := by
  induction reports generalizing manager with
  | nil => trivial
  | cons m rest inductionHypothesis =>
      refine ⟨?_, inductionHypothesis fun other member =>
        silent other (List.mem_cons_of_mem m member)⟩
      rcases silent m List.mem_cons_self with rejects | answers
      · exact Or.inr (Or.inl rejects)
      · exact Or.inl (Or.inr (Or.inl answers))

/-- A fill takes its quantity out of what its order reserves. -/
theorem reserved_settle
    {orders : OrderedMap OrderId Message (· < ·)} {order : Message}
    (found : orders.find? m.orderId = some order)
    (takes : m.Takes order.terms) (instrument : InstrumentId) (side : Side) :
    ((settle orders m).total fun _ order =>
          reservedOn instrument side order.terms) +
        (if m.instrumentId = instrument ∧ m.side = side then
          (m.quantity : Int) else 0) =
      orders.total fun _ order => reservedOn instrument side order.terms := by
  have held : reservedOn instrument side order.terms =
      if m.instrumentId = instrument ∧ m.side = side then
        (m.quantity : Int) + m.remaining else 0 := by
    rw [reservedOn, takes.instrument, takes.side, takes.quantity]
    push_cast
    rfl
  unfold settle
  rw [found]
  by_cases gone : m.remaining = 0
  · simp only [gone, if_true]
    rw [OrderedMap.total_erase_of_find?_some found, held, gone]
    simp [add_comm]
  · simp only [gone, if_false]
    have resized := OrderedMap.total_insert_of_find?_some found
      { order with quantity := m.remaining }
      fun _ order => reservedOn instrument side order.terms
    have left : reservedOn instrument side
        ({ order with quantity := m.remaining } : Message).terms =
          if m.instrumentId = instrument ∧ m.side = side then
            (m.remaining : Int) else 0 := by
      rw [← takes.instrument, ← takes.side]
      rfl
    rw [held, left] at resized
    split at resized
    · rename_i here
      rw [if_pos here]
      linarith
    · rename_i elsewhere
      rw [if_neg elsewhere]
      linarith

/-- A fill does not add orders. -/
theorem open_settle
    (orders : OrderedMap OrderId Message (· < ·)) (m : Message) :
    ((settle orders m).total fun _ _ => 1) ≤ orders.total fun _ _ => 1 := by
  unfold settle
  cases found : orders.find? m.orderId with
  | none => exact Nat.le_refl _
  | some order =>
      by_cases gone : m.remaining = 0
      · simp only [gone, if_true]
        rw [OrderedMap.total_erase_of_find?_some found]
        exact Nat.le_add_left _ _
      · simp only [gone, if_false]
        have resized := OrderedMap.total_insert_of_find?_some found
          { order with quantity := m.remaining } fun _ _ => 1
        omega

/-- Settling one order and dropping another. -/
theorem erase_settle
    (orders : OrderedMap OrderId Message (· < ·)) {orderId : OrderId}
    (apart : m.orderId ≠ orderId) :
    (settle orders m).erase orderId = settle (orders.erase orderId) m := by
  have kept : (orders.erase orderId).find? m.orderId =
      orders.find? m.orderId := by
    simp [apart]
  unfold settle
  rw [kept]
  cases orders.find? m.orderId with
  | none => rfl
  | some order =>
      by_cases gone : m.remaining = 0
      · simp only [gone, if_true]
        apply OrderedMap.ext_find?
        intro other
        by_cases first : other = orderId
        · simp [first]
        · simp [first]
      · simp only [gone, if_false]
        exact OrderedMap.erase_insert_of_ne _ _ apart

/-- What is held on the side of a command once all that counts is filled. -/
def atRisk (manager : OrderManager) (c : Message) : Int :=
  c.side.sign * (manager.position c.instrumentId).quantity +
    (manager.exposure c).reserved

/-- At least as much counts against a command as later. -/
structure Covers (manager later : OrderManager) (c : Message) : Prop where
  openOrders :
    (later.exposure c).openOrders ≤ (manager.exposure c).openOrders
  atRisk : later.atRisk c ≤ manager.atRisk c

theorem Covers.refl (manager : OrderManager) (c : Message) :
    manager.Covers manager c :=
  ⟨Nat.le_refl _, Int.le_refl _⟩

theorem Covers.trans
    {middle later : OrderManager} (first : manager.Covers middle c)
    (second : middle.Covers later c) : manager.Covers later c :=
  ⟨Nat.le_trans second.openOrders first.openOrders,
    Int.le_trans second.atRisk first.atRisk⟩

/-- A fill of an order that counts moves it into the position. -/
theorem apply_fill_covers
    {order : Message} (found : manager.orders.find? m.orderId = some order)
    (takes : m.Takes order.terms) (side : c.side.Listed)
    (kept : c.action = .replace → m.orderId ≠ c.orderId) :
    manager.Covers (manager.apply m) c := by
  have settled : (manager.apply m).others c = settle (manager.others c) m := by
    unfold others apply
    simp only [takes.fill]
    split
    · rename_i replaces
      exact erase_settle manager.orders (kept replaces)
    · rfl
  have counted : (manager.others c).find? m.orderId = some order := by
    unfold others
    split
    · rename_i replaces
      simp [kept replaces, found]
    · exact found
  have moved : (manager.apply m).position c.instrumentId =
      if c.instrumentId = m.instrumentId then
        (manager.position c.instrumentId).fill m.side m.price m.quantity
      else
        manager.position c.instrumentId := by
    unfold apply position
    simp only [takes.fill, OrderedMap.find?_insert]
    split
    · rename_i here
      rw [here]
      rfl
    · rfl
  refine ⟨?_, ?_⟩
  · rw [exposure_openOrders, exposure_openOrders, settled]
    exact open_settle _ m
  · have reserved := reserved_settle counted takes c.instrumentId c.side
    unfold atRisk
    rw [exposure_reserved, exposure_reserved, settled, ← reserved, moved]
    by_cases here : c.instrumentId = m.instrumentId
    · rw [if_pos here, Position.fill_quantity]
      rcases side with isBid | isAsk
      · rcases takes.listed with bought | sold
        · simp [isBid, bought, here, Side.sign]
          omega
        · simp [isBid, sold, here, Side.sign]
      · rcases takes.listed with bought | sold
        · simp [isAsk, bought, here, Side.sign]
          omega
        · simp [isAsk, sold, here, Side.sign]
          omega
    · have apart : ¬ (m.instrumentId = c.instrumentId ∧ m.side = c.side) :=
        fun same => here same.1.symm
      rw [if_neg here, if_neg apart, add_zero]

theorem Drained.covers
    (drained : manager.Drained m) (side : c.side.Listed)
    (kept : c.action = .replace → m.report = .fill → m.orderId ≠ c.orderId) :
    manager.Covers (manager.consume m).1 c := by
  by_cases stale : manager.Stale m
  · rw [consume_of_stale stale]
    exact .refl manager c
  · rw [consume_of_not_stale stale]
    rcases drained with isStale | rejected | ⟨order, found, takes⟩
    · exact absurd isStale stale
    · have same : manager.apply m = { manager with lastReport := m.sequence } := by
        simp [apply, rejected]
      rw [same]
      exact ⟨Nat.le_refl _, Int.le_refl _⟩
    · exact apply_fill_covers found takes side
        fun replaces => kept replaces takes.fill

/-- After reports that only take, no more counts than before. -/
theorem Drains.covers
    (drains : manager.Drains reports) (side : c.side.Listed)
    (kept : c.action = .replace →
      ∀ m ∈ reports, m.report = .fill → m.orderId ≠ c.orderId) :
    manager.Covers (manager.consumeAll reports) c := by
  induction reports generalizing manager with
  | nil => exact .refl manager c
  | cons m rest inductionHypothesis =>
      refine Covers.trans (drains.1.covers side fun replaces =>
        kept replaces m List.mem_cons_self) ?_
      exact inductionHypothesis drains.2 fun replaces other member =>
        kept replaces other (List.mem_cons_of_mem m member)

/-! ## A command that passes -/

/-- What a check establishes of a new order or a replacement. -/
structure Passes (manager : OrderManager) (c : Message)
    (limits : InstrumentRules) : Prop where
  size : c.quantity ≤ limits.maxOrderQuantity.toNat
  notional :
    (if c.orderType = .market then limits.maxPrice.toNat else c.price) *
      c.quantity ≤ limits.maxNotional.toNat
  openOrders : (manager.exposure c).openOrders < limits.maxOpenOrders
  atRisk : manager.atRisk c + c.quantity ≤ limits.maxPosition

theorem passes_of_check
    {limits : InstrumentRules} {market : MarketReplica} {pastLoss : Bool}
    (action : c.action = .new ∨ c.action = .replace)
    (passed : manager.checkWith pastLoss c limits market = .none) :
    manager.Passes c limits := by
  have opens : ¬ (c.action = .cancel ∨ c.action = .cancelAll) := by
    rcases action with isNew | isReplace
    · simp [isNew]
    · simp [isReplace]
  unfold checkWith at passed
  simp only [if_neg opens] at passed
  obtain ⟨_, passed⟩ := Reject.of_guard (by decide) passed
  obtain ⟨sized, passed⟩ := Reject.of_guard (by decide) passed
  obtain ⟨_, passed⟩ := Reject.of_guard (by decide) passed
  obtain ⟨affordable, passed⟩ := Reject.of_guard (by decide) passed
  obtain ⟨few, passed⟩ := Reject.of_guard (by decide) passed
  obtain ⟨bounded, _⟩ := Reject.of_guard (by decide) passed
  refine ⟨Nat.le_of_not_lt fun large => sized (Or.inr large),
    Nat.le_of_not_lt affordable, Nat.lt_of_not_le few, ?_⟩
  unfold atRisk Side.sign
  split
  · rename_i isBid
    rw [if_pos isBid] at bounded
    omega
  · rename_i isAsk
    rw [if_neg isAsk] at bounded
    omega

end OrderManager

end LimitOrderBook
