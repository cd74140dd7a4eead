import LimitOrderBook.EngineGuarantees

namespace LimitOrderBook

/-!
# What the notional limit bounds

The limit is checked once, before the sweep, on an assumed price: the upper
price band for a market order, its own price for a limit order.  For a market
order and for a limit buy no maker is more expensive than that, so the check
also bounds what is traded.  A limit sale may trade at better, that is higher,
prices; there the limit bounds the sale at its own price only.
-/

/-- The value of a client's fills among some reports. -/
def tradedValue (client : ClientId) (reports : List Message) : Nat :=
  ((fillsOf client reports).map fun m => m.price * m.quantity).sum

/-- What the limit says about the trades of an accepted command. -/
structure NotionalBound (r : InstrumentRules) (c : Message)
    (reports : List Message) : Prop where
  covered : c.orderType = .market ∨ c.side = .bid →
    tradedValue c.clientId reports ≤ r.maxNotional.toNat
  ownPrice : c.orderType = .limit →
    c.price * filledFor c.clientId reports ≤ r.maxNotional.toNat
  band : tradedValue c.clientId reports ≤
    r.maxPrice.toNat * filledFor c.clientId reports

theorem NotionalBound.own
    {r : InstrumentRules} {c : Message} {reports : List Message}
    (bound : NotionalBound r c reports) :
    NotionalBound r c
      (reports.filter fun m => decide (m.clientId = c.clientId)) := by
  obtain ⟨covered, ownPrice, band⟩ := bound
  constructor
  · rwa [tradedValue, fillsOf_own]
  · rwa [filledFor, fillsOf_own]
  · rwa [tradedValue, filledFor, fillsOf_own]

/-- The value of trades below a price. -/
theorem value_le
    {prints : List TradePrint} {bound : Price}
    (below : ∀ print ∈ prints, print.price ≤ bound) :
    (prints.map fun print => print.price * print.size).sum ≤
      bound * traded prints := by
  induction prints with
  | nil => simp
  | cons print rest inductionHypothesis =>
      have first := Nat.mul_le_mul_right print.size
        (below print List.mem_cons_self)
      have later := inductionHypothesis fun other member =>
        below other (List.mem_cons_of_mem print member)
      rw [List.map_cons, List.sum_cons, traded_cons, Nat.mul_add]
      exact Nat.add_le_add first later

section Executed

variable {slots : Nat} {engine : MatchingEngine} {c : Message} {turn : Turn}
  {opening complete : Message} {prints : List TradePrint}
  {expiry : Option Message} {leaves : Quantity} {r : InstrumentRules}

theorem Executed.tradedValue
    (answer : Executed engine c turn opening prints expiry complete) :
    LimitOrderBook.tradedValue c.clientId turn.batch.reports =
      (prints.map fun print => print.price * print.size).sum := by
  rw [LimitOrderBook.tradedValue, answer.fillsOf, List.map_map]
  rfl

/-- No maker is outside the price band. -/
theorem Executed.price_le_band
    (answer : Executed engine c turn opening prints expiry complete)
    (sound : engine.Sound slots)
    (rules : engine.instruments.find? c.instrumentId = some r) :
    ∀ print ∈ prints, print.price ≤ r.maxPrice.toNat := by
  intro print member
  obtain ⟨maker, hits⟩ := (answer.agrees print member).maker
  obtain ⟨r', rules', allows⟩ := (sound.backed _ maker hits.found).allowed
  rw [hits.instrument, rules] at rules'
  cases rules'
  rw [hits.price]
  exact allows.highPrice

/-- The price a command is checked at bounds what it is filled at. -/
theorem Executed.price_le_checked
    (answer : Executed engine c turn opening prints expiry complete)
    (sound : engine.Sound slots)
    (rules : engine.instruments.find? c.instrumentId = some r)
    (covered : c.orderType = .market ∨ c.side = .bid) :
    ∀ print ∈ prints, print.price ≤
      if c.orderType = .market then r.maxPrice.toNat else c.price := by
  intro print member
  by_cases isMarket : c.orderType = .market
  · rw [if_pos isMarket]
    exact answer.price_le_band sound rules print member
  · have crossing := (answer.agrees print member).marketable
    rw [if_neg isMarket]
    simpa [crosses, isMarket, covered.resolve_left isMarket] using crossing

theorem Carried.notional
    (carried : Carried engine c turn prints leaves)
    (answer : Executed engine c turn opening prints expiry complete)
    (sound : engine.Sound slots)
    (rules : engine.instruments.find? c.instrumentId = some r) :
    NotionalBound r c turn.batch.reports := by
  obtain ⟨r', oldId, rules', command⟩ := carried.checked
  rw [rules] at rules'
  cases rules'
  have less : traded prints ≤ c.quantity := by
    rw [← carried.rest]
    exact Nat.le_add_right _ _
  have checked : (if c.orderType = .market then r.maxPrice.toNat
      else c.price) * traded prints ≤ r.maxNotional.toNat :=
    Nat.le_trans (Nat.mul_le_mul_left _ less) command.notional
  refine ⟨fun covered => ?_, fun isLimit => ?_, ?_⟩
  · rw [answer.tradedValue]
    exact Nat.le_trans
      (value_le (answer.price_le_checked sound rules covered)) checked
  · rw [answer.filledFor]
    simpa [isLimit] using checked
  · rw [answer.tradedValue, answer.filledFor]
    exact value_le (answer.price_le_band sound rules)

end Executed

namespace MatchingEngine

variable {engine : MatchingEngine} {c : Message} {turn : Turn}
  {pool : PoolBytes} {r : InstrumentRules}

/-- The bound on a remembered answer. -/
def NotionallyBounded (engine : MatchingEngine) (c : Message)
    (reports : List Message) : Prop :=
  c.action = .new ∨ c.action = .replace →
    (∀ m ∈ reports, m.report ≠ .rejected) →
      ∀ r, engine.instruments.find? c.instrumentId = some r →
        NotionalBound r c reports

theorem Reachable.notionallyBounded
    (reachable : Reachable pool engine) (client : ClientId)
    (asked : (engine.clientState client).lastRequest ≠ 0) :
    (engine.clientState client).lastCommand.clientId = client ∧
      engine.NotionallyBounded (engine.clientState client).lastCommand
        (engine.clientState client).cached := by
  refine reachable.memory NotionallyBounded ?_ ?_ client asked
  · intro engine c turn reachable sequenced processed action unrejected r rules
    have sound := reachable.invariant.sound
    obtain ⟨outcome, _⟩ := reachable.outcome_of processed
    obtain ⟨_, _, _, _, _, answer, carried⟩ := process_executed sound sequenced
      processed action (outcome.unrejected_of_own sound sequenced unrejected)
    rw [outcome.instruments sound] at rules
    exact (carried.notional answer sound rules).own
  · intro engine other turn c reports reachable processed _ held action
      unrejected r rules
    obtain ⟨outcome, _⟩ := reachable.outcome_of processed
    rw [outcome.instruments reachable.invariant.sound] at rules
    exact held action unrejected r rules

/--
The notional limit bounds the traded value of every accepted market order and
limit buy.  What a limit sale trades is bounded at its own price, and never
exceeds the value at the upper price band.
-/
theorem notional_bound
    (reachable : Reachable pool engine)
    (action : c.action = .new ∨ c.action = .replace)
    (processed : engine.process c = .ok turn)
    (unrejected : ∀ m ∈ turn.batch.reports, m.report ≠ .rejected)
    (rules : engine.instruments.find? c.instrumentId = some r) :
    NotionalBound r c turn.batch.reports := by
  have sound := reachable.invariant.sound
  obtain ⟨outcome, _⟩ := reachable.outcome_of processed
  rcases outcome.sequenced_or_retries action unrejected with
    sequenced | retries
  · obtain ⟨_, _, _, _, _, answer, carried⟩ :=
      process_executed sound sequenced processed action unrejected
    exact carried.notional answer sound rules
  · have bounded := Reachable.retried retries reachable.notionallyBounded
    rw [outcome.of_retries retries] at unrejected ⊢
    exact bounded action unrejected r rules

/-- A buyer's fill is worth at most what was checked. -/
theorem notional_bound_limit_buy :
    ∃ turn,
      (single.after
          [{ clientId := 7, requestId := 1, orderId := 1, side := .ask
             instrumentId := 1, price := 10, quantity := 3 }]).process
            { clientId := 8, requestId := 1, orderId := 1
              instrumentId := 1, price := 11, quantity := 5 } = .ok turn ∧
        NotionalBound {}
          { clientId := 8, requestId := 1, orderId := 1
            instrumentId := 1, price := 11, quantity := 5 }
          turn.batch.reports := by
  let offer : Message :=
    { clientId := 7, requestId := 1, orderId := 1, side := .ask
      instrumentId := 1, price := 10, quantity := 3 }
  let bid : Message :=
    { clientId := 8, requestId := 1, orderId := 1
      instrumentId := 1, price := 11, quantity := 5 }
  have reachable := single_reachable.after [offer]
  have evaluated : (((single.after [offer]).process bid).map fun turn =>
      turn.batch.reports.all fun m =>
        decide (m.report ≠ .rejected)).toOption = some true := by
    decide +kernel
  have rules : (single.after [offer]).instruments.find? bid.instrumentId =
      some {} := by
    decide +kernel
  obtain ⟨turn, processed, _⟩ := reachable.outcome bid
  rw [processed] at evaluated
  simp only [Except.map, Except.toOption, Option.some.injEq,
    List.all_eq_true, decide_eq_true_eq] at evaluated
  exact ⟨turn, processed,
    notional_bound reachable (Or.inl rfl) processed evaluated rules⟩

/-- A cheap limit sale takes two bids that are worth twice the limit. -/
theorem limit_sale_exceeds_notional :
    ∃ turn,
      Reachable .capacity (single.after
          [{ clientId := 7, requestId := 1, orderId := 1
             instrumentId := 1, price := 1000000, quantity := 10000 },
            { clientId := 7, requestId := 2, orderId := 2
              instrumentId := 1, price := 1000000, quantity := 10000 }]) ∧
        (single.after
          [{ clientId := 7, requestId := 1, orderId := 1
             instrumentId := 1, price := 1000000, quantity := 10000 },
            { clientId := 7, requestId := 2, orderId := 2
              instrumentId := 1, price := 1000000, quantity := 10000 }]).process
            { clientId := 8, requestId := 1, orderId := 1, side := .ask
              instrumentId := 1, price := 1, quantity := 20000 } = .ok turn ∧
        (∀ m ∈ turn.batch.reports, m.report ≠ .rejected) ∧
        (single.after
          [{ clientId := 7, requestId := 1, orderId := 1
             instrumentId := 1, price := 1000000, quantity := 10000 },
            { clientId := 7, requestId := 2, orderId := 2
              instrumentId := 1, price := 1000000
              quantity := 10000 }]).instruments.find? 1 =
          some ({} : InstrumentRules) ∧
        ¬ tradedValue 8 turn.batch.reports ≤
          ({} : InstrumentRules).maxNotional.toNat := by
  let first : Message :=
    { clientId := 7, requestId := 1, orderId := 1
      instrumentId := 1, price := 1000000, quantity := 10000 }
  let second : Message :=
    { clientId := 7, requestId := 2, orderId := 2
      instrumentId := 1, price := 1000000, quantity := 10000 }
  let sale : Message :=
    { clientId := 8, requestId := 1, orderId := 1, side := .ask
      instrumentId := 1, price := 1, quantity := 20000 }
  have reachable := single_reachable.after [first, second]
  have evaluated : (((single.after [first, second]).process sale).map
      fun turn =>
        (turn.batch.reports.all fun m => decide (m.report ≠ .rejected),
          tradedValue 8 turn.batch.reports)).toOption =
      some (true, 20000000000) := by
    decide +kernel
  have rules : (single.after [first, second]).instruments.find? 1 =
      some ({} : InstrumentRules) := by
    decide +kernel
  obtain ⟨turn, processed, _⟩ := reachable.outcome sale
  rw [processed] at evaluated
  simp only [Except.map, Except.toOption, Option.some.injEq, Prod.mk.injEq,
    List.all_eq_true, decide_eq_true_eq] at evaluated
  obtain ⟨clean, value⟩ := evaluated
  refine ⟨turn, reachable, processed, clean, rules, ?_⟩
  rw [value]
  decide

end MatchingEngine

end LimitOrderBook
