import LimitOrderBook.EngineEntry

namespace LimitOrderBook

/-!
# Planning and executing the sweep

`sweep` is the greedy plan on a list of orders.  The visitor of `submit`
computes it on the marketable part of the opposite queue unless it rejects the
command.  While the fills are executed, what is still to be done is always
the greedy plan on the market as it then stands; this is the loop invariant.
-/

/-- The greedy fills of a quantity against orders in priority order. -/
def sweep : Quantity → List OrderView → List Fill
  | _, [] => []
  | leaves, order :: rest =>
      if leaves = 0 then
        []
      else
        ⟨order.orderId, order.price, min leaves order.quantity⟩ ::
          sweep (leaves - min leaves order.quantity) rest

/-- The quantity of a list of fills. -/
def filled (fills : List Fill) : Quantity :=
  (fills.map Fill.size).sum

@[simp] theorem filled_nil : filled [] = 0 := rfl

@[simp] theorem filled_cons (fill : Fill) (rest : List Fill) :
    filled (fill :: rest) = fill.size + filled rest := by
  simp [filled]

@[simp] theorem sweep_zero (orders : List OrderView) : sweep 0 orders = [] := by
  cases orders <;> rfl

/-- The quantity of a list of orders. -/
def offered (orders : List OrderView) : Quantity :=
  (orders.map OrderView.quantity).sum

@[simp] theorem offered_nil : offered [] = 0 := rfl

@[simp] theorem offered_cons (order : OrderView) (rest : List OrderView) :
    offered (order :: rest) = order.quantity + offered rest := by
  simp [offered]

/-- An order is reached when the orders before it do not suffice. -/
def Reached (leaves : Quantity) (orders : List OrderView) (order : OrderView) :
    Prop :=
  ∃ before after, orders = before ++ order :: after ∧ offered before < leaves

theorem sweep_cons
    {leaves : Quantity} (someLeft : leaves ≠ 0) (order : OrderView)
    (rest : List OrderView) :
    sweep leaves (order :: rest) =
      ⟨order.orderId, order.price, min leaves order.quantity⟩ ::
        sweep (leaves - min leaves order.quantity) rest := by
  rw [sweep, if_neg someLeft]

theorem sweep_eq_nil
    {leaves : Quantity} (someLeft : leaves ≠ 0) {orders : List OrderView} :
    sweep leaves orders = [] ↔ orders = [] := by
  cases orders with
  | nil => simp [sweep]
  | cons order rest => simp [sweep_cons someLeft]

/-- A sweep fills what is wanted or all that is offered. -/
theorem filled_sweep (leaves : Quantity) (orders : List OrderView) :
    filled (sweep leaves orders) = min leaves (offered orders) := by
  induction orders generalizing leaves with
  | nil => simp [sweep]
  | cons order rest inductionHypothesis =>
      by_cases none : leaves = 0
      · simp [none]
      · rw [sweep_cons none, filled_cons, offered_cons, inductionHypothesis]
        lia

/-- A sweep fills against the orders it reaches. -/
theorem exists_sweep_iff
    {leaves : Quantity} {orders : List OrderView} (holds : OrderId → Prop) :
    (∃ fill ∈ sweep leaves orders, holds fill.id) ↔
      ∃ order, Reached leaves orders order ∧ holds order.orderId := by
  induction orders generalizing leaves with
  | nil => simp [sweep, Reached]
  | cons order rest inductionHypothesis =>
      by_cases none : leaves = 0
      · simp [none, Reached]
      · rw [sweep_cons none]
        constructor
        · rintro ⟨fill, member, held⟩
          rcases List.mem_cons.mp member with isFirst | later
          · rw [isFirst] at held
            exact ⟨order, ⟨[], rest, rfl, Nat.pos_of_ne_zero none⟩, held⟩
          · obtain ⟨found, ⟨before, after, shape, few⟩, held⟩ :=
              inductionHypothesis.mp ⟨fill, later, held⟩
            refine ⟨found, ⟨order :: before, after, by rw [shape]; rfl, ?_⟩,
              held⟩
            rw [offered_cons]
            lia
        · rintro ⟨found, ⟨before, after, shape, few⟩, held⟩
          cases before with
          | nil =>
              obtain ⟨rfl, rfl⟩ := List.cons.inj shape
              exact ⟨_, List.mem_cons_self, held⟩
          | cons first before =>
              obtain ⟨rfl, rfl⟩ := List.cons.inj shape
              rw [offered_cons] at few
              obtain ⟨fill, member, held⟩ := inductionHypothesis.mpr
                ⟨found, ⟨before, after, rfl, show offered before <
                  leaves - min leaves order.quantity by lia⟩, held⟩
              exact ⟨fill, List.mem_cons_of_mem _ member, held⟩

/-- The orders a command may trade with, best first. -/
def marketable (c : Message) (orders : List OrderView) : List OrderView :=
  orders.takeWhile fun order => crosses c order.price

/-- A fill does not trade with the client's own order. -/
def ForeignMaker (engine : MatchingEngine) (c : Message) (fill : Fill) : Prop :=
  ∀ maker, engine.resting.find? fill.id = some maker →
    maker.clientId ≠ c.clientId

/-- What the visitor of `submit` leaves in its captured variables. -/
structure Planned (engine : MatchingEngine) (c : Message) (leaves : Quantity)
    (orders : List OrderView) (earlier : List Fill) (plan : Plan) : Prop where
  accepted : plan.rejection = .none
  fills : plan.planned = earlier ++ sweep leaves (marketable c orders)
  rest : plan.leaves = leaves - filled (sweep leaves (marketable c orders))
  foreign : ∀ fill ∈ sweep leaves (marketable c orders),
    ForeignMaker engine c fill
  passive : c.postOnly = true → sweep leaves (marketable c orders) = []

/-- The visitor plans the greedy sweep or says why it may not happen. -/
theorem visitWhile_plan
    (engine : MatchingEngine) (c : Message) {orders : List OrderView}
    (stored : ∀ order ∈ orders,
      ∃ m, engine.resting.find? order.orderId = some m)
    {plan : Plan} (clean : plan.rejection = .none) :
    ∃ final,
      OrderBook.visitWhile (planVisitor engine c) plan orders = .ok final ∧
        ((final.rejection = .postOnly ∧ c.postOnly = true ∧
            sweep plan.leaves (marketable c orders) ≠ []) ∨
          (final.rejection = .selfTrade ∧
            ∃ fill ∈ sweep plan.leaves (marketable c orders),
              ¬ ForeignMaker engine c fill) ∨
          Planned engine c plan.leaves orders plan.planned final) := by
  induction orders generalizing plan with
  | nil =>
      exact ⟨plan, rfl, Or.inr (Or.inr
        ⟨clean, by simp [marketable, sweep], by simp [marketable, sweep],
          by simp [marketable, sweep], fun _ => rfl⟩)⟩
  | cons order rest inductionHypothesis =>
      by_cases stops : plan.leaves = 0 ∨ crosses c order.price = false
      · have nothing : sweep plan.leaves (marketable c (order :: rest)) = [] := by
          rcases stops with zero | apart
          · rw [zero, sweep_zero]
          · simp [marketable, apart, sweep]
        refine ⟨plan, ?_, Or.inr (Or.inr
          ⟨clean, by simp [nothing], by simp [nothing], by simp [nothing],
            fun _ => nothing⟩)⟩
        simp [OrderBook.visitWhile, planVisitor, stops, Bind.bind, Except.bind]
      · obtain ⟨owner, found⟩ := stored order (by simp)
        obtain ⟨some_leaves, marketableHere⟩ := not_or.mp stops
        have crossesHere : crosses c order.price = true := by
          simpa using marketableHere
        let size := min plan.leaves order.quantity
        have unfolded :
            sweep plan.leaves (marketable c (order :: rest)) =
              ⟨order.orderId, order.price, size⟩ ::
                sweep (plan.leaves - size) (marketable c rest) := by
          simp [marketable, crossesHere, sweep, some_leaves, size]
        by_cases passive : c.postOnly = true
        · refine ⟨{ plan with rejection := .postOnly }, ?_,
            Or.inl ⟨rfl, passive, by simp [unfolded]⟩⟩
          simp [OrderBook.visitWhile, planVisitor, stops, passive, Bind.bind,
            Except.bind]
        · by_cases own : owner.clientId = c.clientId
          · refine ⟨{ plan with rejection := .selfTrade }, ?_,
              Or.inr (Or.inl ⟨rfl, ⟨order.orderId, order.price, size⟩,
                by simp [unfolded], fun foreign => foreign owner found own⟩)⟩
            simp [OrderBook.visitWhile, planVisitor, stops, passive,
              atKey_of_find? found, own, Bind.bind, Except.bind, pure,
              Except.pure]
          · let next : Plan :=
              { plan with
                planned := plan.planned ++ [⟨order.orderId, order.price, size⟩]
                leaves := plan.leaves - size }
            have nextClean : next.rejection = .none := clean
            have visited : planVisitor engine c plan order =
                .ok (next, decide (plan.leaves - size ≠ 0)) := by
              simp [planVisitor, stops, passive, atKey_of_find? found, own,
                Bind.bind, Except.bind, pure, Except.pure, next, size]
            have foreign : ForeignMaker engine c
                ⟨order.orderId, order.price, size⟩ := by
              intro maker makerFound
              have same := found.symm.trans makerFound
              cases same
              exact own
            by_cases more : plan.leaves - size = 0
            · refine ⟨next, ?_, Or.inr (Or.inr ⟨clean, ?_, ?_, ?_, ?_⟩)⟩
              · simp [OrderBook.visitWhile, visited, more, Bind.bind,
                  Except.bind]
              · simp [unfolded, more, next]
              · have all : plan.leaves - (size + filled
                    (sweep (plan.leaves - size) (marketable c rest))) =
                    plan.leaves - size := by
                  rw [more, sweep_zero, filled_nil]
                  exact more
                rw [unfolded, filled_cons]
                exact all.symm
              · simp [unfolded, more, foreign]
              · exact fun isPassive => absurd isPassive passive
            · obtain ⟨final, planned, outcome⟩ :=
                inductionHypothesis
                  (fun other member => stored other (by simp [member]))
                  nextClean
              refine ⟨final, ?_, ?_⟩
              · simpa [OrderBook.visitWhile, visited, more, Bind.bind,
                  Except.bind] using planned
              · rcases outcome with ⟨_, isPassive, _⟩ |
                  ⟨selfTrade, own, member, notForeign⟩ | rest_planned
                · exact absurd isPassive passive
                · refine Or.inr (Or.inl ⟨selfTrade, own, ?_, notForeign⟩)
                  rw [unfolded]
                  exact List.mem_cons_of_mem _ member
                · refine Or.inr (Or.inr
                    ⟨rest_planned.accepted, ?_, ?_, ?_, ?_⟩)
                  · rw [rest_planned.fills, unfolded]
                    simp [next]
                  · rw [rest_planned.rest, unfolded, filled_cons]
                    simp only [next]
                    lia
                  · rw [unfolded]
                    intro fill member
                    rcases List.mem_cons.mp member with isFirst | later
                    · exact isFirst ▸ foreign
                    · exact rest_planned.foreign fill later
                  · exact fun isPassive => absurd isPassive passive

/-! ## One fill -/

/-- The maker's report and delta of a fill. -/
def execution (maker : Message) (fill : Fill) (trade : Nat) : Message :=
  { maker with
    quantity := fill.size
    remaining := maker.quantity - fill.size
    tradeId := trade }

/-- The taker's report and delta of a fill. -/
def takerFill (incoming : Message) (fill : Fill) (left : Quantity)
    (trade : Nat) : Message :=
  { incoming with
    price := fill.price
    quantity := fill.size
    remaining := left
    tradeId := trade }

namespace Turn

variable {slots : Nat} {turn : Turn} {c incoming maker : Message} {fill : Fill}
  {left : Quantity} {books : Books}

/-- The turn after one fill. -/
def afterFill (turn : Turn) (c incoming maker : Message) (fill : Fill)
    (left : Quantity) (books : Books) : Turn :=
  let engine := turn.engine
  let made := execution maker fill engine.nextTrade
  let taken := takerFill incoming fill (left - fill.size) engine.nextTrade
  let published :=
    ((((turn.withBooks books).report made .fill).update made .execute).report
      taken .fill).update taken .trade
  { published with
    engine :=
      { published.engine with
        resting := (engine.ledger.execute maker fill.size).resting
        byClient := (engine.ledger.execute maker fill.size).byClient
        positions :=
          (engine.positions.insert (maker.clientId, c.instrumentId)
            ((engine.position maker.clientId c.instrumentId).fill maker.side
              fill.price fill.size)).insert (c.clientId, c.instrumentId)
            ((engine.position c.clientId c.instrumentId).fill c.side
              fill.price fill.size)
        nextTrade := engine.nextTrade + 1
        stats :=
          { engine.stats with
            trades := engine.stats.trades + 1
            volume := engine.stats.volume + fill.size } } }

/-- A planned fill against the first order of the opposite queue. -/
structure FillOf (engine : MatchingEngine) (c maker : Message) (fill : Fill)
    (left : Quantity) : Prop where
  found : engine.resting.find? maker.exchangeId = some maker
  id : fill.id = maker.exchangeId
  price : fill.price = maker.price
  instrument : maker.instrumentId = c.instrumentId
  side : maker.side = c.side.opposite
  first : ∃ others, marketOf engine.books c.instrumentId c.side.opposite =
    orderView maker :: others
  marketable : crosses c fill.price = true
  foreign : maker.clientId ≠ c.clientId
  positive : fill.size ≠ 0
  enough : fill.size ≤ maker.quantity
  wanted : fill.size ≤ left
  lots : ∀ r, engine.instruments.find? c.instrumentId = some r →
    fill.size % r.lotSize.toNat = 0
  taker : (engine.positions.find? (c.clientId, c.instrumentId)).isSome

/-- The turn after both positions have moved. -/
def settled (turn : Turn) (maker c : Message) (fill : Fill) : Turn :=
  { turn with
    engine :=
      { turn.engine with
        positions :=
          (turn.engine.positions.insert (maker.clientId, c.instrumentId)
            ((turn.engine.position maker.clientId c.instrumentId).fill
              maker.side fill.price fill.size)).insert
            (c.clientId, c.instrumentId)
            ((turn.engine.position c.clientId c.instrumentId).fill c.side
              fill.price fill.size) } }

theorem settle_ok
    (maker : Message) (makerKnown :
      (turn.engine.positions.find? (maker.clientId, c.instrumentId)).isSome)
    (takerKnown :
      (turn.engine.positions.find? (c.clientId, c.instrumentId)).isSome)
    (foreign : maker.clientId ≠ c.clientId) :
    turn.settle maker c fill = .ok (turn.settled maker c fill) := by
  obtain ⟨makerPosition, makerFound⟩ := Option.isSome_iff_exists.mp makerKnown
  obtain ⟨takerPosition, takerFound⟩ := Option.isSome_iff_exists.mp takerKnown
  have apart : (c.clientId, c.instrumentId) ≠
      (maker.clientId, c.instrumentId) := by
    intro same
    exact foreign (Prod.mk.inj same).1.symm
  simp [settle, settled, atKey, makerFound, takerFound, apart,
    MatchingEngine.position, Bind.bind, Except.bind, pure, Except.pure]

theorem executeFill_ok
    (incoming : Message) (sound : turn.engine.Sound slots)
    (fillOf : FillOf turn.engine c maker fill left) :
    ∃ books,
      executeFill c incoming (turn, left) fill =
          .ok (turn.afterFill c incoming maker fill left books,
            left - fill.size) ∧
        Reshelved slots turn.engine.books books
          (turn.engine.ledger.execute maker fill.size).market := by
  have found := fillOf.found
  obtain ⟨book, next, bookFound, applied, reshelved⟩ :=
    sound.booksWf.applyExecute (sound.live found) fillOf.positive fillOf.enough
  have makerKnown := (sound.backed _ maker found).position
  rw [fillOf.instrument] at bookFound reshelved makerKnown
  refine ⟨turn.engine.books.insert c.instrumentId next, ?_, reshelved.wf, ?_,
    reshelved.sameKeys⟩
  · rw [← fillOf.id] at found applied
    simp only [executeFill, atKey_of_find? found, Bind.bind, Except.bind, pure,
      Except.pure]
    rw [applyBook_ok (by exact bookFound) applied]
    simp only
    rw [settle_ok { maker with quantity := maker.quantity - fill.size }
      (by exact makerKnown) (by exact fillOf.taker) fillOf.foreign]
    by_cases gone : maker.quantity - fill.size = 0
    · simp [afterFill, gone, Ledger.execute, Ledger.remove, fillOf.id,
        settled, withBooks, execution, takerFill, report, update,
        MatchingEngine.position]
    · simp [afterFill, gone, Ledger.execute, Ledger.resize, fillOf.id,
        settled, withBooks, execution, takerFill, report, update,
        MatchingEngine.position]
  · rw [reshelved.shows, sound.linked.execute_market found fillOf.enough,
      fillOf.instrument]
    rfl

theorem afterFill_ledger
    (reshelved : Reshelved slots turn.engine.books books
      (turn.engine.ledger.execute maker fill.size).market) :
    (turn.afterFill c incoming maker fill left books).engine.ledger =
      turn.engine.ledger.execute maker fill.size :=
  congrArg (Ledger.mk · _ _) reshelved.shows

theorem afterFill_extends :
    turn.engine.Extends
      (turn.afterFill c incoming maker fill left books).engine where
  instruments := rfl
  clients _ state known := ⟨state, known, Nat.le_refl _⟩
  positions key known := by
    simp only [afterFill, OrderedMap.find?_insert]
    split
    · rfl
    · split
      · rfl
      · exact known

theorem sub_lots {first second lot : Nat}
    (firstLots : first % lot = 0) (secondLots : second % lot = 0) :
    (first - second) % lot = 0 :=
  Nat.mod_eq_zero_of_dvd
    (Nat.dvd_sub (Nat.dvd_of_mod_eq_zero firstLots)
      (Nat.dvd_of_mod_eq_zero secondLots))

theorem afterFill_sound
    (incoming : Message) (sound : turn.engine.Sound slots)
    (fillOf : FillOf turn.engine c maker fill left)
    (reshelved : Reshelved slots turn.engine.books books
      (turn.engine.ledger.execute maker fill.size).market) :
    (turn.afterFill c incoming maker fill left books).engine.Sound slots := by
  refine sound.step reshelved afterFill_extends ?_ sound.nextPos ?_
  · rw [afterFill_ledger reshelved]
    exact sound.linked.execute fillOf.found _
  · intro id stored found
    rcases Ledger.find?_execute found with ⟨_, _, rfl⟩ | ⟨_, kept⟩
    · have backs := sound.backed _ maker fillOf.found
      refine Or.inr ((backs.resize (Nat.sub_le _ _) ?_).mono afterFill_extends)
      intro r rules
      obtain ⟨r', rules', allows⟩ := backs.allowed
      have same := rules.symm.trans rules'
      cases same
      exact sub_lots allows.lot
        (fillOf.lots r (by rw [← fillOf.instrument]; exact rules))
    · exact Or.inl kept

/-! ## The loop over the planned fills -/

/-- Executed fills, from one turn to another. -/
inductive Fills (slots : Nat) (c incoming : Message) :
    Turn → Quantity → List Fill → Turn → Quantity → Prop where
  | done {turn : Turn} {left : Quantity} :
      Fills slots c incoming turn left [] turn left
  | next {turn final : Turn} {left after : Quantity} {fill : Fill}
      {rest : List Fill} {maker : Message} {books : Books} :
      FillOf turn.engine c maker fill left →
      Reshelved slots turn.engine.books books
        (turn.engine.ledger.execute maker fill.size).market →
      Fills slots c incoming
        (turn.afterFill c incoming maker fill left books) (left - fill.size)
        rest final after →
      Fills slots c incoming turn left (fill :: rest) final after

/-- What is still to be filled is the greedy plan on the present market. -/
structure Sweeping (engine : MatchingEngine) (c : Message) (left : Quantity)
    (fills : List Fill) : Prop where
  plan : fills = sweep left
    (marketable c (marketOf engine.books c.instrumentId c.side.opposite))
  foreign : ∀ fill ∈ fills, ForeignMaker engine c fill
  lots : ∀ r, engine.instruments.find? c.instrumentId = some r →
    left % r.lotSize.toNat = 0
  taker : (engine.positions.find? (c.clientId, c.instrumentId)).isSome

/-- Executing the first order of a queue leaves the others in place. -/
theorem execute_first
    {ledger : Ledger} {nextOrder : OrderId} {side : Side}
    {others : List OrderView}
    (linked : ledger.Linked nextOrder)
    (found : ledger.resting.find? maker.exchangeId = some maker)
    (first : ledger.market maker.instrumentId side = orderView maker :: others)
    (quantity : Quantity) :
    (ledger.execute maker quantity).market maker.instrumentId side =
      if maker.quantity - quantity = 0 then others
      else
        { orderView maker with quantity := maker.quantity - quantity } ::
          others := by
  have apart : ∀ order ∈ others, order.orderId ≠ maker.exchangeId := by
    intro order member sameId
    have queued := linked.queued maker.instrumentId side
    have shown := linked.quantity_of_shown found
      (by rw [first]; exact List.mem_cons_of_mem _ member) sameId
    rw [first] at queued
    have ahead := (List.pairwise_cons.mp queued).1 order member
    rw [shown.1] at ahead
    exact PriorityQueue.ahead_asymm ahead ahead
  unfold Ledger.execute
  split
  · have kept : others.filter
        (fun order => decide (order.orderId ≠ maker.exchangeId)) = others :=
      List.filter_eq_self.mpr fun order member => by
        simpa using apart order member
    simp only [Ledger.remove, Market.remove, if_true, first]
    rw [List.filter_cons_of_neg (by simp [orderView]), kept]
  · have kept : others.map
        (OrderView.resize maker.exchangeId (maker.quantity - quantity)) =
          others := by
      conv_rhs => rw [← List.map_id others]
      refine List.map_congr_left fun order member => ?_
      simp [OrderView.resize, apart order member]
    simp only [Ledger.resize, Market.resize, if_true, first, List.map_cons,
      kept]
    simp [OrderView.resize, orderView]

/-- The first planned fill can be executed, and the rest is then the plan. -/
theorem Sweeping.step
    {rest : List Fill} (sound : turn.engine.Sound slots)
    (sweeping : Sweeping turn.engine c left (fill :: rest)) :
    ∃ maker, FillOf turn.engine c maker fill left ∧
      ∀ incoming books, Reshelved slots turn.engine.books books
          (turn.engine.ledger.execute maker fill.size).market →
        Sweeping (turn.afterFill c incoming maker fill left books).engine c
          (left - fill.size) rest := by
  have plan := sweeping.plan
  cases queue : marketOf turn.engine.books c.instrumentId c.side.opposite with
  | nil =>
      rw [queue] at plan
      cases plan
  | cons order others =>
      rw [queue] at plan
      have crossesHere : crosses c order.price = true := by
        by_contra apart
        simp [marketable, apart, sweep] at plan
      have some_left : left ≠ 0 := by
        intro zero
        rw [zero, sweep_zero] at plan
        cases plan
      rw [marketable, List.takeWhile_cons_of_pos (by exact crossesHere), sweep,
        if_neg some_left] at plan
      obtain ⟨rfl, restPlan⟩ := List.cons.inj plan
      have member :
          order ∈ marketOf turn.engine.books c.instrumentId c.side.opposite := by
        rw [queue]
        exact List.mem_cons_self
      obtain ⟨maker, found, instrument, side, rfl⟩ :=
        (sound.linked.shown _ _ _).mp member
      have quantityPos := (sound.positive found).2
      have makerLots : ∀ r,
          turn.engine.instruments.find? c.instrumentId = some r →
            maker.quantity % r.lotSize.toNat = 0 := by
        intro r rules
        obtain ⟨r', rules', allows⟩ := (sound.backed _ maker found).allowed
        rw [instrument, rules] at rules'
        cases rules'
        exact allows.lot
      have fillOf : FillOf turn.engine c maker
          ⟨maker.exchangeId, maker.price, min left maker.quantity⟩ left :=
        { found := found
          id := rfl
          price := rfl
          instrument := instrument
          side := side
          first := ⟨others, queue⟩
          marketable := crossesHere
          foreign := sweeping.foreign _ List.mem_cons_self maker found
          positive := by
            simp only
            lia
          enough := Nat.min_le_right _ _
          wanted := Nat.min_le_left _ _
          lots := fun r rules => by
            rcases Nat.le_total left maker.quantity with less | more
            · simpa [Nat.min_eq_left less] using sweeping.lots r rules
            · simpa [Nat.min_eq_right more] using makerLots r rules
          taker := sweeping.taker }
      refine ⟨maker, fillOf, ?_⟩
      intro incoming books reshelved
      have market := execute_first sound.linked found
        (by rw [instrument]; exact queue) (min left maker.quantity)
      rw [instrument] at market
      refine
        { plan := ?_
          foreign := ?_
          lots := fun r rules =>
            sub_lots (sweeping.lots r rules) (fillOf.lots r rules)
          taker := afterFill_extends.positions _ sweeping.taker }
      · have shows :
            marketOf books c.instrumentId c.side.opposite = _ :=
          (congrFun (congrFun reshelved.shows _) _).trans market
        change rest = sweep (left - min left maker.quantity)
          (marketable c (marketOf books c.instrumentId c.side.opposite))
        rw [shows, restPlan]
        split
        · rfl
        · have exhausted : left - min left maker.quantity = 0 := by lia
          simp only [orderView, exhausted, sweep_zero]
      · intro other otherMember stored storedFound
        rcases Ledger.find?_execute storedFound with ⟨_, _, rfl⟩ | ⟨_, kept⟩
        · exact fillOf.foreign
        · exact sweeping.foreign other (by simp [otherMember]) stored kept

/-- All planned fills are executed, and nothing marketable is left. -/
theorem fills_ok
    {fills : List Fill} (sound : turn.engine.Sound slots)
    (sweeping : Sweeping turn.engine c left fills) (incoming : Message) :
    ∃ final,
      fills.foldlM (executeFill c incoming) (turn, left) =
          .ok (final, left - filled fills) ∧
        Fills slots c incoming turn left fills final (left - filled fills) ∧
        final.engine.Sound slots ∧
        Sweeping final.engine c (left - filled fills) [] := by
  induction fills generalizing turn left with
  | nil => exact ⟨turn, rfl, .done, sound, sweeping⟩
  | cons fill rest inductionHypothesis =>
      obtain ⟨maker, fillOf, continues⟩ := sweeping.step sound
      obtain ⟨books, executed, reshelved⟩ :=
        executeFill_ok incoming sound fillOf
      obtain ⟨final, done, fills, finalSound, swept⟩ :=
        inductionHypothesis (afterFill_sound incoming sound fillOf
          reshelved) (continues incoming books reshelved)
      have same : left - fill.size - filled rest =
          left - filled (fill :: rest) := by
        rw [filled_cons, Nat.sub_sub]
      rw [same] at done fills swept
      refine ⟨final, ?_, .next fillOf reshelved fills, finalSound, swept⟩
      rw [List.foldlM_cons, executed]
      exact done

end Turn

end LimitOrderBook
