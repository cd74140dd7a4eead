import LimitOrderBook.EngineSweep

namespace LimitOrderBook

/-!
# What one call of `process` does

`Outcome` lists everything a call can do to a sound engine, with the guards
that hold in each case.  `process_outcome` says that a call never faults, that
it does one of these things, and that the engine is sound again afterwards.
The properties of the engine are read off from `Outcome`; no later proof
unfolds `process`.
-/

/-! ## The checks of a command -/

/-- What the checks of the command and the rules establish. -/
structure CommandOk (r : InstrumentRules) (c : Message) (oldId : OrderId) :
    Prop where
  side : c.side.Listed
  order : c.orderId ≠ 0
  orderType : c.orderType = .limit ∨ c.orderType = .market
  tif : c.tif = .gtc ∨ c.tif = .ioc ∨ c.tif = .fok
  market : c.orderType = .market →
    c.price = 0 ∧ c.tif ≠ .gtc ∧ c.postOnly = false
  passive : c.postOnly = true → c.tif = .gtc
  replace : oldId ≠ 0 → c.orderType = .limit ∧ c.tif = .gtc
  quantityPos : c.quantity ≠ 0
  lots : c.quantity % r.lotSize.toNat = 0
  price : c.orderType = .limit →
    r.minPrice.toNat ≤ c.price ∧ c.price ≤ r.maxPrice.toNat ∧
      c.price % r.tickSize.toNat = 0
  size : c.quantity ≤ r.maxOrderQuantity.toNat
  notional :
    (if c.orderType = .market then r.maxPrice.toNat else c.price) *
      c.quantity ≤ r.maxNotional.toNat

/-- A guard that gives a reason lets pass only what it does not catch. -/
theorem Reject.of_guard
    {caught : Prop} [Decidable caught] {reason rest : Reject}
    (named : reason ≠ .none)
    (passed : (if caught then reason else rest) = .none) :
    ¬ caught ∧ rest = .none := by
  by_cases isCaught : caught
  · rw [if_pos isCaught] at passed
    exact absurd passed named
  · rw [if_neg isCaught] at passed
    exact ⟨isCaught, passed⟩

theorem checkCommand_none
    {r : InstrumentRules} {c : Message} {oldId : OrderId}
    (passed : checkCommand r c oldId = .none) : CommandOk r c oldId := by
  unfold checkCommand at passed
  obtain ⟨wellFormed, passed⟩ := Reject.of_guard (by decide) passed
  obtain ⟨quantity, passed⟩ := Reject.of_guard (by decide) passed
  obtain ⟨price, passed⟩ := Reject.of_guard (by decide) passed
  obtain ⟨size, passed⟩ := Reject.of_guard (by decide) passed
  obtain ⟨notional, _⟩ := Reject.of_guard (by decide) passed
  unfold Malformed at wellFormed
  push Not at wellFormed quantity price
  obtain ⟨side, order, orderType, tif, market, passive, replace⟩ := wellFormed
  exact
    { side := side
      order := order
      orderType := orderType
      tif := tif
      market := fun isMarket => by
        obtain ⟨noPrice, notGtc, notPassive⟩ := market isMarket
        exact ⟨noPrice, notGtc, by simpa using notPassive⟩
      passive := passive
      replace := replace
      quantityPos := quantity.1
      lots := quantity.2
      price := price
      size := Nat.le_of_not_lt size
      notional := Nat.le_of_not_lt notional }

namespace MatchingEngine

/-- A command that passed every check before the plan. -/
structure Checked (engine : MatchingEngine) (c : Message)
    (old : Option Message) (r : InstrumentRules) : Prop where
  rules : engine.instruments.find? c.instrumentId = some r
  command : CommandOk r c (replacedId old)
  client : c.clientId ≠ 0
  risk : ∃ state, engine.clients.find? c.clientId = some state ∧
    engine.checkRisk r state c (replacedId old) = .none

end MatchingEngine

/-- The residual of a checked command is an order the rules allow. -/
theorem CommandOk.allows
    {r : InstrumentRules} {c : Message} {oldId : OrderId}
    (ok : CommandOk r c oldId) (engine : MatchingEngine) {leaves : Quantity}
    (restsHere : Turn.rests c leaves = true) (smaller : leaves ≤ c.quantity)
    (lots : leaves % r.lotSize.toNat = 0) :
    r.Allows (engine.residual c leaves) := by
  simp only [Turn.rests, decide_eq_true_eq] at restsHere
  obtain ⟨_, _, isLimit⟩ := restsHere
  obtain ⟨low, high, tick⟩ := ok.price isLimit
  have notional := ok.notional
  rw [isLimit] at notional
  exact
    { side := ok.side
      lowPrice := low
      highPrice := high
      tick := tick
      lot := lots
      size := Nat.le_trans smaller ok.size
      notional := Nat.le_trans (Nat.mul_le_mul_left c.price smaller)
        (by simpa using notional) }

/-- The smallest price of an accepted instrument is positive. -/
theorem minPrice_pos
    {r : InstrumentRules} {instrument : InstrumentId}
    (accepted : r.Accepted instrument) : 0 < r.minPrice.toNat := by
  simp only [InstrumentRules.Accepted, not_or] at accepted
  have nonzero := accepted.2.2.2.1
  rcases Nat.eq_zero_or_pos r.minPrice.toNat with zero | positive
  · exact absurd (UInt32.toNat_inj.mp (zero.trans rfl)) nonzero
  · exact positive

/-! ## Placing an order -/

theorem mem_sweep
    {leaves : Quantity} {orders : List OrderView} {fill : Fill}
    (member : fill ∈ sweep leaves orders) :
    ∃ order ∈ orders, order.orderId = fill.id := by
  induction orders generalizing leaves with
  | nil => cases member
  | cons order rest inductionHypothesis =>
      unfold sweep at member
      split at member
      · cases member
      · rcases List.mem_cons.mp member with isFirst | later
        · exact ⟨order, by simp, by rw [isFirst]⟩
        · obtain ⟨found, foundMember, sameId⟩ := inductionHypothesis later
          exact ⟨found, by simp [foundMember], sameId⟩

/-- A sweep of whole lots fills whole lots. -/
theorem sweep_lots
    {lot leaves : Nat} {orders : List OrderView} (lots : lot ∣ leaves)
    (orderLots : ∀ order ∈ orders, lot ∣ order.quantity) :
    lot ∣ filled (sweep leaves orders) := by
  induction orders generalizing leaves with
  | nil => exact Nat.dvd_zero lot
  | cons order rest inductionHypothesis =>
      unfold sweep
      split
      · exact Nat.dvd_zero lot
      · have first : lot ∣ min leaves order.quantity := by
          rcases Nat.le_total leaves order.quantity with less | more
          · rwa [Nat.min_eq_left less]
          · rw [Nat.min_eq_right more]
            exact orderLots order (by simp)
        rw [filled_cons]
        exact Nat.dvd_add first (inductionHypothesis (Nat.dvd_sub lots first)
          fun other member => orderLots other (by simp [member]))

/-- The orders across the spread that a command may trade with. -/
def MatchingEngine.facing (engine : MatchingEngine) (c : Message) :
    List OrderView :=
  marketable c (marketOf engine.books c.instrumentId c.side.opposite)

/-- What the plan of a checked command has to fulfil. -/
structure MatchingEngine.Admits (engine : MatchingEngine) (slots : Nat)
    (c : Message) : Prop where
  passive : c.postOnly = true → engine.facing c = []
  foreign : ∀ order, Reached c.quantity (engine.facing c) order →
    ∀ maker, engine.resting.find? order.orderId = some maker →
      maker.clientId ≠ c.clientId
  whole : c.tif = .fok → c.quantity ≤ offered (engine.facing c)
  room : Turn.rests c (c.quantity - offered (engine.facing c)) = true →
    (marketOf engine.books).count c.instrumentId < slots

/-- The action that leads to an entry. -/
def entryAction : Option Message → Action
  | some _ => .replace
  | none => .new

namespace Turn

variable {slots : Nat} {turn : Turn} {c : Message} {old : Option Message}
  {r : InstrumentRules} {book : OrderBook}

/-- An accepted command that is not a reduction, from its plan to its fills. -/
structure Placement (slots : Nat) (turn : Turn) (c : Message)
    (old : Option Message) (r : InstrumentRules) (fills : List Fill)
    (leaves : Quantity) (books : Books) (swept : Turn) : Prop where
  checked : turn.engine.Checked c old r
  enters : turn.engine.Enters c old
  moves : ∀ m, old = some m → ¬ (m.price = c.price ∧ c.quantity ≤ m.quantity)
  plan : fills = sweep c.quantity
    (marketable c (marketOf turn.engine.books c.instrumentId c.side.opposite))
  rest : leaves = c.quantity - filled fills
  passive : c.postOnly = true → fills = []
  whole : c.tif = .fok → leaves = 0
  shelves : Reshelved slots turn.engine.books books
    (turn.engine.ledger.exchange old (turn.restOf c leaves)).market
  executed : Fills slots c (turn.engine.incoming c)
    (turn.afterEntry c old (turn.restOf c leaves) books) c.quantity fills swept
    leaves
  cleared : Sweeping swept.engine c leaves []
  entrySound :
    (turn.afterEntry c old (turn.restOf c leaves) books).engine.Sound slots
  sound : swept.engine.Sound slots

/-- A command that was turned down. -/
inductive TurnedDown (turn : Turn) (c : Message) : Turn → Prop where
  | rejected {reason : Reject} :
      reason ≠ .none → TurnedDown turn c (turn.reject c reason)
  | full :
      TurnedDown turn c
        ((turn.openPosition c.clientId c.instrumentId).reject c .capacity)

/-- An exchange leaves the opposite side alone. -/
theorem exchange_opposite
    (sound : turn.engine.Sound slots) (enters : turn.engine.Enters c old)
    (side : c.side.Listed) (leaves : Quantity) :
    (turn.engine.ledger.exchange old (turn.restOf c leaves)).market
        c.instrumentId c.side.opposite =
      marketOf turn.engine.books c.instrumentId c.side.opposite := by
  have apart : c.side.opposite ≠ c.side := Side.opposite_ne side
  have removed :
      (turn.engine.ledger.exchange old none).market c.instrumentId
          c.side.opposite =
        marketOf turn.engine.books c.instrumentId c.side.opposite := by
    cases old with
    | none => rfl
    | some m =>
        simp only [Ledger.exchange, Ledger.remove, Market.remove,
          MatchingEngine.ledger_market, enters.instrument, if_true]
        refine List.filter_eq_self.mpr fun order member => ?_
        simp only [ne_eq, decide_not, Bool.not_eq_eq_eq_not, Bool.not_true,
          decide_eq_false_iff_not]
        intro sameId
        have shown := sound.linked.quantity_of_shown enters.found member sameId
        exact apart (shown.2.2.trans enters.side)
  unfold restOf
  split
  · have unchanged :
        (turn.engine.ledger.exchange old
            (some (turn.engine.residual c leaves))).market c.instrumentId
            c.side.opposite =
          (turn.engine.ledger.exchange old none).market c.instrumentId
            c.side.opposite := by
      have elsewhere : ¬ (c.instrumentId =
          (turn.engine.residual c leaves).instrumentId ∧
          c.side.opposite =
            (orderView (turn.engine.residual c leaves)).side) :=
        fun here => apart here.2
      simp only [Ledger.exchange, Ledger.add, Market.insert, if_neg elsewhere]
    rw [unchanged]
    exact removed
  · exact removed

/-- After the entry the plan is still the plan. -/
theorem sweeping_afterEntry
    {leaves : Quantity} {books : Books}
    (sound : turn.engine.Sound slots) (enters : turn.engine.Enters c old)
    (side : c.side.Listed)
    (lots : ∀ r, turn.engine.instruments.find? c.instrumentId = some r →
      c.quantity % r.lotSize.toNat = 0)
    (foreign : ∀ fill ∈ sweep c.quantity
      (marketable c (marketOf turn.engine.books c.instrumentId
        c.side.opposite)), ForeignMaker turn.engine c fill)
    (reshelved : Reshelved slots turn.engine.books books
      (turn.engine.ledger.exchange old (turn.restOf c leaves)).market) :
    Sweeping (turn.afterEntry c old (turn.restOf c leaves) books).engine c
      c.quantity
      (sweep c.quantity (marketable c
        (marketOf turn.engine.books c.instrumentId c.side.opposite))) := by
  have opposite := exchange_opposite sound enters side leaves
  rw [afterEntry_engine]
  refine
    { plan := ?_
      foreign := ?_
      lots := lots
      taker := by simp }
  · simp only [reshelved.shows, opposite]
  · intro fill member maker found
    obtain ⟨order, orderMember, sameId⟩ := mem_sweep member
    obtain ⟨stored, storedFound, _⟩ := (sound.linked.shown _ _ _).mp
      (List.takeWhile_subset _ orderMember)
    have used := (sound.linked.numbered _ stored storedFound).2.2
    rw [sameId] at storedFound used
    rcases Ledger.find?_exchange found with ⟨isRest, isNew⟩ | kept
    · have isNext : fill.id = turn.engine.nextOrder := by
        rw [isNew, (restOf_eq_some isRest).2]
        rfl
      exact absurd isNext (Nat.ne_of_lt used)
    · exact foreign fill member maker kept

theorem report_sound
    (sound : turn.engine.Sound slots) (m : Message) (type : ReportType)
    (reason : Reject) : (turn.report m type reason).engine.Sound slots :=
  sound.congr rfl rfl rfl rfl (.of_eq rfl rfl rfl)

theorem update_sound
    (sound : turn.engine.Sound slots) (m : Message) (type : UpdateType) :
    (turn.update m type).engine.Sound slots :=
  sound.congr rfl rfl rfl rfl (.of_eq rfl rfl rfl)

theorem reject_sound
    (sound : turn.engine.Sound slots) (c : Message) (reason : Reject) :
    (turn.reject c reason).engine.Sound slots :=
  sound.congr rfl rfl rfl rfl (.of_eq rfl rfl rfl)

theorem openPosition_sound
    (sound : turn.engine.Sound slots) (client : ClientId)
    (instrument : InstrumentId) :
    (turn.openPosition client instrument).engine.Sound slots := by
  refine sound.congr rfl rfl rfl rfl ⟨rfl, ?_, ?_⟩
  · exact fun _ state known => ⟨state, known, Nat.le_refl _⟩
  · intro key known
    simp only [openPosition, OrderedMap.find?_emplace]
    split
    · rfl
    · exact known

theorem publishResidual_sound
    (sound : turn.engine.Sound slots) (m : Message) (leaves : Quantity)
    (restsHere : Bool) :
    (turn.publishResidual m leaves restsHere).engine.Sound slots := by
  unfold publishResidual
  split
  · exact update_sound sound _ _
  · split
    · exact report_sound sound _ _ _
    · exact sound

/-- What the plan leaves of a checked command is a whole number of lots. -/
theorem leaves_lots
    (sound : turn.engine.Sound slots)
    (rules : turn.engine.instruments.find? c.instrumentId = some r)
    (lots : c.quantity % r.lotSize.toNat = 0) (side : Side) :
    (c.quantity - filled (sweep c.quantity (marketable c
      (marketOf turn.engine.books c.instrumentId side)))) %
        r.lotSize.toNat = 0 := by
  refine sub_lots lots (Nat.mod_eq_zero_of_dvd
    (sweep_lots (Nat.dvd_of_mod_eq_zero lots) fun order member => ?_))
  obtain ⟨stored, found, instrument, _, rfl⟩ := (sound.linked.shown _ _ _).mp
    (List.takeWhile_subset _ member)
  obtain ⟨r', rules', allows⟩ := (sound.backed _ stored found).allowed
  rw [instrument, rules] at rules'
  cases rules'
  exact Nat.dvd_of_mod_eq_zero allows.lot

/-- `place` after a plan that is not rejected. -/
theorem place_eq
    {oldId : OrderId} {plan : Plan}
    (visited : book.forEachOrder c.side.opposite (planVisitor turn.engine c)
      { leaves := c.quantity } = .ok plan)
    (accepted : plan.rejection = .none)
    (filledOrKept : ¬ (c.tif = .fok ∧ plan.leaves ≠ 0))
    {reserved : Turn} {result : ApplyResult}
    (reservedEq :
      (if rests c plan.leaves then
          (turn.openPosition c.clientId c.instrumentId).reserve c oldId
            (turn.engine.residual c plan.leaves) book
        else
          (turn.openPosition c.clientId c.instrumentId, .ok)) =
        (reserved, result)) :
    turn.place c oldId book =
      if result ≠ .ok then
        .ok (reserved.reject c .capacity)
      else do
        let entered ← reserved.enter c oldId (turn.engine.incoming c)
          (rests c plan.leaves)
        let (swept, _) ← plan.planned.foldlM
          (executeFill c (turn.engine.incoming c)) (entered, c.quantity)
        return swept.publishResidual (turn.engine.incoming c) plan.leaves
          (rests c plan.leaves) := by
  have unfolded : turn.place c oldId book =
      (let outcome :=
        if rests c plan.leaves then
          (turn.openPosition c.clientId c.instrumentId).reserve c oldId
            (turn.engine.residual c plan.leaves) book
        else
          (turn.openPosition c.clientId c.instrumentId, .ok)
      if outcome.2 ≠ .ok then
        .ok (outcome.1.reject c .capacity)
      else do
        let entered ← outcome.1.enter c oldId (turn.engine.incoming c)
          (rests c plan.leaves)
        let (swept, _) ← plan.planned.foldlM
          (executeFill c (turn.engine.incoming c)) (entered, c.quantity)
        return swept.publishResidual (turn.engine.incoming c) plan.leaves
          (rests c plan.leaves)) := by
    simp only [place, visited, accepted, filledOrKept, Bind.bind, Except.bind,
      pure, Except.pure, ne_eq, not_true_eq_false, if_false]
    rfl
  rw [unfolded, reservedEq]

/-- A plan that is let through is entered and carried out. -/
theorem place_admitted
    {plan : Plan} (sound : turn.engine.Sound slots)
    (bookFound : turn.engine.books.find? c.instrumentId = some book)
    (checked : turn.engine.Checked c old r)
    (enters : turn.engine.Enters c old)
    (moves : ∀ m, old = some m →
      ¬ (m.price = c.price ∧ c.quantity ≤ m.quantity))
    (visited : book.forEachOrder c.side.opposite (planVisitor turn.engine c)
      { leaves := c.quantity } = .ok plan)
    (planned : Planned turn.engine c c.quantity
      (marketOf turn.engine.books c.instrumentId c.side.opposite) [] plan)
    (kept : ¬ (c.tif = .fok ∧ plan.leaves ≠ 0))
    (room : rests c plan.leaves = true →
      (marketOf turn.engine.books).count c.instrumentId < slots) :
    ∃ books swept,
      turn.place c (replacedId old) book =
          .ok (swept.publishResidual (turn.engine.incoming c) plan.leaves
            (rests c plan.leaves)) ∧
        Placement slots turn c old r plan.planned plan.leaves books swept := by
  have command := checked.command
  have fills : plan.planned = sweep c.quantity (turn.engine.facing c) :=
    planned.fills.trans (List.nil_append _)
  have rest : plan.leaves = c.quantity - filled plan.planned := by
    rw [fills]
    exact planned.rest
  have price : rests c plan.leaves = true → c.price ≠ 0 := by
    intro restsHere
    simp only [rests, decide_eq_true_eq] at restsHere
    have low := (command.price restsHere.2.2).1
    have positive := minPrice_pos (sound.rules _ r checked.rules)
    lia
  obtain ⟨reserved, books, reservedEq, entered, reshelved⟩ :=
    entry_ok sound bookFound enters command.side price room
  have allows : rests c plan.leaves = true →
      r.Allows (turn.engine.residual c plan.leaves) := by
    intro restsHere
    refine command.allows turn.engine restsHere ?_ ?_
    · rw [rest]
      exact Nat.sub_le _ _
    · rw [rest, fills]
      exact leaves_lots sound checked.rules command.lots _
  obtain ⟨state, known, _⟩ := checked.risk
  have entrySound := afterEntry_sound sound enters
    ⟨checked.rules, by simp [known], ⟨checked.client, command.order⟩,
      allows⟩ reshelved
  have sweeping := sweeping_afterEntry sound enters command.side
    (fun r' rules => by
      have same := checked.rules.symm.trans rules
      cases same
      exact command.lots)
    planned.foreign reshelved
  have sameFills : sweep c.quantity (marketable c (marketOf
      turn.engine.books c.instrumentId c.side.opposite)) = plan.planned :=
    fills.symm
  rw [sameFills] at sweeping
  obtain ⟨swept, executed, fillRun, sweptSound, cleared⟩ :=
    fills_ok entrySound sweeping (turn.engine.incoming c)
  rw [← rest] at executed fillRun cleared
  refine ⟨books, swept, ?_,
    { checked := checked
      enters := enters
      moves := moves
      plan := fills
      rest := rest
      passive := fun isPassive => fills.trans (planned.passive isPassive)
      whole := fun isFok => by
        by_contra some_left
        exact kept ⟨isFok, some_left⟩
      shelves := reshelved
      executed := fillRun
      cleared := cleared
      entrySound := entrySound
      sound := sweptSound }⟩
  rw [place_eq visited planned.accepted kept reservedEq]
  simp [entered, executed, Bind.bind, Except.bind, pure, Except.pure]

/-- The visitor finds out what is asked of the plan. -/
theorem plan_decided
    (sound : turn.engine.Sound slots)
    (bookFound : turn.engine.books.find? c.instrumentId = some book)
    (someQuantity : c.quantity ≠ 0) :
    ∃ plan,
      book.forEachOrder c.side.opposite (planVisitor turn.engine c)
          { leaves := c.quantity } = .ok plan ∧
        ((plan.rejection ≠ .none ∧ ¬ turn.engine.Admits slots c) ∨
          (Planned turn.engine c c.quantity (marketOf turn.engine.books
            c.instrumentId c.side.opposite) [] plan ∧
            plan.leaves = c.quantity - offered (turn.engine.facing c))) := by
  have stored : ∀ order ∈ marketOf turn.engine.books c.instrumentId
      c.side.opposite, ∃ m,
        turn.engine.resting.find? order.orderId = some m := by
    intro order member
    obtain ⟨m, found, _⟩ := (sound.linked.shown _ _ _).mp member
    exact ⟨m, found⟩
  have planClean : ({ leaves := c.quantity } : Plan).rejection = .none := rfl
  obtain ⟨plan, planned, outcome⟩ :=
    visitWhile_plan turn.engine c stored planClean
  refine ⟨plan, ?_, ?_⟩
  · rw [OrderBook.forEachOrder, ← marketOf_of_find? bookFound]
    exact planned
  · rcases outcome with ⟨postOnly, isPassive, someFills⟩ |
      ⟨selfTrade, fill, member, own⟩ | accepted
    · refine Or.inl ⟨by rw [postOnly]; decide, fun admits => someFills ?_⟩
      exact (sweep_eq_nil someQuantity).mpr (admits.passive isPassive)
    · refine Or.inl ⟨by rw [selfTrade]; decide, fun admits => own ?_⟩
      intro maker found client
      obtain ⟨order, reached, maker', found', client'⟩ :=
        (exists_sweep_iff fun id => ∃ maker,
          turn.engine.resting.find? id = some maker ∧
            maker.clientId = c.clientId).mp
          ⟨fill, member, maker, found, client⟩
      exact admits.foreign order reached maker' found' client'
    · refine Or.inr ⟨accepted, ?_⟩
      rw [accepted.rest, filled_sweep]
      unfold MatchingEngine.facing
      lia

/-- `place` carries out exactly the commands that it admits. -/
theorem place_decided
    (sound : turn.engine.Sound slots)
    (bookFound : turn.engine.books.find? c.instrumentId = some book)
    (checked : turn.engine.Checked c old r)
    (enters : turn.engine.Enters c old)
    (moves : ∀ m, old = some m →
      ¬ (m.price = c.price ∧ c.quantity ≤ m.quantity)) :
    ∃ final,
      turn.place c (replacedId old) book = .ok final ∧
        ((TurnedDown turn c final ∧ ¬ turn.engine.Admits slots c) ∨
          (turn.engine.Admits slots c ∧ ∃ fills leaves books swept,
            leaves = c.quantity - offered (turn.engine.facing c) ∧
            Placement slots turn c old r fills leaves books swept ∧
              final = swept.publishResidual (turn.engine.incoming c) leaves
                (rests c leaves))) := by
  have command := checked.command
  obtain ⟨plan, visited, outcome⟩ :=
    plan_decided sound bookFound command.quantityPos
  rcases outcome with ⟨rejection, refused⟩ | ⟨planned, leaves⟩
  · refine ⟨_, ?_, Or.inl ⟨.rejected rejection, refused⟩⟩
    simp [place, visited, rejection, Bind.bind, Except.bind, pure,
      Except.pure]
  · by_cases killed : c.tif = .fok ∧ plan.leaves ≠ 0
    · have nonzero : Reject.fok ≠ .none := by decide
      refine ⟨_, ?_, Or.inl ⟨.rejected nonzero, fun admits => ?_⟩⟩
      · simp [place, visited, planned.accepted, killed, Bind.bind, Except.bind,
          pure, Except.pure]
      · have whole := admits.whole killed.1
        exact killed.2 (by lia)
    · by_cases full : rests c plan.leaves = true ∧
          (marketOf turn.engine.books).count c.instrumentId = slots
      · have restsHere := full.1
        simp only [rests, decide_eq_true_eq] at restsHere
        have low := (command.price restsHere.2.2).1
        have positive := minPrice_pos (sound.rules _ r checked.rules)
        have price : c.price ≠ 0 := by lia
        have refused := reserve_full sound bookFound enters command.side
          restsHere.1 price full.2
        refine ⟨_, ?_, Or.inl ⟨.full, fun admits => ?_⟩⟩
        · rw [place_eq visited planned.accepted killed
            ((if_pos full.1).trans refused)]
          rfl
        · have room := admits.room (leaves ▸ full.1)
          exact Nat.ne_of_lt room full.2
      · have room : rests c plan.leaves = true →
            (marketOf turn.engine.books).count c.instrumentId < slots := by
          intro restsHere
          have bounded := sound.booksWf.count_le c.instrumentId
          exact Nat.lt_of_le_of_ne bounded fun same => full ⟨restsHere, same⟩
        obtain ⟨books, swept, placed, placement⟩ := place_admitted sound
          bookFound checked enters moves visited planned killed room
        refine ⟨_, placed, Or.inr ⟨?_, _, _, books, swept, leaves, placement,
          rfl⟩⟩
        exact
          { passive := fun isPassive =>
              (sweep_eq_nil command.quantityPos).mp (planned.passive isPassive)
            foreign := fun order reached maker found client => by
              obtain ⟨fill, member, maker', found', client'⟩ :=
                (exists_sweep_iff fun id => ∃ maker,
                  turn.engine.resting.find? id = some maker ∧
                    maker.clientId = c.clientId).mpr
                  ⟨order, reached, maker, found, client⟩
              exact planned.foreign fill member maker' found' client'
            whole := fun isFok => by
              by_contra notWhole
              exact killed ⟨isFok, by lia⟩
            room := fun restsHere => room (leaves ▸ restsHere) }

end Turn

end LimitOrderBook
