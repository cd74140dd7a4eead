import LimitOrderBook.EngineMakers
import LimitOrderBook.EngineProtocol

namespace LimitOrderBook

/-!
# What an order type guarantees

The guarantees about fills are stated for the reports of a call, so that they
also cover the answer to a retry, which repeats the client's own reports.  Only
what rests after a command is a fact about the moment it is carried out.
-/

/-- The fills among some reports that went to a client. -/
def fillsOf (client : ClientId) (reports : List Message) : List Message :=
  reports.filter fun m => decide (m.report = .fill ∧ m.clientId = client)

/-- The quantity that some reports say was filled for a client. -/
def filledFor (client : ClientId) (reports : List Message) : Quantity :=
  ((fillsOf client reports).map Message.quantity).sum

/-- A price that is at least as good for the sender as its own. -/
def AtLeastAsGood (c : Message) (price : Price) : Prop :=
  if c.side = .bid then price ≤ c.price else c.price ≤ price

/-- Orders of which nothing may rest. -/
def NeverRests (c : Message) : Prop :=
  c.tif = .ioc ∨ c.tif = .fok ∨ c.orderType = .market

/-- What the fills among the reports of an accepted command guarantee. -/
structure FillGuarantees (c : Message) (reports : List Message) : Prop where
  whole : c.tif = .fok → filledFor c.clientId reports = c.quantity
  passive : c.postOnly = true → ∀ m ∈ reports, m.report ≠ .fill
  price : c.orderType = .limit → ∀ m ∈ reports, m.report = .fill →
    AtLeastAsGood c m.price
  parties : ∀ first ∈ reports, ∀ second ∈ reports,
    first.report = .fill → second.report = .fill →
      first.tradeId = second.tradeId → first.side ≠ second.side →
        first.clientId ≠ second.clientId

/-- A limit order that stays good and is not filled completely. -/
structure LeavesQuantity (c : Message) (reports : List Message) : Prop where
  tif : c.tif = .gtc
  limit : c.orderType = .limit
  less : filledFor c.clientId reports < c.quantity

/-- Exactly what is left of a command rests, and nothing can trade with it. -/
structure ResidualRests (c : Message) (turn : Turn) : Prop where
  rests : ∃ m, turn.engine.liveOrder c.clientId c.orderId = some m ∧
    filledFor c.clientId turn.batch.reports + m.quantity = c.quantity ∧
      m.price = c.price ∧ m.side = c.side ∧
        m.instrumentId = c.instrumentId ∧
          orderView m ∈ marketOf turn.engine.books c.instrumentId c.side
  cleared : ∀ order ∈ marketOf turn.engine.books c.instrumentId
    c.side.opposite, crosses c order.price = false

theorem fillsOf_own (client : ClientId) (reports : List Message) :
    fillsOf client (reports.filter fun m => decide (m.clientId = client)) =
      fillsOf client reports := by
  rw [fillsOf, fillsOf, List.filter_filter]
  refine List.filter_congr fun m _ => ?_
  simp only [Bool.decide_and]
  cases decide (m.clientId = client) <;> simp

/-- A client's own reports guarantee the same. -/
theorem FillGuarantees.own
    {c : Message} {reports : List Message}
    (guarantees : FillGuarantees c reports) :
    FillGuarantees c
      (reports.filter fun m => decide (m.clientId = c.clientId)) where
  whole isFok := by
    rw [filledFor, fillsOf_own]
    exact guarantees.whole isFok
  passive isPassive m member :=
    guarantees.passive isPassive m (List.mem_of_mem_filter member)
  price isLimit m member :=
    guarantees.price isLimit m (List.mem_of_mem_filter member)
  parties first firstMember second secondMember :=
    guarantees.parties first (List.mem_of_mem_filter firstMember) second
      (List.mem_of_mem_filter secondMember)

/-- A limit order trades at its price or a better one. -/
theorem atLeastAsGood_of_crosses
    {c : Message} {price : Price} (isLimit : c.orderType = .limit)
    (crossing : crosses c price = true) : AtLeastAsGood c price := by
  unfold AtLeastAsGood
  simp only [crosses, isLimit, reduceCtorEq, decide_false, Bool.false_or]
    at crossing
  split at crossing
  · rename_i isBid
    rw [if_pos isBid]
    simpa using crossing
  · rename_i isAsk
    rw [if_neg isAsk]
    simpa using crossing

section Executed

variable {engine : MatchingEngine} {c : Message} {turn : Turn}
  {opening complete : Message} {prints : List TradePrint}
  {expiry : Option Message} {leaves : Quantity}

/-- The sender's fills are the takers' reports. -/
theorem Executed.fillsOf
    (answer : Executed engine c turn opening prints expiry complete) :
    LimitOrderBook.fillsOf c.clientId turn.batch.reports =
      prints.map TradePrint.taker := by
  have split : LimitOrderBook.fillsOf c.clientId turn.batch.reports =
      (turn.batch.reports.filter fun m => decide (m.report = .fill)).filter
        fun m => decide (m.clientId = c.clientId) := by
    rw [LimitOrderBook.fillsOf, List.filter_filter]
    refine List.filter_congr fun m _ => ?_
    rw [Bool.and_comm, Bool.decide_and]
  rw [split, answer.fills, List.filter_flatMap, List.map_eq_flatMap]
  refine List.flatMap_congr fun print member => ?_
  have agrees := answer.agrees print member
  obtain ⟨maker, hits⟩ := agrees.maker
  have foreign : print.maker.clientId ≠ c.clientId := by
    rw [hits.client]
    exact hits.foreign
  simp [TradePrint.reports, foreign, agrees.takerClient]

theorem Executed.filledFor
    (answer : Executed engine c turn opening prints expiry complete) :
    LimitOrderBook.filledFor c.clientId turn.batch.reports =
      traded prints := by
  rw [LimitOrderBook.filledFor, answer.fillsOf, List.map_map]
  rfl

/-- Every fill is a maker's, on the other side, or the sender's. -/
theorem Executed.mem_fill
    (answer : Executed engine c turn opening prints expiry complete)
    {m : Message} (member : m ∈ turn.batch.reports)
    (isFill : m.report = .fill) :
    ∃ print ∈ prints, m.price = print.price ∧
      (m.side = c.side.opposite ∧ m.clientId ≠ c.clientId ∨
        m.side = c.side ∧ m.clientId = c.clientId) := by
  have inPrints : m ∈ prints.flatMap TradePrint.reports := by
    rw [← answer.fills]
    exact List.mem_filter.mpr ⟨member, by simpa using isFill⟩
  obtain ⟨print, printMember, isReport⟩ := List.mem_flatMap.mp inPrints
  have agrees := answer.agrees print printMember
  refine ⟨print, printMember,
    (agrees.shared m (List.mem_append_left _ isReport)).2.2.1, ?_⟩
  simp only [TradePrint.reports, List.mem_cons, List.not_mem_nil, or_false]
    at isReport
  rcases isReport with rfl | rfl
  · obtain ⟨maker, hits⟩ := agrees.maker
    refine Or.inl ⟨agrees.makerSide, ?_⟩
    rw [hits.client]
    exact hits.foreign
  · exact Or.inr ⟨agrees.takerSide, agrees.takerClient⟩

theorem Carried.guarantees
    (carried : Carried engine c turn prints leaves)
    (answer : Executed engine c turn opening prints expiry complete) :
    FillGuarantees c turn.batch.reports where
  whole isFok := by
    have rest := carried.rest
    rw [answer.filledFor, ← rest, carried.whole isFok, Nat.add_zero]
  passive isPassive m member isFill := by
    obtain ⟨print, printMember, _⟩ := answer.mem_fill member isFill
    rw [carried.passive isPassive] at printMember
    cases printMember
  price isLimit m member isFill := by
    obtain ⟨print, printMember, samePrice, _⟩ := answer.mem_fill member isFill
    rw [samePrice]
    exact atLeastAsGood_of_crosses isLimit
      (answer.agrees print printMember).marketable
  parties first firstMember second secondMember firstFill secondFill _
      otherSide := by
    obtain ⟨_, _, _, isFirst⟩ := answer.mem_fill firstMember firstFill
    obtain ⟨_, _, _, isSecond⟩ := answer.mem_fill secondMember secondFill
    rcases isFirst with ⟨firstSide, firstClient⟩ | ⟨firstSide, firstClient⟩
    · rcases isSecond with ⟨secondSide, _⟩ | ⟨_, secondClient⟩
      · exact absurd (firstSide.trans secondSide.symm) otherSide
      · rw [secondClient]
        exact firstClient
    · rcases isSecond with ⟨_, secondClient⟩ | ⟨secondSide, _⟩
      · rw [firstClient]
        exact Ne.symm secondClient
      · exact absurd (firstSide.trans secondSide.symm) otherSide

/-- Nothing is live of an order that never rests. -/
theorem Carried.never_rests
    (carried : Carried engine c turn prints leaves) (never : NeverRests c) :
    turn.engine.liveOrder c.clientId c.orderId = none := by
  have live := carried.live
  have notResting : Turn.rests c leaves = false := by
    rcases never with isIoc | isFok | isMarket
    · simp [Turn.rests, isIoc]
    · simp [Turn.rests, isFok]
    · simp [Turn.rests, isMarket]
  rw [notResting, MatchingEngine.blotter_eq_liveOrder] at live
  simpa using live

/-- What is left of a command rests and crosses nothing. -/
theorem Carried.residual
    {slots : Nat} (carried : Carried engine c turn prints leaves)
    (answer : Executed engine c turn opening prints expiry complete)
    (invariant : turn.engine.Invariant slots)
    (leavesSome : LeavesQuantity c turn.batch.reports) :
    ResidualRests c turn := by
  have rest := carried.rest
  have less := leavesSome.less
  rw [answer.filledFor] at less
  have restsHere : Turn.rests c leaves = true := by
    have someLeft : leaves ≠ 0 := by lia
    simp [Turn.rests, leavesSome.tif, leavesSome.limit, someLeft]
  have live := carried.live
  rw [if_pos restsHere] at live
  obtain ⟨m, isLive, terms⟩ := Option.map_eq_some_iff.mp live
  obtain ⟨id, indexed, found⟩ := Option.bind_eq_some_iff.mp isLive
  obtain ⟨instrument, side, price, quantity⟩ : m.instrumentId =
      c.instrumentId ∧ m.side = c.side ∧ m.price = c.price ∧
        m.quantity = leaves := by
    simpa [Message.terms] using terms
  have shown : orderView m ∈
      marketOf turn.engine.books c.instrumentId c.side := by
    have sound := invariant.sound
    refine (sound.linked.shown _ _ _).mpr ⟨m, ?_, instrument, side, rfl⟩
    have sameId := sound.exchangeId_eq found
    rw [show (orderView m).orderId = id from sameId]
    exact found
  refine ⟨⟨m, isLive, ?_, price, side, instrument, shown⟩, ?_⟩
  · rw [answer.filledFor, quantity]
    exact rest
  · intro order member
    obtain ⟨r, oldId, _, command⟩ := carried.checked
    have uncrossed := invariant.uncrossed c.instrumentId
    rcases command.side with isBid | isAsk
    · rw [isBid] at shown member
      have apart := uncrossed _ shown order member
      have ahead : c.price < order.price := by
        rw [← price]
        exact apart
      simpa [crosses, leavesSome.limit, isBid] using ahead
    · rw [isAsk] at shown member
      have apart := uncrossed order member _ shown
      have ahead : order.price < c.price := by
        rw [← price]
        exact apart
      simpa [crosses, leavesSome.limit, isAsk] using ahead

end Executed

namespace MatchingEngine

variable {slots : Nat} {engine : MatchingEngine} {c : Message} {turn : Turn}
  {pool : PoolBytes}

/-- An order or a replacement that is not rejected is executed or a retry. -/
theorem Outcome.sequenced_or_retries
    (outcome : Outcome slots engine c turn)
    (action : c.action = .new ∨ c.action = .replace)
    (unrejected : ∀ m ∈ turn.batch.reports, m.report ≠ .rejected) :
    engine.WellSequenced c ∨ engine.Retries c := by
  have rejects : ∀ {m : Message}, m ∈ turn.batch.reports →
      m.report = .rejected → engine.WellSequenced c ∨ engine.Retries c :=
    fun member isRejection => absurd isRejection (unrejected _ member)
  cases outcome with
  | refused _ => exact rejects List.mem_cons_self rfl
  | status _ isStatus => simp [isStatus] at action
  | anonymous _ _ => exact rejects List.mem_cons_self rfl
  | retried retries => exact Or.inr retries
  | unsequenced _ _ _ _ _ => exact rejects List.mem_cons_self rfl
  | handled sequenced _ => exact Or.inl sequenced

/-- Only the sender of a command hears that it was rejected. -/
theorem Outcome.unrejected_of_own
    (outcome : Outcome slots engine c turn) (sound : engine.Sound slots)
    (sequenced : engine.WellSequenced c)
    (unrejected : ∀ m ∈ turn.batch.addressedTo c.clientId,
      m.report ≠ .rejected) :
    ∀ m ∈ turn.batch.reports, m.report ≠ .rejected := by
  intro m member
  by_cases own : m.clientId = c.clientId
  · exact unrejected m (List.mem_filter.mpr ⟨member, by simpa using own⟩)
  · rw [(outcome.fulfils sound own sequenced.notRetry).fill member rfl]
    decide

/-- What stays true of an answer until the client's next command. -/
def Guaranteed (engine : MatchingEngine) (c : Message)
    (reports : List Message) : Prop :=
  c.action = .new ∨ c.action = .replace →
    (∀ m ∈ reports, m.report ≠ .rejected) →
      FillGuarantees c reports ∧
        (NeverRests c → engine.liveOrder c.clientId c.orderId = none)

theorem liveOrder_eq_none {client : ClientId} {orderId : OrderId} :
    engine.liveOrder client orderId = none ↔
      engine.ledger.blotter client orderId = none := by
  rw [blotter_eq_liveOrder]
  exact Option.map_eq_none_iff.symm

/-- A call of somebody else, or one out of sequence, gives a client no order. -/
theorem process_keeps_none
    (reachable : Reachable pool engine) {other : Message}
    (processed : engine.process other = .ok turn) {client : ClientId}
    (notNext : ¬ (other.clientId = client ∧ engine.WellSequenced other))
    {orderId : OrderId} (none : engine.liveOrder client orderId = none) :
    turn.engine.liveOrder client orderId = Option.none := by
  obtain ⟨outcome, _⟩ := reachable.outcome_of processed
  rw [liveOrder_eq_none] at none ⊢
  by_cases own : client = other.clientId
  · rcases outcome.quiet_or_handled with quiet | ⟨sequenced, _⟩
    · rw [Ledger.blotter]
      simp only [ledger, quiet.stores.byClient, quiet.stores.resting]
      exact none
    · exact absurd ⟨own.symm, sequenced⟩ notNext
  · exact outcome.keeps_none reachable.invariant.sound own none

theorem Reachable.guaranteed
    (reachable : Reachable pool engine) (client : ClientId)
    (asked : (engine.clientState client).lastRequest ≠ 0) :
    (engine.clientState client).lastCommand.clientId = client ∧
      engine.Guaranteed (engine.clientState client).lastCommand
        (engine.clientState client).cached := by
  refine reachable.memory Guaranteed ?_ ?_ client asked
  · intro engine c turn reachable sequenced processed action unrejected
    have sound := reachable.invariant.sound
    obtain ⟨outcome, _⟩ := reachable.outcome_of processed
    obtain ⟨_, _, _, _, _, answer, carried⟩ := process_executed sound sequenced
      processed action (outcome.unrejected_of_own sound sequenced unrejected)
    exact ⟨(carried.guarantees answer).own, carried.never_rests⟩
  · intro engine other turn c reports reachable processed notNext held action
      unrejected
    obtain ⟨guarantees, none⟩ := held action unrejected
    exact ⟨guarantees, fun never =>
      process_keeps_none reachable processed notNext (none never)⟩

/--
Every order or replacement that is not rejected keeps what its type promises
about fills and about never resting, also when it is a retry.  When it is
carried out now, what a good-till-cancelled limit order leaves rests exactly and
crosses nothing.
-/
theorem order_guarantees
    (reachable : Reachable pool engine)
    (action : c.action = .new ∨ c.action = .replace)
    (processed : engine.process c = .ok turn)
    (unrejected : ∀ m ∈ turn.batch.reports, m.report ≠ .rejected) :
    FillGuarantees c turn.batch.reports ∧
      (NeverRests c → turn.engine.liveOrder c.clientId c.orderId = none) ∧
      (¬ engine.Retries c → LeavesQuantity c turn.batch.reports →
        ResidualRests c turn) := by
  have sound := reachable.invariant.sound
  obtain ⟨outcome, after⟩ := reachable.outcome_of processed
  rcases outcome.sequenced_or_retries action unrejected with
    sequenced | retries
  · obtain ⟨_, _, _, _, _, answer, carried⟩ :=
      process_executed sound sequenced processed action unrejected
    exact ⟨carried.guarantees answer, carried.never_rests,
      fun _ => carried.residual answer after.invariant⟩
  · obtain ⟨guarantees, none⟩ :=
      Reachable.retried retries reachable.guaranteed action (by
        rw [outcome.of_retries retries] at unrejected
        exact unrejected)
    rw [outcome.of_retries retries]
    exact ⟨guarantees, none, fun notRetry => absurd retries notRetry⟩

/-- A buyer takes an offer and leaves the rest of its limit order. -/
theorem order_guarantees_partial_fill :
    ∃ turn,
      (single.after
          [{ clientId := 7, requestId := 1, orderId := 1, side := .ask
             instrumentId := 1, price := 10, quantity := 3 }]).process
            { clientId := 8, requestId := 1, orderId := 1
              instrumentId := 1, price := 11, quantity := 5 } = .ok turn ∧
        ResidualRests
          { clientId := 8, requestId := 1, orderId := 1
            instrumentId := 1, price := 11, quantity := 5 } turn := by
  let offer : Message :=
    { clientId := 7, requestId := 1, orderId := 1, side := .ask
      instrumentId := 1, price := 10, quantity := 3 }
  let bid : Message :=
    { clientId := 8, requestId := 1, orderId := 1
      instrumentId := 1, price := 11, quantity := 5 }
  have reachable := single_reachable.after [offer]
  have evaluated : (((single.after [offer]).process bid).map fun turn =>
      (turn.batch.reports.all fun m => decide (m.report ≠ .rejected),
        filledFor 8 turn.batch.reports)).toOption = some (true, 3) := by
    decide +kernel
  obtain ⟨turn, processed, _⟩ := reachable.outcome bid
  rw [processed] at evaluated
  simp only [Except.map, Except.toOption, Option.some.injEq, Prod.mk.injEq,
    List.all_eq_true, decide_eq_true_eq] at evaluated
  obtain ⟨clean, filled⟩ := evaluated
  obtain ⟨_, _, residual⟩ :=
    order_guarantees reachable (Or.inl rfl) processed clean
  have first : ¬ (single.after [offer]).Retries bid := by
    intro retries
    have sameRequest := retries.sameRequest
    revert sameRequest
    decide +kernel
  refine ⟨turn, processed, residual first ⟨rfl, rfl, ?_⟩⟩
  change filledFor 8 turn.batch.reports < 5
  rw [filled]
  decide

/-- A resting order is filled by somebody else before it is sent again. -/
theorem retried_order_rests_no_more :
    ∃ turn,
      Reachable .capacity (single.after
          [{ clientId := 7, requestId := 1, orderId := 1
             instrumentId := 1, price := 10, quantity := 5 },
            { clientId := 8, requestId := 1, orderId := 1, side := .ask
              instrumentId := 1, price := 10, quantity := 5 }]) ∧
        (single.after
          [{ clientId := 7, requestId := 1, orderId := 1
             instrumentId := 1, price := 10, quantity := 5 },
            { clientId := 8, requestId := 1, orderId := 1, side := .ask
              instrumentId := 1, price := 10, quantity := 5 }]).process
            { clientId := 7, requestId := 1, orderId := 1
              instrumentId := 1, price := 10, quantity := 5 } = .ok turn ∧
        (∀ m ∈ turn.batch.reports, m.report ≠ .rejected) ∧
        LeavesQuantity
          { clientId := 7, requestId := 1, orderId := 1
            instrumentId := 1, price := 10, quantity := 5 }
          turn.batch.reports ∧
        ¬ ResidualRests
          { clientId := 7, requestId := 1, orderId := 1
            instrumentId := 1, price := 10, quantity := 5 } turn := by
  let bid : Message :=
    { clientId := 7, requestId := 1, orderId := 1
      instrumentId := 1, price := 10, quantity := 5 }
  let hit : Message :=
    { clientId := 8, requestId := 1, orderId := 1, side := .ask
      instrumentId := 1, price := 10, quantity := 5 }
  have reachable := single_reachable.after [bid, hit]
  have evaluated : (((single.after [bid, hit]).process bid).map fun turn =>
      (turn.batch.reports.all fun m => decide (m.report ≠ .rejected),
        filledFor 7 turn.batch.reports,
        (turn.engine.liveOrder 7 1).isSome)).toOption =
      some (true, 0, false) := by
    decide +kernel
  obtain ⟨turn, processed, _⟩ := reachable.outcome bid
  rw [processed] at evaluated
  simp only [Except.map, Except.toOption, Option.some.injEq, Prod.mk.injEq,
    List.all_eq_true, decide_eq_true_eq] at evaluated
  obtain ⟨clean, filled, gone⟩ := evaluated
  refine ⟨turn, reachable, processed, clean, ⟨rfl, rfl, ?_⟩, ?_⟩
  · change filledFor 7 turn.batch.reports < 5
    rw [filled]
    decide
  · rintro ⟨⟨m, isLive, _⟩, _⟩
    change turn.engine.liveOrder 7 1 = some m at isLive
    simp [isLive] at gone

end MatchingEngine

end LimitOrderBook
