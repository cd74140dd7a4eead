import LimitOrderBook.TraderSessions

namespace LimitOrderBook

/-!
# The inventory of the taker and of the random strategy

Both only send orders that do not rest, and wait for each.  So nobody else can
move their position, they know it exactly when they decide, and it stays within
the inventory limit at the exchange, in every state of every run.
-/

namespace TradingSession

open TradingClient MatchingEngine

variable {pool : PoolBytes} {session next : TradingSession}

abbrev held (session : TradingSession) (instrument : InstrumentId) : Int :=
  (session.engine.position session.owner instrument).quantity

/-- A request that enters no order which could rest. -/
def Fleeting (c : Message) : Prop :=
  c.action = .cancelAll ∨ c.action = .new ∧ c.tif = .ioc

/-- Nothing is queued, or the answer to a request up to its completion. -/
def Exact (reports : List Message) : Prop :=
  reports = [] ∨ ∃ front last, reports = front ++ [last] ∧
    last.report = .complete

theorem Exact.tail
    {m : Message} {rest : List Message} (exact : Exact (m :: rest)) :
    Exact rest := by
  rcases exact with nothing | ⟨front, last, parts, complete⟩
  · cases nothing
  · cases front with
    | nil =>
        cases parts
        exact Or.inl rfl
    | cons first front =>
        cases parts
        exact Or.inr ⟨front, last, rfl, complete⟩

/-- A client without orders that may rest. -/
structure Flat (session : TradingSession) : Prop where
  orders : session.engine.openOrders session.owner = 0
  requests : ∀ c ∈ session.requests, Fleeting c
  exact : Exact session.reports

/-- What a step moves of a client without orders. -/
def Moves (session next : TradingSession) : Prop :=
  (∀ instrument, next.held instrument = session.held instrument) ∨
    ∃ c, session.requests = c :: next.requests ∧ c.action = .new ∧
      ∀ instrument side, Side.Listed side →
        side.sign * next.held instrument ≤ side.sign * session.held instrument +
          c.adds c.quantity session.owner instrument side

theorem eq_of_sides {before after : Int}
    (bounded : ∀ side, Side.Listed side →
      side.sign * after ≤ side.sign * before) : after = before := by
  have bid := bounded .bid (Or.inl rfl)
  have ask := bounded .ask (Or.inr rfl)
  rw [Side.sign_bid, Int.one_mul, Int.one_mul] at bid
  rw [Side.sign_ask, Int.neg_one_mul, Int.neg_one_mul] at ask
  omega

/-- Serving a fleeting request leaves no order behind. -/
theorem Flat.serve
    (flat : session.Flat) (orderly : session.Orderly pool) {c : Message}
    {rest : List Message} {turn : Turn} (queued : session.requests = c :: rest)
    (processed : session.engine.process c = .ok turn) :
    turn.engine.openOrders session.owner = 0 ∧
      Exact (session.reports ++ turn.batch.addressedTo session.owner) ∧
      ∀ instrument side, Side.Listed side →
        side.sign * (turn.engine.position session.owner instrument).quantity ≤
          side.sign * session.held instrument +
            if c.action = .new ∨ c.action = .replace then
              c.adds c.quantity session.owner instrument side
            else
              0 := by
  obtain ⟨sequenced, own⟩ := orderly.wellSequenced queued
  have reachable := orderly.followed.reachable
  have sound := reachable.invariant.sound
  obtain ⟨outcome, _⟩ := reachable.outcome_of processed
  have fleeting := flat.requests c (by simp [queued])
  have after : turn.engine.openOrders session.owner = 0 := by
    refine outcome.openOrders_eq_zero sound flat.orders fun _ => ?_
    rcases fleeting with action | ⟨action, tif⟩
    · simp [action]
    · simp [action, tif]
  refine ⟨after, ?_, fun instrument side listed =>
    outcome.position_le sound flat.orders after instrument listed⟩
  obtain ⟨front, last, answer, complete, _⟩ :=
    reachable.endsComplete processed sequenced
  rw [own] at answer
  exact Or.inr ⟨session.reports ++ front, last, by simp [answer], complete⟩

/-- Others can do nothing to a client without orders. -/
theorem Flat.other
    (flat : session.Flat) (orderly : session.Orderly pool) {c : Message}
    {turn : Turn} (foreign : c.clientId ≠ session.owner)
    (processed : session.engine.process c = .ok turn) :
    turn.engine.openOrders session.owner = 0 ∧
      turn.batch.addressedTo session.owner = [] ∧
      ∀ instrument, (turn.engine.position session.owner instrument).quantity =
        session.held instrument := by
  have reachable := orderly.followed.reachable
  have sound := reachable.invariant.sound
  obtain ⟨outcome, _⟩ := reachable.outcome_of processed
  have after := outcome.openOrders_eq_zero sound flat.orders
    fun own => absurd own.symm foreign
  refine ⟨after, reachable.unaddressed
    (openOrders_eq_zero_iff.mp flat.orders) processed foreign,
    fun instrument => eq_of_sides fun side listed => ?_⟩
  have moved := outcome.position_le sound flat.orders after instrument listed
  have nothing : c.adds c.quantity session.owner instrument side = 0 :=
    if_neg fun own => foreign own.1.symm
  rw [nothing, ite_self, Int.add_zero] at moved
  exact moved

/-- The exchange and the connection leave a client flat. -/
theorem Flat.around
    (flat : session.Flat) (orderly : session.Orderly pool)
    (around : Around session next) :
    next.Flat ∧ Moves session next := by
  obtain ⟨step, sent, _⟩ := around
  cases step with
  | submit _ _ _ => simp at sent
  | refuse _ asked =>
      rcases request_eq_error asked with rfl | ⟨_, rfl⟩
      · exact ⟨flat, Or.inl fun _ => rfl⟩
      · exact ⟨⟨flat.orders, flat.requests, flat.exact⟩, Or.inl fun _ => rfl⟩
  | expire _ =>
      exact ⟨⟨flat.orders, flat.requests, flat.exact⟩, Or.inl fun _ => rfl⟩
  | receive queued =>
      obtain ⟨handled, received⟩ := orderly.receive_eq queued
      have exact := flat.exact
      rw [queued] at exact
      rw [received]
      exact ⟨⟨flat.orders, flat.requests, exact.tail⟩, Or.inl fun _ => rfl⟩
  | look looks =>
      obtain ⟨_, _, _, rfl⟩ := looks
      exact ⟨⟨flat.orders, flat.requests, flat.exact⟩, Or.inl fun _ => rfl⟩
  | close =>
      exact ⟨⟨flat.orders, flat.requests, flat.exact⟩, Or.inl fun _ => rfl⟩
  | @serve c rest turn queued processed =>
      obtain ⟨orders, exact, moved⟩ := flat.serve orderly queued processed
      refine ⟨⟨orders, fun other member => flat.requests other
        (by simp [queued, member]), exact⟩, ?_⟩
      rcases flat.requests c (by simp [queued]) with action | ⟨action, _⟩
      · refine Or.inl fun instrument => eq_of_sides fun side listed => ?_
        have unmoved := moved instrument side listed
        rw [if_neg (by simp [action]), Int.add_zero] at unmoved
        exact unmoved
      · refine Or.inr ⟨c, queued, action, fun instrument side listed => ?_⟩
        have bounded := moved instrument side listed
        rw [if_pos (Or.inl action)] at bounded
        exact bounded
  | @other c turn foreign processed =>
      obtain ⟨orders, silent, same⟩ := flat.other orderly foreign processed
      refine ⟨⟨orders, flat.requests, ?_⟩, Or.inl same⟩
      change Exact (session.reports ++ turn.batch.addressedTo session.owner)
      rw [silent, List.append_nil]
      exact flat.exact

end TradingSession

namespace Trader

open TradingClient TradingSession MatchingEngine OrderManager

variable {pool : PoolBytes} {config : ClientConfig} {strategy : Strategy}
  {c : StrategyOptions} {trader next : Trader}

/-- The position that a strategy keeps to. -/
def bound (c : StrategyOptions) : Int :=
  max 0 c.inventoryLimit

/-- A command of these strategies, which there is room for at the exchange. -/
structure Prudent (c : StrategyOptions) (session : TradingSession)
    (command : Message) : Prop where
  fleeting : Fleeting command
  instrument : command.action = .new → command.instrumentId = c.instrument
  room : command.action = .new → command.side.Listed →
    command.side.sign * session.held c.instrument + command.quantity ≤ bound c

/-- The invariant of the taker and of the random strategy. -/
structure Bounded (c : StrategyOptions) (trader : Trader) : Prop where
  flat : trader.session.Flat
  here : |trader.session.held c.instrument| ≤ bound c
  elsewhere : ∀ instrument, instrument ≠ c.instrument →
    trader.session.held instrument = 0
  requests : ∀ command ∈ trader.session.requests,
    Prudent c trader.session command
  command : ∀ command ∈ trader.command, Prudent c trader.session command

/-- A ready trader without orders knows its position. -/
theorem Run.knows
    (run : Run pool config strategy c trader) (ready : trader.Ready)
    (exact : Exact trader.session.reports) (instrument : InstrumentId) :
    (trader.session.client.manager.position instrument).quantity =
      trader.session.held instrument := by
  obtain ⟨_, quiet⟩ := run.quiet ready
  have nothing : trader.session.reports = [] := by
    rcases exact with nothing | ⟨front, last, parts, complete⟩
    · exact nothing
    · exact absurd complete (quiet last (by simp [parts]))
  have orderly := run.session.orderly
  have mirrors := orderly.followed.mirrors
  rw [stream, nothing, List.append_nil, ← orderly.manager] at mirrors
  exact congrArg Position.quantity (mirrors.shows.position instrument)

theorem Prudent.of_held
    {session later : TradingSession} {command : Message}
    (prudent : Prudent c session command)
    (same : later.held c.instrument = session.held c.instrument) :
    Prudent c later command where
  fleeting := prudent.fleeting
  instrument := prudent.instrument
  room isNew listed := same ▸ prudent.room isNew listed

theorem prudent_cancel (session : TradingSession) :
    Prudent c session cancelEverything where
  fleeting := Or.inl rfl
  instrument isNew := by cases isNew
  room isNew := by cases isNew

/-- A quote with room for it becomes a prudent command. -/
theorem prudent_immediate
    {session : TradingSession} {quote : Quote} {orderId : OrderId}
    (affords : c.Affords (session.held c.instrument) quote) :
    Prudent c session (c.immediate orderId quote) where
  fleeting := Or.inr ⟨rfl, rfl⟩
  instrument _ := rfl
  room _ listed := (affords.room listed).trans (Int.le_max_right 0 _)

namespace Bounded

/-- A served order keeps the position within the bound. -/
theorem here_of_moves
    (bounded : trader.Bounded c) {session : TradingSession} {command : Message}
    (prudent : Prudent c trader.session command)
    (own : command.clientId = trader.session.owner)
    (isNew : command.action = .new)
    (moved : ∀ instrument side, Side.Listed side →
      side.sign * session.held instrument ≤
        side.sign * trader.session.held instrument +
          command.adds command.quantity trader.session.owner instrument side) :
    |session.held c.instrument| ≤ bound c ∧
      ∀ instrument, instrument ≠ c.instrument → session.held instrument = 0 := by
  have here := abs_le.mp bounded.here
  have instrument := prudent.instrument isNew
  constructor
  · have within : ∀ side, Side.Listed side →
        side.sign * session.held c.instrument ≤ bound c := by
      intro side listed
      refine (moved c.instrument side listed).trans ?_
      by_cases onSide : side = command.side
      · have adds : command.adds command.quantity trader.session.owner
            c.instrument side = command.quantity :=
          if_pos ⟨own.symm, instrument.symm, onSide⟩
        rw [adds, onSide]
        exact prudent.room isNew (onSide ▸ listed)
      · have adds : command.adds command.quantity trader.session.owner
            c.instrument side = 0 :=
          if_neg fun same => onSide same.2.2
        rw [adds, Int.add_zero]
        rcases listed with rfl | rfl
        · rw [Side.sign_bid, Int.one_mul]
          exact here.2
        · rw [Side.sign_ask, Int.neg_one_mul]
          omega
    have bid := within .bid (Or.inl rfl)
    have ask := within .ask (Or.inr rfl)
    rw [Side.sign_bid, Int.one_mul] at bid
    rw [Side.sign_ask, Int.neg_one_mul] at ask
    exact abs_le.mpr ⟨by omega, bid⟩
  · intro other away
    rw [← bounded.elsewhere other away]
    refine eq_of_sides fun side listed => ?_
    have unmoved := moved other side listed
    have adds : command.adds command.quantity trader.session.owner other side =
        0 := if_neg fun same => away (same.2.1.trans instrument)
    rw [adds, Int.add_zero] at unmoved
    exact unmoved

theorem around
    (bounded : trader.Bounded c) (coherent : trader.Coherent)
    (run : TradingSession.Run pool config Cautious trader.session)
    {session : TradingSession} (around : Around trader.session session) :
    Bounded c { trader with session := session } := by
  have orderly := run.orderly
  obtain ⟨flat, unmoved | ⟨served, queued, isNew, moved⟩⟩ :=
    bounded.flat.around orderly around
  · have here := unmoved c.instrument
    exact
      { flat := flat
        here := here ▸ bounded.here
        elsewhere := fun instrument away =>
          (unmoved instrument).trans (bounded.elsewhere instrument away)
        requests := fun command member => (bounded.requests command
          (around.requests member)).of_held here
        command := fun command decided =>
          (bounded.command command decided).of_held here }
  · have member : served ∈ trader.session.requests := by simp [queued]
    obtain ⟨here, elsewhere⟩ := bounded.here_of_moves
      (bounded.requests served member) (orderly.own served member).2 isNew moved
    refine
      { flat := flat
        here := here
        elsewhere := elsewhere
        requests := fun command later => ?_
        command := fun command decided => ?_ }
    · have notNew : command.action ≠ .new := fun isNew =>
        run.phase.tail (by rw [queued]; exact later) (Or.inl isNew)
      have prudent := bounded.requests command (around.requests later)
      exact ⟨prudent.fleeting, fun isNew => absurd isNew notNew,
        fun isNew => absurd isNew notNew⟩
    · have prudent := bounded.command command decided
      have notNew : command.action ≠ .new := by
        intro isNew
        have isSome : trader.command.isSome := by
          rw [Option.mem_def.mp decided]
          rfl
        have calls := coherent.calls
          (coherent.enters command decided (Or.inl isNew))
        rw [coherent.free isSome] at calls
        rw [(run.phase.quiet calls).1] at queued
        cases queued
      exact ⟨prudent.fleeting, fun isNew => absurd isNew notNew,
        fun isNew => absurd isNew notNew⟩

/-- A decision for a quote, if there is one. -/
theorem take
    (bounded : trader.Bounded c) (run : Run pool config strategy c trader)
    (ready : trader.Ready) {quote : Option Quote}
    (affords : ∀ wanted ∈ quote, c.Affords
      (trader.session.client.manager.position c.instrument).quantity wanted) :
    (trader.take c quote).Bounded c := by
  refine { bounded with command := fun command decided => ?_ }
  obtain ⟨wanted, isQuote, rfl⟩ := Option.map_eq_some_iff.mp decided
  have room := affords wanted isQuote
  rw [run.knows ready bounded.flat.exact] at room
  exact prudent_immediate room

/-- An exception ends the loop and changes no account. -/
theorem ends
    (bounded : trader.Bounded c) {session : TradingSession}
    (flat : session.Flat)
    (requests : session.requests = trader.session.requests)
    (same : ∀ instrument,
      session.held instrument = trader.session.held instrument) :
    Bounded c
      { trader with
        session := session
        sides := []
        command := none
        left := true } where
  flat := flat
  here := same c.instrument ▸ bounded.here
  elsewhere instrument away :=
    (same instrument).trans (bounded.elsewhere instrument away)
  requests command member :=
    (bounded.requests command (requests ▸ member)).of_held (same c.instrument)
  command command decided := by cases decided

theorem step
    (bounded : trader.Bounded c) (notMaker : strategy ≠ .maker)
    (run : Run pool config strategy c trader)
    (noTurn : trader.sides = [])
    (moved : Step strategy c trader next) :
    next.Bounded c ∧ next.sides = [] := by
  cases moved with
  | around around =>
      exact ⟨bounded.around run.coherent run.session around, noTurn⟩
  | quote isMaker _ _ _ => exact absurd isMaker notMaker
  | visit _ visits => rw [noTurn] at visits; cases visits
  | follow _ ready =>
      have affords : ∀ wanted ∈ (c.takerTurn trader.session.client
          trader.consumedTrade).1, _ :=
        fun wanted isQuote => StrategyOptions.takerTurn_affords isQuote
      have taken := bounded.take run ready affords
      exact ⟨{ taken with }, noTurn⟩
  | gamble _ _ ready =>
      exact ⟨bounded.take run ready fun wanted isQuote =>
        StrategyOptions.randomTurn_affords isQuote, noTurn⟩
  | leave _ _ _ =>
      refine ⟨{ bounded with command := ?_ }, noTurn⟩
      rintro command ⟨⟩
      exact prudent_cancel trader.session
  | @submit command request client decided _ asked =>
      obtain ⟨_, _, rfl, rfl⟩ := request_eq_ok asked
      have prudent := bounded.command command decided
      refine
        ⟨{ flat := ⟨bounded.flat.orders, fun other member => ?_,
            bounded.flat.exact⟩
           here := bounded.here
           elsewhere := bounded.elsewhere
           requests := fun other member => ?_
           command := by simp }, noTurn⟩
      · rcases List.mem_append.mp member with before | isLast
        · exact bounded.flat.requests other before
        · rw [List.mem_singleton.mp isLast]
          exact prudent.fleeting
      · rcases List.mem_append.mp member with before | isLast
        · exact (bounded.requests other before).of_held rfl
        · rw [List.mem_singleton.mp isLast]
          exact ⟨prudent.fleeting, prudent.instrument, prudent.room⟩
  | refuse _ _ asked =>
      refine ⟨bounded.ends ?_ rfl ?_, rfl⟩
      · rcases request_eq_error asked with rfl | ⟨_, rfl⟩
        · exact bounded.flat
        · exact ⟨bounded.flat.orders, bounded.flat.requests,
            bounded.flat.exact⟩
      · rcases request_eq_error asked with rfl | ⟨_, rfl⟩
        · exact fun _ => rfl
        · exact fun _ => rfl
  | throw =>
      exact ⟨bounded.ends ⟨bounded.flat.orders, bounded.flat.requests,
        bounded.flat.exact⟩ rfl fun _ => rfl, rfl⟩

end Bounded

theorem Run.bounded
    (run : Run pool config strategy c trader) (notMaker : strategy ≠ .maker) :
    trader.Bounded c ∧ trader.sides = [] := by
  induction run with
  | @start session opens =>
      have unheard := opens.unheard
      have position : ∀ instrument, session.held instrument = 0 :=
        fun instrument => by rw [TradingSession.held, unheard.position]
      have orders := openOrders_eq_zero_iff.mpr unheard.resting
      cases opens with
      | greeted _ _ _ _ =>
          refine
            ⟨{ flat := ⟨orders, by simp, Or.inl rfl⟩
               here := ?_
               elsewhere := fun instrument _ => position instrument
               requests := by simp
               command := by simp }, rfl⟩
          rw [position c.instrument]
          exact abs_zero.trans_le (Int.le_max_left 0 _)
  | step run moved inductionHypothesis =>
      obtain ⟨bounded, noTurn⟩ := inductionHypothesis
      exact bounded.step notMaker run noTurn moved

/--
In every state of every run the taker and the random strategy have no live
order, their position in their instrument is within the inventory limit, and
they have none elsewhere.
-/
theorem inventory_within_limit
    (run : Run pool config strategy c trader) (notMaker : strategy ≠ .maker) :
    trader.session.engine.openOrders trader.session.owner = 0 ∧
      |trader.session.held c.instrument| ≤ max 0 c.inventoryLimit ∧
      ∀ instrument, instrument ≠ c.instrument →
        trader.session.held instrument = 0 := by
  obtain ⟨bounded, _⟩ := run.bounded notMaker
  exact ⟨bounded.flat.orders, bounded.here, bounded.elsewhere⟩

/-- The random strategy buys all it may have. -/
theorem inventory_within_limit_reached :
    ∃ trader, Run .capacity {} .random { inventoryLimit := 5 } trader ∧
      trader.session.held 1 = 5 ∧ |trader.session.held 1| ≤ max 0 5 := by
  let options : StrategyOptions := { inventoryLimit := 5 }
  let offer : Message :=
    { orderId := 1, clientId := 2, requestId := 1, instrumentId := 1
      side := .ask, price := 100, quantity := 5 }
  let buy : Message := options.immediate 1 ⟨.bid, 100, 5⟩
  let request : Message := { buy with clientId := 1, requestId := 1 }
  let greeted := Turn.report ⟨single, {}⟩ (hello {}) .status
  let market : MarketReplica := { pool := .capacity, synchronized := true }
  let fresh : TradingClient :=
    { config := {}, market := { pool := .capacity }, epoch := 1 }
  let watching : TradingClient :=
    { fresh with market := market, recoveries := 1 }
  have decided : (options.randomTurn watching .bid) =
      some ⟨.bid, 100, 5⟩ := by decide +kernel
  have passed : ({} : OrderManager).check buy {} market 100000 = .none := by
    decide +kernel
  have asked : watching.request buy =
      ({ watching with requestId := 1 }, .ok request) := by
    unfold TradingClient.request
    rw [if_neg (not_not.mpr passed), if_neg (by decide)]
    rfl
  have greeting : single.process (hello {}) = .ok greeted := rfl
  have reachable : Reachable .capacity greeted.engine :=
    .step single_reachable greeting
  obtain ⟨first, offered, _, reachableFirst⟩ := reachable.outcome offer
  obtain ⟨second, processed, _, _⟩ := reachableFirst.outcome request
  have evaluated : ((greeted.engine.process offer).toOption.bind fun first =>
      (first.engine.process request).toOption.map fun second =>
        (second.engine.position 1 1).quantity) = some 5 := by decide +kernel
  simp only [offered, processed, Except.toOption, Option.bind_some,
    Option.map_some, Option.some.injEq] at evaluated
  have started : Run .capacity {} .random options
      { session := { engine := greeted.engine, client := fresh } } :=
    .start (.greeted single_reachable greeting rfl rfl)
  have looked := started.step
    (.around ⟨.look ⟨market, {}, 1, rfl⟩, rfl, rfl⟩)
  have foreign : offer.clientId ≠ (1 : ClientId) := by decide
  have rested := looked.step (.around ⟨.other foreign offered, rfl, rfl⟩)
  have drawn := rested.step (.gamble rfl (.inl rfl) ⟨rfl, rfl, rfl⟩)
  have sent := drawn.step (.submit
    (congrArg (Option.map (options.immediate 1)) decided) rfl asked)
  have bought := sent.step (.around ⟨.serve rfl processed, rfl, rfl⟩)
  exact ⟨_, bought, evaluated,
    (inventory_within_limit bought (by decide)).2.1⟩

end Trader

end LimitOrderBook
