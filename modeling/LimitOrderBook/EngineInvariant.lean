import LimitOrderBook.StepSystem
import LimitOrderBook.EngineOutcome
import Mathlib.Tactic.Ring

namespace LimitOrderBook

/-!
# Invariants of reachable engines

Between calls the stores fit together (`Sound`), no book is crossed and the
positions of all clients cancel out.  In the middle of a call a book may be
crossed, because the residual is stored before the fills are executed.
-/

/-! ## No book is crossed -/

namespace Market

/-- Every bid is below every ask. -/
def Uncrossed (market : Market) : Prop :=
  ∀ instrument, ∀ bid ∈ market instrument .bid,
    ∀ ask ∈ market instrument .ask, bid.price < ask.price

/-- Every order of the second market was in the first one, at its price. -/
def Shrinks (market next : Market) : Prop :=
  ∀ instrument side, ∀ order ∈ next instrument side,
    ∃ old ∈ market instrument side,
      old.orderId = order.orderId ∧ old.price = order.price

/-- A market shrinks to itself. -/
theorem Shrinks.refl (market : Market) : market.Shrinks market :=
  fun _ _ order member => ⟨order, member, rfl, rfl⟩

/-- Shrinking twice is shrinking. -/
theorem Shrinks.trans
    {first second third : Market} (before : first.Shrinks second)
    (after : second.Shrinks third) : first.Shrinks third := by
  intro instrument side order member
  obtain ⟨middle, middleMember, middleId, middlePrice⟩ :=
    after instrument side order member
  obtain ⟨old, oldMember, oldId, oldPrice⟩ :=
    before instrument side middle middleMember
  exact ⟨old, oldMember, oldId.trans middleId, oldPrice.trans middlePrice⟩

/-- A market that shrinks stays uncrossed. -/
theorem Uncrossed.shrinks
    {market next : Market} (uncrossed : market.Uncrossed)
    (shrinks : market.Shrinks next) : next.Uncrossed := by
  intro instrument bid bidMember ask askMember
  obtain ⟨oldBid, oldBidMember, _, bidPrice⟩ :=
    shrinks instrument .bid bid bidMember
  obtain ⟨oldAsk, oldAskMember, _, askPrice⟩ :=
    shrinks instrument .ask ask askMember
  rw [← bidPrice, ← askPrice]
  exact uncrossed instrument oldBid oldBidMember oldAsk oldAskMember

/-- Removing an order shrinks the market. -/
theorem shrinks_remove (market : Market) (instrument : InstrumentId)
    (orderId : OrderId) : market.Shrinks (market.remove instrument orderId) := by
  intro other side order member
  refine ⟨order, ?_, rfl, rfl⟩
  unfold remove at member
  split at member
  · exact List.mem_of_mem_filter member
  · exact member

/-- Resizing an order adds no price. -/
theorem shrinks_resize (market : Market) (instrument : InstrumentId)
    (orderId : OrderId) (quantity : Quantity) :
    market.Shrinks (market.resize instrument orderId quantity) := by
  intro other side order member
  unfold resize at member
  split at member
  · obtain ⟨old, oldMember, rfl⟩ := List.mem_map.mp member
    refine ⟨old, oldMember, ?_⟩
    unfold OrderView.resize
    split <;> exact ⟨rfl, rfl⟩
  · exact ⟨order, member, rfl, rfl⟩

end Market

/-- An execution shrinks the market. -/
theorem Ledger.shrinks_execute (ledger : Ledger) (m : Message)
    (quantity : Quantity) :
    ledger.market.Shrinks (ledger.execute m quantity).market := by
  unfold execute
  split
  · exact Market.shrinks_remove _ _ _
  · exact Market.shrinks_resize _ _ _ _

/-- A better or equal price crosses as well. -/
theorem crosses_of_ahead
    {c : Message} (side : c.side.Listed) {first second : OrderView}
    (ahead : Ahead c.side.opposite first second)
    (crossesSecond : crosses c second.price = true) :
    crosses c first.price = true := by
  unfold crosses at *
  simp only [Bool.or_eq_true, decide_eq_true_eq] at *
  rcases crossesSecond with isMarket | priceCrosses
  · exact Or.inl isMarket
  · right
    rcases side with isBid | isAsk
    · simp only [isBid, Side.opposite, if_true, decide_eq_true_eq] at *
      rcases ahead with better | ⟨same, _⟩
      · simp only [OrderBook.priceLt, reduceCtorEq, if_false] at better
        lia
      · lia
    · simp only [isAsk, Side.opposite, reduceCtorEq, if_false,
        decide_eq_true_eq] at *
      rcases ahead with better | ⟨same, _⟩
      · simp only [OrderBook.priceLt, if_true] at better
        lia
      · lia

/-- The marketable orders of a queue are the ones whose price crosses. -/
theorem marketable_eq_filter
    {c : Message} (side : c.side.Listed) {orders : List OrderView}
    (queued : orders.Pairwise (Ahead c.side.opposite)) :
    marketable c orders = orders.filter fun order => crosses c order.price := by
  induction orders with
  | nil => rfl
  | cons order rest inductionHypothesis =>
      obtain ⟨first, restQueued⟩ := List.pairwise_cons.mp queued
      by_cases crossesHere : crosses c order.price = true
      · rw [List.filter_cons_of_pos (by exact crossesHere),
          ← inductionHypothesis restQueued]
        exact List.takeWhile_cons_of_pos crossesHere
      · have none : rest.filter (fun order => crosses c order.price) = [] := by
          refine List.filter_eq_nil_iff.mpr fun other member => ?_
          exact fun crossesOther => crossesHere
            (crosses_of_ahead side (first other member) crossesOther)
        rw [List.filter_cons_of_neg (by exact crossesHere), none]
        exact List.takeWhile_cons_of_neg crossesHere

namespace Turn

variable {slots : Nat} {turn final swept : Turn} {c incoming : Message}

/-- So do all fills of a command. -/
theorem Fills.shrinks
    {left after : Quantity} {fills : List Fill}
    (executed : Fills slots c incoming turn left fills final after) :
    (marketOf turn.engine.books).Shrinks (marketOf final.engine.books) := by
  induction executed with
  | done => exact .refl _
  | @next _ _ _ _ _ _ _ books _ reshelved _ inductionHypothesis =>
      refine Market.Shrinks.trans ?_ inductionHypothesis
      change Market.Shrinks _ (marketOf books)
      rw [reshelved.shows]
      exact Ledger.shrinks_execute _ _ _

/-- So do cancellations. -/
theorem Cancels.shrinks
    {request : Nat} {ms : List Message}
    (cancels : Cancels slots request turn ms final) :
    (marketOf turn.engine.books).Shrinks (marketOf final.engine.books) := by
  induction cancels with
  | done => exact .refl _
  | @next _ _ _ _ books _ reshelved _ inductionHypothesis =>
      refine Market.Shrinks.trans ?_ inductionHypothesis
      change Market.Shrinks _ (marketOf books)
      rw [reshelved.shows]
      exact Market.shrinks_remove _ _ _

end Turn

/-- What an exchange leaves was there, or is its residual. -/
theorem Ledger.mem_exchange
    {ledger : Ledger} {old rest : Option Message} {instrument : InstrumentId}
    {side : Side} {order : OrderView}
    (member : order ∈ (ledger.exchange old rest).market instrument side) :
    order ∈ ledger.market instrument side ∨
      ∃ m, rest = some m ∧ instrument = m.instrumentId ∧ side = m.side ∧
        order = orderView m := by
  have kept : order ∈ (ledger.exchange old none).market instrument side →
      order ∈ ledger.market instrument side := by
    intro member
    cases old with
    | none => exact member
    | some gone =>
        simp only [exchange, remove, Market.remove] at member
        split at member
        · exact List.mem_of_mem_filter member
        · exact member
  cases rest with
  | none => exact Or.inl (kept member)
  | some m =>
      simp only [exchange, add, Market.insert] at member
      split at member
      · rename_i here
        rw [List.mem_orderedInsert] at member
        rcases member with isNew | before
        · exact Or.inr ⟨m, rfl, here.1, here.2, isNew⟩
        · exact Or.inl (kept before)
      · exact Or.inl (kept member)

namespace Turn

variable {slots : Nat} {turn final swept : Turn} {c incoming : Message}
  {old : Option Message} {r : InstrumentRules} {fills : List Fill}
  {leaves : Quantity} {books : Books}

/-- What rests of a command does not cross the swept opposite side. -/
theorem Placement.not_crosses
    (placement : Placement slots turn c old r fills leaves books swept)
    (some_left : leaves ≠ 0) (order : OrderView)
    (member : order ∈ marketOf swept.engine.books c.instrumentId
      c.side.opposite) :
    crosses c order.price = false := by
  have plan := placement.cleared.plan
  have queued : (marketOf swept.engine.books c.instrumentId
      c.side.opposite).Pairwise (Ahead c.side.opposite) :=
    placement.sound.linked.queued c.instrumentId c.side.opposite
  have nothing : marketable c
      (marketOf swept.engine.books c.instrumentId c.side.opposite) = [] := by
    cases orders : marketable c
        (marketOf swept.engine.books c.instrumentId c.side.opposite) with
    | nil => rfl
    | cons first rest =>
        rw [orders, sweep, if_neg some_left] at plan
        cases plan
  rw [marketable_eq_filter placement.checked.command.side queued] at nothing
  simpa using List.filter_eq_nil_iff.mp nothing order member

/-- A residual rests only where the other side has left. -/
theorem Placement.uncrossed
    (placement : Placement slots turn c old r fills leaves books swept)
    (uncrossed : (marketOf turn.engine.books).Uncrossed) :
    (marketOf swept.engine.books).Uncrossed := by
  intro instrument bid bidMember ask askMember
  have shrinks := placement.executed.shrinks
  rw [afterEntry_engine] at shrinks
  simp only [placement.shelves.shows] at shrinks
  obtain ⟨oldBid, oldBidMember, _, bidPrice⟩ :=
    shrinks instrument .bid bid bidMember
  obtain ⟨oldAsk, oldAskMember, _, askPrice⟩ :=
    shrinks instrument .ask ask askMember
  rcases Ledger.mem_exchange oldBidMember with oldBidBefore | newBid
  · rcases Ledger.mem_exchange oldAskMember with oldAskBefore | newAsk
    · rw [← bidPrice, ← askPrice]
      exact uncrossed instrument oldBid oldBidBefore oldAsk oldAskBefore
    · obtain ⟨m, isRest, sameInstrument, isAsk, isNew⟩ := newAsk
      obtain ⟨restsHere, rfl⟩ := restOf_eq_some isRest
      simp only [rests, decide_eq_true_eq] at restsHere
      obtain ⟨some_left, _, isLimit⟩ := restsHere
      have side : c.side = .ask := isAsk.symm
      have apart := placement.not_crosses some_left bid (by
        simp only [Side.opposite, side, reduceCtorEq, if_false]
        exact (show instrument = c.instrumentId from sameInstrument) ▸ bidMember)
      have price : oldAsk.price = c.price := by
        rw [isNew]
        rfl
      simp only [crosses, isLimit, side, reduceCtorEq, decide_false,
        Bool.false_or, if_false, decide_eq_false_iff_not, not_le] at apart
      lia
  · rcases Ledger.mem_exchange oldAskMember with oldAskBefore | newAsk
    · obtain ⟨m, isRest, sameInstrument, isBid, isNew⟩ := newBid
      obtain ⟨restsHere, rfl⟩ := restOf_eq_some isRest
      simp only [rests, decide_eq_true_eq] at restsHere
      obtain ⟨some_left, _, isLimit⟩ := restsHere
      have side : c.side = .bid := isBid.symm
      have apart := placement.not_crosses some_left ask (by
        simp only [Side.opposite, side, if_true]
        exact (show instrument = c.instrumentId from sameInstrument) ▸ askMember)
      have price : oldBid.price = c.price := by
        rw [isNew]
        rfl
      simp only [crosses, isLimit, side, reduceCtorEq, decide_false,
        Bool.false_or, if_true, decide_eq_false_iff_not, not_le] at apart
      lia
    · obtain ⟨bidRest, isBidRest, _, isBid, _⟩ := newBid
      obtain ⟨askRest, isAskRest, _, isAsk, _⟩ := newAsk
      rw [isBidRest] at isAskRest
      cases isAskRest
      rw [← isBid] at isAsk
      cases isAsk

/-- Publishing the residual touches no store. -/
theorem publishResidual_engine
    (turn : Turn) (m : Message) (leaves : Quantity) (restsHere : Bool) :
    ∃ sequence responseSequence,
      (turn.publishResidual m leaves restsHere).engine =
        { turn.engine with
          sequence := sequence
          responseSequence := responseSequence } := by
  unfold publishResidual
  split
  · exact ⟨_, _, rfl⟩
  · split
    · exact ⟨_, _, rfl⟩
    · exact ⟨_, _, rfl⟩

/-- No command leaves a crossed book. -/
theorem Handled.uncrossed
    (handled : Handled slots turn c final)
    (uncrossed : (marketOf turn.engine.books).Uncrossed) :
    (marketOf final.engine.books).Uncrossed := by
  cases handled with
  | rejected _ => exact uncrossed
  | full => exact uncrossed
  | cancelled _ cancels => exact uncrossed.shrinks cancels.shrinks
  | reduced _ _ _ _ _ reshelved =>
      rw [afterReduce_engine]
      simp only [reshelved.shows]
      exact uncrossed.shrinks (Market.shrinks_resize _ _ _ _)
  | placed _ placement =>
      obtain ⟨sequence, responseSequence, published⟩ :=
        publishResidual_engine _ (turn.engine.incoming c) _ _
      rw [published]
      exact placement.uncrossed uncrossed

end Turn

/-! ## The positions of all clients cancel out -/

/-- A side's sign. -/
def Side.sign (side : Side) : Int :=
  if side = .bid then 1 else -1

/-- The sides have opposite signs. -/
theorem Side.sign_opposite (side : Side) :
    side.opposite.sign = -side.sign := by
  by_cases isBid : side = .bid <;> simp [opposite, sign, isBid]

/-- A fill moves the position by its signed size. -/
theorem Position.fill_quantity (position : Position) (side : Side)
    (price : Price) (size : Quantity) :
    (position.fill side price size).quantity =
      position.quantity + side.sign * size := by
  by_cases isBid : side = .bid <;> simp [fill, Side.sign, isBid]

/-- A fill moves the cash by its signed notional. -/
theorem Position.fill_cash (position : Position) (side : Side)
    (price : Price) (size : Quantity) :
    (position.fill side price size).cash =
      position.cash - side.sign * (price * size) := by
  by_cases isBid : side = .bid <;> simp [fill, Side.sign, isBid]

namespace MatchingEngine

/-- The sum over all clients of a quantity of their positions. -/
def net (engine : MatchingEngine) (measure : Position → Int)
    (instrument : InstrumentId) : Int :=
  engine.positions.total fun key position =>
    if key.2 = instrument then measure position else 0

/-- What all clients hold and owe on one instrument cancels out. -/
structure Conserved (engine : MatchingEngine) : Prop where
  quantity : ∀ instrument, engine.netQuantity instrument = 0
  cash : ∀ instrument, engine.netCash instrument = 0

end MatchingEngine

namespace Turn

variable {slots : Nat} {turn final swept : Turn} {c incoming : Message}

/-- A measure that a fill moves from one party to the other is conserved. -/
theorem afterFill_net
    {maker : Message} {fill : Fill} {left : Quantity} {books : Books}
    (sound : turn.engine.Sound slots)
    (fillOf : FillOf turn.engine c maker fill left)
    {measure : Position → Int}
    (moves : ∀ first second : Position,
      measure (first.fill maker.side fill.price fill.size) +
          measure (second.fill c.side fill.price fill.size) =
        measure first + measure second)
    (instrument : InstrumentId) :
    (turn.afterFill c incoming maker fill left books).engine.net measure
        instrument = turn.engine.net measure instrument := by
  have makerKnown := (sound.backed _ maker fillOf.found).position
  rw [fillOf.instrument] at makerKnown
  obtain ⟨makerPosition, makerFound⟩ := Option.isSome_iff_exists.mp makerKnown
  obtain ⟨takerPosition, takerFound⟩ :=
    Option.isSome_iff_exists.mp fillOf.taker
  have apart : (c.clientId, c.instrumentId) ≠
      (maker.clientId, c.instrumentId) := by
    intro same
    exact fillOf.foreign (Prod.mk.inj same).1.symm
  have exchanged := OrderedMap.total_insert_insert apart makerFound takerFound
    (makerPosition.fill maker.side fill.price fill.size)
    (takerPosition.fill c.side fill.price fill.size)
    fun key position => if key.2 = instrument then measure position else 0
  have balance := moves makerPosition takerPosition
  simp only [MatchingEngine.net, afterFill, MatchingEngine.position, makerFound,
    takerFound, Option.getD_some]
  by_cases here : c.instrumentId = instrument
  · simp only [here, if_true] at exchanged ⊢
    omega
  · simp only [here, if_false] at exchanged ⊢
    omega

/-- Fills keep each sum that both sides of a fill leave alone. -/
theorem Fills.net
    {left after : Quantity} {fills : List Fill}
    (executed : Fills slots c incoming turn left fills final after)
    (sound : turn.engine.Sound slots) {measure : Position → Int}
    (moves : ∀ (price : Price) (size : Quantity) (first second : Position),
      measure (first.fill c.side.opposite price size) +
          measure (second.fill c.side price size) =
        measure first + measure second)
    (instrument : InstrumentId) :
    final.engine.net measure instrument =
      turn.engine.net measure instrument := by
  induction executed with
  | done => rfl
  | next fillOf reshelved _ inductionHypothesis =>
      rw [inductionHypothesis (afterFill_sound incoming sound fillOf reshelved)]
      refine afterFill_net sound fillOf (fun first second => ?_) instrument
      rw [fillOf.side]
      exact moves _ _ first second

/-- Cancellations touch no position. -/
theorem Cancels.positions
    {request : Nat} {ms : List Message}
    (cancels : Cancels slots request turn ms final) :
    final.engine.positions = turn.engine.positions := by
  induction cancels with
  | done => rfl
  | next _ _ _ inductionHypothesis => exact inductionHypothesis

/-- A command keeps each sum that both sides of a fill leave alone. -/
theorem Handled.net
    (handled : Handled slots turn c final)
    (measure : Position → Int) (nothing : measure {} = 0)
    (moves : ∀ (side : Side) (price : Price) (size : Quantity)
      (first second : Position),
      measure (first.fill side.opposite price size) +
          measure (second.fill side price size) =
        measure first + measure second)
    (instrument : InstrumentId) :
    final.engine.net measure instrument =
      turn.engine.net measure instrument := by
  have opened : ∀ key : ClientId × InstrumentId,
      (turn.engine.positions.emplace key {}).total
          (fun key position =>
            if key.2 = instrument then measure position else 0) =
        turn.engine.net measure instrument := fun key =>
    OrderedMap.total_emplace_of_zero _ (by simp [nothing])
  cases handled with
  | rejected _ => rfl
  | full => exact opened _
  | cancelled _ cancels =>
      simp only [MatchingEngine.net, cancels.positions]
  | reduced _ _ _ _ _ _ => rw [afterReduce_engine]; rfl
  | @placed old r fills leaves books swept _ placement =>
      obtain ⟨sequence, responseSequence, published⟩ :=
        publishResidual_engine swept (turn.engine.incoming c) leaves
          (rests c leaves)
      rw [published]
      calc
        swept.engine.net measure instrument =
            (turn.afterEntry c old (turn.restOf c leaves) books).engine.net
              measure instrument := by
          exact placement.executed.net placement.entrySound (moves c.side)
            instrument
        _ = turn.engine.net measure instrument := by
          rw [afterEntry_engine]
          exact opened _

/-- Positions and cash stay balanced over a command. -/
theorem Handled.conserved
    (handled : Handled slots turn c final)
    (conserved : turn.engine.Conserved) : final.engine.Conserved where
  quantity instrument := by
    have kept := handled.net Position.quantity rfl (by
      intro side price size first second
      rw [Position.fill_quantity, Position.fill_quantity, Side.sign_opposite]
      ring) instrument
    exact kept.trans (conserved.quantity instrument)
  cash instrument := by
    have kept := handled.net Position.cash rfl (by
      intro side price size first second
      rw [Position.fill_cash, Position.fill_cash, Side.sign_opposite]
      ring) instrument
    exact kept.trans (conserved.cash instrument)

end Turn

/-! ## Reachable engines -/

namespace MatchingEngine

variable {slots : Nat} {engine next : MatchingEngine} {c : Message}
  {turn : Turn} {pool : PoolBytes}

/-- Engines that differ at most in clients, statistics and report numbers. -/
structure SameStores (engine next : MatchingEngine) : Prop where
  instruments : next.instruments = engine.instruments
  books : next.books = engine.books
  resting : next.resting = engine.resting
  byClient : next.byClient = engine.byClient
  positions : next.positions = engine.positions
  epoch : next.epoch = engine.epoch
  sequence : next.sequence = engine.sequence
  nextOrder : next.nextOrder = engine.nextOrder
  nextTrade : next.nextTrade = engine.nextTrade

/--
A property of the stores that the business part of a command keeps is kept by
every call.
-/
theorem Outcome.preserves
    (holds : MatchingEngine → Prop)
    (stores : ∀ engine next, SameStores engine next → holds engine →
      holds next)
    (handles : ∀ (turn final : Turn) (c : Message),
      turn.engine.Sound slots → Turn.Handled slots turn c final →
        holds turn.engine → holds final.engine)
    (outcome : Outcome slots engine c turn) (sound : engine.Sound slots)
    (before : holds engine) : holds turn.engine := by
  have same : ∀ next, SameStores engine next → holds next :=
    fun next alike => stores engine next alike before
  cases outcome with
  | refused _ => exact same _ ⟨rfl, rfl, rfl, rfl, rfl, rfl, rfl, rfl, rfl⟩
  | status _ _ => exact same _ ⟨rfl, rfl, rfl, rfl, rfl, rfl, rfl, rfl, rfl⟩
  | anonymous _ _ => exact same _ ⟨rfl, rfl, rfl, rfl, rfl, rfl, rfl, rfl, rfl⟩
  | retried _ => exact same _ ⟨rfl, rfl, rfl, rfl, rfl, rfl, rfl, rfl, rfl⟩
  | unsequenced _ _ _ _ _ =>
      exact same _ ⟨rfl, rfl, rfl, rfl, rfl, rfl, rfl, rfl, rfl⟩
  | @handled done _ handled =>
      have started := same (engine.start c).engine
        ⟨rfl, rfl, rfl, rfl, rfl, rfl, rfl, rfl, rfl⟩
      exact stores done.engine _ ⟨rfl, rfl, rfl, rfl, rfl, rfl, rfl, rfl, rfl⟩
        (handles _ done c (start_sound sound c) handled started)

/-- What holds of an engine between calls. -/
structure Invariant (slots : Nat) (engine : MatchingEngine) : Prop where
  sound : engine.Sound slots
  uncrossed : (marketOf engine.books).Uncrossed
  conserved : engine.Conserved

/-- One message: no fault, its outcome, and the invariant again. -/
theorem process_invariant (invariant : engine.Invariant slots) (c : Message) :
    ∃ turn,
      engine.process c = .ok turn ∧ Outcome slots engine c turn ∧
        turn.engine.Invariant slots := by
  obtain ⟨turn, processed, outcome, sound⟩ :=
    process_outcome invariant.sound c
  refine ⟨turn, processed, outcome, sound, ?_, ?_⟩
  · refine outcome.preserves
      (fun engine => (marketOf engine.books).Uncrossed)
      (fun _ _ same uncrossed => ?_)
      (fun _ _ _ _ handled => handled.uncrossed)
      invariant.sound invariant.uncrossed
    rw [same.books]
    exact uncrossed
  · refine outcome.preserves Conserved
      (fun _ _ same conserved => ⟨?_, ?_⟩)
      (fun _ _ _ _ handled => handled.conserved)
      invariant.sound invariant.conserved
    · intro instrument
      unfold netQuantity
      rw [same.positions]
      exact conserved.quantity instrument
    · intro instrument
      unfold netCash
      rw [same.positions]
      exact conserved.cash instrument

/-- Engines the constructor returns. -/
def Created (pool : PoolBytes) (engine : MatchingEngine) : Prop :=
  ∃ instruments epoch, create pool instruments epoch = .ok engine

/-- Engines that calls of `process` lead to. -/
abbrev Reachable (pool : PoolBytes) : MatchingEngine → Prop :=
  StepSystem.Reachable process Turn.engine (Created pool)

/-- A created engine has accepted rules and empty books. -/
theorem create_ok
    {instruments : Instruments} {epoch : Nat}
    (created : create pool instruments epoch = .ok engine) :
    (∀ instrument r, instruments.find? instrument = some r →
        r.Accepted instrument) ∧
      epoch ≠ 0 ∧
      engine =
        { instruments := instruments
          books := instruments.mapValues fun _ => pool.book
          epoch := epoch } := by
  unfold create at created
  split at created
  · cases created
  · rename_i given
    split at created
    · cases created
    · rename_i accepted
      cases created
      refine ⟨?_, fun zero => given (Or.inr zero), rfl⟩
      intro instrument r found
      by_contra refused
      exact accepted ⟨(instrument, r), OrderedMap.mem_entries.mpr found, refused⟩

/-- A new engine has books and nothing in them. -/
theorem Created.market
    (created : Created pool engine) :
    marketOf engine.books = Market.empty := by
  obtain ⟨instruments, epoch, constructed⟩ := created
  obtain ⟨_, _, rfl⟩ := create_ok constructed
  funext instrument side
  cases found : instruments.find? instrument with
  | none => simp [marketOf, Market.empty, found]
  | some r => simp [marketOf, Market.empty, found, PoolBytes.book]

/-- A created engine has the invariant. -/
theorem Created.invariant
    (created : Created pool engine) :
    engine.Invariant pool.book.slots := by
  have market := created.market
  obtain ⟨instruments, epoch, constructed⟩ := created
  obtain ⟨accepted, _, rfl⟩ := create_ok constructed
  refine ⟨⟨accepted, ?_, ?_, ⟨?_, ?_, ?_, ?_⟩, Nat.one_pos, ?_⟩, ?_, ⟨?_, ?_⟩⟩
  · intro instrument book found
    simp only [OrderedMap.find?_mapValues, Option.map_eq_some_iff] at found
    obtain ⟨_, _, rfl⟩ := found
    exact ⟨OrderBook.ofPool_wf (by decide), rfl⟩
  · simp [OrderedMap.keys, OrderedMap.mapValues, Function.comp_def]
  · intro instrument side order
    rw [ledger_market, market]
    simp [Market.empty]
  · simp
  · simp
  · intro instrument side
    rw [ledger_market, market]
    exact .nil
  · simp
  · rw [market]
    exact fun _ _ member => by cases member
  · exact fun _ => rfl
  · exact fun _ => rfl

/-- So has every engine that a run reaches. -/
theorem Reachable.invariant
    (reachable : Reachable pool engine) : engine.Invariant pool.book.slots := by
  refine StepSystem.Reachable.invariant reachable
    (fun _ created => created.invariant) ?_
  intro state c result invariant processed
  obtain ⟨turn, processed', _, after⟩ := process_invariant invariant c
  rw [processed] at processed'
  cases processed'
  exact after

/-- A call on a reachable engine has one of the outcomes. -/
theorem Reachable.outcome
    (reachable : Reachable pool engine) (c : Message) :
    ∃ turn,
      engine.process c = .ok turn ∧ Outcome pool.book.slots engine c turn ∧
        Reachable pool turn.engine := by
  obtain ⟨turn, processed, outcome, _⟩ := process_invariant reachable.invariant c
  exact ⟨turn, processed, outcome, .step reachable processed⟩

/-- A message that is handled has its outcome, and leads on. -/
theorem Reachable.outcome_of
    (reachable : Reachable pool engine) (processed : engine.process c = .ok turn) :
    Outcome pool.book.slots engine c turn ∧ Reachable pool turn.engine := by
  obtain ⟨turn', processed', outcome, after⟩ := reachable.outcome c
  rw [processed] at processed'
  cases processed'
  exact ⟨outcome, after⟩

/-- What every outcome keeps holds of every reachable engine. -/
theorem Reachable.induction
    {holds : MatchingEngine → Prop} (reachable : Reachable pool engine)
    (atStart : ∀ engine, Created pool engine → holds engine)
    (kept : ∀ engine c turn, engine.Invariant pool.book.slots →
      Outcome pool.book.slots engine c turn → holds engine →
        holds turn.engine) :
    holds engine := by
  induction reachable with
  | start created => exact atStart _ created
  | step reachable processed inductionHypothesis =>
      exact kept _ _ _ (Reachable.invariant reachable)
        (Reachable.outcome_of reachable processed).1 inductionHypothesis

/-- The engine after a list of messages. -/
def after (engine : MatchingEngine) (messages : List Message) :
    MatchingEngine :=
  messages.foldl
    (fun engine c =>
      match engine.process c with
      | .ok turn => turn.engine
      | .error _ => engine)
    engine

/-- Any messages lead to a reachable engine. -/
theorem Reachable.after
    (reachable : Reachable pool engine) (messages : List Message) :
    Reachable pool (engine.after messages) := by
  induction messages generalizing engine with
  | nil => exact reachable
  | cons c rest inductionHypothesis =>
      obtain ⟨turn, processed, _, next⟩ := reachable.outcome c
      have unfolded : engine.after (c :: rest) = turn.engine.after rest := by
        simp [MatchingEngine.after, processed]
      rw [unfolded]
      exact inductionHypothesis next

/-- An engine with one instrument under the default rules. -/
def single : MatchingEngine where
  instruments := OrderedMap.empty.insert 1 {}
  books := (OrderedMap.empty.insert 1 ({} : InstrumentRules)).mapValues
    fun _ => PoolBytes.capacity.book
  epoch := 1

/-- The engine of one instrument is one such. -/
theorem single_reachable : Reachable .capacity single :=
  .start ⟨OrderedMap.empty.insert 1 {}, 1, rfl⟩

/-- Client 7 bids for five, of which client 8 sells it two. -/
def oneTrade : List Message :=
  [{ clientId := 7, requestId := 1, orderId := 1
     instrumentId := 1, price := 10, quantity := 5 },
   { clientId := 8, requestId := 1, orderId := 1, side := .ask
     instrumentId := 1, price := 10, quantity := 2 }]

end MatchingEngine

end LimitOrderBook
