import LimitOrderBook.EnginePairs
import LimitOrderBook.Features
import LimitOrderBook.OrderBookConsistency
import LimitOrderBook.ReplicaStream

namespace LimitOrderBook

/-!
# What a trade took of the displayed quantity

A replica and a feature engine are given the updates of a run one by one.  The
executions and trades of the run come in pairs, and every execution hits the
first order of its queue; so the quantity that is remembered before an
execution is what the replica displays at the best price of the maker's side,
and the trade right after it is signalled with its share of that quantity.
-/

/-- The quantity displayed at the best price of a queue. -/
def bestDisplayed (queue : List OrderView) : Quantity :=
  match queue with
  | [] => 0
  | best :: _ =>
      offered (queue.filter fun order => decide (order.price = best.price))

/-- The best order is part of what is displayed at its price. -/
theorem le_bestDisplayed (best : OrderView) (others : List OrderView) :
    best.quantity ≤ bestDisplayed (best :: others) := by
  simp [bestDisplayed]

namespace OrderBook

/-- The best price of a level map is displayed with its whole first level. -/
theorem bestDisplayed_shelfOrders
    {lt : Price → Price → Prop} [IsStrictTotalOrder Price lt] (side : Side)
    {levels : OrderedMap Price PriceLevel lt} (wf : LevelsWf levels) :
    bestDisplayed (shelfOrders side levels) =
      (levels.entries.head?.map fun entry =>
        (entry.2.orders.map QueueNode.remainingQuantity).sum).getD 0 := by
  have sorted := levels.sorted
  cases shape : levels.entries with
  | nil => simp [shelfOrders, shape, bestDisplayed]
  | cons entry rest =>
      rw [shape, List.pairwise_cons] at sorted
      have isLevel : entry ∈ levels.entries := by simp [shape]
      have nonempty := (wf.of_entry isLevel).nonempty
      have here : ∀ order ∈ levelOrders side entry.1 entry.2,
          order.price = entry.1 := by
        simp [levelOrders]
      have elsewhere : ∀ order ∈ rest.flatMap fun other =>
          levelOrders side other.1 other.2, order.price ≠ entry.1 := by
        intro order member same
        obtain ⟨other, otherMember, inLevel⟩ := List.mem_flatMap.mp member
        have price : order.price = other.1 := by
          obtain ⟨_, _, rfl⟩ := List.mem_map.mp inLevel
          rfl
        have before := sorted.1 other otherMember
        rw [← price, same] at before
        exact irrefl_of lt _ before
      have total : offered (levelOrders side entry.1 entry.2) =
          (entry.2.orders.map QueueNode.remainingQuantity).sum := by
        simp [offered, levelOrders, Function.comp_def]
      rw [shelfOrders, shape, List.flatMap_cons]
      cases queue : levelOrders side entry.1 entry.2 with
      | nil => exact absurd (List.map_eq_nil_iff.mp queue) nonempty
      | cons best others =>
          have price := here best (by rw [queue]; exact List.mem_cons_self)
          rw [List.cons_append, bestDisplayed, price, ← List.cons_append,
            ← queue, List.filter_append,
            List.filter_eq_self.mpr (by simpa using here),
            List.filter_eq_nil_iff.mpr (by simpa using elsewhere),
            List.append_nil, total]
          rfl

/-- `best_quantity` is what is displayed at the best price. -/
theorem Wf.bestQuantity_eq
    {book : OrderBook} (wf : book.Wf) (slotsFit : book.slots < 2 ^ 32)
    (fits : book.Fits) (side : Side) :
    (book.bestQuantity side).toNat = bestDisplayed (book.sideOrders side) := by
  cases side with
  | bid =>
      rw [sideOrders, bestDisplayed_shelfOrders .bid wf.bidLevels, bestQuantity]
      cases shape : book.bids.entries with
      | nil => rfl
      | cons entry rest =>
          have isLevel : entry ∈ book.sideLevels .bid := by
            simp [sideLevels, shape]
          exact (wf.levelSound slotsFit fits isLevel).aggregate
  | ask =>
      rw [sideOrders, bestDisplayed_shelfOrders .ask wf.askLevels, bestQuantity]
      cases shape : book.asks.entries with
      | nil => rfl
      | cons entry rest =>
          have isLevel : entry ∈ book.sideLevels .ask := by
            simp [sideLevels, shape]
          exact (wf.levelSound slotsFit fits isLevel).aggregate
  | unlisted raw outside => rfl

end OrderBook

/-! ## One pair -/

/-- A replica and a feature engine that look at the same updates. -/
structure Watcher where
  replica : MarketReplica
  features : FeatureEngine

namespace Watcher

/-- One update: `before`, `consume`, `after`. -/
def observe (watcher : Watcher) (m : Message) : Watcher :=
  let features :=
    watcher.features.before m (watcher.replica.book m.instrumentId)
  let replica := (watcher.replica.consume m).1
  ⟨replica, features.after m (replica.book m.instrumentId)⟩

def observeAll (watcher : Watcher) (deltas : List Message) : Watcher :=
  deltas.foldl observe watcher

/--
The trade that follows an execution is signalled: `shown` is the watcher right
before the execution, `final` the watcher right after the trade.
-/
structure Signalled (c : Message) (shown final : Watcher)
    (execute trade : Message) : Prop where
  executes : execute.update = .execute
  sameTrade : execute.tradeId = trade.tradeId
  sameInstrument : execute.instrumentId = trade.instrumentId
  maker : execute.side = trade.side.opposite
  taker : trade.side = c.side
  tradeId : (final.features.get trade.instrumentId).tradeId = trade.tradeId
  aggressor : (final.features.get trade.instrumentId).aggressor = c.side
  ratio : (final.features.get trade.instrumentId).aggressiveRatio =
    some ((trade.quantity : Rat) / bestDisplayed
      (marketOf shown.replica.books trade.instrumentId execute.side))
  nonzero : bestDisplayed
    (marketOf shown.replica.books trade.instrumentId execute.side) ≠ 0
  enough : trade.quantity ≤ bestDisplayed
    (marketOf shown.replica.books trade.instrumentId execute.side)
  share : 0 < (trade.quantity : Rat) / bestDisplayed
      (marketOf shown.replica.books trade.instrumentId execute.side) ∧
    (trade.quantity : Rat) / bestDisplayed
      (marketOf shown.replica.books trade.instrumentId execute.side) ≤ 1
  settled : final.features.pending.find? trade.instrumentId = none

/-- A part of something is a share of it. -/
theorem share_of_le {part whole : Nat} (positive : 0 < part)
    (within : part ≤ whole) :
    0 < (part : Rat) / whole ∧ (part : Rat) / whole ≤ 1 := by
  have wholePositive : (0 : Rat) < whole :=
    Nat.cast_pos.mpr (positive.trans_le within)
  constructor
  · exact div_pos (Nat.cast_pos.mpr positive) wholePositive
  · exact (div_le_one₀ wholePositive).mpr (Nat.cast_le.mpr within)

/-- No instrument has a pending entry that had none before. -/
def AddsNoPending (first last : Watcher) : Prop :=
  ∀ instrument, first.features.pending.find? instrument = none →
    last.features.pending.find? instrument = none

variable {watcher : Watcher} {c m execute trade : Message} {epoch : Nat}
  {sequence : Sequence} {market final : Market} {deltas : List Message}

theorem observeAll_append (first second : List Message) :
    watcher.observeAll (first ++ second) =
      (watcher.observeAll first).observeAll second :=
  List.foldl_append

theorem observe_pending (notExecute : m.update ≠ .execute)
    (notTrade : m.update ≠ .trade) :
    (watcher.observe m).features.pending = watcher.features.pending := by
  rw [observe]
  dsimp only
  rw [FeatureEngine.after_pending notTrade, FeatureEngine.before_eq notExecute]

/-- Before an execution its instrument has a book that shows its queue. -/
theorem displayed
    (follows : watcher.replica.Follows epoch sequence market)
    (pair : TradePair c market execute trade) :
    ∃ book, watcher.replica.book execute.instrumentId = some book ∧
      (book.bestQuantity execute.side).toNat =
        bestDisplayed (market execute.instrumentId execute.side) := by
  obtain ⟨best, others, isQueue, _, _⟩ := pair.first
  have live : best ∈ marketOf watcher.replica.books execute.instrumentId
      execute.side := by
    rw [follows.books.shows, isQueue]
    exact List.mem_cons_self
  obtain ⟨book, found, _⟩ := book_of_mem live
  obtain ⟨wf, bookSlots⟩ := follows.books.wf _ _ found
  have shows : ∀ side,
      book.sideOrders side = market execute.instrumentId side := by
    intro side
    rw [← follows.books.shows, marketOf_of_find? found]
  refine ⟨book, found, ?_⟩
  rw [wf.bestQuantity_eq (bookSlots ▸ watcher.replica.pool.slots_lt), shows]
  intro side order member
  exact pair.narrow side order (shows side ▸ member)

theorem observe_execute
    (watcher : Watcher) (isDelta : execute.kind = .delta)
    (pair : TradePair c market execute trade) :
    (watcher.observe execute).features.pending =
      watcher.features.pending.insert trade.instrumentId
        ⟨trade.tradeId, ((watcher.replica.book execute.instrumentId).map
          fun book => book.bestQuantity execute.side).getD 0⟩ := by
  have notTrade : execute.update ≠ .trade := by simp [pair.executes]
  rw [observe]
  dsimp only
  rw [FeatureEngine.after_pending notTrade,
    FeatureEngine.before_pending isDelta pair.executes, pair.tradeId,
    pair.instrument]

theorem observe_trade
    (isDelta : m.kind = .delta) (isTrade : m.update = .trade)
    {quantity : UInt64}
    (found : watcher.features.pending.find? m.instrumentId =
      some ⟨m.tradeId, quantity⟩) :
    (watcher.observe m).features.pending =
        watcher.features.pending.erase m.instrumentId ∧
      ((watcher.observe m).features.get m.instrumentId).aggressiveRatio =
        (if quantity ≠ 0 then some ((m.quantity : Rat) / quantity.toNat)
          else none) ∧
      ((watcher.observe m).features.get m.instrumentId).tradeId = m.tradeId ∧
      ((watcher.observe m).features.get m.instrumentId).aggressor = m.side := by
  have notExecute : m.update ≠ .execute := by simp [isTrade]
  simp only [observe, FeatureEngine.before_eq notExecute]
  obtain ⟨pending, feature⟩ := FeatureEngine.after_trade isDelta isTrade found
  exact ⟨pending, by rw [feature], by rw [feature], by rw [feature]⟩

/-- Whatever is displayed, a trade takes the entry of its execution. -/
theorem observe_pair_pending
    (pair : TradePair c market execute trade)
    (executeDelta : execute.kind = .delta) (tradeDelta : trade.kind = .delta)
    (instrument : InstrumentId) :
    ((watcher.observe execute).observe trade).features.pending.find?
        instrument =
      if instrument = trade.instrumentId then none
      else watcher.features.pending.find? instrument := by
  have pending := watcher.observe_execute executeDelta pair
  obtain ⟨erased, _⟩ := observe_trade tradeDelta pair.trades
    (by rw [pending, OrderedMap.find?_insert, if_pos rfl])
  rw [erased, OrderedMap.find?_erase, pending, OrderedMap.find?_insert]
  split_ifs
  · rfl
  · rfl

/-- Watching an execution and its trade signals the trade. -/
theorem observe_pair
    (follows : watcher.replica.Follows epoch sequence market)
    (pair : TradePair c market execute trade)
    (executeDelta : execute.kind = .delta) (tradeDelta : trade.kind = .delta) :
    Signalled c watcher ((watcher.observe execute).observe trade) execute
      trade := by
  obtain ⟨book, found, quantity⟩ := displayed follows pair
  obtain ⟨best, others, isQueue, _, enough⟩ := pair.first
  have covered : trade.quantity ≤
      bestDisplayed (market execute.instrumentId execute.side) := by
    rw [isQueue, ← pair.quantity]
    exact enough.trans (le_bestDisplayed best others)
  have positive : 0 < trade.quantity := by
    rw [← pair.quantity]
    exact Nat.pos_of_ne_zero pair.positive
  have nonzero : book.bestQuantity execute.side ≠ 0 := by
    intro zero
    rw [← quantity, zero] at covered
    exact Nat.not_le.mpr positive covered
  have pending := watcher.observe_execute executeDelta pair
  rw [found] at pending
  obtain ⟨_, ratio, tradeId, aggressor⟩ :=
    observe_trade tradeDelta pair.trades
      (by rw [pending, OrderedMap.find?_insert, if_pos rfl])
  rw [Option.map_some, Option.getD_some, if_pos nonzero, quantity,
    pair.instrument] at ratio
  rw [pair.instrument] at covered
  exact
    { executes := pair.executes
      sameTrade := pair.tradeId
      sameInstrument := pair.instrument
      maker := pair.maker
      taker := pair.taker
      tradeId := tradeId
      aggressor := aggressor.trans pair.taker
      ratio := by rw [follows.books.shows]; exact ratio
      nonzero := by rw [follows.books.shows]; lia
      enough := by rw [follows.books.shows]; exact covered
      share := by
        rw [follows.books.shows]
        exact share_of_le positive covered
      settled := by
        rw [observe_pair_pending pair executeDelta tradeDelta, if_pos rfl] }

/-! ## Whole feeds -/

/-- The replica follows the feed whatever the features are. -/
theorem observe_follows
    (follows : watcher.replica.Follows epoch sequence market)
    (isDelta : m.kind = .delta) (sameEpoch : m.epoch = epoch)
    (next : m.sequence = sequence + 1)
    (admitted : market.Admits watcher.replica.pool.book.slots m) :
    (watcher.observe m).replica.pool = watcher.replica.pool ∧
      (watcher.observe m).replica.Follows epoch (sequence + 1)
        (market.applyDelta m) := by
  obtain ⟨after, consumed, samePool, afterFollows⟩ :=
    follows.consume isDelta sameEpoch next admitted
  simp only [observe, consumed]
  exact ⟨samePool, afterFollows⟩

theorem observeAll_follows
    (follows : watcher.replica.Follows epoch sequence market)
    (numbered : Numbered epoch sequence deltas)
    (feed : Market.Feed watcher.replica.pool.book.slots market deltas final) :
    (watcher.observeAll deltas).replica.pool = watcher.replica.pool ∧
      (watcher.observeAll deltas).replica.Follows epoch
        (sequence + deltas.length) final := by
  induction deltas generalizing watcher sequence market with
  | nil =>
      cases feed
      exact ⟨rfl, follows⟩
  | cons m rest inductionHypothesis =>
      obtain ⟨isDelta, sameEpoch, next, restNumbered⟩ := numbered
      cases feed with
      | next admitted restFeed =>
          obtain ⟨samePool, restFollows⟩ :=
            observe_follows follows isDelta sameEpoch next admitted
          rw [← samePool] at restFeed
          obtain ⟨finalPool, finalFollows⟩ :=
            inductionHypothesis restFollows restNumbered restFeed
          rw [Nat.add_assoc, Nat.add_comm 1] at finalFollows
          exact ⟨finalPool.trans samePool, finalFollows⟩

/-- A whole paired feed leaves no pending entry of its own. -/
theorem addsNoPending_of_paired
    (paired : Paired c market deltas)
    (areDeltas : ∀ m ∈ deltas, m.kind = .delta) :
    watcher.AddsNoPending (watcher.observeAll deltas) := by
  induction paired generalizing watcher with
  | done => exact fun _ absent => absent
  | quiet notExecute notTrade _ inductionHypothesis =>
      intro instrument absent
      refine inductionHypothesis
        (fun m member => areDeltas m (List.mem_cons_of_mem _ member))
        instrument ?_
      rw [observe_pending notExecute notTrade]
      exact absent
  | pair pair _ inductionHypothesis =>
      intro instrument absent
      refine inductionHypothesis
        (fun m member => areDeltas m (List.mem_cons_of_mem _
          (List.mem_cons_of_mem _ member))) instrument ?_
      rw [observe_pair_pending pair (areDeltas _ (by simp))
        (areDeltas _ (by simp)), absent, ite_self]

/-- Every trade of a paired feed is signalled. -/
theorem signalled_of_paired
    (paired : Paired c market deltas)
    (follows : watcher.replica.Follows epoch sequence market)
    (numbered : Numbered epoch sequence deltas)
    (feed : Market.Feed watcher.replica.pool.book.slots market deltas final)
    {before after : List Message} (shape : deltas = before ++ trade :: after)
    (isTrade : trade.update = .trade) :
    ∃ earlier execute, before = earlier ++ [execute] ∧
      Signalled c (watcher.observeAll earlier)
        (watcher.observeAll (before ++ [trade])) execute trade ∧
      watcher.AddsNoPending (watcher.observeAll (before ++ [trade])) := by
  obtain ⟨earlier, execute, rfl, earlierPaired, pair⟩ :=
    paired.split shape isTrade
  have taken : deltas.take earlier.length = earlier := by
    rw [shape, List.append_assoc, List.take_left]
  have earlierNumbered := numbered.take earlier.length
  have earlierFeed := feed.take earlier.length
  rw [taken] at earlierNumbered earlierFeed
  obtain ⟨_, earlierFollows⟩ :=
    observeAll_follows follows earlierNumbered earlierFeed
  have isDelta := numbered.isDelta
  have executeDelta := isDelta execute (by simp [shape])
  have tradeDelta := isDelta trade (by simp [shape])
  have whole : watcher.observeAll (earlier ++ [execute] ++ [trade]) =
      ((watcher.observeAll earlier).observe execute).observe trade := by
    simp [observeAll]
  rw [whole]
  refine ⟨earlier, execute, rfl,
    observe_pair earlierFollows pair executeDelta tradeDelta, ?_⟩
  intro instrument absent
  have earlierAbsent := addsNoPending_of_paired earlierPaired
    (fun m member => isDelta m (by simp [shape, member])) instrument absent
  rw [observe_pair_pending pair executeDelta tradeDelta, earlierAbsent,
    ite_self]

/-! ## Runs of an engine -/

open MatchingEngine

/--
Every trade of a run is signalled where it is published: `before` are the
updates of its batch up to it, the last of which is its execution.
-/
def SignalsTrades (start : Watcher) (messages : List Message)
    (turns : List Turn) : Prop :=
  ∀ earlier turn later, turns = earlier ++ turn :: later →
    ∀ before trade after, turn.batch.updates = before ++ trade :: after →
      trade.update = .trade →
        ∃ c prior execute, messages[earlier.length]? = some c ∧
          before = prior ++ [execute] ∧
          Signalled c (start.observeAll (feedOf earlier ++ prior))
            (start.observeAll (feedOf earlier ++ before ++ [trade])) execute
            trade ∧
          start.AddsNoPending
            (start.observeAll (feedOf earlier ++ before ++ [trade]))

theorem signalsTrades_of_run
    {engine : MatchingEngine} {messages : List Message} {turns : List Turn}
    (reachable : Reachable watcher.replica.pool engine)
    (follows : watcher.replica.Follows engine.epoch engine.sequence
      (marketOf engine.books))
    (ran : StepSystem.run process Turn.engine engine messages = .ok turns) :
    watcher.SignalsTrades messages turns := by
  intro earlier turn later turnHere before trade after tradeHere isTrade
  induction messages generalizing engine watcher turns earlier with
  | nil =>
      cases ran
      exact absurd turnHere (by simp)
  | cons c rest inductionHypothesis =>
      obtain ⟨first, others, processed, restRan, rfl⟩ :=
        StepSystem.run_cons_ok ran
      obtain ⟨outcome, next⟩ := reachable.outcome_of processed
      have sound := reachable.invariant.sound
      have feeding := outcome.feeding sound
      have paired := outcome.paired sound
      -- The turn of the trade is the first one or one of the others.
      cases earlier with
      | nil =>
          obtain ⟨rfl, _⟩ := List.cons.inj turnHere
          obtain ⟨prior, execute, rfl, signalled, adds⟩ :=
            signalled_of_paired paired follows feeding.numbered feeding.feed
              tradeHere isTrade
          exact ⟨c, prior, execute, rfl, rfl, signalled, adds⟩
      | cons head earlier =>
          obtain ⟨rfl, restHere⟩ := List.cons.inj turnHere
          obtain ⟨samePool, nextFollows⟩ :=
            observeAll_follows follows feeding.numbered feeding.feed
          rw [← feeding.sequence, ← feeding.epoch] at nextFollows
          rw [← samePool] at next
          obtain ⟨other, prior, execute, here, rfl, signalled, adds⟩ :=
            inductionHypothesis next nextFollows restRan _ restHere
          have unfolded : feedOf (first :: earlier) =
              first.batch.updates ++ feedOf earlier := rfl
          simp only [unfolded, List.append_assoc, observeAll_append]
            at signalled adds ⊢
          refine ⟨other, prior, execute, here, rfl, signalled, ?_⟩
          intro instrument absent
          exact adds instrument (addsNoPending_of_paired paired
            feeding.numbered.isDelta instrument absent)

/--
A replica restored from any reachable engine and any feature engine watch a
run.  After every trade the features hold its id, the side of the command and
its share of what the replica displayed at the best price of the maker's side
right before the execution, and its pending entry is gone.
-/
theorem trades_signalled
    {engine : MatchingEngine} {replica restored : MarketReplica}
    (reachable : Reachable replica.pool engine)
    (success : replica.restore engine.snapshot = (restored, .ok ()))
    (features : FeatureEngine) (messages : List Message) :
    ∃ turns, StepSystem.run process Turn.engine engine messages = .ok turns ∧
      SignalsTrades ⟨restored, features⟩ messages turns := by
  obtain ⟨samePool, follows⟩ := MarketReplica.restore_follows
    reachable.invariant reachable.epoch_ne_zero success
  obtain ⟨turns, ran, _⟩ := reachable.run_feeding messages
  rw [← samePool] at reachable
  exact ⟨turns, ran, signalsTrades_of_run reachable follows ran⟩

/-- A quarter of the best ask is taken. -/
theorem trades_signalled_a_quarter :
    ∃ restored turns,
      MarketReplica.restore { pool := .capacity } single.snapshot =
          (restored, .ok ()) ∧
        StepSystem.run process Turn.engine single
          [{ clientId := 7, requestId := 1, orderId := 1, side := .ask
             instrumentId := 1, price := 10, quantity := 20 },
            { clientId := 8, requestId := 1, orderId := 1
              instrumentId := 1, price := 10, quantity := 5 }] = .ok turns ∧
        SignalsTrades ⟨restored, {}⟩
          [{ clientId := 7, requestId := 1, orderId := 1, side := .ask
             instrumentId := 1, price := 10, quantity := 20 },
            { clientId := 8, requestId := 1, orderId := 1
              instrumentId := 1, price := 10, quantity := 5 }] turns := by
  obtain ⟨restored, success⟩ : ∃ restored,
      MarketReplica.restore { pool := .capacity } single.snapshot =
        (restored, .ok ()) :=
    MarketReplica.restore_ok single_reachable.invariant
      single_reachable.epoch_ne_zero (by decide +kernel)
  obtain ⟨turns, ran, signals⟩ := trades_signalled single_reachable success {}
    [{ clientId := 7, requestId := 1, orderId := 1, side := .ask
       instrumentId := 1, price := 10, quantity := 20 },
      { clientId := 8, requestId := 1, orderId := 1
        instrumentId := 1, price := 10, quantity := 5 }]
  exact ⟨restored, turns, success, ran, signals⟩

end Watcher

end LimitOrderBook
