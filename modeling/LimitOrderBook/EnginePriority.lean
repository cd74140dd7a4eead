import LimitOrderBook.EngineAtomicity

namespace LimitOrderBook

/-!
# Price-time priority

The reference result knows nothing of books and levels: it takes the resting
orders as a set, keeps those the command may trade with, sorts them by price
and exchange id and fills greedily.  The engine walks nested maps and lists
whose order is the result of the whole history; the queues being sorted in
every reachable state makes the two agree.
-/

/-- The fills a batch publishes. -/
def Batch.executions (batch : Batch) : List Fill :=
  batch.updates.filterMap fun m =>
    if m.update = .execute then some ⟨m.exchangeId, m.price, m.quantity⟩
    else none

/-- Better price first, and at one price the smaller id. -/
def ranksBefore (side : Side) (first second : OrderView) : Bool :=
  decide (OrderBook.priceLt side first.price second.price ∨
    first.price = second.price ∧ first.orderId ≤ second.orderId)

namespace MatchingEngine

/-- The resting orders a command may trade with. -/
def opposing (engine : MatchingEngine) (c : Message) : List OrderView :=
  (engine.resting.entries.filter fun entry =>
    decide (entry.2.instrumentId = c.instrumentId ∧
      entry.2.side = c.side.opposite) && crosses c entry.2.price).map
    fun entry => orderView entry.2

/-- The greedy result on the sorted set of opposing orders. -/
def reference (engine : MatchingEngine) (c : Message) : List Fill :=
  sweep c.quantity
    ((engine.opposing c).mergeSort (ranksBefore c.side.opposite))

end MatchingEngine

namespace MatchingEngine

variable {slots : Nat} {engine : MatchingEngine} {c : Message}

theorem Sound.mem_opposing
    (sound : engine.Sound slots) (order : OrderView) :
    order ∈ engine.opposing c ↔
      order ∈ marketOf engine.books c.instrumentId c.side.opposite ∧
        crosses c order.price = true := by
  have shown : order ∈ marketOf engine.books c.instrumentId c.side.opposite ↔
      _ := sound.linked.shown c.instrumentId c.side.opposite order
  rw [shown]
  simp only [opposing, List.mem_map, List.mem_filter, Bool.and_eq_true,
    decide_eq_true_eq]
  constructor
  · rintro ⟨entry, ⟨member, ⟨instrument, side⟩, crossesHere⟩, rfl⟩
    have found := OrderedMap.mem_entries.mp member
    have sameId := sound.exchangeId_eq found
    exact ⟨⟨entry.2, by simpa [orderView, sameId] using found, instrument, side,
      rfl⟩, crossesHere⟩
  · rintro ⟨⟨m, found, instrument, side, rfl⟩, crossesHere⟩
    have member : (m.exchangeId, m) ∈ engine.resting.entries :=
      OrderedMap.mem_entries.mpr found
    exact ⟨_, ⟨member, ⟨instrument, side⟩, crossesHere⟩, rfl⟩

theorem Sound.opposing_ids_nodup
    (sound : engine.Sound slots) (c : Message) :
    ((engine.opposing c).map OrderView.orderId).Nodup := by
  have ids : (engine.opposing c).map OrderView.orderId =
      (engine.resting.entries.filter fun entry =>
        decide (entry.2.instrumentId = c.instrumentId ∧
          entry.2.side = c.side.opposite) && crosses c entry.2.price).map
        Prod.fst := by
    rw [opposing, List.map_map]
    refine List.map_congr_left fun entry member => ?_
    exact sound.exchangeId_eq
      (OrderedMap.mem_entries.mp (List.mem_of_mem_filter member))
  rw [ids]
  exact List.Nodup.sublist (List.filter_sublist.map _)
    engine.resting.keys_nodup

/-- Sorting the set gives the marketable part of the queue. -/
theorem Sound.mergeSort_opposing
    (sound : engine.Sound slots) (side : c.side.Listed) :
    (engine.opposing c).mergeSort (ranksBefore c.side.opposite) =
      marketable c
        (marketOf engine.books c.instrumentId c.side.opposite) := by
  have queued : (marketOf engine.books c.instrumentId
      c.side.opposite).Pairwise (Ahead c.side.opposite) :=
    sound.linked.queued c.instrumentId c.side.opposite
  have sorted : ((engine.opposing c).mergeSort
      (ranksBefore c.side.opposite)).Pairwise (Ahead c.side.opposite) :=
    PriorityQueue.mergeSort_ahead (sound.opposing_ids_nodup c)
  rw [marketable_eq_filter side queued]
  refine PriorityQueue.eq_of_mem_iff sorted (queued.filter _) ?_
  intro order
  rw [List.mem_mergeSort, sound.mem_opposing, List.mem_filter]

end MatchingEngine

/-! ## First in, first out -/

/-- A level's orders stand together in the priority list of its side. -/
theorem OrderBook.level_sublist
    {book : OrderBook} {level : LevelView} (member : level ∈ book.snapshot) :
    ∃ side, level.orders.Sublist (book.sideOrders side) ∧
      ∀ order ∈ level.orders, order.price = level.price := by
  have ofShelf : ∀ {lt : Price → Price → Prop} (side : Side)
      (levels : OrderedMap Price PriceLevel lt),
      level ∈ shelfLevels side levels →
        level.orders.Sublist (shelfOrders side levels) ∧
          ∀ order ∈ level.orders, order.price = level.price := by
    intro lt side levels member
    obtain ⟨entry, entryMember, rfl⟩ := List.mem_map.mp member
    refine ⟨?_, ?_⟩
    · rw [shelfOrders, List.flatMap_def]
      exact List.sublist_flatten_of_mem
        (List.mem_map.mpr ⟨entry, entryMember, rfl⟩)
    · intro order orderMember
      obtain ⟨node, _, rfl⟩ := List.mem_map.mp orderMember
      rfl
  rcases List.mem_append.mp member with isBid | isAsk
  · exact ⟨.bid, ofShelf .bid book.bids isBid⟩
  · exact ⟨.ask, ofShelf .ask book.asks isAsk⟩

namespace MatchingEngine

variable {slots : Nat} {engine : MatchingEngine} {c : Message}

/-- At every level the orders stand in the order of their exchange ids. -/
def LevelsFifo (engine : MatchingEngine) : Prop :=
  ∀ instrument book, engine.books.find? instrument = some book →
    ∀ level ∈ book.snapshot,
      (level.orders.map OrderView.orderId).Pairwise (· < ·)

theorem Sound.levelsFifo (sound : engine.Sound slots) : engine.LevelsFifo := by
  intro instrument book found level member
  obtain ⟨side, sublist, samePrice⟩ := OrderBook.level_sublist member
  have queued : (marketOf engine.books instrument side).Pairwise (Ahead side) :=
    sound.linked.queued instrument side
  rw [marketOf_of_find? found] at queued
  refine List.pairwise_map.mpr
    ((queued.sublist sublist).imp_of_mem ?_)
  intro first second firstMember secondMember ahead
  rcases ahead with better | ⟨_, earlier⟩
  · rw [samePrice first firstMember, samePrice second secondMember] at better
    exact absurd better (irrefl_of (OrderBook.priceLt side) level.price)
  · exact earlier

end MatchingEngine

/-! ## What a command fills -/

namespace Turn

variable {slots : Nat} {turn final swept : Turn} {c incoming : Message}
  {old : Option Message} {r : InstrumentRules} {fills : List Fill}
  {left after leaves : Quantity} {books : Books}

theorem executions_of_updates
    {updates : List Message}
    (appended : final.batch.updates = turn.batch.updates ++ updates) :
    final.batch.executions =
      turn.batch.executions ++
        ({ updates := updates } : Batch).executions := by
  simp [Batch.executions, appended]

/-- The executions a sweep publishes are its fills. -/
theorem Fills.executions
    (executed : Fills slots c incoming turn left fills final after) :
    final.batch.executions = turn.batch.executions ++ fills := by
  induction executed with
  | done => simp
  | @next turn final left after fill rest maker books fillOf _ _
      inductionHypothesis =>
      have published : (turn.afterFill c incoming maker fill left
          books).batch.executions = turn.batch.executions ++ [fill] := by
        have appended : (turn.afterFill c incoming maker fill left
            books).batch.updates = turn.batch.updates ++
              [(execution maker fill turn.engine.nextTrade).asDelta .execute
                turn.engine.epoch (turn.engine.sequence + 1)] ++
              [(takerFill incoming fill (left - fill.size)
                turn.engine.nextTrade).asDelta .trade turn.engine.epoch
                  (turn.engine.sequence + 2)] := rfl
        rw [List.append_assoc] at appended
        rw [executions_of_updates appended]
        have same : fill = ⟨maker.exchangeId, maker.price, fill.size⟩ := by
          rw [← fillOf.id, ← fillOf.price]
        conv_rhs => rw [same]
        rfl
      rw [inductionHypothesis, published, List.append_assoc]
      rfl

/-- A sweep leaves the side of the command alone. -/
theorem Fills.sameSide
    (executed : Fills slots c incoming turn left fills final after)
    (sound : turn.engine.Sound slots) (listed : c.side.Listed) :
    marketOf final.engine.books c.instrumentId c.side =
      marketOf turn.engine.books c.instrumentId c.side := by
  induction executed with
  | done => rfl
  | @next turn final left after fill rest maker books fillOf reshelved _
      inductionHypothesis =>
      rw [inductionHypothesis (afterFill_sound incoming sound fillOf reshelved)]
      change marketOf books c.instrumentId c.side = _
      rw [reshelved.shows]
      have apart : ∀ order ∈ marketOf turn.engine.books c.instrumentId c.side,
          order.orderId ≠ maker.exchangeId := by
        intro order member sameId
        have shown := sound.linked.quantity_of_shown fillOf.found member sameId
        have side := shown.2.2.trans fillOf.side
        rcases listed with isBid | isAsk
        · simp [isBid, Side.opposite] at side
        · simp [isAsk, Side.opposite] at side
      unfold Ledger.execute
      split
      · simp only [Ledger.remove, Market.remove, MatchingEngine.ledger_market,
          fillOf.instrument, if_true]
        exact List.filter_eq_self.mpr fun order member => by
          simpa using apart order member
      · simp only [Ledger.resize, Market.resize, MatchingEngine.ledger_market,
          fillOf.instrument, if_true]
        conv_rhs => rw [← List.map_id (marketOf turn.engine.books _ _)]
        refine List.map_congr_left fun order member => ?_
        simp [OrderView.resize, apart order member]

/-- A sweep leaves the keys of the command's client alone. -/
theorem Fills.ownKeys
    (executed : Fills slots c incoming turn left fills final after)
    (orderId : OrderId) :
    final.engine.byClient.find? (c.clientId, orderId) =
      turn.engine.byClient.find? (c.clientId, orderId) := by
  induction executed with
  | done => rfl
  | @next turn final left after fill rest maker books fillOf reshelved _
      inductionHypothesis =>
      rw [inductionHypothesis]
      have foreign : ¬ (c.clientId = maker.clientId ∧
          orderId = maker.orderId) := fun same => fillOf.foreign same.1.symm
      change (turn.engine.ledger.execute maker fill.size).byClient.find? _ = _
      unfold Ledger.execute
      split
      · simp [Ledger.remove, foreign]
      · rfl

/-- An accepted command publishes the fills of its plan. -/
theorem Placement.executions
    (placement : Placement slots turn c old r fills leaves books swept) :
    (swept.publishResidual (turn.engine.incoming c) leaves
        (rests c leaves)).batch.executions =
      turn.batch.executions ++ fills := by
  have entered : (turn.afterEntry c old (turn.restOf c leaves)
      books).batch.executions = turn.batch.executions := by
    cases old with
    | none => rfl
    | some m =>
        have appended : (turn.afterEntry c (some m) (turn.restOf c leaves)
            books).batch.updates = turn.batch.updates ++
              [m.asDelta .cancel turn.engine.epoch
                (turn.engine.sequence + 1)] := rfl
        rw [executions_of_updates appended]
        simp [Batch.executions, Message.asDelta]
  have residual : (swept.publishResidual (turn.engine.incoming c) leaves
      (rests c leaves)).batch.executions = swept.batch.executions := by
    unfold publishResidual
    split
    · have appended : (swept.update
          { turn.engine.incoming c with
            quantity := leaves, remaining := leaves } .add).batch.updates =
          swept.batch.updates ++
            [(turn.engine.residual c leaves).asDelta .add swept.engine.epoch
              (swept.engine.sequence + 1)] := rfl
      rw [executions_of_updates appended]
      simp [Batch.executions, Message.asDelta]
    · split <;> rfl
  rw [residual, placement.executed.executions, entered]

/-- The plan of an accepted command is the reference result. -/
theorem Placement.reference
    (placement : Placement slots turn c old r fills leaves books swept)
    (sound : turn.engine.Sound slots) :
    fills = turn.engine.reference c := by
  rw [placement.plan, MatchingEngine.reference,
    sound.mergeSort_opposing placement.checked.command.side]

/-- The queue of a priority-losing replacement: its successor comes last. -/
theorem Placement.tail
    {m : Message}
    (placement : Placement slots turn c (some m) r fills leaves books swept)
    (sound : turn.engine.Sound slots) (restsHere : rests c leaves = true) :
    (marketOf swept.engine.books c.instrumentId c.side).filter
        (fun order => decide (order.price = c.price)) =
      ((marketOf turn.engine.books c.instrumentId c.side).filter
          fun order => decide (order.orderId ≠ m.exchangeId)).filter
        (fun order => decide (order.price = c.price)) ++
        [⟨turn.engine.nextOrder, c.side, c.price, leaves⟩] := by
  have queued : ((marketOf turn.engine.books c.instrumentId c.side).filter
      fun order => decide (order.orderId ≠ m.exchangeId)).Pairwise
        (Ahead c.side) :=
    (sound.linked.queued c.instrumentId c.side).filter _
  have entered : marketOf (turn.afterEntry c (some m) (turn.restOf c leaves)
      books).engine.books c.instrumentId c.side =
      ((marketOf turn.engine.books c.instrumentId c.side).filter
        fun order => decide (order.orderId ≠ m.exchangeId)).orderedInsert
          (OrderBook.Better c.side)
          ⟨turn.engine.nextOrder, c.side, c.price, leaves⟩ := by
    rw [afterEntry_engine]
    simp only [placement.shelves.shows, restOf, restsHere, if_true]
    simp [Ledger.exchange, Ledger.add, Ledger.remove, Market.insert,
      Market.remove, orderView, MatchingEngine.residual,
      MatchingEngine.incoming, placement.enters.instrument]
  rw [placement.executed.sameSide placement.entrySound
    placement.checked.command.side, entered]
  exact PriorityQueue.filter_key_orderedInsert
    (PriorityQueue.inOrder_of_ahead queued)
    (⟨turn.engine.nextOrder, c.side, c.price, leaves⟩ : OrderView)

/-- The key of a priority-losing replacement names its successor. -/
theorem Placement.key
    {m : Message}
    (placement : Placement slots turn c (some m) r fills leaves books swept) :
    swept.engine.byClient.find? (c.clientId, c.orderId) =
      if rests c leaves then some turn.engine.nextOrder else none := by
  rw [placement.executed.ownKeys, afterEntry_engine]
  have enters := placement.enters
  unfold restOf
  split
  · simp [Ledger.exchange, Ledger.add, MatchingEngine.residual,
      MatchingEngine.incoming]
  · simp [Ledger.exchange, Ledger.remove, enters.client, enters.order]

/-- A replacement rests exactly when something is left of it. -/
theorem Placement.rests_iff
    {m : Message}
    (placement : Placement slots turn c (some m) r fills leaves books swept)
    (sound : turn.engine.Sound slots) :
    rests c leaves = true ↔ filled fills < c.quantity := by
  have positive := (sound.linked.numbered _ m placement.enters.found).2.1
  obtain ⟨isLimit, isGtc⟩ :=
    placement.checked.command.replace (Nat.ne_of_gt positive)
  have rest := placement.rest
  simp only [rests, isLimit, isGtc, and_true, decide_eq_true_eq]
  lia

end Turn

namespace MatchingEngine

variable {slots : Nat} {engine : MatchingEngine} {c : Message} {turn : Turn}
  {pool : PoolBytes}

/-- A replacement that keeps the id and the place of the order. -/
structure KeepsPlace (engine next : MatchingEngine) (c old : Message) :
    Prop where
  sameId : next.byClient.find? (c.clientId, c.orderId) = some old.exchangeId
  sameQueues : marketOf next.books =
    (marketOf engine.books).resize c.instrumentId old.exchangeId c.quantity

/-- A replacement that gives the order a new id behind everyone else. -/
structure LosesPlace (engine next : MatchingEngine) (c old : Message) :
    Prop where
  fresh : ∀ id m, engine.resting.find? id = some m → id < engine.nextOrder
  newId : next.byClient.find? (c.clientId, c.orderId) =
    if filled (engine.reference c) < c.quantity then some engine.nextOrder
    else none
  lastInQueue : filled (engine.reference c) < c.quantity →
    (marketOf next.books c.instrumentId c.side).filter
        (fun order => decide (order.price = c.price)) =
      ((marketOf engine.books c.instrumentId c.side).filter
          fun order => decide (order.orderId ≠ old.exchangeId)).filter
        (fun order => decide (order.price = c.price)) ++
        [⟨engine.nextOrder, c.side, c.price,
          c.quantity - filled (engine.reference c)⟩]

theorem reference_start (engine : MatchingEngine) (c : Message) :
    (engine.start c).engine.reference c = engine.reference c :=
  rfl

/-- An accepted new order fills the reference result. -/
theorem new_executions
    (sound : engine.Sound slots)
    (handled : Turn.Handled slots (engine.start c) c turn)
    (action : c.action = .new) (accepted : ¬ Turn.TurnedDown (engine.start c) c turn) :
    (turn.finish c).batch.executions = engine.reference c := by
  cases handled with
  | rejected nonzero => exact absurd (.rejected nonzero) accepted
  | full => exact absurd .full accepted
  | cancelled targets _ => exact absurd targets.action (by simp [action])
  | reduced isReplace _ _ _ _ _ => rw [action] at isReplace; cases isReplace
  | placed _ placement =>
      rw [← reference_start,
        ← placement.reference (start_sound sound c)]
      exact placement.executions

/-- An accepted replacement reduces in place or fills the reference result. -/
theorem replace_executions
    (sound : engine.Sound slots)
    (handled : Turn.Handled slots (engine.start c) c turn)
    (action : c.action = .replace)
    (accepted : ¬ Turn.TurnedDown (engine.start c) c turn) :
    ∃ id old,
      engine.byClient.find? (c.clientId, c.orderId) = some id ∧
        engine.resting.find? id = some old ∧
        if old.price = c.price ∧ c.quantity ≤ old.quantity then
          (turn.finish c).batch.executions = [] ∧
            KeepsPlace engine (turn.finish c).engine c old
        else
          (turn.finish c).batch.executions = engine.reference c ∧
            LosesPlace engine (turn.finish c).engine c old := by
  have started := start_sound sound c
  have keyOf : ∀ m, (engine.start c).engine.Replaces c m →
      engine.byClient.find? (c.clientId, c.orderId) = some m.exchangeId := by
    intro m replaces
    rw [← replaces.client, ← replaces.order]
    exact sound.linked.find?_key replaces.found
  cases handled with
  | rejected nonzero => exact absurd (.rejected nonzero) accepted
  | full => exact absurd .full accepted
  | cancelled targets _ => exact absurd targets.action (by simp [action])
  | @reduced m r books _ _ replaces samePrice smaller reshelved =>
      refine ⟨m.exchangeId, m, keyOf m replaces, replaces.found, ?_⟩
      rw [if_pos ⟨samePrice, smaller⟩]
      refine ⟨?_, ?_, ?_⟩
      · change ((engine.start c).afterReduce c m books).batch.executions = []
        unfold Turn.afterReduce
        split <;> rfl
      · change ((engine.start c).afterReduce c m books).engine.byClient.find? _ =
          _
        rw [Turn.afterReduce_engine]
        exact keyOf m replaces
      · change marketOf ((engine.start c).afterReduce c m books).engine.books = _
        rw [Turn.afterReduce_engine]
        refine reshelved.shows.trans ?_
        rw [← replaces.instrument]
        rfl
  | @placed oldOrder r fills leaves books swept entry placement =>
      cases oldOrder with
      | none => rw [action] at entry; cases entry
      | some m =>
          refine ⟨m.exchangeId, m, keyOf m placement.enters,
            placement.enters.found, ?_⟩
          have isReference := placement.reference started
          rw [reference_start] at isReference
          have restsIff := placement.rests_iff started
          rw [if_neg (placement.moves m rfl)]
          obtain ⟨sequence, responseSequence, published⟩ :=
            Turn.publishResidual_engine swept ((engine.start c).engine.incoming c)
              leaves (Turn.rests c leaves)
          refine ⟨?_, ?_, ?_, ?_⟩
          · rw [← isReference]
            exact placement.executions
          · exact fun id stored storedFound =>
              (sound.linked.numbered id stored storedFound).2.2
          · change (swept.publishResidual _ _ _).engine.byClient.find? _ = _
            rw [published]
            simp only [← isReference, ← restsIff]
            exact placement.key
          · intro someLeft
            rw [← isReference] at someLeft ⊢
            change (marketOf (swept.publishResidual _ _ _).engine.books _
              _).filter _ = _
            rw [published]
            have tail := placement.tail started (restsIff.mpr someLeft)
            rw [placement.rest] at tail
            exact tail

/--
In every reachable state each level is first in, first out, and every accepted
new order or priority-losing replacement fills exactly the greedy reference
result, each maker at its own price.  A reduction at the same price keeps the
id and the place of the order; any other replacement gives it a fresh id and
the last place of its level.  An exact retry is no such command: it is answered
from the cache and fills nothing.
-/
theorem price_time_priority (reachable : Reachable pool engine) :
    engine.LevelsFifo ∧
      ∀ c turn, engine.WellSequenced c → engine.process c = .ok turn →
        (∀ m ∈ turn.batch.reports, m.report ≠ .rejected) →
          (c.action = .new → turn.batch.executions = engine.reference c) ∧
          (c.action = .replace →
            ∃ id old, engine.byClient.find? (c.clientId, c.orderId) = some id ∧
              engine.resting.find? id = some old ∧
              if old.price = c.price ∧ c.quantity ≤ old.quantity then
                turn.batch.executions = [] ∧
                  KeepsPlace engine turn.engine c old
              else
                turn.batch.executions = engine.reference c ∧
                  LosesPlace engine turn.engine c old) := by
  have sound := reachable.invariant.sound
  refine ⟨sound.levelsFifo, ?_⟩
  intro c turn sequenced processed unrejected
  obtain ⟨outcome, _⟩ := reachable.outcome_of processed
  obtain ⟨done, handled, rfl⟩ := outcome.handled_of_sequenced sequenced
  have accepted : ¬ Turn.TurnedDown (engine.start c) c done := by
    intro turnedDown
    obtain ⟨m, member, isRejection⟩ := turnedDown.rejects
    exact unrejected m (List.mem_append_left _ member) isRejection
  exact ⟨fun isNew => new_executions sound handled isNew accepted,
    fun isReplace => replace_executions sound handled isReplace accepted⟩

/-- A buyer takes the better of two offers first. -/
theorem price_time_priority_two_levels :
    ∃ engine turn,
      engine = single.after
          [{ clientId := 7, requestId := 1, orderId := 1, side := .ask
             instrumentId := 1, price := 11, quantity := 5 },
            { clientId := 7, requestId := 2, orderId := 2, side := .ask
              instrumentId := 1, price := 10, quantity := 5 }] ∧
        engine.process
            { clientId := 8, requestId := 1, orderId := 1
              instrumentId := 1, price := 11, quantity := 7 } = .ok turn ∧
        turn.batch.executions = [⟨2, 10, 5⟩, ⟨1, 11, 2⟩] ∧
        engine.reference
            { clientId := 8, requestId := 1, orderId := 1
              instrumentId := 1, price := 11, quantity := 7 } =
          [⟨2, 10, 5⟩, ⟨1, 11, 2⟩] := by
  let offers : List Message :=
    [{ clientId := 7, requestId := 1, orderId := 1, side := .ask
       instrumentId := 1, price := 11, quantity := 5 },
      { clientId := 7, requestId := 2, orderId := 2, side := .ask
        instrumentId := 1, price := 10, quantity := 5 }]
  let bid : Message :=
    { clientId := 8, requestId := 1, orderId := 1
      instrumentId := 1, price := 11, quantity := 7 }
  have evaluated : (((single.after offers).process bid).map fun turn =>
      (turn.batch.executions, turn.batch.reports.all fun m =>
        decide (m.report ≠ .rejected))).toOption =
      some ([⟨2, 10, 5⟩, ⟨1, 11, 2⟩], true) := by
    decide +kernel
  obtain ⟨turn, processed, _⟩ := (single_reachable.after offers).outcome bid
  rw [processed] at evaluated
  simp only [Except.map, Except.toOption, Option.some.injEq, Prod.mk.injEq, List.all_eq_true,
    decide_eq_true_eq] at evaluated
  obtain ⟨executed, clean⟩ := evaluated
  have fills := ((price_time_priority (single_reachable.after offers)).2 bid
    turn ⟨⟨rfl, by decide, by decide⟩, by decide, rfl⟩ processed clean).1 rfl
  exact ⟨_, turn, rfl, processed, executed, fills.symm.trans executed⟩

end MatchingEngine

end LimitOrderBook
