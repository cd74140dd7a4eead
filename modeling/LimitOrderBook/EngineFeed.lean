import LimitOrderBook.EnginePriority

namespace LimitOrderBook

/-!
# The market data of a call

The updates of a batch, applied in their order to the market before the call,
give the market after it.  The engine itself works in another order: it stores
the residual first, while its `Add` is the last update.  In between, the feed
shows the engine's market with the queue of the command as it was without the
residual; `overlay` is that market.
-/

namespace Market

/-- A market with one queue replaced. -/
def overlay (market : Market) (instrument : InstrumentId) (side : Side)
    (queue : List OrderView) : Market := fun other otherSide =>
  if other = instrument ∧ otherSide = side then queue
  else market other otherSide

theorem overlay_self (market : Market) (instrument : InstrumentId)
    (side : Side) :
    market.overlay instrument side (market instrument side) = market := by
  funext other otherSide
  unfold overlay
  split
  · rename_i here
    rw [here.1, here.2]
  · rfl

end Market

/-- Deltas of one epoch that are numbered from a sequence on. -/
def Numbered (epoch : Nat) : Sequence → List Message → Prop
  | _, [] => True
  | sequence, m :: rest =>
      m.kind = .delta ∧ m.epoch = epoch ∧ m.sequence = sequence + 1 ∧
        Numbered epoch (sequence + 1) rest

theorem Numbered.append
    {epoch : Nat} {sequence : Sequence} {first second : List Message}
    (before : Numbered epoch sequence first)
    (after : Numbered epoch (sequence + first.length) second) :
    Numbered epoch sequence (first ++ second) := by
  induction first generalizing sequence with
  | nil => exact after
  | cons m rest inductionHypothesis =>
      obtain ⟨isDelta, sameEpoch, next, restNumbered⟩ := before
      refine ⟨isDelta, sameEpoch, next, inductionHypothesis restNumbered ?_⟩
      rw [List.length_cons, Nat.add_comm rest.length, ← Nat.add_assoc] at after
      exact after

theorem Numbered.isDelta
    {epoch : Nat} {sequence : Sequence} {deltas : List Message}
    (numbered : Numbered epoch sequence deltas) :
    ∀ m ∈ deltas, m.kind = .delta := by
  induction deltas generalizing sequence with
  | nil => simp
  | cons m rest inductionHypothesis =>
      obtain ⟨isDelta, _, _, restNumbered⟩ := numbered
      exact List.forall_mem_cons.mpr
        ⟨isDelta, inductionHypothesis restNumbered⟩

theorem Numbered.concat
    {epoch : Nat} {sequence : Sequence} {deltas : List Message} {m : Message}
    (numbered : Numbered epoch sequence deltas) (isDelta : m.kind = .delta)
    (sameEpoch : m.epoch = epoch)
    (next : m.sequence = sequence + deltas.length + 1) :
    Numbered epoch sequence (deltas ++ [m]) :=
  numbered.append ⟨isDelta, sameEpoch, next, trivial⟩

theorem Numbered.take
    {epoch : Nat} {sequence : Sequence} {deltas : List Message}
    (numbered : Numbered epoch sequence deltas) (count : Nat) :
    Numbered epoch sequence (deltas.take count) := by
  induction deltas generalizing sequence count with
  | nil => rw [List.take_nil]; exact numbered
  | cons m rest inductionHypothesis =>
      obtain ⟨isDelta, sameEpoch, next, restNumbered⟩ := numbered
      cases count with
      | zero => trivial
      | succ count =>
          exact ⟨isDelta, sameEpoch, next,
            inductionHypothesis restNumbered count⟩

/-- The updates of a turn so far lead from the market at the start to another. -/
structure Feeding (slots : Nat) (start : MatchingEngine) (turn : Turn)
    (market : Market) : Prop where
  feed : Market.Feed slots (marketOf start.books) turn.batch.updates market
  numbered : Numbered start.epoch start.sequence turn.batch.updates
  sequence : turn.engine.sequence =
    start.sequence + turn.batch.updates.length
  epoch : turn.engine.epoch = start.epoch

namespace Feeding

variable {slots : Nat} {start : MatchingEngine} {turn : Turn} {market : Market}

/-- Publishing a delta that the market admits. -/
theorem update
    (feeding : Feeding slots start turn market) (m : Message)
    (type : UpdateType)
    (admitted : market.Admits slots
      (m.asDelta type turn.engine.epoch (turn.engine.sequence + 1))) :
    Feeding slots start (turn.update m type)
      (market.applyDelta
        (m.asDelta type turn.engine.epoch (turn.engine.sequence + 1))) where
  feed := feeding.feed.append (.single admitted)
  numbered := feeding.numbered.concat rfl feeding.epoch
    (congrArg (· + 1) feeding.sequence)
  sequence := by
    change turn.engine.sequence + 1 =
      start.sequence + (turn.batch.updates ++ [_]).length
    rw [feeding.sequence, List.length_append, List.length_singleton,
      Nat.add_assoc]
  epoch := feeding.epoch

/-- Feeding only looks at the updates, the sequence and the epoch. -/
theorem congr
    (feeding : Feeding slots start turn market) {next : Turn}
    (updates : next.batch.updates = turn.batch.updates)
    (sequence : next.engine.sequence = turn.engine.sequence)
    (epoch : next.engine.epoch = turn.engine.epoch) :
    Feeding slots start next market where
  feed := by
    rw [updates]
    exact feeding.feed
  numbered := by
    rw [updates]
    exact feeding.numbered
  sequence := by
    rw [sequence, updates]
    exact feeding.sequence
  epoch := epoch.trans feeding.epoch

end Feeding

namespace Turn

variable {slots : Nat} {start : MatchingEngine} {turn final swept : Turn}
  {c incoming : Message} {old : Option Message} {r : InstrumentRules}
  {fills : List Fill} {left after leaves : Quantity} {books : Books}

/-- A feed that shows exactly the books of the engine. -/
abbrev UpToDate (slots : Nat) (start : MatchingEngine) (turn : Turn) : Prop :=
  Feeding slots start turn (marketOf turn.engine.books)

theorem Cancels.feeding
    {request : Nat} {ms : List Message}
    (cancels : Cancels slots request turn ms final)
    (sound : turn.engine.Sound slots) (current : UpToDate slots start turn) :
    UpToDate slots start final := by
  induction cancels with
  | done => exact current
  | @next turn final m rest books found reshelved _ inductionHypothesis =>
      refine inductionHypothesis (afterCancel_sound sound found reshelved) ?_
      have quiet : Feeding slots start (turn.withBooks books)
          (marketOf turn.engine.books) := current.congr rfl rfl rfl
      have live := sound.live found
      have published := quiet.update
        { m with requestId := request, remaining := 0 } .cancel
        ⟨m.quantity, live⟩
      have shows : marketOf books =
          (marketOf turn.engine.books).remove m.instrumentId m.exchangeId :=
        reshelved.shows
      change Feeding slots start _ (marketOf books)
      rw [shows]
      exact published.congr rfl rfl rfl

theorem afterReduce_feeding
    {m : Message} (sound : turn.engine.Sound slots)
    (found : turn.engine.resting.find? m.exchangeId = some m)
    (sameInstrument : m.instrumentId = c.instrumentId)
    (positive : c.quantity ≠ 0) (smaller : c.quantity ≤ m.quantity)
    (reshelved : Reshelved slots turn.engine.books books
      (turn.engine.ledger.resize m c.quantity).market)
    (current : UpToDate slots start turn) :
    UpToDate slots start (turn.afterReduce c m books) := by
  have shows : marketOf (turn.afterReduce c m books).engine.books =
      (turn.engine.ledger.resize m c.quantity).market := by
    rw [afterReduce_engine]
    exact reshelved.shows
  unfold UpToDate
  rw [shows]
  have quiet : Feeding slots start (turn.withBooks books)
      (marketOf turn.engine.books) := current.congr rfl rfl rfl
  by_cases same : m.quantity - c.quantity = 0
  · have sameQuantity : c.quantity = m.quantity := by lia
    rw [sameQuantity, resize_self sound.linked found]
    refine quiet.congr ?_ ?_ ?_ <;> simp [afterReduce, same, report]
  · have live := sound.live found
    rw [sameInstrument] at live
    have less : c.quantity < m.quantity := by lia
    have published := quiet.update (reduction c m) .reduce
      ⟨m.quantity, live, positive, less⟩
    have resized : (turn.engine.ledger.resize m c.quantity).market =
        (marketOf turn.engine.books).resize c.instrumentId m.exchangeId
          c.quantity := by
      rw [← sameInstrument]
      rfl
    rw [resized]
    refine published.congr ?_ ?_ ?_ <;> simp [afterReduce, same, report]

/-- The market a feed shows while the residual is not yet published. -/
abbrev Unpublished (slots : Nat) (start : MatchingEngine) (c : Message)
    (queue : List OrderView) (turn : Turn) : Prop :=
  Feeding slots start turn
    ((marketOf turn.engine.books).overlay c.instrumentId c.side queue)

/-- One fill, published as an execution and a trade. -/
theorem afterFill_feeding
    {maker : Message} {fill : Fill} {queue : List OrderView}
    (sound : turn.engine.Sound slots) (listed : c.side.Listed)
    (fillOf : FillOf turn.engine c maker fill left)
    (reshelved : Reshelved slots turn.engine.books books
      (turn.engine.ledger.execute maker fill.size).market)
    (inQueue : queue ⊆ marketOf turn.engine.books c.instrumentId c.side)
    (current : Unpublished slots start c queue turn) (incoming : Message) :
    Unpublished slots start c queue
      (turn.afterFill c incoming maker fill left books) := by
  have apart : c.side.opposite ≠ c.side := Side.opposite_ne listed
  have quiet : Feeding slots start
      ((turn.withBooks books).report
        (execution maker fill turn.engine.nextTrade) .fill)
      ((marketOf turn.engine.books).overlay c.instrumentId c.side queue) :=
    current.congr rfl rfl rfl
  have live : ((marketOf turn.engine.books).overlay c.instrumentId c.side
      queue).Live maker.instrumentId maker.exchangeId maker.quantity := by
    refine ⟨maker.side, orderView maker, ?_, rfl, rfl⟩
    have elsewhere : ¬ (maker.instrumentId = c.instrumentId ∧
        maker.side = c.side) := by
      rw [fillOf.side]
      exact fun same => apart same.2
    rw [Market.overlay, if_neg elsewhere]
    exact sound.linked.mem_market fillOf.found
  have executed := quiet.update (execution maker fill turn.engine.nextTrade)
    .execute ⟨maker.quantity, live, fillOf.positive, fillOf.enough⟩
  have reported : Feeding slots start
      ((((turn.withBooks books).report
        (execution maker fill turn.engine.nextTrade) .fill).update
        (execution maker fill turn.engine.nextTrade) .execute).report
        (takerFill incoming fill (left - fill.size) turn.engine.nextTrade)
        .fill) _ := executed.congr rfl rfl rfl
  have traded := reported.update
    (takerFill incoming fill (left - fill.size) turn.engine.nextTrade) .trade
    trivial
  have shows : marketOf books =
      (marketOf turn.engine.books).execute c.instrumentId maker.exchangeId
        fill.size := by
    rw [reshelved.shows, sound.linked.execute_market fillOf.found fillOf.enough,
      fillOf.instrument]
    rfl
  have commutes : ((marketOf turn.engine.books).overlay c.instrumentId c.side
        queue).execute maker.instrumentId maker.exchangeId fill.size =
      (marketOf books).overlay c.instrumentId c.side queue := by
    rw [shows, fillOf.instrument]
    funext other otherSide
    by_cases here : other = c.instrumentId ∧ otherSide = c.side
    · obtain ⟨rfl, rfl⟩ := here
      simp only [Market.execute, Market.overlay, and_self, if_true]
      conv_rhs => rw [← @List.filterMap_some _ queue]
      refine List.filterMap_congr fun order member => ?_
      have different : order.orderId ≠ maker.exchangeId := by
        intro sameId
        have shown := sound.linked.quantity_of_shown fillOf.found
          (inQueue member) sameId
        exact apart (fillOf.side.symm.trans shown.2.2.symm)
      simp [OrderBook.executeView, different]
    · simp [Market.execute, Market.overlay, here]
  change Feeding slots start _
    ((marketOf books).overlay c.instrumentId c.side queue)
  rw [← commutes]
  exact traded.congr rfl rfl rfl

theorem Fills.feeding
    {queue : List OrderView}
    (executed : Fills slots c incoming turn left fills final after)
    (sound : turn.engine.Sound slots) (listed : c.side.Listed)
    (inQueue : queue ⊆ marketOf turn.engine.books c.instrumentId c.side)
    (current : Unpublished slots start c queue turn) :
    Unpublished slots start c queue final := by
  induction executed with
  | done => exact current
  | @next turn final left after fill rest maker books fillOf reshelved _
      inductionHypothesis =>
      have one : Fills slots c incoming turn left [fill]
          (turn.afterFill c incoming maker fill left books) (left - fill.size) :=
        .next fillOf reshelved .done
      refine inductionHypothesis (afterFill_sound incoming sound fillOf reshelved)
        ?_ (afterFill_feeding sound listed fillOf reshelved inQueue current
          incoming)
      rw [one.sameSide sound listed]
      exact inQueue

/-- Without the queue of the residual an exchange is only a removal. -/
theorem exchange_overlay (turn : Turn) (c : Message) (old : Option Message)
    (leaves : Quantity) :
    (turn.engine.ledger.exchange old
        (turn.restOf c leaves)).market.overlay c.instrumentId c.side
        ((turn.engine.ledger.exchange old none).market c.instrumentId c.side) =
      (turn.engine.ledger.exchange old none).market := by
  unfold restOf
  split
  · funext other otherSide
    by_cases here : other = c.instrumentId ∧ otherSide = c.side
    · obtain ⟨rfl, rfl⟩ := here
      simp [Market.overlay]
    · rw [Market.overlay, if_neg here]
      simp only [Ledger.exchange, Ledger.add, Market.insert]
      exact if_neg here
  · exact Market.overlay_self _ _ _

/-- The entry publishes the removal of what it replaces. -/
theorem afterEntry_feeding
    (sound : turn.engine.Sound slots) (enters : turn.engine.Enters c old)
    (reshelved : Reshelved slots turn.engine.books books
      (turn.engine.ledger.exchange old (turn.restOf c leaves)).market)
    (current : UpToDate slots start turn) :
    Unpublished slots start c
      ((turn.engine.ledger.exchange old none).market c.instrumentId c.side)
      (turn.afterEntry c old (turn.restOf c leaves) books) := by
  have shows : marketOf (turn.afterEntry c old (turn.restOf c leaves)
      books).engine.books =
      (turn.engine.ledger.exchange old (turn.restOf c leaves)).market := by
    rw [afterEntry_engine]
    exact reshelved.shows
  unfold Unpublished
  rw [shows, exchange_overlay]
  cases old with
  | none => exact current.congr rfl rfl rfl
  | some m =>
      have live := sound.live enters.found
      exact (current.update m .cancel ⟨m.quantity, live⟩).congr rfl rfl rfl

/-- The length of a queue after an arrival counts the arrival. -/
theorem count_insert
    (market : Market) (instrument : InstrumentId) {order : OrderView}
    (listed : order.side.Listed) :
    (market.insert instrument order).count instrument =
      market.count instrument + 1 := by
  rcases listed with isBid | isAsk
  · simp [Market.count, Market.insert, isBid, List.orderedInsert_length]
    lia
  · simp [Market.count, Market.insert, isAsk, List.orderedInsert_length]
    lia

/-- A book that follows the feed has a slot for the residual. -/
theorem Placement.admitsResidual
    {market : Market}
    (placement : Placement slots turn c old r fills leaves books swept)
    (sound : turn.engine.Sound slots) (restsHere : rests c leaves = true)
    (inserted : market.insert c.instrumentId
      (orderView (turn.engine.residual c leaves)) =
        marketOf swept.engine.books)
    {epoch : Nat} {sequence : Sequence} :
    market.Admits slots
      ((turn.engine.residual c leaves).asDelta .add epoch sequence) := by
  have command := placement.checked.command
  have restsNow := restsHere
  simp only [rests, decide_eq_true_eq] at restsNow
  obtain ⟨leavesPos, _, isLimit⟩ := restsNow
  have low := (command.price isLimit).1
  have positive := minPrice_pos (sound.rules _ r placement.checked.rules)
  have pricePos : c.price ≠ 0 := by lia
  refine ⟨leavesPos, pricePos, command.side, ?_, ?_⟩
  · rintro quantity ⟨side, order, member, sameId, _⟩
    have arrives : ∀ queueSide, ∀ view ∈ market c.instrumentId queueSide,
        view ∈ marketOf swept.engine.books c.instrumentId queueSide := by
      intro queueSide view viewMember
      rw [← inserted, Market.insert]
      split
      · rw [List.mem_orderedInsert]
        exact Or.inr viewMember
      · exact viewMember
    have queue : marketOf swept.engine.books c.instrumentId c.side =
        (market c.instrumentId c.side).orderedInsert (OrderBook.Better c.side)
          (orderView (turn.engine.residual c leaves)) := by
      rw [← inserted, Market.insert]
      exact if_pos ⟨rfl, rfl⟩
    have residualMember : orderView (turn.engine.residual c leaves) ∈
        marketOf swept.engine.books c.instrumentId c.side := by
      rw [queue, List.mem_orderedInsert]
      exact Or.inl rfl
    obtain ⟨stored, found, _, storedSide, sameView⟩ :=
      (placement.sound.linked.shown _ _ _).mp residualMember
    obtain ⟨isStored, _, isSide⟩ := placement.sound.linked.quantity_of_shown
      found (arrives side order member) sameId
    rw [isStored, sameView, isSide, storedSide] at member
    -- The residual would stand twice in its queue.
    have nodup : (marketOf swept.engine.books c.instrumentId c.side).Nodup :=
      PriorityQueue.nodup_of_pairwise
        (placement.sound.linked.queued c.instrumentId c.side)
    rw [queue, (List.perm_orderedInsert _ _ _).nodup_iff] at nodup
    exact (List.nodup_cons.mp nodup).1 member
  · have bounded := placement.sound.booksWf.count_le c.instrumentId
    rw [← inserted, count_insert market c.instrumentId (by exact command.side)]
      at bounded
    exact bounded

/-- The queue that is published holds orders of the engine's queue. -/
theorem Placement.unpublished_subset
    (placement : Placement slots turn c old r fills leaves books swept) :
    (turn.engine.ledger.exchange old none).market c.instrumentId c.side ⊆
      marketOf (turn.afterEntry c old (turn.restOf c leaves)
        books).engine.books c.instrumentId c.side := by
  rw [afterEntry_engine, placement.shelves.shows]
  unfold restOf
  split
  · intro order member
    simp only [Ledger.exchange, Ledger.add, Market.insert]
    split
    · rw [List.mem_orderedInsert]
      exact Or.inr member
    · exact member
  · exact List.Subset.refl _

/-- The last update publishes the residual. -/
theorem Placement.feeding
    (placement : Placement slots turn c old r fills leaves books swept)
    (sound : turn.engine.Sound slots) (current : UpToDate slots start turn) :
    UpToDate slots start
      (swept.publishResidual (turn.engine.incoming c) leaves
        (rests c leaves)) := by
  have command := placement.checked.command
  have entered := afterEntry_feeding sound placement.enters placement.shelves
    current
  have entryShows : marketOf (turn.afterEntry c old (turn.restOf c leaves)
      books).engine.books =
      (turn.engine.ledger.exchange old (turn.restOf c leaves)).market := by
    rw [afterEntry_engine]
    exact placement.shelves.shows
  have sameSide := placement.executed.sameSide placement.entrySound command.side
  rw [entryShows] at sameSide
  have sweptFeed := placement.executed.feeding placement.entrySound command.side
    placement.unpublished_subset entered
  cases restsHere : rests c leaves with
  | false =>
      have queue : (turn.engine.ledger.exchange old none).market c.instrumentId
          c.side = marketOf swept.engine.books c.instrumentId c.side := by
        rw [sameSide]
        simp [restOf, restsHere]
      unfold Unpublished at sweptFeed
      rw [queue, Market.overlay_self] at sweptFeed
      unfold publishResidual
      split
      · rename_i impossible
        cases impossible
      · split
        · exact sweptFeed.congr rfl rfl rfl
        · exact sweptFeed
  | true =>
      have residualQueue : marketOf swept.engine.books c.instrumentId c.side =
          ((turn.engine.ledger.exchange old none).market c.instrumentId
            c.side).orderedInsert (OrderBook.Better c.side)
            (orderView (turn.engine.residual c leaves)) := by
        rw [sameSide]
        simp [restOf, restsHere, Ledger.exchange, Ledger.add, Market.insert,
          orderView, MatchingEngine.residual, MatchingEngine.incoming]
      have inserted : ((marketOf swept.engine.books).overlay c.instrumentId
          c.side ((turn.engine.ledger.exchange old none).market c.instrumentId
            c.side)).insert c.instrumentId
            (orderView (turn.engine.residual c leaves)) =
          marketOf swept.engine.books := by
        funext other otherSide
        by_cases here : other = c.instrumentId ∧ otherSide = c.side
        · obtain ⟨rfl, rfl⟩ := here
          rw [residualQueue]
          simp [Market.insert, Market.overlay, orderView,
            MatchingEngine.residual, MatchingEngine.incoming]
        · rw [Market.insert, if_neg (by exact here), Market.overlay,
            if_neg here]
      have published := sweptFeed.update (turn.engine.residual c leaves) .add
        (placement.admitsResidual sound restsHere inserted)
      have applied : ((marketOf swept.engine.books).overlay c.instrumentId
          c.side ((turn.engine.ledger.exchange old none).market c.instrumentId
            c.side)).applyDelta ((turn.engine.residual c leaves).asDelta .add
              swept.engine.epoch (swept.engine.sequence + 1)) =
          marketOf swept.engine.books := inserted
      rw [applied] at published
      exact published

theorem Handled.feeding
    (handled : Handled slots turn c final) (sound : turn.engine.Sound slots)
    (current : UpToDate slots start turn) : UpToDate slots start final := by
  cases handled with
  | rejected _ => exact current.congr rfl rfl rfl
  | full => exact current.congr rfl rfl rfl
  | cancelled _ cancels => exact cancels.feeding sound current
  | reduced _ checked replaces _ smaller reshelved =>
      exact afterReduce_feeding sound replaces.found replaces.instrument
        checked.command.quantityPos smaller reshelved current
  | placed _ placement => exact placement.feeding sound current

end Turn

namespace MatchingEngine

variable {slots : Nat} {engine : MatchingEngine} {c : Message} {turn : Turn}

/-- The updates of a batch lead from the market before to the market after. -/
theorem Outcome.feeding
    (outcome : Outcome slots engine c turn) (sound : engine.Sound slots) :
    Feeding slots engine turn (marketOf turn.engine.books) := by
  rcases outcome.quiet_or_handled with quiet | ⟨_, done, handled, rfl⟩
  · refine ⟨?_, ?_, ?_, quiet.stores.epoch⟩
    · rw [quiet.updates, quiet.stores.books]
      exact .done
    · rw [quiet.updates]
      trivial
    · rw [quiet.updates, quiet.stores.sequence]
      rfl
  · have started : Turn.UpToDate slots engine (engine.start c) :=
      ⟨.done, trivial, rfl, rfl⟩
    exact (handled.feeding (start_sound sound c) started).congr rfl rfl rfl

end MatchingEngine

end LimitOrderBook
