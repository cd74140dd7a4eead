import LimitOrderBook.EngineChecker
import LimitOrderBook.EngineFeed
import LimitOrderBook.EngineProtocol

namespace LimitOrderBook

/-!
# Executions and their trades on the feed

On the feed every `Execute` takes from the first order of a queue and is
followed at once by the `Trade` of the same size.  `Paired` says this of a list
of deltas that are applied one after the other, so that the first order is the
first one of the market as it then stands.
-/

/-- An execution and the trade that follows it, on behalf of a command. -/
structure TradePair (c : Message) (market : Market)
    (execute trade : Message) : Prop where
  executes : execute.update = .execute
  trades : trade.update = .trade
  tradeId : execute.tradeId = trade.tradeId
  instrument : execute.instrumentId = trade.instrumentId
  quantity : execute.quantity = trade.quantity
  maker : execute.side = trade.side.opposite
  taker : trade.side = c.side
  first : ∃ best others,
    market execute.instrumentId execute.side = best :: others ∧
      best.orderId = execute.exchangeId ∧ execute.quantity ≤ best.quantity
  positive : execute.quantity ≠ 0
  narrow : ∀ side, ∀ order ∈ market execute.instrumentId side,
    order.quantity < 2 ^ 32

/-- The trade of a pair leaves the market as the execution made it. -/
theorem TradePair.unmoved
    {c execute trade : Message} {market : Market}
    (pair : TradePair c market execute trade) :
    (market.applyDelta execute).applyDelta trade =
      market.applyDelta execute := by
  rw [Market.applyDelta, pair.trades]

/-- Deltas in which executions and trades come in pairs. -/
inductive Paired (c : Message) : Market → List Message → Prop where
  | done {market : Market} : Paired c market []
  | quiet {market : Market} {m : Message} {rest : List Message} :
      m.update ≠ .execute → m.update ≠ .trade →
      Paired c (market.applyDelta m) rest →
      Paired c market (m :: rest)
  | pair {market : Market} {execute trade : Message} {rest : List Message} :
      TradePair c market execute trade →
      Paired c (market.applyDelta execute) rest →
      Paired c market (execute :: trade :: rest)

namespace Paired

variable {c : Message} {market : Market}
  {deltas added : List Message}

theorem append
    (before : Paired c market deltas)
    (after : Paired c (deltas.foldl Market.applyDelta market) added) :
    Paired c market (deltas ++ added) := by
  induction before with
  | done => exact after
  | quiet notExecute notTrade _ inductionHypothesis =>
      exact .quiet notExecute notTrade (inductionHypothesis after)
  | @pair market execute trade rest pair _ inductionHypothesis =>
      rw [List.foldl_cons, List.foldl_cons, pair.unmoved] at after
      exact .pair pair (inductionHypothesis after)

/-- A trade comes right after the execution it belongs to. -/
theorem split
    (paired : Paired c market deltas) {before after : List Message}
    {trade : Message} (shape : deltas = before ++ trade :: after)
    (isTrade : trade.update = .trade) :
    ∃ earlier execute, before = earlier ++ [execute] ∧
      Paired c market earlier ∧
      TradePair c (earlier.foldl Market.applyDelta market) execute trade := by
  induction paired generalizing before with
  | done => exact absurd shape (by simp)
  | @quiet market m rest notExecute notTrade _ inductionHypothesis =>
      cases before with
      | nil =>
          obtain ⟨rfl, _⟩ := List.cons.inj shape
          exact absurd isTrade notTrade
      | cons first before =>
          obtain ⟨rfl, restShape⟩ := List.cons.inj shape
          obtain ⟨earlier, execute, rfl, paired, pair⟩ :=
            inductionHypothesis restShape
          exact ⟨m :: earlier, execute, rfl,
            .quiet notExecute notTrade paired, pair⟩
  | @pair market execute partner rest pair _ inductionHypothesis =>
      rcases before with _ | ⟨first, _ | ⟨second, before⟩⟩
      · obtain ⟨rfl, _⟩ := List.cons.inj shape
        exact absurd (pair.executes.symm.trans isTrade) (by decide)
      · obtain ⟨rfl, restShape⟩ := List.cons.inj shape
        obtain ⟨rfl, _⟩ := List.cons.inj restShape
        exact ⟨[], execute, rfl, .done, pair⟩
      · obtain ⟨rfl, restShape⟩ := List.cons.inj shape
        obtain ⟨rfl, lastShape⟩ := List.cons.inj restShape
        obtain ⟨earlier, other, rfl, paired, later⟩ :=
          inductionHypothesis lastShape
        refine ⟨execute :: partner :: earlier, other, rfl, .pair pair paired,
          ?_⟩
        rw [List.foldl_cons, List.foldl_cons, pair.unmoved]
        exact later

/-- Deltas of any other kind need no partner. -/
theorem quietly
    (before : Paired c market deltas)
    (silent : ∀ m ∈ added, m.update ≠ .execute ∧ m.update ≠ .trade) :
    Paired c market (deltas ++ added) := by
  refine before.append ?_
  generalize deltas.foldl Market.applyDelta market = reached
  induction added generalizing reached with
  | nil => exact .done
  | cons m rest inductionHypothesis =>
      obtain ⟨notExecute, notTrade⟩ := silent m (by simp)
      exact .quiet notExecute notTrade
        (inductionHypothesis
          (fun other member => silent other (by simp [member])) _)

end Paired

namespace Turn

variable {slots : Nat} {start : MatchingEngine} {turn final swept : Turn}
  {c : Message} {old : Option Message} {r : InstrumentRules}
  {fills : List Fill} {left after leaves : Quantity} {books : Books}

/-- A turn has published its executions and trades in pairs. -/
abbrev PublishesPairs (start : MatchingEngine) (c : Message) (turn : Turn) :
    Prop :=
  Paired c (marketOf start.books) turn.batch.updates

theorem Cancels.paired
    {request : Nat} {ms : List Message}
    (cancels : Cancels slots request turn ms final)
    (paired : PublishesPairs start c turn) : PublishesPairs start c final := by
  induction cancels with
  | done => exact paired
  | next _ _ _ inductionHypothesis =>
      exact inductionHypothesis (paired.quietly
        (List.forall_mem_singleton.mpr ⟨by simp, by simp⟩))

/-- The two deltas of a fill are a pair on the market that the feed shows. -/
theorem fill_pair
    {maker : Message} {fill : Fill} {queue : List OrderView}
    (sound : turn.engine.Sound slots) (listed : c.side.Listed)
    (fillOf : FillOf turn.engine c maker fill left)
    (inQueue : queue ⊆ marketOf turn.engine.books c.instrumentId c.side)
    (id : OrderId) (quantity : Quantity) (epoch : Nat)
    (first second : Sequence) :
    TradePair c
      ((marketOf turn.engine.books).overlay c.instrumentId c.side queue)
      ((execution maker fill turn.engine.nextTrade).asDelta .execute epoch
        first)
      ((takerFill { c with exchangeId := id, remaining := quantity } fill
        (left - fill.size) turn.engine.nextTrade).asDelta .trade epoch
        second) where
  executes := rfl
  trades := rfl
  tradeId := rfl
  instrument := fillOf.instrument
  quantity := rfl
  maker := fillOf.side
  taker := rfl
  first := by
    obtain ⟨others, isFirst⟩ := fillOf.first
    refine ⟨orderView maker, others, ?_, rfl, fillOf.enough⟩
    change Market.overlay _ _ _ _ maker.instrumentId maker.side = _
    have elsewhere : ¬ (maker.instrumentId = c.instrumentId ∧
        maker.side = c.side) := by
      rw [fillOf.side]
      exact fun same => Side.opposite_ne listed same.2
    rw [Market.overlay, if_neg elsewhere, fillOf.instrument, fillOf.side]
    exact isFirst
  positive := fillOf.positive
  narrow := by
    intro side order member
    change order ∈ Market.overlay _ _ _ _ maker.instrumentId side at member
    have shown : order ∈ marketOf turn.engine.books maker.instrumentId side := by
      unfold Market.overlay at member
      split at member
      · rename_i here
        rw [here.1, here.2]
        exact inQueue member
      · exact member
    obtain ⟨stored, found, _, _, rfl⟩ := (sound.linked.shown _ _ _).mp shown
    exact sound.quantity_lt found

theorem Fills.paired
    {id : OrderId} {quantity : Quantity} {queue : List OrderView}
    (executed : Fills slots c
      { c with exchangeId := id, remaining := quantity } turn left fills final
      after)
    (sound : turn.engine.Sound slots) (listed : c.side.Listed)
    (inQueue : queue ⊆ marketOf turn.engine.books c.instrumentId c.side)
    (current : Unpublished slots start c queue turn)
    (paired : PublishesPairs start c turn) : PublishesPairs start c final := by
  induction executed with
  | done => exact paired
  | @next turn final left after fill rest maker books fillOf reshelved _
      inductionHypothesis =>
      have one : Fills slots c
          { c with exchangeId := id, remaining := quantity } turn left [fill]
          (turn.afterFill c { c with exchangeId := id, remaining := quantity }
            maker fill left books) (left - fill.size) :=
        .next fillOf reshelved .done
      refine inductionHypothesis (afterFill_sound _ sound fillOf reshelved)
        ?_ (afterFill_feeding sound listed fillOf reshelved inQueue current _)
        ?_
      · rw [one.sameSide sound listed]
        exact inQueue
      · have pair := fill_pair sound listed fillOf inQueue id quantity
          turn.engine.epoch (turn.engine.sequence + 1)
          (turn.engine.sequence + 2)
        rw [current.feed.final_eq] at pair
        have both := paired.append (.pair pair .done)
        rwa [← List.singleton_append, ← List.append_assoc] at both

theorem Placement.paired
    (placement : Placement slots turn c old r fills leaves books swept)
    (current : UpToDate slots start turn) (sound : turn.engine.Sound slots)
    (paired : PublishesPairs start c turn) :
    PublishesPairs start c
      (swept.publishResidual (turn.engine.incoming c) leaves
        (rests c leaves)) := by
  have command := placement.checked.command
  obtain ⟨before, entryUpdates, areCancels⟩ :=
    afterEntry_updates turn c old (turn.restOf c leaves) books
  obtain ⟨added, residualUpdates, areAdds⟩ := publishResidual_updates swept
    (turn.engine.incoming c) leaves (rests c leaves)
  have entered : PublishesPairs start c
      (turn.afterEntry c old (turn.restOf c leaves) books) := by
    unfold PublishesPairs
    rw [entryUpdates]
    exact paired.quietly fun m member => by simp [areCancels m member]
  have sweptPaired := placement.executed.paired placement.entrySound
    command.side placement.unpublished_subset
    (afterEntry_feeding sound placement.enters placement.shelves current)
    entered
  unfold PublishesPairs
  rw [residualUpdates]
  exact sweptPaired.quietly fun m member => by simp [areAdds m member]

theorem Handled.paired
    (handled : Handled slots turn c final) (sound : turn.engine.Sound slots)
    (current : UpToDate slots start turn)
    (paired : PublishesPairs start c turn) : PublishesPairs start c final := by
  cases handled with
  | rejected _ => exact paired
  | full => exact paired
  | cancelled _ cancels => exact cancels.paired paired
  | @reduced old r books =>
      obtain ⟨added, updates, areReduces⟩ := afterReduce_updates turn c old books
      unfold PublishesPairs
      rw [updates]
      exact paired.quietly fun m member => by simp [areReduces m member]
  | placed _ placement => exact placement.paired current sound paired

end Turn

namespace MatchingEngine

variable {slots : Nat} {engine : MatchingEngine} {c : Message} {turn : Turn}

/-- The updates of every batch are paired. -/
theorem Outcome.paired
    (outcome : Outcome slots engine c turn) (sound : engine.Sound slots) :
    Paired c (marketOf engine.books) turn.batch.updates := by
  rcases outcome.quiet_or_handled with quiet | ⟨_, done, handled, rfl⟩
  · rw [quiet.updates]
    exact .done
  · exact handled.paired (start_sound sound c) ⟨.done, trivial, rfl, rfl⟩ .done

end MatchingEngine

end LimitOrderBook
