import LimitOrderBook.EnginePriority
import LimitOrderBook.EngineReplies

namespace LimitOrderBook

/-!
# The trades of a call

A batch tells of every trade four times: a report to the maker and one to the
taker, an `Execute` and a `Trade` on the feed.  `Prints` says what these have to
do with each other, with the command and with the engine before the call.  The
step lemma is about one fill of the sweep, the run lemma about all of them.
-/

/-- What a batch says of one trade. -/
structure TradePrint where
  maker : Message
  taker : Message
  execute : Message
  trade : Message

namespace TradePrint

def reports (print : TradePrint) : List Message :=
  [print.maker, print.taker]

def updates (print : TradePrint) : List Message :=
  [print.execute, print.trade]

def tradeId (print : TradePrint) : Nat :=
  print.taker.tradeId

def price (print : TradePrint) : Price :=
  print.taker.price

def size (print : TradePrint) : Quantity :=
  print.taker.quantity

/-- The maker's order before the trade, and what is left of it. -/
structure Hits (print : TradePrint) (engine : MatchingEngine) (c : Message)
    (maker : Message) : Prop where
  found : engine.resting.find? print.maker.exchangeId = some maker
  client : print.maker.clientId = maker.clientId
  order : print.maker.orderId = maker.orderId
  instrument : maker.instrumentId = c.instrumentId
  side : maker.side = c.side.opposite
  price : print.price = maker.price
  remaining : print.maker.remaining + print.size = maker.quantity
  foreign : maker.clientId ≠ c.clientId

/-- The four messages of a trade fit together. -/
structure Agrees (print : TradePrint) (engine : MatchingEngine) (c : Message) :
    Prop where
  fills : ∀ m ∈ print.reports, m.report = .fill
  execute : print.execute.update = .execute
  trade : print.trade.update = .trade
  shared : ∀ m ∈ print.reports ++ print.updates,
    m.tradeId = print.tradeId ∧ m.instrumentId = c.instrumentId ∧
      m.price = print.price ∧ m.quantity = print.size
  makerSide : print.maker.side = c.side.opposite
  takerSide : print.taker.side = c.side
  takerClient : print.taker.clientId = c.clientId
  takerOrder : print.taker.orderId = c.orderId
  maker : ∃ maker, print.Hits engine c maker
  marketable : crosses c print.price = true
  positive : print.size ≠ 0
  lots : ∀ r, engine.instruments.find? c.instrumentId = some r →
    print.size % r.lotSize.toNat = 0

/-- The engine before the call matters only through its orders and rules. -/
theorem Agrees.congr
    {print : TradePrint} {engine other : MatchingEngine} {c : Message}
    (agrees : print.Agrees engine c) (resting : other.resting = engine.resting)
    (instruments : other.instruments = engine.instruments) :
    print.Agrees other c := by
  obtain ⟨maker, hits⟩ := agrees.maker
  exact
    { agrees with
      maker := ⟨maker, { hits with found := by rw [resting]; exact hits.found }⟩
      lots := by rw [instruments]; exact agrees.lots }

end TradePrint

/-- The quantity of a list of trades. -/
def traded (prints : List TradePrint) : Quantity :=
  (prints.map TradePrint.size).sum

@[simp] theorem traded_nil : traded [] = 0 := rfl

@[simp] theorem traded_cons (print : TradePrint) (rest : List TradePrint) :
    traded (print :: rest) = print.size + traded rest := by
  simp [traded]

/-- The trades of a command that has a quantity left, from a trade id on. -/
inductive Prints (engine : MatchingEngine) (c : Message) :
    Nat → Quantity → List TradePrint → Prop where
  | done {tradeId : Nat} {left : Quantity} : Prints engine c tradeId left []
  | next {tradeId : Nat} {left : Quantity} {print : TradePrint}
      {rest : List TradePrint} :
      print.Agrees engine c →
      print.tradeId = tradeId →
      print.taker.remaining + print.size = left →
      Prints engine c (tradeId + 1) print.taker.remaining rest →
      Prints engine c tradeId left (print :: rest)

namespace Prints

variable {engine : MatchingEngine} {c : Message} {tradeId : Nat}
  {left : Quantity} {prints : List TradePrint}

theorem agrees
    (shown : Prints engine c tradeId left prints) :
    ∀ print ∈ prints, print.Agrees engine c := by
  induction shown with
  | done => simp
  | next agrees _ _ _ inductionHypothesis =>
      intro print member
      rcases List.mem_cons.mp member with isFirst | later
      · rw [isFirst]
        exact agrees
      · exact inductionHypothesis print later

/-- Trade ids are consecutive. -/
theorem tradeIds
    (shown : Prints engine c tradeId left prints) :
    prints.map TradePrint.tradeId = List.range' tradeId prints.length := by
  induction shown with
  | done => rfl
  | next _ sameId _ _ inductionHypothesis =>
      rw [List.map_cons, inductionHypothesis, List.length_cons,
        List.range'_succ, sameId]

/-- Every taker's report says what is left after its own trade. -/
theorem remaining
    (shown : Prints engine c tradeId left prints)
    {earlier later : List TradePrint} {print : TradePrint}
    (shape : prints = earlier ++ print :: later) :
    print.taker.remaining + traded (earlier ++ [print]) = left := by
  induction shown generalizing earlier with
  | done => exact absurd shape (by simp)
  | @next tradeId left first rest _ _ isLeft _ inductionHypothesis =>
      cases earlier with
      | nil =>
          obtain ⟨rfl, _⟩ := List.cons.inj shape
          simpa using isLeft
      | cons head earlier =>
          obtain ⟨rfl, restShape⟩ := List.cons.inj shape
          have inner := inductionHypothesis restShape
          rw [List.cons_append, traded_cons]
          lia

end Prints

namespace Turn

variable {slots : Nat} {turn final swept : Turn} {c maker : Message}
  {engine : MatchingEngine} {fill : Fill} {fills : List Fill}
  {left after leaves : Quantity} {books : Books} {prints : List TradePrint}

/-- The prints that lead from one turn to another. -/
structure Printed (engine : MatchingEngine) (c : Message) (turn : Turn)
    (left : Quantity) (final : Turn) (after : Quantity)
    (prints : List TradePrint) : Prop where
  shown : Prints engine c turn.engine.nextTrade left prints
  reports : final.batch.reports =
    turn.batch.reports ++ prints.flatMap TradePrint.reports
  updates : final.batch.updates =
    turn.batch.updates ++ prints.flatMap TradePrint.updates
  nextTrade : final.engine.nextTrade = turn.engine.nextTrade + prints.length
  rest : traded prints + after = left

/-- What the batch says of one fill. -/
def printOf (turn : Turn) (incoming maker : Message) (fill : Fill)
    (left : Quantity) : TradePrint :=
  let made := execution maker fill turn.engine.nextTrade
  let taken := takerFill incoming fill (left - fill.size) turn.engine.nextTrade
  { maker := made.asReport .fill .none turn.engine.epoch
      (turn.engine.responseSequence + 1)
    taker := taken.asReport .fill .none turn.engine.epoch
      (turn.engine.responseSequence + 2)
    execute := made.asDelta .execute turn.engine.epoch
      (turn.engine.sequence + 1)
    trade := taken.asDelta .trade turn.engine.epoch
      (turn.engine.sequence + 2) }

theorem printOf_agrees
    {id : OrderId} (fillOf : FillOf turn.engine c maker fill left)
    (instruments : turn.engine.instruments = engine.instruments)
    (stored : engine.resting.find? maker.exchangeId = some maker) :
    (turn.printOf { c with exchangeId := id, remaining := c.quantity } maker
      fill left).Agrees engine c where
  fills := by simp [printOf, TradePrint.reports, Message.asReport]
  execute := rfl
  trade := rfl
  shared := by
    simp [printOf, TradePrint.reports, TradePrint.updates, TradePrint.tradeId,
      TradePrint.price, TradePrint.size, Message.asReport, Message.asDelta,
      execution, takerFill, fillOf.instrument, fillOf.price]
  makerSide := fillOf.side
  takerSide := rfl
  takerClient := rfl
  takerOrder := rfl
  maker := ⟨maker, stored, rfl, rfl, fillOf.instrument, fillOf.side,
    fillOf.price, Nat.sub_add_cancel fillOf.enough, fillOf.foreign⟩
  marketable := fillOf.marketable
  positive := fillOf.positive
  lots := by
    rw [← instruments]
    exact fillOf.lots

/--
The prints of a sweep.  Every maker of the plan is still stored as it was
before the call when its turn comes, because no order is planned twice.
-/
theorem Fills.printed
    {id : OrderId}
    (executed : Fills slots c
      { c with exchangeId := id, remaining := c.quantity } turn left fills final
      after)
    (apart : (fills.map Fill.id).Nodup)
    (instruments : turn.engine.instruments = engine.instruments)
    (stored : ∀ fill ∈ fills, ∀ m, turn.engine.resting.find? fill.id = some m →
      engine.resting.find? fill.id = some m) :
    ∃ prints, Printed engine c turn left final after prints ∧
      prints.map TradePrint.size = fills.map Fill.size ∧
      prints.map TradePrint.price = fills.map Fill.price := by
  induction executed with
  | @done turn left =>
      exact ⟨[], ⟨.done, by simp, by simp, rfl, by simp⟩, rfl, rfl⟩
  | @next turn final left after fill rest maker books fillOf _ _
      inductionHypothesis =>
      obtain ⟨notAgain, restApart⟩ := List.nodup_cons.mp apart
      obtain ⟨prints, printed, sizes, prices⟩ := inductionHypothesis restApart
        instruments (by
          intro other member m found
          have different : other.id ≠ fill.id := fun same =>
            notAgain (same ▸ List.mem_map_of_mem member)
          rcases Ledger.find?_execute found with ⟨same, _, _⟩ | ⟨_, kept⟩
          · exact absurd (same.trans fillOf.id.symm) different
          · exact stored other (List.mem_cons_of_mem _ member) m kept)
      have makerStored := stored fill List.mem_cons_self maker
        (by rw [fillOf.id]; exact fillOf.found)
      rw [fillOf.id] at makerStored
      refine ⟨turn.printOf { c with exchangeId := id, remaining := c.quantity }
        maker fill left :: prints, ⟨?_, ?_, ?_, ?_, ?_⟩, ?_, ?_⟩
      · exact .next (printOf_agrees fillOf instruments makerStored) rfl
          (Nat.sub_add_cancel fillOf.wanted) printed.shown
      · rw [printed.reports, afterFill_reports]
        simp [printOf, TradePrint.reports]
      · have published : (turn.afterFill c
            { c with exchangeId := id, remaining := c.quantity } maker fill
            left books).batch.updates = turn.batch.updates ++
              (turn.printOf
                { c with exchangeId := id, remaining := c.quantity } maker
                fill left).updates :=
          List.append_assoc _ [_] [_]
        rw [printed.updates, published, List.flatMap_cons, List.append_assoc]
      · rw [printed.nextTrade, List.length_cons, Nat.add_comm prints.length,
          ← Nat.add_assoc]
        rfl
      · have rest := printed.rest
        have wanted := fillOf.wanted
        rw [traded_cons]
        change fill.size + traded prints + after = left
        lia
      · exact congrArg (fill.size :: ·) sizes
      · exact congrArg (fill.price :: ·) prices

/-- The ids of a sweep are the ids of the first orders. -/
theorem sweep_ids_sublist
    (quantity : Quantity) (orders : List OrderView) :
    ((sweep quantity orders).map Fill.id).Sublist
      (orders.map OrderView.orderId) := by
  induction orders generalizing quantity with
  | nil => exact .slnil
  | cons order rest inductionHypothesis =>
      unfold sweep
      split
      · exact List.nil_sublist _
      · exact (inductionHypothesis _).cons_cons _

/-- A plan names no order twice. -/
theorem Placement.ids_nodup
    {old : Option Message} {r : InstrumentRules}
    (placement : Placement slots turn c old r fills leaves books swept)
    (sound : turn.engine.Sound slots) : (fills.map Fill.id).Nodup := by
  rw [placement.plan]
  refine (sweep_ids_sublist _ _).nodup ?_
  rw [← sound.mergeSort_opposing placement.checked.command.side]
  exact ((List.mergeSort_perm _ _).map _).nodup_iff.mpr
    (sound.opposing_ids_nodup c)

/-- The trades of an accepted command that is not a reduction. -/
theorem Placement.printed
    {old : Option Message} {r : InstrumentRules}
    (placement : Placement slots turn c old r fills leaves books swept)
    (sound : turn.engine.Sound slots) :
    ∃ prints,
      Printed turn.engine c (turn.afterEntry c old (turn.restOf c leaves) books)
          c.quantity swept leaves prints ∧
        prints.map TradePrint.size = fills.map Fill.size ∧
        prints.map TradePrint.price = fills.map Fill.price := by
  refine placement.executed.printed (placement.ids_nodup sound)
    (by rw [afterEntry_engine]) ?_
  intro fill member m found
  rw [afterEntry_engine] at found
  rcases Ledger.find?_exchange found with ⟨isRest, isNew⟩ | kept
  · -- the residual has a fresh id, and the plan names stored orders only
    rw [placement.plan] at member
    obtain ⟨order, orderMember, sameId⟩ := mem_sweep member
    obtain ⟨stored, storedFound, _⟩ := (sound.linked.shown _ _ _).mp
      (List.takeWhile_subset _ orderMember)
    have used := (sound.linked.numbered _ stored storedFound).2.2
    have isNext : order.orderId = turn.engine.nextOrder := by
      rw [sameId, isNew, (restOf_eq_some isRest).2]
      rfl
    exact absurd isNext (Nat.ne_of_lt used)
  · exact kept

end Turn

end LimitOrderBook
