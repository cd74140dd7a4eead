import LimitOrderBook.EngineAtomicity

namespace LimitOrderBook

/-!
# Live orders and the reports that announce them

A blotter says which orders every client has and on which terms.  The reports
of a call, read in order, lead from the blotter of the engine before the call
to the blotter after it.  Only in the middle of a sweep do they differ, and
then only about the command itself: the reports show what it has left, while
the engine has already stored what will rest.
-/

/-- What a client knows of one of its orders. -/
structure OrderTerms where
  instrumentId : InstrumentId
  side : Side
  price : Price
  quantity : Quantity
  deriving DecidableEq

def Message.terms (m : Message) : OrderTerms :=
  ⟨m.instrumentId, m.side, m.price, m.quantity⟩

abbrev Blotter := ClientId → OrderId → Option OrderTerms

namespace Blotter

/-- Write the terms of one order. -/
def put (blotter : Blotter) (client : ClientId) (orderId : OrderId)
    (terms : Option OrderTerms) : Blotter := fun otherClient otherId =>
  if otherClient = client ∧ otherId = orderId then terms
  else blotter otherClient otherId

/-- What is left of an order after a report of its remaining quantity. -/
def left (held : Option OrderTerms) (remaining : Quantity) :
    Option OrderTerms :=
  if remaining = 0 then none
  else held.map fun terms => { terms with quantity := remaining }

/-- The terms of the order a report names, after the report. -/
def readOrder (m : Message) (held : Option OrderTerms) : Option OrderTerms :=
  match m.report with
  | .accepted | .replaced => some { m.terms with quantity := m.remaining }
  | .fill => left held m.remaining
  | .cancelled => none
  | .complete =>
      if m.reject = .none ∧ m.orderId ≠ 0 then left held m.remaining else held
  | _ => held

/-- The blotter after a report. -/
def read (blotter : Blotter) (m : Message) : Blotter :=
  blotter.put m.clientId m.orderId
    (readOrder m (blotter m.clientId m.orderId))

variable {blotter : Blotter} {client other : ClientId}
  {orderId otherId : OrderId} {terms otherTerms : Option OrderTerms}

@[simp] theorem put_self (blotter : Blotter) (client : ClientId)
    (orderId : OrderId) (terms : Option OrderTerms) :
    blotter.put client orderId terms client orderId = terms := by
  simp [put]

/-- Terms of other orders stay. -/
theorem put_of_ne
    (apart : ¬ (other = client ∧ otherId = orderId)) :
    blotter.put client orderId terms other otherId = blotter other otherId := by
  simp [put, apart]

@[simp] theorem put_put :
    (blotter.put client orderId terms).put client orderId otherTerms =
      blotter.put client orderId otherTerms := by
  funext someClient someId
  by_cases here : someClient = client ∧ someId = orderId
  · simp [put, here]
  · simp [put, here]

/-- Terms of two orders may be written in either order. -/
theorem put_comm
    (apart : ¬ (other = client ∧ otherId = orderId)) :
    (blotter.put client orderId terms).put other otherId otherTerms =
      (blotter.put other otherId otherTerms).put client orderId terms := by
  funext someClient someId
  by_cases here : someClient = client ∧ someId = orderId
  · obtain ⟨rfl, rfl⟩ := here
    rw [put_self, put_of_ne fun same => apart ⟨same.1.symm, same.2.symm⟩,
      put_self]
  · rw [put_of_ne here]
    by_cases there : someClient = other ∧ someId = otherId
    · obtain ⟨rfl, rfl⟩ := there
      rw [put_self, put_self]
    · rw [put_of_ne there, put_of_ne there, put_of_ne here]

/-- What is left is written over what was left. -/
theorem left_left
    {held : Option OrderTerms} {first second : Quantity} (some_left : first ≠ 0) :
    left (left held first) second = left held second := by
  cases held <;> simp [left, some_left]

/-- Writing what is already there. -/
theorem put_eq_self (same : blotter client orderId = terms) :
    blotter.put client orderId terms = blotter := by
  funext someClient someId
  by_cases here : someClient = client ∧ someId = orderId
  · obtain ⟨rfl, rfl⟩ := here
    rw [put_self, same]
  · rw [put_of_ne here]

/-- A report says nothing about the orders of other clients. -/
theorem read_of_ne {m : Message} (foreign : client ≠ m.clientId) :
    blotter.read m client orderId = blotter client orderId :=
  put_of_ne fun same => foreign same.1

end Blotter

/-! ## The blotter of a ledger -/

namespace Ledger

/-- The live orders of every client. -/
def blotter (ledger : Ledger) : Blotter := fun client orderId =>
  ((ledger.byClient.find? (client, orderId)).bind ledger.resting.find?).map
    Message.terms

variable {ledger : Ledger} {nextOrder : OrderId} {m : Message}

/-- The terms of a resting order are those of its message. -/
theorem Linked.blotter_of_found
    (linked : ledger.Linked nextOrder) {id : OrderId}
    (found : ledger.resting.find? id = some m) :
    ledger.blotter m.clientId m.orderId = some m.terms := by
  simp [blotter, linked.find?_key found, found]

/-- The blotter lists exactly the resting orders. -/
theorem Linked.blotter_eq_some
    (linked : ledger.Linked nextOrder) {client : ClientId} {orderId : OrderId}
    {terms : OrderTerms} :
    ledger.blotter client orderId = some terms ↔
      ∃ id m, ledger.resting.find? id = some m ∧ m.clientId = client ∧
        m.orderId = orderId ∧ m.terms = terms := by
  constructor
  · intro held
    obtain ⟨m, stored, isTerms⟩ := Option.map_eq_some_iff.mp held
    obtain ⟨id, indexed, found⟩ := Option.bind_eq_some_iff.mp stored
    obtain ⟨other, otherFound, sameClient, sameOrder⟩ :=
      (linked.keyed _ _ _).mp indexed
    rw [found] at otherFound
    cases otherFound
    exact ⟨id, m, found, sameClient, sameOrder, isTerms⟩
  · rintro ⟨id, m, found, rfl, rfl, rfl⟩
    exact linked.blotter_of_found found

/-- A change of one stored order changes one entry of the blotter. -/
theorem Linked.blotter_congr
    (linked : ledger.Linked nextOrder) {next : Ledger}
    (keys : ∀ client orderId, ¬ (client = m.clientId ∧ orderId = m.orderId) →
      next.byClient.find? (client, orderId) =
        ledger.byClient.find? (client, orderId))
    (stored : ∀ id, id ≠ m.exchangeId →
      next.resting.find? id = ledger.resting.find? id)
    (only : ∀ other, ledger.resting.find? m.exchangeId = some other →
      other.clientId = m.clientId ∧ other.orderId = m.orderId) :
    next.blotter = ledger.blotter.put m.clientId m.orderId
      (next.blotter m.clientId m.orderId) := by
  funext client orderId
  by_cases here : client = m.clientId ∧ orderId = m.orderId
  · obtain ⟨rfl, rfl⟩ := here
    rw [Blotter.put_self]
  · rw [Blotter.put_of_ne here]
    unfold blotter
    rw [keys client orderId here]
    cases indexed : ledger.byClient.find? (client, orderId) with
    | none => rfl
    | some id =>
        obtain ⟨other, found, sameClient, sameOrder⟩ :=
          (linked.keyed _ _ _).mp indexed
        have apart : id ≠ m.exchangeId := by
          rintro rfl
          obtain ⟨ownClient, ownOrder⟩ := only other found
          exact here ⟨sameClient.symm.trans ownClient,
            sameOrder.symm.trans ownOrder⟩
        simp only [Option.bind_some, stored id apart]

/-- An order that is removed has no terms. -/
theorem Linked.blotter_remove
    (linked : ledger.Linked nextOrder)
    (found : ledger.resting.find? m.exchangeId = some m) :
    (ledger.remove m).blotter =
      ledger.blotter.put m.clientId m.orderId none := by
  rw [linked.blotter_congr (m := m) ?_ ?_ ?_]
  · simp [blotter, Ledger.remove]
  · intro client orderId apart
    simp [Ledger.remove, apart]
  · intro id apart
    simp [Ledger.remove, apart]
  · intro other otherFound
    rw [found] at otherFound
    cases otherFound
    exact ⟨rfl, rfl⟩

/-- A resized order keeps its other terms. -/
theorem Linked.blotter_resize
    (linked : ledger.Linked nextOrder)
    (found : ledger.resting.find? m.exchangeId = some m)
    (quantity : Quantity) :
    (ledger.resize m quantity).blotter =
      ledger.blotter.put m.clientId m.orderId
        (some { m.terms with quantity := quantity }) := by
  rw [linked.blotter_congr (m := m) ?_ ?_ ?_]
  · simp [blotter, Ledger.resize, linked.find?_key found, Message.terms]
  · exact fun _ _ _ => rfl
  · intro id apart
    simp [Ledger.resize, apart]
  · intro other otherFound
    rw [found] at otherFound
    cases otherFound
    exact ⟨rfl, rfl⟩

/-- An order that is added has the terms of its message. -/
theorem Linked.blotter_add
    (linked : ledger.Linked nextOrder)
    (fresh : ledger.resting.find? m.exchangeId = none) :
    (ledger.add m).blotter =
      ledger.blotter.put m.clientId m.orderId (some m.terms) := by
  rw [linked.blotter_congr (m := m) ?_ ?_ ?_]
  · simp [blotter, Ledger.add]
  · intro client orderId apart
    simp [Ledger.add, apart]
  · intro id apart
    simp [Ledger.add, apart]
  · intro other otherFound
    rw [fresh] at otherFound
    cases otherFound

/-- An executed order keeps what is left, if anything is. -/
theorem Linked.blotter_execute
    (linked : ledger.Linked nextOrder)
    (found : ledger.resting.find? m.exchangeId = some m)
    (quantity : Quantity) :
    (ledger.execute m quantity).blotter =
      ledger.blotter.put m.clientId m.orderId
        (Blotter.left (some m.terms) (m.quantity - quantity)) := by
  unfold Ledger.execute Blotter.left
  split
  · exact linked.blotter_remove found
  · exact linked.blotter_resize found _

end Ledger

/-! ## One call -/

namespace Turn

variable {slots : Nat} {turn final swept : Turn} {c incoming maker : Message}
  {fill : Fill} {left : Quantity} {books : Books} {start : Blotter}

/-- The reports so far lead from the blotter at the start to this one. -/
def Announces (start : Blotter) (turn : Turn) (shown : Blotter) : Prop :=
  turn.batch.reports.foldl Blotter.read start = shown

/-- A report is read behind the others. -/
theorem Announces.report
    {shown : Blotter} (announces : Announces start turn shown) (m : Message)
    (type : ReportType) (reason : Reject := .none) :
    Announces start (turn.report m type reason)
      (shown.read (m.asReport type reason turn.engine.epoch
        (turn.engine.responseSequence + 1))) := by
  change (turn.batch.reports ++ [_]).foldl Blotter.read start = _
  rw [List.foldl_concat, announces]
  rfl

/-- A rejection changes no terms. -/
theorem Announces.reject
    {shown : Blotter} (announces : Announces start turn shown)
    (reason : Reject) : Announces start (turn.reject c reason) shown := by
  have rejected := announces.report c .rejected reason
  rwa [Blotter.read, Blotter.put_eq_self (by simp [Blotter.readOrder,
    Message.asReport])] at rejected

/-- In the middle of a sweep the reports know what the command has left. -/
def Sweeps (start : Blotter) (turn : Turn) (c : Message) (left : Quantity) :
    Prop :=
  Announces start turn (turn.engine.ledger.blotter.put c.clientId c.orderId
    (Blotter.left (some c.terms) left))

/-- The maker's report moves the maker's order, the taker's its own. -/
theorem afterFill_sweeps
    (sound : turn.engine.Sound slots)
    (fillOf : FillOf turn.engine c maker fill left)
    (reshelved : Reshelved slots turn.engine.books books
      (turn.engine.ledger.execute maker fill.size).market)
    (client : incoming.clientId = c.clientId)
    (order : incoming.orderId = c.orderId)
    (sweeps : Sweeps start turn c left) :
    Sweeps start (turn.afterFill c incoming maker fill left books) c
      (left - fill.size) := by
  have apart : ¬ (maker.clientId = c.clientId ∧ maker.orderId = c.orderId) :=
    fun same => fillOf.foreign same.1
  have wanted : left ≠ 0 := by
    have positive := fillOf.positive
    have enough := fillOf.wanted
    lia
  have live := sound.linked.blotter_of_found fillOf.found
  have executed := sound.linked.blotter_execute fillOf.found fill.size
  have made := sweeps.report (execution maker fill turn.engine.nextTrade) .fill
  have taken := made.report (takerFill incoming fill (left - fill.size)
    turn.engine.nextTrade) .fill
  unfold Sweeps
  rw [afterFill_ledger reshelved, executed]
  refine Eq.trans taken ?_
  simp only [Blotter.read, Blotter.readOrder, Message.asReport, execution,
    takerFill, client, order, Blotter.put_of_ne apart, live]
  rw [Blotter.put_comm apart, Blotter.put_self, Blotter.put_put,
    Blotter.left_left wanted]

/-- The fills of a command are announced one by one. -/
theorem Fills.sweeps
    {fills : List Fill} {after : Quantity}
    (executed : Fills slots c incoming turn left fills final after)
    (sound : turn.engine.Sound slots)
    (client : incoming.clientId = c.clientId)
    (order : incoming.orderId = c.orderId)
    (sweeps : Sweeps start turn c left) : Sweeps start final c after := by
  induction executed with
  | done => exact sweeps
  | next fillOf reshelved _ inductionHypothesis =>
      exact inductionHypothesis (afterFill_sound incoming sound fillOf reshelved)
        (afterFill_sweeps sound fillOf reshelved client order sweeps)

/-- A sweep leaves the orders of the command's client alone. -/
theorem Fills.ownOrders
    {fills : List Fill} {after : Quantity}
    (executed : Fills slots c incoming turn left fills final after)
    (sound : turn.engine.Sound slots) (orderId : OrderId) :
    final.engine.ledger.blotter c.clientId orderId =
      turn.engine.ledger.blotter c.clientId orderId := by
  induction executed with
  | done => rfl
  | next fillOf reshelved _ inductionHypothesis =>
      rw [inductionHypothesis (afterFill_sound incoming sound fillOf reshelved),
        afterFill_ledger reshelved, sound.linked.blotter_execute fillOf.found,
        Blotter.put_of_ne fun same => fillOf.foreign same.1.symm]

/-- So are cancellations. -/
theorem Cancels.announces
    {request : Nat} {ms : List Message}
    (cancels : Cancels slots request turn ms final)
    (sound : turn.engine.Sound slots)
    (announces : Announces start turn turn.engine.ledger.blotter) :
    Announces start final final.engine.ledger.blotter := by
  induction cancels with
  | done => exact announces
  | @next turn final m rest books found reshelved _ inductionHypothesis =>
      refine inductionHypothesis (afterCancel_sound sound found reshelved) ?_
      rw [afterCancel_ledger reshelved, sound.linked.blotter_remove found]
      exact announces.report { m with requestId := request, remaining := 0 }
        .cancelled

/-- What the stores hold of a command right after its entry. -/
theorem exchange_blotter
    {old : Option Message} (sound : turn.engine.Sound slots)
    (enters : turn.engine.Enters c old) (leaves : Quantity) :
    (turn.engine.ledger.exchange old (turn.restOf c leaves)).blotter =
      turn.engine.ledger.blotter.put c.clientId c.orderId
        ((turn.restOf c leaves).map Message.terms) := by
  have removed : (turn.engine.ledger.exchange old none).Linked
        turn.engine.nextOrder ∧
      (turn.engine.ledger.exchange old none).blotter =
        turn.engine.ledger.blotter.put c.clientId c.orderId none := by
    cases old with
    | none =>
        have unused : turn.engine.byClient.find? (c.clientId, c.orderId) =
          none := enters
        refine ⟨sound.linked, (Blotter.put_eq_self ?_).symm⟩
        simp [Ledger.blotter, Ledger.exchange, unused]
    | some m =>
        refine ⟨sound.linked.remove enters.found, ?_⟩
        rw [← enters.client, ← enters.order]
        exact sound.linked.blotter_remove enters.found
  unfold restOf
  split
  · have fresh : (turn.engine.ledger.exchange old none).resting.find?
        (turn.engine.residual c leaves).exchangeId = none :=
      removed.1.find?_none_of_le (Nat.le_refl turn.engine.nextOrder)
    have added := removed.1.blotter_add fresh
    rw [removed.2] at added
    refine Eq.trans added ?_
    exact Blotter.put_put
  · exact removed.2

/-- Entering the book is announced before the fills. -/
theorem afterEntry_sweeps
    {old : Option Message} {leaves : Quantity}
    (sound : turn.engine.Sound slots) (enters : turn.engine.Enters c old)
    (reshelved : Reshelved slots turn.engine.books books
      (turn.engine.ledger.exchange old (turn.restOf c leaves)).market)
    (positive : c.quantity ≠ 0)
    (announces : Announces start turn turn.engine.ledger.blotter) :
    Sweeps start (turn.afterEntry c old (turn.restOf c leaves) books) c
      c.quantity := by
  unfold Sweeps
  rw [afterEntry_ledger c reshelved, exchange_blotter sound enters,
    Blotter.put_put]
  unfold Announces
  rw [afterEntry_reports, List.foldl_concat, announces]
  cases old <;>
    simp [Blotter.read, Blotter.readOrder, Blotter.left, Message.asReport,
      MatchingEngine.incoming, Message.terms, entryReport, positive]

/-- What the command has live after the sweep is its residual. -/
theorem Placement.ownOrder
    {old : Option Message} {r : InstrumentRules} {fills : List Fill}
    {leaves : Quantity}
    (placement : Placement slots turn c old r fills leaves books swept)
    (sound : turn.engine.Sound slots) :
    swept.engine.ledger.blotter c.clientId c.orderId =
      (turn.restOf c leaves).map Message.terms := by
  rw [placement.executed.ownOrders placement.entrySound,
    afterEntry_ledger c placement.shelves,
    exchange_blotter sound placement.enters, Blotter.put_self]

/-- After the last report of an accepted command the blotters agree again. -/
theorem Placement.announces
    {old : Option Message} {r : InstrumentRules} {fills : List Fill}
    {leaves : Quantity}
    (placement : Placement slots turn c old r fills leaves books swept)
    (sound : turn.engine.Sound slots)
    (announces : Announces start turn turn.engine.ledger.blotter) :
    Announces start
      (swept.publishResidual (turn.engine.incoming c) leaves (rests c leaves))
      (swept.publishResidual (turn.engine.incoming c) leaves
        (rests c leaves)).engine.ledger.blotter := by
  have entered := afterEntry_sweeps sound placement.enters placement.shelves
    placement.checked.command.quantityPos announces
  have sweeps : Sweeps start swept c leaves :=
    placement.executed.sweeps placement.entrySound rfl rfl entered
  have own := placement.ownOrder sound
  unfold Sweeps at sweeps
  unfold publishResidual restOf at *
  cases resting : rests c leaves with
  | true =>
      have someLeft : leaves ≠ 0 := by
        simp only [rests, decide_eq_true_eq] at resting
        exact resting.1
      rw [resting] at own
      simp only [if_true]
      change Announces start swept swept.engine.ledger.blotter
      rw [Blotter.put_eq_self] at sweeps
      · exact sweeps
      · rw [own]
        simp [Blotter.left, someLeft, Message.terms, MatchingEngine.residual,
          MatchingEngine.incoming]
  | false =>
      simp only [resting, Bool.false_eq_true, if_false, Option.map_none] at own
      simp only [Bool.false_eq_true, if_false]
      split
      · have expired := sweeps.report
          { turn.engine.incoming c with quantity := leaves, remaining := 0 }
          .cancelled
        refine Eq.trans expired ?_
        simp only [Blotter.read, Blotter.readOrder, Message.asReport,
          MatchingEngine.incoming, Blotter.put_put]
        exact Blotter.put_eq_self own
      · rename_i nothingLeft
        rw [not_not.mp nothingLeft, Blotter.left, if_pos rfl,
          Blotter.put_eq_self own] at sweeps
        exact sweeps

/-- After a command the reports tell the terms of all orders. -/
theorem Handled.announces
    (handled : Handled slots turn c final) (sound : turn.engine.Sound slots)
    (announces : Announces start turn turn.engine.ledger.blotter) :
    Announces start final final.engine.ledger.blotter := by
  cases handled with
  | rejected _ => exact announces.reject _
  | full =>
      have opened : Announces start
          (turn.openPosition c.clientId c.instrumentId)
          turn.engine.ledger.blotter := announces
      exact opened.reject _
  | cancelled _ cancels => exact cancels.announces sound announces
  | reduced _ _ replaces samePrice _ reshelved =>
      rw [afterReduce_ledger reshelved,
        sound.linked.blotter_resize replaces.found]
      unfold Announces
      rw [afterReduce_reports, List.foldl_concat, announces, replaces.client,
        replaces.order]
      simp [Blotter.read, Blotter.readOrder, Message.asReport, reduction,
        Message.terms, replaces.instrument, replaces.side, samePrice]
  | placed _ placement => exact placement.announces sound announces

/-- The terminal report repeats what the stores hold. -/
theorem finish_announces
    (sound : turn.engine.Sound slots)
    (announces : Announces start turn turn.engine.ledger.blotter)
    (c : Message) :
    Announces start (turn.finish c) (turn.finish c).engine.ledger.blotter := by
  have completed := announces.report (turn.completion c) .complete
  refine Eq.trans completed (Blotter.put_eq_self ?_)
  unfold completion
  cases indexed : turn.engine.byClient.find? (c.clientId, c.orderId) with
  | none =>
      have absent : turn.engine.ledger.blotter c.clientId c.orderId = none := by
        simp [Ledger.blotter, indexed]
      simp [Blotter.readOrder, Message.asReport, absent, Blotter.left]
  | some id =>
      obtain ⟨m, found, client, order⟩ := (sound.linked.keyed _ _ _).mp indexed
      have stored : turn.engine.resting.find? id = some m := found
      have live := sound.linked.blotter_of_found found
      rw [client, order] at live
      have someLeft := (sound.positive stored).2
      simp [Blotter.readOrder, Message.asReport, live, Blotter.left, stored,
        someLeft, Message.terms]

end Turn

end LimitOrderBook
