import LimitOrderBook.EngineMakers
import LimitOrderBook.EngineTrades

namespace LimitOrderBook

/-!
# The report protocol

The batch of a well-sequenced command has one of three shapes: a refusal, the
answer to an accepted order or the answer to a cancellation, each with its
`Complete` at the end.  Nothing of the command's quantity gets lost on the way.
Over a whole run the reports and the trades are numbered without a gap.
-/

namespace MatchingEngine

/-- The live order of a client under one of its order ids. -/
def liveOrder (engine : MatchingEngine) (client : ClientId)
    (orderId : OrderId) : Option Message :=
  (engine.byClient.find? (client, orderId)).bind engine.resting.find?

/-- The quantity resting for a client under one of its order ids. -/
def liveQuantity (engine : MatchingEngine) (client : ClientId)
    (orderId : OrderId) : Quantity :=
  ((engine.liveOrder client orderId).map Message.quantity).getD 0

theorem blotter_eq_liveOrder (engine : MatchingEngine) (client : ClientId)
    (orderId : OrderId) :
    engine.ledger.blotter client orderId =
      (engine.liveOrder client orderId).map Message.terms :=
  rfl

theorem liveQuantity_eq_blotter (engine : MatchingEngine) (client : ClientId)
    (orderId : OrderId) :
    engine.liveQuantity client orderId =
      ((engine.ledger.blotter client orderId).map
        OrderTerms.quantity).getD 0 := by
  rw [blotter_eq_liveOrder, Option.map_map]
  rfl

end MatchingEngine

/-- The answer to an order or a replacement that is carried out. -/
structure Executed (engine : MatchingEngine) (c : Message) (turn : Turn)
    (opening : Message) (prints : List TradePrint) (expiry : Option Message)
    (complete : Message) : Prop where
  reports : turn.batch.reports =
    opening :: prints.flatMap TradePrint.reports ++ expiry.toList ++ [complete]
  own : ∀ m ∈ opening :: complete :: expiry.toList,
    m.clientId = c.clientId ∧ m.requestId = c.requestId ∧
      m.orderId = c.orderId
  opens : opening.report = if c.action = .new then .accepted else .replaced
  expires : ∀ m ∈ expiry, m.report = .cancelled ∧ c.action = .new
  completes : complete.report = .complete
  agrees : ∀ print ∈ prints, print.Agrees engine c
  tradeIds : prints.map TradePrint.tradeId =
    List.range' engine.nextTrade prints.length
  nextTrade : turn.engine.nextTrade = engine.nextTrade + prints.length
  takers : ∀ earlier print later, prints = earlier ++ print :: later →
    print.taker.remaining + traded (earlier ++ [print]) = c.quantity
  executes : turn.batch.updates.filter
    (fun m => decide (m.update = .execute)) = prints.map TradePrint.execute
  trades : turn.batch.updates.filter
    (fun m => decide (m.update = .trade)) = prints.map TradePrint.trade
  conserved : c.quantity = traded prints +
    turn.engine.liveQuantity c.clientId c.orderId +
      (expiry.map Message.quantity).getD 0

/-- What is known of a command that is carried out, whatever it reports. -/
structure Carried (engine : MatchingEngine) (c : Message) (turn : Turn)
    (prints : List TradePrint) (leaves : Quantity) : Prop where
  checked : ∃ r oldId, engine.instruments.find? c.instrumentId = some r ∧
    CommandOk r c oldId
  rest : traded prints + leaves = c.quantity
  whole : c.tif = .fok → leaves = 0
  passive : c.postOnly = true → prints = []
  live : turn.engine.ledger.blotter c.clientId c.orderId =
    if Turn.rests c leaves then
      some ⟨c.instrumentId, c.side, c.price, leaves⟩
    else
      none

/-- One report for each order that a cancellation took. -/
structure Withdrawn (engine : MatchingEngine) (c : Message) (turn : Turn)
    (gone : List Message) : Prop where
  each : ∀ m ∈ gone, m.report = .cancelled ∧ m.clientId = c.clientId ∧
    m.requestId = c.requestId ∧ m.remaining = 0 ∧
      ∃ order, engine.resting.find? m.exchangeId = some order ∧
        m.orderId = order.orderId ∧ m.quantity = order.quantity
  once : (gone.map Message.exchangeId).Nodup
  vanished : ∀ id, id ∈ gone.map Message.exchangeId ↔
    (engine.resting.find? id).isSome ∧ turn.engine.resting.find? id = none
  targets : gone.map Message.exchangeId =
    if c.action = .cancelAll then Turn.cancelAllIds engine c
    else (engine.byClient.find? (c.clientId, c.orderId)).toList
  one : c.action = .cancel → gone.length = 1

/-- The answer to a well-sequenced command. -/
inductive Answered (engine : MatchingEngine) (c : Message) (turn : Turn) :
    Prop where
  | rejected {refusal complete : Message} :
      c.action ≠ .cancelAll →
      turn.batch.reports = [refusal, complete] →
      refusal.report = .rejected →
      refusal.reject ≠ .none →
      complete.report = .complete →
      turn.batch.updates = [] →
      turn.engine.nextTrade = engine.nextTrade →
      Answered engine c turn
  | executed {opening complete : Message} {prints : List TradePrint}
      {expiry : Option Message} :
      c.action = .new ∨ c.action = .replace →
      Executed engine c turn opening prints expiry complete →
      Answered engine c turn
  | cancelled {gone : List Message} {complete : Message} :
      c.action = .cancel ∨ c.action = .cancelAll →
      turn.batch.reports = gone ++ [complete] →
      complete.report = .complete →
      Withdrawn engine c turn gone →
      turn.engine.nextTrade = engine.nextTrade →
      Answered engine c turn

/-- The fills of an answer are the reports of its trades. -/
theorem Executed.fills
    {engine : MatchingEngine} {c : Message} {turn : Turn}
    {opening complete : Message} {prints : List TradePrint}
    {expiry : Option Message}
    (answer : Executed engine c turn opening prints expiry complete) :
    turn.batch.reports.filter (fun m => decide (m.report = .fill)) =
      prints.flatMap TradePrint.reports := by
  have opens : opening.report ≠ .fill := by
    rw [answer.opens]
    split
    · decide
    · decide
  have expires : expiry.toList.filter
      (fun m => decide (m.report = .fill)) = [] := by
    refine List.filter_eq_nil_iff.mpr fun m member => ?_
    simp [(answer.expires m (Option.mem_toList.mp member)).1]
  have traded : (prints.flatMap TradePrint.reports).filter
      (fun m => decide (m.report = .fill)) =
        prints.flatMap TradePrint.reports := by
    refine List.filter_eq_self.mpr fun m member => ?_
    obtain ⟨print, printMember, isReport⟩ := List.mem_flatMap.mp member
    simpa using (answer.agrees print printMember).fills m isReport
  rw [answer.reports, List.filter_append, List.filter_append,
    List.filter_cons_of_neg (by simpa using opens), expires, traded]
  simp [answer.completes]

namespace Turn

variable {slots : Nat} {turn final swept : Turn} {c : Message}
  {engine : MatchingEngine} {fills : List Fill} {leaves : Quantity}
  {books : Books} {prints : List TradePrint} {old : Option Message}
  {r : InstrumentRules}

/-! ## Cancellations -/

/-- The cancelled orders are gone, and no others. -/
theorem Cancels.resting
    {request : Nat} {ms : List Message}
    (cancels : Cancels slots request turn ms final) (id : OrderId) :
    final.engine.resting.find? id =
      if id ∈ ms.map Message.exchangeId then none
      else turn.engine.resting.find? id := by
  induction cancels with
  | done => simp
  | @next turn final m rest books _ _ _ inductionHypothesis =>
      rw [inductionHypothesis]
      change (if _ then none else
        (turn.engine.resting.erase m.exchangeId).find? id) = _
      by_cases isFirst : id = m.exchangeId
      · simp [isFirst]
      · simp [isFirst]

/-- What a cancellation reports of the orders it takes. -/
theorem Cancels.reports
    {request : Nat} {ms : List Message}
    (cancels : Cancels slots request turn ms final) :
    ∃ gone : List Message,
      final.batch.reports = turn.batch.reports ++ gone ∧
        gone.map Message.exchangeId = ms.map Message.exchangeId ∧
        ∀ m ∈ gone, ∃ order ∈ ms, m.report = .cancelled ∧
          m.exchangeId = order.exchangeId ∧ m.clientId = order.clientId ∧
            m.requestId = request ∧ m.remaining = 0 ∧
              m.orderId = order.orderId ∧ m.quantity = order.quantity := by
  induction cancels with
  | done => exact ⟨[], by simp, rfl, by simp⟩
  | @next turn final m rest books _ _ _ inductionHypothesis =>
      obtain ⟨gone, reports, ids, each⟩ := inductionHypothesis
      refine ⟨({ m with requestId := request, remaining := 0 } :
        Message).asReport .cancelled .none turn.engine.epoch
          (turn.engine.responseSequence + 1) :: gone, ?_, ?_, ?_⟩
      · rw [reports]
        exact List.append_assoc _ [_] gone
      · exact congrArg (m.exchangeId :: ·) ids
      · intro reported member
        rcases List.mem_cons.mp member with isFirst | later
        · rw [isFirst]
          exact ⟨m, List.mem_cons_self, rfl, rfl, rfl, rfl, rfl, rfl, rfl⟩
        · obtain ⟨order, orderMember, same⟩ := each reported later
          exact ⟨order, List.mem_cons_of_mem m orderMember, same⟩

/-- The orders a cancellation finds are different ones that are stored. -/
theorem Cancels.stored
    {request : Nat} {ms : List Message}
    (cancels : Cancels slots request turn ms final) :
    (ms.map Message.exchangeId).Nodup ∧
      ∀ m ∈ ms, turn.engine.resting.find? m.exchangeId = some m := by
  induction cancels with
  | done => simp
  | @next turn final m rest books found _ _ inductionHypothesis =>
      obtain ⟨apart, stored⟩ := inductionHypothesis
      have later : ∀ other ∈ rest, other.exchangeId ≠ m.exchangeId ∧
          turn.engine.resting.find? other.exchangeId = some other := by
        intro other member
        have kept : (turn.engine.resting.erase m.exchangeId).find?
            other.exchangeId = some other := stored other member
        rw [OrderedMap.find?_erase] at kept
        split at kept
        · cases kept
        · rename_i different
          exact ⟨different, kept⟩
      refine ⟨List.nodup_cons.mpr ⟨?_, apart⟩, ?_⟩
      · intro again
        obtain ⟨other, member, same⟩ := List.mem_map.mp again
        exact (later other member).1 same
      · intro other member
        rcases List.mem_cons.mp member with isFirst | inRest
        · rw [isFirst]
          exact found
        · exact (later other inRest).2

/-- The reports of a cancellation and what they say about the stores. -/
theorem Cancels.withdrawn
    {ms : List Message}
    (cancels : Cancels slots c.requestId turn ms final)
    (own : ∀ m ∈ ms, m.clientId = c.clientId)
    (targets : ms.map Message.exchangeId =
      if c.action = .cancelAll then cancelAllIds turn.engine c
      else (turn.engine.byClient.find? (c.clientId, c.orderId)).toList)
    (one : c.action = .cancel → ms.length = 1) :
    ∃ gone, final.batch.reports = turn.batch.reports ++ gone ∧
      Withdrawn turn.engine c final gone := by
  obtain ⟨gone, reports, ids, each⟩ := cancels.reports
  obtain ⟨apart, stored⟩ := cancels.stored
  refine ⟨gone, reports, ?_, ?_, ?_, ?_, ?_⟩
  · intro m member
    obtain ⟨order, orderMember, isCancelled, sameId, client, request, none,
      orderId, quantity⟩ := each m member
    refine ⟨isCancelled, client.trans (own order orderMember), request, none,
      order, ?_, orderId, quantity⟩
    rw [sameId]
    exact stored order orderMember
  · rw [ids]
    exact apart
  · intro id
    rw [ids, cancels.resting]
    constructor
    · intro listed
      obtain ⟨order, member, rfl⟩ := List.mem_map.mp listed
      simp [stored order member, listed]
    · rintro ⟨isStored, isGone⟩
      by_contra unlisted
      rw [if_neg unlisted] at isGone
      simp [isGone] at isStored
  · rw [ids]
    exact targets
  · intro isCancel
    have lengths := congrArg List.length ids
    rw [List.length_map, List.length_map] at lengths
    rw [lengths]
    exact one isCancel

/-! ## Orders and replacements -/

/-- The market data of some trades, filtered down to one message of each. -/
theorem filter_updates
    {keeps : Message → Bool} {one : TradePrint → Message}
    (single : ∀ print ∈ prints, print.updates.filter keeps = [one print]) :
    (prints.flatMap TradePrint.updates).filter keeps = prints.map one := by
  rw [List.filter_flatMap, List.map_eq_flatMap]
  exact List.flatMap_congr single

theorem filter_executes
    (agrees : ∀ print ∈ prints, print.Agrees engine c) :
    (prints.flatMap TradePrint.updates).filter
        (fun m => decide (m.update = .execute)) =
      prints.map TradePrint.execute :=
  filter_updates fun print member => by
    simp [TradePrint.updates, (agrees print member).execute,
      (agrees print member).trade]

theorem filter_trades
    (agrees : ∀ print ∈ prints, print.Agrees engine c) :
    (prints.flatMap TradePrint.updates).filter
        (fun m => decide (m.update = .trade)) =
      prints.map TradePrint.trade :=
  filter_updates fun print member => by
    simp [TradePrint.updates, (agrees print member).execute,
      (agrees print member).trade]

/-- The report of what expires of a command. -/
def expiryOf (turn : Turn) (incoming : Message) (leaves : Quantity)
    (restsHere : Bool) : Option Message :=
  if restsHere = false ∧ leaves ≠ 0 then
    some (({ incoming with quantity := leaves, remaining := 0 } :
      Message).asReport .cancelled .none turn.engine.epoch
        (turn.engine.responseSequence + 1))
  else
    none

theorem publishResidual_reports
    (turn : Turn) (incoming : Message) (leaves : Quantity)
    (restsHere : Bool) :
    (turn.publishResidual incoming leaves restsHere).batch.reports =
      turn.batch.reports ++
        (turn.expiryOf incoming leaves restsHere).toList := by
  unfold publishResidual expiryOf
  cases restsHere with
  | true => simp [update]
  | false =>
      by_cases none : leaves = 0
      · simp [none]
      · simp [none, report, Message.asReport]

theorem publishResidual_updates
    (turn : Turn) (incoming : Message) (leaves : Quantity)
    (restsHere : Bool) :
    ∃ added,
      (turn.publishResidual incoming leaves restsHere).batch.updates =
          turn.batch.updates ++ added ∧
        ∀ m ∈ added, m.update = .add := by
  unfold publishResidual
  split
  · exact ⟨[_], rfl, by simp⟩
  · split
    · exact ⟨[], (List.append_nil _).symm, by simp⟩
    · exact ⟨[], (List.append_nil _).symm, by simp⟩

theorem afterEntry_updates
    (turn : Turn) (c : Message) (old rest : Option Message) (books : Books) :
    ∃ added,
      (turn.afterEntry c old rest books).batch.updates =
          turn.batch.updates ++ added ∧
        ∀ m ∈ added, m.update = .cancel := by
  cases old with
  | none => exact ⟨[], (List.append_nil _).symm, by simp⟩
  | some m => exact ⟨[_], rfl, by simp⟩

theorem afterReduce_updates
    (turn : Turn) (c old : Message) (books : Books) :
    ∃ added,
      (turn.afterReduce c old books).batch.updates =
          turn.batch.updates ++ added ∧
        ∀ m ∈ added, m.update = .reduce := by
  unfold afterReduce
  split
  · exact ⟨[_], rfl, by simp⟩
  · exact ⟨[], (List.append_nil _).symm, by simp⟩

/-- Whatever is left of a replacement rests. -/
theorem Placement.rests_of_replace
    {m : Message}
    (placement : Placement slots turn c (some m) r fills leaves books swept)
    (sound : turn.engine.Sound slots) :
    rests c leaves = decide (leaves ≠ 0) := by
  have positive := (sound.linked.numbered _ m placement.enters.found).2.1
  obtain ⟨isLimit, isGtc⟩ :=
    placement.checked.command.replace (Nat.ne_of_gt positive)
  simp [rests, isLimit, isGtc]

/-- Apart from its trades a command publishes an entry and a residual. -/
theorem Printed.filter_updates
    (printed : Printed turn.engine c
      (turn.afterEntry c old (turn.restOf c leaves) books) c.quantity swept
      leaves prints) (silent : turn.batch = {}) {type : UpdateType} (notCancel : type ≠ .cancel)
    (notAdd : type ≠ .add) :
    (swept.publishResidual (turn.engine.incoming c) leaves
        (rests c leaves)).batch.updates.filter
          (fun m => decide (m.update = type)) =
      (prints.flatMap TradePrint.updates).filter
        fun m => decide (m.update = type) := by
  obtain ⟨before, entryUpdates, areCancels⟩ :=
    afterEntry_updates turn c old (turn.restOf c leaves) books
  obtain ⟨added, residualUpdates, areAdds⟩ := publishResidual_updates swept
    (turn.engine.incoming c) leaves (rests c leaves)
  have noneBefore : before.filter (fun m => decide (m.update = type)) = [] :=
    List.filter_eq_nil_iff.mpr fun m member => by
      simp [areCancels m member, Ne.symm notCancel]
  have noneAdded : added.filter (fun m => decide (m.update = type)) = [] :=
    List.filter_eq_nil_iff.mpr fun m member => by
      simp [areAdds m member, Ne.symm notAdd]
  rw [residualUpdates, printed.updates, entryUpdates, silent,
    List.filter_append, List.filter_append, List.filter_append, noneBefore,
    noneAdded]
  simp

/-- What a placed command has live at the end is what rests of it. -/
theorem Placement.residualOrder
    (placement : Placement slots turn c old r fills leaves books swept)
    (sound : turn.engine.Sound slots) :
    (swept.publishResidual (turn.engine.incoming c) leaves
        (rests c leaves)).engine.ledger.blotter c.clientId c.orderId =
      (turn.restOf c leaves).map Message.terms := by
  obtain ⟨sequence, responseSequence, published⟩ :=
    publishResidual_engine swept (turn.engine.incoming c) leaves
      (rests c leaves)
  rw [published]
  exact placement.ownOrder sound

/-- The stores after a command that was placed. -/
theorem Placement.carried
    (placement : Placement slots turn c old r fills leaves books swept)
    (sound : turn.engine.Sound slots)
    (printed : Printed turn.engine c
      (turn.afterEntry c old (turn.restOf c leaves) books) c.quantity swept
      leaves prints)
    (sizes : prints.map TradePrint.size = fills.map Fill.size) :
    Carried turn.engine c
      ((swept.publishResidual (turn.engine.incoming c) leaves
        (rests c leaves)).finish c) prints leaves where
  checked := ⟨r, _, placement.checked.rules, placement.checked.command⟩
  rest := printed.rest
  whole := placement.whole
  passive isPassive := by
    rw [placement.passive isPassive] at sizes
    exact List.map_eq_nil_iff.mp sizes
  live := by
    refine (placement.residualOrder sound).trans ?_
    unfold restOf
    split
    · rfl
    · rfl

/-- The answer to a command that was placed. -/
theorem Placement.answers
    (placement : Placement slots turn c old r fills leaves books swept)
    (sound : turn.engine.Sound slots) (action : c.action = entryAction old)
    (silent : turn.batch = {})
    (printed : Printed turn.engine c
      (turn.afterEntry c old (turn.restOf c leaves) books) c.quantity swept
      leaves prints)
    (carried : Carried turn.engine c
      ((swept.publishResidual (turn.engine.incoming c) leaves
        (rests c leaves)).finish c) prints leaves) :
    ∃ opening expiry complete,
      Executed turn.engine c
        ((swept.publishResidual (turn.engine.incoming c) leaves
          (rests c leaves)).finish c) opening prints expiry complete := by
  let done := swept.publishResidual (turn.engine.incoming c) leaves
    (rests c leaves)
  let expiry := swept.expiryOf (turn.engine.incoming c) leaves (rests c leaves)
  let opening := (turn.engine.incoming c).asReport (entryReport old) .none
    turn.engine.epoch (turn.engine.responseSequence + 1)
  let complete := (done.completion c).asReport .complete .none
    done.engine.epoch (done.engine.responseSequence + 1)
  have agrees := printed.shown.agrees
  have isExpiry : ∀ m ∈ expiry, rests c leaves = false ∧ leaves ≠ 0 ∧
      m = ({ turn.engine.incoming c with quantity := leaves, remaining := 0 } :
        Message).asReport .cancelled .none swept.engine.epoch
          (swept.engine.responseSequence + 1) := by
    intro m member
    simp only [expiry, expiryOf] at member
    split at member
    · rename_i expires
      exact ⟨expires.1, expires.2, (Option.some.inj member).symm⟩
    · cases member
  have reports : done.batch.reports =
      opening :: prints.flatMap TradePrint.reports ++ expiry.toList := by
    rw [publishResidual_reports, printed.reports, afterEntry_reports, silent]
    rfl
  obtain ⟨client, request, order⟩ := MatchingEngine.completion_fields done c
  refine ⟨opening, expiry, complete,
    { reports := congrArg (· ++ [complete]) reports
      own := ?_
      opens := ?_
      expires := ?_
      completes := rfl
      agrees := agrees
      tradeIds := ?_
      nextTrade := ?_
      takers := fun _ _ _ shape => printed.shown.remaining shape
      executes := ?_
      trades := ?_
      conserved := ?_ }⟩
  · intro m member
    rcases List.mem_cons.mp member with isOpening | others
    · rw [isOpening]
      exact ⟨rfl, rfl, rfl⟩
    · rcases List.mem_cons.mp others with isComplete | expired
      · rw [isComplete]
        exact ⟨client, request, order⟩
      · rw [(isExpiry m (Option.mem_toList.mp expired)).2.2]
        exact ⟨rfl, rfl, rfl⟩
  · cases old with
    | none => simp [action, entryAction, opening, Message.asReport, entryReport]
    | some m => simp [action, entryAction, opening, Message.asReport, entryReport]
  · intro m member
    obtain ⟨notResting, someLeft, isReport⟩ := isExpiry m member
    refine ⟨by rw [isReport]; rfl, ?_⟩
    cases old with
    | none => exact action
    | some replaced =>
        rw [placement.rests_of_replace sound] at notResting
        simp [someLeft] at notResting
  · rw [printed.shown.tradeIds, afterEntry_engine]
  · have nextTrade := printed.nextTrade
    rw [afterEntry_engine] at nextTrade
    obtain ⟨sequence, responseSequence, published⟩ := publishResidual_engine _
      (turn.engine.incoming c) leaves (rests c leaves)
    change done.engine.nextTrade = _
    rw [published]
    exact nextTrade
  · rw [← filter_executes agrees]
    exact printed.filter_updates silent (by decide) (by decide)
  · rw [← filter_trades agrees]
    exact printed.filter_updates silent (by decide) (by decide)
  · rw [MatchingEngine.liveQuantity_eq_blotter, carried.live, ← carried.rest]
    simp only [expiry, expiryOf]
    cases restsHere : rests c leaves with
    | true => simp
    | false =>
        by_cases none : leaves = 0
        · simp [none]
        · simp [none, Message.asReport]

/-- A replacement that passed the checks can rest. -/
theorem rests_of_checked_replace
    {replaced : Message} (sound : turn.engine.Sound slots)
    (checked : turn.engine.Checked c (some replaced) r)
    (replaces : turn.engine.Replaces c replaced) :
    rests c c.quantity = true := by
  have positive := (sound.linked.numbered _ replaced replaces.found).2.1
  obtain ⟨isLimit, isGtc⟩ := checked.command.replace (Nat.ne_of_gt positive)
  simp [rests, isLimit, isGtc, checked.command.quantityPos]

/-- The stores after a replacement that keeps its place. -/
theorem afterReduce_carried
    {replaced : Message} (sound : turn.engine.Sound slots)
    (checked : turn.engine.Checked c (some replaced) r)
    (replaces : turn.engine.Replaces c replaced)
    (samePrice : replaced.price = c.price)
    (reshelved : Reshelved slots turn.engine.books books
      (turn.engine.ledger.resize replaced c.quantity).market) :
    Carried turn.engine c ((turn.afterReduce c replaced books).finish c) []
      c.quantity := by
  have restsHere := rests_of_checked_replace sound checked replaces
  refine ⟨⟨r, _, checked.rules, checked.command⟩, Nat.zero_add _, ?_,
    fun _ => rfl, ?_⟩
  · intro isFok
    simp [rests, isFok] at restsHere
  · change (turn.afterReduce c replaced books).engine.ledger.blotter _ _ = _
    rw [afterReduce_ledger reshelved,
      sound.linked.blotter_resize replaces.found, replaces.client,
      replaces.order, Blotter.put_self, if_pos restsHere]
    simp [Message.terms, replaces.instrument, replaces.side, samePrice]

/-- The answer to a replacement that keeps its place. -/
theorem afterReduce_answers
    {replaced : Message} (action : c.action = .replace)
    (silent : turn.batch = {}) (restsHere : rests c c.quantity = true)
    (carried : Carried turn.engine c
      ((turn.afterReduce c replaced books).finish c) [] c.quantity) :
    ∃ opening complete,
      Executed turn.engine c ((turn.afterReduce c replaced books).finish c)
        opening [] none complete := by
  let done := turn.afterReduce c replaced books
  obtain ⟨added, updates, areReductions⟩ :=
    afterReduce_updates turn c replaced books
  rw [silent] at updates
  have noneOf : ∀ {type : UpdateType}, type ≠ .reduce →
      done.batch.updates.filter (fun m => decide (m.update = type)) = [] := by
    intro type other
    rw [updates]
    refine List.filter_eq_nil_iff.mpr fun m member => ?_
    simp [areReductions m member, Ne.symm other]
  obtain ⟨client, request, order⟩ := MatchingEngine.completion_fields done c
  refine ⟨(reduction c replaced).asReport .replaced .none turn.engine.epoch
      (turn.engine.responseSequence + 1),
    (done.completion c).asReport .complete .none done.engine.epoch
      (done.engine.responseSequence + 1),
    { reports := ?_
      own := ?_
      opens := by simp [action, Message.asReport]
      expires := by simp
      completes := rfl
      agrees := by simp
      tradeIds := rfl
      nextTrade := ?_
      takers := by simp
      executes := noneOf (by decide)
      trades := noneOf (by decide)
      conserved := ?_ }⟩
  · change done.batch.reports ++ [_] = _
    rw [afterReduce_reports, silent]
    rfl
  · intro m member
    rcases List.mem_cons.mp member with isOpening | isComplete
    · rw [isOpening]
      exact ⟨rfl, rfl, rfl⟩
    · rw [List.mem_singleton.mp isComplete]
      exact ⟨client, request, order⟩
  · change done.engine.nextTrade = _
    rw [afterReduce_engine]
    rfl
  · rw [MatchingEngine.liveQuantity_eq_blotter, carried.live, if_pos restsHere]
    simp

/-- An order or a replacement that is carried out. -/
theorem Handled.executed
    (handled : Handled slots turn c final) (sound : turn.engine.Sound slots)
    (silent : turn.batch = {})
    (accepted : ¬ TurnedDown turn c final)
    (action : c.action = .new ∨ c.action = .replace) :
    ∃ opening prints expiry complete leaves,
      Executed turn.engine c (final.finish c) opening prints expiry complete ∧
        Carried turn.engine c (final.finish c) prints leaves := by
  cases handled with
  | rejected nonzero => exact absurd (.rejected nonzero) accepted
  | full => exact absurd .full accepted
  | cancelled targets _ =>
      cases targets with
      | one isCancel => simp [isCancel] at action
      | all isCancelAll => simp [isCancelAll] at action
  | reduced isReplace checked replaces samePrice _ reshelved =>
      have carried := afterReduce_carried sound checked replaces samePrice
        reshelved
      obtain ⟨opening, complete, answer⟩ :=
        afterReduce_answers isReplace silent
          (rests_of_checked_replace sound checked replaces) carried
      exact ⟨opening, [], none, complete, c.quantity, answer, carried⟩
  | @placed old r fills leaves books swept entry placement =>
      obtain ⟨prints, printed, sizes, _⟩ := placement.printed sound
      have carried := placement.carried sound printed sizes
      obtain ⟨opening, expiry, complete, answer⟩ :=
        placement.answers sound entry silent printed carried
      exact ⟨opening, prints, expiry, complete, leaves, answer, carried⟩

theorem Cancels.nextTrade
    {request : Nat} {ms : List Message}
    (cancels : Cancels slots request turn ms final) :
    final.engine.nextTrade = turn.engine.nextTrade := by
  induction cancels with
  | done => rfl
  | next _ _ _ inductionHypothesis => exact inductionHypothesis

/-- The answer to a cancellation. -/
theorem Cancels.answers
    {ms : List Message} (action : c.action = .cancel ∨ c.action = .cancelAll)
    (cancels : Cancels slots c.requestId turn ms final)
    (own : ∀ m ∈ ms, m.clientId = c.clientId)
    (targets : ms.map Message.exchangeId =
      if c.action = .cancelAll then cancelAllIds turn.engine c
      else (turn.engine.byClient.find? (c.clientId, c.orderId)).toList)
    (one : c.action = .cancel → ms.length = 1) (silent : turn.batch = {}) :
    Answered turn.engine c (final.finish c) := by
  obtain ⟨gone, reports, withdrawn⟩ := cancels.withdrawn own targets one
  rw [silent] at reports
  have finished : (final.finish c).batch.reports =
      gone ++ [(final.completion c).asReport .complete .none
        final.engine.epoch (final.engine.responseSequence + 1)] :=
    congrArg (· ++ [_]) reports
  exact .cancelled action finished rfl
    ⟨withdrawn.each, withdrawn.once, withdrawn.vanished, withdrawn.targets,
      withdrawn.one⟩ cancels.nextTrade

/-- The answer to every command that is not a cancel-all. -/
theorem Handled.answered
    (handled : Handled slots turn c final) (sound : turn.engine.Sound slots)
    (silent : turn.batch = {}) (notAll : c.action ≠ .cancelAll) :
    Answered turn.engine c (final.finish c) := by
  have refused : ∀ {reason : Reject} (refusing : Turn), reason ≠ .none →
      refusing.batch = {} →
      refusing.engine.nextTrade = turn.engine.nextTrade →
      Answered turn.engine c ((refusing.reject c reason).finish c) := by
    intro reason refusing nonzero empty sameTrade
    have reports : ((refusing.reject c reason).finish c).batch.reports =
        [c.asReport .rejected reason refusing.engine.epoch
            (refusing.engine.responseSequence + 1),
          ((refusing.reject c reason).completion c).asReport .complete .none
            refusing.engine.epoch (refusing.engine.responseSequence + 2)] := by
      change (refusing.batch.reports ++ [_]) ++ [_] = _
      rw [empty]
      rfl
    have updates : refusing.batch.updates = [] := by rw [empty]
    exact .rejected notAll reports rfl nonzero rfl updates sameTrade
  by_cases turnedDown : TurnedDown turn c final
  · cases turnedDown with
    | rejected nonzero => exact refused turn nonzero silent rfl
    | full => exact refused (turn.openPosition _ _) (by decide) silent rfl
  · by_cases entry : c.action = .new ∨ c.action = .replace
    · obtain ⟨_, _, _, _, _, answer, _⟩ :=
        handled.executed sound silent turnedDown entry
      exact .executed entry answer
    · cases handled with
      | rejected nonzero => exact absurd (.rejected nonzero) turnedDown
      | full => exact absurd .full turnedDown
      | cancelled targets cancels =>
          cases targets with
          | @one m isCancel found client order _ =>
              refine cancels.answers (Or.inl isCancel) (by simpa using client)
                ?_ (fun _ => rfl) silent
              have indexed := sound.linked.find?_key found
              rw [client, order] at indexed
              rw [if_neg notAll]
              change _ = (turn.engine.ledger.byClient.find?
                (c.clientId, c.orderId)).toList
              rw [indexed]
              rfl
          | all isCancelAll => exact absurd isCancelAll notAll
      | reduced isReplace _ _ _ _ _ => exact absurd (Or.inr isReplace) entry
      | @placed old _ _ _ _ _ action _ =>
          refine absurd ?_ entry
          cases old with
          | none => exact Or.inl action
          | some m => exact Or.inr action

end Turn

namespace MatchingEngine

variable {slots : Nat} {engine : MatchingEngine} {c : Message} {turn : Turn}
  {pool : PoolBytes} {reports : List Message}

theorem Executed.of_start
    {opening complete : Message} {prints : List TradePrint}
    {expiry : Option Message}
    (answer : Executed (engine.start c).engine c turn opening prints expiry
      complete) : Executed engine c turn opening prints expiry complete :=
  { answer with
    agrees := fun print member =>
      (answer.agrees print member).congr rfl rfl }

/-- The start of a call changes nothing that an answer depends on. -/
theorem answered_of_start
    (answered : Answered (engine.start c).engine c turn) :
    Answered engine c turn := by
  cases answered with
  | rejected notAll reports isRefusal reason isComplete updates nextTrade =>
      exact .rejected notAll reports isRefusal reason isComplete updates
        nextTrade
  | executed action answer =>
      exact .executed action (Executed.of_start answer)
  | cancelled action reports isComplete withdrawn nextTrade =>
      exact .cancelled action reports isComplete
        ⟨withdrawn.each, withdrawn.once, withdrawn.vanished,
          withdrawn.targets, withdrawn.one⟩ nextTrade

/-- A command that is carried out, seen from before the call. -/
theorem process_executed
    (sound : engine.Sound slots) (sequenced : engine.WellSequenced c)
    (processed : engine.process c = .ok turn)
    (action : c.action = .new ∨ c.action = .replace)
    (unrejected : ∀ m ∈ turn.batch.reports, m.report ≠ .rejected) :
    ∃ opening prints expiry complete leaves,
      Executed engine c turn opening prints expiry complete ∧
        Carried engine c turn prints leaves := by
  obtain ⟨turn', processed', outcome, _⟩ := process_outcome sound c
  rw [processed] at processed'
  cases processed'
  obtain ⟨done, handled, rfl⟩ := outcome.handled_of_sequenced sequenced
  have accepted : ¬ Turn.TurnedDown (engine.start c) c done := by
    intro turnedDown
    obtain ⟨m, member, isRejection⟩ := turnedDown.rejects
    exact unrejected m (List.mem_append_left _ member) isRejection
  obtain ⟨opening, prints, expiry, complete, leaves, answer, carried⟩ :=
    handled.executed (start_sound sound c) rfl accepted action
  exact ⟨opening, prints, expiry, complete, leaves, Executed.of_start answer,
    { carried with checked := carried.checked }⟩

/-- Every well-sequenced command is answered by the protocol. -/
theorem process_answered
    (sound : engine.Sound slots) (sequenced : engine.WellSequenced c)
    (processed : engine.process c = .ok turn) : Answered engine c turn := by
  have started := start_sound sound c
  refine answered_of_start ?_
  by_cases all : c.action = .cancelAll
  · obtain ⟨final, ms, dispatched, targets, ids, cancels, finalSound⟩ :=
      Turn.dispatch_cancelAll started all
    rw [process_dispatched sequenced dispatched finalSound] at processed
    cases processed
    exact cancels.answers (Or.inr all) (fun m member => targets.own member)
      (by rw [if_pos all, ids]) (by simp [all]) rfl
  · obtain ⟨turn', processed', outcome, _⟩ := process_outcome sound c
    rw [processed] at processed'
    cases processed'
    obtain ⟨done, handled, rfl⟩ := outcome.handled_of_sequenced sequenced
    exact handled.answered started rfl all

end MatchingEngine

end LimitOrderBook
