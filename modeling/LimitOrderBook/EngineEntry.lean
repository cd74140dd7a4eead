import LimitOrderBook.EngineTurns

namespace LimitOrderBook

/-!
# The entry of an accepted command

The engine first reserves the residual of a command, then takes out the order
that is being replaced.  In between the client's key names one order and two
are stored.  Together the two steps are one exchange on the ledger, the
removal first.
-/

namespace Market

/-- An arrival and the removal of another order commute. -/
theorem remove_insert
    {market : Market} {instrument : InstrumentId} (order : OrderView)
    (queued : (market instrument order.side).Pairwise (Ahead order.side))
    {orderId : OrderId} (apart : order.orderId ≠ orderId) :
    (market.insert instrument order).remove instrument orderId =
      (market.remove instrument orderId).insert instrument order := by
  funext other side
  by_cases here : other = instrument ∧ side = order.side
  · obtain ⟨rfl, rfl⟩ := here
    simp only [remove, insert, if_true, and_self]
    exact PriorityQueue.filter_orderedInsert
      (PriorityQueue.inOrder_of_ahead queued) (by simpa using apart)
  · simp [remove, insert, here]

/-- An arrival keeps the other orders live. -/
theorem Live.insert
    {market : Market} {other : InstrumentId} {orderId : OrderId}
    {quantity : Quantity} (live : market.Live other orderId quantity)
    (instrument : InstrumentId) (order : OrderView) :
    (market.insert instrument order).Live other orderId quantity := by
  obtain ⟨side, old, member, sameId, sameQuantity⟩ := live
  refine ⟨side, old, ?_, sameId, sameQuantity⟩
  unfold Market.insert
  split
  · rw [List.mem_orderedInsert]
    exact Or.inr member
  · exact member

end Market

/-- The order a command replaces, when it replaces one. -/
structure MatchingEngine.Replaces (engine : MatchingEngine) (c old : Message) :
    Prop where
  found : engine.resting.find? old.exchangeId = some old
  client : old.clientId = c.clientId
  order : old.orderId = c.orderId
  instrument : old.instrumentId = c.instrumentId
  side : old.side = c.side

/-- The id a command replaces; zero for a new order. -/
def replacedId : Option Message → OrderId
  | some old => old.exchangeId
  | none => 0

/-- A new order has an unused key, a replacement names a live order. -/
def MatchingEngine.Enters (engine : MatchingEngine) (c : Message) :
    Option Message → Prop
  | some old => engine.Replaces c old
  | none => engine.byClient.find? (c.clientId, c.orderId) = none

/-- The report type of an accepted command. -/
def entryReport : Option Message → ReportType
  | some _ => .replaced
  | none => .accepted

namespace Turn

variable {slots : Nat} {turn : Turn} {c : Message} {old rest : Option Message}

/-- The turn after the entry of an accepted command. -/
def afterEntry (turn : Turn) (c : Message) (old rest : Option Message)
    (books : Books) : Turn :=
  let ledger := turn.engine.ledger.exchange old rest
  let entered : Turn :=
    { turn with
      engine :=
        { turn.engine with
          books := books
          resting := ledger.resting
          byClient := ledger.byClient
          positions := turn.engine.positions.emplace
            (c.clientId, c.instrumentId) {}
          nextOrder := turn.engine.nextOrder + 1 } }
  let retired :=
    match old with
    | some m => entered.update m .cancel
    | none => entered
  (retired.raiseOrderId c).report (turn.engine.incoming c) (entryReport old)

/-- What an entry changes in the engine. -/
theorem afterEntry_engine (turn : Turn) (c : Message)
    (old rest : Option Message) (books : Books) :
    (turn.afterEntry c old rest books).engine =
      { turn.engine with
        books := books
        resting := (turn.engine.ledger.exchange old rest).resting
        byClient := (turn.engine.ledger.exchange old rest).byClient
        positions := turn.engine.positions.emplace
          (c.clientId, c.instrumentId) {}
        clients := turn.engine.clients.modify c.clientId fun state =>
          { state with maxOrderId := max state.maxOrderId c.orderId }
        nextOrder := turn.engine.nextOrder + 1
        sequence :=
          if old.isSome then turn.engine.sequence + 1
          else turn.engine.sequence
        responseSequence := turn.engine.responseSequence + 1 } := by
  cases old <;> rfl

/-- The residual a plan leaves, when it rests. -/
def restOf (turn : Turn) (c : Message) (leaves : Quantity) : Option Message :=
  if rests c leaves then some (turn.engine.residual c leaves) else none

theorem restOf_eq_some
    {leaves : Quantity} {m : Message} (isRest : turn.restOf c leaves = some m) :
    rests c leaves = true ∧ m = turn.engine.residual c leaves := by
  unfold restOf at isRest
  split at isRest
  · rename_i restsHere
    cases isRest
    exact ⟨restsHere, rfl⟩
  · cases isRest

section Entry

variable {leaves : Quantity} {book : OrderBook}

/-- A replacement enters when its book lets the old order go. -/
theorem enter_replace
    {reserved : Turn} {m incoming : Message} {restsHere : Bool}
    {book next : OrderBook} (positive : m.exchangeId ≠ 0)
    (found : reserved.engine.resting.find? m.exchangeId = some m)
    (indexed : reserved.engine.byClient.find? (c.clientId, c.orderId) =
      some m.exchangeId)
    (bookFound : reserved.engine.books.find? c.instrumentId = some book)
    (applied : book.applyCancel ⟨m.exchangeId⟩ = (next, .ok)) :
    reserved.enter c m.exchangeId incoming restsHere =
      .ok ((((({ reserved with
        engine :=
          { reserved.engine with
            nextOrder := reserved.engine.nextOrder + 1 } } : Turn).afterRetire
          c m reserved.engine.nextOrder restsHere
          (reserved.engine.books.insert c.instrumentId next)).raiseOrderId
            c).report incoming .replaced)) := by
  simp only [enter, ne_eq, positive, not_false_eq_true, if_true, if_false,
    Bind.bind, Except.bind, pure, Except.pure]
  rw [retire_eq (by exact found) (by exact indexed) (by exact bookFound) applied]

/-- An accepted command enters when its residual finds a slot. -/
theorem entry_ok
    (sound : turn.engine.Sound slots)
    (bookFound : turn.engine.books.find? c.instrumentId = some book)
    (enters : turn.engine.Enters c old) (side : c.side.Listed)
    (price : rests c leaves = true → c.price ≠ 0)
    (room : rests c leaves = true →
      (marketOf turn.engine.books).count c.instrumentId < slots) :
    ∃ reserved books,
      (if rests c leaves then
          (turn.openPosition c.clientId c.instrumentId).reserve c
            (replacedId old) (turn.engine.residual c leaves) book
        else
          (turn.openPosition c.clientId c.instrumentId, .ok)) =
          (reserved, .ok) ∧
        reserved.enter c (replacedId old) (turn.engine.incoming c)
            (rests c leaves) =
          .ok (turn.afterEntry c old (turn.restOf c leaves) books) ∧
        Reshelved slots turn.engine.books books
          (turn.engine.ledger.exchange old (turn.restOf c leaves)).market := by
  have fresh : turn.engine.resting.find? turn.engine.nextOrder = none :=
    sound.linked.find?_none_of_le (Nat.le_refl _)
  cases restsHere : rests c leaves with
  | false =>
      simp only [restOf, restsHere, if_false, Bool.false_eq_true]
      cases old with
      | none =>
          exact ⟨_, _, rfl, rfl, sound.booksWf, rfl, rfl⟩
      | some m =>
          obtain ⟨found, client, order, instrument, _⟩ := enters
          obtain ⟨oldBook, next, oldFound, applied, reshelved⟩ :=
            sound.booksWf.applyCancel (sound.live found)
          have positive := (sound.linked.numbered _ m found).2.1
          have indexed := sound.linked.find?_key found
          rw [instrument] at oldFound reshelved
          rw [client, order] at indexed
          refine ⟨_, _, rfl, ?_, by simpa [Ledger.exchange, Ledger.remove,
            MatchingEngine.ledger, instrument] using reshelved⟩
          rw [show replacedId (some m) = m.exchangeId from rfl,
            enter_replace (Nat.ne_of_gt positive) (by exact found)
              (by exact indexed) (by exact oldFound) applied]
          simp [afterEntry, afterRetire, Ledger.exchange, Ledger.remove,
            MatchingEngine.ledger, openPosition, client, order, withBooks,
            update, entryReport]
  | true =>
      have leavesPos : leaves ≠ 0 := by
        simp only [rests, decide_eq_true_eq] at restsHere
        exact restsHere.1
      obtain ⟨next, applied, reshelved⟩ := sound.booksWf.applyAdd bookFound
        ⟨turn.engine.nextOrder, c.side, c.price, leaves⟩
        leavesPos (price restsHere) side
        (sound.linked.not_live_of_find?_none fresh c.instrumentId)
        (room restsHere)
      have reserved : ∀ oldId : OrderId,
          (oldId = 0 →
            turn.engine.byClient.find? (c.clientId, c.orderId) = none) →
          (turn.openPosition c.clientId c.instrumentId).reserve c oldId
              (turn.engine.residual c leaves) book =
            ((turn.openPosition c.clientId c.instrumentId).afterReserve c oldId
              (turn.engine.residual c leaves)
              (turn.engine.books.insert c.instrumentId next), .ok) :=
        fun oldId unused =>
          reserve_eq (turn.openPosition c.clientId c.instrumentId)
            (turn.engine.residual c leaves) fresh unused applied
      simp only [restOf, restsHere, if_true]
      cases old with
      | none =>
          have unused :
              turn.engine.byClient.find? (c.clientId, c.orderId) = none :=
            enters
          exact ⟨_, _, reserved 0 fun _ => unused, rfl, reshelved⟩
      | some m =>
          obtain ⟨found, client, order, instrument, sameSide⟩ := enters
          have live := (sound.live found).insert c.instrumentId
            (OrderBook.addedView
              ⟨turn.engine.nextOrder, c.side, c.price, leaves⟩)
          rw [← reshelved.shows] at live
          obtain ⟨oldBook, after, oldFound, cancelled, retired⟩ :=
            reshelved.wf.applyCancel live
          obtain ⟨_, positive, used⟩ := sound.linked.numbered _ m found
          have indexed := sound.linked.find?_key found
          have apart : turn.engine.nextOrder ≠ m.exchangeId := by lia
          rw [instrument] at oldFound retired
          rw [client, order] at indexed
          refine ⟨_, _, reserved m.exchangeId
            (fun isZero => absurd isZero (Nat.ne_of_gt positive)),
            ?_, retired.wf, ?_, retired.sameKeys.trans reshelved.sameKeys⟩
          · rw [show replacedId (some m) = m.exchangeId from rfl,
              enter_replace (Nat.ne_of_gt positive)
                (by simp [afterReserve, openPosition, Ne.symm apart, found])
                (by simpa [afterReserve, openPosition, Nat.ne_of_gt positive]
                  using indexed)
                (by exact oldFound) cancelled]
            simp [afterEntry, afterRetire, afterReserve, Ledger.exchange,
              Ledger.remove, Ledger.add, MatchingEngine.ledger, openPosition,
              client, order, withBooks, update, entryReport,
              MatchingEngine.residual, MatchingEngine.incoming,
              OrderedMap.erase_insert_of_ne _ _ apart, Nat.ne_of_gt positive]
          · rw [retired.shows, reshelved.shows]
            have commuted := Market.remove_insert
              (OrderBook.addedView
                ⟨turn.engine.nextOrder, c.side, c.price, leaves⟩)
              (sound.linked.queued c.instrumentId c.side) apart
            simpa [Ledger.exchange, Ledger.remove, Ledger.add, instrument,
              MatchingEngine.residual, MatchingEngine.incoming,
              OrderBook.addedView, orderView] using commuted

/-- A full book refuses the residual, and only a position has been opened. -/
theorem reserve_full
    (sound : turn.engine.Sound slots)
    (bookFound : turn.engine.books.find? c.instrumentId = some book)
    (enters : turn.engine.Enters c old) (side : c.side.Listed)
    (leavesPos : leaves ≠ 0) (price : c.price ≠ 0)
    (full : (marketOf turn.engine.books).count c.instrumentId = slots) :
    (turn.openPosition c.clientId c.instrumentId).reserve c (replacedId old)
        (turn.engine.residual c leaves) book =
      (turn.openPosition c.clientId c.instrumentId, .allocationFailed) := by
  have fresh : turn.engine.resting.find? turn.engine.nextOrder = none :=
    sound.linked.find?_none_of_le (Nat.le_refl _)
  have refused := sound.booksWf.applyAdd_full bookFound
    ⟨turn.engine.nextOrder, c.side, c.price, leaves⟩
    leavesPos price side
    (sound.linked.not_live_of_find?_none fresh c.instrumentId) full
  have unused : replacedId old = 0 →
      turn.engine.byClient.find? (c.clientId, c.orderId) = none := by
    intro isNew
    cases old with
    | none => exact enters
    | some m =>
        have positive := (sound.linked.numbered _ m enters.found).2.1
        exact absurd isNew (Nat.ne_of_gt positive)
  rw [reserve_eq (turn.openPosition c.clientId c.instrumentId)
    (turn.engine.residual c leaves) fresh unused refused]
  simp [withBooks, openPosition, OrderedMap.insert_of_find?_some bookFound]

theorem afterEntry_ledger
    (c : Message) {books : Books}
    (reshelved : Reshelved slots turn.engine.books books
      (turn.engine.ledger.exchange old rest).market) :
    (turn.afterEntry c old rest books).engine.ledger =
      turn.engine.ledger.exchange old rest := by
  rw [afterEntry_engine]
  exact congrArg (Ledger.mk · _ _) reshelved.shows

theorem exchange_linked
    (sound : turn.engine.Sound slots) (enters : turn.engine.Enters c old) :
    (turn.engine.ledger.exchange old (turn.restOf c leaves)).Linked
      (turn.engine.nextOrder + 1) := by
  have removed :
      (turn.engine.ledger.exchange old none).Linked turn.engine.nextOrder ∧
        (turn.engine.ledger.exchange old none).byClient.find?
          (c.clientId, c.orderId) = none := by
    cases old with
    | none => exact ⟨sound.linked, enters⟩
    | some m =>
        refine ⟨sound.linked.remove enters.found, ?_⟩
        simp [Ledger.exchange, Ledger.remove, enters.client, enters.order]
  unfold restOf
  split
  · exact removed.1.add rfl sound.nextPos removed.2
  · exact removed.1.mono (Nat.le_succ _)

theorem afterEntry_extends (turn : Turn) (c : Message)
    (old rest : Option Message) (books : Books) :
    turn.engine.Extends (turn.afterEntry c old rest books).engine := by
  rw [afterEntry_engine]
  refine ⟨rfl, ?_, ?_⟩
  · intro client state known
    by_cases isOwner : client = c.clientId
    · subst isOwner
      exact ⟨_, by simp only [OrderedMap.find?_modify, if_true, known]; rfl,
        Nat.le_max_left _ _⟩
    · exact ⟨state, by simp [isOwner, known], Nat.le_refl _⟩
  · intro key known
    simp only [OrderedMap.find?_emplace]
    split
    · rfl
    · exact known

/-- The client of an accepted command and its rules. -/
structure Accepts (engine : MatchingEngine) (c : Message) (r : InstrumentRules)
    (leaves : Quantity) : Prop where
  rules : engine.instruments.find? c.instrumentId = some r
  known : (engine.clients.find? c.clientId).isSome
  named : c.clientId ≠ 0 ∧ c.orderId ≠ 0
  allows : rests c leaves = true → r.Allows (engine.residual c leaves)

theorem afterEntry_sound
    {r : InstrumentRules} (sound : turn.engine.Sound slots)
    (enters : turn.engine.Enters c old)
    (accepts : Accepts turn.engine c r leaves)
    {books : Books}
    (reshelved : Reshelved slots turn.engine.books books
      (turn.engine.ledger.exchange old (turn.restOf c leaves)).market) :
    (turn.afterEntry c old (turn.restOf c leaves) books).engine.Sound slots := by
  have grows := afterEntry_extends turn c old (turn.restOf c leaves) books
  have ledger := afterEntry_ledger c reshelved
  have shelves : Reshelved slots turn.engine.books
      (turn.afterEntry c old (turn.restOf c leaves) books).engine.books
      (turn.engine.ledger.exchange old (turn.restOf c leaves)).market := by
    rw [afterEntry_engine]
    exact reshelved
  refine sound.step shelves grows ?_ ?_ ?_
  · rw [ledger, afterEntry_engine]
    exact exchange_linked sound enters
  · rw [afterEntry_engine]
    exact Nat.succ_pos _
  · intro id stored found
    have residualBacked : rests c leaves = true →
        (turn.afterEntry c old (turn.restOf c leaves) books).engine.Backs
          (turn.engine.residual c leaves) := by
      intro restsHere
      obtain ⟨state, known⟩ := Option.isSome_iff_exists.mp accepts.known
      rw [afterEntry_engine]
      refine ⟨⟨r, accepts.rules, accepts.allows restsHere⟩, ?_, ?_,
        accepts.named⟩
      · refine ⟨{ state with maxOrderId := max state.maxOrderId c.orderId },
          ?_, Nat.le_max_right _ _⟩
        simp [MatchingEngine.residual, MatchingEngine.incoming, known]
      · simp [MatchingEngine.residual, MatchingEngine.incoming]
    rw [afterEntry_engine] at found
    rcases Ledger.find?_exchange found with ⟨isRest, _⟩ | kept
    · obtain ⟨restsHere, rfl⟩ := restOf_eq_some isRest
      exact Or.inr (residualBacked restsHere)
    · exact Or.inl kept

end Entry

end Turn

end LimitOrderBook
