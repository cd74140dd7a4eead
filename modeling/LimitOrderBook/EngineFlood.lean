import LimitOrderBook.EngineLimits

namespace LimitOrderBook

/-!
# Engines with very many orders

Nothing bounds the number of resting orders but the pools of the books, so a
run over enough instruments reaches any number of them.  The run is built from
one fact: a valid limit order whose opposite queue is empty rests whole.
-/

namespace Turn

variable {slots : Nat} {turn : Turn} {c : Message}

/-- A valid limit order that meets nobody rests whole. -/
theorem submit_rests
    (sound : turn.engine.Sound slots) {r : InstrumentRules}
    {state : ClientState}
    (rules : turn.engine.instruments.find? c.instrumentId = some r)
    (passed : checkCommand r c 0 = .none)
    (known : turn.engine.clients.find? c.clientId = some state)
    (risk : turn.engine.checkRisk r state c 0 = .none)
    (resting : rests c c.quantity = true)
    (alone : marketOf turn.engine.books c.instrumentId c.side.opposite = [])
    (room : (marketOf turn.engine.books).count c.instrumentId < slots) :
    ∃ books,
      turn.submit c =
          .ok ((turn.afterEntry c none
            (some (turn.engine.residual c c.quantity)) books).publishResidual
              (turn.engine.incoming c) c.quantity true) ∧
        Reshelved slots turn.engine.books books
          ((marketOf turn.engine.books).insert c.instrumentId
            (orderView (turn.engine.residual c c.quantity))) := by
  have command := checkCommand_none passed
  obtain ⟨book, bookFound⟩ := sound.book_of_rules rules
  have isNew : state.maxOrderId < c.orderId := by
    unfold MatchingEngine.checkRisk at risk
    split at risk
    · cases risk
    · rename_i fresh
      simpa using fresh
  have visited : book.forEachOrder c.side.opposite (planVisitor turn.engine c)
      { leaves := c.quantity } = .ok { leaves := c.quantity } := by
    rw [OrderBook.forEachOrder, ← marketOf_of_find? bookFound, alone]
    rfl
  have isLimit : c.tif = .gtc ∧ c.orderType = .limit := by
    simp only [rests, decide_eq_true_eq] at resting
    exact resting.2
  have price : rests c c.quantity = true → c.price ≠ 0 := by
    intro _
    have low := (command.price isLimit.2).1
    have positive := minPrice_pos (sound.rules _ r rules)
    lia
  have enters : turn.engine.Enters c none := unused_key sound known isNew
  obtain ⟨reserved, books, reservedEq, entered, reshelved⟩ :=
    entry_ok sound bookFound enters command.side price fun _ => room
  rw [show turn.restOf c c.quantity =
    some (turn.engine.residual c c.quantity) from if_pos resting]
    at entered reshelved
  refine ⟨books, ?_, reshelved⟩
  have notKilled : ¬ (c.tif = .fok ∧
      ({ leaves := c.quantity } : Plan).leaves ≠ 0) := by
    rw [isLimit.1]
    simp
  rw [submit_new rules passed known risk bookFound]
  refine (place_eq visited rfl notKilled reservedEq).trans ?_
  rw [resting] at entered
  simp [entered, resting, Bind.bind, Except.bind, pure, Except.pure]

end Turn

namespace MatchingEngine

variable {engine : MatchingEngine} {c : Message} {pool : PoolBytes}

/-- What a command does that rests whole. -/
structure RestsWhole (engine : MatchingEngine) (c : Message)
    (next : MatchingEngine) : Prop where
  instruments : next.instruments = engine.instruments
  resting : next.resting = engine.resting.insert engine.nextOrder
    (engine.residual c c.quantity)
  market : marketOf next.books = (marketOf engine.books).insert c.instrumentId
    (orderView (engine.residual c c.quantity))
  positions : next.positions = engine.positions.emplace
    (c.clientId, c.instrumentId) {}
  requests : ∀ client, (next.clientState client).lastRequest =
    if client = c.clientId then c.requestId
    else (engine.clientState client).lastRequest
  orderIds : ∀ client, (next.clientState client).maxOrderId =
    if client = c.clientId then
      max (engine.clientState client).maxOrderId c.orderId
    else
      (engine.clientState client).maxOrderId

theorem process_rests
    (reachable : Reachable pool engine) (sequenced : engine.WellSequenced c)
    (action : c.action = .new) {r : InstrumentRules}
    (rules : engine.instruments.find? c.instrumentId = some r)
    (passed : checkCommand r c 0 = .none)
    (risk : engine.checkRisk r (engine.clientState c.clientId) c 0 = .none)
    (resting : Turn.rests c c.quantity = true)
    (alone : marketOf engine.books c.instrumentId c.side.opposite = [])
    (room : (marketOf engine.books).count c.instrumentId <
      pool.book.slots) :
    ∃ turn, engine.process c = .ok turn ∧ Reachable pool turn.engine ∧
      engine.RestsWhole c turn.engine := by
  have sound := reachable.invariant.sound
  have known : (engine.start c).engine.clients.find? c.clientId =
      some (engine.clientState c.clientId) := by
    simp only [start, openClient, OrderedMap.find?_emplace, if_true]
    cases found : engine.clients.find? c.clientId with
    | none => simp [clientState, found]
    | some state => simp [clientState, found]
  have startRisk : (engine.start c).engine.checkRisk r
      (engine.clientState c.clientId) c 0 = .none := risk
  obtain ⟨books, submitted, reshelved⟩ := Turn.submit_rests
    (start_sound sound c) (by exact rules) passed known startRisk resting
    (by exact alone) (by exact room)
  have dispatched : Turn.dispatch (engine.start c) c =
      (engine.start c).submit c := by
    simp [Turn.dispatch, action]
  rw [submitted] at dispatched
  obtain ⟨turn, dispatched', _, turnSound⟩ := Turn.dispatch_ok
    (start_sound sound c) sequenced.client (by simp [known])
  rw [dispatched] at dispatched'
  cases dispatched'
  have processed := process_dispatched sequenced dispatched turnSound
  refine ⟨_, processed, .step reachable processed, ?_⟩
  obtain ⟨sequence, responseSequence, published⟩ :=
    Turn.publishResidual_engine
      ((engine.start c).afterEntry c none
        (some ((engine.start c).engine.residual c c.quantity)) books)
      ((engine.start c).engine.incoming c) c.quantity true
  have modified : ∀ client, ∃ cached,
      (Turn.finish (((engine.start c).afterEntry c none
        (some ((engine.start c).engine.residual c c.quantity))
          books).publishResidual ((engine.start c).engine.incoming c)
            c.quantity true) c).engine.clients.find? client =
        if client = c.clientId then
          some { (engine.clientState client) with
            maxOrderId := max (engine.clientState client).maxOrderId c.orderId
            lastRequest := c.requestId
            lastCommand := c
            cached := cached }
        else
          engine.clients.find? client := by
    intro client
    simp only [Turn.finish, Turn.remember, Turn.report, published,
      Turn.afterEntry_engine, OrderedMap.find?_modify]
    by_cases isOwner : client = c.clientId
    · subst isOwner
      simp only [known, if_true, Option.map_some]
      exact ⟨_, rfl⟩
    · exact ⟨[], by simp [isOwner, start, openClient]⟩
  refine ⟨?_, ?_, ?_, ?_, ?_, ?_⟩
  · simp only [Turn.finish, Turn.remember, Turn.report, published,
      Turn.afterEntry_engine]
    rfl
  · simp only [Turn.finish, Turn.remember, Turn.report, published,
      Turn.afterEntry_engine]
    rfl
  · simp only [Turn.finish, Turn.remember, Turn.report, published,
      Turn.afterEntry_engine]
    exact reshelved.shows
  · simp only [Turn.finish, Turn.remember, Turn.report, published,
      Turn.afterEntry_engine]
    rfl
  · intro client
    obtain ⟨_, found⟩ := modified client
    rw [clientState, found]
    split_ifs
    · rfl
    · rfl
  · intro client
    obtain ⟨_, found⟩ := modified client
    rw [clientState, found]
    split_ifs
    · rfl
    · rfl

/-! ## The flood -/

/-- A market of many instruments under the default rules. -/
def manyInstruments (count : Nat) : Instruments where
  entries := (List.range count).map fun index => (index + 1, {})
  sorted := by
    refine List.pairwise_map.mpr (List.pairwise_lt_range.imp ?_)
    intro first second before
    exact Nat.succ_lt_succ before

theorem find?_manyInstruments
    {count index : Nat} (inside : index < count) :
    (manyInstruments count).find? (index + 1) = some {} :=
  OrderedMap.mem_entries.mp
    (List.mem_map.mpr ⟨index, List.mem_range.mpr inside, rfl⟩)

/-- A book of the source holds this many orders. -/
theorem capacity_slots : PoolBytes.capacity.book.slots = 512 := by
  decide +kernel

/-- Two bids of every client, 512 on every instrument. -/
def floodOrder (index : Nat) : Message :=
  { clientId := index / 2 + 1
    requestId := index % 2 + 1
    orderId := index % 2 + 1
    instrumentId := index / 512 + 1
    price := 1
    quantity := 1 }

/-- How many of the first orders a client has sent. -/
def sent (orders : Nat) (client : ClientId) : Nat :=
  min 2 (orders - 2 * (client - 1))

/-- An engine after so many orders of the flood. -/
structure Flooded (count orders : Nat) (engine : MatchingEngine) : Prop where
  reachable : Reachable .capacity engine
  instruments : engine.instruments = manyInstruments count
  size : engine.resting.size = orders
  requests : ∀ client, client ≠ 0 →
    (engine.clientState client).lastRequest = sent orders client
  orderIds : ∀ client, client ≠ 0 →
    (engine.clientState client).maxOrderId = sent orders client
  openOrders : ∀ client, client ≠ 0 →
    engine.openOrders client = sent orders client
  held : ∀ client instrument, client ≠ 0 →
    engine.held client instrument .bid ≤ sent orders client
  flat : ∀ key position, engine.positions.find? key = some position →
    position = {}
  asks : ∀ instrument, marketOf engine.books instrument .ask = []
  bids : ∀ instrument, instrument ≠ 0 →
    (marketOf engine.books instrument .bid).length =
      min 512 (orders - 512 * (instrument - 1))

theorem flooded_start {count : Nat} (nonempty : 0 < count) :
    ∃ engine, Flooded count 0 engine := by
  have accepted : ∀ entry ∈ (manyInstruments count).entries,
      entry.2.Accepted entry.1 := by
    intro entry member
    obtain ⟨index, _, rfl⟩ := List.mem_map.mp member
    rw [InstrumentRules.Accepted]
    simp
  have some : (manyInstruments count).entries ≠ [] := by
    simp [manyInstruments]
    lia
  have created : create .capacity (manyInstruments count) 1 =
      .ok { instruments := manyInstruments count
            books := (manyInstruments count).mapValues
              fun _ => PoolBytes.capacity.book
            epoch := 1 } := by
    rw [create, if_neg (by simp [some]), if_neg]
    rintro ⟨entry, member, refused⟩
    exact refused (accepted entry member)
  have market := Created.market ⟨_, _, created⟩
  refine ⟨_, .start ⟨_, _, created⟩, rfl, rfl, ?_, ?_, ?_, ?_, ?_, ?_, ?_⟩
  · intro client _
    simp [clientState, sent]
  · intro client _
    simp [clientState, sent]
  · intro client _
    simp [MatchingEngine.openOrders, sent]
  · intro client instrument _
    simp [MatchingEngine.held, sent]
  · intro key position found
    cases found
  · intro instrument
    rw [market]
    rfl
  · intro instrument _
    rw [market]
    simp [Market.empty]

theorem Flooded.step
    {count orders : Nat} (flooded : Flooded count orders engine)
    (room : orders < 512 * count) :
    ∃ next, Flooded count (orders + 1) next := by
  have sound := flooded.reachable.invariant.sound
  have owner : (floodOrder orders).clientId ≠ 0 := Nat.succ_ne_zero _
  have instrument : (floodOrder orders).instrumentId ≠ 0 := Nat.succ_ne_zero _
  have already : sent orders (floodOrder orders).clientId = orders % 2 := by
    simp only [sent, floodOrder]
    lia
  have rules : engine.instruments.find? (floodOrder orders).instrumentId =
      some {} := by
    rw [flooded.instruments]
    exact find?_manyInstruments (by lia)
  have passed : checkCommand {} (floodOrder orders) 0 = .none := by
    simp [checkCommand, Malformed, floodOrder, Side.Listed]
  have sequenced : engine.WellSequenced (floodOrder orders) := by
    refine ⟨⟨rfl, by simp [floodOrder], by simp [floodOrder]⟩, owner, ?_⟩
    rw [lastRequest, flooded.requests _ owner, already]
    rfl
  have unnumbered : engine.resting.erase 0 = engine.resting := by
    refine OrderedMap.erase_of_find?_none ?_
    cases found : engine.resting.find? 0 with
    | none => rfl
    | some m =>
        have positive := (sound.linked.numbered 0 m found).2.1
        have isZero := sound.exchangeId_eq found
        lia
  have risk : engine.checkRisk {}
      (engine.clientState (floodOrder orders).clientId)
      (floodOrder orders) 0 = .none := by
    have few : (engine.exposure (floodOrder orders) 0).openOrders =
        orders % 2 := by
      rw [exposure_openOrders, unnumbered, ← already]
      exact flooded.openOrders _ owner
    have reserved : (engine.exposure (floodOrder orders) 0).reserved =
        engine.held (floodOrder orders).clientId
          (floodOrder orders).instrumentId .bid := by
      rw [exposure_reserved, unnumbered]
      rfl
    have low := engine.held_nonneg (floodOrder orders).clientId
      (floodOrder orders).instrumentId .bid
    have high := flooded.held _ (floodOrder orders).instrumentId owner
    have position : engine.position (floodOrder orders).clientId
        (floodOrder orders).instrumentId = {} := by
      rw [MatchingEngine.position]
      cases found : engine.positions.find?
        ((floodOrder orders).clientId, (floodOrder orders).instrumentId) with
      | none => rfl
      | some position => exact flooded.flat _ _ found
    rw [already] at high
    rw [checkRisk, worst, few, reserved, position, flooded.orderIds _ owner,
      already]
    rw [if_neg (by simp [floodOrder]), if_neg (by simp; lia), if_neg]
    simp only [floodOrder, if_true] at low high ⊢
    lia
  have alone : marketOf engine.books (floodOrder orders).instrumentId
      (floodOrder orders).side.opposite = [] := flooded.asks _
  have bids := flooded.bids _ instrument
  have slot : (marketOf engine.books).count (floodOrder orders).instrumentId <
      PoolBytes.capacity.book.slots := by
    rw [capacity_slots, Market.count, flooded.asks, bids]
    simp only [floodOrder, List.length_nil]
    lia
  obtain ⟨turn, processed, reachable, rests⟩ := process_rests flooded.reachable
    sequenced rfl rules passed risk rfl alone slot
  have numbered : engine.resting.find? engine.nextOrder = none :=
    sound.linked.find?_none_of_le (Nat.le_refl _)
  have sentNext : ∀ client, client ≠ 0 → sent (orders + 1) client =
      if client = (floodOrder orders).clientId then orders % 2 + 1
      else sent orders client := by
    intro client named
    simp only [sent, floodOrder]
    split_ifs
    · lia
    · lia
  refine ⟨turn.engine, reachable, rests.instruments.trans flooded.instruments,
    ?_, ?_, ?_, ?_, ?_, ?_, ?_, ?_⟩
  · rw [rests.resting, OrderedMap.size_eq_total,
      OrderedMap.total_insert_of_find?_none numbered,
      ← OrderedMap.size_eq_total, flooded.size, Nat.add_comm]
  · intro client named
    rw [rests.requests, sentNext client named, flooded.requests client named]
    rfl
  · intro client named
    rw [rests.orderIds, sentNext client named, flooded.orderIds client named]
    split_ifs with isOwner
    · rw [isOwner, already]
      simp [floodOrder]
    · rfl
  · intro client named
    rw [MatchingEngine.openOrders, rests.resting,
      OrderedMap.total_insert_of_find?_none numbered, sentNext client named]
    have before := flooded.openOrders client named
    rw [MatchingEngine.openOrders] at before
    rw [before]
    split_ifs with isOwner
    · rw [isOwner, already]
      simp [openBy, residual, incoming, Nat.add_comm]
    · have other : ¬ (floodOrder orders).clientId = client :=
        fun same => isOwner same.symm
      simp [openBy, residual, incoming, other]
  · intro client instrument named
    rw [MatchingEngine.held, rests.resting,
      OrderedMap.total_insert_of_find?_none numbered, sentNext client named]
    have before := flooded.held client instrument named
    rw [MatchingEngine.held] at before
    split_ifs with isOwner
    · rw [isOwner, already] at before
      have one : heldBy client instrument .bid engine.nextOrder
          (engine.residual (floodOrder orders) (floodOrder orders).quantity) ≤
            1 := by
        simp only [heldBy, residual, incoming, floodOrder]
        split_ifs
        · rfl
        · decide
      rw [isOwner] at one ⊢
      lia
    · have other : ¬ (floodOrder orders).clientId = client :=
        fun same => isOwner same.symm
      simpa [heldBy, residual, incoming, other] using before
  · intro key position found
    rw [rests.positions, OrderedMap.find?_emplace] at found
    split_ifs at found with isKey
    · cases known : engine.positions.find? key with
      | none => simp_all
      | some stored => simp_all [flooded.flat key stored known]
    · exact flooded.flat key position found
  · intro instrument
    rw [rests.market, Market.insert, if_neg]
    · exact flooded.asks instrument
    · rintro ⟨_, isAsk⟩
      cases isAsk
  · intro other named
    rw [rests.market, Market.insert]
    have before := flooded.bids other named
    split_ifs with isHere
    · rw [List.orderedInsert_length, before, isHere.1]
      simp only [floodOrder]
      lia
    · rw [before]
      have elsewhere : other ≠ orders / 512 + 1 := fun same =>
        isHere ⟨same, rfl⟩
      lia

/-- The flood goes on until every pool is full. -/
theorem flood
    {count orders : Nat} (nonempty : 0 < count)
    (room : orders ≤ 512 * count) : ∃ engine, Flooded count orders engine := by
  induction orders with
  | zero => exact flooded_start nonempty
  | succ orders inductionHypothesis =>
      obtain ⟨engine, flooded⟩ := inductionHypothesis (Nat.le_of_lt room)
      exact flooded.step room

/-- An engine can hold more orders than a 32-bit number counts. -/
theorem reachable_overfull :
    ∃ engine, Reachable .capacity engine ∧ engine.resting.size = 2 ^ 32 := by
  have slots : 2 ^ 32 ≤ 512 * 2 ^ 23 := by decide
  obtain ⟨engine, flooded⟩ := flood (Nat.two_pow_pos 23) slots
  exact ⟨engine, flooded.reachable, flooded.size⟩

end MatchingEngine

end LimitOrderBook
