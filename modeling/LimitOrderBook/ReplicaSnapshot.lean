import LimitOrderBook.ReplicaFeed
import LimitOrderBook.EngineChecker

namespace LimitOrderBook

/-!
# Snapshots

The rows of a snapshot say what the market is and nothing else, so books that
show one market have one snapshot, and the rows of a market rebuild it.
-/

/-! ## Rows and markets -/

/-- The rows of the orders of one instrument. -/
def marketRows (epoch : Nat) (sequence : Sequence) (market : Market)
    (instrument : InstrumentId) : List Message :=
  (market instrument .bid ++ market instrument .ask).map
    (MatchingEngine.orderRow epoch sequence instrument)

theorem bookRows_eq
    (epoch : Nat) (sequence : Sequence) {books : Books}
    {entry : InstrumentId × OrderBook} (member : entry ∈ books.entries) :
    MatchingEngine.bookRows epoch sequence entry =
      marketRows epoch sequence (marketOf books) entry.1 := by
  have found := OrderedMap.mem_entries.mp member
  rw [MatchingEngine.bookRows, ← List.map_flatMap, OrderBook.snapshot_orders,
    marketRows, marketOf_of_find? found, marketOf_of_find? found]
  rfl

theorem flatMap_bookRows (epoch : Nat) (sequence : Sequence) (books : Books) :
    books.entries.flatMap (MatchingEngine.bookRows epoch sequence) =
      books.keys.flatMap (marketRows epoch sequence (marketOf books)) := by
  rw [OrderedMap.keys, List.flatMap_map]
  exact List.flatMap_congr fun entry member => bookRows_eq epoch sequence member

/-- Sorted lists that cover the same nonempty blocks have the same blocks. -/
theorem flatMap_eq_of_sorted
    {β : Type} {f : Nat → List β} {first second : List Nat}
    (firstSorted : first.Pairwise (· < ·))
    (secondSorted : second.Pairwise (· < ·))
    (firstCovers : ∀ key, f key ≠ [] → key ∈ first)
    (secondCovers : ∀ key, f key ≠ [] → key ∈ second) :
    first.flatMap f = second.flatMap f := by
  have kept : ∀ keys : List Nat,
      (keys.filter fun key => decide (f key ≠ [])).flatMap f =
        keys.flatMap f := by
    intro keys
    induction keys with
    | nil => rfl
    | cons key rest inductionHypothesis =>
        by_cases isEmpty : f key = []
        · simpa [isEmpty] using inductionHypothesis
        · simpa [isEmpty] using inductionHypothesis
  have same : first.filter (fun key => decide (f key ≠ [])) =
      second.filter fun key => decide (f key ≠ []) := by
    refine List.Perm.eq_of_pairwise (fun a b _ _ less more => by omega)
      (firstSorted.filter _) (secondSorted.filter _)
      ((List.perm_ext_iff_of_nodup
        ((firstSorted.filter _).imp Nat.ne_of_lt)
        ((secondSorted.filter _).imp Nat.ne_of_lt)).mpr fun key => ?_)
    simp only [List.mem_filter, decide_eq_true_eq]
    exact ⟨fun ⟨_, nonempty⟩ => ⟨secondCovers key nonempty, nonempty⟩,
      fun ⟨_, nonempty⟩ => ⟨firstCovers key nonempty, nonempty⟩⟩
  rw [← kept first, same, kept second]

/-- Every instrument with an order has a book. -/
theorem mem_keys_of_rows
    {epoch : Nat} {sequence : Sequence} {books : Books}
    {instrument : InstrumentId}
    (nonempty : marketRows epoch sequence (marketOf books) instrument ≠ []) :
    instrument ∈ books.keys := by
  rw [OrderedMap.mem_keys]
  by_contra missing
  have absent : books.find? instrument = none := by simpa using missing
  exact nonempty (by simp [marketRows, marketOf, absent])

/-- The rows of a map of books depend on its market alone. -/
theorem rows_eq_of_market
    (epoch : Nat) (sequence : Sequence) {books others : Books}
    (same : marketOf books = marketOf others) :
    books.entries.flatMap (MatchingEngine.bookRows epoch sequence) =
      others.entries.flatMap (MatchingEngine.bookRows epoch sequence) := by
  rw [flatMap_bookRows, flatMap_bookRows, same]
  refine flatMap_eq_of_sorted (List.pairwise_map.mpr books.sorted)
    (List.pairwise_map.mpr others.sorted) ?_ ?_
  · intro key nonempty
    rw [← same] at nonempty
    exact mem_keys_of_rows nonempty
  · exact fun key nonempty => mem_keys_of_rows nonempty

/-- There is one row for every order. -/
theorem length_rows
    {slots : Nat} {books : Books} (wf : BooksWf slots books) (epoch : Nat)
    (sequence : Sequence) :
    (books.entries.flatMap
        (MatchingEngine.bookRows epoch sequence)).length =
      (books.entries.map fun entry => entry.2.orderCount).sum := by
  rw [List.length_flatMap]
  refine congrArg List.sum (List.map_congr_left fun entry member => ?_)
  rw [MatchingEngine.bookRows, ← List.map_flatMap, OrderBook.snapshot_orders,
    List.length_map]
  exact (wf _ _ (OrderedMap.mem_entries.mp member)).1.orderCount_orders.symm

namespace MarketReplica

variable {slots : Nat} {engine : MatchingEngine} {replica : MarketReplica}

/-- Two replicas at one point of one feed show the same snapshot. -/
theorem Follows.snapshot_eq
    {other : MarketReplica} {epoch : Nat} {sequence : Sequence}
    {market : Market}
    (follows : replica.Follows epoch sequence market)
    (otherFollows : other.Follows epoch sequence market) :
    replica.snapshot = other.snapshot := by
  have rows := rows_eq_of_market epoch sequence
    (follows.books.shows.trans otherFollows.books.shows.symm)
  have count : replica.orderCount = other.orderCount := by
    rw [orderCount, orderCount, ← length_rows follows.books.wf epoch sequence,
      ← length_rows otherFollows.books.wf epoch sequence, rows]
  simp [MarketReplica.snapshot, follows.synchronized,
    otherFollows.synchronized, envelope, follows.epoch, otherFollows.epoch,
    follows.sequence, otherFollows.sequence, rows, count]

/-- A replica that follows an engine has the engine's snapshot. -/
theorem Follows.snapshot
    (follows : replica.Follows engine.epoch engine.sequence
      (marketOf engine.books))
    (sound : engine.Sound slots) :
    replica.snapshot = .ok engine.snapshot := by
  have rows := rows_eq_of_market engine.epoch engine.sequence
    follows.books.shows
  have count : replica.orderCount = engine.resting.size := by
    have replicaRows := length_rows follows.books.wf engine.epoch
      engine.sequence
    have engineRows := length_rows sound.booksWf engine.epoch engine.sequence
    rw [sound.orderCount_sum] at engineRows
    rw [orderCount, ← replicaRows, rows, engineRows]
  simp [MarketReplica.snapshot, follows.synchronized, envelope,
    follows.epoch, follows.sequence, rows, count, MatchingEngine.snapshot,
    MatchingEngine.envelope]

end MarketReplica

/-! ## Rebuilding a market from its rows -/

/-- The order a row describes. -/
def rowOrder (m : Message) : OrderView :=
  ⟨m.exchangeId, m.side, m.price, m.quantity⟩

/-- The market a list of rows describes. -/
def rowsMarket (rows : List Message) : Market := fun instrument side =>
  (rows.filter fun m =>
    decide (m.instrumentId = instrument ∧ m.side = side)).map rowOrder

/-- Rows in the order in which a snapshot lists them. -/
structure SnapshotRows (slots : Nat) (rows : List Message) : Prop where
  kind : ∀ m ∈ rows, m.kind = .snapshotOrder
  named : ∀ m ∈ rows, m.instrumentId ≠ 0 ∧ m.exchangeId ≠ 0
  live : ∀ m ∈ rows, m.quantity ≠ 0 ∧ m.price ≠ 0 ∧ m.side.Listed
  ids : (rows.map Message.exchangeId).Nodup
  queued : ∀ instrument side,
    (rowsMarket rows instrument side).Pairwise (Ahead side)
  fits : ∀ instrument, (rowsMarket rows).count instrument ≤ slots

namespace SnapshotRows

variable {slots : Nat} {rows : List Message} {m : Message}

theorem init (all : SnapshotRows slots (rows ++ [m])) :
    SnapshotRows slots rows where
  kind row member := all.kind row (List.mem_append_left _ member)
  named row member := all.named row (List.mem_append_left _ member)
  live row member := all.live row (List.mem_append_left _ member)
  ids := by
    have ids := all.ids
    rw [List.map_append] at ids
    exact ids.of_append_left
  queued instrument side := by
    have queued := all.queued instrument side
    rw [rowsMarket, List.filter_append, List.map_append] at queued
    exact (List.pairwise_append.mp queued).1
  fits instrument := by
    refine Nat.le_trans ?_ (all.fits instrument)
    simp only [Market.count, rowsMarket, List.filter_append, List.map_append,
      List.length_append]
    lia

/-- The last row arrives behind everything in its queue. -/
theorem market_concat (all : SnapshotRows slots (rows ++ [m])) :
    rowsMarket (rows ++ [m]) =
      (rowsMarket rows).insert m.instrumentId (rowOrder m) := by
  funext instrument side
  by_cases here : instrument = m.instrumentId ∧ side = m.side
  · obtain ⟨rfl, rfl⟩ := here
    have appended : rowsMarket (rows ++ [m]) m.instrumentId m.side =
        rowsMarket rows m.instrumentId m.side ++ [rowOrder m] := by
      simp [rowsMarket]
    have queued := all.queued m.instrumentId m.side
    rw [appended] at queued
    have behind := (List.pairwise_append.mp queued).2.2
    have stays : ∀ order ∈ rowsMarket rows m.instrumentId m.side,
        ¬ OrderBook.Better m.side (rowOrder m) order := by
      intro order member better
      exact PriorityQueue.ahead_asymm
        (behind order member (rowOrder m) (by simp)) (Or.inl better)
    have inserted : (rowsMarket rows m.instrumentId m.side ++
        []).orderedInsert (OrderBook.Better m.side) (rowOrder m) =
          rowsMarket rows m.instrumentId m.side ++ [rowOrder m] :=
      PriorityQueue.orderedInsert_append stays
    rw [List.append_nil] at inserted
    rw [appended, Market.insert, if_pos (by exact ⟨rfl, rfl⟩), inserted]
  · have elsewhere : ¬ (m.instrumentId = instrument ∧ m.side = side) :=
      fun same => here ⟨same.1.symm, same.2.symm⟩
    rw [Market.insert, if_neg (by exact here)]
    simp [rowsMarket, elsewhere]

end SnapshotRows

namespace MarketReplica

variable {slots : Nat} {pool : PoolBytes} {rows : List Message} {m : Message}

/-- What the loop over the rows has built. -/
structure Rebuilt (slots : Nat) (rows : List Message)
    (state : Books × List OrderId) : Prop where
  books : Shows slots state.1 (rowsMarket rows)
  ids : ∀ id, id ∈ state.2 ↔ id ∈ rows.map Message.exchangeId

theorem restoreOrder_ok
    {state : Books × List OrderId} (rebuilt : Rebuilt slots rows state)
    (size : pool.book.slots = slots)
    (all : SnapshotRows slots (rows ++ [m])) :
    ∃ next, restoreOrder pool state m = .ok next ∧
      Rebuilt slots (rows ++ [m]) next := by
  have last : m ∈ rows ++ [m] := by simp
  obtain ⟨instrument, id⟩ := all.named m last
  obtain ⟨quantityPos, pricePos, listed⟩ := all.live m last
  have unseen : m.exchangeId ∉ rows.map Message.exchangeId := by
    have ids := all.ids
    rw [List.map_append] at ids
    intro member
    exact (List.disjoint_of_nodup_append ids) member (by simp)
  have absent : ∀ quantity,
      ¬ (marketOf state.1).Live m.instrumentId m.exchangeId quantity := by
    rintro quantity ⟨side, order, member, sameId, _⟩
    rw [rebuilt.books.shows] at member
    obtain ⟨row, rowMember, rfl⟩ := List.mem_map.mp member
    exact unseen (List.mem_map.mpr
      ⟨row, List.mem_of_mem_filter rowMember, sameId⟩)
  have room : (marketOf state.1).count m.instrumentId < slots := by
    have fits := all.fits m.instrumentId
    rw [all.market_concat, Turn.count_insert _ _ (by exact listed)] at fits
    rw [rebuilt.books.shows]
    exact fits
  obtain ⟨next, added, shows⟩ := addOrder_ok rebuilt.books.wf size quantityPos
    pricePos listed absent room
  refine ⟨(next, m.exchangeId :: state.2), ?_, ⟨shows.wf, ?_⟩, ?_⟩
  · have notSeen : m.exchangeId ∉ state.2 := fun member =>
      unseen ((rebuilt.ids _).mp member)
    simp [restoreOrder, all.kind m last, instrument, id, notSeen, added]
  · rw [shows.shows, rebuilt.books.shows, all.market_concat]
    rfl
  · intro other
    rw [List.mem_cons, rebuilt.ids, List.map_append, List.mem_append]
    simp [or_comm]

/-- The loop over the order rows rebuilds their market. -/
theorem restoreOrders_ok
    (size : pool.book.slots = slots) (all : SnapshotRows slots rows) :
    ∃ state,
      rows.foldlM (restoreOrder pool) (.empty, []) = .ok state ∧
        Rebuilt slots rows state := by
  induction rows using List.reverseRecOn with
  | nil =>
      refine ⟨(.empty, []), rfl, ⟨?_, ?_⟩, by simp⟩
      · intro instrument book found
        cases found
      · rfl
  | append_singleton rows m inductionHypothesis =>
      obtain ⟨state, restored, rebuilt⟩ := inductionHypothesis all.init
      obtain ⟨next, added, nextRebuilt⟩ := restoreOrder_ok rebuilt size all
      refine ⟨next, ?_, nextRebuilt⟩
      rw [List.foldlM_append, restored]
      simp [added, Bind.bind, Except.bind, pure, Except.pure]

/-- Between the envelope rows the index does not matter. -/
theorem foldlM_restoreRow
    {front : Message} {total start : Nat} {state : Books × List OrderId}
    (watermark : ∀ m ∈ rows,
      m.epoch = front.epoch ∧ m.sequence = front.sequence)
    (after : start ≠ 0) (before : start + rows.length ≤ total - 1) :
    (rows.zipIdx start).foldlM (restoreRow pool front total) state =
      rows.foldlM (restoreOrder pool) state := by
  induction rows generalizing start state with
  | nil => rfl
  | cons m rest inductionHypothesis =>
      obtain ⟨epoch, sequence⟩ := watermark m (by simp)
      rw [List.length_cons] at before
      have inner : start ≠ total - 1 := by omega
      have step : restoreRow pool front total state (m, start) =
          restoreOrder pool state m := by
        simp [restoreRow, epoch, sequence, after, inner]
      rw [List.zipIdx_cons, List.foldlM_cons, List.foldlM_cons, step]
      refine bind_congr fun next => ?_
      exact inductionHypothesis
        (fun other member => watermark other (by simp [member]))
        (Nat.succ_ne_zero start) (by omega)

end MarketReplica

/-! ## The rows of an engine -/

/-- A list of blocks of which only one is not empty. -/
theorem flatMap_eq_single
    {β : Type} {f : Nat → List β} {keys : List Nat} {key : Nat}
    (nodup : keys.Nodup) (others : ∀ other, other ≠ key → f other = [])
    (covered : f key ≠ [] → key ∈ keys) : keys.flatMap f = f key := by
  have nothing : ∀ rest : List Nat, key ∉ rest → rest.flatMap f = [] := by
    intro rest absent
    refine List.flatMap_eq_nil_iff.mpr fun other member => others other ?_
    exact fun same => absent (same ▸ member)
  by_cases isKey : key ∈ keys
  · obtain ⟨before, after, rfl⟩ := List.mem_iff_append.mp isKey
    obtain ⟨_, afterNodup, apart⟩ := List.nodup_append.mp nodup
    have notBefore : key ∉ before := fun member =>
      apart key member key (by simp) rfl
    have notAfter : key ∉ after := (List.nodup_cons.mp afterNodup).1
    rw [List.flatMap_append, List.flatMap_cons, nothing before notBefore,
      nothing after notAfter]
    simp
  · have empty : f key = [] := by
      by_contra nonempty
      exact isKey (covered nonempty)
    rw [nothing keys isKey, empty]

/-- Every row shows an order of the market. -/
theorem mem_bookRows
    {epoch : Nat} {sequence : Sequence} {books : Books} {m : Message}
    (member : m ∈ books.entries.flatMap
      (MatchingEngine.bookRows epoch sequence)) :
    ∃ instrument side order,
      order ∈ marketOf books instrument side ∧
        m = MatchingEngine.orderRow epoch sequence instrument order := by
  rw [flatMap_bookRows] at member
  obtain ⟨instrument, _, rowMember⟩ := List.mem_flatMap.mp member
  obtain ⟨order, orderMember, rfl⟩ := List.mem_map.mp rowMember
  rcases List.mem_append.mp orderMember with isBid | isAsk
  · exact ⟨instrument, .bid, order, isBid, rfl⟩
  · exact ⟨instrument, .ask, order, isAsk, rfl⟩

/-- The queue of a side holds orders of that side alone. -/
theorem BooksWf.filter_side
    {slots : Nat} {books : Books} (wf : BooksWf slots books)
    (instrument : InstrumentId) (queueSide side : Side) :
    (marketOf books instrument queueSide).filter
        (fun order => decide (order.side = side)) =
      if queueSide = side then marketOf books instrument queueSide
      else [] := by
  split
  · rename_i same
    refine List.filter_eq_self.mpr fun order member => ?_
    simpa using (wf.mem_market member).1.trans same
  · rename_i different
    refine List.filter_eq_nil_iff.mpr fun order member => ?_
    simpa [(wf.mem_market member).1] using different

/-- The rows of one queue, in the order of the queue. -/
theorem BooksWf.filter_bookRows
    {slots : Nat} {books : Books} (wf : BooksWf slots books) (epoch : Nat)
    (sequence : Sequence) (instrument : InstrumentId) (side : Side) :
    (books.entries.flatMap (MatchingEngine.bookRows epoch sequence)).filter
        (fun m => decide (m.instrumentId = instrument ∧ m.side = side)) =
      (marketOf books instrument side).map
        (MatchingEngine.orderRow epoch sequence instrument) := by
  have block : ∀ other,
      (marketRows epoch sequence (marketOf books) other).filter
          (fun m => decide (m.instrumentId = instrument ∧ m.side = side)) =
        if other = instrument then
          (marketOf books instrument side).map
            (MatchingEngine.orderRow epoch sequence instrument)
        else [] := by
    intro other
    by_cases here : other = instrument
    · subst here
      rw [marketRows, List.filter_map, if_pos rfl]
      have sameFilter : ((fun m : Message =>
          decide (m.instrumentId = other ∧ m.side = side)) ∘
            MatchingEngine.orderRow epoch sequence other) =
          fun order => decide (order.side = side) := by
        funext order
        by_cases sameSide : order.side = side
        · simp [MatchingEngine.orderRow, sameSide]
        · simp [MatchingEngine.orderRow, sameSide]
      rw [sameFilter, List.filter_append, wf.filter_side, wf.filter_side]
      cases side with
      | bid => simp
      | ask => simp
      | unlisted raw outside =>
          have nothing : marketOf books other (.unlisted raw outside) =
              [] := by
            refine List.eq_nil_iff_forall_not_mem.mpr fun order member => ?_
            rcases (wf.mem_market member).2.1 with isBid | isAsk
            · cases isBid
            · cases isAsk
          simp [nothing]
    · rw [if_neg here]
      refine List.filter_eq_nil_iff.mpr fun m member => ?_
      obtain ⟨order, _, rfl⟩ := List.mem_map.mp member
      simp [MatchingEngine.orderRow, here]
  rw [flatMap_bookRows, List.filter_flatMap]
  simp only [block]
  rw [flatMap_eq_single books.keys_nodup
    (fun other different => if_neg different), if_pos rfl]
  intro nonempty
  rw [if_pos rfl] at nonempty
  rw [OrderedMap.mem_keys]
  by_contra missing
  have absent : books.find? instrument = none := by simpa using missing
  exact nonempty (by simp [marketOf, absent])

namespace MatchingEngine

variable {slots : Nat} {engine : MatchingEngine} {pool : PoolBytes}

/-- The order rows of a snapshot. -/
def rows (engine : MatchingEngine) : List Message :=
  engine.books.entries.flatMap (bookRows engine.epoch engine.sequence)

/-- Every row shows an order of the market. -/
theorem mem_rows
    {m : Message} (member : m ∈ engine.rows) :
    ∃ instrument side order,
      order ∈ marketOf engine.books instrument side ∧
        m = orderRow engine.epoch engine.sequence instrument order :=
  mem_bookRows member

/-- The rows of a snapshot describe the engine's market. -/
theorem Sound.rowsMarket_rows (sound : engine.Sound slots) :
    rowsMarket engine.rows = marketOf engine.books := by
  funext instrument side
  rw [rowsMarket, rows, sound.booksWf.filter_bookRows, List.map_map]
  exact List.map_id _

theorem Sound.snapshotRows (sound : engine.Sound slots) :
    SnapshotRows slots engine.rows where
  kind m member := by
    obtain ⟨_, _, _, _, rfl⟩ := mem_rows member
    rfl
  named m member := by
    obtain ⟨instrument, side, order, live, rfl⟩ := mem_rows member
    obtain ⟨stored, found, here, _⟩ := (sound.linked.shown _ _ _).mp live
    obtain ⟨r, rules, _⟩ := (sound.backed _ stored found).allowed
    have accepted := sound.rules _ r rules
    simp only [InstrumentRules.Accepted, not_or] at accepted
    refine ⟨?_, Nat.ne_of_gt (sound.linked.numbered _ stored found).2.1⟩
    rw [here] at accepted
    exact accepted.1
  live m member := by
    obtain ⟨instrument, side, order, live, rfl⟩ := mem_rows member
    obtain ⟨sameSide, listed, pricePos, quantityPos⟩ :=
      sound.booksWf.mem_market live
    refine ⟨quantityPos, pricePos, ?_⟩
    rw [show (orderRow engine.epoch engine.sequence instrument order).side =
      order.side from rfl, sameSide]
    exact listed
  ids := by
    have ids : engine.rows.map Message.exchangeId =
        engine.books.entries.flatMap fun entry =>
          entry.2.orders.map OrderView.orderId := by
      rw [rows, List.map_flatMap]
      refine List.flatMap_congr fun entry _ => ?_
      rw [bookRows, ← List.map_flatMap, OrderBook.snapshot_orders, List.map_map]
      rfl
    rw [ids]
    exact sound.bookIds_perm.nodup_iff.mpr engine.resting.keys_nodup
  queued instrument side := by
    rw [sound.rowsMarket_rows]
    exact sound.linked.queued instrument side
  fits instrument := by
    rw [sound.rowsMarket_rows]
    exact sound.booksWf.count_le instrument

theorem snapshot_eq (engine : MatchingEngine) :
    engine.snapshot =
      engine.envelope :: engine.rows ++
        [{ engine.envelope with kind := .snapshotEnd }] :=
  rfl

theorem Sound.length_rows (sound : engine.Sound slots) :
    engine.rows.length = engine.resting.size := by
  rw [rows, LimitOrderBook.length_rows sound.booksWf, sound.orderCount_sum]

end MatchingEngine

namespace MarketReplica

variable {slots : Nat} {pool : PoolBytes} {engine : MatchingEngine}
  {replica restored : MarketReplica}

/-- The envelope rows carry the watermark and no order. -/
theorem foldlM_envelope
    (pool : PoolBytes) {front : Message} (back : Message) {rows : List Message}
    (watermark : ∀ m ∈ rows,
      m.epoch = front.epoch ∧ m.sequence = front.sequence)
    (backWatermark : back.epoch = front.epoch ∧
      back.sequence = front.sequence)
    (state : Books × List OrderId) :
    (front :: rows ++ [back]).zipIdx.foldlM
        (restoreRow pool front (front :: rows ++ [back]).length) state =
      rows.foldlM (restoreOrder pool) state := by
  have length : (front :: rows ++ [back]).length = rows.length + 2 := by simp
  have indexed : (front :: rows ++ [back]).zipIdx =
      (front, 0) :: (rows.zipIdx 1 ++ [(back, rows.length + 1)]) := by
    simp [List.zipIdx_cons, List.zipIdx_append, Nat.add_comm]
  have first : restoreRow pool front (rows.length + 2) state (front, 0) =
      .ok state := by
    simp [restoreRow]
  have last : ∀ after, restoreRow pool front (rows.length + 2) after
      (back, rows.length + 1) = .ok after := by
    intro after
    simp [restoreRow, backWatermark.1, backWatermark.2]
  rw [length, indexed, List.foldlM_cons, first]
  simp only [Bind.bind, Except.bind]
  rw [List.foldlM_append, foldlM_restoreRow watermark Nat.one_ne_zero (by omega)]
  cases rows.foldlM (restoreOrder pool) state with
  | error text => rfl
  | ok after => simp [last, Bind.bind, Except.bind, pure, Except.pure]

/-- The rows around the orders and the watermark of all rows. -/
structure Enveloped (front : Message) (body : List Message) (back : Message) :
    Prop where
  isBegin : front.kind = .snapshotBegin
  isEnd : back.kind = .snapshotEnd
  epoch : front.epoch ≠ 0
  count : body.length = front.quantity
  sameCount : back.quantity = front.quantity
  watermark : ∀ m ∈ body ++ [back],
    m.epoch = front.epoch ∧ m.sequence = front.sequence

theorem Enveloped.foldlM_rows
    {front back : Message} {body : List Message}
    (enveloped : Enveloped front body back) (pool : PoolBytes)
    (state : Books × List OrderId) :
    (front :: body ++ [back]).zipIdx.foldlM
        (restoreRow pool front (front :: body ++ [back]).length) state =
      body.foldlM (restoreOrder pool) state :=
  foldlM_envelope pool back
    (fun m member => enveloped.watermark m (List.mem_append_left _ member))
    (enveloped.watermark back (by simp)) state

/-- Books of narrow orders that are not crossed may become visible. -/
theorem Shows.visible
    {books : Books} {market : Market} (shows : Shows slots books market)
    (size : pool.book.slots = slots)
    (narrow : ∀ instrument side, ∀ order ∈ market instrument side,
      order.quantity < 2 ^ 32)
    (uncrossed : ∀ entry ∈ books.entries, ¬ MatchingEngine.Crossed entry.2) :
    ¬ ∃ entry ∈ books.entries, Refused entry.2 := by
  rintro ⟨entry, member, invalid | crossed⟩
  · have found := OrderedMap.mem_entries.mp member
    obtain ⟨wf, bookSlots⟩ := shows.wf _ _ found
    have accepted : entry.2.checkInvariants = .ok () := by
      refine wf.checkInvariants_ok ?_ ?_
      · rw [bookSlots, ← size]
        exact pool.slots_lt
      · intro order live
        obtain ⟨side, sideLive⟩ := OrderBook.mem_orders.mp live
        rw [← marketOf_of_find? found, shows.shows] at sideLive
        exact narrow _ side order sideLive
    rw [OrderBook.validateInvariants, accepted] at invalid
    cases invalid
  · exact uncrossed entry member crossed

/-- Rows in an envelope whose loop builds visible books are accepted. -/
theorem Enveloped.rebuild_ok
    {front back : Message} {body : List Message}
    (enveloped : Enveloped front body back) {state : Books × List OrderId}
    (restored : body.foldlM (restoreOrder pool) (.empty, []) = .ok state)
    (visible : ¬ ∃ entry ∈ state.1.entries, Refused entry.2) :
    rebuild pool (front :: body ++ [back]) = .ok (front, state.1) := by
  have last : (front :: (body ++ [back])).getLast? = some back := by
    rw [← List.cons_append, List.getLast?_append]
    rfl
  have orders := enveloped.foldlM_rows pool (.empty, [])
  rw [restored] at orders
  rw [rebuild, List.cons_append] at *
  rw [last]
  simp only [List.head?_cons]
  rw [if_neg, orders]
  · simp [Bind.bind, Except.bind, visible]
  · have length : (front :: (body ++ [back])).length = body.length + 2 := by
      simp
    rw [length]
    rintro (short | notBegin | notEnd | noEpoch | wrongCount | different)
    · omega
    · exact notBegin enveloped.isBegin
    · exact notEnd enveloped.isEnd
    · exact enveloped.epoch noEpoch
    · exact wrongCount enveloped.count
    · exact different enveloped.sameCount

theorem snapshot_getLast? (engine : MatchingEngine) :
    (engine.envelope :: engine.rows ++
      [{ engine.envelope with kind := .snapshotEnd }]).getLast? =
      some { engine.envelope with kind := .snapshotEnd } := by
  rw [List.getLast?_append]
  rfl

/-- Rebuilding the books of an engine from its snapshot. -/
theorem rebuild_snapshot
    (invariant : engine.Invariant slots) (epoch : engine.epoch ≠ 0)
    (size : pool.book.slots = slots) (countFits : engine.resting.size < 2 ^ 32) :
    ∃ books,
      rebuild pool engine.snapshot = .ok (engine.envelope, books) ∧
        Shows slots books (marketOf engine.books) := by
  have sound := invariant.sound
  obtain ⟨state, restored, rebuilt⟩ := restoreOrders_ok size sound.snapshotRows
  have shows := rebuilt.books
  rw [sound.rowsMarket_rows] at shows
  have enveloped : Enveloped engine.envelope engine.rows
      { engine.envelope with kind := .snapshotEnd } := by
    refine ⟨rfl, rfl, epoch, ?_, rfl, ?_⟩
    · rw [sound.length_rows]
      exact (Nat.mod_eq_of_lt countFits).symm
    · intro m member
      rcases List.mem_append.mp member with isRow | isBack
      · obtain ⟨_, _, _, _, rfl⟩ := MatchingEngine.mem_rows isRow
        exact ⟨rfl, rfl⟩
      · rw [List.mem_singleton.mp isBack]
        exact ⟨rfl, rfl⟩
  have visible : ¬ ∃ entry ∈ state.1.entries, Refused entry.2 := by
    refine shows.visible size ?_ ?_
    · intro instrument side order live
      obtain ⟨stored, storedFound, _, _, rfl⟩ :=
        (sound.linked.shown _ _ _).mp live
      exact sound.quantity_lt storedFound
    · intro entry member
      refine shows.wf.not_crossed ?_ (OrderedMap.mem_entries.mp member)
      rw [shows.shows]
      exact invariant.uncrossed
  exact ⟨state.1, enveloped.rebuild_ok restored visible, shows⟩

/-- A count that does not fit its field is refused. -/
theorem rebuild_count
    (sound : engine.Sound slots) {result : Message × Books}
    (rebuilt : rebuild pool engine.snapshot = .ok result) :
    engine.resting.size < 2 ^ 32 := by
  by_contra tooMany
  have truncated : engine.envelope.quantity < 2 ^ 32 :=
    Nat.mod_lt _ (by decide)
  have count := sound.length_rows
  have lengths : (engine.envelope :: engine.rows ++
      [{ engine.envelope with kind := .snapshotEnd }]).length - 2 ≠
      engine.envelope.quantity := by
    simp only [List.length_append, List.length_cons, List.length_nil]
    lia
  rw [MatchingEngine.snapshot_eq, rebuild, snapshot_getLast? engine] at rebuilt
  simp only [List.cons_append, List.head?_cons] at rebuilt lengths
  rw [if_pos (Or.inr (Or.inr (Or.inr (Or.inr (Or.inl lengths)))))] at rebuilt
  cases rebuilt

/-- A replica restored from a snapshot follows the engine from there. -/
theorem restore_follows
    (invariant : engine.Invariant replica.pool.book.slots)
    (epoch : engine.epoch ≠ 0)
    (success : replica.restore engine.snapshot = (restored, .ok ())) :
    restored.pool = replica.pool ∧
      restored.Follows engine.epoch engine.sequence
        (marketOf engine.books) := by
  unfold restore at success
  cases rebuilt : rebuild replica.pool engine.snapshot with
  | error text =>
      rw [rebuilt] at success
      cases success
  | ok result =>
      have countFits := rebuild_count invariant.sound rebuilt
      obtain ⟨books, rebuilt', shows⟩ :=
        rebuild_snapshot invariant epoch rfl countFits
      rw [rebuilt'] at success
      cases success
      exact ⟨rfl, rfl, rfl, rfl, shows⟩

/-- A snapshot whose count fits its field can be restored. -/
theorem restore_ok
    (invariant : engine.Invariant replica.pool.book.slots)
    (epoch : engine.epoch ≠ 0) (countFits : engine.resting.size < 2 ^ 32) :
    ∃ restored, replica.restore engine.snapshot = (restored, .ok ()) := by
  obtain ⟨books, rebuilt, _⟩ := rebuild_snapshot invariant epoch rfl countFits
  simp [restore, rebuilt]

end MarketReplica

end LimitOrderBook
