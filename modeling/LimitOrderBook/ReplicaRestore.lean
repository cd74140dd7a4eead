import LimitOrderBook.ReplicaMirror
import LimitOrderBook.EngineFlood
import Mathlib.Data.Prod.Lex

namespace LimitOrderBook

/-!
# Restoring from any rows

What `restore` does with rows that nobody vouches for: it accepts them exactly
when every check of every row passes, and then the books hold the listed
orders, each in the queue of its level behind the earlier rows.  The snapshot
of such books is the stable sort of the rows by instrument, side and price, so
restoring it once more changes nothing.
-/

/-- An order row that passes its own checks. -/
structure OrderRow (m : Message) : Prop where
  kind : m.kind = .snapshotOrder
  instrument : m.instrumentId ≠ 0
  id : m.exchangeId ≠ 0
  quantityPos : m.quantity ≠ 0
  pricePos : m.price ≠ 0
  listed : m.side.Listed

/-- The market that rows make when their orders arrive one by one. -/
def marketFrom (rows : List Message) : Market :=
  rows.foldl (fun market m => market.insert m.instrumentId (rowOrder m)) .empty

/-- The rows of one queue. -/
def queueRows (rows : List Message) (instrument : InstrumentId)
    (side : Side) : List Message :=
  rows.filter fun m => decide (m.instrumentId = instrument ∧ m.side = side)

theorem marketFrom_concat (rows : List Message) (m : Message) :
    marketFrom (rows ++ [m]) =
      (marketFrom rows).insert m.instrumentId (rowOrder m) := by
  simp [marketFrom]

theorem queueRows_concat
    (rows : List Message) (m : Message) (instrument : InstrumentId)
    (side : Side) :
    queueRows (rows ++ [m]) instrument side =
      if m.instrumentId = instrument ∧ m.side = side then
        queueRows rows instrument side ++ [m]
      else
        queueRows rows instrument side := by
  rw [queueRows, List.filter_append]
  split_ifs with here
  · simp [queueRows, here]
  · simp [queueRows, here]

/-- A queue holds exactly the orders of its rows. -/
theorem marketFrom_perm
    (rows : List Message) (instrument : InstrumentId) (side : Side) :
    (marketFrom rows instrument side).Perm
      ((queueRows rows instrument side).map rowOrder) := by
  induction rows using List.reverseRecOn with
  | nil => exact .refl _
  | append_singleton rows m inductionHypothesis =>
      rw [marketFrom_concat, queueRows_concat, Market.insert]
      by_cases here : m.instrumentId = instrument ∧ m.side = side
      · obtain ⟨rfl, rfl⟩ := here
        rw [if_pos (by exact ⟨rfl, rfl⟩), if_pos ⟨rfl, rfl⟩, List.map_append]
        refine (List.perm_orderedInsert _ _ _).trans ?_
        refine (inductionHypothesis.cons _).trans ?_
        exact (List.perm_append_singleton _ _).symm
      · have elsewhere : ¬ (instrument = m.instrumentId ∧
            side = (rowOrder m).side) :=
          fun same => here ⟨same.1.symm, same.2.symm⟩
        rw [if_neg elsewhere, if_neg here]
        exact inductionHypothesis

/-- Every queue is in price order, whatever the order of the rows. -/
theorem marketFrom_inOrder
    (rows : List Message) (instrument : InstrumentId) (side : Side) :
    PriorityQueue.InOrder (OrderBook.priceLt side) OrderView.price
      (marketFrom rows instrument side) := by
  induction rows using List.reverseRecOn with
  | nil => exact .nil
  | append_singleton rows m inductionHypothesis =>
      rw [marketFrom_concat, Market.insert]
      split_ifs
      · exact PriorityQueue.inOrder_orderedInsert inductionHypothesis _
      · exact inductionHypothesis

/-- Within a level the orders stand as their rows do. -/
theorem marketFrom_level
    (rows : List Message) (instrument : InstrumentId) (side : Side)
    (price : Price) :
    (marketFrom rows instrument side).filter
        (fun order => decide (order.price = price)) =
      ((queueRows rows instrument side).filter
        fun m => decide (m.price = price)).map rowOrder := by
  induction rows using List.reverseRecOn with
  | nil => rfl
  | append_singleton rows m inductionHypothesis =>
      rw [marketFrom_concat, queueRows_concat, Market.insert]
      by_cases here : m.instrumentId = instrument ∧ m.side = side
      · obtain ⟨rfl, rfl⟩ := here
        rw [if_pos (by exact ⟨rfl, rfl⟩), if_pos ⟨rfl, rfl⟩,
          PriorityQueue.filter_value_orderedInsert (marketFrom_inOrder _ _ _),
          inductionHypothesis, List.filter_append, List.map_append]
        by_cases level : m.price = price
        · rw [if_pos (by exact level)]
          simp [level]
        · rw [if_neg (by exact level)]
          simp [level]
      · have elsewhere : ¬ (instrument = m.instrumentId ∧
            side = (rowOrder m).side) :=
          fun same => here ⟨same.1.symm, same.2.symm⟩
        rw [if_neg elsewhere, if_neg here]
        exact inductionHypothesis

/-- The orders of one instrument are as many as its rows. -/
theorem marketFrom_count
    {rows : List Message} (listed : ∀ m ∈ rows, m.side.Listed)
    (instrument : InstrumentId) :
    (marketFrom rows).count instrument =
      (rows.filter fun m => decide (m.instrumentId = instrument)).length := by
  have bids := (marketFrom_perm rows instrument .bid).length_eq
  have asks := (marketFrom_perm rows instrument .ask).length_eq
  rw [List.length_map] at bids asks
  rw [Market.count, bids, asks]
  clear bids asks
  induction rows with
  | nil => rfl
  | cons m rest inductionHypothesis =>
      have restCount := inductionHypothesis fun row member =>
        listed row (List.mem_cons_of_mem m member)
      simp only [queueRows, List.filter_cons, Bool.decide_and] at restCount ⊢
      by_cases here : m.instrumentId = instrument
      · rcases listed m (by simp) with isBid | isAsk
        · simp [here, isBid]
          lia
        · simp [here, isAsk]
          lia
      · simpa [here] using restCount

namespace MarketReplica

variable {slots : Nat} {pool : PoolBytes} {books next : Books}
  {rows : List Message} {m : Message}

/-! ## Which rows are accepted -/

/-- An addition that is accepted was admissible. -/
theorem addOrder_shows
    (wf : BooksWf slots books) (size : pool.book.slots = slots)
    (added : addOrder pool books m = (next, .ok)) :
    m.quantity ≠ 0 ∧ m.price ≠ 0 ∧ m.side.Listed ∧
      Shows slots next ((marketOf books).insert m.instrumentId (rowOrder m)) := by
  have bookFacts : ∃ book, (books.find? m.instrumentId).getD pool.book = book ∧
      book.Wf ∧ book.slots = slots ∧
      ∀ side, marketOf books m.instrumentId side = book.sideOrders side := by
    cases found : books.find? m.instrumentId with
    | some book =>
        exact ⟨book, rfl, (wf _ _ found).1, (wf _ _ found).2,
          marketOf_of_find? found⟩
    | none =>
        refine ⟨pool.book, rfl, OrderBook.ofPool_wf (by decide), size, ?_⟩
        intro side
        simp [PoolBytes.book, marketOf, found]
  obtain ⟨book, isBook, bookWf, bookSlots, shown⟩ := bookFacts
  have answer : (book.applyAdd {}
      ⟨m.exchangeId, m.side, m.price, m.quantity⟩).2 = .ok := by
    have result := congrArg Prod.snd added
    simpa [addOrder, isBook] using result
  have addable := OrderBook.addable_of_ok answer
  have absent : ∀ quantity,
      ¬ (marketOf books).Live m.instrumentId m.exchangeId quantity := by
    rintro quantity ⟨side, order, member, sameId, _⟩
    rw [shown] at member
    exact bookWf.find?_eq_none.mp addable.unused order
      (OrderBook.mem_orders.mpr ⟨side, member⟩) sameId
  have room : (marketOf books).count m.instrumentId < slots := by
    have count : (marketOf books).count m.instrumentId = book.orderCount := by
      rw [bookWf.orderCount_orders, Market.count, shown, shown,
        OrderBook.orders, List.length_append]
    refine Nat.lt_of_le_of_ne (wf.count_le m.instrumentId) ?_
    rw [count, ← bookSlots]
    intro full
    rw [OrderBook.applyAdd_full bookWf addable full] at answer
    cases answer
  obtain ⟨same, sameAdded, shows⟩ := addOrder_ok wf size addable.quantityPos
    addable.pricePos addable.listed absent room
  rw [added] at sameAdded
  cases sameAdded
  exact ⟨addable.quantityPos, addable.pricePos, addable.listed, shows⟩

/-- What the loop has built from rows that nobody vouched for. -/
structure Gathered (slots : Nat) (rows : List Message)
    (state : Books × List OrderId) : Prop where
  books : Shows slots state.1 (marketFrom rows)
  ids : ∀ id, id ∈ state.2 ↔ id ∈ rows.map Message.exchangeId
  apart : (rows.map Message.exchangeId).Nodup
  each : ∀ m ∈ rows, OrderRow m

theorem restoreOrder_gathers
    {state after : Books × List OrderId} (size : pool.book.slots = slots)
    (gathered : Gathered slots rows state)
    (restored : restoreOrder pool state m = .ok after) :
    Gathered slots (rows ++ [m]) after := by
  obtain ⟨books, ids⟩ := state
  simp only [restoreOrder] at restored
  split_ifs at restored with badRow badResult
  simp only [ne_eq, not_or, not_not] at badRow
  obtain ⟨kind, instrument, id, unseen⟩ := badRow
  simp only [ne_eq, not_not] at badResult
  have added : addOrder pool books m = ((addOrder pool books m).1, .ok) :=
    Prod.ext rfl badResult
  obtain ⟨quantityPos, pricePos, listed, shows⟩ :=
    addOrder_shows gathered.books.wf size added
  cases restored
  refine ⟨⟨shows.wf, ?_⟩, ?_, ?_, ?_⟩
  · rw [shows.shows, gathered.books.shows, marketFrom_concat]
  · intro other
    have idsIff := gathered.ids other
    simp only [List.mem_cons, List.map_append, List.mem_append, List.map_cons,
      List.map_nil, List.not_mem_nil, or_false] at idsIff ⊢
    rw [idsIff, or_comm]
  · rw [List.map_append]
    refine List.nodup_append.mpr ⟨gathered.apart, by simp, ?_⟩
    rintro other member fresh isFresh rfl
    rw [List.map_singleton, List.mem_singleton] at isFresh
    subst isFresh
    exact unseen ((gathered.ids _).mpr member)
  · intro row member
    rcases List.mem_append.mp member with earlier | isLast
    · exact gathered.each row earlier
    · rw [List.mem_singleton.mp isLast]
      exact ⟨kind, instrument, id, quantityPos, pricePos, listed⟩

theorem gathered_nil : Gathered slots [] (.empty, []) where
  books :=
    { wf := fun instrument book found => by cases found
      shows := rfl }
  ids _ := Iff.rfl
  apart := .nil
  each _ member := absurd member List.not_mem_nil

/-- A loop that comes to its end has gathered all rows. -/
theorem restoreOrders_gathers
    {state : Books × List OrderId} (size : pool.book.slots = slots)
    (restored : rows.foldlM (restoreOrder pool) (.empty, []) = .ok state) :
    Gathered slots rows state := by
  have ends : Fallible.Ends (fun _ => True) (Gathered slots rows)
      (rows.foldlM (restoreOrder pool) (.empty, [])) := by
    refine Fallible.Ends.foldlM (Gathered slots) gathered_nil ?_
    intro passed row before _ gathered
    cases stepped : restoreOrder pool before row with
    | error text => trivial
    | ok after => exact restoreOrder_gathers size gathered stepped
  exact ends.of_ok restored

/-- Rows that pass the checks one by one and fit their pools are gathered. -/
theorem restoreOrders_accepts
    (size : pool.book.slots = slots) (each : ∀ m ∈ rows, OrderRow m)
    (apart : (rows.map Message.exchangeId).Nodup)
    (fits : ∀ instrument,
      (rows.filter fun m => decide (m.instrumentId = instrument)).length ≤
        slots) :
    ∃ state, rows.foldlM (restoreOrder pool) (.empty, []) = .ok state ∧
      Gathered slots rows state := by
  have walked : ∃ state,
      rows.foldlM (restoreOrder pool) (.empty, []) = .ok state := by
    induction rows using List.reverseRecOn with
    | nil => exact ⟨(.empty, []), rfl⟩
    | append_singleton rows m inductionHypothesis =>
        have apartNow := apart
        rw [List.map_append] at apart
        obtain ⟨before, restored⟩ := inductionHypothesis
          (fun row member => each row (List.mem_append_left _ member))
          apart.of_append_left
          (fun instrument => Nat.le_trans (by simp) (fits instrument))
        have gathered := restoreOrders_gathers size restored
        have row := each m (by simp)
        have unseen : m.exchangeId ∉ rows.map Message.exchangeId := by
          intro member
          exact (List.disjoint_of_nodup_append apart) member (by simp)
        have absent : ∀ quantity,
            ¬ (marketOf before.1).Live m.instrumentId m.exchangeId
              quantity := by
          rintro quantity ⟨side, order, member, sameId, _⟩
          rw [gathered.books.shows] at member
          obtain ⟨other, otherMember, rfl⟩ :=
            List.mem_map.mp ((marketFrom_perm rows _ _).mem_iff.mp member)
          exact unseen (List.mem_map.mpr
            ⟨other, List.mem_of_mem_filter otherMember, sameId⟩)
        have room : (marketOf before.1).count m.instrumentId < slots := by
          have all := fits m.instrumentId
          have counted := marketFrom_count
            (fun row member => (gathered.each row member).listed)
            m.instrumentId
          rw [List.filter_append, List.length_append] at all
          simp only [decide_true, List.filter_cons_of_pos, List.filter_nil,
            List.length_cons, List.length_nil] at all
          rw [gathered.books.shows]
          lia
        obtain ⟨next, added, _⟩ := addOrder_ok gathered.books.wf size
          row.quantityPos row.pricePos row.listed absent room
        have notSeen : m.exchangeId ∉ before.2 := fun member =>
          unseen ((gathered.ids _).mp member)
        refine ⟨(next, m.exchangeId :: before.2), ?_⟩
        rw [List.foldlM_append, restored]
        simp [restoreOrder, row.kind, row.instrument, row.id, notSeen, added,
          Bind.bind, Except.bind, pure, Except.pure]
  obtain ⟨state, restored⟩ := walked
  exact ⟨state, restored, restoreOrders_gathers size restored⟩

/-! ## Which snapshots are accepted -/

/-- The best prices of every instrument leave a gap. -/
def TopsApart (market : Market) : Prop :=
  ∀ instrument bid ask, (market instrument .bid).head? = some bid →
    (market instrument .ask).head? = some ask → bid.price < ask.price

theorem crossed_iff {book : OrderBook} (wf : book.Wf) :
    MatchingEngine.Crossed book ↔
      ∃ bid ask, (book.sideOrders .bid).head? = some bid ∧
        (book.sideOrders .ask).head? = some ask ∧ ask.price ≤ bid.price := by
  rw [MatchingEngine.Crossed, wf.bestBid_eq, wf.bestAsk_eq]
  constructor
  · rintro ⟨_, isBid, _, isAsk, crossed⟩
    obtain ⟨bid, bidHead, rfl⟩ := Option.map_eq_some_iff.mp isBid
    obtain ⟨ask, askHead, rfl⟩ := Option.map_eq_some_iff.mp isAsk
    exact ⟨bid, ask, bidHead, askHead, crossed⟩
  · rintro ⟨bid, ask, bidHead, askHead, crossed⟩
    exact ⟨bid.price, by simp [bidHead], ask.price, by simp [askHead],
      crossed⟩

/-- Books whose best prices leave a gap are the ones that are not crossed. -/
theorem topsApart_iff (wf : BooksWf slots books) :
    TopsApart (marketOf books) ↔
      ∀ entry ∈ books.entries, ¬ MatchingEngine.Crossed entry.2 := by
  constructor
  · intro apart entry member crossed
    have found := OrderedMap.mem_entries.mp member
    obtain ⟨bid, ask, bidHead, askHead, touches⟩ :=
      (crossed_iff (wf _ _ found).1).mp crossed
    rw [← marketOf_of_find? found] at bidHead askHead
    exact absurd touches (Nat.not_le.mpr (apart _ bid ask bidHead askHead))
  · intro uncrossed instrument bid ask bidHead askHead
    obtain ⟨book, found, _⟩ := book_of_mem (List.mem_of_head? bidHead)
    rw [marketOf_of_find? found] at bidHead askHead
    by_contra touches
    exact uncrossed (instrument, book) (OrderedMap.mem_entries.mpr found)
      ((crossed_iff (wf _ _ found).1).mpr
        ⟨bid, ask, bidHead, askHead, Nat.not_lt.mp touches⟩)

/-- What an accepted snapshot looks like and what it builds. -/
theorem rebuild_gathers
    {front : Message} (size : pool.book.slots = slots)
    (rebuilt : rebuild pool rows = .ok (front, books)) :
    ∃ body back, rows = front :: body ++ [back] ∧
      Enveloped front body back ∧
      (∃ ids, Gathered slots body (books, ids)) ∧
      ∀ entry ∈ books.entries, ¬ Refused entry.2 := by
  cases rows with
  | nil => cases rebuilt
  | cons first rest =>
      rcases List.eq_nil_or_concat rest with rfl | ⟨body, back, rfl⟩
      · simp [rebuild] at rebuilt
      rw [List.concat_eq_append] at rebuilt ⊢
      have last : (first :: (body ++ [back])).getLast? = some back := by
        rw [← List.cons_append, List.getLast?_append]
        rfl
      unfold rebuild at rebuilt
      rw [last] at rebuilt
      simp only [List.head?_cons] at rebuilt
      split_ifs at rebuilt with badEnvelope
      obtain ⟨⟨built, ids⟩, looped, visible⟩ := Fallible.bind_ok rebuilt
      simp only at visible
      split_ifs at visible with refused
      cases visible
      simp only [ne_eq, not_or, not_not] at badEnvelope
      obtain ⟨_, isBegin, isEnd, epoch, count, sameCount⟩ := badEnvelope
      have watermark : ∀ m ∈ body ++ [back],
          m.epoch = front.epoch ∧ m.sequence = front.sequence := by
        intro m member
        obtain ⟨index, indexed⟩ := List.mem_iff_getElem?.mp
          (List.mem_cons_of_mem front member)
        obtain ⟨before, after, stepped⟩ :=
          Fallible.foldlM_ok looped (m, index)
            (List.mem_zipIdx_iff_getElem?.mpr indexed)
        unfold restoreRow at stepped
        simp only at stepped
        split_ifs at stepped with drifted <;>
          exact not_or.mp drifted |>.imp not_not.mp not_not.mp
      have enveloped : Enveloped front body back :=
        ⟨isBegin, isEnd, epoch, by simpa using count, sameCount, watermark⟩
      have orders := enveloped.foldlM_rows pool (.empty, [])
      rw [List.cons_append] at orders
      rw [orders] at looped
      refine ⟨body, back, rfl, enveloped,
        ⟨ids, restoreOrders_gathers size looped⟩, ?_⟩
      intro entry member isRefused
      exact refused ⟨entry, member, isRefused⟩

/-- A snapshot that passes every check is accepted. -/
theorem rebuild_accepts
    {front back : Message} {body : List Message}
    (size : pool.book.slots = slots) (enveloped : Enveloped front body back)
    (each : ∀ m ∈ body, OrderRow m)
    (apart : (body.map Message.exchangeId).Nodup)
    (fits : ∀ instrument,
      (body.filter fun m => decide (m.instrumentId = instrument)).length ≤
        slots)
    (narrow : ∀ m ∈ body, m.quantity < 2 ^ 32)
    (tops : TopsApart (marketFrom body)) :
    ∃ books, rebuild pool (front :: body ++ [back]) = .ok (front, books) ∧
      Shows slots books (marketFrom body) := by
  obtain ⟨state, restored, gathered⟩ :=
    restoreOrders_accepts size each apart fits
  have shows := gathered.books
  have uncrossed : ∀ entry ∈ state.1.entries,
      ¬ MatchingEngine.Crossed entry.2 := by
    rw [← topsApart_iff shows.wf, shows.shows]
    exact tops
  have visible : ¬ ∃ entry ∈ state.1.entries, Refused entry.2 := by
    refine shows.visible size ?_ uncrossed
    intro instrument side order live
    obtain ⟨row, rowMember, rfl⟩ := List.mem_map.mp
      ((marketFrom_perm body _ _).mem_iff.mp live)
    exact narrow row (List.mem_of_mem_filter rowMember)
  exact ⟨state.1, enveloped.rebuild_ok restored visible, shows⟩

/-! ## The snapshot of what was restored -/

/-- Bids stand before asks. -/
def sideRank : Side → Nat
  | .bid => 0
  | .ask => 1
  | .unlisted _ _ => 2

/-- Prices of one side, the better ones smaller. -/
def priceRank (side : Side) (price : Price) : Int :=
  if side = .bid then -(price : Int) else price

/-- Where a row stands: by instrument, then side, then price. -/
def rowKey (m : Message) : Nat ×ₗ Nat ×ₗ Int :=
  toLex (m.instrumentId, toLex (sideRank m.side, priceRank m.side m.price))

/-- The rows grouped, with the rows of one level in their given order. -/
def grouped (rows : List Message) : List Message :=
  rows.mergeSort (PriorityQueue.notBehind (· < ·) rowKey)

theorem rowKey_lt {first second : Message} :
    rowKey first < rowKey second ↔
      first.instrumentId < second.instrumentId ∨
        first.instrumentId = second.instrumentId ∧
          (sideRank first.side < sideRank second.side ∨
            sideRank first.side = sideRank second.side ∧
              priceRank first.side first.price <
                priceRank second.side second.price) := by
  simp only [rowKey, Prod.Lex.toLex_lt_toLex]

theorem sideRank_inj
    {first second : Side} (listed : first.Listed)
    (same : sideRank second = sideRank first) : second = first := by
  rcases listed with rfl | rfl
  · cases second with
    | bid => rfl
    | ask => cases same
    | unlisted raw outside => cases same
  · cases second with
    | bid => cases same
    | ask => rfl
    | unlisted raw outside => cases same

theorem rowKey_eq_iff
    {first second : Message} (listed : first.side.Listed) :
    rowKey second = rowKey first ↔
      (second.instrumentId = first.instrumentId ∧
        second.side = first.side) ∧ second.price = first.price := by
  simp only [rowKey, EmbeddingLike.apply_eq_iff_eq, Prod.mk.injEq]
  constructor
  · rintro ⟨instrument, side, price⟩
    have sameSide := sideRank_inj listed side
    refine ⟨⟨instrument, sameSide⟩, ?_⟩
    rw [sameSide] at price
    unfold priceRank at price
    split_ifs at price
    · lia
    · lia
  · rintro ⟨⟨instrument, side⟩, price⟩
    rw [instrument, side, price]
    exact ⟨rfl, rfl, rfl⟩

/-- A snapshot lists its rows in the order of their keys. -/
theorem bookRows_inOrder
    (wf : BooksWf slots books) (epoch : Nat) (sequence : Sequence)
    (ordered : ∀ instrument side,
      PriorityQueue.InOrder (OrderBook.priceLt side) OrderView.price
        (marketOf books instrument side)) :
    PriorityQueue.InOrder (· < ·) rowKey
      (books.entries.flatMap (MatchingEngine.bookRows epoch sequence)) := by
  rw [flatMap_bookRows]
  refine List.pairwise_flatMap.mpr ⟨?_, (List.pairwise_map.mpr
    books.sorted).imp ?_⟩
  · intro instrument _
    have queue : ∀ side,
        (marketOf books instrument side).Pairwise fun first second =>
          ¬ PriorityQueue.Outranks (· < ·) rowKey
            (MatchingEngine.orderRow epoch sequence instrument second)
            (MatchingEngine.orderRow epoch sequence instrument first) := by
      intro side
      refine ((ordered instrument side).imp_of_mem ?_)
      intro first second isFirst isSecond notBetter ahead
      rw [PriorityQueue.Outranks, rowKey_lt] at ahead
      have firstSide := (wf.mem_market isFirst).1
      have secondSide := (wf.mem_market isSecond).1
      simp only [MatchingEngine.orderRow, firstSide, secondSide, priceRank,
        Nat.lt_irrefl, false_or, true_and] at ahead
      refine notBetter ?_
      simp only [PriorityQueue.Outranks, OrderBook.priceLt]
      split_ifs at ahead ⊢
      · lia
      · lia
    refine List.pairwise_map.mpr (List.pairwise_append.mpr
      ⟨queue .bid, queue .ask, ?_⟩)
    intro bid isBid ask isAsk ahead
    rw [PriorityQueue.Outranks, rowKey_lt] at ahead
    have bidSide := (wf.mem_market isBid).1
    have askSide := (wf.mem_market isAsk).1
    simp [MatchingEngine.orderRow, bidSide, askSide, sideRank] at ahead
  · intro first second before left isLeft right isRight ahead
    obtain ⟨_, _, rfl⟩ := List.mem_map.mp isLeft
    obtain ⟨_, _, rfl⟩ := List.mem_map.mp isRight
    rw [PriorityQueue.Outranks, rowKey_lt] at ahead
    simp only [MatchingEngine.orderRow] at ahead
    lia

/-- What a snapshot keeps of a row. -/
def cleanRow (epoch : Nat) (sequence : Sequence) (m : Message) : Message :=
  MatchingEngine.orderRow epoch sequence m.instrumentId (rowOrder m)

@[simp] theorem rowKey_cleanRow
    (epoch : Nat) (sequence : Sequence) (m : Message) :
    rowKey (cleanRow epoch sequence m) = rowKey m :=
  rfl

/-- The rows of one key are the rows of one level. -/
theorem filter_rowKey
    {m : Message} (listed : m.side.Listed) (rows : List Message) :
    rows.filter (fun row => decide (rowKey row = rowKey m)) =
      (queueRows rows m.instrumentId m.side).filter
        fun row => decide (row.price = m.price) := by
  rw [queueRows, List.filter_filter]
  refine List.filter_congr fun row _ => ?_
  rw [Bool.eq_iff_iff]
  simp only [decide_eq_true_eq, Bool.and_eq_true, rowKey_eq_iff listed]
  tauto

/-- The rows of one level, in a snapshot and in what it was made from. -/
theorem Gathered.level
    {ids : List OrderId} (gathered : Gathered slots rows (books, ids))
    (epoch : Nat) (sequence : Sequence) {m : Message}
    (listed : m.side.Listed) :
    (books.entries.flatMap (MatchingEngine.bookRows epoch sequence)).filter
        (fun row => decide (rowKey row = rowKey m)) =
      (rows.filter fun row => decide (rowKey row = rowKey m)).map
        (cleanRow epoch sequence) := by
  rw [filter_rowKey listed, filter_rowKey listed]
  have queue := gathered.books.wf.filter_bookRows epoch sequence
    m.instrumentId m.side
  rw [queueRows, queue, gathered.books.shows, List.filter_map]
  have level := marketFrom_level rows m.instrumentId m.side m.price
  have same : ((fun row : Message => decide (row.price = m.price)) ∘
      MatchingEngine.orderRow epoch sequence m.instrumentId) =
      fun order => decide (order.price = m.price) := rfl
  rw [same, level, List.map_map]
  refine List.map_congr_left fun row member => ?_
  have inQueue := List.mem_of_mem_filter member
  simp only [queueRows, List.mem_filter, decide_eq_true_eq] at inQueue
  simp [cleanRow, inQueue.2.1]

/-- The books list their orders as the grouped rows do. -/
theorem Gathered.rows_eq
    {ids : List OrderId} (gathered : Gathered slots rows (books, ids))
    (epoch : Nat) (sequence : Sequence) :
    books.entries.flatMap (MatchingEngine.bookRows epoch sequence) =
      (grouped rows).map (cleanRow epoch sequence) := by
  have listedBooks : ∀ m ∈ books.entries.flatMap
      (MatchingEngine.bookRows epoch sequence), m.side.Listed := by
    intro m member
    obtain ⟨instrument, side, order, live, rfl⟩ := mem_bookRows member
    obtain ⟨sameSide, listed, _⟩ := gathered.books.wf.mem_market live
    simp only [MatchingEngine.orderRow, sameSide]
    exact listed
  have sorted : PriorityQueue.InOrder (· < ·) rowKey
      ((grouped rows).map (cleanRow epoch sequence)) :=
    List.pairwise_map.mpr (PriorityQueue.mergeSort_inOrder rows)
  refine PriorityQueue.eq_of_inOrder (bookRows_inOrder gathered.books.wf epoch
    sequence ?_) sorted ?_
  · intro instrument side
    rw [gathered.books.shows]
    exact marketFrom_inOrder rows instrument side
  · intro m member
    have listed : m.side.Listed := by
      rcases List.mem_append.mp member with inBooks | inRows
      · exact listedBooks m inBooks
      · obtain ⟨row, rowMember, rfl⟩ := List.mem_map.mp inRows
        exact (gathered.each row (List.mem_mergeSort.mp rowMember)).listed
    rw [gathered.level epoch sequence listed, List.filter_map]
    have same : ((fun row => decide (rowKey row = rowKey m)) ∘
        cleanRow epoch sequence) =
        fun row => decide (rowKey row = rowKey m) := rfl
    rw [same, grouped, PriorityQueue.filter_key_mergeSort]

/-- Grouped rows make the market that the rows make. -/
theorem marketFrom_grouped
    {rows : List Message} (listed : ∀ m ∈ rows, m.side.Listed) (epoch : Nat)
    (sequence : Sequence) :
    marketFrom ((grouped rows).map (cleanRow epoch sequence)) =
      marketFrom rows := by
  have listedToo : ∀ m ∈ (grouped rows).map (cleanRow epoch sequence),
      m.side.Listed := by
    intro m member
    obtain ⟨row, rowMember, rfl⟩ := List.mem_map.mp member
    exact listed row (List.mem_mergeSort.mp rowMember)
  funext instrument side
  refine PriorityQueue.eq_of_inOrder (marketFrom_inOrder _ _ _)
    (marketFrom_inOrder _ _ _) ?_
  intro order member
  have source : ∃ row : Message, row.instrumentId = instrument ∧
      row.side = side ∧ row.side.Listed ∧ row.price = order.price := by
    rcases List.mem_append.mp member with inGroups | inRows
    · obtain ⟨row, rowMember, rfl⟩ := List.mem_map.mp
        ((marketFrom_perm _ _ _).mem_iff.mp inGroups)
      have inQueue := List.mem_filter.mp rowMember
      simp only [decide_eq_true_eq] at inQueue
      exact ⟨row, inQueue.2.1, inQueue.2.2, listedToo row inQueue.1, rfl⟩
    · obtain ⟨row, rowMember, rfl⟩ := List.mem_map.mp
        ((marketFrom_perm _ _ _).mem_iff.mp inRows)
      have inQueue := List.mem_filter.mp rowMember
      simp only [decide_eq_true_eq] at inQueue
      exact ⟨row, inQueue.2.1, inQueue.2.2, listed row inQueue.1, rfl⟩
  obtain ⟨row, rfl, rfl, rowListed, price⟩ := source
  rw [← price, marketFrom_level, marketFrom_level, ← filter_rowKey rowListed,
    ← filter_rowKey rowListed, List.filter_map]
  have same : ((fun other => decide (rowKey other = rowKey row)) ∘
      cleanRow epoch sequence) =
      fun other => decide (rowKey other = rowKey row) := rfl
  rw [same, grouped, PriorityQueue.filter_key_mergeSort, List.map_map]
  rfl

/-- A snapshot of these orders under the watermark of this row. -/
def snapshotOf (front : Message) (orders : List Message) : List Message :=
  let envelope : Message :=
    { kind := .snapshotBegin
      epoch := front.epoch
      sequence := front.sequence
      quantity := front.quantity }
  [envelope] ++
    (grouped orders).map (cleanRow front.epoch front.sequence) ++
    [{ envelope with kind := .snapshotEnd }]

variable {replica : MarketReplica} {front back : Message}
  {body : List Message} {ids : List OrderId}

/-- The replica after rows have been accepted. -/
def swapped (replica : MarketReplica) (front : Message) (books : Books) :
    MarketReplica :=
  { replica with
    books := books
    epoch := front.epoch
    sequence := front.sequence
    synchronized := true }

theorem swapped_snapshot
    (enveloped : Enveloped front body back)
    (gathered : Gathered slots body (books, ids))
    (narrow : front.quantity < 2 ^ 32) :
    (replica.swapped front books).snapshot = .ok (snapshotOf front body) := by
  have rows := gathered.rows_eq front.epoch front.sequence
  have count : (replica.swapped front books).orderCount = front.quantity := by
    have length := length_rows gathered.books.wf front.epoch front.sequence
    rw [rows, List.length_map, grouped, List.length_mergeSort,
      enveloped.count] at length
    exact length.symm
  have written : (replica.swapped front books).envelope =
      { kind := .snapshotBegin
        epoch := front.epoch
        sequence := front.sequence
        quantity := front.quantity } := by
    rw [envelope, count, Nat.mod_eq_of_lt narrow]
    rfl
  rw [MarketReplica.snapshot, written]
  simp only [swapped, rows, snapshotOf, Bool.true_eq_false, if_false]

/-- The snapshot of what was restored is accepted and shown unchanged. -/
theorem swapped_again
    {other : MarketReplica}
    (size : other.pool.book.slots = slots)
    (enveloped : Enveloped front body back)
    (gathered : Gathered slots body (books, ids))
    (visible : ∀ entry ∈ books.entries, ¬ Refused entry.2)
    (narrow : ∀ m ∈ front :: body, m.quantity < 2 ^ 32) :
    ∃ again, other.restore (snapshotOf front body) = (again, .ok ()) ∧
      again.snapshot = .ok (snapshotOf front body) := by
  have listed : ∀ m ∈ body, m.side.Listed := fun m member =>
    (gathered.each m member).listed
  have perm : (grouped body).Perm body := List.mergeSort_perm _ _
  have sameMarket := marketFrom_grouped listed front.epoch front.sequence
  have wrapped : Enveloped
      { kind := .snapshotBegin
        epoch := front.epoch
        sequence := front.sequence
        quantity := front.quantity : Message }
      ((grouped body).map (cleanRow front.epoch front.sequence))
      { kind := .snapshotEnd
        epoch := front.epoch
        sequence := front.sequence
        quantity := front.quantity } := by
    refine ⟨rfl, rfl, enveloped.epoch, ?_, rfl, ?_⟩
    · rw [List.length_map, perm.length_eq, enveloped.count]
    · intro m member
      rcases List.mem_append.mp member with inBody | isBack
      · obtain ⟨row, _, rfl⟩ := List.mem_map.mp inBody
        exact ⟨rfl, rfl⟩
      · rw [List.mem_singleton.mp isBack]
        exact ⟨rfl, rfl⟩
  have each : ∀ m ∈ (grouped body).map (cleanRow front.epoch front.sequence),
      OrderRow m := by
    intro m member
    obtain ⟨row, rowMember, rfl⟩ := List.mem_map.mp member
    obtain ⟨_, instrument, id, quantityPos, pricePos, rowListed⟩ :=
      gathered.each row (perm.mem_iff.mp rowMember)
    exact ⟨rfl, instrument, id, quantityPos, pricePos, rowListed⟩
  have apart : (((grouped body).map
      (cleanRow front.epoch front.sequence)).map
        Message.exchangeId).Nodup := by
    rw [List.map_map]
    exact (perm.map _).nodup_iff.mpr gathered.apart
  have fits : ∀ instrument,
      (((grouped body).map (cleanRow front.epoch front.sequence)).filter
        fun m => decide (m.instrumentId = instrument)).length ≤ slots := by
    intro instrument
    rw [List.filter_map, List.length_map]
    refine Nat.le_trans (Nat.le_of_eq (perm.filter _).length_eq) ?_
    have count := gathered.books.wf.count_le instrument
    rw [gathered.books.shows, marketFrom_count listed] at count
    exact count
  have small : ∀ m ∈ (grouped body).map
      (cleanRow front.epoch front.sequence), m.quantity < 2 ^ 32 := by
    intro m member
    obtain ⟨row, rowMember, rfl⟩ := List.mem_map.mp member
    exact narrow row (List.mem_cons_of_mem _ (perm.mem_iff.mp rowMember))
  have tops : TopsApart (marketFrom
      ((grouped body).map (cleanRow front.epoch front.sequence))) := by
    rw [sameMarket, ← gathered.books.shows, topsApart_iff gathered.books.wf]
    exact fun entry member crossed => visible entry member (Or.inr crossed)
  obtain ⟨next, rebuilt, shows⟩ :=
    rebuild_accepts size wrapped each apart fits small tops
  rw [sameMarket] at shows
  refine ⟨other.swapped front next, ?_, ?_⟩
  · simp only [restore, snapshotOf, List.singleton_append, rebuilt, swapped]
  · have first : (other.swapped front books).snapshot =
        .ok (snapshotOf front body) :=
      swapped_snapshot enveloped gathered (narrow front (by simp))
    have nextFollows : (other.swapped front next).Follows front.epoch
        front.sequence (marketFrom body) :=
      ⟨rfl, rfl, rfl, size ▸ shows⟩
    have follows : (other.swapped front books).Follows front.epoch
        front.sequence (marketFrom body) :=
      ⟨rfl, rfl, rfl, size ▸ gathered.books⟩
    rw [nextFollows.snapshot_eq follows, first]

/-- The order rows of a snapshot. -/
def listedRows (rows : List Message) : List Message :=
  rows.tail.dropLast

/-- What a successful `restore` leaves behind. -/
structure RestoredFrom (rows : List Message) (restored : MarketReplica) :
    Prop where
  synchronized : restored.synchronized = true
  uncrossed : ∀ entry ∈ restored.books.entries,
    ¬ MatchingEngine.Crossed entry.2
  valid : ∀ entry ∈ restored.books.entries,
    entry.2.validateInvariants = true
  held : ∀ m ∈ listedRows rows,
    (restored.books.entries.flatMap fun entry =>
      entry.2.orders.map OrderView.orderId).count m.exchangeId = 1
  snapshot : ∃ front, rows.head? = some front ∧
    restored.snapshot = .ok (snapshotOf front (listedRows rows))
  again : ∀ written, restored.snapshot = .ok written →
    ∃ next, restored.restore written = (next, .ok ()) ∧
      next.snapshot = .ok written

/-- The books hold every listed id once. -/
theorem Gathered.held
    (gathered : Gathered slots body (books, ids)) {m : Message}
    (member : m ∈ body) :
    (books.entries.flatMap fun entry =>
      entry.2.orders.map OrderView.orderId).count m.exchangeId = 1 := by
  have bookIds : (books.entries.flatMap fun entry =>
      entry.2.orders.map OrderView.orderId) =
      (books.entries.flatMap
        (MatchingEngine.bookRows 0 0)).map Message.exchangeId := by
    rw [List.map_flatMap]
    refine List.flatMap_congr fun entry _ => ?_
    rw [MatchingEngine.bookRows, ← List.map_flatMap,
      OrderBook.snapshot_orders, List.map_map]
    rfl
  have perm : (books.entries.flatMap fun entry =>
      entry.2.orders.map OrderView.orderId).Perm
        (body.map Message.exchangeId) := by
    rw [bookIds, gathered.rows_eq 0 0, List.map_map]
    exact (List.mergeSort_perm body _).map _
  rw [perm.count_eq]
  exact List.count_eq_one_of_mem gathered.apart
    (List.mem_map.mpr ⟨m, member, rfl⟩)

/-- `restore` throws and only loses the synchronization, or it succeeds. -/
theorem restore_all_or_nothing
    (replica : MarketReplica) {rows : List Message}
    (narrow : ∀ m ∈ rows, m.quantity < 2 ^ 32) :
    (∃ text, replica.restore rows = (replica.invalidate, .error text)) ∨
      ∃ restored, replica.restore rows = (restored, .ok ()) ∧
        RestoredFrom rows restored := by
  cases rebuilt : rebuild replica.pool rows with
  | error text => exact Or.inl ⟨text, by simp [restore, rebuilt]⟩
  | ok result =>
      obtain ⟨front, books⟩ := result
      obtain ⟨body, back, rfl, enveloped, ⟨ids, gathered⟩, visible⟩ :=
        rebuild_gathers rfl rebuilt
      have rowsNarrow : ∀ m ∈ front :: body, m.quantity < 2 ^ 32 :=
        fun m member => narrow m (List.mem_append_left _ member)
      have shown : (replica.swapped front books).snapshot =
          .ok (snapshotOf front body) :=
        swapped_snapshot enveloped gathered (rowsNarrow front (by simp))
      have listed : listedRows (front :: body ++ [back]) = body := by
        simp [listedRows]
      refine Or.inr ⟨replica.swapped front books,
        by rw [restore, rebuilt]; rfl, rfl, ?_, ?_, ?_, ?_, ?_⟩
      · exact fun entry member crossed =>
          visible entry member (Or.inr crossed)
      · intro entry member
        have accepted := not_or.mp (visible entry member)
        simpa using accepted.1
      · rw [listed]
        exact fun m member => gathered.held member
      · rw [listed]
        exact ⟨front, rfl, shown⟩
      · intro written isWritten
        rw [shown] at isWritten
        cases isWritten
        exact swapped_again rfl enveloped gathered visible rowsNarrow

/-! ## Rows of an engine -/

/-- A restored snapshot of an engine says how many orders it lists. -/
theorem count_of_restore
    {engine : MatchingEngine} {restored : MarketReplica}
    (reachable : MatchingEngine.Reachable replica.pool engine)
    (success : replica.restore engine.snapshot = (restored, .ok ())) :
    engine.resting.size < 2 ^ 32 := by
  unfold restore at success
  cases rebuilt : rebuild replica.pool engine.snapshot with
  | error text =>
      rw [rebuilt] at success
      cases success
  | ok result => exact rebuild_count reachable.invariant.sound rebuilt

/--
`restore` is all or nothing on any rows, and what it accepts it shows as the
grouped rows.  It accepts the snapshot of an engine exactly when the engine's
orders can be counted in the 32 bits of the envelope, and shows it unchanged.
-/
theorem restore_round_trips (replica : MarketReplica) :
    (∀ rows : List Message, (∀ m ∈ rows, m.quantity < 2 ^ 32) →
      (∃ text, replica.restore rows = (replica.invalidate, .error text)) ∨
        ∃ restored, replica.restore rows = (restored, .ok ()) ∧
          RestoredFrom rows restored) ∧
      ∀ engine, MatchingEngine.Reachable replica.pool engine →
        ((∃ restored, replica.restore engine.snapshot = (restored, .ok ())) ↔
          engine.resting.size < 2 ^ 32) ∧
        ∀ restored, replica.restore engine.snapshot = (restored, .ok ()) →
          restored.snapshot = .ok engine.snapshot := by
  refine ⟨fun rows narrow => restore_all_or_nothing replica narrow, ?_⟩
  intro engine reachable
  have invariant := reachable.invariant
  have epoch := reachable.epoch_ne_zero
  refine ⟨⟨?_, restore_ok invariant epoch⟩, ?_⟩
  · rintro ⟨restored, success⟩
    exact count_of_restore reachable success
  · intro restored success
    obtain ⟨_, follows⟩ := restore_follows invariant epoch success
    exact follows.snapshot invariant.sound

/-- Two orders whose instruments descend. -/
def descendingRows : List Message :=
  [{ kind := .snapshotBegin, epoch := 1, sequence := 5, quantity := 2 },
    { kind := .snapshotOrder, epoch := 1, sequence := 5, instrumentId := 2
      exchangeId := 9, price := 10, quantity := 1 },
    { kind := .snapshotOrder, epoch := 1, sequence := 5, instrumentId := 1
      exchangeId := 4, side := .ask, price := 20, quantity := 3 },
    { kind := .snapshotEnd, epoch := 1, sequence := 5, quantity := 2 }]

/-- Rows in the wrong order are accepted, and so is a new engine. -/
theorem restore_round_trips_regroups :
    (∃ restored,
      restore { pool := .capacity } descendingRows = (restored, .ok ()) ∧
        RestoredFrom descendingRows restored) ∧
      ∃ restored,
        restore { pool := .capacity } MatchingEngine.single.snapshot =
            (restored, .ok ()) ∧
          restored.snapshot = .ok MatchingEngine.single.snapshot := by
  obtain ⟨anyRows, engines⟩ := restore_round_trips { pool := .capacity }
  constructor
  · rcases anyRows descendingRows (by decide) with
      ⟨text, thrown⟩ | accepted
    · have synchronized : (restore { pool := .capacity }
          descendingRows).1.synchronized = true := by
        decide +kernel
      rw [thrown] at synchronized
      cases synchronized
    · exact accepted
  · obtain ⟨accepts, shows⟩ :=
      engines MatchingEngine.single MatchingEngine.single_reachable
    obtain ⟨restored, success⟩ := accepts.mpr (by decide +kernel)
    exact ⟨restored, success, shows restored success⟩

/-- A reachable engine whose own snapshot is refused. -/
theorem overfull_snapshot_refused :
    ∃ engine, MatchingEngine.Reachable .capacity engine ∧
      ¬ ∃ restored, restore { pool := .capacity } engine.snapshot =
        (restored, .ok ()) := by
  obtain ⟨engine, reachable, size⟩ := MatchingEngine.reachable_overfull
  refine ⟨engine, reachable, ?_⟩
  rintro ⟨restored, success⟩
  have counted : engine.resting.size < 2 ^ 32 :=
    @count_of_restore { pool := .capacity } engine restored reachable success
  rw [size] at counted
  exact Nat.lt_irrefl _ counted

end MarketReplica

end LimitOrderBook
