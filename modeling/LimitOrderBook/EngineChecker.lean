import LimitOrderBook.EngineInvariant
import LimitOrderBook.OrderBookChecker

namespace LimitOrderBook

/-!
# The engine's runtime checker

`validate_invariants` accepts every engine that satisfies the invariant, so it
accepts after every call of every run.
-/

/-- A pool of 32-bit size has 32-bit many slots. -/
theorem PoolBytes.slots_lt (pool : PoolBytes) : pool.book.slots < 2 ^ 32 := by
  have bounded : pool.book.slots ≤ pool.bytes := by
    simp only [PoolBytes.book, OrderBook.ofPool, OrderBook.slots,
      Option.map_some, Option.getD_some, FixedSlotPool.slotTotal]
    split
    · exact Nat.zero_le _
    · rename_i space aligns
      exact Nat.le_trans (Nat.div_le_self _ _)
        (align_some (by decide) aligns).2.2.1
  exact Nat.lt_of_le_of_lt bounded pool.fits

/-- A book of a market that is not crossed is not crossed. -/
theorem BooksWf.not_crossed
    {slots : Nat} {books : Books} (wf : BooksWf slots books)
    (uncrossed : (marketOf books).Uncrossed) {instrument : InstrumentId}
    {book : OrderBook} (found : books.find? instrument = some book) :
    ¬ MatchingEngine.Crossed book := by
  have bookWf := (wf _ _ found).1
  rintro ⟨bid, isBestBid, ask, isBestAsk, crossed⟩
  rw [bookWf.bestBid_eq, Option.mem_def, Option.map_eq_some_iff] at isBestBid
  rw [bookWf.bestAsk_eq, Option.mem_def, Option.map_eq_some_iff] at isBestAsk
  obtain ⟨bidOrder, bidHead, rfl⟩ := isBestBid
  obtain ⟨askOrder, askHead, rfl⟩ := isBestAsk
  have bidMember := List.mem_of_head? bidHead
  have askMember := List.mem_of_head? askHead
  rw [← marketOf_of_find? found] at bidMember askMember
  exact Nat.not_lt_of_le crossed
    (uncrossed instrument bidOrder bidMember askOrder askMember)

namespace MatchingEngine

variable {slots : Nat} {engine : MatchingEngine}

namespace Sound

/-- Every order of a book is stored under its id. -/
theorem stored_of_entry
    (sound : engine.Sound slots) {entry : InstrumentId × OrderBook}
    (member : entry ∈ engine.books.entries) {order : OrderView}
    (live : order ∈ entry.2.orders) :
    ∃ m, engine.resting.find? order.orderId = some m ∧
      m.instrumentId = entry.1 ∧ orderView m = order := by
  obtain ⟨side, sideLive⟩ := OrderBook.mem_orders.mp live
  have found : engine.books.find? entry.1 = some entry.2 :=
    OrderedMap.mem_entries.mp member
  rw [← marketOf_of_find? found] at sideLive
  obtain ⟨m, stored, instrument, _, view⟩ :=
    (sound.linked.shown _ _ _).mp sideLive
  exact ⟨m, stored, instrument, view⟩

/-- The ids in all books are the ids of `resting_`. -/
theorem bookIds_perm (sound : engine.Sound slots) :
    (engine.books.entries.flatMap fun entry =>
      entry.2.orders.map OrderView.orderId).Perm engine.resting.keys := by
  refine (List.perm_ext_iff_of_nodup ?_ engine.resting.keys_nodup).mpr ?_
  · refine List.nodup_flatMap.mpr ⟨?_, ?_⟩
    · intro entry member
      exact (sound.booksWf _ _ (OrderedMap.mem_entries.mp member)).1.orders_nodup
    · refine engine.books.sorted.imp_of_mem ?_
      intro first second firstMember secondMember before id inFirst inSecond
      obtain ⟨firstOrder, firstLive, rfl⟩ := List.mem_map.mp inFirst
      obtain ⟨secondOrder, secondLive, sameId⟩ := List.mem_map.mp inSecond
      obtain ⟨m, stored, instrument, _⟩ :=
        sound.stored_of_entry firstMember firstLive
      obtain ⟨m', stored', instrument', _⟩ :=
        sound.stored_of_entry secondMember secondLive
      rw [sameId, stored] at stored'
      cases stored'
      rw [← instrument, ← instrument'] at before
      exact Nat.lt_irrefl _ before
  · intro id
    rw [OrderedMap.mem_keys, Option.isSome_iff_exists, List.mem_flatMap]
    constructor
    · rintro ⟨entry, member, inEntry⟩
      obtain ⟨order, live, rfl⟩ := List.mem_map.mp inEntry
      obtain ⟨m, stored, _⟩ := sound.stored_of_entry member live
      exact ⟨m, stored⟩
    · rintro ⟨m, stored⟩
      obtain ⟨book, found, live⟩ :=
        book_of_mem (sound.linked.mem_market stored)
      refine ⟨(m.instrumentId, book), OrderedMap.mem_entries.mpr found,
        List.mem_map.mpr ⟨orderView m, OrderBook.mem_orders.mpr ⟨_, live⟩, ?_⟩⟩
      exact sound.exchangeId_eq stored

/-- `by_client_` points at every stored order exactly once. -/
theorem byClient_perm (sound : engine.Sound slots) :
    (engine.byClient.entries.map Prod.snd).Perm engine.resting.keys := by
  have keyed : ∀ entry ∈ engine.byClient.entries,
      ∃ m, engine.resting.find? entry.2 = some m ∧
        (m.clientId, m.orderId) = entry.1 := by
    intro entry member
    obtain ⟨m, stored, client, order⟩ :=
      (sound.linked.keyed entry.1.1 entry.1.2 entry.2).mp
        (OrderedMap.mem_entries.mp member)
    exact ⟨m, stored, Prod.ext client order⟩
  refine (List.perm_ext_iff_of_nodup ?_ engine.resting.keys_nodup).mpr ?_
  · refine List.pairwise_map.mpr (engine.byClient.sorted.imp_of_mem ?_)
    intro first second firstMember secondMember before sameId
    obtain ⟨m, stored, key⟩ := keyed first firstMember
    obtain ⟨m', stored', key'⟩ := keyed second secondMember
    rw [← sameId, stored] at stored'
    cases stored'
    rw [← key, ← key'] at before
    exact irrefl_of pairLt _ before
  · intro id
    rw [OrderedMap.mem_keys, Option.isSome_iff_exists, List.mem_map]
    constructor
    · rintro ⟨entry, member, rfl⟩
      obtain ⟨m, stored, _⟩ := keyed entry member
      exact ⟨m, stored⟩
    · rintro ⟨m, stored⟩
      exact ⟨((m.clientId, m.orderId), id),
        OrderedMap.mem_entries.mpr (sound.linked.find?_key stored), rfl⟩

theorem byClient_size (sound : engine.Sound slots) :
    engine.byClient.size = engine.resting.size := by
  simpa [OrderedMap.size, OrderedMap.keys] using sound.byClient_perm.length_eq

/-- All books together hold as many orders as `resting_`. -/
theorem orderCount_sum (sound : engine.Sound slots) :
    (engine.books.entries.map fun entry => entry.2.orderCount).sum =
      engine.resting.size := by
  have lengths := sound.bookIds_perm.length_eq
  rw [List.length_flatMap] at lengths
  simp only [OrderedMap.keys, List.length_map] at lengths
  rw [OrderedMap.size, ← lengths]
  refine congrArg List.sum (List.map_congr_left fun entry member => ?_)
  exact (sound.booksWf _ _
    (OrderedMap.mem_entries.mp member)).1.orderCount_orders

/-- Stored quantities are in the range of the source's type. -/
theorem quantity_lt
    (sound : engine.Sound slots) {id : OrderId} {m : Message}
    (found : engine.resting.find? id = some m) : m.quantity < 2 ^ 32 := by
  obtain ⟨r, _, allows⟩ := (sound.backed id m found).allowed
  exact Nat.lt_of_le_of_lt allows.size r.maxOrderQuantity.toNat_lt

theorem checkOrder_ok
    (sound : engine.Sound slots) {entry : InstrumentId × OrderBook}
    (member : entry ∈ engine.books.entries) {order : OrderView}
    (live : order ∈ entry.2.orders) :
    engine.checkOrder entry.1 order = .ok () := by
  obtain ⟨m, stored, instrument, rfl⟩ := sound.stored_of_entry member live
  have indexed := sound.linked.find?_key stored
  rw [ledger_byClient] at indexed
  unfold checkOrder
  rw [stored]
  simp [instrument, indexed, orderView]

end Sound

namespace Invariant

theorem not_crossed
    (invariant : engine.Invariant slots) {instrument : InstrumentId}
    {book : OrderBook} (found : engine.books.find? instrument = some book) :
    ¬ Crossed book :=
  invariant.sound.booksWf.not_crossed invariant.uncrossed found

theorem checkBook_ok
    (invariant : engine.Invariant slots) (slotsFit : slots < 2 ^ 32)
    {entry : InstrumentId × OrderBook}
    (member : entry ∈ engine.books.entries) (count : Nat) :
    engine.checkBook count entry = .ok (count + entry.2.orderCount) := by
  have found := OrderedMap.mem_entries.mp member
  obtain ⟨wf, bookSlots⟩ := invariant.sound.booksWf _ _ found
  have accepted : entry.2.checkInvariants = .ok () := by
    refine wf.checkInvariants_ok (by rw [bookSlots]; exact slotsFit) ?_
    intro order live
    obtain ⟨m, stored, _, rfl⟩ := invariant.sound.stored_of_entry member live
    exact invariant.sound.quantity_lt stored
  have owners : (entry.2.snapshot.forM fun level =>
      level.orders.forM (engine.checkOrder entry.1)) = .ok () := by
    refine Fallible.forM_ok fun level levelMember => Fallible.forM_ok fun order orderMember => ?_
    refine invariant.sound.checkOrder_ok member ?_
    rw [← OrderBook.snapshot_orders]
    exact List.mem_flatMap.mpr ⟨level, levelMember, orderMember⟩
  simp only [checkBook, accepted, invariant.not_crossed found, owners,
    Bind.bind, Except.bind, pure, Except.pure, if_false]

theorem validates
    (invariant : engine.Invariant slots) (slotsFit : slots < 2 ^ 32) :
    engine.validateInvariants = true := by
  have counted := Fallible.foldlM_count engine.checkBook
    (fun entry => entry.2.orderCount)
    (fun entry member => invariant.checkBook_ok slotsFit member) 0
  rw [invariant.sound.orderCount_sum, Nat.zero_add] at counted
  have sizes := invariant.sound.byClient_size
  simp only [validateInvariants, checkInvariants, counted, Bind.bind,
    Except.bind, sizes, invariant.conserved.quantity, invariant.conserved.cash]
  simp [Except.isOk, Except.toBool]

end Invariant

/--
From any configuration the constructor accepts, any messages are processed
without a failed `require` or `at`, and after every call the runtime checker
accepts, because the stores agree, no book is crossed and the positions cancel
out.
-/
theorem run_validates
    (pool : PoolBytes) (instruments : Instruments) (epoch : Nat)
    (created : create pool instruments epoch = .ok engine)
    (messages : List Message) :
    ∃ turns,
      StepSystem.run process Turn.engine engine messages = .ok turns ∧
        turns.length = messages.length ∧
        ∀ turn ∈ turns,
          turn.engine.validateInvariants = true ∧
            turn.engine.Invariant pool.book.slots := by
  have start : engine.Invariant pool.book.slots :=
    Created.invariant ⟨instruments, epoch, created⟩
  obtain ⟨turns, ran, sameLength, hold⟩ := StepSystem.run_ok
    (fun state c invariant => by
      obtain ⟨turn, processed, _, after⟩ := process_invariant invariant c
      exact ⟨turn, processed, after⟩) start messages
  exact ⟨turns, ran, sameLength, fun turn member =>
    ⟨(hold turn member).validates pool.slots_lt, hold turn member⟩⟩

/-- One instrument, an order and a trade with it. -/
theorem run_validates_one_trade :
    ∃ engine turns,
      create .capacity (OrderedMap.empty.insert 1 {}) 1 = .ok engine ∧
        StepSystem.run process Turn.engine engine oneTrade = .ok turns ∧
        turns.map (fun turn => turn.engine.stats.trades) = [0, 1] ∧
        ∀ turn ∈ turns,
          turn.engine.validateInvariants = true ∧
            turn.engine.Invariant PoolBytes.capacity.book.slots := by
  obtain ⟨turns, ran, _, hold⟩ := @run_validates single .capacity
    (OrderedMap.empty.insert 1 {}) 1 rfl oneTrade
  have traded : (StepSystem.run process Turn.engine single oneTrade).toOption.map
      (List.map fun turn => turn.engine.stats.trades) = some [0, 1] := by
    decide +kernel
  rw [ran] at traded
  exact ⟨single, turns, rfl, ran, Option.some.inj traded, hold⟩

end MatchingEngine

end LimitOrderBook
