import LimitOrderBook.Replica
import LimitOrderBook.EngineFeed

namespace LimitOrderBook

/-!
# Replicas follow feeds

A replica whose books show a market follows every delta the market admits.
-/

namespace MarketReplica

variable {slots : Nat} {pool : PoolBytes} {books : Books} {m : Message}

/-- Well-formed books that show a market. -/
structure Shows (slots : Nat) (books : Books) (market : Market) : Prop where
  wf : BooksWf slots books
  shows : marketOf books = market

/-- An empty book changes nothing that is shown. -/
theorem Shows.openBook
    (shown : Shows slots books (marketOf books))
    (size : pool.book.slots = slots) {instrument : InstrumentId}
    (missing : books.find? instrument = none) :
    Shows slots (books.insert instrument pool.book) (marketOf books) where
  wf := shown.wf.insert (OrderBook.ofPool_wf (by decide)) size
  shows := by
    rw [marketOf_insert]
    funext other side
    by_cases here : other = instrument
    · subst here
      simp [PoolBytes.book, marketOf, missing]
    · simp [here]

/-- An admitted `Add` succeeds, also on an instrument without a book. -/
theorem addOrder_ok
    (wf : BooksWf slots books) (size : pool.book.slots = slots)
    (quantityPos : m.quantity ≠ 0) (pricePos : m.price ≠ 0)
    (listed : m.side.Listed)
    (absent : ∀ quantity,
      ¬ (marketOf books).Live m.instrumentId m.exchangeId quantity)
    (room : (marketOf books).count m.instrumentId < slots) :
    ∃ next,
      addOrder pool books m = (next, .ok) ∧
        Shows slots next ((marketOf books).insert m.instrumentId
          ⟨m.exchangeId, m.side, m.price, m.quantity⟩) := by
  cases found : books.find? m.instrumentId with
  | some book =>
      obtain ⟨next, applied, reshelved⟩ := wf.applyAdd found
        ⟨m.exchangeId, m.side, m.price, m.quantity⟩ quantityPos pricePos listed
        absent room
      refine ⟨books.insert m.instrumentId next, ?_, reshelved.wf,
        reshelved.shows⟩
      simp [addOrder, found, applied]
  | none =>
      have opened : Shows slots (books.insert m.instrumentId pool.book)
          (marketOf books) := Shows.openBook ⟨wf, rfl⟩ size found
      have bookFound : (books.insert m.instrumentId pool.book).find?
          m.instrumentId = some pool.book := by simp
      rw [← opened.shows] at absent room ⊢
      obtain ⟨next, applied, reshelved⟩ := opened.wf.applyAdd bookFound
        ⟨m.exchangeId, m.side, m.price, m.quantity⟩ quantityPos pricePos listed
        absent room
      rw [OrderedMap.insert_insert] at reshelved
      refine ⟨books.insert m.instrumentId next, ?_, reshelved.wf,
        reshelved.shows⟩
      simp [addOrder, found, applied]

/-- The operation of an admitted delta succeeds and does what the delta means. -/
theorem applyUpdate_ok
    (wf : BooksWf slots books) (size : pool.book.slots = slots)
    (admitted : (marketOf books).Admits slots m) :
    ∃ next,
      applyUpdate pool books m = (next, .ok) ∧
        Shows slots next ((marketOf books).applyDelta m) := by
  unfold Market.Admits at admitted
  unfold Market.applyDelta
  split at admitted
  · rename_i isAdd
    obtain ⟨quantityPos, pricePos, listed, absent, room⟩ := admitted
    obtain ⟨next, added, shows⟩ :=
      addOrder_ok wf size quantityPos pricePos listed absent room
    exact ⟨next, by simpa [applyUpdate, isAdd] using added,
      shows⟩
  · rename_i isCancel
    obtain ⟨quantity, live⟩ := admitted
    obtain ⟨book, next, found, applied, reshelved⟩ := wf.applyCancel live
    refine ⟨_, ?_, reshelved.wf, reshelved.shows⟩
    simp [applyUpdate, isCancel, found, applyToBook, applied]
  · rename_i isExecute
    obtain ⟨quantity, live, positive, enough⟩ := admitted
    obtain ⟨book, next, found, applied, reshelved⟩ :=
      wf.applyExecute live positive enough
    refine ⟨_, ?_, reshelved.wf, reshelved.shows⟩
    simp [applyUpdate, isExecute, found, applyToBook, applied]
  · rename_i isReduce
    obtain ⟨quantity, live, positive, less⟩ := admitted
    have cut : quantity - m.quantity ≠ 0 := by lia
    obtain ⟨book, next, found, applied, reshelved⟩ :=
      wf.applyExecute live cut (Nat.sub_le _ _)
    have remaining : book.remainingQuantity m.exchangeId = some quantity :=
      wf.remainingQuantity_of_live found live
    refine ⟨_, ?_, reshelved.wf, ?_⟩
    · simp [applyUpdate, isReduce, found, applyToBook, remaining, positive,
        Nat.not_le.mpr less, applied]
    · rw [reshelved.shows]
      refine Market.execute_eq_resize positive ?_
      intro side order member sameId
      have same := wf.remainingQuantity_of_live found
        ⟨side, order, member, sameId, rfl⟩
      rw [remaining] at same
      cases same
      lia
  · rename_i isTrade
    exact ⟨books, by simp [applyUpdate, isTrade], wf, rfl⟩
  · exact admitted.elim

variable {replica : MarketReplica} {market final : Market}

/-- A synchronized replica whose books show a market. -/
structure Follows (replica : MarketReplica) (epoch : Nat) (sequence : Sequence)
    (market : Market) : Prop where
  synchronized : replica.synchronized = true
  epoch : replica.epoch = epoch
  sequence : replica.sequence = sequence
  books : Shows replica.pool.book.slots replica.books market

/-- The next delta of the feed. -/
theorem Follows.consume
    {epoch : Nat} {sequence : Sequence}
    (follows : replica.Follows epoch sequence market)
    (isDelta : m.kind = .delta) (sameEpoch : m.epoch = epoch)
    (next : m.sequence = sequence + 1)
    (admitted : market.Admits replica.pool.book.slots m) :
    ∃ after,
      replica.consume m = (after, true) ∧ after.pool = replica.pool ∧
        after.Follows epoch (sequence + 1) (market.applyDelta m) := by
  rw [← follows.books.shows] at admitted ⊢
  obtain ⟨books, applied, shows⟩ :=
    applyUpdate_ok follows.books.wf rfl admitted
  have epochs : m.epoch = replica.epoch := sameEpoch.trans follows.epoch.symm
  have later : ¬ m.sequence ≤ replica.sequence := by
    rw [follows.sequence]
    lia
  have successor : m.sequence - replica.sequence = 1 := by
    rw [follows.sequence]
    lia
  refine ⟨{ replica with books := books, sequence := m.sequence }, ?_, rfl,
    follows.synchronized, follows.epoch, next, shows⟩
  simp [MarketReplica.consume, follows.synchronized, epochs, isDelta, later,
    successor, applied]

/-- A whole feed is consumed, and every delta is accepted. -/
theorem Follows.consumeAll
    {epoch : Nat} {sequence : Sequence} {deltas : List Message}
    (follows : replica.Follows epoch sequence market)
    (numbered : Numbered epoch sequence deltas)
    (feed : Market.Feed replica.pool.book.slots market deltas final) :
    ∃ after,
      replica.consumeAll deltas = (after, true) ∧ after.pool = replica.pool ∧
        after.Follows epoch (sequence + deltas.length) final := by
  induction deltas generalizing replica sequence market with
  | nil =>
      cases feed
      exact ⟨replica, rfl, rfl, follows⟩
  | cons m rest inductionHypothesis =>
      obtain ⟨isDelta, sameEpoch, next, restNumbered⟩ := numbered
      cases feed with
      | next admitted restFeed =>
          obtain ⟨middle, consumed, middlePool, middleFollows⟩ :=
            follows.consume isDelta sameEpoch next admitted
          rw [← middlePool] at restFeed
          obtain ⟨after, restConsumed, afterPool, afterFollows⟩ :=
            inductionHypothesis middleFollows restNumbered restFeed
          refine ⟨after, ?_, afterPool.trans middlePool, ?_⟩
          · simp [MarketReplica.consumeAll, consumed, restConsumed]
          · rw [List.length_cons, Nat.add_comm rest.length, ← Nat.add_assoc]
            exact afterFollows

end MarketReplica

end LimitOrderBook
