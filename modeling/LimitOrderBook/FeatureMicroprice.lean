import LimitOrderBook.EnginePrefixes
import LimitOrderBook.FeatureSignals
import Mathlib.Algebra.Order.Field.Basic
import Mathlib.Tactic.Linarith

namespace LimitOrderBook

/-!
# The microprice

Whoever refreshes the features of an instrument whenever its book may have
changed has the microprice of every book, and the microprice of a book that is
not crossed lies between its best prices.
-/

namespace FeatureEngine

variable {engine : FeatureEngine} {m : Message} {book : Option OrderBook}
  {id other : InstrumentId}

theorem get_refresh_self (engine : FeatureEngine) (id : InstrumentId)
    (book : Option OrderBook) :
    (engine.refresh id book).get id =
      { engine.get id with microprice := book.bind micropriceOf } := by
  simp [get, refresh]

theorem get_refresh_of_ne (apart : other ≠ id) :
    (engine.refresh id book).get other = engine.get other := by
  simp [get, refresh, apart]

@[simp] theorem get_before (engine : FeatureEngine) (m : Message)
    (book : Option OrderBook) (id : InstrumentId) :
    (engine.before m book).get id = engine.get id := by
  unfold before
  split <;> rfl

theorem get_after_of_ne (apart : other ≠ m.instrumentId) :
    (engine.after m book).get other = engine.get other := by
  have refreshed : (engine.refresh m.instrumentId book).get other =
      engine.get other := get_refresh_of_ne apart
  unfold after
  dsimp only
  split
  · exact refreshed
  · rw [← refreshed]
    split
    · simp [get, apart]
    · split <;> simp [get, apart]

/-- Whatever else a delta does, its instrument gets the price of its book. -/
theorem microprice_after (engine : FeatureEngine) (m : Message)
    (book : Option OrderBook) :
    ((engine.after m book).get m.instrumentId).microprice =
      book.bind micropriceOf := by
  have refreshed : ((engine.refresh m.instrumentId book).get
      m.instrumentId).microprice = book.bind micropriceOf := by
    rw [get_refresh_self]
  unfold after
  dsimp only
  split
  · exact refreshed
  · rw [← refreshed]
    split
    · simp [get]
    · split <;> simp [get]

/-- What is not a trade leaves what is known of the last one. -/
theorem get_after_of_not_trade (notTrade : m.update ≠ .trade) :
    (engine.after m book).get m.instrumentId =
      { engine.get m.instrumentId with
        microprice := book.bind micropriceOf } := by
  rw [after, if_pos (Or.inr notTrade), get_refresh_self]

end FeatureEngine

/-! ## Between the best prices -/

/-- A mean with positive weights lies between its two values. -/
theorem weighted_mean_between
    {low high lowWeight highWeight : Rat} (apart : low < high)
    (lowPositive : 0 < lowWeight) (highPositive : 0 < highWeight) :
    low < (low * highWeight + high * lowWeight) / (lowWeight + highWeight) ∧
      (low * highWeight + high * lowWeight) / (lowWeight + highWeight) <
        high := by
  have total : 0 < lowWeight + highWeight := add_pos lowPositive highPositive
  constructor
  · rw [lt_div_iff₀ total]
    have gained := mul_lt_mul_of_pos_right apart lowPositive
    linarith
  · rw [div_lt_iff₀ total]
    have lost := mul_lt_mul_of_pos_right apart highPositive
    linarith

/-- A microprice between the best prices of its book. -/
def Inside (book : OrderBook) (price : Rat) : Prop :=
  ∃ bid ask, book.bestBid = some bid ∧ book.bestAsk = some ask ∧
    (bid : Rat) < price ∧ price < ask

namespace OrderBook

variable {book : OrderBook}

/-- Where there is a best price, something is displayed. -/
theorem Wf.bestQuantity_pos
    (wf : book.Wf) (slotsFit : book.slots < 2 ^ 32) (fits : book.Fits)
    {side : Side} {best : OrderView}
    (head : (book.sideOrders side).head? = some best) :
    0 < (book.bestQuantity side).toNat := by
  have live := List.mem_of_head? head
  have positive := (wf.mem_sideOrders live).2.2
  rw [wf.bestQuantity_eq slotsFit fits]
  obtain ⟨others, shape⟩ := List.head?_eq_some_iff.mp head
  rw [shape]
  exact (Nat.pos_of_ne_zero positive).trans_le (le_bestDisplayed best others)

theorem Wf.micropriceOf_inside
    (wf : book.Wf) (slotsFit : book.slots < 2 ^ 32) (fits : book.Fits)
    (notCrossed : ¬ MatchingEngine.Crossed book) {price : Rat}
    (priced : FeatureEngine.micropriceOf book = some price) :
    Inside book price := by
  unfold FeatureEngine.micropriceOf at priced
  split at priced
  · rename_i bid ask isBestBid isBestAsk
    have apart : bid < ask := by
      by_contra crossed
      exact notCrossed ⟨bid, isBestBid, ask, isBestAsk, Nat.le_of_not_lt crossed⟩
    have below : (bid : Rat) < ask := Nat.cast_lt.mpr apart
    have bidHead := isBestBid
    have askHead := isBestAsk
    rw [wf.bestBid_eq, Option.map_eq_some_iff] at bidHead
    rw [wf.bestAsk_eq, Option.map_eq_some_iff] at askHead
    obtain ⟨_, bidHead, _⟩ := bidHead
    obtain ⟨_, askHead, _⟩ := askHead
    obtain ⟨aboveBid, belowAsk⟩ := weighted_mean_between below
      (Nat.cast_pos.mpr (wf.bestQuantity_pos slotsFit fits bidHead))
      (Nat.cast_pos.mpr (wf.bestQuantity_pos slotsFit fits askHead))
    cases priced
    exact ⟨bid, ask, isBestBid, isBestAsk, aboveBid, belowAsk⟩
  · cases priced

/-- Without orders there is no microprice. -/
theorem Wf.micropriceOf_none
    (wf : book.Wf) (noBids : book.sideOrders .bid = []) :
    FeatureEngine.micropriceOf book = none := by
  have noBest : book.bestBid = none := by
    rw [wf.bestBid_eq, noBids]
    rfl
  unfold FeatureEngine.micropriceOf
  rw [noBest]

end OrderBook

/-! ## Watchers -/

namespace MarketReplica

variable {replica : MarketReplica} {m : Message} {instrument : InstrumentId}

/-- A delta touches the book of its instrument alone. -/
theorem applyUpdate_of_ne
    (pool : PoolBytes) (books : Books) (apart : instrument ≠ m.instrumentId) :
    (applyUpdate pool books m).1.find? instrument = books.find? instrument := by
  unfold applyUpdate addOrder
  split
  · rfl
  · simp [apart]
  · split
    · rfl
    · simp [apart]

theorem book_consume_of_ne (apart : instrument ≠ m.instrumentId) :
    (replica.consume m).1.book instrument = replica.book instrument := by
  unfold consume
  split
  · rfl
  · split
    · rfl
    · split
      · dsimp only
        split <;> rfl
      · split
        · rfl
        · split
          · rfl
          · split
            · rfl
            · dsimp only
              split <;> exact applyUpdate_of_ne _ _ apart

end MarketReplica

namespace Watcher

variable {watcher : Watcher} {m : Message} {deltas : List Message}

/-- The features have the microprice of every book. -/
def Priced (watcher : Watcher) : Prop :=
  ∀ instrument, (watcher.features.get instrument).microprice =
    (watcher.replica.book instrument).bind FeatureEngine.micropriceOf

/-- Watching any message keeps all prices. -/
theorem Priced.observe (priced : watcher.Priced) (m : Message) :
    (watcher.observe m).Priced := by
  intro instrument
  unfold Watcher.observe
  dsimp only
  by_cases here : instrument = m.instrumentId
  · subst here
    exact FeatureEngine.microprice_after _ m _
  · rw [FeatureEngine.get_after_of_ne here, FeatureEngine.get_before,
      MarketReplica.book_consume_of_ne here]
    exact priced instrument

theorem Priced.observeAll (priced : watcher.Priced) (deltas : List Message) :
    (watcher.observeAll deltas).Priced := by
  induction deltas generalizing watcher with
  | nil => exact priced
  | cons m rest inductionHypothesis =>
      exact inductionHypothesis (priced.observe m)

/-- On a regular market every microprice lies between the best prices. -/
theorem Priced.inside
    {epoch : Nat} {sequence : Sequence} {market : Market}
    (priced : watcher.Priced)
    (follows : watcher.replica.Follows epoch sequence market)
    (regular : market.Regular) {instrument : InstrumentId} {price : Rat}
    (isPrice : (watcher.features.get instrument).microprice = some price) :
    ∃ book, watcher.replica.book instrument = some book ∧
      Inside book price := by
  rw [priced instrument, Option.bind_eq_some_iff] at isPrice
  obtain ⟨book, found, isPrice⟩ := isPrice
  obtain ⟨wf, slots⟩ := follows.books.wf _ _ found
  have shows : ∀ side, book.sideOrders side = market instrument side := by
    intro side
    rw [← follows.books.shows, marketOf_of_find? found]
  refine ⟨book, found, wf.micropriceOf_inside
    (slots ▸ watcher.replica.pool.slots_lt) ?_ ?_ isPrice⟩
  · intro side order live
    exact regular.narrow instrument side order (shows side ▸ live)
  · refine follows.books.wf.not_crossed ?_ found
    rw [follows.books.shows]
    exact regular.uncrossed

end Watcher

end LimitOrderBook
