import LimitOrderBook.Replica
import Mathlib.Algebra.Order.Field.Rat

namespace LimitOrderBook

/-!
# Trading features

The model of `trading/features.hpp` and `trading/features.cpp`: for every
instrument a microprice, and the last trade with the share it took of what was
displayed at the best price.  The share is computed at the `Trade`, from a
quantity that is remembered at the `Execute` before it.

The `long double` values of the source are rational numbers here, and not
rounded.
-/

structure Features where
  microprice : Option Rat := none
  aggressiveRatio : Option Rat := none
  tradeId : Nat := 0
  aggressor : Side := .bid
  deriving DecidableEq

/-- What is remembered of an execution until its trade. -/
structure Pending where
  trade : Nat
  quantity : UInt64
  deriving DecidableEq

structure FeatureEngine where
  values : OrderedMap InstrumentId Features (· < ·) := .empty
  pending : OrderedMap InstrumentId Pending (· < ·) := .empty
  deriving DecidableEq

namespace FeatureEngine

/-- `FeatureEngine::get`. -/
def get (engine : FeatureEngine) (id : InstrumentId) : Features :=
  (engine.values.find? id).getD {}

/-- Both best prices, each weighted by the quantity at the other one. -/
def micropriceOf (book : OrderBook) : Option Rat :=
  match book.bestBid, book.bestAsk with
  | some bid, some ask =>
      let bidQuantity : Rat := (book.bestQuantity .bid).toNat
      let askQuantity : Rat := (book.bestQuantity .ask).toNat
      some ((bid * askQuantity + ask * bidQuantity) /
        (bidQuantity + askQuantity))
  | _, _ => none

/-- `FeatureEngine::refresh`; a missing book is a null pointer. -/
def refresh (engine : FeatureEngine) (id : InstrumentId)
    (book : Option OrderBook) : FeatureEngine :=
  { engine with
    values := engine.values.insert id
      { engine.get id with microprice := book.bind micropriceOf } }

/-- `FeatureEngine::before`. -/
def before (engine : FeatureEngine) (m : Message) (book : Option OrderBook) :
    FeatureEngine :=
  if m.kind = .delta ∧ m.update = .execute then
    { engine with
      pending := engine.pending.insert m.instrumentId
        ⟨m.tradeId, (book.map fun book => book.bestQuantity m.side).getD 0⟩ }
  else
    engine

/-- `FeatureEngine::after`. -/
def after (engine : FeatureEngine) (m : Message) (book : Option OrderBook) :
    FeatureEngine :=
  let engine := engine.refresh m.instrumentId book
  if m.kind ≠ .delta ∨ m.update ≠ .trade then
    engine
  else
    let feature : Features :=
      { engine.get m.instrumentId with
        tradeId := m.tradeId
        aggressor := m.side
        aggressiveRatio := none }
    match engine.pending.find? m.instrumentId with
    | none =>
        { engine with values := engine.values.insert m.instrumentId feature }
    | some pending =>
        if pending.trade = m.tradeId then
          let ratio : Option Rat :=
            if pending.quantity ≠ 0 then
              some (m.quantity / pending.quantity.toNat)
            else
              none
          { values := engine.values.insert m.instrumentId
              { feature with aggressiveRatio := ratio }
            pending := engine.pending.erase m.instrumentId }
        else
          { engine with
            values := engine.values.insert m.instrumentId feature }

/-! ## What is pending -/

variable {engine : FeatureEngine} {m : Message} {book : Option OrderBook}

theorem before_pending (isDelta : m.kind = .delta)
    (isExecute : m.update = .execute) :
    (engine.before m book).pending = engine.pending.insert m.instrumentId
      ⟨m.tradeId, (book.map fun book => book.bestQuantity m.side).getD 0⟩ := by
  rw [before, if_pos ⟨isDelta, isExecute⟩]

theorem before_eq (notExecute : m.update ≠ .execute) :
    engine.before m book = engine := by
  rw [before, if_neg fun both => notExecute both.2]

theorem after_pending (notTrade : m.update ≠ .trade) :
    (engine.after m book).pending = engine.pending := by
  rw [after, if_pos (Or.inr notTrade)]
  rfl

/-- A trade whose execution is pending is signalled and settles it. -/
theorem after_trade
    (isDelta : m.kind = .delta) (isTrade : m.update = .trade)
    {quantity : UInt64}
    (found : engine.pending.find? m.instrumentId =
      some ⟨m.tradeId, quantity⟩) :
    (engine.after m book).pending = engine.pending.erase m.instrumentId ∧
      (engine.after m book).get m.instrumentId =
        { microprice := book.bind micropriceOf
          aggressiveRatio :=
            if quantity ≠ 0 then some (m.quantity / quantity.toNat) else none
          tradeId := m.tradeId
          aggressor := m.side } := by
  have accepted : ¬(m.kind ≠ .delta ∨ m.update ≠ .trade) := by
    rintro (notDelta | notTrade)
    · exact notDelta isDelta
    · exact notTrade isTrade
  have stillFound : (engine.refresh m.instrumentId book).pending.find?
      m.instrumentId = some ⟨m.tradeId, quantity⟩ := found
  simp only [after, if_neg accepted, stillFound, if_true]
  refine ⟨rfl, ?_⟩
  simp [get, refresh]

end FeatureEngine

end LimitOrderBook
