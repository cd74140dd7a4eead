import Mathlib.Order.Defs.LinearOrder
import Mathlib.Data.UInt

namespace LimitOrderBook

/-!
# Identifiers, events and messages

The value types of `core/types.hpp`, `core/events.hpp` and
`trading/messages.hpp`.  Identifiers, prices, quantities and counters are
natural numbers: every computation on them below either stays in the range of
the source's unsigned type or is written with its modulus.  The 64-bit
counters (sequences, exchange order ids, trade ids) are only ever incremented
by one, so the model lets them grow without bound.

The source's scoped enumerations have an 8-bit representation and are read
from the wire, so each one keeps the bytes outside its list as `unlisted`.
-/

abbrev Sequence := Nat
abbrev OrderId := Nat
abbrev InstrumentId := Nat
abbrev ClientId := Nat
abbrev Price := Nat
abbrev Quantity := Nat

inductive Side where
  | bid
  | ask
  | unlisted (raw : UInt8) (outside : 1 < raw)
  deriving DecidableEq

namespace Side

/-- The side a marketable order trades against. -/
def opposite (side : Side) : Side :=
  if side = .bid then .ask else .bid

/-- A side that has a level map in the book. -/
def Listed (side : Side) : Prop :=
  side = .bid ∨ side = .ask

instance (side : Side) : Decidable side.Listed :=
  inferInstanceAs (Decidable (_ ∨ _))

theorem opposite_ne {side : Side} (listed : side.Listed) :
    side.opposite ≠ side := by
  rcases listed with rfl | rfl
  · simp [opposite]
  · simp [opposite]

end Side

inductive ApplyResult where
  | ok
  | duplicateOrder
  | unknownOrder
  | invalidPrice
  | invalidQuantity
  | unknownInstrument
  | quantityExceedsRemaining
  | parseError
  | notImplemented
  | allocationFailed
  deriving DecidableEq, Repr

structure AddOrder where
  orderId : OrderId
  side : Side
  price : Price
  quantity : Quantity
  deriving DecidableEq

structure CancelOrder where
  orderId : OrderId
  deriving DecidableEq

structure ExecuteOrder where
  orderId : OrderId
  quantity : Quantity
  deriving DecidableEq

inductive EventPayload where
  | add (event : AddOrder)
  | cancel (event : CancelOrder)
  | execute (event : ExecuteOrder)
  deriving DecidableEq

structure MarketEvent where
  sequence : Sequence
  instrumentId : InstrumentId
  payload : EventPayload
  deriving DecidableEq

inductive Kind where
  | command
  | report
  | delta
  | heartbeat
  | snapshotBegin
  | snapshotOrder
  | snapshotEnd
  | unlisted (raw : UInt8) (outside : raw = 0 ∨ 7 < raw)
  deriving DecidableEq

inductive Action where
  | new
  | cancel
  | replace
  | cancelAll
  | snapshot
  | status
  | unlisted (raw : UInt8) (outside : raw = 0 ∨ 6 < raw)
  deriving DecidableEq

inductive OrderType where
  | limit
  | market
  | unlisted (raw : UInt8) (outside : raw = 0 ∨ 2 < raw)
  deriving DecidableEq

inductive TimeInForce where
  | gtc
  | ioc
  | fok
  | unlisted (raw : UInt8) (outside : raw = 0 ∨ 3 < raw)
  deriving DecidableEq

inductive ReportType where
  | accepted
  | rejected
  | fill
  | cancelled
  | replaced
  | complete
  | status
  | unlisted (raw : UInt8) (outside : raw = 0 ∨ 7 < raw)
  deriving DecidableEq

inductive UpdateType where
  | add
  | cancel
  | execute
  | reduce
  | trade
  | unlisted (raw : UInt8) (outside : raw = 0 ∨ 5 < raw)
  deriving DecidableEq

inductive Reject where
  | none
  | invalidCommand
  | unknownInstrument
  | invalidPrice
  | invalidQuantity
  | duplicateOrder
  | unknownOrder
  | sequence
  | postOnly
  | fok
  | selfTrade
  | riskQuantity
  | riskNotional
  | riskPosition
  | riskOpenOrders
  | capacity
  | sessionBusy
  | killSwitch
  | unlisted (raw : UInt8) (outside : 17 < raw)
  deriving DecidableEq

/-- The one value type of commands, reports, deltas and snapshot rows. -/
structure Message where
  kind : Kind := .command
  action : Action := .new
  side : Side := .bid
  orderType : OrderType := .limit
  tif : TimeInForce := .gtc
  report : ReportType := .accepted
  reject : Reject := .none
  update : UpdateType := .add
  postOnly : Bool := false
  epoch : Nat := 0
  sequence : Sequence := 0
  clientId : ClientId := 0
  price : Price := 0
  requestId : Nat := 0
  orderId : OrderId := 0
  exchangeId : OrderId := 0
  instrumentId : InstrumentId := 0
  quantity : Quantity := 0
  remaining : Quantity := 0
  tradeId : Nat := 0
  deriving DecidableEq

end LimitOrderBook
