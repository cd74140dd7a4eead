import LimitOrderBook.FeedBytes

namespace LimitOrderBook.Feed

/-!
# The ITCH decoder

The model of `feed/itch.cpp`.  A decoder that has thrown answers nothing any
more and is never complete, so what a throwing call leaves in the other members
is not modelled.
-/

namespace Itch

/-- A character as the byte it is compared with. -/
abbrev byte (c : Char) : UInt8 :=
  c.toUInt8

/-- The `switch` that gives every message type its length. -/
def lengths : List (UInt8 × Nat) :=
  [(byte 'S', 12), (byte 'R', 39), (byte 'H', 25), (byte 'Y', 20),
    (byte 'L', 26), (byte 'V', 35), (byte 'W', 12), (byte 'K', 28),
    (byte 'J', 35), (byte 'h', 21), (byte 'A', 36), (byte 'F', 40),
    (byte 'E', 31), (byte 'C', 36), (byte 'X', 23), (byte 'D', 19),
    (byte 'U', 35), (byte 'P', 44), (byte 'Q', 40), (byte 'B', 19),
    (byte 'I', 50), (byte 'N', 20), (byte 'O', 48)]

def lengthOf (kind : UInt8) : Except Fault Nat :=
  match lengths.find? fun entry => decide (entry.1 = kind) with
  | some entry => .ok entry.2
  | none =>
      .error (.thrown
        ("Unsupported ITCH message type " ++ toString kind.toNat))

/-- The event codes of system messages. -/
def systemEvents : List UInt8 :=
  [byte 'O', byte 'S', byte 'Q', byte 'M', byte 'E', byte 'C']

/-- The types of order and trade messages. -/
def orderKinds : List UInt8 :=
  [byte 'A', byte 'F', byte 'E', byte 'C', byte 'X', byte 'D', byte 'U',
    byte 'P', byte 'Q']

/-- What every message starts with. -/
structure Header where
  kind : UInt8
  timestampNs : Nat
  locate : Nat

/-- The first message of an archive must be the start of messages. -/
def checkStart (first : Bool) (kind : UInt8) (m : Bytes) :
    Except Fault Unit :=
  if first then
    if kind = byte 'S' then do
      let code ← byteAt m 11
      require (code = byte 'O') "ITCH archive must start at Start of Messages"
    else
      .error (.thrown "ITCH archive must start at Start of Messages")
  else
    .ok ()

/-- The checks that all types share. -/
def readHeader (first : Bool) (m : Bytes) : Except Fault Header := do
  require (m ≠ []) "Empty ITCH message"
  let kind ← byteAt m 0
  let length ← lengthOf kind
  require (m.length = length) "Invalid ITCH message length"
  checkStart first kind m
  let timestampNs ← integer m 5 6 false
  require (timestampNs < 86400000000000) "Invalid ITCH timestamp"
  let locate ← integer m 1 2 false
  .ok ⟨kind, timestampNs, locate⟩

def decodeAdd (m : Bytes) (e : Event) : Except Fault Event := do
  let orderId ← integer m 11 8 false
  let sideByte ← byteAt m 19
  let orderSide ← side sideByte
  let quantity ← integer m 20 4 false
  let name ← symbol m 24 8
  require (name = e.symbol) "ITCH symbol disagrees with locate"
  let price ← integer m 32 4 false
  .ok
    { e with
      type := .add
      orderId := orderId
      side := orderSide
      quantity := quantity
      price := price }

def decodeReplace (m : Bytes) (e : Event) : Except Fault Event := do
  let orderId ← integer m 11 8 false
  let newOrderId ← integer m 19 8 false
  let quantity ← integer m 27 4 false
  let price ← integer m 31 4 false
  .ok
    { e with
      type := .replace
      orderId := orderId
      newOrderId := newOrderId
      quantity := quantity
      price := price }

def decodeTrade (m : Bytes) (cross : Bool) (e : Event) :
    Except Fault Event := do
  let quantity ←
    integer m (if cross then 11 else 20) (if cross then 8 else 4) false
  let name ← symbol m (if cross then 19 else 24) 8
  require (name = e.symbol) "ITCH trade symbol mismatch"
  let price ← integer m (if cross then 27 else 32) 4 false
  let matchId ← integer m (if cross then 31 else 36) 8 false
  .ok
    { e with
      type := .trade
      quantity := quantity
      price := price
      matchId := matchId }

def decodeDelete (m : Bytes) (e : Event) : Except Fault Event := do
  let orderId ← integer m 11 8 false
  .ok { e with type := .delete, orderId := orderId }

def decodeCancel (m : Bytes) (e : Event) : Except Fault Event := do
  let orderId ← integer m 11 8 false
  let quantity ← integer m 19 4 false
  .ok { e with type := .reduce, orderId := orderId, quantity := quantity }

/-- An execution never reprices the resting order. -/
def executionPrice (m : Bytes) (priced : Bool) : Except Fault Nat :=
  if priced then do
    let printable ← byteAt m 31
    require (printable = byte 'Y' ∨ printable = byte 'N')
      "Invalid printable flag"
    integer m 32 4 false
  else
    .ok 0

def decodeExecute (m : Bytes) (priced : Bool) (e : Event) :
    Except Fault Event := do
  let orderId ← integer m 11 8 false
  let quantity ← integer m 19 4 false
  let matchId ← integer m 23 8 false
  let price ← executionPrice m priced
  .ok
    { e with
      type := .execute
      orderId := orderId
      quantity := quantity
      matchId := matchId
      price := price }

/-- The branches for orders and trades; the event already has its symbol. -/
def decodeOrder (m : Bytes) (kind : UInt8) (e : Event) :
    Except Fault Event :=
  if kind = byte 'A' ∨ kind = byte 'F' then
    decodeAdd m e
  else if kind = byte 'U' then
    decodeReplace m e
  else if kind = byte 'P' ∨ kind = byte 'Q' then
    decodeTrade m (decide (kind = byte 'Q')) e
  else if kind = byte 'D' then
    decodeDelete m e
  else if kind = byte 'X' then
    decodeCancel m e
  else
    decodeExecute m (decide (kind = byte 'C')) e

end Itch

open Itch

structure Itch50Decoder where
  record : Nat := 0
  failed : Bool := false
  complete_ : Bool := false
  symbols : OrderedMap Nat Text (· < ·) := .empty

namespace Itch50Decoder

/-- The branch for system events. -/
def decodeSystem (decoder : Itch50Decoder) (m : Bytes) (e : Event) :
    Except Fault (Itch50Decoder × Event) := do
  let code ← byteAt m 11
  require (code ∈ systemEvents) "Invalid ITCH system event"
  .ok
    ({ decoder with
        symbols := if code = byte 'O' then .empty else decoder.symbols
        complete_ := decoder.complete_ || decide (code = byte 'C') },
      { e with type := if code = byte 'O' then .clear else e.type })

/-- The branch for the stock directory. -/
def decodeDirectory (decoder : Itch50Decoder) (m : Bytes) (locate : Nat)
    (e : Event) : Except Fault (Itch50Decoder × Event) := do
  require (locate ≠ 0) "Zero stock locate"
  let name ← symbol m 11 8
  let symbols := decoder.symbols.emplace locate name
  require (symbols.find? locate = some name)
    "Stock locate changed within session"
  .ok
    ({ decoder with symbols := symbols },
      { e with type := .directory, symbol := name })

/-- The branches over the message types. -/
def dispatch (decoder : Itch50Decoder) (header : Header) (m : Bytes) :
    Except Fault (Itch50Decoder × Event) :=
  let e : Event :=
    { sequence := decoder.record + 1, timestampNs := header.timestampNs }
  if header.kind = byte 'S' then
    decoder.decodeSystem m e
  else if header.kind = byte 'R' then
    decoder.decodeDirectory m header.locate e
  else if header.kind ∈ orderKinds then
    match decoder.symbols.find? header.locate with
    | none =>
        .error (.thrown "ITCH order/trade precedes Stock Directory")
    | some name => do
        let decoded ← decodeOrder m header.kind { e with symbol := name }
        .ok (decoder, decoded)
  else
    .ok (decoder, e)

/-- The `try` block of `decode`. -/
def decodeRecord (decoder : Itch50Decoder) (m : Bytes) :
    Except Fault (Itch50Decoder × Event) := do
  require (decoder.complete_ = false) "ITCH message follows End of Messages"
  let header ← readHeader (decide (decoder.record = 0)) m
  let (next, e) ← decoder.dispatch header m
  .ok ({ next with record := next.record + 1 }, e)

/-- `Itch50Decoder::decode`. -/
def decode (decoder : Itch50Decoder) (m : Bytes) :
    Itch50Decoder × Except Fault Event :=
  if decoder.failed then
    (decoder, .error (.thrown "ITCH decoder requires restart after error"))
  else
    match decoder.decodeRecord m with
    | .ok (next, e) => (next, .ok e)
    | .error fault => ({ decoder with failed := true }, .error fault)

/-- `Itch50Decoder::complete`. -/
def complete (decoder : Itch50Decoder) : Bool :=
  decoder.complete_ && !decoder.failed

end Itch50Decoder

end LimitOrderBook.Feed
