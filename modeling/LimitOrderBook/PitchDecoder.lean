import LimitOrderBook.FeedBytes

namespace LimitOrderBook.Feed

/-!
# The PITCH decoder

The model of `feed/pitch.cpp`.  A packet is a header and a counted run of
messages of one unit.  The unit's clock, sequence and end flag are worked on in
a copy and committed after the whole packet has been read.
-/

/-- `PitchDecoder::Unit`. -/
structure PitchUnit where
  next : Nat := 1
  seconds : Nat := 0
  timed : Bool := false
  ended : Bool := false

structure PitchDecoder where
  units : UInt8 → PitchUnit := fun _ => {}
  failed : Bool := false

namespace Pitch

/-- The lambda `number`. -/
def number (m : Bytes) (pos size : Nat) : Except Fault Nat :=
  integer m pos size true

/-- The lambda `sized`; a message is as long as its length byte says. -/
def sized (m : Bytes) (type : UInt8) (want : Nat) : Except Fault Unit :=
  require (m.length = want)
    ("Unexpected PITCH equities message length/type " ++ toString type.toNat)

/-- A price; those of short forms have two bytes and are in cents. -/
def priceAt (m : Bytes) (shortForm : Bool) (pos : Nat) : Except Fault Nat :=
  if shortForm then do
    let cents ← number m pos 2
    .ok (cents * 100)
  else
    number m pos 8

/-- The lengths of the three forms of an addition. -/
def addSized (m : Bytes) (type : UInt8) : Except Fault Unit :=
  if type = 0x2f then
    require (m.length = 40 ∨ m.length = 41)
      "Unsupported expanded PITCH Add (equities only)"
  else
    sized m type (if type = 0x22 then 26 else 34)

def decodeAdd (m : Bytes) (type : UInt8) (e : Event) :
    Except Fault Event := do
  let shortForm := decide (type = 0x22)
  let expanded := decide (type = 0x2f)
  addSized m type
  let orderId ← number m 6 8
  let sideByte ← byteAt m 14
  let orderSide ← side sideByte
  let quantity ← number m 15 (if shortForm then 2 else 4)
  let name ← symbol m (if shortForm then 17 else 19) (if expanded then 8 else 6)
  let price ←
    priceAt m shortForm (if shortForm then 23 else if expanded then 27 else 25)
  .ok
    { e with
      type := .add
      orderId := orderId
      side := orderSide
      quantity := quantity
      symbol := name
      price := price }

def decodeExecute (m : Bytes) (type : UInt8) (e : Event) :
    Except Fault Event := do
  sized m type 26
  let orderId ← number m 6 8
  let quantity ← number m 14 4
  let matchId ← number m 18 8
  .ok
    { e with
      type := .execute
      orderId := orderId
      quantity := quantity
      matchId := matchId }

def decodeExecuteRemaining (m : Bytes) (type : UInt8) (e : Event) :
    Except Fault Event := do
  sized m type 38
  let orderId ← number m 6 8
  let quantity ← number m 14 4
  let remaining ← number m 18 4
  let matchId ← number m 22 8
  let price ← number m 30 8
  .ok
    { e with
      type := .executeRemaining
      orderId := orderId
      quantity := quantity
      remaining := remaining
      matchId := matchId
      price := price }

def decodeReduce (m : Bytes) (type : UInt8) (e : Event) :
    Except Fault Event := do
  sized m type (if type = 0x25 then 18 else 16)
  let orderId ← number m 6 8
  let quantity ← number m 14 (if type = 0x25 then 4 else 2)
  .ok { e with type := .reduce, orderId := orderId, quantity := quantity }

def decodeReplace (m : Bytes) (type : UInt8) (e : Event) :
    Except Fault Event := do
  let shortForm := decide (type = 0x28)
  sized m type (if shortForm then 19 else 27)
  let orderId ← number m 6 8
  let quantity ← number m 14 (if shortForm then 2 else 4)
  let price ← priceAt m shortForm (if shortForm then 16 else 18)
  let flags ← byteAt m (if shortForm then 18 else 26)
  .ok
    { e with
      type := .replace
      orderId := orderId
      newOrderId := orderId
      quantity := quantity
      price := price
      maintainPriority := decide (flags &&& 2 ≠ 0) }

def decodeDelete (m : Bytes) (type : UInt8) (e : Event) :
    Except Fault Event := do
  sized m type 14
  let orderId ← number m 6 8
  .ok { e with type := .delete, orderId := orderId }

def decodeTrade (m : Bytes) (type : UInt8) (e : Event) :
    Except Fault Event := do
  let shortForm := decide (type = 0x2b)
  let expanded := decide (type = 0x30)
  sized m type (if shortForm then 33 else if expanded then 43 else 41)
  let quantity ← number m 15 (if shortForm then 2 else 4)
  let name ← symbol m (if shortForm then 17 else 19) (if expanded then 8 else 6)
  let price ←
    priceAt m shortForm (if shortForm then 23 else if expanded then 27 else 25)
  let matchId ←
    number m (if shortForm then 25 else if expanded then 35 else 33) 8
  .ok
    { e with
      type := .trade
      quantity := quantity
      symbol := name
      price := price
      matchId := matchId }

/-- The `switch` over the types other than Time. -/
def decodeBody (m : Bytes) (type : UInt8) (e : Event) :
    Except Fault Event :=
  if type = 0x21 ∨ type = 0x22 ∨ type = 0x2f then
    decodeAdd m type e
  else if type = 0x23 then
    decodeExecute m type e
  else if type = 0x24 then
    decodeExecuteRemaining m type e
  else if type = 0x25 ∨ type = 0x26 then
    decodeReduce m type e
  else if type = 0x27 ∨ type = 0x28 then
    decodeReplace m type e
  else if type = 0x29 then
    decodeDelete m type e
  else if type = 0x2a ∨ type = 0x2b ∨ type = 0x30 then
    decodeTrade m type e
  else if type = 0x97 then do
    sized m type 6
    .ok { e with type := .clear }
  else if type = 0x2c then do
    -- Broken trades never restore displayed orders.
    sized m type 14
    .ok e
  else if type = 0x2d then do
    sized m type 6
    .ok e
  else if type = 0x31 then do
    sized m type 18
    .ok e
  else
    .error (.thrown
      ("Unsupported PITCH equities message type " ++ toString type.toNat))

/-- One message: the unit's state after it and its event. -/
def decodeMessage (channel : UInt8) (sequence : Nat) (m : Bytes)
    (state : PitchUnit) : Except Fault (PitchUnit × Event) := do
  let type ← byteAt m 1
  let e : Event := { channel := channel.toNat, sequence := sequence }
  if type = 0x20 then do
    require (m.length = 6 ∨ m.length = 10) "Invalid PITCH Time length"
    let seconds ← number m 2 4
    require (seconds < 86400) "Invalid PITCH seconds since midnight"
    .ok
      ({ state with seconds := seconds, timed := true },
        { e with timestampNs := seconds * 1000000000 })
  else do
    require state.timed "PITCH message precedes Time"
    let nanos ← number m 2 4
    require (nanos < 1000000000) "Invalid PITCH nanosecond offset"
    let decoded ← decodeBody m type
      { e with timestampNs := state.seconds * 1000000000 + nanos }
    -- The end of a session sets the flag in its branch of the switch.
    .ok
      ({ state with ended := state.ended || decide (type = 0x2d) }, decoded)

/-- The variables of the loop over a packet's messages. -/
structure Walk where
  state : PitchUnit
  offset : Nat
  events : List Event

/-- One iteration of the loop. -/
def walkMessage (p : Bytes) (channel : UInt8) (sequence : Nat) (walk : Walk)
    (index : Nat) : Except Fault Walk := do
  require (walk.state.ended = false) "PITCH message follows End of Session"
  require (walk.offset + 2 ≤ p.length) "Truncated PITCH message header"
  let length ← byteAt p walk.offset
  require (6 ≤ length.toNat ∧ length.toNat ≤ p.length - walk.offset)
    "Invalid PITCH message length"
  let m ← subspan p walk.offset length.toNat
  let (state, e) ← decodeMessage channel (sequence + index) m walk.state
  .ok ⟨state, walk.offset + length.toNat, walk.events ++ [e]⟩

end Pitch

namespace PitchDecoder

open Pitch

/-- The body of `decode` for a packet that has messages. -/
def decodeMessages (units : UInt8 → PitchUnit) (p : Bytes)
    (channel : UInt8) (sequence count : Nat) :
    Except Fault ((UInt8 → PitchUnit) × List Event) := do
  let state := units channel
  require (sequence = state.next)
    "PITCH sequence gap/duplicate or mid-session capture"
  require (state.ended = false)
    "PITCH sequenced message follows End of Session"
  require (sequence + count - 1 ≤ 2 ^ 32 - 1)
    "PITCH sequence rollover requires a new decoder/session"
  let walk ← (List.range count).foldlM (walkMessage p channel sequence)
    ⟨state, 8, []⟩
  require (walk.offset = p.length)
    "PITCH message count/trailing bytes mismatch"
  .ok
    (Function.update units channel
      { walk.state with next := sequence + count }, walk.events)

/-- The `try` block of `decode`. -/
def decodePacket (units : UInt8 → PitchUnit) (p : Bytes) :
    Except Fault ((UInt8 → PitchUnit) × List Event) := do
  require (8 ≤ p.length) "Invalid PITCH packet length"
  let size ← integer p 0 2 true
  require (size = p.length) "Invalid PITCH packet length"
  let count ← byteAt p 2
  let channel ← byteAt p 3
  let sequence ← integer p 4 4 true
  if count = 0 then do
    require
      (p.length = 8 ∧ (sequence = (units channel).next ∨ sequence = 0))
      "PITCH heartbeat sequence gap"
    .ok (units, [])
  else
    decodeMessages units p channel sequence count.toNat

/-- `PitchDecoder::decode`. -/
def decode (decoder : PitchDecoder) (p : Bytes) :
    PitchDecoder × Except Fault (List Event) :=
  if decoder.failed then
    (decoder, .error (.thrown "PITCH decoder requires restart after error"))
  else
    match decodePacket decoder.units p with
    | .ok (units, events) => ({ decoder with units := units }, .ok events)
    | .error fault => ({ decoder with failed := true }, .error fault)

/-- The loop of `complete`; it knows whether a unit has been seen. -/
def allEnded : List PitchUnit → Bool → Bool
  | [], seen => seen
  | unit :: rest, seen =>
      if unit.next ≠ 1 then
        if unit.ended then allEnded rest true else false
      else
        allEnded rest seen

/-- `PitchDecoder::complete`. -/
def complete (decoder : PitchDecoder) : Bool :=
  allEnded ((List.range 256).map fun index =>
    decoder.units (UInt8.ofNat index)) false && !decoder.failed

end PitchDecoder

end LimitOrderBook.Feed
