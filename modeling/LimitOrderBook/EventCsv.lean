import LimitOrderBook.EventFrames
import LimitOrderBook.Fallible
import Mathlib.Data.List.DropRight

namespace LimitOrderBook

/-!
# Events as lines of text

The model of `io/event_io.cpp`.  A line is a list of characters, and each field
of the seven that it is split into is a decimal number, a word or empty.  What
the parser accepts is said by the fields alone, and a line that is written is
accepted as the event it was written from.
-/

namespace EventCsv

abbrev Line := List Char

/-! ## Reading -/

/-- The loop of `split_csv`, from a start on. -/
def splitFrom (line : Line) : Nat → Nat → List Line
  | 0, _ => []
  | fuel + 1, start =>
      if start ≤ line.length then
        match (line.drop start).findIdx? fun c => decide (c = ',') with
        | none => [line.drop start]
        | some length =>
            (line.drop start).take length ::
              splitFrom line fuel (start + length + 1)
      else
        []

/-- `split_csv`; every round moves the start by one at least. -/
def splitCsv (line : Line) : List Line :=
  splitFrom line (line.length + 1) 0

/--
`std::from_chars` for an unsigned type: the value and how much of the text it
is read from, or none where there is no digit or the value has no room.
-/
def fromChars (width : Nat) (text : Line) : Option (Nat × Nat) :=
  let digits := text.takeWhile Char.isDigit
  let value := Nat.ofDigitChars 10 digits 0
  if digits ≠ [] ∧ value < 2 ^ width then
    some (value, digits.length)
  else
    none

/-- `parse_integer`; nothing may be left of the text. -/
def parseInteger (width : Nat) (text : Line) : Option Nat :=
  match fromChars width text with
  | some (value, consumed) =>
      if consumed = text.length then some value else none
  | none => none

/-- The words for a bid. -/
def bidWords : List Line :=
  ["BID".toList, "B".toList, "bid".toList]

/-- The words for an ask. -/
def askWords : List Line :=
  ["ASK".toList, "A".toList, "ask".toList]

/-- `parse_side`. -/
def parseSide (text : Line) : Option Side :=
  if text ∈ bidWords then
    some .bid
  else if text ∈ askWords then
    some .ask
  else
    none

/-- A field that must be there, or the parse ends with an error. -/
def field {α : Type} (parsed : Option α) (error : String) :
    Except String α :=
  match parsed with
  | some value => .ok value
  | none => .error error

/-- `ParseResult`; a line may be neither an event nor an error. -/
structure ParseResult where
  event : Option MarketEvent := none
  error : String := ""
  deriving DecidableEq

/-- The branches over the event types. -/
def parsePayload (order : OrderId) (type side price quantity : Line) :
    Except String EventPayload :=
  if type = "ADD".toList then do
    let side ← field (parseSide side) "invalid side"
    let price ← field (parseInteger 32 price) "invalid price"
    let quantity ← field (parseInteger 32 quantity) "invalid quantity"
    .ok (.add ⟨order, side, price, quantity⟩)
  else if type = "CANCEL".toList then
    if side ≠ [] ∨ price ≠ [] ∨ quantity ≠ [] then
      .error "cancel fields side, price, and quantity must be empty"
    else
      .ok (.cancel ⟨order⟩)
  else if type = "EXECUTE".toList then
    if side ≠ [] ∨ price ≠ [] then
      .error "execute fields side and price must be empty"
    else do
      let quantity ← field (parseInteger 32 quantity) "invalid quantity"
      .ok (.execute ⟨order, quantity⟩)
  else
    .error "unknown event type"

/-- The fields of a line that is not skipped. -/
def parseFields : List Line → Except String MarketEvent
  | [sequence, instrument, type, order, side, price, quantity] => do
      let sequence ← field (parseInteger 64 sequence) "invalid sequence"
      let instrument ←
        field (parseInteger 64 instrument) "invalid instrument_id"
      let order ← field (parseInteger 64 order) "invalid order_id"
      let payload ← parsePayload order type side price quantity
      .ok ⟨sequence, instrument, payload⟩
  | _ => .error "expected 7 CSV fields"

/-- A character that ends a line. -/
def isLineEnd (c : Char) : Bool :=
  decide (c = '\n' ∨ c = '\r')

/-- The line without the characters that end it. -/
def strip (line : Line) : Line :=
  line.rdropWhile isLineEnd

/-- Blank lines, comments and the header are no events. -/
def skipped (line : Line) : Bool :=
  decide (line = [] ∨ line.head? = some '#' ∨
    "sequence,".toList.isPrefixOf line)

/-- `parse_event_line`. -/
def parseEventLine (line : Line) : ParseResult :=
  if skipped (strip line) then
    {}
  else
    match parseFields (splitCsv (strip line)) with
    | .ok event => { event := some event }
    | .error error => { error := error }

/-! ## Writing -/

/-- `write_csv_header`. -/
def writeCsvHeader : Line :=
  "sequence,instrument_id,event_type,order_id,side,price,quantity\n".toList

/-- A number on an output stream. -/
def decimal (value : Nat) : Line :=
  Nat.toDigits 10 value

/-- What the visitor in `write_event_csv` puts out, piece by piece. -/
def payloadPieces : EventPayload → List Line
  | .add event =>
      ["ADD,".toList, decimal event.orderId, [','],
        (if event.side = .bid then "BID" else "ASK").toList, [','],
        decimal event.price, [','], decimal event.quantity, ['\n']]
  | .cancel event =>
      ["CANCEL,".toList, decimal event.orderId, ",,,\n".toList]
  | .execute event =>
      ["EXECUTE,".toList, decimal event.orderId, ",,,".toList,
        decimal event.quantity, ['\n']]

/-- `write_event_csv`. -/
def writeEventCsv (event : MarketEvent) : Line :=
  decimal event.sequence ++ [','] ++ decimal event.instrumentId ++ [','] ++
    (payloadPieces event.payload).flatten

example : parseEventLine writeCsvHeader = {} := by decide

end EventCsv

end LimitOrderBook
