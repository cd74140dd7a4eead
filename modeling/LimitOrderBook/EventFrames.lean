import LimitOrderBook.ByteFields
import LimitOrderBook.Messages

namespace LimitOrderBook

/-!
# Events and acknowledgements on the wire

The model of `net/protocol.cpp`: market events in frames of 40 bytes and their
two acknowledgements in frames of 16.  The fields of a frame cover all of its
bytes and a decoder accepts one value of every field that its message does not
use, so each frame that is accepted is the one its message is encoded as.
-/

open ByteFields

abbrev EventFrame := Vector UInt8 40
abbrev AckFrame := Vector UInt8 16

/-- `magic`: the letters `LOB1`. -/
def eventMagic : Nat := 0x4c4f4231

/-- `results`: the place of a result is its byte on the wire. -/
def applyResults : List ApplyResult :=
  [.ok, .duplicateOrder, .unknownOrder, .invalidPrice, .invalidQuantity,
    .unknownInstrument, .quantityExceedsRemaining, .parseError,
    .notImplemented, .allocationFailed]

/-- `valid_header`. -/
def validHeader {size : Nat} (frame : Vector UInt8 size) : Bool :=
  decide (getNumber frame 0 4 = eventMagic ∧ byteAt frame 4 = 1 ∧
    byteAt frame 7 = 0)

/-- `encode_event`. -/
def encodeEvent (event : MarketEvent) : Except String EventFrame :=
  let frame : EventFrame := Vector.replicate 40 0
  let frame := putNumber frame 0 eventMagic 4
  let frame := setByte frame 4 1
  let frame := putNumber frame 8 event.sequence 8
  let frame := putNumber frame 16 event.instrumentId 8
  match event.payload with
  | .add add =>
      if add.side ≠ .bid ∧ add.side ≠ .ask then
        .error "Invalid order side"
      else
        let frame := setByte frame 5 1
        let frame := setByte frame 6 (if add.side = .bid then 1 else 2)
        let frame := putNumber frame 24 add.orderId 8
        let frame := putNumber frame 32 add.price 4
        .ok (putNumber frame 36 add.quantity 4)
  | .cancel cancel =>
      let frame := setByte frame 5 2
      .ok (putNumber frame 24 cancel.orderId 8)
  | .execute execute =>
      let frame := setByte frame 5 3
      let frame := putNumber frame 24 execute.orderId 8
      .ok (putNumber frame 36 execute.quantity 4)

/-- `decode_event`. -/
def decodeEvent (frame : EventFrame) : Option MarketEvent :=
  if ¬ validHeader frame then
    none
  else
    let sequence := getNumber frame 8 8
    let instrument := getNumber frame 16 8
    let order := getNumber frame 24 8
    let price := getNumber frame 32 4
    let quantity := getNumber frame 36 4
    match byteAt frame 5 with
    | 1 =>
        if byteAt frame 6 ≠ 1 ∧ byteAt frame 6 ≠ 2 then
          none
        else
          let side : Side := if byteAt frame 6 = 1 then .bid else .ask
          some ⟨sequence, instrument, .add ⟨order, side, price, quantity⟩⟩
    | 2 =>
        if byteAt frame 6 ≠ 0 ∨ price ≠ 0 ∨ quantity ≠ 0 then
          none
        else
          some ⟨sequence, instrument, .cancel ⟨order⟩⟩
    | 3 =>
        if byteAt frame 6 ≠ 0 ∨ price ≠ 0 then
          none
        else
          some ⟨sequence, instrument, .execute ⟨order, quantity⟩⟩
    | _ => none

/-- `encode_received_ack`. -/
def encodeReceivedAck (sequence : Sequence) : AckFrame :=
  let frame : AckFrame := Vector.replicate 16 0
  let frame := putNumber frame 0 eventMagic 4
  let frame := setByte frame 4 1
  let frame := setByte frame 5 128
  putNumber frame 8 sequence 8

/-- `decode_received_ack`. -/
def decodeReceivedAck (frame : AckFrame) : Option Sequence :=
  if ¬ validHeader frame ∨ byteAt frame 5 ≠ 128 ∨ byteAt frame 6 ≠ 0 then
    none
  else
    some (getNumber frame 8 8)

structure ApplyAck where
  sequence : Sequence
  result : ApplyResult
  deriving DecidableEq

/-- `encode_apply_ack`. -/
def encodeApplyAck (ack : ApplyAck) : Except String AckFrame :=
  let frame := setByte (encodeReceivedAck ack.sequence) 5 129
  match applyResults.findIdx? fun result => decide (result = ack.result) with
  | some i => .ok (setByte frame 6 (UInt8.ofNat i))
  | none => .error "Unknown ApplyResult"

/-- `decode_apply_ack`. -/
def decodeApplyAck (frame : AckFrame) : Option ApplyAck :=
  if ¬ validHeader frame ∨ byteAt frame 5 ≠ 129 ∨
      applyResults.length ≤ (byteAt frame 6).toNat then
    none
  else
    applyResults[(byteAt frame 6).toNat]?.map fun result =>
      ⟨getNumber frame 8 8, result⟩

theorem validHeader_iff {size : Nat} (frame : Vector UInt8 size) :
    validHeader frame = true ↔
      getNumber frame 0 4 = eventMagic ∧ byteAt frame 4 = 1 ∧
        byteAt frame 7 = 0 := by
  simp [validHeader]

/-! ## Canonical codecs -/

/--
A codec that reads back all it can write and accepts no frame but those it
writes.
-/
def CanonicalCodec {α β : Type} (Encodable : α → Prop)
    (encode : α → Except String β) (decode : β → Option α) : Prop :=
  (∀ value, Encodable value →
    ∃ frame, encode value = .ok frame ∧ decode frame = some value) ∧
  ∀ frame value, decode frame = some value →
    Encodable value ∧ encode value = .ok frame

/-- A codec whose frames are known by what they carry is canonical. -/
theorem CanonicalCodec.of_carries
    {α β : Type} {Encodable : α → Prop} {encode : α → Except String β}
    {decode : β → Option α} {Carries : β → α → Prop}
    (encoded : ∀ value, Encodable value →
      ∃ frame, encode value = .ok frame ∧ Carries frame value)
    (decoded : ∀ frame value,
      decode frame = some value ↔ Encodable value ∧ Carries frame value)
    (known : ∀ first second value,
      Carries first value → Carries second value → first = second) :
    CanonicalCodec Encodable encode decode := by
  constructor
  · intro value encodable
    obtain ⟨frame, written, carries⟩ := encoded value encodable
    exact ⟨frame, written, (decoded frame value).mpr ⟨encodable, carries⟩⟩
  · intro frame value read
    obtain ⟨encodable, carries⟩ := (decoded frame value).mp read
    obtain ⟨other, written, otherCarries⟩ := encoded value encodable
    rw [known frame other value carries otherCarries]
    exact ⟨encodable, written⟩

/-! ## Events -/

namespace EventPayload

def kindByte : EventPayload → UInt8
  | .add _ => 1
  | .cancel _ => 2
  | .execute _ => 3

def sideByte : EventPayload → UInt8
  | .add event => if event.side = .bid then 1 else 2
  | .cancel _ => 0
  | .execute _ => 0

def orderId : EventPayload → OrderId
  | .add event => event.orderId
  | .cancel event => event.orderId
  | .execute event => event.orderId

/-- The price field, which only an addition uses. -/
def priceField : EventPayload → Price
  | .add event => event.price
  | .cancel _ => 0
  | .execute _ => 0

/-- The quantity field, which a cancellation does not use. -/
def quantityField : EventPayload → Quantity
  | .add event => event.quantity
  | .cancel _ => 0
  | .execute event => event.quantity

def SideListed : EventPayload → Prop
  | .add event => event.side.Listed
  | .cancel _ => True
  | .execute _ => True

end EventPayload

/-- An event with a valid side and numbers in the range of their types. -/
structure MarketEvent.Encodable (event : MarketEvent) : Prop where
  sequence : event.sequence < 2 ^ 64
  instrumentId : event.instrumentId < 2 ^ 64
  orderId : event.payload.orderId < 2 ^ 64
  price : event.payload.priceField < 2 ^ 32
  quantity : event.payload.quantityField < 2 ^ 32
  side : event.payload.SideListed

/-- What every byte of the frame of an event is. -/
structure EventFrame.Carries (frame : EventFrame) (event : MarketEvent) :
    Prop where
  magic : getNumber frame 0 4 = eventMagic
  version : byteAt frame 4 = 1
  kind : byteAt frame 5 = event.payload.kindByte
  side : byteAt frame 6 = event.payload.sideByte
  reserved : byteAt frame 7 = 0
  sequence : getNumber frame 8 8 = event.sequence
  instrumentId : getNumber frame 16 8 = event.instrumentId
  orderId : getNumber frame 24 8 = event.payload.orderId
  price : getNumber frame 32 4 = event.payload.priceField
  quantity : getNumber frame 36 4 = event.payload.quantityField

namespace EventFrame

variable {frame first second : EventFrame} {event : MarketEvent}

theorem Carries.known
    (firstCarries : Carries first event)
    (secondCarries : Carries second event) : first = second := by
  refine ext_byteAt fun position inside => ?_
  have number {start count : Nat}
      (same : getNumber first start count = getNumber second start count)
      (here : start ≤ position ∧ position < start + count) :
      byteAt first position = byteAt second position :=
    byteAt_eq_of_getNumber same here
  by_cases inMagic : position < 4
  · exact number (firstCarries.magic.trans secondCarries.magic.symm) (by omega)
  by_cases isVersion : position = 4
  · rw [isVersion, firstCarries.version, secondCarries.version]
  by_cases isKind : position = 5
  · rw [isKind, firstCarries.kind, secondCarries.kind]
  by_cases isSide : position = 6
  · rw [isSide, firstCarries.side, secondCarries.side]
  by_cases isReserved : position = 7
  · rw [isReserved, firstCarries.reserved, secondCarries.reserved]
  by_cases inSequence : position < 16
  · exact number (firstCarries.sequence.trans secondCarries.sequence.symm)
      (by omega)
  by_cases inInstrument : position < 24
  · exact number
      (firstCarries.instrumentId.trans secondCarries.instrumentId.symm)
      (by omega)
  by_cases inOrder : position < 32
  · exact number (firstCarries.orderId.trans secondCarries.orderId.symm)
      (by omega)
  by_cases inPrice : position < 36
  · exact number (firstCarries.price.trans secondCarries.price.symm) (by omega)
  · exact number (firstCarries.quantity.trans secondCarries.quantity.symm)
      (by omega)

theorem encode_carries (encodable : event.Encodable) :
    ∃ frame, encodeEvent event = .ok frame ∧ Carries frame event := by
  obtain ⟨sequence, instrumentId, payload⟩ := event
  obtain ⟨sequenceFits, instrumentFits, orderFits, priceFits, quantityFits,
    sideListed⟩ := encodable
  cases payload with
  | add add =>
      have listed : ¬ (add.side ≠ .bid ∧ add.side ≠ .ask) := by
        rcases sideListed with isBid | isAsk
        · exact fun both => both.1 isBid
        · exact fun both => both.2 isAsk
      refine ⟨_, by simp only [encodeEvent, listed, if_false]; rfl, ?_⟩
      constructor
      all_goals
        simp (disch := decide) only [byteAt_putNumber_other,
          byteAt_setByte_other, byteAt_setByte_same, getNumber_putNumber_other,
          getNumber_setByte_other, getNumber_putNumber_same, byteAt_replicate]
      · rfl
      · rfl
      · rfl
      · exact Nat.mod_eq_of_lt sequenceFits
      · exact Nat.mod_eq_of_lt instrumentFits
      · exact Nat.mod_eq_of_lt orderFits
      · exact Nat.mod_eq_of_lt priceFits
      · exact Nat.mod_eq_of_lt quantityFits
  | cancel cancel =>
      refine ⟨_, by simp only [encodeEvent]; rfl, ?_⟩
      constructor
      all_goals
        simp (disch := decide) only [byteAt_putNumber_other,
          byteAt_setByte_other, byteAt_setByte_same, getNumber_putNumber_other,
          getNumber_setByte_other, getNumber_putNumber_same, byteAt_replicate,
          getNumber_replicate]
      · rfl
      · rfl
      · rfl
      · exact Nat.mod_eq_of_lt sequenceFits
      · exact Nat.mod_eq_of_lt instrumentFits
      · exact Nat.mod_eq_of_lt orderFits
      · rfl
      · rfl
  | execute execute =>
      refine ⟨_, by simp only [encodeEvent]; rfl, ?_⟩
      constructor
      all_goals
        simp (disch := decide) only [byteAt_putNumber_other,
          byteAt_setByte_other, byteAt_setByte_same, getNumber_putNumber_other,
          getNumber_setByte_other, getNumber_putNumber_same, byteAt_replicate,
          getNumber_replicate]
      · rfl
      · rfl
      · rfl
      · exact Nat.mod_eq_of_lt sequenceFits
      · exact Nat.mod_eq_of_lt instrumentFits
      · exact Nat.mod_eq_of_lt orderFits
      · rfl
      · exact Nat.mod_eq_of_lt quantityFits

/-- What a frame carries is what is read from it. -/
theorem Carries.decode
    (carries : Carries frame event) (encodable : event.Encodable) :
    decodeEvent frame = some event := by
  have header : validHeader frame = true := (validHeader_iff frame).mpr
    ⟨carries.magic, carries.version, carries.reserved⟩
  obtain ⟨sequence, instrumentId, payload⟩ := event
  unfold decodeEvent
  rw [carries.sequence, carries.instrumentId, carries.orderId, carries.price,
    carries.quantity, carries.kind, carries.side]
  cases payload with
  | add add =>
      obtain ⟨orderId, side, price, quantity⟩ := add
      rcases encodable.side with isBid | isAsk
      · cases isBid
        simp [header, EventPayload.kindByte, EventPayload.sideByte,
          EventPayload.orderId, EventPayload.priceField,
          EventPayload.quantityField]
      · cases isAsk
        simp [header, EventPayload.kindByte, EventPayload.sideByte,
          EventPayload.orderId, EventPayload.priceField,
          EventPayload.quantityField]
  | cancel cancel =>
      simp [header, EventPayload.kindByte, EventPayload.sideByte,
        EventPayload.orderId, EventPayload.priceField,
        EventPayload.quantityField]
  | execute execute =>
      simp [header, EventPayload.kindByte, EventPayload.sideByte,
        EventPayload.orderId, EventPayload.priceField,
        EventPayload.quantityField]

/-- What is read from a frame is what the frame carries. -/
theorem carries_of_decode (read : decodeEvent frame = some event) :
    event.Encodable ∧ Carries frame event := by
  unfold decodeEvent at read
  by_cases header : validHeader frame = true
  swap
  · simp [header] at read
  obtain ⟨magic, version, reserved⟩ := (validHeader_iff frame).mp header
  have sequenceFits : getNumber frame 8 8 < 2 ^ 64 := getNumber_lt frame 8 8
  have instrumentFits : getNumber frame 16 8 < 2 ^ 64 := getNumber_lt frame 16 8
  have orderFits : getNumber frame 24 8 < 2 ^ 64 := getNumber_lt frame 24 8
  have priceFits : getNumber frame 32 4 < 2 ^ 32 := getNumber_lt frame 32 4
  have quantityFits : getNumber frame 36 4 < 2 ^ 32 := getNumber_lt frame 36 4
  simp only [header, not_true_eq_false, if_false] at read
  split at read
  · rename_i isAdd
    split_ifs at read with unlisted isBid
    · cases read
      exact ⟨⟨sequenceFits, instrumentFits, orderFits, priceFits, quantityFits,
        Or.inl rfl⟩, magic, version, isAdd, isBid, reserved, rfl, rfl, rfl,
        rfl, rfl⟩
    · have isAsk : byteAt frame 6 = 2 := by
        by_contra other
        exact unlisted ⟨isBid, other⟩
      cases read
      exact ⟨⟨sequenceFits, instrumentFits, orderFits, priceFits, quantityFits,
        Or.inr rfl⟩, magic, version, isAdd, isAsk, reserved, rfl, rfl, rfl,
        rfl, rfl⟩
  · rename_i isCancel
    split_ifs at read with used
    simp only [not_or, not_not] at used
    obtain ⟨noSide, noPrice, noQuantity⟩ := used
    cases read
    exact ⟨⟨sequenceFits, instrumentFits, orderFits, Nat.two_pow_pos 32,
      Nat.two_pow_pos 32, trivial⟩, magic, version, isCancel, noSide, reserved, rfl, rfl, rfl,
      noPrice, noQuantity⟩
  · rename_i isExecute
    split_ifs at read with used
    simp only [not_or, not_not] at used
    obtain ⟨noSide, noPrice⟩ := used
    cases read
    exact ⟨⟨sequenceFits, instrumentFits, orderFits, Nat.two_pow_pos 32,
      quantityFits, trivial⟩, magic, version, isExecute, noSide, reserved, rfl, rfl, rfl,
      noPrice, rfl⟩
  · cases read

end EventFrame

/-! ## Acknowledgements -/

/-- What every byte of an acknowledgement is. -/
structure AckFrame.Carries (frame : AckFrame) (kind body : UInt8)
    (sequence : Sequence) : Prop where
  magic : getNumber frame 0 4 = eventMagic
  version : byteAt frame 4 = 1
  kind : byteAt frame 5 = kind
  body : byteAt frame 6 = body
  reserved : byteAt frame 7 = 0
  sequence : getNumber frame 8 8 = sequence

namespace AckFrame

variable {frame first second : AckFrame} {kind body : UInt8}
  {sequence : Sequence}

theorem Carries.known
    (firstCarries : Carries first kind body sequence)
    (secondCarries : Carries second kind body sequence) : first = second := by
  refine ext_byteAt fun position inside => ?_
  have number {start count : Nat}
      (same : getNumber first start count = getNumber second start count)
      (here : start ≤ position ∧ position < start + count) :
      byteAt first position = byteAt second position :=
    byteAt_eq_of_getNumber same here
  by_cases inMagic : position < 4
  · exact number (firstCarries.magic.trans secondCarries.magic.symm) (by omega)
  by_cases isVersion : position = 4
  · rw [isVersion, firstCarries.version, secondCarries.version]
  by_cases isKind : position = 5
  · rw [isKind, firstCarries.kind, secondCarries.kind]
  by_cases isBody : position = 6
  · rw [isBody, firstCarries.body, secondCarries.body]
  by_cases isReserved : position = 7
  · rw [isReserved, firstCarries.reserved, secondCarries.reserved]
  · exact number (firstCarries.sequence.trans secondCarries.sequence.symm)
      (by omega)

theorem received_carries (fits : sequence < 2 ^ 64) :
    Carries (encodeReceivedAck sequence) 128 0 sequence := by
  unfold encodeReceivedAck
  constructor
  all_goals
    simp (disch := decide) only [byteAt_putNumber_other,
      byteAt_setByte_other, byteAt_setByte_same, getNumber_putNumber_other,
      getNumber_setByte_other, getNumber_putNumber_same, byteAt_replicate]
  · rfl
  · exact Nat.mod_eq_of_lt fits

/-- Two bytes that are written over change nothing else. -/
theorem Carries.rewrite
    (carries : Carries frame kind body sequence) (newKind newBody : UInt8) :
    Carries (setByte (setByte frame 5 newKind) 6 newBody) newKind newBody
      sequence := by
  constructor
  all_goals
    simp (disch := decide) only [byteAt_setByte_other, byteAt_setByte_same,
      getNumber_setByte_other]
  · exact carries.magic
  · exact carries.version
  · exact carries.reserved
  · exact carries.sequence

theorem received_iff :
    decodeReceivedAck frame = some sequence ↔
      sequence < 2 ^ 64 ∧ Carries frame 128 0 sequence := by
  have fits : getNumber frame 8 8 < 2 ^ 64 := getNumber_lt frame 8 8
  unfold decodeReceivedAck
  constructor
  · intro read
    split_ifs at read with refused
    simp only [not_or, not_not] at refused
    obtain ⟨header, kind, body⟩ := refused
    obtain ⟨magic, version, reserved⟩ := (validHeader_iff frame).mp header
    cases read
    exact ⟨fits, magic, version, kind, body, reserved, rfl⟩
  · rintro ⟨_, carries⟩
    have header : validHeader frame = true := (validHeader_iff frame).mpr
      ⟨carries.magic, carries.version, carries.reserved⟩
    simp [header, carries.kind, carries.body, carries.sequence]

/-- The byte of a result is its place in the table. -/
def resultByte (result : ApplyResult) : UInt8 :=
  UInt8.ofNat (applyResults.idxOf result)

theorem applyResults_resultByte (result : ApplyResult) :
    applyResults.findIdx? (fun other => decide (other = result)) =
        some (resultByte result).toNat ∧
      applyResults[(resultByte result).toNat]? = some result := by
  cases result <;> decide

/-- No result stands twice in the table. -/
theorem resultByte_of_get
    {raw : UInt8} {result : ApplyResult}
    (stored : applyResults[raw.toNat]? = some result) :
    raw = resultByte result := by
  have inTable : raw.toNat < applyResults.length :=
    (List.getElem?_eq_some_iff.mp stored).1
  refine UInt8.toNat_inj.mp
    ((List.getElem?_inj inTable (by decide)).mp ?_)
  rw [stored, (applyResults_resultByte result).2]

theorem applied_carries {ack : ApplyAck} (fits : ack.sequence < 2 ^ 64) :
    ∃ frame, encodeApplyAck ack = .ok frame ∧
      Carries frame 129 (resultByte ack.result) ack.sequence := by
  refine ⟨_, ?_, (received_carries fits).rewrite 129 (resultByte ack.result)⟩
  simp only [encodeApplyAck, (applyResults_resultByte ack.result).1,
    UInt8.ofNat_toNat]

theorem applied_iff {ack : ApplyAck} :
    decodeApplyAck frame = some ack ↔
      ack.sequence < 2 ^ 64 ∧
        Carries frame 129 (resultByte ack.result) ack.sequence := by
  have fits : getNumber frame 8 8 < 2 ^ 64 := getNumber_lt frame 8 8
  unfold decodeApplyAck
  constructor
  · intro read
    split_ifs at read with refused
    simp only [not_or, not_not] at refused
    obtain ⟨header, kind, _⟩ := refused
    obtain ⟨magic, version, reserved⟩ := (validHeader_iff frame).mp header
    obtain ⟨result, stored, rfl⟩ := Option.map_eq_some_iff.mp read
    exact ⟨fits, magic, version, kind, resultByte_of_get stored, reserved, rfl⟩
  · rintro ⟨_, carries⟩
    have header : validHeader frame = true := (validHeader_iff frame).mpr
      ⟨carries.magic, carries.version, carries.reserved⟩
    have stored := (applyResults_resultByte ack.result).2
    have inTable : (resultByte ack.result).toNat < applyResults.length :=
      (List.getElem?_eq_some_iff.mp stored).1
    have accepted : ¬ (¬ validHeader frame ∨ byteAt frame 5 ≠ 129 ∨
        applyResults.length ≤ (byteAt frame 6).toNat) := by
      simp [header, carries.kind, carries.body, inTable]
    rw [if_neg accepted, carries.body, carries.sequence, stored]
    rfl

end AckFrame

/--
The codecs of events and of both acknowledgements are canonical, and no frame
is both acknowledgements.
-/
theorem codecs_canonical :
    CanonicalCodec MarketEvent.Encodable encodeEvent decodeEvent ∧
      CanonicalCodec (fun ack : ApplyAck => ack.sequence < 2 ^ 64)
        encodeApplyAck decodeApplyAck ∧
      CanonicalCodec (fun sequence : Sequence => sequence < 2 ^ 64)
        (fun sequence => .ok (encodeReceivedAck sequence)) decodeReceivedAck ∧
      ∀ frame, decodeApplyAck frame = none ∨ decodeReceivedAck frame = none := by
  refine ⟨?_, ?_, ?_, ?_⟩
  · exact .of_carries (fun _ => EventFrame.encode_carries)
      (fun _ _ => ⟨EventFrame.carries_of_decode,
        fun facts => facts.2.decode facts.1⟩)
      fun _ _ _ => EventFrame.Carries.known
  · exact .of_carries (fun _ => AckFrame.applied_carries)
      (fun _ _ => AckFrame.applied_iff) fun _ _ _ => AckFrame.Carries.known
  · exact .of_carries
      (fun sequence fits =>
        ⟨encodeReceivedAck sequence, rfl, AckFrame.received_carries fits⟩)
      (fun _ _ => AckFrame.received_iff) fun _ _ _ => AckFrame.Carries.known
  · intro frame
    by_cases applied : byteAt frame 5 = 129
    · refine Or.inr ?_
      simp [decodeReceivedAck, applied]
    · refine Or.inl ?_
      simp [decodeApplyAck, applied]

end LimitOrderBook
