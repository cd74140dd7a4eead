import LimitOrderBook.PitchFields
import LimitOrderBook.TwoRuns

namespace LimitOrderBook.Feed.Pitch

/-!
# The forms of a PITCH message

Additions, reductions, modifications and trades have a short form with narrow
fields and forms with wide ones.  A message whose fields fit the short form has
the same meaning in all its forms, and so has a packet in which some messages
take another form.
-/

/-! ## Layouts -/

/-- A name that fits the symbol field of every form. -/
structure ShortSymbol where
  name : Text
  short : name.length ≤ 6
  printable : ∀ byte ∈ name, 33 ≤ byte ∧ byte ≤ 126

namespace ShortSymbol

/-- The bytes of a symbol field. -/
def padded (symbol : ShortSymbol) (width : Nat) : Bytes :=
  symbol.name ++ List.replicate (width - symbol.name.length) 32

@[simp] theorem length_padded
    (symbol : ShortSymbol) {width : Nat} (wide : 6 ≤ width) :
    (symbol.padded width).length = width := by
  have short := symbol.short
  rw [padded, List.length_append, List.length_replicate]
  lia

end ShortSymbol

/-- Padding is not part of a symbol. -/
theorem rdropWhile_padding
    {name : Text} (noBlank : 32 ∉ name) (padding : Nat) :
    (name ++ List.replicate padding 32).rdropWhile
      (fun byte => decide (byte = 32)) = name := by
  induction padding with
  | zero =>
      rw [List.replicate_zero, List.append_nil, List.rdropWhile_eq_self_iff]
      intro nonempty
      rw [decide_eq_true_eq]
      intro isBlank
      exact noBlank (isBlank ▸ List.getLast_mem nonempty)
  | succ padding inductionHypothesis =>
      rw [List.replicate_succ', ← List.append_assoc,
        List.rdropWhile_concat_pos _ _ _ (by decide), inductionHypothesis]

/-- A symbol reads the same from fields of every width. -/
theorem symbolText_padded (symbol : ShortSymbol) (width : Nat) :
    symbolText (symbol.padded width) = symbolText symbol.name := by
  have noBlank : 32 ∉ symbol.name := fun blank =>
    absurd (symbol.printable 32 blank).1 (by decide)
  have printable (padding : Nat) :
      ∀ byte ∈ symbol.name ++ List.replicate padding 32,
        32 ≤ byte ∧ byte ≤ 126 := by
    intro byte member
    rcases List.mem_append.mp member with inName | inPadding
    · obtain ⟨low, high⟩ := symbol.printable byte inName
      exact ⟨UInt8.le_trans (by decide) low, high⟩
    · rw [List.eq_of_mem_replicate inPadding]
      decide
  have text (padding : Nat) :
      (symbol.name ++ List.replicate padding 32).foldlM symbolStep [] =
        .ok (symbol.name ++ List.replicate padding 32) := by
    rw [foldlM_symbolStep, if_pos (printable padding), List.nil_append]
  have bare := text 0
  rw [List.replicate_zero, List.append_nil] at bare
  have unpadded := rdropWhile_padding noBlank 0
  rw [List.replicate_zero, List.append_nil] at unpadded
  rw [symbolText, symbolText, ShortSymbol.padded, text, bare]
  simp only [Bind.bind, Except.bind, rdropWhile_padding noBlank, unpadded]

/-- A message with its length, its type and its time. -/
def stamped (type : UInt8) (nanos : UInt32) (content : Bytes) : Bytes :=
  [UInt8.ofNat (content.length + 6), type] ++
    (LittleEndian.bytes nanos.toNat 4 ++ content)

structure AddFields where
  orderId : UInt64
  sideByte : UInt8
  quantity : UInt16
  symbol : ShortSymbol
  /-- The price in units of a hundred. -/
  cents : UInt16

namespace AddFields

def shortForm (f : AddFields) (nanos : UInt32) (flags : UInt8) : Bytes :=
  stamped 0x22 nanos
    (LittleEndian.bytes f.orderId.toNat 8 ++ ([f.sideByte] ++
      (LittleEndian.bytes f.quantity.toNat 2 ++ (f.symbol.padded 6 ++
        (LittleEndian.bytes f.cents.toNat 2 ++ [flags])))))

def longForm (f : AddFields) (nanos : UInt32) (flags : UInt8) : Bytes :=
  stamped 0x21 nanos
    (LittleEndian.bytes f.orderId.toNat 8 ++ ([f.sideByte] ++
      (LittleEndian.bytes f.quantity.toNat 4 ++ (f.symbol.padded 6 ++
        (LittleEndian.bytes (f.cents.toNat * 100) 8 ++ [flags])))))

/-- An expanded addition ends in five or six bytes that are not read. -/
def expandedForm (f : AddFields) (nanos : UInt32) (tail : Bytes) : Bytes :=
  stamped 0x2f nanos
    (LittleEndian.bytes f.orderId.toNat 8 ++ ([f.sideByte] ++
      (LittleEndian.bytes f.quantity.toNat 4 ++ (f.symbol.padded 8 ++
        (LittleEndian.bytes (f.cents.toNat * 100) 8 ++ tail)))))

/-- The event of an addition. -/
def event (f : AddFields) (e : Event) : Except Fault Event := do
  let orderSide ← side f.sideByte
  let name ← symbolText f.symbol.name
  .ok
    { e with
      type := .add
      orderId := f.orderId.toNat
      side := orderSide
      quantity := f.quantity.toNat
      symbol := name
      price := f.cents.toNat * 100 }

end AddFields

structure ReduceFields where
  orderId : UInt64
  quantity : UInt16

namespace ReduceFields

def shortForm (f : ReduceFields) (nanos : UInt32) : Bytes :=
  stamped 0x26 nanos
    (LittleEndian.bytes f.orderId.toNat 8 ++
      LittleEndian.bytes f.quantity.toNat 2)

def longForm (f : ReduceFields) (nanos : UInt32) : Bytes :=
  stamped 0x25 nanos
    (LittleEndian.bytes f.orderId.toNat 8 ++
      LittleEndian.bytes f.quantity.toNat 4)

/-- The event of a reduction. -/
def event (f : ReduceFields) (e : Event) : Event :=
  { e with
    type := .reduce
    orderId := f.orderId.toNat
    quantity := f.quantity.toNat }

end ReduceFields

structure ModifyFields where
  orderId : UInt64
  quantity : UInt16
  /-- The price in units of a hundred. -/
  cents : UInt16
  flags : UInt8

namespace ModifyFields

def shortForm (f : ModifyFields) (nanos : UInt32) : Bytes :=
  stamped 0x28 nanos
    (LittleEndian.bytes f.orderId.toNat 8 ++
      (LittleEndian.bytes f.quantity.toNat 2 ++
        (LittleEndian.bytes f.cents.toNat 2 ++ [f.flags])))

def longForm (f : ModifyFields) (nanos : UInt32) : Bytes :=
  stamped 0x27 nanos
    (LittleEndian.bytes f.orderId.toNat 8 ++
      (LittleEndian.bytes f.quantity.toNat 4 ++
        (LittleEndian.bytes (f.cents.toNat * 100) 8 ++ [f.flags])))

/-- The event of a modification. -/
def event (f : ModifyFields) (e : Event) : Event :=
  { e with
    type := .replace
    orderId := f.orderId.toNat
    newOrderId := f.orderId.toNat
    quantity := f.quantity.toNat
    price := f.cents.toNat * 100
    maintainPriority := decide (f.flags &&& 2 ≠ 0) }

end ModifyFields

structure TradeFields where
  orderId : UInt64
  sideByte : UInt8
  quantity : UInt16
  symbol : ShortSymbol
  /-- The price in units of a hundred. -/
  cents : UInt16
  matchId : UInt64

namespace TradeFields

def shortForm (f : TradeFields) (nanos : UInt32) : Bytes :=
  stamped 0x2b nanos
    (LittleEndian.bytes f.orderId.toNat 8 ++ ([f.sideByte] ++
      (LittleEndian.bytes f.quantity.toNat 2 ++ (f.symbol.padded 6 ++
        (LittleEndian.bytes f.cents.toNat 2 ++
          LittleEndian.bytes f.matchId.toNat 8)))))

def longForm (f : TradeFields) (nanos : UInt32) : Bytes :=
  stamped 0x2a nanos
    (LittleEndian.bytes f.orderId.toNat 8 ++ ([f.sideByte] ++
      (LittleEndian.bytes f.quantity.toNat 4 ++ (f.symbol.padded 6 ++
        (LittleEndian.bytes (f.cents.toNat * 100) 8 ++
          LittleEndian.bytes f.matchId.toNat 8)))))

def expandedForm (f : TradeFields) (nanos : UInt32) : Bytes :=
  stamped 0x30 nanos
    (LittleEndian.bytes f.orderId.toNat 8 ++ ([f.sideByte] ++
      (LittleEndian.bytes f.quantity.toNat 4 ++ (f.symbol.padded 8 ++
        (LittleEndian.bytes (f.cents.toNat * 100) 8 ++
          LittleEndian.bytes f.matchId.toNat 8)))))

/-- The event of a trade; whose order it was is not read. -/
def event (f : TradeFields) (e : Event) : Except Fault Event := do
  let name ← symbolText f.symbol.name
  .ok
    { e with
      type := .trade
      quantity := f.quantity.toNat
      symbol := name
      price := f.cents.toNat * 100
      matchId := f.matchId.toNat }

end TradeFields

/-! ## Reading a layout -/

variable {chunk rest : Bytes} {pos size : Nat} {e : Event} {nanos : UInt32}

/-- A field behind a chunk is a field of the rest. -/
theorem field_skip (before : chunk.length ≤ pos) :
    field (chunk ++ rest) pos size = field rest (pos - chunk.length) size := by
  rw [field, field, List.drop_append, List.drop_eq_nil_of_le before,
    List.nil_append]

/-- A field behind a byte is a field of the rest. -/
theorem field_cons (byte : UInt8) (inside : 0 < pos) :
    field (byte :: rest) pos size = field rest (pos - 1) size := by
  have skip := @field_skip [byte] rest pos size inside
  simpa using skip

/-- The field at the beginning is the chunk there. -/
theorem field_here (exact : chunk.length = size) :
    field (chunk ++ rest) 0 size = chunk := by
  rw [field, List.drop_zero, ← exact, List.take_left]

/-- The field that is the whole chunk. -/
theorem field_last (exact : chunk.length = size) :
    field chunk 0 size = chunk := by
  rw [field, List.drop_zero, ← exact, List.take_length]

/-- Words are read back from their little-endian bytes. -/
theorem number_word16 (n : UInt16) {count : Nat} (wide : 2 ≤ count) :
    LittleEndian.number (LittleEndian.bytes n.toNat count) = n.toNat :=
  LittleEndian.number_bytes_of_lt
    (n.toNat_lt.trans_le (Nat.pow_le_pow_right (n := 256) (by decide) wide))

/-- Four bytes are read back. -/
theorem number_word32 (n : UInt32) :
    LittleEndian.number (LittleEndian.bytes n.toNat 4) = n.toNat :=
  LittleEndian.number_bytes_of_lt n.toNat_lt

/-- Eight bytes are read back. -/
theorem number_word64 (n : UInt64) :
    LittleEndian.number (LittleEndian.bytes n.toNat 8) = n.toNat :=
  LittleEndian.number_bytes_of_lt n.toNat_lt

/-- A short price is in cents, and a long one has two more digits. -/
theorem number_cents (n : UInt16) :
    LittleEndian.number (LittleEndian.bytes (n.toNat * 100) 8) =
      n.toNat * 100 := by
  have small := n.toNat_lt
  exact LittleEndian.number_bytes_of_lt (by lia)

namespace AddFields

variable (f : AddFields)

/-- The short form of an add. -/
theorem decodes_shortForm (flags : UInt8) :
    decodeBody (f.shortForm nanos flags) 0x22 e = f.event e := by
  have size : addSized (f.shortForm nanos flags) 0x22 = .ok () := by
    rw [addSized_ok]
    simp [shortForm, stamped]
  refine (decodeAdd_eq size).trans ?_
  simp (disch := simp) [shortForm, stamped, value, price, field_skip,
    field_cons, field_here, number_word16, number_word64, symbolText_padded,
    event]

/-- The long form of an add. -/
theorem decodes_longForm (flags : UInt8) :
    decodeBody (f.longForm nanos flags) 0x21 e = f.event e := by
  have size : addSized (f.longForm nanos flags) 0x21 = .ok () := by
    rw [addSized_ok]
    simp [longForm, stamped]
  refine (decodeAdd_eq size).trans ?_
  simp (disch := simp) [longForm, stamped, value, price, field_skip,
    field_cons, field_here, number_word16, number_word64, number_cents,
    symbolText_padded, event]

/-- The expanded form of an add; its last bytes are not read. -/
theorem decodes_expandedForm
    {tail : Bytes} (unread : tail.length = 5 ∨ tail.length = 6) :
    decodeBody (f.expandedForm nanos tail) 0x2f e = f.event e := by
  have size : addSized (f.expandedForm nanos tail) 0x2f = .ok () := by
    rw [addSized_ok]
    simp [expandedForm, stamped]
    lia
  refine (decodeAdd_eq size).trans ?_
  simp (disch := simp) [expandedForm, stamped, value, price, field_skip,
    field_cons, field_here, List.getElem?_append_right, number_word16,
    number_word64, number_cents, symbolText_padded, event]

end AddFields

namespace ReduceFields

variable (f : ReduceFields)

/-- The short form of a reduction. -/
theorem decodes_shortForm :
    decodeBody (f.shortForm nanos) 0x26 e = .ok (f.event e) := by
  refine (decodeReduce_eq (by simp [shortForm, stamped])).trans ?_
  simp (disch := simp) [shortForm, stamped, value, field_skip, field_cons,
    field_here, field_last, number_word16, number_word64, event]

/-- The long form of a reduction. -/
theorem decodes_longForm :
    decodeBody (f.longForm nanos) 0x25 e = .ok (f.event e) := by
  refine (decodeReduce_eq (by simp [longForm, stamped])).trans ?_
  simp (disch := simp) [longForm, stamped, value, field_skip, field_cons,
    field_here, field_last, number_word16, number_word64, event]

end ReduceFields

namespace ModifyFields

variable (f : ModifyFields)

/-- The short form of a modification. -/
theorem decodes_shortForm :
    decodeBody (f.shortForm nanos) 0x28 e = .ok (f.event e) := by
  refine (decodeReplace_eq (by simp [shortForm, stamped])).trans ?_
  simp (disch := simp) [shortForm, stamped, value, price, field_skip,
    field_cons, field_here, number_word16, number_word64, event]

/-- The long form of a modification. -/
theorem decodes_longForm :
    decodeBody (f.longForm nanos) 0x27 e = .ok (f.event e) := by
  refine (decodeReplace_eq (by simp [longForm, stamped])).trans ?_
  simp (disch := simp) [longForm, stamped, value, price, field_skip,
    field_cons, field_here, number_word16, number_word64, number_cents, event]

end ModifyFields

namespace TradeFields

variable (f : TradeFields)

/-- The short form of a trade. -/
theorem decodes_shortForm :
    decodeBody (f.shortForm nanos) 0x2b e = f.event e := by
  refine (decodeTrade_eq (by simp [shortForm, stamped])).trans ?_
  simp (disch := simp) [shortForm, stamped, value, price, field_skip,
    field_cons, field_here, field_last, number_word16, number_word64,
    symbolText_padded, event]

/-- The long form of a trade. -/
theorem decodes_longForm :
    decodeBody (f.longForm nanos) 0x2a e = f.event e := by
  refine (decodeTrade_eq (by simp [longForm, stamped])).trans ?_
  simp (disch := simp) [longForm, stamped, value, price, field_skip,
    field_cons, field_here, field_last, number_word16, number_word64,
    number_cents, symbolText_padded, event]

/-- The expanded form of a trade. -/
theorem decodes_expandedForm :
    decodeBody (f.expandedForm nanos) 0x30 e = f.event e := by
  refine (decodeTrade_eq (by simp [expandedForm, stamped])).trans ?_
  simp (disch := simp) [expandedForm, stamped, value, price, field_skip,
    field_cons, field_here, field_last, number_word16, number_word64,
    number_cents, symbolText_padded, event]

end TradeFields

/-! ## Messages -/

variable {m other content : Bytes} {type channel : UInt8} {sequence : Nat}
  {state : PitchUnit}

/-- The header of a message that is not a time. -/
theorem decodeMessage_stamped (notTime : type ≠ 0x20) :
    decodeMessage channel sequence (stamped type nanos content) state = (do
      require state.timed "PITCH message precedes Time"
      require (nanos.toNat < 1000000000) "Invalid PITCH nanosecond offset"
      let decoded ← decodeBody (stamped type nanos content) type
        { channel := channel.toNat
          sequence := sequence
          timestampNs := state.seconds * 1000000000 + nanos.toNat }
      .ok
        ({ state with ended := state.ended || decide (type = 0x2d) },
          decoded)) := by
  have typeRead : byteAt (stamped type nanos content) 1 = .ok type := rfl
  have nanosRead : number (stamped type nanos content) 2 4 =
      .ok nanos.toNat := by
    refine (number_inside (by decide) (by simp [stamped])).trans ?_
    simp (disch := simp) [stamped, value, field_cons, field_here,
      number_word32]
  rw [decodeMessage, typeRead]
  simp only [Except.bind, Bind.bind, if_neg notTime, nanosRead]

/-- A message of a byte length is a tile. -/
theorem tile_stamped (short : content.length + 6 < 256) :
    Tile (stamped type nanos content) := by
  refine ⟨by simp [stamped], ?_⟩
  simp [stamped]
  lia

/-- A short message and another form of it. -/
inductive Widens : Bytes → Bytes → Prop where
  | addLong (f : AddFields) (nanos : UInt32) (flags otherFlags : UInt8) :
      Widens (f.shortForm nanos flags) (f.longForm nanos otherFlags)
  | addExpanded (f : AddFields) (nanos : UInt32) (flags : UInt8)
      (tail : Bytes) (unread : tail.length = 5 ∨ tail.length = 6) :
      Widens (f.shortForm nanos flags) (f.expandedForm nanos tail)
  | reduce (f : ReduceFields) (nanos : UInt32) :
      Widens (f.shortForm nanos) (f.longForm nanos)
  | modify (f : ModifyFields) (nanos : UInt32) :
      Widens (f.shortForm nanos) (f.longForm nanos)
  | tradeLong (f : TradeFields) (nanos : UInt32) :
      Widens (f.shortForm nanos) (f.longForm nanos)
  | tradeExpanded (f : TradeFields) (nanos : UInt32) :
      Widens (f.shortForm nanos) (f.expandedForm nanos)

namespace Widens

/-- Two messages with one time that have one meaning. -/
theorem decodes_same
    {otherType : UInt8} {otherContent : Bytes}
    (notTime : type ≠ 0x20 ∧ otherType ≠ 0x20)
    (noEnd : type ≠ 0x2d ∧ otherType ≠ 0x2d)
    (same : ∀ e, decodeBody (stamped type nanos content) type e =
      decodeBody (stamped otherType nanos otherContent) otherType e) :
    decodeMessage channel sequence (stamped type nanos content) state =
      decodeMessage channel sequence (stamped otherType nanos otherContent)
        state := by
  rw [decodeMessage_stamped notTime.1, decodeMessage_stamped notTime.2,
    decide_eq_false noEnd.1, decide_eq_false noEnd.2]
  simp only [same]

/-- A message and its wider form are decoded alike. -/
theorem decodes (widens : Widens m other) :
    decodeMessage channel sequence m state =
      decodeMessage channel sequence other state := by
  cases widens with
  | addLong f nanos flags otherFlags =>
      exact decodes_same (by decide) (by decide) fun _ =>
        (f.decodes_shortForm flags).trans (f.decodes_longForm otherFlags).symm
  | addExpanded f nanos flags tail unread =>
      exact decodes_same (by decide) (by decide) fun _ =>
        (f.decodes_shortForm flags).trans (f.decodes_expandedForm unread).symm
  | reduce f nanos =>
      exact decodes_same (by decide) (by decide) fun _ =>
        f.decodes_shortForm.trans f.decodes_longForm.symm
  | modify f nanos =>
      exact decodes_same (by decide) (by decide) fun _ =>
        f.decodes_shortForm.trans f.decodes_longForm.symm
  | tradeLong f nanos =>
      exact decodes_same (by decide) (by decide) fun _ =>
        f.decodes_shortForm.trans f.decodes_longForm.symm
  | tradeExpanded f nanos =>
      exact decodes_same (by decide) (by decide) fun _ =>
        f.decodes_shortForm.trans f.decodes_expandedForm.symm

/-- Both of them are tiles, so that a packet is cut between them. -/
theorem tiles (widens : Widens m other) : Tile m ∧ Tile other := by
  cases widens with
  | addExpanded f nanos flags tail unread =>
      exact ⟨tile_stamped (by simp), tile_stamped (by simp; lia)⟩
  | _ => exact ⟨tile_stamped (by simp), tile_stamped (by simp)⟩

/-- A wider form is no shorter. -/
theorem length_le (widens : Widens m other) : m.length ≤ other.length := by
  cases widens with
  | addExpanded f nanos flags tail unread =>
      simp [AddFields.shortForm, AddFields.expandedForm, stamped]
      lia
  | addLong => simp [AddFields.shortForm, AddFields.longForm, stamped]
  | reduce => simp [ReduceFields.shortForm, ReduceFields.longForm, stamped]
  | modify => simp [ModifyFields.shortForm, ModifyFields.longForm, stamped]
  | tradeLong => simp [TradeFields.shortForm, TradeFields.longForm, stamped]
  | tradeExpanded =>
      simp [TradeFields.shortForm, TradeFields.expandedForm, stamped]

end Widens

/-- A message that is kept or takes another form. -/
inductive Replaced : Bytes → Bytes → Prop where
  | kept {m : Bytes} (tile : Tile m) : Replaced m m
  | widened {m other : Bytes} (widens : Widens m other) : Replaced m other

namespace Replaced

/-- A message and the one in its place are tiles. -/
theorem tiles (replaced : Replaced m other) : Tile m ∧ Tile other := by
  cases replaced with
  | kept tile => exact ⟨tile, tile⟩
  | widened widens => exact widens.tiles

/-- A message that may be replaced is decoded as the one in its place. -/
theorem decodes (replaced : Replaced m other) :
    decodeMessage channel sequence m state =
      decodeMessage channel sequence other state := by
  cases replaced with
  | kept => rfl
  | widened widens => exact widens.decodes

/-- No message becomes shorter by a replacement. -/
theorem length_le (replaced : Replaced m other) :
    m.length ≤ other.length := by
  cases replaced with
  | kept => exact Nat.le_refl _
  | widened widens => exact widens.length_le

end Replaced

/-! ## The loop over a packet -/

/-- An iteration, as far as it goes by the bytes ahead and not by the offset. -/
def readAhead (channel : UInt8) (sequence : Nat) (state : PitchUnit)
    (ahead : Bytes) : Except Fault ((PitchUnit × Event) × Nat) := do
  require (state.ended = false) "PITCH message follows End of Session"
  require (2 ≤ ahead.length) "Truncated PITCH message header"
  let length ← byteAt ahead 0
  require (6 ≤ length.toNat ∧ length.toNat ≤ ahead.length)
    "Invalid PITCH message length"
  let result ← decodeMessage channel sequence (ahead.take length.toNat) state
  .ok (result, length.toNat)

/-- A step of the walk depends on the bytes ahead of it. -/
theorem walkMessage_ahead
    {p : Bytes} {walk : Walk} {index : Nat}
    (inside : walk.offset ≤ p.length) :
    walkMessage p channel sequence walk index =
      readAhead channel (sequence + index) walk.state
        (p.drop walk.offset) >>= fun result =>
          .ok ⟨result.1.1, walk.offset + result.2,
            walk.events ++ [result.1.2]⟩ := by
  have header : decide (walk.offset + 2 ≤ p.length) =
      decide (2 ≤ (p.drop walk.offset).length) := by
    rw [List.length_drop]
    exact decide_eq_decide.mpr (by lia)
  have first : byteAt p walk.offset = byteAt (p.drop walk.offset) 0 := by
    simp [byteAt]
  have split (length : Nat) (bounded : length ≤ p.length - walk.offset) :
      subspan p walk.offset length =
        .ok ((p.drop walk.offset).take length) := by
    rw [subspan, if_pos (by lia)]
  rw [walkMessage, readAhead, header, first, List.length_drop]
  simp only [bind_assoc]
  congr 1
  funext _
  congr 1
  funext _
  congr 1
  funext length
  by_cases bounded : 6 ≤ length.toNat ∧ length.toNat ≤ p.length - walk.offset
  · rw [split _ bounded.2]
    rfl
  · rw [decide_eq_false bounded]
    rfl

/-- A message that is laid out ahead is the one that is read. -/
theorem readAhead_tile
    {after : Bytes} (tile : Tile m) :
    readAhead channel sequence state (m ++ after) = (do
      require (state.ended = false) "PITCH message follows End of Session"
      let result ← decodeMessage channel sequence m state
      .ok (result, m.length)) := by
  obtain ⟨long, size⟩ := tile
  cases m with
  | nil => simp at long
  | cons length body =>
      simp only [List.head?_cons, Option.map_some, Option.some.injEq] at size
      have first : byteAt (length :: body ++ after) 0 = .ok length := rfl
      have header : 2 ≤ (length :: body ++ after).length := by
        rw [List.length_append]
        lia
      have bounded : 6 ≤ (length :: body).length ∧
          (length :: body).length ≤ (length :: body ++ after).length := by
        rw [List.length_append]
        lia
      rw [readAhead, first, decide_eq_true header]
      congr 1
      funext _
      simp only [require, if_true, Bind.bind, Except.bind, size,
        decide_eq_true bounded, List.take_left]

/-- The bytes ahead in two packets that differ in the forms of messages. -/
def Alike (ahead otherAhead : Bytes) : Prop :=
  ∃ pieces others after, List.Forall₂ Replaced pieces others ∧
    ahead = pieces.flatten ++ after ∧ otherAhead = others.flatten ++ after

/-- A body is alike to itself. -/
theorem Alike.refl (ahead : Bytes) : Alike ahead ahead :=
  ⟨[], [], ahead, .nil, rfl, rfl⟩

/-- Both packets have been read to their end, or neither has. -/
theorem Alike.nil_iff
    {ahead otherAhead : Bytes} (alike : Alike ahead otherAhead) :
    ahead = [] ↔ otherAhead = [] := by
  obtain ⟨pieces, others, after, replaced, rfl, rfl⟩ := alike
  cases replaced with
  | nil => rfl
  | cons first rest =>
      obtain ⟨⟨long, _⟩, otherLong, _⟩ := first.tiles
      constructor
      · intro empty
        have none := congrArg List.length empty
        simp at none
        simp [none] at long
      · intro empty
        have none := congrArg List.length empty
        simp at none
        simp [none] at otherLong

open TwoRuns

/-- The next messages ahead are read alike, and what follows is alike. -/
theorem Alike.readAhead
    {ahead otherAhead : Bytes} (alike : Alike ahead otherAhead) :
    Both (fun first second => first.1 = second.1 ∧
        first.2 ≤ ahead.length ∧ second.2 ≤ otherAhead.length ∧
        Alike (ahead.drop first.2) (otherAhead.drop second.2))
      (readAhead channel sequence state ahead)
      (readAhead channel sequence state otherAhead) := by
  obtain ⟨pieces, others, after, replaced, rfl, rfl⟩ := alike
  cases replaced with
  | nil =>
      refine Both.bindSame _ fun _ => Both.bindSame _ fun _ =>
        Both.bindSame _ fun length => ?_
      by_cases bounded : 6 ≤ length.toNat ∧
          length.toNat ≤ (([] : List Bytes).flatten ++ after).length
      · rw [decide_eq_true bounded]
        exact Both.bindSame _ fun _ => Both.bindSame _ fun _ =>
          .ok ⟨rfl, bounded.2, bounded.2, .refl _⟩
      · rw [decide_eq_false bounded]
        exact .error
  | @cons m other pieces others first rest =>
      rw [List.flatten_cons, List.flatten_cons, List.append_assoc,
        List.append_assoc, readAhead_tile first.tiles.1,
        readAhead_tile first.tiles.2, first.decodes]
      refine Both.bindSame _ fun _ => Both.bindSame _ fun _ =>
        .ok ⟨rfl, by simp, by simp, ?_⟩
      exact ⟨pieces, others, after, rest, List.drop_left, List.drop_left⟩

/-- Two packets of which the same is left to read, in some form. -/
structure Beside (p q : Bytes) (walk other : Walk) : Prop where
  state : walk.state = other.state
  events : walk.events = other.events
  inside : walk.offset ≤ p.length
  otherInside : other.offset ≤ q.length
  ahead : Alike (p.drop walk.offset) (q.drop other.offset)

/-- Two walks that are beside each other stay so. -/
theorem Beside.step
    {p q : Bytes} {walk other : Walk} (index : Nat)
    (beside : Beside p q walk other) :
    Both (Beside p q) (walkMessage p channel sequence walk index)
      (walkMessage q channel sequence other index) := by
  rw [walkMessage_ahead beside.inside, walkMessage_ahead beside.otherInside,
    beside.state]
  refine Both.bind beside.ahead.readAhead ?_
  rintro first second ⟨sameResult, inside, otherInside, ahead⟩
  rw [List.length_drop] at inside otherInside
  rw [List.drop_drop, List.drop_drop] at ahead
  have here := beside.inside
  have there := beside.otherInside
  refine .ok ⟨?_, ?_, ?_, ?_, ahead⟩
  · rw [sameResult]
  · rw [sameResult, beside.events]
  · dsimp only
    lia
  · dsimp only
    lia

/-- A packet with its header. -/
def packet (count channel : UInt8) (sequence : UInt32) (body : Bytes) :
    Bytes :=
  LittleEndian.bytes (8 + body.length) 2 ++ ([count, channel] ++
    (LittleEndian.bytes sequence.toNat 4 ++ body))

end LimitOrderBook.Feed.Pitch

namespace LimitOrderBook.Feed.PitchDecoder

open Pitch TwoRuns

/-- Bodies that are alike are decoded alike. -/
theorem decodeMessages_alike
    {units : UInt8 → PitchUnit} {p q : Bytes} {channel : UInt8}
    {sequence count : Nat} (long : 8 ≤ p.length) (otherLong : 8 ≤ q.length)
    (alike : Alike (p.drop 8) (q.drop 8)) :
    decodeMessages units p channel sequence count =
      decodeMessages units q channel sequence count := by
  have walks := Both.foldlM (fun walk other index => Beside.step index)
    (f := walkMessage p channel sequence)
    (g := walkMessage q channel sequence) (List.range count)
    (⟨rfl, rfl, long, otherLong, alike⟩ : Beside p q
      ⟨units channel, 8, []⟩ ⟨units channel, 8, []⟩)
  have ends : Both (fun first second => first = second)
      (decodeMessages units p channel sequence count)
      (decodeMessages units q channel sequence count) := by
    refine Both.bindSame _ fun _ => Both.bindSame _ fun _ =>
      Both.bindSame _ fun _ => Both.bind walks ?_
    intro walk other beside
    have whole : walk.offset = p.length ↔ other.offset = q.length := by
      have none := beside.ahead.nil_iff
      have here := beside.inside
      have there := beside.otherInside
      rw [List.drop_eq_nil_iff, List.drop_eq_nil_iff] at none
      lia
    rw [decide_eq_decide.mpr whole, beside.state, beside.events]
    exact Both.bindSame _ fun _ => .ok rfl
  generalize decodeMessages units p channel sequence count = first at ends ⊢
  generalize decodeMessages units q channel sequence count = second at ends ⊢
  cases ends with
  | ok same => rw [same]
  | error => rfl

/-- A packet with its header is a heartbeat or the messages of its body. -/
theorem decodePacket_packet
    (units : UInt8 → PitchUnit) (count channel : UInt8) (sequence : UInt32)
    {body : Bytes} (fits : 8 + body.length < 65536) :
    decodePacket units (packet count channel sequence body) =
      if count = 0 then do
        require
          (body = [] ∧ (sequence.toNat = (units channel).next ∨
            sequence.toNat = 0))
          "PITCH heartbeat sequence gap"
        .ok (units, [])
      else
        decodeMessages units (packet count channel sequence body) channel
          sequence.toNat count.toNat := by
  have length : (packet count channel sequence body).length =
      8 + body.length := by
    simp [packet]
    lia
  have isSize : integer (packet count channel sequence body) 0 2 true =
      .ok (packet count channel sequence body).length := by
    refine (number_inside (by decide) (by lia)).trans ?_
    rw [length, value, packet, field_here (by simp),
      LittleEndian.number_bytes_of_lt fits]
  have isSequence : integer (packet count channel sequence body) 4 4 true =
      .ok sequence.toNat := by
    refine (number_inside (by decide) (by lia)).trans ?_
    simp (disch := simp) [value, packet, field_skip, field_cons, field_here,
      number_word32]
  have isCount : byteAt (packet count channel sequence body) 2 =
      .ok count := rfl
  have isChannel : byteAt (packet count channel sequence body) 3 =
      .ok channel := rfl
  have long : 8 ≤ 8 + body.length := Nat.le_add_right _ _
  have noBody : 8 + body.length = 8 ↔ body = [] := by
    rw [Nat.add_eq_left, List.length_eq_zero_iff]
  rw [decodePacket, isSize, isSequence, isCount, isChannel, length]
  simp only [require, Bind.bind, Except.bind, decide_eq_true long, noBody,
    decide_true, if_true]

/-- Packets with bodies that are alike are decoded alike. -/
theorem decode_alike
    (decoder : PitchDecoder) (count channel : UInt8) (sequence : UInt32)
    {body otherBody : Bytes} (fits : 8 + body.length < 65536)
    (otherFits : 8 + otherBody.length < 65536)
    (alike : Alike body otherBody) :
    decoder.decode (packet count channel sequence body) =
      decoder.decode (packet count channel sequence otherBody) := by
  have long (body : Bytes) :
      8 ≤ (packet count channel sequence body).length := by
    simp [packet]
    lia
  have dropped (body : Bytes) :
      (packet count channel sequence body).drop 8 = body := rfl
  have messages :
      decodeMessages decoder.units (packet count channel sequence body) channel
          sequence.toNat count.toNat =
        decodeMessages decoder.units
          (packet count channel sequence otherBody) channel sequence.toNat
          count.toNat := by
    refine decodeMessages_alike (long body) (long otherBody) ?_
    rw [dropped, dropped]
    exact alike
  have same : decodePacket decoder.units (packet count channel sequence body) =
      decodePacket decoder.units
        (packet count channel sequence otherBody) := by
    rw [decodePacket_packet _ _ _ _ fits, decodePacket_packet _ _ _ _ otherFits,
      messages]
    simp only [alike.nil_iff]
  rw [decode, decode, same]

/-- A body does not become shorter by replacements. -/
theorem length_le_of_replaced
    {pieces others : List Bytes}
    (replaced : List.Forall₂ Replaced pieces others) :
    pieces.flatten.length ≤ others.flatten.length := by
  induction replaced with
  | nil => exact Nat.le_refl _
  | cons first rest inductionHypothesis =>
      have here := first.length_le
      rw [List.flatten_cons, List.flatten_cons, List.length_append,
        List.length_append]
      lia

/--
A packet means the same when some of its short messages take another form, and
every number of an event is the little-endian value of its field.
-/
theorem forms_agree
    (decoder : PitchDecoder) :
    (∀ (count channel : UInt8) (sequence : UInt32)
        (pieces others : List Bytes) (after : Bytes),
      List.Forall₂ Replaced pieces others →
      8 + (others.flatten ++ after).length < 65536 →
      decoder.decode
          (packet count channel sequence (pieces.flatten ++ after)) =
        decoder.decode
          (packet count channel sequence (others.flatten ++ after))) ∧
      ∀ p events, (decoder.decode p).2 = .ok events →
        ReadsPacket decoder.units p events := by
  refine ⟨?_, fun p events => decode_reads⟩
  intro count channel sequence pieces others after replaced fits
  have shorter := length_le_of_replaced replaced
  rw [List.length_append] at fits
  refine decoder.decode_alike count channel sequence ?_ ?_
    ⟨pieces, others, after, replaced, rfl, rfl⟩
  · rw [List.length_append]
    lia
  · rw [List.length_append]
    exact fits

/-- An addition whose price is twelve thousand and odd hundreds. -/
def sampleAdd : AddFields where
  orderId := 42
  sideByte := 66
  quantity := 100
  symbol := ⟨[65, 65, 80, 76], by decide, by simp⟩
  cents := 12345

/-- A Time message for ten in the morning. -/
def sampleTime : Bytes :=
  [6, 0x20, 160, 140, 0, 0]

/-- A time and an add, the latter in two of its forms. -/
theorem forms_agree_sample :
    decode {} (packet 2 1 1
        ([sampleTime, sampleAdd.shortForm 123456789 0].flatten ++ [])) =
      decode {} (packet 2 1 1
        ([sampleTime,
          sampleAdd.expandedForm 123456789 [0, 0, 0, 0, 0]].flatten ++ [])) ∧
      ReadsPacket (fun _ => {})
        (packet 2 1 1
          (sampleTime ++ sampleAdd.shortForm 123456789 0))
        [{ channel := 1, sequence := 1, timestampNs := 36000000000000 },
          { type := .add, channel := 1, sequence := 2
            timestampNs := 36000123456789, symbol := [65, 65, 80, 76]
            orderId := 42, side := .bid, price := 1234500
            quantity := 100 }] :=
  ⟨(forms_agree {}).1 2 1 1 _ _ []
      (.cons (.kept ⟨by decide, by decide⟩)
        (.cons (.widened (.addExpanded sampleAdd _ _ _ (.inl rfl))) .nil))
      (by decide),
    (forms_agree {}).2 _ _ (by rfl)⟩

end LimitOrderBook.Feed.PitchDecoder
