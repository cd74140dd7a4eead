import LimitOrderBook.ByteFields
import LimitOrderBook.Messages

namespace LimitOrderBook

/-!
# Messages on the wire

The model of `trading/messages.cpp`: every message is a frame of fixed size,
with numbers in big-endian bytes at fixed positions.
-/

def frameSize : Nat := 96

abbrev Frame := Vector UInt8 frameSize

namespace Frame

/-- `b[at]`; all positions below are inside a frame. -/
def byte (b : Frame) (position : Nat) : UInt8 :=
  b[position]?.getD 0

/-- `b[at] = value`. -/
def write (b : Frame) (position : Nat) (value : UInt8) : Frame :=
  b.setIfInBounds position value

/-- `put`: the last byte first. -/
def put (b : Frame) (position value : Nat) : Nat → Frame
  | 0 => b
  | count + 1 =>
      put (b.write (position + count) (UInt8.ofNat (value % 256))) position
        (value / 256) count

/-- `get`; eight bytes at most, so that no bit is shifted out. -/
def get (b : Frame) (position count : Nat) : Nat :=
  (List.range count).foldl
    (fun value i => value * 256 + (b.byte (position + i)).toNat) 0

/-- The bytes that `get` reads. -/
def slice (b : Frame) (position count : Nat) : List UInt8 :=
  (List.range count).map fun i => b.byte (position + i)

variable {b : Frame} {position other value count otherCount : Nat}
  {raw : UInt8}

/-- `put` writes a number field of the frame. -/
theorem put_eq (b : Frame) (position value count : Nat) :
    b.put position value count =
      ByteFields.putNumber b position value count := by
  induction count generalizing b value with
  | zero => rfl
  | succ count inductionHypothesis =>
      exact inductionHypothesis
        (b.write (position + count) (UInt8.ofNat (value % 256))) (value / 256)

/-- A byte that was written is read back. -/
theorem byte_write_same (inside : position < frameSize) :
    (b.write position raw).byte position = raw :=
  ByteFields.byteAt_setByte_same inside

/-- Writing a byte changes no other. -/
theorem byte_write_other (different : position ≠ other) :
    (b.write position raw).byte other = b.byte other :=
  ByteFields.byteAt_setByte_other different

/-- Writing a number changes its own bytes only. -/
theorem byte_put_other
    (outside : other < position ∨ position + count ≤ other) :
    (b.put position value count).byte other = b.byte other := by
  rw [put_eq]
  exact ByteFields.byteAt_putNumber_other outside

/-- A number that was written is read back, up to its width. -/
theorem get_put_same
    (inside : position + count ≤ frameSize) :
    (b.put position value count).get position count =
      value % 256 ^ count := by
  rw [put_eq]
  exact ByteFields.getNumber_putNumber_same inside

/-- Numbers in different places do not meet. -/
theorem get_put_other
    (apart : other + otherCount ≤ position ∨ position + count ≤ other) :
    (b.put position value count).get other otherCount =
      b.get other otherCount := by
  rw [put_eq]
  exact ByteFields.getNumber_putNumber_other apart

/-- A byte outside a number does not change it. -/
theorem get_write_other
    (apart : position < other ∨ other + otherCount ≤ position) :
    (b.write position raw).get other otherCount = b.get other otherCount :=
  ByteFields.getNumber_setByte_other apart

/-- So many bytes bound a number. -/
theorem get_lt (b : Frame) (position count : Nat) :
    b.get position count < 256 ^ count :=
  ByteFields.getNumber_lt b position count

/-- Frames with the same number have the same bytes there. -/
theorem byte_eq_of_get
    {first second : Frame}
    (same : first.get position count = second.get position count)
    (here : position ≤ other ∧ other < position + count) :
    first.byte other = second.byte other :=
  ByteFields.byteAt_eq_of_getNumber same here

/-- Frames with the same bytes are the same. -/
theorem ext_byte
    {first second : Frame}
    (same : ∀ position < frameSize,
      first.byte position = second.byte position) : first = second :=
  ByteFields.ext_byteAt same

end Frame

/-! ## Enumerations -/

/-- A cast of a byte to an enumeration, for the bytes of its list. -/
def castOf {κ : Type} (listed : List κ) (toByte : κ → UInt8) (raw : UInt8) :
    Option κ :=
  listed.find? fun value => decide (toByte value = raw)

/-- A listed value is read back from its byte. -/
theorem castOf_toByte
    {κ : Type} {listed : List κ} {toByte : κ → UInt8}
    (apart : listed.Pairwise fun first second =>
      toByte first ≠ toByte second)
    {value : κ} (member : value ∈ listed) :
    castOf listed toByte (toByte value) = some value := by
  unfold castOf
  induction apart with
  | nil => cases member
  | @cons first rest earlier _ inductionHypothesis =>
      rcases List.mem_cons.mp member with rfl | later
      · simp
      · have different := earlier value later
        rw [List.find?_cons_of_neg (by simpa using different)]
        exact inductionHypothesis later

/-- What is read from a byte has this byte. -/
theorem toByte_castOf
    {κ : Type} {listed : List κ} {toByte : κ → UInt8} {raw : UInt8}
    {value : κ} (isCast : castOf listed toByte raw = some value) :
    value ∈ listed ∧ toByte value = raw :=
  ⟨List.mem_of_find?_eq_some isCast, by
    have found := List.find?_some (show listed.find? _ = some value from isCast)
    exact of_decide_eq_true found⟩

def Kind.listed : List Kind :=
  [.command, .report, .delta, .heartbeat, .snapshotBegin, .snapshotOrder,
    .snapshotEnd]

def Kind.toByte : Kind → UInt8
  | .command => 1
  | .report => 2
  | .delta => 3
  | .heartbeat => 4
  | .snapshotBegin => 5
  | .snapshotOrder => 6
  | .snapshotEnd => 7
  | .unlisted raw _ => raw

def Action.listed : List Action :=
  [.new, .cancel, .replace, .cancelAll, .snapshot, .status]

def Action.toByte : Action → UInt8
  | .new => 1
  | .cancel => 2
  | .replace => 3
  | .cancelAll => 4
  | .snapshot => 5
  | .status => 6
  | .unlisted raw _ => raw

def OrderType.listed : List OrderType :=
  [.limit, .market]

def OrderType.toByte : OrderType → UInt8
  | .limit => 1
  | .market => 2
  | .unlisted raw _ => raw

def TimeInForce.listed : List TimeInForce :=
  [.gtc, .ioc, .fok]

def TimeInForce.toByte : TimeInForce → UInt8
  | .gtc => 1
  | .ioc => 2
  | .fok => 3
  | .unlisted raw _ => raw

def ReportType.listed : List ReportType :=
  [.accepted, .rejected, .fill, .cancelled, .replaced, .complete, .status]

def ReportType.toByte : ReportType → UInt8
  | .accepted => 1
  | .rejected => 2
  | .fill => 3
  | .cancelled => 4
  | .replaced => 5
  | .complete => 6
  | .status => 7
  | .unlisted raw _ => raw

def UpdateType.listed : List UpdateType :=
  [.add, .cancel, .execute, .reduce, .trade]

def UpdateType.toByte : UpdateType → UInt8
  | .add => 1
  | .cancel => 2
  | .execute => 3
  | .reduce => 4
  | .trade => 5
  | .unlisted raw _ => raw

def Reject.listed : List Reject :=
  [.none, .invalidCommand, .unknownInstrument, .invalidPrice,
    .invalidQuantity, .duplicateOrder, .unknownOrder, .sequence, .postOnly,
    .fok, .selfTrade, .riskQuantity, .riskNotional, .riskPosition,
    .riskOpenOrders, .capacity, .sessionBusy, .killSwitch]

def Reject.toByte : Reject → UInt8
  | .none => 0
  | .invalidCommand => 1
  | .unknownInstrument => 2
  | .invalidPrice => 3
  | .invalidQuantity => 4
  | .duplicateOrder => 5
  | .unknownOrder => 6
  | .sequence => 7
  | .postOnly => 8
  | .fok => 9
  | .selfTrade => 10
  | .riskQuantity => 11
  | .riskNotional => 12
  | .riskPosition => 13
  | .riskOpenOrders => 14
  | .capacity => 15
  | .sessionBusy => 16
  | .killSwitch => 17
  | .unlisted raw _ => raw

/-- The bytes of a list are those in its range. -/
theorem Kind.outside_iff (kind : Kind) :
    kind.toByte < 1 ∨ 7 < kind.toByte ↔ kind ∉ listed := by
  cases kind with
  | unlisted raw outside =>
      simp [toByte, listed, UInt8.lt_one_iff, outside]
  | _ => simp [toByte, listed]

/-- The range check of the source, for actions. -/
theorem Action.outside_iff (action : Action) :
    action.toByte < 1 ∨ 6 < action.toByte ↔ action ∉ listed := by
  cases action with
  | unlisted raw outside => simp [toByte, listed, UInt8.lt_one_iff, outside]
  | _ => simp [toByte, listed]

/-- For order types. -/
theorem OrderType.outside_iff (orderType : OrderType) :
    orderType.toByte < 1 ∨ 2 < orderType.toByte ↔ orderType ∉ listed := by
  cases orderType with
  | unlisted raw outside => simp [toByte, listed, UInt8.lt_one_iff, outside]
  | _ => simp [toByte, listed]

/-- For times in force. -/
theorem TimeInForce.outside_iff (tif : TimeInForce) :
    tif.toByte < 1 ∨ 3 < tif.toByte ↔ tif ∉ listed := by
  cases tif with
  | unlisted raw outside => simp [toByte, listed, UInt8.lt_one_iff, outside]
  | _ => simp [toByte, listed]

/-- For kinds of reports. -/
theorem ReportType.outside_iff (report : ReportType) :
    report.toByte < 1 ∨ 7 < report.toByte ↔ report ∉ listed := by
  cases report with
  | unlisted raw outside => simp [toByte, listed, UInt8.lt_one_iff, outside]
  | _ => simp [toByte, listed]

/-- For kinds of updates. -/
theorem UpdateType.outside_iff (update : UpdateType) :
    update.toByte < 1 ∨ 5 < update.toByte ↔ update ∉ listed := by
  cases update with
  | unlisted raw outside => simp [toByte, listed, UInt8.lt_one_iff, outside]
  | _ => simp [toByte, listed]

/-- For reasons, which start at zero. -/
theorem Reject.outside_iff (reject : Reject) :
    17 < reject.toByte ↔ reject ∉ listed := by
  cases reject with
  | unlisted raw outside => simp [toByte, listed, outside]
  | _ => simp [toByte, listed]

/-! ## Encoding and decoding -/

/-- The checks of `decode`. -/
def malformed (b : Frame) : Bool :=
  decide (b.get 0 4 ≠ 0x4c545231 ∨ b.byte 4 ≠ 1 ∨
    (b.byte 5 < 1 ∨ 7 < b.byte 5) ∨ (b.byte 6 < 1 ∨ 6 < b.byte 6) ∨
    1 < b.byte 7 ∨ (b.byte 8 < 1 ∨ 2 < b.byte 8) ∨
    (b.byte 9 < 1 ∨ 3 < b.byte 9) ∨ (b.byte 10 < 1 ∨ 7 < b.byte 10) ∨
    17 < b.byte 11 ∨ 1 < b.byte 12 ∨ (b.byte 13 < 1 ∨ 5 < b.byte 13) ∨
    b.byte 14 ≠ 0 ∨ b.byte 15 ≠ 0 ∨
    (List.range' 88 (frameSize - 88)).any fun position => b.byte position ≠ 0)

/-- `decode`; the casts come after the checks and are in range there. -/
def decode (b : Frame) : Option Message :=
  if malformed b then
    none
  else do
    let kind ← castOf Kind.listed Kind.toByte (b.byte 5)
    let action ← castOf Action.listed Action.toByte (b.byte 6)
    let orderType ← castOf OrderType.listed OrderType.toByte (b.byte 8)
    let tif ← castOf TimeInForce.listed TimeInForce.toByte (b.byte 9)
    let report ← castOf ReportType.listed ReportType.toByte (b.byte 10)
    let reject ← castOf Reject.listed Reject.toByte (b.byte 11)
    let update ← castOf UpdateType.listed UpdateType.toByte (b.byte 13)
    some
      { kind := kind
        action := action
        side := if b.byte 7 = 0 then .bid else .ask
        orderType := orderType
        tif := tif
        report := report
        reject := reject
        postOnly := decide (b.byte 12 ≠ 0)
        update := update
        epoch := b.get 16 8
        sequence := b.get 24 8
        clientId := b.get 32 4
        price := b.get 36 4
        requestId := b.get 40 8
        orderId := b.get 48 8
        exchangeId := b.get 56 8
        instrumentId := b.get 64 8
        quantity := b.get 72 4
        remaining := b.get 76 4
        tradeId := b.get 80 8 }

/-- The frame that `encode` fills. -/
def frameOf (m : Message) : Frame :=
  let b : Frame := Vector.replicate frameSize 0
  let b := b.put 0 0x4c545231 4
  let b := b.write 4 1
  let b := b.write 5 m.kind.toByte
  let b := b.write 6 m.action.toByte
  let b := b.write 7 (if m.side = .bid then 0 else 1)
  let b := b.write 8 m.orderType.toByte
  let b := b.write 9 m.tif.toByte
  let b := b.write 10 m.report.toByte
  let b := b.write 11 m.reject.toByte
  let b := b.write 12 (if m.postOnly then 1 else 0)
  let b := b.write 13 m.update.toByte
  let b := b.put 16 m.epoch 8
  let b := b.put 24 m.sequence 8
  let b := b.put 32 m.clientId 4
  let b := b.put 36 m.price 4
  let b := b.put 40 m.requestId 8
  let b := b.put 48 m.orderId 8
  let b := b.put 56 m.exchangeId 8
  let b := b.put 64 m.instrumentId 8
  let b := b.put 72 m.quantity 4
  let b := b.put 76 m.remaining 4
  b.put 80 m.tradeId 8

/-- `encode`. -/
def encode (m : Message) : Except String Frame :=
  if (decode (frameOf m)).isNone ∨ m.side ≠ .bid ∧ m.side ≠ .ask then
    .error "Invalid trading message enum"
  else
    .ok (frameOf m)

/-- The numbers of a message are in the range of their types. -/
structure Message.Fits (m : Message) : Prop where
  epoch : m.epoch < 2 ^ 64
  sequence : m.sequence < 2 ^ 64
  clientId : m.clientId < 2 ^ 32
  price : m.price < 2 ^ 32
  requestId : m.requestId < 2 ^ 64
  orderId : m.orderId < 2 ^ 64
  exchangeId : m.exchangeId < 2 ^ 64
  instrumentId : m.instrumentId < 2 ^ 64
  quantity : m.quantity < 2 ^ 32
  remaining : m.remaining < 2 ^ 32
  tradeId : m.tradeId < 2 ^ 64

/-- The enumerations of a message have values of their lists. -/
structure Message.Listed (m : Message) : Prop where
  kind : m.kind ∈ Kind.listed
  action : m.action ∈ Action.listed
  side : m.side.Listed
  orderType : m.orderType ∈ OrderType.listed
  tif : m.tif ∈ TimeInForce.listed
  report : m.report ∈ ReportType.listed
  reject : m.reject ∈ Reject.listed
  update : m.update ∈ UpdateType.listed

section Frames

variable (m : Message)

/-- The bytes of the head of a frame. -/
theorem frameOf_head :
    (frameOf m).byte 4 = 1 ∧ (frameOf m).byte 5 = m.kind.toByte ∧
      (frameOf m).byte 6 = m.action.toByte ∧
      (frameOf m).byte 7 = (if m.side = .bid then 0 else 1) ∧
      (frameOf m).byte 8 = m.orderType.toByte ∧
      (frameOf m).byte 9 = m.tif.toByte ∧
      (frameOf m).byte 10 = m.report.toByte ∧
      (frameOf m).byte 11 = m.reject.toByte ∧
      (frameOf m).byte 12 = (if m.postOnly then 1 else 0) ∧
      (frameOf m).byte 13 = m.update.toByte := by
  unfold frameOf
  simp (disch := decide) only [Frame.byte_put_other, Frame.byte_write_other,
    Frame.byte_write_same, and_self]

/-- The numbers of a frame. -/
theorem frameOf_numbers (fits : m.Fits) :
    (frameOf m).get 0 4 = 0x4c545231 ∧
      (frameOf m).get 16 8 = m.epoch ∧ (frameOf m).get 24 8 = m.sequence ∧
      (frameOf m).get 32 4 = m.clientId ∧ (frameOf m).get 36 4 = m.price ∧
      (frameOf m).get 40 8 = m.requestId ∧
      (frameOf m).get 48 8 = m.orderId ∧
      (frameOf m).get 56 8 = m.exchangeId ∧
      (frameOf m).get 64 8 = m.instrumentId ∧
      (frameOf m).get 72 4 = m.quantity ∧
      (frameOf m).get 76 4 = m.remaining ∧
      (frameOf m).get 80 8 = m.tradeId := by
  unfold frameOf
  simp (disch := decide) only [Frame.get_put_other, Frame.get_write_other,
    Frame.get_put_same]
  refine ⟨rfl, ?_, ?_, ?_, ?_, ?_, ?_, ?_, ?_, ?_, ?_, ?_⟩
  · exact Nat.mod_eq_of_lt fits.epoch
  · exact Nat.mod_eq_of_lt fits.sequence
  · exact Nat.mod_eq_of_lt fits.clientId
  · exact Nat.mod_eq_of_lt fits.price
  · exact Nat.mod_eq_of_lt fits.requestId
  · exact Nat.mod_eq_of_lt fits.orderId
  · exact Nat.mod_eq_of_lt fits.exchangeId
  · exact Nat.mod_eq_of_lt fits.instrumentId
  · exact Nat.mod_eq_of_lt fits.quantity
  · exact Nat.mod_eq_of_lt fits.remaining
  · exact Nat.mod_eq_of_lt fits.tradeId

/-- What is left of a frame is zero. -/
theorem frameOf_padding
    {position : Nat}
    (isPadding : position = 14 ∨ position = 15 ∨ 88 ≤ position) :
    (frameOf m).byte position = 0 := by
  have blank : Frame.byte (Vector.replicate frameSize 0) position = 0 := by
    rw [Frame.byte, Vector.getElem?_replicate]
    split_ifs <;> rfl
  unfold frameOf
  simp (disch := omega) only [Frame.byte_put_other, Frame.byte_write_other]
  exact blank

/-- The checks pass on a frame when its enumerations are listed. -/
theorem malformed_frameOf (fits : m.Fits) :
    malformed (frameOf m) = false ↔
      m.kind ∈ Kind.listed ∧ m.action ∈ Action.listed ∧
        m.orderType ∈ OrderType.listed ∧ m.tif ∈ TimeInForce.listed ∧
        m.report ∈ ReportType.listed ∧ m.reject ∈ Reject.listed ∧
        m.update ∈ UpdateType.listed := by
  obtain ⟨version, kind, action, side, orderType, tif, report, reject,
    postOnly, update⟩ := frameOf_head m
  obtain ⟨magic, _⟩ := frameOf_numbers m fits
  have sideSmall : ¬ (1 : UInt8) < if m.side = .bid then 0 else 1 := by
    split_ifs <;> decide
  have postOnlySmall : ¬ (1 : UInt8) < if m.postOnly then 1 else 0 := by
    split_ifs <;> decide
  have fourteenth : (frameOf m).byte 14 = 0 := frameOf_padding m (by simp)
  have fifteenth : (frameOf m).byte 15 = 0 := frameOf_padding m (by simp)
  have zeros : ((List.range' 88 (frameSize - 88)).any
      fun position => (frameOf m).byte position ≠ 0) = false := by
    rw [List.any_eq_false]
    intro position member
    have late : 88 ≤ position := (List.mem_range'_1.mp member).1
    simp [frameOf_padding m (Or.inr (Or.inr late))]
  unfold malformed
  rw [decide_eq_false_iff_not, magic, version, kind, action, side, orderType,
    tif, report, reject, postOnly, update, Kind.outside_iff,
    Action.outside_iff, OrderType.outside_iff, TimeInForce.outside_iff,
    ReportType.outside_iff, Reject.outside_iff, UpdateType.outside_iff,
    fourteenth, fifteenth, zeros]
  simp only [ne_eq, not_true_eq_false, sideSmall, postOnlySmall,
    Bool.false_eq_true, false_or, or_false, not_or, not_not]

/-- A message whose enumerations are listed is read back. -/
theorem decode_frameOf (fits : m.Fits) (listed : m.Listed) :
    decode (frameOf m) = some m := by
  have wellFormed := (malformed_frameOf m fits).mpr
    ⟨listed.kind, listed.action, listed.orderType, listed.tif,
      listed.report, listed.reject, listed.update⟩
  obtain ⟨_, kind, action, side, orderType, tif, report, reject, postOnly,
    update⟩ := frameOf_head m
  obtain ⟨_, epoch, sequence, clientId, price, requestId, orderId, exchangeId,
    instrumentId, quantity, remaining, tradeId⟩ := frameOf_numbers m fits
  unfold decode
  rw [wellFormed, kind, action, orderType, tif, report, reject, update,
    castOf_toByte (by decide) listed.kind,
    castOf_toByte (by decide) listed.action,
    castOf_toByte (by decide) listed.orderType,
    castOf_toByte (by decide) listed.tif,
    castOf_toByte (by decide) listed.report,
    castOf_toByte (by decide) listed.reject,
    castOf_toByte (by decide) listed.update, side, postOnly, epoch, sequence,
    clientId, price, requestId, orderId, exchangeId, instrumentId, quantity,
    remaining, tradeId]
  have sameSide : (if (if m.side = .bid then (0 : UInt8) else 1) = 0
      then Side.bid else .ask) = m.side := by
    rcases listed.side with isBid | isAsk
    · simp [isBid]
    · simp [isAsk]
  have samePostOnly :
      decide ((if m.postOnly then (1 : UInt8) else 0) ≠ 0) = m.postOnly := by
    cases m.postOnly <;> decide
  rw [sameSide, samePostOnly]
  rfl

/-- Messages are encoded when their enumerations are listed. -/
theorem encode_iff (fits : m.Fits) {b : Frame} :
    encode m = .ok b ↔ m.Listed ∧ b = frameOf m := by
  unfold encode
  constructor
  · intro encoded
    split_ifs at encoded with invalid
    obtain ⟨isSome, sides⟩ := not_or.mp invalid
    have wellFormed : malformed (frameOf m) = false := by
      by_contra isMalformed
      simp [decode, isMalformed] at isSome
    obtain ⟨kind, action, orderType, tif, report, reject, update⟩ :=
      (malformed_frameOf m fits).mp wellFormed
    have side : m.side.Listed := by
      by_cases isBid : m.side = .bid
      · exact Or.inl isBid
      · exact Or.inr (not_not.mp fun notAsk => sides ⟨isBid, notAsk⟩)
    exact ⟨⟨kind, action, side, orderType, tif, report, reject, update⟩,
      (Except.ok.inj encoded).symm⟩
  · rintro ⟨listed, rfl⟩
    rw [decode_frameOf m fits listed, if_neg]
    rintro (isNone | ⟨notBid, notAsk⟩)
    · cases isNone
    · rcases listed.side with isBid | isAsk
      · exact notBid isBid
      · exact notAsk isAsk

/-- What an accepted frame has in its places. -/
structure Message.ReadFrom (m : Message) (b : Frame) : Prop where
  magic : b.get 0 4 = 0x4c545231
  version : b.byte 4 = 1
  kind : m.kind.toByte = b.byte 5
  action : m.action.toByte = b.byte 6
  side : (if m.side = .bid then 0 else 1) = b.byte 7
  orderType : m.orderType.toByte = b.byte 8
  tif : m.tif.toByte = b.byte 9
  report : m.report.toByte = b.byte 10
  reject : m.reject.toByte = b.byte 11
  postOnly : (if m.postOnly then 1 else 0) = b.byte 12
  update : m.update.toByte = b.byte 13
  padding : ∀ position < frameSize,
    position = 14 ∨ position = 15 ∨ 88 ≤ position → b.byte position = 0
  epoch : m.epoch = b.get 16 8
  sequence : m.sequence = b.get 24 8
  clientId : m.clientId = b.get 32 4
  price : m.price = b.get 36 4
  requestId : m.requestId = b.get 40 8
  orderId : m.orderId = b.get 48 8
  exchangeId : m.exchangeId = b.get 56 8
  instrumentId : m.instrumentId = b.get 64 8
  quantity : m.quantity = b.get 72 4
  remaining : m.remaining = b.get 76 4
  tradeId : m.tradeId = b.get 80 8

/-- A flag is zero or one. -/
theorem small_byte {raw : UInt8} (small : ¬ 1 < raw) : raw = 0 ∨ raw = 1 := by
  rw [UInt8.not_lt, UInt8.le_iff_toNat_le] at small
  have cases : raw.toNat = 0 ∨ raw.toNat = 1 := by
    have : (1 : UInt8).toNat = 1 := rfl
    omega
  rcases cases with isZero | isOne
  · exact Or.inl (UInt8.toNat_inj.mp isZero)
  · exact Or.inr (UInt8.toNat_inj.mp isOne)

/-- What is decoded is listed, and is in the bytes of the frame. -/
theorem decode_some
    {m : Message} {b : Frame} (decoded : decode b = some m) :
    m.Listed ∧ m.ReadFrom b := by
  obtain ⟨wellFormed, decoded⟩ := Option.ite_none_left_eq_some.mp decoded
  unfold malformed at wellFormed
  rw [decide_eq_true_eq] at wellFormed
  simp only [not_or, not_not] at wellFormed
  obtain ⟨magic, version, _, _, sideSmall, _, _, _, _, postOnlySmall, _,
    fourteenth, fifteenth, zeros⟩ := wellFormed
  obtain ⟨kind, isKind, decoded⟩ := Option.bind_eq_some_iff.mp decoded
  obtain ⟨action, isAction, decoded⟩ := Option.bind_eq_some_iff.mp decoded
  obtain ⟨orderType, isOrderType, decoded⟩ :=
    Option.bind_eq_some_iff.mp decoded
  obtain ⟨tif, isTif, decoded⟩ := Option.bind_eq_some_iff.mp decoded
  obtain ⟨report, isReport, decoded⟩ := Option.bind_eq_some_iff.mp decoded
  obtain ⟨reject, isReject, decoded⟩ := Option.bind_eq_some_iff.mp decoded
  obtain ⟨update, isUpdate, decoded⟩ := Option.bind_eq_some_iff.mp decoded
  obtain ⟨kindListed, kindByte⟩ := toByte_castOf isKind
  obtain ⟨actionListed, actionByte⟩ := toByte_castOf isAction
  obtain ⟨orderTypeListed, orderTypeByte⟩ := toByte_castOf isOrderType
  obtain ⟨tifListed, tifByte⟩ := toByte_castOf isTif
  obtain ⟨reportListed, reportByte⟩ := toByte_castOf isReport
  obtain ⟨rejectListed, rejectByte⟩ := toByte_castOf isReject
  obtain ⟨updateListed, updateByte⟩ := toByte_castOf isUpdate
  have padding : ∀ position < frameSize,
      position = 14 ∨ position = 15 ∨ 88 ≤ position →
        b.byte position = 0 := by
    rintro position inside (rfl | rfl | late)
    · exact fourteenth
    · exact fifteenth
    · rw [Bool.not_eq_true, List.any_eq_false] at zeros
      have isZero := zeros position
        (List.mem_range'_1.mpr ⟨late, by unfold frameSize at inside ⊢; omega⟩)
      simpa using isZero
  cases Option.some.inj decoded
  refine ⟨⟨kindListed, actionListed, ?_, orderTypeListed, tifListed,
    reportListed, rejectListed, updateListed⟩, magic, version, kindByte,
    actionByte, ?_, orderTypeByte, tifByte, reportByte, rejectByte, ?_,
    updateByte, padding, rfl, rfl, rfl, rfl, rfl, rfl, rfl, rfl, rfl, rfl, rfl⟩
  · dsimp only [Side.Listed]
    split_ifs
    · exact Or.inl rfl
    · exact Or.inr rfl
  · rcases small_byte sideSmall with isZero | isOne
    · simp [isZero]
    · simp [isOne]
  · rcases small_byte postOnlySmall with isZero | isOne
    · simp [isZero]
    · simp [isOne]

/-- What is read from a frame fits it. -/
theorem Message.ReadFrom.fits
    {m : Message} {b : Frame} (readFrom : m.ReadFrom b) : m.Fits where
  epoch := readFrom.epoch ▸ b.get_lt 16 8
  sequence := readFrom.sequence ▸ b.get_lt 24 8
  clientId := readFrom.clientId ▸ b.get_lt 32 4
  price := readFrom.price ▸ b.get_lt 36 4
  requestId := readFrom.requestId ▸ b.get_lt 40 8
  orderId := readFrom.orderId ▸ b.get_lt 48 8
  exchangeId := readFrom.exchangeId ▸ b.get_lt 56 8
  instrumentId := readFrom.instrumentId ▸ b.get_lt 64 8
  quantity := readFrom.quantity ▸ b.get_lt 72 4
  remaining := readFrom.remaining ▸ b.get_lt 76 4
  tradeId := readFrom.tradeId ▸ b.get_lt 80 8

/-- The places of the fields cover a frame. -/
theorem Message.ReadFrom.frameOf_eq
    {m : Message} {b : Frame} (readFrom : m.ReadFrom b) :
    frameOf m = b := by
  obtain ⟨version, kind, action, side, orderType, tif, report, reject,
    postOnly, update⟩ := frameOf_head m
  obtain ⟨magic, epoch, sequence, clientId, price, requestId, orderId,
    exchangeId, instrumentId, quantity, remaining, tradeId⟩ :=
    frameOf_numbers m readFrom.fits
  apply Frame.ext_byte
  intro position inside
  have number (start count : Nat)
      (same : (frameOf m).get start count = b.get start count)
      (here : start ≤ position ∧ position < start + count) :
      (frameOf m).byte position = b.byte position :=
    Frame.byte_eq_of_get same here
  have places : position < 4 ∨ position = 4 ∨ position = 5 ∨ position = 6 ∨
      position = 7 ∨ position = 8 ∨ position = 9 ∨ position = 10 ∨
      position = 11 ∨ position = 12 ∨ position = 13 ∨
      (position = 14 ∨ position = 15 ∨ 88 ≤ position) ∨
      (16 ≤ position ∧ position < 24) ∨ (24 ≤ position ∧ position < 32) ∨
      (32 ≤ position ∧ position < 36) ∨ (36 ≤ position ∧ position < 40) ∨
      (40 ≤ position ∧ position < 48) ∨ (48 ≤ position ∧ position < 56) ∨
      (56 ≤ position ∧ position < 64) ∨ (64 ≤ position ∧ position < 72) ∨
      (72 ≤ position ∧ position < 76) ∨ (76 ≤ position ∧ position < 80) ∨
      (80 ≤ position ∧ position < 88) := by omega
  rcases places with start | rfl | rfl | rfl | rfl | rfl | rfl | rfl | rfl |
    rfl | rfl | isPadding | here | here | here | here | here | here | here |
    here | here | here | here
  · exact number 0 4 (magic.trans readFrom.magic.symm) ⟨Nat.zero_le _, start⟩
  · exact version.trans readFrom.version.symm
  · exact kind.trans readFrom.kind
  · exact action.trans readFrom.action
  · exact side.trans readFrom.side
  · exact orderType.trans readFrom.orderType
  · exact tif.trans readFrom.tif
  · exact report.trans readFrom.report
  · exact reject.trans readFrom.reject
  · exact postOnly.trans readFrom.postOnly
  · exact update.trans readFrom.update
  · exact (frameOf_padding m isPadding).trans
      (readFrom.padding position inside isPadding).symm
  · exact number 16 8 (epoch.trans readFrom.epoch) here
  · exact number 24 8 (sequence.trans readFrom.sequence) here
  · exact number 32 4 (clientId.trans readFrom.clientId) here
  · exact number 36 4 (price.trans readFrom.price) here
  · exact number 40 8 (requestId.trans readFrom.requestId) here
  · exact number 48 8 (orderId.trans readFrom.orderId) here
  · exact number 56 8 (exchangeId.trans readFrom.exchangeId) here
  · exact number 64 8 (instrumentId.trans readFrom.instrumentId) here
  · exact number 72 4 (quantity.trans readFrom.quantity) here
  · exact number 76 4 (remaining.trans readFrom.remaining) here
  · exact number 80 8 (tradeId.trans readFrom.tradeId) here

end Frames

/-- The frames that are read as a message are what it is encoded as. -/
theorem decode_iff {m : Message} {b : Frame} :
    decode b = some m ↔ m.Fits ∧ encode m = .ok b := by
  constructor
  · intro decoded
    obtain ⟨listed, readFrom⟩ := decode_some decoded
    exact ⟨readFrom.fits, (encode_iff m readFrom.fits).mpr
      ⟨listed, readFrom.frameOf_eq.symm⟩⟩
  · rintro ⟨fits, encoded⟩
    obtain ⟨listed, rfl⟩ := (encode_iff m fits).mp encoded
    exact decode_frameOf m fits listed

end LimitOrderBook
