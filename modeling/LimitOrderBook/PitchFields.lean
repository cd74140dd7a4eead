import LimitOrderBook.PitchSequencing

namespace LimitOrderBook.Feed.Pitch

/-!
# The fields of a PITCH message

Once the length of a message has been checked, its decoder is a plain function
of its fields, and only a side or a symbol can still be refused.  A table says
where the numbers of every type lie and what they count, and every event of a
packet that is returned has the numbers of its message.
-/

variable {m : Bytes} {type : UInt8} {e : Event} {pos size : Nat}

/-- The little-endian value of a field. -/
def value (m : Bytes) (pos size : Nat) : Nat :=
  LittleEndian.number (field m pos size)

/-- The price in a field. -/
def price (m : Bytes) (shortForm : Bool) (pos : Nat) : Nat :=
  if shortForm then value m pos 2 * 100 else value m pos 8

/-- A field inside a message is the number of its bytes. -/
theorem number_inside (small : size ≤ 8) (inside : pos + size ≤ m.length) :
    number m pos size = .ok (value m pos size) :=
  integer_little small inside

/-- A short price counts cents, and a long one is taken as it is. -/
theorem priceAt_inside
    {shortForm : Bool}
    (inside : pos + (if shortForm then 2 else 8) ≤ m.length) :
    priceAt m shortForm pos = .ok (price m shortForm pos) := by
  cases shortForm with
  | true =>
      have cents : number m pos 2 = .ok (value m pos 2) :=
        number_inside (by decide) inside
      rw [priceAt, if_pos rfl, cents]
      rfl
  | false => exact number_inside (by decide) inside

theorem byteAt_getD (inside : pos < m.length) :
    byteAt m pos = .ok (m[pos]?.getD 0) := by
  rw [byteAt_inside inside, List.getElem?_eq_getElem inside, Option.getD_some]

/-- The length check passes on the wanted length only. -/
theorem sized_ok {want : Nat} :
    sized m type want = .ok () ↔ m.length = want := by
  unfold sized require
  split_ifs with right
  · exact iff_of_true rfl (of_decide_eq_true right)
  · exact iff_of_false nofun (by simpa using right)

/-- Which lengths an add may have. -/
theorem addSized_ok :
    addSized m type = .ok () ↔
      if type = 0x22 then m.length = 26 else
        if type = 0x2f then m.length = 40 ∨ m.length = 41 else
          m.length = 34 := by
  unfold addSized
  by_cases expanded : type = 0x2f
  · subst expanded
    unfold require
    simp [or_iff_not_imp_left]
  · rw [if_neg expanded, if_neg expanded, sized_ok]
    split_ifs <;> rfl

/-- The event of an add of the right length. -/
theorem decodeAdd_eq (size : addSized m type = .ok ()) :
    decodeAdd m type e = (do
      let orderSide ← side (m[14]?.getD 0)
      let name ← symbolText (field m (if type = 0x22 then 17 else 19)
        (if type = 0x2f then 8 else 6))
      .ok
        { e with
          type := .add
          orderId := value m 6 8
          side := orderSide
          quantity := value m 15 (if type = 0x22 then 2 else 4)
          symbol := name
          price := price m (decide (type = 0x22))
            (if type = 0x22 then 23 else if type = 0x2f then 27 else 25) }) := by
  have lengths := addSized_ok.mp size
  have orderId : number m 6 8 = .ok (value m 6 8) :=
    number_inside (by decide) (by grind)
  simp only [decodeAdd, size, decide_eq_true_eq]
  rw [orderId,
    byteAt_getD (by grind), number_inside (by grind) (by grind),
    symbol_inside (by grind), priceAt_inside (by grind)]
  rfl

/-- The event of an execution. -/
theorem decodeExecute_eq (size : m.length = 26) :
    decodeExecute m type e =
      .ok
        { e with
          type := .execute
          orderId := value m 6 8
          quantity := value m 14 4
          matchId := value m 18 8 } := by
  simp only [decodeExecute, sized_ok.mpr size]
  rw [number_inside (by decide) (by lia), number_inside (by decide) (by lia),
    number_inside (by decide) (by lia)]
  rfl

theorem decodeExecuteRemaining_eq (size : m.length = 38) :
    decodeExecuteRemaining m type e =
      .ok
        { e with
          type := .executeRemaining
          orderId := value m 6 8
          quantity := value m 14 4
          remaining := value m 18 4
          matchId := value m 22 8
          price := value m 30 8 } := by
  simp only [decodeExecuteRemaining, sized_ok.mpr size]
  rw [number_inside (by decide) (by lia), number_inside (by decide) (by lia),
    number_inside (by decide) (by lia), number_inside (by decide) (by lia),
    number_inside (by decide) (by lia)]
  rfl

/-- The event of a reduction, in either form. -/
theorem decodeReduce_eq (size : m.length = if type = 0x25 then 18 else 16) :
    decodeReduce m type e =
      .ok
        { e with
          type := .reduce
          orderId := value m 6 8
          quantity := value m 14 (if type = 0x25 then 4 else 2) } := by
  simp only [decodeReduce, sized_ok.mpr size]
  rw [number_inside (by decide) (by grind),
    number_inside (by grind) (by grind)]
  rfl

/-- The event of a replacement, in either form. -/
theorem decodeReplace_eq (size : m.length = if type = 0x28 then 19 else 27) :
    decodeReplace m type e =
      .ok
        { e with
          type := .replace
          orderId := value m 6 8
          newOrderId := value m 6 8
          quantity := value m 14 (if type = 0x28 then 2 else 4)
          price := price m (decide (type = 0x28))
            (if type = 0x28 then 16 else 18)
          maintainPriority := decide
            (m[if type = 0x28 then 18 else 26]?.getD 0 &&& 2 ≠ 0) } := by
  simp only [decodeReplace, decide_eq_true_eq, sized_ok.mpr size]
  have orderId : number m 6 8 = .ok (value m 6 8) :=
    number_inside (by decide) (by grind)
  rw [orderId, number_inside (by grind) (by grind), priceAt_inside (by grind),
    byteAt_getD (by grind)]
  rfl

theorem decodeDelete_eq (size : m.length = 14) :
    decodeDelete m type e =
      .ok { e with type := .delete, orderId := value m 6 8 } := by
  simp only [decodeDelete, sized_ok.mpr size]
  rw [number_inside (by decide) (by lia)]
  rfl

/-- The event of a trade, in one of its forms. -/
theorem decodeTrade_eq
    (size : m.length =
      if type = 0x2b then 33 else if type = 0x30 then 43 else 41) :
    decodeTrade m type e = (do
      let name ← symbolText (field m (if type = 0x2b then 17 else 19)
        (if type = 0x30 then 8 else 6))
      .ok
        { e with
          type := .trade
          quantity := value m 15 (if type = 0x2b then 2 else 4)
          symbol := name
          price := price m (decide (type = 0x2b))
            (if type = 0x2b then 23 else if type = 0x30 then 27 else 25)
          matchId := value m
            (if type = 0x2b then 25 else if type = 0x30 then 35 else 33)
            8 }) := by
  simp only [decodeTrade, decide_eq_true_eq, sized_ok.mpr size]
  have quantity : number m 15 (if type = 0x2b then 2 else 4) =
      .ok (value m 15 (if type = 0x2b then 2 else 4)) :=
    number_inside (by grind) (by grind)
  rw [quantity,
    symbol_inside (by grind), priceAt_inside (by grind),
    number_inside (by decide) (by grind)]
  rfl

/-! ## The numbers of an event -/

/-- The numbers that a message may give its event, apart from its time. -/
inductive Number where
  | orderId
  | newOrderId
  | quantity
  | price
  | remaining
  | matchId

def Number.of (e : Event) : Number → Nat
  | .orderId => e.orderId
  | .newOrderId => e.newOrderId
  | .quantity => e.quantity
  | .price => e.price
  | .remaining => e.remaining
  | .matchId => e.matchId

/-- A field that holds a number, in units of a scale. -/
structure Cell where
  number : Number
  pos : Nat
  size : Nat
  scale : Nat := 1

/-- Where the numbers of a type lie. -/
def cells (type : UInt8) : List Cell :=
  if type = 0x22 then
    [⟨.orderId, 6, 8, 1⟩, ⟨.quantity, 15, 2, 1⟩, ⟨.price, 23, 2, 100⟩]
  else if type = 0x21 then
    [⟨.orderId, 6, 8, 1⟩, ⟨.quantity, 15, 4, 1⟩, ⟨.price, 25, 8, 1⟩]
  else if type = 0x2f then
    [⟨.orderId, 6, 8, 1⟩, ⟨.quantity, 15, 4, 1⟩, ⟨.price, 27, 8, 1⟩]
  else if type = 0x23 then
    [⟨.orderId, 6, 8, 1⟩, ⟨.quantity, 14, 4, 1⟩, ⟨.matchId, 18, 8, 1⟩]
  else if type = 0x24 then
    [⟨.orderId, 6, 8, 1⟩, ⟨.quantity, 14, 4, 1⟩, ⟨.remaining, 18, 4, 1⟩,
      ⟨.matchId, 22, 8, 1⟩, ⟨.price, 30, 8, 1⟩]
  else if type = 0x26 then
    [⟨.orderId, 6, 8, 1⟩, ⟨.quantity, 14, 2, 1⟩]
  else if type = 0x25 then
    [⟨.orderId, 6, 8, 1⟩, ⟨.quantity, 14, 4, 1⟩]
  else if type = 0x28 then
    [⟨.orderId, 6, 8, 1⟩, ⟨.newOrderId, 6, 8, 1⟩, ⟨.quantity, 14, 2, 1⟩,
      ⟨.price, 16, 2, 100⟩]
  else if type = 0x27 then
    [⟨.orderId, 6, 8, 1⟩, ⟨.newOrderId, 6, 8, 1⟩, ⟨.quantity, 14, 4, 1⟩,
      ⟨.price, 18, 8, 1⟩]
  else if type = 0x29 then
    [⟨.orderId, 6, 8, 1⟩]
  else if type = 0x2b then
    [⟨.quantity, 15, 2, 1⟩, ⟨.price, 23, 2, 100⟩, ⟨.matchId, 25, 8, 1⟩]
  else if type = 0x2a then
    [⟨.quantity, 15, 4, 1⟩, ⟨.price, 25, 8, 1⟩, ⟨.matchId, 33, 8, 1⟩]
  else if type = 0x30 then
    [⟨.quantity, 15, 4, 1⟩, ⟨.price, 27, 8, 1⟩, ⟨.matchId, 35, 8, 1⟩]
  else
    []

/-- The numbers of an event are those of the message's fields. -/
structure Holds (m : Bytes) (type : UInt8) (e : Event) : Prop where
  inside : ∀ cell ∈ cells type, cell.pos + cell.size ≤ m.length
  listed : ∀ cell ∈ cells type,
    cell.number.of e = value m cell.pos cell.size * cell.scale
  others : ∀ number, (∀ cell ∈ cells type, cell.number ≠ number) →
    number.of e = 0

/-- An event of which only the unit, the number and the time are known. -/
def started (channel sequence timestampNs : Nat) : Event :=
  { channel := channel, sequence := sequence, timestampNs := timestampNs }

variable {channel sequence timestampNs : Nat} {decoded : Event}

/-- An event with nothing but its header has the fields of no message. -/
theorem started_holds
    (none : cells type = [])
    (blank : ∀ number, Number.of e number = 0) : Holds m type e where
  inside := by simp [none]
  listed := by simp [none]
  others number _ := blank number

/-- The event of an add has the fields of its form. -/
theorem decodeAdd_holds
    (isAdd : type = 0x21 ∨ type = 0x22 ∨ type = 0x2f)
    (decodes : decodeAdd m type (started channel sequence timestampNs) =
      .ok decoded) : Holds m type decoded := by
  obtain ⟨_, size, _⟩ := Fallible.bind_ok decodes
  have lengths := addSized_ok.mp size
  rw [decodeAdd_eq size] at decodes
  obtain ⟨orderSide, _, decodes⟩ := Fallible.bind_ok decodes
  obtain ⟨name, _, decodes⟩ := Fallible.bind_ok decodes
  cases decodes
  rcases isAdd with rfl | rfl | rfl
  all_goals
    refine ⟨?_, by simp [cells, Number.of, price], ?_⟩
    · simp at lengths
      simp [cells]
      lia
    · intro number unlisted
      cases number <;> simp_all [cells, Number.of, started]

/-- The event of an execution has its fields. -/
theorem decodeExecute_holds
    (decodes : decodeExecute m 0x23 (started channel sequence timestampNs) =
      .ok decoded) : Holds m 0x23 decoded := by
  obtain ⟨_, size, _⟩ := Fallible.bind_ok decodes
  have length := sized_ok.mp size
  rw [decodeExecute_eq length] at decodes
  cases decodes
  refine ⟨by simp [cells, length], by simp [cells, Number.of], ?_⟩
  intro number unlisted
  cases number <;> simp_all [cells, Number.of, started]

theorem decodeExecuteRemaining_holds
    (decodes : decodeExecuteRemaining m 0x24
      (started channel sequence timestampNs) = .ok decoded) :
    Holds m 0x24 decoded := by
  obtain ⟨_, size, _⟩ := Fallible.bind_ok decodes
  have length := sized_ok.mp size
  rw [decodeExecuteRemaining_eq length] at decodes
  cases decodes
  refine ⟨by simp [cells, length], by simp [cells, Number.of], ?_⟩
  intro number unlisted
  cases number <;> simp_all [cells, Number.of, started]

/-- The event of a reduction has the fields of its form. -/
theorem decodeReduce_holds
    (isReduce : type = 0x25 ∨ type = 0x26)
    (decodes : decodeReduce m type (started channel sequence timestampNs) =
      .ok decoded) : Holds m type decoded := by
  obtain ⟨_, size, _⟩ := Fallible.bind_ok decodes
  have length := sized_ok.mp size
  rw [decodeReduce_eq length] at decodes
  cases decodes
  rcases isReduce with rfl | rfl
  all_goals
    refine ⟨by simp [cells, length], by simp [cells, Number.of], ?_⟩
    intro number unlisted
    cases number <;> simp_all [cells, Number.of, started]

/-- The event of a replacement has the fields of its form. -/
theorem decodeReplace_holds
    (isReplace : type = 0x27 ∨ type = 0x28)
    (decodes : decodeReplace m type (started channel sequence timestampNs) =
      .ok decoded) : Holds m type decoded := by
  obtain ⟨_, size, _⟩ := Fallible.bind_ok decodes
  have length := sized_ok.mp size
  simp only [decide_eq_true_eq] at length
  rw [decodeReplace_eq length] at decodes
  cases decodes
  rcases isReplace with rfl | rfl
  all_goals
    refine ⟨by simp [cells, length], by simp [cells, Number.of, price], ?_⟩
    intro number unlisted
    cases number <;> simp_all [cells, Number.of, started]

theorem decodeDelete_holds
    (decodes : decodeDelete m 0x29 (started channel sequence timestampNs) =
      .ok decoded) : Holds m 0x29 decoded := by
  obtain ⟨_, size, _⟩ := Fallible.bind_ok decodes
  have length := sized_ok.mp size
  rw [decodeDelete_eq length] at decodes
  cases decodes
  refine ⟨by simp [cells, length], by simp [cells, Number.of], ?_⟩
  intro number unlisted
  cases number <;> simp_all [cells, Number.of, started]

/-- The event of a trade has the fields of its form. -/
theorem decodeTrade_holds
    (isTrade : type = 0x2a ∨ type = 0x2b ∨ type = 0x30)
    (decodes : decodeTrade m type (started channel sequence timestampNs) =
      .ok decoded) : Holds m type decoded := by
  obtain ⟨_, size, _⟩ := Fallible.bind_ok decodes
  have length := sized_ok.mp size
  simp only [decide_eq_true_eq] at length
  rw [decodeTrade_eq length] at decodes
  obtain ⟨name, _, decodes⟩ := Fallible.bind_ok decodes
  cases decodes
  rcases isTrade with rfl | rfl | rfl
  all_goals
    refine ⟨by simp [cells, length], by simp [cells, Number.of, price], ?_⟩
    intro number unlisted
    cases number <;> simp_all [cells, Number.of, started]

/-- A type whose length is checked and none of whose numbers are read. -/
theorem sized_holds
    {want : Nat} (none : cells type = [])
    (blank : ∀ number, Number.of e number = 0) :
    Fallible.Ends (fun _ => True) (Holds m type)
      (sized m type want >>= fun _ => .ok e) :=
  (Fallible.Ends.anyhow _).bind fun _ _ => started_holds none blank

/-- Every event has the fields of the message it was read from. -/
theorem decodeBody_holds
    (m : Bytes) (type : UInt8) (channel sequence timestampNs : Nat) :
    Fallible.Ends (fun _ => True) (Holds m type)
      (decodeBody m type (started channel sequence timestampNs)) := by
  have answers {first : Except Fault Event}
      (holds : ∀ decoded, first = .ok decoded → Holds m type decoded) :
      Fallible.Ends (fun _ => True) (Holds m type) first :=
    (Fallible.Ends.anyhow first).of_answers holds
  refine .ite (fun isAdd => answers fun _ => decodeAdd_holds isAdd)
    fun _ => ?_
  refine .ite (fun isType => answers fun _ => ?_) fun _ => ?_
  · subst isType
    exact decodeExecute_holds
  refine .ite (fun isType => answers fun _ => ?_) fun _ => ?_
  · subst isType
    exact decodeExecuteRemaining_holds
  refine .ite (fun isReduce => answers fun _ => decodeReduce_holds isReduce)
    fun _ => ?_
  refine .ite (fun isReplace => answers fun _ => decodeReplace_holds isReplace)
    fun _ => ?_
  refine .ite (fun isType => answers fun _ => ?_) fun _ => ?_
  · subst isType
    exact decodeDelete_holds
  refine .ite (fun isTrade => answers fun _ => decodeTrade_holds isTrade)
    fun _ => ?_
  refine .ite (fun isClear => ?_) fun _ => ?_
  · subst isClear
    exact sized_holds rfl fun number => by cases number <;> rfl
  refine .ite (fun isBroken => ?_) fun _ => ?_
  · subst isBroken
    exact sized_holds rfl fun number => by cases number <;> rfl
  refine .ite (fun isEnd => ?_) fun _ => ?_
  · subst isEnd
    exact sized_holds rfl fun number => by cases number <;> rfl
  refine .ite (fun isStatus => ?_) fun _ => trivial
  subst isStatus
  exact sized_holds rfl fun number => by cases number <;> rfl

/-! ## Packets -/

/-- The seconds of a unit's clock after a message. -/
def clockAfter (seconds : Nat) (m : Bytes) : Nat :=
  if m[1]? = some 0x20 then value m 2 4 else seconds

/-- The time that a message gives its event. -/
def timeOf (seconds : Nat) (m : Bytes) : Nat :=
  if m[1]? = some 0x20 then
    value m 2 4 * 1000000000
  else
    seconds * 1000000000 + value m 2 4

/-- The numbers of an event are read from its message. -/
structure Reads (seconds : Nat) (m : Bytes) (e : Event) : Prop where
  long : 6 ≤ m.length
  timestampNs : e.timestampNs = timeOf seconds m
  numbers : Holds m (m[1]?.getD 0) e

/-- A message gives an event with its fields, its number and its time. -/
theorem decodeMessage_reads
    {channel : UInt8} {state next : PitchUnit} (long : 6 ≤ m.length)
    (decodes : decodeMessage channel sequence m state = .ok (next, e)) :
    Reads state.seconds m e ∧ e.sequence = sequence ∧
      next.seconds = clockAfter state.seconds m := by
  obtain ⟨type, isType, decodes⟩ := Fallible.bind_ok decodes
  have typeByte := (byteAt_safe (by lia)).of_ok isType
  have nanosRead : number m 2 4 = .ok (value m 2 4) :=
    number_inside (by decide) (by lia)
  dsimp only at decodes
  split_ifs at decodes with isTime
  · obtain ⟨_, _, decodes⟩ := Fallible.bind_ok decodes
    obtain ⟨seconds, read, decodes⟩ := Fallible.bind_ok decodes
    obtain ⟨_, _, decodes⟩ := Fallible.bind_ok decodes
    cases nanosRead.symm.trans read
    cases decodes
    rw [isTime] at typeByte
    refine ⟨⟨long, ?_, ?_⟩, rfl, ?_⟩
    · rw [timeOf, if_pos typeByte]
    · rw [typeByte]
      exact started_holds (by decide) fun number => by cases number <;> rfl
    · rw [clockAfter, if_pos typeByte]
  · obtain ⟨_, _, decodes⟩ := Fallible.bind_ok decodes
    obtain ⟨nanos, read, decodes⟩ := Fallible.bind_ok decodes
    obtain ⟨_, _, decodes⟩ := Fallible.bind_ok decodes
    obtain ⟨decoded, body, answered⟩ := Fallible.bind_ok decodes
    rw [nanosRead, Except.ok.injEq] at read
    rw [Except.ok.injEq, Prod.mk.injEq] at answered
    obtain ⟨rfl, rfl⟩ := answered
    subst read
    have keeps := (decodeBody_clean ..).of_ok body
    have notTime : m[1]? ≠ some 0x20 := by
      rw [typeByte]
      exact fun same => isTime (Option.some.inj same)
    refine ⟨⟨long, ?_, ?_⟩, keeps.sequence, ?_⟩
    · rw [keeps.timestampNs, timeOf, if_neg notTime]
    · rw [typeByte]
      exact (decodeBody_holds ..).of_ok body
    · rw [clockAfter, if_neg notTime]

/-- Events that are read one after another, and the clock after them. -/
inductive ReadsAll (seconds sequence : Nat) :
    List Bytes → List Event → Nat → Prop where
  | nil : ReadsAll seconds sequence [] [] seconds
  | snoc {pieces : List Bytes} {events : List Event} {now : Nat} {m : Bytes}
      {e : Event} :
      ReadsAll seconds sequence pieces events now → Reads now m e →
        e.sequence = sequence + pieces.length →
        ReadsAll seconds sequence (pieces ++ [m]) (events ++ [e])
          (clockAfter now m)

/-- What the loop over a packet has read, wherever it started. -/
structure ReadsUpTo (p : Bytes) (seconds sequence : Nat)
    (pieces : List Bytes) (walk : Walk) : Prop where
  tiled : ∀ m ∈ pieces, Tile m
  inside : walk.offset ≤ p.length
  covered : p.take walk.offset = p.take 8 ++ pieces.flatten
  reads : ReadsAll seconds sequence pieces walk.events walk.state.seconds

/-- The walk goes on by one message. -/
theorem ReadsUpTo.step
    {p : Bytes} {channel : UInt8} {seconds : Nat} {pieces : List Bytes}
    {walk next : Walk} {m : Bytes}
    (upTo : ReadsUpTo p seconds sequence pieces walk)
    (step : Step p channel (sequence + pieces.length) walk m e next) :
    ReadsUpTo p seconds sequence (pieces ++ [m]) next where
  tiled other member := by
    rcases List.mem_append.mp member with old | new
    · exact upTo.tiled other old
    · rw [List.mem_singleton.mp new]
      exact step.tile
  inside := step.offset ▸ step.inside
  covered := by
    rw [step.offset, List.take_add, upTo.covered, step.shape, List.take_left]
    simp
  reads := by
    obtain ⟨reads, isSequence, clock⟩ :=
      decodeMessage_reads step.tile.1 step.decoded
    rw [step.events, clock]
    exact .snoc upTo.reads reads isSequence

end LimitOrderBook.Feed.Pitch

namespace LimitOrderBook.Feed.PitchDecoder

open Pitch

/-- A packet whose events have the numbers of its header and messages. -/
structure ReadsPacket (units : UInt8 → PitchUnit) (p : Bytes)
    (events : List Event) : Prop where
  size : value p 0 2 = p.length
  messages : ∃ channel last, p[3]? = some channel ∧
    ReadsAll (units channel).seconds (value p 4 4) (messages p) events last

/-- The events of a packet are those of its messages, in their order. -/
theorem decodeMessages_reads
    {units next : UInt8 → PitchUnit} {p : Bytes} {channel : UInt8}
    {sequence count : Nat} {events : List Event} (header : 8 ≤ p.length)
    (answered : decodeMessages units p channel sequence count =
      .ok (next, events)) :
    ∃ last, ReadsAll (units channel).seconds sequence (messages p) events
      last := by
  obtain ⟨_, _, answered⟩ := Fallible.bind_ok answered
  obtain ⟨_, _, answered⟩ := Fallible.bind_ok answered
  obtain ⟨_, _, answered⟩ := Fallible.bind_ok answered
  obtain ⟨walk, walked, answered⟩ := Fallible.bind_ok answered
  obtain ⟨_, whole, answered⟩ := Fallible.bind_ok answered
  cases answered
  have isWhole := of_decide_eq_true (require_safe.of_ok whole)
  have walks : Fallible.Ends (fun _ => True) (fun walk => ∃ pieces,
      pieces.length = (List.range count).length ∧
        ReadsUpTo p (units channel).seconds sequence pieces walk)
      ((List.range count).foldlM (walkMessage p channel sequence)
        ⟨units channel, 8, []⟩) := by
    refine Fallible.Ends.foldlM (fun passed walk => ∃ pieces,
      pieces.length = passed.length ∧
        ReadsUpTo p (units channel).seconds sequence pieces walk)
      ?_ ?_
    · exact ⟨[], rfl, ⟨by simp, header, by simp, .nil⟩⟩
    rintro passed index walk isPrefix ⟨pieces, sameLength, upTo⟩
    refine (Fallible.Ends.anyhow _).of_answers fun next stepped => ?_
    obtain ⟨m, e, step⟩ := walkMessage_ok stepped
    rw [index_eq_length isPrefix, ← sameLength] at step
    exact ⟨pieces ++ [m], by simp [sameLength], upTo.step step⟩
  obtain ⟨pieces, _, upTo⟩ := walks.of_ok walked
  have all := upTo.covered
  rw [isWhole] at all
  rw [(messages_of_covered upTo.tiled all).1]
  exact ⟨_, upTo.reads⟩

/-- Whatever packet is accepted, its events are those of its messages. -/
theorem decodePacket_reads
    {units next : UInt8 → PitchUnit} {p : Bytes} {events : List Event}
    (answered : decodePacket units p = .ok (next, events)) :
    ReadsPacket units p events := by
  obtain ⟨_, long, answered⟩ := Fallible.bind_ok answered
  have header := of_decide_eq_true (require_safe.of_ok long)
  have sizeRead : integer p 0 2 true = .ok (value p 0 2) :=
    number_inside (by decide) (by lia)
  have sequenceRead : integer p 4 4 true = .ok (value p 4 4) :=
    number_inside (by decide) (by lia)
  rw [sizeRead, sequenceRead] at answered
  obtain ⟨size, isSize, answered⟩ := Fallible.bind_ok answered
  obtain ⟨_, sized, answered⟩ := Fallible.bind_ok answered
  obtain ⟨count, isCount, answered⟩ := Fallible.bind_ok answered
  obtain ⟨channel, isChannel, answered⟩ := Fallible.bind_ok answered
  obtain ⟨sequence, isSequence, answered⟩ := Fallible.bind_ok answered
  rw [Except.ok.injEq] at isSize isSequence
  subst isSize isSequence
  refine ⟨of_decide_eq_true (require_safe.of_ok sized), channel, ?_⟩
  have channelByte := (byteAt_safe (by lia)).of_ok isChannel
  split_ifs at answered with noMessages
  · obtain ⟨_, heartbeat, answered⟩ := Fallible.bind_ok answered
    rw [Except.ok.injEq, Prod.mk.injEq] at answered
    obtain ⟨-, rfl⟩ := answered
    have empty := (of_decide_eq_true (require_safe.of_ok heartbeat)).1
    have noneFound : messages p = [] := by
      rw [messages, List.drop_eq_nil_of_le (Nat.le_of_eq empty)]
      cases p.length <;> rfl
    rw [noneFound]
    exact ⟨_, channelByte, .nil⟩
  · obtain ⟨last, reads⟩ := decodeMessages_reads header answered
    exact ⟨last, channelByte, reads⟩

/-- Every event that a call returns has the numbers of its message. -/
theorem decode_reads
    {decoder : PitchDecoder} {p : Bytes} {events : List Event}
    (answered : (decoder.decode p).2 = .ok events) :
    ReadsPacket decoder.units p events :=
  decodePacket_reads (decode_ok answered).2.2

end LimitOrderBook.Feed.PitchDecoder
