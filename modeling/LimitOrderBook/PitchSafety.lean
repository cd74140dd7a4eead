import LimitOrderBook.FeedFields
import LimitOrderBook.PitchDecoder

namespace LimitOrderBook.Feed.Pitch

/-!
# What one PITCH message does

Every message decoder answers or throws, reads inside its span and leaves the
number, unit and time of the event alone; the lengths that it has checked are
those that its fields need.  From that follows what one message
does to its unit.
-/

/-- The parts of an event that the body of its message does not touch. -/
structure Keeps (e decoded : Event) : Prop where
  sequence : decoded.sequence = e.sequence
  channel : decoded.channel = e.channel
  timestampNs : decoded.timestampNs = e.timestampNs

variable {m : Bytes} {type : UInt8} {e : Event}

/-- A number is read inside a message without a fault of its own. -/
theorem number_clean
    {pos size : Nat} (small : size ≤ 8) (inside : pos + size ≤ m.length) :
    Cleanly (fun _ => True) (number m pos size) :=
  integer_clean true small inside

/-- The length check lets only messages of the wanted length pass. -/
theorem sized_clean (m : Bytes) (type : UInt8) (want : Nat) :
    Cleanly (fun _ => m.length = want) (sized m type want) := by
  refine (require_clean (intended_append rfl (by decide))).mono ?_
  exact fun _ guard => of_decide_eq_true guard

/-- Prices have two bytes or eight. -/
theorem priceAt_clean
    {shortForm : Bool} {pos : Nat}
    (inside : pos + (if shortForm then 2 else 8) ≤ m.length) :
    Cleanly (fun _ => True) (priceAt m shortForm pos) := by
  refine .ite (fun isShort => ?_) fun isLong => ?_
  · rw [if_pos isShort] at inside
    exact (number_clean (by decide) inside).bind fun _ _ => trivial
  · rw [if_neg isLong] at inside
    exact number_clean (by decide) inside

/-- The three forms of an add have their own lengths. -/
theorem addSized_clean (m : Bytes) (type : UInt8) :
    Cleanly (fun _ => (if type = 0x22 then 26 else
      if type = 0x2f then 40 else 34) ≤ m.length) (addSized m type) := by
  refine .ite (fun expanded => ?_) fun _ => ?_
  · refine (require_clean (by decide)).mono fun _ guard => ?_
    rw [decide_eq_true_eq] at guard
    rw [if_neg (by rw [expanded]; decide), if_pos expanded]
    lia
  · refine (sized_clean ..).mono fun _ size => ?_
    split_ifs at size ⊢ <;> lia

/-- An add is read inside its message and keeps the header of the event. -/
theorem decodeAdd_clean (m : Bytes) (type : UInt8) (e : Event) :
    Cleanly (Keeps e) (decodeAdd m type e) := by
  refine (addSized_clean m type).bind fun _ size => ?_
  have long : 26 ≤ m.length := by
    split_ifs at size <;> lia
  refine (number_clean (by decide) (by lia)).bind fun _ _ => ?_
  refine (byteAt_clean (by lia)).bind fun _ _ => ?_
  refine (side_clean _).bind fun _ _ => ?_
  refine (number_clean (by grind) (by grind)).bind fun _ _ => ?_
  refine (symbol_clean (by grind)).bind fun _ _ => ?_
  exact (priceAt_clean (by grind)).bind fun _ _ => ⟨rfl, rfl, rfl⟩

theorem decodeExecute_clean (m : Bytes) (type : UInt8) (e : Event) :
    Cleanly (Keeps e) (decodeExecute m type e) := by
  refine (sized_clean ..).bind fun _ size => ?_
  refine (number_clean (by decide) (by lia)).bind fun _ _ => ?_
  refine (number_clean (by decide) (by lia)).bind fun _ _ => ?_
  exact (number_clean (by decide) (by lia)).bind fun _ _ => ⟨rfl, rfl, rfl⟩

theorem decodeExecuteRemaining_clean (m : Bytes) (type : UInt8) (e : Event) :
    Cleanly (Keeps e) (decodeExecuteRemaining m type e) := by
  refine (sized_clean ..).bind fun _ size => ?_
  refine (number_clean (by decide) (by lia)).bind fun _ _ => ?_
  refine (number_clean (by decide) (by lia)).bind fun _ _ => ?_
  refine (number_clean (by decide) (by lia)).bind fun _ _ => ?_
  refine (number_clean (by decide) (by lia)).bind fun _ _ => ?_
  exact (number_clean (by decide) (by lia)).bind fun _ _ => ⟨rfl, rfl, rfl⟩

theorem decodeReduce_clean (m : Bytes) (type : UInt8) (e : Event) :
    Cleanly (Keeps e) (decodeReduce m type e) := by
  refine (sized_clean ..).bind fun _ size => ?_
  refine (number_clean (by decide) (by grind)).bind fun _ _ => ?_
  exact (number_clean (by grind) (by grind)).bind fun _ _ => ⟨rfl, rfl, rfl⟩

theorem decodeReplace_clean (m : Bytes) (type : UInt8) (e : Event) :
    Cleanly (Keeps e) (decodeReplace m type e) := by
  refine (sized_clean ..).bind fun _ size => ?_
  refine (number_clean (by decide) (by grind)).bind fun _ _ => ?_
  refine (number_clean (by grind) (by grind)).bind fun _ _ => ?_
  refine (priceAt_clean (by grind)).bind fun _ _ => ?_
  exact (byteAt_clean (by grind)).bind fun _ _ => ⟨rfl, rfl, rfl⟩

theorem decodeDelete_clean (m : Bytes) (type : UInt8) (e : Event) :
    Cleanly (Keeps e) (decodeDelete m type e) := by
  refine (sized_clean ..).bind fun _ size => ?_
  exact (number_clean (by decide) (by lia)).bind fun _ _ => ⟨rfl, rfl, rfl⟩

theorem decodeTrade_clean (m : Bytes) (type : UInt8) (e : Event) :
    Cleanly (Keeps e) (decodeTrade m type e) := by
  refine (sized_clean ..).bind fun _ size => ?_
  refine (number_clean (by grind) (by grind)).bind fun _ _ => ?_
  refine (symbol_clean (by grind)).bind fun _ _ => ?_
  refine (priceAt_clean (by grind)).bind fun _ _ => ?_
  exact (number_clean (by decide) (by grind)).bind
    fun _ _ => ⟨rfl, rfl, rfl⟩

/-- Every type of message is read inside its bytes. -/
theorem decodeBody_clean (m : Bytes) (type : UInt8) (e : Event) :
    Cleanly (Keeps e) (decodeBody m type e) := by
  refine .ite (fun _ => decodeAdd_clean m type e) fun _ => ?_
  refine .ite (fun _ => decodeExecute_clean m type e) fun _ => ?_
  refine .ite (fun _ => decodeExecuteRemaining_clean m type e) fun _ => ?_
  refine .ite (fun _ => decodeReduce_clean m type e) fun _ => ?_
  refine .ite (fun _ => decodeReplace_clean m type e) fun _ => ?_
  refine .ite (fun _ => decodeDelete_clean m type e) fun _ => ?_
  refine .ite (fun _ => decodeTrade_clean m type e) fun _ => ?_
  refine .ite (fun _ => (sized_clean ..).bind fun _ _ => ⟨rfl, rfl, rfl⟩)
    fun _ => ?_
  refine .ite (fun _ => (sized_clean ..).bind fun _ _ => ⟨rfl, rfl, rfl⟩)
    fun _ => ?_
  refine .ite (fun _ => (sized_clean ..).bind fun _ _ => ⟨rfl, rfl, rfl⟩)
    fun _ => ?_
  refine .ite (fun _ => (sized_clean ..).bind fun _ _ => ⟨rfl, rfl, rfl⟩)
    fun _ => ?_
  exact intended_append rfl (by decide)

/-- An End of Session message. -/
def endsSession (m : Bytes) : Bool :=
  decide (m[1]? = some 0x2d)

/-- What a message with a number does to its unit. -/
structure Advances (channel : UInt8) (sequence : Nat) (m : Bytes)
    (state : PitchUnit) (result : PitchUnit × Event) : Prop where
  sequence : result.2.sequence = sequence
  channel : result.2.channel = channel.toNat
  timestampNs : result.2.timestampNs < 86400 * 1000000000
  seconds : result.1.seconds < 86400
  ended : result.1.ended = (state.ended || endsSession m)
  next : result.1.next = state.next

/-- A message with its header is read inside its bytes, and keeps its clock. -/
theorem decodeMessage_clean
    {channel : UInt8} {sequence : Nat} {state : PitchUnit}
    (long : 6 ≤ m.length) :
    Cleanly (fun result => state.seconds < 86400 →
        Advances channel sequence m state result)
      (decodeMessage channel sequence m state) := by
  refine (byteAt_clean (by lia)).bind fun type isType => ?_
  have isEnd : endsSession m = decide (type = 0x2d) := by
    simp [endsSession, isType]
  dsimp only
  split_ifs with isTime
  · refine (require_clean (by decide)).bind fun _ _ => ?_
    refine (number_clean (by decide) (by lia)).bind fun seconds _ => ?_
    refine (require_clean (by decide)).bind fun _ small _ => ?_
    rw [decide_eq_true_eq] at small
    refine ⟨rfl, rfl, ?_, small, ?_, rfl⟩
    · exact Nat.mul_lt_mul_of_pos_right small (by decide)
    · simp [isEnd, isTime]
  · refine (require_clean (by decide)).bind fun _ _ => ?_
    refine (number_clean (by decide) (by lia)).bind fun nanos _ => ?_
    refine (require_clean (by decide)).bind fun _ small => ?_
    rw [decide_eq_true_eq] at small
    refine (decodeBody_clean ..).bind fun decoded keeps clock => ?_
    refine ⟨keeps.sequence, keeps.channel, ?_, clock, ?_, rfl⟩
    · rw [keeps.timestampNs]
      dsimp only
      lia
    · rw [isEnd]

end LimitOrderBook.Feed.Pitch
