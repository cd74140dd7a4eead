import LimitOrderBook.ItchDecoder
import LimitOrderBook.PitchSafety

namespace LimitOrderBook.Feed

/-!
# The feed decoders read inside their input

Whatever the state of a decoder and whatever bytes it is given, it answers or
throws an error of its own: no index and no subspan leaves the input, and the
length that is checked for a type covers every field that the type is read for.
-/

/-! ## ITCH -/

namespace Itch

variable {m : Bytes} {e : Event} {kind : UInt8}

/-- Each kind of record has one length. -/
theorem lengths_unique :
    ∀ entry ∈ lengths, ∀ other ∈ lengths, entry.1 = other.1 →
      entry.2 = other.2 := by
  decide +kernel

/-- A length in the table is the one of its type. -/
theorem length_eq
    {length want : Nat} (found : (kind, length) ∈ lengths)
    (known : (kind, want) ∈ lengths) : length = want :=
  lengths_unique _ found _ known rfl

/-- No record is shorter than its header. -/
theorem lengths_long : ∀ entry ∈ lengths, 12 ≤ entry.2 := by
  decide +kernel

/-- The length of a kind is found in the table, or the kind is unknown. -/
theorem lengthOf_clean (kind : UInt8) :
    Cleanly (fun length => (kind, length) ∈ lengths) (lengthOf kind) := by
  unfold lengthOf
  split
  · next entry found =>
    have isKind := List.find?_some found
    rw [decide_eq_true_eq] at isKind
    rw [← isKind]
    exact List.mem_of_find?_eq_some found
  · exact intended_append rfl (by decide)

/-- The code of the first record is inside it. -/
theorem checkStart_clean (first : Bool) (long : 12 ≤ m.length) :
    Cleanly (fun _ => True) (checkStart first kind m) := by
  refine .ite (fun _ => ?_) fun _ => trivial
  refine .ite (fun _ => ?_) fun _ => throws_clean (by decide)
  refine (byteAt_clean (by lia)).bind fun _ _ => ?_
  exact (require_clean (by decide)).mono fun _ _ => trivial

/-- A header that is read has its type's length. -/
theorem readHeader_clean (first : Bool) (m : Bytes) :
    Cleanly (fun header => (header.kind, m.length) ∈ lengths)
      (readHeader first m) := by
  refine (require_clean (by decide)).bind fun _ nonempty => ?_
  rw [decide_eq_true_eq] at nonempty
  refine (byteAt_clean (List.length_pos_iff.mpr nonempty)).bind
    fun kind _ => ?_
  refine (lengthOf_clean kind).bind fun length found => ?_
  refine (require_clean (by decide)).bind fun _ isLength => ?_
  rw [decide_eq_true_eq] at isLength
  rw [← isLength] at found
  have long := lengths_long _ found
  refine (checkStart_clean first long).bind fun _ _ => ?_
  refine (integer_clean false (by decide) (by lia)).bind fun _ _ => ?_
  refine (require_clean (by decide)).bind fun _ _ => ?_
  exact (integer_clean false (by decide) (by lia)).bind fun _ _ => found

/-- The fields of an add are inside its length in the table. -/
theorem decodeAdd_clean (long : 36 ≤ m.length) :
    Cleanly (fun _ => True) (decodeAdd m e) := by
  refine (integer_clean false (by decide) (by lia)).bind fun _ _ => ?_
  refine (byteAt_clean (by lia)).bind fun _ _ => ?_
  refine (side_clean _).bind fun _ _ => ?_
  refine (integer_clean false (by decide) (by lia)).bind fun _ _ => ?_
  refine (symbol_clean (by lia)).bind fun _ _ => ?_
  refine (require_clean (by decide)).bind fun _ _ => ?_
  exact (integer_clean false (by decide) (by lia)).bind fun _ _ => trivial

theorem decodeReplace_clean (long : 35 ≤ m.length) :
    Cleanly (fun _ => True) (decodeReplace m e) := by
  refine (integer_clean false (by decide) (by lia)).bind fun _ _ => ?_
  refine (integer_clean false (by decide) (by lia)).bind fun _ _ => ?_
  refine (integer_clean false (by decide) (by lia)).bind fun _ _ => ?_
  exact (integer_clean false (by decide) (by lia)).bind fun _ _ => trivial

theorem decodeTrade_clean
    {cross : Bool} (long : (if cross then 40 else 44) ≤ m.length) :
    Cleanly (fun _ => True) (decodeTrade m cross e) := by
  refine (integer_clean false (by grind) (by grind)).bind fun _ _ => ?_
  refine (symbol_clean (by grind)).bind fun _ _ => ?_
  refine (require_clean (by decide)).bind fun _ _ => ?_
  refine (integer_clean false (by decide) (by grind)).bind fun _ _ => ?_
  exact (integer_clean false (by decide) (by grind)).bind fun _ _ => trivial

theorem decodeDelete_clean (long : 19 ≤ m.length) :
    Cleanly (fun _ => True) (decodeDelete m e) :=
  (integer_clean false (by decide) (by lia)).bind fun _ _ => trivial

theorem decodeCancel_clean (long : 23 ≤ m.length) :
    Cleanly (fun _ => True) (decodeCancel m e) := by
  refine (integer_clean false (by decide) (by lia)).bind fun _ _ => ?_
  exact (integer_clean false (by decide) (by lia)).bind fun _ _ => trivial

/-- The price of an execution is only read in the longer record. -/
theorem executionPrice_clean
    {priced : Bool} (long : priced = true → 36 ≤ m.length) :
    Cleanly (fun _ => True) (executionPrice m priced) := by
  refine .ite (fun isPriced => ?_) fun _ => trivial
  have size := long isPriced
  refine (byteAt_clean (by lia)).bind fun _ _ => ?_
  refine (require_clean (by decide)).bind fun _ _ => ?_
  exact integer_clean false (by decide) (by lia)

theorem decodeExecute_clean
    {priced : Bool} (long : 31 ≤ m.length)
    (longer : priced = true → 36 ≤ m.length) :
    Cleanly (fun _ => True) (decodeExecute m priced e) := by
  refine (integer_clean false (by decide) (by lia)).bind fun _ _ => ?_
  refine (integer_clean false (by decide) (by lia)).bind fun _ _ => ?_
  refine (integer_clean false (by decide) (by lia)).bind fun _ _ => ?_
  exact (executionPrice_clean longer).bind fun _ _ => trivial

/-- The table gives every type the length that its branch reads. -/
theorem decodeOrder_clean
    (found : (kind, m.length) ∈ lengths) (isOrder : kind ∈ orderKinds) :
    Cleanly (fun _ => True) (decodeOrder m kind e) := by
  have size (want : Nat) (known : (kind, want) ∈ lengths) :
      m.length = want := length_eq found known
  refine .ite (fun isAdd => decodeAdd_clean ?_) fun notAdd => ?_
  · rcases isAdd with rfl | rfl
    · exact Nat.le_of_eq (size 36 (by decide)).symm
    · have long := size 40 (by decide)
      lia
  refine .ite (fun isReplace => decodeReplace_clean ?_) fun notReplace => ?_
  · subst isReplace
    exact Nat.le_of_eq (size 35 (by decide)).symm
  refine .ite (fun isTrade => decodeTrade_clean ?_) fun notTrade => ?_
  · rcases isTrade with rfl | rfl
    · exact Nat.le_of_eq (size 44 (by decide)).symm
    · exact Nat.le_of_eq (size 40 (by decide)).symm
  refine .ite (fun isDelete => decodeDelete_clean ?_) fun notDelete => ?_
  · subst isDelete
    exact Nat.le_of_eq (size 19 (by decide)).symm
  refine .ite (fun isCancel => decodeCancel_clean ?_) fun notCancel => ?_
  · subst isCancel
    exact Nat.le_of_eq (size 23 (by decide)).symm
  -- Only the two executions are left.
  have isExecution : kind = byte 'E' ∨ kind = byte 'C' := by
    simp only [orderKinds, List.mem_cons, List.not_mem_nil, or_false]
      at isOrder
    tauto
  rcases isExecution with rfl | rfl
  · have long := size 31 (by decide)
    exact decodeExecute_clean (by lia) fun priced => absurd priced (by decide)
  · have long := size 36 (by decide)
    exact decodeExecute_clean (by lia) fun _ => by lia

end Itch

namespace Itch50Decoder

open Itch

variable {m : Bytes} {e : Event}

theorem decodeSystem_clean
    (decoder : Itch50Decoder) (long : 12 ≤ m.length) :
    Cleanly (fun _ => True) (decoder.decodeSystem m e) := by
  refine (byteAt_clean (by lia)).bind fun _ _ => ?_
  exact (require_clean (by decide)).bind fun _ _ => trivial

theorem decodeDirectory_clean
    (decoder : Itch50Decoder) (locate : Nat) (long : 39 ≤ m.length) :
    Cleanly (fun _ => True) (decoder.decodeDirectory m locate e) := by
  refine (require_clean (by decide)).bind fun _ _ => ?_
  refine (symbol_clean (by lia)).bind fun _ _ => ?_
  exact (require_clean (by decide)).bind fun _ _ => trivial

/-- Each record is long enough for the fields of its kind. -/
theorem dispatch_clean
    {header : Header} (decoder : Itch50Decoder)
    (found : (header.kind, m.length) ∈ lengths) :
    Cleanly (fun _ => True) (decoder.dispatch header m) := by
  refine .ite (fun _ => decoder.decodeSystem_clean (lengths_long _ found))
    fun _ => ?_
  refine .ite (fun isDirectory => ?_) fun _ => ?_
  · rw [isDirectory] at found
    exact decoder.decodeDirectory_clean _
      (Nat.le_of_eq (length_eq found (by decide)).symm)
  refine .ite (fun isOrder => ?_) fun _ => trivial
  cases decoder.symbols.find? header.locate with
  | none => exact throws_clean (by decide)
  | some name => exact (decodeOrder_clean found isOrder).bind fun _ _ => trivial

/-- A record whose length was checked is decoded inside its bytes. -/
theorem decodeRecord_clean (decoder : Itch50Decoder) (m : Bytes) :
    Cleanly (fun _ => True) (decoder.decodeRecord m) := by
  refine (require_clean (by decide)).bind fun _ _ => ?_
  refine (readHeader_clean _ m).bind fun header found => ?_
  refine (decoder.dispatch_clean found).bind ?_
  rintro ⟨next, e⟩ _
  trivial

/-- The decoder reads inside every record, whatever its bytes. -/
theorem decode_clean (decoder : Itch50Decoder) (m : Bytes) :
    Cleanly (fun _ => True) (decoder.decode m).2 := by
  have clean := decoder.decodeRecord_clean m
  unfold decode
  split_ifs
  · exact throws_clean (by decide)
  · split
    · trivial
    · next fault threw =>
      rw [threw] at clean
      exact clean

end Itch50Decoder

/-! ## PITCH -/

namespace Pitch

/-- One iteration of the loop, wherever the iterations before have led. -/
theorem walkMessage_clean
    (p : Bytes) (channel : UInt8) (sequence : Nat) (walk : Walk)
    (index : Nat) :
    Cleanly (fun _ => True) (walkMessage p channel sequence walk index) := by
  refine (require_clean (by decide)).bind fun _ _ => ?_
  refine (require_clean (by decide)).bind fun _ header => ?_
  rw [decide_eq_true_eq] at header
  refine (byteAt_clean (by lia)).bind fun length _ => ?_
  refine (require_clean (by decide)).bind fun _ bounded => ?_
  rw [decide_eq_true_eq] at bounded
  refine (subspan_clean (by lia)).bind fun m isMessage => ?_
  have long : 6 ≤ m.length := by
    rw [isMessage, List.length_take, List.length_drop]
    lia
  refine (decodeMessage_clean long).bind ?_
  rintro ⟨state, e⟩ _
  trivial

end Pitch

namespace PitchDecoder

open Pitch

/-- The loop over messages stays inside its packet. -/
theorem decodeMessages_clean
    (units : UInt8 → PitchUnit) (p : Bytes) (channel : UInt8)
    (sequence count : Nat) :
    Cleanly (fun _ => True)
      (decodeMessages units p channel sequence count) := by
  refine (require_clean (by decide)).bind fun _ _ => ?_
  refine (require_clean (by decide)).bind fun _ _ => ?_
  refine (require_clean (by decide)).bind fun _ _ => ?_
  have walked : Cleanly (fun _ => True)
      ((List.range count).foldlM (walkMessage p channel sequence)
        ⟨units channel, 8, []⟩) :=
    Fallible.Ends.foldlM (fun _ _ => True) trivial
      fun _ index walk _ _ => walkMessage_clean p channel sequence walk index
  refine walked.bind fun _ _ => ?_
  exact (require_clean (by decide)).bind fun _ _ => trivial

/-- A packet is read inside the length that its header states. -/
theorem decodePacket_clean (units : UInt8 → PitchUnit) (p : Bytes) :
    Cleanly (fun _ => True) (decodePacket units p) := by
  refine (require_clean (by decide)).bind fun _ header => ?_
  rw [decide_eq_true_eq] at header
  refine (integer_clean true (by decide) (by lia)).bind fun _ _ => ?_
  refine (require_clean (by decide)).bind fun _ _ => ?_
  refine (byteAt_clean (by lia)).bind fun _ _ => ?_
  refine (byteAt_clean (by lia)).bind fun _ _ => ?_
  refine (integer_clean true (by decide) (by lia)).bind fun _ _ => ?_
  refine .ite (fun _ => ?_) fun _ => decodeMessages_clean ..
  exact (require_clean (by decide)).bind fun _ _ => trivial

/-- The decoder reads inside every packet, whatever its bytes. -/
theorem decode_clean (decoder : PitchDecoder) (p : Bytes) :
    Cleanly (fun _ => True) (decoder.decode p).2 := by
  have clean := decodePacket_clean decoder.units p
  unfold decode
  split_ifs
  · exact throws_clean (by decide)
  · split
    · trivial
    · next fault threw =>
      rw [threw] at clean
      exact clean

end PitchDecoder

/-! ## Both -/

/-- A call that returns or throws an error about what its input says. -/
def ReturnsOrThrows {α : Type} (outcome : Except Fault α) : Prop :=
  (∃ value, outcome = .ok value) ∨
    ∃ what, outcome = .error (.thrown what) ∧
      what ≠ "Truncated integer" ∧ what ≠ "Truncated symbol"

/-- What is clean returns, or throws a text of its own. -/
theorem returnsOrThrows_of_clean
    {α : Type} {outcome : Except Fault α}
    (clean : Cleanly (fun _ => True) outcome) : ReturnsOrThrows outcome := by
  cases outcome with
  | ok value => exact .inl ⟨value, rfl⟩
  | error fault =>
      cases fault with
      | outOfBounds =>
          have allowed : Intended .outOfBounds := clean
          exact absurd allowed (by decide)
      | thrown what =>
          have allowed : Intended (.thrown what) := clean
          simp only [Intended, boundsFaults, List.mem_cons, reduceCtorEq,
            Fault.thrown.injEq, List.not_mem_nil, or_false, false_or,
            not_or] at allowed
          exact .inr ⟨what, rfl, allowed⟩

/-- No decoder ever reads outside its input, in any state on any bytes. -/
theorem decoders_read_inside
    (itch : Itch50Decoder) (pitch : PitchDecoder) (input : Bytes) :
    ReturnsOrThrows (itch.decode input).2 ∧
      ReturnsOrThrows (pitch.decode input).2 :=
  ⟨returnsOrThrows_of_clean (itch.decode_clean input),
    returnsOrThrows_of_clean (pitch.decode_clean input)⟩

end LimitOrderBook.Feed
