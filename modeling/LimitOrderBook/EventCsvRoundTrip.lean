import LimitOrderBook.EventCsv

namespace LimitOrderBook.EventCsv

/-!
# What the lines of events say

A line is accepted as an event exactly when it has seven fields that spell the
event: numbers that denote its numbers without wrapping, a word for its type
and one for its side, and nothing where the type has no use for a field.
-/

/-! ## Fields -/

/-- A numeral of a width: digits that denote a value with room in the width. -/
structure Numeral (width : Nat) (text : Line) (value : Nat) : Prop where
  nonempty : text ≠ []
  digits : ∀ c ∈ text, c.isDigit = true
  denotes : Nat.ofDigitChars 10 text 0 = value
  fits : value < 2 ^ width

/-- A text is taken whole if each of its characters passes. -/
theorem takeWhile_whole
    {text : Line} {passes : Char → Bool} :
    (text.takeWhile passes).length = text.length ↔
      ∀ c ∈ text, passes c = true := by
  rw [← List.takeWhile_eq_self_iff]
  constructor
  · exact (List.takeWhile_prefix passes).eq_of_length
  · exact congrArg List.length

/-- The numbers that are parsed are the numerals of a width. -/
theorem parseInteger_iff
    {width value : Nat} {text : Line} :
    parseInteger width text = some value ↔ Numeral width text value := by
  unfold parseInteger fromChars
  constructor
  · intro parsed
    split at parsed
    next read consumed found =>
      dsimp only at found
      split_ifs at parsed with whole
      split_ifs at found with valid
      cases found
      cases parsed
      have digits := takeWhile_whole.mp whole
      rw [List.takeWhile_eq_self_iff.mpr digits] at valid ⊢
      exact ⟨valid.1, digits, rfl, valid.2⟩
    next => cases parsed
  · rintro ⟨nonempty, digits, rfl, fits⟩
    dsimp only
    rw [List.takeWhile_eq_self_iff.mpr digits, if_pos ⟨nonempty, fits⟩]
    exact if_pos rfl

/-- A word for a side. -/
def SideWord (text : Line) (side : Side) : Prop :=
  (side = .bid ∧ text ∈ bidWords) ∨ (side = .ask ∧ text ∈ askWords)

/-- No word names both sides. -/
theorem words_apart : ∀ text ∈ bidWords, text ∉ askWords := by
  decide

/-- The sides that are parsed are those with a word. -/
theorem parseSide_iff
    {text : Line} {side : Side} :
    parseSide text = some side ↔ SideWord text side := by
  unfold parseSide SideWord
  split_ifs with isBid isAsk
  · have notAsk := words_apart text isBid
    simp only [Option.some.injEq, isBid, notAsk, and_true, and_false,
      or_false]
    exact eq_comm
  · simp only [Option.some.injEq, isBid, isAsk, and_true, and_false,
      false_or]
    exact eq_comm
  · simp only [isBid, isAsk, and_false, or_false]

/-- The fields behind the order spell a payload, or are empty without use. -/
def SpellsPayload (type side price quantity : Line) : EventPayload → Prop
  | .add event =>
      type = "ADD".toList ∧ SideWord side event.side ∧
        Numeral 32 price event.price ∧ Numeral 32 quantity event.quantity
  | .cancel _ =>
      type = "CANCEL".toList ∧ side = [] ∧ price = [] ∧ quantity = []
  | .execute event =>
      type = "EXECUTE".toList ∧ side = [] ∧ price = [] ∧
        Numeral 32 quantity event.quantity

/-- Seven fields spell an event. -/
inductive Spells : List Line → MarketEvent → Prop where
  | intro {sequence instrument type order side price quantity : Line}
      {event : MarketEvent}
      (isSequence : Numeral 64 sequence event.sequence)
      (isInstrument : Numeral 64 instrument event.instrumentId)
      (isOrder : Numeral 64 order event.payload.orderId)
      (isPayload : SpellsPayload type side price quantity event.payload) :
      Spells [sequence, instrument, type, order, side, price, quantity] event

/-- A field is accepted when it was parsed. -/
theorem field_ok
    {α : Type} {parsed : Option α} {error : String} {value : α} :
    field parsed error = .ok value ↔ parsed = some value := by
  cases parsed with
  | none => simp [field]
  | some found => simp [field]

/-- A field that is a number of a width. -/
theorem number_ok
    {width value : Nat} {text : Line} {error : String} :
    field (parseInteger width text) error = .ok value ↔
      Numeral width text value :=
  field_ok.trans parseInteger_iff

/-- The payloads that are parsed, by the fields they use. -/
theorem parsePayload_iff
    {order : OrderId} {type side price quantity : Line}
    {payload : EventPayload} :
    parsePayload order type side price quantity = .ok payload ↔
      payload.orderId = order ∧
        SpellsPayload type side price quantity payload := by
  constructor
  · intro parsed
    unfold parsePayload at parsed
    split_ifs at parsed with isAdd isCancel notEmpty isExecute unused
    · obtain ⟨sideValue, sideRead, parsed⟩ := Fallible.bind_ok parsed
      obtain ⟨priceValue, priceRead, parsed⟩ := Fallible.bind_ok parsed
      obtain ⟨quantityValue, quantityRead, parsed⟩ := Fallible.bind_ok parsed
      cases parsed
      exact ⟨rfl, isAdd, parseSide_iff.mp (field_ok.mp sideRead),
        number_ok.mp priceRead, number_ok.mp quantityRead⟩
    · cases parsed
      push Not at notEmpty
      exact ⟨rfl, isCancel, notEmpty⟩
    · obtain ⟨quantityValue, quantityRead, parsed⟩ := Fallible.bind_ok parsed
      cases parsed
      push Not at unused
      exact ⟨rfl, isExecute, unused.1, unused.2, number_ok.mp quantityRead⟩
  · rintro ⟨rfl, spells⟩
    cases payload with
    | add event =>
        obtain ⟨rfl, isSide, isPrice, isQuantity⟩ := spells
        have sideRead := parseSide_iff.mpr isSide
        have priceRead := parseInteger_iff.mpr isPrice
        have quantityRead := parseInteger_iff.mpr isQuantity
        rw [parsePayload, if_pos rfl, sideRead, priceRead, quantityRead]
        rfl
    | cancel event =>
        obtain ⟨rfl, rfl, rfl, rfl⟩ := spells
        rfl
    | execute event =>
        obtain ⟨rfl, rfl, rfl, isQuantity⟩ := spells
        have quantityRead := parseInteger_iff.mpr isQuantity
        rw [parsePayload, if_neg (by decide), if_neg (by decide), if_pos rfl,
          if_neg (by decide), quantityRead]
        rfl

/-- The events that are parsed, field by field. -/
theorem parseFields_iff
    {fields : List Line} {event : MarketEvent} :
    parseFields fields = .ok event ↔ Spells fields event := by
  constructor
  · intro parsed
    unfold parseFields at parsed
    split at parsed
    · obtain ⟨sequence, isSequence, parsed⟩ := Fallible.bind_ok parsed
      obtain ⟨instrument, isInstrument, parsed⟩ := Fallible.bind_ok parsed
      obtain ⟨order, isOrder, parsed⟩ := Fallible.bind_ok parsed
      obtain ⟨payload, isPayload, parsed⟩ := Fallible.bind_ok parsed
      cases parsed
      obtain ⟨rfl, spells⟩ := parsePayload_iff.mp isPayload
      exact .intro (number_ok.mp isSequence) (number_ok.mp isInstrument)
        (number_ok.mp isOrder) spells
    · cases parsed
  · intro spells
    cases spells with
    | intro isSequence isInstrument isOrder isPayload =>
        have payloadRead := parsePayload_iff.mpr ⟨rfl, isPayload⟩
        rw [parseFields, number_ok.mpr isSequence, number_ok.mpr isInstrument,
          number_ok.mpr isOrder]
        simp only [Bind.bind, Except.bind, payloadRead]

/-! ## Lines -/

/-- The loop over commas splits the line. -/
theorem splitFrom_eq
    (line : Line) {fuel start : Nat} (inside : start ≤ line.length)
    (enough : line.length - start < fuel) :
    splitFrom line fuel start = (line.drop start).splitOn ',' := by
  induction fuel generalizing start with
  | zero => simp at enough
  | succ fuel inductionHypothesis =>
      rw [splitFrom, if_pos inside]
      split
      next noComma =>
        rw [List.findIdx?_eq_none_iff] at noComma
        refine (List.splitOn_eq_singleton fun member => ?_).symm
        simpa using noComma ',' member
      next length found =>
        obtain ⟨small, isComma, before⟩ :=
          List.findIdx?_eq_some_iff_getElem.mp found
        have inLine : start + length < line.length := by
          rw [List.length_drop] at small
          lia
        rw [decide_eq_true_eq] at isComma
        have cut : line.drop start = (line.drop start).take length ++
            ',' :: line.drop (start + length + 1) := by
          have split := List.take_append_drop length (line.drop start)
          rw [List.drop_eq_getElem_cons small, isComma, List.drop_drop]
            at split
          exact split.symm
        have noComma : ',' ∉ (line.drop start).take length := by
          intro member
          obtain ⟨i, early, isHere⟩ := List.mem_iff_getElem.mp member
          rw [List.length_take] at early
          have other := before i (by lia)
          rw [List.getElem_take] at isHere
          simp [isHere] at other
        rw [inductionHypothesis (by lia) (by lia)]
        conv_rhs => rw [cut]
        exact (List.splitOn_append_cons_self_of_not_mem noComma _).symm

/-- The loop finds the fields between the commas. -/
theorem splitCsv_eq (line : Line) : splitCsv line = line.splitOn ',' := by
  rw [splitCsv, splitFrom_eq line (Nat.zero_le _) (by lia), List.drop_zero]

/-- A line spells an event in its seven fields. -/
def Accepted (line : Line) (event : MarketEvent) : Prop :=
  Spells (line.splitOn ',') event

/-- A line that spells an event starts with a digit, so it is not skipped. -/
theorem Accepted.not_skipped
    {line : Line} {event : MarketEvent} (accepted : Accepted line event) :
    skipped line = false := by
  have joined : [','].intercalate (line.splitOn ',') = line :=
    List.intercalate_splitOn ','
  unfold Accepted at accepted
  generalize line.splitOn ',' = fields at accepted joined
  cases accepted with
  | @intro sequence instrument type order side price quantity event
      isSequence isInstrument isOrder isPayload =>
      obtain ⟨nonempty, digits, _, _⟩ := isSequence
      cases sequence with
      | nil => exact absurd rfl nonempty
      | cons first rest =>
          have isDigit := digits first (by simp)
          rw [List.intercalate_cons_cons, List.cons_append, List.cons_append]
            at joined
          rw [← joined]
          have notComment : first ≠ '#' := by
            rintro rfl
            exact absurd isDigit (by decide)
          have notHeader : first ≠ 's' := by
            rintro rfl
            exact absurd isDigit (by decide)
          simp [skipped, notComment, notHeader.symm, List.isPrefixOf]

/-- The lines that are accepted, and as which event. -/
theorem parseEventLine_event_iff
    {line : Line} {event : MarketEvent} :
    (parseEventLine line).event = some event ↔
      Accepted (strip line) event := by
  unfold parseEventLine
  constructor
  · intro answered
    split_ifs at answered
    split at answered
    next other parsed =>
      cases answered
      rw [splitCsv_eq] at parsed
      exact parseFields_iff.mp parsed
    next => cases answered
  · intro accepted
    have parsed := parseFields_iff.mpr accepted
    rw [accepted.not_skipped, splitCsv_eq, parsed]
    rfl

/-! ## Writing -/

/-- A number is printed as a numeral. -/
theorem numeral_decimal
    {width value : Nat} (fits : value < 2 ^ width) :
    Numeral width (decimal value) value where
  nonempty := Nat.toDigits_ne_nil
  digits _ member := Nat.isDigit_of_mem_toDigits (by decide) (by decide) member
  denotes := Nat.ofDigitChars_ten_toDigits
  fits := fits

/-- The fields of the line of an event. -/
def eventFields (event : MarketEvent) : List Line :=
  [decimal event.sequence, decimal event.instrumentId] ++
    match event.payload with
    | .add add =>
        ["ADD".toList, decimal add.orderId,
          (if add.side = .bid then "BID" else "ASK").toList,
          decimal add.price, decimal add.quantity]
    | .cancel cancel => ["CANCEL".toList, decimal cancel.orderId, [], [], []]
    | .execute execute =>
        ["EXECUTE".toList, decimal execute.orderId, [], [],
          decimal execute.quantity]

/-- A line is its fields with commas between them. -/
theorem writeEventCsv_eq (event : MarketEvent) :
    writeEventCsv event =
      [','].intercalate (eventFields event) ++ ['\n'] := by
  obtain ⟨sequence, instrument, payload⟩ := event
  have add : "ADD,".toList = "ADD".toList ++ [','] := by decide
  have cancel : "CANCEL,".toList = "CANCEL".toList ++ [','] := by decide
  have execute : "EXECUTE,".toList = "EXECUTE".toList ++ [','] := by decide
  have none : ",,,".toList = [',', ',', ','] := by decide
  have noneEnd : ",,,\n".toList = [',', ',', ',', '\n'] := by decide
  cases payload <;>
    simp only [writeEventCsv, payloadPieces, eventFields, add, cancel, execute,
      none, noneEnd, List.flatten_cons, List.flatten_nil, List.append_nil,
      List.cons_append, List.nil_append, List.append_assoc,
      List.intercalate_cons_cons, List.intercalate_singleton]

/-- The characters of joined fields are theirs and the commas. -/
theorem mem_join
    {fields : List Line} {c : Char} (member : c ∈ [','].intercalate fields) :
    c = ',' ∨ ∃ text ∈ fields, c ∈ text := by
  induction fields with
  | nil => simp at member
  | cons first rest inductionHypothesis =>
      cases rest with
      | nil =>
          rw [List.intercalate_singleton] at member
          exact .inr ⟨first, by simp, member⟩
      | cons second more =>
          rw [List.intercalate_cons_cons, List.mem_append, List.mem_append]
            at member
          rcases member with (inFirst | isComma) | later
          · exact .inr ⟨first, by simp, inFirst⟩
          · exact .inl (List.mem_singleton.mp isComma)
          · refine (inductionHypothesis later).imp_right ?_
            rintro ⟨text, textMember, inText⟩
            exact ⟨text, List.mem_cons_of_mem _ textMember, inText⟩

/-- Printed numbers have digits only. -/
theorem decimal_alphanum (value : Nat) :
    ∀ c ∈ decimal value, c.isAlphanum = true := by
  intro c member
  have isDigit : c.isDigit = true :=
    Nat.isDigit_of_mem_toDigits (by decide) (by decide) member
  rw [Char.isAlphanum, isDigit, Bool.or_true]

/-- Fields are letters and digits. -/
theorem eventFields_alphanum (event : MarketEvent) :
    ∀ text ∈ eventFields event, ∀ c ∈ text, c.isAlphanum = true := by
  have numbers := decimal_alphanum
  have sides (side : Side) : ∀ c ∈
      (if side = .bid then "BID" else "ASK").toList, c.isAlphanum = true := by
    split_ifs
    · simp
    · simp
  have words : ∀ word ∈ ["ADD".toList, "CANCEL".toList, "EXECUTE".toList, []],
      ∀ c ∈ word, c.isAlphanum = true := by
    simp
  unfold eventFields
  cases event.payload with
  | add add =>
      simp only [List.cons_append, List.nil_append, List.forall_mem_cons]
      exact ⟨numbers _, numbers _, words _ (by simp), numbers _, sides _,
        numbers _, numbers _, by simp⟩
  | cancel cancel =>
      simp only [List.cons_append, List.nil_append, List.forall_mem_cons]
      exact ⟨numbers _, numbers _, words _ (by simp), numbers _,
        words _ (by simp), words _ (by simp), words _ (by simp), by simp⟩
  | execute execute =>
      simp only [List.cons_append, List.nil_append, List.forall_mem_cons]
      exact ⟨numbers _, numbers _, words _ (by simp), numbers _,
        words _ (by simp), words _ (by simp), numbers _, by simp⟩

/-- Characters at the end of a line are stripped, and no others. -/
theorem strip_append
    {body ending : Line} (noEnd : ∀ c ∈ body, isLineEnd c = false)
    (isEnding : ∀ c ∈ ending, isLineEnd c = true) :
    strip (body ++ ending) = body := by
  induction ending using List.reverseRecOn with
  | nil =>
      rw [List.append_nil, strip, List.rdropWhile_eq_self_iff]
      intro nonempty
      rw [noEnd _ (List.getLast_mem nonempty)]
      exact Bool.false_ne_true
  | append_singleton ending last inductionHypothesis =>
      have lastEnds := isEnding last (by simp)
      rw [← List.append_assoc, strip,
        List.rdropWhile_concat_pos _ _ _ lastEnds]
      exact inductionHypothesis fun c member => isEnding c (by simp [member])

/-- What is written spells the event it is written from. -/
theorem strip_writeEventCsv
    (event : MarketEvent) {ending : Line}
    (isEnding : ∀ c ∈ ending, isLineEnd c = true) :
    strip (writeEventCsv event ++ ending) =
      [','].intercalate (eventFields event) := by
  rw [writeEventCsv_eq, List.append_assoc]
  refine strip_append ?_ ?_
  · intro c member
    cases isEnd : isLineEnd c with
    | false => rfl
    | true =>
        rw [isLineEnd, decide_eq_true_eq] at isEnd
        rcases mem_join member with rfl | ⟨text, textMember, inText⟩
        · exact absurd isEnd (by decide)
        · have plain := eventFields_alphanum event text textMember c inText
          rcases isEnd with rfl | rfl
          · exact absurd plain (by decide)
          · exact absurd plain (by decide)
  · intro c member
    rcases List.mem_append.mp member with first | later
    · rw [List.mem_singleton.mp first]
      decide
    · exact isEnding c later

/-- The fields that are written spell their event. -/
theorem eventFields_spell
    {event : MarketEvent} (encodable : event.Encodable) :
    Spells (eventFields event) event := by
  obtain ⟨isSequence, isInstrument, isOrder, isPrice, isQuantity, isSide⟩ :=
    encodable
  obtain ⟨sequence, instrument, payload⟩ := event
  cases payload with
  | add add =>
      refine .intro (numeral_decimal isSequence)
        (numeral_decimal isInstrument) (numeral_decimal isOrder)
        ⟨rfl, ?_, numeral_decimal isPrice, numeral_decimal isQuantity⟩
      rcases isSide with isBid | isAsk
      · rw [isBid]
        exact .inl ⟨rfl, by decide⟩
      · rw [isAsk]
        exact .inr ⟨rfl, by decide⟩
  | cancel cancel =>
      exact .intro (numeral_decimal isSequence)
        (numeral_decimal isInstrument) (numeral_decimal isOrder)
        ⟨rfl, rfl, rfl, rfl⟩
  | execute execute =>
      exact .intro (numeral_decimal isSequence)
        (numeral_decimal isInstrument) (numeral_decimal isOrder)
        ⟨rfl, rfl, rfl, numeral_decimal isQuantity⟩

/-- The line that is written is accepted. -/
theorem accepted_writeEventCsv
    {event : MarketEvent} (encodable : event.Encodable) :
    Accepted ([','].intercalate (eventFields event)) event := by
  have noComma : ∀ text ∈ eventFields event, ',' ∉ text := by
    intro text member inText
    exact absurd (eventFields_alphanum event text member ',' inText)
      (by decide)
  rw [Accepted, List.splitOn_intercalate ',' noComma (by simp [eventFields])]
  exact eventFields_spell encodable

/-- It is parsed with any line ending behind it. -/
theorem parse_writeEventCsv
    {event : MarketEvent} (encodable : event.Encodable) {ending : Line}
    (isEnding : ∀ c ∈ ending, isLineEnd c = true) :
    (parseEventLine (writeEventCsv event ++ ending)).event = some event := by
  rw [parseEventLine_event_iff, strip_writeEventCsv event isEnding]
  exact accepted_writeEventCsv encodable

/-! ## Outcomes -/

/-- An event that a line spells is valid. -/
theorem Spells.encodable
    {fields : List Line} {event : MarketEvent} (spells : Spells fields event) :
    event.Encodable := by
  cases spells with
  | intro isSequence isInstrument isOrder isPayload =>
      obtain ⟨sequence, instrument, payload⟩ := event
      refine ⟨isSequence.fits, isInstrument.fits, isOrder.fits, ?_, ?_, ?_⟩
      · cases payload with
        | add add => exact isPayload.2.2.1.fits
        | cancel cancel => exact Nat.two_pow_pos 32
        | execute execute => exact Nat.two_pow_pos 32
      · cases payload with
        | add add => exact isPayload.2.2.2.fits
        | cancel cancel => exact Nat.two_pow_pos 32
        | execute execute => exact isPayload.2.2.2.fits
      · cases payload with
        | add add => exact isPayload.2.1.imp And.left And.left
        | cancel cancel => trivial
        | execute execute => trivial

/-- An event comes without an error. -/
theorem parseEventLine_event
    {line : Line} {event : MarketEvent}
    (answered : (parseEventLine line).event = some event) :
    parseEventLine line = { event := some event } := by
  unfold parseEventLine at answered ⊢
  split_ifs at answered ⊢
  split at answered
  next => exact congrArg (fun event => ParseResult.mk event "") answered
  next => cases answered

/-- A parse that ends in an event or with a message. -/
abbrev Stated {α : Type} (parse : Except String α) : Prop :=
  Fallible.Ends (fun error => error ≠ "") (fun _ => True) parse

/-- An error with a text is stated. -/
theorem refusal_stated
    {α : Type} {error : String} (stated : error ≠ "") :
    Stated (.error error : Except String α) :=
  stated

/-- A field is refused with its text. -/
theorem field_stated
    {α : Type} {parsed : Option α} {error : String} (stated : error ≠ "") :
    Stated (field parsed error) := by
  cases parsed with
  | none => exact stated
  | some value => trivial

/-- Every payload that is refused has its text. -/
theorem parsePayload_stated
    (order : OrderId) (type side price quantity : Line) :
    Stated (parsePayload order type side price quantity) := by
  refine .ite (fun _ => ?_) fun _ => .ite (fun _ => ?_) fun _ =>
    .ite (fun _ => ?_) fun _ => refusal_stated (by decide)
  · refine (field_stated (by decide)).bind fun _ _ => ?_
    refine (field_stated (by decide)).bind fun _ _ => ?_
    exact (field_stated (by decide)).bind fun _ _ => trivial
  · exact .ite (fun _ => refusal_stated (by decide)) fun _ => trivial
  · refine .ite (fun _ => refusal_stated (by decide)) fun _ => ?_
    exact (field_stated (by decide)).bind fun _ _ => trivial

/-- Whatever is refused is refused with a message. -/
theorem parseFields_stated (fields : List Line) :
    Stated (parseFields fields) := by
  unfold parseFields
  split
  · refine (field_stated (by decide)).bind fun _ _ => ?_
    refine (field_stated (by decide)).bind fun _ _ => ?_
    refine (field_stated (by decide)).bind fun _ _ => ?_
    exact (parsePayload_stated ..).bind fun _ _ => trivial
  · exact refusal_stated (by decide)

/-- A line that is neither skipped nor accepted is an error. -/
theorem parseEventLine_error
    {line : Line} (notSkipped : skipped (strip line) = false)
    (refused : ∀ event, ¬ Accepted (strip line) event) :
    (parseEventLine line).event = none ∧ (parseEventLine line).error ≠ "" := by
  have stated := parseFields_stated (splitCsv (strip line))
  rw [parseEventLine, notSkipped, if_neg Bool.false_ne_true]
  cases parsed : parseFields (splitCsv (strip line)) with
  | ok event =>
      rw [splitCsv_eq] at parsed
      exact absurd (parseFields_iff.mp parsed) (refused event)
  | error error =>
      rw [parsed] at stated
      exact ⟨rfl, stated⟩

/-- What is written is read back, and what is read is what was written. -/
structure RoundTrips : Prop where
  written : ∀ (event : MarketEvent) (ending : Line), event.Encodable →
    (∀ c ∈ ending, c = '\n' ∨ c = '\r') →
      parseEventLine (writeEventCsv event ++ ending) =
        { event := some event, error := "" }
  accepted : ∀ (line : Line) (event : MarketEvent),
    (parseEventLine line).event = some event ↔ Accepted (strip line) event
  rewritten : ∀ (line : Line) (event : MarketEvent),
    (parseEventLine line).event = some event →
      event.Encodable ∧ (parseEventLine line).error = "" ∧
        parseEventLine (writeEventCsv event) =
          { event := some event, error := "" }
  refused : ∀ line : Line, skipped (strip line) = false →
    (∀ event, ¬ Accepted (strip line) event) →
      (parseEventLine line).event = none ∧ (parseEventLine line).error ≠ ""

/-- Events survive the way through their lines. -/
theorem event_lines_round_trip : RoundTrips where
  written event ending encodable isEnding :=
    parseEventLine_event
      (parse_writeEventCsv encodable fun c member =>
        decide_eq_true (isEnding c member))
  accepted line event := parseEventLine_event_iff
  rewritten line event answered := by
    have encodable := (parseEventLine_event_iff.mp answered).encodable
    have noEnding : ∀ c ∈ ([] : Line), isLineEnd c = true := by simp
    have again := parse_writeEventCsv encodable noEnding
    rw [List.append_nil] at again
    refine ⟨encodable, ?_, parseEventLine_event again⟩
    rw [parseEventLine_event answered]
  refused line notSkipped refused := parseEventLine_error notSkipped refused

end LimitOrderBook.EventCsv
