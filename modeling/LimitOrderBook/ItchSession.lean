import LimitOrderBook.ItchReplay

namespace LimitOrderBook.Feed

open Itch

/-!
# The session that an ITCH decoder admits

What the raw bytes of the accepted messages say about a session: the first one
starts it, directories name the symbol of a locate for the rest of it, orders
and trades go to the symbol of their locate, and the end of messages closes
it.  The state of the decoder is determined by the messages that it accepted,
and every rule about the next message is read off that state.
-/

namespace Itch

/-- A system message with an event code. -/
def IsSystem (code : Char) (m : Bytes) : Prop :=
  m[0]? = some (byte 'S') ∧ m[11]? = some (byte code)

instance (code : Char) (m : Bytes) : Decidable (IsSystem code m) :=
  inferInstanceAs (Decidable (_ ∧ _))

def IsDirectory (m : Bytes) : Prop :=
  m[0]? = some (byte 'R')

instance (m : Bytes) : Decidable (IsDirectory m) :=
  inferInstanceAs (Decidable (_ = _))

/-- An order or trade message. -/
def IsOrder (m : Bytes) : Prop :=
  ∃ kind ∈ orderKinds, m[0]? = some kind

/-- The symbol field at a position, without its padding. -/
def symbolField (m : Bytes) (pos : Nat) : Text :=
  ((m.drop pos).take 8).rdropWhile fun byte => decide (byte = 32)

/-- The directory message of a locate and its symbol. -/
def Announces (m : Bytes) (locate : Nat) (name : Text) : Prop :=
  IsDirectory m ∧ Extraction.locateOf m = locate ∧ symbolField m 11 = name

/-- Where an order or trade message carries a symbol of its own. -/
def symbolPosition (kind : UInt8) : Option Nat :=
  if kind = byte 'A' ∨ kind = byte 'F' ∨ kind = byte 'P' then
    some 24
  else if kind = byte 'Q' then
    some 19
  else
    none

/-- The messages since the latest start of messages. -/
def session (messages : List Bytes) : List Bytes :=
  messages.foldl
    (fun since m => if IsSystem 'O' m then [] else since ++ [m]) []

theorem session_concat (messages : List Bytes) (m : Bytes) :
    session (messages ++ [m]) =
      if IsSystem 'O' m then [] else session messages ++ [m] := by
  simp [session]

theorem byteAt_ok {m : Bytes} {pos : Nat} {value : UInt8} :
    byteAt m pos = .ok value ↔ m[pos]? = some value := by
  unfold byteAt
  cases m[pos]? with
  | none => simp
  | some stored => simp

/-- The first record starts the messages. -/
theorem readHeader_start
    {first : Bool} {m : Bytes} {header : Header}
    (read : readHeader first m = .ok header) (isFirst : first = true) :
    IsSystem 'O' m := by
  obtain ⟨_, _, read⟩ := Fallible.bind_ok read
  obtain ⟨kind, kindRead, read⟩ := Fallible.bind_ok read
  obtain ⟨_, _, read⟩ := Fallible.bind_ok read
  obtain ⟨_, _, read⟩ := Fallible.bind_ok read
  obtain ⟨_, started, _⟩ := Fallible.bind_ok read
  rw [checkStart, if_pos isFirst] at started
  split_ifs at started with isSystem
  obtain ⟨code, codeRead, started⟩ := Fallible.bind_ok started
  have isStart := of_decide_eq_true (require_safe.of_ok started)
  exact ⟨isSystem ▸ byteAt_ok.mp kindRead, isStart ▸ byteAt_ok.mp codeRead⟩

/-- A symbol that is compared is the field that it was read from. -/
theorem symbolField_of_checked
    {α : Type} {m : Bytes} {pos : Nat} {name : Text} {message : String}
    {rest : Except Fault α} {result : α}
    (checked : (do
      let read ← symbol m pos 8
      require (decide (read = name)) message
      rest) = .ok result) : symbolField m pos = name := by
  obtain ⟨read, isRead, checked⟩ := Fallible.bind_ok checked
  obtain ⟨_, same, _⟩ := Fallible.bind_ok checked
  have isSame := of_decide_eq_true (require_safe.of_ok same)
  exact (symbol_ok isRead).1.symm.trans isSame

/-- An order that carries a symbol carries the one of its locate. -/
theorem decodeOrder_carried
    {m : Bytes} {kind : UInt8} {e decoded : Event} {pos : Nat}
    (isDecoded : decodeOrder m kind e = .ok decoded)
    (carries : symbolPosition kind = some pos) :
    symbolField m pos = e.symbol := by
  unfold symbolPosition at carries
  unfold decodeOrder at isDecoded
  split_ifs at carries with early isCross
  · cases carries
    by_cases isTrade : kind = byte 'P'
    · subst isTrade
      rw [if_neg (by decide), if_neg (by decide), if_pos (by decide)]
        at isDecoded
      obtain ⟨_, _, isDecoded⟩ := Fallible.bind_ok isDecoded
      exact symbolField_of_checked isDecoded
    · have isAdd : kind = byte 'A' ∨ kind = byte 'F' := by
        rcases early with isAdd | isAdd | isLate
        · exact Or.inl isAdd
        · exact Or.inr isAdd
        · exact absurd isLate isTrade
      rw [if_pos isAdd] at isDecoded
      obtain ⟨_, _, isDecoded⟩ := Fallible.bind_ok isDecoded
      obtain ⟨_, _, isDecoded⟩ := Fallible.bind_ok isDecoded
      obtain ⟨_, _, isDecoded⟩ := Fallible.bind_ok isDecoded
      obtain ⟨_, _, isDecoded⟩ := Fallible.bind_ok isDecoded
      exact symbolField_of_checked isDecoded
  · cases carries
    subst isCross
    rw [if_neg (by decide), if_neg (by decide), if_pos (by decide)]
      at isDecoded
    obtain ⟨_, _, isDecoded⟩ := Fallible.bind_ok isDecoded
    exact symbolField_of_checked isDecoded

theorem symbolPosition_order
    {kind : UInt8} {pos : Nat} (carries : symbolPosition kind = some pos) :
    kind ∈ orderKinds := by
  unfold symbolPosition at carries
  split_ifs at carries with early isCross
  · rcases early with rfl | rfl | rfl
    · decide
    · decide
    · decide
  · subst isCross
    decide

/-- The number of an event is the one it was begun with. -/
theorem decodeOrder_numbered
    {m : Bytes} {kind : UInt8} {e decoded : Event}
    (isDecoded : decodeOrder m kind e = .ok decoded) :
    decoded.sequence = e.sequence := by
  have ends : Fallible.Ends (fun _ => True)
      (fun decoded : Event => decoded.sequence = e.sequence)
      (decodeOrder m kind e) := by
    unfold decodeOrder
    split_ifs
    all_goals
      repeat refine (Fallible.Ends.anyhow _).bind fun _ _ => ?_
      exact rfl
  exact ends.of_ok isDecoded

end Itch

namespace Itch50Decoder

variable {decoder next : Itch50Decoder} {m : Bytes} {e : Event}

/-- What an accepted message says and what it does to the decoder. -/
structure Accepts
    (decoder : Itch50Decoder) (m : Bytes) (next : Itch50Decoder) (e : Event) :
    Prop where
  open_ : decoder.complete_ = false
  start : decoder.record = 0 → IsSystem 'O' m
  numbered : e.sequence = decoder.record + 1
  counted : next.record = decoder.record + 1
  running : next.failed = decoder.failed
  complete : next.complete_ = decide (IsSystem 'C' m)
  symbols : next.symbols =
    if IsSystem 'O' m then .empty
    else if IsDirectory m then
      decoder.symbols.emplace (Extraction.locateOf m) (symbolField m 11)
    else decoder.symbols
  agreed : IsDirectory m →
    next.symbols.find? (Extraction.locateOf m) = some (symbolField m 11)
  routed : IsOrder m →
    decoder.symbols.find? (Extraction.locateOf m) = some e.symbol
  carried : ∀ kind pos, m[0]? = some kind → symbolPosition kind = some pos →
    symbolField m pos = e.symbol

/-- A message that is no order is not routed and carries no symbol. -/
theorem accepts_unrouted
    {kind : UInt8} (isKind : m[0]? = some kind) (noOrder : kind ∉ orderKinds) :
    ¬ IsOrder m ∧ ∀ other pos, m[0]? = some other →
      symbolPosition other ≠ some pos := by
  constructor
  · rintro ⟨other, isOrder, isOther⟩
    rw [isKind, Option.some.injEq] at isOther
    exact noOrder (isOther ▸ isOrder)
  · intro other pos isOther carries
    rw [isKind, Option.some.injEq] at isOther
    exact noOrder (isOther ▸ symbolPosition_order carries)

theorem accepts_of_decoded
    (decoded : decoder.decodeRecord m = .ok (next, e)) :
    decoder.Accepts m next e := by
  obtain ⟨_, isOpen, decoded⟩ := Fallible.bind_ok decoded
  obtain ⟨header, read, decoded⟩ := Fallible.bind_ok decoded
  obtain ⟨⟨after, event⟩, dispatched, decoded⟩ := Fallible.bind_ok decoded
  cases decoded
  have open_ := of_decide_eq_true (require_safe.of_ok isOpen)
  obtain ⟨kindRead, locateEq⟩ := readHeader_ok read
  have isKind := byteAt_ok.mp kindRead
  have start : decoder.record = 0 → IsSystem 'O' m := fun first =>
    readHeader_start read (by simp [first])
  have systemKind : ∀ code, IsSystem code m → header.kind = byte 'S' := by
    intro code isSystem
    have same := isSystem.1
    rwa [isKind, Option.some.injEq] at same
  have directoryKind : IsDirectory m → header.kind = byte 'R' := by
    intro isDirectory
    rwa [IsDirectory, isKind, Option.some.injEq] at isDirectory
  unfold dispatch at dispatched
  split_ifs at dispatched with isSystem isDirectory isOrder
  · obtain ⟨unrouted, noSymbol⟩ := accepts_unrouted isKind (by
      rw [isSystem]
      decide)
    obtain ⟨code, codeRead, dispatched⟩ := Fallible.bind_ok dispatched
    obtain ⟨_, _, dispatched⟩ := Fallible.bind_ok dispatched
    cases dispatched
    have isCode := byteAt_ok.mp codeRead
    have codeIff : ∀ other, IsSystem other m ↔ code = byte other := by
      intro other
      simp [IsSystem, isKind, isSystem, isCode]
    have noDirectory : ¬ IsDirectory m := by
      intro isDirectory
      rw [directoryKind isDirectory] at isSystem
      exact absurd isSystem (by decide)
    refine ⟨open_, start, rfl, rfl, rfl, ?_, ?_, ?_, ?_, ?_⟩
    · simp [open_, codeIff]
    · simp [codeIff, noDirectory]
    · exact fun isDirectory => absurd isDirectory noDirectory
    · exact fun isOrder => absurd isOrder unrouted
    · exact fun kind pos same carries => absurd carries (noSymbol kind pos same)
  · obtain ⟨unrouted, noSymbol⟩ := accepts_unrouted isKind (by
      rw [isDirectory]
      decide)
    obtain ⟨_, _, dispatched⟩ := Fallible.bind_ok dispatched
    obtain ⟨name, nameRead, dispatched⟩ := Fallible.bind_ok dispatched
    obtain ⟨_, unchanged, dispatched⟩ := Fallible.bind_ok dispatched
    cases dispatched
    have isName : name = symbolField m 11 := (symbol_ok nameRead).1
    have stored := of_decide_eq_true (require_safe.of_ok unchanged)
    have noSystem : ∀ code, ¬ IsSystem code m := fun code isCode =>
      isSystem (systemKind code isCode)
    have announces : IsDirectory m := by rw [IsDirectory, isKind, isDirectory]
    refine ⟨open_, start, rfl, rfl, rfl, ?_, ?_, ?_, ?_, ?_⟩
    · simp [open_, noSystem]
    · simp [noSystem, announces, isName, locateEq]
    · intro _
      rw [← isName, ← locateEq]
      exact stored
    · exact fun isOrder => absurd isOrder unrouted
    · exact fun kind pos same carries => absurd carries (noSymbol kind pos same)
  · have noSystem : ∀ code, ¬ IsSystem code m := fun code isCode =>
      isSystem (systemKind code isCode)
    have noDirectory : ¬ IsDirectory m := fun announces =>
      isDirectory (directoryKind announces)
    split at dispatched
    · cases dispatched
    next name found =>
      obtain ⟨decoded, isDecoded, dispatched⟩ := Fallible.bind_ok dispatched
      cases dispatched
      have sameName : e.symbol = name := (decodeOrder_symbol isDecoded).1
      refine ⟨open_, start, decodeOrder_numbered isDecoded, rfl, rfl, ?_, ?_,
        ?_, ?_, ?_⟩
      · simp [open_, noSystem]
      · simp [noSystem, noDirectory]
      · exact fun announces => absurd announces noDirectory
      · intro _
        rw [← locateEq, found, sameName]
      · intro kind pos isOther carries
        rw [isKind, Option.some.injEq] at isOther
        rw [sameName]
        exact decodeOrder_carried isDecoded (isOther ▸ carries)
  · obtain ⟨unrouted, noSymbol⟩ := accepts_unrouted isKind isOrder
    cases dispatched
    have noSystem : ∀ code, ¬ IsSystem code m := fun code isCode =>
      isSystem (systemKind code isCode)
    have noDirectory : ¬ IsDirectory m := fun announces =>
      isDirectory (directoryKind announces)
    refine ⟨open_, start, rfl, rfl, rfl, ?_, ?_, ?_, ?_, ?_⟩
    · simp [open_, noSystem]
    · simp [noSystem, noDirectory]
    · exact fun announces => absurd announces noDirectory
    · exact fun isOrder => absurd isOrder unrouted
    · exact fun kind pos same carries => absurd carries (noSymbol kind pos same)

/-! ## The history of a decoder -/

/-- The decoder after some inputs. -/
def after (decoder : Itch50Decoder) (inputs : List Bytes) : Itch50Decoder :=
  inputs.foldl (fun decoder m => (decoder.decode m).1) decoder

/-- Every input with its answer. -/
def log : Itch50Decoder → List Bytes → List (Bytes × Except Fault Event)
  | _, [] => []
  | decoder, m :: rest =>
      (m, (decoder.decode m).2) :: log (decoder.decode m).1 rest

/-- The messages that were accepted, with their events. -/
def accepted (entries : List (Bytes × Except Fault Event)) :
    List (Bytes × Event) :=
  entries.filterMap fun entry =>
    entry.2.toOption.map fun e => (entry.1, e)

theorem log_concat
    (decoder : Itch50Decoder) (inputs : List Bytes) (m : Bytes) :
    decoder.log (inputs ++ [m]) =
      decoder.log inputs ++ [(m, ((decoder.after inputs).decode m).2)] := by
  induction inputs generalizing decoder with
  | nil => rfl
  | cons input rest inductionHypothesis =>
      simp only [List.cons_append, log, after, List.foldl_cons]
      rw [inductionHypothesis]
      rfl

theorem after_concat
    (decoder : Itch50Decoder) (inputs : List Bytes) (m : Bytes) :
    decoder.after (inputs ++ [m]) =
      ((decoder.after inputs).decode m).1 := by
  simp [after]

/-- What holds of an accepted message after the ones before it. -/
structure Admissible (earlier : List Bytes) (m : Bytes) (e : Event) :
    Prop where
  first : earlier = [] → IsSystem 'O' m
  numbered : e.sequence = earlier.length + 1
  announced : IsOrder m →
    ∃ directory ∈ session earlier,
      Announces directory (Extraction.locateOf m) e.symbol
  unique : IsOrder m → ∀ directory ∈ session earlier, ∀ name,
    Announces directory (Extraction.locateOf m) name → name = e.symbol
  carried : ∀ kind pos, m[0]? = some kind → symbolPosition kind = some pos →
    symbolField m pos = e.symbol
  agreed : ∀ locate name, Announces m locate name →
    ∀ directory ∈ session earlier, ∀ other,
      Announces directory locate other → other = name
  notEnded : ∀ prior ∈ earlier, ¬ IsSystem 'C' prior

/-- The state of a decoder that rejected nothing, by what it accepted. -/
structure Reflects (messages : List Bytes) (decoder : Itch50Decoder) :
    Prop where
  record : decoder.record = messages.length
  ongoing : decoder.complete_ = false → ∀ m ∈ messages, ¬ IsSystem 'C' m
  ended : decoder.complete_ = true →
    ∃ m, messages.getLast? = some m ∧ IsSystem 'C' m
  symbols : ∀ locate name,
    decoder.symbols.find? locate = some name ↔
      ∃ directory ∈ session messages, Announces directory locate name

theorem Accepts.admissible
    {earlier : List Bytes} (accepts : decoder.Accepts m next e)
    (reflects : Reflects earlier decoder) : Admissible earlier m e where
  first none := accepts.start (by simp [reflects.record, none])
  numbered := by rw [accepts.numbered, reflects.record]
  announced isOrder := (reflects.symbols _ _).mp (accepts.routed isOrder)
  unique isOrder directory member name announces := by
    have found := (reflects.symbols _ _).mpr ⟨directory, member, announces⟩
    rw [accepts.routed isOrder, Option.some.injEq] at found
    exact found.symm
  carried := accepts.carried
  agreed locate name announces directory member other earlierName := by
    obtain ⟨isDirectory, rfl, rfl⟩ := announces
    have found := (reflects.symbols _ _).mpr ⟨directory, member, earlierName⟩
    have stored := accepts.agreed isDirectory
    have noStart : ¬ IsSystem 'O' m := by
      intro isStart
      have same := isStart.1
      rw [isDirectory] at same
      exact absurd same (by decide)
    rw [accepts.symbols, if_neg noStart, if_pos isDirectory,
      OrderedMap.find?_emplace, if_pos rfl, found] at stored
    exact Option.some.inj stored
  notEnded := reflects.ongoing accepts.open_

theorem Accepts.reflects
    {earlier : List Bytes} (accepts : decoder.Accepts m next e)
    (reflects : Reflects earlier decoder) :
    Reflects (earlier ++ [m]) next where
  record := by simp [accepts.counted, reflects.record]
  ongoing isOpen := by
    rw [accepts.complete, decide_eq_false_iff_not] at isOpen
    intro prior member
    rcases List.mem_append.mp member with old | isNew
    · exact reflects.ongoing accepts.open_ prior old
    · rw [List.mem_singleton.mp isNew]
      exact isOpen
  ended isEnded := by
    rw [accepts.complete, decide_eq_true_eq] at isEnded
    exact ⟨m, List.getLast?_concat, isEnded⟩
  symbols locate name := by
    rw [accepts.symbols, session_concat]
    by_cases isStart : IsSystem 'O' m
    · simp [isStart]
    by_cases isDirectory : IsDirectory m
    · have stored := accepts.agreed isDirectory
      rw [accepts.symbols, if_neg isStart, if_pos isDirectory] at stored
      rw [if_neg isStart, if_pos isDirectory, if_neg isStart]
      simp only [List.mem_append, List.mem_singleton, or_and_right, exists_or,
        exists_eq_left, ← reflects.symbols locate name]
      by_cases here : locate = Extraction.locateOf m
      · subst here
        rw [stored, Option.some.injEq]
        constructor
        · exact fun isName => Or.inr ⟨isDirectory, rfl, isName⟩
        · rintro (found | ⟨_, _, isName⟩)
          · rw [OrderedMap.find?_emplace, if_pos rfl, found] at stored
            exact (Option.some.inj stored).symm
          · exact isName
      · rw [OrderedMap.find?_emplace, if_neg here]
        constructor
        · exact Or.inl
        · rintro (found | ⟨_, isHere, _⟩)
          · exact found
          · exact absurd isHere.symm here
    · rw [if_neg isStart, if_neg isDirectory, if_neg isStart,
        reflects.symbols]
      simp [Announces, isDirectory]

def Rejected (answer : Except Fault Event) : Prop :=
  answer.toOption = none

/-- Everything that is known about a decoder and its log so far. -/
structure Runs
    (entries : List (Bytes × Except Fault Event)) (decoder : Itch50Decoder) :
    Prop where
  admissible : ∀ earlier m e, earlier ++ [(m, e)] <+: accepted entries →
    Admissible (earlier.map Prod.fst) m e
  poisoned : ∀ earlier entry, earlier ++ [entry] <+: entries →
    (∃ prior ∈ earlier, Rejected prior.2) → Rejected entry.2
  failed : decoder.failed = true ↔ ∃ entry ∈ entries, Rejected entry.2
  reflects : decoder.failed = false →
    Reflects ((accepted entries).map Prod.fst) decoder

theorem accepted_concat_ok
    (entries : List (Bytes × Except Fault Event)) (m : Bytes) (e : Event) :
    accepted (entries ++ [(m, .ok e)]) = accepted entries ++ [(m, e)] := by
  simp [accepted, Except.toOption]

theorem accepted_concat_error
    (entries : List (Bytes × Except Fault Event)) (m : Bytes) (fault : Fault) :
    accepted (entries ++ [(m, .error fault)]) = accepted entries := by
  simp [accepted, Except.toOption]

/-- A poisoned decoder rejects and stays poisoned. -/
theorem Runs.failing
    {entries : List (Bytes × Except Fault Event)} {fault : Fault}
    (runs : Runs entries decoder) (nextFailed : next.failed = true) :
    Runs (entries ++ [(m, .error fault)]) next where
  admissible := by
    rw [accepted_concat_error]
    exact runs.admissible
  poisoned earlier entry isPrefix priorRejected := by
    rcases List.prefix_concat_iff.mp isPrefix with whole | inside
    · obtain ⟨_, same⟩ := List.append_inj' whole rfl
      cases same
      rfl
    · exact runs.poisoned earlier entry inside priorRejected
  failed := by simp [nextFailed, Rejected, Except.toOption]
  reflects running := by
    rw [nextFailed] at running
    cases running

/-- A running decoder that accepts has rejected nothing so far. -/
theorem Runs.accepting
    {entries : List (Bytes × Except Fault Event)}
    (runs : Runs entries decoder) (running : decoder.failed = false)
    (accepts : decoder.Accepts m next e) :
    Runs (entries ++ [(m, .ok e)]) next := by
  have reflects := runs.reflects running
  have noneRejected : ¬ ∃ entry ∈ entries, Rejected entry.2 := by
    rw [← runs.failed, running]
    exact Bool.false_ne_true
  refine ⟨?_, ?_, ?_, ?_⟩
  · rw [accepted_concat_ok]
    intro earlier m' e' isPrefix
    rcases List.prefix_concat_iff.mp isPrefix with whole | inside
    · obtain ⟨sameEarlier, sameLast⟩ := List.append_inj' whole rfl
      cases sameLast
      rw [sameEarlier]
      exact accepts.admissible reflects
    · exact runs.admissible earlier m' e' inside
  · intro earlier entry isPrefix priorRejected
    rcases List.prefix_concat_iff.mp isPrefix with whole | inside
    · obtain ⟨sameEarlier, _⟩ := List.append_inj' whole rfl
      rw [sameEarlier] at priorRejected
      exact absurd priorRejected noneRejected
    · exact runs.poisoned earlier entry inside priorRejected
  · rw [accepts.running, running]
    simp only [Bool.false_eq_true, false_iff]
    rintro ⟨entry, member, rejected⟩
    rcases List.mem_append.mp member with old | isNew
    · exact noneRejected ⟨entry, old, rejected⟩
    · rw [List.mem_singleton.mp isNew] at rejected
      cases rejected
  · intro _
    rw [accepted_concat_ok, List.map_append, List.map_singleton]
    exact accepts.reflects reflects

theorem Runs.decode
    {entries : List (Bytes × Except Fault Event)}
    (runs : Runs entries decoder) (m : Bytes) :
    Runs (entries ++ [(m, (decoder.decode m).2)]) (decoder.decode m).1 := by
  unfold Itch50Decoder.decode
  split_ifs with failed
  · exact runs.failing failed
  · have running : decoder.failed = false := by simpa using failed
    split
    next next e decoded =>
      exact runs.accepting running (accepts_of_decoded decoded)
    next fault _ => exact runs.failing rfl

theorem runs (inputs : List Bytes) :
    Runs (log {} inputs) (after {} inputs) := by
  induction inputs using List.reverseRecOn with
  | nil =>
      refine ⟨?_, ?_, ?_, ?_⟩
      · intro earlier m e isPrefix
        exact absurd (List.prefix_nil.mp isPrefix) (by simp)
      · intro earlier entry isPrefix
        exact absurd (List.prefix_nil.mp isPrefix) (by simp)
      · simp [after, log]
      · intro _
        refine ⟨rfl, by simp [log, accepted], by simp [after], ?_⟩
        simp [after, log, accepted, session, OrderedMap.find?, OrderedMap.empty]
  | append_singleton inputs m inductionHypothesis =>
      rw [log_concat, after_concat]
      exact inductionHypothesis.decode m

/--
The session rules, for every sequence of inputs: what holds of each accepted
message, that rejections are final, and when the archive is complete.
-/
theorem session_admitted (inputs : List Bytes) :
    (∀ earlier m e,
      earlier ++ [(m, e)] <+: accepted (log {} inputs) →
        Admissible (earlier.map Prod.fst) m e) ∧
      (∀ earlier entry, earlier ++ [entry] <+: log {} inputs →
        (∃ prior ∈ earlier, Rejected prior.2) → Rejected entry.2) ∧
      ((after {} inputs).complete = true ↔
        (∀ entry ∈ log {} inputs, ¬ Rejected entry.2) ∧
          ∃ last, (accepted (log {} inputs)).getLast? = some last ∧
            IsSystem 'C' last.1) := by
  have facts := runs inputs
  refine ⟨facts.admissible, facts.poisoned, ?_⟩
  rw [complete, Bool.and_eq_true, Bool.not_eq_true']
  constructor
  · rintro ⟨isComplete, running⟩
    constructor
    · intro entry member rejected
      have failed := facts.failed.mpr ⟨entry, member, rejected⟩
      rw [running] at failed
      cases failed
    · obtain ⟨m, isLast, isEnd⟩ := (facts.reflects running).ended isComplete
      rw [List.getLast?_map] at isLast
      obtain ⟨last, lastEq, rfl⟩ := Option.map_eq_some_iff.mp isLast
      exact ⟨last, lastEq, isEnd⟩
  · rintro ⟨noneRejected, last, isLast, isEnd⟩
    have running : (after {} inputs).failed = false := by
      rw [← Bool.not_eq_true, facts.failed]
      rintro ⟨entry, member, rejected⟩
      exact noneRejected entry member rejected
    refine ⟨?_, running⟩
    by_contra isOpen
    refine (facts.reflects running).ongoing (by simpa using isOpen) last.1 ?_
      isEnd
    exact List.mem_map_of_mem (List.mem_of_getLast? isLast)

/-- A start, a directory, a deletion in its locate and the end. -/
example :
    let header : Bytes := [0, 1, 0, 0, 0, 0, 0, 0, 0, 0]
    let inputs : List Bytes :=
      [byte 'S' :: header ++ [byte 'O'],
        byte 'R' :: header ++ byte 'A' :: List.replicate 7 32 ++
          List.replicate 20 0,
        byte 'D' :: header ++ List.replicate 8 0, byte 'S' :: header ++ [byte 'C']]
    (accepted (log {} inputs)).map (fun entry => entry.2.symbol) =
        [[], [byte 'A'], [byte 'A'], []] ∧
      (after {} inputs).complete = true := by
  decide +kernel

end Itch50Decoder

end LimitOrderBook.Feed
