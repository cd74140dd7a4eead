import LimitOrderBook.FeedRestriction
import LimitOrderBook.FeedSafety
import LimitOrderBook.ItchSample

namespace LimitOrderBook.Feed

open Itch

/-!
# A sample leads to the book of its archive

The extraction follows the symbol's locate on the raw bytes, the decoder keeps
a directory of its own.  Both agree on which records belong to the symbol, so
that the sample, decoded and fed to books of the symbol, leaves them as the
whole archive does.
-/

/-- Decode a record and feed its event to the books. -/
def feedRecord (venue : Text) (state : Itch50Decoder × Books)
    (record : Bytes) : Except Fault (Itch50Decoder × Books) :=
  match state.1.decode record with
  | (_, .error fault) => .error fault
  | (decoder, .ok e) =>
      match state.2.consume venue e with
      | (books, none) => .ok (decoder, books)
      | (_, some what) => .error (.thrown what)

/-- Decode records and feed them to the books, until one of both throws. -/
def replay (venue : Text) (state : Itch50Decoder × Books)
    (records : List Bytes) : Except Fault (Itch50Decoder × Books) :=
  records.foldlM (feedRecord venue) state

theorem feedRecord_iff
    {venue : Text} {decoder decoderNext : Itch50Decoder}
    {books booksNext : Books} {record : Bytes}
    (running : decoder.failed = false) (valid : books.valid = true) :
    feedRecord venue (decoder, books) record =
        .ok (decoderNext, booksNext) ↔
      ∃ e, decoder.decodeRecord record = .ok (decoderNext, e) ∧
        books.apply venue e = .ok booksNext := by
  unfold feedRecord Itch50Decoder.decode Books.consume
  simp only [running, valid, Bool.false_eq_true, if_false, if_true]
  cases decoder.decodeRecord record with
  | error fault => simp
  | ok result =>
      obtain ⟨next, e⟩ := result
      cases applied : books.apply venue e with
      | error thrown => simp [applied]
      | ok after => simp [applied]

/-! ## What a record says -/

/-- The locate that the extraction reads is the decoder's. -/
theorem integer_locate
    {m : Bytes} (long : 3 ≤ m.length) :
    integer m 1 2 false = .ok (Extraction.locateOf m) := by
  match m, long with
  | kind :: high :: low :: rest, _ =>
      simp [integer, require, byteAt, Extraction.locateOf, List.range,
        List.range.loop, bind, Except.bind, pure, Except.pure]

theorem Itch.readHeader_ok
    {first : Bool} {m : Bytes} {header : Header}
    (read : readHeader first m = .ok header) :
    byteAt m 0 = .ok header.kind ∧
      header.locate = Extraction.locateOf m := by
  obtain ⟨_, _, read⟩ := Fallible.bind_ok read
  obtain ⟨kind, kindRead, read⟩ := Fallible.bind_ok read
  obtain ⟨length, lengthRead, read⟩ := Fallible.bind_ok read
  obtain ⟨_, isLength, read⟩ := Fallible.bind_ok read
  obtain ⟨_, _, read⟩ := Fallible.bind_ok read
  obtain ⟨timestampNs, _, read⟩ := Fallible.bind_ok read
  obtain ⟨_, _, read⟩ := Fallible.bind_ok read
  obtain ⟨locate, locateRead, read⟩ := Fallible.bind_ok read
  cases read
  refine ⟨kindRead, ?_⟩
  have long := lengths_long _ ((lengthOf_clean kind).of_ok lengthRead)
  have sameLength : m.length = length :=
    of_decide_eq_true (require_safe.of_ok isLength)
  rw [integer_locate (by lia)] at locateRead
  cases locateRead
  rfl

/-- A symbol that is read is the padded text without its padding. -/
theorem symbol_ok
    {b : Bytes} {pos size : Nat} {name : Text}
    (read : symbol b pos size = .ok name) :
    name = (((b.drop pos).take size).rdropWhile
        fun byte => decide (byte = 32)) ∧ name ≠ [] := by
  have inside : pos + size ≤ b.length := by
    obtain ⟨_, guard, _⟩ := Fallible.bind_ok read
    have bounds := of_decide_eq_true (require_safe.of_ok guard)
    lia
  rw [symbol_inside inside] at read
  exact symbolText_ok read

/-- The number of a record is not read by the branches for orders. -/
theorem Itch.decodeOrder_sequence
    (m : Bytes) (kind : UInt8) (e : Event) (sequence : Nat) :
    decodeOrder m kind { e with sequence := sequence } =
      (fun decoded => { decoded with sequence := sequence }) <$>
        decodeOrder m kind e := by
  unfold decodeOrder
  split_ifs
  all_goals
    simp only [decodeAdd, decodeReplace, decodeTrade, decodeDelete,
      decodeCancel, decodeExecute, map_bind]
    rfl

/-- An order has the symbol of its locate and clears nothing. -/
theorem Itch.decodeOrder_symbol
    {m : Bytes} {kind : UInt8} {e decoded : Event}
    (isDecoded : decodeOrder m kind e = .ok decoded) :
    decoded.symbol = e.symbol ∧ decoded.type ≠ .clear := by
  have ends : Fallible.Ends (fun _ => True)
      (fun decoded : Event => decoded.symbol = e.symbol ∧
        decoded.type ≠ .clear) (decodeOrder m kind e) := by
    unfold decodeOrder
    split_ifs
    all_goals
      repeat refine (Fallible.Ends.anyhow _).bind fun _ _ => ?_
      exact ⟨rfl, EventType.noConfusion⟩
  exact ends.of_ok isDecoded

/-! ## The two directories agree -/

/-- Directories of the archive and of the sample, with the symbol's locate. -/
structure Tracks (symbol : Text) (selected : Nat)
    (full sample : OrderedMap Nat Text (· < ·)) : Prop where
  global : full.find? 0 = none
  named : ∀ locate name, full.find? locate = some name → name ≠ []
  selected_iff : ∀ locate, full.find? locate = some symbol ↔
    selected ≠ 0 ∧ locate = selected
  sampled : ∀ locate, sample.find? locate =
    if selected ≠ 0 ∧ locate = selected then some symbol else none

/-- Two decoders and the extraction, apart from the number of records. -/
structure Aligned (symbol : Text) (selected : Nat) (ended : Bool)
    (full sample : Itch50Decoder) : Prop where
  fullRunning : full.failed = false
  sampleRunning : sample.failed = false
  fullComplete : full.complete_ = ended
  sampleComplete : sample.complete_ = ended
  tracks : Tracks symbol selected full.symbols sample.symbols

/-- The decoder of the archive, that of the sample, and the extraction. -/
structure Follows (symbol : Text) (state : Extraction)
    (full sample : Itch50Decoder) : Prop where
  aligned :
    Aligned symbol state.selectedLocate state.ended full sample
  started : full.record = 0 ↔ state.records = 0
  sampleStarted : sample.record = 0 ↔ state.records = 0
  unselected : state.records = 0 → state.selectedLocate = 0

/-- Events that the books of the symbol must see. -/
def Event.Relevant (symbol : Text) (e : Event) : Prop :=
  e.Passive ∨ e.type = .clear ∨ e.symbol = symbol

/-- Events that the books of the symbol can miss. -/
def Event.Irrelevant (symbol : Text) (e : Event) : Prop :=
  e.Passive ∨ e.type ≠ .clear ∧ e.symbol ≠ [] ∧ e.symbol ≠ symbol

/--
What becomes of a record: it is kept and means the same to the decoder of the
sample, or it is dropped and was of no account.
-/
inductive Treated (symbol : Text) (selected : Nat) (ended : Bool)
    (m : Bytes) (full sample : Itch50Decoder) (e : Event)
    (decode : Except Fault (Itch50Decoder × Event)) : Prop where
  | kept (next : Itch50Decoder)
      (keeps : Extraction.keeps selected m = true)
      (decoded : decode =
        .ok (next, { e with sequence := sample.record + 1 }))
      (sameRecord : next.record = sample.record)
      (aligned : Aligned symbol selected ended full next)
      (relevant : e.Relevant symbol)
  | dropped
      (drops : Extraction.keeps selected m = false)
      (aligned : Aligned symbol selected ended full sample)
      (irrelevant : e.Irrelevant symbol)

variable {symbol : Text} {state : Extraction} {selected : Nat} {ended : Bool}
  {full sample fullNext : Itch50Decoder} {m : Bytes} {e decoded : Event}

theorem Tracks.empty (symbol : Text) :
    Tracks symbol 0 .empty .empty where
  global := rfl
  named locate name found := by cases found
  selected_iff locate := by simp
  sampled locate := by simp

/-- The directory of the symbol. -/
theorem Tracks.select
    {locate : Nat} {fullSymbols sampleSymbols : OrderedMap Nat Text (· < ·)}
    (tracks : Tracks symbol selected fullSymbols sampleSymbols)
    (named : symbol ≠ []) (located : locate ≠ 0)
    (selection : selected = 0 ∨ selected = locate)
    (unchanged : (fullSymbols.find? locate).getD symbol = symbol) :
    Tracks symbol locate (fullSymbols.emplace locate symbol)
      (sampleSymbols.emplace locate symbol) := by
  refine ⟨?_, ?_, ?_, ?_⟩
  · rw [OrderedMap.find?_emplace, if_neg (Ne.symm located)]
    exact tracks.global
  · intro other name found
    rw [OrderedMap.find?_emplace, unchanged] at found
    split_ifs at found
    · cases found
      exact named
    · exact tracks.named other name found
  · intro other
    rw [OrderedMap.find?_emplace, unchanged]
    split_ifs with isLocate
    · simp [located, isLocate]
    · rw [tracks.selected_iff]
      lia
  · intro other
    rw [OrderedMap.find?_emplace, tracks.sampled, tracks.sampled]
    split_ifs <;> simp_all

/-- The directory of another symbol. -/
theorem Tracks.other
    {locate : Nat} {name : Text}
    {fullSymbols sampleSymbols : OrderedMap Nat Text (· < ·)}
    (tracks : Tracks symbol selected fullSymbols sampleSymbols)
    (named : name ≠ []) (different : name ≠ symbol) (located : locate ≠ 0)
    (unselected : selected ≠ locate)
    (unchanged : (fullSymbols.find? locate).getD name = name) :
    Tracks symbol selected (fullSymbols.emplace locate name)
      sampleSymbols := by
  refine ⟨?_, ?_, ?_, tracks.sampled⟩
  · rw [OrderedMap.find?_emplace, if_neg (Ne.symm located)]
    exact tracks.global
  · intro other otherName found
    rw [OrderedMap.find?_emplace, unchanged] at found
    split_ifs at found
    · cases found
      exact named
    · exact tracks.named other otherName found
  · intro other
    rw [OrderedMap.find?_emplace, unchanged]
    split_ifs with isLocate
    · simp [different, isLocate, Ne.symm unselected]
    · exact tracks.selected_iff other

/-- System events are global. -/
theorem Follows.system
    (follows : Follows symbol state full sample) (running : state.ended = false)
    (tracked : state.trackSystem (byte 'S') (Extraction.locateOf m) m =
      .ok ended)
    (isDecoded : full.decodeSystem m e = .ok (fullNext, decoded))
    (metadata : e.type = .metadata) :
    Treated symbol state.selectedLocate ended m fullNext sample decoded
      (sample.decodeSystem m { e with sequence := sample.record + 1 }) := by
  unfold Extraction.trackSystem at tracked
  rw [if_pos rfl] at tracked
  obtain ⟨_, global, tracked⟩ := Fallible.bind_ok tracked
  obtain ⟨code, codeRead, tracked⟩ := Fallible.bind_ok tracked
  obtain ⟨_, valid, tracked⟩ := Fallible.bind_ok tracked
  cases tracked
  obtain ⟨isGlobal, _⟩ := of_decide_eq_true (require_safe.of_ok global)
  obtain ⟨known, notRestarted⟩ := of_decide_eq_true (require_safe.of_ok valid)
  have aligned := follows.aligned
  have required : require (decide (code ∈ systemEvents))
      "Invalid ITCH system event" = .ok () := by
    simp [require, known]
  unfold Itch50Decoder.decodeSystem at isDecoded ⊢
  rw [codeRead] at isDecoded ⊢
  simp only [bind, Except.bind, required] at isDecoded ⊢
  cases isDecoded
  refine .kept _ ?_ rfl rfl ?_ ?_
  · simp [Extraction.keeps, isGlobal]
  · refine ⟨aligned.fullRunning, aligned.sampleRunning, ?_, ?_, ?_⟩
    · simp [aligned.fullComplete, running]
    · simp [aligned.sampleComplete, running]
    · dsimp only
      split_ifs with isStart
      · have first : state.records = 0 := by
          by_contra later
          exact notRestarted ⟨later, isStart⟩
        rw [follows.unselected first]
        exact Tracks.empty symbol
      · exact aligned.tracks
  · dsimp only [Event.Relevant]
    split_ifs
    · exact Or.inr (Or.inl rfl)
    · exact Or.inl (Or.inl metadata)

/-- A directory of the symbol is kept, and those of others are dropped. -/
theorem Follows.directory
    (follows : Follows symbol state full sample)
    (symbolNamed : symbol ≠ [])
    (tracked : Extraction.trackDirectory symbol state (byte 'R')
      (Extraction.locateOf m) m = .ok selected)
    (isDecoded : full.decodeDirectory m (Extraction.locateOf m) e =
      .ok (fullNext, decoded)) :
    Treated symbol selected state.ended m fullNext sample decoded
      (sample.decodeDirectory m (Extraction.locateOf m)
        { e with sequence := sample.record + 1 }) := by
  have aligned := follows.aligned
  have tracks := aligned.tracks
  obtain ⟨_, nonzero, isDecoded⟩ := Fallible.bind_ok isDecoded
  obtain ⟨name, nameRead, isDecoded⟩ := Fallible.bind_ok isDecoded
  obtain ⟨_, unchanged, isDecoded⟩ := Fallible.bind_ok isDecoded
  cases isDecoded
  obtain ⟨isName, named⟩ := symbol_ok nameRead
  have located := of_decide_eq_true (require_safe.of_ok nonzero)
  have found := of_decide_eq_true (require_safe.of_ok unchanged)
  have sameName : Extraction.directoryName m = name := isName.symm
  unfold Extraction.trackDirectory at tracked
  rw [if_pos rfl] at tracked
  obtain ⟨_, _, tracked⟩ := Fallible.bind_ok tracked
  rw [sameName] at tracked
  rw [OrderedMap.find?_emplace, if_pos rfl, Option.some_inj] at found
  split_ifs at tracked with isSymbol
  · obtain ⟨_, selection, tracked⟩ := Fallible.bind_ok tracked
    cases tracked
    subst isSymbol
    have next := tracks.select symbolNamed located
      (of_decide_eq_true (require_safe.of_ok selection)) found
    have sampleFound := next.sampled (Extraction.locateOf m)
    rw [if_pos ⟨located, rfl⟩] at sampleFound
    refine .kept
      { sample with
        symbols := sample.symbols.emplace (Extraction.locateOf m) name }
      ?_ ?_ rfl ?_ ?_
    · simp [Extraction.keeps, located]
    · unfold Itch50Decoder.decodeDirectory
      simp only [ne_eq, located, not_false_eq_true, nameRead, bind,
        Except.bind, require, sampleFound, decide_true, if_true]
    · exact ⟨aligned.fullRunning, aligned.sampleRunning,
        aligned.fullComplete, aligned.sampleComplete, next⟩
    · exact Or.inl (Or.inr (Or.inl rfl))
  · obtain ⟨_, selection, tracked⟩ := Fallible.bind_ok tracked
    cases tracked
    have unselected := of_decide_eq_true (require_safe.of_ok selection)
    refine .dropped ?_ ?_ ?_
    · simp [Extraction.keeps, located, Ne.symm unselected]
    · exact ⟨aligned.fullRunning, aligned.sampleRunning,
        aligned.fullComplete, aligned.sampleComplete,
        tracks.other named isSymbol located unselected found⟩
    · exact Or.inl (Or.inr (Or.inl rfl))

theorem Itch.orderKinds_other :
    ∀ kind ∈ orderKinds, kind ≠ byte 'S' ∧ kind ≠ byte 'R' := by
  decide +kernel

/-- The branch for orders, once the locate is known. -/
theorem Itch50Decoder.dispatch_order
    (decoder : Itch50Decoder) {header : Header}
    (isOrder : header.kind ∈ orderKinds) {name : Text}
    (found : decoder.symbols.find? header.locate = some name) :
    decoder.dispatch header m =
      (fun decoded => (decoder, { decoded with
        sequence := decoder.record + 1 })) <$>
          decodeOrder m header.kind
            { timestampNs := header.timestampNs, symbol := name } := by
  obtain ⟨notSystem, notDirectory⟩ := Itch.orderKinds_other _ isOrder
  have moved := Itch.decodeOrder_sequence m header.kind
    { timestampNs := header.timestampNs, symbol := name } (decoder.record + 1)
  unfold dispatch
  dsimp only
  rw [if_neg notSystem, if_neg notDirectory, if_pos isOrder, found]
  dsimp only
  rw [moved]
  cases decodeOrder m header.kind
      { timestampNs := header.timestampNs, symbol := name } with
  | error fault => rfl
  | ok decoded => rfl

theorem Itch50Decoder.dispatch_order_found
    {decoder : Itch50Decoder} {header : Header}
    (isOrder : header.kind ∈ orderKinds)
    (dispatched : decoder.dispatch header m = .ok (fullNext, decoded)) :
    ∃ name, decoder.symbols.find? header.locate = some name := by
  cases found : decoder.symbols.find? header.locate with
  | none =>
      obtain ⟨notSystem, notDirectory⟩ := Itch.orderKinds_other _ isOrder
      unfold dispatch at dispatched
      dsimp only at dispatched
      rw [if_neg notSystem, if_neg notDirectory, if_pos isOrder, found]
        at dispatched
      cases dispatched
  | some name => exact ⟨name, rfl⟩

/-- Orders and trades are kept when their locate is that of the symbol. -/
theorem Follows.order
    (follows : Follows symbol state full sample) {header : Header}
    (isLocate : header.locate = Extraction.locateOf m)
    (isOrder : header.kind ∈ orderKinds)
    (dispatched : full.dispatch header m = .ok (fullNext, decoded)) :
    Treated symbol state.selectedLocate state.ended m fullNext sample decoded
      (sample.dispatch header m) := by
  have aligned := follows.aligned
  have tracks := aligned.tracks
  obtain ⟨name, found⟩ := Itch50Decoder.dispatch_order_found isOrder dispatched
  rw [full.dispatch_order isOrder found] at dispatched
  cases isDecoded : decodeOrder m header.kind
      { timestampNs := header.timestampNs, symbol := name } with
  | error fault =>
      rw [isDecoded] at dispatched
      cases dispatched
  | ok event =>
      rw [isDecoded] at dispatched
      cases dispatched
      obtain ⟨sameSymbol, notClear⟩ := Itch.decodeOrder_symbol isDecoded
      have sameSymbol : event.symbol = name := sameSymbol
      have located : header.locate ≠ 0 := by
        intro isZero
        rw [isZero, tracks.global] at found
        cases found
      by_cases here : state.selectedLocate ≠ 0 ∧
          header.locate = state.selectedLocate
      · have isSymbol := (tracks.selected_iff header.locate).mpr here
        rw [found] at isSymbol
        cases isSymbol
        refine .kept sample ?_ ?_ rfl aligned (Or.inr (Or.inr sameSymbol))
        · simp [Extraction.keeps, ← isLocate, here]
        · have sampleFound := tracks.sampled header.locate
          rw [if_pos here] at sampleFound
          rw [sample.dispatch_order isOrder sampleFound, isDecoded]
          rfl
      · refine .dropped ?_ aligned (Or.inr ⟨notClear, ?_, ?_⟩)
        · simp [Extraction.keeps, ← isLocate, located, here]
        · intro isNil
          exact tracks.named _ _ found (sameSymbol ▸ isNil)
        · intro isSymbol
          have isSymbol : event.symbol = symbol := isSymbol
          rw [← sameSymbol, isSymbol] at found
          exact here ((tracks.selected_iff header.locate).mp found)

/-- The branches over the message types, and what the extraction makes of it. -/
theorem Follows.dispatch
    (follows : Follows symbol state full sample) (named : symbol ≠ [])
    (running : state.ended = false) {header : Header}
    (isLocate : header.locate = Extraction.locateOf m)
    (system : state.trackSystem header.kind (Extraction.locateOf m) m =
      .ok ended)
    (directory : Extraction.trackDirectory symbol state header.kind
      (Extraction.locateOf m) m = .ok selected)
    (dispatched : full.dispatch header m = .ok (fullNext, decoded)) :
    Treated symbol selected ended m fullNext sample decoded
      (sample.dispatch header m) := by
  by_cases isSystem : header.kind = byte 'S'
  · unfold Itch50Decoder.dispatch at dispatched ⊢
    dsimp only at dispatched ⊢
    rw [if_pos isSystem] at dispatched ⊢
    rw [isSystem] at system directory
    cases directory
    exact follows.system running system dispatched rfl
  by_cases isDirectory : header.kind = byte 'R'
  · unfold Itch50Decoder.dispatch at dispatched ⊢
    dsimp only at dispatched ⊢
    rw [if_neg isSystem, if_pos isDirectory, isLocate] at dispatched ⊢
    rw [isDirectory] at system directory
    cases system
    exact follows.directory named directory dispatched
  unfold Extraction.trackSystem at system
  unfold Extraction.trackDirectory at directory
  rw [if_neg isSystem] at system
  rw [if_neg isDirectory] at directory
  cases system
  cases directory
  by_cases isOrder : header.kind ∈ orderKinds
  · exact follows.order isLocate isOrder dispatched
  · unfold Itch50Decoder.dispatch at dispatched ⊢
    dsimp only at dispatched ⊢
    rw [if_neg isSystem, if_neg isDirectory, if_neg isOrder] at dispatched ⊢
    cases dispatched
    cases keeps : Extraction.keeps state.selectedLocate m with
    | true =>
        exact .kept sample keeps rfl rfl follows.aligned
          (Or.inl (Or.inl rfl))
    | false =>
        exact .dropped keeps follows.aligned (Or.inl (Or.inl rfl))

/-! ## The run over an archive -/

theorem Extraction.process_ok
    {next : Extraction}
    (processed : Extraction.process symbol state m = .ok next) :
    state.ended = false ∧ ∃ kind, byteAt m 0 = .ok kind ∧
      (state.records = 0 → kind = byte 'S') ∧
      state.trackSystem kind (locateOf m) m = .ok next.ended ∧
      trackDirectory symbol state kind (locateOf m) m =
        .ok next.selectedLocate ∧
      next.records = state.records + 1 ∧
      next.output = state.output ++ archive
        (if keeps next.selectedLocate m then [m] else []) := by
  obtain ⟨_, running, processed⟩ := Fallible.bind_ok processed
  obtain ⟨kind, kindRead, processed⟩ := Fallible.bind_ok processed
  obtain ⟨_, first, processed⟩ := Fallible.bind_ok processed
  obtain ⟨ended, system, processed⟩ := Fallible.bind_ok processed
  obtain ⟨selected, directory, processed⟩ := Fallible.bind_ok processed
  cases processed
  have isRunning := of_decide_eq_true (require_safe.of_ok running)
  have isFirst := of_decide_eq_true (require_safe.of_ok first)
  refine ⟨isRunning.1, kind, kindRead, ?_, system, directory, rfl, ?_⟩
  · intro atStart
    exact (isFirst.resolve_left (fun later => later atStart)).1
  · dsimp only
    split_ifs
    · simp [archive]
    · simp [archive]

/-- The first record is kept. -/
theorem Extraction.keeps_first
    {next : Extraction}
    (processed : Extraction.process symbol state m = .ok next)
    (first : state.records = 0) :
    keeps next.selectedLocate m = true := by
  obtain ⟨_, kind, _, isSystem, system, _, _, _⟩ := process_ok processed
  rw [isSystem first] at system
  unfold trackSystem at system
  rw [if_pos rfl] at system
  obtain ⟨_, global, _⟩ := Fallible.bind_ok system
  have isGlobal := (of_decide_eq_true (require_safe.of_ok global)).1
  simp [keeps, isGlobal]

/-- One record of the archive. -/
theorem Follows.step
    (follows : Follows symbol state full sample) (named : symbol ≠ [])
    {next : Extraction}
    (processed : Extraction.process symbol state m = .ok next)
    (isDecoded : full.decodeRecord m = .ok (fullNext, e)) :
    (Extraction.keeps next.selectedLocate m = true ∧
      e.Relevant symbol ∧
      ∃ sampleNext,
        sample.decodeRecord m =
          .ok (sampleNext, { e with sequence := sample.record + 1 }) ∧
        Follows symbol next fullNext sampleNext) ∨
    (Extraction.keeps next.selectedLocate m = false ∧
      e.Irrelevant symbol ∧ Follows symbol next fullNext sample) := by
  obtain ⟨running, kind, kindRead, _, system, directory, records, _⟩ :=
    Extraction.process_ok processed
  obtain ⟨_, incomplete, isDecoded⟩ := Fallible.bind_ok isDecoded
  obtain ⟨header, headerRead, isDecoded⟩ := Fallible.bind_ok isDecoded
  obtain ⟨⟨dispatched, event⟩, isDispatched, same⟩ :=
    Fallible.bind_ok isDecoded
  cases same
  obtain ⟨sameKind, isLocate⟩ := Itch.readHeader_ok headerRead
  rw [kindRead] at sameKind
  cases sameKind
  have later : next.records ≠ 0 := by lia
  have started : dispatched.record + 1 = 0 ↔ next.records = 0 := by lia
  cases follows.dispatch named running isLocate system directory
      isDispatched with
  | kept sampleNext keeps decoded sameRecord aligned relevant =>
      refine Or.inl ⟨keeps, relevant,
        { sampleNext with record := sampleNext.record + 1 }, ?_, ?_⟩
      · have sameFirst : decide (sample.record = 0) =
            decide (full.record = 0) :=
          decide_eq_decide.mpr
            (follows.sampleStarted.trans follows.started.symm)
        have sampleIncomplete : sample.complete_ = false :=
          follows.aligned.sampleComplete.trans running
        unfold Itch50Decoder.decodeRecord
        rw [sampleIncomplete, sameFirst, headerRead]
        simp only [require, decoded, bind, Except.bind, decide_true, if_true]
      · refine ⟨⟨aligned.fullRunning, aligned.sampleRunning,
          aligned.fullComplete, aligned.sampleComplete, aligned.tracks⟩,
          started, ?_, fun isZero => absurd isZero later⟩
        dsimp only
        lia
  | dropped drops aligned irrelevant =>
      refine Or.inr ⟨drops, irrelevant,
        ⟨aligned.fullRunning, aligned.sampleRunning, aligned.fullComplete,
          aligned.sampleComplete, aligned.tracks⟩, started, ?_,
        fun isZero => absurd isZero later⟩
      have notFirst : state.records ≠ 0 := by
        intro first
        rw [Extraction.keeps_first processed first] at drops
        cases drops
      rw [follows.sampleStarted]
      lia

/-- The books of the sample after the records seen so far. -/
theorem Follows.run
    {venue : Text} {poolBytes : Nat} {books sampleBooks after : Books}
    {decoder : Itch50Decoder} {last : Extraction} {records : List Bytes}
    (follows : Follows symbol state full sample)
    (restricts : Books.Restricts symbol poolBytes books sampleBooks)
    (named : symbol ≠ [])
    (processed : records.foldlM (Extraction.process symbol) state = .ok last)
    (replayed : replay venue (full, books) records = .ok (decoder, after)) :
    ∃ sampleDecoder sampleAfter,
      replay venue (sample, sampleBooks)
          (Extraction.keptRecords symbol state records) =
        .ok (sampleDecoder, sampleAfter) ∧
      Follows symbol last decoder sampleDecoder ∧
      Books.Restricts symbol poolBytes after sampleAfter ∧
      last.output = state.output ++
        archive (Extraction.keptRecords symbol state records) := by
  induction records generalizing state full sample books sampleBooks with
  | nil =>
      cases processed
      cases replayed
      refine ⟨sample, sampleBooks, rfl, follows, restricts, ?_⟩
      simp [Extraction.keptRecords, archive]
  | cons record rest inductionHypothesis =>
      rw [List.foldlM_cons] at processed
      obtain ⟨next, stepped, processed⟩ := Fallible.bind_ok processed
      rw [replay, List.foldlM_cons] at replayed
      obtain ⟨⟨fullNext, booksNext⟩, fed, replayed⟩ :=
        Fallible.bind_ok replayed
      obtain ⟨e, isDecoded, applied⟩ :=
        (feedRecord_iff follows.aligned.fullRunning
          restricts.runningFull.valid).mp fed
      obtain ⟨_, _, _, _, _, _, _, output⟩ := Extraction.process_ok stepped
      unfold Extraction.keptRecords
      rw [stepped]
      dsimp only
      rcases follows.step named stepped isDecoded with
        ⟨keeps, relevant, sampleNext, sampleDecoded, nextFollows⟩ |
          ⟨drops, irrelevant, nextFollows⟩
      · obtain ⟨sampleBooksNext, sampleApplied, nextRestricts⟩ :=
          restricts.apply named relevant applied
        obtain ⟨sampleDecoder, sampleAfter, sampleReplayed, lastFollows,
          lastRestricts, lastOutput⟩ :=
          inductionHypothesis nextFollows nextRestricts processed replayed
        have sampleFed : feedRecord venue (sample, sampleBooks) record =
            .ok (sampleNext, sampleBooksNext) :=
          (feedRecord_iff follows.aligned.sampleRunning
            restricts.runningSample.valid).mpr
              ⟨_, sampleDecoded, sampleApplied⟩
        refine ⟨sampleDecoder, sampleAfter, ?_, lastFollows, lastRestricts, ?_⟩
        · rw [if_pos keeps, replay, List.singleton_append, List.foldlM_cons,
            sampleFed]
          exact sampleReplayed
        · rw [lastOutput, output, archive, archive, archive,
            List.flatMap_append, List.append_assoc]
      · obtain ⟨sampleDecoder, sampleAfter, sampleReplayed, lastFollows,
          lastRestricts, lastOutput⟩ :=
          inductionHypothesis nextFollows
            (restricts.skip named irrelevant applied) processed replayed
        refine ⟨sampleDecoder, sampleAfter, ?_, lastFollows, lastRestricts, ?_⟩
        · rw [drops]
          exact sampleReplayed
        · rw [lastOutput, output, archive, archive, archive,
            List.flatMap_append, List.append_assoc]

theorem Extraction.keptRecords_sublist
    (symbol : Text) (state : Extraction) (records : List Bytes) :
    (keptRecords symbol state records).Sublist records := by
  induction records generalizing state with
  | nil => exact List.Sublist.refl []
  | cons record rest inductionHypothesis =>
      unfold keptRecords
      split
      · exact List.nil_sublist _
      · next next _ =>
        split_ifs
        · exact (inductionHypothesis next).cons_cons record
        · exact (inductionHypothesis next).cons record

theorem follows_start (symbol : Text) : Follows symbol {} {} {} where
  aligned := ⟨rfl, rfl, rfl, rfl, Tracks.empty symbol⟩
  started := Iff.rfl
  sampleStarted := Iff.rfl
  unselected _ := rfl

/-- Extraction from an archive, as a fold over its records. -/
theorem Extraction.extract_archive
    {zlib : GzLibrary} {records : List Bytes} (framed : Framed records)
    {source : zlib.GzFile} (there : zlib.rest source = archive records) :
    extract symbol source = (do
      checkSymbol symbol
      let state ← records.foldlM (process symbol) {}
      require (state.ended = true ∧ state.selectedLocate ≠ 0)
        "Complete session and selected Stock Directory required"
      .ok state.output) := by
  unfold extract
  rw [loop_archive framed there]

/--
A sample of an archive is read back as the records that were kept, in their
order.  Decoded and fed to books of its symbol they lead to the same book and
update count as all records, and the decoder is complete.
-/
theorem Extraction.extract_replays
    {zlib : GzLibrary} {venue : Text} {records : List Bytes}
    (framed : Framed records) {source sample : zlib.GzFile}
    (there : zlib.rest source = archive records)
    {poolBytes : Nat} {fresh : Books}
    (created : Books.create symbol poolBytes = .ok fresh) {output : Bytes}
    (extracted : extract symbol source = .ok output)
    (written : zlib.rest sample = output)
    {decoder : Itch50Decoder} {books : Books}
    (replayed : replay venue ({}, fresh) records = .ok (decoder, books)) :
    (keptRecords symbol {} records).Sublist records ∧
      readAll .itch50 sample = .ok (keptRecords symbol {} records) ∧
      ∃ sampleDecoder sampleBooks,
        replay venue ({}, fresh) (keptRecords symbol {} records) =
          .ok (sampleDecoder, sampleBooks) ∧
        sampleDecoder.complete = true ∧
        sampleBooks.books = books.books ∧
        sampleBooks.updates = books.updates := by
  rw [extract_archive framed there] at extracted
  obtain ⟨_, checked, extracted⟩ := Fallible.bind_ok extracted
  obtain ⟨last, processed, extracted⟩ := Fallible.bind_ok extracted
  obtain ⟨_, finished, extracted⟩ := Fallible.bind_ok extracted
  cases extracted
  obtain ⟨_, shape, _⟩ := Fallible.bind_ok checked
  have named := (of_decide_eq_true (require_safe.of_ok shape)).1
  have ended := (of_decide_eq_true (require_safe.of_ok finished)).1
  obtain ⟨sampleDecoder, sampleBooks, sampleReplayed, follows, restricts,
    output⟩ := (follows_start symbol).run
      (Books.restricts_create created) named processed replayed
  have kept := keptRecords_sublist symbol {} records
  have keptFramed : Framed (keptRecords symbol {} records) :=
    fun record member => framed record (kept.subset member)
  refine ⟨kept, readAll_archive keptFramed ?_, sampleDecoder, sampleBooks,
    sampleReplayed, ?_, restricts.books, restricts.updates⟩
  · exact written.trans output
  · unfold Itch50Decoder.complete
    rw [follows.aligned.sampleComplete, follows.aligned.sampleRunning, ended]
    rfl

/-- Two symbols with an order each, and the sample of the first. -/
theorem Extraction.extract_replays_two_symbols :
    let padding : Bytes := List.replicate 7 32
    let head (kind : Char) (locate : UInt8) : Bytes :=
      byte kind :: 0 :: locate :: List.replicate 8 0
    let start : Bytes := head 'S' 0 ++ [byte 'O']
    let finish : Bytes := head 'S' 0 ++ [byte 'C']
    let directory (locate name : UInt8) : Bytes :=
      head 'R' locate ++ name :: padding ++ List.replicate 20 0
    let add (locate name : UInt8) : Bytes :=
      head 'A' locate ++ [0, 0, 0, 0, 0, 0, 0, locate, byte 'B', 0, 0, 0, 5] ++
        name :: padding ++ [0, 0, 0, 9]
    let records : List Bytes :=
      [start, directory 1 65, directory 2 66, add 2 66, add 1 65, finish]
    let kept : List Bytes := [start, directory 1 65, add 1 65, finish]
    let fresh : Books := { filter := [65], poolBytes := 256 }
    let source : plannedLibrary.GzFile :=
      ShortTransfers.Planned.mk [] (archive records) (fun _ => 0) 0
    ∃ output, extract [65] source = .ok output ∧
      @readAll plannedLibrary .itch50
          (ShortTransfers.Planned.mk [] output (fun _ => 6) 0) =
        .ok kept ∧
      ∃ sampleDecoder sampleBooks,
        replay [86] ({}, fresh) kept = .ok (sampleDecoder, sampleBooks) ∧
        sampleDecoder.complete = true ∧ sampleBooks.updates = 1 := by
  intro padding head start finish directory add records kept fresh source
  have framed : Framed records := by
    unfold Framed
    decide +kernel
  have created : Books.create [65] 256 = .ok fresh := rfl
  have isKept : keptRecords [65] {} records = kept := by
    decide +kernel
  have extracts : (extract [65] source).isOk := by
    rw [extract_archive framed rfl]
    decide +kernel
  have replays : ((replay [86] ({}, fresh) records).map
      fun state => state.2.updates) = .ok 1 := by
    decide +kernel
  cases extracted : extract [65] source with
  | error fault =>
      rw [extracted] at extracts
      cases extracts
  | ok output =>
      cases replayed : replay [86] ({}, fresh) records with
      | error fault =>
          rw [replayed] at replays
          cases replays
      | ok state =>
          obtain ⟨decoder, books⟩ := state
          rw [replayed] at replays
          have updates : books.updates = 1 := Except.ok.inj replays
          obtain ⟨_, read, sampleDecoder, sampleBooks, sampleReplayed,
            complete, _, sameUpdates⟩ :=
            @extract_replays _ plannedLibrary _ _ framed source
              (ShortTransfers.Planned.mk [] output (fun _ => 6) 0) rfl _ _
              created _ extracted rfl _ _ replayed
          rw [isKept] at read sampleReplayed
          exact ⟨output, rfl, read, sampleDecoder, sampleBooks,
            sampleReplayed, complete, sameUpdates.trans updates⟩

end LimitOrderBook.Feed
