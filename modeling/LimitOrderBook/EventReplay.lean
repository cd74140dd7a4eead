import LimitOrderBook.EventCsvRoundTrip
import LimitOrderBook.ReferenceMarket

namespace LimitOrderBook

/-!
# Replaying a file of events

The model of `tools/replay.cpp` without its log and its clock.  A replay stops
at the first line that is no event, that is out of turn or that its book
refuses, and says why.  A file of which every line is accepted leaves the books
that the market of its events has.
-/

namespace EventCsv

/-- What `std::getline` returns, with the start of the next line read. -/
def linesFrom (start : Line) : List Char → List Line
  | [] => if start = [] then [] else [start]
  | c :: rest =>
      if c = '\n' then
        start :: linesFrom [] rest
      else
        linesFrom (start ++ [c]) rest

/-- The lines of a file that is read with `std::getline`. -/
def fileLines (text : List Char) : List Line :=
  linesFrom [] text

/-- A line that is no error. -/
def Readable (line : Line) : Prop :=
  skipped (strip line) = true ∨ ∃ event, Accepted (strip line) event

/-- The events of some lines. -/
def lineEvents (lines : List Line) : List MarketEvent :=
  lines.filterMap fun line => (parseEventLine line).event

/-- A line is skipped, or an event, or an error. -/
theorem parseEventLine_cases (line : Line) :
    (skipped (strip line) = true ∧ parseEventLine line = {}) ∨
    (∃ event, Accepted (strip line) event ∧
      parseEventLine line = { event := some event }) ∨
    (¬ Readable line ∧ (parseEventLine line).event = none ∧
      (parseEventLine line).error ≠ "") := by
  cases isSkipped : skipped (strip line) with
  | true =>
      refine Or.inl ⟨rfl, ?_⟩
      rw [parseEventLine, if_pos isSkipped]
  | false =>
      by_cases accepted : ∃ event, Accepted (strip line) event
      · obtain ⟨event, accepted⟩ := accepted
        exact Or.inr (Or.inl ⟨event, accepted,
          parseEventLine_event (parseEventLine_event_iff.mpr accepted)⟩)
      · refine Or.inr (Or.inr ⟨?_, parseEventLine_error isSkipped
          fun event isEvent => accepted ⟨event, isEvent⟩⟩)
        rintro (isSkip | isEvent)
        · rw [isSkipped] at isSkip
          cases isSkip
        · exact accepted isEvent

end EventCsv

namespace OrderBookRegistry

/-- `validate_invariants`. -/
def validateInvariants (registry : OrderBookRegistry) : Bool :=
  registry.books.entries.all fun entry => entry.2.validateInvariants

def orderCount (registry : OrderBookRegistry) : Nat :=
  registry.books.total fun _ book => book.orderCount

def bidLevelCount (registry : OrderBookRegistry) : Nat :=
  registry.books.total fun _ book => book.bidLevelCount

def askLevelCount (registry : OrderBookRegistry) : Nat :=
  registry.books.total fun _ book => book.askLevelCount

def instrumentCount (registry : OrderBookRegistry) : Nat :=
  registry.books.size

variable {registry : OrderBookRegistry} {taken : List MarketEvent}

/-- Events of the right widths leave books that pass their checks. -/
theorem Tracks.validates
    (tracks : registry.Tracks taken)
    (encodable : ∀ event ∈ taken, event.Encodable) :
    registry.validateInvariants = true := by
  refine List.all_eq_true.mpr fun entry member => ?_
  have found := OrderedMap.mem_entries.mp member
  rw [tracks.books] at found
  split_ifs at found
  rw [← Option.some.inj found]
  have callsFit : ∀ made ∈ (taken.filter fun event =>
      event.instrumentId = entry.1).map fun event => event.payload.call {},
      made.Fits := by
    intro made isCall
    obtain ⟨event, isEvent, rfl⟩ := List.mem_map.mp isCall
    have fits := (encodable event (List.mem_of_mem_filter isEvent)).quantity
    cases isPayload : event.payload with
    | add add =>
        rw [isPayload] at fits
        exact fits
    | cancel cancel => trivial
    | execute execute =>
        rw [isPayload] at fits
        exact fits
  obtain ⟨wf, slotsFit, fits⟩ : (replayed entry.1 taken).Wf ∧
      (replayed entry.1 taken).slots < 2 ^ 32 ∧ (replayed entry.1 taken).Fits :=
    OrderBook.ofPool_afterCalls (by decide) (by decide) callsFit
  exact wf.validates slotsFit fits

/-- Each event that was accepted was offered. -/
theorem mem_of_accepted
    {offers : List Offer} {event : MarketEvent}
    (member : event ∈ registry.accepted offers) :
    ∃ offered ∈ offers, offered.event = event := by
  induction offers generalizing registry with
  | nil => cases member
  | cons offered rest inductionHypothesis =>
      simp only [accepted] at member
      split_ifs at member
      · rcases List.mem_cons.mp member with rfl | later
        · exact ⟨offered, List.mem_cons_self, rfl⟩
        · obtain ⟨other, found, same⟩ := inductionHypothesis later
          exact ⟨other, List.mem_cons_of_mem _ found, same⟩
      · obtain ⟨other, found, same⟩ := inductionHypothesis member
        exact ⟨other, List.mem_cons_of_mem _ found, same⟩

/-- The events of a file leave books that pass their check. -/
theorem afterEvents_validates
    {events : List MarketEvent}
    (encodable : ∀ event ∈ events, event.Encodable) :
    (afterEvents {} events).validateInvariants = true := by
  have tracks := tracks_empty.afterOffers
    (events.map fun event => { event := event })
  refine tracks.validates fun event taken => ?_
  obtain ⟨offered, isOffer, rfl⟩ := mem_of_accepted taken
  obtain ⟨event, member, rfl⟩ := List.mem_map.mp isOffer
  exact encodable event member

end OrderBookRegistry

/-- The variables of `replay`. -/
structure EventReplay where
  registry : OrderBookRegistry := {}
  lineNumber : Nat := 0
  eventCount : Nat := 0

namespace EventReplay

open EventCsv

/-- The messages of `replay` for a file that is not accepted. -/
inductive Stop where
  | parseError (line : Nat) (error : String)
  | invalidSequence (lastAccepted received : Sequence)
  | notImplemented
  | applyError (line : Nat) (result : ApplyResult)
  | invariantFailure
  deriving DecidableEq

/-- What `replay` prints at its end. -/
structure Report where
  events : Nat
  instruments : Nat
  remainingOrders : Nat
  bidLevels : Nat
  askLevels : Nat
  deriving DecidableEq

/-- The body of the loop; `grants` says what the heap refuses to each event. -/
def readLine (grants : Nat → RegistryGrants) (state : EventReplay)
    (line : Line) : Except Stop EventReplay :=
  let lineNumber := state.lineNumber + 1
  match (parseEventLine line).event with
  | none =>
      if (parseEventLine line).error = "" then
        .ok { state with lineNumber := lineNumber }
      else
        .error (.parseError lineNumber (parseEventLine line).error)
  | some event =>
      if ¬ state.registry.seqValid event.sequence then
        .error (.invalidSequence state.registry.getSeq event.sequence)
      else
        let (registry, result) :=
          state.registry.apply (grants state.eventCount) event
        if result = .notImplemented then
          .error .notImplemented
        else if result ≠ .ok then
          .error (.applyError lineNumber result)
        else
          .ok ⟨registry, lineNumber, state.eventCount + 1⟩

def readLines (grants : Nat → RegistryGrants) (state : EventReplay)
    (lines : List Line) : Except Stop EventReplay :=
  lines.foldlM (readLine grants) state

def report (state : EventReplay) : Report where
  events := state.eventCount
  instruments := state.registry.instrumentCount
  remainingOrders := state.registry.orderCount
  bidLevels := state.registry.bidLevelCount
  askLevels := state.registry.askLevelCount

/-- `replay` of a file that can be read to its end. -/
def replay (grants : Nat → RegistryGrants) (text : List Char) :
    Except Stop Report := do
  let state ← readLines grants {} (fileLines text)
  if ¬ state.registry.validateInvariants then
    .error .invariantFailure
  else
    .ok state.report

/-- Why a line of a file stops a replay that has a market so far. -/
inductive Explains (market : ReferenceMarket) (number : Nat) (line : Line) :
    Stop → Prop where
  | unreadable :
      ¬ Readable line →
      Explains market number line
        (.parseError number (parseEventLine line).error)
  | outOfTurn {event : MarketEvent} :
      Accepted (strip line) event →
      event.sequence ≠ market.sequence + 1 →
      Explains market number line
        (.invalidSequence market.sequence event.sequence)
  | refused {event : MarketEvent} {result : ApplyResult} :
      Accepted (strip line) event →
      event.sequence = market.sequence + 1 →
      (market.apply event).2 = result →
      result ≠ .ok →
      Explains market number line (.applyError number result)

/-- The lines of a file that a market has no reason to stop at. -/
structure Passes (market : ReferenceMarket) (lines : List Line) : Prop where
  readable : ∀ line ∈ lines, Readable line
  accepted : ∀ answer ∈ market.answers (lineEvents lines), answer = some .ok

variable {state : EventReplay} {market : ReferenceMarket} {line : Line}
  {lines : List Line} {event : MarketEvent}

/-! ## One line -/

/-- What is read from a line can be written to one. -/
theorem lineEvents_encodable (lines : List Line) :
    ∀ event ∈ lineEvents lines, event.Encodable := by
  intro event member
  obtain ⟨line, _, parsed⟩ := List.mem_filterMap.mp member
  exact (parseEventLine_event_iff.mp parsed).encodable

/-- A line that is skipped adds no event. -/
theorem lineEvents_cons_skipped
    (isSkipped : parseEventLine line = {}) (lines : List Line) :
    lineEvents (line :: lines) = lineEvents lines := by
  simp [lineEvents, isSkipped]

/-- A line with an event adds it. -/
theorem lineEvents_cons_event
    (isEvent : parseEventLine line = { event := some event })
    (lines : List Line) :
    lineEvents (line :: lines) = event :: lineEvents lines := by
  simp [lineEvents, isEvent]

/-- A line that is skipped is passed. -/
theorem Passes.skip
    (isSkipped : skipped (strip line) = true)
    (parsed : parseEventLine line = {}) (passes : Passes market lines) :
    Passes market (line :: lines) where
  readable := List.forall_mem_cons.mpr ⟨Or.inl isSkipped, passes.readable⟩
  accepted := by
    rw [lineEvents_cons_skipped parsed]
    exact passes.accepted

/-- A line is passed when its event is accepted. -/
theorem Passes.take
    (accepted : Accepted (strip line) event)
    (parsed : parseEventLine line = { event := some event })
    (answered : (market.offer event).2 = some .ok)
    (passes : Passes (market.offer event).1 lines) :
    Passes market (line :: lines) where
  readable := List.forall_mem_cons.mpr
    ⟨Or.inr ⟨event, accepted⟩, passes.readable⟩
  accepted := by
    rw [lineEvents_cons_event parsed, ReferenceMarket.answers]
    exact List.forall_mem_cons.mpr ⟨answered, passes.accepted⟩

/-- Every kind of event is implemented. -/
theorem apply_implemented (market : ReferenceMarket) (event : MarketEvent) :
    (market.apply event).2 ≠ .notImplemented := by
  have answered : (market.answer event).2 ≠ .notImplemented := by
    unfold ReferenceMarket.answer
    split
    · unfold ReferenceMarket.addWithin Reference.add
      split_ifs <;> simp
    · unfold Reference.cancel
      split <;> simp
    · unfold Reference.execute
      split
      · simp
      · split_ifs <;> simp
    · simp
  unfold ReferenceMarket.apply
  split_ifs
  · simp
  · exact answered

/-- An event is in turn if it has the next number. -/
theorem seqValid_iff
    (mirrors : state.registry.Mirrors market) (sequence : Sequence) :
    state.registry.seqValid sequence = true ↔
      sequence = market.sequence + 1 := by
  rw [OrderBookRegistry.seqValid, decide_eq_true_eq, mirrors.sequence]
  lia

/-- A line that is skipped only counts. -/
theorem readLine_skipped (parsed : parseEventLine line = {}) :
    readLine (fun _ => {}) state line =
      .ok { state with lineNumber := state.lineNumber + 1 } := by
  simp [readLine, parsed]

/-- A line is applied as the market says. -/
theorem readLine_accepted
    (mirrors : state.registry.Mirrors market)
    (parsed : parseEventLine line = { event := some event })
    (answered : (market.offer event).2 = some .ok) :
    readLine (fun _ => {}) state line =
      .ok ⟨(state.registry.offer { event := event }).1,
        state.lineNumber + 1, state.eventCount + 1⟩ := by
  obtain ⟨answer, _⟩ := mirrors.apply event
  unfold ReferenceMarket.offer at answered
  split_ifs at answered with isNext
  have valid := (seqValid_iff mirrors event.sequence).mpr isNext
  rw [Option.some.inj answered] at answer
  simp [readLine, parsed, valid, answer, OrderBookRegistry.offer]

/-- A line that is explained stops the replay. -/
theorem readLine_explained
    (mirrors : state.registry.Mirrors market) {stop : Stop}
    (explains : Explains market (state.lineNumber + 1) line stop) :
    readLine (fun _ => {}) state line = .error stop := by
  cases explains with
  | unreadable unreadable =>
      rcases parseEventLine_cases line with
        ⟨isSkipped, _⟩ | ⟨event, accepted, _⟩ | ⟨_, noEvent, someError⟩
      · exact absurd (Or.inl isSkipped) unreadable
      · exact absurd (Or.inr ⟨event, accepted⟩) unreadable
      · simp [readLine, noEvent, someError]
  | outOfTurn accepted notNext =>
      have parsed := parseEventLine_event (parseEventLine_event_iff.mpr accepted)
      have invalid := Bool.eq_false_iff.mpr
        (mt (seqValid_iff mirrors _).mp notNext)
      simp [readLine, parsed, invalid, OrderBookRegistry.getSeq,
        mirrors.sequence]
  | @refused event _ accepted isNext answered notOk =>
      have parsed := parseEventLine_event (parseEventLine_event_iff.mpr accepted)
      have valid := (seqValid_iff mirrors event.sequence).mpr isNext
      have answer := (mirrors.apply event).1
      have implemented := apply_implemented market event
      rw [answered] at answer implemented
      simp [readLine, parsed, valid, answer, notOk, implemented]

/-- A line is skipped or accepted, or explains why the replay stops. -/
theorem line_cases (market : ReferenceMarket) (number : Nat) (line : Line) :
    (skipped (strip line) = true ∧ parseEventLine line = {}) ∨
    (∃ event, Accepted (strip line) event ∧
      parseEventLine line = { event := some event } ∧
      (market.offer event).2 = some .ok) ∨
    ∃ stop, Explains market number line stop := by
  rcases parseEventLine_cases line with
    isSkipped | ⟨event, accepted, parsed⟩ | ⟨unreadable, _, _⟩
  · exact Or.inl isSkipped
  · by_cases isNext : event.sequence = market.sequence + 1
    · by_cases isOk : (market.apply event).2 = .ok
      · refine Or.inr (Or.inl ⟨event, accepted, parsed, ?_⟩)
        rw [ReferenceMarket.offer, if_pos isNext, isOk]
      · exact Or.inr (Or.inr ⟨_, .refused accepted isNext rfl isOk⟩)
    · exact Or.inr (Or.inr ⟨_, .outOfTurn accepted isNext⟩)
  · exact Or.inr (Or.inr ⟨_, .unreadable unreadable⟩)

/-! ## All lines -/

/-- What is left of a replay after lines that pass. -/
def advanced (state : EventReplay) (lines : List Line) : EventReplay where
  registry := state.registry.afterEvents (lineEvents lines)
  lineNumber := state.lineNumber + lines.length
  eventCount := state.eventCount + (lineEvents lines).length

/-- The state after a line that is skipped. -/
theorem advanced_cons_skipped
    (parsed : parseEventLine line = {}) (lines : List Line) :
    advanced { state with lineNumber := state.lineNumber + 1 } lines =
      state.advanced (line :: lines) := by
  simp only [advanced, lineEvents_cons_skipped parsed, List.length_cons,
    EventReplay.mk.injEq, true_and, and_true]
  lia

/-- The state after a line with an event. -/
theorem advanced_cons_event
    (parsed : parseEventLine line = { event := some event })
    (lines : List Line) :
    advanced ⟨(state.registry.offer { event := event }).1,
        state.lineNumber + 1, state.eventCount + 1⟩ lines =
      state.advanced (line :: lines) := by
  simp only [advanced, lineEvents_cons_event parsed, List.length_cons,
    EventReplay.mk.injEq]
  exact ⟨rfl, by lia, by lia⟩

/-- An empty file passes. -/
theorem Passes.nil : Passes market [] :=
  ⟨by simp, by simp [lineEvents, ReferenceMarket.answers]⟩

/-- The lines pass, or there is a first one that does not. -/
theorem lines_cases
    (market : ReferenceMarket) (number : Nat) (lines : List Line) :
    Passes market lines ∨
    ∃ before line after stop, lines = before ++ line :: after ∧
      Passes market before ∧
      Explains (market.afterEvents (lineEvents before))
        (number + before.length + 1) line stop := by
  induction lines generalizing market number with
  | nil => exact Or.inl .nil
  | cons line rest inductionHypothesis =>
      have count (before : List Line) :
          number + (line :: before).length + 1 =
            number + 1 + before.length + 1 := by
        rw [List.length_cons]
        lia
      rcases line_cases market (number + 1) line with
        ⟨isSkipped, parsed⟩ | ⟨event, accepted, parsed, answered⟩ |
          ⟨stop, explains⟩
      · rcases inductionHypothesis market (number + 1) with
          passes | ⟨before, bad, after, stop, rfl, passes, explains⟩
        · exact Or.inl (passes.skip isSkipped parsed)
        · refine Or.inr ⟨line :: before, bad, after, stop, rfl,
            passes.skip isSkipped parsed, ?_⟩
          rw [lineEvents_cons_skipped parsed, count before]
          exact explains
      · rcases inductionHypothesis (market.offer event).1 (number + 1) with
          passes | ⟨before, bad, after, stop, rfl, passes, explains⟩
        · exact Or.inl (passes.take accepted parsed answered)
        · refine Or.inr ⟨line :: before, bad, after, stop, rfl,
            passes.take accepted parsed answered, ?_⟩
          rw [lineEvents_cons_event parsed, count before]
          exact explains
      · exact Or.inr ⟨[], line, rest, stop, rfl, .nil, explains⟩

/-- Lines that pass are read to their end. -/
theorem Passes.read
    (passes : Passes market lines) (mirrors : state.registry.Mirrors market) :
    readLines (fun _ => {}) state lines = .ok (state.advanced lines) := by
  induction lines generalizing state market with
  | nil => rfl
  | cons line rest inductionHypothesis =>
      have shape : readLines (fun _ => {}) state (line :: rest) =
          (readLine (fun _ => {}) state line).bind
            fun next => readLines (fun _ => {}) next rest := List.foldlM_cons ..
      obtain ⟨readable, accepted⟩ := passes
      obtain ⟨lineReadable, restReadable⟩ := List.forall_mem_cons.mp readable
      rcases parseEventLine_cases line with
        ⟨_, parsed⟩ | ⟨event, _, parsed⟩ | ⟨unreadable, _, _⟩
      · rw [lineEvents_cons_skipped parsed] at accepted
        rw [shape, readLine_skipped parsed, ← advanced_cons_skipped parsed]
        exact inductionHypothesis ⟨restReadable, accepted⟩ mirrors
      · rw [lineEvents_cons_event parsed, ReferenceMarket.answers] at accepted
        obtain ⟨answered, restAccepted⟩ := List.forall_mem_cons.mp accepted
        rw [shape, readLine_accepted mirrors parsed answered,
          ← advanced_cons_event parsed]
        exact inductionHypothesis ⟨restReadable, restAccepted⟩
          (mirrors.offer event).2
      · exact absurd lineReadable unreadable

/-- A file of lines that pass is reported. -/
theorem Passes.replay
    {text : List Char} (passes : Passes {} (fileLines text)) :
    EventReplay.replay (fun _ => {}) text =
      .ok (report (advanced {} (fileLines text))) := by
  have finished := @Passes.read {} {} _ passes OrderBookRegistry.mirrors_empty
  have validates : (advanced {} (fileLines text)).registry.validateInvariants =
      true :=
    OrderBookRegistry.afterEvents_validates
      (lineEvents_encodable (fileLines text))
  simp only [EventReplay.replay, finished, bind, Except.bind, validates,
    not_true_eq_false, if_false]

/-- The first line that does not pass ends the replay. -/
theorem Explains.replay
    {text : List Char} {before after : List Line} {stop : Stop}
    (shape : fileLines text = before ++ line :: after)
    (passes : Passes {} before)
    (explains : Explains (ReferenceMarket.afterEvents {} (lineEvents before))
      (before.length + 1) line stop) :
    EventReplay.replay (fun _ => {}) text = .error stop := by
  have read := @Passes.read {} {} _ passes OrderBookRegistry.mirrors_empty
  have mirrors := (OrderBookRegistry.mirrors_empty.afterEvents
    (lineEvents before)).2
  have stopped : readLine (fun _ => {}) (advanced {} before) line =
      .error stop := by
    refine readLine_explained mirrors ?_
    simpa [advanced] using explains
  have ended : readLines (fun _ => {}) {} (fileLines text) = .error stop := by
    unfold readLines at read ⊢
    rw [shape, List.foldlM_append, read]
    change List.foldlM (readLine fun _ => {}) (advanced {} before)
      (line :: after) = _
    rw [List.foldlM_cons, stopped]
    rfl
  simp only [EventReplay.replay, ended, bind, Except.bind]

/--
With a heap that refuses nothing, a replay reports the books of all events of
its file if every line can be read and every event is accepted by the market.
Otherwise it stops at the first line that is not, with the message for it.
-/
theorem replay_exact (text : List Char) :
    (replay (fun _ => {}) text =
        .ok (report (advanced {} (fileLines text))) ∧
      Passes {} (fileLines text)) ∨
    ∃ before line after stop, fileLines text = before ++ line :: after ∧
      replay (fun _ => {}) text = .error stop ∧
      Passes {} before ∧
      Explains (ReferenceMarket.afterEvents {} (lineEvents before))
        (before.length + 1) line stop := by
  rcases lines_cases {} 0 (fileLines text) with
    passes | ⟨before, line, after, stop, shape, passes, explains⟩
  · exact Or.inl ⟨passes.replay, passes⟩
  · rw [Nat.zero_add] at explains
    exact Or.inr ⟨before, line, after, stop, shape,
      explains.replay shape passes, passes, explains⟩

/-! ## Events one by one -/

/-- Some events of a file are applied in turn, counted from a number on. -/
inductive Applies (grants : Nat → RegistryGrants) :
    OrderBookRegistry → Nat → List MarketEvent → OrderBookRegistry → Prop where
  | nil {registry : OrderBookRegistry} {count : Nat} :
      Applies grants registry count [] registry
  | cons {registry next final : OrderBookRegistry} {count : Nat}
      {event : MarketEvent} {rest : List MarketEvent} :
      registry.seqValid event.sequence = true →
      registry.apply (grants count) event = (next, .ok) →
      Applies grants next (count + 1) rest final →
      Applies grants registry count (event :: rest) final

/-- The events in a file before its first line that cannot be read. -/
def publishedEvents : List Line → List MarketEvent
  | [] => []
  | line :: rest =>
      match (parseEventLine line).event with
      | none =>
          if (parseEventLine line).error = "" then
            publishedEvents rest
          else
            []
      | some event => event :: publishedEvents rest

variable {grants : Nat → RegistryGrants} {registry final : OrderBookRegistry}
  {events taken : List MarketEvent} {count : Nat}

/-- One more event is applied after the others. -/
theorem Applies.concat
    (applies : Applies grants registry count events final)
    {next : OrderBookRegistry}
    (inTurn : final.seqValid event.sequence = true)
    (done : final.apply (grants (count + events.length)) event = (next, .ok)) :
    Applies grants registry count (events ++ [event]) next := by
  induction applies with
  | nil => exact .cons inTurn done .nil
  | @cons _ _ _ count _ rest first applied _ inductionHypothesis =>
      rw [List.length_cons, ← Nat.add_assoc, Nat.add_right_comm] at done
      exact .cons first applied (inductionHypothesis inTurn done)

/-- Events that are applied are added to those that were taken. -/
theorem Applies.tracks
    (applies : Applies grants registry count events final)
    (tracks : registry.Tracks taken) : final.Tracks (taken ++ events) := by
  induction applies generalizing taken with
  | nil => simpa using tracks
  | @cons registry next final count event rest inTurn applied _
      inductionHypothesis =>
      have offered : registry.offer ⟨event, grants count⟩ =
          (next, some .ok) := by
        simp [OrderBookRegistry.offer, inTurn, applied]
      rcases tracks.offer ⟨event, grants count⟩ with ⟨refused, _⟩ | ⟨_, later⟩
      · rw [offered] at refused
        exact absurd rfl refused
      · rw [offered] at later
        rw [List.append_cons]
        exact inductionHypothesis later

/-- A replay of a part of the file gets to where the events do. -/
theorem Applies.read
    (applies : Applies grants state.registry state.eventCount events final)
    (published : events <+: publishedEvents lines) :
    ∃ before, before <+: lines ∧ readLines grants state before =
      .ok ⟨final, state.lineNumber + before.length,
        state.eventCount + events.length⟩ := by
  induction lines generalizing state events with
  | nil =>
      cases List.prefix_nil.mp published
      cases applies
      exact ⟨[], List.nil_prefix, rfl⟩
  | cons line rest inductionHypothesis =>
      have shape (before : List Line) : readLines grants state (line :: before) =
          (readLine grants state line).bind
            fun next => readLines grants next before := List.foldlM_cons ..
      cases events with
      | nil =>
          cases applies
          exact ⟨[], List.nil_prefix, rfl⟩
      | cons event later =>
          unfold publishedEvents at published
          cases parsed : (parseEventLine line).event with
          | none =>
              rw [parsed] at published
              by_cases skipped : (parseEventLine line).error = ""
              · simp only [skipped, if_true] at published
                obtain ⟨before, isPrefix, read⟩ := @inductionHypothesis
                  { state with lineNumber := state.lineNumber + 1 } _
                  applies published
                refine ⟨line :: before, List.cons_prefix_cons.mpr
                  ⟨rfl, isPrefix⟩, ?_⟩
                rw [shape, readLine, parsed, if_pos skipped, List.length_cons,
                  Nat.add_comm before.length, ← Nat.add_assoc]
                exact read
              · simp only [skipped, if_false] at published
                cases List.prefix_nil.mp published
          | some first =>
              rw [parsed] at published
              obtain ⟨rfl, laterPublished⟩ :=
                List.cons_prefix_cons.mp published
              cases applies with
              | @cons _ next _ _ _ _ inTurn applied laterApplies =>
                  obtain ⟨before, isPrefix, read⟩ := @inductionHypothesis
                    ⟨next, state.lineNumber + 1, state.eventCount + 1⟩ _
                    laterApplies laterPublished
                  refine ⟨line :: before, List.cons_prefix_cons.mpr
                    ⟨rfl, isPrefix⟩, ?_⟩
                  have readFirst : readLine grants state line =
                      .ok ⟨next, state.lineNumber + 1,
                        state.eventCount + 1⟩ := by
                    simp [readLine, parsed, inTurn, applied]
                  rw [shape, readFirst, List.length_cons, List.length_cons,
                    Nat.add_comm before.length, Nat.add_comm later.length,
                    ← Nat.add_assoc, ← Nat.add_assoc]
                  exact read

end EventReplay

end LimitOrderBook
