import LimitOrderBook.EventReplay

namespace LimitOrderBook

/-!
# Events over datagrams

The model of `tools/udp_event_publisher.cpp` and
`tools/udp_event_subscriber.cpp`.  The publisher sends each event of a file as
one datagram.  The network may lose datagrams, repeat and reorder them, and
deliver bytes of others.  The subscriber applies events in turn only, so that
its books are those of a replay of a part of the file at any time.
-/

namespace UdpDemo

open EventCsv EventReplay

/-- The datagrams of the publisher, and the error that it stops with. -/
def publish : List Line → List EventFrame × Option String
  | [] => ([], none)
  | line :: rest =>
      match (parseEventLine line).event with
      | none =>
          if (parseEventLine line).error = "" then
            publish rest
          else
            ([], some (parseEventLine line).error)
      | some event =>
          match encodeEvent event with
          | .error what => ([], some what)
          | .ok frame => (frame :: (publish rest).1, (publish rest).2)

/-- What a call of `receive` meets; after a while it gives up, and it may throw. -/
inductive Arrival where
  | timeout
  | datagram (bytes : List UInt8)
  | failed (what : String)

/-- What the subscriber prints when it stops early. -/
inductive Failure where
  | timeout
  | badSize
  | malformed
  | gap (expected received : Sequence)
  | rejected (result : ApplyResult)
  | invariantFailure
  | transportFailed (what : String)
  deriving DecidableEq

/-- The variables of the subscriber, and the events it has printed. -/
structure Subscriber where
  registry : OrderBookRegistry := {}
  lastApplied : Sequence := 0
  applied : Nat := 0
  received : Nat := 0
  stale : Nat := 0
  output : List MarketEvent := []

inductive Ending where
  | waiting
  | finished
  | failed (failure : Failure)
  deriving DecidableEq

namespace Subscriber

/-- The part of the loop that handles an event. -/
def handle (grants : Nat → RegistryGrants) (subscriber : Subscriber)
    (event : MarketEvent) : Subscriber × Option Failure :=
  if event.sequence ≤ subscriber.registry.getSeq then
    ({ subscriber with stale := subscriber.stale + 1 }, none)
  else if ¬ subscriber.registry.seqValid event.sequence then
    (subscriber,
      some (.gap (subscriber.registry.getSeq + 1) event.sequence))
  else
    let (registry, result) :=
      subscriber.registry.apply (grants subscriber.applied) event
    if result ≠ .ok then
      ({ subscriber with registry := registry }, some (.rejected result))
    else
      ({ subscriber with
          registry := registry
          lastApplied := registry.getSeq
          applied := subscriber.applied + 1
          output := subscriber.output ++ [event] },
        none)

/-- The body of the loop. -/
def receive (grants : Nat → RegistryGrants) (subscriber : Subscriber) :
    Arrival → Subscriber × Option Failure
  | .timeout => (subscriber, some .timeout)
  | .failed what => (subscriber, some (.transportFailed what))
  | .datagram bytes =>
      let counted := { subscriber with received := subscriber.received + 1 }
      -- A longer datagram is truncated, and a shorter one does not fill a frame.
      if whole : bytes.length = 40 then
        match decodeEvent ⟨bytes.toArray, by simpa using whole⟩ with
        | none => (counted, some .malformed)
        | some event => counted.handle grants event
      else
        (counted, some .badSize)

/-- What is done once enough events are applied. -/
def finish (subscriber : Subscriber) : Ending :=
  if subscriber.registry.validateInvariants then
    .finished
  else
    .failed .invariantFailure

/-- The loop, on what arrives. -/
def run (grants : Nat → RegistryGrants) (target : Nat) :
    Subscriber → List Arrival → Subscriber × Ending
  | subscriber, [] =>
      if subscriber.applied < target then
        (subscriber, .waiting)
      else
        (subscriber, subscriber.finish)
  | subscriber, arrival :: rest =>
      if subscriber.applied < target then
        match subscriber.receive grants arrival with
        | (next, none) => run grants target next rest
        | (next, some failure) => (next, .failed failure)
      else
        (subscriber, subscriber.finish)

end Subscriber

/-- Datagrams of the publisher, and others that carry no event. -/
def Genuine (frames : List EventFrame) : Arrival → Prop
  | .timeout => True
  | .failed _ => True
  | .datagram bytes =>
      (∃ frame ∈ frames, frame.toList = bytes) ∨
        ∀ frame : EventFrame, frame.toList = bytes → decodeEvent frame = none

variable {grants : Nat → RegistryGrants} {lines : List Line}
  {subscriber next : Subscriber} {events : List MarketEvent}
  {arrival : Arrival}

/-! ## The publisher -/

theorem encode_published
    {event : MarketEvent} {line : Line}
    (parsed : (parseEventLine line).event = some event) :
    ∃ frame, encodeEvent event = .ok frame ∧ decodeEvent frame = some event := by
  have encodable := (parseEventLine_event_iff.mp parsed).encodable
  obtain ⟨frame, encoded, carries⟩ := EventFrame.encode_carries encodable
  exact ⟨frame, encoded, carries.decode encodable⟩

/-- What the publisher sends are the events of its file. -/
theorem decode_publish (lines : List Line) :
    (publish lines).1.map decodeEvent = (publishedEvents lines).map some := by
  induction lines with
  | nil => rfl
  | cons line rest inductionHypothesis =>
      unfold publish publishedEvents
      cases parsed : (parseEventLine line).event with
      | none =>
          dsimp only
          split_ifs
          · exact inductionHypothesis
          · rfl
      | some event =>
          obtain ⟨frame, encoded, decoded⟩ := encode_published parsed
          simp only [encoded, List.map_cons, decoded, inductionHypothesis]

theorem publishedEvents_encodable (lines : List Line) :
    ∀ event ∈ publishedEvents lines, event.Encodable := by
  induction lines with
  | nil => simp [publishedEvents]
  | cons line rest inductionHypothesis =>
      unfold publishedEvents
      cases parsed : (parseEventLine line).event with
      | none =>
          dsimp only
          split_ifs
          · exact inductionHypothesis
          · simp
      | some event =>
          exact List.forall_mem_cons.mpr
            ⟨(parseEventLine_event_iff.mp parsed).encodable,
              inductionHypothesis⟩

/-- A datagram that carries an event carries one of the file. -/
theorem Genuine.mem
    {bytes : List UInt8} (genuine : Genuine (publish lines).1 (.datagram bytes))
    {frame : EventFrame} (isFrame : frame.toList = bytes) {event : MarketEvent}
    (decoded : decodeEvent frame = some event) :
    event ∈ publishedEvents lines := by
  rcases genuine with ⟨sent, member, isSent⟩ | foreign
  · have same : sent = frame :=
      Vector.toList_inj.mp (isSent.trans isFrame.symm)
    have image : some event ∈ (publish lines).1.map decodeEvent :=
      List.mem_map.mpr ⟨sent, member, same ▸ decoded⟩
    rw [decode_publish] at image
    obtain ⟨other, isEvent, same⟩ := List.mem_map.mp image
    exact Option.some.inj same ▸ isEvent
  · rw [foreign frame isFrame] at decoded
    cases decoded

/-! ## The subscriber -/

/-- The events of a file that is numbered from one on. -/
def Numbered (events : List MarketEvent) : Prop :=
  events.map MarketEvent.sequence = List.range' 1 events.length

/-- The subscriber has applied the first events of a file and no others. -/
structure Follows (grants : Nat → RegistryGrants) (events : List MarketEvent)
    (subscriber : Subscriber) : Prop where
  applies : Applies grants {} 0 (events.take subscriber.applied)
    subscriber.registry
  bounded : subscriber.applied ≤ events.length
  output : subscriber.output = events.take subscriber.applied
  lastApplied : subscriber.lastApplied = subscriber.applied

/-- Why a subscriber that follows a file stops early. -/
inductive Explained (grants : Nat → RegistryGrants) (events : List MarketEvent)
    (subscriber : Subscriber) : Failure → Prop where
  | timeout : Explained grants events subscriber .timeout
  | transportFailed {what : String} :
      Explained grants events subscriber (.transportFailed what)
  | badSize : Explained grants events subscriber .badSize
  | malformed : Explained grants events subscriber .malformed
  /-- A later event of the file arrived before the next one. -/
  | gap {received : Sequence} :
      subscriber.applied + 1 < received →
      received ≤ events.length →
      Explained grants events subscriber
        (.gap (subscriber.applied + 1) received)
  /-- The books of a replay refuse the next event as well. -/
  | rejected {event : MarketEvent} {result : ApplyResult} :
      events[subscriber.applied]? = some event →
      (subscriber.registry.apply (grants subscriber.applied) event).2 =
        result →
      result ≠ .ok →
      Explained grants events subscriber (.rejected result)

/-- The datagram that a subscriber fails on is counted as well. -/
def Failure.counted : Failure → Nat
  | .timeout => 0
  | .transportFailed _ => 0
  | .invariantFailure => 0
  | .badSize => 1
  | .malformed => 1
  | .gap _ _ => 1
  | .rejected _ => 1

def Ending.counted : Ending → Nat
  | .waiting => 0
  | .finished => 0
  | .failed failure => failure.counted

theorem Numbered.position
    (numbered : Numbered events) {event : MarketEvent} (member : event ∈ events) :
    1 ≤ event.sequence ∧ event.sequence ≤ events.length ∧
      events[event.sequence - 1]? = some event := by
  obtain ⟨i, inside, rfl⟩ := List.mem_iff_getElem.mp member
  have sequence : (events.map MarketEvent.sequence)[i]? =
      some (1 + i) := by
    rw [numbered, List.getElem?_range' inside, Nat.one_mul]
  rw [List.getElem?_map, List.getElem?_eq_getElem inside, Option.map_some,
    Option.some.injEq] at sequence
  rw [sequence, Nat.add_sub_cancel_left]
  exact ⟨Nat.le_add_right _ _, by lia, List.getElem?_eq_getElem inside⟩

theorem Follows.tracks (follows : Follows grants events subscriber) :
    subscriber.registry.Tracks (events.take subscriber.applied) := by
  have tracks := follows.applies.tracks OrderBookRegistry.tracks_empty
  rwa [List.nil_append] at tracks

theorem Follows.getSeq (follows : Follows grants events subscriber) :
    subscriber.registry.getSeq = subscriber.applied := by
  have lengths := congrArg List.length follows.tracks.numbered
  rw [List.length_map, List.length_take, List.length_range'] at lengths
  rw [← lengths]
  exact Nat.min_eq_left follows.bounded

theorem Follows.seqValid_iff
    (follows : Follows grants events subscriber) (sequence : Sequence) :
    subscriber.registry.seqValid sequence = true ↔
      sequence = subscriber.applied + 1 := by
  rw [← follows.getSeq, OrderBookRegistry.seqValid, decide_eq_true_eq]
  unfold OrderBookRegistry.getSeq
  lia

theorem Follows.stale
    (follows : Follows grants events subscriber) {event : MarketEvent}
    (old : event.sequence ≤ subscriber.applied) :
    let next := { subscriber with stale := subscriber.stale + 1 }
    subscriber.handle grants event = (next, none) ∧
      Follows grants events next :=
  ⟨if_pos (follows.getSeq ▸ old),
    ⟨follows.applies, follows.bounded, follows.output, follows.lastApplied⟩⟩

/-- The next event of the file is applied if the books accept it. -/
theorem Follows.taken
    (follows : Follows grants events subscriber) {event : MarketEvent}
    (here : events[subscriber.applied]? = some event)
    (isNext : event.sequence = subscriber.applied + 1)
    {registry : OrderBookRegistry}
    (applied : subscriber.registry.apply (grants subscriber.applied) event =
      (registry, .ok)) :
    let next : Subscriber :=
      { subscriber with
        registry := registry
        lastApplied := registry.getSeq
        applied := subscriber.applied + 1
        output := subscriber.output ++ [event] }
    subscriber.handle grants event = (next, none) ∧
      Follows grants events next := by
  have inTurn := (follows.seqValid_iff event.sequence).mpr isNext
  have inside : subscriber.applied + 1 ≤ events.length :=
    (List.getElem?_eq_some_iff.mp here).1
  have taken : events.take (subscriber.applied + 1) =
      events.take subscriber.applied ++ [event] := by
    rw [List.take_add_one, here]
    rfl
  have applies : Applies grants {} 0
      (events.take (subscriber.applied + 1)) registry := by
    rw [taken]
    refine follows.applies.concat inTurn ?_
    rw [Nat.zero_add, List.length_take, Nat.min_eq_left follows.bounded]
    exact applied
  refine ⟨?_, applies, inside, ?_, ?_⟩
  · unfold Subscriber.handle
    rw [if_neg (by rw [follows.getSeq]; lia), if_neg (not_not.mpr inTurn),
      applied]
    exact if_neg (not_not.mpr rfl)
  · exact (congrArg (· ++ [event]) follows.output).trans taken.symm
  · exact @Follows.getSeq grants
      ⟨registry, subscriber.applied + 1, subscriber.applied + 1, 0, 0,
        events.take (subscriber.applied + 1)⟩ events
      ⟨applies, inside, rfl, rfl⟩

/-- An event is stale, applied in turn, or ends the loop. -/
theorem Follows.handle
    (follows : Follows grants events subscriber) (numbered : Numbered events)
    {event : MarketEvent} (member : event ∈ events) :
    (∃ next, subscriber.handle grants event = (next, none) ∧
      Follows grants events next ∧ next.received = subscriber.received ∧
      next.applied + next.stale = subscriber.applied + subscriber.stale + 1 ∧
      next.applied ≤ subscriber.applied + 1) ∨
    ∃ failure, subscriber.handle grants event = (subscriber, some failure) ∧
      failure.counted = 1 ∧ Explained grants events subscriber failure := by
  obtain ⟨positive, bounded, here⟩ := numbered.position member
  have getSeq := follows.getSeq
  have valid := follows.seqValid_iff event.sequence
  by_cases old : event.sequence ≤ subscriber.applied
  · obtain ⟨handled, next⟩ := follows.stale old
    exact Or.inl ⟨_, handled, next, rfl, rfl, Nat.le_succ _⟩
  have isNew : ¬ event.sequence ≤ subscriber.registry.getSeq := by
    rwa [getSeq]
  by_cases inTurn : subscriber.registry.seqValid event.sequence = true
  swap
  · have notNext := mt valid.mpr inTurn
    refine Or.inr ⟨.gap (subscriber.applied + 1) event.sequence, ?_, rfl,
      .gap (by lia) bounded⟩
    rw [Subscriber.handle, if_neg isNew, if_pos inTurn, getSeq]
  have isNext := valid.mp inTurn
  rw [isNext, Nat.add_sub_cancel] at here
  cases applied : subscriber.registry.apply (grants subscriber.applied) event with
  | mk registry result =>
      by_cases isOk : result = .ok
      · rw [isOk] at applied
        obtain ⟨handled, next⟩ := follows.taken here isNext applied
        exact Or.inl ⟨_, handled, next, rfl, Nat.add_right_comm _ _ _,
          Nat.le_refl _⟩
      · have same : registry = subscriber.registry := by
          have takes := OrderBookRegistry.apply_takes follows.tracks.ready
            (grants subscriber.applied) event
          rw [applied] at takes
          cases takes with
          | refused _ => rfl
          | taken _ _ _ => exact absurd rfl isOk
        subst same
        refine Or.inr ⟨.rejected result, ?_, rfl, .rejected here ?_ isOk⟩
        · rw [Subscriber.handle, if_neg isNew, if_neg (not_not.mpr inTurn),
            applied]
          exact if_pos isOk
        · rw [applied]

theorem Follows.receive
    (follows : Follows grants (publishedEvents lines) subscriber)
    (numbered : Numbered (publishedEvents lines))
    (genuine : Genuine (publish lines).1 arrival) :
    (∃ next, subscriber.receive grants arrival = (next, none) ∧
      Follows grants (publishedEvents lines) next ∧
      next.received = subscriber.received + 1 ∧
      next.applied + next.stale = subscriber.applied + subscriber.stale + 1 ∧
      next.applied ≤ subscriber.applied + 1) ∨
    ∃ received failure,
      subscriber.receive grants arrival =
        ({ subscriber with received := received }, some failure) ∧
      received = subscriber.received + failure.counted ∧
      Explained grants (publishedEvents lines)
        { subscriber with received := received } failure := by
  cases arrival with
  | timeout => exact Or.inr ⟨_, _, rfl, rfl, .timeout⟩
  | failed what => exact Or.inr ⟨_, _, rfl, rfl, .transportFailed⟩
  | datagram bytes =>
      have counted : Follows grants (publishedEvents lines)
          { subscriber with received := subscriber.received + 1 } :=
        ⟨follows.applies, follows.bounded, follows.output, follows.lastApplied⟩
      unfold Subscriber.receive
      dsimp only
      by_cases whole : bytes.length = 40
      swap
      · rw [dif_neg whole]
        exact Or.inr ⟨_, _, rfl, rfl, .badSize⟩
      rw [dif_pos whole]
      cases decoded : decodeEvent ⟨bytes.toArray, by simpa using whole⟩ with
      | none => exact Or.inr ⟨_, _, rfl, rfl, .malformed⟩
      | some event =>
          rcases counted.handle numbered (genuine.mem rfl decoded) with
            done | ⟨failure, failed, counted, explained⟩
          · exact Or.inl done
          · exact Or.inr ⟨_, failure, failed, by rw [counted], explained⟩

/-- What a subscriber has done when its loop is left or waits. -/
structure Ended (grants : Nat → RegistryGrants) (events : List MarketEvent)
    (target : Nat) (result : Subscriber × Ending) : Prop where
  follows : Follows grants events result.1
  enough : result.1.applied ≤ target
  received : result.1.received =
    result.1.applied + result.1.stale + result.2.counted
  waiting : result.2 = .waiting → result.1.applied < target
  finished : result.2 = .finished → result.1.applied = target
  failed : ∀ failure, result.2 = .failed failure →
    Explained grants events result.1 failure

/-- The events of a file leave books that pass their checks. -/
theorem Follows.finish
    (follows : Follows grants (publishedEvents lines) subscriber) :
    subscriber.finish = .finished := by
  have validates := follows.tracks.validates fun event member =>
    publishedEvents_encodable lines event (List.mem_of_mem_take member)
  exact if_pos validates

theorem Follows.run
    (follows : Follows grants (publishedEvents lines) subscriber)
    (numbered : Numbered (publishedEvents lines)) {arrivals : List Arrival}
    (genuine : ∀ arrival ∈ arrivals, Genuine (publish lines).1 arrival)
    {target : Nat} (enough : subscriber.applied ≤ target)
    (received : subscriber.received =
      subscriber.applied + subscriber.stale) :
    Ended grants (publishedEvents lines) target
      (subscriber.run grants target arrivals) := by
  have finishes (last : target ≤ subscriber.applied) :
      Ended grants (publishedEvents lines) target
        (subscriber, subscriber.finish) := by
    rw [follows.finish]
    exact ⟨follows, enough, received, nofun,
      fun _ => Nat.le_antisymm enough last, nofun⟩
  induction arrivals generalizing subscriber with
  | nil =>
      unfold Subscriber.run
      split_ifs with more
      · exact ⟨follows, enough, received, fun _ => more, nofun, nofun⟩
      · exact finishes (Nat.le_of_not_lt more)
  | cons arrival rest inductionHypothesis =>
      obtain ⟨first, later⟩ := List.forall_mem_cons.mp genuine
      unfold Subscriber.run
      by_cases more : subscriber.applied < target
      swap
      · rw [if_neg more]
        exact finishes (Nat.le_of_not_lt more)
      rw [if_pos more]
      rcases follows.receive numbered first with
        ⟨next, handled, nextFollows, counted, sum, atMost⟩ |
          ⟨count, failure, failed, counted, explained⟩
      · rw [handled]
        have nextEnough : next.applied ≤ target := atMost.trans more
        have nextReceived : next.received = next.applied + next.stale := by
          rw [counted, received, sum]
        refine inductionHypothesis nextFollows later nextEnough nextReceived
          fun last => ?_
        rw [nextFollows.finish]
        exact ⟨nextFollows, nextEnough, nextReceived, nofun,
          fun _ => Nat.le_antisymm nextEnough last, nofun⟩
      · rw [failed]
        refine ⟨⟨follows.applies, follows.bounded, follows.output,
          follows.lastApplied⟩, enough, ?_, nofun, nofun, ?_⟩
        · exact counted.trans (congrArg (· + failure.counted) received)
        · rintro _ ⟨⟩
          exact explained

theorem follows_start :
    Follows grants events {} :=
  ⟨.nil, Nat.zero_le _, rfl, rfl⟩

/--
The publisher sends a numbered file, and the network loses, repeats and
reorders its datagrams and delivers bytes that are no events; a call of
`receive` may throw.  At any time the subscriber has printed and applied just
the first events of the file, once each, and has the books of a replay of a
part of it.  It finishes only with all the events it was to apply, and it stops
only for a reason: at a gap a later event was there before the next one, and at
a rejection those books refuse the next event of the file.
-/
theorem subscriber_follows
    (numbered : Numbered (publishedEvents lines)) (target : Nat)
    {arrivals : List Arrival}
    (genuine : ∀ arrival ∈ arrivals, Genuine (publish lines).1 arrival) :
    let result := Subscriber.run grants target {} arrivals
    Ended grants (publishedEvents lines) target result ∧
      ∃ before, before <+: lines ∧ readLines grants {} before =
        .ok ⟨result.1.registry, before.length, result.1.applied⟩ := by
  intro result
  have ended := (@follows_start grants (publishedEvents lines)).run numbered
    genuine (Nat.zero_le target) rfl
  refine ⟨ended, ?_⟩
  obtain ⟨before, isPrefix, read⟩ :=
    @Applies.read {} lines grants _ _ ended.follows.applies
      (List.take_prefix _ _)
  refine ⟨before, isPrefix, ?_⟩
  rw [List.length_take, Nat.min_eq_left ended.follows.bounded] at read
  simpa using read

/-- The lines of a file of two events. -/
def twoLines : List Line :=
  ["1,7,ADD,1,BID,100,5".toList, "2,7,CANCEL,1,,,".toList]

/-- The second datagram of two arrives, and the first is lost. -/
def secondOnly : List Arrival :=
  ((publish twoLines).1.drop 1).map fun frame => .datagram frame.toList

theorem secondOnly_genuine :
    ∀ arrival ∈ secondOnly, Genuine (publish twoLines).1 arrival := by
  intro arrival member
  obtain ⟨frame, isSent, rfl⟩ := List.mem_map.mp member
  exact Or.inl ⟨frame, List.mem_of_mem_drop isSent, rfl⟩

theorem subscriber_follows_gap :
    ∃ subscriber,
      Ended (fun _ => {}) (publishedEvents twoLines) 2
        (subscriber, .failed (.gap 1 2)) ∧
      subscriber.received = 1 := by
  have numbered : Numbered (publishedEvents twoLines) := by
    unfold Numbered
    decide +kernel
  have ended : Ended (fun _ => {}) (publishedEvents twoLines) 2
      (Subscriber.run (fun _ => {}) 2 {} secondOnly) :=
    (@subscriber_follows (fun _ => {}) twoLines numbered 2 secondOnly
      secondOnly_genuine).1
  have gap : (Subscriber.run (fun _ => {}) 2 {} secondOnly).2 =
      .failed (.gap 1 2) := by decide +kernel
  have received : (Subscriber.run (fun _ => {}) 2 {} secondOnly).1.received =
      1 := by decide +kernel
  generalize Subscriber.run (fun _ => {}) 2 {} secondOnly = result at *
  obtain ⟨subscriber, ending⟩ := result
  obtain rfl : ending = .failed (.gap 1 2) := gap
  exact ⟨subscriber, ended, received⟩

end UdpDemo

end LimitOrderBook
