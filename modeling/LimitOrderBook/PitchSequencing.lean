import LimitOrderBook.FeedSafety

namespace LimitOrderBook.Feed

/-!
# PITCH sequencing

For each unit, the events that the decoder has returned form a log: each event
beside the bytes of its message.  The unit's committed state is a function of
that log, so a packet extends it as a whole or not at all.
-/

namespace Pitch

/-- Cut bytes into messages by the length byte each starts with. -/
def tiles : Nat → Bytes → List Bytes
  | 0, _ => []
  | _ + 1, [] => []
  | fuel + 1, length :: rest =>
      (length :: rest).take length.toNat ::
        tiles fuel ((length :: rest).drop length.toNat)

/-- The messages of a packet, after its header. -/
def messages (p : Bytes) : List Bytes :=
  tiles p.length (p.drop 8)

/-- A message is as long as its first byte says, and not shorter than six. -/
def Tile (m : Bytes) : Prop :=
  6 ≤ m.length ∧ m.head?.map UInt8.toNat = some m.length

/-- Messages that are laid out end to end are found again. -/
theorem tiles_flatten
    {fuel : Nat} {pieces : List Bytes} (tiled : ∀ m ∈ pieces, Tile m)
    (enough : pieces.flatten.length ≤ fuel) :
    tiles fuel pieces.flatten = pieces := by
  induction pieces generalizing fuel with
  | nil => cases fuel <;> rfl
  | cons m rest inductionHypothesis =>
      obtain ⟨long, size⟩ := tiled m (by simp)
      cases m with
      | nil => simp at long
      | cons length body =>
          simp only [List.head?_cons, Option.map_some, Option.some.injEq]
            at size
          rw [List.flatten_cons, List.length_append] at enough
          cases fuel with
          | zero => simp at enough
          | succ fuel =>
              rw [List.flatten_cons, List.cons_append, tiles,
                ← List.cons_append, size, List.take_left, List.drop_left]
              congr 1
              refine inductionHypothesis
                (fun other member => tiled other (by simp [member])) ?_
              simp only [List.length_cons] at enough
              lia

/-- The log of a unit and the state the unit is in after it. -/
structure Logged (log : List (Event × Bytes)) (unit : PitchUnit) : Prop where
  sequences : log.map (fun entry => entry.1.sequence) =
    List.range' 1 log.length
  timestamps : ∀ entry ∈ log, entry.1.timestampNs < 86400 * 1000000000
  seconds : unit.seconds < 86400
  open_ : unit.ended = false → ∀ entry ∈ log, endsSession entry.2 = false
  closed : unit.ended = true →
    ∃ before entry, log = before ++ [entry] ∧ endsSession entry.2 = true ∧
      ∀ earlier ∈ before, endsSession earlier.2 = false

/-- A message in its place extends the log of its unit. -/
theorem Logged.snoc
    {log : List (Event × Bytes)} {unit : PitchUnit} {channel : UInt8}
    {m : Bytes} {result : PitchUnit × Event} (logged : Logged log unit)
    (isOpen : unit.ended = false)
    (advances : Advances channel (log.length + 1) m unit result) :
    Logged (log ++ [(result.2, m)]) result.1 where
  sequences := by
    rw [List.map_append, logged.sequences, List.length_append,
      List.length_singleton, List.range'_concat]
    simp [advances.sequence, Nat.add_comm]
  timestamps entry member := by
    rcases List.mem_append.mp member with old | new
    · exact logged.timestamps entry old
    · rw [List.mem_singleton.mp new]
      exact advances.timestampNs
  seconds := advances.seconds
  open_ stillOpen entry member := by
    rw [advances.ended, isOpen, Bool.false_or] at stillOpen
    rcases List.mem_append.mp member with old | new
    · exact logged.open_ isOpen entry old
    · rw [List.mem_singleton.mp new]
      exact stillOpen
  closed nowClosed := by
    rw [advances.ended, isOpen, Bool.false_or] at nowClosed
    exact ⟨log, _, rfl, nowClosed, logged.open_ isOpen⟩

/-- A unit between packets. -/
structure AtRest (log : List (Event × Bytes)) (unit : PitchUnit) : Prop where
  logged : Logged log unit
  next : unit.next = log.length + 1
  small : log.length < 2 ^ 32

/-- A unit that has seen nothing has an empty log. -/
theorem atRest_start : AtRest [] {} where
  logged := ⟨rfl, by simp, by decide, by simp, by simp⟩
  next := rfl
  small := by decide

/-! ## The loop over a packet -/

/-- The loop has read these messages. -/
structure Walked (p : Bytes) (channel : UInt8) (log : List (Event × Bytes))
    (pieces : List Bytes) (walk : Walk) : Prop where
  tiled : ∀ m ∈ pieces, Tile m
  inside : walk.offset ≤ p.length
  covered : p.take walk.offset = p.take 8 ++ pieces.flatten
  counted : walk.events.length = pieces.length
  channels : ∀ e ∈ walk.events, e.channel = channel.toNat
  logged : Logged (log ++ walk.events.zip pieces) walk.state

/-- What an iteration that ends has read: one message, from the offset on. -/
structure Step (p : Bytes) (channel : UInt8) (sequence : Nat) (walk : Walk)
    (m : Bytes) (e : Event) (next : Walk) : Prop where
  isOpen : walk.state.ended = false
  tile : Tile m
  shape : p.drop walk.offset = m ++ p.drop (walk.offset + m.length)
  inside : walk.offset + m.length ≤ p.length
  decoded : decodeMessage channel sequence m walk.state =
    .ok (next.state, e)
  offset : next.offset = walk.offset + m.length
  events : next.events = walk.events ++ [e]

/-- What a step of the walk returns is a step of the log. -/
theorem walkMessage_ok
    {p : Bytes} {channel : UInt8} {sequence index : Nat} {walk next : Walk}
    (answered : walkMessage p channel sequence walk index = .ok next) :
    ∃ m e, Step p channel (sequence + index) walk m e next := by
  obtain ⟨_, isOpen, answered⟩ := Fallible.bind_ok answered
  obtain ⟨_, header, answered⟩ := Fallible.bind_ok answered
  obtain ⟨length, isLength, answered⟩ := Fallible.bind_ok answered
  obtain ⟨_, bounded, answered⟩ := Fallible.bind_ok answered
  obtain ⟨m, isMessage, answered⟩ := Fallible.bind_ok answered
  obtain ⟨⟨state, e⟩, decoded, answered⟩ := Fallible.bind_ok answered
  cases answered
  have headerInside := of_decide_eq_true (require_safe.of_ok header)
  have bounds := of_decide_eq_true (require_safe.of_ok bounded)
  have lengthByte := (byteAt_safe (by lia)).of_ok isLength
  have isTake := (subspan_safe (by lia)).of_ok isMessage
  have size : m.length = length.toNat := by
    rw [isTake, List.length_take, List.length_drop]
    lia
  refine ⟨m, e, ?_⟩
  refine
    { isOpen := of_decide_eq_true (require_safe.of_ok isOpen)
      tile := ⟨by lia, ?_⟩
      shape := ?_
      inside := by lia
      decoded := decoded
      offset := by rw [size]
      events := rfl }
  · have first : m.head? = some length := by
      rw [isTake, List.head?_take, if_neg (by lia), List.head?_drop,
        lengthByte]
    rw [first, size]
    rfl
  · rw [← List.drop_drop, size]
    conv_lhs => rw [← List.take_append_drop length.toNat (p.drop walk.offset)]
    rw [← isTake]

/-- A message ahead extends the walk, or the packet is refused. -/
theorem walkMessage_safe
    {p : Bytes} {channel : UInt8} {log : List (Event × Bytes)}
    {pieces : List Bytes} {walk : Walk} {sequence index : Nat}
    (walked : Walked p channel log pieces walk)
    (expected : sequence = log.length + 1) (isIndex : index = pieces.length) :
    Safely (fun next => ∃ m, Walked p channel log (pieces ++ [m]) next)
      (walkMessage p channel sequence walk index) := by
  refine (safely_of_cleanly (walkMessage_clean ..)).of_answers ?_
  intro next answered
  obtain ⟨m, e, step⟩ := walkMessage_ok answered
  have numbered : sequence + index =
      (log ++ walk.events.zip pieces).length + 1 := by
    rw [List.length_append, List.length_zip, walked.counted, Nat.min_self,
      expected, isIndex]
    lia
  have advances := (decodeMessage_clean step.tile.1).of_ok step.decoded
    walked.logged.seconds
  refine ⟨m, ?_⟩
  refine
    { tiled := ?_
      inside := step.offset ▸ step.inside
      covered := ?_
      counted := by simp [step.events, walked.counted]
      channels := ?_
      logged := ?_ }
  · intro other member
    rcases List.mem_append.mp member with old | new
    · exact walked.tiled other old
    · rw [List.mem_singleton.mp new]
      exact step.tile
  · rw [step.offset, List.take_add, walked.covered, step.shape,
      List.take_left]
    simp
  · intro other member
    rw [step.events] at member
    rcases List.mem_append.mp member with old | new
    · exact walked.channels other old
    · rw [List.mem_singleton.mp new]
      exact advances.channel
  · rw [step.events, List.zip_append walked.counted, ← List.append_assoc]
    rw [numbered] at advances
    exact walked.logged.snoc step.isOpen advances

/-- The indices of a loop are its positions. -/
theorem index_eq_length
    {passed : List Nat} {index count : Nat}
    (isPrefix : passed ++ [index] <+: List.range count) :
    index = passed.length := by
  obtain ⟨rest, shape⟩ := isPrefix
  have here := congrArg (fun items => items[passed.length]?) shape
  simp only [List.append_assoc, List.getElem?_append_right (Nat.le_refl _),
    Nat.sub_self, List.singleton_append, List.getElem?_cons_zero] at here
  have bounded : passed.length < count := by
    have lengths := congrArg List.length shape
    simp only [List.length_append, List.length_singleton,
      List.length_range] at lengths
    lia
  rw [List.getElem?_range bounded, Option.some.injEq] at here
  exact here

/-- All messages that the header counts extend the walk. -/
theorem walkMessages_safe
    {p : Bytes} {channel : UInt8} {log : List (Event × Bytes)}
    {state : PitchUnit} {sequence count : Nat} (header : 8 ≤ p.length)
    (logged : Logged log state) (expected : sequence = log.length + 1) :
    Safely (fun walk => ∃ pieces, pieces.length = count ∧
        Walked p channel log pieces walk)
      ((List.range count).foldlM (walkMessage p channel sequence)
        ⟨state, 8, []⟩) := by
  refine (Fallible.Ends.foldlM (fun passed walk =>
    ∃ pieces, pieces.length = passed.length ∧
      Walked p channel log pieces walk) ?_ ?_).mono ?_
  · refine ⟨[], rfl, ?_⟩
    exact
      { tiled := by simp
        inside := header
        covered := by simp
        counted := rfl
        channels := by simp
        logged := by simpa using logged }
  · rintro passed index walk isPrefix ⟨pieces, sameLength, walked⟩
    have isIndex := (index_eq_length isPrefix).trans sameLength.symm
    refine (walkMessage_safe walked expected isIndex).mono ?_
    rintro next ⟨m, nextWalked⟩
    exact ⟨pieces ++ [m], by simp [sameLength], nextWalked⟩
  · rintro walk ⟨pieces, sameLength, walked⟩
    rw [List.length_range] at sameLength
    exact ⟨pieces, sameLength, walked⟩

end Pitch

namespace PitchDecoder

open Pitch

/--
The messages of a packet cover it exactly, one for each event, and the events
belong to the unit that the header names.
-/
structure Tiled (p : Bytes) (events : List Event) : Prop where
  header : 8 ≤ p.length
  unit : ∃ channel, p[3]? = some channel ∧
    ∀ e ∈ events, e.channel = channel.toNat
  covered : (messages p).flatten = p.drop 8
  counted : (messages p).length = events.length
  tiled : ∀ m ∈ messages p, Tile m

/-- The events of a packet that belong to a unit, beside their messages. -/
def unitPart (channel : UInt8) (p : Bytes) (events : List Event) :
    List (Event × Bytes) :=
  (events.zip (messages p)).filter fun entry =>
    decide (entry.1.channel = channel.toNat)

variable {units : UInt8 → PitchUnit} {logs : UInt8 → List (Event × Bytes)}
  {p : Bytes}

/-- Messages that cover a packet to its end are its messages. -/
theorem messages_of_covered
    {pieces : List Bytes} (tiled : ∀ m ∈ pieces, Tile m)
    (all : p.take p.length = p.take 8 ++ pieces.flatten) :
    messages p = pieces ∧ pieces.flatten = p.drop 8 := by
  have covered : pieces.flatten = p.drop 8 := by
    rw [List.take_length] at all
    have split := List.take_append_drop 8 p
    exact List.append_cancel_left (all.symm.trans split.symm)
  refine ⟨?_, covered⟩
  rw [messages, ← covered]
  refine tiles_flatten tiled ?_
  rw [covered, List.length_drop]
  exact Nat.sub_le _ _

/-- The events of one channel belong to its unit and to no other. -/
theorem unitPart_of_channel
    {channel : UInt8} {events : List Event}
    (channels : ∀ e ∈ events, e.channel = channel.toNat) (other : UInt8) :
    unitPart other p events =
      if other = channel then events.zip (messages p) else [] := by
  have allHere : ∀ entry ∈ events.zip (messages p),
      entry.1.channel = channel.toNat := fun entry member =>
    channels entry.1 (List.of_mem_zip member).1
  unfold unitPart
  split_ifs with here
  · subst here
    refine List.filter_eq_self.mpr fun entry member => ?_
    simpa using allHere entry member
  · refine List.filter_eq_nil_iff.mpr fun entry member isOther => ?_
    rw [decide_eq_true_eq, allHere entry member] at isOther
    exact here (UInt8.toNat_inj.mp isOther.symm)

/-- What a packet that is returned does to every unit. -/
structure Extends (logs : UInt8 → List (Event × Bytes)) (p : Bytes)
    (result : (UInt8 → PitchUnit) × List Event) : Prop where
  tiled : Tiled p result.2
  atRest : ∀ channel,
    AtRest (logs channel ++ unitPart channel p result.2) (result.1 channel)

/-- The messages of a packet extend the log of its channel. -/
theorem decodeMessages_safe
    {channel : UInt8} {sequence count : Nat}
    (atRest : ∀ channel, AtRest (logs channel) (units channel))
    (header : 8 ≤ p.length) (isChannel : p[3]? = some channel) :
    Safely (Extends logs p)
      (decodeMessages units p channel sequence count) := by
  obtain ⟨logged, next, small⟩ := atRest channel
  refine require_safe.bind fun _ expected => ?_
  refine require_safe.bind fun _ _ => ?_
  refine require_safe.bind fun _ noRollover => ?_
  rw [decide_eq_true_eq] at expected noRollover
  rw [next] at expected
  refine (walkMessages_safe header logged expected).bind ?_
  rintro walk ⟨pieces, sameLength, walked⟩
  refine require_safe.bind fun _ whole => ?_
  rw [decide_eq_true_eq] at whole
  have all := walked.covered
  rw [whole] at all
  obtain ⟨found, covered⟩ := messages_of_covered walked.tiled all
  refine ⟨⟨header, ⟨channel, isChannel, walked.channels⟩, ?_, ?_, ?_⟩,
    fun other => ?_⟩
  · rw [found, covered]
  · rw [found, walked.counted]
  · rw [found]
    exact walked.tiled
  · dsimp only
    rw [unitPart_of_channel walked.channels, found]
    split_ifs with here
    · subst here
      have length : (logs other ++ walk.events.zip pieces).length =
          (logs other).length + count := by
        rw [List.length_append, List.length_zip, walked.counted,
          Nat.min_self, sameLength]
      obtain ⟨sequences, timestamps, seconds, isOpen, closed⟩ :=
        walked.logged
      rw [Function.update_self]
      refine ⟨⟨sequences, timestamps, seconds, isOpen, closed⟩, ?_, ?_⟩
      · rw [length]
        show sequence + count = (logs other).length + count + 1
        lia
      · lia
    · rw [List.append_nil, Function.update_of_ne here]
      exact atRest other

/-- A packet extends the logs or is refused. -/
theorem decodePacket_safe
    (atRest : ∀ channel, AtRest (logs channel) (units channel)) (p : Bytes) :
    Safely (Extends logs p) (decodePacket units p) := by
  refine require_safe.bind fun _ header => ?_
  rw [decide_eq_true_eq] at header
  have number {pos size : Nat} (small : size ≤ 8) (inside : pos + size ≤ 8) :=
    safely_of_cleanly (integer_clean true small (inside.trans header))
  refine (number (by decide) (by decide)).bind fun _ _ => ?_
  refine require_safe.bind fun _ _ => ?_
  refine (byteAt_safe (by lia)).bind fun count _ => ?_
  refine (byteAt_safe (by lia)).bind fun channel isChannel => ?_
  refine (number (by decide) (by decide)).bind fun sequence _ => ?_
  refine .ite (fun _ => ?_)
    fun _ => decodeMessages_safe atRest header isChannel
  refine require_safe.bind fun _ heartbeat => ?_
  rw [decide_eq_true_eq] at heartbeat
  have noBody : p.drop 8 = [] :=
    List.drop_eq_nil_of_le (Nat.le_of_eq heartbeat.1)
  have noMessages : messages p = [] := by
    rw [messages, noBody]
    cases p.length <;> rfl
  refine ⟨⟨header, ⟨channel, isChannel, nofun⟩, ?_, ?_, ?_⟩, fun other => ?_⟩
  · rw [noMessages, noBody]
    rfl
  · rw [noMessages]
    rfl
  · rw [noMessages]
    exact nofun
  · simpa [unitPart] using atRest other

/-! ## Runs -/

/-- The decoder after a sequence of calls. -/
def run (decoder : PitchDecoder) (packets : List Bytes) : PitchDecoder :=
  packets.foldl (fun decoder p => (decoder.decode p).1) decoder

/-- How the calls of a sequence end. -/
def outcomes (decoder : PitchDecoder) :
    List Bytes → List (Except Fault (List Event))
  | [] => []
  | p :: rest =>
      (decoder.decode p).2 :: outcomes (decoder.decode p).1 rest

/-- The calls of a sequence that return, with their events. -/
def returned (decoder : PitchDecoder) :
    List Bytes → List (Bytes × List Event)
  | [] => []
  | p :: rest =>
      ((decoder.decode p).2.toOption.map fun events => (p, events)).toList ++
        returned (decoder.decode p).1 rest

/-- The events of a unit over some calls. -/
def unitEvents (channel : UInt8) (calls : List (Bytes × List Event)) :
    List Event :=
  (calls.flatMap Prod.snd).filter fun e => decide (e.channel = channel.toNat)

/-- The events of a unit over some calls, each beside its message. -/
def unitLog (channel : UInt8) (calls : List (Bytes × List Event)) :
    List (Event × Bytes) :=
  calls.flatMap fun call => unitPart channel call.1 call.2

variable {decoder : PitchDecoder}

/-- A call that throws leaves the units alone and the decoder failed. -/
theorem decode_error
    {fault : Fault} (threw : (decoder.decode p).2 = .error fault) :
    (decoder.decode p).1.units = decoder.units ∧
      (decoder.decode p).1.failed = true := by
  unfold decode at threw ⊢
  split_ifs at threw ⊢ with failed
  · exact ⟨rfl, failed⟩
  · split at threw
    next => cases threw
    next => exact ⟨rfl, rfl⟩

/-- Only a decoder that has not failed answers with events. -/
theorem decode_ok
    {events : List Event} (answered : (decoder.decode p).2 = .ok events) :
    decoder.failed = false ∧
      (decoder.decode p).1.failed = false ∧
      decodePacket decoder.units p =
        .ok ((decoder.decode p).1.units, events) := by
  unfold decode at answered ⊢
  split_ifs at answered ⊢ with failed
  rw [Bool.not_eq_true] at failed
  split at answered
  next units result packet =>
    cases answered
    exact ⟨failed, failed, packet⟩
  next => cases answered

/-- A failed decoder refuses every packet. -/
theorem decode_failed (failed : decoder.failed = true) (p : Bytes) :
    decoder.decode p =
      (decoder,
        .error (.thrown "PITCH decoder requires restart after error")) := by
  simp [decode, failed]

/-- It stays as it is over any packets. -/
theorem run_failed
    (failed : decoder.failed = true) (packets : List Bytes) :
    decoder.run packets = decoder := by
  induction packets with
  | nil => rfl
  | cons p rest inductionHypothesis =>
      rw [run, List.foldl_cons, decode_failed failed]
      exact inductionHypothesis

/-- Every unit's state follows from what has been returned for it. -/
def Follows (calls : List (Bytes × List Event)) (decoder : PitchDecoder) :
    Prop :=
  (∀ channel, AtRest (unitLog channel calls) (decoder.units channel)) ∧
    ∀ call ∈ calls, Tiled call.1 call.2

variable {calls : List (Bytes × List Event)} {packets : List Bytes}

/-- A packet keeps the decoder on its log. -/
theorem Follows.decode
    (follows : Follows calls decoder) (p : Bytes) :
    Follows (calls ++ decoder.returned [p]) (decoder.decode p).1 := by
  obtain ⟨atRest, tiled⟩ := follows
  cases answered : (decoder.decode p).2 with
  | error fault =>
      have noneReturned : decoder.returned [p] = [] := by
        simp [returned, answered, Except.toOption]
      rw [noneReturned, List.append_nil]
      refine ⟨fun channel => ?_, tiled⟩
      rw [(decode_error answered).1]
      exact atRest channel
  | ok events =>
      have oneReturned : decoder.returned [p] = [(p, events)] := by
        simp [returned, answered, Except.toOption]
      obtain ⟨_, _, packet⟩ := decode_ok answered
      obtain ⟨packetTiled, packetAtRest⟩ :=
        (decodePacket_safe atRest p).of_ok packet
      rw [oneReturned]
      refine ⟨fun channel => ?_, fun call member => ?_⟩
      · rw [unitLog, List.flatMap_append, List.flatMap_singleton]
        exact packetAtRest channel
      · rcases List.mem_append.mp member with old | new
        · exact tiled call old
        · rw [List.mem_singleton.mp new]
          exact packetTiled

/-- The events of the first packet come first. -/
theorem returned_cons (decoder : PitchDecoder) (p : Bytes)
    (rest : List Bytes) :
    decoder.returned (p :: rest) =
      decoder.returned [p] ++ (decoder.decode p).1.returned rest := by
  simp [returned]

/-- Any packets keep the decoder on its log. -/
theorem Follows.run
    (follows : Follows calls decoder) (packets : List Bytes) :
    Follows (calls ++ decoder.returned packets) (decoder.run packets) := by
  induction packets generalizing calls decoder with
  | nil => simpa [returned, PitchDecoder.run] using follows
  | cons p rest inductionHypothesis =>
      rw [returned_cons, ← List.append_assoc]
      exact inductionHypothesis (follows.decode p)

/-- A fresh decoder follows what it returns. -/
theorem follows_run (packets : List Bytes) :
    Follows (returned {} packets) (run {} packets) := by
  have start : Follows [] {} := ⟨fun _ => atRest_start, by simp⟩
  simpa using start.run packets

/-- The log of a unit holds the unit's events. -/
theorem unitLog_events
    (tiled : ∀ call ∈ calls, Tiled call.1 call.2) (channel : UInt8) :
    (unitLog channel calls).map Prod.fst = unitEvents channel calls := by
  induction calls with
  | nil => rfl
  | cons call rest inductionHypothesis =>
      have here := tiled call (by simp)
      have part : (unitPart channel call.1 call.2).map Prod.fst =
          call.2.filter fun e => decide (e.channel = channel.toNat) := by
        have unzipped : (call.2.zip (messages call.1)).map Prod.fst =
            call.2 :=
          List.map_fst_zip (Nat.le_of_eq here.counted.symm)
        conv_rhs => rw [← unzipped]
        rw [unitPart, List.filter_map]
        rfl
      rw [unitLog, List.flatMap_cons, List.map_append, part, unitEvents,
        List.flatMap_cons, List.filter_append]
      congr 1
      exact inductionHypothesis fun other member =>
        tiled other (by simp [member])

/-- A decoder has not failed if no packet was refused. -/
theorem run_failed_iff
    (decoder : PitchDecoder) (packets : List Bytes) :
    (decoder.run packets).failed = false ↔
      decoder.failed = false ∧
        ∀ outcome ∈ decoder.outcomes packets, ∃ events,
          outcome = .ok events := by
  induction packets generalizing decoder with
  | nil => simp [run, outcomes]
  | cons p rest inductionHypothesis =>
      have step := inductionHypothesis (decoder.decode p).1
      rw [run, List.foldl_cons]
      refine step.trans ?_
      simp only [outcomes, List.forall_mem_cons]
      cases answered : (decoder.decode p).2 with
      | error fault => simp [(decode_error answered).2]
      | ok events =>
          obtain ⟨before, after, _⟩ := decode_ok answered
          simp [before, after]

/-- Every unit that was seen has ended. -/
theorem allEnded_iff
    (units : List PitchUnit) (seen : Bool) :
    allEnded units seen = true ↔
      (seen = true ∨ ∃ unit ∈ units, unit.next ≠ 1) ∧
        ∀ unit ∈ units, unit.next ≠ 1 → unit.ended = true := by
  induction units generalizing seen with
  | nil => simp [allEnded]
  | cons unit rest inductionHypothesis =>
      unfold allEnded
      by_cases used : unit.next = 1
      · simp [used, inductionHypothesis]
      · cases ended : unit.ended with
        | true => simp [used, ended, inductionHypothesis]
        | false => simp [used, ended]

/-- When a session is complete, unit by unit. -/
theorem complete_iff (decoder : PitchDecoder) :
    decoder.complete = true ↔
      decoder.failed = false ∧
        (∃ channel, (decoder.units channel).next ≠ 1) ∧
        ∀ channel, (decoder.units channel).next ≠ 1 →
          (decoder.units channel).ended = true := by
  have allUnits (holds : PitchUnit → Prop) :
      (∀ unit ∈ (List.range 256).map fun index =>
        decoder.units (UInt8.ofNat index), holds unit) ↔
        ∀ channel, holds (decoder.units channel) := by
    simp only [List.forall_mem_map, List.mem_range]
    refine ⟨fun each channel => ?_, fun each index _ => each _⟩
    have here := each channel.toNat channel.toNat_lt
    rwa [UInt8.ofNat_toNat] at here
  have someUnit :
      (∃ unit ∈ (List.range 256).map fun index =>
        decoder.units (UInt8.ofNat index), unit.next ≠ 1) ↔
        ∃ channel, (decoder.units channel).next ≠ 1 := by
    have noUnit := allUnits fun unit => ¬ unit.next ≠ 1
    constructor
    · rintro ⟨unit, member, used⟩
      by_contra unused
      exact noUnit.mpr (not_exists.mp unused) unit member used
    · rintro ⟨channel, used⟩
      by_contra unused
      push Not at unused
      exact noUnit.mp (fun unit member => not_not.mpr (unused unit member))
        channel used
  rw [complete, Bool.and_eq_true, allEnded_iff, someUnit, allUnits
    fun unit => unit.next ≠ 1 → unit.ended = true]
  simp only [Bool.false_eq_true, false_or, Bool.not_eq_eq_eq_not,
    Bool.not_true]
  tauto

/-- What holds of a decoder after any packets. -/
structure Sequenced (packets : List Bytes) : Prop where
  defined : ∀ p, ((run {} packets).decode p).2 ≠ .error .outOfBounds
  atomic : ∀ p fault, ((run {} packets).decode p).2 = .error fault →
    ((run {} packets).decode p).1.units = (run {} packets).units ∧
      ∀ later q, ∃ fault,
        ((((run {} packets).decode p).1.run later).decode q).2 =
          .error fault
  numbered : ∀ channel, ∃ n,
    (unitEvents channel (returned {} packets)).map Event.sequence =
        List.range' 1 n ∧
      ((run {} packets).units channel).next = n + 1 ∧ n < 2 ^ 32
  clocked : ∀ call ∈ returned {} packets, ∀ e ∈ call.2,
    e.timestampNs < 86400 * 1000000000
  tiled : ∀ call ∈ returned {} packets, Tiled call.1 call.2
  logs : ∀ channel, (unitLog channel (returned {} packets)).map Prod.fst =
    unitEvents channel (returned {} packets)
  closed : ∀ channel before entry after,
    unitLog channel (returned {} packets) = before ++ entry :: after →
      endsSession entry.2 = true → after = []
  completes : (run {} packets).complete = true ↔
    (∀ outcome ∈ outcomes {} packets, ∃ events, outcome = .ok events) ∧
      (∃ channel, unitLog channel (returned {} packets) ≠ []) ∧
      ∀ channel, unitLog channel (returned {} packets) ≠ [] →
        ∃ entry, (unitLog channel (returned {} packets)).getLast? =
          some entry ∧ endsSession entry.2 = true

end PitchDecoder

namespace Pitch

variable {log : List (Event × Bytes)} {unit : PitchUnit}

/-- Nothing follows the end of a session. -/
theorem Logged.nothing_after
    (logged : Logged log unit) {before after : List (Event × Bytes)}
    {entry : Event × Bytes} (shape : log = before ++ entry :: after)
    (isEnd : endsSession entry.2 = true) : after = [] := by
  cases ended : unit.ended with
  | false =>
      have notEnd := logged.open_ ended entry (by simp [shape])
      rw [isEnd] at notEnd
      cases notEnd
  | true =>
      obtain ⟨earlier, last, whole, _, noEnd⟩ := logged.closed ended
      cases List.eq_nil_or_concat after with
      | inl isNil => exact isNil
      | inr more =>
          obtain ⟨middle, final, rfl⟩ := more
          have split : earlier ++ [last] =
              (before ++ entry :: middle) ++ [final] := by
            rw [← whole, shape]
            simp
          have sameEarlier := (List.append_inj_left' split rfl)
          have notEnd := noEnd entry (by simp [sameEarlier])
          rw [isEnd] at notEnd
          cases notEnd

/-- A unit has ended if its last message says so. -/
theorem AtRest.ended_iff (atRest : AtRest log unit) :
    unit.ended = true ↔
      ∃ entry, log.getLast? = some entry ∧ endsSession entry.2 = true := by
  constructor
  · intro ended
    obtain ⟨before, entry, rfl, isEnd, _⟩ := atRest.logged.closed ended
    exact ⟨entry, by simp, isEnd⟩
  · rintro ⟨entry, isLast, isEnd⟩
    cases ended : unit.ended with
    | true => rfl
    | false =>
        have notEnd := atRest.logged.open_ ended entry
          (List.mem_of_getLast? isLast)
        rw [isEnd] at notEnd
        cases notEnd

/-- A unit was seen if its log is not empty. -/
theorem AtRest.next_ne_iff (atRest : AtRest log unit) :
    unit.next ≠ 1 ↔ log ≠ [] := by
  rw [atRest.next, ne_eq, Nat.add_eq_right, List.length_eq_zero_iff]

end Pitch

namespace PitchDecoder

open Pitch

/-- Whatever packets a decoder is given, its units stay in sequence. -/
theorem sequenced (packets : List Bytes) : Sequenced packets := by
  obtain ⟨atRest, tiled⟩ := follows_run packets
  have events := unitLog_events tiled
  refine
    { defined := ?_
      atomic := ?_
      numbered := ?_
      clocked := ?_
      tiled := tiled
      logs := events
      closed := ?_
      completes := ?_ }
  · intro p undefined
    have safe := decodePacket_safe atRest p
    unfold decode at undefined
    split_ifs at undefined
    · cases undefined
    · split at undefined
      next => cases undefined
      next fault packet =>
        rw [packet] at safe
        cases undefined
        exact safe rfl
  · intro p fault threw
    obtain ⟨sameUnits, failed⟩ := decode_error threw
    refine ⟨sameUnits, fun later q => ?_⟩
    rw [run_failed failed, decode_failed failed]
    exact ⟨_, rfl⟩
  · intro channel
    obtain ⟨logged, next, small⟩ := atRest channel
    refine ⟨_, ?_, next, small⟩
    rw [← events, List.map_map, ← logged.sequences]
    rfl
  · intro call member e eventMember
    obtain ⟨channel, _, channels⟩ := (tiled call member).unit
    have here : e ∈ unitEvents channel (returned {} packets) := by
      refine List.mem_filter.mpr
        ⟨List.mem_flatMap.mpr ⟨call, member, eventMember⟩, ?_⟩
      simpa using channels e eventMember
    rw [← events] at here
    obtain ⟨entry, entryMember, rfl⟩ := List.mem_map.mp here
    exact (atRest channel).logged.timestamps entry entryMember
  · intro channel before entry after shape isEnd
    exact (atRest channel).logged.nothing_after shape isEnd
  · rw [complete_iff, run_failed_iff]
    simp only [true_and]
    refine and_congr_right fun _ => and_congr ?_ ?_
    · exact exists_congr fun channel => (atRest channel).next_ne_iff
    · refine forall_congr' fun channel => ?_
      rw [← (atRest channel).next_ne_iff]
      exact imp_congr_right fun _ => (atRest channel).ended_iff

end PitchDecoder

end LimitOrderBook.Feed
