import LimitOrderBook.Dialogue
import LimitOrderBook.EventReplay

namespace LimitOrderBook

/-!
# Events over a connection

The model of `tools/tcp_event_client.cpp` and `tools/tcp_event_server.cpp`
without their logs.  The client sends each event of a file and waits for the
answer of the server's books before it sends the next.  `send_all` and
`receive_exact` move the bytes of a frame in any parts, and each call may fail.
Each turn of the two programs is a line of a replay of the file.
-/

namespace EventReplay

/-- What `replay` says of an event that its book refuses. -/
def Stop.refusal (line : Nat) (result : ApplyResult) : Stop :=
  if result = .notImplemented then .notImplemented else .applyError line result

end EventReplay

namespace TcpDemo

open EventCsv EventReplay Dialogue

/-- How the client ends. -/
inductive ClientEnd where
  | finished
  | rejected (result : ApplyResult)
  | parseFailed (line : Nat) (error : String)
  | protocolFailed (what : String)
  | mismatchedAck
  /-- The server closed before the answer, and the outcome is unknown. -/
  | serverClosed
  /-- `receive_exact` finds the end of the stream inside a frame. -/
  | disconnected
  | transportFailed (what : String)
  deriving DecidableEq

/-- How the server ends. -/
inductive ServerEnd where
  | finished
  | malformed
  | invalidSequence (received : Sequence)
  | protocolFailed (what : String)
  | disconnected
  | transportFailed (what : String)
  | invariantFailed
  deriving DecidableEq

/-- The variables of the client, and the answers it has printed. -/
structure Client where
  lines : List Line := []
  lineNumber : Nat := 0
  expected : Sequence := 0
  lastApplied : Sequence := 0
  acks : List ApplyAck := []

/-- The books of the server, the events it has printed and its answers. -/
structure Server where
  registry : OrderBookRegistry := {}
  output : List MarketEvent := []
  answered : List ApplyAck := []

namespace Client

/-- The loop up to the next event, which is sent. -/
def ask (client : Client) : List Line → Client × (EventFrame ⊕ ClientEnd)
  | [] => ({ client with lines := [] }, .inr .finished)
  | line :: rest =>
      let next :=
        { client with lines := rest, lineNumber := client.lineNumber + 1 }
      match (parseEventLine line).event with
      | none =>
          if (parseEventLine line).error = "" then
            next.ask rest
          else
            (next, .inr (.parseFailed next.lineNumber
              (parseEventLine line).error))
      | some event =>
          match encodeEvent event with
          | .error what => (next, .inr (.protocolFailed what))
          | .ok frame => ({ next with expected := event.sequence }, .inl frame)

/-- The loop from an answer on. -/
def respond (client : Client) (frame : AckFrame) :
    Client × (EventFrame ⊕ ClientEnd) :=
  match decodeApplyAck frame with
  | none => (client, .inr .mismatchedAck)
  | some response =>
      if response.sequence ≠ client.expected then
        (client, .inr .mismatchedAck)
      else
        let next := { client with acks := client.acks ++ [response] }
        if response.result ≠ .ok then
          (next, .inr (.rejected response.result))
        else
          { next with lastApplied := response.sequence }.ask client.lines

def program : Responder Client ClientEnd 16 40 where
  respond := respond
  closed _ := .serverClosed
  cut _ := .disconnected
  failed _ what := .transportFailed what

end Client

namespace Server

/-- The body of the loop; `grants` says what the heap refuses to each event. -/
def respond (grants : Nat → RegistryGrants) (server : Server)
    (frame : EventFrame) : Server × (AckFrame ⊕ ServerEnd) :=
  match decodeEvent frame with
  | none => (server, .inr .malformed)
  | some event =>
      if ¬ server.registry.seqValid event.sequence then
        (server, .inr (.invalidSequence event.sequence))
      else
        let applied :=
          server.registry.apply (grants server.output.length) event
        let ack : ApplyAck := ⟨event.sequence, applied.2⟩
        let printed :=
          { server with
            registry := applied.1
            output := server.output ++ [event] }
        match encodeApplyAck ack with
        | .error what => (printed, .inr (.protocolFailed what))
        | .ok frame =>
            ({ printed with answered := server.answered ++ [ack] }, .inl frame)

def program (grants : Nat → RegistryGrants) :
    Responder Server ServerEnd 40 16 where
  respond := respond grants
  closed server :=
    if server.registry.validateInvariants then .finished else .invariantFailed
  cut _ := .disconnected
  failed _ what := .transportFailed what

end Server

/-- The client is connected and has read up to its first event. -/
def connected (lines : List Line) :
    Link Client ClientEnd Server ServerEnd :=
  match Client.ask {} lines with
  | (client, .inl frame) => opening (client, {}, frame)
  | (client, .inr verdict) => silence ⟨client, .ended verdict⟩ {}

variable {grants : Nat → RegistryGrants} {lines before skipped : List Line}
  {line : Line} {event : MarketEvent} {frame sent : EventFrame}
  {answer : AckFrame} {client next : Client} {server after : Server}
  {state : EventReplay} {verdict : ClientEnd}

/-! ## The client reads -/

theorem readLines_append (first second : List Line) :
    readLines grants state (first ++ second) =
      (readLines grants state first).bind
        fun next => readLines grants next second :=
  List.foldlM_append ..

theorem readLines_cons (line : Line) (rest : List Line) :
    readLines grants state (line :: rest) =
      (readLine grants state line).bind
        fun next => readLines grants next rest :=
  List.foldlM_cons ..

/-- How a replay goes on from where the client has read on. -/
inductive Asks (grants : Nat → RegistryGrants) (state : EventReplay)
    (client : Client) (lines : List Line) :
    Client × (EventFrame ⊕ ClientEnd) → Prop where
  | sends {skipped after : List Line} {line : Line} {event : MarketEvent}
      {frame : EventFrame} :
      lines = skipped ++ line :: after →
      readLines grants state skipped = .ok
        { state with lineNumber := state.lineNumber + skipped.length } →
      lineEvents skipped = [] →
      (parseEventLine line).event = some event →
      encodeEvent event = .ok frame →
      Asks grants state client lines
        ({ client with
            lines := after
            lineNumber := state.lineNumber + skipped.length + 1
            expected := event.sequence },
          .inl frame)
  | finishes :
      readLines grants state lines = .ok
        { state with lineNumber := state.lineNumber + lines.length } →
      lineEvents lines = [] →
      Asks grants state client lines
        ({ client with
            lines := []
            lineNumber := state.lineNumber + lines.length },
          .inr .finished)
  | fails {after : List Line} {number : Nat} {error : String} :
      readLines grants state lines = .error (.parseError number error) →
      Asks grants state client lines
        ({ client with lines := after, lineNumber := number },
          .inr (.parseFailed number error))

theorem Asks.skip
    {result : Client × (EventFrame ⊕ ClientEnd)} {number : Nat}
    (asks : Asks grants
      { state with lineNumber := state.lineNumber + 1 }
      { client with lines := lines, lineNumber := number } lines result)
    (parsed : parseEventLine line = {}) :
    Asks grants state client (line :: lines) result := by
  have count (rest : List Line) :
      state.lineNumber + 1 + rest.length =
        state.lineNumber + (line :: rest).length := by
    rw [List.length_cons]
    lia
  have shape (rest : List Line) : readLines grants state (line :: rest) =
      readLines grants { state with lineNumber := state.lineNumber + 1 }
        rest := by
    rw [readLines_cons]
    simp [readLine, parsed, Except.bind]
  cases asks with
  | @sends skipped after other event frame isLines read none parsedOther
      encoded =>
      subst isLines
      rw [count] at read ⊢
      exact .sends List.cons_append.symm ((shape skipped).trans read)
        ((lineEvents_cons_skipped parsed skipped).trans none) parsedOther
        encoded
  | finishes read none =>
      rw [count] at read ⊢
      exact .finishes ((shape lines).trans read)
        ((lineEvents_cons_skipped parsed lines).trans none)
  | fails read => exact .fails ((shape lines).trans read)

/-- The client stops at an event, at an error or at the end of its file. -/
theorem ask_asks
    (client : Client) (lines : List Line)
    (same : client.lineNumber = state.lineNumber) :
    Asks grants state client lines (client.ask lines) := by
  induction lines generalizing client state with
  | nil =>
      have finishes := @Asks.finishes grants state client [] rfl rfl
      rw [List.length_nil, Nat.add_zero, ← same] at finishes
      exact finishes
  | cons line rest inductionHypothesis =>
      unfold Client.ask
      rcases parseEventLine_cases line with
        ⟨_, parsed⟩ | ⟨event, accepted, parsed⟩ | ⟨_, noEvent, someError⟩
      · rw [parsed]
        exact (inductionHypothesis
          { client with lines := rest, lineNumber := client.lineNumber + 1 }
          (congrArg (· + 1) same)).skip parsed
      · obtain ⟨frame, encoded, _⟩ := EventFrame.encode_carries
          accepted.encodable
        have sends := @Asks.sends grants state client (line :: rest) [] rest
          line event frame rfl rfl rfl (by rw [parsed]) encoded
        rw [parsed]
        simp only [encoded, same]
        exact sends
      · have read : readLines grants state (line :: rest) = .error
            (.parseError (state.lineNumber + 1)
              (parseEventLine line).error) := by
          rw [readLines_cons]
          simp [readLine, noEvent, someError, Except.bind]
        have fails := @Asks.fails grants state client (line :: rest) rest _ _
          read
        rw [noEvent]
        simp only [someError, if_false, same]
        exact fails

/-! ## The server answers -/

/-- The server has applied the events of some lines and no others. -/
structure Books (grants : Nat → RegistryGrants) (before : List Line)
    (server : Server) : Prop where
  read : readLines grants {} before =
    .ok ⟨server.registry, before.length, server.output.length⟩
  output : server.output = lineEvents before
  tracks : server.registry.Tracks server.output
  answered : server.answered =
    server.output.map fun event => ⟨event.sequence, .ok⟩

theorem Books.readOn (books : Books grants before server)
    (rest : List Line) :
    readLines grants {} (before ++ rest) =
      readLines grants
        ⟨server.registry, before.length, server.output.length⟩ rest := by
  rw [readLines_append, books.read]
  rfl

theorem Books.skip
    (books : Books grants before server)
    (read : readLines grants
        ⟨server.registry, before.length, server.output.length⟩ skipped =
      .ok ⟨server.registry, before.length + skipped.length,
        server.output.length⟩)
    (none : lineEvents skipped = []) :
    Books grants (before ++ skipped) server where
  read := by
    rw [books.readOn, List.length_append]
    exact read
  output := by
    rw [books.output, lineEvents, lineEvents, List.filterMap_append]
    exact (List.append_nil _).symm.trans
      (congrArg (lineEvents before ++ ·) none.symm)
  tracks := books.tracks
  answered := books.answered

theorem Books.take
    (books : Books grants before server)
    (parsed : (parseEventLine line).event = some event)
    {registry : OrderBookRegistry}
    (read : readLine grants
        ⟨server.registry, before.length, server.output.length⟩ line =
      .ok ⟨registry, before.length + 1, server.output.length + 1⟩)
    (tracks : registry.Tracks (server.output ++ [event])) :
    Books grants (before ++ [line])
      ⟨registry, server.output ++ [event],
        server.answered ++ [⟨event.sequence, .ok⟩]⟩ where
  read := by
    rw [books.readOn, List.length_append, List.length_append,
      readLines_cons, read]
    rfl
  output := by
    rw [books.output, lineEvents, lineEvents, List.filterMap_append]
    simp [parsed]
  tracks := tracks
  answered := by
    rw [books.answered, List.map_append]
    rfl

/-- The client has sent the event of a line to a server that has all others. -/
inductive Synced (grants : Nat → RegistryGrants) (lines : List Line) :
    Client → Server → EventFrame → Prop where
  | intro {client : Client} {server : Server} {before : List Line}
      {line : Line} {event : MarketEvent} {frame : EventFrame} :
      lines = before ++ line :: client.lines →
      (parseEventLine line).event = some event →
      encodeEvent event = .ok frame →
      Books grants before server →
      client.lineNumber = before.length + 1 →
      client.expected = event.sequence →
      client.acks = server.answered →
      client.lastApplied = server.registry.getSeq →
      Synced grants lines client server frame

/-- The client has read on to its next event. -/
theorem Asks.synced
    {result : Client × (EventFrame ⊕ ClientEnd)}
    (asks : Asks grants
      ⟨server.registry, before.length, server.output.length⟩ client lines
      result)
    (books : Books grants before server) (acks : client.acks = server.answered)
    (last : client.lastApplied = server.registry.getSeq)
    (isNext : result = (next, .inl sent)) :
    Synced grants (before ++ lines) next server sent := by
  subst isNext
  cases asks with
  | @sends skipped after line event _ isLines read none parsed encoded =>
      have sameLines :
          before ++ lines = (before ++ skipped) ++ line :: after := by
        rw [isLines, List.append_assoc]
      refine .intro sameLines parsed encoded (books.skip read none) ?_ rfl acks
        last
      rw [List.length_append]

/-- What the books of the server say of the event that they are sent. -/
inductive Answers (grants : Nat → RegistryGrants) (server : Server)
    (before : List Line) (line : Line) (event : MarketEvent) :
    Server × (AckFrame ⊕ ServerEnd) → Prop where
  | invalid :
      readLine grants ⟨server.registry, before.length, server.output.length⟩
          line =
        .error (.invalidSequence server.registry.getSeq event.sequence) →
      Answers grants server before line event
        (server, .inr (.invalidSequence event.sequence))
  | accepted {after : Server} {answer : AckFrame} :
      after.registry.getSeq = event.sequence →
      readLine grants ⟨server.registry, before.length, server.output.length⟩
          line =
        .ok ⟨after.registry, before.length + 1, after.output.length⟩ →
      Books grants (before ++ [line]) after →
      decodeApplyAck answer = some ⟨event.sequence, .ok⟩ →
      after.answered = server.answered ++ [⟨event.sequence, .ok⟩] →
      Answers grants server before line event (after, .inl answer)
  | refused {result : ApplyResult} {answer : AckFrame} :
      result ≠ .ok →
      readLine grants ⟨server.registry, before.length, server.output.length⟩
          line =
        .error (.refusal (before.length + 1) result) →
      decodeApplyAck answer = some ⟨event.sequence, result⟩ →
      Answers grants server before line event
        (⟨server.registry, server.output ++ [event],
            server.answered ++ [⟨event.sequence, result⟩]⟩,
          .inl answer)

theorem respond_answers
    (books : Books grants before server)
    (parsed : (parseEventLine line).event = some event)
    (encoded : encodeEvent event = .ok frame) :
    Answers grants server before line event (server.respond grants frame) := by
  have encodable := (parseEventLine_event_iff.mp parsed).encodable
  obtain ⟨_, sameFrame, carries⟩ := EventFrame.encode_carries encodable
  obtain rfl := Except.ok.inj (sameFrame.symm.trans encoded)
  unfold Server.respond
  rw [carries.decode encodable]
  dsimp only
  by_cases inTurn : server.registry.seqValid event.sequence = true
  swap
  · rw [if_pos inTurn]
    exact .invalid (by simp [readLine, parsed, inTurn])
  rw [if_neg (not_not.mpr inTurn)]
  obtain ⟨answer, answers, ackCarries⟩ := @AckFrame.applied_carries
    ⟨event.sequence,
      (server.registry.apply (grants server.output.length) event).2⟩
    encodable.sequence
  have decoded := AckFrame.applied_iff.mpr ⟨encodable.sequence, ackCarries⟩
  rw [answers]
  have takes := OrderBookRegistry.apply_takes books.tracks.ready
    (grants server.output.length) event
  cases applied : server.registry.apply (grants server.output.length)
      event with
  | mk registry result =>
      rw [applied] at takes decoded
      have read : readLine grants
            ⟨server.registry, before.length, server.output.length⟩ line =
          if result = .ok then
            .ok ⟨registry, before.length + 1, server.output.length + 1⟩
          else
            .error (.refusal (before.length + 1) result) := by
        simp only [readLine, parsed, inTurn, applied, Stop.refusal]
        split_ifs <;> simp_all
      cases takes with
      | refused isRefusal =>
          rw [if_neg isRefusal] at read
          exact .refused isRefusal read decoded
      | taken done wellFormed initialised =>
          rw [if_pos rfl] at read
          refine .accepted rfl ?_ ?_ decoded rfl
          · rw [List.length_append]
            exact read
          · exact books.take parsed read
              (books.tracks.taken inTurn done wellFormed initialised)

/-! ## The client hears the answer -/

/-- How the client ends by itself, which a replay of its file explains. -/
inductive Concludes (grants : Nat → RegistryGrants) (lines : List Line)
    (client : Client) (server : Server) : ClientEnd → Prop where
  | finished :
      readLines grants {} lines =
        .ok ⟨server.registry, lines.length, server.output.length⟩ →
      Concludes grants lines client server .finished
  | rejected {result : ApplyResult} :
      readLines grants {} lines =
        .error (.refusal client.lineNumber result) →
      Concludes grants lines client server (.rejected result)
  | parseFailed {error : String} :
      readLines grants {} lines =
        .error (.parseError client.lineNumber error) →
      Concludes grants lines client server
        (.parseFailed client.lineNumber error)

/-- The server has printed the events of some lines, of which the last may be
refused. -/
inductive Served (grants : Nat → RegistryGrants) (lines : List Line) :
    Server → Prop where
  | accepted {server : Server} {before : List Line} :
      before <+: lines →
      Books grants before server →
      Served grants lines server
  | refused {server : Server} {before : List Line} {line : Line}
      {event : MarketEvent} {result : ApplyResult} :
      before ++ [line] <+: lines →
      Books grants before server →
      (parseEventLine line).event = some event →
      readLines grants {} lines =
        .error (.refusal (before.length + 1) result) →
      Served grants lines
        ⟨server.registry, server.output ++ [event],
          server.answered ++ [⟨event.sequence, result⟩]⟩

/-- The client has printed all answers of the server but perhaps the last. -/
structure InStep (grants : Nat → RegistryGrants) (lines : List Line)
    (client : Client) (server : Server) : Prop where
  served : Served grants lines server
  acks : client.acks <+: server.answered
  oneMore : server.answered.length ≤ client.acks.length + 1

theorem Served.tracks
    (served : Served grants lines server) :
    ∃ taken, server.registry.Tracks (lineEvents taken) := by
  cases served with
  | accepted _ books => exact ⟨_, books.output ▸ books.tracks⟩
  | refused _ books _ _ => exact ⟨_, books.output ▸ books.tracks⟩

theorem Served.validates
    (served : Served grants lines server) :
    (Server.program grants).closed server = .finished := by
  obtain ⟨taken, tracks⟩ := served.tracks
  exact if_pos (tracks.validates (lineEvents_encodable taken))

theorem Asks.concludes
    {result : Client × (EventFrame ⊕ ClientEnd)}
    (asks : Asks grants
      ⟨server.registry, before.length, server.output.length⟩ client lines
      result)
    (books : Books grants before server)
    (hasEnded : result = (next, .inr verdict)) :
    next.acks = client.acks ∧
      Concludes grants (before ++ lines) next server verdict := by
  subst hasEnded
  have read := books.readOn lines
  cases asks with
  | finishes rest none =>
      refine ⟨rfl, .finished (read.trans ?_)⟩
      rw [List.length_append]
      exact rest
  | fails rest => exact ⟨rfl, .parseFailed (read.trans rest)⟩

theorem respond_accepted
    (decoded : decodeApplyAck answer = some ⟨client.expected, .ok⟩) :
    client.respond answer =
      Client.ask
        { client with
          acks := client.acks ++ [⟨client.expected, .ok⟩]
          lastApplied := client.expected }
        client.lines := by
  simp [Client.respond, decoded]

theorem respond_refused
    {result : ApplyResult}
    (decoded : decodeApplyAck answer = some ⟨client.expected, result⟩)
    (notOk : result ≠ .ok) :
    client.respond answer =
      ({ client with acks := client.acks ++ [⟨client.expected, result⟩] },
        .inr (.rejected result)) := by
  simp [Client.respond, decoded, notOk]

theorem Synced.inStep
    (synced : Synced grants lines client server frame) :
    InStep grants lines client server := by
  obtain ⟨rfl, _, _, books, _, _, acks, _⟩ := synced
  refine ⟨.accepted (List.prefix_append _ _) books, ?_, ?_⟩
  · rw [acks]
  · rw [acks]
    exact Nat.le_succ _

/-- The server refuses to go on at a gap only. -/
theorem Synced.invalid
    (synced : Synced grants lines client server frame) {heard : ServerEnd}
    (responded : server.respond grants frame = (after, .inr heard)) :
    after = server ∧ ∃ received, heard = .invalidSequence received ∧
      readLines grants {} lines =
        .error (.invalidSequence server.registry.getSeq received) := by
  obtain ⟨rfl, parsed, encoded, books, _, _, _, _⟩ := synced
  have answers := respond_answers books parsed encoded
  rw [responded] at answers
  cases answers with
  | invalid read =>
      refine ⟨rfl, _, rfl, ?_⟩
      rw [books.readOn, readLines_cons, read]
      rfl

/-- What the client does with an answer. -/
theorem Synced.answered
    (synced : Synced grants lines client server frame)
    (responded : server.respond grants frame = (after, .inl answer)) :
    InStep grants lines client after ∧
      (∀ next sent, client.respond answer = (next, .inl sent) →
        Synced grants lines next after sent) ∧
      ∀ next verdict, client.respond answer = (next, .inr verdict) →
        next.acks = after.answered ∧
          Concludes grants lines next after verdict := by
  obtain @⟨before, line, event, _, rfl, parsed, encoded, books, number,
    expected, acks, _⟩ := synced
  have answers := respond_answers books parsed encoded
  rw [responded] at answers
  cases answers with
  | accepted sequence read later decoded answered =>
      rw [← expected] at decoded sequence
      rw [List.append_cons]
      have asks := @ask_asks grants
        ⟨after.registry, (before ++ [line]).length, after.output.length⟩
        { client with
          acks := client.acks ++ [⟨client.expected, .ok⟩]
          lastApplied := client.expected }
        client.lines (by rw [List.length_append]; exact number)
      refine ⟨⟨.accepted (List.prefix_append _ _) later, ?_, ?_⟩,
        fun next sent heard => ?_, fun next verdict heard => ?_⟩
      · rw [answered, acks]
        exact List.prefix_append _ _
      · rw [answered, acks, List.length_append, List.length_singleton]
      · rw [respond_accepted decoded] at heard
        refine asks.synced later ?_ sequence.symm heard
        rw [answered, acks, expected]
      · rw [respond_accepted decoded] at heard
        obtain ⟨sameAcks, concludes⟩ := asks.concludes later heard
        refine ⟨sameAcks.trans ?_, concludes⟩
        rw [answered, acks, expected]
  | refused notOk read decoded =>
      rw [← expected] at decoded
      have stops := books.readOn (line :: client.lines)
      rw [readLines_cons, read] at stops
      have isPrefix : before ++ [line] <+: before ++ line :: client.lines := by
        rw [List.append_cons before line client.lines]
        exact List.prefix_append _ _
      refine ⟨⟨.refused isPrefix books parsed stops, ?_, ?_⟩,
        fun next sent heard => ?_, fun next verdict heard => ?_⟩
      · rw [acks]
        exact List.prefix_append _ _
      · rw [acks, List.length_append, List.length_singleton]
      · rw [respond_refused decoded notOk] at heard
        cases heard
      · rw [respond_refused decoded notOk] at heard
        cases heard
        refine ⟨?_, .rejected ?_⟩
        · rw [acks, expected]
        · rw [number]
          exact stops

end TcpDemo

end LimitOrderBook
