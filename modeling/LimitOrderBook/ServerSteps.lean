import LimitOrderBook.Server

namespace LimitOrderBook.Server

/-!
# What a step of the server does

Every invariant of the server is about a part of its data: the connections and
routes, the queues, what the engine still has to send.  `Moves` says what a step
does to the data, whatever thread makes it and wherever the others are, and
`step_moves` that there is nothing else.
-/

/-- The frames that are complete and not admitted yet. -/
def Connection.pending (c : Connection) : List Message :=
  (c.frame?.bind decode).toList

/-- What the engine thread has not pushed yet. -/
def unsent (server : Server) : List Envelope × List Message :=
  match server.engine with
  | .sending responses updates => (responses, updates)
  | _ => ([], [])

/-! ## Reading a connection -/

/-- A connection after `recv`. -/
structure Fed (before after : Connection) : Prop where
  output : after.output = before.output
  client : after.client = before.client
  closing : after.closing = before.closing
  admitted : after.admitted = before.admitted
  input : after.input = before.input ∨ before.input.length < frameSize

/-- The visit after `recv`. -/
def Visit.feed (visit : Visit) (id : Nat) (c : Connection) (dead : Bool)
    (malformed : Bool := false) : Visit :=
  { visit with
    connection := c
    dead := dead
    malformed := malformed
    events := visit.events ++ arrival id visit.connection c }

/-- A request that passed the checks of a connection. -/
structure Valid (c : Connection) (m : Message) : Prop where
  pending : c.pending = [m]
  command : m.kind = .command
  named : m.action = .snapshot ∨ m.clientId ≠ 0
  own : c.client = 0 ∨ m.clientId = c.client

/-- What the input side of a visit can do. -/
inductive Reads (entered : Visit) (id : Nat) : Visit → Prop where
  | skipped : Reads entered id entered
  | kept {c : Connection} {dead malformed : Bool} :
      Fed entered.connection c →
      (malformed = true → c.readClosed = false) →
      Reads entered id (entered.feed id c dead malformed)
  | refused {c appended : Connection} {m : Message} :
      entered.server.draining = false →
      entered.connection.closing = false →
      Fed entered.connection c →
      Valid c m →
      c.client = 0 →
      m.action ≠ .snapshot →
      c.append (busy entered.server.exchange.engine.epoch m) = .ok appended →
      Reads entered id
        { entered.feed id c false with
          connection := { appended with closing := true }
          events := (entered.feed id c false).events ++
            if c.full then []
            else [.appended id (busy entered.server.exchange.engine.epoch m)] }
  | admitted {c : Connection} {m : Message} :
      entered.server.draining = false →
      entered.connection.closing = false →
      Fed entered.connection c →
      Valid c m →
      m.action = .snapshot ∨ m.clientId = c.client ∧ c.client ≠ 0 →
      Reads entered id ((entered.feed id c false).push id m)
  | bound {c : Connection} {m : Message} :
      entered.server.draining = false →
      entered.connection.closing = false →
      Fed entered.connection c →
      Valid c m →
      c.client = 0 →
      m.clientId ≠ 0 →
      entered.server.routes.find? m.clientId = none →
      Reads entered id
        (((entered.feed id c false).bind id m.clientId).push id m)

/-- What a receive does to its connection. -/
theorem receive_fed (c : Connection) (answer : Received) :
    Fed c (c.receive answer).1 := by
  unfold Connection.receive
  split
  · rename_i short
    cases answer with
    | data first rest => exact ⟨rfl, rfl, rfl, rfl, Or.inr short⟩
    | closed => exact ⟨rfl, rfl, rfl, rfl, Or.inl rfl⟩
    | again => exact ⟨rfl, rfl, rfl, rfl, Or.inl rfl⟩
    | failed => exact ⟨rfl, rfl, rfl, rfl, Or.inl rfl⟩
  · exact ⟨rfl, rfl, rfl, rfl, Or.inl rfl⟩

/-- The call of `recv` that completes a frame is not the one that meets the end. -/
theorem receive_readClosed
    {c : Connection} {answer : Received} {frame : Frame}
    (wasOpen : c.readClosed = false)
    (complete : (c.receive answer).1.frame? = some frame) :
    (c.receive answer).1.readClosed = false := by
  unfold Connection.receive at complete ⊢
  split
  · rename_i short
    rw [if_pos short] at complete
    cases answer with
    | data first rest => exact wasOpen
    | closed => simp [Connection.frame?, Nat.ne_of_lt short] at complete
    | again => exact wasOpen
    | failed => exact wasOpen
  · exact wasOpen

/-- Only valid requests are passed on. -/
theorem request_valid
    {c : Connection} {frame : Frame} {m : Message}
    (complete : c.frame? = some frame) (requested : c.request frame = some m) :
    Valid c m := by
  obtain ⟨decoded, passed⟩ := Option.filter_eq_some_iff.mp requested
  simp only [decide_eq_true_eq] at passed
  obtain ⟨command, named, own⟩ := passed
  exact ⟨by simp [Connection.pending, complete, decoded], command, named, own⟩

/-- What a visit does that reads. -/
theorem read_reads
    {entered visited : Visit} {id : Nat} {revents : Revents}
    (fresh : entered.malformed = false)
    (read : entered.read id revents = .ok visited) :
    Reads entered id visited := by
  unfold Visit.read at read
  split at read
  · rename_i looks
    have fed := receive_fed entered.connection revents.receives
    obtain ⟨draining, closing, wasOpen⟩ : entered.server.draining = false ∧
        entered.connection.closing = false ∧
        entered.connection.readClosed = false := by
      simp only [Connection.reads, Bool.and_eq_true,
        Bool.not_eq_true'] at looks
      exact ⟨looks.1.1.1, looks.1.1.2, looks.1.2⟩
    have stillOpen : ∀ frame, Connection.frame?
        (entered.connection.receive revents.receives).1 = some frame →
        (entered.connection.receive revents.receives).1.readClosed = false :=
      fun frame => receive_readClosed wasOpen
    simp only [fresh] at read
    generalize (entered.connection.receive revents.receives).1 = c
      at fed read stillOpen
    split at read
    · cases read
      exact .kept fed nofun
    · rename_i frame complete
      split at read
      · cases read
        exact .kept fed nofun
      · rename_i alive
        split at read
        · cases read
          exact .kept fed fun _ => stillOpen frame complete
        · rename_i m requested
          have valid := request_valid complete requested
          have lives : (entered.dead ||
              (entered.connection.receive revents.receives).2) = false :=
            Bool.eq_false_iff.mpr alive
          rw [lives] at read
          unfold Visit.admit at read
          split at read
          · rename_i unbound
            obtain ⟨noClient, notSnapshot⟩ := unbound
            split at read
            · cases appends : c.append
                  (busy entered.server.exchange.engine.epoch m) with
              | error what =>
                  simp only [appends] at read
                  cases read
              | ok appended =>
                  simp only [appends] at read
                  cases read
                  exact .refused draining closing fed valid noClient
                    notSnapshot appends
            · rename_i noRoute
              cases read
              refine .bound draining closing fed valid noClient ?_ ?_
              · exact valid.named.resolve_left notSnapshot
              · simpa using noRoute
          · rename_i allowed
            cases read
            refine .admitted draining closing fed valid ?_
            by_cases isSnapshot : m.action = .snapshot
            · exact Or.inl isSnapshot
            · have hasClient : c.client ≠ 0 := fun noClient =>
                allowed ⟨noClient, isSnapshot⟩
              exact Or.inr ⟨valid.own.resolve_left hasClient, hasClient⟩
  · cases read
    exact .skipped

/-- A request that is pushed changes the queue of requests only. -/
theorem Visit.push_server (visit : Visit) (id : Nat) (m : Message) :
    (visit.push id m).server =
      { visit.server with requests := (visit.push id m).server.requests } := by
  unfold Visit.push
  split
  · rfl
  · rfl

/-- A request that is pushed is not a malformed one. -/
theorem Visit.push_malformed (visit : Visit) (id : Nat) (m : Message) :
    (visit.push id m).malformed = visit.malformed := by
  unfold Visit.push
  split <;> rfl

/-- A push adds the request to the queue and says so, or does nothing. -/
theorem Visit.push_cases (visit : Visit) (id : Nat) (m : Message) :
    (visit.push id m).server.requests = visit.server.requests ++ [⟨id, m⟩] ∧
        (visit.push id m).events = visit.events ++ [.pushed ⟨id, m⟩] ∧
        (visit.push id m).connection =
          { visit.connection with
            input := []
            admitted := visit.connection.admitted + 1 } ∨
      visit.push id m = visit := by
  unfold Visit.push
  split
  · exact Or.inl ⟨rfl, rfl, rfl⟩
  · exact Or.inr rfl

/-- A visit touches no more of the server than the queue and the routes. -/
theorem Reads.server
    {entered visited : Visit} {id : Nat} (reads : Reads entered id visited) :
    visited.server =
      { entered.server with
        requests := visited.server.requests
        routes := visited.server.routes } := by
  cases reads with
  | skipped => rfl
  | kept _ _ => rfl
  | refused _ _ _ _ _ _ _ => rfl
  | admitted _ _ _ _ _ =>
      rw [Visit.push_server]
      rfl
  | bound _ _ _ _ _ _ _ =>
      rw [Visit.push_server]
      rfl

/-- The server with the connection written back. -/
def Visit.settled (visit : Visit) (id : Nat) : Server :=
  { visit.server with
    connections := visit.server.connections.insert id visit.connection }

/-- The start of a visit. -/
def enter (server : Server) (c : Connection) (revents : Revents) : Visit where
  server := server
  connection := (c.flush revents).1
  dead := revents.failed || (c.flush revents).2

/-- The end of a visit. -/
structure Closes (visit : Visit) (id : Nat) (next : Server)
    (events : List Event) (doom : Doom) (doomed : Bool) : Prop where
  server : next =
    { visit.settled id with
      remove := visit.server.remove ++ if doomed then [id] else [] }
  events : events =
    visit.events ++ if doomed then [.doomed id doom] else []
  reason : doomed = true →
    doom = .failed ∨ doom = .expired ∨ visit.malformed = true ∨
      visit.connection.finished = true

/-- How the end of a visit closes its connection. -/
theorem Visit.closes (visit : Visit) (id : Nat) (revents : Revents) :
    ∃ doom doomed,
      Closes visit id (visit.close id revents).1 (visit.close id revents).2
        doom doomed := by
  unfold Visit.close
  cases decided : visit.doom revents with
  | none =>
      exact ⟨.finished, false, by simp [Visit.settled], by simp, nofun⟩
  | some doom =>
      refine ⟨doom, true, rfl, rfl, fun _ => ?_⟩
      unfold Visit.doom at decided
      split at decided
      · rename_i malformed
        exact Or.inr (Or.inr (Or.inl malformed))
      split at decided
      · cases decided
        exact Or.inl rfl
      split at decided
      · cases decided
        exact Or.inr (Or.inl rfl)
      split at decided
      · rename_i finished
        exact Or.inr (Or.inr (Or.inr finished))
      · cases decided

/-- What a visit touches. -/
theorem close_server
    {server : Server} {c : Connection} {id : Nat} {visit : Visit}
    {revents : Revents} (reads : Reads (server.enter c revents) id visit) :
    (visit.close id revents).1 =
      { server with
        requests := (visit.close id revents).1.requests
        routes := (visit.close id revents).1.routes
        connections := (visit.close id revents).1.connections
        remove := (visit.close id revents).1.remove } := by
  obtain ⟨doom, doomed, closes⟩ := visit.closes id revents
  rw [closes.server, Visit.settled, reads.server]
  rfl

/-- What is written when a socket is accepted. -/
theorem accept_server (server : Server) :
    server.accept =
      { server with
        connections := server.accept.connections
        nextConnection := server.accept.nextConnection } := by
  unfold accept
  split
  · rfl
  · rfl

/-! ## Removal -/

/-- A connection is dropped from the table. -/
theorem drop_connections (server : Server) (id : Nat) :
    (server.drop id).connections = server.connections.erase id := by
  unfold drop
  split
  · rename_i unknown
    refine OrderedMap.ext_find? fun other => ?_
    rw [OrderedMap.find?_erase]
    split
    · rename_i same
      rw [same, unknown]
    · rfl
  · rfl

/-- Removal touches the connections and the routes alone. -/
theorem drops_server (ids : List Nat) (server : Server) :
    ids.foldl drop server =
      { server with
        connections := (ids.foldl drop server).connections
        routes := (ids.foldl drop server).routes } := by
  induction ids generalizing server with
  | nil => rfl
  | cons id rest inductionHypothesis =>
      rw [List.foldl_cons, inductionHypothesis]
      unfold drop
      split
      · rfl
      · rfl

/-- Dropping several connections leaves the others as they are. -/
theorem drops_find? (ids : List Nat) (server : Server) (id : Nat) :
    (ids.foldl drop server).connections.find? id =
      if id ∈ ids then none else server.connections.find? id := by
  induction ids generalizing server with
  | nil => simp
  | cons first rest inductionHypothesis =>
      rw [List.foldl_cons, inductionHypothesis, drop_connections,
        OrderedMap.find?_erase]
      by_cases later : id ∈ rest
      · simp [later]
      · by_cases isFirst : id = first
        · simp [isFirst]
        · simp [isFirst, later]

/-- The connections after an iteration. -/
theorem endIteration_find? (server : Server) (id : Nat) :
    server.endIteration.connections.find? id =
      if id ∈ server.remove then none else server.connections.find? id :=
  drops_find? server.remove server id

/-- What is written at the end of an iteration. -/
theorem endIteration_server (server : Server) :
    server.endIteration =
      { server with
        connections := server.endIteration.connections
        routes := server.endIteration.routes
        remove := []
        io := .top } := by
  unfold endIteration
  rw [drops_server]

/-! ## Responses -/

/-- The connection that a response is for. -/
structure Recipient (server : Server) (response : Envelope) (id : Nat)
    (c : Connection) : Prop where
  found : server.connections.find? id = some c
  takes : c.closing = false
  target : response.connection = id ∧ id ≠ 0 ∨
    response.connection = 0 ∧
      server.routes.find? response.message.clientId = some id

/-- The recipient that is found meets the conditions of the search. -/
theorem recipient_some
    {server : Server} {response : Envelope} {id : Nat} {c : Connection}
    (isRecipient : server.recipient response = some (id, c)) :
    Recipient server response id c := by
  unfold recipient at isRecipient
  split at isRecipient
  · cases isRecipient
  · rename_i targeted
    split at isRecipient
    · cases isRecipient
    · rename_i found
      split at isRecipient
      · cases isRecipient
      · rename_i notClosing
        cases isRecipient
        refine ⟨found, Bool.eq_false_iff.mpr notClosing, ?_⟩
        unfold target at targeted
        split at targeted
        · rename_i routed
          exact Or.inr ⟨routed, targeted⟩
        · rename_i direct
          cases targeted
          exact Or.inl ⟨rfl, direct⟩

/-- What handling a response can do. -/
inductive Handles (server : Server) (response : Envelope) :
    Server → List Event → Prop where
  | dropped :
      server.recipient response = none →
      Handles server response server [.handed response none]
  | failed {id : Nat} {c : Connection} :
      Recipient server response id c →
      Handles server response server.ioThrows [.handed response (some id)]
  | appended {id : Nat} {c d : Connection} :
      Recipient server response id c →
      c.append response.message = .ok d →
      Handles server response
        { server with connections := server.connections.insert id d }
        ([.handed response (some id)] ++
          if c.full then [] else [.appended id response.message])

/-- What handling a response touches. -/
theorem Handles.server
    {server next : Server} {response : Envelope} {events : List Event}
    (handles : Handles server response next events) :
    next =
      { server with
        connections := next.connections
        fatal := next.fatal
        io := next.io } := by
  cases handles with
  | dropped _ => rfl
  | failed _ => rfl
  | appended _ _ => rfl

/-- What handing a response over does. -/
theorem handle_handles (server : Server) (response : Envelope) :
    Handles server response (handle server response).1
      (handle server response).2 := by
  unfold handle
  split
  · rename_i nobody
    exact .dropped nobody
  · rename_i id c somebody
    have isRecipient := recipient_some somebody
    split
    · exact .failed isRecipient
    · rename_i appended appends
      exact .appended isRecipient appends

/-! ## What the threads write -/

/-- What a step of the input thread writes. -/
theorem ioStep_server (server : Server) (answer : Bool) :
    (server.ioStep answer).1 =
      { server with
        responses := (server.ioStep answer).1.responses
        ingressDone := (server.ioStep answer).1.ingressDone
        fatal := (server.ioStep answer).1.fatal
        connections := (server.ioStep answer).1.connections
        draining := (server.ioStep answer).1.draining
        io := (server.ioStep answer).1.io } := by
  unfold ioStep
  split
  · split
    · rfl
    · rfl
  · rfl
  · split
    · rfl
    · split
      · rfl
      · rename_i response rest shape
        rw [(handle_handles _ response).server]
  · split
    · rfl
    · split
      · rfl
      · rfl
  · rfl
  · rfl

/-- What a visit writes. -/
theorem visit_server (server : Server) (id : Nat) (revents : Revents) :
    (server.visit id revents).1 =
      { server with
        requests := (server.visit id revents).1.requests
        fatal := (server.visit id revents).1.fatal
        connections := (server.visit id revents).1.connections
        routes := (server.visit id revents).1.routes
        remove := (server.visit id revents).1.remove
        io := (server.visit id revents).1.io } := by
  unfold visit
  split
  · rfl
  · split
    · rfl
    · simp only
      split
      · rfl
      · rename_i read
        rw [close_server (read_reads rfl read)]

/-- What a step of the engine thread writes. -/
theorem engineStep_server (server : Server) :
    server.engineStep.1 =
      { server with
        exchange := server.engineStep.1.exchange
        requests := server.engineStep.1.requests
        responses := server.engineStep.1.responses
        updates := server.engineStep.1.updates
        engineDone := server.engineStep.1.engineDone
        fatal := server.engineStep.1.fatal
        engine := server.engineStep.1.engine } := by
  unfold engineStep
  split
  · split <;> rfl
  · rfl
  · split
    · split <;> rfl
    · simp only
      split <;> rfl
  · split
    · rfl
    · split <;> rfl
  · split
    · rfl
    · split <;> rfl
  · rfl
  · rfl
  · rfl

/-- What a step of the publisher writes. -/
theorem publisherStep_server (server : Server) (due : Bool) :
    (server.publisherStep due).1 =
      { server with
        updates := (server.publisherStep due).1.updates
        fatal := (server.publisherStep due).1.fatal
        publisher := (server.publisherStep due).1.publisher
        heartbeat := (server.publisherStep due).1.heartbeat } := by
  unfold publisherStep
  split
  · rfl
  · split
    · split <;> rfl
    · simp only
      split <;> rfl
  · simp only
    split <;> rfl
  · rfl

/-! ## Steps on the data -/

/-- The data that a step of a program counter or of a flag leaves alone. -/
structure SameSessions (server next : Server) : Prop where
  connections : next.connections = server.connections
  routes : next.routes = server.routes
  nextConnection : next.nextConnection = server.nextConnection
  remove : next.remove = server.remove

structure SameQueues (server next : Server) : Prop where
  requests : next.requests = server.requests
  responses : next.responses = server.responses
  updates : next.updates = server.updates
  exchange : next.exchange = server.exchange
  unsent : next.unsent = server.unsent
  fatal : server.fatal = true → next.fatal = true

/-- What a step can do to the data. -/
inductive Moves (server : Server) : Server → List Event → Prop where
  | quiet {next : Server} {events : List Event} :
      SameSessions server next →
      SameQueues server next →
      (∀ event ∈ events, ∃ m, event = .heartbeat m) →
      Moves server next events
  /-- A failure; what was in the hands of a thread may be gone. -/
  | lost {next : Server} :
      SameSessions server next →
      next.fatal = true →
      next.exchange = server.exchange →
      next.requests ⊆ server.requests →
      next.responses = server.responses →
      next.unsent.1 ⊆ server.unsent.1 →
      Moves server next []
  | accepted :
      Moves server server.accept []
  | visited {id : Nat} {c : Connection} {visit : Visit} {revents : Revents} :
      server.connections.find? id = some c →
      id ∉ server.remove →
      Reads (server.enter c revents) id visit →
      Moves server (visit.close id revents).1 (visit.close id revents).2
  | iterated :
      Moves server server.endIteration []
  | handled {response : Envelope} {rest : List Envelope} {io : IoPhase}
      {next : Server} {events : List Event} :
      server.responses = response :: rest →
      (∃ matchingFinished popped,
        server.io = .popping matchingFinished popped) →
      Handles { server with responses := rest, io := io } response next
        events →
      Moves server next events
  | served {request : Envelope} {rest : List Envelope} {served : Served} :
      server.requests = request :: rest →
      server.unsent = ([], []) →
      server.exchange.serve request.message = .ok served →
      Moves server
        { server with
          requests := rest
          exchange := served.exchange
          engine := .sending (served.batch.reports.map (address request))
            served.batch.updates }
        [.served request (served.batch.reports.map (address request))
          served.batch.updates]
  | responded {response : Envelope} {rest : List Envelope}
      {updates : List Message} :
      server.engine = .sending (response :: rest) updates →
      Moves server
        { server with
          responses := server.responses ++ [response]
          engine := .sending rest updates } []
  | published {update : Message} {rest : List Message} :
      server.engine = .sending [] (update :: rest) →
      Moves server
        { server with
          updates := server.updates ++ [update]
          engine := .sending [] rest } []
  | sent {m heartbeat : Message} {rest : List Message}
      {publisher : PublisherPhase} :
      server.updates = m :: rest →
      Moves server
        { server with
          updates := rest
          heartbeat := heartbeat
          publisher := publisher } [.sent m]

variable {server next : Server}

/-- A step of a thread that has nothing to do. -/
theorem Moves.rest (server : Server) : Moves server server [] :=
  .quiet ⟨rfl, rfl, rfl, rfl⟩ ⟨rfl, rfl, rfl, rfl, rfl, id⟩ (by simp)

/-- A step that changes phases and flags alone. -/
theorem Moves.phase
    (sessions : SameSessions server next) (queues : SameQueues server next) :
    Moves server next [] :=
  .quiet sessions queues (by simp)

/-- An input thread that throws makes a move. -/
theorem ioThrows_moves (server : Server) : Moves server server.ioThrows [] :=
  .phase ⟨rfl, rfl, rfl, rfl⟩ ⟨rfl, rfl, rfl, rfl, rfl, fun _ => rfl⟩

/-- Each step of the input thread is a move. -/
theorem ioStep_moves (server : Server) (answer : Bool) :
    Moves server (server.ioStep answer).1 (server.ioStep answer).2 := by
  unfold ioStep
  cases phase : server.io with
  | top =>
      dsimp only
      split
      · exact .phase ⟨rfl, rfl, rfl, rfl⟩ ⟨rfl, rfl, rfl, rfl, rfl, id⟩
      · exact .phase ⟨rfl, rfl, rfl, rfl⟩ ⟨rfl, rfl, rfl, rfl, rfl, id⟩
  | reading => exact .phase ⟨rfl, rfl, rfl, rfl⟩ ⟨rfl, rfl, rfl, rfl, rfl, id⟩
  | popping matchingFinished popped =>
      dsimp only
      split
      · exact .phase ⟨rfl, rfl, rfl, rfl⟩ ⟨rfl, rfl, rfl, rfl, rfl, id⟩
      · split
        · exact .phase ⟨rfl, rfl, rfl, rfl⟩ ⟨rfl, rfl, rfl, rfl, rfl, id⟩
        · rename_i response rest shape
          exact .handled shape ⟨matchingFinished, popped, phase⟩
            (handle_handles _ response)
  | deciding matchingFinished responsesEmpty =>
      dsimp only
      split
      · exact .phase ⟨rfl, rfl, rfl, rfl⟩ ⟨rfl, rfl, rfl, rfl, rfl, id⟩
      · split
        · exact .phase ⟨rfl, rfl, rfl, rfl⟩
            ⟨rfl, rfl, rfl, rfl, rfl, fun _ => rfl⟩
        · exact .phase ⟨rfl, rfl, rfl, rfl⟩ ⟨rfl, rfl, rfl, rfl, rfl, id⟩
  | serving => exact .rest server
  | left exit => exact .phase ⟨rfl, rfl, rfl, rfl⟩ ⟨rfl, rfl, rfl, rfl, rfl, id⟩

/-- Each visit of a connection is a move. -/
theorem visit_moves (server : Server) (id : Nat) (revents : Revents) :
    Moves server (server.visit id revents).1 (server.visit id revents).2 := by
  unfold visit
  split
  · exact .rest server
  · rename_i kept
    split
    · exact .rest server
    · rename_i c found
      simp only
      split
      · exact ioThrows_moves server
      · rename_i visited read
        exact .visited found kept (read_reads rfl read)

/-- Each step of the engine thread is a move. -/
theorem engineStep_moves (server : Server) :
    Moves server server.engineStep.1 server.engineStep.2 := by
  unfold engineStep
  split
  · rename_i atTop
    have nothing : server.unsent = ([], []) := by simp [unsent, atTop]
    split
    · exact .phase ⟨rfl, rfl, rfl, rfl⟩ ⟨rfl, rfl, rfl, rfl, nothing.symm, id⟩
    · exact .phase ⟨rfl, rfl, rfl, rfl⟩ ⟨rfl, rfl, rfl, rfl, nothing.symm, id⟩
  · rename_i atReading
    have nothing : server.unsent = ([], []) := by simp [unsent, atReading]
    exact .phase ⟨rfl, rfl, rfl, rfl⟩ ⟨rfl, rfl, rfl, rfl, nothing.symm, id⟩
  · rename_i inputFinished atPopping
    have nothing : server.unsent = ([], []) := by simp [unsent, atPopping]
    split
    · split
      · exact .phase ⟨rfl, rfl, rfl, rfl⟩ ⟨rfl, rfl, rfl, rfl, nothing.symm, id⟩
      · exact .phase ⟨rfl, rfl, rfl, rfl⟩ ⟨rfl, rfl, rfl, rfl, nothing.symm, id⟩
    · rename_i request rest shape
      simp only
      split
      · refine .lost ⟨rfl, rfl, rfl, rfl⟩ rfl rfl ?_ rfl (by simp [unsent,
          engineThrows])
        rw [shape]
        exact List.subset_cons_self request rest
      · rename_i served serves
        exact .served shape nothing serves
  · rename_i response rest updates atSending
    split
    · exact .responded atSending
    · split
      · rename_i isFatal
        exact .lost ⟨rfl, rfl, rfl, rfl⟩ isFatal rfl (List.Subset.refl _) rfl
          (by simp [unsent])
      · exact .rest server
  · rename_i update rest atSending
    split
    · exact .published atSending
    · split
      · rename_i isFatal
        exact .lost ⟨rfl, rfl, rfl, rfl⟩ isFatal rfl (List.Subset.refl _) rfl
          (by simp [unsent])
      · exact .rest server
  · rename_i atSending
    have nothing : server.unsent = ([], []) := by simp [unsent, atSending]
    exact .phase ⟨rfl, rfl, rfl, rfl⟩ ⟨rfl, rfl, rfl, rfl, nothing.symm, id⟩
  · rename_i atFinishing
    have nothing : server.unsent = ([], []) := by simp [unsent, atFinishing]
    refine .phase ⟨rfl, rfl, rfl, rfl⟩
      ⟨rfl, rfl, rfl, rfl, nothing.symm, ?_⟩
    intro isFatal
    simp [isFatal]
  · exact .rest server

/-- Each step of the publisher is a move. -/
theorem publisherStep_moves (server : Server) (due : Bool) :
    Moves server (server.publisherStep due).1
      (server.publisherStep due).2 := by
  unfold publisherStep
  split
  · exact .phase ⟨rfl, rfl, rfl, rfl⟩ ⟨rfl, rfl, rfl, rfl, rfl, id⟩
  · split
    · split
      · exact .phase ⟨rfl, rfl, rfl, rfl⟩ ⟨rfl, rfl, rfl, rfl, rfl, id⟩
      · exact .phase ⟨rfl, rfl, rfl, rfl⟩ ⟨rfl, rfl, rfl, rfl, rfl, id⟩
    · rename_i m rest shape
      simp only
      split
      · exact .lost ⟨rfl, rfl, rfl, rfl⟩ rfl rfl (List.Subset.refl _) rfl
          (List.Subset.refl _)
      · exact .sent shape
  · have beats : ∀ event ∈ (if due then [Event.heartbeat server.heartbeat]
        else []), ∃ m, event = .heartbeat m := by
      intro event member
      split at member
      · exact ⟨_, List.mem_singleton.mp member⟩
      · cases member
    simp only
    split
    · exact .quiet ⟨rfl, rfl, rfl, rfl⟩ ⟨rfl, rfl, rfl, rfl, rfl, id⟩ beats
    · exact .quiet ⟨rfl, rfl, rfl, rfl⟩ ⟨rfl, rfl, rfl, rfl, rfl, id⟩ beats
  · exact .rest server

/-- A failure is not forgotten. -/
theorem Moves.fatal
    {events : List Event} (moves : Moves server next events)
    (notFatal : next.fatal = false) : server.fatal = false := by
  have still : server.fatal = true → next.fatal = true := by
    cases moves with
    | quiet _ queues _ => exact queues.fatal
    | lost _ fatal _ _ _ _ => exact fun _ => fatal
    | accepted =>
        rw [accept_server]
        exact id
    | visited _ _ reads =>
        rw [close_server reads]
        exact id
    | iterated =>
        rw [endIteration_server]
        exact id
    | handled _ _ handles =>
        cases handles with
        | dropped _ => exact id
        | failed _ => exact fun _ => rfl
        | appended _ _ => exact id
    | served _ _ _ => exact id
    | responded _ => exact id
    | published _ => exact id
    | sent _ => exact id
  cases wasFatal : server.fatal with
  | false => rfl
  | true =>
      rw [still wasFatal] at notFatal
      cases notFatal

/-- A step does one of the moves. -/
theorem step_moves (server : Server) (action : Action) :
    Moves server (server.step action).1 (server.step action).2 := by
  cases action with
  | io answer => exact ioStep_moves server answer
  | accept =>
      simp only [step]
      split
      · exact .accepted
      · exact .rest server
  | visit id revents =>
      simp only [step]
      split
      · exact visit_moves server id revents
      · exact .rest server
  | endIteration =>
      simp only [step]
      split
      · exact .iterated
      · exact .rest server
  | ioThrows =>
      simp only [step]
      split
      · exact .rest server
      · exact ioThrows_moves server
  | engine => exact engineStep_moves server
  | engineThrows =>
      simp only [step]
      split
      · exact .rest server
      · exact .lost ⟨rfl, rfl, rfl, rfl⟩ rfl rfl (List.Subset.refl _) rfl
          (by simp [unsent, engineThrows])
  | publisher due => exact publisherStep_moves server due
  | publisherThrows =>
      simp only [step]
      split
      · exact .rest server
      · exact .lost ⟨rfl, rfl, rfl, rfl⟩ rfl rfl (List.Subset.refl _) rfl
          (List.Subset.refl _)

/-- What every move keeps holds in every run. -/
theorem run_holds
    {holds : Recorded → Prop} {server : Server} (atStart : holds ⟨server, []⟩)
    (kept : ∀ (recorded : Recorded) (next : Server) (events : List Event),
      holds recorded → Moves recorded.server next events →
        holds ⟨next, recorded.history ++ events⟩)
    (schedule : List Action) : holds (server.run schedule) :=
  run_invariant atStart (fun recorded action held =>
    kept recorded _ _ held (step_moves recorded.server action)) schedule

end LimitOrderBook.Server
