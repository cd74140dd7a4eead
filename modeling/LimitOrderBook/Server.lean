import LimitOrderBook.EngineReplies
import LimitOrderBook.Exchange
import LimitOrderBook.MessageFrames
import LimitOrderBook.StreamFraming

namespace LimitOrderBook

/-!
# The order server

The model of `run_exchange` in `trading/server.cpp` after the recovery.  Three
threads share three bounded queues and three flags.  The I/O thread owns the
connections, binds each to a client, admits requests and routes responses; the
engine thread serves requests; the publisher sends the market data.

A step is what one thread does up to its next access to a flag or a queue.  What
the operating system, the clock and the signal handler answer is part of the
action that makes the step.  Within one iteration of the I/O loop connections
are accepted and visited in any order and any number of times; the source does
so in the order of `poll`.

Every step also says what happened in it.  The events of a run are its history;
no step reads them.
-/

/-- `Envelope`.  Connection 0 stands for the route of the message's client. -/
structure Envelope where
  connection : Nat
  message : Message
  deriving DecidableEq

namespace Server

/-- The capacity of `Queue`, and of the output of a connection. -/
def capacity : Nat := 4096

/-- `Connection`; the times are left to the answers of the clock. -/
structure Connection where
  input : List UInt8 := []
  output : Net.Outgoing frameSize := {}
  client : ClientId := 0
  closing : Bool := false
  readClosed : Bool := false
  admitted : Nat := 0

/-- The ways out of the I/O loop. -/
inductive Exit where
  | drained
  | expired
  | failed
  deriving DecidableEq

/-- Where the I/O thread is. -/
inductive IoPhase where
  | top
  | reading
  | popping (matchingFinished : Bool) (popped : Nat)
  | deciding (matchingFinished responsesEmpty : Bool)
  | serving
  | left (exit : Exit)
  deriving DecidableEq

/-- Where the engine thread is. -/
inductive EnginePhase where
  | top
  | reading
  | popping (inputFinished : Bool)
  | sending (responses : List Envelope) (updates : List Message)
  | finishing
  | stopped
  deriving DecidableEq

/-- Where the publisher is. -/
inductive PublisherPhase where
  | top
  | popping (matchingFinished : Bool)
  | checking
  | ended
  deriving DecidableEq

/-- Why a visit marks a connection for removal. -/
inductive Doom where
  /-- `poll`, `send` or `recv` reported an error. -/
  | failed
  | malformed
  /-- Five seconds without progress. -/
  | expired
  | finished
  deriving DecidableEq

/-- What happened in a step. -/
inductive Event where
  | received (request : Envelope)
  | bound (connection : Nat) (client : ClientId)
  | pushed (request : Envelope)
  | served (request : Envelope) (responses : List Envelope)
      (updates : List Message)
  | handed (response : Envelope) (target : Option Nat)
  | appended (connection : Nat) (m : Message)
  | doomed (connection : Nat) (doom : Doom)
  | sent (m : Message)
  | heartbeat (m : Message)
  deriving DecidableEq

/-- What `recv` answers; data is at least one byte. -/
inductive Received where
  | data (first : UInt8) (rest : List UInt8)
  | closed
  | again
  | failed

/-- What `poll`, the socket and the clock say of a connection in one visit. -/
structure Revents where
  failed : Bool := false
  writable : Bool := false
  readable : Bool := false
  sends : List Net.Answer := []
  receives : Received := .again
  readExpired : Bool := false
  writeExpired : Bool := false

end Server

/-- What the threads of `run_exchange` share and own. -/
structure Server where
  exchange : Exchange
  requests : List Envelope := []
  responses : List Envelope := []
  updates : List Message := []
  ingressDone : Bool := false
  engineDone : Bool := false
  fatal : Bool := false
  connections : OrderedMap Nat Server.Connection (· < ·) := .empty
  routes : OrderedMap ClientId Nat (· < ·) := .empty
  nextConnection : Nat := 1
  draining : Bool := false
  remove : List Nat := []
  io : Server.IoPhase := .top
  engine : Server.EnginePhase := .top
  publisher : Server.PublisherPhase := .top
  heartbeat : Message

namespace Server

/-- The threads after the recovery. -/
def start (exchange : Exchange) : Server where
  exchange := exchange
  heartbeat :=
    { kind := .heartbeat
      epoch := exchange.engine.epoch
      sequence := exchange.engine.sequence }

/-! ## One connection -/

namespace Connection

def full (c : Connection) : Bool :=
  decide (capacity ≤ c.output.frames.length)

/-- The lambda `append`. -/
def append (c : Connection) (m : Message) : Except String Connection :=
  if c.full then
    .ok { c with
      closing := true
      output := { c.output with frames := [] } }
  else
    match encode m with
    | .error what => .error what
    | .ok frame =>
        .ok { c with
          admitted :=
            if m.terminal ∧ c.admitted ≠ 0 then c.admitted - 1
            else c.admitted
          output :=
            { c.output with frames := c.output.frames ++ [frame] } }

/-- The flush of a visit, and whether it threw. -/
def flush (c : Connection) (revents : Revents) : Connection × Bool :=
  if revents.writable ∧ c.output.frames ≠ [] then
    let (output, result) := c.output.flush revents.sends
    ({ c with output := output },
      decide (result ≠ .returned ∧ result ≠ .running))
  else
    (c, false)

/-- Whether a visit looks at the input. -/
def reads (c : Connection) (draining : Bool) (revents : Revents) : Bool :=
  !draining && !c.closing && !c.readClosed &&
    (revents.readable || decide (c.input.length = frameSize))

/-- The `recv` of a visit, and whether it failed. -/
def receive (c : Connection) (answer : Received) : Connection × Bool :=
  if c.input.length < frameSize then
    match answer with
    | .data first rest =>
        ({ c with
            input := c.input ++
              (first :: rest).take (frameSize - c.input.length) },
          false)
    | .closed => ({ c with readClosed := true }, false)
    | .again => (c, false)
    | .failed => (c, true)
  else
    (c, false)

/-- The frame that has been read, once it is complete. -/
def frame? (c : Connection) : Option Frame :=
  if complete : c.input.length = frameSize then
    some ⟨c.input.toArray, by simpa using complete⟩
  else
    none

/-- The request in a frame; `none` is a malformed one. -/
def request (c : Connection) (frame : Frame) : Option Message :=
  (decode frame).filter fun m =>
    decide (m.kind = .command ∧ (m.action = .snapshot ∨ m.clientId ≠ 0) ∧
      (c.client = 0 ∨ m.clientId = c.client))

end Connection

/-! ## The I/O thread -/

/-- The refusal of a client that another connection is bound to. -/
def busy (epoch : Nat) (m : Message) : Message :=
  { m with
    kind := .report
    report := .rejected
    reject := .sessionBusy
    epoch := epoch }

/-- A connection in the middle of a visit and what happened to it. -/
structure Visit where
  server : Server
  connection : Connection
  dead : Bool := false
  malformed : Bool := false
  events : List Event := []

/-- The `try_push` of an allowed request. -/
def Visit.push (visit : Visit) (id : Nat) (m : Message) : Visit :=
  if visit.server.requests.length < capacity then
    { visit with
      server :=
        { visit.server with
          requests := visit.server.requests ++ [⟨id, m⟩] }
      connection :=
        { visit.connection with
          input := []
          admitted := visit.connection.admitted + 1 }
      events := visit.events ++ [.pushed ⟨id, m⟩] }
  else
    visit

/-- A request for a client that the connection is not bound to yet. -/
def Visit.bind (visit : Visit) (id : Nat) (client : ClientId) : Visit :=
  { visit with
    server :=
      { visit.server with
        routes := visit.server.routes.emplace client id }
    connection := { visit.connection with client := client }
    events := visit.events ++ [.bound id client] }

/-- The admission of a valid request. -/
def Visit.admit (visit : Visit) (id : Nat) (m : Message) :
    Except String Visit :=
  if visit.connection.client = 0 ∧ m.action ≠ .snapshot then
    if (visit.server.routes.find? m.clientId).isSome then
      let refusal := busy visit.server.exchange.engine.epoch m
      match visit.connection.append refusal with
      | .error what => .error what
      | .ok connection =>
          .ok { visit with
            connection := { connection with closing := true }
            events := visit.events ++
              if visit.connection.full then [] else [.appended id refusal] }
    else
      .ok ((visit.bind id m.clientId).push id m)
  else
    .ok (visit.push id m)

/-- A complete frame that was not complete before the visit. -/
def arrival (id : Nat) (before after : Connection) : List Event :=
  if before.input.length < frameSize then
    match after.frame?.bind decode with
    | some m => [.received ⟨id, m⟩]
    | none => []
  else
    []

/-- The input side of a visit. -/
def Visit.read (visit : Visit) (id : Nat) (revents : Revents) :
    Except String Visit :=
  if visit.connection.reads visit.server.draining revents then
    let (connection, failed) := visit.connection.receive revents.receives
    let visit :=
      { visit with
        connection := connection
        dead := visit.dead || failed
        events := visit.events ++ arrival id visit.connection connection }
    match visit.connection.frame? with
    | none => .ok visit
    | some frame =>
        if visit.dead then
          .ok visit
        else
          match visit.connection.request frame with
          | none => .ok { visit with dead := true, malformed := true }
          | some m => visit.admit id m
  else
    .ok visit

/-- A connection that has made no progress for five seconds. -/
def Connection.stuck (c : Connection) (revents : Revents) : Bool :=
  (decide (c.input ≠ [] ∧ c.input.length ≠ frameSize) &&
      revents.readExpired) ||
    (decide (c.output.frames ≠ []) && revents.writeExpired)

/-- A connection that has nothing left to do. -/
def Connection.finished (c : Connection) : Bool :=
  (c.closing || (c.readClosed && decide (c.admitted = 0))) &&
    decide (c.output.frames = [])

/-- Whether the connection is removed; the source keeps one flag for all. -/
def Visit.doom (visit : Visit) (revents : Revents) : Option Doom :=
  if visit.malformed then
    some .malformed
  else if visit.dead then
    some .failed
  else if visit.connection.stuck revents then
    some .expired
  else if visit.connection.finished then
    some .finished
  else
    none

/-- The end of a visit. -/
def Visit.close (visit : Visit) (id : Nat) (revents : Revents) :
    Server × List Event :=
  let server :=
    { visit.server with
      connections := visit.server.connections.insert id visit.connection }
  match visit.doom revents with
  | some doom =>
      ({ server with remove := server.remove ++ [id] },
        visit.events ++ [.doomed id doom])
  | none => (server, visit.events)

/-- The `catch` around the I/O loop. -/
def ioThrows (server : Server) : Server :=
  { server with fatal := true, io := .left .failed }

/-- One connection of `poll`. -/
def visit (server : Server) (id : Nat) (revents : Revents) :
    Server × List Event :=
  if id ∈ server.remove then
    (server, [])
  else
    match server.connections.find? id with
    | none => (server, [])
    | some c =>
        let (flushed, threw) := c.flush revents
        let entered : Visit :=
          { server := server
            connection := flushed
            dead := revents.failed || threw }
        match entered.read id revents with
        | .error _ => (server.ioThrows, [])
        | .ok visited => visited.close id revents

/-- One `accept4`; a connection beyond the limit is closed at once. -/
def accept (server : Server) : Server :=
  if server.draining = true ∨ 64 ≤ server.connections.size then
    server
  else
    { server with
      connections := server.connections.emplace server.nextConnection {}
      nextConnection := server.nextConnection + 1 }

/-- One entry of `remove`. -/
def drop (server : Server) (id : Nat) : Server :=
  match server.connections.find? id with
  | none => server
  | some c =>
      { server with
        routes := server.routes.erase c.client
        connections := server.connections.erase id }

/-- The end of an iteration. -/
def endIteration (server : Server) : Server :=
  let dropped := server.remove.foldl drop server
  { dropped with remove := [], io := .top }

/-- The connection id a response is for. -/
def target (server : Server) (response : Envelope) : Option Nat :=
  if response.connection = 0 then
    server.routes.find? response.message.clientId
  else
    some response.connection

/-- The connection a response is appended to. -/
def recipient (server : Server) (response : Envelope) :
    Option (Nat × Connection) :=
  match server.target response with
  | none => none
  | some id =>
      match server.connections.find? id with
      | none => none
      | some c => if c.closing then none else some (id, c)

/-- A response after its `try_pop`. -/
def handle (server : Server) (response : Envelope) : Server × List Event :=
  match server.recipient response with
  | none => (server, [.handed response none])
  | some (id, c) =>
      match c.append response.message with
      | .error _ => (server.ioThrows, [.handed response (some id)])
      | .ok appended =>
          ({ server with
              connections := server.connections.insert id appended },
            [.handed response (some id)] ++
              if c.full then [] else [.appended id response.message])

/--
The next step of the I/O thread outside of `poll`.  The answer is the stop flag
at the top of the loop and the deadline of the drain after the responses.
-/
def ioStep (server : Server) (answer : Bool) : Server × List Event :=
  match server.io with
  | .top =>
      if server.draining = false ∧ (answer = true ∨ server.fatal = true) then
        ({ server with
            draining := true
            ingressDone := true
            io := .reading }, [])
      else
        ({ server with io := .reading }, [])
  | .reading => ({ server with io := .popping server.engineDone 0 }, [])
  | .popping matchingFinished popped =>
      if popped = 4096 then
        ({ server with io := .deciding matchingFinished false }, [])
      else
        match server.responses with
        | [] =>
            ({ server with
                io := .deciding matchingFinished (decide (popped = 0)) }, [])
        | response :: rest =>
            handle { server with
                responses := rest
                io := .popping matchingFinished (popped + 1) } response
  | .deciding matchingFinished responsesEmpty =>
      if server.draining = true ∧ matchingFinished = true ∧
          responsesEmpty = true ∧
          ∀ entry ∈ server.connections.entries,
            entry.2.output.frames = [] then
        ({ server with io := .left .drained }, [])
      else if server.draining = true ∧ answer = true then
        ({ server with fatal := true, io := .left .expired }, [])
      else
        ({ server with io := .serving }, [])
  | .serving => (server, [])
  | .left _ => ({ server with ingressDone := true }, [])

/-! ## The engine thread -/

/-- The envelope of a message that answers a request. -/
def address (request : Envelope) (m : Message) : Envelope :=
  if request.message.action = .snapshot ∨
      m.clientId = request.message.clientId then
    ⟨request.connection, m⟩
  else
    ⟨0, m⟩

/-- The `catch` of the engine thread. -/
def engineThrows (server : Server) : Server :=
  { server with fatal := true, engine := .finishing }

/-- The next step of the engine thread. -/
def engineStep (server : Server) : Server × List Event :=
  match server.engine with
  | .top =>
      if server.fatal then ({ server with engine := .finishing }, [])
      else ({ server with engine := .reading }, [])
  | .reading => ({ server with engine := .popping server.ingressDone }, [])
  | .popping inputFinished =>
      match server.requests with
      | [] =>
          if inputFinished then ({ server with engine := .finishing }, [])
          else ({ server with engine := .top }, [])
      | request :: rest =>
          let popped := { server with requests := rest }
          match server.exchange.serve request.message with
          | .error _ => (popped.engineThrows, [])
          | .ok served =>
              let responses := served.batch.reports.map (address request)
              ({ popped with
                  exchange := served.exchange
                  engine := .sending responses served.batch.updates },
                [.served request responses served.batch.updates])
  | .sending (response :: rest) updates =>
      if server.responses.length < capacity then
        ({ server with
            responses := server.responses ++ [response]
            engine := .sending rest updates }, [])
      else if server.fatal then
        ({ server with engine := .sending [] updates }, [])
      else
        (server, [])
  | .sending [] (update :: rest) =>
      if server.updates.length < capacity then
        ({ server with
            updates := server.updates ++ [update]
            engine := .sending [] rest }, [])
      else if server.fatal then
        ({ server with engine := .sending [] [] }, [])
      else
        (server, [])
  | .sending [] [] => ({ server with engine := .top }, [])
  | .finishing =>
      ({ server with
          fatal :=
            server.fatal || !server.exchange.engine.validateInvariants
          engineDone := true
          engine := .stopped }, [])
  | .stopped => (server, [])

/-! ## The publisher -/

/-- The `catch` of the publisher. -/
def publisherThrows (server : Server) : Server :=
  { server with fatal := true, publisher := .ended }

/-- The next step of the publisher; `due` is the clock's word on a heartbeat. -/
def publisherStep (server : Server) (due : Bool) : Server × List Event :=
  match server.publisher with
  | .top => ({ server with publisher := .popping server.engineDone }, [])
  | .popping matchingFinished =>
      match server.updates with
      | [] =>
          if matchingFinished then ({ server with publisher := .ended }, [])
          else ({ server with publisher := .checking }, [])
      | m :: rest =>
          let popped := { server with updates := rest }
          match encode m with
          | .error _ => (popped.publisherThrows, [])
          | .ok _ =>
              ({ popped with
                  heartbeat :=
                    { server.heartbeat with sequence := m.sequence }
                  publisher := .checking },
                [.sent m])
  | .checking =>
      let beat : List Event :=
        if due then [.heartbeat server.heartbeat] else []
      if server.fatal then ({ server with publisher := .ended }, beat)
      else ({ server with publisher := .top }, beat)
  | .ended => (server, [])

/-! ## Runs -/

/-- The steps, and the failures of calls to the operating system. -/
inductive Action where
  | io (answer : Bool)
  | accept
  | visit (id : Nat) (revents : Revents)
  | endIteration
  | ioThrows
  | engine
  | engineThrows
  | publisher (due : Bool)
  | publisherThrows

/-- One step; an action of a thread that is elsewhere does nothing. -/
def step (server : Server) : Action → Server × List Event
  | .io answer => server.ioStep answer
  | .accept =>
      if server.io = .serving then (server.accept, []) else (server, [])
  | .visit id revents =>
      if server.io = .serving then server.visit id revents else (server, [])
  | .endIteration =>
      if server.io = .serving then (server.endIteration, [])
      else (server, [])
  | .ioThrows =>
      match server.io with
      | .left _ => (server, [])
      | _ => (server.ioThrows, [])
  | .engine => server.engineStep
  | .engineThrows =>
      if server.engine = .stopped then (server, [])
      else (server.engineThrows, [])
  | .publisher due => server.publisherStep due
  | .publisherThrows =>
      if server.publisher = .ended then (server, [])
      else (server.publisherThrows, [])

/-- A server and what happened since its start. -/
structure Recorded where
  server : Server
  history : List Event := []

def Recorded.next (recorded : Recorded) (action : Action) : Recorded where
  server := (recorded.server.step action).1
  history := recorded.history ++ (recorded.server.step action).2

/-- The run of a schedule. -/
def run (server : Server) (schedule : List Action) : Recorded :=
  schedule.foldl Recorded.next ⟨server, []⟩

/-- A history is never rewritten. -/
theorem run_history (server : Server) (schedule later : List Action) :
    (server.run schedule).history <+: (server.run (schedule ++ later)).history := by
  unfold run
  rw [List.foldl_append]
  generalize schedule.foldl Recorded.next ⟨server, []⟩ = recorded
  induction later generalizing recorded with
  | nil => exact List.prefix_rfl
  | cons action rest inductionHypothesis =>
      exact (List.prefix_append recorded.history _).trans
        (inductionHypothesis (recorded.next action))

/-- What holds at the start and is kept by every step holds in every run. -/
theorem run_invariant
    {holds : Recorded → Prop} {server : Server} (atStart : holds ⟨server, []⟩)
    (kept : ∀ recorded action, holds recorded → holds (recorded.next action))
    (schedule : List Action) : holds (server.run schedule) := by
  unfold run
  generalize (⟨server, []⟩ : Recorded) = recorded at atStart ⊢
  induction schedule generalizing recorded with
  | nil => exact atStart
  | cons action rest inductionHypothesis =>
      exact inductionHypothesis _ (kept recorded action atStart)

end Server

end LimitOrderBook
