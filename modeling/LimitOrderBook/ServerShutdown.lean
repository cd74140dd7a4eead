import LimitOrderBook.EngineFeed
import LimitOrderBook.ServerReplies

namespace LimitOrderBook.Server

/-!
# Graceful shutdown

Each thread ends the next one through a flag that it sets after its last push,
and the next one reads the flag before it looks at its queue.  So a queue that is
found empty after the flag stays empty, and what was ever pushed has been popped
when the threads are done.
-/

variable {server next : Server} {history events : List Event}

/-! ## What the threads know -/

/-- What the I/O thread knows from the flag and the queue it has read. -/
def ioKnows (server : Server) : IoPhase → Prop
  | .popping true _ => server.engineDone = true
  | .deciding true true => server.engineDone = true ∧ server.responses = []
  | .left _ =>
      server.draining = true ∧ server.engineDone = true ∧ server.responses = []
  | _ => True

def engineKnows (server : Server) : EnginePhase → Prop
  | .popping true => server.draining = true
  | .finishing | .stopped => server.draining = true ∧ server.requests = []
  | _ => True

def publisherKnows (server : Server) : PublisherPhase → Prop
  | .popping true => server.engineDone = true
  | .ended => server.engineDone = true ∧ server.updates = []
  | _ => True

/-- The flags and where the threads are. -/
structure Stops (server : Server) : Prop where
  ingress : server.ingressDone = true → server.draining = true
  matched : server.engineDone = true → server.engine = .stopped
  io : server.ioKnows server.io
  engine : server.engineKnows server.engine
  publisher : server.publisherKnows server.publisher

/-- What no step takes back. -/
structure Lasting (server next : Server) : Prop where
  draining : server.draining = true → next.draining = true
  engineDone : server.engineDone = true → next.engineDone = true
  requests : server.draining = true → server.requests = [] →
    next.requests = []
  responses : server.engine = .stopped → server.responses = [] →
    next.responses = []
  updates : server.engine = .stopped → server.updates = [] →
    next.updates = []

namespace Lasting

/-- No other thread makes the knowledge of the I/O thread wrong. -/
theorem ioKnows
    {phase : IoPhase} (lasting : Lasting server next)
    (matched : server.engineDone = true → server.engine = .stopped)
    (knows : server.ioKnows phase) : next.ioKnows phase := by
  cases phase with
  | popping matchingFinished popped =>
      cases matchingFinished with
      | true => exact lasting.engineDone knows
      | false => trivial
  | deciding matchingFinished responsesEmpty =>
      cases matchingFinished with
      | true =>
          cases responsesEmpty with
          | true =>
              exact ⟨lasting.engineDone knows.1,
                lasting.responses (matched knows.1) knows.2⟩
          | false => trivial
      | false => trivial
  | left exit =>
      obtain ⟨draining, done, empty⟩ := knows
      exact ⟨lasting.draining draining, lasting.engineDone done,
        lasting.responses (matched done) empty⟩
  | top => trivial
  | reading => trivial
  | serving => trivial

/-- What the engine thread knows in a phase lasts. -/
theorem engineKnows
    {phase : EnginePhase} (lasting : Lasting server next)
    (knows : server.engineKnows phase) : next.engineKnows phase := by
  cases phase with
  | popping inputFinished =>
      cases inputFinished with
      | true => exact lasting.draining knows
      | false => trivial
  | finishing =>
      exact ⟨lasting.draining knows.1, lasting.requests knows.1 knows.2⟩
  | stopped =>
      exact ⟨lasting.draining knows.1, lasting.requests knows.1 knows.2⟩
  | top => trivial
  | reading => trivial
  | sending responses updates => trivial

/-- So does what the publisher knows. -/
theorem publisherKnows
    {phase : PublisherPhase} (lasting : Lasting server next)
    (matched : server.engineDone = true → server.engine = .stopped)
    (knows : server.publisherKnows phase) : next.publisherKnows phase := by
  cases phase with
  | popping matchingFinished =>
      cases matchingFinished with
      | true => exact lasting.engineDone knows
      | false => trivial
  | ended =>
      exact ⟨lasting.engineDone knows.1,
        lasting.updates (matched knows.1) knows.2⟩
  | top => trivial
  | checking => trivial

end Lasting

/-- A visit pushes nothing once the server drains. -/
theorem Reads.drained
    {entered visited : Visit} {id : Nat} (reads : Reads entered id visited)
    (draining : entered.server.draining = true) :
    visited.server.requests = entered.server.requests := by
  cases reads with
  | skipped => rfl
  | kept _ _ => rfl
  | refused _ _ _ _ _ _ _ => rfl
  | admitted notDraining _ _ _ _ =>
      rw [draining] at notDraining
      cases notDraining
  | bound notDraining _ _ _ _ _ _ =>
      rw [draining] at notDraining
      cases notDraining

/-- The producers of a queue are done before it stays empty. -/
theorem Moves.lasting
    (moves : Moves server next events) (notFatal : next.fatal = false)
    (draining : server.draining = true → next.draining = true)
    (engineDone : server.engineDone = true → next.engineDone = true) :
    Lasting server next := by
  refine ⟨draining, engineDone, ?_, ?_, ?_⟩
  · intro isDraining empty
    cases moves with
    | quiet _ queues _ => exact queues.requests.trans empty
    | lost _ fatal _ _ _ _ =>
        rw [fatal] at notFatal
        cases notFatal
    | accepted =>
        rw [accept_server]
        exact empty
    | @visited id _ visit revents _ _ reads =>
        obtain ⟨doom, doomed, closes⟩ := visit.closes id revents
        rw [closes.server]
        exact (reads.drained isDraining).trans empty
    | iterated =>
        rw [endIteration_server]
        exact empty
    | handled _ _ handles =>
        rw [handles.server]
        exact empty
    | served shape _ _ =>
        rw [shape] at empty
        cases empty
    | responded _ => exact empty
    | published _ => exact empty
    | sent _ => exact empty
  · intro stopped empty
    cases moves with
    | quiet _ queues _ => exact queues.responses.trans empty
    | lost _ fatal _ _ _ _ =>
        rw [fatal] at notFatal
        cases notFatal
    | accepted =>
        rw [accept_server]
        exact empty
    | visited _ _ reads =>
        rw [close_server reads]
        exact empty
    | iterated =>
        rw [endIteration_server]
        exact empty
    | handled shape _ _ =>
        rw [shape] at empty
        cases empty
    | served _ _ _ => exact empty
    | responded sending =>
        rw [stopped] at sending
        cases sending
    | published _ => exact empty
    | sent _ => exact empty
  · intro stopped empty
    cases moves with
    | quiet _ queues _ => exact queues.updates.trans empty
    | lost _ fatal _ _ _ _ =>
        rw [fatal] at notFatal
        cases notFatal
    | accepted =>
        rw [accept_server]
        exact empty
    | visited _ _ reads =>
        rw [close_server reads]
        exact empty
    | iterated =>
        rw [endIteration_server]
        exact empty
    | handled _ _ handles =>
        rw [handles.server]
        exact empty
    | served _ _ _ => exact empty
    | responded _ => exact empty
    | published sending =>
        rw [stopped] at sending
        cases sending
    | sent shape =>
        rw [shape] at empty
        cases empty

/-! ## The steps of each thread -/

/-- Handing a response over leaves the input thread in its phase. -/
theorem Handles.phase
    {response : Envelope} (handles : Handles server response next events) :
    next.io = server.io ∨ next.fatal = true := by
  cases handles with
  | dropped _ => exact Or.inl rfl
  | failed _ => exact Or.inr rfl
  | appended _ _ => exact Or.inl rfl

namespace Stops

/-- A step of the I/O thread. -/
theorem ofIo
    (stops : Stops server) (lasting : Lasting server next)
    (engine : next.engine = server.engine)
    (engineDone : next.engineDone = server.engineDone)
    (publisher : next.publisher = server.publisher)
    (ingress : next.ingressDone = true → next.draining = true)
    (knows : next.ioKnows next.io) : Stops next where
  ingress := ingress
  matched := by
    rw [engineDone, engine]
    exact stops.matched
  io := knows
  engine := by
    rw [engine]
    exact lasting.engineKnows stops.engine
  publisher := by
    rw [publisher]
    exact lasting.publisherKnows stops.matched stops.publisher

/-- The input thread starts to drain before its ingress is done. -/
theorem ioStep_flags
    (stops : Stops server) (answer : Bool) :
    (server.draining = true → (server.ioStep answer).1.draining = true) ∧
      ((server.ioStep answer).1.ingressDone = true →
        (server.ioStep answer).1.draining = true) := by
  unfold Server.ioStep
  cases phase : server.io with
  | top =>
      dsimp only
      split
      · exact ⟨fun _ => rfl, fun _ => rfl⟩
      · exact ⟨id, stops.ingress⟩
  | reading => exact ⟨id, stops.ingress⟩
  | popping matchingFinished popped =>
      dsimp only
      split
      · exact ⟨id, stops.ingress⟩
      · split
        · exact ⟨id, stops.ingress⟩
        · rename_i response rest _
          rw [(handle_handles _ response).server]
          exact ⟨id, stops.ingress⟩
  | deciding matchingFinished responsesEmpty =>
      dsimp only
      split
      · exact ⟨id, stops.ingress⟩
      · split
        · exact ⟨id, stops.ingress⟩
        · exact ⟨id, stops.ingress⟩
  | serving => exact ⟨id, stops.ingress⟩
  | left exit =>
      have knows := stops.io
      rw [phase] at knows
      exact ⟨id, fun _ => knows.1⟩

/-- After its step the input thread knows what its phase says. -/
theorem ioStep_knows
    (stops : Stops server) (answer : Bool)
    (notFatal : (server.ioStep answer).1.fatal = false) :
    (server.ioStep answer).1.ioKnows (server.ioStep answer).1.io := by
  have knows := stops.io
  unfold Server.ioStep at notFatal ⊢
  cases phase : server.io with
  | top =>
      dsimp only
      split
      · trivial
      · trivial
  | reading =>
      dsimp only
      cases server.engineDone with
      | true => exact rfl
      | false => trivial
  | popping matchingFinished popped =>
      rw [phase] at knows
      simp only [phase] at notFatal
      dsimp only
      split
      · cases matchingFinished with
        | true => trivial
        | false => trivial
      · rename_i goesOn
        rw [if_neg goesOn] at notFatal
        split
        · rename_i empty
          cases matchingFinished with
          | true =>
              cases decide (popped = 0) with
              | true => exact ⟨knows, empty⟩
              | false => trivial
          | false => trivial
        · rename_i response rest shape
          simp only [shape] at notFatal
          have handles := handle_handles
            { server with
              responses := rest
              io := .popping matchingFinished (popped + 1) } response
          rcases handles.phase with same | fatal
          · rw [same]
            cases matchingFinished with
            | true =>
                rw [handles.server]
                exact knows
            | false => trivial
          · rw [fatal] at notFatal
            cases notFatal
  | deciding matchingFinished responsesEmpty =>
      rw [phase] at knows
      simp only [phase] at notFatal
      dsimp only
      split
      · rename_i leaves
        obtain ⟨draining, rfl, rfl, _⟩ := leaves
        exact ⟨draining, knows⟩
      · rename_i stays
        rw [if_neg stays] at notFatal
        split
        · rename_i expired
          rw [if_pos expired] at notFatal
          cases notFatal
        · trivial
  | serving =>
      dsimp only
      rw [phase]
      trivial
  | left exit =>
      rw [phase] at knows
      exact knows

/-- Steps of the input thread keep the order of the shutdown. -/
theorem ioStep
    (stops : Stops server) (answer : Bool)
    (notFatal : (server.ioStep answer).1.fatal = false) :
    Stops (server.ioStep answer).1 := by
  obtain ⟨draining, ingress⟩ := stops.ioStep_flags answer
  have knows := stops.ioStep_knows answer notFatal
  have lasting : Lasting server (server.ioStep answer).1 := by
    refine (ioStep_moves server answer).lasting notFatal draining ?_
    rw [ioStep_server]
    exact id
  refine stops.ofIo lasting ?_ ?_ ?_ ingress knows
  · rw [ioStep_server]
  · rw [ioStep_server]
  · rw [ioStep_server]

/-- A part of an iteration of the I/O loop, which goes on or has failed. -/
theorem iteration
    (stops : Stops server) (moves : Moves server next events)
    (notFatal : next.fatal = false)
    (engine : next.engine = server.engine)
    (engineDone : next.engineDone = server.engineDone)
    (publisher : next.publisher = server.publisher)
    (draining : next.draining = server.draining)
    (ingressDone : next.ingressDone = server.ingressDone)
    (phase : next.io = server.io ∨ next.io = .top ∨ next.fatal = true) :
    Stops next := by
  have lasting : Lasting server next := by
    refine moves.lasting notFatal ?_ ?_
    · rw [draining]
      exact id
    · rw [engineDone]
      exact id
  refine stops.ofIo lasting engine engineDone publisher ?_ ?_
  · rw [ingressDone, draining]
    exact stops.ingress
  · rcases phase with same | atTop | fatal
    · rw [same]
      exact lasting.ioKnows stops.matched stops.io
    · rw [atTop]
      trivial
    · rw [fatal] at notFatal
      cases notFatal

/-- A visit leaves the input thread in its phase. -/
theorem visit_phase (server : Server) (id : Nat) (revents : Revents) :
    (server.visit id revents).1.io = server.io ∨
      (server.visit id revents).1.fatal = true := by
  unfold Server.visit
  split
  · exact Or.inl rfl
  · split
    · exact Or.inl rfl
    · simp only
      split
      · exact Or.inr rfl
      · rename_i read
        rw [close_server (read_reads rfl read)]
        exact Or.inl rfl

/-- The engine is done only when its thread has stopped. -/
theorem engineStep_flags
    (stops : Stops server) :
    (server.engineDone = true → server.engineStep.1.engineDone = true) ∧
      (server.engineStep.1.engineDone = true →
        server.engineStep.1.engine = .stopped) := by
  have matched := stops.matched
  unfold Server.engineStep
  split
  · rename_i atTop
    rw [atTop] at matched
    split
    · exact ⟨id, fun done => (by cases matched done)⟩
    · exact ⟨id, fun done => (by cases matched done)⟩
  · rename_i atReading
    rw [atReading] at matched
    exact ⟨id, fun done => (by cases matched done)⟩
  · rename_i atPopping
    rw [atPopping] at matched
    split
    · split
      · exact ⟨id, fun done => (by cases matched done)⟩
      · exact ⟨id, fun done => (by cases matched done)⟩
    · simp only
      split
      · exact ⟨id, fun done => (by cases matched done)⟩
      · exact ⟨id, fun done => (by cases matched done)⟩
  · rename_i atSending
    split
    · exact ⟨id, fun done => (by cases atSending ▸ matched done)⟩
    · split
      · exact ⟨id, fun done => (by cases atSending ▸ matched done)⟩
      · exact ⟨id, matched⟩
  · rename_i atSending
    split
    · exact ⟨id, fun done => (by cases atSending ▸ matched done)⟩
    · split
      · exact ⟨id, fun done => (by cases atSending ▸ matched done)⟩
      · exact ⟨id, matched⟩
  · rename_i atSending
    exact ⟨id, fun done => (by cases atSending ▸ matched done)⟩
  · exact ⟨fun _ => rfl, fun _ => rfl⟩
  · exact ⟨id, matched⟩

/-- After its step the engine thread knows what its phase says. -/
theorem engineStep_knows
    (stops : Stops server) (notFatal : server.engineStep.1.fatal = false) :
    server.engineStep.1.engineKnows server.engineStep.1.engine := by
  have knows := stops.engine
  unfold Server.engineStep at notFatal ⊢
  cases phase : server.engine with
  | top =>
      simp only [phase] at notFatal
      dsimp only
      split
      · rename_i fatal
        rw [if_pos fatal] at notFatal
        exact absurd (fatal.symm.trans notFatal) (by decide)
      · trivial
  | reading =>
      dsimp only
      cases ended : server.ingressDone with
      | true => exact stops.ingress ended
      | false => trivial
  | popping inputFinished =>
      rw [phase] at knows
      simp only [phase] at notFatal
      dsimp only
      split
      · rename_i empty
        cases inputFinished with
        | true => exact ⟨knows, empty⟩
        | false => trivial
      · rename_i request rest shape
        simp only [shape] at notFatal
        split
        · rename_i fails
          simp only [fails] at notFatal
          cases notFatal
        · trivial
  | sending responses updates =>
      cases responses with
      | cons response rest =>
          dsimp only
          split
          · trivial
          · split
            · trivial
            · rw [phase]
              trivial
      | nil =>
          cases updates with
          | cons update rest =>
              dsimp only
              split
              · trivial
              · split
                · trivial
                · rw [phase]
                  trivial
          | nil => trivial
  | finishing =>
      rw [phase] at knows
      exact knows
  | stopped =>
      rw [phase] at knows
      dsimp only
      rw [phase]
      exact knows

/-- Steps of the engine thread keep the order of the shutdown. -/
theorem engineStep
    (stops : Stops server) (notFatal : server.engineStep.1.fatal = false) :
    Stops server.engineStep.1 := by
  obtain ⟨done, matched⟩ := stops.engineStep_flags
  have knows := stops.engineStep_knows notFatal
  have lasting : Lasting server server.engineStep.1 := by
    refine (engineStep_moves server).lasting notFatal ?_ done
    rw [engineStep_server]
    exact id
  refine ⟨?_, matched, ?_, knows, ?_⟩
  · rw [engineStep_server]
    exact stops.ingress
  · have same : server.engineStep.1.io = server.io := by
      rw [engineStep_server]
    rw [same]
    exact lasting.ioKnows stops.matched stops.io
  · have same : server.engineStep.1.publisher = server.publisher := by
      rw [engineStep_server]
    rw [same]
    exact lasting.publisherKnows stops.matched stops.publisher

/-- After its step the publisher knows what its phase says. -/
theorem publisherStep_knows
    (stops : Stops server) (due : Bool)
    (notFatal : (server.publisherStep due).1.fatal = false) :
    (server.publisherStep due).1.publisherKnows
      (server.publisherStep due).1.publisher := by
  have knows := stops.publisher
  unfold Server.publisherStep at notFatal ⊢
  cases phase : server.publisher with
  | top =>
      dsimp only
      cases server.engineDone with
      | true => exact rfl
      | false => trivial
  | popping matchingFinished =>
      rw [phase] at knows
      simp only [phase] at notFatal
      dsimp only
      split
      · rename_i empty
        cases matchingFinished with
        | true => exact ⟨knows, empty⟩
        | false => trivial
      · rename_i m rest shape
        simp only [shape] at notFatal
        split
        · rename_i fails
          simp only [fails] at notFatal
          cases notFatal
        · trivial
  | checking =>
      simp only [phase] at notFatal
      dsimp only
      split
      · rename_i fatal
        rw [if_pos fatal] at notFatal
        exact absurd (fatal.symm.trans notFatal) (by decide)
      · trivial
  | ended =>
      rw [phase] at knows
      dsimp only
      rw [phase]
      exact knows

/-- Steps of the publisher keep the order of the shutdown. -/
theorem publisherStep
    (stops : Stops server) (due : Bool)
    (notFatal : (server.publisherStep due).1.fatal = false) :
    Stops (server.publisherStep due).1 := by
  have knows := stops.publisherStep_knows due notFatal
  have lasting : Lasting server (server.publisherStep due).1 := by
    refine (publisherStep_moves server due).lasting notFatal ?_ ?_
    · rw [publisherStep_server]
      exact id
    · rw [publisherStep_server]
      exact id
  refine ⟨?_, ?_, ?_, ?_, knows⟩
  · rw [publisherStep_server]
    exact stops.ingress
  · rw [publisherStep_server]
    exact stops.matched
  · have same : (server.publisherStep due).1.io = server.io := by
      rw [publisherStep_server]
    rw [same]
    exact lasting.ioKnows stops.matched stops.io
  · have same : (server.publisherStep due).1.engine = server.engine := by
      rw [publisherStep_server]
    rw [same]
    exact lasting.engineKnows stops.engine

/-- What every step keeps that records no failure. -/
theorem step
    (stops : Stops server) (action : Action)
    (notFatal : (server.step action).1.fatal = false) :
    Stops (server.step action).1 := by
  have moves := step_moves server action
  cases action with
  | io answer => exact stops.ioStep answer notFatal
  | accept =>
      simp only [Server.step] at moves notFatal ⊢
      split at moves
      · rename_i serving
        rw [if_pos serving] at notFatal ⊢
        refine stops.iteration moves notFatal ?_ ?_ ?_ ?_ ?_ ?_
        all_goals rw [accept_server]
        exact Or.inl rfl
      · rename_i elsewhere
        rw [if_neg elsewhere]
        exact stops
  | visit id revents =>
      simp only [Server.step] at moves notFatal ⊢
      split at moves
      · rename_i serving
        rw [if_pos serving] at notFatal ⊢
        refine stops.iteration moves notFatal ?_ ?_ ?_ ?_ ?_ ?_
        rotate_right
        · exact (visit_phase server id revents).imp_right Or.inr
        all_goals rw [visit_server]
      · rename_i elsewhere
        rw [if_neg elsewhere]
        exact stops
  | endIteration =>
      simp only [Server.step] at moves notFatal ⊢
      split at moves
      · rename_i serving
        rw [if_pos serving] at notFatal ⊢
        refine stops.iteration moves notFatal ?_ ?_ ?_ ?_ ?_ ?_
        all_goals rw [endIteration_server]
        exact Or.inr (Or.inl rfl)
      · rename_i elsewhere
        rw [if_neg elsewhere]
        exact stops
  | ioThrows =>
      simp only [Server.step] at notFatal ⊢
      split
      · exact stops
      · rename_i running
        split at notFatal
        · rename_i exit left
          exact absurd left (running exit)
        · cases notFatal
  | engine => exact stops.engineStep notFatal
  | engineThrows =>
      simp only [Server.step] at notFatal ⊢
      split at notFatal
      · rename_i stopped
        rw [if_pos stopped]
        exact stops
      · cases notFatal
  | publisher due => exact stops.publisherStep due notFatal
  | publisherThrows =>
      simp only [Server.step] at notFatal ⊢
      split at notFatal
      · rename_i ended
        rw [if_pos ended]
        exact stops
      · cases notFatal

end Stops

/-- Every run that meets no fatal error keeps the order. -/
theorem run_stops
    (exchange : Exchange) (schedule : List Action)
    (notFatal : ((start exchange).run schedule).server.fatal = false) :
    Stops ((start exchange).run schedule).server := by
  revert notFatal
  refine @run_invariant
    (fun recorded => recorded.server.fatal = false → Stops recorded.server)
    (start exchange) ?_ ?_ schedule
  · intro _
    refine ⟨?_, ?_, trivial, trivial, trivial⟩
    · intro ingress
      cases ingress
    · intro done
      cases done
  · intro recorded action stops notFatal
    exact (stops ((step_moves recorded.server action).fatal notFatal)).step
      action notFatal

/-! ## What the engine served -/

/-- The responses to a request. -/
def repliesTo (request : Envelope) (served : Served) : List Envelope :=
  served.batch.reports.map (address request)

/-- The served requests are a run of the exchange. -/
structure Performed (exchange : Exchange) (recorded : Recorded)
    (results : List Served) : Prop where
  ran : StepSystem.run Exchange.serve Served.exchange exchange
    ((servedRequests recorded.history).map Envelope.message) = .ok results
  last : StepSystem.last Served.exchange exchange results =
    recorded.server.exchange
  paired : (servedRequests recorded.history).length = results.length
  responses : servedResponses recorded.history =
    (List.zipWith repliesTo (servedRequests recorded.history) results).flatten
  updates : servedUpdates recorded.history =
    results.flatMap fun served => served.batch.updates

/-- A move is performed with the results it adds. -/
theorem Performed.moves
    {exchange : Exchange} {results : List Served}
    (performed : Performed exchange ⟨server, history⟩ results)
    (moves : Moves server next events) :
    ∃ results, Performed exchange ⟨next, history ++ events⟩ results := by
  rcases moves.serves with
    ⟨same, silent⟩ | ⟨request, rest, served, _, serves, after, rfl⟩
  · obtain ⟨noRequest, noResponse, noUpdate⟩ := served_nothing silent
    refine ⟨results, ?_, ?_, ?_, ?_, ?_⟩
    · simpa [noRequest] using performed.ran
    · rw [performed.last]
      exact same.symm
    · simpa [noRequest] using performed.paired
    · simpa [noRequest, noResponse] using performed.responses
    · simpa [noUpdate] using performed.updates
  · have one : StepSystem.run Exchange.serve Served.exchange
        (StepSystem.last Served.exchange exchange results)
        [request.message] = .ok [served] := by
      rw [performed.last]
      exact StepSystem.run_cons_of_ok serves rfl
    obtain ⟨ran, last⟩ := StepSystem.run_append performed.ran one
    refine ⟨results ++ [served], ?_, ?_, ?_, ?_, ?_⟩
    · rw [servedRequests_append, List.map_append]
      exact ran
    · rw [last]
      exact after.symm
    · rw [servedRequests_append, List.length_append, List.length_append,
        performed.paired]
      rfl
    · rw [servedResponses_append, servedRequests_append,
        List.zipWith_append performed.paired, List.flatten_append,
        performed.responses]
      rfl
    · rw [servedUpdates_append, List.flatMap_append, performed.updates]
      rfl

/-- What was served in a run are results of the exchange. -/
theorem run_performed
    (exchange : Exchange) (schedule : List Action) :
    ∃ results, Performed exchange ((start exchange).run schedule) results := by
  refine @run_holds
    (fun recorded => ∃ results, Performed exchange recorded results)
    (start exchange) ⟨[], rfl, rfl, rfl, rfl, rfl⟩ ?_ schedule
  rintro recorded next events ⟨results, performed⟩ moves
  exact performed.moves moves

/-- The updates of a request go on with the numbers of the feed. -/
theorem serve_numbered
    {pool : PoolBytes} {exchange : Exchange} {m : Message} {served : Served}
    (reachable : MatchingEngine.Reachable pool exchange.engine)
    (serves : exchange.serve m = .ok served) :
    Numbered exchange.engine.epoch exchange.engine.sequence
        served.batch.updates ∧
      served.exchange.engine.sequence =
        exchange.engine.sequence + served.batch.updates.length ∧
      served.exchange.engine.epoch = exchange.engine.epoch := by
  unfold Exchange.serve at serves
  split at serves
  · cases serves
    exact ⟨trivial, rfl, rfl⟩
  · obtain ⟨turn, processed, outcome, _⟩ := reachable.outcome m
    have feeding := outcome.feeding reachable.invariant.sound
    rw [processed] at serves
    cases serves
    exact ⟨feeding.numbered, feeding.sequence, feeding.epoch⟩

/-- The updates of a run of the exchange have consecutive numbers. -/
theorem run_numbered
    {pool : PoolBytes} {exchange : Exchange} {messages : List Message}
    {results : List Served}
    (reachable : MatchingEngine.Reachable pool exchange.engine)
    (ran : StepSystem.run Exchange.serve Served.exchange exchange messages =
      .ok results) :
    Numbered exchange.engine.epoch exchange.engine.sequence
      (results.flatMap fun served => served.batch.updates) := by
  induction messages generalizing exchange results with
  | nil =>
      cases ran
      trivial
  | cons m rest inductionHypothesis =>
      obtain ⟨served, others, serves, restRan, rfl⟩ := StepSystem.run_cons_ok ran
      obtain ⟨numbered, sequence, epoch⟩ := serve_numbered reachable serves
      obtain ⟨_, serves', next⟩ := Exchange.serve_ok reachable m
      rw [serves] at serves'
      cases serves'
      have later := inductionHypothesis next restRan
      rw [sequence, epoch] at later
      rw [List.flatMap_cons]
      exact numbered.append later

/-! ## What is handed over -/

/-- A popped response goes to `append` for its connection, if that takes it. -/
structure Delivers (server next : Server) (response : Envelope)
    (target : Option Nat) : Prop where
  taken : ∀ id c, server.target response = some id →
    server.connections.find? id = some c → c.closing = false →
    target = some id ∧ ∃ d, c.append response.message = .ok d ∧
      next.connections = server.connections.insert id d
  untaken : (∀ id c, server.target response = some id →
      server.connections.find? id = some c → c.closing = true) →
    target = none ∧ next.connections = server.connections

/-- A response with a recipient has it for its target. -/
theorem Recipient.target_eq
    {response : Envelope} {id : Nat} {c : Connection}
    (isRecipient : Recipient server response id c) :
    server.target response = some id := by
  unfold Server.target
  rcases isRecipient.target with ⟨rfl, nonzero⟩ | ⟨isRoute, routed⟩
  · rw [if_neg nonzero]
  · rw [if_pos isRoute, routed]

/-- A connection that gets no response is closing. -/
theorem recipient_none
    {response : Envelope} {id : Nat} {c : Connection}
    (nobody : server.recipient response = none)
    (targeted : server.target response = some id)
    (found : server.connections.find? id = some c) : c.closing = true := by
  unfold recipient at nobody
  simp only [targeted, found] at nobody
  split at nobody
  · assumption
  · cases nobody

/-- A response is handed over in order and delivered to its target. -/
theorem Moves.delivers
    {response : Envelope} {target : Option Nat}
    (moves : Moves server next events) (notFatal : next.fatal = false)
    (handed : .handed response target ∈ events) :
    (∃ rest, server.responses = response :: rest) ∧
      Delivers server next response target := by
  cases moves with
  | quiet _ _ silent =>
      obtain ⟨m, isBeat⟩ := silent _ handed
      cases isBeat
  | lost _ _ _ _ _ _ => cases handed
  | accepted => cases handed
  | @visited id c visit revents _ _ reads =>
      obtain ⟨doom, doomed, closes⟩ := visit.closes id revents
      rw [closes.events] at handed
      rcases List.mem_append.mp handed with isVisit | isEnd
      · cases reads.mem_events isVisit
      · split at isEnd
        · cases List.mem_singleton.mp isEnd
        · cases isEnd
  | iterated => cases handed
  | @handled popped rest io next events shape _ handles =>
      cases handles with
      | dropped nobody =>
          cases List.mem_singleton.mp handed
          refine ⟨⟨rest, shape⟩, ?_, ?_⟩
          · intro id c targeted found takes
            have closing := recipient_none
              (nobody : server.recipient response = none) targeted found
            rw [takes] at closing
            cases closing
          · exact fun _ => ⟨rfl, rfl⟩
      | failed _ => cases notFatal
      | @appended id c d isRecipient appends =>
          have isHanding : Event.handed response target =
              .handed popped (some id) := by
            rcases List.mem_append.mp handed with first | second
            · exact List.mem_singleton.mp first
            · split at second
              · cases second
              · cases List.mem_singleton.mp second
          cases isHanding
          have targets : server.target response = some id :=
            isRecipient.target_eq
          have stored : server.connections.find? id = some c :=
            isRecipient.found
          refine ⟨⟨rest, shape⟩, ?_, ?_⟩
          · intro other e targeted found _
            rw [targets] at targeted
            cases targeted
            rw [stored] at found
            cases found
            exact ⟨rfl, d, appends, rfl⟩
          · intro closed
            have closing := closed id c targets stored
            rw [isRecipient.takes] at closing
            cases closing
  | served _ _ _ => cases List.mem_singleton.mp handed
  | responded _ => cases handed
  | published _ => cases handed
  | sent _ => cases List.mem_singleton.mp handed

/-! ## The end of a run -/

/-- A run without a failure had none before. -/
theorem run_calm
    (server : Server) (schedule later : List Action)
    (notFatal : (server.run (schedule ++ later)).server.fatal = false) :
    (server.run schedule).server.fatal = false := by
  unfold run at notFatal ⊢
  rw [List.foldl_append] at notFatal
  generalize schedule.foldl Recorded.next ⟨server, []⟩ = recorded at notFatal ⊢
  induction later generalizing recorded with
  | nil => exact notFatal
  | cons action rest inductionHypothesis =>
      exact (step_moves recorded.server action).fatal
        (inductionHypothesis (recorded.next action) notFatal)

/--
Graceful shutdown.  When the I/O loop has left through its drained branch and no
failure was recorded, the engine has served the pushed requests one after the
other from the exchange at the start, and every response has been handed over in
that order.  In each step that handed one over it went to `append` for its
connection if that was open and not closing.  When the publisher has ended, every
update has been sent, in the order of the sequence numbers.
-/
theorem graceful_shutdown
    {pool : PoolBytes} {exchange : Exchange}
    (reachable : MatchingEngine.Reachable pool exchange.engine)
    (schedule : List Action)
    (notFatal : ((start exchange).run schedule).server.fatal = false)
    (drained : ((start exchange).run schedule).server.io = .left .drained) :
    let recorded := (start exchange).run schedule
    servedRequests recorded.history = pushes recorded.history ∧
      (∃ results,
        StepSystem.run Exchange.serve Served.exchange exchange
            ((pushes recorded.history).map Envelope.message) = .ok results ∧
          handedOver recorded.history =
            (List.zipWith repliesTo (pushes recorded.history)
              results).flatten ∧
          (recorded.server.publisher = .ended →
            sentUpdates recorded.history =
              results.flatMap fun served => served.batch.updates)) ∧
      Numbered exchange.engine.epoch exchange.engine.sequence
        (sentUpdates recorded.history) ∧
      ∀ earlier action later response target,
        schedule = earlier ++ action :: later →
        .handed response target ∈
          (((start exchange).run earlier).server.step action).2 →
        Delivers ((start exchange).run earlier).server
          (((start exchange).run earlier).server.step action).1 response
          target := by
  intro recorded
  have stops : Stops recorded.server := run_stops exchange schedule notFatal
  have flow := (run_replies reachable schedule).flow notFatal
  obtain ⟨results, performed⟩ := run_performed exchange schedule
  have routed := stops.io
  rw [drained] at routed
  obtain ⟨_, done, noResponse⟩ := routed
  have stopped := stops.matched done
  have matched := stops.engine
  rw [stopped] at matched
  have nothing : recorded.server.unsent = ([], []) := by
    simp [unsent, stopped]
  have allServed : servedRequests recorded.history =
      pushes recorded.history := by
    rw [flow.requests, matched.2, List.append_nil]
  have allHanded : handedOver recorded.history =
      servedResponses recorded.history := by
    rw [flow.responses, noResponse, nothing, List.append_nil, List.append_nil]
  refine ⟨allServed, ⟨results, ?_, ?_, ?_⟩, ?_, ?_⟩
  · rw [← allServed]
    exact performed.ran
  · rw [allHanded, performed.responses, allServed]
  · intro ended
    have published := stops.publisher
    rw [ended] at published
    rw [← performed.updates, flow.updates, published.2, nothing,
      List.append_nil, List.append_nil]
  · have numbered := run_numbered reachable performed.ran
    have ahead : sentUpdates recorded.history <+:
        results.flatMap fun served => served.batch.updates := by
      rw [← performed.updates, flow.updates, List.append_assoc]
      exact List.prefix_append _ _
    rw [List.prefix_iff_eq_take.mp ahead]
    exact numbered.take _
  · intro earlier action later response target split handed
    have calm : (((start exchange).run earlier).server.step action).1.fatal =
        false := by
      have atAction : ((start exchange).run (earlier ++ [action])).server.fatal =
          false := by
        refine run_calm (start exchange) (earlier ++ [action]) later ?_
        rw [List.append_assoc]
        exact split ▸ notFatal
      unfold run at atAction ⊢
      rw [List.foldl_concat] at atAction
      exact atAction
    exact ((step_moves _ action).delivers calm handed).2

/--
The first order is served, the server is asked to stop, the responses are routed
and flushed, and the threads end.
-/
def shutdown : List Action :=
  firstOrder ++ [.endIteration] ++ List.replicate 8 .engine ++ [.io true] ++
    List.replicate 6 (.io false) ++
    [.visit 1
      { writable := true
        sends := [.moved frameSize, .moved frameSize] },
     .endIteration] ++
    List.replicate 4 .engine ++ List.replicate 4 (.io false) ++
    List.replicate 5 (.publisher false)

/-- The order has been served, and its update has been sent. -/
theorem graceful_shutdown_first_order :
    ∃ results,
      StepSystem.run Exchange.serve Served.exchange
          ⟨MatchingEngine.single, []⟩
          ((pushes ((start ⟨MatchingEngine.single, []⟩).run
            shutdown).history).map Envelope.message) = .ok results ∧
        sentUpdates ((start ⟨MatchingEngine.single, []⟩).run
            shutdown).history =
          results.flatMap fun served => served.batch.updates := by
  obtain ⟨notFatal, drained, ended⟩ :
      ((start ⟨MatchingEngine.single, []⟩).run shutdown).server.fatal =
          false ∧
        ((start ⟨MatchingEngine.single, []⟩).run shutdown).server.io =
          .left .drained ∧
        ((start ⟨MatchingEngine.single, []⟩).run shutdown).server.publisher =
          .ended := by
    decide +kernel
  obtain ⟨results, ran, _, sent⟩ := (@graceful_shutdown .capacity
    ⟨MatchingEngine.single, []⟩ MatchingEngine.single_reachable shutdown
    notFatal drained).2.1
  exact ⟨results, ran, sent ended⟩

end LimitOrderBook.Server
