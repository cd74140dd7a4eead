import LimitOrderBook.ServerSessions

namespace LimitOrderBook.Server

/-!
# Nothing is lost between the threads

While no failure is recorded, every queue holds exactly what its producer pushed
and its consumer has not popped, in the same order, and every request that the
engine served has exactly one terminal message among its responses.
-/

/-- The requests that were pushed. -/
def pushes (history : List Event) : List Envelope :=
  history.filterMap fun
    | .pushed request => some request
    | _ => none

/-- The requests that the engine served. -/
def servedRequests (history : List Event) : List Envelope :=
  history.filterMap fun
    | .served request _ _ => some request
    | _ => none

/-- The responses to them. -/
def servedResponses (history : List Event) : List Envelope :=
  history.flatMap fun
    | .served _ responses _ => responses
    | _ => []

/-- The market data they caused. -/
def servedUpdates (history : List Event) : List Message :=
  history.flatMap fun
    | .served _ _ updates => updates
    | _ => []

/-- The responses that were popped. -/
def handedOver (history : List Event) : List Envelope :=
  history.filterMap fun
    | .handed response _ => some response
    | _ => none

/-- The market data that was sent. -/
def sentUpdates (history : List Event) : List Message :=
  history.filterMap fun
    | .sent m => some m
    | _ => none

variable {server next : Server} {history events : List Event} {id : Nat}

section Append

variable (history events : List Event)

@[simp] theorem pushes_append :
    pushes (history ++ events) = pushes history ++ pushes events :=
  List.filterMap_append

@[simp] theorem servedRequests_append :
    servedRequests (history ++ events) =
      servedRequests history ++ servedRequests events :=
  List.filterMap_append

@[simp] theorem servedResponses_append :
    servedResponses (history ++ events) =
      servedResponses history ++ servedResponses events :=
  List.flatMap_append

@[simp] theorem servedUpdates_append :
    servedUpdates (history ++ events) =
      servedUpdates history ++ servedUpdates events :=
  List.flatMap_append

@[simp] theorem handedOver_append :
    handedOver (history ++ events) =
      handedOver history ++ handedOver events :=
  List.filterMap_append

@[simp] theorem sentUpdates_append :
    sentUpdates (history ++ events) =
      sentUpdates history ++ sentUpdates events :=
  List.filterMap_append

end Append

/-- What the queues hold. -/
structure Flow (server : Server) (history : List Event) : Prop where
  requests : pushes history = servedRequests history ++ server.requests
  responses : servedResponses history =
    handedOver history ++ server.responses ++ server.unsent.1
  updates : servedUpdates history =
    sentUpdates history ++ server.updates ++ server.unsent.2

/-- Events that no queue is about. -/
def Event.idle : Event → Bool
  | .received _ | .bound _ _ | .appended _ _ | .doomed _ _ | .heartbeat _ =>
      true
  | _ => false

theorem idle_queues
    (idle : ∀ event ∈ events, event.idle = true) :
    pushes events = [] ∧ servedRequests events = [] ∧
      servedResponses events = [] ∧ servedUpdates events = [] ∧
      handedOver events = [] ∧ sentUpdates events = [] := by
  induction events with
  | nil => exact ⟨rfl, rfl, rfl, rfl, rfl, rfl⟩
  | cons event rest inductionHypothesis =>
      have restIdle := inductionHypothesis fun other member =>
        idle other (List.mem_cons_of_mem event member)
      have isIdle := idle event List.mem_cons_self
      cases event with
      | pushed _ => cases isIdle
      | served _ _ _ => cases isIdle
      | handed _ _ => cases isIdle
      | sent _ => cases isIdle
      | _ => exact restIdle

namespace Flow

theorem frame
    (flow : Flow server history) (requests : next.requests = server.requests)
    (responses : next.responses = server.responses)
    (updates : next.updates = server.updates)
    (unsent : next.unsent = server.unsent)
    (idle : ∀ event ∈ events, event.idle = true) :
    Flow next (history ++ events) := by
  obtain ⟨noPush, noRequest, noResponse, noUpdate, noHanding, noSend⟩ :=
    idle_queues idle
  refine ⟨?_, ?_, ?_⟩
  · simpa [noPush, noRequest, requests] using flow.requests
  · simpa [noResponse, noHanding, responses, unsent] using flow.responses
  · simpa [noUpdate, noSend, updates, unsent] using flow.updates

/-- The input side of a visit. -/
theorem settled
    {visit : Visit} {c : Connection} {revents : Revents}
    (flow : Flow server history)
    (reads : Reads (server.enter c revents) id visit) :
    Flow (visit.settled id) (history ++ visit.events) := by
  have arrives : ∀ d, ∀ event ∈ arrival id (server.enter c revents).connection
      d, event.idle = true := by
    intro d event member
    obtain ⟨m, rfl⟩ := mem_arrival member
    rfl
  -- a push after events that no queue is about
  have pushes : ∀ (entered : Visit) (m : Message),
      (∀ event ∈ entered.events, event.idle = true) →
      entered.server.requests = server.requests →
      entered.server.responses = server.responses →
      entered.server.updates = server.updates →
      entered.server.engine = server.engine →
      Flow ((entered.push id m).settled id)
        (history ++ (entered.push id m).events) := by
    intro entered m idle requests responses updates engine
    have before : Flow (entered.settled id) (history ++ entered.events) := by
      refine flow.frame requests responses updates ?_ idle
      unfold unsent Visit.settled
      rw [engine]
    rcases entered.push_cases id m with ⟨queued, recorded, _⟩ | same
    · have touched := entered.push_server id m
      rw [recorded, ← List.append_assoc]
      refine ⟨?_, ?_, ?_⟩
      · have same := before.requests
        simp only [Visit.settled] at same ⊢
        rw [pushes_append, servedRequests_append, queued, same]
        simp [Server.pushes, servedRequests]
      · have same := before.responses
        simp only [Visit.settled, unsent] at same ⊢
        rw [servedResponses_append, handedOver_append, same, touched]
        simp [servedResponses, handedOver]
      · have same := before.updates
        simp only [Visit.settled, unsent] at same ⊢
        rw [servedUpdates_append, sentUpdates_append, same, touched]
        simp [servedUpdates, sentUpdates]
    · rw [same]
      exact before
  cases reads with
  | skipped => exact flow.frame rfl rfl rfl rfl (by simp [enter])
  | kept _ _ => exact flow.frame rfl rfl rfl rfl (arrives _)
  | refused _ _ _ _ _ _ _ =>
      refine flow.frame rfl rfl rfl rfl ?_
      intro event member
      rcases List.mem_append.mp member with isArrival | isAppend
      · exact arrives _ event isArrival
      · split at isAppend
        · cases isAppend
        · rw [List.mem_singleton.mp isAppend]
          rfl
  | admitted _ _ _ _ _ => exact pushes _ _ (arrives _) rfl rfl rfl rfl
  | bound _ _ _ _ _ _ _ =>
      refine pushes _ _ ?_ rfl rfl rfl rfl
      intro event member
      rcases List.mem_append.mp member with isArrival | isBinding
      · exact arrives _ event isArrival
      · rw [List.mem_singleton.mp isBinding]
        rfl

/-- What every move keeps that records no failure. -/
theorem moves
    (flow : Flow server history) (moves : Moves server next events)
    (notFatal : next.fatal = false) : Flow next (history ++ events) := by
  cases moves with
  | quiet _ queues silent =>
      refine flow.frame queues.requests queues.responses queues.updates
        queues.unsent ?_
      intro event member
      obtain ⟨m, rfl⟩ := silent event member
      rfl
  | lost _ fatal _ _ _ _ =>
      rw [fatal] at notFatal
      cases notFatal
  | accepted =>
      rw [accept_server]
      exact flow.frame rfl rfl rfl rfl (by simp)
  | @visited id c visit revents _ _ reads =>
      obtain ⟨doom, doomed, closes⟩ := visit.closes id revents
      rw [closes.server, closes.events, ← List.append_assoc]
      refine (flow.settled reads).frame rfl rfl rfl rfl ?_
      intro event member
      split at member
      · rw [List.mem_singleton.mp member]
        rfl
      · cases member
  | iterated =>
      rw [endIteration_server]
      exact flow.frame rfl rfl rfl rfl (by simp)
  | @handled response rest io next events shape _ handles =>
      have popped : ∀ target, Flow { server with responses := rest, io := io }
          (history ++ [.handed response target]) := by
        intro target
        refine ⟨?_, ?_, ?_⟩
        · rw [pushes_append, servedRequests_append, flow.requests]
          simp [pushes, servedRequests]
        · rw [servedResponses_append, handedOver_append, flow.responses, shape]
          simp [servedResponses, handedOver, unsent]
        · rw [servedUpdates_append, sentUpdates_append, flow.updates]
          simp [servedUpdates, sentUpdates, unsent]
      cases handles with
      | dropped _ => exact popped none
      | failed _ => cases notFatal
      | @appended id _ _ _ _ =>
          rw [← List.append_assoc]
          refine (popped (some id)).frame rfl rfl rfl rfl ?_
          intro event member
          split at member
          · cases member
          · rw [List.mem_singleton.mp member]
            rfl
  | @served request rest served shape nothing serves =>
      have noResponse : server.unsent.1 = [] := congrArg Prod.fst nothing
      have noUpdate : server.unsent.2 = [] := congrArg Prod.snd nothing
      refine ⟨?_, ?_, ?_⟩
      · rw [pushes_append, servedRequests_append, flow.requests, shape]
        simp [pushes, servedRequests]
      · rw [servedResponses_append, handedOver_append, flow.responses,
          noResponse]
        simp [servedResponses, handedOver, unsent]
      · rw [servedUpdates_append, sentUpdates_append, flow.updates, noUpdate]
        simp [servedUpdates, sentUpdates, unsent]
  | @responded response rest updates sending =>
      refine ⟨?_, ?_, ?_⟩
      · simpa using flow.requests
      · simpa [unsent, sending] using flow.responses
      · simpa [unsent, sending] using flow.updates
  | @published update rest sending =>
      refine ⟨?_, ?_, ?_⟩
      · simpa using flow.requests
      · simpa [unsent, sending] using flow.responses
      · simpa [unsent, sending] using flow.updates
  | @sent m heartbeat rest publisher shape =>
      refine ⟨?_, ?_, ?_⟩
      · rw [pushes_append, servedRequests_append, flow.requests]
        simp [pushes, servedRequests]
      · rw [servedResponses_append, handedOver_append, flow.responses]
        simp [servedResponses, handedOver, unsent]
      · rw [servedUpdates_append, sentUpdates_append, flow.updates, shape]
        simp [servedUpdates, sentUpdates, unsent]

end Flow

/-- Events of a step that serves nothing. -/
theorem served_nothing
    (silent : ∀ request responses updates,
      .served request responses updates ∉ events) :
    servedRequests events = [] ∧ servedResponses events = [] ∧
      servedUpdates events = [] := by
  refine ⟨List.filterMap_eq_nil_iff.mpr fun event member => ?_,
    List.flatMap_eq_nil_iff.mpr fun event member => ?_,
    List.flatMap_eq_nil_iff.mpr fun event member => ?_⟩
  all_goals
    cases event with
    | served request responses updates =>
        exact absurd member (silent request responses updates)
    | _ => rfl

/-! ## Terminal messages -/

/-- The messages that belong to a connection. -/
def messagesOf (id : Nat) (envelopes : List Envelope) : List Message :=
  envelopes.filterMap fun envelope =>
    if envelope.connection = id then some envelope.message else none

/-- The terminal ones. -/
def terminalsOf (id : Nat) (envelopes : List Envelope) : List Message :=
  (messagesOf id envelopes).filter Message.terminal

@[simp] theorem messagesOf_append (id : Nat) (first second : List Envelope) :
    messagesOf id (first ++ second) =
      messagesOf id first ++ messagesOf id second :=
  List.filterMap_append

@[simp] theorem terminalsOf_append (id : Nat) (first second : List Envelope) :
    terminalsOf id (first ++ second) =
      terminalsOf id first ++ terminalsOf id second := by
  rw [terminalsOf, messagesOf_append, List.filter_append]
  rfl

theorem terminalsOf_eq (id : Nat) (envelopes : List Envelope) :
    terminalsOf id envelopes =
      messagesOf id
        (envelopes.filter fun envelope => envelope.message.terminal) := by
  induction envelopes with
  | nil => rfl
  | cons first rest inductionHypothesis =>
      unfold terminalsOf messagesOf at *
      by_cases isOwn : first.connection = id
      · cases isTerminal : first.message.terminal with
        | true => simp [isOwn, isTerminal, inductionHypothesis]
        | false => simp [isOwn, isTerminal, inductionHypothesis]
      · cases isTerminal : first.message.terminal with
        | true => simp [isOwn, isTerminal, inductionHypothesis]
        | false => simp [isOwn, isTerminal, inductionHypothesis]

/-- The pushes of one connection. -/
theorem pushed_eq (history : List Event) (id : Nat) :
    pushed history id = messagesOf id (pushes history) := by
  unfold pushed messagesOf pushes
  rw [List.filterMap_filterMap]
  refine congrArg (List.filterMap · history) (funext fun event => ?_)
  cases event with
  | pushed request => rfl
  | _ => rfl

/-- Requests and terminal messages of a connection go together in order. -/
def Answering (history : List Event) : Prop :=
  ∀ id, List.Forall₂ Answers (messagesOf id (servedRequests history))
    (terminalsOf id (servedResponses history))

/-- The responses to one request. -/
theorem served_terminals
    {pool : PoolBytes} {exchange : Exchange} {served : Served}
    {request : Envelope}
    (reachable : MatchingEngine.Reachable pool exchange.engine)
    (serves : exchange.serve request.message = .ok served)
    (command : request.message.kind = .command) (id : Nat) :
    List.Forall₂ Answers (messagesOf id [request])
      (terminalsOf id (served.batch.reports.map (address request))) := by
  obtain ⟨⟨m, only, answers⟩, _⟩ :=
    Traffic.serve_concludes reachable serves command
  have toSender : address request m = ⟨request.connection, m⟩ := by
    refine if_pos ?_
    by_cases isSnapshot : request.message.action = .snapshot
    · exact Or.inl isSnapshot
    · rw [Answers, if_neg isSnapshot] at answers
      exact Or.inr answers.2.1
  have addressed : ∀ m, (address request m).message = m := by
    intro m
    unfold address
    split <;> rfl
  have terminals : (served.batch.reports.map (address request)).filter
      (fun envelope => envelope.message.terminal) =
      [⟨request.connection, m⟩] := by
    rw [List.filter_map, ← toSender]
    have same : (fun envelope : Envelope => envelope.message.terminal) ∘
        address request = Message.terminal :=
      funext fun m => congrArg Message.terminal (addressed m)
    rw [same, only]
    rfl
  rw [terminalsOf_eq, terminals]
  unfold messagesOf
  by_cases isOwn : request.connection = id
  · simpa [isOwn] using answers
  · simp [isOwn]

theorem Answering.moves
    {pool : PoolBytes} (answering : Answering history)
    (sessions : Sessions pool ⟨server, history⟩)
    (moves : Moves server next events) : Answering (history ++ events) := by
  intro id
  rw [servedRequests_append, servedResponses_append, messagesOf_append,
    terminalsOf_append]
  rcases moves.serves with
    ⟨_, silent⟩ | ⟨request, rest, served, shape, serves, _, rfl⟩
  · obtain ⟨noRequest, noResponse, _⟩ := served_nothing silent
    rw [noRequest, noResponse]
    simpa [messagesOf, terminalsOf] using answering id
  · have admissible := sessions.traffic.requests request
      (by rw [shape]; exact List.mem_cons_self)
    have latest := served_terminals sessions.reachable serves
      admissible.command id
    have responses : servedResponses [.served request
        (served.batch.reports.map (address request)) served.batch.updates] =
        served.batch.reports.map (address request) := by
      simp [servedResponses]
    rw [responses]
    exact List.rel_append (answering id) latest

/-- Where the requests of a connection are. -/
theorem Flow.outstanding
    (flow : Flow server history) (answering : Answering history) (id : Nat) :
    (pushed history id).length =
      (messagesOf id server.requests).length +
        (terminalsOf id (handedOver history)).length +
        (terminalsOf id server.responses).length +
        (terminalsOf id server.unsent.1).length := by
  have served := (answering id).length_eq
  rw [flow.responses, terminalsOf_append, terminalsOf_append,
    List.length_append, List.length_append] at served
  rw [pushed_eq, flow.requests, messagesOf_append, List.length_append, served]
  lia

end LimitOrderBook.Server
