import LimitOrderBook.ServerArrivals

namespace LimitOrderBook.Server

/-!
# Session isolation

A connection is bound to the first client it names and to no other.  While it is
open, that client's route leads to it, and another connection that names the
client is refused.  Requests and responses outlast connections, but they carry
the id of their connection, which is never given out again, or the client whose
route is looked up when the response is popped.
-/

variable {server next : Server} {history events : List Event}
  {id : Nat} {client : ClientId} {c : Connection}

/-! ## Bindings -/

/-- The client of an open connection, 0 while it is not bound. -/
def clientOf (server : Server) (id : Nat) : Option ClientId :=
  (server.connections.find? id).map Connection.client

/-- Connections, routes and the bindings of the past agree. -/
structure Bindings (server : Server) (history : List Event) : Prop where
  positive : 0 < server.nextConnection
  known : ∀ id client, server.clientOf id = some client →
    0 < id ∧ id < server.nextConnection
  routed : ∀ client id, server.routes.find? client = some id ↔
    client ≠ 0 ∧ server.clientOf id = some client
  bound : ∀ id client current, server.clientOf id = some current →
    (.bound id client ∈ history ↔ client ≠ 0 ∧ client = current)
  past : ∀ id client, .bound id client ∈ history →
    client ≠ 0 ∧ 0 < id ∧ id < server.nextConnection
  once : ∀ id client other, .bound id client ∈ history →
    .bound id other ∈ history → client = other

namespace Bindings

/-- Steps that bind nothing and open and close nothing. -/
theorem frame
    (bindings : Bindings server history)
    (clients : ∀ id, next.clientOf id = server.clientOf id)
    (routes : next.routes = server.routes)
    (nextConnection : next.nextConnection = server.nextConnection)
    (silent : ∀ id client, .bound id client ∉ events) :
    Bindings next (history ++ events) := by
  have same : ∀ id client, .bound id client ∈ history ++ events ↔
      .bound id client ∈ history := by
    intro id client
    simp [silent id client]
  refine ⟨?_, ?_, ?_, ?_, ?_, ?_⟩
  · rw [nextConnection]
    exact bindings.positive
  · intro id client
    rw [clients, nextConnection]
    exact bindings.known id client
  · intro client id
    rw [clients, routes]
    exact bindings.routed client id
  · intro id client current
    rw [clients, same]
    exact bindings.bound id client current
  · intro id client
    rw [same, nextConnection]
    exact bindings.past id client
  · intro id client other
    rw [same, same]
    exact bindings.once id client other

theorem accept
    (bindings : Bindings server history) :
    Bindings server.accept history := by
  unfold Server.accept
  split
  · exact bindings
  · have unknown : server.connections.find? server.nextConnection = none := by
      cases found : server.connections.find? server.nextConnection with
      | none => rfl
      | some c =>
          have inRange := bindings.known server.nextConnection c.client
            (by simp [clientOf, found])
          exact absurd inRange.2 (Nat.lt_irrefl _)
    have clients : ∀ id, clientOf
        { server with
          connections := server.connections.emplace server.nextConnection {}
          nextConnection := server.nextConnection + 1 } id =
        if id = server.nextConnection then some 0 else server.clientOf id := by
      intro id
      simp only [clientOf, OrderedMap.find?_emplace, unknown]
      split <;> rfl
    refine ⟨Nat.succ_pos _, ?_, ?_, ?_, ?_, bindings.once⟩
    · intro id client
      rw [clients]
      split
      · rename_i isNew
        intro _
        exact ⟨isNew ▸ bindings.positive, isNew ▸ Nat.lt_succ_self _⟩
      · intro isClient
        obtain ⟨positive, below⟩ := bindings.known id client isClient
        exact ⟨positive, Nat.lt_succ_of_lt below⟩
    · intro client id
      rw [clients, bindings.routed]
      refine and_congr_right fun nonzero => ?_
      split
      · rename_i isNew
        simp [isNew, clientOf, unknown, Ne.symm nonzero]
      · rfl
    · intro id client current
      rw [clients]
      split
      · rename_i isNew
        rintro ⟨⟩
        constructor
        · intro isBound
          have inRange := (bindings.past id client isBound).2.2
          rw [isNew] at inRange
          exact absurd inRange (Nat.lt_irrefl _)
        · rintro ⟨nonzero, rfl⟩
          exact absurd rfl nonzero
      · exact bindings.bound id client current
    · intro id client isBound
      obtain ⟨nonzero, positive, below⟩ := bindings.past id client isBound
      exact ⟨nonzero, positive, Nat.lt_succ_of_lt below⟩

/-- Binding an unbound connection to a client without a route. -/
theorem bind
    (bindings : Bindings server history) (unbound : server.clientOf id = some 0)
    (nonzero : client ≠ 0) (noRoute : server.routes.find? client = none)
    (clients : ∀ other, next.clientOf other =
      if other = id then some client else server.clientOf other)
    (routes : next.routes = server.routes.emplace client id)
    (nextConnection : next.nextConnection = server.nextConnection) :
    Bindings next (history ++ [.bound id client]) := by
  have neverBound : ∀ other, .bound id other ∉ history := by
    intro other isBound
    obtain ⟨otherNonzero, isZero⟩ := (bindings.bound id other 0 unbound).mp isBound
    exact otherNonzero isZero
  have inRange := bindings.known id 0 unbound
  refine ⟨?_, ?_, ?_, ?_, ?_, ?_⟩
  · rw [nextConnection]
    exact bindings.positive
  · intro other current
    rw [clients, nextConnection]
    split
    · rename_i isOwn
      exact fun _ => isOwn ▸ inRange
    · exact bindings.known other current
  · intro name other
    rw [clients, routes, OrderedMap.find?_emplace, noRoute]
    by_cases isClient : name = client
    · subst isClient
      rw [if_pos rfl]
      by_cases isOwn : other = id
      · simp [isOwn, nonzero]
      · have noOther : server.clientOf other ≠ some name := fun isName => by
          have routed := (bindings.routed name other).mpr ⟨nonzero, isName⟩
          rw [noRoute] at routed
          cases routed
        simp [isOwn, noOther, Ne.symm isOwn]
    · rw [if_neg isClient, bindings.routed]
      refine and_congr_right fun nameNonzero => ?_
      split
      · rename_i isOwn
        simp [isOwn, unbound, Ne.symm nameNonzero, Ne.symm isClient]
      · rfl
  · intro other name current
    rw [clients]
    split
    · rename_i isOwn
      rintro ⟨⟩
      subst isOwn
      simp only [List.mem_append, neverBound, List.mem_singleton, false_or,
        Event.bound.injEq, true_and]
      exact ⟨fun same => ⟨same ▸ nonzero, same⟩, fun same => same.2⟩
    · rename_i isOther
      simp only [List.mem_append, List.mem_singleton, Event.bound.injEq,
        isOther, false_and, or_false]
      exact bindings.bound other name current
  · intro other name isBound
    rw [nextConnection]
    rcases List.mem_append.mp isBound with before | isNew
    · exact bindings.past other name before
    · cases List.mem_singleton.mp isNew
      exact ⟨nonzero, inRange⟩
  · intro other first second isFirst isSecond
    rcases List.mem_append.mp isFirst with before | isNew
    · rcases List.mem_append.mp isSecond with alsoBefore | isNewToo
      · exact bindings.once other first second before alsoBefore
      · cases List.mem_singleton.mp isNewToo
        exact absurd before (neverBound first)
    · cases List.mem_singleton.mp isNew
      rcases List.mem_append.mp isSecond with alsoBefore | isNewToo
      · exact absurd alsoBefore (neverBound second)
      · cases List.mem_singleton.mp isNewToo
        rfl

theorem drop
    (bindings : Bindings server history) (id : Nat) :
    Bindings (server.drop id) history := by
  unfold Server.drop
  split
  · exact bindings
  · rename_i c found
    have current : server.clientOf id = some c.client := by
      simp [clientOf, found]
    have clients : ∀ other, clientOf
        { server with
          routes := server.routes.erase c.client
          connections := server.connections.erase id } other =
        if other = id then none else server.clientOf other := by
      intro other
      simp only [clientOf, OrderedMap.find?_erase]
      split <;> rfl
    refine ⟨bindings.positive, ?_, ?_, ?_, bindings.past, bindings.once⟩
    · intro other client
      rw [clients]
      split
      · exact fun isClient => by cases isClient
      · exact bindings.known other client
    · intro client other
      rw [clients, OrderedMap.find?_erase]
      by_cases isClient : client = c.client
      · rw [if_pos isClient]
        have noOther : other ≠ id → ¬ (client ≠ 0 ∧
            server.clientOf other = some client) := by
          intro isOther isBound
          have first := (bindings.routed client other).mpr isBound
          have second := (bindings.routed client id).mpr
            ⟨isBound.1, isClient ▸ current⟩
          rw [first] at second
          exact isOther (Option.some.inj second)
        by_cases isOwn : other = id
        · simp [isOwn]
        · simpa [isOwn] using noOther isOwn
      · rw [if_neg isClient, bindings.routed]
        refine and_congr_right fun _ => ?_
        split
        · rename_i isOwn
          simp [isOwn, current, Ne.symm isClient]
        · rfl
    · intro other client past
      rw [clients]
      split
      · exact fun isClient => by cases isClient
      · exact bindings.bound other client past

theorem drops (bindings : Bindings server history) (ids : List Nat) :
    Bindings (ids.foldl Server.drop server) history := by
  induction ids generalizing server with
  | nil => exact bindings
  | cons id rest inductionHypothesis =>
      exact inductionHypothesis (bindings.drop id)

theorem clientOf_settled (visit : Visit) (id other : Nat) :
    (visit.settled id).clientOf other =
      if other = id then some visit.connection.client
      else visit.server.clientOf other := by
  simp only [Visit.settled, clientOf, OrderedMap.find?_insert]
  split <;> rfl

/-- A part of a visit that binds nothing. -/
theorem visit
    {visit after : Visit} (bindings : Bindings (visit.settled id) history)
    (sameClient : after.connection.client = visit.connection.client)
    (connections : after.server.connections = visit.server.connections)
    (routes : after.server.routes = visit.server.routes)
    (nextConnection : after.server.nextConnection =
      visit.server.nextConnection)
    (silent : ∀ id client, .bound id client ∉ events) :
    Bindings (after.settled id) (history ++ events) := by
  refine bindings.frame ?_ routes nextConnection silent
  intro other
  rw [clientOf_settled, clientOf_settled, sameClient, clientOf, clientOf,
    connections]

theorem push
    {visit : Visit} {m : Message}
    (bindings : Bindings (visit.settled id) (history ++ visit.events)) :
    Bindings ((visit.push id m).settled id)
      (history ++ (visit.push id m).events) := by
  unfold Visit.push
  split
  · rw [← List.append_assoc]
    exact bindings.visit rfl rfl rfl rfl (by simp)
  · exact bindings

theorem feed
    {visit : Visit} (bindings : Bindings (visit.settled id)
      (history ++ visit.events))
    (fed : Fed visit.connection c) (dead malformed : Bool) :
    Bindings ((visit.feed id c dead malformed).settled id)
      (history ++ (visit.feed id c dead malformed).events) := by
  rw [Visit.feed, ← List.append_assoc]
  refine bindings.visit fed.client rfl rfl rfl ?_
  intro other client member
  obtain ⟨m, isArrival⟩ := mem_arrival member
  cases isArrival

/-- A connection that is visited. -/
theorem settled
    {visit : Visit} {revents : Revents} (bindings : Bindings server history)
    (found : server.connections.find? id = some c)
    (reads : Reads (server.enter c revents) id visit) :
    Bindings (visit.settled id) (history ++ visit.events) := by
  have entered : Bindings ((server.enter c revents).settled id)
      (history ++ (server.enter c revents).events) := by
    refine bindings.frame ?_ rfl rfl (by simp [enter])
    intro other
    rw [clientOf_settled]
    split
    · rename_i isOwn
      simp [isOwn, enter, clientOf, found, (c.flush_fields revents).2.1]
    · rfl
  cases reads with
  | skipped => exact entered
  | kept fed _ => exact entered.feed fed _ _
  | refused _ _ fed _ _ _ appends =>
      rw [← List.append_assoc]
      refine (entered.feed fed false false).visit
        (Connection.append_fields appends).2.1 rfl rfl rfl ?_
      intro other client member
      split at member
      · cases member
      · cases List.mem_singleton.mp member
  | admitted _ _ fed _ _ => exact (entered.feed fed false false).push
  | @bound d m _ _ fed _ noClient nonzero noRoute =>
      refine push ?_
      rw [Visit.bind, ← List.append_assoc]
      have before := entered.feed fed false false
      refine before.bind ?_ nonzero noRoute ?_ rfl rfl
      · rw [clientOf_settled, if_pos rfl]
        exact congrArg some noClient
      · intro other
        rw [clientOf_settled, clientOf_settled]
        split <;> rfl

/-- What every move keeps. -/
theorem moves
    (bindings : Bindings server history) (moves : Moves server next events) :
    Bindings next (history ++ events) := by
  have alike : SameSessions server next → ∀ id,
      next.clientOf id = server.clientOf id := by
    intro same id
    rw [clientOf, clientOf, same.connections]
  cases moves with
  | quiet sessions _ silent =>
      refine bindings.frame (alike sessions) sessions.routes
        sessions.nextConnection ?_
      intro id client member
      obtain ⟨m, isBeat⟩ := silent _ member
      cases isBeat
  | lost sessions _ _ _ _ _ =>
      exact bindings.frame (alike sessions) sessions.routes
        sessions.nextConnection (by simp)
  | accepted => simpa using bindings.accept
  | @visited id c visit revents found _ reads =>
      obtain ⟨doom, doomed, closes⟩ := visit.closes id revents
      rw [closes.server, closes.events, ← List.append_assoc]
      refine (bindings.settled found reads).frame (fun _ => rfl) rfl rfl ?_
      intro other client member
      split at member
      · cases List.mem_singleton.mp member
      · cases member
  | iterated =>
      exact (bindings.drops server.remove).frame (fun _ => rfl) rfl rfl
        (by simp)
  | handled _ _ handles =>
      cases handles with
      | dropped _ => exact bindings.frame (fun _ => rfl) rfl rfl (by simp)
      | failed _ => exact bindings.frame (fun _ => rfl) rfl rfl (by simp)
      | @appended id c d isRecipient appends =>
          refine bindings.frame ?_ rfl rfl ?_
          · intro other
            simp only [clientOf, OrderedMap.find?_insert]
            split
            · rename_i isOwn
              have found : server.connections.find? id = some c :=
                isRecipient.found
              simp [isOwn, found, (Connection.append_fields appends).2.1]
            · rfl
          · intro other client member
            rcases List.mem_append.mp member with isHanding | isAppend
            · cases List.mem_singleton.mp isHanding
            · split at isAppend
              · cases isAppend
              · cases List.mem_singleton.mp isAppend
  | served _ _ _ => exact bindings.frame (fun _ => rfl) rfl rfl (by simp)
  | responded _ => exact bindings.frame (fun _ => rfl) rfl rfl (by simp)
  | published _ => exact bindings.frame (fun _ => rfl) rfl rfl (by simp)
  | sent _ => exact bindings.frame (fun _ => rfl) rfl rfl (by simp)

end Bindings

/-! ## Traffic -/

/-- A request in the queue. -/
structure Admissible (opened : Nat) (history : List Event)
    (request : Envelope) : Prop where
  connection : 0 < request.connection ∧ request.connection < opened
  command : request.message.kind = .command
  named : request.message.action = .snapshot ∨
    .bound request.connection request.message.clientId ∈ history

/-- A report for the client of a connection or of a route, or a snapshot row. -/
structure Addressed (opened : Nat) (history : List Event)
    (response : Envelope) : Prop where
  connection : response.connection < opened
  private' : response.message.kind = .report ∧
      (response.connection = 0 ∨
        .bound response.connection response.message.clientId ∈ history) ∨
    MatchingEngine.Row response.message ∧ response.connection ≠ 0
  unsolicited : response.connection = 0 →
    response.message.terminal = false

/-- The frames a connection may get. -/
inductive Proper (history : List Event) (id : Nat) (m : Message) : Prop where
  | own :
      m.kind = .report →
      .bound id m.clientId ∈ history →
      Proper history id m
  | row :
      MatchingEngine.Row m →
      Proper history id m
  | refusal {epoch : Nat} {request : Message} :
      .received ⟨id, request⟩ ∈ history →
      m = busy epoch request →
      Proper history id m

/-- Everything on its way is on its way to the right place. -/
structure Traffic (server : Server) (history : List Event) : Prop where
  requests : ∀ request ∈ server.requests,
    Admissible server.nextConnection history request
  responses : ∀ response ∈ server.responses,
    Addressed server.nextConnection history response
  unsent : ∀ response ∈ server.unsent.1,
    Addressed server.nextConnection history response
  appended : ∀ id m, .appended id m ∈ history → Proper history id m

theorem Admissible.mono
    {opened later : Nat} {request : Envelope}
    (admissible : Admissible opened history request) (grown : opened ≤ later)
    (events : List Event) : Admissible later (history ++ events) request where
  connection :=
    ⟨admissible.connection.1, Nat.lt_of_lt_of_le admissible.connection.2 grown⟩
  command := admissible.command
  named := admissible.named.imp_right (List.mem_append_left events)

theorem Addressed.mono
    {opened later : Nat} {response : Envelope}
    (addressed : Addressed opened history response) (grown : opened ≤ later)
    (events : List Event) : Addressed later (history ++ events) response where
  connection := Nat.lt_of_lt_of_le addressed.connection grown
  private' := addressed.private'.imp_left fun isReport =>
    ⟨isReport.1, isReport.2.imp_right (List.mem_append_left events)⟩
  unsolicited := addressed.unsolicited

theorem Proper.mono
    {m : Message} (proper : Proper history id m) (events : List Event) :
    Proper (history ++ events) id m := by
  cases proper with
  | own kind bound => exact .own kind (List.mem_append_left events bound)
  | row isRow => exact .row isRow
  | refusal received isBusy =>
      exact .refusal (List.mem_append_left events received) isBusy

namespace Traffic

/-- Steps that add only what is on its way already. -/
theorem frame
    (traffic : Traffic server history)
    (requests : ∀ request ∈ next.requests, request ∈ server.requests ∨
      Admissible next.nextConnection (history ++ events) request)
    (responses : ∀ response ∈ next.responses,
      response ∈ server.responses ∨ response ∈ server.unsent.1)
    (unsent : ∀ response ∈ next.unsent.1, response ∈ server.unsent.1 ∨
      Addressed next.nextConnection (history ++ events) response)
    (grown : server.nextConnection ≤ next.nextConnection)
    (appended : ∀ id m, .appended id m ∈ events →
      Proper (history ++ events) id m) :
    Traffic next (history ++ events) where
  requests request member := by
    rcases requests request member with before | isNew
    · exact (traffic.requests request before).mono grown events
    · exact isNew
  responses response member := by
    rcases responses response member with before | isNew
    · exact (traffic.responses response before).mono grown events
    · exact (traffic.unsent response isNew).mono grown events
  unsent response member := by
    rcases unsent response member with before | isNew
    · exact (traffic.unsent response before).mono grown events
    · exact isNew
  appended id m member := by
    rcases List.mem_append.mp member with before | isNew
    · exact (traffic.appended id m before).mono events
    · exact appended id m isNew

/-- Steps that put nothing new on its way. -/
theorem quiet
    (traffic : Traffic server history)
    (requests : next.requests ⊆ server.requests)
    (responses : next.responses ⊆ server.responses)
    (unsent : next.unsent.1 ⊆ server.unsent.1)
    (grown : server.nextConnection ≤ next.nextConnection)
    (silent : ∀ id m, .appended id m ∉ events) :
    Traffic next (history ++ events) :=
  traffic.frame (fun _ member => Or.inl (requests member))
    (fun _ member => Or.inl (responses member))
    (fun _ member => Or.inl (unsent member)) grown
    (fun id m member => absurd member (silent id m))

/-- A part of a visit that admits nothing. -/
theorem visit
    {visit : Visit} (traffic : Traffic server history)
    (requests : visit.server.requests = server.requests)
    (responses : visit.server.responses = server.responses)
    (engine : visit.server.engine = server.engine)
    (nextConnection : visit.server.nextConnection = server.nextConnection)
    (appended : ∀ other m, .appended other m ∈ visit.events →
      Proper (history ++ visit.events) other m) :
    Traffic (visit.settled id) (history ++ visit.events) := by
  refine traffic.frame ?_ ?_ ?_ (Nat.le_of_eq nextConnection.symm) appended
  · intro request member
    exact Or.inl (requests ▸ member)
  · intro response member
    exact Or.inl (responses ▸ member)
  · intro response member
    have same : (visit.settled id).unsent = server.unsent := by
      unfold Server.unsent Visit.settled
      rw [engine]
    exact Or.inl (same ▸ member)

/-- A request that is admitted. -/
theorem push
    {visit : Visit} {m : Message}
    (traffic : Traffic (visit.settled id) (history ++ visit.events))
    (admissible : Admissible visit.server.nextConnection
      (history ++ visit.events) ⟨id, m⟩) :
    Traffic ((visit.push id m).settled id)
      (history ++ (visit.push id m).events) := by
  rcases visit.push_cases id m with ⟨requests, events, _⟩ | same
  · have server := visit.push_server id m
    rw [events, ← List.append_assoc]
    have nextConnection : (visit.push id m).server.nextConnection =
        visit.server.nextConnection := by
      rw [server]
    refine traffic.frame ?_ ?_ ?_ (Nat.le_of_eq nextConnection.symm)
      (by simp)
    · intro request member
      have queued : request ∈ visit.server.requests ++ [⟨id, m⟩] :=
        requests ▸ member
      rcases List.mem_append.mp queued with before | isNew
      · exact Or.inl before
      · rw [List.mem_singleton.mp isNew]
        exact Or.inr (admissible.mono (Nat.le_of_eq nextConnection.symm) _)
    · intro response member
      have same : (visit.push id m).server.responses =
          visit.server.responses := by rw [server]
      exact Or.inl (same ▸ member)
    · intro response member
      have same : ((visit.push id m).settled id).unsent =
          (visit.settled id).unsent := by
        unfold Server.unsent Visit.settled
        rw [server]
      exact Or.inl (same ▸ member)
  · rw [same]
    exact traffic

/-- A connection that is visited. -/
theorem settled
    {visit : Visit} {revents : Revents} (traffic : Traffic server history)
    (bindings : Bindings server history)
    (arrived : visit.Arrived id history)
    (found : server.connections.find? id = some c)
    (reads : Reads (server.enter c revents) id visit) :
    Traffic (visit.settled id) (history ++ visit.events) := by
  have client : server.clientOf id = some c.client := by
    simp [clientOf, found]
  have inRange := bindings.known id c.client client
  have arrives : ∀ {d : Connection} {other : Nat} {m : Message},
      .appended other m ∉ arrival id (server.enter c revents).connection d := by
    intro d other m member
    obtain ⟨request, isArrival⟩ := mem_arrival member
    cases isArrival
  have fedTraffic : ∀ (d : Connection) (dead malformed : Bool),
      Traffic (((server.enter c revents).feed id d dead malformed).settled id)
        (history ++
          ((server.enter c revents).feed id d dead malformed).events) := by
    intro d dead malformed
    refine traffic.visit rfl rfl rfl rfl ?_
    intro other m member
    exact absurd member arrives
  cases reads with
  | skipped => exact traffic.visit rfl rfl rfl rfl (by simp [enter])
  | kept _ _ => exact fedTraffic _ _ _
  | @refused d appended m _ _ fed valid _ _ appends =>
      refine traffic.visit rfl rfl rfl rfl ?_
      intro other sent member
      rcases List.mem_append.mp member with isArrival | isAppend
      · exact absurd isArrival arrives
      · split at isAppend
        · cases isAppend
        · cases List.mem_singleton.mp isAppend
          refine .refusal (mem_received.mp ?_) rfl
          rw [arrived.own]
          refine List.mem_append_right _ ?_
          have waiting : Connection.pending { appended with closing := true } =
              d.pending :=
            Connection.pending_congr (Connection.append_fields appends).1
          rw [waiting, valid.pending]
          exact List.mem_singleton_self m
  | @admitted d m _ _ fed valid own =>
      refine (fedTraffic d false false).push ⟨inRange, valid.command, ?_⟩
      rcases own with isSnapshot | ⟨isOwn, nonzero⟩
      · exact Or.inl isSnapshot
      · right
        have current : d.client = c.client := by
          rw [fed.client]
          exact (c.flush_fields revents).2.1
        refine List.mem_append_left _
          ((bindings.bound id m.clientId c.client client).mpr ?_)
        exact ⟨isOwn ▸ nonzero, isOwn.trans current⟩
  | @bound d m _ _ fed valid _ _ _ =>
      refine push ?_ ⟨inRange, valid.command, Or.inr ?_⟩
      · refine traffic.visit rfl rfl rfl rfl ?_
        intro other sent member
        rcases List.mem_append.mp member with isArrival | isBinding
        · exact absurd isArrival arrives
        · cases List.mem_singleton.mp isBinding
      · exact List.mem_append_right _
          (List.mem_append_right _ (List.mem_singleton_self _))

/-- A response that is appended to a connection. -/
theorem proper
    {response : Envelope} (bindings : Bindings server history)
    (addressed : Addressed server.nextConnection history response)
    (isRecipient : Recipient server response id c) :
    Proper history id response.message := by
  rcases addressed.private' with ⟨kind, unrouted | bound⟩ | ⟨isRow, _⟩
  · rcases isRecipient.target with ⟨direct, nonzero⟩ | ⟨_, routed⟩
    · exact absurd (direct.symm.trans unrouted) nonzero
    · obtain ⟨nonzero, current⟩ := (bindings.routed _ id).mp routed
      exact .own kind
        ((bindings.bound id _ _ current).mpr ⟨nonzero, rfl⟩)
  · rcases isRecipient.target with ⟨direct, _⟩ | ⟨unrouted, _⟩
    · exact .own kind (direct ▸ bound)
    · exact absurd unrouted
        (Nat.ne_of_gt (bindings.past _ _ bound).2.1)
  · exact .row isRow

/-- What an exchange answers to a command. -/
theorem serve_concludes
    {pool : PoolBytes} {exchange : Exchange} {served : Served} {m : Message}
    (reachable : MatchingEngine.Reachable pool exchange.engine)
    (serves : exchange.serve m = .ok served) (command : m.kind = .command) :
    Concludes m served.batch.reports ∧
      ∀ report ∈ served.batch.reports,
        m.action = .snapshot ∧ MatchingEngine.Row report ∨
          m.action ≠ .snapshot ∧ report.kind = .report := by
  unfold Exchange.serve at serves
  split at serves
  · rename_i isSnapshot
    cases serves
    exact ⟨MatchingEngine.snapshot_concludes _ isSnapshot, fun report member =>
      Or.inl ⟨isSnapshot, MatchingEngine.snapshot_row _ member⟩⟩
  · rename_i notSnapshot
    cases processed : exchange.engine.process m with
    | error fault =>
        rw [processed] at serves
        cases serves
    | ok turn =>
        rw [processed] at serves
        cases serves
        have outcome := (reachable.outcome_of processed).1
        exact ⟨outcome.concludes reachable.cachesAnswers command notSnapshot,
          fun report member => Or.inr ⟨notSnapshot,
            outcome.reports_kind reachable.cachesReports report member⟩⟩

/-- The answer to an admitted request. -/
theorem served_addressed
    {pool : PoolBytes} {exchange : Exchange} {served : Served}
    {request response : Envelope} {opened : Nat}
    (reachable : MatchingEngine.Reachable pool exchange.engine)
    (serves : exchange.serve request.message = .ok served)
    (admissible : Admissible opened history request)
    (member : response ∈ served.batch.reports.map (address request)) :
    Addressed opened history response := by
  obtain ⟨m, reported, rfl⟩ := List.mem_map.mp member
  obtain ⟨positive, below⟩ := admissible.connection
  obtain ⟨concludes, kinds⟩ :=
    serve_concludes reachable serves admissible.command
  unfold address
  split
  · rename_i isOwn
    refine ⟨below, ?_, fun isZero => absurd isZero (Nat.ne_of_gt positive)⟩
    rcases kinds m reported with ⟨_, isRow⟩ | ⟨notSnapshot, kind⟩
    · exact Or.inr ⟨isRow, Nat.ne_of_gt positive⟩
    · have own := isOwn.resolve_left notSnapshot
      refine Or.inl ⟨kind, Or.inr ?_⟩
      simp only [own]
      exact admissible.named.resolve_left notSnapshot
  · rename_i isForeign
    have notSnapshot : request.message.action ≠ .snapshot := fun isSnapshot =>
      isForeign (Or.inl isSnapshot)
    have kind : m.kind = .report := by
      rcases kinds m reported with ⟨isSnapshot, _⟩ | ⟨_, kind⟩
      · exact absurd isSnapshot notSnapshot
      · exact kind
    refine ⟨Nat.lt_trans positive below, Or.inl ⟨kind, Or.inl rfl⟩, ?_⟩
    intro _
    -- the only terminal message goes to the sender
    obtain ⟨last, only, answers⟩ := concludes
    refine Bool.eq_false_iff.mpr fun isTerminal => isForeign (Or.inr ?_)
    have isLast : m ∈ served.batch.reports.filter Message.terminal :=
      List.mem_filter.mpr ⟨reported, isTerminal⟩
    rw [only] at isLast
    rw [Answers, if_neg notSnapshot, ← List.mem_singleton.mp isLast] at answers
    exact answers.2.1

end Traffic

/-! ## Whole runs -/

/-- Everything that keeps the sessions of a server apart. -/
structure Sessions (pool : PoolBytes) (recorded : Recorded) : Prop where
  reachable : MatchingEngine.Reachable pool recorded.server.exchange.engine
  arrivals : Arrivals recorded
  bindings : Bindings recorded.server recorded.history
  traffic : Traffic recorded.server recorded.history

variable {pool : PoolBytes}

/-- Only serving a request changes the exchange. -/
theorem Moves.serves
    (moves : Moves server next events) :
    (next.exchange = server.exchange ∧
        ∀ request responses updates,
          .served request responses updates ∉ events) ∨
      ∃ request rest served,
        server.requests = request :: rest ∧
          server.exchange.serve request.message = .ok served ∧
          next.exchange = served.exchange ∧
          events = [.served request
            (served.batch.reports.map (address request))
            served.batch.updates] := by
  cases moves with
  | quiet _ queues silent =>
      refine Or.inl ⟨queues.exchange, ?_⟩
      intro request responses updates member
      obtain ⟨m, isBeat⟩ := silent _ member
      cases isBeat
  | lost _ _ exchange _ _ _ => exact Or.inl ⟨exchange, by simp⟩
  | accepted =>
      rw [accept_server]
      exact Or.inl ⟨rfl, by simp⟩
  | @visited id c visit revents _ _ reads =>
      obtain ⟨doom, doomed, closes⟩ := visit.closes id revents
      refine Or.inl ⟨?_, ?_⟩
      · rw [close_server reads]
      · intro request responses updates member
        rw [closes.events] at member
        rcases List.mem_append.mp member with isVisit | isEnd
        · cases reads.mem_events isVisit
        · split at isEnd
          · cases List.mem_singleton.mp isEnd
          · cases isEnd
  | iterated =>
      rw [endIteration_server]
      exact Or.inl ⟨rfl, by simp⟩
  | handled _ _ handles =>
      refine Or.inl ⟨?_, ?_⟩
      · rw [handles.server]
      · intro request responses updates member
        cases handles with
        | dropped _ => cases List.mem_singleton.mp member
        | failed _ => cases List.mem_singleton.mp member
        | appended _ _ =>
            rcases List.mem_append.mp member with isHanding | isAppend
            · cases List.mem_singleton.mp isHanding
            · split at isAppend
              · cases isAppend
              · cases List.mem_singleton.mp isAppend
  | served shape _ serves =>
      exact Or.inr ⟨_, _, _, shape, serves, rfl, rfl⟩
  | responded _ => exact Or.inl ⟨rfl, by simp⟩
  | published _ => exact Or.inl ⟨rfl, by simp⟩
  | sent _ => exact Or.inl ⟨rfl, by simp⟩

theorem moves_reachable
    (reachable : MatchingEngine.Reachable pool server.exchange.engine)
    (moves : Moves server next events) :
    MatchingEngine.Reachable pool next.exchange.engine := by
  rcases moves.serves with ⟨same, _⟩ | ⟨_, _, served, _, serves, after, _⟩
  · rw [same]
    exact reachable
  · obtain ⟨result, serves', stillReachable⟩ :=
      Exchange.serve_ok reachable _
    rw [serves] at serves'
    cases serves'
    rw [after]
    exact stillReachable

/-- What every move keeps. -/
theorem Sessions.moves
    (sessions : Sessions pool ⟨server, history⟩)
    (moves : Moves server next events) :
    Sessions pool ⟨next, history ++ events⟩ := by
  obtain ⟨reachable, arrivals, bindings, traffic⟩ := sessions
  refine ⟨moves_reachable reachable moves, arrivals.moves moves,
    bindings.moves moves, ?_⟩
  cases moves with
  | quiet same queues silent =>
      refine traffic.quiet ?_ ?_ ?_ (Nat.le_of_eq same.nextConnection.symm) ?_
      · rw [queues.requests]
        exact List.Subset.refl _
      · rw [queues.responses]
        exact List.Subset.refl _
      · rw [queues.unsent]
        exact List.Subset.refl _
      · intro id m member
        obtain ⟨beat, isBeat⟩ := silent _ member
        cases isBeat
  | lost same _ _ requests responses unsent =>
      refine traffic.quiet requests ?_ unsent
        (Nat.le_of_eq same.nextConnection.symm) (by simp)
      rw [responses]
      exact List.Subset.refl _
  | accepted =>
      have grown : server.nextConnection ≤ server.accept.nextConnection := by
        unfold Server.accept
        split
        · exact Nat.le_refl _
        · exact Nat.le_succ _
      rw [accept_server]
      exact traffic.quiet (List.Subset.refl _) (List.Subset.refl _)
        (List.Subset.refl _) grown (by simp)
  | @visited id c visit revents found kept reads =>
      obtain ⟨doom, doomed, closes⟩ := visit.closes id revents
      rw [closes.server, closes.events, ← List.append_assoc]
      refine (traffic.settled bindings (arrivals.arrived found kept reads)
        found reads).quiet (List.Subset.refl _) (List.Subset.refl _)
        (List.Subset.refl _) (Nat.le_refl _) ?_
      intro other m member
      split at member
      · cases List.mem_singleton.mp member
      · cases member
  | iterated =>
      rw [endIteration_server]
      exact traffic.quiet (List.Subset.refl _) (List.Subset.refl _)
        (List.Subset.refl _) (Nat.le_refl _) (by simp)
  | @handled response rest io next events shape _ handles =>
      have addressed : Addressed server.nextConnection history response :=
        traffic.responses response (by rw [shape]; exact List.mem_cons_self)
      have proper : ∀ {id c}, Recipient
          { server with responses := rest, io := io } response id c →
          Proper history id response.message := fun isRecipient =>
        Traffic.proper bindings addressed
          (⟨isRecipient.found, isRecipient.takes, isRecipient.target⟩ :
            Recipient server response _ _)
      have rests : rest ⊆ server.responses := by
        rw [shape]
        exact List.subset_cons_self response rest
      cases handles with
      | dropped _ =>
          exact traffic.quiet (List.Subset.refl _) rests (List.Subset.refl _)
            (Nat.le_refl _) (by simp)
      | failed _ =>
          exact traffic.quiet (List.Subset.refl _) rests (List.Subset.refl _)
            (Nat.le_refl _) (by simp)
      | appended isRecipient _ =>
          refine traffic.frame (fun _ member => Or.inl member)
            (fun _ member => Or.inl (rests member))
            (fun _ member => Or.inl member) (Nat.le_refl _) ?_
          intro other m member
          rcases List.mem_append.mp member with isHanding | isAppend
          · cases List.mem_singleton.mp isHanding
          · split at isAppend
            · cases isAppend
            · cases List.mem_singleton.mp isAppend
              exact (proper isRecipient).mono _
  | @served request rest served shape _ serves =>
      refine traffic.frame ?_ (fun _ member => Or.inl member) ?_
        (Nat.le_refl _) (by simp)
      · intro other member
        exact Or.inl (shape ▸ List.mem_cons_of_mem request member)
      · intro response member
        exact Or.inr ((Traffic.served_addressed reachable serves
          (traffic.requests request (shape ▸ List.mem_cons_self)) member).mono
          (Nat.le_refl _) _)
  | @responded response rest updates sending =>
      refine traffic.frame (fun _ member => Or.inl member) ?_ ?_
        (Nat.le_refl _) (by simp)
      · intro other member
        rcases List.mem_append.mp member with before | isNew
        · exact Or.inl before
        · right
          rw [List.mem_singleton.mp isNew]
          simp [unsent, sending]
      · intro other member
        left
        have inRest : other ∈ rest := member
        simp [unsent, sending, inRest]
  | @published update rest sending =>
      refine traffic.quiet (List.Subset.refl _) (List.Subset.refl _) ?_
        (Nat.le_refl _) (by simp)
      exact List.nil_subset _
  | sent _ =>
      exact traffic.quiet (List.Subset.refl _) (List.Subset.refl _)
        (List.Subset.refl _) (Nat.le_refl _) (by simp)

/-- The sessions of every run. -/
theorem run_sessions
    {exchange : Exchange}
    (reachable : MatchingEngine.Reachable pool exchange.engine)
    (schedule : List Action) :
    Sessions pool ((start exchange).run schedule) := by
  refine run_holds ⟨reachable, run_arrivals exchange [], ?_, ?_⟩
    (fun _ _ _ sessions moves => sessions.moves moves) schedule
  · refine ⟨Nat.one_pos, ?_, ?_, ?_, ?_, ?_⟩
    · intro id client found
      cases found
    · intro client id
      exact ⟨fun found => (by cases found), fun bound => (by cases bound.2)⟩
    · intro id client current found
      cases found
    · intro id client bound
      cases bound
    · intro id client other bound
      cases bound
  · refine ⟨?_, ?_, ?_, ?_⟩
    · intro request member
      cases member
    · intro response member
      cases member
    · intro response member
      cases member
    · intro id m member
      cases member

/--
Session isolation.  After any schedule of the threads, a client is bound to at
most one open connection, its route leads to that connection and to no other,
and a connection that is bound stays bound to the same client for as long as it
is open.  A frame that was ever appended to a connection is a report for the
client the connection is bound to, a row of a snapshot, or the refusal of a
frame that the connection sent itself.
-/
theorem sessions_isolated
    {exchange : Exchange}
    (reachable : MatchingEngine.Reachable pool exchange.engine)
    (schedule later : List Action) :
    let recorded := (start exchange).run schedule
    let afterwards := (start exchange).run (schedule ++ later)
    (∀ first second c d, recorded.server.connections.find? first = some c →
        recorded.server.connections.find? second = some d →
        c.client = d.client → c.client ≠ 0 → first = second) ∧
      (∀ client id, recorded.server.routes.find? client = some id ↔
        client ≠ 0 ∧ ∃ c, recorded.server.connections.find? id = some c ∧
          c.client = client) ∧
      (∀ id c d, recorded.server.connections.find? id = some c →
        c.client ≠ 0 →
        afterwards.server.connections.find? id = some d →
        d.client = c.client) ∧
      (∀ id c client, recorded.server.connections.find? id = some c →
        (.bound id client ∈ recorded.history ↔
          client ≠ 0 ∧ client = c.client)) ∧
      (∀ id client other, .bound id client ∈ recorded.history →
        .bound id other ∈ recorded.history → client = other) ∧
      ∀ id m, .appended id m ∈ recorded.history →
        (m.kind = .report ∧ .bound id m.clientId ∈ recorded.history) ∨
          MatchingEngine.Row m ∨
          ∃ epoch request, .received ⟨id, request⟩ ∈ recorded.history ∧
            m = busy epoch request := by
  intro recorded afterwards
  have sessions : Sessions pool recorded := run_sessions reachable schedule
  have sessionsAfter : Sessions pool afterwards :=
    run_sessions reachable (schedule ++ later)
  have bindings := sessions.bindings
  have bound : ∀ {id c}, recorded.server.connections.find? id = some c →
      recorded.server.clientOf id = some c.client := fun found => by
    simp [clientOf, found]
  refine ⟨?_, ?_, ?_, ?_, bindings.once, ?_⟩
  · intro first second c d isFirst isSecond same nonzero
    have toFirst := (bindings.routed c.client first).mpr ⟨nonzero, bound isFirst⟩
    have toSecond := (bindings.routed c.client second).mpr
      ⟨nonzero, same ▸ bound isSecond⟩
    rw [toFirst] at toSecond
    exact Option.some.inj toSecond
  · intro client id
    rw [bindings.routed]
    simp [clientOf]
  · intro id c d before nonzero after
    have wasBound : .bound id c.client ∈ recorded.history :=
      (bindings.bound id c.client c.client (bound before)).mpr ⟨nonzero, rfl⟩
    have stillBound : .bound id c.client ∈ afterwards.history :=
      (run_history (start exchange) schedule later).subset wasBound
    have current : afterwards.server.clientOf id = some d.client := by
      simp [clientOf, after]
    exact ((sessionsAfter.bindings.bound id c.client d.client current).mp
      stillBound).2.symm
  · intro id c client found
    exact bindings.bound id client c.client (bound found)
  · intro id m appended
    cases sessions.traffic.appended id m appended with
    | own kind bound => exact Or.inl ⟨kind, bound⟩
    | row isRow => exact Or.inr (Or.inl isRow)
    | refusal received isBusy => exact Or.inr (Or.inr ⟨_, _, received, isBusy⟩)

/-- A visit that finds the bytes of a message. -/
def delivery (id : Nat) (m : Message) : Action :=
  .visit id
    { readable := true
      receives :=
        match (frameOf m).toList with
        | first :: rest => .data first rest
        | [] => .again }

/-- The steps from the top of the I/O loop to `poll` without responses. -/
def toPoll : List Action :=
  [.io false, .io false, .io false, .io false]

/-- Two connections name the same client. -/
def sameClientTwice : List Action :=
  toPoll ++ [.accept, .accept] ++
    [delivery 1
      { clientId := 7, requestId := 1, orderId := 1, instrumentId := 1
        price := 10, quantity := 5 },
     delivery 2
      { clientId := 7, requestId := 1, orderId := 1, instrumentId := 1
        price := 10, quantity := 5 }]

/-- The first connection is bound to the client, the second one is refused. -/
theorem sessions_isolated_same_client :
    (∃ c, ((start ⟨MatchingEngine.single, []⟩).run
        sameClientTwice).server.connections.find? 1 = some c ∧
        c.client = 7) ∧
      ∀ client, .bound 2 client ∉
        ((start ⟨MatchingEngine.single, []⟩).run sameClientTwice).history := by
  obtain ⟨_, routed, _, bound, _, _⟩ := @sessions_isolated .capacity
    ⟨MatchingEngine.single, []⟩ MatchingEngine.single_reachable
    sameClientTwice []
  have route : ((start ⟨MatchingEngine.single, []⟩).run
      sameClientTwice).server.routes.find? 7 = some 1 := by
    decide +kernel
  have second : (((start ⟨MatchingEngine.single, []⟩).run
      sameClientTwice).server.connections.find? 2).map Connection.client =
        some 0 := by
    decide +kernel
  refine ⟨((routed 7 1).mp route).2, ?_⟩
  intro client isBound
  obtain ⟨c, found, unbound⟩ := Option.map_eq_some_iff.mp second
  obtain ⟨nonzero, isCurrent⟩ := (bound 2 c client found).mp isBound
  exact nonzero (isCurrent.trans unbound)

end LimitOrderBook.Server
