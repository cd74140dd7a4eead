import LimitOrderBook.ServerSteps

namespace LimitOrderBook.Server

/-!
# Frames in, requests out

A complete frame stays with its connection until it is pushed.  So the requests
a connection pushed are the frames it received, in the order of arrival and
without the last one while that one waits for room in the queue.
-/

/-- The frame a connection received. -/
def Event.receivedFrom (id : Nat) : Event → Option Message
  | .received request =>
      if request.connection = id then some request.message else none
  | _ => none

/-- The request a connection pushed. -/
def Event.pushedFrom (id : Nat) : Event → Option Message
  | .pushed request =>
      if request.connection = id then some request.message else none
  | _ => none

/-- The valid frames of a connection in the order of arrival. -/
def received (history : List Event) (id : Nat) : List Message :=
  history.filterMap (Event.receivedFrom id)

/-- The requests of a connection in the order of their pushes. -/
def pushed (history : List Event) (id : Nat) : List Message :=
  history.filterMap (Event.pushedFrom id)

variable {history events : List Event} {id other : Nat}

@[simp] theorem received_append :
    received (history ++ events) id =
      received history id ++ received events id :=
  List.filterMap_append

@[simp] theorem pushed_append :
    pushed (history ++ events) id = pushed history id ++ pushed events id :=
  List.filterMap_append

/-- Events that are not about frames and requests. -/
theorem received_eq_nil
    (silent : ∀ event ∈ events, event.receivedFrom id = none) :
    received events id = [] :=
  List.filterMap_eq_nil_iff.mpr silent

theorem pushed_eq_nil
    (silent : ∀ event ∈ events, event.pushedFrom id = none) :
    pushed events id = [] :=
  List.filterMap_eq_nil_iff.mpr silent

theorem mem_received {m : Message} :
    m ∈ received history id ↔ .received ⟨id, m⟩ ∈ history := by
  constructor
  · intro member
    obtain ⟨event, inHistory, extracted⟩ := List.mem_filterMap.mp member
    cases event with
    | received request =>
        simp only [Event.receivedFrom, Option.ite_none_right_eq_some,
          Option.some.injEq] at extracted
        obtain ⟨rfl, rfl⟩ := extracted
        exact inHistory
    | _ => cases extracted
  · intro inHistory
    exact List.mem_filterMap.mpr ⟨_, inHistory, by simp [Event.receivedFrom]⟩

/-! ## The frame of a connection -/

theorem Connection.pending_congr
    {c d : Connection} (same : d.input = c.input) : d.pending = c.pending := by
  unfold Connection.pending Connection.frame?
  simp only [same]

theorem Connection.pending_of_ne
    {c : Connection} (incomplete : c.input.length ≠ frameSize) :
    c.pending = [] := by
  simp [Connection.pending, Connection.frame?, incomplete]

theorem Connection.pending_length (c : Connection) : c.pending.length ≤ 1 := by
  unfold Connection.pending
  cases c.frame?.bind decode with
  | none => exact Nat.zero_le 1
  | some m => exact Nat.le_refl 1

theorem Connection.append_fields
    {c appended : Connection} {m : Message}
    (appends : c.append m = .ok appended) :
    appended.input = c.input ∧ appended.client = c.client ∧
      appended.readClosed = c.readClosed := by
  unfold Connection.append at appends
  split at appends
  · cases appends
    exact ⟨rfl, rfl, rfl⟩
  · split at appends
    · cases appends
    · cases appends
      exact ⟨rfl, rfl, rfl⟩

theorem Connection.flush_fields (c : Connection) (revents : Revents) :
    (c.flush revents).1.input = c.input ∧
      (c.flush revents).1.client = c.client ∧
      (c.flush revents).1.closing = c.closing ∧
      (c.flush revents).1.readClosed = c.readClosed ∧
      (c.flush revents).1.admitted = c.admitted := by
  unfold Connection.flush
  split
  · exact ⟨rfl, rfl, rfl, rfl, rfl⟩
  · exact ⟨rfl, rfl, rfl, rfl, rfl⟩

/-- A frame that becomes complete is received. -/
theorem arrival_pending
    (id : Nat) {before after : Connection} (fed : Fed before after) :
    before.pending ++ received (arrival id before after) id =
      after.pending := by
  unfold arrival
  split
  · rename_i short
    rw [Connection.pending_of_ne (Nat.ne_of_lt short), List.nil_append,
      Connection.pending]
    cases after.frame?.bind decode with
    | none => rfl
    | some m => simp [received, Event.receivedFrom]
  · rename_i complete
    rw [Connection.pending_congr (fed.input.resolve_right complete)]
    simp [received]

/-- An arrival is an event of its connection alone. -/
theorem mem_arrival
    {before after : Connection} {event : Event}
    (member : event ∈ arrival id before after) :
    ∃ m, event = .received ⟨id, m⟩ := by
  unfold arrival at member
  split at member
  · split at member
    · rename_i m _
      exact ⟨m, List.mem_singleton.mp member⟩
    · cases member
  · cases member

/-- The events of a visit. -/
inductive VisitEvent (server : Server) (id : Nat) : Event → Prop where
  | received (m : Message) : VisitEvent server id (.received ⟨id, m⟩)
  | bound (client : ClientId) : VisitEvent server id (.bound id client)
  | pushed (m : Message) : VisitEvent server id (.pushed ⟨id, m⟩)
  | refused (m : Message) :
      VisitEvent server id
        (.appended id (busy server.exchange.engine.epoch m))

theorem Reads.mem_events
    {server : Server} {c : Connection} {revents : Revents} {visit : Visit}
    (reads : Reads (server.enter c revents) id visit) {event : Event}
    (member : event ∈ visit.events) : VisitEvent server id event := by
  have arrives : ∀ {d}, event ∈ arrival id
      (server.enter c revents).connection d → VisitEvent server id event := by
    intro d isArrival
    obtain ⟨m, rfl⟩ := mem_arrival isArrival
    exact .received m
  have pushes : ∀ {entered : Visit} {m : Message},
      event ∈ (entered.push id m).events →
        event ∈ entered.events ∨ event = .pushed ⟨id, m⟩ := by
    intro entered m isEvent
    rcases entered.push_cases id m with ⟨_, recorded, _⟩ | same
    · rw [recorded] at isEvent
      simpa using isEvent
    · rw [same] at isEvent
      exact Or.inl isEvent
  cases reads with
  | skipped => cases member
  | kept _ _ => exact arrives member
  | refused _ _ _ _ _ _ _ =>
      rcases List.mem_append.mp member with isArrival | isAppend
      · exact arrives isArrival
      · split at isAppend
        · cases isAppend
        · rw [List.mem_singleton.mp isAppend]
          exact .refused _
  | admitted _ _ _ _ _ =>
      rcases pushes member with isArrival | isPush
      · exact arrives isArrival
      · rw [isPush]
        exact .pushed _
  | bound _ _ _ _ _ _ _ =>
      rcases pushes member with before | isPush
      · rcases List.mem_append.mp before with isArrival | isBinding
        · exact arrives isArrival
        · rw [List.mem_singleton.mp isBinding]
          exact .bound _
      · rw [isPush]
        exact .pushed _

/-! ## Arrivals -/

/-- A visit in which every frame received is pushed or still with the connection. -/
structure Visit.Arrived (visit : Visit) (id : Nat) (history : List Event) :
    Prop where
  own : received (history ++ visit.events) id =
    pushed (history ++ visit.events) id ++ visit.connection.pending
  others : ∀ other, other ≠ id → received visit.events other = [] ∧
    pushed visit.events other = []

namespace Visit.Arrived

variable {visit : Visit} {c : Connection} {m : Message}

theorem feed
    (arrived : visit.Arrived id history) (fed : Fed visit.connection c)
    (dead malformed : Bool) :
    (visit.feed id c dead malformed).Arrived id history where
  own := by
    have noPush : pushed (arrival id visit.connection c) id = [] :=
      pushed_eq_nil fun event member => by
        obtain ⟨m, rfl⟩ := mem_arrival member
        rfl
    have own := arrived.own
    simp only [received_append, pushed_append] at own
    simp only [Visit.feed, received_append, pushed_append, noPush,
      List.append_nil, ← arrival_pending id fed]
    rw [← List.append_assoc, own, List.append_assoc]
  others other different := by
    obtain ⟨noFrame, noPush⟩ := arrived.others other different
    constructor
    · rw [Visit.feed, received_append, noFrame]
      exact received_eq_nil fun event member => by
        obtain ⟨m, rfl⟩ := mem_arrival member
        simp [Event.receivedFrom, different.symm]
    · rw [Visit.feed, pushed_append, noPush]
      exact pushed_eq_nil fun event member => by
        obtain ⟨m, rfl⟩ := mem_arrival member
        rfl

/-- Other events, and other changes of the connection. -/
theorem congr
    (arrived : visit.Arrived id history) {next : Visit}
    (input : next.connection.input = visit.connection.input)
    {added : List Event} (events : next.events = visit.events ++ added)
    (silent : ∀ event ∈ added, ∀ id,
      event.receivedFrom id = none ∧ event.pushedFrom id = none) :
    next.Arrived id history where
  own := by
    rw [events, Connection.pending_congr input, ← List.append_assoc,
      received_append, pushed_append,
      received_eq_nil fun event member => (silent event member id).1,
      pushed_eq_nil fun event member => (silent event member id).2,
      List.append_nil, List.append_nil, arrived.own]
  others other different := by
    obtain ⟨noFrame, noPush⟩ := arrived.others other different
    rw [events, received_append, pushed_append, noFrame, noPush,
      received_eq_nil fun event member => (silent event member other).1,
      pushed_eq_nil fun event member => (silent event member other).2]
    exact ⟨rfl, rfl⟩

theorem push
    (arrived : visit.Arrived id history) (waiting : visit.connection.pending = [m]) :
    (visit.push id m).Arrived id history := by
  unfold Visit.push
  split
  · constructor
    · have own := arrived.own
      have empty : Connection.pending
          { visit.connection with
            input := []
            admitted := visit.connection.admitted + 1 } = [] :=
        Connection.pending_of_ne (by simp [frameSize])
      rw [waiting] at own
      simp only [received_append, pushed_append] at own ⊢
      rw [empty, ← List.append_assoc, own]
      simp [received, pushed, Event.receivedFrom, Event.pushedFrom]
    · intro other different
      obtain ⟨noFrame, noPush⟩ := arrived.others other different
      simp only [received_append, pushed_append, noFrame, noPush]
      simp [received, pushed, Event.receivedFrom, Event.pushedFrom,
        different.symm]
  · exact arrived

/-- The whole input side of a visit. -/
theorem reads
    {visited : Visit} (arrived : visit.Arrived id history)
    (reads : Reads visit id visited) : visited.Arrived id history := by
  cases reads with
  | skipped => exact arrived
  | kept fed _ => exact arrived.feed fed _ _
  | @refused c appended m _ _ fed _ _ _ appends =>
      refine (arrived.feed fed false false).congr
        (Connection.append_fields appends).1 rfl ?_
      intro event member id
      split at member
      · cases member
      · rw [List.mem_singleton.mp member]
        exact ⟨rfl, rfl⟩
  | admitted _ _ fed valid _ => exact (arrived.feed fed false false).push valid.pending
  | @bound c m _ _ fed valid _ _ _ =>
      have bound : ((visit.feed id c false).bind id m.clientId).Arrived id
          history := by
        refine (arrived.feed fed false false).congr rfl rfl ?_
        intro event member id
        rw [List.mem_singleton.mp member]
        exact ⟨rfl, rfl⟩
      exact bound.push valid.pending

end Visit.Arrived

/-- Every connection, open or not, over a whole run. -/
structure Arrivals (recorded : Recorded) : Prop where
  waiting : ∀ id, ∃ pending,
    received recorded.history id = pushed recorded.history id ++ pending ∧
      pending.length ≤ 1 ∧
      ∀ c, recorded.server.connections.find? id = some c →
        id ∉ recorded.server.remove → pending = c.pending
  fresh : ∀ id, recorded.server.nextConnection ≤ id →
    received recorded.history id = [] ∧
      recorded.server.connections.find? id = none

namespace Arrivals

variable {server next : Server} {c : Connection}

/-- Steps that are not about frames, requests and connections. -/
theorem frame
    (arrivals : Arrivals ⟨server, history⟩)
    (waits : ∀ id c, next.connections.find? id = some c → id ∉ next.remove →
      ∃ d, server.connections.find? id = some d ∧ id ∉ server.remove ∧
        c.input = d.input)
    (nextConnection : next.nextConnection = server.nextConnection)
    (closed : ∀ id, server.connections.find? id = none →
      next.connections.find? id = none)
    (silent : ∀ event ∈ events, ∀ id,
      event.receivedFrom id = none ∧ event.pushedFrom id = none) :
    Arrivals ⟨next, history ++ events⟩ where
  waiting id := by
    obtain ⟨pending, split, short, current⟩ := arrivals.waiting id
    refine ⟨pending, ?_, short, ?_⟩
    · simp only [received_append, pushed_append] at split ⊢
      rw [received_eq_nil fun event member => (silent event member id).1,
        pushed_eq_nil fun event member => (silent event member id).2,
        List.append_nil, List.append_nil, split]
    · intro c found kept
      obtain ⟨d, before, keptBefore, input⟩ := waits id c found kept
      rw [current d before keptBefore, Connection.pending_congr input]
  fresh id beyond := by
    rw [nextConnection] at beyond
    obtain ⟨none, unknown⟩ := arrivals.fresh id beyond
    refine ⟨?_, closed id unknown⟩
    rw [received_append, none,
      received_eq_nil fun event member => (silent event member id).1]
    rfl

theorem accept
    (arrivals : Arrivals ⟨server, history⟩) :
    Arrivals ⟨server.accept, history⟩ := by
  unfold Server.accept
  split
  · exact arrivals
  · constructor
    · intro id
      obtain ⟨pending, split, short, current⟩ := arrivals.waiting id
      refine ⟨pending, split, short, ?_⟩
      intro c found kept
      simp only [OrderedMap.find?_emplace] at found
      split_ifs at found with isNew
      · obtain ⟨none, unknown⟩ := arrivals.fresh server.nextConnection
          (Nat.le_refl _)
        rw [isNew, none] at split
        rw [unknown] at found
        cases found
        exact (List.append_eq_nil_iff.mp split.symm).2
      · exact current c found kept
    · intro id beyond
      obtain ⟨none, unknown⟩ := arrivals.fresh id
        (Nat.le_of_succ_le beyond)
      refine ⟨none, ?_⟩
      rw [OrderedMap.find?_emplace, if_neg (Nat.ne_of_gt beyond), unknown]

theorem arrived
    {visit : Visit} {revents : Revents} (arrivals : Arrivals ⟨server, history⟩)
    (found : server.connections.find? id = some c) (kept : id ∉ server.remove)
    (reads : Reads (server.enter c revents) id visit) :
    visit.Arrived id history := by
  have entered : (server.enter c revents).Arrived id history := by
    obtain ⟨pending, split, _, current⟩ := arrivals.waiting id
    refine ⟨?_, fun _ _ => ⟨rfl, rfl⟩⟩
    simp only [enter, List.append_nil]
    rw [Connection.pending_congr (c.flush_fields revents).1,
      ← current c found kept]
    exact split
  exact entered.reads reads

/-- A connection that is visited. -/
theorem settled
    {visit : Visit} {revents : Revents} (arrivals : Arrivals ⟨server, history⟩)
    (found : server.connections.find? id = some c) (kept : id ∉ server.remove)
    (reads : Reads (server.enter c revents) id visit) :
    Arrivals ⟨visit.settled id, history ++ visit.events⟩ := by
  have read := arrivals.arrived found kept reads
  have same := reads.server
  constructor
  · intro other
    by_cases isOwn : other = id
    · subst isOwn
      refine ⟨visit.connection.pending, read.own, ?_, ?_⟩
      · exact visit.connection.pending_length
      · intro d after _
        simp only [Visit.settled, OrderedMap.find?_insert, if_true,
          Option.some.injEq] at after
        rw [after]
    · obtain ⟨noFrame, noPush⟩ := read.others other isOwn
      obtain ⟨pending, split, short, current⟩ := arrivals.waiting other
      refine ⟨pending, ?_, short, ?_⟩
      · simpa [noFrame, noPush] using split
      · intro d after stays
        rw [Visit.settled, same] at after stays
        simp only [OrderedMap.find?_insert, if_neg isOwn] at after
        exact current d after stays
  · intro other beyond
    rw [Visit.settled, same] at beyond ⊢
    obtain ⟨none, unknown⟩ := arrivals.fresh other beyond
    have isOther : other ≠ id := by
      rintro rfl
      rw [unknown] at found
      cases found
    refine ⟨?_, ?_⟩
    · simp [none, (read.others other isOther).1]
    · simp only [OrderedMap.find?_insert, if_neg isOther]
      exact unknown

/-- What every move keeps. -/
theorem moves
    (arrivals : Arrivals ⟨server, history⟩)
    (moves : Moves server next events) :
    Arrivals ⟨next, history ++ events⟩ := by
  have alike : SameSessions server next → ∀ id c,
      next.connections.find? id = some c → id ∉ next.remove →
        ∃ d, server.connections.find? id = some d ∧ id ∉ server.remove ∧
          c.input = d.input := by
    intro same id c found kept
    rw [same.connections] at found
    rw [same.remove] at kept
    exact ⟨c, found, kept, rfl⟩
  cases moves with
  | quiet sessions _ silent =>
      refine arrivals.frame (alike sessions) sessions.nextConnection ?_ ?_
      · rw [sessions.connections]
        exact fun _ none => none
      · intro event member id
        obtain ⟨m, rfl⟩ := silent event member
        exact ⟨rfl, rfl⟩
  | lost sessions _ _ _ _ _ =>
      refine arrivals.frame (alike sessions) sessions.nextConnection ?_
        (by simp)
      rw [sessions.connections]
      exact fun _ none => none
  | accepted => simpa using arrivals.accept
  | @visited id c visit revents found kept reads =>
      obtain ⟨doom, doomed, closes⟩ := visit.closes id revents
      rw [closes.server, closes.events, ← List.append_assoc]
      refine (arrivals.settled found kept reads).frame ?_ rfl
        (fun _ none => none) ?_
      · intro other d after stays
        refine ⟨d, after, ?_, rfl⟩
        exact fun doomedBefore => stays (List.mem_append_left _ doomedBefore)
      · intro event member id
        split at member
        · rw [List.mem_singleton.mp member]
          exact ⟨rfl, rfl⟩
        · cases member
  | iterated =>
      refine arrivals.frame ?_ ?_ ?_ (by simp)
      · intro id c found _
        rw [endIteration_find?] at found
        split_ifs at found with removed
        exact ⟨c, found, removed, rfl⟩
      · rw [endIteration_server]
      · intro id none
        rw [endIteration_find?, none]
        exact ite_self _
  | handled _ _ handles =>
      cases handles with
      | dropped _ =>
          exact arrivals.frame (alike ⟨rfl, rfl, rfl, rfl⟩) rfl
            (fun _ none => none)
            (by simp [Event.receivedFrom, Event.pushedFrom])
      | failed _ =>
          exact arrivals.frame (alike ⟨rfl, rfl, rfl, rfl⟩) rfl
            (fun _ none => none)
            (by simp [Event.receivedFrom, Event.pushedFrom])
      | @appended id c d isRecipient appends =>
          refine arrivals.frame ?_ rfl ?_ ?_
          · intro other e found kept
            simp only [OrderedMap.find?_insert] at found
            split_ifs at found with isOwn
            · cases found
              rw [isOwn] at kept ⊢
              exact ⟨c, isRecipient.found, kept,
                (Connection.append_fields appends).1⟩
            · exact ⟨e, found, kept, rfl⟩
          · intro other none
            have isOther : other ≠ id := by
              rintro rfl
              rw [isRecipient.found] at none
              cases none
            simp only [OrderedMap.find?_insert, if_neg isOther, none]
          · intro event member id
            rcases List.mem_append.mp member with isHanding | isAppend
            · rw [List.mem_singleton.mp isHanding]
              exact ⟨rfl, rfl⟩
            · split at isAppend
              · cases isAppend
              · rw [List.mem_singleton.mp isAppend]
                exact ⟨rfl, rfl⟩
  | served _ _ _ =>
      exact arrivals.frame (alike ⟨rfl, rfl, rfl, rfl⟩) rfl
        (fun _ none => none) (by simp [Event.receivedFrom, Event.pushedFrom])
  | responded _ =>
      exact arrivals.frame (alike ⟨rfl, rfl, rfl, rfl⟩) rfl
        (fun _ none => none) (by simp)
  | published _ =>
      exact arrivals.frame (alike ⟨rfl, rfl, rfl, rfl⟩) rfl
        (fun _ none => none) (by simp)
  | sent _ =>
      exact arrivals.frame (alike ⟨rfl, rfl, rfl, rfl⟩) rfl
        (fun _ none => none) (by simp [Event.receivedFrom, Event.pushedFrom])

end Arrivals

/-- Arrivals in every run. -/
theorem run_arrivals (exchange : Exchange) (schedule : List Action) :
    Arrivals ((start exchange).run schedule) :=
  run_holds
    ⟨fun _ => ⟨[], rfl, Nat.zero_le 1, fun _ found => by cases found⟩,
      fun _ _ => ⟨rfl, rfl⟩⟩
    (fun _ _ _ arrivals moves => arrivals.moves moves) schedule

end LimitOrderBook.Server
