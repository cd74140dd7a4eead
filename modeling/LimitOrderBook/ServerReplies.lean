import LimitOrderBook.ServerFlow

namespace LimitOrderBook.Server

/-!
# One terminal reply for every request

The counter of a connection is the number of its requests that are somewhere on
their way: in the queue of requests, in the engine, or with the terminal message
in the queue of responses.  So a half-closed connection whose counter is zero
has been answered completely.
-/

variable {server next : Server} {history events : List Event} {id : Nat}
  {c : Connection} {pool : PoolBytes}

/-- The terminal replies that a connection got. -/
def answered (history : List Event) (id : Nat) : List Message :=
  (history.filterMap fun
    | .appended connection m => if connection = id then some m else none
    | _ => none).filter Message.terminal

@[simp] theorem answered_append (history events : List Event) (id : Nat) :
    answered (history ++ events) id =
      answered history id ++ answered events id := by
  rw [answered, List.filterMap_append, List.filter_append]
  rfl

theorem answered_eq_nil
    (silent : ∀ m, .appended id m ∈ events → m.terminal = false) :
    answered events id = [] := by
  refine List.filter_eq_nil_iff.mpr fun m member => ?_
  obtain ⟨event, inEvents, extracted⟩ := List.mem_filterMap.mp member
  cases event with
  | appended connection sent =>
      simp only [Option.ite_none_right_eq_some, Option.some.injEq] at extracted
      obtain ⟨rfl, rfl⟩ := extracted
      simp [silent sent inEvents]
  | _ => cases extracted

theorem busy_not_terminal (epoch : Nat) (m : Message) :
    (busy epoch m).terminal = false := by
  simp [busy, Message.terminal]

/-! ## Counting -/

/-- The counters of the connections. -/
structure Delivered (server : Server) (history : List Event) : Prop where
  current : ∀ id c, server.connections.find? id = some c →
    c.closing = false →
    answered history id = terminalsOf id (handedOver history) ∧
      c.admitted + (answered history id).length =
        (pushed history id).length
  always : ∀ id, answered history id <+: terminalsOf id (handedOver history)
  fresh : ∀ id, server.nextConnection ≤ id →
    terminalsOf id (handedOver history) = []

/-- A visit counts the requests it pushes. -/
theorem Reads.counts
    {visit : Visit} {revents : Revents}
    (reads : Reads (server.enter c revents) id visit)
    (notClosing : visit.connection.closing = false) :
    c.closing = false ∧
      visit.connection.admitted =
        c.admitted + (pushed visit.events id).length := by
  obtain ⟨_, _, closing, _, admitted⟩ := c.flush_fields revents
  have noPush : ∀ d, pushed
      (arrival id (server.enter c revents).connection d) id = [] := by
    intro d
    refine pushed_eq_nil fun event member => ?_
    obtain ⟨m, rfl⟩ := mem_arrival member
    rfl
  have pushes : ∀ (entered : Visit) (m : Message),
      pushed entered.events id = [] →
      entered.connection.admitted = c.admitted →
      (entered.push id m).connection.admitted =
        c.admitted + (pushed (entered.push id m).events id).length := by
    intro entered m silent same
    rcases entered.push_cases id m with ⟨_, recorded, counted⟩ | skipped
    · rw [recorded, counted, pushed_append, silent]
      simp [pushed, Event.pushedFrom, same]
    · rw [skipped, silent, same]
      rfl
  cases reads with
  | skipped => exact ⟨closing ▸ notClosing, admitted⟩
  | @kept d dead malformed fed _ =>
      refine ⟨?_, ?_⟩
      · rw [← closing, ← notClosing]
        exact fed.closing.symm
      · simp only [Visit.feed, enter, List.nil_append]
        have silent := noPush d
        simp only [enter] at silent
        rw [silent, fed.admitted]
        exact admitted
  | refused _ _ _ _ _ _ _ => cases notClosing
  | @admitted d m _ wasOpen fed _ _ =>
      refine ⟨closing ▸ wasOpen, pushes _ m (noPush d) ?_⟩
      exact fed.admitted.trans admitted
  | @bound d m _ wasOpen fed _ _ _ _ =>
      refine ⟨closing ▸ wasOpen, pushes _ m ?_ ?_⟩
      · rw [Visit.bind, pushed_append]
        simp only [Visit.feed, enter, List.nil_append]
        have silent := noPush d
        simp only [enter] at silent
        rw [silent]
        rfl
      · exact fed.admitted.trans admitted

namespace Delivered

/-- Steps that push, pop and append nothing. -/
theorem frame
    (delivered : Delivered server history)
    (counters : ∀ id c, next.connections.find? id = some c →
      c.closing = false → ∃ d, server.connections.find? id = some d ∧
        d.closing = false ∧ c.admitted = d.admitted)
    (nextConnection : next.nextConnection = server.nextConnection)
    (noPush : ∀ id, pushed events id = [])
    (noReply : ∀ id, answered events id = [])
    (noHanding : handedOver events = []) :
    Delivered next (history ++ events) := by
  refine ⟨?_, ?_, ?_⟩
  · intro id c found notClosing
    obtain ⟨d, before, wasOpen, same⟩ := counters id c found notClosing
    have counted := delivered.current id d before wasOpen
    simpa [noPush, noReply, noHanding, same] using counted
  · intro id
    simpa [noReply, noHanding] using delivered.always id
  · intro id beyond
    rw [nextConnection] at beyond
    simpa [noHanding] using delivered.fresh id beyond

theorem accept
    (delivered : Delivered server history)
    (arrivals : Arrivals ⟨server, history⟩) :
    Delivered server.accept history := by
  unfold Server.accept
  split
  · exact delivered
  · refine ⟨?_, delivered.always, ?_⟩
    · intro id c found notClosing
      simp only [OrderedMap.find?_emplace] at found
      split_ifs at found with isNew
      · obtain ⟨none, unknown⟩ := arrivals.fresh server.nextConnection
          (Nat.le_refl _)
        rw [unknown] at found
        cases found
        have ended := delivered.fresh server.nextConnection (Nat.le_refl _)
        have noReply := delivered.always server.nextConnection
        rw [ended] at noReply
        obtain ⟨pending, split, _⟩ := arrivals.waiting server.nextConnection
        rw [none] at split
        rw [isNew, ended, List.prefix_nil.mp noReply,
          (List.append_eq_nil_iff.mp split.symm).1]
        exact ⟨rfl, rfl⟩
      · exact delivered.current id c found notClosing
    · intro id beyond
      exact delivered.fresh id (Nat.le_of_succ_le beyond)

/-- A connection that is visited. -/
theorem settled
    {visit : Visit} {revents : Revents} (delivered : Delivered server history)
    (arrived : visit.Arrived id history)
    (found : server.connections.find? id = some c)
    (reads : Reads (server.enter c revents) id visit) :
    Delivered (visit.settled id) (history ++ visit.events) := by
  have same := reads.server
  have noReply : ∀ other, answered visit.events other = [] := by
    intro other
    refine answered_eq_nil fun m member => ?_
    cases reads.mem_events member with
    | refused request => exact busy_not_terminal _ request
  have noHanding : handedOver visit.events = [] := by
    refine List.filterMap_eq_nil_iff.mpr fun event member => ?_
    cases reads.mem_events member <;> rfl
  refine ⟨?_, ?_, ?_⟩
  · intro other d after notClosing
    rw [Visit.settled, same] at after
    simp only [OrderedMap.find?_insert] at after
    by_cases isOwn : other = id
    · subst isOwn
      rw [if_pos rfl] at after
      cases after
      obtain ⟨wasOpen, counts⟩ := reads.counts notClosing
      obtain ⟨ended, counted⟩ := delivered.current other c found wasOpen
      rw [answered_append, noReply, handedOver_append, noHanding,
        pushed_append, List.append_nil, List.append_nil, counts,
        List.length_append]
      refine ⟨ended, ?_⟩
      lia
    · rw [if_neg isOwn] at after
      have counted := delivered.current other d after notClosing
      simpa [noReply, noHanding, (arrived.others other isOwn).2] using counted
  · intro other
    simpa [noReply, noHanding] using delivered.always other
  · intro other beyond
    rw [Visit.settled, same] at beyond
    simpa [noHanding] using delivered.fresh other beyond

/-- What `append` does to the counter. -/
theorem append_counts
    {d : Connection} {m : Message} (appends : c.append m = .ok d) :
    c.full = true ∧ d.closing = true ∨
      c.full = false ∧ d.closing = c.closing ∧
        d.admitted =
          if m.terminal = true ∧ c.admitted ≠ 0 then c.admitted - 1
          else c.admitted := by
  unfold Connection.append at appends
  split at appends
  · rename_i isFull
    cases appends
    exact Or.inl ⟨isFull, rfl⟩
  · rename_i notFull
    split at appends
    · cases appends
    · cases appends
      exact Or.inr ⟨Bool.eq_false_iff.mpr notFull, rfl, rfl⟩

/-- A response for somebody else. -/
theorem terminalsOf_single_of_ne
    {response : Envelope} (isOther : response.connection ≠ id) :
    terminalsOf id [response] = [] := by
  simp [terminalsOf, messagesOf, isOther]

/-- Nobody waits for a response to a connection that is not open yet. -/
theorem newIds
    {response : Envelope} (delivered : Delivered server history)
    (addressed : Addressed server.nextConnection history response)
    (beyond : server.nextConnection ≤ id) :
    terminalsOf id (handedOver history ++ [response]) = [] := by
  rw [terminalsOf_append, delivered.fresh id beyond,
    terminalsOf_single_of_ne
      (Nat.ne_of_lt (Nat.lt_of_lt_of_le addressed.connection beyond))]
  rfl

theorem found_ne_zero
    (bindings : Bindings server history)
    (found : server.connections.find? id = some c) : id ≠ 0 :=
  Nat.ne_of_gt
    (bindings.known id c.client (by simp [clientOf, found])).1

/-- A response that nobody takes. -/
theorem dropped
    {response : Envelope} (delivered : Delivered server history)
    (bindings : Bindings server history)
    (addressed : Addressed server.nextConnection history response)
    (nobody : server.recipient response = none) :
    Delivered server (history ++ [.handed response none]) := by
  have popped : handedOver [.handed response none] = [response] := rfl
  have noReply : ∀ id, answered [.handed response none] id = [] := fun _ => rfl
  have noPush : ∀ id, pushed [.handed response none] id = [] := fun _ => rfl
  refine ⟨?_, ?_, ?_⟩
  · intro id c found notClosing
    have isOther : response.connection ≠ id := by
      intro isOwn
      have nonzero := found_ne_zero bindings found
      have isRecipient : server.recipient response = some (id, c) := by
        simp [recipient, target, isOwn, nonzero, found, notClosing]
      rw [isRecipient] at nobody
      cases nobody
    have counted := delivered.current id c found notClosing
    rw [answered_append, noReply, handedOver_append, popped,
      terminalsOf_append, terminalsOf_single_of_ne isOther, pushed_append,
      noPush]
    simpa using counted
  · intro id
    rw [answered_append, noReply, List.append_nil, handedOver_append,
      terminalsOf_append]
    exact (delivered.always id).trans (List.prefix_append _ _)
  · intro id beyond
    rw [handedOver_append, popped]
    exact delivered.newIds addressed beyond

/-- A terminal message is for its own connection, which still waits for it. -/
theorem awaited
    {response : Envelope} {rest : List Envelope}
    (delivered : Delivered server history) (flow : Flow server history)
    (answering : Answering history)
    (addressed : Addressed server.nextConnection history response)
    (shape : server.responses = response :: rest)
    (isRecipient : Recipient server response id c)
    (isTerminal : response.message.terminal = true) :
    response.connection = id ∧ c.admitted ≠ 0 := by
  have isOwn : response.connection = id := by
    rcases isRecipient.target with ⟨isOwn, _⟩ | ⟨unrouted, _⟩
    · exact isOwn
    · rw [addressed.unsolicited unrouted] at isTerminal
      cases isTerminal
  have waits : (terminalsOf id server.responses).length ≠ 0 := by
    rw [shape]
    simp [terminalsOf, messagesOf, isOwn, isTerminal]
  have outstanding := flow.outstanding answering id
  obtain ⟨ended, counted⟩ :=
    delivered.current id c isRecipient.found isRecipient.takes
  rw [ended] at counted
  refine ⟨isOwn, ?_⟩
  lia

/-- The events of a response that is appended, or that a full output refuses. -/
def taken (response : Envelope) (id : Nat) (c : Connection) : List Event :=
  [.handed response (some id)] ++
    if c.full then [] else [.appended id response.message]

theorem handedOver_taken (response : Envelope) (id : Nat) (c : Connection) :
    handedOver (taken response id c) = [response] := by
  unfold taken
  split <;> rfl

theorem pushed_taken
    (response : Envelope) (id : Nat) (c : Connection) (other : Nat) :
    pushed (taken response id c) other = [] := by
  unfold taken
  split <;> rfl

theorem answered_taken_of_ne
    {response : Envelope} {other : Nat} (isOther : other ≠ id) :
    answered (taken response id c) other = [] := by
  refine answered_eq_nil fun m member => ?_
  rcases List.mem_append.mp member with isHanding | isAppend
  · cases List.mem_singleton.mp isHanding
  · split at isAppend
    · cases isAppend
    · cases List.mem_singleton.mp isAppend
      exact absurd rfl isOther

theorem answered_taken
    {response : Envelope} (notFull : c.full = false)
    (direct : response.message.terminal = true → response.connection = id) :
    answered (taken response id c) id = terminalsOf id [response] := by
  cases isTerminal : response.message.terminal with
  | true =>
      have isOwn := direct isTerminal
      simp [answered, taken, terminalsOf, messagesOf, notFull, isOwn,
        isTerminal]
  | false =>
      rw [terminalsOf_eq]
      simp [answered, taken, messagesOf, notFull, isTerminal]

/-- A response that a connection takes. -/
theorem appended
    {response : Envelope} {d : Connection}
    (delivered : Delivered server history)
    (bindings : Bindings server history)
    (addressed : Addressed server.nextConnection history response)
    (isRecipient : Recipient server response id c)
    (awaited : response.message.terminal = true →
      response.connection = id ∧ c.admitted ≠ 0)
    (appends : c.append response.message = .ok d)
    (connections : next.connections = server.connections.insert id d)
    (nextConnection : next.nextConnection = server.nextConnection) :
    Delivered next (history ++ taken response id c) := by
  obtain ⟨ended, counted⟩ :=
    delivered.current id c isRecipient.found isRecipient.takes
  have direct := fun isTerminal => (awaited isTerminal).1
  refine ⟨?_, ?_, ?_⟩
  · intro other e after notClosing
    rw [handedOver_append, handedOver_taken, pushed_append, pushed_taken,
      List.append_nil, terminalsOf_append, answered_append]
    rw [connections, OrderedMap.find?_insert] at after
    by_cases isOwn : other = id
    · subst isOwn
      rw [if_pos rfl] at after
      cases after
      rcases append_counts appends with
        ⟨_, isClosing⟩ | ⟨notFull, _, counts⟩
      · rw [isClosing] at notClosing
        cases notClosing
      · rw [answered_taken notFull direct, ended, counts]
        refine ⟨rfl, ?_⟩
        rw [ended] at counted
        cases isTerminal : response.message.terminal with
        | true =>
            obtain ⟨isOwn, waits⟩ := awaited isTerminal
            have one : terminalsOf other [response] = [response.message] := by
              simp [terminalsOf, messagesOf, isOwn, isTerminal]
            rw [one, List.length_append, if_pos ⟨rfl, waits⟩]
            simp only [List.length_singleton]
            lia
        | false =>
            have none : terminalsOf other [response] = [] := by
              rw [terminalsOf_eq]
              simp [messagesOf, isTerminal]
            rw [none, List.append_nil, if_neg (by simp)]
            exact counted
    · rw [if_neg isOwn] at after
      have isOther : response.connection ≠ other := by
        intro isResponse
        rcases isRecipient.target with ⟨isTarget, _⟩ | ⟨unrouted, _⟩
        · exact isOwn (isResponse.symm.trans isTarget)
        · exact found_ne_zero bindings after (isResponse.symm.trans unrouted)
      rw [answered_taken_of_ne isOwn, terminalsOf_single_of_ne isOther,
        List.append_nil, List.append_nil]
      exact delivered.current other e after notClosing
  · intro other
    rw [handedOver_append, handedOver_taken, terminalsOf_append,
      answered_append]
    by_cases isOwn : other = id
    · subst isOwn
      cases isFull : c.full with
      | true =>
          have noReply : answered (taken response other c) other = [] := by
            simp [taken, isFull, answered]
          rw [noReply, List.append_nil]
          exact (delivered.always other).trans (List.prefix_append _ _)
      | false => rw [answered_taken isFull direct, ended]
    · rw [answered_taken_of_ne isOwn, List.append_nil]
      exact (delivered.always other).trans (List.prefix_append _ _)
  · intro other beyond
    rw [nextConnection] at beyond
    rw [handedOver_append, handedOver_taken]
    exact delivered.newIds addressed beyond

/-- What every move keeps that records no failure. -/
theorem moves
    (delivered : Delivered server history)
    (sessions : Sessions pool ⟨server, history⟩) (flow : Flow server history)
    (answering : Answering history) (moves : Moves server next events)
    (notFatal : next.fatal = false) : Delivered next (history ++ events) := by
  have alike : next.connections = server.connections → ∀ id c,
      next.connections.find? id = some c → c.closing = false →
        ∃ d, server.connections.find? id = some d ∧ d.closing = false ∧
          c.admitted = d.admitted := by
    intro same id c found notClosing
    rw [same] at found
    exact ⟨c, found, notClosing, rfl⟩
  cases moves with
  | quiet same _ silent =>
      refine delivered.frame (alike same.connections) same.nextConnection
        ?_ ?_ ?_
      · intro id
        refine pushed_eq_nil fun event member => ?_
        obtain ⟨m, rfl⟩ := silent event member
        rfl
      · intro id
        refine answered_eq_nil fun m member => ?_
        obtain ⟨beat, isBeat⟩ := silent _ member
        cases isBeat
      · refine List.filterMap_eq_nil_iff.mpr fun event member => ?_
        obtain ⟨m, rfl⟩ := silent event member
        rfl
  | lost _ fatal _ _ _ _ =>
      rw [fatal] at notFatal
      cases notFatal
  | accepted => simpa using delivered.accept sessions.arrivals
  | @visited id c visit revents found kept reads =>
      obtain ⟨doom, doomed, closes⟩ := visit.closes id revents
      rw [closes.server, closes.events, ← List.append_assoc]
      refine (delivered.settled (sessions.arrivals.arrived found kept reads)
        found reads).frame (fun _ c found notClosing =>
          ⟨c, found, notClosing, rfl⟩) rfl ?_ ?_ ?_
      · intro other
        split <;> rfl
      · intro other
        split <;> rfl
      · split <;> rfl
  | iterated =>
      refine delivered.frame ?_ ?_ (fun _ => rfl) (fun _ => rfl) rfl
      · intro id c found notClosing
        rw [endIteration_find?] at found
        split_ifs at found with removed
        exact ⟨c, found, notClosing, rfl⟩
      · rw [endIteration_server]
  | @handled response rest io next events shape _ handles =>
      have addressed := sessions.traffic.responses response
        (by rw [shape]; exact List.mem_cons_self)
      cases handles with
      | dropped nobody =>
          have dropped := delivered.dropped sessions.bindings addressed nobody
          exact ⟨dropped.current, dropped.always, dropped.fresh⟩
      | failed _ => cases notFatal
      | @appended id c d isRecipient appends =>
          have recipient : Recipient server response id c :=
            ⟨isRecipient.found, isRecipient.takes, isRecipient.target⟩
          exact delivered.appended sessions.bindings addressed recipient
            (delivered.awaited flow answering addressed shape recipient)
            appends rfl rfl
  | served _ _ _ =>
      exact delivered.frame (alike rfl) rfl (fun _ => rfl) (fun _ => rfl) rfl
  | responded _ =>
      exact delivered.frame (alike rfl) rfl (fun _ => rfl) (fun _ => rfl) rfl
  | published _ =>
      exact delivered.frame (alike rfl) rfl (fun _ => rfl) (fun _ => rfl) rfl
  | sent _ =>
      exact delivered.frame (alike rfl) rfl (fun _ => rfl) (fun _ => rfl) rfl

end Delivered

/-! ## Removal -/

/-- The phases in which connections wait for their removal. -/
def Parked (io : IoPhase) : Prop :=
  io = .serving ∨ ∃ exit, io = .left exit

theorem ioStep_remove (server : Server) (answer : Bool) :
    (server.ioStep answer).1.remove = server.remove := by
  unfold ioStep
  split
  · split <;> rfl
  · rfl
  · split
    · rfl
    · split
      · rfl
      · rw [(handle_handles _ _).server]
  · split
    · rfl
    · split <;> rfl
  · rfl
  · rfl

/-- The I/O thread leaves the connections it marked only by removing them. -/
theorem step_parked
    (parked : server.remove ≠ [] → Parked server.io) (action : Action)
    (waits : (server.step action).1.remove ≠ []) :
    Parked (server.step action).1.io := by
  cases action with
  | io answer =>
      simp only [step] at waits ⊢
      rw [ioStep_remove] at waits
      rcases parked waits with serving | ⟨exit, left⟩
      · unfold ioStep
        rw [serving]
        exact Or.inl serving
      · unfold ioStep
        rw [left]
        exact Or.inr ⟨exit, rfl⟩
  | accept =>
      simp only [step] at waits ⊢
      split
      · rename_i serving
        rw [accept_server]
        exact Or.inl serving
      · rename_i elsewhere
        rw [if_neg elsewhere] at waits
        exact parked waits
  | visit id revents =>
      simp only [step] at waits ⊢
      split
      · rename_i serving
        unfold visit
        split
        · exact Or.inl serving
        · split
          · exact Or.inl serving
          · simp only
            split
            · exact Or.inr ⟨_, rfl⟩
            · rename_i read
              rw [close_server (read_reads rfl read)]
              exact Or.inl serving
      · rename_i elsewhere
        rw [if_neg elsewhere] at waits
        exact parked waits
  | endIteration =>
      simp only [step] at waits ⊢
      split at waits
      · exact absurd rfl waits
      · rename_i elsewhere
        rw [if_neg elsewhere]
        exact parked waits
  | ioThrows =>
      simp only [step] at waits ⊢
      split
      · rename_i exit left
        exact Or.inr ⟨exit, left⟩
      · exact Or.inr ⟨_, rfl⟩
  | engine =>
      simp only [step] at waits ⊢
      rw [engineStep_server] at waits ⊢
      exact parked waits
  | engineThrows =>
      simp only [step] at waits ⊢
      split at waits
      · rename_i stopped
        rw [if_pos stopped]
        exact parked waits
      · rename_i running
        rw [if_neg running]
        exact parked waits
  | publisher due =>
      simp only [step] at waits ⊢
      rw [publisherStep_server] at waits ⊢
      exact parked waits
  | publisherThrows =>
      simp only [step] at waits ⊢
      split at waits
      · rename_i ended
        rw [if_pos ended]
        exact parked waits
      · rename_i running
        rw [if_neg running]
        exact parked waits

/--
Why a connection is marked for removal.  A malformed frame is only read while
the other side is still writing.
-/
def Reason (server : Server) (history : List Event) (id : Nat) : Prop :=
  (.doomed id .failed ∈ history ∨ .doomed id .expired ∈ history) ∨
    ∃ c, server.connections.find? id = some c ∧
      (c.readClosed = false ∨ c.finished = true)

/-- A visit that met a malformed frame. -/
theorem Reads.malformed
    {visit : Visit} {revents : Revents}
    (reads : Reads (server.enter c revents) id visit)
    (malformed : visit.malformed = true) :
    visit.connection.readClosed = false := by
  cases reads with
  | skipped => cases malformed
  | kept _ stillOpen => exact stillOpen malformed
  | refused _ _ _ _ _ _ _ => cases malformed
  | admitted _ _ _ _ _ =>
      rw [Visit.push_malformed] at malformed
      cases malformed
  | bound _ _ _ _ _ _ _ =>
      rw [Visit.push_malformed] at malformed
      cases malformed

/-- Marked connections keep their reason until they are removed. -/
theorem reasons_move
    (parked : server.remove ≠ [] → Parked server.io)
    (reasons : ∀ id ∈ server.remove, Reason server history id)
    (moves : Moves server next events) :
    ∀ id ∈ next.remove, Reason next (history ++ events) id := by
  have alike : next.connections = server.connections →
      next.remove = server.remove →
        ∀ id ∈ next.remove, Reason next (history ++ events) id := by
    intro connections remove id member
    rw [remove] at member
    refine (reasons id member).imp
      (Or.imp (List.mem_append_left events) (List.mem_append_left events)) ?_
    rw [connections]
    exact fun finished => finished
  cases moves with
  | quiet same _ _ => exact alike same.connections same.remove
  | lost same _ _ _ _ _ => exact alike same.connections same.remove
  | accepted =>
      intro id member
      rw [accept_server] at member
      rcases reasons id member with evicted | ⟨c, found, finished⟩
      · rw [List.append_nil]
        exact Or.inl evicted
      · refine Or.inr ⟨c, ?_, finished⟩
        unfold accept
        split
        · exact found
        · rw [OrderedMap.find?_emplace]
          split
          · rename_i isNew
            rw [← isNew, found]
            rfl
          · exact found
  | @visited id c visit revents found kept reads =>
      obtain ⟨doom, doomed, closes⟩ := visit.closes id revents
      intro other member
      rw [closes.server] at member ⊢
      rw [closes.events]
      have connections : visit.server.connections = server.connections := by
        rw [reads.server]
        rfl
      have remove : visit.server.remove = server.remove := by
        rw [reads.server]
        rfl
      rcases List.mem_append.mp member with before | isMarked
      · rw [remove] at before
        have isOther : other ≠ id := fun isOwn => kept (isOwn ▸ before)
        refine (reasons other before).imp
          (Or.imp (List.mem_append_left _) (List.mem_append_left _)) ?_
        rintro ⟨d, stored, finished⟩
        refine ⟨d, ?_, finished⟩
        simp only [Visit.settled, OrderedMap.find?_insert, if_neg isOther,
          connections, stored]
      · split at isMarked
        · rename_i isDoomed
          cases List.mem_singleton.mp isMarked
          have stored : (visit.settled id).connections.find? id =
              some visit.connection := by
            simp [Visit.settled]
          rw [if_pos isDoomed, if_pos isDoomed]
          rcases closes.reason isDoomed with
            failed | expired | malformed | finished
          · rw [failed]
            exact Or.inl (Or.inl (by simp))
          · rw [expired]
            exact Or.inl (Or.inr (by simp))
          · exact Or.inr ⟨_, stored, Or.inl (reads.malformed malformed)⟩
          · exact Or.inr ⟨_, stored, Or.inr finished⟩
        · cases isMarked
  | iterated =>
      intro id member
      rw [endIteration_server] at member
      cases member
  | handled _ popping handles =>
      obtain ⟨matchingFinished, popped, phase⟩ := popping
      intro id member
      rw [handles.server] at member
      rcases parked (List.ne_nil_of_mem member) with serving | ⟨exit, left⟩
      · rw [phase] at serving
        cases serving
      · rw [phase] at left
        cases left
  | served _ _ _ => exact alike rfl rfl
  | responded _ => exact alike rfl rfl
  | published _ => exact alike rfl rfl
  | sent _ => exact alike rfl rfl

/-- Only the connections that are marked are removed. -/
theorem Moves.removes
    (moves : Moves server next events)
    (found : server.connections.find? id = some c)
    (gone : next.connections.find? id = none) : id ∈ server.remove := by
  have alike : next.connections = server.connections → id ∈ server.remove := by
    intro same
    rw [same, found] at gone
    cases gone
  cases moves with
  | quiet same _ _ => exact alike same.connections
  | lost same _ _ _ _ _ => exact alike same.connections
  | accepted =>
      unfold accept at gone
      split at gone
      · rw [found] at gone
        cases gone
      · rw [OrderedMap.find?_emplace] at gone
        split at gone
        · cases gone
        · rw [found] at gone
          cases gone
  | @visited visitedId _ visit revents _ _ reads =>
      obtain ⟨doom, doomed, closes⟩ := visit.closes visitedId revents
      have connections : visit.server.connections = server.connections := by
        rw [reads.server]
        rfl
      rw [closes.server] at gone
      simp only [Visit.settled, OrderedMap.find?_insert, connections] at gone
      split at gone
      · cases gone
      · rw [found] at gone
        cases gone
  | iterated =>
      rw [endIteration_find?] at gone
      split at gone
      · assumption
      · rw [found] at gone
        cases gone
  | handled _ _ handles =>
      cases handles with
      | dropped _ => exact alike rfl
      | failed _ => exact alike rfl
      | appended _ _ =>
          simp only [OrderedMap.find?_insert] at gone
          split at gone
          · cases gone
          · rw [found] at gone
            cases gone
  | served _ _ _ => exact alike rfl
  | responded _ => exact alike rfl
  | published _ => exact alike rfl
  | sent _ => exact alike rfl

/-! ## Whole runs -/

/-- Everything that the replies of a server depend on. -/
structure Replies (pool : PoolBytes) (recorded : Recorded) : Prop where
  sessions : Sessions pool recorded
  answering : Answering recorded.history
  flow : recorded.server.fatal = false →
    Flow recorded.server recorded.history
  delivered : recorded.server.fatal = false →
    Delivered recorded.server recorded.history
  parked : recorded.server.remove ≠ [] → Parked recorded.server.io
  reasons : ∀ id ∈ recorded.server.remove,
    Reason recorded.server recorded.history id

theorem run_replies
    {exchange : Exchange}
    (reachable : MatchingEngine.Reachable pool exchange.engine)
    (schedule : List Action) :
    Replies pool ((start exchange).run schedule) := by
  have atStart : Replies pool ⟨start exchange, []⟩ :=
    { sessions := run_sessions reachable []
      answering := fun _ => .nil
      flow := fun _ => ⟨rfl, rfl, rfl⟩
      delivered := fun _ =>
        ⟨fun _ _ found => (by cases found), fun _ => List.prefix_rfl,
          fun _ _ => rfl⟩
      parked := fun waits => absurd rfl waits
      reasons := fun _ member => by cases member }
  refine run_invariant atStart ?_ schedule
  rintro ⟨server, history⟩ action replies
  have moves := step_moves server action
  exact
    { sessions := replies.sessions.moves moves
      answering := replies.answering.moves replies.sessions moves
      flow := fun notFatal =>
        (replies.flow (moves.fatal notFatal)).moves moves notFatal
      delivered := fun notFatal =>
        (replies.delivered (moves.fatal notFatal)).moves replies.sessions
          (replies.flow (moves.fatal notFatal)) replies.answering moves notFatal
      parked := step_parked replies.parked action
      reasons := reasons_move replies.parked replies.reasons moves }

/--
Terminal replies.  In a run without a failure, the counter of an open connection
that is not closing is the number of its requests that are queued, in the engine
or with their terminal message in the queue of responses, and it is never zero
when a terminal message is appended.  The requests a connection pushed are the
frames it received in order, at most the last one missing.  A half-closed
connection is removed only when a visit found its socket failed or its time
expired, or when every admitted request has been answered and the answers have
been flushed.  The terminal replies are those of the requests in their order.
-/
theorem replies_once
    {exchange : Exchange}
    (reachable : MatchingEngine.Reachable pool exchange.engine)
    (schedule : List Action)
    (notFatal : ((start exchange).run schedule).server.fatal = false) :
    let recorded := (start exchange).run schedule
    (∀ id c, recorded.server.connections.find? id = some c →
        c.closing = false →
        c.admitted =
          (messagesOf id recorded.server.requests).length +
            (terminalsOf id recorded.server.unsent.1).length +
            (terminalsOf id recorded.server.responses).length) ∧
      (∀ response rest id c,
        recorded.server.responses = response :: rest →
        recorded.server.recipient response = some (id, c) →
        response.message.terminal = true → c.admitted ≠ 0) ∧
      (∀ id,
        pushed recorded.history id <+: received recorded.history id ∧
          (received recorded.history id).length ≤
            (pushed recorded.history id).length + 1) ∧
      (∀ action id c,
        recorded.server.connections.find? id = some c →
        c.readClosed = true → c.closing = false →
        (recorded.next action).server.connections.find? id = none →
        (.doomed id .failed ∈ recorded.history ∨
            .doomed id .expired ∈ recorded.history) ∨
          (answered recorded.history id).length =
              (pushed recorded.history id).length ∧
            c.output.frames = []) ∧
      ∀ id, List.Forall₂ Answers
        ((pushed recorded.history id).take
          (answered recorded.history id).length)
        (answered recorded.history id) := by
  intro recorded
  have replies : Replies pool recorded := run_replies reachable schedule
  have flow := replies.flow notFatal
  have delivered := replies.delivered notFatal
  refine ⟨?_, ?_, ?_, ?_, ?_⟩
  · intro id c found notClosing
    have outstanding := flow.outstanding replies.answering id
    obtain ⟨ended, counted⟩ := delivered.current id c found notClosing
    rw [ended] at counted
    lia
  · intro response rest id c shape isRecipient isTerminal
    have addressed := replies.sessions.traffic.responses response
      (by rw [shape]; exact List.mem_cons_self)
    exact (delivered.awaited flow replies.answering addressed shape
      (recipient_some isRecipient) isTerminal).2
  · intro id
    obtain ⟨pending, split, short, _⟩ := replies.sessions.arrivals.waiting id
    rw [split, List.length_append]
    exact ⟨List.prefix_append _ _, Nat.add_le_add_left short _⟩
  · intro action id c found readClosed notClosing gone
    have marked := (step_moves recorded.server action).removes found gone
    refine (replies.reasons id marked).imp_right ?_
    rintro ⟨d, stored, finished⟩
    rw [found] at stored
    cases stored
    simp only [Connection.finished, notClosing, readClosed, Bool.true_eq_false,
      false_or, Bool.false_or, Bool.true_and, Bool.and_eq_true,
      decide_eq_true_eq] at finished
    obtain ⟨nothing, flushed⟩ := finished
    have counted := (delivered.current id c found notClosing).2
    rw [nothing, Nat.zero_add] at counted
    exact ⟨counted, flushed⟩
  · intro id
    have served := replies.answering id
    have ahead : answered recorded.history id <+:
        terminalsOf id (servedResponses recorded.history) := by
      rw [flow.responses, terminalsOf_append, terminalsOf_append]
      exact ((delivered.always id).trans (List.prefix_append _ _)).trans
        (List.prefix_append _ _)
    have first := List.forall₂_take (answered recorded.history id).length
      served
    rw [← List.prefix_iff_eq_take.mp ahead] at first
    have short : (answered recorded.history id).length ≤
        (messagesOf id (servedRequests recorded.history)).length := by
      rw [served.length_eq]
      exact ahead.length_le
    rw [pushed_eq, flow.requests, messagesOf_append,
      List.take_append_of_le_length short]
    exact first

/-- A client's first order is admitted. -/
def firstOrder : List Action :=
  toPoll ++ [.accept] ++
    [delivery 1
      { clientId := 7, requestId := 1, orderId := 1, instrumentId := 1
        price := 10, quantity := 5 }]

/-- The order is counted while its completion waits in the queue. -/
theorem replies_once_first_order :
    ∃ c, ((start ⟨MatchingEngine.single, []⟩).run
        (firstOrder ++ List.replicate 5 .engine)).server.connections.find? 1 =
          some c ∧
      c.admitted = 1 := by
  have isOpen : (((start ⟨MatchingEngine.single, []⟩).run
      (firstOrder ++ List.replicate 5 .engine)).server.connections.find?
        1).map Connection.closing = some false := by
    decide +kernel
  obtain ⟨c, found, notClosing⟩ := Option.map_eq_some_iff.mp isOpen
  obtain ⟨counted, _⟩ := @replies_once .capacity ⟨MatchingEngine.single, []⟩
    MatchingEngine.single_reachable (firstOrder ++ List.replicate 5 .engine)
    (by decide +kernel)
  refine ⟨c, found, (counted 1 c found notClosing).trans ?_⟩
  decide +kernel

/--
The client starts another frame and half-closes, and the engine makes no
progress for five seconds.
-/
def stalled : List Action :=
  firstOrder ++
    [.visit 1 { readable := true, receives := .data 0 [] }, .endIteration] ++
    toPoll ++ [.visit 1 { readable := true, receives := .closed },
      .endIteration] ++
    toPoll ++ [.visit 1 { readExpired := true }]

/-- The connection is removed although its request has not been answered. -/
theorem half_closed_removed_unanswered :
    let recorded := (start ⟨MatchingEngine.single, []⟩).run stalled
    recorded.server.fatal = false ∧
      (recorded.server.connections.find? 1).map
          (fun c => (c.readClosed, c.closing, c.admitted)) =
        some (true, false, 1) ∧
      (answered recorded.history 1).length <
        (pushed recorded.history 1).length ∧
      ((recorded.next .endIteration).server.connections.find? 1).isNone := by
  decide +kernel

end LimitOrderBook.Server
