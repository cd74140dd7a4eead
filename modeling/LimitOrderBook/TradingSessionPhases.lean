import LimitOrderBook.TradingSessionReplies

namespace LimitOrderBook

/-!
# Clients that wait for their answers

A client that only enters an order once its earlier calls of `submit` have
returned has at most one order on its way, and while it has none the completion
of its last request has been received.  A call that gives up never returns, so
from then on such a client only cancels.
-/

namespace TradingSession

open TradingClient MatchingEngine OrderManager

variable {pool : PoolBytes} {session next : TradingSession} {m : Message}
  {config : ClientConfig}

/-- Orders are entered when all earlier calls of `submit` have returned. -/
def Cautious (session next : TradingSession) : Prop :=
  ∀ c, next.sent = session.sent ++ [c] →
    c.action = .new ∨ c.action = .replace →
    session.returned.length = session.sent.length

/-- No completion is among some reports. -/
def NoComplete (reports : List Message) : Prop :=
  ∀ m ∈ reports, m.report ≠ .complete

/--
How far the last call of `submit` has got.  Once a call has given up, only
cancellations follow.
-/
inductive Phase (session : TradingSession) : Prop where
  | idle :
      session.waiting = none →
      session.requests = [] →
      NoComplete session.reports →
      session.returned.length = session.sent.length →
      Phase session
  | asking {waiting : Waiting} {c : Message} :
      session.waiting = some waiting →
      session.requests = [c] →
      c.requestId = waiting.requestId →
      NoComplete session.reports →
      session.returned.length + 1 = session.sent.length →
      Phase session
  | answering {waiting : Waiting} {before after : List Message}
      {last : Message} :
      session.waiting = some waiting →
      session.requests = [] →
      session.reports = before ++ last :: after →
      last.report = .complete →
      last.requestId = waiting.requestId →
      NoComplete before →
      NoComplete after →
      session.returned.length + 1 = session.sent.length →
      Phase session
  | expired :
      (∀ c ∈ session.requests.tail, ¬ (c.action = .new ∨ c.action = .replace)) →
      session.returned.length + session.waiting.toList.length <
        session.sent.length →
      Phase session

theorem NoComplete.append
    {earlier later : List Message} (first : NoComplete earlier)
    (second : NoComplete later) : NoComplete (earlier ++ later) := by
  intro m member
  rcases List.mem_append.mp member with before | after
  · exact first m before
  · exact second m after

theorem NoComplete.tail
    {rest : List Message} (quiet : NoComplete (m :: rest)) : NoComplete rest :=
  fun other member => quiet other (List.mem_cons_of_mem m member)

/-- A call goes on waiting after a report that is no completion. -/
theorem hear_of_not_complete
    (waiting : Waiting) (goesOn : m.report ≠ .complete) :
    ∃ more, hear (some waiting) m = (some more, []) ∧
      more.requestId = waiting.requestId := by
  by_cases own : m.requestId = waiting.requestId
  · exact ⟨{ waiting with result := waiting.result ++ [m] },
      by simp [hear, Waiting.take, own, goesOn], rfl⟩
  · exact ⟨waiting, by simp [hear, Waiting.take, own], rfl⟩

/-- A report turns at most one call into what it returns. -/
theorem length_hear (waiting : Option Waiting) (m : Message) :
    (hear waiting m).2.length + (hear waiting m).1.toList.length =
      waiting.toList.length := by
  unfold hear
  split
  · rfl
  · split
    · rfl
    · rfl

namespace Phase

theorem receive
    (phase : session.Phase) (orderly : session.Orderly pool)
    {rest : List Message} (queued : session.reports = m :: rest) :
    (session.receive m rest).Phase := by
  obtain ⟨handled, received⟩ := orderly.receive_eq queued
  rw [received]
  cases phase with
  | idle free empty quiet count =>
      rw [queued] at quiet
      exact .idle (by simp [hear, free]) empty quiet.tail
        (by simp [hear, free, count])
  | @asking waiting c waits pending number quiet count =>
      rw [queued] at quiet
      obtain ⟨more, heard, sameRequest⟩ :=
        hear_of_not_complete waiting (quiet m List.mem_cons_self)
      exact .asking (by simp [waits, heard]) pending
        (number.trans sameRequest.symm) quiet.tail
        (by simp [waits, heard, count])
  | @answering waiting before after last waits empty parts complete number
      quietBefore quietAfter count =>
      rw [queued] at parts
      cases before with
      | nil =>
          cases parts
          exact .idle (by simp [waits, hear, Waiting.take, number, complete])
            empty quietAfter
            (by simp [waits, hear, Waiting.take, number, complete, count])
      | cons first before =>
          cases parts
          obtain ⟨more, heard, sameRequest⟩ :=
            hear_of_not_complete waiting (quietBefore m List.mem_cons_self)
          exact .answering (by simp [waits, heard]) empty rfl complete
            (number.trans sameRequest.symm) quietBefore.tail quietAfter
            (by simp [waits, heard, count])
  | expired cancels behind =>
      refine .expired cancels ?_
      have sameCount := length_hear session.waiting m
      simp only [List.length_append]
      omega

/-- When all calls have returned, nothing is under way. -/
theorem quiet
    (phase : session.Phase)
    (count : session.returned.length = session.sent.length) :
    session.requests = [] ∧ NoComplete session.reports := by
  cases phase with
  | idle _ empty quiet _ => exact ⟨empty, quiet⟩
  | asking _ _ _ _ behind => omega
  | answering _ _ _ _ _ _ _ behind => omega
  | expired _ behind => omega

/-- Only the oldest request enters an order. -/
theorem tail
    (phase : session.Phase) {c : Message} (member : c ∈ session.requests.tail) :
    ¬ (c.action = .new ∨ c.action = .replace) := by
  cases phase with
  | idle _ empty _ _ => rw [empty] at member; cases member
  | asking _ pending _ _ _ => rw [pending] at member; cases member
  | answering _ empty _ _ _ _ _ _ => rw [empty] at member; cases member
  | expired cancels _ => exact cancels c member

theorem other_client
    (phase : session.Phase) (client : TradingClient) :
    Phase { session with client := client } := by
  cases phase with
  | idle free empty quiet count => exact .idle free empty quiet count
  | asking waits pending number quiet count =>
      exact .asking waits pending number quiet count
  | answering waits empty parts complete number before after count =>
      exact .answering waits empty parts complete number before after count
  | expired cancels behind => exact .expired cancels behind

theorem expire
    (phase : session.Phase) {waiting : Waiting}
    (waits : session.waiting = some waiting) :
    Phase { session with waiting := none } := by
  refine .expired (fun c member => phase.tail member) ?_
  simp only [Option.toList_none, List.length_nil, add_zero]
  cases phase with
  | idle free _ _ _ => rw [free] at waits; cases waits
  | asking _ _ _ _ count => omega
  | answering _ _ _ _ _ _ _ count => omega
  | expired _ behind => omega

theorem submit
    (phase : session.Phase) (free : session.waiting = none)
    (client : TradingClient) {request : Message}
    (enters : request.action = .new ∨ request.action = .replace →
      session.returned.length = session.sent.length) :
    Phase
      { session with
        client := client
        requests := session.requests ++ [request]
        waiting := some { requestId := request.requestId }
        sent := session.sent ++ [request] } := by
  cases phase with
  | idle _ empty quiet count =>
      exact .asking rfl (by simp [empty]) rfl quiet (by simp [count])
  | asking waits _ _ _ _ => rw [free] at waits; cases waits
  | answering waits _ _ _ _ _ _ _ => rw [free] at waits; cases waits
  | expired cancels behind =>
      refine .expired (fun c member => ?_) ?_
      · by_cases empty : session.requests = []
        · simp [empty] at member
        · rw [List.tail_append_of_ne_nil empty] at member
          rcases List.mem_append.mp member with before | isLast
          · exact cancels c before
          · rw [List.mem_singleton.mp isLast]
            intro isEntry
            have := enters isEntry
            omega
      · simp only [List.length_append, Option.toList_some,
          List.length_singleton]
        omega

/-- Further reports without a completion change no phase. -/
theorem more
    (phase : session.Phase) {reports : List Message} (engine : MatchingEngine)
    (quietMore : NoComplete reports) :
    Phase
      { session with
        engine := engine
        reports := session.reports ++ reports } := by
  cases phase with
  | idle free empty quiet count =>
      exact .idle free empty (quiet.append quietMore) count
  | asking waits pending number quiet count =>
      exact .asking waits pending number (quiet.append quietMore) count
  | @answering waiting before after last waits empty parts complete number
      quietBefore quietAfter count =>
      have longer : session.reports ++ reports =
          before ++ last :: (after ++ reports) := by
        simp [parts]
      exact .answering waits empty longer complete number quietBefore
        (quietAfter.append quietMore) count
  | expired cancels behind => exact .expired cancels behind

theorem serve
    (phase : session.Phase) (orderly : session.Orderly pool) {c : Message}
    {rest : List Message} {turn : Turn} (queued : session.requests = c :: rest)
    (processed : session.engine.process c = .ok turn) :
    Phase
      { session with
        engine := turn.engine
        requests := rest
        reports := session.reports ++ turn.batch.addressedTo session.owner
        answered := session.answered ++
          [(c, turn.batch.addressedTo session.owner)] } := by
  obtain ⟨sequenced, own⟩ := orderly.wellSequenced queued
  have reachable := orderly.followed.reachable
  obtain ⟨front, last, answer, complete, quietFront⟩ :=
    reachable.endsComplete processed sequenced
  have number : last.requestId = c.requestId :=
    (reachable.solicited processed sequenced last (by simp [answer])).request
  rw [own] at answer
  cases phase with
  | idle _ empty _ _ => rw [empty] at queued; cases queued
  | asking waits pending sameRequest quiet count =>
      rw [pending] at queued
      cases queued
      have whole : session.reports ++ turn.batch.addressedTo session.owner =
          session.reports ++ front ++ last :: [] := by
        simp [answer]
      exact .answering waits rfl whole complete (number.trans sameRequest)
        (quiet.append quietFront) (by simp [NoComplete]) count
  | answering _ empty _ _ _ _ _ _ => rw [empty] at queued; cases queued
  | expired cancels behind =>
      refine .expired (fun other member => cancels other ?_) behind
      rw [queued]
      exact List.mem_of_mem_tail member

theorem step
    (phase : session.Phase) (orderly : session.Orderly pool)
    (moved : Step session next) (cautious : Cautious session next) :
    next.Phase := by
  cases moved with
  | submit free _ _ => exact phase.submit free _ (cautious _ rfl)
  | refuse _ _ => exact phase.other_client _
  | expire waits => exact phase.expire waits
  | receive queued => exact phase.receive orderly queued
  | look _ => exact phase.other_client _
  | close => exact phase.other_client _
  | serve queued processed => exact phase.serve orderly queued processed
  | @other c turn foreign processed =>
      refine phase.more turn.engine fun m member => ?_
      rw [(orderly.followed.reachable.unsolicited processed foreign m
        member).fill]
      decide

end Phase

theorem Opens.phase (opens : Opens pool config session) : session.Phase := by
  cases opens with
  | greeted _ _ _ _ => exact .idle rfl rfl (by simp [NoComplete]) rfl

theorem Run.phase (run : Run pool config Cautious session) :
    session.Phase := by
  induction run with
  | start opens => exact opens.phase
  | step run moved cautious inductionHypothesis =>
      exact inductionHypothesis.step run.orderly moved cautious

end TradingSession

end LimitOrderBook
