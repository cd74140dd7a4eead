import LimitOrderBook.OrderManagerDrains
import LimitOrderBook.TradingSessionPhases

namespace LimitOrderBook

/-!
# The local limits of a client at the exchange

The check of `submit` looks at the client's own record, which runs behind the
exchange.  If a client only enters an order once its earlier calls of `submit`
have returned, the limits hold at the exchange all the same, in any
interleaving.  There is one exception: a replacement is checked without the
order it replaces, whose last fills the client may not know.  It can exceed the
position limit by less than one order.
-/

namespace TradingSession

open TradingClient MatchingEngine OrderManager

variable {pool : PoolBytes} {session next : TradingSession} {m : Message}
  {config : ClientConfig}

/-! ## What the client knows when it checks -/

abbrev limits (session : TradingSession) : InstrumentRules :=
  session.client.config.limits

/-- The quantity of the largest order that was sent. -/
def largest (session : TradingSession) : Quantity :=
  ((session.sent.filter fun c =>
    decide (c.action = .new ∨ c.action = .replace)).map
      Message.quantity).foldr max 0

/-- A bound of the largest order bounds every order sent. -/
theorem largest_le_iff {bound : Quantity} :
    session.largest ≤ bound ↔ ∀ c ∈ session.sent,
      c.action = .new ∨ c.action = .replace → c.quantity ≤ bound := by
  unfold largest
  induction session.sent with
  | nil => simp
  | cons c rest inductionHypothesis =>
      by_cases enters : c.action = .new ∨ c.action = .replace
      · simp only [List.filter_cons, enters, decide_true, if_true,
          List.map_cons, List.foldr_cons, Nat.max_le, List.forall_mem_cons,
          true_implies, inductionHypothesis]
      · simp only [List.filter_cons, enters, decide_false, Bool.false_eq_true,
          if_false, List.forall_mem_cons, false_implies, true_and]
        exact inductionHypothesis

/-- No order that was sent is larger than the largest. -/
theorem le_largest {c : Message} (member : c ∈ session.sent)
    (enters : c.action = .new ∨ c.action = .replace) :
    c.quantity ≤ session.largest :=
  largest_le_iff.mp (Nat.le_refl _) c member enters

/-- With more orders sent the largest grows. -/
theorem largest_mono (more : ∀ c ∈ session.sent, c ∈ next.sent) :
    session.largest ≤ next.largest :=
  largest_le_iff.mpr fun c member => le_largest (more c member)

/-- The last completion came with small orders; since then only fills. -/
def Settled (session : TradingSession) (bound : Quantity) : Prop :=
  ∃ past recent, session.stream = past ++ recent ∧
    (consumeAll {} past).Small bound ∧ NoComplete recent ∧
    (past = [] ∨
      ∃ front last, past = front ++ [last] ∧ last.report = .complete)

/-- A command was checked against the reports up to some point. -/
def Checked (session : TradingSession) (bound : Quantity) (c : Message) :
    Prop :=
  ∃ past recent, session.stream = past ++ recent ∧ NoComplete recent ∧
    (consumeAll {} past).Small bound ∧
    (consumeAll {} past).Passes c session.limits

variable {bound : Quantity}

/-- A wider bound bounds too. -/
theorem Settled.mono
    {wider : Quantity} (settled : session.Settled bound) (le : bound ≤ wider) :
    session.Settled wider := by
  obtain ⟨past, recent, parts, small, quiet, ends⟩ := settled
  exact ⟨past, recent, parts, small.mono le, quiet, ends⟩

/-- A wider bound bounds the checked order too. -/
theorem Checked.mono
    {wider : Quantity} {c : Message} (checked : session.Checked bound c)
    (le : bound ≤ wider) : session.Checked wider c := by
  obtain ⟨past, recent, parts, quiet, small, passes⟩ := checked
  exact ⟨past, recent, parts, quiet, small.mono le, passes⟩

/-- What drains all reports drains the earlier ones. -/
theorem drains_of_append
    {manager : OrderManager} {earlier later : List Message}
    (drains : manager.Drains (earlier ++ later)) : manager.Drains earlier := by
  induction earlier generalizing manager with
  | nil => trivial
  | cons m rest inductionHypothesis =>
      exact ⟨drains.1, inductionHypothesis drains.2⟩

/-- While no completion is in the queue the client knows its last one. -/
theorem Settled.heard
    (settled : session.Settled bound) (orderly : session.Orderly pool)
    (quiet : NoComplete session.reports) :
    session.client.manager.Small bound := by
  obtain ⟨past, recent, parts, small, quietRecent, ends⟩ := settled
  rw [orderly.manager]
  rcases List.append_eq_append_iff.mp parts.symm with
    ⟨between, heard, rest⟩ | ⟨between, isPast, reports⟩
  · rw [heard, consumeAll_append]
    have drains := orderly.followed.drains past recent parts quietRecent
    rw [rest] at drains
    exact (drains_of_append drains).small small
  · have nothing : between = [] := by
      rcases ends with rfl | ⟨front, last, rfl, complete⟩
      · exact (List.append_eq_nil_iff.mp isPast.symm).2
      · refine nil_of_completed isPast complete fun m member => quiet m ?_
        rw [reports]
        exact List.mem_append_left _ member
    rw [nothing, List.append_nil] at isPast
    rw [← isPast]
    exact small

/-- Reports that complete nothing leave the session settled. -/
theorem Settled.more
    (settled : session.Settled bound) {reports : List Message} (engine : MatchingEngine)
    (quiet : NoComplete reports) :
    Settled
      { session with
        engine := engine
        reports := session.reports ++ reports } bound := by
  obtain ⟨past, recent, parts, small, quietRecent, ends⟩ := settled
  refine ⟨past, recent ++ reports, ?_, small, quietRecent.append quiet, ends⟩
  simp only [stream] at parts ⊢
  rw [← List.append_assoc, parts, List.append_assoc]

/-- Nor do they change the order that was checked. -/
theorem Checked.more
    {c : Message} (checked : session.Checked bound c) {reports : List Message}
    (engine : MatchingEngine) (quiet : NoComplete reports) :
    Checked
      { session with
        engine := engine
        reports := session.reports ++ reports } bound c := by
  obtain ⟨past, recent, parts, quietRecent, small, passes⟩ := checked
  refine ⟨past, recent ++ reports, ?_, quietRecent.append quiet, small, passes⟩
  simp only [stream] at parts ⊢
  rw [← List.append_assoc, parts, List.append_assoc]

/-! ## What a checked command can add -/

/-- What a replacement can add beyond the position limit. -/
def overshoot (session : TradingSession) : Int :=
  if ∃ c ∈ session.sent, c.action = .replace then
    ((session.largest - 1 : Nat) : Int)
  else
    0

/-- With more orders sent the overshoot grows. -/
theorem overshoot_mono
    (more : ∀ c ∈ session.sent, c ∈ next.sent) :
    session.overshoot ≤ next.overshoot := by
  have larger := largest_mono more
  unfold overshoot
  by_cases replaced : ∃ c ∈ session.sent, c.action = .replace
  · obtain ⟨c, member, action⟩ := replaced
    rw [if_pos ⟨c, member, action⟩, if_pos ⟨c, more c member, action⟩]
    exact Int.ofNat_le.mpr (Nat.sub_le_sub_right larger 1)
  · rw [if_neg replaced]
    split
    · exact Int.natCast_nonneg _
    · exact Int.le_refl 0

/-- What the client has consumed at the check and what it would know by now. -/
structure Compared (session : TradingSession) (c : Message)
    (old : Option Message) (before now : OrderManager) : Prop where
  atRisk : Turn.besides session.engine old session.owner c.instrumentId c.side =
    now.atRisk c
  openOrders : (session.engine.resting.erase (replacedId old)).total
    (openBy session.owner) = (now.exposure c).openOrders
  small : before.Small session.largest
  passes : before.Passes c session.limits
  drained : ∃ reports, before.Drains reports ∧ now = before.consumeAll reports
  standing : c.action = .replace → now.atRisk c < now.atRisk (afresh c)

/-- The engine meets an order that the manager has compared. -/
theorem Checked.compared
    {c : Message} {old : Option Message} {slots : Nat}
    (checked : session.Checked session.largest c)
    (orderly : session.Orderly pool)
    (sound : session.engine.Sound slots) (own : c.clientId = session.owner)
    (action : c.action = entryAction old) (enters : session.engine.Enters c old) :
    ∃ before now, session.Compared c old before now := by
  obtain ⟨past, recent, parts, quiet, small, passes⟩ := checked
  have drains := orderly.followed.drains past recent parts quiet
  have mirrors := orderly.followed.mirrors
  rw [parts, consumeAll_append, ← own] at mirrors
  have opens : c.action = .new ∨ c.action = .replace := by
    cases old with
    | none => exact Or.inl action
    | some m => exact Or.inr action
  have replaces : session.engine.replacing c = some (replacedId old) := by
    cases old with
    | none => simp [replacing, replacedId, show c.action = .new from action]
    | some m =>
        have indexed := sound.linked.find?_key enters.found
        rw [enters.client, enters.order] at indexed
        simpa [replacing, replacedId, show c.action = .replace from action]
          using indexed
  obtain ⟨reserved, openOrders⟩ := mirrors.exposure sound opens replaces
  rw [MatchingEngine.exposure_reserved] at reserved
  rw [MatchingEngine.exposure_openOrders] at openOrders
  refine ⟨_, (consumeAll {} past).consumeAll recent, ?_, ?_, small, passes,
    ⟨recent, drains, rfl⟩, fun isReplace => ?_⟩
  · rw [OrderManager.atRisk, mirrors.shows.position, reserved, ← own]
    rfl
  · rw [← own, openOrders]
  · cases old with
    | none => exact absurd (isReplace.symm.trans action) (by decide)
    | some m =>
        obtain ⟨order, found, sameTerms⟩ := Option.map_eq_some_iff.mp
          ((mirrors.shows.orders c.orderId).trans (enters.order ▸
            enters.client ▸ sound.linked.blotter_of_found enters.found))
        rw [atRisk_afresh isReplace found, reservedOn, sameTerms,
          if_pos ⟨enters.instrument, enters.side⟩]
        have positive := (sound.positive enters.found).2
        exact Int.lt_add_of_pos_right _
          (Int.ofNat_lt.mpr (Nat.pos_of_ne_zero positive))

/-- A checked command keeps within the limits, whatever was filled since. -/
theorem Compared.position
    {c : Message} {old : Option Message} {before now : OrderManager}
    (compared : session.Compared c old before now) (side : c.side.Listed) :
    Turn.besides session.engine old session.owner c.instrumentId c.side +
        c.quantity ≤
      session.limits.maxPosition +
        if c.action = .replace then ((session.largest - 1 : Nat) : Int)
        else 0 := by
  obtain ⟨reports, drains, rfl⟩ := compared.drained
  have within := compared.passes.atRisk
  rw [compared.atRisk]
  split
  · rename_i isReplace
    have kept := (drains.covers (c := afresh c) side (by simp [afresh])).atRisk
    have standing := compared.standing isReplace
    have more := atRisk_afresh_le compared.small c
    omega
  · rename_i notReplace
    have kept := (drains.covers (c := c) side
      fun isReplace => absurd isReplace notReplace).atRisk
    omega

/-- The engine has fewer orders than the manager has allowed. -/
theorem Compared.orders
    {c : Message} {old : Option Message} {before now : OrderManager}
    (compared : session.Compared c old before now) :
    (session.engine.resting.erase (replacedId old)).total
        (openBy session.owner) < session.limits.maxOpenOrders := by
  obtain ⟨reports, drains, rfl⟩ := compared.drained
  rw [compared.openOrders]
  exact Nat.lt_of_le_of_lt (drains.openOrders_le c) compared.passes.openOrders

/-! ## The limits -/

/-- The limits of a client, as they hold at the exchange. -/
structure Limited (session : TradingSession) : Prop where
  small : ∀ id m, session.engine.resting.find? id = some m →
    m.clientId = session.owner → m.quantity ≤ session.largest
  risk : ∀ instrument side, Side.Listed side →
    session.engine.risk session.owner instrument side ≤
      max 0 session.limits.maxPosition + session.overshoot
  openOrders :
    session.engine.openOrders session.owner ≤ session.limits.maxOpenOrders
  sizes : ∀ c ∈ session.sent, c.action = .new ∨ c.action = .replace →
    c.quantity ≤ session.limits.maxOrderQuantity.toNat
  settled : session.Settled session.largest
  checked : ∀ c ∈ session.requests, c.action = .new ∨ c.action = .replace →
    session.Checked session.largest c

namespace Limited

/-- A report that is taken keeps the limits. -/
theorem receive
    (limited : session.Limited) (orderly : session.Orderly pool)
    {rest : List Message} (queued : session.reports = m :: rest) :
    (session.receive m rest).Limited := by
  obtain ⟨handled, received⟩ := orderly.receive_eq queued
  have sameStream : session.heard ++ [m] ++ rest = session.stream := by
    rw [stream, queued, List.append_assoc, List.singleton_append]
  rw [received]
  refine { limited with settled := ?_, checked := fun c member action => ?_ }
  · have settled := limited.settled
    unfold Settled at *
    simp only [stream, sameStream]
    exact settled
  · have checked := limited.checked c member action
    unfold Checked at *
    simp only [stream, sameStream]
    exact checked

/-- An order that the manager has let pass keeps the limits. -/
theorem submit
    (limited : session.Limited) (orderly : session.Orderly pool)
    (phase : session.Phase) {command request : Message} {client : TradingClient}
    (asked : session.client.request command = (client, .ok request))
    (cautious : request.action = .new ∨ request.action = .replace →
      session.returned.length = session.sent.length) :
    Limited
      { session with
        client := client
        requests := session.requests ++ [request]
        waiting := some { requestId := request.requestId }
        sent := session.sent ++ [request] } := by
  obtain ⟨passed, _, rfl, rfl⟩ := request_eq_ok asked
  let next : TradingSession :=
    { session with sent := session.sent ++
        [{ command with
            kind := .command
            clientId := session.client.config.clientId
            requestId := session.client.requestId + 1 }] }
  have more : ∀ c ∈ session.sent, c ∈ next.sent :=
    fun c member => List.mem_append_left _ member
  have larger : session.largest ≤ next.largest := largest_mono more
  refine
    ⟨fun id m found own => Nat.le_trans (limited.small id m found own) larger,
      fun instrument side listed => Int.le_trans
        (limited.risk instrument side listed)
        (Int.add_le_add_left (overshoot_mono more) _),
      limited.openOrders, ?_, limited.settled.mono larger, ?_⟩
  · intro c member enters
    rcases List.mem_append.mp member with before | isLast
    · exact limited.sizes c before enters
    · cases List.mem_singleton.mp isLast
      exact (passes_of_check enters passed).size
  · intro c member enters
    rcases List.mem_append.mp member with before | isLast
    · exact (limited.checked c before enters).mono larger
    · cases List.mem_singleton.mp isLast
      obtain ⟨_, quiet⟩ := phase.quiet (cautious enters)
      refine ⟨session.heard, session.reports, rfl, quiet, ?_, ?_⟩
      · rw [← orderly.manager]
        exact (limited.settled.heard orderly quiet).mono larger
      · rw [← orderly.manager]
        exact passes_of_check enters passed

/-- A request that is served keeps the limits, fills included. -/
theorem serve
    (limited : session.Limited) (orderly : session.Orderly pool)
    (phase : session.Phase) {c : Message} {rest : List Message} {turn : Turn}
    (queued : session.requests = c :: rest)
    (processed : session.engine.process c = .ok turn) :
    Limited
      { session with
        engine := turn.engine
        requests := rest
        reports := session.reports ++ turn.batch.addressedTo session.owner
        answered := session.answered ++
          [(c, turn.batch.addressedTo session.owner)] } := by
  obtain ⟨sequenced, own⟩ := orderly.wellSequenced queued
  have reachable := orderly.followed.reachable
  have sound := reachable.invariant.sound
  obtain ⟨outcome, next⟩ := reachable.outcome_of processed
  have isSent : c ∈ session.sent := by simp [orderly.sent, queued]
  have checked : ∀ {old : Option Message}, c.action = entryAction old →
      session.Checked session.largest c := by
    intro old action
    refine limited.checked c (by simp [queued]) ?_
    cases old with
    | none => exact Or.inl action
    | some m => exact Or.inr action
  have small : ∀ id m, turn.engine.resting.find? id = some m →
      m.clientId = session.owner → m.quantity ≤ session.largest := by
    intro id m found isOwn
    rcases outcome.stems found with ⟨action, _, _, less⟩ |
      ⟨oldId, old, oldFound, sameClient, _, less⟩
    · exact Nat.le_trans less (le_largest isSent action)
    · exact Nat.le_trans less
        (limited.small oldId old oldFound (sameClient.trans isOwn))
  refine ⟨small, fun instrument side listed => ?_, ?_, limited.sizes, ?_,
    fun other member enters => ?_⟩
  · have before := limited.risk instrument side listed
    rcases outcome.risk sound session.owner instrument listed with
      less | ⟨old, action, enters, bounded⟩
    · exact Int.le_trans less before
    · refine Int.le_trans bounded ?_
      unfold Message.adds
      split
      · rename_i here
        obtain ⟨_, rfl, rfl⟩ := here
        obtain ⟨past, now, compared⟩ :=
          (checked action).compared orderly sound own action enters
        have affords := compared.position listed
        have allowed : (if c.action = .replace then
            ((session.largest - 1 : Nat) : Int) else 0) ≤
              session.overshoot := by
          unfold overshoot
          by_cases replaces : c.action = .replace
          · rw [if_pos replaces, if_pos ⟨c, isSent, replaces⟩]
          · rw [if_neg replaces]
            split
            · exact Int.natCast_nonneg _
            · exact Int.le_refl 0
        have positive := Int.le_max_right 0 session.limits.maxPosition
        change _ ≤ max 0 session.limits.maxPosition + session.overshoot
        omega
      · rw [add_zero]
        exact Int.le_trans (Turn.besides_le _ old _ _ _) before
  · rcases outcome.openOrders sound session.owner with
      less | ⟨old, action, enters, _, bounded⟩
    · exact Nat.le_trans less limited.openOrders
    · obtain ⟨past, now, compared⟩ :=
        (checked action).compared orderly sound own action enters
      exact Nat.le_trans bounded compared.orders
  · obtain ⟨front, last, answer, complete, _⟩ :=
      reachable.endsComplete processed sequenced
    have whole := (orderly.serve queued processed).followed
    refine ⟨_, [], (List.append_nil _).symm, ?_, by simp [NoComplete],
      Or.inr ⟨session.stream ++ front, last, ?_, complete⟩⟩
    · exact whole.mirrors.small next.invariant.sound small
    · rw [own] at answer
      simp [stream, answer]
  · exact absurd enters (phase.tail (by simpa [queued] using member))

/-- Commands of others fill the resting orders at most. -/
theorem other
    (limited : session.Limited) (orderly : session.Orderly pool) {c : Message}
    {turn : Turn} (foreign : c.clientId ≠ session.owner)
    (processed : session.engine.process c = .ok turn) :
    Limited
      { session with
        engine := turn.engine
        reports := session.reports ++ turn.batch.addressedTo session.owner } := by
  have reachable := orderly.followed.reachable
  have sound := reachable.invariant.sound
  obtain ⟨outcome, _⟩ := reachable.outcome_of processed
  have quiet : NoComplete (turn.batch.addressedTo session.owner) := by
    intro m member
    rw [(reachable.unsolicited processed foreign m member).fill]
    decide
  refine ⟨fun id m found isOwn => ?_, fun instrument side listed => ?_, ?_,
    limited.sizes, limited.settled.more turn.engine quiet, fun command member action =>
      (limited.checked command member action).more turn.engine quiet⟩
  · rcases outcome.stems found with ⟨_, sameClient, _⟩ |
      ⟨oldId, old, oldFound, sameClient, _, less⟩
    · exact absurd (sameClient.symm.trans isOwn) foreign
    · exact Nat.le_trans less
        (limited.small oldId old oldFound (sameClient.trans isOwn))
  · exact Int.le_trans (outcome.risk_le sound foreign instrument listed)
      (limited.risk instrument side listed)
  · rcases outcome.openOrders sound session.owner with
      less | ⟨_, _, _, isOwn, _⟩
    · exact Nat.le_trans less limited.openOrders
    · exact absurd isOwn.symm foreign

/-- A client of the same limits. -/
theorem other_client
    (limited : session.Limited) {client : TradingClient}
    (sameConfig : client.config = session.client.config) :
    Limited { session with client := client } := by
  obtain ⟨small, risk, openOrders, sizes, settled, checked⟩ := limited
  constructor
  all_goals
    simp only [Settled, Checked, TradingSession.stream, TradingSession.owner,
      TradingSession.limits, largest, overshoot, sameConfig] at *
    assumption

/-- Each step of a session keeps the limits. -/
theorem step
    (limited : session.Limited) (orderly : session.Orderly pool)
    (phase : session.Phase) (moved : Step session next)
    (cautious : Cautious session next) : next.Limited := by
  cases moved with
  | submit _ _ asked =>
      exact limited.submit orderly phase asked (cautious _ rfl)
  | refuse _ asked =>
      rcases request_eq_error asked with rfl | ⟨_, rfl⟩
      · exact limited
      · exact limited.other_client rfl
  | expire _ => exact { limited with }
  | receive queued => exact limited.receive orderly queued
  | look looks =>
      obtain ⟨_, _, _, rfl⟩ := looks
      exact limited.other_client rfl
  | close => exact limited.other_client rfl
  | serve queued processed =>
      exact limited.serve orderly phase queued processed
  | other foreign processed => exact limited.other orderly foreign processed

end Limited

/-- A session opens with nothing, within its limits. -/
theorem Opens.limited (opens : Opens pool config session) :
    session.Limited := by
  have unheard := opens.unheard
  cases opens with
  | @greeted engine turn status client reachable processed answer connected =>
      refine ⟨fun id m found own => absurd own (unheard.resting id m found),
        fun instrument side _ => ?_, ?_, by simp,
        ⟨[], [], rfl, by simp [OrderManager.Small, consumeAll],
          by simp [NoComplete], Or.inl rfl⟩, by simp⟩
      · have nothing : turn.engine.held client.config.clientId instrument
            side = 0 :=
          OrderedMap.total_eq_zero fun id m found =>
            if_neg fun held => unheard.resting id m found held.1
        have flat := unheard.position instrument
        simp only [MatchingEngine.risk, TradingSession.owner] at *
        rw [flat, nothing]
        simp [overshoot]
      · have nothing : turn.engine.openOrders client.config.clientId = 0 :=
          OrderedMap.total_eq_zero fun id m found =>
            if_neg (unheard.resting id m found)
        rw [nothing]
        exact Nat.zero_le _

/-- Every run of cautious steps stays within the limits. -/
theorem Run.limited (run : Run pool config Cautious session) :
    session.Limited := by
  induction run with
  | start opens => exact opens.limited
  | step run moved cautious inductionHypothesis =>
      exact inductionHypothesis.step run.orderly run.phase moved cautious

/--
A client that enters an order only when its earlier calls of `submit` have
returned keeps to its limits at the exchange, whatever reports and requests are
still on their way: its position with all its orders of a side filled stays
within the position limit, it has no more open orders than allowed, and none of
them is too large.  Once it has sent a replacement, the position can be off by
less than the largest order it sent.
-/
theorem local_limits (run : Run pool config Cautious session) :
    (∀ instrument side, Side.Listed side →
      session.engine.risk session.owner instrument side ≤
        max 0 session.limits.maxPosition + session.overshoot) ∧
      session.engine.openOrders session.owner ≤
        session.limits.maxOpenOrders ∧
      (∀ id m, session.engine.resting.find? id = some m →
        m.clientId = session.owner → m.quantity ≤ session.largest) ∧
      session.largest ≤ session.limits.maxOrderQuantity.toNat := by
  have limited := run.limited
  exact ⟨limited.risk, limited.openOrders, limited.small,
    largest_le_iff.mpr limited.sizes⟩

/--
A replacement of an order of ten that was filled but for one unit in the
meantime: with a position limit of ten the client is at risk of nineteen.
-/
theorem local_limits_replace_race :
    ∃ session,
      Run .capacity { limits := { maxPosition := 10, maxOrderQuantity := 10 } }
        Cautious session ∧
      session.engine.risk session.owner 1 .bid = 19 ∧
      session.engine.risk session.owner 1 .bid ≤
        max 0 session.limits.maxPosition + session.overshoot := by
  let config : ClientConfig :=
    { limits := { maxPosition := 10, maxOrderQuantity := 10 } }
  let order : Message :=
    { orderId := 1, instrumentId := 1, price := 10, quantity := 10 }
  let entry : Message := { order with clientId := 1, requestId := 1 }
  let taker : Message :=
    { orderId := 1, clientId := 2, requestId := 1, instrumentId := 1
      side := .ask, price := 10, quantity := 9 }
  let change : Message := { order with action := .replace, price := 11 }
  let replacement : Message := { change with clientId := 1, requestId := 2 }
  let accepted : Message :=
    { entry.asReport .accepted .none 1 2 with exchangeId := 1, remaining := 10 }
  let complete : Message :=
    { entry.asReport .complete .none 1 3 with exchangeId := 1, remaining := 10 }
  let greeted := Turn.report ⟨single, {}⟩ (hello config) .status
  let market : MarketReplica := { pool := .capacity, synchronized := true }
  let fresh : TradingClient :=
    { config := config, market := { pool := .capacity }, epoch := 1 }
  let watching : TradingClient :=
    { fresh with market := market, recoveries := 1 }
  let waiting : TradingClient := { watching with requestId := 1 }
  let informed : TradingClient :=
    { waiting with
      manager := consumeAll {} [accepted, complete]
      handled := [accepted, complete] }
  have passed : ({} : OrderManager).check order config.limits market 100000 =
      .none ∧ informed.manager.check change config.limits market 100000 =
        .none := by decide +kernel
  have asked : watching.request order = (waiting, .ok entry) := by
    simp [TradingClient.request, watching, fresh, waiting, entry, order, config,
      passed.1]
  have askedAgain : informed.request change =
      ({ informed with requestId := 2 }, .ok replacement) := by
    unfold TradingClient.request
    rw [if_neg (not_not.mpr passed.2), if_neg (by decide)]
  have greeting : single.process (hello config) = .ok greeted := rfl
  have reachable : Reachable .capacity greeted.engine :=
    .step single_reachable greeting
  obtain ⟨first, processed, _, reachableFirst⟩ := reachable.outcome entry
  obtain ⟨second, processedTaker, _, reachableSecond⟩ :=
    reachableFirst.outcome taker
  obtain ⟨third, processedChange, _, _⟩ := reachableSecond.outcome replacement
  have evaluated : ((greeted.engine.process entry).toOption.bind fun first =>
      (first.engine.process taker).toOption.bind fun second =>
        (second.engine.process replacement).toOption.map fun third =>
          (first.batch.addressedTo 1, third.engine.risk 1 1 .bid)) =
      some ([accepted, complete], 19) := by decide +kernel
  simp only [processed, processedTaker, processedChange, Except.toOption,
    Option.bind_some, Option.map_some, Option.some.injEq, Prod.mk.injEq]
    at evaluated
  obtain ⟨answer, exceeds⟩ := evaluated
  have started : Run .capacity config Cautious
      { engine := greeted.engine, client := fresh } :=
    .start (.greeted single_reachable greeting rfl rfl)
  have looked := started.step (.look ⟨market, {}, 1, rfl⟩) (by simp [Cautious])
  have sent := looked.step (.submit rfl ⟨by decide, by decide⟩ asked)
    fun _ _ _ => rfl
  have served := sent.step (.serve rfl processed) (by simp [Cautious])
  simp only [TradingSession.owner, waiting, watching, fresh, config, answer]
    at served
  have heard := served.step (.receive rfl) (by intro _ more; cases more)
  have returned := heard.step (.receive rfl) (by intro _ more; cases more)
  have foreign : taker.clientId ≠ (1 : ClientId) := by decide
  have filled := returned.step (.other foreign processedTaker)
    (by intro _ more; cases more)
  have resent := filled.step (.submit rfl ⟨by decide, by decide⟩ askedAgain)
    fun _ _ _ => rfl
  have raced := resent.step (.serve rfl processedChange)
    (by intro _ more; cases more)
  exact ⟨_, raced, exceeds, (local_limits raced).1 1 .bid (by decide)⟩

end TradingSession

end LimitOrderBook
