import LimitOrderBook.EngineReports
import LimitOrderBook.OrderManager

namespace LimitOrderBook

/-!
# Managers that mirror the engine

A client that sends its commands in sequence and feeds every report addressed
to it to an order manager has in the manager, after every batch, exactly its
live orders and its positions.
-/

namespace OrderManager

open MatchingEngine

variable {manager : OrderManager} {m : Message} {client : ClientId}
  {blotter : Blotter} {positions : Positions}

theorem find?_settle
    (orders : OrderedMap OrderId Message (· < ·)) (m : Message)
    (orderId : OrderId) :
    ((settle orders m).find? orderId).map Message.terms =
      if orderId = m.orderId then
        Blotter.left ((orders.find? orderId).map Message.terms) m.remaining
      else
        (orders.find? orderId).map Message.terms := by
  unfold settle Blotter.left
  by_cases own : orderId = m.orderId
  · subst own
    cases found : orders.find? m.orderId with
    | none => simp [found]
    | some order =>
        by_cases gone : m.remaining = 0
        · simp [gone]
        · simp [gone, Message.terms]
  · cases found : orders.find? m.orderId with
    | none => simp [own]
    | some order =>
        by_cases gone : m.remaining = 0
        · simp [gone, own]
        · simp [gone, own]

/-- The orders after a report, by their terms. -/
theorem apply_orders
    (manager : OrderManager) (m : Message) (orderId : OrderId) :
    ((manager.apply m).orders.find? orderId).map Message.terms =
      if orderId = m.orderId then
        Blotter.readOrder m
          ((manager.orders.find? orderId).map Message.terms)
      else
        (manager.orders.find? orderId).map Message.terms := by
  unfold apply Blotter.readOrder
  cases m.report with
  | accepted | replaced =>
      by_cases own : orderId = m.orderId
      · simp [own, Message.terms]
      · simp [own]
  | fill => exact find?_settle manager.orders m orderId
  | cancelled =>
      by_cases own : orderId = m.orderId
      · simp [own]
      · simp [own]
  | complete =>
      simp only
      by_cases counts : m.reject = .none ∧ m.orderId ≠ 0
      · rw [if_pos counts, if_pos counts]
        exact find?_settle manager.orders m orderId
      · rw [if_neg counts, if_neg counts, ite_self]
  | _ => simp

/-- The positions after a report. -/
theorem apply_position
    (manager : OrderManager) (m : Message) (instrument : InstrumentId) :
    (manager.apply m).position instrument =
      if m.report = .fill ∧ instrument = m.instrumentId then
        (manager.position instrument).fill m.side m.price m.quantity
      else
        manager.position instrument := by
  unfold apply
  cases kind : m.report with
  | fill =>
      by_cases own : instrument = m.instrumentId
      · simp [position, own]
      · simp [position, own]
  | complete =>
      simp only
      split <;> simp [position]
  | _ => simp [position]

/-- The manager holds a client's part of a blotter and of all positions. -/
structure Shows (manager : OrderManager) (client : ClientId)
    (blotter : Blotter) (positions : Positions) : Prop where
  orders : ∀ orderId,
    (manager.orders.find? orderId).map Message.terms = blotter client orderId
  position : ∀ instrument,
    manager.position instrument = positions client instrument

theorem Shows.other
    (shows : manager.Shows client blotter positions)
    (foreign : client ≠ m.clientId) :
    manager.Shows client (blotter.read m) (positions.read m) where
  orders orderId := by
    rw [Blotter.read_of_ne foreign]
    exact shows.orders orderId
  position instrument := by
    rw [Positions.read, if_neg fun same => foreign same.2.1]
    exact shows.position instrument

theorem Shows.consume
    (shows : manager.Shows client blotter positions)
    (own : m.clientId = client) (kind : m.kind = .report)
    (later : manager.lastReport < m.sequence) :
    (manager.consume m).1.Shows client (blotter.read m) (positions.read m) := by
  subst own
  by_cases isStatus : m.report = .status
  · rw [consume_of_stale (Or.inr (Or.inl isStatus)), Blotter.read,
      Blotter.put_eq_self (by simp [Blotter.readOrder, isStatus]),
      Positions.read_of_ne _ (by simp [isStatus])]
    exact shows
  · have fresh : ¬ manager.Stale m := by
      rintro (notReport | status | old)
      · exact notReport kind
      · exact isStatus status
      · exact Nat.not_lt_of_le old later
    rw [consume_of_not_stale fresh]
    refine ⟨fun orderId => ?_, fun instrument => ?_⟩
    · rw [apply_orders, shows.orders]
      by_cases here : orderId = m.orderId
      · subst here
        rw [if_pos rfl, Blotter.read, Blotter.put_self]
      · rw [if_neg here, Blotter.read,
          Blotter.put_of_ne fun same => here same.2]
    · rw [apply_position, shows.position, Positions.read]
      simp only [true_and]

theorem lastReport_consume_le
    {last : Sequence} (behind : manager.lastReport ≤ last)
    (upTo : m.sequence ≤ last) : (manager.consume m).1.lastReport ≤ last := by
  unfold OrderManager.consume
  split
  · exact behind
  · rw [apply_lastReport]
    exact upTo

/-- The reports of a call addressed to the client, consumed one by one. -/
theorem Shows.consumeAll
    {reports : List Message}
    (shows : manager.Shows client blotter positions)
    (kinds : ∀ m ∈ reports, m.kind = .report)
    (later : ∀ m ∈ reports, manager.lastReport < m.sequence)
    (rising : reports.Pairwise fun earlier later =>
      earlier.sequence < later.sequence) :
    (manager.consumeAll (reports.filter fun m =>
        decide (m.clientId = client))).Shows client
      (reports.foldl Blotter.read blotter)
      (reports.foldl Positions.read positions) := by
  induction reports generalizing manager blotter positions with
  | nil => exact shows
  | cons m rest inductionHypothesis =>
      obtain ⟨first, restRising⟩ := List.pairwise_cons.mp rising
      have restKinds : ∀ m ∈ rest, m.kind = .report :=
        fun other member => kinds other (List.mem_cons_of_mem _ member)
      rw [List.foldl_cons, List.foldl_cons]
      by_cases own : m.clientId = client
      · rw [List.filter_cons_of_pos (by simpa using own), consumeAll_cons]
        refine inductionHypothesis
          (shows.consume own (kinds m (by simp)) (later m (by simp)))
          restKinds ?_ restRising
        intro other member
        refine Nat.lt_of_le_of_lt ?_ (first other member)
        exact lastReport_consume_le (Nat.le_of_lt (later m (by simp)))
          (Nat.le_refl _)
      · rw [List.filter_cons_of_neg (by simpa using own)]
        exact inductionHypothesis
          (shows.other fun same => own same.symm) restKinds
          (fun other member => later other (List.mem_cons_of_mem _ member))
          restRising

theorem lastReport_consumeAll_le
    {ms : List Message} {last : Sequence}
    (behind : manager.lastReport ≤ last)
    (upTo : ∀ m ∈ ms, m.sequence ≤ last) :
    (manager.consumeAll ms).lastReport ≤ last := by
  induction ms generalizing manager with
  | nil => exact behind
  | cons m rest inductionHypothesis =>
      rw [consumeAll_cons]
      exact inductionHypothesis
        (lastReport_consume_le behind (upTo m List.mem_cons_self))
        fun other member => upTo other (List.mem_cons_of_mem _ member)

/-! ## One call -/

variable {engine : MatchingEngine} {c : Message} {turn : Turn} {slots : Nat}
  {pool : PoolBytes}

/--
The manager has consumed every report for its client so far and holds what the
engine holds.
-/
structure Mirrors (manager : OrderManager) (engine : MatchingEngine)
    (client : ClientId) : Prop where
  shows : manager.Shows client engine.ledger.blotter engine.position
  behind : manager.lastReport ≤ engine.responseSequence
  answered : ∀ m ∈ (engine.clientState client).cached, manager.Stale m

theorem Mirrors.start (created : Created pool engine) (client : ClientId) :
    Mirrors {} engine client := by
  obtain ⟨instruments, epoch, constructed⟩ := created
  obtain ⟨_, _, rfl⟩ := create_ok constructed
  refine ⟨⟨?_, ?_⟩, Nat.le_refl _, ?_⟩
  · intro orderId
    simp [Ledger.blotter, MatchingEngine.ledger]
  · intro instrument
    simp [OrderManager.position, MatchingEngine.position]
  · intro m member
    cases member

/-- A retry is answered with reports the manager passes over. -/
theorem Mirrors.retry
    (mirrors : manager.Mirrors engine client)
    (outcome : Outcome slots engine c turn) (retries : engine.Retries c)
    (cachesOwn : engine.CachesOwn) :
    manager.consumeAll (turn.batch.addressedTo client) = manager ∧
      manager.Mirrors turn.engine client := by
  rw [outcome.of_retries retries]
  refine ⟨consumeAll_of_stale ?_, ⟨mirrors.shows, mirrors.behind, ?_⟩⟩
  · intro m member
    obtain ⟨cached, isOwn⟩ := List.mem_filter.mp member
    have sameClient : c.clientId = client :=
      (cachesOwn c.clientId m cached).symm.trans (by simpa using isOwn)
    rw [← sameClient] at mirrors
    exact mirrors.answered m cached
  · intro m member
    rw [clientState_openClient] at member
    exact mirrors.answered m member

/-- A call whose reports are new. -/
theorem Mirrors.fresh
    (mirrors : manager.Mirrors engine client)
    (outcome : Outcome slots engine c turn) (sound : engine.Sound slots)
    (keeps : engine.KeepsLimits) (notRetry : ¬ engine.Retries c)
    (truthful : engine.Truthful client c) :
    (manager.consumeAll (turn.batch.addressedTo client)).Mirrors turn.engine
      client := by
  have stamps := outcome.stamps notRetry
  have consumed := mirrors.shows.consumeAll stamps.kinds
    (fun m member => Nat.lt_of_le_of_lt mirrors.behind
      (stamps.within m member).1) stamps.rising
  refine ⟨⟨?_, ?_⟩, ?_, ?_⟩
  · intro orderId
    rw [← outcome.announces sound notRetry truthful]
    exact consumed.orders orderId
  · intro instrument
    rw [← (outcome.follows sound keeps notRetry).replay]
    exact consumed.position instrument
  · refine lastReport_consumeAll_le
      (Nat.le_trans mirrors.behind stamps.grown) ?_
    exact fun m member => (stamps.within m (List.mem_of_mem_filter member)).2
  · intro m member
    rcases outcome.cached client with same | ⟨_, _, answered⟩
    · rw [same] at member
      exact (mirrors.answered m member).mono
        (lastReport_le_consumeAll manager _)
    · rw [answered] at member
      exact stale_consumeAll manager member

theorem Mirrors.step
    (mirrors : manager.Mirrors engine client)
    (reachable : Reachable pool engine)
    (truthful : engine.Truthful client c)
    (processed : engine.process c = .ok turn) :
    (manager.consumeAll (turn.batch.addressedTo client)).Mirrors turn.engine
      client := by
  obtain ⟨outcome, _⟩ := reachable.outcome_of processed
  by_cases retries : engine.Retries c
  · obtain ⟨same, next⟩ := mirrors.retry outcome retries reachable.cachesOwn
    rw [same]
    exact next
  · exact mirrors.fresh outcome reachable.invariant.sound
      reachable.keepsLimits retries truthful

/-! ## Whole sessions -/

/--
A run of the engine next to the manager of one client: the client's commands
are in sequence, everybody else sends anything, and the manager is fed the
client's reports in order, with any earlier ones again in between.
-/
inductive Session (pool : PoolBytes) (client : ClientId) :
    MatchingEngine → OrderManager → List Message → Prop where
  | start {engine : MatchingEngine} :
      Created pool engine → Session pool client engine {} []
  | step {engine : MatchingEngine} {manager : OrderManager}
      {seen delivered : List Message} {c : Message} {turn : Turn} :
      Session pool client engine manager seen →
      engine.InSequence client c →
      engine.process c = .ok turn →
      Delivers seen (turn.batch.addressedTo client) delivered →
      Session pool client turn.engine (manager.consumeAll delivered)
        (turn.batch.addressedTo client ++ seen)

variable {seen : List Message}

theorem Session.mirrors
    (session : Session pool client engine manager seen) :
    Reachable pool engine ∧ manager.Mirrors engine client ∧
      ∀ m ∈ seen, manager.Stale m := by
  induction session with
  | start created =>
      exact ⟨.start created, .start created client, by simp⟩
  | @step engine manager seen delivered c turn _ inSequence processed delivers
      inductionHypothesis =>
      obtain ⟨reachable, mirrors, stale⟩ := inductionHypothesis
      rw [delivers.consumeAll stale]
      refine ⟨.step reachable processed,
        mirrors.step reachable inSequence.truthful processed, ?_⟩
      intro m member
      rcases List.mem_append.mp member with isNew | before
      · exact stale_consumeAll manager isNew
      · exact (stale m before).mono (lastReport_le_consumeAll manager _)

/--
After every batch of a session the manager's orders are exactly the client's
resting orders, each with the instrument, side, price and quantity the engine
holds, and its positions are the engine's.
-/
theorem session_mirrors
    (session : Session pool client engine manager seen) :
    (∀ orderId terms,
        (manager.orders.find? orderId).map Message.terms = some terms ↔
          ∃ id m, engine.resting.find? id = some m ∧ m.clientId = client ∧
            m.orderId = orderId ∧ m.terms = terms) ∧
      ∀ instrument,
        (manager.position instrument).quantity =
            (engine.position client instrument).quantity ∧
          (manager.position instrument).volume =
            (engine.position client instrument).volume ∧
          (manager.position instrument).cash =
            (engine.position client instrument).cash := by
  obtain ⟨reachable, mirrors, _⟩ := session.mirrors
  refine ⟨fun orderId terms => ?_, fun instrument => ?_⟩
  · rw [mirrors.shows.orders]
    exact reachable.invariant.sound.linked.blotter_eq_some
  · rw [mirrors.shows.position]
    exact ⟨rfl, rfl, rfl⟩

/-- An order of one client, then an unsolicited fill and an old report again. -/
theorem session_mirrors_after_a_fill :
    ∃ engine manager seen,
      Session .capacity 7 engine manager seen ∧
        (∃ id m, engine.resting.find? id = some m ∧ m.clientId = 7 ∧
          m.orderId = 1 ∧ m.terms = ⟨1, .bid, 10, 3⟩) ∧
        (manager.position 1).quantity = 2 ∧
        (manager.position 1).quantity = (engine.position 7 1).quantity := by
  let order : Message :=
    { clientId := 7, requestId := 1, orderId := 1
      instrumentId := 1, price := 10, quantity := 5 }
  let sale : Message :=
    { clientId := 8, requestId := 1, orderId := 1, side := .ask
      instrumentId := 1, price := 10, quantity := 2 }
  let accepted : Message :=
    { order.asReport .accepted .none 1 1 with exchangeId := 1, remaining := 5 }
  let completed : Message :=
    { order.asReport .complete .none 1 2 with exchangeId := 1, remaining := 5 }
  let fill : Message :=
    { order.asReport .fill .none 1 4 with
      exchangeId := 1, quantity := 2, remaining := 3, tradeId := 1 }
  obtain ⟨first, processed, _, reachable⟩ := single_reachable.outcome order
  obtain ⟨second, processedNext, _, _⟩ := reachable.outcome sale
  have evaluated : ((single.process order).map fun turn =>
      (turn.batch.addressedTo 7, ((turn.engine.process sale).map fun next =>
        next.batch.addressedTo 7).toOption)).toOption =
      some ([accepted, completed], some [fill]) := by decide +kernel
  rw [processed] at evaluated
  simp only [Except.map, Except.toOption, Option.some.injEq, Prod.mk.injEq]
    at evaluated
  obtain ⟨answered, filled⟩ := evaluated
  rw [processedNext] at filled
  simp only [Option.some.injEq] at filled
  have started : Session .capacity 7 single {} [] :=
    .start ⟨OrderedMap.empty.insert 1 {}, 1, rfl⟩
  have opened := Session.step started
    (fun _ _ => Or.inl ⟨⟨rfl, by decide, by decide⟩, by decide, rfl⟩)
    processed (Delivers.refl [] _)
  rw [answered] at opened
  have again : Delivers ([accepted, completed] ++ [])
      (second.batch.addressedTo 7) [accepted, fill] := by
    rw [filled]
    exact .again (by simp) (.refl _ _)
  have session := Session.step opened
    (fun own => absurd own (by decide)) processedNext again
  obtain ⟨orders, positions⟩ := session_mirrors session
  have shown : (((({} : OrderManager).consumeAll
      [accepted, completed]).consumeAll [accepted, fill]).orders.find? 1).map
      Message.terms = some ⟨1, .bid, 10, 3⟩ := by decide +kernel
  have bought : (((({} : OrderManager).consumeAll
      [accepted, completed]).consumeAll [accepted, fill]).position
      1).quantity = 2 := by decide +kernel
  exact ⟨_, _, _, session, (orders 1 _).mp shown, bought, (positions 1).1⟩

end OrderManager

end LimitOrderBook
