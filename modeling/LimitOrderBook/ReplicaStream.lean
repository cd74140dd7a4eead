import LimitOrderBook.ReplicaMirror

namespace LimitOrderBook

/-!
# Replicas on a lossy stream

The deltas of a run reach a replica in any order, some of them never and some
of them more than once, between other messages, invalidations and restores
from snapshots that may be old.  A replica that says it is synchronized has
nevertheless applied exactly a prefix of the run's deltas.
-/

namespace Market

/-- The market after a number of deltas of a feed. -/
def upTo (deltas : List Message) (count : Nat) : Market :=
  (deltas.take count).foldl applyDelta empty

/-- Every delta of a feed is admitted where it stands. -/
theorem Feed.admits
    {slots : Nat} {market final : Market} {deltas : List Message}
    (feed : Feed slots market deltas final) {index : Nat} {m : Message}
    (here : deltas[index]? = some m) :
    ((deltas.take index).foldl applyDelta market).Admits slots m := by
  induction feed generalizing index with
  | done => simp at here
  | next admitted _ inductionHypothesis =>
      cases index with
      | zero =>
          simp only [List.getElem?_cons_zero, Option.some.injEq] at here
          exact here ▸ admitted
      | succ index =>
          simp only [List.getElem?_cons_succ] at here
          exact inductionHypothesis here

/-- A part of a feed from its start is a feed. -/
theorem Feed.take
    {slots : Nat} {market final : Market} {deltas : List Message}
    (feed : Feed slots market deltas final) (count : Nat) :
    Feed slots market (deltas.take count)
      ((deltas.take count).foldl applyDelta market) := by
  induction feed generalizing count with
  | done => rw [List.take_nil]; exact .done
  | next admitted _ inductionHypothesis =>
      cases count with
      | zero => exact .done
      | succ count => exact .next admitted (inductionHypothesis count)

theorem upTo_succ
    {deltas : List Message} {count : Nat} {m : Message}
    (here : deltas[count]? = some m) :
    upTo deltas (count + 1) = (upTo deltas count).applyDelta m := by
  simp [upTo, List.take_add_one, here]

end Market

/-- A numbered delta stands where its number says. -/
theorem Numbered.getElem?_of_mem
    {epoch : Nat} {sequence : Sequence} {deltas : List Message} {m : Message}
    (numbered : Numbered epoch sequence deltas) (member : m ∈ deltas) :
    sequence < m.sequence ∧ deltas[m.sequence - sequence - 1]? = some m := by
  induction deltas generalizing sequence with
  | nil => cases member
  | cons first rest inductionHypothesis =>
      obtain ⟨_, _, next, restNumbered⟩ := numbered
      rcases List.mem_cons.mp member with isFirst | later
      · subst isFirst
        have zero : m.sequence - sequence - 1 = 0 := by lia
        exact ⟨by lia, by rw [zero]; rfl⟩
      · obtain ⟨after, there⟩ := inductionHypothesis restNumbered later
        have shifted : m.sequence - sequence - 1 =
            m.sequence - (sequence + 1) - 1 + 1 := by lia
        refine ⟨by lia, ?_⟩
        rw [shifted, List.getElem?_cons_succ]
        exact there

namespace MarketReplica

open MatchingEngine

/-- What can happen to a replica. -/
inductive Action where
  | consume (m : Message)
  | invalidate
  | restore (rows : List Message)

/-- The replica after an action. -/
def act (replica : MarketReplica) : Action → MarketReplica
  | .consume m => (replica.consume m).1
  | .invalidate => replica.invalidate
  | .restore rows => (replica.restore rows).1

/--
Actions drawn from a run: deltas of the run, messages of another kind or epoch,
and snapshots taken between two commands.
-/
def Drawn (engine : MatchingEngine) (turns : List Turn) : Action → Prop
  | .consume m =>
      m ∈ feedOf turns ∨ m.kind ≠ .delta ∨ m.epoch ≠ engine.epoch
  | .invalidate => True
  | .restore rows =>
      ∃ boundary ∈ engine :: turns.map Turn.engine, rows = boundary.snapshot

/-- A synchronized replica shows a prefix of the deltas. -/
def PrefixOf (epoch : Nat) (deltas : List Message) (replica : MarketReplica) :
    Prop :=
  replica.synchronized = true →
    replica.sequence ≤ deltas.length ∧
      replica.Follows epoch replica.sequence
        (Market.upTo deltas replica.sequence)

variable {replica : MarketReplica} {deltas : List Message} {epoch : Nat}

theorem prefixOf_of_unsynchronized
    (unsynchronized : replica.synchronized = false) :
    replica.PrefixOf epoch deltas := by
  intro synchronized
  rw [unsynchronized] at synchronized
  cases synchronized

/-- Everything a call of `consume` can do. -/
inductive Consumed (replica : MarketReplica) (m : Message) :
    MarketReplica × Bool → Prop where
  | kept {accepted : Bool} : Consumed replica m (replica, accepted)
  | lost {books : Books} :
      Consumed replica m
        ({ replica with books := books, synchronized := false }, false)
  | applied {books : Books} :
      replica.synchronized = true →
      m.epoch = replica.epoch →
      m.kind = .delta →
      m.sequence = replica.sequence + 1 →
      applyUpdate replica.pool replica.books m = (books, .ok) →
      Consumed replica m
        ({ replica with books := books, sequence := m.sequence }, true)

theorem consume_consumed (replica : MarketReplica) (m : Message) :
    Consumed replica m (replica.consume m) := by
  unfold consume
  split
  · exact .kept
  · rename_i synchronized
    split
    · exact .lost
    · rename_i sameEpoch
      split
      · simp only
        split
        · exact .lost
        · exact .kept
      · split
        · exact .lost
        · rename_i isDelta
          split
          · exact .kept
          · rename_i later
            split
            · exact .lost
            · rename_i successor
              cases update : applyUpdate replica.pool replica.books m with
              | mk books result =>
                  simp only
                  split
                  · exact .lost
                  · rename_i succeeded
                    have isOk : result = .ok := not_not.mp succeeded
                    subst isOk
                    exact .applied (by simpa using synchronized)
                      (not_not.mp sameEpoch) (not_not.mp isDelta)
                      (by have one := not_not.mp successor; lia) update

/-- Consuming a delta of the feed or any message that is not one of its epoch. -/
theorem PrefixOf.consume
    {final : Market} (held : replica.PrefixOf epoch deltas)
    (numbered : Numbered epoch 0 deltas)
    (feed : Market.Feed replica.pool.book.slots Market.empty deltas final)
    {m : Message}
    (drawn : m ∈ deltas ∨ m.kind ≠ .delta ∨ m.epoch ≠ epoch) :
    (replica.consume m).1.PrefixOf epoch deltas ∧
      (replica.consume m).1.pool = replica.pool := by
  generalize consumed : replica.consume m = result
  have what := consume_consumed replica m
  rw [consumed] at what
  cases what with
  | kept => exact ⟨held, rfl⟩
  | lost => exact ⟨prefixOf_of_unsynchronized rfl, rfl⟩
  | @applied books synchronized sameEpoch isDelta next update =>
      obtain ⟨within, follows⟩ := held synchronized
      have epochs : m.epoch = epoch := sameEpoch.trans follows.epoch
      have member : m ∈ deltas := by
        rcases drawn with member | notDelta | notEpoch
        · exact member
        · exact absurd isDelta notDelta
        · exact absurd epochs notEpoch
      obtain ⟨_, here⟩ := numbered.getElem?_of_mem member
      have index : m.sequence - 0 - 1 = replica.sequence := by lia
      rw [index] at here
      obtain ⟨after, consumed', _, afterFollows⟩ :=
        follows.consume isDelta epochs next (feed.admits here)
      rw [consumed] at consumed'
      cases consumed'
      refine ⟨fun _ => ?_, rfl⟩
      simp only [next]
      refine ⟨(List.getElem?_eq_some_iff.mp here).1, ?_⟩
      rw [Market.upTo_succ here]
      rw [next] at afterFollows
      exact afterFollows

/-- A heartbeat beyond the last applied delta reveals a loss. -/
theorem consume_heartbeat
    {m : Message} (isHeartbeat : m.kind = .heartbeat)
    (beyond : replica.sequence < m.sequence) :
    (replica.consume m).1.synchronized = false := by
  by_cases unsynchronized : replica.synchronized = false
  · simp [consume, unsynchronized]
  · by_cases sameEpoch : m.epoch = replica.epoch
    · simp [consume, unsynchronized, sameEpoch, isHeartbeat, beyond, invalidate]
    · simp [consume, unsynchronized, sameEpoch, invalidate]

/-- Only a restore that succeeds synchronizes a replica. -/
theorem act_unsynchronized
    (unsynchronized : replica.synchronized = false) {action : Action}
    (resynchronized : (replica.act action).synchronized = true) :
    ∃ rows, action = .restore rows ∧ (replica.restore rows).2 = .ok () := by
  cases action with
  | consume m =>
      have what := consume_consumed replica m
      change (replica.consume m).1.synchronized = true at resynchronized
      generalize replica.consume m = result at what resynchronized
      cases what with
      | kept => rw [unsynchronized] at resynchronized; cases resynchronized
      | lost => cases resynchronized
      | applied synchronized =>
          rw [unsynchronized] at synchronized
          cases synchronized
  | invalidate => cases resynchronized
  | restore rows =>
      refine ⟨rows, rfl, ?_⟩
      simp only [act, restore] at resynchronized ⊢
      split at resynchronized
      · cases resynchronized
      · rfl

theorem resynchronized_by_restore
    (unsynchronized : replica.synchronized = false) (actions : List Action)
    (resynchronized : (actions.foldl act replica).synchronized = true) :
    ∃ before rows after,
      actions = before ++ .restore rows :: after ∧
        ((before.foldl act replica).restore rows).2 = .ok () := by
  induction actions generalizing replica with
  | nil =>
      rw [List.foldl_nil, unsynchronized] at resynchronized
      cases resynchronized
  | cons action rest inductionHypothesis =>
      cases state : (replica.act action).synchronized with
      | true =>
          obtain ⟨rows, rfl, success⟩ :=
            act_unsynchronized unsynchronized state
          exact ⟨[], rows, rest, rfl, success⟩
      | false =>
          obtain ⟨before, rows, after, rfl, success⟩ :=
            inductionHypothesis state resynchronized
          exact ⟨action :: before, rows, after, rfl, success⟩

end MarketReplica

namespace MatchingEngine

variable {engine boundary : MatchingEngine} {pool : PoolBytes}

/-- The engine between two commands of a run has applied a prefix of the feed. -/
theorem Reachable.boundary_market
    (reachable : Reachable pool engine) {messages : List Message}
    {turns : List Turn}
    (ran : StepSystem.run process Turn.engine engine messages = .ok turns)
    (member : boundary ∈ engine :: turns.map Turn.engine) :
    Reachable pool boundary ∧ boundary.epoch = engine.epoch ∧
      ∃ count, boundary.sequence = engine.sequence + count ∧
        count ≤ (feedOf turns).length ∧
        marketOf boundary.books =
          ((feedOf turns).take count).foldl Market.applyDelta
            (marketOf engine.books) := by
  induction messages generalizing engine turns with
  | nil =>
      cases ran
      obtain rfl : boundary = engine := by simpa using member
      exact ⟨reachable, rfl, 0, rfl, Nat.zero_le _, rfl⟩
  | cons c rest inductionHypothesis =>
      obtain ⟨turn, others, processed, restRan, rfl⟩ :=
        StepSystem.run_cons_ok ran
      rcases List.mem_cons.mp member with isFirst | later
      · subst isFirst
        exact ⟨reachable, rfl, 0, rfl, Nat.zero_le _, rfl⟩
      · obtain ⟨outcome, next⟩ := reachable.outcome_of processed
        have first := outcome.feeding reachable.invariant.sound
        obtain ⟨boundaryReachable, epoch, count, sequence, within, market⟩ :=
          inductionHypothesis next restRan later
        have unfolded : feedOf (turn :: others) =
            turn.batch.updates ++ feedOf others := rfl
        refine ⟨boundaryReachable, epoch.trans first.epoch,
          turn.batch.updates.length + count, ?_, ?_, ?_⟩
        · rw [sequence, first.sequence, Nat.add_assoc]
        · rw [unfolded, List.length_append]
          exact Nat.add_le_add_left within _
        · rw [market, unfolded, List.take_length_add_append, List.foldl_append,
            ← first.feed.final_eq]

theorem Created.sequence_eq_zero
    (created : Created pool engine) : engine.sequence = 0 := by
  obtain ⟨instruments, epoch, constructed⟩ := created
  obtain ⟨_, _, rfl⟩ := create_ok constructed
  rfl

end MatchingEngine

namespace MarketReplica

open MatchingEngine

variable {replica : MarketReplica} {engine : MatchingEngine}
  {pool : PoolBytes} {turns : List Turn} {messages : List Message}

/-- Every action drawn from a run keeps the prefix property. -/
theorem PrefixOf.act
    (created : Created replica.pool engine)
    (ran : StepSystem.run process Turn.engine engine messages = .ok turns)
    (held : replica.PrefixOf engine.epoch (feedOf turns)) {action : Action}
    (drawn : Drawn engine turns action) :
    (replica.act action).PrefixOf engine.epoch (feedOf turns) ∧
      (replica.act action).pool = replica.pool := by
  have reachable : Reachable replica.pool engine := .start created
  obtain ⟨turns', ran', _, feed, numbered, _⟩ := reachable.run_feeding messages
  rw [ran] at ran'
  cases ran'
  rw [created.market] at feed
  rw [created.sequence_eq_zero] at numbered
  cases action with
  | consume m => exact held.consume numbered feed drawn
  | invalidate => exact ⟨prefixOf_of_unsynchronized rfl, rfl⟩
  | restore rows =>
      obtain ⟨boundary, member, rfl⟩ := drawn
      obtain ⟨boundaryReachable, epoch, count, sequence, within, market⟩ :=
        reachable.boundary_market ran member
      rw [created.sequence_eq_zero, Nat.zero_add] at sequence
      rw [created.market] at market
      change (replica.restore boundary.snapshot).1.PrefixOf _ _ ∧
        (replica.restore boundary.snapshot).1.pool = _
      cases outcome : replica.restore boundary.snapshot with
      | mk restored result =>
          cases result with
          | ok _ =>
              obtain ⟨samePool, follows⟩ := restore_follows
                boundaryReachable.invariant boundaryReachable.epoch_ne_zero
                outcome
              refine ⟨fun _ => ?_, samePool⟩
              simp only
              rw [follows.sequence, sequence]
              refine ⟨within, ?_⟩
              rw [epoch, sequence, market] at follows
              exact follows
          | error text =>
              unfold restore at outcome
              split at outcome
              · cases outcome
                exact ⟨prefixOf_of_unsynchronized rfl, rfl⟩
              · cases outcome

theorem actions_prefixOf
    (created : Created replica.pool engine)
    (ran : StepSystem.run process Turn.engine engine messages = .ok turns)
    (held : replica.PrefixOf engine.epoch (feedOf turns))
    (actions : List Action)
    (drawn : ∀ action ∈ actions, Drawn engine turns action) :
    (actions.foldl act replica).PrefixOf engine.epoch (feedOf turns) ∧
      (actions.foldl act replica).pool = replica.pool := by
  induction actions generalizing replica with
  | nil => exact ⟨held, rfl⟩
  | cons action rest inductionHypothesis =>
      obtain ⟨next, samePool⟩ := held.act created ran (drawn action (by simp))
      obtain ⟨final, finalPool⟩ := inductionHypothesis
        (by rw [samePool]; exact created) next
        fun other member => drawn other (by simp [member])
      exact ⟨final, finalPool.trans samePool⟩

/-- A new replica after a list of actions. -/
def fed (pool : PoolBytes) (actions : List Action) : MarketReplica :=
  actions.foldl act { pool := pool }

/-- A synchronized replica with no books, before the first delta of an epoch. -/
def initial (pool : PoolBytes) (epoch : Nat) : MarketReplica :=
  { pool := pool, epoch := epoch, synchronized := true }

theorem initial_follows (pool : PoolBytes) (epoch : Nat) :
    (initial pool epoch).Follows epoch 0 Market.empty where
  synchronized := rfl
  epoch := rfl
  sequence := rfl
  books := ⟨fun _ _ found => (by cases found), rfl⟩

/--
Whatever a lossy stream, other messages, invalidations and old snapshots do to
a replica: when it is synchronized, its books are the result of applying the
first `sequence` deltas of the run, once each and in order, to empty books, and
at a command boundary its snapshot is the engine's.  A heartbeat beyond its
sequence leaves it unsynchronized, and only a restore that succeeds
synchronizes it again.
-/
theorem stream_safety
    (created : Created pool engine)
    (ran : StepSystem.run process Turn.engine engine messages = .ok turns)
    (actions : List Action)
    (drawn : ∀ action ∈ actions, Drawn engine turns action) :
    Numbered engine.epoch 0 (feedOf turns) ∧
      ((fed pool actions).synchronized = true →
        (fed pool actions).sequence ≤ (feedOf turns).length ∧
          marketOf (fed pool actions).books =
            ((feedOf turns).take (fed pool actions).sequence).foldl
              Market.applyDelta Market.empty ∧
          (∃ direct,
            (initial pool engine.epoch).consumeAll
                ((feedOf turns).take (fed pool actions).sequence) =
              (direct, true) ∧
            marketOf direct.books = marketOf (fed pool actions).books ∧
            direct.snapshot = (fed pool actions).snapshot) ∧
          ∀ boundary ∈ engine :: turns.map Turn.engine,
            boundary.sequence = (fed pool actions).sequence →
            (fed pool actions).snapshot = .ok boundary.snapshot) ∧
      (∀ heartbeat : Message, heartbeat.kind = .heartbeat →
        (fed pool actions).sequence < heartbeat.sequence →
        ((fed pool actions).consume heartbeat).1.synchronized = false) ∧
      ((fed pool actions).synchronized = false →
        ∀ later : List Action,
          (later.foldl act (fed pool actions)).synchronized = true →
          ∃ before rows after,
            later = before ++ .restore rows :: after ∧
              ((before.foldl act (fed pool actions)).restore rows).2 =
                .ok ()) := by
  have reachable : Reachable pool engine := .start created
  obtain ⟨turns', ran', _, feed, numbered, _⟩ := reachable.run_feeding messages
  rw [ran] at ran'
  cases ran'
  rw [created.market] at feed
  rw [created.sequence_eq_zero] at numbered
  have fresh : ({ pool := pool } : MarketReplica).PrefixOf engine.epoch
      (feedOf turns) := prefixOf_of_unsynchronized rfl
  have held : (fed pool actions).PrefixOf engine.epoch (feedOf turns) :=
    (actions_prefixOf created ran fresh actions drawn).1
  refine ⟨numbered, ?_, fun _ => consume_heartbeat,
    fun unsynchronized => resynchronized_by_restore unsynchronized⟩
  intro synchronized
  obtain ⟨within, follows⟩ := held synchronized
  refine ⟨within, follows.books.shows, ?_, ?_⟩
  · obtain ⟨direct, consumed, _, directFollows⟩ :=
      (initial_follows pool engine.epoch).consumeAll
        (numbered.take (fed pool actions).sequence)
        (feed.take (fed pool actions).sequence)
    rw [Nat.zero_add, List.length_take, Nat.min_eq_left within]
      at directFollows
    exact ⟨direct, consumed,
      directFollows.books.shows.trans follows.books.shows.symm,
      directFollows.snapshot_eq follows⟩
  · intro boundary member sameSequence
    obtain ⟨boundaryReachable, epoch, count, sequence, _, market⟩ :=
      reachable.boundary_market ran member
    rw [created.sequence_eq_zero, Nat.zero_add] at sequence
    rw [created.market] at market
    have current : marketOf boundary.books =
        Market.upTo (feedOf turns) (fed pool actions).sequence := by
      rw [market, ← sameSequence, sequence]
      rfl
    rw [← current, ← epoch, ← sameSequence] at follows
    exact follows.snapshot boundaryReachable.invariant.sound

/--
A replica of a new engine misses the first delta and sees the second, is
restored from the old snapshot, sees the first twice and then the second.
-/
theorem stream_safety_after_a_gap :
    ∃ turns missed seen,
      StepSystem.run process Turn.engine single
          [{ clientId := 7, requestId := 1, orderId := 1
             instrumentId := 1, price := 10, quantity := 5 },
            { clientId := 8, requestId := 1, orderId := 1, side := .ask
              instrumentId := 1, price := 11, quantity := 2 }] = .ok turns ∧
        feedOf turns = [missed, seen] ∧
        (fed .capacity
          [.restore single.snapshot, .consume seen]).synchronized = false ∧
        (fed .capacity
          [.restore single.snapshot, .consume seen,
            .restore single.snapshot, .consume missed, .consume missed,
            .consume seen]).snapshot =
          .ok (StepSystem.last Turn.engine single turns).snapshot := by
  let orders : List Message :=
    [{ clientId := 7, requestId := 1, orderId := 1
       instrumentId := 1, price := 10, quantity := 5 },
      { clientId := 8, requestId := 1, orderId := 1, side := .ask
        instrumentId := 1, price := 11, quantity := 2 }]
  let missed : Message :=
    { kind := .delta, epoch := 1, sequence := 1, exchangeId := 1
      instrumentId := 1, price := 10, quantity := 5, remaining := 5 }
  let seen : Message :=
    { kind := .delta, epoch := 1, sequence := 2, exchangeId := 2, side := .ask
      instrumentId := 1, price := 11, quantity := 2, remaining := 2 }
  have evaluated : ((StepSystem.run process Turn.engine single orders).map
      fun turns => (feedOf turns,
        (StepSystem.last Turn.engine single turns).sequence)).toOption =
      some ([missed, seen], 2) := by decide +kernel
  obtain ⟨turns, ran, _⟩ := single_reachable.run_feeding orders
  rw [ran] at evaluated
  simp only [Except.map, Except.toOption, Option.some.injEq, Prod.mk.injEq]
    at evaluated
  obtain ⟨feed, sequence⟩ := evaluated
  have created : Created .capacity single :=
    ⟨OrderedMap.empty.insert 1 {}, 1, rfl⟩
  have safe := stream_safety created ran
    [.restore single.snapshot, .consume seen, .restore single.snapshot,
      .consume missed, .consume missed, .consume seen]
    (by simp [Drawn, feed])
  refine ⟨turns, missed, seen, ran, feed, by decide +kernel, ?_⟩
  exact (safe.2.1 (by decide +kernel)).2.2.2 _
    (StepSystem.last_mem Turn.engine single turns)
    (sequence.trans (by decide +kernel))

end MarketReplica

end LimitOrderBook
