import LimitOrderBook.ReplicaSnapshot

namespace LimitOrderBook

/-!
# Replicas mirror the engine

A replica restored from a snapshot of a reachable engine and given every later
update in order accepts all of them and has the engine's snapshot after every
batch.
-/

namespace MatchingEngine

variable {engine : MatchingEngine} {pool : PoolBytes} {c : Message}
  {turn : Turn}

theorem Created.epoch_ne_zero
    (created : Created pool engine) : engine.epoch ≠ 0 := by
  obtain ⟨instruments, epoch, constructed⟩ := created
  obtain ⟨_, nonzero, rfl⟩ := create_ok constructed
  exact nonzero

theorem Reachable.epoch_ne_zero
    (reachable : Reachable pool engine) : engine.epoch ≠ 0 :=
  reachable.induction (fun _ created => created.epoch_ne_zero)
    fun _ _ _ invariant outcome nonzero => by
      rw [(outcome.feeding invariant.sound).epoch]
      exact nonzero

/-- All updates of a list of batches. -/
def feedOf (turns : List Turn) : List Message :=
  turns.flatMap fun turn => turn.batch.updates

/-- The updates of a run lead from its first market to its last. -/
theorem Reachable.run_feeding
    (reachable : Reachable pool engine) (messages : List Message) :
    ∃ turns,
      StepSystem.run process Turn.engine engine messages = .ok turns ∧
        Reachable pool (StepSystem.last Turn.engine engine turns) ∧
        Market.Feed pool.book.slots (marketOf engine.books) (feedOf turns)
          (marketOf (StepSystem.last Turn.engine engine turns).books) ∧
        Numbered engine.epoch engine.sequence (feedOf turns) ∧
        (StepSystem.last Turn.engine engine turns).sequence =
          engine.sequence + (feedOf turns).length ∧
        (StepSystem.last Turn.engine engine turns).epoch = engine.epoch := by
  induction messages generalizing engine with
  | nil => exact ⟨[], rfl, reachable, .done, trivial, rfl, rfl⟩
  | cons c rest inductionHypothesis =>
      obtain ⟨turn, processed, outcome, next⟩ := reachable.outcome c
      have first := outcome.feeding reachable.invariant.sound
      obtain ⟨turns, ran, lastReachable, feed, numbered, sequence, epoch⟩ :=
        inductionHypothesis next
      rw [first.epoch, first.sequence] at numbered
      refine ⟨turn :: turns, StepSystem.run_cons_of_ok processed ran,
        lastReachable, first.feed.append feed,
        first.numbered.append numbered, ?_, epoch.trans first.epoch⟩
      have unfolded : feedOf (turn :: turns) =
          turn.batch.updates ++ feedOf turns := rfl
      rw [unfolded, List.length_append, ← Nat.add_assoc, ← first.sequence]
      exact sequence

end MatchingEngine

namespace MarketReplica

open MatchingEngine

variable {engine : MatchingEngine}

/--
A replica restored from the snapshot of any reachable engine accepts every
update of every later batch.  The updates are numbered consecutively from the
watermark of the snapshot, and after the last batch of any run the snapshots of
engine and replica are equal row for row.
-/
theorem restored_mirrors
    (replica : MarketReplica) (reachable : Reachable replica.pool engine) :
    (engine.resting.size < 2 ^ 32 →
        ∃ restored, replica.restore engine.snapshot = (restored, .ok ())) ∧
      ∀ restored, replica.restore engine.snapshot = (restored, .ok ()) →
        ∀ messages, ∃ turns mirror,
          StepSystem.run process Turn.engine engine messages = .ok turns ∧
            Numbered engine.epoch engine.sequence (feedOf turns) ∧
            restored.consumeAll (feedOf turns) = (mirror, true) ∧
            mirror.snapshot =
              .ok (StepSystem.last Turn.engine engine turns).snapshot := by
  have invariant := reachable.invariant
  have epoch := reachable.epoch_ne_zero
  refine ⟨restore_ok invariant epoch, ?_⟩
  intro restored success messages
  obtain ⟨samePool, follows⟩ := restore_follows invariant epoch success
  obtain ⟨turns, ran, lastReachable, feed, numbered, sequence, lastEpoch⟩ :=
    reachable.run_feeding messages
  rw [← samePool] at feed
  obtain ⟨mirror, consumed, _, mirrors⟩ := follows.consumeAll numbered feed
  rw [← sequence, ← lastEpoch] at mirrors
  exact ⟨turns, mirror, ran, numbered, consumed,
    mirrors.snapshot lastReachable.invariant.sound⟩

/-- A replica of a new engine follows an order and a trade. -/
theorem restored_mirrors_a_trade :
    ∃ restored turns mirror,
      restore { pool := .capacity } single.snapshot = (restored, .ok ()) ∧
        StepSystem.run process Turn.engine single
          [{ clientId := 7, requestId := 1, orderId := 1
             instrumentId := 1, price := 10, quantity := 5 },
            { clientId := 8, requestId := 1, orderId := 1, side := .ask
              instrumentId := 1, price := 10, quantity := 2 }] = .ok turns ∧
        restored.consumeAll (feedOf turns) = (mirror, true) ∧
        mirror.snapshot =
          .ok (StepSystem.last Turn.engine single turns).snapshot := by
  obtain ⟨restores, mirrors⟩ :=
    restored_mirrors { pool := .capacity } single_reachable
  obtain ⟨restored, success⟩ := restores (by decide +kernel)
  obtain ⟨turns, mirror, ran, _, consumed, same⟩ := mirrors restored success
    [{ clientId := 7, requestId := 1, orderId := 1
       instrumentId := 1, price := 10, quantity := 5 },
      { clientId := 8, requestId := 1, orderId := 1, side := .ask
        instrumentId := 1, price := 10, quantity := 2 }]
  exact ⟨restored, turns, mirror, success, ran, consumed, same⟩

end MarketReplica

end LimitOrderBook
