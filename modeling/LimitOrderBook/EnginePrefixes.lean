import LimitOrderBook.EnginePairs
import LimitOrderBook.ReplicaStream

namespace LimitOrderBook

/-!
# The market in the middle of a command

A follower of the feed can stop after any delta, also between two deltas of
one command.  A command takes from the market before it adds its residual, so
no prefix of a feed shows a crossed market.
-/

namespace Market

variable {slots : Nat} {market final : Market} {m : Message}
  {instrument : InstrumentId} {orderId : OrderId} {quantity : Quantity}
  {deltas : List Message}

/-- Quantities that fit the source's type. -/
def Narrow (market : Market) : Prop :=
  ∀ instrument side, ∀ order ∈ market instrument side,
    order.quantity < 2 ^ 32

/-- An execution takes whole orders or a part of their quantity. -/
theorem of_mem_execute
    {other : InstrumentId} {side : Side} {order : OrderView}
    (member : order ∈ market.execute instrument orderId quantity other side) :
    ∃ old ∈ market other side, old.orderId = order.orderId ∧
      old.price = order.price ∧ order.quantity ≤ old.quantity := by
  unfold execute at member
  split at member
  · obtain ⟨old, oldMember, executed⟩ := List.mem_filterMap.mp member
    refine ⟨old, oldMember, ?_⟩
    unfold OrderBook.executeView at executed
    split at executed
    · split at executed
      · cases executed
      · cases executed
        exact ⟨rfl, rfl, Nat.sub_le _ _⟩
    · cases executed
      exact ⟨rfl, rfl, Nat.le_refl _⟩
  · exact ⟨order, member, rfl, rfl, Nat.le_refl _⟩

theorem shrinks_execute (market : Market) (instrument : InstrumentId)
    (orderId : OrderId) (quantity : Quantity) :
    market.Shrinks (market.execute instrument orderId quantity) := by
  intro other side order member
  obtain ⟨old, oldMember, sameId, samePrice, _⟩ := of_mem_execute member
  exact ⟨old, oldMember, sameId, samePrice⟩

/-- Only an `Add` brings an order or a price. -/
theorem shrinks_applyDelta (market : Market) (notAdd : m.update ≠ .add) :
    market.Shrinks (market.applyDelta m) := by
  unfold applyDelta
  split
  · exact absurd ‹m.update = .add› notAdd
  · exact shrinks_remove _ _ _
  · exact shrinks_execute _ _ _ _
  · exact shrinks_resize _ _ _ _
  · exact .refl market
  · exact .refl market

theorem Narrow.applyDelta
    (narrow : market.Narrow) (admitted : market.Admits slots m)
    (notAdd : m.update ≠ .add) : (market.applyDelta m).Narrow := by
  intro other side order member
  cases type : m.update with
  | add => exact absurd type notAdd
  | cancel =>
      simp only [Market.applyDelta, type, remove] at member
      split at member
      · exact narrow _ _ _ (List.mem_of_mem_filter member)
      · exact narrow _ _ _ member
  | execute =>
      simp only [Market.applyDelta, type] at member
      obtain ⟨old, oldMember, _, _, less⟩ := of_mem_execute member
      exact less.trans_lt (narrow _ _ _ oldMember)
  | reduce =>
      simp only [Admits, type] at admitted
      obtain ⟨_, ⟨liveSide, live, liveMember, _, rfl⟩, _, less⟩ := admitted
      simp only [Market.applyDelta, type, resize] at member
      split at member
      · obtain ⟨old, oldMember, rfl⟩ := List.mem_map.mp member
        unfold OrderView.resize
        split
        · exact less.trans (narrow _ _ _ liveMember)
        · exact narrow _ _ _ oldMember
      · exact narrow _ _ _ member
  | trade =>
      simp only [Market.applyDelta, type] at member
      exact narrow _ _ _ member
  | unlisted raw outside =>
      simp only [Market.applyDelta, type] at member
      exact narrow _ _ _ member

/-- A market that books of the source can show without being crossed. -/
structure Regular (market : Market) : Prop where
  uncrossed : market.Uncrossed
  narrow : market.Narrow

/-- Deltas that only take keep a market regular. -/
theorem Regular.foldl
    (regular : market.Regular) (feed : Feed slots market deltas final)
    (noAdd : ∀ m ∈ deltas, m.update ≠ .add) :
    (deltas.foldl applyDelta market).Regular := by
  induction feed with
  | done => exact regular
  | @next market final m rest admitted _ inductionHypothesis =>
      have notAdd := noAdd m List.mem_cons_self
      exact inductionHypothesis
        ⟨regular.uncrossed.shrinks (shrinks_applyDelta market notAdd),
          regular.narrow.applyDelta admitted notAdd⟩
        fun other member => noAdd other (List.mem_cons_of_mem _ member)

end Market

/-! ## The order of the deltas of a command -/

/-- Whatever is added is added last. -/
def AddsLast (deltas : List Message) : Prop :=
  ∃ taking added, deltas = taking ++ added ∧
    (∀ m ∈ taking, m.update ≠ .add) ∧ added.length ≤ 1

theorem addsLast_of_taking
    {deltas : List Message} (taking : ∀ m ∈ deltas, m.update ≠ .add) :
    AddsLast deltas :=
  ⟨deltas, [], (List.append_nil _).symm, taking, Nat.zero_le _⟩

/-- Before the last delta nothing has been added. -/
theorem AddsLast.noAdd_take
    {deltas : List Message} (addsLast : AddsLast deltas) {count : Nat}
    (proper : count < deltas.length) :
    ∀ m ∈ deltas.take count, m.update ≠ .add := by
  obtain ⟨taking, added, rfl, noAdd, atMostOne⟩ := addsLast
  rw [List.length_append] at proper
  have within : count ≤ taking.length := by lia
  rw [List.take_append_of_le_length within]
  exact fun m member => noAdd m (List.mem_of_mem_take member)

namespace Turn

variable {slots : Nat} {turn final : Turn} {c : Message}

theorem Cancels.taking
    {request : Nat} {ms : List Message}
    (cancels : Cancels slots request turn ms final)
    (taking : ∀ m ∈ turn.batch.updates, m.update ≠ .add) :
    ∀ m ∈ final.batch.updates, m.update ≠ .add := by
  induction cancels with
  | done => exact taking
  | @next turn final m _ books _ _ _ inductionHypothesis =>
      refine inductionHypothesis ?_
      intro other member
      rcases List.mem_append.mp member with before | isNew
      · exact taking other before
      · rw [List.mem_singleton.mp isNew]
        simp

theorem Handled.addsLast
    (handled : Handled slots turn c final) (sound : turn.engine.Sound slots)
    (silent : turn.batch = {}) : AddsLast final.batch.updates := by
  have nothing : turn.batch.updates = [] := by rw [silent]
  have quiet : ∀ m ∈ turn.batch.updates, m.update ≠ .add := by
    intro m member
    rw [nothing] at member
    cases member
  cases handled with
  | rejected _ => exact addsLast_of_taking quiet
  | full => exact addsLast_of_taking quiet
  | cancelled _ cancels => exact addsLast_of_taking (cancels.taking quiet)
  | @reduced old r books =>
      obtain ⟨added, updates, areReduces⟩ := afterReduce_updates turn c old books
      rw [updates, nothing, List.nil_append]
      exact addsLast_of_taking fun m member => by simp [areReduces m member]
  | @placed old r fills leaves books swept _ placement =>
      obtain ⟨prints, printed, _⟩ := placement.printed sound
      obtain ⟨before, entryUpdates, areCancels⟩ :=
        afterEntry_updates turn c old (turn.restOf c leaves) books
      have taking : ∀ m ∈ swept.batch.updates, m.update ≠ .add := by
        rw [printed.updates, entryUpdates, nothing, List.nil_append]
        intro m member
        rcases List.mem_append.mp member with isCancel | isPrint
        · simp [areCancels m isCancel]
        · obtain ⟨print, printMember, inPrint⟩ := List.mem_flatMap.mp isPrint
          have agrees := printed.shown.agrees print printMember
          simp only [TradePrint.updates, List.mem_cons, List.not_mem_nil,
            or_false] at inPrint
          rcases inPrint with rfl | rfl
          · simp [agrees.execute]
          · simp [agrees.trade]
      unfold publishResidual
      split
      · exact ⟨swept.batch.updates, [_], rfl, taking, Nat.le_refl _⟩
      · split
        · exact addsLast_of_taking taking
        · exact addsLast_of_taking taking

end Turn

namespace MatchingEngine

variable {slots : Nat} {engine : MatchingEngine} {c : Message} {turn : Turn}
  {pool : PoolBytes}

theorem Outcome.addsLast
    (outcome : Outcome slots engine c turn) (sound : engine.Sound slots) :
    AddsLast turn.batch.updates := by
  rcases outcome.quiet_or_handled with quiet | ⟨_, done, handled, rfl⟩
  · rw [quiet.updates]
    exact addsLast_of_taking (by simp)
  · exact handled.addsLast (start_sound sound c) rfl

/-! ## Every prefix of a feed -/

/-- Between two commands the market is regular. -/
theorem Invariant.regular (invariant : engine.Invariant slots) :
    (marketOf engine.books).Regular where
  uncrossed := invariant.uncrossed
  narrow instrument side order member := by
    obtain ⟨m, found, _, _, rfl⟩ :=
      (invariant.sound.linked.shown _ _ _).mp member
    exact invariant.sound.quantity_lt found

/-- In a run no number of deltas leads to a crossed market. -/
theorem Reachable.regular_take
    (reachable : Reachable pool engine) {messages : List Message}
    {turns : List Turn}
    (ran : StepSystem.run process Turn.engine engine messages = .ok turns)
    (count : Nat) :
    (((feedOf turns).take count).foldl Market.applyDelta
      (marketOf engine.books)).Regular := by
  induction messages generalizing engine turns count with
  | nil =>
      cases ran
      simpa [feedOf] using reachable.invariant.regular
  | cons c rest inductionHypothesis =>
      obtain ⟨turn, others, processed, restRan, rfl⟩ :=
        StepSystem.run_cons_ok ran
      obtain ⟨outcome, next⟩ := reachable.outcome_of processed
      have sound := reachable.invariant.sound
      have feeding := outcome.feeding sound
      have unfolded : feedOf (turn :: others) =
          turn.batch.updates ++ feedOf others := rfl
      rw [unfolded]
      -- The prefix ends within the first batch or behind it.
      by_cases inside : count < turn.batch.updates.length
      · rw [List.take_append_of_le_length inside.le]
        exact reachable.invariant.regular.foldl (feeding.feed.take count)
          ((outcome.addsLast sound).noAdd_take inside)
      · rw [List.take_append, List.take_of_length_le (Nat.le_of_not_lt inside),
          List.foldl_append, ← feeding.feed.final_eq]
        exact inductionHypothesis next restRan _

/-- A follower of a run never sees a crossed market. -/
theorem Created.regular_upTo
    (created : Created pool engine) {messages : List Message}
    {turns : List Turn}
    (ran : StepSystem.run process Turn.engine engine messages = .ok turns)
    (count : Nat) : (Market.upTo (feedOf turns) count).Regular := by
  have reachable : Reachable pool engine := .start created
  have regular := reachable.regular_take ran count
  rw [created.market] at regular
  exact regular

end MatchingEngine

end LimitOrderBook
