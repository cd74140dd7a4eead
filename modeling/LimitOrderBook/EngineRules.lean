import LimitOrderBook.EngineReplies

namespace LimitOrderBook

/-!
# The rules of an instrument over whole runs

The rules are checked on the quantity that comes in.  What rests later and what
is reported later are parts of such quantities; they stay whole lots, because
the smaller of two whole numbers of lots is one, and so is the difference.
-/

/-- A message about a positive number of whole lots of its instrument. -/
def InLots (instruments : Instruments) (m : Message) : Prop :=
  ∃ r, instruments.find? m.instrumentId = some r ∧ m.quantity ≠ 0 ∧
    m.quantity % r.lotSize.toNat = 0

/-- Reports of fills and cancellations. -/
def Message.Moves (m : Message) : Prop :=
  m.report = .fill ∨ m.report = .cancelled

/-- All quantities that are published or reported as moved are whole lots. -/
structure WholeLots (instruments : Instruments)
    (reports updates : List Message) : Prop where
  moves : ∀ m ∈ reports, m.Moves → InLots instruments m
  published : ∀ m ∈ updates, InLots instruments m

namespace WholeLots

variable {instruments : Instruments} {reports updates : List Message}
  {m : Message}

theorem report
    (lots : WholeLots instruments reports updates)
    (inLots : m.Moves → InLots instruments m) :
    WholeLots instruments (reports ++ [m]) updates where
  moves other member moves := by
    rcases List.mem_append.mp member with before | isLast
    · exact lots.moves other before moves
    · rw [List.mem_singleton.mp isLast] at moves ⊢
      exact inLots moves
  published := lots.published

theorem update
    (lots : WholeLots instruments reports updates)
    (inLots : InLots instruments m) :
    WholeLots instruments reports (updates ++ [m]) where
  moves := lots.moves
  published other member := by
    rcases List.mem_append.mp member with before | isLast
    · exact lots.published other before
    · rw [List.mem_singleton.mp isLast]
      exact inLots

end WholeLots

/-- What a turn has told so far is about whole lots. -/
def Turn.TellsLots (turn : Turn) (instruments : Instruments) : Prop :=
  WholeLots instruments turn.batch.reports turn.batch.updates

namespace Turn

variable {slots : Nat} {turn final swept : Turn} {c incoming maker : Message}
  {left after leaves : Quantity} {old : Option Message} {r : InstrumentRules}
  {fills : List Fill} {books : Books}

/-- Resting orders are whole lots. -/
theorem inLots_of_found
    {engine : MatchingEngine} (sound : engine.Sound slots) {id : OrderId}
    {m : Message} (found : engine.resting.find? id = some m) :
    InLots engine.instruments m := by
  obtain ⟨r, rules, allows⟩ := (sound.backed id m found).allowed
  exact ⟨r, rules, (sound.positive found).2, allows.lot⟩

/-- Both sides of a fill are about whole lots. -/
theorem FillOf.inLots
    {fill : Fill} (fillOf : FillOf turn.engine c maker fill left)
    (sound : turn.engine.Sound slots) {m : Message}
    (instrument : m.instrumentId = c.instrumentId)
    (quantity : m.quantity = fill.size) :
    InLots turn.engine.instruments m := by
  obtain ⟨r, rules, _⟩ := (sound.backed _ maker fillOf.found).allowed
  rw [fillOf.instrument] at rules
  refine ⟨r, by rw [instrument]; exact rules, ?_, ?_⟩
  · rw [quantity]
    exact fillOf.positive
  · rw [quantity]
    exact fillOf.lots r rules

theorem Fills.wholeLots
    (executed : Fills slots c incoming turn left fills final after)
    (sound : turn.engine.Sound slots)
    (instrument : incoming.instrumentId = c.instrumentId)
    (lots : turn.TellsLots turn.engine.instruments) :
    final.TellsLots final.engine.instruments := by
  induction executed with
  | done => exact lots
  | @next turn final left after fill rest maker books fillOf reshelved _
      inductionHypothesis =>
      have made : InLots turn.engine.instruments
          (execution maker fill turn.engine.nextTrade) :=
        fillOf.inLots sound fillOf.instrument rfl
      have taken : InLots turn.engine.instruments
          (takerFill incoming fill (left - fill.size)
            turn.engine.nextTrade) :=
        fillOf.inLots sound instrument rfl
      exact inductionHypothesis
        (afterFill_sound incoming sound fillOf reshelved)
        (.update (.report (.update (.report lots fun _ => made) made)
          fun _ => taken) taken)

theorem Cancels.wholeLots
    {request : Nat} {ms : List Message}
    (cancels : Cancels slots request turn ms final)
    (sound : turn.engine.Sound slots)
    (lots : turn.TellsLots turn.engine.instruments) :
    final.TellsLots final.engine.instruments := by
  induction cancels with
  | done => exact lots
  | @next turn final m rest books found reshelved _ inductionHypothesis =>
      have gone := inLots_of_found sound found
      exact inductionHypothesis (afterCancel_sound sound found reshelved)
        (.report (.update lots gone) fun _ => gone)

/-- What a placed command leaves is whole lots. -/
theorem Placement.leaves_inLots
    (placement : Placement slots turn c old r fills leaves books swept)
    (sound : turn.engine.Sound slots) (someLeft : leaves ≠ 0) {m : Message}
    (instrument : m.instrumentId = c.instrumentId)
    (quantity : m.quantity = leaves) :
    InLots turn.engine.instruments m := by
  have rules := placement.checked.rules
  refine ⟨r, by rw [instrument]; exact rules, ?_, ?_⟩
  · rw [quantity]
    exact someLeft
  · rw [quantity, placement.rest, placement.plan]
    exact leaves_lots sound rules placement.checked.command.lots _

theorem Placement.wholeLots
    (placement : Placement slots turn c old r fills leaves books swept)
    (sound : turn.engine.Sound slots)
    (lots : turn.TellsLots turn.engine.instruments) :
    (swept.publishResidual (turn.engine.incoming c) leaves
      (rests c leaves)).TellsLots turn.engine.instruments := by
  have entered : (turn.afterEntry c old (turn.restOf c leaves)
      books).TellsLots turn.engine.instruments := by
    cases old with
    | none => exact lots.report (by simp [Message.Moves, entryReport])
    | some m =>
        have gone := inLots_of_found sound placement.enters.found
        exact .report (.update lots gone) (by simp [Message.Moves, entryReport])
  have entryRules : (turn.afterEntry c old (turn.restOf c leaves)
      books).engine.instruments = turn.engine.instruments := by
    rw [afterEntry_engine]
  have sweptLots : swept.TellsLots turn.engine.instruments := by
    have executed := placement.executed.wholeLots placement.entrySound rfl
      (by rw [entryRules]; exact entered)
    rwa [placement.executed.instruments, entryRules] at executed
  have rest : leaves ≠ 0 → InLots turn.engine.instruments
      (turn.engine.residual c leaves) :=
    fun someLeft => placement.leaves_inLots sound someLeft rfl rfl
  unfold publishResidual
  split
  · rename_i restsHere
    simp only [rests, decide_eq_true_eq] at restsHere
    exact sweptLots.update (rest restsHere.1)
  · split
    · rename_i someLeft
      exact sweptLots.report fun _ => rest someLeft
    · exact sweptLots

theorem Handled.wholeLots
    (handled : Handled slots turn c final) (sound : turn.engine.Sound slots)
    (lots : turn.TellsLots turn.engine.instruments) :
    final.TellsLots final.engine.instruments := by
  rw [handled.instruments]
  cases handled with
  | rejected _ => exact lots.report (by simp [Message.Moves])
  | full => exact lots.report (by simp [Message.Moves])
  | cancelled _ cancels =>
      rw [← cancels.instruments]
      exact cancels.wholeLots sound lots
  | @reduced old _ _ _ checked _ _ _ _ =>
      have reduced : InLots turn.engine.instruments (reduction c old) :=
        ⟨_, checked.rules, checked.command.quantityPos, checked.command.lots⟩
      unfold afterReduce
      split
      · exact .report (.update lots reduced) (by simp [Message.Moves])
      · exact lots.report (by simp [Message.Moves])
  | placed _ placement => exact placement.wholeLots sound lots

end Turn

namespace MatchingEngine

variable {slots : Nat} {engine : MatchingEngine} {c : Message} {turn : Turn}
  {pool : PoolBytes}

theorem process_wholeLots
    (sound : engine.Sound slots) (notRetry : ¬ engine.Retries c)
    (processed : engine.process c = .ok turn) :
    turn.TellsLots engine.instruments := by
  obtain ⟨turn', processed', outcome, _⟩ := process_outcome sound c
  rw [processed] at processed'
  cases processed'
  have silent : WholeLots engine.instruments [] [] :=
    ⟨by simp, by simp⟩
  cases outcome with
  | refused _ => exact silent.report (by simp [Message.Moves])
  | status _ _ => exact silent.report (by simp [Message.Moves])
  | anonymous _ _ =>
      exact (silent.report (by simp [Message.Moves])).report
        (by simp [Message.Moves])
  | retried retries => exact absurd retries notRetry
  | unsequenced _ _ _ _ _ =>
      exact (silent.report (by simp [Message.Moves])).report
        (by simp [Message.Moves])
  | handled _ handled =>
      have done := handled.wholeLots (start_sound sound c) silent
      rw [handled.instruments] at done
      exact done.report (by simp [Message.Moves])

/-- What is remembered is about whole lots. -/
theorem Reachable.cachedLots
    (reachable : Reachable pool engine) (client : ClientId)
    (asked : (engine.clientState client).lastRequest ≠ 0) :
    ∀ m ∈ (engine.clientState client).cached, m.Moves →
      InLots engine.instruments m := by
  refine (reachable.memory (fun engine _ reports =>
    ∀ m ∈ reports, m.Moves → InLots engine.instruments m) ?_ ?_ client asked).2
  · intro engine c turn reachable sequenced processed m member
    have sound := reachable.invariant.sound
    obtain ⟨outcome, _⟩ := reachable.outcome_of processed
    rw [outcome.instruments sound]
    exact (process_wholeLots sound sequenced.notRetry processed).moves m
      (List.mem_of_mem_filter member)
  · intro engine other turn c reports reachable processed _ held
    obtain ⟨outcome, _⟩ := reachable.outcome_of processed
    rw [outcome.instruments reachable.invariant.sound]
    exact held

/-- The rules for a resting order. -/
structure RuledBy (r : InstrumentRules) (m : Message) : Prop where
  allows : r.Allows m
  positive : m.quantity ≠ 0

/--
In every reachable engine all resting orders keep the rules of their
instrument, the books list exactly these orders, and whatever a call tells
of fills, cancellations and market data is about whole lots.
-/
theorem instrument_rules (reachable : Reachable pool engine) :
    (∀ id m r, engine.resting.find? id = some m →
      engine.instruments.find? m.instrumentId = some r → RuledBy r m) ∧
    (∀ instrument side order,
      order ∈ marketOf engine.books instrument side ↔
        ∃ m, engine.resting.find? order.orderId = some m ∧
          m.instrumentId = instrument ∧ m.side = side ∧
            orderView m = order) ∧
    ∀ c turn, engine.process c = .ok turn →
      turn.TellsLots engine.instruments := by
  have sound := reachable.invariant.sound
  refine ⟨fun id m r found rules => ?_, fun instrument side order => ?_,
    fun c turn processed => ?_⟩
  · obtain ⟨r', rules', allows⟩ := (sound.backed id m found).allowed
    rw [rules] at rules'
    cases rules'
    exact ⟨allows, (sound.positive found).2⟩
  · exact sound.linked.shown instrument side order
  · by_cases retries : engine.Retries c
    · obtain ⟨outcome, _⟩ := reachable.outcome_of processed
      have asked : (engine.clientState c.clientId).lastRequest ≠ 0 := by
        rw [← lastRequest, ← retries.sameRequest]
        exact retries.request
      rw [outcome.of_retries retries]
      exact ⟨reachable.cachedLots c.clientId asked, by simp⟩
    · exact process_wholeLots sound retries processed

/-- The rest of a partly filled bid still keeps the rules. -/
theorem instrument_rules_partial_fill :
    ∃ m, (single.after
        [{ clientId := 7, requestId := 1, orderId := 1
           instrumentId := 1, price := 10, quantity := 5 },
          { clientId := 8, requestId := 1, orderId := 1, side := .ask
            instrumentId := 1, price := 10, quantity := 3 }]).resting.find? 1 =
          some m ∧
        m.quantity = 2 ∧ RuledBy {} m := by
  let bid : Message :=
    { clientId := 7, requestId := 1, orderId := 1
      instrumentId := 1, price := 10, quantity := 5 }
  let offer : Message :=
    { clientId := 8, requestId := 1, orderId := 1, side := .ask
      instrumentId := 1, price := 10, quantity := 3 }
  have reachable := single_reachable.after [bid, offer]
  have rules : (single.after [bid, offer]).instruments.find? 1 =
      some ({} : InstrumentRules) := by
    decide +kernel
  have evaluated : ((single.after [bid, offer]).resting.find? 1).map
      (fun m => (m.instrumentId, m.quantity)) = some (1, 2) := by
    decide +kernel
  cases found : (single.after [bid, offer]).resting.find? 1 with
  | none => simp [found] at evaluated
  | some m =>
      simp only [found, Option.map_some, Option.some.injEq,
        Prod.mk.injEq] at evaluated
      obtain ⟨instrument, quantity⟩ := evaluated
      rw [← instrument] at rules
      exact ⟨m, rfl, quantity,
        (instrument_rules reachable).1 1 m {} found rules⟩

end MatchingEngine

end LimitOrderBook
