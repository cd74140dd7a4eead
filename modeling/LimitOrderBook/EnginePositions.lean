import LimitOrderBook.EngineLimits

namespace LimitOrderBook

/-!
# Positions and the reports that move them

`Position::fill` runs once for every fill report, in the order of the reports.
Replaying the reports of a batch therefore visits every value a position takes
in the middle of a call, and all of them keep the limit.
-/

/-- The positions of all clients. -/
abbrev Positions := ClientId → InstrumentId → Position

namespace Positions

/-- The positions after a report. -/
def read (positions : Positions) (m : Message) : Positions :=
  fun client instrument =>
    if m.report = .fill ∧ client = m.clientId ∧ instrument = m.instrumentId then
      (positions client instrument).fill m.side m.price m.quantity
    else
      positions client instrument

/-- Only fills move positions. -/
theorem read_of_ne
    (positions : Positions) {m : Message} (other : m.report ≠ .fill) :
    positions.read m = positions := by
  funext client instrument
  simp [read, other]

/-- No position exceeds the limit of its instrument in either direction. -/
def Bounded (instruments : Instruments) (positions : Positions) : Prop :=
  ∀ client instrument,
    ((positions client instrument).quantity.natAbs : Int) ≤
      positionLimit instruments instrument

/-- Replaying a log leads from one state to another and never leaves `holds`. -/
structure Traces (holds : Positions → Prop) (start : Positions)
    (log : List Message) (current : Positions) : Prop where
  replay : log.foldl read start = current
  throughout : ∀ earlier, earlier <+: log → holds (earlier.foldl read start)

namespace Traces

variable {holds : Positions → Prop} {start current : Positions}
  {log : List Message} {m : Message}

/-- An empty log leaves the positions where they start. -/
theorem nil (held : holds start) : Traces holds start [] start where
  replay := rfl
  throughout earlier isPrefix := by
    rw [List.prefix_nil.mp isPrefix]
    exact held

/-- One more report is read. -/
theorem concat
    (traces : Traces holds start log current) (held : holds (current.read m)) :
    Traces holds start (log ++ [m]) (current.read m) where
  replay := by rw [List.foldl_concat, traces.replay]
  throughout earlier isPrefix := by
    rcases List.prefix_concat_iff.mp isPrefix with whole | before
    · rw [whole, List.foldl_concat, traces.replay]
      exact held
    · exact traces.throughout earlier before

/-- A report that is not a fill moves nothing. -/
theorem concat_other
    (traces : Traces holds start log current) (other : m.report ≠ .fill) :
    Traces holds start (log ++ [m]) current := by
  have unmoved : current.read m = current := read_of_ne current other
  have held : holds (current.read m) := by
    rw [unmoved, ← traces.replay]
    exact traces.throughout log List.prefix_rfl
  have longer := traces.concat held
  rwa [unmoved] at longer

end Traces

end Positions

namespace MatchingEngine

variable {slots : Nat} {engine : MatchingEngine} {c : Message}

/-- What is reserved and pending only makes the bound stricter. -/
theorem Within.bounded
    {pending : Int} (within : engine.Within c pending) (some_left : 0 ≤ pending) :
    Positions.Bounded engine.instruments engine.position := by
  intro client instrument
  have bids := within client instrument .bid (Or.inl rfl)
  have asks := within client instrument .ask (Or.inr rfl)
  have bidsHeld := engine.held_nonneg client instrument .bid
  have asksHeld := engine.held_nonneg client instrument .ask
  simp only [Side.sign, if_true, reduceCtorEq, if_false] at bids asks
  have bidsPending : (0 : Int) ≤ if client = c.clientId ∧
      instrument = c.instrumentId ∧ Side.bid = c.side then pending else 0 := by
    split <;> omega
  have asksPending : (0 : Int) ≤ if client = c.clientId ∧
      instrument = c.instrumentId ∧ Side.ask = c.side then pending else 0 := by
    split <;> omega
  omega

/-- An engine within its limits has bounded positions. -/
theorem Limited.bounded (limited : engine.Limited) :
    Positions.Bounded engine.instruments engine.position :=
  (within_zero.mpr limited : engine.Within {} 0).bounded (le_refl 0)

end MatchingEngine

/-! ## One call -/

namespace Turn

variable {slots : Nat} {turn final swept : Turn} {c incoming maker : Message}
  {fill : Fill} {left : Quantity} {books : Books} {start : Positions}

/-- The reports so far lead from the positions at the start to the present. -/
def Follows (start : Positions) (turn : Turn) : Prop :=
  Positions.Traces (Positions.Bounded turn.engine.instruments) start
    turn.batch.reports turn.engine.position

/-- A report that is no fill. -/
theorem Follows.report
    (follows : Follows start turn) (m : Message) {type : ReportType}
    (other : type ≠ .fill) (reason : Reject) :
    Follows start (turn.report m type reason) :=
  Positions.Traces.concat_other follows other

/-- Opening a position does not move it. -/
theorem openPosition_position
    (turn : Turn) (client : ClientId) (instrument : InstrumentId) :
    (turn.openPosition client instrument).engine.position =
      turn.engine.position := by
  funext other otherInstrument
  by_cases own : (other, otherInstrument) = (client, instrument)
  · simp [MatchingEngine.position, openPosition, own]
  · simp [MatchingEngine.position, openPosition, own]

/-- The reports a fill adds to the batch. -/
theorem afterFill_reports
    (turn : Turn) (c incoming maker : Message) (fill : Fill) (left : Quantity)
    (books : Books) :
    (turn.afterFill c incoming maker fill left books).batch.reports =
      turn.batch.reports ++
        [(execution maker fill turn.engine.nextTrade).asReport .fill .none
          turn.engine.epoch (turn.engine.responseSequence + 1)] ++
        [(takerFill incoming fill (left - fill.size)
          turn.engine.nextTrade).asReport .fill .none turn.engine.epoch
            (turn.engine.responseSequence + 2)] :=
  rfl

/-- The maker's report moves the maker, before the taker's moves the taker. -/
theorem afterFill_follows
    {pending : Int} (follows : Follows start turn)
    (fillOf : FillOf turn.engine c maker fill left)
    (client : incoming.clientId = c.clientId)
    (instrument : incoming.instrumentId = c.instrumentId)
    (side : incoming.side = c.side)
    (before : turn.engine.Within c pending) (pendingPos : 0 ≤ pending)
    (after : (turn.afterFill c incoming maker fill left books).engine.Within c
      (pending - fill.size))
    (enough : (fill.size : Int) ≤ pending) :
    Follows start (turn.afterFill c incoming maker fill left books) := by
  have foreign : c.clientId ≠ maker.clientId := Ne.symm fillOf.foreign
  have boundedBefore := before.bounded pendingPos
  have boundedAfter := after.bounded (by omega)
  unfold Follows at *
  rw [afterFill_reports]
  have made : Positions.Bounded turn.engine.instruments
      (Positions.read turn.engine.position
        ((execution maker fill turn.engine.nextTrade).asReport .fill .none
          turn.engine.epoch (turn.engine.responseSequence + 1))) := by
    intro other otherInstrument
    have moved := boundedAfter other otherInstrument
    rw [afterFill_position] at moved
    change _ ≤ positionLimit turn.engine.instruments otherInstrument at moved
    by_cases isMaker : other = maker.clientId ∧
        otherInstrument = c.instrumentId
    · obtain ⟨rfl, rfl⟩ := isMaker
      simpa [Positions.read, Message.asReport, execution, fillOf.instrument,
        fillOf.price, Ne.symm foreign] using moved
    · have unmoved := boundedBefore other otherInstrument
      simpa [Positions.read, Message.asReport, execution, fillOf.instrument,
        isMaker] using unmoved
  have taken : Positions.read (Positions.read turn.engine.position
        ((execution maker fill turn.engine.nextTrade).asReport .fill .none
          turn.engine.epoch (turn.engine.responseSequence + 1)))
        ((takerFill incoming fill (left - fill.size)
          turn.engine.nextTrade).asReport .fill .none turn.engine.epoch
            (turn.engine.responseSequence + 2)) =
      (turn.afterFill c incoming maker fill left books).engine.position := by
    funext other otherInstrument
    rw [afterFill_position]
    by_cases isTaker : other = c.clientId ∧ otherInstrument = c.instrumentId
    · obtain ⟨rfl, rfl⟩ := isTaker
      simp [Positions.read, Message.asReport, execution, takerFill, client,
        instrument, side, foreign]
    · simp [Positions.read, Message.asReport, execution, takerFill, client,
        instrument, isTaker, fillOf.instrument, fillOf.price]
  rw [← taken]
  refine (follows.concat made).concat ?_
  rw [taken]
  exact boundedAfter

/-- The fills of a command are read to the new positions. -/
theorem Fills.follows
    {fills : List Fill} {after : Quantity}
    (executed : Fills slots c incoming turn left fills final after)
    (client : incoming.clientId = c.clientId)
    (instrument : incoming.instrumentId = c.instrumentId)
    (sameSide : incoming.side = c.side) (listed : c.side.Listed)
    (within : turn.engine.Within c ((left : Int) - after))
    (follows : Follows start turn) : Follows start final := by
  induction executed with
  | done => exact follows
  | @next turn final left after fill rest maker books fillOf reshelved executed
      inductionHypothesis =>
      have moved := afterFill_within incoming within listed fillOf books
      have wanted := fillOf.wanted
      have later := executed.after_le
      have shrunk : ((left - fill.size : Nat) : Int) - after =
          (left : Int) - after - fill.size := by lia
      refine inductionHypothesis ?_ ?_
      · rw [shrunk]
        exact moved
      · exact afterFill_follows follows fillOf client instrument sameSide within
          (by lia) moved (by lia)

/-- Cancellations move none. -/
theorem Cancels.follows
    {request : Nat} {ms : List Message}
    (cancels : Cancels slots request turn ms final)
    (follows : Follows start turn) : Follows start final := by
  induction cancels with
  | done => exact follows
  | @next turn final m rest books _ _ _ inductionHypothesis =>
      have updated : Follows start ((turn.withBooks books).update
          { m with requestId := request, remaining := 0 } .cancel) := follows
      exact inductionHypothesis (updated.report _ (by decide) .none)

/-- The report of an entry is no fill. -/
theorem entryReport_ne_fill (old : Option Message) :
    entryReport old ≠ .fill := by
  cases old <;> simp [entryReport]

/-- The report of an entry. -/
theorem afterEntry_reports
    (turn : Turn) (c : Message) (old rest : Option Message) (books : Books) :
    (turn.afterEntry c old rest books).batch.reports =
      turn.batch.reports ++
        [(turn.engine.incoming c).asReport (entryReport old) .none
          turn.engine.epoch (turn.engine.responseSequence + 1)] := by
  cases old <;> rfl

/-- Entering a book moves none. -/
theorem afterEntry_follows
    (follows : Follows start turn) (c : Message) (old rest : Option Message)
    (books : Books) : Follows start (turn.afterEntry c old rest books) := by
  unfold Follows at *
  rw [afterEntry_reports, afterEntry_position, afterEntry_engine]
  exact follows.concat_other (entryReport_ne_fill old)

/-- Nor does what is told of the residual. -/
theorem publishResidual_follows
    (follows : Follows start turn) (m : Message) (leaves : Quantity)
    (restsHere : Bool) :
    Follows start (turn.publishResidual m leaves restsHere) := by
  unfold publishResidual
  split
  · exact follows
  · split
    · exact follows.report _ (by decide) .none
    · exact follows

/-- The report of a kept place. -/
theorem afterReduce_reports
    (turn : Turn) (c old : Message) (books : Books) :
    (turn.afterReduce c old books).batch.reports =
      turn.batch.reports ++
        [(reduction c old).asReport .replaced .none turn.engine.epoch
          (turn.engine.responseSequence + 1)] := by
  unfold afterReduce
  split <;> rfl

/-- The reports of a command tell its new positions. -/
theorem Handled.follows
    (handled : Handled slots turn c final) (sound : turn.engine.Sound slots)
    (limited : turn.engine.Limited) (follows : Follows start turn) :
    Follows start final := by
  cases handled with
  | rejected _ => exact follows.report _ (by decide) _
  | full =>
      have opened : Follows start
          (turn.openPosition c.clientId c.instrumentId) := by
        unfold Follows
        rw [openPosition_position]
        exact follows
      exact opened.report _ (by decide) _
  | cancelled _ cancels => exact cancels.follows follows
  | reduced _ _ _ _ _ _ =>
      unfold Follows at *
      rw [afterReduce_reports, afterReduce_engine]
      exact follows.concat_other (by simp [Message.asReport])
  | placed _ placement =>
      have less : _ ≤ c.quantity :=
        placement.rest.trans_le (Nat.sub_le _ _)
      have within := afterEntry_within sound placement.enters placement.checked
        less limited
      exact publishResidual_follows (placement.executed.follows rfl rfl rfl
        placement.checked.command.side (within _)
        (afterEntry_follows follows c _ _ _)) _ _ _

end Turn

/-! ## Whole runs -/

/-- The range of `std::int64_t`. -/
def FitsInt64 (n : Int) : Prop := -2 ^ 63 ≤ n ∧ n < 2 ^ 63

namespace MatchingEngine

variable {slots : Nat} {engine : MatchingEngine} {c : Message} {turn : Turn}
  {pool : PoolBytes}

/-- What the risk checks keep true between calls. -/
structure KeepsLimits (engine : MatchingEngine) : Prop where
  limited : engine.Limited
  fewOrders : engine.FewOrders

/-- Each message keeps the limits. -/
theorem Outcome.keepsLimits
    (outcome : Outcome slots engine c turn) (sound : engine.Sound slots)
    (keeps : engine.KeepsLimits) : turn.engine.KeepsLimits := by
  refine outcome.preserves KeepsLimits ?_ ?_ sound keeps
  · intro engine next same keeps
    refine ⟨?_, ?_⟩
    · refine Turn.limited_of_le keeps.limited same.instruments ?_ ?_
      · funext client instrument
        simp only [position, same.positions]
      · intro client instrument side
        simp only [held, same.resting, le_refl]
    · intro client
      simp only [openOrders, same.resting, same.instruments]
      exact keeps.fewOrders client
  · intro turn final c sound handled keeps
    exact ⟨handled.limited sound keeps.limited,
      handled.fewOrders sound keeps.fewOrders⟩

/-- A created engine keeps them, with no orders and no positions. -/
theorem Created.keepsLimits
    (created : Created pool engine) : engine.KeepsLimits := by
  have invariant := created.invariant
  obtain ⟨instruments, epoch, constructed⟩ := created
  obtain ⟨accepted, _, rfl⟩ := create_ok constructed
  refine ⟨?_, ?_⟩
  · intro client instrument side listed
    have nonneg : 0 ≤ positionLimit instruments instrument := by
      unfold positionLimit
      cases found : instruments.find? instrument with
      | none => exact le_refl _
      | some r =>
          have positive := accepted instrument r found
          simp only [InstrumentRules.Accepted, not_or, not_le, not_lt]
            at positive
          exact le_of_lt positive.2.2.2.2.2.2.2.1
    simpa [position, held] using nonneg
  · intro client
    exact Nat.zero_le _

/-- So does every reachable engine. -/
theorem Reachable.keepsLimits
    (reachable : Reachable pool engine) : engine.KeepsLimits :=
  reachable.induction (fun _ created => created.keepsLimits)
    fun _ _ _ invariant outcome => outcome.keepsLimits invariant.sound

/-- Outside a retry the reports of a call account for every position. -/
theorem Outcome.follows
    (outcome : Outcome slots engine c turn) (sound : engine.Sound slots)
    (keeps : engine.KeepsLimits) (notRetry : ¬ engine.Retries c) :
    Turn.Follows engine.position turn := by
  have bounded := keeps.limited.bounded
  have idle : Turn.Follows engine.position ⟨engine, {}⟩ := .nil bounded
  have opened : Turn.Follows engine.position
      ⟨engine.openClient c.clientId, {}⟩ := .nil bounded
  have started : Turn.Follows engine.position (engine.start c) := .nil bounded
  cases outcome with
  | refused _ => exact idle.report _ (by decide) _
  | status _ _ => exact idle.report _ (by decide) _
  | anonymous _ _ =>
      exact Turn.Follows.report (idle.report _ (by decide) _) _ (by decide) _
  | retried retries => exact absurd retries notRetry
  | unsequenced _ _ _ _ _ =>
      exact Turn.Follows.report (opened.report _ (by decide) _) _ (by decide) _
  | handled _ handled =>
      have done := handled.follows (start_sound sound c) keeps.limited started
      exact Turn.Follows.report done _ (by decide) .none

/-- A retry moves no position. -/
theorem Outcome.position_of_retry
    (outcome : Outcome slots engine c turn) (retries : engine.Retries c) :
    turn.engine.position = engine.position := by
  rw [outcome.of_retries retries]
  rfl

/-- The limit of a listed instrument is small. -/
theorem Sound.positionLimit_le
    (sound : engine.Sound slots) (instrument : InstrumentId) :
    positionLimit engine.instruments instrument ≤ 1000000000000 := by
  unfold positionLimit
  cases found : engine.instruments.find? instrument with
  | none => decide
  | some r =>
      have accepted := sound.rules instrument r found
      simp only [InstrumentRules.Accepted, not_or, not_le, not_lt] at accepted
      exact accepted.2.2.2.2.2.2.2.2.1

/-- The loop over the resting orders counts up to the client's reservation. -/
theorem Sound.reserved_bounds
    (sound : engine.Sound slots) (keeps : engine.KeepsLimits)
    (side : c.side.Listed) (oldId : OrderId)
    {earlier : List (OrderId × Message)}
    (isPrefix : earlier <+: engine.resting.entries) :
    0 ≤ (earlier.foldl (Exposure.visit c oldId) {}).reserved ∧
      (earlier.foldl (Exposure.visit c oldId) {}).reserved ≤
        2000000000000 := by
  have sums := fun entries start => (Exposure.foldl_visit c oldId entries start).1
  let contribution (entries : List (OrderId × Message)) : Int :=
    ((entries.filter fun entry => decide (entry.1 ≠ oldId)).map fun entry =>
      heldBy c.clientId c.instrumentId c.side entry.1 entry.2).sum
  have nonneg : ∀ entries, 0 ≤ contribution entries := by
    intro entries
    refine List.sum_nonneg fun term member => ?_
    obtain ⟨entry, _, rfl⟩ := List.mem_map.mp member
    exact heldBy_nonneg _ _ _ _ _
  obtain ⟨later, whole⟩ := isPrefix
  have all : (engine.exposure c oldId).reserved =
      (earlier.foldl (Exposure.visit c oldId) {}).reserved +
        contribution later := by
    rw [exposure, ← whole, List.foldl_append]
    exact sums later _
  have counted : (earlier.foldl (Exposure.visit c oldId) {}).reserved =
      0 + contribution earlier := sums earlier {}
  have erased := total_erase_le engine.resting oldId
    (heldBy_nonneg c.clientId c.instrumentId c.side)
  rw [← exposure_reserved] at erased
  have laterNonneg := nonneg later
  have earlierNonneg := nonneg earlier
  have limited := keeps.limited c.clientId c.instrumentId c.side side
  rw [held] at limited
  have small := sound.positionLimit_le c.instrumentId
  have bounded := keeps.limited.bounded c.clientId c.instrumentId
  refine ⟨by omega, ?_⟩
  unfold Side.sign at limited
  split at limited <;> omega

/--
In every reachable state the position and the resting orders of every client
respect the limits of the instruments, and none of the signed sums the risk
check and the fills compute leaves the range of its type.
-/
theorem positions_within_limits (reachable : Reachable pool engine) :
    (∀ client instrument r, engine.instruments.find? instrument = some r →
        (engine.position client instrument).quantity +
            engine.held client instrument .bid ≤ r.maxPosition ∧
          -r.maxPosition ≤ (engine.position client instrument).quantity -
            engine.held client instrument .ask ∧
          ((engine.position client instrument).quantity.natAbs : Int) ≤
            r.maxPosition) ∧
      (∀ client, engine.openOrders client ≤
        largestOpenOrders engine.instruments) ∧
      (∀ c r oldId, engine.instruments.find? c.instrumentId = some r →
        checkCommand r c oldId = .none →
          (∀ earlier, earlier <+: engine.resting.entries →
            FitsInt64 (earlier.foldl (Exposure.visit c oldId) {}).reserved) ∧
          FitsInt64 ((engine.exposure c oldId).reserved + c.quantity) ∧
          FitsInt64 ((if c.side = .bid then 1 else -1) *
            ((engine.exposure c oldId).reserved + c.quantity)) ∧
          FitsInt64 (engine.worst c oldId)) ∧
      (∀ c turn, engine.process c = .ok turn →
        (engine.Retries c → turn.engine.position = engine.position) ∧
        (¬ engine.Retries c →
          turn.engine.position =
              turn.batch.reports.foldl Positions.read engine.position ∧
            ∀ earlier, earlier <+: turn.batch.reports →
              ∀ client instrument,
                FitsInt64 ((earlier.foldl Positions.read engine.position)
                  client instrument).quantity)) := by
  have keeps := reachable.keepsLimits
  have sound := reachable.invariant.sound
  refine ⟨?_, keeps.fewOrders, ?_, ?_⟩
  · intro client instrument r found
    have bids := keeps.limited client instrument .bid (Or.inl rfl)
    have asks := keeps.limited client instrument .ask (Or.inr rfl)
    have bidsHeld := engine.held_nonneg client instrument .bid
    have asksHeld := engine.held_nonneg client instrument .ask
    rw [positionLimit_of_find? found] at bids asks
    simp only [Side.sign, if_true, reduceCtorEq, if_false] at bids asks
    omega
  · intro c r oldId rules passed
    have command := checkCommand_none passed
    have whole : 0 ≤ (engine.exposure c oldId).reserved ∧
        (engine.exposure c oldId).reserved ≤ 2000000000000 :=
      sound.reserved_bounds keeps command.side oldId List.prefix_rfl
    have quantity : (c.quantity : Int) < 2 ^ 32 := by
      have small := r.maxOrderQuantity.toNat_lt
      have size := command.size
      lia
    have bounded := keeps.limited.bounded c.clientId c.instrumentId
    have small := sound.positionLimit_le c.instrumentId
    unfold FitsInt64 worst
    refine ⟨fun earlier isPrefix => ?_, by omega, ?_, ?_⟩
    · have bound := sound.reserved_bounds keeps command.side oldId isPrefix
      omega
    · split <;> omega
    · split <;> omega
  · intro c turn processed
    obtain ⟨outcome, after⟩ := reachable.outcome_of processed
    refine ⟨outcome.position_of_retry, fun notRetry => ?_⟩
    have follows := outcome.follows sound keeps notRetry
    refine ⟨follows.replay.symm, ?_⟩
    intro earlier isPrefix client instrument
    have bounded := follows.throughout earlier isPrefix client instrument
    have small := after.invariant.sound.positionLimit_le instrument
    unfold FitsInt64
    omega

/-- A position and what is left of the order are within the limits. -/
theorem positions_within_limits_one_trade :
    ∃ engine,
      engine = single.after oneTrade ∧
        (engine.position 7 1).quantity = 2 ∧
        (engine.position 8 1).quantity = -2 ∧
        engine.held 7 1 .bid = 3 ∧
        (engine.position 7 1).quantity + engine.held 7 1 .bid ≤ 1000000 ∧
        engine.openOrders 7 ≤ largestOpenOrders engine.instruments := by
  have limits := positions_within_limits (single_reachable.after oneTrade)
  exact ⟨_, rfl, by decide +kernel, by decide +kernel, by decide +kernel,
    (limits.1 7 1 {} (by decide +kernel)).1, limits.2.1 7⟩

end MatchingEngine

end LimitOrderBook
