import LimitOrderBook.EngineAtomicity
import LimitOrderBook.EnginePositions

namespace LimitOrderBook

/-!
# What a client can end up with

The risk of a client on one side of an instrument is its position once all its
orders there are filled.  Only its own new orders and replacements raise the
risk, and they raise it by no more than their quantity.
-/

/-- What a command in progress adds to a risk. -/
def Message.adds (c : Message) (pending : Int) (client : ClientId)
    (instrument : InstrumentId) (side : Side) : Int :=
  if client = c.clientId ∧ instrument = c.instrumentId ∧ side = c.side then
    pending
  else
    0

/-- A contribution that does not depend on the quantity of an order. -/
def Steady (f : OrderId → Message → Nat) : Prop :=
  ∀ id m quantity, f id { m with quantity := quantity } = f id m

/-- An execution does not add orders. -/
theorem Ledger.tally_execute
    {ledger : Ledger} {m : Message} {f : OrderId → Message → Nat}
    (found : ledger.resting.find? m.exchangeId = some m) (size : Quantity)
    (steady : Steady f) :
    (ledger.execute m size).resting.total f ≤ ledger.resting.total f := by
  unfold execute
  split
  · rw [total_remove ledger found f]
    exact Nat.le_add_left _ _
  · have resized := total_resize ledger found (m.quantity - size) f
    rw [steady _ m (m.quantity - size), Nat.add_comm] at resized
    exact (Nat.add_left_cancel resized).le

namespace MatchingEngine

/-- The position of a client after all its orders on a side are filled. -/
def risk (engine : MatchingEngine) (client : ClientId)
    (instrument : InstrumentId) (side : Side) : Int :=
  side.sign * (engine.position client instrument).quantity +
    engine.held client instrument side

end MatchingEngine

namespace Turn

open MatchingEngine

variable {slots : Nat} {turn final swept : Turn} {c incoming maker : Message}
  {fill : Fill} {left after : Quantity} {books : Books} {client : ClientId}
  {instrument : InstrumentId} {side : Side}

/-- A fill moves what was pending or reserved into the positions. -/
theorem afterFill_risk
    (incoming : Message) (pending : Int) (taker : c.side.Listed)
    (fillOf : FillOf turn.engine c maker fill left) (books : Books)
    (client : ClientId) (instrument : InstrumentId) (listed : side.Listed) :
    (turn.afterFill c incoming maker fill left books).engine.risk client
          instrument side +
        c.adds (pending - fill.size) client instrument side ≤
      turn.engine.risk client instrument side +
        c.adds pending client instrument side := by
  have held := Ledger.held_execute turn.engine.ledger fillOf.found
    fillOf.enough client instrument side
  have heldAfter : (turn.afterFill c incoming maker fill left books).engine.held
      client instrument side =
        (turn.engine.ledger.execute maker fill.size).resting.total
          (heldBy client instrument side) := rfl
  have heldBefore : turn.engine.held client instrument side =
      turn.engine.ledger.resting.total (heldBy client instrument side) := rfl
  unfold risk
  rw [afterFill_position, heldAfter, heldBefore, ← held, fillOf.side,
    fillOf.instrument]
  by_cases here : instrument = c.instrumentId
  · subst here
    by_cases isTaker : client = c.clientId
    · subst isTaker
      have foreign := fillOf.foreign
      rcases taker with isBid | isAsk <;> rcases listed with rfl | rfl <;>
        simp [Position.fill_quantity, Side.sign, Side.opposite, Message.adds, *]
          <;> omega
    · by_cases isMaker : client = maker.clientId
      · subst isMaker
        rcases taker with isBid | isAsk <;> rcases listed with rfl | rfl <;>
          simp [Position.fill_quantity, Side.sign, Side.opposite, Message.adds,
            *] <;> omega
      · have notMaker : maker.clientId ≠ client := Ne.symm isMaker
        simp [isTaker, isMaker, notMaker, Message.adds]
  · have elsewhere : c.instrumentId ≠ instrument := Ne.symm here
    simp [here, elsewhere, Message.adds]

theorem Fills.risk
    {fills : List Fill}
    (executed : Fills slots c incoming turn left fills final after)
    (taker : c.side.Listed) (client : ClientId) (instrument : InstrumentId)
    (listed : side.Listed) :
    final.engine.risk client instrument side ≤
      turn.engine.risk client instrument side +
        c.adds ((left : Int) - after) client instrument side := by
  induction executed with
  | done => simp [Message.adds]
  | @next turn final left after fill rest maker books fillOf _ _
      inductionHypothesis =>
      have moved := afterFill_risk incoming ((left : Int) - after) taker fillOf
        books client instrument listed
      rw [Int.ofNat_sub fillOf.wanted, sub_right_comm] at inductionHypothesis
      exact Int.le_trans inductionHypothesis moved

/-- What a client risks without the order that a command replaces. -/
def besides (engine : MatchingEngine) (old : Option Message)
    (client : ClientId) (instrument : InstrumentId) (side : Side) : Int :=
  side.sign * (engine.position client instrument).quantity +
    (engine.resting.erase (replacedId old)).total
      (heldBy client instrument side)

theorem besides_le (engine : MatchingEngine) (old : Option Message)
    (client : ClientId) (instrument : InstrumentId) (side : Side) :
    besides engine old client instrument side ≤
      engine.risk client instrument side := by
  have erased := total_erase_le engine.resting (replacedId old)
    (heldBy_nonneg client instrument side)
  unfold besides risk held
  omega

/-- An accepted command adds at most its quantity to what is there besides. -/
theorem Placement.risk
    {old : Option Message} {r : InstrumentRules} {fills : List Fill}
    {leaves : Quantity}
    (placement : Placement slots turn c old r fills leaves books swept)
    (sound : turn.engine.Sound slots) (client : ClientId)
    (instrument : InstrumentId) (listed : side.Listed) :
    swept.engine.risk client instrument side ≤
      besides turn.engine old client instrument side +
        c.adds c.quantity client instrument side := by
  have less : leaves ≤ c.quantity :=
    placement.rest.trans_le (Nat.sub_le _ _)
  have moved := placement.executed.risk placement.checked.command.side client
    instrument listed
  refine Int.le_trans moved ?_
  unfold MatchingEngine.risk besides Message.adds
  rw [afterEntry_position, afterEntry_held sound placement.enters]
  by_cases own : client = c.clientId ∧ instrument = c.instrumentId ∧
      side = c.side
  · obtain ⟨rfl, rfl, rfl⟩ := own
    simp only [and_self, and_true, if_true]
    split <;> omega
  · have other : ¬ (rests c leaves = true ∧ c.clientId = client ∧
        c.instrumentId = instrument ∧ c.side = side) :=
      fun same => own ⟨same.2.1.symm, same.2.2.1.symm, same.2.2.2.symm⟩
    rw [if_neg own, if_neg own, if_neg other]
    omega

theorem Handled.risk
    (handled : Handled slots turn c final) (sound : turn.engine.Sound slots)
    (client : ClientId) (instrument : InstrumentId) (listed : side.Listed) :
    final.engine.risk client instrument side ≤
        turn.engine.risk client instrument side ∨
      ∃ old, c.action = entryAction old ∧ turn.engine.Enters c old ∧
        final.engine.risk client instrument side ≤
          besides turn.engine old client instrument side +
            c.adds c.quantity client instrument side := by
  have noHigher : ∀ {next : MatchingEngine}, next.position = turn.engine.position →
      next.held client instrument side ≤ turn.engine.held client instrument
        side →
      next.risk client instrument side ≤
        turn.engine.risk client instrument side := by
    intro next position held
    unfold MatchingEngine.risk
    rw [position]
    omega
  cases handled with
  | rejected _ => exact Or.inl (Int.le_refl _)
  | full =>
      exact Or.inl (noHigher (openPosition_position turn _ _) (Int.le_refl _))
  | cancelled _ cancels =>
      refine Or.inl (noHigher ?_
        (cancels.shrinks_total (heldBy_nonneg client instrument side)))
      funext other otherInstrument
      simp only [MatchingEngine.position, cancels.positions]
  | @reduced old r books _ _ replaces _ smaller _ =>
      refine Or.inl (noHigher (by rw [afterReduce_engine]; rfl) ?_)
      have resized := Ledger.total_resize turn.engine.ledger replaces.found
        c.quantity (heldBy client instrument side)
      have less : heldBy client instrument side old.exchangeId
          { old with quantity := c.quantity } ≤
            heldBy client instrument side old.exchangeId old := by
        unfold heldBy
        simp only
        split
        · exact Int.ofNat_le.mpr smaller
        · exact le_refl _
      rw [afterReduce_engine]
      change (turn.engine.ledger.resize old c.quantity).resting.total
        (heldBy client instrument side) ≤
          turn.engine.ledger.resting.total (heldBy client instrument side)
      omega
  | @placed old _ _ _ _ _ action placement =>
      refine Or.inr ⟨old, action, placement.enters, ?_⟩
      obtain ⟨sequence, responseSequence, published⟩ :=
        publishResidual_engine _ (turn.engine.incoming c) _ _
      rw [published]
      exact placement.risk sound client instrument listed

/-! ## Numbers of orders -/

theorem Fills.tally
    {fills : List Fill} {f : OrderId → Message → Nat}
    (executed : Fills slots c incoming turn left fills final after)
    (steady : Steady f) :
    final.engine.resting.total f ≤ turn.engine.resting.total f := by
  induction executed with
  | done => exact Nat.le_refl _
  | next fillOf _ _ inductionHypothesis =>
      exact Nat.le_trans inductionHypothesis
        (Ledger.tally_execute fillOf.found _ steady)

/-- Only a new order or a replacement that rests can add to a number. -/
theorem Handled.tally
    {f : OrderId → Message → Nat} (handled : Handled slots turn c final)
    (sound : turn.engine.Sound slots) (steady : Steady f) :
    final.engine.resting.total f ≤ turn.engine.resting.total f ∨
      ∃ old leaves, c.action = entryAction old ∧ turn.engine.Enters c old ∧
        rests c leaves = true ∧
        final.engine.resting.total f ≤
          (turn.engine.resting.erase (replacedId old)).total f +
            f turn.engine.nextOrder (turn.engine.residual c leaves) := by
  cases handled with
  | rejected _ => exact Or.inl (Nat.le_refl _)
  | full => exact Or.inl (Nat.le_refl _)
  | cancelled _ cancels =>
      exact Or.inl (cancels.shrinks_total fun id m => Nat.zero_le (f id m))
  | @reduced old r books _ _ replaces _ _ _ =>
      have resized := Ledger.total_resize turn.engine.ledger
        replaces.found c.quantity f
      rw [steady _ old c.quantity, Nat.add_comm] at resized
      rw [afterReduce_engine]
      exact Or.inl (Nat.add_left_cancel resized).le
  | @placed old _ _ leaves books swept action placement =>
      obtain ⟨sequence, responseSequence, published⟩ :=
        publishResidual_engine _ (turn.engine.incoming c) _ _
      rw [published]
      have fewer := placement.executed.tally steady
      have entered := exchange_total sound placement.enters leaves f
      rw [afterEntry_engine] at fewer
      have erased := total_erase_le turn.engine.resting (replacedId old)
        fun id m => Nat.zero_le (f id m)
      by_cases stays : rests c leaves = true
      · have isRest : turn.restOf c leaves =
            some (turn.engine.residual c leaves) := if_pos stays
        rw [isRest] at fewer entered
        refine Or.inr ⟨old, leaves, action, placement.enters, stays, ?_⟩
        exact fewer.trans (entered.trans (Nat.add_comm _ _)).le
      · have noRest : turn.restOf c leaves = none := if_neg stays
        rw [noRest] at fewer entered
        exact Or.inl
          (fewer.trans ((entered.trans (Nat.zero_add _)).le.trans erased))

end Turn

namespace MatchingEngine

variable {slots : Nat} {engine : MatchingEngine} {c : Message} {turn : Turn}
  {side : Side}

theorem Enters.of_start
    {old : Option Message} (enters : (engine.start c).engine.Enters c old) :
    engine.Enters c old := by
  cases old with
  | none => exact enters
  | some m =>
      exact ⟨enters.found, enters.client, enters.order, enters.instrument,
        enters.side⟩

/-- A call that raises a risk is a new order or a replacement of its owner. -/
theorem Outcome.risk
    (outcome : Outcome slots engine c turn) (sound : engine.Sound slots)
    (client : ClientId) (instrument : InstrumentId) (listed : side.Listed) :
    turn.engine.risk client instrument side ≤
        engine.risk client instrument side ∨
      ∃ old, c.action = entryAction old ∧ engine.Enters c old ∧
        turn.engine.risk client instrument side ≤
          Turn.besides engine old client instrument side +
            c.adds c.quantity client instrument side := by
  rcases outcome.quiet_or_handled with quiet | ⟨_, done, handled, rfl⟩
  · left
    unfold MatchingEngine.risk position held
    rw [quiet.stores.positions, quiet.stores.resting]
  · rcases handled.risk (start_sound sound c) client instrument listed with
      less | ⟨old, action, enters, bounded⟩
    · exact Or.inl less
    · exact Or.inr ⟨old, action, Enters.of_start enters, bounded⟩

theorem Outcome.tally
    {f : OrderId → Message → Nat} (outcome : Outcome slots engine c turn)
    (sound : engine.Sound slots) (steady : Steady f) :
    turn.engine.resting.total f ≤ engine.resting.total f ∨
      ∃ old leaves, c.action = entryAction old ∧ engine.Enters c old ∧
        Turn.rests c leaves = true ∧
        turn.engine.resting.total f ≤
          (engine.resting.erase (replacedId old)).total f +
            f engine.nextOrder (engine.residual c leaves) := by
  rcases outcome.quiet_or_handled with quiet | ⟨_, done, handled, rfl⟩
  · left
    rw [quiet.stores.resting]
  · rcases handled.tally (start_sound sound c) steady with
      less | ⟨old, leaves, action, enters, stays, bounded⟩
    · exact Or.inl less
    · exact Or.inr
        ⟨old, leaves, action, Enters.of_start enters, stays, bounded⟩

theorem Outcome.openOrders
    (outcome : Outcome slots engine c turn) (sound : engine.Sound slots)
    (client : ClientId) :
    turn.engine.openOrders client ≤ engine.openOrders client ∨
      ∃ old, c.action = entryAction old ∧ engine.Enters c old ∧
        client = c.clientId ∧
          turn.engine.openOrders client ≤
            (engine.resting.erase (replacedId old)).total
              (openBy client) + 1 := by
  rcases @Outcome.tally _ _ _ _ (openBy client) outcome sound
      fun _ _ _ => rfl with
    less | ⟨old, leaves, action, enters, _, bounded⟩
  · exact Or.inl less
  · have residual : openBy client engine.nextOrder (engine.residual c leaves) =
        if c.clientId = client then 1 else 0 := rfl
    rw [residual] at bounded
    split at bounded
    · rename_i own
      exact Or.inr ⟨old, action, enters, own.symm, bounded⟩
    · exact Or.inl (bounded.trans (total_erase_le engine.resting _
        fun id m => Nat.zero_le (openBy client id m)))

theorem openOrders_eq_zero_iff {client : ClientId} :
    engine.openOrders client = 0 ↔
      ∀ id m, engine.resting.find? id = some m → m.clientId ≠ client := by
  constructor
  · intro none id m found own
    have counted := OrderedMap.total_erase_of_find?_some found (openBy client)
    rw [openBy, if_pos own] at counted
    rw [openOrders] at none
    lia
  · exact fun others => OrderedMap.total_eq_zero fun id m found =>
      if_neg (others id m found)

/-- A client without orders only has its position at risk. -/
theorem risk_of_openOrders
    {client : ClientId} (none : engine.openOrders client = 0)
    (instrument : InstrumentId) (side : Side) :
    engine.risk client instrument side =
      side.sign * (engine.position client instrument).quantity := by
  have nothing : engine.held client instrument side = 0 :=
    OrderedMap.total_eq_zero fun id m found => if_neg fun held =>
      openOrders_eq_zero_iff.mp none id m found held.1
  rw [risk, nothing, Int.add_zero]

/-- A client without orders gets one only by entering one that may rest. -/
theorem Outcome.openOrders_eq_zero
    (outcome : Outcome slots engine c turn) (sound : engine.Sound slots)
    {client : ClientId} (none : engine.openOrders client = 0)
    (rests : client = c.clientId →
      ¬ (c.action = .new ∧ c.tif = .gtc) ∧ c.action ≠ .replace) :
    turn.engine.openOrders client = 0 := by
  rcases @Outcome.tally _ _ _ _ (openBy client) outcome sound
      fun _ _ _ => rfl with
    less | ⟨old, leaves, action, _, stays, bounded⟩
  · exact Nat.le_zero.mp (less.trans none.le)
  · have erased := total_erase_le engine.resting (replacedId old)
      fun id m => Nat.zero_le (openBy client id m)
    have residual : openBy client engine.nextOrder (engine.residual c leaves) =
        if c.clientId = client then 1 else 0 := rfl
    rw [residual] at bounded
    split at bounded
    · rename_i own
      obtain ⟨notNew, notReplace⟩ := rests own.symm
      simp only [Turn.rests, decide_eq_true_eq] at stays
      cases old with
      | none => exact absurd ⟨action, stays.2.1⟩ notNew
      | some _ => exact absurd action notReplace
    · exact Nat.le_zero.mp ((bounded.trans erased).trans none.le)

/-- What a call can move of a client that has no orders before and after. -/
theorem Outcome.position_le
    (outcome : Outcome slots engine c turn) (sound : engine.Sound slots)
    {client : ClientId} (before : engine.openOrders client = 0)
    (after : turn.engine.openOrders client = 0) (instrument : InstrumentId)
    (listed : side.Listed) :
    side.sign * (turn.engine.position client instrument).quantity ≤
      side.sign * (engine.position client instrument).quantity +
        if c.action = .new ∨ c.action = .replace then
          c.adds c.quantity client instrument side
        else
          0 := by
  have moved := outcome.risk sound client instrument listed
  rw [risk_of_openOrders before, risk_of_openOrders after] at moved
  have positive : 0 ≤ c.adds c.quantity client instrument side := by
    unfold Message.adds
    split
    · exact Int.natCast_nonneg _
    · exact Int.le_refl 0
  rcases moved with less | ⟨old, action, _, bounded⟩
  · split
    · omega
    · omega
  · have enters : c.action = .new ∨ c.action = .replace := by
      cases old with
      | none => exact Or.inl action
      | some _ => exact Or.inr action
    have less := Turn.besides_le engine old client instrument side
    rw [risk_of_openOrders before] at less
    rw [if_pos enters]
    omega

/-- The contribution of an order to the live orders of a client on a side. -/
def liveBy (client : ClientId) (instrument : InstrumentId) (side : Side)
    (_ : OrderId) (m : Message) : Nat :=
  if m.clientId = client ∧ m.instrumentId = instrument ∧ m.side = side then 1
  else 0

/-- The number of live orders of a client on one side of an instrument. -/
def liveOn (engine : MatchingEngine) (client : ClientId)
    (instrument : InstrumentId) (side : Side) : Nat :=
  engine.resting.total (liveBy client instrument side)

/-- Only a new order of the client that may rest adds to its live orders. -/
theorem Outcome.liveOn
    (outcome : Outcome slots engine c turn) (sound : engine.Sound slots)
    (client : ClientId) (instrument : InstrumentId) (side : Side) :
    turn.engine.liveOn client instrument side ≤
        engine.liveOn client instrument side ∨
      c.action = .new ∧ c.tif = .gtc ∧ client = c.clientId ∧
        instrument = c.instrumentId ∧ side = c.side ∧
        turn.engine.liveOn client instrument side ≤
          engine.liveOn client instrument side + 1 := by
  let f := liveBy client instrument side
  rcases outcome.tally sound (f := f) fun _ _ _ => rfl with
    less | ⟨old, leaves, action, enters, stays, bounded⟩
  · exact Or.inl less
  · have erased := total_erase_le engine.resting (replacedId old)
      fun id m => Nat.zero_le (f id m)
    have residual : f engine.nextOrder (engine.residual c leaves) =
        if c.clientId = client ∧ c.instrumentId = instrument ∧ c.side = side
          then 1 else 0 := rfl
    rw [residual] at bounded
    split at bounded
    · rename_i own
      obtain ⟨rfl, rfl, rfl⟩ := own
      cases old with
      | none =>
          simp only [Turn.rests, decide_eq_true_eq] at stays
          exact Or.inr ⟨action, stays.2.1, rfl, rfl, rfl,
            bounded.trans (Nat.add_le_add_right erased 1)⟩
      | some m =>
          have counted := OrderedMap.total_erase_of_find?_some enters.found f
          have one : f m.exchangeId m = 1 :=
            if_pos ⟨enters.client, enters.instrument, enters.side⟩
          rw [one, Nat.add_comm] at counted
          exact Or.inl (bounded.trans counted.ge)
    · exact Or.inl (bounded.trans erased)

/-- Others never raise the risk of a client. -/
theorem Outcome.risk_le
    (outcome : Outcome slots engine c turn) (sound : engine.Sound slots)
    {client : ClientId} (foreign : c.clientId ≠ client)
    (instrument : InstrumentId) (listed : side.Listed) :
    turn.engine.risk client instrument side ≤
      engine.risk client instrument side := by
  rcases outcome.risk sound client instrument listed with
    less | ⟨old, _, _, bounded⟩
  · exact less
  · refine Int.le_trans bounded ?_
    rw [Message.adds, if_neg fun same => foreign same.1.symm, add_zero]
    exact Turn.besides_le engine old client instrument side

end MatchingEngine

end LimitOrderBook
