import LimitOrderBook.EngineInvariant
import Mathlib.Algebra.Order.BigOperators.Group.List

namespace LimitOrderBook

/-!
# Position limits over whole runs

The risk check of `submit` counts the client's resting orders on the side of
the command as if they were filled.  Between calls the position of a client
can move only against its own reservation, so the checked bound survives.

`Within` is stated with a pending quantity: what the command in progress has
still to take.  Between calls nothing is pending.
-/

namespace MatchingEngine

/-- The contribution of a stored order to a client's reservation. -/
def heldBy (client : ClientId) (instrument : InstrumentId) (side : Side)
    (_ : OrderId) (m : Message) : Int :=
  if m.clientId = client ∧ m.instrumentId = instrument ∧ m.side = side then
    m.quantity
  else
    0

/-- The resting quantity of a client on one side of an instrument. -/
def held (engine : MatchingEngine) (client : ClientId)
    (instrument : InstrumentId) (side : Side) : Int :=
  engine.resting.total (heldBy client instrument side)

/-- The contribution of a stored order to a client's open orders. -/
def openBy (client : ClientId) (_ : OrderId) (m : Message) : Nat :=
  if m.clientId = client then 1 else 0

/-- The number of resting orders of a client on all instruments. -/
def openOrders (engine : MatchingEngine) (client : ClientId) : Nat :=
  engine.resting.total (openBy client)

end MatchingEngine

/-- The largest order limit of any instrument. -/
def largestOpenOrders (instruments : Instruments) : Nat :=
  (instruments.entries.map fun entry => entry.2.maxOpenOrders).foldr max 0

/-- The position limit of an instrument; nothing is held of an unknown one. -/
def positionLimit (instruments : Instruments) (instrument : InstrumentId) :
    Int :=
  ((instruments.find? instrument).map InstrumentRules.maxPosition).getD 0

/-- The limit of an instrument that is listed is in its rules. -/
theorem positionLimit_of_find?
    {instruments : Instruments} {instrument : InstrumentId}
    {r : InstrumentRules} (found : instruments.find? instrument = some r) :
    positionLimit instruments instrument = r.maxPosition := by
  simp [positionLimit, found]

/-- No instrument allows more orders than the most liberal one. -/
theorem maxOpenOrders_le_largest
    {instruments : Instruments} {instrument : InstrumentId}
    {r : InstrumentRules} (found : instruments.find? instrument = some r) :
    r.maxOpenOrders ≤ largestOpenOrders instruments := by
  have member : r.maxOpenOrders ∈
      instruments.entries.map fun entry => entry.2.maxOpenOrders :=
    List.mem_map.mpr ⟨(instrument, r), OrderedMap.mem_entries.mpr found, rfl⟩
  unfold largestOpenOrders
  generalize (instruments.entries.map
    fun entry => entry.2.maxOpenOrders) = limits at member ⊢
  induction limits with
  | nil => cases member
  | cons first rest inductionHypothesis =>
      rcases List.mem_cons.mp member with isFirst | later
      · rw [List.foldr_cons, isFirst]
        exact Nat.le_max_left _ _
      · exact Nat.le_trans (inductionHypothesis later) (Nat.le_max_right _ _)

/-! ## The loop over the resting orders -/

namespace Exposure

/-- The loop adds up the other orders of the client. -/
theorem foldl_visit
    (c : Message) (oldId : OrderId) (entries : List (OrderId × Message)) (start : Exposure) :
    (entries.foldl (visit c oldId) start).reserved =
        start.reserved +
          ((entries.filter fun entry => decide (entry.1 ≠ oldId)).map
            fun entry => MatchingEngine.heldBy c.clientId c.instrumentId c.side
              entry.1 entry.2).sum ∧
      (entries.foldl (visit c oldId) start).openOrders =
        start.openOrders +
          ((entries.filter fun entry => decide (entry.1 ≠ oldId)).map
            fun entry => MatchingEngine.openBy c.clientId entry.1
              entry.2).sum := by
  induction entries generalizing start with
  | nil => simp
  | cons entry rest inductionHypothesis =>
      obtain ⟨reserved, openOrders⟩ := inductionHypothesis (visit c oldId start entry)
      rw [List.foldl_cons, reserved, openOrders]
      by_cases isOld : entry.1 = oldId
      · simp [visit, isOld]
      · by_cases own : entry.2.clientId = c.clientId
        · by_cases here : entry.2.instrumentId = c.instrumentId ∧
            entry.2.side = c.side
          · simp [visit, isOld, own, here, MatchingEngine.heldBy,
              MatchingEngine.openBy]
            omega
          · simp [visit, isOld, own, here, MatchingEngine.heldBy,
              MatchingEngine.openBy]
            omega
        · simp [visit, isOld, own, MatchingEngine.heldBy, MatchingEngine.openBy]

end Exposure

namespace MatchingEngine

variable {engine : MatchingEngine} {c : Message} {oldId : OrderId}

/-- The walk of the source sums what the client has reserved. -/
theorem exposure_reserved (engine : MatchingEngine) (c : Message)
    (oldId : OrderId) :
    (engine.exposure c oldId).reserved =
      (engine.resting.erase oldId).total
        (heldBy c.clientId c.instrumentId c.side) := by
  have sums := (Exposure.foldl_visit c oldId engine.resting.entries {}).1
  simpa [exposure, OrderedMap.total, OrderedMap.erase] using sums

/-- It also counts the orders of the client. -/
theorem exposure_openOrders (engine : MatchingEngine) (c : Message)
    (oldId : OrderId) :
    (engine.exposure c oldId).openOrders =
      (engine.resting.erase oldId).total (openBy c.clientId) := by
  have sums := (Exposure.foldl_visit c oldId engine.resting.entries {}).2
  simpa [exposure, OrderedMap.total, OrderedMap.erase] using sums

/-- No order takes anything from a reservation. -/
theorem heldBy_nonneg (client : ClientId) (instrument : InstrumentId)
    (side : Side) (id : OrderId) (m : Message) :
    0 ≤ heldBy client instrument side id m := by
  unfold heldBy
  split
  · exact Int.natCast_nonneg _
  · exact Int.le_refl 0

/-- Without one entry a total of such contributions is not larger. -/
theorem total_erase_le
    {κ ν μ : Type} {lt : κ → κ → Prop} [DecidableEq κ] [DecidableRel lt]
    [IsStrictTotalOrder κ lt] [AddCommMonoid μ] [PartialOrder μ]
    [IsOrderedAddMonoid μ] (map : OrderedMap κ ν lt) (key : κ) {f : κ → ν → μ}
    (nonneg : ∀ key value, 0 ≤ f key value) :
    (map.erase key).total f ≤ map.total f := by
  cases found : map.find? key with
  | none => rw [OrderedMap.erase_of_find?_none found]
  | some value =>
      rw [OrderedMap.total_erase_of_find?_some found f]
      exact le_add_of_nonneg_left (nonneg key value)

/-- A total of contributions that are not negative. -/
theorem total_nonneg
    {κ ν : Type} {lt : κ → κ → Prop} (map : OrderedMap κ ν lt)
    {f : κ → ν → Int} (nonneg : ∀ key value, 0 ≤ f key value) :
    0 ≤ map.total f := by
  refine List.sum_nonneg ?_
  intro term member
  obtain ⟨entry, _, rfl⟩ := List.mem_map.mp member
  exact nonneg entry.1 entry.2

/-- Reservations are never negative. -/
theorem held_nonneg (engine : MatchingEngine) (client : ClientId)
    (instrument : InstrumentId) (side : Side) :
    0 ≤ engine.held client instrument side :=
  total_nonneg _ (heldBy_nonneg client instrument side)

/--
The reservation and the position of every client stay within the limit, also
when the command in progress takes what is still pending.
-/
def Within (engine : MatchingEngine) (c : Message) (pending : Int) : Prop :=
  ∀ client instrument, ∀ side : Side, side.Listed →
    side.sign * (engine.position client instrument).quantity +
        engine.held client instrument side +
        (if client = c.clientId ∧ instrument = c.instrumentId ∧
          side = c.side then pending else 0) ≤
      positionLimit engine.instruments instrument

/-- Between calls: every client keeps to its limit on both sides. -/
def Limited (engine : MatchingEngine) : Prop :=
  ∀ client instrument, ∀ side : Side, side.Listed →
    side.sign * (engine.position client instrument).quantity +
        engine.held client instrument side ≤
      positionLimit engine.instruments instrument

/-- With nothing to come, the room that is kept is the limit. -/
theorem within_zero : engine.Within c 0 ↔ engine.Limited := by
  simp [Within, Limited]

/-- A client has at most as many orders as the most generous limit says. -/
def FewOrders (engine : MatchingEngine) : Prop :=
  ∀ client, engine.openOrders client ≤ largestOpenOrders engine.instruments

end MatchingEngine

/-! ## How the stores move a reservation -/

namespace Ledger

variable {ledger : Ledger} {m : Message}

/-- An order that is removed leaves every sum. -/
theorem total_remove
    {μ : Type} [AddCommMonoid μ] (ledger : Ledger)
    (found : ledger.resting.find? m.exchangeId = some m)
    (f : OrderId → Message → μ) :
    ledger.resting.total f =
      f m.exchangeId m + (ledger.remove m).resting.total f :=
  OrderedMap.total_erase_of_find?_some found f

/-- A resized order changes a sum by its own share. -/
theorem total_resize
    {μ : Type} [AddCommMonoid μ] (ledger : Ledger)
    (found : ledger.resting.find? m.exchangeId = some m)
    (quantity : Quantity) (f : OrderId → Message → μ) :
    (ledger.resize m quantity).resting.total f + f m.exchangeId m =
      f m.exchangeId { m with quantity := quantity } +
        ledger.resting.total f :=
  OrderedMap.total_insert_of_find?_some found _ f

/-- An execution takes its size out of the reservation of its owner. -/
theorem held_execute
    (ledger : Ledger) (found : ledger.resting.find? m.exchangeId = some m)
    {size : Quantity} (enough : size ≤ m.quantity) (client : ClientId)
    (instrument : InstrumentId) (side : Side) :
    (ledger.execute m size).resting.total
          (MatchingEngine.heldBy client instrument side) +
        (if m.clientId = client ∧ m.instrumentId = instrument ∧ m.side = side
          then (size : Int) else 0) =
      ledger.resting.total (MatchingEngine.heldBy client instrument side) := by
  unfold execute
  split
  · rename_i gone
    have all : m.quantity = size := by lia
    have removed :=
      total_remove ledger found (MatchingEngine.heldBy client instrument side)
    rw [removed]
    simp only [MatchingEngine.heldBy, all]
    rw [add_comm]
  · have resized := total_resize ledger found (m.quantity - size)
      (MatchingEngine.heldBy client instrument side)
    simp only [MatchingEngine.heldBy] at resized ⊢
    split
    · rename_i owned
      simp only [owned, and_self, if_true] at resized
      push_cast [enough] at resized
      linarith
    · rename_i other
      simp only [other, if_false] at resized
      linarith

/-- An execution does not add orders. -/
theorem open_execute
    (found : ledger.resting.find? m.exchangeId = some m)
    (size : Quantity) (client : ClientId) :
    (ledger.execute m size).resting.total (MatchingEngine.openBy client) ≤
      ledger.resting.total (MatchingEngine.openBy client) := by
  unfold execute
  split
  · rw [total_remove ledger found (MatchingEngine.openBy client)]
    exact Nat.le_add_left _ _
  · have resized := total_resize ledger found (m.quantity - size)
      (MatchingEngine.openBy client)
    have same : MatchingEngine.openBy client m.exchangeId
        { m with quantity := m.quantity - size } =
          MatchingEngine.openBy client m.exchangeId m := rfl
    rw [same] at resized
    omega

end Ledger

namespace Turn

variable {slots : Nat} {turn final swept : Turn} {c incoming maker : Message}
  {fill : Fill} {left : Quantity} {books : Books}

/-- Both parties' positions move by the fill, and no others. -/
theorem afterFill_position
    (turn : Turn) (c incoming maker : Message) (fill : Fill) (left : Quantity)
    (books : Books) (client : ClientId) (instrument : InstrumentId) :
    (turn.afterFill c incoming maker fill left books).engine.position client
        instrument =
      if client = c.clientId ∧ instrument = c.instrumentId then
        (turn.engine.position client instrument).fill c.side fill.price
          fill.size
      else if client = maker.clientId ∧ instrument = c.instrumentId then
        (turn.engine.position client instrument).fill maker.side fill.price
          fill.size
      else
        turn.engine.position client instrument := by
  have unfolded : (turn.afterFill c incoming maker fill left
      books).engine.position client instrument =
      (((turn.engine.positions.insert (maker.clientId, c.instrumentId)
        ((turn.engine.position maker.clientId c.instrumentId).fill maker.side
          fill.price fill.size)).insert (c.clientId, c.instrumentId)
        ((turn.engine.position c.clientId c.instrumentId).fill c.side
          fill.price fill.size)).find? (client, instrument)).getD {} := rfl
  rw [unfolded]
  by_cases isTaker : client = c.clientId ∧ instrument = c.instrumentId
  · obtain ⟨rfl, rfl⟩ := isTaker
    simp
  · by_cases isMaker : client = maker.clientId ∧ instrument = c.instrumentId
    · obtain ⟨rfl, rfl⟩ := isMaker
      simp only [and_true] at isTaker
      simp [isTaker]
    · simp [isTaker, isMaker, MatchingEngine.position]

/-- A fill moves what was pending or reserved into the positions. -/
theorem afterFill_within
    {pending : Int} (incoming : Message)
    (within : turn.engine.Within c pending) (side : c.side.Listed)
    (fillOf : FillOf turn.engine c maker fill left) (books : Books) :
    (turn.afterFill c incoming maker fill left books).engine.Within c
      (pending - fill.size) := by
  intro client instrument other otherListed
  have before := within client instrument other otherListed
  change _ ≤ positionLimit turn.engine.instruments instrument
  have held := Ledger.held_execute turn.engine.ledger fillOf.found
    fillOf.enough client instrument other
  rw [afterFill_position]
  have heldAfter : (turn.afterFill c incoming maker fill left books).engine.held
      client instrument other =
        (turn.engine.ledger.execute maker fill.size).resting.total
          (MatchingEngine.heldBy client instrument other) := rfl
  have heldBefore : turn.engine.held client instrument other =
      turn.engine.ledger.resting.total
        (MatchingEngine.heldBy client instrument other) := rfl
  rw [heldAfter]
  rw [heldBefore, ← held] at before
  rw [fillOf.side, fillOf.instrument] at before
  rw [fillOf.side]
  by_cases here : instrument = c.instrumentId
  · subst here
    by_cases isTaker : client = c.clientId
    · subst isTaker
      have foreign := fillOf.foreign
      rcases side with isBid | isAsk <;> rcases otherListed with rfl | rfl <;>
        simp [Position.fill_quantity, Side.sign, Side.opposite, *]
          at before ⊢ <;> omega
    · by_cases isMaker : client = maker.clientId
      · subst isMaker
        rcases side with isBid | isAsk <;> rcases otherListed with rfl | rfl <;>
          simp [Position.fill_quantity, Side.sign, Side.opposite, *]
            at before ⊢ <;> omega
      · have notMaker : maker.clientId ≠ client := Ne.symm isMaker
        simpa [isTaker, isMaker, notMaker] using before
  · have elsewhere : c.instrumentId ≠ instrument := Ne.symm here
    simpa [here, elsewhere] using before

/-- Fills leave no more than there was. -/
theorem Fills.after_le
    {fills : List Fill} {after : Quantity}
    (executed : Fills slots c incoming turn left fills final after) :
    after ≤ left := by
  induction executed with
  | done => exact Nat.le_refl _
  | next _ _ _ inductionHypothesis =>
      exact Nat.le_trans inductionHypothesis (Nat.sub_le _ _)

/-- What is filled uses the room that was kept for it. -/
theorem Fills.within
    {fills : List Fill} {after : Quantity}
    (executed : Fills slots c incoming turn left fills final after)
    (side : c.side.Listed)
    (within : turn.engine.Within c ((left : Int) - after)) :
    final.engine.Within c 0 := by
  induction executed with
  | done => simpa using within
  | next fillOf _ executed inductionHypothesis =>
      refine inductionHypothesis ?_
      have moved := afterFill_within incoming within side fillOf
      have wanted := fillOf.wanted
      have same : ∀ left after size : Nat, size ≤ left →
          ((left - size : Nat) : Int) - after = left - after - size := by
        intro left after size enough
        omega
      rw [same _ _ _ wanted]
      exact moved _

/-- Fills open no order. -/
theorem Fills.openOrders_le
    {fills : List Fill} {after : Quantity}
    (executed : Fills slots c incoming turn left fills final after)
    (client : ClientId) :
    final.engine.openOrders client ≤ turn.engine.openOrders client := by
  induction executed with
  | done => exact Nat.le_refl _
  | next fillOf _ _ inductionHypothesis =>
      exact Nat.le_trans inductionHypothesis
        (Ledger.open_execute fillOf.found _ client)

/-- Fills do not touch the rules. -/
theorem Fills.instruments
    {fills : List Fill} {after : Quantity}
    (executed : Fills slots c incoming turn left fills final after) :
    final.engine.instruments = turn.engine.instruments := by
  induction executed with
  | done => rfl
  | next _ _ _ inductionHypothesis => exact inductionHypothesis

/-! ## The other steps -/

section Steps

variable {old : Option Message} {r : InstrumentRules} {fills : List Fill}
  {leaves : Quantity}

/-- What the risk check establishes about the side of the command. -/
theorem checked_worst
    (checked : turn.engine.Checked c old r) :
    c.side.sign * (turn.engine.position c.clientId c.instrumentId).quantity +
        (turn.engine.resting.erase (replacedId old)).total
          (MatchingEngine.heldBy c.clientId c.instrumentId c.side) +
        c.quantity ≤ r.maxPosition ∧
      (turn.engine.resting.erase (replacedId old)).total
          (MatchingEngine.openBy c.clientId) < r.maxOpenOrders := by
  obtain ⟨state, _, risk⟩ := checked.risk
  unfold MatchingEngine.checkRisk at risk
  split at risk
  · cases risk
  · split at risk
    · cases risk
    · rename_i few
      split at risk
      · cases risk
      · rename_i bounded
        rw [MatchingEngine.exposure_openOrders] at few
        refine ⟨?_, Nat.lt_of_not_le few⟩
        unfold MatchingEngine.worst at bounded
        rw [MatchingEngine.exposure_reserved] at bounded
        rcases checked.command.side with isBid | isAsk
        · simp only [isBid, Side.sign, if_true] at bounded ⊢
          omega
        · simp only [isAsk, Side.sign, reduceCtorEq, if_false] at bounded ⊢
          omega

/-- What an exchange does to a sum over the stored orders. -/
theorem exchange_total
    {μ : Type} [AddCommMonoid μ] (sound : turn.engine.Sound slots)
    (enters : turn.engine.Enters c old) (leaves : Quantity)
    (f : OrderId → Message → μ) :
    (turn.engine.ledger.exchange old (turn.restOf c leaves)).resting.total f =
      (match turn.restOf c leaves with
        | some m => f m.exchangeId m
        | none => 0) +
        (turn.engine.resting.erase (replacedId old)).total f := by
  have removed : (turn.engine.ledger.exchange old none).resting =
      turn.engine.resting.erase (replacedId old) := by
    cases old with
    | none =>
        have missing : turn.engine.resting.find? 0 = none := by
          cases found : turn.engine.resting.find? 0 with
          | none => rfl
          | some m =>
              have positive := (sound.linked.numbered 0 m found).2.1
              exact absurd positive (Nat.lt_irrefl 0)
        exact (OrderedMap.erase_of_find?_none missing).symm
    | some m => rfl
  cases isRest : turn.restOf c leaves with
  | none =>
      simp only [zero_add]
      rw [← removed]
  | some m =>
      obtain ⟨_, rfl⟩ := restOf_eq_some isRest
      have fresh : (turn.engine.ledger.exchange old none).resting.find?
          turn.engine.nextOrder = none := by
        rw [removed, OrderedMap.find?_erase]
        split
        · rfl
        · exact sound.linked.find?_none_of_le (Nat.le_refl _)
      have added := OrderedMap.total_insert_of_find?_none fresh
        (turn.engine.residual c leaves) f
      refine added.trans ?_
      rw [removed]
      rfl

/-- Reservations after entry: those of the rest and of the others. -/
theorem afterEntry_held
    (sound : turn.engine.Sound slots) (enters : turn.engine.Enters c old)
    (client : ClientId) (instrument : InstrumentId) (side : Side) :
    (turn.afterEntry c old (turn.restOf c leaves) books).engine.held client
        instrument side =
      (if rests c leaves ∧ c.clientId = client ∧
          c.instrumentId = instrument ∧ c.side = side then (leaves : Int)
        else 0) +
        (turn.engine.resting.erase (replacedId old)).total
          (MatchingEngine.heldBy client instrument side) := by
  have total := exchange_total sound enters leaves
    (MatchingEngine.heldBy client instrument side)
  rw [afterEntry_engine]
  refine total.trans ?_
  unfold restOf
  by_cases restsHere : rests c leaves = true
  · simp [restsHere, MatchingEngine.heldBy, MatchingEngine.residual,
      MatchingEngine.incoming]
  · simp [restsHere]

/-- Open orders after entry: the rest and the others. -/
theorem afterEntry_openOrders
    (sound : turn.engine.Sound slots) (enters : turn.engine.Enters c old)
    (client : ClientId) :
    (turn.afterEntry c old (turn.restOf c leaves) books).engine.openOrders
        client =
      (if rests c leaves ∧ c.clientId = client then 1 else 0) +
        (turn.engine.resting.erase (replacedId old)).total
          (MatchingEngine.openBy client) := by
  have total := exchange_total sound enters leaves
    (MatchingEngine.openBy client)
  rw [afterEntry_engine]
  refine total.trans ?_
  unfold restOf
  by_cases restsHere : rests c leaves = true
  · simp [restsHere, MatchingEngine.openBy, MatchingEngine.residual,
      MatchingEngine.incoming]
  · simp [restsHere]

/-- Entering a book moves no position. -/
theorem afterEntry_position
    (turn : Turn) (c : Message) (old rest : Option Message) (books : Books) :
    (turn.afterEntry c old rest books).engine.position =
      turn.engine.position := by
  rw [afterEntry_engine]
  funext client instrument
  by_cases own : (client, instrument) = (c.clientId, c.instrumentId)
  · simp [MatchingEngine.position, own]
  · simp [MatchingEngine.position, own]

/-- The entry reserves the residual; the rest of the command is pending. -/
theorem afterEntry_within
    (sound : turn.engine.Sound slots) (enters : turn.engine.Enters c old)
    (checked : turn.engine.Checked c old r) (less : leaves ≤ c.quantity)
    (limited : turn.engine.Limited) (books : Books) :
    (turn.afterEntry c old (turn.restOf c leaves) books).engine.Within c
      ((c.quantity : Int) - leaves) := by
  intro client instrument side listed
  have before := limited client instrument side listed
  have erased := MatchingEngine.total_erase_le turn.engine.resting
    (replacedId old) (MatchingEngine.heldBy_nonneg client instrument side)
  rw [afterEntry_position, afterEntry_held sound enters, afterEntry_engine]
  change _ ≤ positionLimit turn.engine.instruments instrument
  have heldBefore : turn.engine.held client instrument side =
      turn.engine.resting.total
        (MatchingEngine.heldBy client instrument side) := rfl
  by_cases own : client = c.clientId ∧ instrument = c.instrumentId ∧
      side = c.side
  · obtain ⟨rfl, rfl, rfl⟩ := own
    have worst := (checked_worst checked).1
    rw [positionLimit_of_find? checked.rules]
    have bound : (leaves : Int) ≤ c.quantity := Int.ofNat_le.mpr less
    simp only [and_self, and_true, if_true]
    split <;> omega
  · have other : ¬ (rests c leaves = true ∧ c.clientId = client ∧
        c.instrumentId = instrument ∧ c.side = side) :=
      fun same => own ⟨same.2.1.symm, same.2.2.1.symm, same.2.2.2.symm⟩
    rw [if_neg own, if_neg other]
    omega

/-- An order that is placed stays within its limit, filled or resting. -/
theorem Placement.limited
    (placement : Placement slots turn c old r fills leaves books swept)
    (sound : turn.engine.Sound slots) (limited : turn.engine.Limited) :
    swept.engine.Limited := by
  have less : leaves ≤ c.quantity := by
    rw [placement.rest]
    exact Nat.sub_le _ _
  exact MatchingEngine.within_zero.mp (placement.executed.within
    placement.checked.command.side
    (afterEntry_within sound placement.enters placement.checked less limited
      books))

/-- Nor are there more orders than its rules allow. -/
theorem Placement.fewOrders
    (placement : Placement slots turn c old r fills leaves books swept)
    (sound : turn.engine.Sound slots) (few : turn.engine.FewOrders) :
    swept.engine.FewOrders := by
  intro client
  have fewer := placement.executed.openOrders_le client
  have instruments : swept.engine.instruments = turn.engine.instruments := by
    rw [placement.executed.instruments, afterEntry_engine]
  have erased := MatchingEngine.total_erase_le turn.engine.resting
    (replacedId old) fun id m =>
      Nat.zero_le (MatchingEngine.openBy client id m)
  have before := few client
  rw [MatchingEngine.openOrders] at before
  rw [instruments]
  refine Nat.le_trans fewer ?_
  rw [afterEntry_openOrders sound placement.enters]
  split
  · rename_i own
    obtain ⟨_, rfl⟩ := own
    have counted := (checked_worst placement.checked).2
    have largest := maxOpenOrders_le_largest placement.checked.rules
    omega
  · omega

/-- Cancellations only lower a sum over resting orders. -/
theorem Cancels.shrinks_total
    {request : Nat} {ms : List Message} {μ : Type} [AddCommMonoid μ]
    [PartialOrder μ] [IsOrderedAddMonoid μ]
    (cancels : Cancels slots request turn ms final)
    {f : OrderId → Message → μ} (nonneg : ∀ id m, 0 ≤ f id m) :
    final.engine.resting.total f ≤ turn.engine.resting.total f := by
  induction cancels with
  | done => exact le_refl _
  | next _ _ _ inductionHypothesis =>
      exact le_trans inductionHypothesis
        (MatchingEngine.total_erase_le _ _ nonneg)

/-- Cancellations do not touch the rules. -/
theorem Cancels.instruments
    {request : Nat} {ms : List Message}
    (cancels : Cancels slots request turn ms final) :
    final.engine.instruments = turn.engine.instruments := by
  induction cancels with
  | done => rfl
  | next _ _ _ inductionHypothesis => exact inductionHypothesis

end Steps

/-- The rules never change. -/
theorem Handled.instruments
    (handled : Handled slots turn c final) :
    final.engine.instruments = turn.engine.instruments := by
  cases handled with
  | rejected _ => rfl
  | full => rfl
  | cancelled _ cancels => exact cancels.instruments
  | reduced _ _ _ _ _ _ => rw [afterReduce_engine]
  | placed _ placement =>
      obtain ⟨sequence, responseSequence, published⟩ :=
        publishResidual_engine _ (turn.engine.incoming c) _ _
      rw [published]
      have executed := placement.executed.instruments
      rw [afterEntry_engine] at executed
      exact executed

/-- A reservation that does not grow keeps the limits. -/
theorem limited_of_le
    {engine next : MatchingEngine} (limited : engine.Limited)
    (instruments : next.instruments = engine.instruments)
    (position : next.position = engine.position)
    (less : ∀ client instrument side,
      next.held client instrument side ≤ engine.held client instrument side) :
    next.Limited := by
  intro client instrument side listed
  have before := limited client instrument side listed
  have fewer := less client instrument side
  rw [instruments, position]
  omega

/-- Each command keeps all positions within their limits. -/
theorem Handled.limited
    (handled : Handled slots turn c final) (sound : turn.engine.Sound slots)
    (limited : turn.engine.Limited) : final.engine.Limited := by
  cases handled with
  | rejected _ => exact limited
  | full =>
      refine limited_of_le limited rfl ?_ fun _ _ _ => le_refl _
      funext client instrument
      by_cases own : (client, instrument) = (c.clientId, c.instrumentId)
      · simp [MatchingEngine.position, openPosition, reject, report, own]
      · simp [MatchingEngine.position, openPosition, reject, report, own]
  | cancelled _ cancels =>
      refine limited_of_le limited cancels.instruments ?_
        fun client instrument side => cancels.shrinks_total
          (MatchingEngine.heldBy_nonneg client instrument side)
      funext client instrument
      simp only [MatchingEngine.position, cancels.positions]
  | @reduced old r books _ _ replaces _ smaller _ =>
      refine limited_of_le limited (by rw [afterReduce_engine])
        (by rw [afterReduce_engine]; rfl) ?_
      intro client instrument side
      have resized := Ledger.total_resize turn.engine.ledger
        replaces.found c.quantity
        (MatchingEngine.heldBy client instrument side)
      rw [afterReduce_engine]
      have held : turn.engine.held client instrument side =
          turn.engine.ledger.resting.total
            (MatchingEngine.heldBy client instrument side) := rfl
      change (turn.engine.ledger.resize old c.quantity).resting.total
        (MatchingEngine.heldBy client instrument side) ≤ _
      have bound : (c.quantity : Int) ≤ old.quantity := Int.ofNat_le.mpr smaller
      have less : MatchingEngine.heldBy client instrument side old.exchangeId
          { old with quantity := c.quantity } ≤
            MatchingEngine.heldBy client instrument side old.exchangeId old := by
        unfold MatchingEngine.heldBy
        simp only
        split
        · exact bound
        · exact le_refl _
      omega
  | placed _ placement =>
      obtain ⟨sequence, responseSequence, published⟩ :=
        publishResidual_engine _ (turn.engine.incoming c) _ _
      rw [published]
      exact placement.limited sound limited

/-- Each command keeps all clients within their open orders. -/
theorem Handled.fewOrders
    (handled : Handled slots turn c final) (sound : turn.engine.Sound slots)
    (few : turn.engine.FewOrders) : final.engine.FewOrders := by
  cases handled with
  | rejected _ => exact few
  | full => exact few
  | cancelled _ cancels =>
      intro client
      have fewer := cancels.shrinks_total fun id m =>
        Nat.zero_le (MatchingEngine.openBy client id m)
      rw [cancels.instruments]
      exact Nat.le_trans fewer (few client)
  | @reduced old r books _ _ replaces _ _ _ =>
      intro client
      have resized := Ledger.total_resize turn.engine.ledger
        replaces.found c.quantity (MatchingEngine.openBy client)
      have same : MatchingEngine.openBy client old.exchangeId
          { old with quantity := c.quantity } =
            MatchingEngine.openBy client old.exchangeId old := rfl
      rw [same, Nat.add_comm] at resized
      rw [afterReduce_engine]
      exact (Nat.add_left_cancel resized).trans_le (few client)
  | placed _ placement =>
      obtain ⟨sequence, responseSequence, published⟩ :=
        publishResidual_engine _ (turn.engine.incoming c) _ _
      rw [published]
      exact placement.fewOrders sound few

end Turn

/-- No message changes the rules. -/
theorem MatchingEngine.Outcome.instruments
    {slots : Nat} {engine : MatchingEngine} {c : Message} {turn : Turn}
    (outcome : Outcome slots engine c turn) (sound : engine.Sound slots) :
    turn.engine.instruments = engine.instruments := by
  refine outcome.preserves
    (fun next => next.instruments = engine.instruments) ?_ ?_ sound rfl
  · exact fun _ _ same kept => same.instruments.trans kept
  · exact fun _ _ _ _ handled kept => handled.instruments.trans kept

end LimitOrderBook
