import LimitOrderBook.OrderManager
import Mathlib.Algebra.Order.Field.Rat
import Mathlib.Tactic.FieldSimp
import Mathlib.Tactic.Linarith
import Mathlib.Tactic.Ring

namespace LimitOrderBook

/-!
# Accounting of a position

A position is what its fills add up to.  One fill increases it, reduces it,
closes it or turns it around; in each case the cash that was paid is the profit
that was realized less what the open quantity has cost, and the average price
stays between prices that were paid since the position was opened.
-/

/-- A fill of some size. -/
structure Deal where
  side : Side
  price : Price
  size : Quantity
  positive : 0 < size

namespace Deal

/-- The size as it changes a position. -/
def signedSize (deal : Deal) : Int :=
  if deal.side = .bid then deal.size else -deal.size

end Deal

namespace Position

/-- A position after one more deal. -/
def take (position : Position) (deal : Deal) : Position :=
  position.fill deal.side deal.price deal.size

/-- The position that some deals lead to. -/
def after (deals : List Deal) : Position :=
  deals.foldl Position.take {}

/-- The condition under which `fill` divides. -/
def Increases (position : Position) (deal : Deal) : Prop :=
  position.quantity = 0 ∨ (0 < position.quantity ↔ 0 < deal.signedSize)

instance (position : Position) (deal : Deal) :
    Decidable (position.Increases deal) :=
  inferInstanceAs (Decidable (_ ∨ _))

variable {position : Position} {deal : Deal}

theorem quantity_take (position : Position) (deal : Deal) :
    (position.take deal).quantity = position.quantity + deal.signedSize :=
  rfl

theorem volume_take (position : Position) (deal : Deal) :
    (position.take deal).volume = position.volume + deal.size :=
  rfl

theorem cash_take (position : Position) (deal : Deal) :
    (position.take deal).cash =
      position.cash - deal.price * deal.signedSize :=
  rfl

/-- An increase goes on in one direction. -/
theorem Increases.direction (increases : position.Increases deal) :
    ∃ sign : Int, (sign = 1 ∨ sign = -1) ∧
      deal.signedSize = sign * deal.size ∧
      position.quantity = sign * position.quantity.natAbs := by
  have positive := deal.positive
  unfold Increases Deal.signedSize at increases
  unfold Deal.signedSize
  split_ifs at increases ⊢ with isBid
  · exact ⟨1, .inl rfl, by lia, by lia⟩
  · exact ⟨-1, .inr rfl, by lia, by lia⟩

/-- The division is never by zero. -/
theorem Increases.quantity_ne_zero (increases : position.Increases deal) :
    (position.take deal).quantity ≠ 0 := by
  obtain ⟨sign, isSign, isSize, isOld⟩ := increases.direction
  have positive := deal.positive
  rw [quantity_take, isSize]
  rcases isSign with rfl | rfl
  · lia
  · lia

/-- The parts of a fill that depend on where it leads. -/
inductive Outcome (position : Position) (deal : Deal) : Prop where
  | increased (increases : position.Increases deal)
      (average : (position.take deal).averagePrice =
        (position.averagePrice * position.quantity.natAbs +
          deal.price * deal.size) /
          (position.quantity.natAbs + deal.size))
      (realized : (position.take deal).realizedPnl = position.realizedPnl)
  | closed (isClosed : (position.take deal).quantity = 0)
      (average : (position.take deal).averagePrice = 0)
      (realized : (position.take deal).realizedPnl = position.realizedPnl +
        (deal.price - position.averagePrice) * position.quantity)
  | turned
      (turns : (position.take deal).quantity.sign = -position.quantity.sign)
      (isOpen : (position.take deal).quantity ≠ 0)
      (average : (position.take deal).averagePrice = deal.price)
      (realized : (position.take deal).realizedPnl = position.realizedPnl +
        (deal.price - position.averagePrice) * position.quantity)
  | reduced
      (keeps : (position.take deal).quantity.sign = position.quantity.sign)
      (isOpen : (position.take deal).quantity ≠ 0)
      (average : (position.take deal).averagePrice = position.averagePrice)
      (realized : (position.take deal).realizedPnl = position.realizedPnl -
        (deal.price - position.averagePrice) * deal.signedSize)

theorem sign_eq
    {first second : Int} (firstOpen : first ≠ 0) (secondOpen : second ≠ 0)
    (same : 0 < first ↔ 0 < second) : first.sign = second.sign := by
  rcases lt_or_gt_of_ne secondOpen with negative | positive
  · have firstNegative : first < 0 := by lia
    rw [Int.sign_eq_neg_one_of_neg firstNegative,
      Int.sign_eq_neg_one_of_neg negative]
  · rw [Int.sign_eq_one_of_pos (same.mpr positive),
      Int.sign_eq_one_of_pos positive]

theorem sign_eq_neg
    {first second : Int} (firstOpen : first ≠ 0) (secondOpen : second ≠ 0)
    (differs : ¬ (0 < first ↔ 0 < second)) : first.sign = -second.sign := by
  rw [← Int.sign_neg]
  exact sign_eq firstOpen (neg_ne_zero.mpr secondOpen) (by lia)

/-- A fill that ends on the other side, or on none, closes everything. -/
theorem closes_whole
    (opposite : ¬ position.Increases deal)
    (past : (position.take deal).quantity = 0 ∨
      ¬ (0 < (position.take deal).quantity ↔ 0 < position.quantity)) :
    ((min position.quantity.natAbs deal.size : Nat) *
      (if 0 < position.quantity then 1 else -1) : Int) =
        position.quantity := by
  unfold Increases Deal.signedSize at opposite
  rw [quantity_take, Deal.signedSize] at past
  split_ifs at past opposite ⊢ <;> lia

/-- A fill that stays on its side closes no more than its own size. -/
theorem closes_part
    (opposite : ¬ position.Increases deal)
    (isOpen : (position.take deal).quantity ≠ 0)
    (stays : 0 < (position.take deal).quantity ↔ 0 < position.quantity) :
    ((min position.quantity.natAbs deal.size : Nat) *
      (if 0 < position.quantity then 1 else -1) : Int) =
        -deal.signedSize := by
  unfold Increases Deal.signedSize at opposite
  rw [quantity_take, Deal.signedSize] at isOpen stays
  unfold Deal.signedSize
  split_ifs at isOpen stays opposite ⊢ <;> lia

theorem outcome (position : Position) (deal : Deal) :
    position.Outcome deal := by
  by_cases increases : position.Increases deal
  · obtain ⟨sign, isSign, isSize, isOld⟩ := increases.direction
    have size : (position.take deal).quantity.natAbs =
        position.quantity.natAbs + deal.size := by
      rw [quantity_take, isSize]
      rcases isSign with rfl | rfl
      · lia
      · lia
    refine .increased increases ?_ (if_pos increases)
    have average : (position.take deal).averagePrice =
        (position.averagePrice * position.quantity.natAbs +
          deal.price * deal.size) /
          ((position.take deal).quantity.natAbs : Rat) := if_pos increases
    rw [average, size, Nat.cast_add]
  · have wasOpen : position.quantity ≠ 0 := (not_or.mp increases).1
    -- What is closed, with the sign of the position.
    have realized : (position.take deal).realizedPnl =
        position.realizedPnl + (deal.price - position.averagePrice) *
          ((min position.quantity.natAbs deal.size : Nat) *
            (if 0 < position.quantity then 1 else -1) : Int) := by
      refine (if_neg increases).trans ?_
      push_cast
      rw [Nat.cast_natAbs, Int.cast_abs, ← mul_assoc]
    have average : (position.take deal).averagePrice =
        if (position.take deal).quantity = 0 then 0
        else if ¬ (0 < (position.take deal).quantity ↔
          0 < position.quantity) then (deal.price : Rat)
        else position.averagePrice := if_neg increases
    by_cases isClosed : (position.take deal).quantity = 0
    · rw [closes_whole increases (.inl isClosed)] at realized
      rw [if_pos isClosed] at average
      exact .closed isClosed average realized
    rw [if_neg isClosed] at average
    by_cases stays : 0 < (position.take deal).quantity ↔ 0 < position.quantity
    · rw [closes_part increases isClosed stays, Int.cast_neg, mul_neg,
        ← sub_eq_add_neg] at realized
      rw [if_neg (not_not.mpr stays)] at average
      exact .reduced (sign_eq isClosed wasOpen stays) isClosed average realized
    · rw [closes_whole increases (.inr stays)] at realized
      rw [if_pos stays] at average
      exact .turned (sign_eq_neg isClosed wasOpen stays) isClosed average
        realized

/-! ## The identity -/

/-- Cash is realized profit less the cost of what is open. -/
def Balanced (position : Position) : Prop :=
  (position.cash : Rat) =
    position.realizedPnl - position.quantity * position.averagePrice

theorem Balanced.take
    (balanced : position.Balanced) (deal : Deal) :
    (position.take deal).Balanced := by
  unfold Balanced at balanced ⊢
  have quantity : ((position.take deal).quantity : Rat) =
      position.quantity + deal.signedSize := by
    rw [quantity_take, Int.cast_add]
  have cash : ((position.take deal).cash : Rat) =
      position.cash - deal.price * deal.signedSize := by
    rw [cash_take]
    push_cast
    rfl
  rw [cash, balanced]
  cases position.outcome deal with
  | increased increases average realized =>
      -- The average times the quantity is what all of it has cost.
      have cost : (position.quantity + deal.signedSize : Rat) *
          (position.take deal).averagePrice =
            position.quantity * position.averagePrice +
              deal.price * deal.signedSize := by
        obtain ⟨sign, isSign, isSize, isOld⟩ := increases.direction
        have whole : (position.quantity.natAbs : Rat) + deal.size ≠ 0 := by
          have positive : (0 : Rat) < deal.size := by
            exact_mod_cast deal.positive
          positivity
        have old : (position.quantity : Rat) =
            sign * position.quantity.natAbs := by
          have cast := congrArg (Int.cast : Int → Rat) isOld
          rwa [Int.cast_mul, Int.cast_natCast] at cast
        have size : (deal.signedSize : Rat) = sign * deal.size := by
          exact_mod_cast isSize
        rw [average, size]
        conv_lhs => rw [old]
        conv_rhs => rw [old]
        field_simp
      rw [realized, quantity, cost]
      ring
  | closed isClosed average realized =>
      rw [isClosed, Int.cast_zero] at quantity
      rw [realized, average, isClosed, Int.cast_zero]
      have closes : (deal.signedSize : Rat) = -position.quantity := by
        linarith
      rw [closes]
      ring
  | turned turns isOpen average realized =>
      rw [realized, average, quantity]
      ring
  | reduced keeps isOpen average realized =>
      rw [realized, average, quantity]
      ring

/-! ## The average price -/

/-- A weighted mean lies between what it is the mean of. -/
theorem weighted_between
    {first second firstWeight secondWeight : Rat} (low high : Rat)
    (firstPositive : 0 ≤ firstWeight) (secondPositive : 0 < secondWeight)
    (firstBetween : low ≤ first ∧ first ≤ high)
    (secondBetween : low ≤ second ∧ second ≤ high) :
    low ≤ (first * firstWeight + second * secondWeight) /
        (firstWeight + secondWeight) ∧
      (first * firstWeight + second * secondWeight) /
        (firstWeight + secondWeight) ≤ high := by
  have whole : 0 < firstWeight + secondWeight :=
    add_pos_of_nonneg_of_pos firstPositive secondPositive
  rw [le_div_iff₀ whole, div_le_iff₀ whole]
  constructor
  · have lowFirst := mul_le_mul_of_nonneg_right firstBetween.1 firstPositive
    have lowSecond :=
      mul_le_mul_of_nonneg_right secondBetween.1 secondPositive.le
    linarith
  · have highFirst := mul_le_mul_of_nonneg_right firstBetween.2 firstPositive
    have highSecond :=
      mul_le_mul_of_nonneg_right secondBetween.2 secondPositive.le
    linarith

/-- The position leaves zero or changes its sign. -/
def Opens (before next : Position) : Prop :=
  next.quantity ≠ 0 ∧ next.quantity.sign ≠ before.quantity.sign

theorem after_concat (deals : List Deal) (deal : Deal) :
    after (deals ++ [deal]) = (after deals).take deal := by
  rw [after, after, List.foldl_append]
  rfl

/--
The deals since, and including, the one with which the position last left zero
or changed its sign.
-/
inductive Episode : List Deal → List Deal → Prop where
  | opens {deals : List Deal} {deal : Deal} :
      Opens (after deals) (after (deals ++ [deal])) →
        Episode (deals ++ [deal]) [deal]
  | continues {deals since : List Deal} {deal : Deal} :
      Episode deals since → ¬ Opens (after deals) (after (deals ++ [deal])) →
        Episode (deals ++ [deal]) (since ++ [deal])

/-- A price between the lowest and the highest of some deals. -/
def Between (deals : List Deal) (price : Rat) : Prop :=
  (∃ low ∈ deals, (low.price : Rat) ≤ price) ∧
    ∃ high ∈ deals, price ≤ (high.price : Rat)

theorem Between.mono
    {deals more : List Deal} {price : Rat} (between : Between deals price)
    (isSubset : deals ⊆ more) : Between more price := by
  obtain ⟨⟨low, lowMember, isLow⟩, high, highMember, isHigh⟩ := between
  exact ⟨⟨low, isSubset lowMember, isLow⟩, high, isSubset highMember, isHigh⟩

/-- The average of an open position and one more deal in its direction. -/
theorem Between.increased
    {since : List Deal} {average weight : Rat}
    (between : Between since average) (notNegative : 0 ≤ weight)
    (deal : Deal) :
    Between (since ++ [deal])
      ((average * weight + deal.price * deal.size) / (weight + deal.size)) := by
  obtain ⟨⟨low, lowMember, isLow⟩, high, highMember, isHigh⟩ := between
  have positive : (0 : Rat) < deal.size := by exact_mod_cast deal.positive
  obtain ⟨above, below⟩ := weighted_between
    (min (low.price : Rat) deal.price) (max (high.price : Rat) deal.price)
    notNegative positive
    ⟨min_le_of_left_le isLow, le_max_of_le_left isHigh⟩
    ⟨min_le_right _ _, le_max_right _ _⟩
  constructor
  · rcases min_le_iff.mp above with atLow | atDeal
    · exact ⟨low, by simp [lowMember], atLow⟩
    · exact ⟨deal, by simp, atDeal⟩
  · rcases le_max_iff.mp below with atHigh | atDeal
    · exact ⟨high, by simp [highMember], atHigh⟩
    · exact ⟨deal, by simp, atDeal⟩

/-- An increase of an open position keeps its sign. -/
theorem Increases.sign
    (increases : position.Increases deal) (isOpen : position.quantity ≠ 0) :
    (position.take deal).quantity.sign = position.quantity.sign := by
  refine sign_eq increases.quantity_ne_zero isOpen ?_
  obtain ⟨sign, isSign, isSize, isOld⟩ := increases.direction
  have positive := deal.positive
  rw [quantity_take, isSize]
  rcases isSign with rfl | rfl
  · lia
  · lia

/-- A deal that opens a position sets its average price. -/
theorem averagePrice_of_opens
    (opens : Opens position (position.take deal)) :
    (position.take deal).averagePrice = deal.price := by
  cases position.outcome deal with
  | increased increases average realized =>
      have wasFlat : position.quantity = 0 := by
        by_contra wasOpen
        exact opens.2 (increases.sign wasOpen)
      have size : (deal.size : Rat) ≠ 0 := by
        exact_mod_cast deal.positive.ne'
      rw [average, wasFlat, Int.natAbs_zero, Nat.cast_zero, mul_zero, zero_add,
        zero_add, mul_div_cancel_right₀ _ size]
  | closed isClosed average realized => exact absurd isClosed opens.1
  | turned turns isOpen average realized => exact average
  | reduced keeps isOpen average realized => exact absurd keeps opens.2

theorem Episode.between
    {deals since : List Deal} (episode : Episode deals since)
    (isOpen : (after deals).quantity ≠ 0) :
    Between since (after deals).averagePrice := by
  induction episode with
  | @opens deals deal opens =>
      rw [after_concat] at opens ⊢
      have average := averagePrice_of_opens opens
      exact ⟨⟨deal, by simp, average.symm.le⟩, deal, by simp, average.le⟩
  | @continues deals since deal episode stays inductionHypothesis =>
      rw [after_concat] at stays isOpen ⊢
      have keepsSign : ((after deals).take deal).quantity.sign =
          (after deals).quantity.sign :=
        not_not.mp fun differs => stays ⟨isOpen, differs⟩
      have wasOpen : (after deals).quantity ≠ 0 := by
        intro wasFlat
        rw [wasFlat, Int.sign_zero, Int.sign_eq_zero_iff_zero] at keepsSign
        exact isOpen keepsSign
      have between := inductionHypothesis wasOpen
      cases (after deals).outcome deal with
      | increased increases average realized =>
          rw [average]
          exact between.increased (Nat.cast_nonneg _) deal
      | closed isClosed average realized => exact absurd isClosed isOpen
      | turned turns isOpen average realized =>
          rw [keepsSign] at turns
          have signZero : (after deals).quantity.sign = 0 := by lia
          exact absurd (Int.sign_eq_zero_iff_zero.mp signZero) wasOpen
      | reduced keeps isOpen average realized =>
          rw [average]
          exact between.mono (List.subset_append_left _ _)

/-- An open position was opened by one of its deals. -/
theorem exists_episode
    {deals : List Deal} (isOpen : (after deals).quantity ≠ 0) :
    ∃ since, Episode deals since := by
  induction deals using List.reverseRecOn with
  | nil => exact absurd rfl isOpen
  | append_singleton deals deal inductionHypothesis =>
      by_cases opens : Opens (after deals) (after (deals ++ [deal]))
      · exact ⟨[deal], .opens opens⟩
      · have wasOpen : (after deals).quantity ≠ 0 := by
          intro wasFlat
          refine opens ⟨isOpen, fun sameSign => isOpen ?_⟩
          rw [wasFlat, Int.sign_zero] at sameSign
          exact Int.sign_eq_zero_iff_zero.mp sameSign
        obtain ⟨since, episode⟩ := inductionHypothesis wasOpen
        exact ⟨since ++ [deal], .continues episode opens⟩

theorem averagePrice_of_flat
    (deals : List Deal) (isFlat : (after deals).quantity = 0) :
    (after deals).averagePrice = 0 := by
  induction deals using List.reverseRecOn with
  | nil => rfl
  | append_singleton deals deal inductionHypothesis =>
      rw [after_concat] at isFlat ⊢
      cases (after deals).outcome deal with
      | increased increases average realized =>
          exact absurd isFlat increases.quantity_ne_zero
      | closed isClosed average realized => exact average
      | turned turns isOpen average realized => exact absurd isFlat isOpen
      | reduced keeps isOpen average realized => exact absurd isFlat isOpen

/-! ## Every sequence of fills -/

/-- What a position says about the fills that led to it. -/
structure Accounts (deals : List Deal) (position : Position) : Prop where
  balanced : (position.cash : Rat) =
    position.realizedPnl - position.quantity * position.averagePrice
  marked : ∀ mark, position.pnl mark =
    position.realizedPnl + position.quantity * (mark - position.averagePrice)
  quantity : position.quantity = (deals.map Deal.signedSize).sum
  volume : position.volume = (deals.map Deal.size).sum
  cash : position.cash =
    -(deals.map fun deal => (deal.price : Int) * deal.signedSize).sum
  flat : position.quantity = 0 → position.averagePrice = 0
  opened : position.quantity ≠ 0 → ∃ since, Episode deals since
  average : position.quantity ≠ 0 → ∀ since, Episode deals since →
    Between since position.averagePrice

theorem balanced_after (deals : List Deal) : (after deals).Balanced := by
  induction deals using List.reverseRecOn with
  | nil => simp [Balanced, after]
  | append_singleton deals deal inductionHypothesis =>
      rw [after_concat]
      exact inductionHypothesis.take deal

theorem sums_after (deals : List Deal) :
    (after deals).quantity = (deals.map Deal.signedSize).sum ∧
      (after deals).volume = (deals.map Deal.size).sum ∧
      (after deals).cash =
        -(deals.map fun deal =>
          (deal.price : Int) * deal.signedSize).sum := by
  induction deals using List.reverseRecOn with
  | nil => exact ⟨rfl, rfl, rfl⟩
  | append_singleton deals deal inductionHypothesis =>
      obtain ⟨quantity, volume, cash⟩ := inductionHypothesis
      rw [after_concat, quantity_take, volume_take, cash_take, quantity,
        volume, cash]
      simp only [List.map_append, List.map_cons, List.map_nil,
        List.sum_append, List.sum_cons, List.sum_nil]
      lia

/--
After any fills the position accounts for them, and no fill after them divides
by zero.
-/
theorem position_accounts
    (deals : List Deal) :
    Accounts deals (after deals) ∧
      ∀ deal, (after deals).Increases deal →
        (after deals).quantity + deal.signedSize ≠ 0 := by
  have balanced := balanced_after deals
  obtain ⟨quantity, volume, cash⟩ := sums_after deals
  refine ⟨?_, fun deal increases => increases.quantity_ne_zero⟩
  refine
    { balanced := balanced
      marked := ?_
      quantity := quantity
      volume := volume
      cash := cash
      flat := averagePrice_of_flat deals
      opened := exists_episode
      average := fun isOpen since episode => episode.between isOpen }
  intro mark
  unfold Balanced at balanced
  rw [pnl, balanced]
  ring

end Position

end LimitOrderBook
