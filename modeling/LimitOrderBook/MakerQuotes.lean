import LimitOrderBook.EnginePositions
import Mathlib.Order.Bounds.Basic

namespace LimitOrderBook

/-!
# The quotes of a market maker

The model of `maker_quotes` in `trading/strategy.cpp`.  The desired prices move
by one tick for every clip of inventory.  Division truncates, which rounds
prices below zero the wrong way, but no such price is ever quoted: a bid that is
quoted is a price rounded down to a tick, and an ask one rounded up.
-/

/-- The fields of `StrategyConfig` that the quotes depend on. -/
structure StrategyConfig where
  clip : Quantity := 5
  fairPrice : Price := 100
  edge : Price := 2
  tick : Price := 1
  inventoryLimit : Int := 50

structure Quote where
  side : Side
  price : Price
  quantity : Quantity
  deriving DecidableEq

namespace StrategyConfig

instance (n : Int) : Decidable (FitsInt64 n) :=
  inferInstanceAs (Decidable (_ ∧ _))

/-- A result of 64-bit arithmetic; none where it overflows. -/
def int64 (value : Int) : Option Int :=
  if FitsInt64 value then some value else none

/-- A price rounded towards zero to a multiple of the tick. -/
def toTick (c : StrategyConfig) (price : Int) : Option Int :=
  int64 (price.tdiv c.tick * c.tick)

/-- The bid, unless it has no meaning or no room. -/
def bidQuotes (c : StrategyConfig) (inventory bid ask : Int) :
    Option (List Quote) :=
  if 0 < bid ∧ bid < ask ∧ bid ≤ 2 ^ 32 - 1 then do
    let bought ← int64 (inventory + c.clip)
    some (if bought ≤ c.inventoryLimit then
      [⟨.bid, bid.toNat, c.clip⟩] else [])
  else
    some []

/-- The ask, unless it has no meaning or no room. -/
def askQuotes (c : StrategyConfig) (inventory bid ask : Int) :
    Option (List Quote) :=
  if bid < ask ∧ 0 < ask ∧ ask ≤ 2 ^ 32 - 1 then do
    let sold ← int64 (inventory - c.clip)
    let lowest ← int64 (-c.inventoryLimit)
    some (if lowest ≤ sold then [⟨.ask, ask.toNat, c.clip⟩] else [])
  else
    some []

/-- `maker_quotes`; none where the source would overflow. -/
def makerQuotes (c : StrategyConfig) (inventory : Int) :
    Option (List Quote) :=
  if c.tick = 0 ∨ c.edge = 0 ∨ c.clip = 0 ∨ c.inventoryLimit ≤ 0 then
    some []
  else do
    -- One tick of skew per clip.
    let skew ← int64 (inventory.tdiv c.clip * c.tick)
    let fair ← int64 (c.fairPrice - skew)
    let below ← int64 (fair - c.edge)
    let bid ← c.toTick below
    let above ← int64 (fair + c.edge)
    let past ← int64 (above + c.tick)
    let up ← int64 (past - 1)
    let ask ← c.toTick up
    let bids ← c.bidQuotes inventory bid ask
    let asks ← c.askQuotes inventory bid ask
    some (bids ++ asks)

/-- The parameters that `trading_app` admits. -/
structure Admitted (c : StrategyConfig) : Prop where
  tick : 1 ≤ c.tick ∧ c.tick ≤ 10 ^ 6
  edge : 1 ≤ c.edge ∧ c.edge ≤ 10 ^ 6
  clip : 1 ≤ c.clip ∧ c.clip ≤ 10 ^ 5
  fairPrice : c.fairPrice < 2 ^ 32
  inventoryLimit : c.inventoryLimit ≤ 10 ^ 9

/-! ## Truncating division -/

theorem natAbs_tdiv_mul_le (value unit : Int) :
    (value.tdiv unit * unit).natAbs ≤ value.natAbs := by
  rw [Int.natAbs_mul, Int.natAbs_tdiv]
  exact Nat.div_mul_le_self _ _

/-- A value is rounded down to the largest multiple below it. -/
theorem isGreatest_multiple
    {value unit : Int} (positive : 0 < unit) :
    IsGreatest {x | unit ∣ x ∧ x ≤ value} (value / unit * unit) := by
  refine ⟨⟨Dvd.intro_left _ rfl, Int.ediv_mul_le _ positive.ne'⟩, ?_⟩
  rintro x ⟨⟨factor, rfl⟩, below⟩
  rw [Int.mul_comm] at below ⊢
  exact Int.mul_le_mul_of_nonneg_right
    ((Int.le_ediv_iff_mul_le positive).mpr below) positive.le

/-- A value is rounded up to the smallest multiple above it. -/
theorem isLeast_multiple
    {value unit : Int} (positive : 0 < unit) :
    IsLeast {x | unit ∣ x ∧ value ≤ x}
      ((value + unit - 1) / unit * unit) := by
  refine ⟨⟨Dvd.intro_left _ rfl, ?_⟩, ?_⟩
  · have remainder := Int.emod_lt_of_pos (value + unit - 1) positive
    have split := Int.ediv_mul_add_emod (value + unit - 1) unit
    lia
  · rintro x ⟨⟨factor, rfl⟩, above⟩
    rw [Int.mul_comm unit factor] at above ⊢
    have small : (value + unit - 1) / unit < factor + 1 := by
      rw [Int.ediv_lt_iff_lt_mul positive, Int.add_mul]
      lia
    exact Int.mul_le_mul_of_nonneg_right (Int.lt_add_one_iff.mp small)
      positive.le

/-- Where the rounded value is positive, truncation rounds down. -/
theorem tdiv_eq_ediv_of_pos
    {value unit : Int} (positive : 0 < unit)
    (above : 0 < value.tdiv unit * unit) :
    value.tdiv unit = value / unit := by
  refine Int.tdiv_eq_ediv_of_nonneg ?_
  by_contra negative
  have quotient : value.tdiv unit ≤ 0 := by
    have monotone := Int.tdiv_le_tdiv positive (not_le.mp negative).le
    rwa [Int.zero_tdiv] at monotone
  have product := Int.mul_nonpos_of_nonpos_of_nonneg quotient positive.le
  lia

/-! ## The desired prices -/

/-- The fair price, lowered by a tick for every clip that is held. -/
def fair (c : StrategyConfig) (inventory : Int) : Int :=
  c.fairPrice - inventory.tdiv c.clip * c.tick

/-- The bid that is desired. -/
def bid (c : StrategyConfig) (inventory : Int) : Int :=
  (c.fair inventory - c.edge).tdiv c.tick * c.tick

/-- The ask that is desired. -/
def ask (c : StrategyConfig) (inventory : Int) : Int :=
  (c.fair inventory + c.edge + c.tick - 1).tdiv c.tick * c.tick

/-- The bid is quoted. -/
def QuotesBid (c : StrategyConfig) (inventory : Int) : Prop :=
  0 < c.bid inventory ∧ c.bid inventory < c.ask inventory ∧
    c.bid inventory ≤ 2 ^ 32 - 1 ∧ inventory + c.clip ≤ c.inventoryLimit

/-- The ask is quoted. -/
def QuotesAsk (c : StrategyConfig) (inventory : Int) : Prop :=
  c.bid inventory < c.ask inventory ∧ 0 < c.ask inventory ∧
    c.ask inventory ≤ 2 ^ 32 - 1 ∧ -c.inventoryLimit ≤ inventory - c.clip

instance (c : StrategyConfig) (inventory : Int) :
    Decidable (c.QuotesBid inventory) :=
  inferInstanceAs (Decidable (_ ∧ _))

instance (c : StrategyConfig) (inventory : Int) :
    Decidable (c.QuotesAsk inventory) :=
  inferInstanceAs (Decidable (_ ∧ _))

variable {c : StrategyConfig} {inventory : Int}

theorem Admitted.fair_bounded
    (admitted : c.Admitted) (bounded : |inventory| ≤ 10 ^ 9) :
    (inventory.tdiv c.clip * c.tick).natAbs ≤ 10 ^ 15 ∧
      (c.fair inventory).natAbs ≤ 2 * 10 ^ 15 := by
  have quotient : (inventory.tdiv c.clip).natAbs ≤ 10 ^ 9 := by
    have smaller := Int.natAbs_tdiv_le_natAbs inventory c.clip
    rw [Int.abs_eq_natAbs] at bounded
    exact smaller.trans (by exact_mod_cast bounded)
  have skew : (inventory.tdiv c.clip * c.tick).natAbs ≤ 10 ^ 15 := by
    calc (inventory.tdiv c.clip * c.tick).natAbs
        = (inventory.tdiv c.clip).natAbs * c.tick := Int.natAbs_mul ..
      _ ≤ 10 ^ 9 * 10 ^ 6 := Nat.mul_le_mul quotient admitted.tick.2
      _ = 10 ^ 15 := by norm_num
  have price := admitted.fairPrice
  refine ⟨skew, ?_⟩
  unfold fair
  generalize inventory.tdiv c.clip * c.tick = shift at skew
  lia

/-- A result of at most sixty bits and a sign does not overflow. -/
theorem int64_small {value : Int} (small : value.natAbs ≤ 10 ^ 18) :
    int64 value = some value := by
  refine if_pos ?_
  unfold FitsInt64
  lia

theorem bidQuotes_eq
    (fits : (inventory + c.clip).natAbs ≤ 10 ^ 18) :
    c.bidQuotes inventory (c.bid inventory) (c.ask inventory) =
      some (if c.QuotesBid inventory then
        [⟨.bid, (c.bid inventory).toNat, c.clip⟩] else []) := by
  by_cases meant : 0 < c.bid inventory ∧ c.bid inventory < c.ask inventory ∧
      c.bid inventory ≤ 2 ^ 32 - 1
  · have quoted : c.QuotesBid inventory ↔
        inventory + c.clip ≤ c.inventoryLimit :=
      ⟨fun quotes => quotes.2.2.2,
        fun room => ⟨meant.1, meant.2.1, meant.2.2, room⟩⟩
    rw [bidQuotes, if_pos meant, int64_small fits]
    simp only [Option.bind_eq_bind, Option.bind_some, quoted]
  · rw [bidQuotes, if_neg meant,
      if_neg fun quotes => meant ⟨quotes.1, quotes.2.1, quotes.2.2.1⟩]

theorem askQuotes_eq
    (fits : (inventory - c.clip).natAbs ≤ 10 ^ 18)
    (limitFits : (-c.inventoryLimit).natAbs ≤ 10 ^ 18) :
    c.askQuotes inventory (c.bid inventory) (c.ask inventory) =
      some (if c.QuotesAsk inventory then
        [⟨.ask, (c.ask inventory).toNat, c.clip⟩] else []) := by
  by_cases meant : c.bid inventory < c.ask inventory ∧
      0 < c.ask inventory ∧ c.ask inventory ≤ 2 ^ 32 - 1
  · have quoted : c.QuotesAsk inventory ↔
        -c.inventoryLimit ≤ inventory - c.clip :=
      ⟨fun quotes => quotes.2.2.2,
        fun room => ⟨meant.1, meant.2.1, meant.2.2, room⟩⟩
    rw [askQuotes, if_pos meant, int64_small fits, int64_small limitFits]
    simp only [Option.bind_eq_bind, Option.bind_some, quoted]
  · rw [askQuotes, if_neg meant,
      if_neg fun quotes => meant ⟨quotes.1, quotes.2.1, quotes.2.2.1⟩]

/-- Nothing overflows, and the quotes are those that are desired. -/
theorem Admitted.makerQuotes_eq
    (admitted : c.Admitted) (bounded : |inventory| ≤ 10 ^ 9) :
    c.makerQuotes inventory =
      some (if c.inventoryLimit ≤ 0 then [] else
        (if c.QuotesBid inventory then
            [⟨.bid, (c.bid inventory).toNat, c.clip⟩] else []) ++
          (if c.QuotesAsk inventory then
            [⟨.ask, (c.ask inventory).toNat, c.clip⟩] else [])) := by
  obtain ⟨skewSmall, fairSmall⟩ := admitted.fair_bounded bounded
  obtain ⟨tick, edge, clip, fairPrice, limit⟩ := admitted
  by_cases noLimit : c.inventoryLimit ≤ 0
  · rw [makerQuotes, if_pos (.inr (.inr (.inr noLimit))), if_pos noLimit]
  rw [makerQuotes, if_neg (by lia), if_neg noLimit]
  have skew : int64 (inventory.tdiv c.clip * c.tick) =
      some (inventory.tdiv c.clip * c.tick) := int64_small (by lia)
  have isFair : c.fairPrice - inventory.tdiv c.clip * c.tick =
      c.fair inventory := rfl
  have bidSmall := natAbs_tdiv_mul_le (c.fair inventory - c.edge) c.tick
  have askSmall :=
    natAbs_tdiv_mul_le (c.fair inventory + c.edge + c.tick - 1) c.tick
  have bidRead : c.toTick (c.fair inventory - c.edge) =
      some (c.bid inventory) := int64_small (by lia)
  have askRead : c.toTick (c.fair inventory + c.edge + c.tick - 1) =
      some (c.ask inventory) := int64_small (by lia)
  have held : inventory.natAbs ≤ 10 ^ 9 := by
    rw [Int.abs_eq_natAbs] at bounded
    exact_mod_cast bounded
  clear skewSmall bidSmall askSmall
  simp only [skew, isFair, Option.bind_eq_bind, Option.bind_some]
  rw [int64_small (by lia), Option.bind_some, int64_small (by lia),
    Option.bind_some, bidRead, Option.bind_some, int64_small (by lia),
    Option.bind_some, int64_small (by lia), Option.bind_some,
    int64_small (by lia), Option.bind_some, askRead, Option.bind_some,
    bidQuotes_eq (by lia), Option.bind_some, askQuotes_eq (by lia) (by lia),
    Option.bind_some]

/-! ## What is quoted -/

/-- A quoted bid is a price rounded down, and a quoted ask one rounded up. -/
structure Rounds (c : StrategyConfig) (inventory : Int) (quote : Quote) :
    Prop where
  bid : quote.side = .bid → IsGreatest
    {x | (c.tick : Int) ∣ x ∧ x ≤ c.fair inventory - c.edge} quote.price
  ask : quote.side = .ask → IsLeast
    {x | (c.tick : Int) ∣ x ∧ c.fair inventory + c.edge ≤ x} quote.price

theorem QuotesBid.isGreatest
    (quotes : c.QuotesBid inventory) (positive : 0 < (c.tick : Int)) :
    IsGreatest {x | (c.tick : Int) ∣ x ∧ x ≤ c.fair inventory - c.edge}
      (c.bid inventory) := by
  have above := quotes.1
  unfold StrategyConfig.bid at above ⊢
  rw [tdiv_eq_ediv_of_pos positive above]
  exact isGreatest_multiple positive

theorem QuotesAsk.isLeast
    (quotes : c.QuotesAsk inventory) (positive : 0 < (c.tick : Int)) :
    IsLeast {x | (c.tick : Int) ∣ x ∧ c.fair inventory + c.edge ≤ x}
      (c.ask inventory) := by
  have above := quotes.2.1
  unfold StrategyConfig.ask at above ⊢
  rw [tdiv_eq_ediv_of_pos positive above]
  exact isLeast_multiple positive

/-- More inventory lowers both prices. -/
theorem fair_antitone
    (c : StrategyConfig) (positive : 0 < c.clip) {first second : Int}
    (less : first ≤ second) : c.fair second ≤ c.fair first := by
  have clip : (0 : Int) < c.clip := by lia
  have skew := Int.mul_le_mul_of_nonneg_right
    (Int.tdiv_le_tdiv clip less) (Int.natCast_nonneg c.tick)
  unfold fair
  generalize first.tdiv c.clip * c.tick = firstShift at skew ⊢
  generalize second.tdiv c.clip * c.tick = secondShift at skew ⊢
  lia

theorem bid_antitone
    (c : StrategyConfig) (clip : 0 < c.clip) (tick : 0 < c.tick)
    {first second : Int} (less : first ≤ second) :
    c.bid second ≤ c.bid first := by
  have fair := c.fair_antitone clip less
  have positive : (0 : Int) < c.tick := by lia
  exact Int.mul_le_mul_of_nonneg_right
    (Int.tdiv_le_tdiv positive (by lia)) positive.le

theorem ask_antitone
    (c : StrategyConfig) (clip : 0 < c.clip) (tick : 0 < c.tick)
    {first second : Int} (less : first ≤ second) :
    c.ask second ≤ c.ask first := by
  have fair := c.fair_antitone clip less
  have positive : (0 : Int) < c.tick := by lia
  exact Int.mul_le_mul_of_nonneg_right
    (Int.tdiv_le_tdiv positive (by lia)) positive.le

theorem Admitted.mem_makerQuotes
    (admitted : c.Admitted) (bounded : |inventory| ≤ 10 ^ 9)
    {quotes : List Quote} (made : c.makerQuotes inventory = some quotes)
    {quote : Quote} (member : quote ∈ quotes) :
    (c.QuotesBid inventory ∧
        quote = ⟨.bid, (c.bid inventory).toNat, c.clip⟩) ∨
      (c.QuotesAsk inventory ∧
        quote = ⟨.ask, (c.ask inventory).toNat, c.clip⟩) := by
  rw [admitted.makerQuotes_eq bounded, Option.some.injEq] at made
  subst made
  split_ifs at member with noLimit isBid isAsk isAsk
  · cases member
  · rcases List.mem_append.mp member with first | second
    · exact .inl ⟨isBid, List.mem_singleton.mp first⟩
    · exact .inr ⟨isAsk, List.mem_singleton.mp second⟩
  · rw [List.append_nil] at member
    exact .inl ⟨isBid, List.mem_singleton.mp member⟩
  · rw [List.nil_append] at member
    exact .inr ⟨isAsk, List.mem_singleton.mp member⟩
  · cases member

/-- What every list of quotes for an inventory is like. -/
structure Quoted (c : StrategyConfig) (inventory : Int)
    (quotes : List Quote) : Prop where
  sides : (quotes.map Quote.side).Sublist [.bid, .ask]
  rounds : ∀ quote ∈ quotes, c.Rounds inventory quote
  valid : ∀ quote ∈ quotes, 0 < quote.price ∧ quote.price < 2 ^ 32
  uncrossed : ∀ bid ∈ quotes, ∀ ask ∈ quotes, bid.side = .bid →
    ask.side = .ask → bid.price < ask.price
  bought : ∀ quote ∈ quotes, quote.side = .bid →
    ∀ size ≤ quote.quantity, inventory + size ≤ c.inventoryLimit
  sold : ∀ quote ∈ quotes, quote.side = .ask →
    ∀ size ≤ quote.quantity, -c.inventoryLimit ≤ inventory - size

theorem Admitted.quoted
    (admitted : c.Admitted) (bounded : |inventory| ≤ 10 ^ 9)
    {quotes : List Quote} (made : c.makerQuotes inventory = some quotes) :
    c.Quoted inventory quotes := by
  have positive : (0 : Int) < c.tick := by
    have tick := admitted.tick.1
    lia
  have only {quote : Quote} (member : quote ∈ quotes) :=
    admitted.mem_makerQuotes bounded made member
  refine
    { sides := ?_
      rounds := ?_
      valid := ?_
      uncrossed := ?_
      bought := ?_
      sold := ?_ }
  · rw [admitted.makerQuotes_eq bounded, Option.some.injEq] at made
    subst made
    split_ifs <;> simp
  · intro quote member
    rcases only member with ⟨isBid, rfl⟩ | ⟨isAsk, rfl⟩
    · have price : ((c.bid inventory).toNat : Int) = c.bid inventory :=
        Int.toNat_of_nonneg isBid.1.le
      refine ⟨fun _ => ?_, Side.noConfusion⟩
      rw [price]
      exact isBid.isGreatest positive
    · have price : ((c.ask inventory).toNat : Int) = c.ask inventory :=
        Int.toNat_of_nonneg isAsk.2.1.le
      refine ⟨Side.noConfusion, fun _ => ?_⟩
      rw [price]
      exact isAsk.isLeast positive
  · intro quote member
    rcases only member with ⟨isBid, rfl⟩ | ⟨isAsk, rfl⟩
    · obtain ⟨above, _, below, _⟩ := isBid
      dsimp only
      generalize c.bid inventory = price at above below
      lia
    · obtain ⟨_, above, below, _⟩ := isAsk
      dsimp only
      generalize c.ask inventory = price at above below
      lia
  · intro bidQuote bidMember askQuote askMember isBidSide isAskSide
    rcases only bidMember with ⟨isBid, rfl⟩ | ⟨_, rfl⟩
    · rcases only askMember with ⟨_, rfl⟩ | ⟨_, rfl⟩
      · cases isAskSide
      · have below := isBid.2.1
        have above := isBid.1
        dsimp only
        generalize c.bid inventory = lower at above below
        generalize c.ask inventory = upper at below
        lia
    · cases isBidSide
  · intro quote member isBidSide size part
    rcases only member with ⟨isBid, rfl⟩ | ⟨_, rfl⟩
    · have room := isBid.2.2.2
      dsimp only at part
      lia
    · cases isBidSide
  · intro quote member isAskSide size part
    rcases only member with ⟨_, rfl⟩ | ⟨isAsk, rfl⟩
    · cases isAskSide
    · have room := isAsk.2.2.2
      dsimp only at part
      lia

theorem Admitted.antitone
    (admitted : c.Admitted) {first second : Int}
    (firstBounded : |first| ≤ 10 ^ 9) (secondBounded : |second| ≤ 10 ^ 9)
    (less : first ≤ second) {quotes others : List Quote}
    (made : c.makerQuotes first = some quotes)
    (otherMade : c.makerQuotes second = some others) {quote other : Quote}
    (member : quote ∈ quotes) (otherMember : other ∈ others)
    (sameSide : quote.side = other.side) : other.price ≤ quote.price := by
  have clip : 0 < c.clip := admitted.clip.1
  have tick : 0 < c.tick := admitted.tick.1
  rcases admitted.mem_makerQuotes firstBounded made member with
    ⟨_, rfl⟩ | ⟨_, rfl⟩
  · rcases admitted.mem_makerQuotes secondBounded otherMade otherMember with
      ⟨_, rfl⟩ | ⟨_, rfl⟩
    · exact Int.toNat_le_toNat (c.bid_antitone clip tick less)
    · cases sameSide
  · rcases admitted.mem_makerQuotes secondBounded otherMade otherMember with
      ⟨_, rfl⟩ | ⟨_, rfl⟩
    · cases sameSide
    · exact Int.toNat_le_toNat (c.ask_antitone clip tick less)

/--
Within the admitted ranges quotes never overflow, are what they are meant to
be, and only fall as the inventory grows.
-/
theorem maker_quotes_sound
    (c : StrategyConfig) (admitted : c.Admitted) :
    (∀ inventory : Int, |inventory| ≤ 10 ^ 9 →
      ∃ quotes, c.makerQuotes inventory = some quotes ∧
        c.Quoted inventory quotes) ∧
      ∀ (first second : Int) (quotes others : List Quote),
        |first| ≤ 10 ^ 9 → |second| ≤ 10 ^ 9 → first ≤ second →
          c.makerQuotes first = some quotes →
            c.makerQuotes second = some others →
              ∀ quote ∈ quotes, ∀ other ∈ others,
                quote.side = other.side → other.price ≤ quote.price := by
  constructor
  · intro inventory bounded
    have made := admitted.makerQuotes_eq bounded
    exact ⟨_, made, admitted.quoted bounded made⟩
  · intro first second quotes others firstBounded secondBounded less made
      otherMade quote member other otherMember sameSide
    exact admitted.antitone firstBounded secondBounded less made otherMade
      member otherMember sameSide

/--
A fair price so low that the bid rounds to nothing, and a short and a long
position under the default parameters.
-/
theorem maker_quotes_sound_sample :
    (∃ quotes, makerQuotes { fairPrice := 6, edge := 3, tick := 10 } 3 =
        some quotes ∧
      Quoted { fairPrice := 6, edge := 3, tick := 10 } 3 quotes) ∧
      ∀ quote ∈ [(⟨.bid, 102, 5⟩ : Quote), ⟨.ask, 106, 5⟩],
        ∀ other ∈ [(⟨.bid, 94, 5⟩ : Quote), ⟨.ask, 98, 5⟩],
          quote.side = other.side → other.price ≤ quote.price :=
  ⟨(maker_quotes_sound { fairPrice := 6, edge := 3, tick := 10 }
      ⟨by decide, by decide, by decide, by decide, by decide⟩).1 3
      (by decide),
    (maker_quotes_sound {}
      ⟨by decide, by decide, by decide, by decide, by decide⟩).2 (-20) 20
      _ _ (by decide) (by decide) (by decide) (by decide) (by decide)⟩

end StrategyConfig

end LimitOrderBook
