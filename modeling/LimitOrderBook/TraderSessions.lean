import LimitOrderBook.OrderManagerDrains
import LimitOrderBook.TradingApp

namespace LimitOrderBook

/-!
# What the strategies decide

A trader is a cautious client: it enters an order only when its earlier calls of
`submit` have returned, and after an exception it only cancels.  So its session
is one of those whose limits hold at the exchange.
-/

@[simp] theorem Side.sign_bid : Side.bid.sign = 1 := rfl

@[simp] theorem Side.sign_ask : Side.ask.sign = -1 := rfl

namespace StrategyOptions

variable {c : StrategyOptions} {manager : OrderManager} {desired : List Quote}
  {side : Side} {nextId : OrderId} {command : Message}

theorem pricing_clip (c : StrategyOptions) (feature : Features) :
    (c.pricing feature).clip = c.clip ∧
      (c.pricing feature).inventoryLimit = c.inventoryLimit := by
  unfold pricing
  split <;> exact ⟨rfl, rfl⟩

/-- A command of the maker, by what it knew when it decided. -/
structure MakerDecision (c : StrategyOptions) (manager : OrderManager)
    (desired : List Quote) (visited : Side) (command : Message) : Prop where
  instrument : command.instrumentId = c.instrument
  side : command.side = visited
  action : command.action = .cancel ∨
    (∃ quote ∈ desired, command.quantity = quote.quantity) ∧
      (command.action = .replace ∨
        command.action = .new ∧ manager.Lacks c.instrument visited)

theorem makerCommand_decision
    (decided : (c.makerCommand manager desired side nextId).1 = some command) :
    c.MakerDecision manager desired side command := by
  unfold makerCommand at decided
  dsimp only at decided
  split at decided
  · cases decided
  · cases decided
    exact ⟨rfl, rfl, Or.inl rfl⟩
  · rename_i quote wanted none
    cases decided
    have listed := List.mem_of_find?_eq_some wanted
    refine ⟨rfl, rfl, Or.inr ⟨⟨quote, listed, rfl⟩, Or.inr ⟨rfl, ?_⟩⟩⟩
    intro orderId order found here
    have others := List.find?_eq_none.mp none (orderId, order)
      (OrderedMap.mem_entries.mpr found)
    exact others (decide_eq_true here)
  · rename_i quote _ _ wanted _
    have listed := List.mem_of_find?_eq_some wanted
    split at decided
    · cases decided
    · cases decided
      exact ⟨rfl, rfl, Or.inr ⟨⟨quote, listed, rfl⟩, Or.inl rfl⟩⟩

theorem MakerDecision.tradable
    (decision : c.MakerDecision manager desired side command) :
    command.Tradable := by
  rcases decision.action with action | ⟨_, action | ⟨action, _⟩⟩
  all_goals
    unfold Message.Tradable
    rw [action]
    decide

/-- Every quote of the maker is for one clip. -/
theorem makerQuotes_quantity
    {c : StrategyConfig} {inventory : Int}
    (quotes : c.makerQuotes inventory = some desired) :
    ∀ quote ∈ desired, quote.quantity = c.clip := by
  have bidClip : ∀ {bid ask : Int} {bids : List Quote},
      c.bidQuotes inventory bid ask = some bids →
      ∀ quote ∈ bids, quote.quantity = c.clip := by
    intro bid ask bids made quote member
    unfold StrategyConfig.bidQuotes at made
    split at made
    · obtain ⟨bought, _, made⟩ := Option.bind_eq_some_iff.mp made
      cases made
      split at member
      · rw [List.mem_singleton.mp member]
      · cases member
    · cases made
      cases member
  have askClip : ∀ {bid ask : Int} {asks : List Quote},
      c.askQuotes inventory bid ask = some asks →
      ∀ quote ∈ asks, quote.quantity = c.clip := by
    intro bid ask asks made quote member
    unfold StrategyConfig.askQuotes at made
    split at made
    · obtain ⟨sold, _, made⟩ := Option.bind_eq_some_iff.mp made
      obtain ⟨lowest, _, made⟩ := Option.bind_eq_some_iff.mp made
      cases made
      split at member
      · rw [List.mem_singleton.mp member]
      · cases member
    · cases made
      cases member
  intro quote member
  unfold StrategyConfig.makerQuotes at quotes
  split at quotes
  · cases quotes
    cases member
  · simp only [bind, Option.bind_eq_some_iff] at quotes
    obtain ⟨_, _, _, _, _, _, bid, _, _, _, _, _, _, _, ask, _, bids, bidsMade,
      asks, asksMade, made⟩ := quotes
    cases made
    rcases List.mem_append.mp member with isBid | isAsk
    · exact bidClip bidsMade quote isBid
    · exact askClip asksMade quote isAsk

/-- There is room for a quote within the inventory limit. -/
structure Affords (c : StrategyOptions) (inventory : Int) (quote : Quote) :
    Prop where
  clip : quote.quantity = c.clip
  room : quote.side.Listed →
    quote.side.sign * inventory + quote.quantity ≤ c.inventoryLimit

theorem affords_of_signedClip
    {inventory : Int} {price : Price}
    (within : |inventory + c.signedClip side| ≤ c.inventoryLimit) :
    c.Affords inventory ⟨side, price, c.clip⟩ := by
  refine ⟨rfl, fun listed => ?_⟩
  obtain ⟨lower, upper⟩ := abs_le.mp within
  rcases listed with rfl | rfl
  · have signed : c.signedClip .bid = c.clip := rfl
    rw [signed] at upper
    rw [Side.sign_bid, Int.one_mul]
    exact upper
  · have signed : c.signedClip .ask = -c.clip := rfl
    rw [signed] at lower
    rw [Side.sign_ask, Int.neg_one_mul]
    dsimp only
    lia

theorem takerQuote_affords
    {feature : Features} {book : Option OrderBook} {inventory : Int}
    {quote : Quote}
    (wants : (c.pricing feature).takerQuote book inventory = some quote) :
    c.Affords inventory quote := by
  obtain ⟨clip, limit⟩ := c.pricing_clip feature
  unfold StrategyConfig.takerQuote at wants
  split at wants
  · cases wants
  split at wants
  · cases wants
  rcases Option.or_eq_some_iff.mp wants with buys | ⟨_, sells⟩
  · unfold StrategyConfig.buyQuote at buys
    split at buys
    · split at buys
      · rename_i room
        cases buys
        refine ⟨clip, fun _ => ?_⟩
        have within := room.2
        rw [limit] at within
        rw [Side.sign_bid, Int.one_mul]
        exact within
      · cases buys
    · cases buys
  · unfold StrategyConfig.sellQuote at sells
    split at sells
    · split at sells
      · rename_i room
        cases sells
        refine ⟨clip, fun _ => ?_⟩
        have within := room.2
        rw [limit] at within
        rw [Side.sign_ask, Int.neg_one_mul]
        dsimp only
        lia
      · cases sells
    · cases sells

theorem takerTurn_affords
    {client : TradingClient} {consumed : Nat} {quote : Quote}
    (wants : (c.takerTurn client consumed).1 = some quote) :
    c.Affords (client.manager.position c.instrument).quantity quote := by
  unfold takerTurn at wants
  dsimp only at wants
  split at wants
  · unfold ratioQuote at wants
    split at wants
    · split at wants
      · dsimp only at wants
        split at wants
        · dsimp only at wants
          split at wants
          · rename_i within
            cases wants
            exact affords_of_signedClip within
          · cases wants
        · cases wants
      · cases wants
    · cases wants
  · exact takerQuote_affords wants

theorem randomTurn_affords
    {client : TradingClient} {quote : Quote}
    (wants : c.randomTurn client side = some quote) :
    c.Affords (client.manager.position c.instrument).quantity quote := by
  unfold randomTurn at wants
  dsimp only at wants
  split at wants
  · rename_i within
    cases wants
    exact affords_of_signedClip within
  · cases wants

end StrategyOptions

namespace TradingSession

/-- Without a call of `submit` there is none under way later. -/
theorem Around.free
    {session later : TradingSession} (around : Around session later)
    (free : session.waiting = none) : later.waiting = none := by
  obtain ⟨step, sent, _⟩ := around
  cases step with
  | submit _ _ _ => simp at sent
  | refuse _ _ => exact free
  | expire _ => rfl
  | @receive m rest _ =>
      unfold TradingSession.receive
      split
      · rfl
      · simp [hear, free]
  | look _ => exact free
  | close => exact free
  | serve _ _ => exact free
  | other _ _ => exact free

/-- Without a call of `submit` there are no new requests. -/
theorem Around.requests
    {session later : TradingSession} (around : Around session later)
    {command : Message}
    (member : command ∈ later.requests) :
    command ∈ session.requests := by
  obtain ⟨step, sent, _⟩ := around
  cases step with
  | submit _ _ _ => simp at sent
  | refuse _ _ => exact member
  | expire _ => exact member
  | receive _ =>
      unfold TradingSession.receive at member
      split at member
      · exact member
      · exact member
  | look _ => exact member
  | close => exact member
  | serve queued _ =>
      rw [queued]
      exact List.mem_cons_of_mem _ member
  | other _ _ => exact member

theorem cautious_of_sent
    {session later : TradingSession} (same : later.sent = session.sent) :
    Cautious session later := by
  intro c more
  simp [same] at more

end TradingSession

namespace Trader

open TradingClient TradingSession

variable {pool : PoolBytes} {config : ClientConfig} {strategy : Strategy}
  {c : StrategyOptions} {trader next : Trader}

/-- Where the calls of `submit` stand. -/
structure Coherent (trader : Trader) : Prop where
  calls : trader.left = false →
    trader.session.returned.length + trader.session.waiting.toList.length =
      trader.session.sent.length
  free : trader.command.isSome → trader.session.waiting = none
  tradable : ∀ command ∈ trader.command, command.Tradable
  enters : ∀ command ∈ trader.command,
    command.action = .new ∨ command.action = .replace → trader.left = false

/-- A decision that keeps the session. -/
theorem Coherent.decide
    (coherent : trader.Coherent) (ready : trader.Ready)
    (same : next.session = trader.session) (goesOn : next.left = false)
    (tradable : ∀ command ∈ next.command, command.Tradable) : next.Coherent where
  calls _ := by
    rw [same]
    exact coherent.calls ready.1
  free _ := by
    rw [same]
    exact ready.2.2
  tradable := tradable
  enters _ _ _ := goesOn

theorem tradable_of_take
    {quote : Option Quote} :
    ∀ command ∈ (trader.take c quote).command, command.Tradable := by
  intro command member
  obtain ⟨_, _, rfl⟩ := Option.map_eq_some_iff.mp member
  exact ⟨by simp [StrategyOptions.immediate],
    by simp [StrategyOptions.immediate]⟩

theorem Coherent.step
    (coherent : trader.Coherent) (moved : Step strategy c trader next) :
    next.Coherent := by
  cases moved with
  | around around =>
      refine ⟨fun goesOn => ?_, fun isSome => ?_, coherent.tradable,
        coherent.enters⟩
      · rw [around.sent]
        exact around.calls.trans (coherent.calls goesOn)
      · exact around.free (coherent.free isSome)
  | quote _ ready _ _ =>
      exact coherent.decide ready rfl ready.1 coherent.tradable
  | visit ready _ =>
      exact coherent.decide ready rfl ready.1 fun command decided =>
        (StrategyOptions.makerCommand_decision decided).tradable
  | follow _ ready => exact coherent.decide ready rfl ready.1 tradable_of_take
  | gamble _ _ ready =>
      exact coherent.decide ready rfl ready.1 tradable_of_take
  | leave _ _ free =>
      refine ⟨fun goesOn => (by cases goesOn), fun _ => free, ?_, ?_⟩
      · rintro command ⟨⟩
        exact ⟨by decide, by decide⟩
      · rintro command ⟨⟩ enters
        simp [cancelEverything] at enters
  | submit decided free asked =>
      refine ⟨fun goesOn => ?_, fun isSome => (by cases isSome), by simp,
        by simp⟩
      have before := coherent.calls goesOn
      rw [free] at before
      simpa using before
  | refuse decided free asked =>
      exact ⟨fun goesOn => (by cases goesOn), fun isSome => (by cases isSome),
        by simp, by simp⟩
  | throw =>
      exact ⟨fun goesOn => (by cases goesOn), fun isSome => (by cases isSome),
        by simp, by simp⟩

/-- A step of a trader is none of its session, or a cautious one. -/
theorem Coherent.session
    (coherent : trader.Coherent) (moved : Step strategy c trader next) :
    next.session = trader.session ∨
      TradingSession.Step trader.session next.session ∧
        Cautious trader.session next.session := by
  cases moved with
  | around around => exact Or.inr ⟨around.step, cautious_of_sent around.sent⟩
  | quote _ _ _ _ => exact Or.inl rfl
  | visit _ _ => exact Or.inl rfl
  | follow _ _ => exact Or.inl rfl
  | gamble _ _ _ => exact Or.inl rfl
  | leave _ _ _ => exact Or.inl rfl
  | @submit command request client decided free asked =>
      refine Or.inr
        ⟨.submit free (coherent.tradable command decided) asked, ?_⟩
      intro sent more enters
      cases List.append_cancel_left more
      obtain ⟨_, _, _, rfl⟩ := request_eq_ok asked
      have calls := coherent.calls (coherent.enters command decided enters)
      rw [free] at calls
      exact calls
  | refuse _ free asked =>
      exact Or.inr ⟨.refuse free asked, cautious_of_sent rfl⟩
  | throw =>
      cases waits : trader.session.waiting with
      | none => exact Or.inl (by simp [← waits])
      | some waiting => exact Or.inr ⟨.expire waits, cautious_of_sent rfl⟩

theorem Run.coherent (run : Run pool config strategy c trader) :
    trader.Coherent := by
  induction run with
  | start opens =>
      cases opens with
      | greeted _ _ _ _ =>
          exact ⟨fun _ => rfl, fun isSome => (by cases isSome), by simp,
            by simp⟩
  | step _ moved inductionHypothesis => exact inductionHypothesis.step moved

/-- The session of a trader is that of a cautious client. -/
theorem Run.session (run : Run pool config strategy c trader) :
    TradingSession.Run pool config Cautious trader.session := by
  induction run with
  | start opens => exact .start opens
  | step run moved inductionHypothesis =>
      rcases run.coherent.session moved with same | ⟨step, cautious⟩
      · rw [same]
        exact inductionHypothesis
      · exact .step inductionHypothesis step cautious

/-- When a trader decides, nothing that it sent is under way. -/
theorem Run.quiet
    (run : Run pool config strategy c trader) (ready : trader.Ready) :
    trader.session.requests = [] ∧ NoComplete trader.session.reports := by
  refine run.session.phase.quiet ?_
  have calls := run.coherent.calls ready.1
  rw [ready.2.2] at calls
  exact calls

end Trader

end LimitOrderBook
