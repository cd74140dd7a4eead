import LimitOrderBook.TraderSessions
import LimitOrderBook.TradingSessionLimits

namespace LimitOrderBook

/-!
# The orders of the market maker

The maker enters an order on a side only when it knows of none there.  What it
knows runs behind the exchange, but all it can have missed are fills, so there
is no order of its own on that side when the new one arrives.
-/

namespace TradingSession

open TradingClient MatchingEngine

variable {pool : PoolBytes} {session next : TradingSession}

/-- A step adds to the live orders of the client only by serving a new one. -/
theorem Step.liveOn
    (moved : Step session next) (orderly : session.Orderly pool)
    (instrument : InstrumentId) (side : Side) :
    next.engine.liveOn next.owner instrument side ≤
        session.engine.liveOn session.owner instrument side ∨
      ∃ c, session.requests = c :: next.requests ∧ c.action = .new ∧
        instrument = c.instrumentId ∧ side = c.side ∧
        next.engine.liveOn next.owner instrument side ≤
          session.engine.liveOn session.owner instrument side + 1 := by
  have sound := orderly.followed.reachable.invariant.sound
  cases moved with
  | submit _ _ asked =>
      obtain ⟨_, _, rfl, _⟩ := request_eq_ok asked
      exact Or.inl (Nat.le_refl _)
  | refuse _ asked =>
      rcases request_eq_error asked with rfl | ⟨_, rfl⟩
      · exact Or.inl (Nat.le_refl _)
      · exact Or.inl (Nat.le_refl _)
  | expire _ => exact Or.inl (Nat.le_refl _)
  | receive queued =>
      obtain ⟨handled, received⟩ := orderly.receive_eq queued
      rw [received]
      exact Or.inl (Nat.le_refl _)
  | look looks =>
      obtain ⟨_, _, _, rfl⟩ := looks
      exact Or.inl (Nat.le_refl _)
  | close => exact Or.inl (Nat.le_refl _)
  | @serve c rest turn queued processed =>
      obtain ⟨outcome, _⟩ := orderly.followed.reachable.outcome_of processed
      rcases outcome.liveOn sound session.owner instrument side with
        less | ⟨action, _, _, here, onSide, more⟩
      · exact Or.inl less
      · exact Or.inr ⟨c, queued, action, here, onSide, more⟩
  | @other c turn foreign processed =>
      obtain ⟨outcome, _⟩ := orderly.followed.reachable.outcome_of processed
      rcases outcome.liveOn sound session.owner instrument side with
        less | ⟨_, _, own, _⟩
      · exact Or.inl less
      · exact absurd own.symm foreign

end TradingSession

namespace Trader

open TradingClient TradingSession MatchingEngine OrderManager

variable {pool : PoolBytes} {config : ClientConfig} {c : StrategyOptions}
  {trader next : Trader}

/-- The number of live orders of the client on a side of an instrument. -/
abbrev live (trader : Trader) (instrument : InstrumentId) (side : Side) : Nat :=
  trader.session.engine.liveOn trader.session.owner instrument side

/-- What a ready trader does not know of is not at the exchange. -/
theorem Run.live_eq_zero
    {strategy : Strategy} {instrument : InstrumentId} {side : Side}
    (run : Run pool config strategy c trader) (ready : trader.Ready)
    (lacks : trader.session.client.manager.Lacks instrument side) :
    trader.live instrument side = 0 := by
  obtain ⟨_, quiet⟩ := run.quiet ready
  have orderly := run.session.orderly
  have drains := orderly.followed.drains trader.session.heard
    trader.session.reports rfl quiet
  rw [orderly.manager] at lacks
  have mirrors := orderly.followed.mirrors
  rw [stream, consumeAll_append] at mirrors
  exact mirrors.liveOn_eq_zero orderly.followed.reachable.invariant.sound
    (drains.lacks lacks)

/-- A new order comes to a side without one. -/
def Vacant (trader : Trader) (c : StrategyOptions) (command : Message) : Prop :=
  command.action = .new →
    command.instrumentId = c.instrument ∧
      trader.live c.instrument command.side = 0

/-- The invariant of the maker. -/
structure Guarded (c : StrategyOptions) (trader : Trader) : Prop where
  live : ∀ instrument side, trader.live instrument side ≤ 1
  elsewhere : ∀ instrument side, instrument ≠ c.instrument →
    trader.live instrument side = 0
  clips : ∀ command ∈ trader.session.sent,
    command.action = .new ∨ command.action = .replace →
      command.quantity = c.clip
  quotes : ∀ quote ∈ trader.desired, quote.quantity = c.clip
  requests : ∀ command ∈ trader.session.requests, trader.Vacant c command
  command : ∀ command ∈ trader.command, trader.Vacant c command ∧
    (command.action = .new ∨ command.action = .replace →
      command.quantity = c.clip)

namespace Guarded

/-- The exchange and the connection do what they do. -/
theorem around
    (guarded : trader.Guarded c) (coherent : trader.Coherent)
    (run : TradingSession.Run pool config Cautious trader.session)
    {session : TradingSession} (around : Around trader.session session) :
    Guarded c { trader with session := session } := by
  have phase := run.phase
  have moves := around.step.liveOn run.orderly
  have vacant : ∀ {command}, command ∈ session.requests →
      trader.Vacant c command →
      Vacant { trader with session := session } c command := by
    intro command member before isNew
    obtain ⟨here, free⟩ := before isNew
    refine ⟨here, ?_⟩
    rcases moves c.instrument command.side with less | ⟨served, queued, _⟩
    · exact Nat.le_zero.mp (free ▸ less)
    · refine absurd (Or.inl isNew) (phase.tail ?_)
      rw [queued]
      exact member
  refine
    { live := fun instrument side => ?_
      elsewhere := fun instrument side away => ?_
      clips := ?_
      quotes := guarded.quotes
      requests := fun command member =>
        vacant member (guarded.requests command (around.requests member))
      command := fun command decided => ?_ }
  · rcases moves instrument side with
      less | ⟨served, queued, isNew, rfl, rfl, more⟩
    · exact less.trans (guarded.live instrument side)
    · obtain ⟨here, free⟩ := guarded.requests served (by simp [queued]) isNew
      rw [← here] at free
      exact more.trans (Nat.succ_le_succ free.le)
  · rcases moves instrument side with
      less | ⟨served, queued, isNew, rfl, rfl, _⟩
    · exact Nat.le_zero.mp (guarded.elsewhere instrument side away ▸ less)
    · obtain ⟨here, _⟩ := guarded.requests served (by simp [queued]) isNew
      exact absurd here away
  · rw [around.sent]
    exact guarded.clips
  · obtain ⟨before, clip⟩ := guarded.command command decided
    refine ⟨fun isNew => ?_, clip⟩
    obtain ⟨here, free⟩ := before isNew
    refine ⟨here, ?_⟩
    have isSome : trader.command.isSome := by
      rw [Option.mem_def.mp decided]
      rfl
    have calls := coherent.calls
      (coherent.enters command decided (Or.inl isNew))
    rw [coherent.free isSome] at calls
    rcases moves c.instrument command.side with less | ⟨served, queued, _⟩
    · exact Nat.le_zero.mp (free ▸ less)
    · rw [(phase.quiet calls).1] at queued
      cases queued

theorem step
    (guarded : trader.Guarded c) (run : Run pool config .maker c trader)
    (moved : Step .maker c trader next) : next.Guarded c := by
  cases moved with
  | around around => exact guarded.around run.coherent run.session around
  | quote _ _ _ made =>
      refine { guarded with quotes := fun quote member => ?_ }
      rw [StrategyOptions.makerQuotes_quantity made quote member]
      exact (c.pricing_clip _).1
  | visit ready visits =>
      refine { guarded with command := fun command decided => ?_ }
      have decision := StrategyOptions.makerCommand_decision decided
      rcases decision.action with cancels |
        ⟨⟨quote, member, quantity⟩, replaces | ⟨isNew, lacks⟩⟩
      · simp [Vacant, cancels]
      · exact ⟨by simp [Vacant, replaces],
          fun _ => quantity.trans (guarded.quotes quote member)⟩
      · refine ⟨fun _ => ⟨decision.instrument, ?_⟩,
          fun _ => quantity.trans (guarded.quotes quote member)⟩
        rw [decision.side]
        exact run.live_eq_zero ready lacks
  | follow isTaker _ => cases isTaker
  | gamble isRandom _ _ => cases isRandom
  | leave _ _ _ =>
      refine { guarded with command := ?_ }
      rintro command ⟨⟩
      simp [Vacant, cancelEverything]
  | @submit command request client decided _ asked =>
      obtain ⟨_, _, rfl, rfl⟩ := request_eq_ok asked
      obtain ⟨vacant, clip⟩ := guarded.command command decided
      refine
        { guarded with
          clips := fun other member => ?_
          requests := fun other member => ?_
          command := by simp }
      · rcases List.mem_append.mp member with before | isLast
        · exact guarded.clips other before
        · rw [List.mem_singleton.mp isLast]
          exact clip
      · rcases List.mem_append.mp member with before | isLast
        · exact guarded.requests other before
        · rw [List.mem_singleton.mp isLast]
          exact vacant
  | refuse _ _ asked =>
      rcases request_eq_error asked with rfl | ⟨_, rfl⟩
      · exact { guarded with command := by simp }
      · exact { guarded with command := by simp }
  | throw => exact { guarded with command := by simp }

end Guarded

theorem Run.guarded (run : Run pool config .maker c trader) :
    trader.Guarded c := by
  induction run with
  | @start session opens =>
      have none : ∀ instrument side,
          session.engine.liveOn session.owner instrument side = 0 :=
        fun instrument side => OrderedMap.total_eq_zero fun id m found =>
          if_neg fun live => opens.unheard.resting id m found live.1
      cases opens with
      | greeted _ _ _ _ =>
          exact
            { live := fun instrument side => (none instrument side).le.trans
                (Nat.zero_le 1)
              elsewhere := fun instrument side _ => none instrument side
              clips := by simp
              quotes := by simp
              requests := by simp
              command := by simp }
  | step run moved inductionHypothesis => exact inductionHypothesis.step run moved

/--
In every run the market maker has at most one live order on each side of its
instrument and none elsewhere, each for at most one clip.  Once all its orders
of a side are filled, its position is beyond the position limit by less than a
clip.
-/
theorem maker_orders (run : Run pool config .maker c trader) :
    (∀ instrument side, trader.live instrument side ≤ 1) ∧
      (∀ instrument side, instrument ≠ c.instrument →
        trader.live instrument side = 0) ∧
      (∀ id m, trader.session.engine.resting.find? id = some m →
        m.clientId = trader.session.owner → m.quantity ≤ c.clip) ∧
      ∀ instrument side, Side.Listed side →
        trader.session.engine.risk trader.session.owner instrument side ≤
          max 0 trader.session.limits.maxPosition + (c.clip - 1 : Nat) := by
  have guarded := run.guarded
  have limited := run.session.limited
  have clips : trader.session.largest ≤ c.clip :=
    largest_le_iff.mpr fun command member enters =>
      (guarded.clips command member enters).le
  refine ⟨guarded.live, guarded.elsewhere,
    fun id m found own => (limited.small id m found own).trans clips,
    fun instrument side listed => (limited.risk instrument side listed).trans ?_⟩
  refine Int.add_le_add_left ?_ _
  unfold overshoot
  split
  · exact Int.ofNat_le.mpr (Nat.sub_le_sub_right clips 1)
  · exact Int.natCast_nonneg _

/-- Both sides are quoted. -/
theorem maker_orders_two_sides :
    ∃ trader, Run .capacity {} .maker {} trader ∧
      trader.live 1 .bid = 1 ∧ trader.live 1 .ask = 1 ∧
      (∀ instrument side, trader.live instrument side ≤ 1) ∧
      ∀ instrument side, Side.Listed side →
        trader.session.engine.risk trader.session.owner instrument side ≤
          max 0 trader.session.limits.maxPosition + 4 := by
  let options : StrategyOptions := {}
  let quotes : List Quote := [⟨.bid, 98, 5⟩, ⟨.ask, 102, 5⟩]
  let bid : Message :=
    { instrumentId := 1, postOnly := true, price := 98, quantity := 5
      orderId := 1 }
  let ask : Message :=
    { instrumentId := 1, side := .ask, postOnly := true, price := 102
      quantity := 5, orderId := 2 }
  let bidRequest : Message := { bid with clientId := 1, requestId := 1 }
  let askRequest : Message := { ask with clientId := 1, requestId := 2 }
  let accepted : Message :=
    { bidRequest.asReport .accepted .none 1 2 with
      exchangeId := 1, remaining := 5 }
  let complete : Message :=
    { bidRequest.asReport .complete .none 1 3 with
      exchangeId := 1, remaining := 5 }
  let greeted := Turn.report ⟨single, {}⟩ (hello {}) .status
  let market : MarketReplica := { pool := .capacity, synchronized := true }
  let fresh : TradingClient :=
    { config := {}, market := { pool := .capacity }, epoch := 1 }
  let watching : TradingClient :=
    { fresh with market := market, recoveries := 1 }
  let waiting : TradingClient := { watching with requestId := 1 }
  let informed : TradingClient :=
    { waiting with
      manager := consumeAll {} [accepted, complete]
      handled := [accepted, complete] }
  have made : options.makerQuotes 0 = some quotes := by decide
  have decided : (options.makerCommand {} quotes .bid 1) = (some bid, 2) ∧
      (options.makerCommand informed.manager quotes .ask 2) =
        (some ask, 3) := by decide +kernel
  have passed : ({} : OrderManager).check bid {} market 100000 = .none ∧
      informed.manager.check ask {} market 100000 = .none := by
    decide +kernel
  have asked : watching.request bid = (waiting, .ok bidRequest) := by
    unfold TradingClient.request
    rw [if_neg (not_not.mpr passed.1), if_neg (by decide)]
  have askedAgain : informed.request ask =
      ({ informed with requestId := 2 }, .ok askRequest) := by
    unfold TradingClient.request
    rw [if_neg (not_not.mpr passed.2), if_neg (by decide)]
  have greeting : single.process (hello {}) = .ok greeted := rfl
  have reachable : Reachable .capacity greeted.engine :=
    .step single_reachable greeting
  obtain ⟨first, processed, _, reachableFirst⟩ := reachable.outcome bidRequest
  obtain ⟨second, processedAsk, _, _⟩ := reachableFirst.outcome askRequest
  have evaluated : ((greeted.engine.process bidRequest).toOption.bind
      fun first => (first.engine.process askRequest).toOption.map fun second =>
        (first.batch.addressedTo 1, second.engine.liveOn 1 1 .bid,
          second.engine.liveOn 1 1 .ask)) =
      some ([accepted, complete], 1, 1) := by decide +kernel
  simp only [processed, processedAsk, Except.toOption, Option.bind_some,
    Option.map_some, Option.some.injEq, Prod.mk.injEq] at evaluated
  obtain ⟨answer, liveBid, liveAsk⟩ := evaluated
  have started : Run .capacity {} .maker {}
      { session := { engine := greeted.engine, client := fresh } } :=
    .start (.greeted single_reachable greeting rfl rfl)
  have looked := started.step
    (.around ⟨.look ⟨market, {}, 1, rfl⟩, rfl, rfl⟩)
  have quoted := looked.step (.quote rfl ⟨rfl, rfl, rfl⟩ rfl made)
  have visited := quoted.step (.visit ⟨rfl, rfl, rfl⟩ rfl)
  have sent := visited.step
    (.submit (congrArg Prod.fst decided.1) rfl asked)
  have served := sent.step (.around ⟨.serve rfl processed, rfl, rfl⟩)
  simp only [TradingSession.owner, waiting, watching, fresh, answer] at served
  have heard := served.step (.around ⟨.receive rfl, rfl, rfl⟩)
  have returned := heard.step (.around ⟨.receive rfl, rfl, rfl⟩)
  have turned := returned.step (.visit ⟨rfl, rfl, rfl⟩ rfl)
  have resent := turned.step
    (.submit (congrArg Prod.fst decided.2) rfl askedAgain)
  have both := resent.step (.around ⟨.serve rfl processedAsk, rfl, rfl⟩)
  obtain ⟨most, _, _, risk⟩ := maker_orders both
  exact ⟨_, both, liveBid, liveAsk, most, risk⟩

end Trader

end LimitOrderBook
