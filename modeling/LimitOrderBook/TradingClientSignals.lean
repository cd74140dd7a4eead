import LimitOrderBook.TradingClientMarket

namespace LimitOrderBook

/-!
# What a trading client knows of the last trade

The features of an instrument show its last trade since the client's last
snapshot.  A snapshot is never taken between an execution and its trade, so a
loss of messages costs a client signals but never makes it show a wrong one.
-/

namespace MatchingEngine

variable {engine boundary : MatchingEngine} {pool : PoolBytes}
  {turns : List Turn} {messages : List Message}

/-- A run can be cut at each of its boundaries. -/
theorem Reachable.split_at
    (reachable : Reachable pool engine)
    (ran : StepSystem.run process Turn.engine engine messages = .ok turns)
    (member : boundary ∈ engine :: turns.map Turn.engine) :
    ∃ first second rest, turns = first ++ second ∧
      StepSystem.run process Turn.engine boundary rest = .ok second ∧
      Reachable pool boundary ∧
      boundary.sequence = engine.sequence + (feedOf first).length ∧
      marketOf boundary.books =
        (feedOf first).foldl Market.applyDelta (marketOf engine.books) := by
  induction messages generalizing engine turns with
  | nil =>
      cases ran
      obtain rfl : boundary = engine := by simpa using member
      exact ⟨[], [], [], rfl, rfl, reachable, rfl, rfl⟩
  | cons c others inductionHypothesis =>
      rcases List.mem_cons.mp member with rfl | later
      · exact ⟨[], turns, c :: others, rfl, ran, reachable, rfl, rfl⟩
      · obtain ⟨turn, restTurns, processed, restRan, rfl⟩ :=
          StepSystem.run_cons_ok ran
        obtain ⟨outcome, next⟩ := reachable.outcome_of processed
        have feeding := outcome.feeding reachable.invariant.sound
        obtain ⟨first, second, rest, rfl, secondRan, boundaryReachable,
          sequence, market⟩ := inductionHypothesis next restRan later
        have unfolded : feedOf (turn :: first) =
            turn.batch.updates ++ feedOf first := rfl
        refine ⟨turn :: first, second, rest, rfl, secondRan, boundaryReachable,
          ?_, ?_⟩
        · rw [sequence, feeding.sequence, unfolded, List.length_append,
            Nat.add_assoc]
        · rw [market, unfolded, List.foldl_append, ← feeding.feed.final_eq]

theorem feedOf_append (first second : List Turn) :
    feedOf (first ++ second) = feedOf first ++ feedOf second :=
  List.flatMap_append

/-- In the feed of a run every trade comes right after its execution. -/
theorem Reachable.pair_of_trade
    (reachable : Reachable pool engine)
    (ran : StepSystem.run process Turn.engine engine messages = .ok turns)
    {before after : List Message} {trade : Message}
    (shape : feedOf turns = before ++ trade :: after)
    (isTrade : trade.update = .trade) :
    ∃ earlier execute c, before = earlier ++ [execute] ∧
      TradePair c (earlier.foldl Market.applyDelta (marketOf engine.books))
        execute trade := by
  induction messages generalizing engine turns before with
  | nil =>
      cases ran
      simp [feedOf] at shape
  | cons c rest inductionHypothesis =>
      obtain ⟨turn, others, processed, restRan, rfl⟩ :=
        StepSystem.run_cons_ok ran
      obtain ⟨outcome, next⟩ := reachable.outcome_of processed
      have sound := reachable.invariant.sound
      have unfolded : feedOf (turn :: others) =
          turn.batch.updates ++ feedOf others := rfl
      rw [unfolded] at shape
      -- The trade is in the first batch or in the feed behind it.
      rcases List.append_eq_append_iff.mp shape with
        ⟨front, rfl, restShape⟩ | ⟨tail, updates, restShape⟩
      · obtain ⟨earlier, execute, other, rfl, pair⟩ :=
          inductionHypothesis next restRan restShape
        refine ⟨turn.batch.updates ++ earlier, execute, other, by simp, ?_⟩
        rw [List.foldl_append,
          ← (outcome.feeding sound).feed.final_eq]
        exact pair
      · cases tail with
        | nil =>
            rw [List.append_nil] at updates
            rw [List.nil_append] at restShape
            have noFront : feedOf others = [] ++ trade :: after :=
              restShape.symm
            obtain ⟨earlier, execute, _, none, _⟩ :=
              inductionHypothesis next restRan noFront
            exact absurd none (by simp)
        | cons first tail =>
            obtain ⟨rfl, _⟩ := List.cons.inj restShape
            obtain ⟨earlier, execute, rfl, _, pair⟩ :=
              (outcome.paired sound).split updates isTrade
            exact ⟨earlier, execute, c, rfl, pair⟩

end MatchingEngine

/-! ## What other deltas leave alone -/

/-- What the features say of the last trade. -/
def Features.signal (features : Features) : Nat × Side × Option Rat :=
  (features.tradeId, features.aggressor, features.aggressiveRatio)

namespace Watcher

variable {watcher : Watcher} {m : Message} {instrument : InstrumentId}

/-- Only a trade of an instrument changes its signal. -/
theorem signal_observe
    (other : m.update = .trade → m.instrumentId ≠ instrument) :
    ((watcher.observe m).features.get instrument).signal =
      (watcher.features.get instrument).signal := by
  unfold observe
  dsimp only
  by_cases here : instrument = m.instrumentId
  · subst here
    have notTrade : m.update ≠ .trade := fun isTrade => other isTrade rfl
    rw [FeatureEngine.get_after_of_not_trade notTrade, FeatureEngine.get_before]
    rfl
  · rw [FeatureEngine.get_after_of_ne here, FeatureEngine.get_before]

theorem signal_observeAll
    {deltas : List Message}
    (others : ∀ m ∈ deltas, m.update = .trade → m.instrumentId ≠ instrument) :
    ((watcher.observeAll deltas).features.get instrument).signal =
      (watcher.features.get instrument).signal := by
  induction deltas generalizing watcher with
  | nil => rfl
  | cons m rest inductionHypothesis =>
      refine Eq.trans ?_ (signal_observe (others m List.mem_cons_self))
      exact inductionHypothesis
        fun other member => others other (List.mem_cons_of_mem _ member)

end Watcher

/-- The last trade of an instrument among some deltas, if there is one. -/
theorem last_trade (deltas : List Message) (instrument : InstrumentId) :
    (∀ m ∈ deltas, m.update = .trade → m.instrumentId ≠ instrument) ∨
      ∃ before trade after, deltas = before ++ trade :: after ∧
        trade.update = .trade ∧ trade.instrumentId = instrument ∧
        ∀ m ∈ after, m.update = .trade → m.instrumentId ≠ instrument := by
  induction deltas with
  | nil => exact Or.inl (by simp)
  | cons m rest inductionHypothesis =>
      rcases inductionHypothesis with
        none | ⟨before, trade, after, rfl, isTrade, here, last⟩
      · by_cases isLast : m.update = .trade ∧ m.instrumentId = instrument
        · exact Or.inr ⟨[], m, rest, rfl, isLast.1, isLast.2, none⟩
        · refine Or.inl fun other member isTrade here => ?_
          rcases List.mem_cons.mp member with rfl | later
          · exact isLast ⟨isTrade, here⟩
          · exact none other later isTrade here
      · exact Or.inr ⟨m :: before, trade, after, rfl, isTrade, here, last⟩

/--
The features show the last trade of an instrument among some deltas, with the
share it took of what was displayed right before its execution.
-/
structure ShowsTrade (deltas : List Message) (instrument : InstrumentId)
    (features : Features) (earlier : List Message) (execute trade : Message)
    (later : List Message) : Prop where
  deltas : deltas = earlier ++ execute :: trade :: later
  isTrade : trade.update = .trade
  executes : execute.update = .execute
  here : trade.instrumentId = instrument
  last : ∀ m ∈ later, m.update = .trade → m.instrumentId ≠ instrument
  tradeId : features.tradeId = trade.tradeId
  aggressor : features.aggressor = trade.side
  ratio : features.aggressiveRatio = some ((trade.quantity : Rat) /
    bestDisplayed ((earlier.foldl Market.applyDelta Market.empty) instrument
      execute.side))
  share : ∀ ratio, features.aggressiveRatio = some ratio →
    0 < ratio ∧ ratio ≤ 1

namespace TradingClient

open MatchingEngine

variable {client : TradingClient} {engine boundary : MatchingEngine}
  {restored : MarketReplica} {pool : PoolBytes} {turns : List Turn}
  {messages : List Message}

/-- A snapshot signals nothing. -/
theorem signal_refreshed (market : MarketReplica) (snapshot : List Message)
    (instrument : InstrumentId) :
    ((refreshed market snapshot).get instrument).signal =
      ({} : Features).signal := by
  have kept : ∀ features : FeatureEngine,
      ((snapshot.foldl (fun features row =>
        if row.kind = .snapshotOrder then
          features.refresh row.instrumentId (market.book row.instrumentId)
        else features) features).get instrument).signal =
        (features.get instrument).signal := by
    induction snapshot with
    | nil => exact fun _ => rfl
    | cons row rest inductionHypothesis =>
        intro features
        rw [List.foldl_cons, inductionHypothesis]
        split
        · by_cases here : instrument = row.instrumentId
          · subst here
            rw [FeatureEngine.get_refresh_self]
            rfl
          · rw [FeatureEngine.get_refresh_of_ne here]
        · rfl
  exact kept {}

theorem Tracking.signals
    (tracking : client.Tracking engine turns boundary restored)
    (created : Created client.market.pool engine)
    (ran : StepSystem.run process Turn.engine engine messages = .ok turns)
    (instrument : InstrumentId) :
    ((client.features.get instrument).signal = ({} : Features).signal ∧
        ∀ m ∈ between (feedOf turns) boundary.sequence client.market.sequence,
          m.update = .trade → m.instrumentId ≠ instrument) ∨
      ∃ earlier execute trade later,
        ShowsTrade ((feedOf turns).take client.market.sequence) instrument
          (client.features.get instrument) earlier execute trade later ∧
          boundary.sequence ≤ earlier.length := by
  have watched : client.features = _ :=
    congrArg Watcher.features tracking.watched
  rcases last_trade (between (feedOf turns) boundary.sequence
    client.market.sequence) instrument with
    none | ⟨before, trade, after, slice, isTrade, here, last⟩
  · refine Or.inl ⟨?_, none⟩
    rw [watched, Watcher.signal_observeAll none]
    exact signal_refreshed restored boundary.snapshot instrument
  · subst here
    refine Or.inr ?_
    have reachable : Reachable client.market.pool engine := .start created
    obtain ⟨first, second, rest, rfl, secondRan, boundaryReachable, sequence,
      market⟩ := reachable.split_at ran tracking.member
    rw [created.sequence_eq_zero, Nat.zero_add] at sequence
    rw [created.market] at market
    have front : (feedOf (first ++ second)).take boundary.sequence =
        feedOf first := by
      rw [feedOf_append, sequence, List.take_left]
    -- The deltas since the boundary start the feed of the second part.
    have taken : (feedOf (first ++ second)).take client.market.sequence =
        feedOf first ++ (before ++ trade :: after) := by
      rw [← slice, ← take_append_between _ tracking.later, front]
    have secondFeed : feedOf second = before ++ trade :: (after ++
        (feedOf (first ++ second)).drop client.market.sequence) := by
      have whole := List.take_append_drop client.market.sequence
        (feedOf (first ++ second))
      rw [taken, List.append_assoc] at whole
      rw [← List.append_cancel_left (whole.trans (feedOf_append first second))]
      simp
    obtain ⟨earlier, execute, c, rfl, pair⟩ :=
      boundaryReachable.pair_of_trade secondRan secondFeed isTrade
    rw [market, ← List.foldl_append] at pair
    rw [List.append_assoc] at slice taken
    -- The client watched the deltas before the pair and then the pair.
    let start : Watcher := ⟨restored, refreshed restored boundary.snapshot⟩
    obtain ⟨samePool, startFollows⟩ :=
      restored_follows created ran tracking.member tracking.restores
    obtain ⟨numbered, final, feed⟩ := feed_of_created created ran
    obtain ⟨part, partNumbered, _⟩ :=
      feed.between numbered tracking.later tracking.within
    rw [slice] at part partNumbered
    have isDelta := partNumbered.isDelta
    have earlierFeed := part.take earlier.length
    have earlierNumbered := partNumbered.take earlier.length
    rw [List.take_left] at earlierFeed earlierNumbered
    rw [← samePool] at earlierFeed
    have shown : (start.observeAll earlier).replica.Follows engine.epoch
        (boundary.sequence + earlier.length)
        ((feedOf first ++ earlier).foldl Market.applyDelta Market.empty) := by
      have watchedEarlier := (Watcher.observeAll_follows
        (by exact startFollows : start.replica.Follows _ _ _) earlierNumbered
        earlierFeed).2
      rw [Market.upTo, front, ← List.foldl_append] at watchedEarlier
      exact watchedEarlier
    have signalled := Watcher.observe_pair shown pair
      (isDelta execute (by simp)) (isDelta trade (by simp))
    have signal : (client.features.get trade.instrumentId).signal =
        ((((start.observeAll earlier).observe execute).observe
          trade).features.get trade.instrumentId).signal := by
      rw [watched, slice]
      simp only [Watcher.observeAll, List.foldl_append, List.foldl_cons,
        List.foldl_nil]
      exact Watcher.signal_observeAll last
    simp only [Features.signal, Prod.mk.injEq] at signal
    obtain ⟨sameId, sameSide, sameRatio⟩ := signal
    have displayed := signalled.ratio
    rw [← sameRatio] at displayed
    refine ⟨feedOf first ++ earlier, execute, trade, after, ?_, ?_⟩
    · exact
        { deltas := by rw [taken]; simp
          isTrade := isTrade
          executes := signalled.executes
          here := rfl
          last := last
          tradeId := sameId.trans signalled.tradeId
          aggressor := (sameSide.trans signalled.aggressor).trans
            signalled.taker.symm
          ratio := by
            rw [displayed, shown.books.shows]
          share := by
            intro ratio isRatio
            rw [displayed] at isRatio
            cases isRatio
            exact signalled.share }
    · rw [List.length_append, sequence]
      exact Nat.le_add_right _ _

/--
Whatever happens to the datagrams of a run: a synchronized client restored last
the snapshot of a boundary.  Since then either an instrument had no trade, and
its features signal none, or they signal its last trade among the deltas that
are applied, with the share it took of what was displayed, as a rational.
-/
theorem last_trade_signalled
    {config : ClientConfig} {status : Message} {calls : List Call}
    (created : Created pool engine)
    (ran : StepSystem.run process Turn.engine engine messages = .ok turns)
    (connected : connect pool config status = .ok client)
    (drawn : ∀ call ∈ calls, call.Drawn engine turns)
    (synchronized : (calls.foldl TradingClient.call client).market.synchronized
      = true) :
    let final := calls.foldl TradingClient.call client
    ∃ boundary ∈ engine :: turns.map Turn.engine,
      client.lastRestored none calls = some boundary.snapshot ∧
      boundary.sequence ≤ final.market.sequence ∧
      ∀ instrument,
        ((final.features.get instrument).tradeId = 0 ∧
            (final.features.get instrument).aggressiveRatio = none ∧
            ∀ m ∈ between (feedOf turns) boundary.sequence
              final.market.sequence,
              m.update = .trade → m.instrumentId ≠ instrument) ∨
          ∃ earlier execute trade later,
            ShowsTrade ((feedOf turns).take final.market.sequence) instrument
              (final.features.get instrument) earlier execute trade later ∧
              boundary.sequence ≤ earlier.length := by
  intro final
  have tracks := (connect_tracks connected).calls created ran drawn
  change final.Tracks pool engine turns _ at tracks
  obtain ⟨boundary, restored, isLast, tracking⟩ := tracks.tracking synchronized
  rw [← tracks.pool] at created
  refine ⟨boundary, tracking.member, isLast, tracking.later,
    fun instrument => ?_⟩
  rcases tracking.signals created ran instrument with ⟨nothing, none⟩ | shows
  · simp only [Features.signal, Prod.mk.injEq] at nothing
    exact Or.inl ⟨nothing.1, nothing.2.2, none⟩
  · exact Or.inr shows

/-- Two of five are sold while the client is restored. -/
theorem last_trade_signalled_two_fifths :
    ∃ turns, ∃ client final : TradingClient,
      StepSystem.run process Turn.engine single
          [{ clientId := 7, requestId := 1, orderId := 1
             instrumentId := 1, price := 10, quantity := 5 },
            { clientId := 8, requestId := 1, orderId := 1, side := .ask
              instrumentId := 1, price := 10, quantity := 2 }] = .ok turns ∧
        client.recover [⟨single.snapshot.map .ok, (feedOf turns).map .ok⟩] =
          (final, .ok ()) ∧
        (final.features.get 1).aggressiveRatio = some (2 / 5) ∧
        ∃ earlier execute trade later,
          ShowsTrade (feedOf turns) 1 (final.features.get 1) earlier execute
            trade later := by
  let orders : List Message :=
    [{ clientId := 7, requestId := 1, orderId := 1
       instrumentId := 1, price := 10, quantity := 5 },
      { clientId := 8, requestId := 1, orderId := 1, side := .ask
        instrumentId := 1, price := 10, quantity := 2 }]
  let client : TradingClient :=
    { config := {}, market := { pool := .capacity }, epoch := 1 }
  let recovered : List Turn → TradingClient × Except String Unit := fun turns =>
    client.recover [⟨single.snapshot.map .ok, (feedOf turns).map .ok⟩]
  have evaluated : ((StepSystem.run process Turn.engine single orders).map
      fun turns => (recovered turns).2.isOk &&
        (recovered turns).1.market.synchronized &&
        (recovered turns).1.market.sequence == (feedOf turns).length &&
        ((recovered turns).1.features.get 1).tradeId == 1 &&
        ((recovered turns).1.features.get 1).aggressiveRatio ==
          some (2 / 5)).toOption = some true := by decide +kernel
  obtain ⟨turns, ran, _⟩ := single_reachable.run_feeding orders
  rw [ran] at evaluated
  simp only [Except.map, Except.toOption, Option.some.injEq, Bool.and_eq_true,
    beq_iff_eq] at evaluated
  obtain ⟨⟨⟨⟨succeeds, synchronized⟩, sequence⟩, tradeId⟩, ratio⟩ := evaluated
  have created : Created .capacity single :=
    ⟨OrderedMap.empty.insert 1 {}, 1, rfl⟩
  have connected : connect .capacity {}
      { kind := .report, report := .status, epoch := 1 } = .ok client := by
    simp [connect, client]
  have drawn : ∀ call ∈
      [Call.recover [⟨single.snapshot.map .ok, (feedOf turns).map .ok⟩]],
      call.Drawn single turns := by
    simp only [List.mem_cons, List.not_mem_nil, or_false, forall_eq, Call.Drawn]
    refine ⟨⟨single, by simp, single.snapshot, [], by simp, Or.inl rfl⟩, ?_⟩
    intro m member
    exact Or.inl (by simpa using member)
  obtain ⟨boundary, _, _, _, signals⟩ := last_trade_signalled created ran
    connected drawn synchronized
  rcases signals 1 with ⟨noTrade, _⟩ | ⟨earlier, execute, trade, later, shows, _⟩
  · exact absurd (noTrade.symm.trans tradeId) (by decide)
  · refine ⟨turns, client, (recovered turns).1, ran, ?_, ratio, earlier, execute,
      trade, later, ?_⟩
    · refine Prod.ext rfl ?_
      revert succeeds
      cases (recovered turns).2 with
      | error text => intro impossible; cases impossible
      | ok _ => exact fun _ => rfl
    · have whole : (feedOf turns).take (recovered turns).1.market.sequence =
          feedOf turns := by
        rw [sequence, List.take_length]
      rw [← whole]
      exact shows

end TradingClient

end LimitOrderBook
