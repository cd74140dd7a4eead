import LimitOrderBook.FeatureMicroprice
import LimitOrderBook.TradingClient

namespace LimitOrderBook

/-!
# The market a trading client sees

Datagrams may be lost, doubled and reordered, snapshots may be old or cut off,
and the strategy thread recovers whenever it likes.  Whenever its replica says
that it is synchronized, the client has nevertheless watched every delta since
its last snapshot exactly once and in order, so its features are those of an
observer without any loss.
-/

/-! ## Parts of a feed -/

/-- The deltas of a feed from one sequence number to another. -/
def between (deltas : List Message) (first last : Sequence) : List Message :=
  (deltas.take last).drop first

variable {deltas : List Message} {first last : Sequence} {m : Message}

/-- Nothing lies between a place and itself. -/
theorem between_self (deltas : List Message) (first : Sequence) :
    between deltas first first = [] :=
  List.drop_eq_nil_of_le (List.length_take_le _ _)

/-- What lies behind a prefix makes it a longer prefix. -/
theorem take_append_between (deltas : List Message) (inside : first ≤ last) :
    deltas.take first ++ between deltas first last = deltas.take last := by
  have front : (deltas.take last).take first = deltas.take first := by
    rw [List.take_take, Nat.min_eq_left inside]
  rw [← front]
  exact List.take_append_drop _ _

/-- The next delta is the last of the longer stretch. -/
theorem between_succ (inside : first ≤ last) (here : deltas[last]? = some m) :
    between deltas first (last + 1) = between deltas first last ++ [m] := by
  have within := (List.getElem?_eq_some_iff.mp here).1
  rw [between, List.take_add_one, here, List.drop_append_of_le_length]
  · rfl
  · rw [List.length_take]
    lia

/-- The rest of numbered messages is numbered from its place on. -/
theorem Numbered.of_append
    {epoch : Nat} {sequence : Sequence} {front rest : List Message}
    (numbered : Numbered epoch sequence (front ++ rest)) :
    Numbered epoch (sequence + front.length) rest := by
  induction front generalizing sequence with
  | nil => exact numbered
  | cons m others inductionHypothesis =>
      obtain ⟨_, _, _, restNumbered⟩ := numbered
      have restNumbered := inductionHypothesis restNumbered
      rw [List.length_cons, Nat.add_comm others.length, ← Nat.add_assoc]
      exact restNumbered

/-- The rest of a feed is one for the market it has led to. -/
theorem Market.Feed.of_append
    {slots : Nat} {market final : Market} {front rest : List Message}
    (feed : Market.Feed slots market (front ++ rest) final) :
    Market.Feed slots (front.foldl Market.applyDelta market) rest final := by
  induction front generalizing market with
  | nil => exact feed
  | cons m others inductionHypothesis =>
      cases feed with
      | next _ restFeed => exact inductionHypothesis restFeed

/-- A part of a numbered feed leads from one prefix of it to another. -/
theorem Market.Feed.between
    {slots epoch : Nat} {final : Market}
    (feed : Market.Feed slots Market.empty deltas final)
    (numbered : Numbered epoch 0 deltas) (inside : first ≤ last)
    (within : last ≤ deltas.length) :
    Market.Feed slots (Market.upTo deltas first)
        (LimitOrderBook.between deltas first last)
        (Market.upTo deltas last) ∧
      Numbered epoch first (LimitOrderBook.between deltas first last) ∧
      first + (LimitOrderBook.between deltas first last).length = last := by
  have taken := feed.take last
  have numberedTaken := numbered.take last
  rw [← take_append_between deltas inside] at taken numberedTaken
  have tail := numberedTaken.of_append
  rw [List.length_take, Nat.zero_add,
    Nat.min_eq_left (inside.trans within)] at tail
  refine ⟨?_, tail, ?_⟩
  · have front := taken.of_append
    rw [take_append_between deltas inside] at front
    exact front
  · rw [LimitOrderBook.between, List.length_drop, List.length_take]
    lia

namespace MarketReplica

variable {replica other : MarketReplica}

/-- Everything a call of `consume` can do, by whether the message is fresh. -/
inductive Step (replica : MarketReplica) (m : Message) :
    MarketReplica × Bool → Prop where
  | passed :
      replica.synchronized = true →
      ¬ TradingClient.Fresh replica m →
      Step replica m (replica, true)
  | lost {next : MarketReplica} :
      next.synchronized = false →
      next.pool = replica.pool →
      Step replica m (next, false)
  | applied {next : MarketReplica} :
      replica.synchronized = true →
      TradingClient.Fresh replica m →
      m.sequence = replica.sequence + 1 →
      next.sequence = m.sequence →
      next.pool = replica.pool →
      Step replica m (next, true)

/-- What a call of consume does to the replica. -/
theorem consume_step (replica : MarketReplica) (m : Message) :
    Step replica m (replica.consume m) := by
  unfold consume
  split
  · rename_i unsynchronized
    exact .lost unsynchronized rfl
  · rename_i synchronized
    have isSynchronized : replica.synchronized = true := by
      simpa using synchronized
    split
    · exact .lost rfl rfl
    · rename_i sameEpoch
      split
      · rename_i isHeartbeat
        have notFresh : ¬ TradingClient.Fresh replica m := by
          simp [TradingClient.Fresh, isHeartbeat]
        dsimp only
        split
        · exact .lost rfl rfl
        · rw [isSynchronized]
          exact .passed isSynchronized notFresh
      · split
        · exact .lost rfl rfl
        · rename_i isDelta
          split
          · rename_i old
            refine .passed isSynchronized fun fresh => ?_
            exact Nat.not_lt.mpr old fresh.2.2
          · rename_i later
            split
            · exact .lost rfl rfl
            · rename_i successor
              dsimp only
              split
              · exact .lost rfl rfl
              · refine .applied isSynchronized ?_ ?_ rfl rfl
                · exact ⟨not_not.mp isDelta, not_not.mp sameEpoch,
                    Nat.lt_of_not_le later⟩
                · have one := not_not.mp successor
                  lia

/-- A restore only keeps the size of the pools. -/
theorem restore_of_pool
    {rows : List Message} {restored : MarketReplica}
    (samePool : other.pool = replica.pool)
    (success : replica.restore rows = (restored, .ok ())) :
    other.restore rows = (restored, .ok ()) := by
  unfold restore at success ⊢
  rw [samePool]
  split at success
  · cases success
  · cases success
    simp

/-- A restore keeps the pool of the replica. -/
theorem restore_pool
    {rows : List Message} {restored : MarketReplica}
    (success : replica.restore rows = (restored, .ok ())) :
    restored.pool = replica.pool := by
  unfold restore at success
  split at success
  · cases success
  · cases success
    rfl

/-- A snapshot that is refused leaves nothing synchronized. -/
theorem restore_error
    {rows : List Message} {next : MarketReplica} {text : String}
    (failure : replica.restore rows = (next, .error text)) :
    next = replica.invalidate := by
  unfold restore at failure
  split at failure
  · cases failure
    rfl
  · cases failure

end MarketReplica

namespace TradingClient

open MatchingEngine

/-- The replica and the features of a client. -/
def watcher (client : TradingClient) : Watcher :=
  ⟨client.market, client.features⟩

variable {client next : TradingClient} {epoch : Nat}

/-- Everything a call of `observe` can do. -/
inductive Observed (client : TradingClient) (m : Message) :
    TradingClient × Bool → Prop where
  | passed :
      client.market.synchronized = true →
      ¬ Fresh client.market m →
      Observed client m (client, true)
  | lost {market : MarketReplica} {features : FeatureEngine} :
      market.synchronized = false →
      market.pool = client.market.pool →
      Observed client m
        ({ client with market := market, features := features }, false)
  | applied {market : MarketReplica} {features : FeatureEngine} :
      client.market.synchronized = true →
      Fresh client.market m →
      m.sequence = client.market.sequence + 1 →
      market.sequence = m.sequence →
      market.pool = client.market.pool →
      client.watcher.observe m = ⟨market, features⟩ →
      Observed client m
        ({ client with market := market, features := features }, true)

/-- What a call of observe does to the client. -/
theorem observe_observed (client : TradingClient) (m : Message) :
    Observed client m (client.observe m) := by
  have step := client.market.consume_step m
  unfold observe
  generalize consumed : client.market.consume m = result at step ⊢
  cases step with
  | passed synchronized notFresh =>
      simp only [Bool.true_eq_false, if_false, notFresh]
      exact .passed synchronized notFresh
  | lost unsynchronized samePool =>
      simp only [if_true]
      exact .lost unsynchronized samePool
  | applied synchronized fresh successor sameSequence samePool =>
      simp only [Bool.true_eq_false, if_false, fresh, if_true]
      refine .applied synchronized fresh successor sameSequence samePool ?_
      simp [Watcher.observe, watcher, consumed]

/-! ## What a synchronized client has watched -/

/--
The client was restored from the snapshot of a boundary and has watched every
delta since then.
-/
structure Tracking (engine : MatchingEngine) (turns : List Turn)
    (client : TradingClient) (boundary : MatchingEngine)
    (restored : MarketReplica) : Prop where
  member : boundary ∈ engine :: turns.map Turn.engine
  restores : ({ pool := client.market.pool } : MarketReplica).restore
    boundary.snapshot = (restored, .ok ())
  later : boundary.sequence ≤ client.market.sequence
  within : client.market.sequence ≤ (feedOf turns).length
  watched : client.watcher =
    (Watcher.mk restored (refreshed restored boundary.snapshot)).observeAll
      (between (feedOf turns) boundary.sequence client.market.sequence)

/-- A client that restored these rows last tracks the run from them on. -/
structure Tracks (pool : PoolBytes) (engine : MatchingEngine)
    (turns : List Turn) (client : TradingClient)
    (rows : Option (List Message)) : Prop where
  pool : client.market.pool = pool
  tracking : client.market.synchronized = true →
    ∃ boundary restored, rows = some boundary.snapshot ∧
      client.Tracking engine turns boundary restored

/-- Nothing is claimed of a market that is not synchronized. -/
theorem Tracks.of_unsynchronized
    {pool : PoolBytes} {engine : MatchingEngine} {turns : List Turn}
    {rows : Option (List Message)} (samePool : client.market.pool = pool)
    (unsynchronized : client.market.synchronized = false) :
    client.Tracks pool engine turns rows where
  pool := samePool
  tracking synchronized := by
    rw [unsynchronized] at synchronized
    cases synchronized

/-- Only the market and the features matter. -/
theorem Tracks.congr
    {pool : PoolBytes} {engine : MatchingEngine} {turns : List Turn}
    {rows : Option (List Message)} (tracks : client.Tracks pool engine turns rows)
    (sameMarket : next.market = client.market)
    (sameFeatures : next.features = client.features) :
    next.Tracks pool engine turns rows where
  pool := by
    rw [sameMarket]
    exact tracks.pool
  tracking synchronized := by
    rw [sameMarket] at synchronized
    obtain ⟨boundary, restored, isLast, tracking⟩ :=
      tracks.tracking synchronized
    have sameWatcher : next.watcher = client.watcher := by
      rw [watcher, sameMarket, sameFeatures]
      rfl
    refine ⟨boundary, restored, isLast, tracking.member, ?_, ?_, ?_, ?_⟩
    · rw [sameMarket]
      exact tracking.restores
    · rw [sameMarket]
      exact tracking.later
    · rw [sameMarket]
      exact tracking.within
    · rw [sameWatcher, sameMarket]
      exact tracking.watched

section Run

variable {engine boundary : MatchingEngine} {restored : MarketReplica}
  {pool : PoolBytes} {turns : List Turn} {messages : List Message}
  {rows : Option (List Message)}

/-- The feed of a new engine. -/
theorem feed_of_created
    (created : Created pool engine)
    (ran : StepSystem.run process Turn.engine engine messages = .ok turns) :
    Numbered engine.epoch 0 (feedOf turns) ∧
      ∃ final, Market.Feed pool.book.slots Market.empty (feedOf turns) final := by
  have reachable : Reachable pool engine := .start created
  obtain ⟨turns', ran', _, feed, numbered, _⟩ := reachable.run_feeding messages
  rw [ran] at ran'
  cases ran'
  rw [created.market] at feed
  rw [created.sequence_eq_zero] at numbered
  exact ⟨numbered, _, feed⟩

/-- A boundary of a run shows the deltas up to its own sequence number. -/
theorem boundary_upTo
    (created : Created pool engine)
    (ran : StepSystem.run process Turn.engine engine messages = .ok turns)
    (member : boundary ∈ engine :: turns.map Turn.engine) :
    Reachable pool boundary ∧ boundary.epoch = engine.epoch ∧
      boundary.sequence ≤ (feedOf turns).length ∧
      marketOf boundary.books =
        Market.upTo (feedOf turns) boundary.sequence := by
  have reachable : Reachable pool engine := .start created
  obtain ⟨boundaryReachable, epoch, count, sequence, within, market⟩ :=
    reachable.boundary_market ran member
  rw [created.sequence_eq_zero, Nat.zero_add] at sequence
  rw [created.market] at market
  rw [sequence]
  exact ⟨boundaryReachable, epoch, within, market⟩

/-- A client restored from a boundary follows the run from there. -/
theorem restored_follows
    (created : Created pool engine)
    (ran : StepSystem.run process Turn.engine engine messages = .ok turns)
    (member : boundary ∈ engine :: turns.map Turn.engine)
    (restores : ({ pool := pool } : MarketReplica).restore
      boundary.snapshot = (restored, .ok ())) :
    restored.pool = pool ∧ restored.Follows engine.epoch boundary.sequence
      (Market.upTo (feedOf turns) boundary.sequence) := by
  obtain ⟨reachable, epoch, _, market⟩ := boundary_upTo created ran member
  obtain ⟨samePool, follows⟩ := MarketReplica.restore_follows
    (by exact reachable.invariant) reachable.epoch_ne_zero restores
  rw [epoch, market] at follows
  exact ⟨samePool, follows⟩

/-- What was watched shows the first deltas of the run. -/
theorem Tracking.follows
    (tracking : client.Tracking engine turns boundary restored)
    (created : Created client.market.pool engine)
    (ran : StepSystem.run process Turn.engine engine messages = .ok turns) :
    client.market.Follows engine.epoch client.market.sequence
      (Market.upTo (feedOf turns) client.market.sequence) := by
  obtain ⟨numbered, final, feed⟩ := feed_of_created created ran
  obtain ⟨samePool, follows⟩ :=
    restored_follows created ran tracking.member tracking.restores
  obtain ⟨part, partNumbered, length⟩ :=
    feed.between numbered tracking.later tracking.within
  rw [← samePool] at part
  let start : Watcher := ⟨restored, refreshed restored boundary.snapshot⟩
  have startFollows : start.replica.Follows engine.epoch boundary.sequence
      (Market.upTo (feedOf turns) boundary.sequence) := follows
  have watched := (Watcher.observeAll_follows startFollows partNumbered part).2
  rw [length, ← tracking.watched] at watched
  exact watched

/-! ## One message and one snapshot -/

/-- Messages that a run and its network can put into the market queue. -/
abbrev Genuine (engine : MatchingEngine) (turns : List Turn) (m : Message) :
    Prop :=
  MarketReplica.Drawn engine turns (.consume m)

/-- A genuine message keeps the client on the feed. -/
theorem Tracks.observe
    (tracks : client.Tracks pool engine turns rows)
    (created : Created pool engine)
    (ran : StepSystem.run process Turn.engine engine messages = .ok turns)
    (genuine : Genuine engine turns m) :
    (client.observe m).1.Tracks pool engine turns rows := by
  have observed := client.observe_observed m
  generalize client.observe m = result at observed
  cases observed with
  | passed => exact tracks
  | lost unsynchronized samePool =>
      exact .of_unsynchronized (samePool.trans tracks.pool) unsynchronized
  | @applied market features synchronized fresh successor sameSequence samePool
      watched =>
      refine ⟨samePool.trans tracks.pool, fun _ => ?_⟩
      obtain ⟨boundary, restored, isLast, tracking⟩ :=
        tracks.tracking synchronized
      have follows := tracking.follows (tracks.pool.symm ▸ created) ran
      -- A fresh delta of the epoch is the next one of the feed.
      have member : m ∈ feedOf turns := by
        rcases genuine with member | notDelta | notEpoch
        · exact member
        · exact absurd fresh.1 notDelta
        · exact absurd (fresh.2.1.trans follows.epoch) notEpoch
      obtain ⟨_, here⟩ :=
        (feed_of_created created ran).1.getElem?_of_mem member
      have index : m.sequence - 0 - 1 = client.market.sequence := by lia
      rw [index] at here
      have within := (List.getElem?_eq_some_iff.mp here).1
      have advanced : market.sequence = client.market.sequence + 1 :=
        sameSequence.trans successor
      refine ⟨boundary, restored, isLast, tracking.member, ?_, ?_, ?_, ?_⟩
      · rw [samePool]
        exact tracking.restores
      · rw [advanced]
        exact tracking.later.trans (Nat.le_succ _)
      · rw [advanced]
        exact within
      · rw [advanced, between_succ tracking.later here,
          Watcher.observeAll_append, ← tracking.watched]
        exact watched.symm

/-- So does giving the market up. -/
theorem Tracks.invalidate
    (tracks : client.Tracks pool engine turns rows) :
    client.invalidate.Tracks pool engine turns rows :=
  .of_unsynchronized tracks.pool rfl

/-- A snapshot of a boundary starts a new watch. -/
theorem Tracks.restore
    (tracks : client.Tracks pool engine turns rows)
    (created : Created pool engine)
    (ran : StepSystem.run process Turn.engine engine messages = .ok turns)
    (member : boundary ∈ engine :: turns.map Turn.engine)
    (success : client.market.restore boundary.snapshot = (restored, .ok ())) :
    Tracks pool engine turns
      { client with
        market := restored
        features := refreshed restored boundary.snapshot }
      (some boundary.snapshot) := by
  have restores : ({ pool := pool } : MarketReplica).restore
      boundary.snapshot = (restored, .ok ()) :=
    MarketReplica.restore_of_pool tracks.pool.symm success
  obtain ⟨samePool, follows⟩ := restored_follows created ran member restores
  obtain ⟨_, _, within, _⟩ := boundary_upTo created ran member
  refine ⟨samePool, fun _ =>
    ⟨boundary, restored, rfl, member, ?_, ?_, ?_, ?_⟩⟩
  · rw [samePool]
    exact restores
  · exact follows.sequence.ge
  · exact follows.sequence.symm ▸ within
  · have nothing : between (feedOf turns) boundary.sequence
        restored.sequence = [] := by
      rw [follows.sequence]
      exact between_self _ _
    rw [nothing]
    rfl

/-! ## The loops -/

/-- The deltas that were buffered keep the client on the feed. -/
theorem Tracks.verifySuffix
    (tracks : client.Tracks pool engine turns rows)
    (created : Created pool engine)
    (ran : StepSystem.run process Turn.engine engine messages = .ok turns)
    (budget : Nat) {buffered : List (Except String Message)}
    (genuine : ∀ m, .ok m ∈ buffered → Genuine engine turns m) :
    (client.verifySuffix budget buffered).1.Tracks pool engine turns rows := by
  induction budget generalizing client buffered with
  | zero => exact tracks
  | succ budget inductionHypothesis =>
      rcases buffered with _ | ⟨text | m, rest⟩
      · exact tracks
      · exact tracks
      · have next := tracks.observe created ran (genuine m (by simp))
        rw [TradingClient.verifySuffix]
        dsimp only
        split
        · exact inductionHypothesis next
            fun other member => genuine other (List.mem_cons_of_mem _ member)
        · exact next

/-- So do those that are taken from the queue. -/
theorem Tracks.popMarket
    (tracks : client.Tracks pool engine turns rows)
    (created : Created pool engine)
    (ran : StepSystem.run process Turn.engine engine messages = .ok turns)
    {popped : List (Except String Message)}
    (genuine : ∀ m, .ok m ∈ popped → Genuine engine turns m) :
    (client.popMarket popped).1.Tracks pool engine turns rows := by
  induction popped generalizing client with
  | nil => exact tracks
  | cons result rest inductionHypothesis =>
      cases result with
      | error text => exact tracks
      | ok m =>
          have next := tracks.observe created ran (genuine m (by simp))
          rw [TradingClient.popMarket]
          dsimp only
          split
          · exact inductionHypothesis next
              fun other member => genuine other (List.mem_cons_of_mem _ member)
          · exact next

/--
What can arrive of some messages over a connection: all of them, the first
ones, or the first ones and then a failure.
-/
def Arrives (sent : List Message) (received : List (Except String Message)) :
    Prop :=
  ∃ before after, sent = before ++ after ∧
    (received = before.map .ok ∨
      ∃ text, received = before.map .ok ++ [.error text])

/-- The rows of a complete snapshot are received first. -/
inductive Completes (epoch : Nat) :
    List Message → List (Except String Message) → Prop where
  | final {m : Message} {rest : List (Except String Message)} :
      m.kind = .snapshotEnd →
      m.epoch = epoch →
      Completes epoch [m] (.ok m :: rest)
  | row {m : Message} {rows : List Message}
      {received : List (Except String Message)} :
      m.kind ≠ .snapshotEnd →
      Completes epoch rows received →
      Completes epoch (m :: rows) (.ok m :: received)

/-- A snapshot is taken when it is complete and not too long. -/
theorem receiveSnapshot_eq_some_iff
    {front snapshot : List Message} {received : List (Except String Message)} :
    receiveSnapshot epoch front received = .ok (some snapshot) ↔
      ∃ rows, Completes epoch rows received ∧ snapshot = front ++ rows ∧
        snapshot.length ≤ 1000000 := by
  induction received generalizing front with
  | nil =>
      constructor
      · intro received
        cases received
      · rintro ⟨rows, completes, _⟩
        cases completes
  | cons result others inductionHypothesis =>
      cases result with
      | error text =>
          constructor
          · intro received
            cases received
          · rintro ⟨rows, completes, _⟩
            cases completes
      | ok m =>
          constructor
          · intro received
            rw [receiveSnapshot] at received
            split at received
            · cases received
            · rename_i within
              split at received
              · rename_i notEnd
                obtain ⟨rows, completes, rfl, bound⟩ :=
                  inductionHypothesis.mp received
                exact ⟨m :: rows, .row notEnd completes, by simp, bound⟩
              · rename_i isEnd
                split at received
                · cases received
                · rename_i sameEpoch
                  cases received
                  exact ⟨[m], .final (not_not.mp isEnd) (not_not.mp sameEpoch),
                    rfl, Nat.le_of_not_lt within⟩
          · rintro ⟨rows, completes, rfl, bound⟩
            have within : ¬ 1000000 < (front ++ [m]).length := by
              cases completes <;>
                simp only [List.length_append, List.length_cons,
                  List.length_nil] at bound ⊢ <;>
                lia
            rw [receiveSnapshot, if_neg within]
            cases completes with
            | final isEnd sameEpoch => simp [isEnd, sameEpoch]
            | @row _ rows _ notEnd completes =>
                rw [if_pos notEnd]
                exact inductionHypothesis.mpr
                  ⟨rows, completes, by simp, bound⟩

/-- A snapshot that is received completely completes. -/
theorem completes_snapshot (engine : MatchingEngine)
    (rest : List (Except String Message)) :
    Completes engine.epoch engine.snapshot
      (engine.snapshot.map .ok ++ rest) := by
  have behind : ∀ rows : List Message,
      (∀ row ∈ rows, row.kind ≠ .snapshotEnd) →
      Completes engine.epoch
        (rows ++ [{ engine.envelope with kind := .snapshotEnd }])
        ((rows ++ [{ engine.envelope with kind := .snapshotEnd }]).map .ok ++
          rest) := by
    intro rows
    induction rows with
    | nil => exact fun _ => .final rfl rfl
    | cons row rows inductionHypothesis =>
        intro notEnd
        exact .row (notEnd row (by simp)) (inductionHypothesis
          fun other member => notEnd other (by simp [member]))
  rw [snapshot_eq]
  refine behind (engine.envelope :: engine.rows) ?_
  intro row member
  rcases List.mem_cons.mp member with rfl | isOrder
  · simp [envelope]
  · obtain ⟨_, _, _, _, rfl⟩ := mem_rows isOrder
    simp [orderRow]

/-- What arrives first was sent first. -/
theorem Arrives.uncons
    {sent : List Message} {received : List (Except String Message)}
    (arrives : Arrives sent (.ok m :: received)) :
    ∃ rest, sent = m :: rest ∧ Arrives rest received := by
  obtain ⟨before, after, rfl, shape⟩ := arrives
  cases before with
  | nil => simp at shape
  | cons row before =>
      simp only [List.map_cons, List.cons_append, List.cons.injEq,
        Except.ok.injEq] at shape
      rcases shape with ⟨rfl, rfl⟩ | ⟨text, rfl, rfl⟩
      · exact ⟨before ++ after, rfl, before, after, rfl, Or.inl rfl⟩
      · exact ⟨before ++ after, rfl, before, after, rfl, Or.inr ⟨text, rfl⟩⟩

/-- Complete rows of what was sent are all that was sent. -/
theorem Completes.unique
    {rows sent : List Message} {received whole : List (Except String Message)}
    {other : Nat} (completes : Completes epoch rows received)
    (sends : Completes other sent whole) (arrives : Arrives sent received) :
    rows = sent ∧ epoch = other := by
  induction completes generalizing sent whole with
  | final isEnd sameEpoch =>
      obtain ⟨rest, rfl, _⟩ := arrives.uncons
      cases sends with
      | final _ otherEpoch => exact ⟨rfl, sameEpoch.symm.trans otherEpoch⟩
      | row notEnd _ => exact absurd isEnd notEnd
  | row notEnd _ inductionHypothesis =>
      obtain ⟨rest, rfl, restArrives⟩ := arrives.uncons
      cases sends with
      | final isEnd _ => exact absurd isEnd notEnd
      | row _ restSends =>
          obtain ⟨rfl, sameEpoch⟩ := inductionHypothesis restSends restArrives
          exact ⟨rfl, sameEpoch⟩

/-! ## Whole calls -/

/-- A round whose snapshot was sent by the exchange of a run. -/
structure Round.Drawn (engine : MatchingEngine) (turns : List Turn)
    (round : Round) : Prop where
  snapshot : ∃ boundary ∈ engine :: turns.map Turn.engine,
    Arrives boundary.snapshot round.received
  buffered : ∀ m, .ok m ∈ round.buffered → Genuine engine turns m

/-- What was encoded arrives, as far as it is heard before the end. -/
theorem arrives_of_frames
    {sent : List Message} {frames heard : List Frame}
    {ending : List (Option Frame)}
    (encoded : List.Forall₂ (fun m frame => m.Fits ∧ encode m = .ok frame)
      sent frames)
    (isPrefix : heard <+: frames) (ends : ending = [] ∨ ending = [none]) :
    Arrives sent ((heard.map some ++ ending).map receiveMessage) := by
  have related := List.forall₂_take heard.length encoded
  rw [← List.prefix_iff_eq_take.mp isPrefix] at related
  have received : (heard.map some).map receiveMessage =
      (sent.take heard.length).map .ok := by
    rw [← List.forall₂_eq_eq_eq, List.forall₂_map_right_iff,
      List.forall₂_map_left_iff, List.forall₂_map_left_iff]
    exact (related.imp fun _ _ isFrame =>
      receiveMessage_iff.mpr isFrame).flip
  refine ⟨sent.take heard.length, sent.drop heard.length,
    (List.take_append_drop _ _).symm, ?_⟩
  rw [List.map_append, received]
  rcases ends with rfl | rfl
  · exact Or.inl (List.append_nil _)
  · exact Or.inr ⟨_, rfl⟩

/-- A datagram of a run: it carries a delta of the run, or none of its epoch. -/
def Packet.Drawn (engine : MatchingEngine) (turns : List Turn)
    (packet : Packet) : Prop :=
  ∀ m, decode packet.frame = some m → Genuine engine turns m

/-- A packet of the feed, read or not, brings no foreign message. -/
theorem Packet.Drawn.genuine
    {packet : Packet} (drawn : Packet.Drawn engine turns packet) :
    Genuine engine turns (subscribed packet) := by
  rcases subscribed_cases packet with isUnreadable | ⟨_, _, decoded⟩
  · rw [isUnreadable]
    exact Or.inr (Or.inl (by simp [unreadable]))
  · exact drawn _ decoded

/-- A round whose bytes come from the exchange of a run. -/
theorem Round.drawn_of_bytes
    {boundary : MatchingEngine} {frames heard : List Frame}
    {ending : List (Option Frame)} {packets : List Packet}
    (member : boundary ∈ engine :: turns.map Turn.engine)
    (encoded : List.Forall₂ (fun m frame => m.Fits ∧ encode m = .ok frame)
      boundary.snapshot frames)
    (isPrefix : heard <+: frames) (ends : ending = [] ∨ ending = [none])
    (drawn : ∀ packet ∈ packets, Packet.Drawn engine turns packet) :
    Round.Drawn engine turns
      { received := (heard.map some ++ ending).map receiveMessage
        buffered := packets.map fun packet => .ok (subscribed packet) } where
  snapshot := ⟨boundary, member, arrives_of_frames encoded isPrefix ends⟩
  buffered m isBuffered := by
    obtain ⟨packet, isPacket, same⟩ := List.mem_map.mp isBuffered
    cases same
    exact (drawn packet isPacket).genuine

/-- The only complete snapshot that can be received. -/
theorem Round.Drawn.complete
    {round : Round} (drawn : round.Drawn engine turns) {snapshot : List Message}
    (received : receiveSnapshot epoch [] round.received =
      .ok (some snapshot)) :
    ∃ boundary ∈ engine :: turns.map Turn.engine,
      snapshot = boundary.snapshot := by
  obtain ⟨boundary, member, arrives⟩ := drawn.snapshot
  obtain ⟨rows, completes, rfl, _⟩ := receiveSnapshot_eq_some_iff.mp received
  obtain ⟨rfl, _⟩ :=
    completes.unique (completes_snapshot boundary []) arrives
  exact ⟨boundary, member, rfl⟩

/-- A snapshot that is restored is that of its command boundary. -/
theorem Tracks.reload
    (tracks : client.Tracks pool engine turns rows)
    (created : Created pool engine)
    (ran : StepSystem.run process Turn.engine engine messages = .ok turns)
    (member : boundary ∈ engine :: turns.map Turn.engine)
    {buffered : List (Except String Message)}
    (genuine : ∀ m, .ok m ∈ buffered → Genuine engine turns m) :
    (client.reload boundary.snapshot buffered).1.Tracks pool engine turns
      (some boundary.snapshot) := by
  unfold TradingClient.reload
  cases restored : client.market.restore boundary.snapshot with
  | mk market result =>
      cases result with
      | error text =>
          rw [MarketReplica.restore_error restored]
          exact .of_unsynchronized tracks.pool rfl
      | ok _ =>
          have next := tracks.restore created ran member restored
          dsimp only
          split
          · exact next
          · exact next.verifySuffix created ran suffixBudget genuine

/-- The rows that some rounds of a recovery restore last, or `rows`. -/
def restoredIn (client : TradingClient) (rows : Option (List Message)) :
    List Round → Option (List Message)
  | [] => rows
  | round :: rest =>
      match receiveSnapshot client.epoch [] round.received with
      | .error _ => rows
      | .ok none => rows
      | .ok (some snapshot) =>
          match client.reload snapshot round.buffered with
          | (_, .error _) => some snapshot
          | (_, .ok true) => some snapshot
          | (next, .ok false) => next.invalidate.restoredIn (some snapshot) rest

/-- The rounds of a recovery keep the client on the feed. -/
theorem Tracks.recoverLoop
    (tracks : client.Tracks pool engine turns rows)
    (created : Created pool engine)
    (ran : StepSystem.run process Turn.engine engine messages = .ok turns)
    {rounds : List Round}
    (drawn : ∀ round ∈ rounds, round.Drawn engine turns) :
    (client.recoverLoop rounds).1.Tracks pool engine turns
      (client.restoredIn rows rounds) := by
  induction rounds generalizing client rows with
  | nil => exact tracks
  | cons round rest inductionHypothesis =>
      have roundDrawn := drawn round List.mem_cons_self
      rw [TradingClient.recoverLoop, restoredIn]
      rcases received : receiveSnapshot client.epoch [] round.received with
        text | _ | snapshot
      · exact tracks
      · exact tracks
      · obtain ⟨boundary, member, rfl⟩ := roundDrawn.complete received
        have next := tracks.reload created ran member roundDrawn.buffered
        dsimp only
        generalize client.reload boundary.snapshot round.buffered = result
          at next ⊢
        rcases result with ⟨after, text | _ | _⟩
        · exact next
        · exact inductionHypothesis next.invalidate
            fun other later => drawn other (List.mem_cons_of_mem _ later)
        · exact next.congr rfl rfl

/-- The calls of the strategy thread. -/
inductive Call where
  | recover (rounds : List Round)
  | drainMarket (popped : List (Except String Message)) (silence : Bool)
      (rounds : List Round)
  | receiveReport (m : Message)
  | request (command : Message)
  | close

/-- The client after a call, whether it throws or not. -/
def call (client : TradingClient) : Call → TradingClient
  | .recover rounds => (client.recover rounds).1
  | .drainMarket popped silence rounds =>
      (client.drainMarket popped silence rounds).1
  | .receiveReport m => (client.receiveReport m).1
  | .request command => (client.request command).1
  | .close => { client with closed := true }

/-- The rows that a client has restored last after a call, if any. -/
def restoredBy (client : TradingClient) (rows : Option (List Message)) :
    Call → Option (List Message)
  | .recover rounds => client.invalidate.restoredIn rows rounds
  | .drainMarket popped silence rounds =>
      match client.popMarket popped with
      | (_, .error _) => rows
      | (next, .ok needsRecovery) =>
          if needsRecovery = true ∨ silence = true then
            next.invalidate.restoredIn rows rounds
          else
            rows
  | .receiveReport _ | .request _ | .close => rows

/-- The rows that a client has restored last after some calls, if any. -/
def lastRestored (client : TradingClient) (rows : Option (List Message)) :
    List Call → Option (List Message)
  | [] => rows
  | call :: rest =>
      (client.call call).lastRestored (client.restoredBy rows call) rest

/-- Calls whose market data and snapshots come from a run. -/
def Call.Drawn (engine : MatchingEngine) (turns : List Turn) : Call → Prop
  | .recover rounds => ∀ round ∈ rounds, round.Drawn engine turns
  | .drainMarket popped _ rounds =>
      (∀ m, .ok m ∈ popped → Genuine engine turns m) ∧
        ∀ round ∈ rounds, round.Drawn engine turns
  | .receiveReport _ | .request _ | .close => True

/-- Reports leave the market alone. -/
theorem receiveReport_market (client : TradingClient) (m : Message) :
    (client.receiveReport m).1.market = client.market ∧
      (client.receiveReport m).1.features = client.features := by
  unfold receiveReport
  split <;> exact ⟨rfl, rfl⟩

/-- So do requests. -/
theorem request_market (client : TradingClient) (command : Message) :
    (client.request command).1.market = client.market ∧
      (client.request command).1.features = client.features := by
  unfold request
  dsimp only
  split
  · exact ⟨rfl, rfl⟩
  · split <;> exact ⟨rfl, rfl⟩

/-- Each call keeps the client on the feed. -/
theorem Tracks.call
    (tracks : client.Tracks pool engine turns rows)
    (created : Created pool engine)
    (ran : StepSystem.run process Turn.engine engine messages = .ok turns)
    {call : Call} (drawn : call.Drawn engine turns) :
    (client.call call).Tracks pool engine turns
      (client.restoredBy rows call) := by
  cases call with
  | recover rounds => exact tracks.invalidate.recoverLoop created ran drawn
  | drainMarket popped silence rounds =>
      obtain ⟨genuine, roundsDrawn⟩ := drawn
      have next := tracks.popMarket created ran genuine
      simp only [TradingClient.call, TradingClient.drainMarket, restoredBy]
      generalize client.popMarket popped = result at next ⊢
      rcases result with ⟨after, text | needsRecovery⟩
      · exact next
      · dsimp only
        split
        · exact next.invalidate.recoverLoop created ran roundsDrawn
        · exact next
  | receiveReport m =>
      obtain ⟨sameMarket, sameFeatures⟩ := client.receiveReport_market m
      exact tracks.congr sameMarket sameFeatures
  | request command =>
      obtain ⟨sameMarket, sameFeatures⟩ := client.request_market command
      exact tracks.congr sameMarket sameFeatures
  | close => exact tracks.congr rfl rfl

/-- Calls in any order keep the client on the feed. -/
theorem Tracks.calls
    (tracks : client.Tracks pool engine turns rows)
    (created : Created pool engine)
    (ran : StepSystem.run process Turn.engine engine messages = .ok turns)
    {calls : List Call} (drawn : ∀ call ∈ calls, call.Drawn engine turns) :
    (calls.foldl TradingClient.call client).Tracks pool engine turns
      (client.lastRestored rows calls) := by
  induction calls generalizing client rows with
  | nil => exact tracks
  | cons call rest inductionHypothesis =>
      exact inductionHypothesis
        (tracks.call created ran (drawn call List.mem_cons_self))
        fun other member => drawn other (List.mem_cons_of_mem _ member)

/-- A new client has seen nothing. -/
theorem connect_tracks
    {config : ClientConfig} {status : Message}
    (connected : connect pool config status = .ok client) :
    client.Tracks pool engine turns none := by
  unfold connect at connected
  split at connected
  · cases connected
  · split at connected
    · cases connected
    · split at connected
      · cases connected
      · cases connected
        exact .of_unsynchronized rfl rfl

/-! ## Prices -/

/-- Only order rows are refreshed. -/
theorem get_foldl_refresh
    (market : MarketReplica) (rows : List Message) (features : FeatureEngine)
    (instrument : InstrumentId) :
    ((rows.foldl (fun features row =>
        if row.kind = .snapshotOrder then
          features.refresh row.instrumentId (market.book row.instrumentId)
        else features) features).get instrument).microprice =
      if ∃ row ∈ rows, row.kind = .snapshotOrder ∧
          row.instrumentId = instrument then
        (market.book instrument).bind FeatureEngine.micropriceOf
      else
        (features.get instrument).microprice := by
  induction rows generalizing features with
  | nil => simp
  | cons row rest inductionHypothesis =>
      rw [List.foldl_cons, inductionHypothesis]
      by_cases isOrder : row.kind = .snapshotOrder
      · by_cases here : row.instrumentId = instrument
        · subst here
          simp [isOrder, FeatureEngine.get_refresh_self]
        · simp [isOrder, here,
            FeatureEngine.get_refresh_of_ne (Ne.symm here)]
      · simp [isOrder]

/-- A snapshot prices every book that it fills. -/
theorem priced_refreshed
    (created : Created pool engine)
    (ran : StepSystem.run process Turn.engine engine messages = .ok turns)
    (member : boundary ∈ engine :: turns.map Turn.engine)
    (restores : ({ pool := pool } : MarketReplica).restore
      boundary.snapshot = (restored, .ok ())) :
    (Watcher.mk restored (refreshed restored boundary.snapshot)).Priced := by
  intro instrument
  obtain ⟨reachable, _, _, market⟩ := boundary_upTo created ran member
  obtain ⟨_, follows⟩ := restored_follows created ran member restores
  change ((refreshed restored boundary.snapshot).get instrument).microprice =
    (restored.book instrument).bind FeatureEngine.micropriceOf
  rw [refreshed, get_foldl_refresh]
  split
  · rfl
  · rename_i noRow
    cases found : restored.book instrument with
    | none => rfl
    | some book =>
        have noBids : book.sideOrders .bid = [] := by
          rw [← marketOf_of_find? found, follows.books.shows, ← market]
          by_contra nonempty
          obtain ⟨order, live⟩ := List.exists_mem_of_ne_nil _ nonempty
          rw [← reachable.invariant.sound.rowsMarket_rows] at live
          obtain ⟨row, rowMember, _⟩ := List.mem_map.mp live
          obtain ⟨isRow, here⟩ := List.mem_filter.mp rowMember
          simp only [decide_eq_true_eq] at here
          refine noRow ⟨row, ?_, ?_, here.1⟩
          · rw [snapshot_eq]
            exact List.mem_append_left _ (List.mem_cons_of_mem _ isRow)
          · exact reachable.invariant.sound.snapshotRows.kind row isRow
        rw [Option.bind_some, (follows.books.wf _ _ found).1.micropriceOf_none
          noBids]
        rfl

/-- The watcher shows the microprice of every book it follows. -/
theorem Tracking.priced
    (tracking : client.Tracking engine turns boundary restored)
    (created : Created client.market.pool engine)
    (ran : StepSystem.run process Turn.engine engine messages = .ok turns) :
    client.watcher.Priced := by
  rw [tracking.watched]
  exact (priced_refreshed created ran tracking.member
    tracking.restores).observeAll _

/--
Whatever happens to the datagrams of a run and to the client's connections:
when its replica is synchronized, its books are the result of the first
`sequence` deltas of the run, no book is crossed, and the features have the
microprice of every book, which in exact arithmetic lies between the best
prices.
-/
theorem market_safety
    {config : ClientConfig} {status : Message} {calls : List Call}
    (created : Created pool engine)
    (ran : StepSystem.run process Turn.engine engine messages = .ok turns)
    (connected : connect pool config status = .ok client)
    (drawn : ∀ call ∈ calls, call.Drawn engine turns)
    (synchronized : (calls.foldl TradingClient.call client).market.synchronized
      = true) :
    let final := calls.foldl TradingClient.call client
    final.market.sequence ≤ (feedOf turns).length ∧
      marketOf final.market.books =
        Market.upTo (feedOf turns) final.market.sequence ∧
      (marketOf final.market.books).Uncrossed ∧
      ∀ instrument,
        (final.features.get instrument).microprice =
            (final.market.book instrument).bind FeatureEngine.micropriceOf ∧
          ∀ price,
            (final.features.get instrument).microprice = some price →
            ∃ book, final.market.book instrument = some book ∧
              Inside book price := by
  intro final
  have tracks := (connect_tracks connected).calls created ran drawn
  change final.Tracks pool engine turns _ at tracks
  obtain ⟨boundary, restored, _, tracking⟩ := tracks.tracking synchronized
  rw [← tracks.pool] at created
  have follows := tracking.follows created ran
  have regular := created.regular_upTo ran final.market.sequence
  have priced := tracking.priced created ran
  refine ⟨tracking.within, follows.books.shows, ?_, fun instrument =>
    ⟨priced instrument, fun price isPrice => ?_⟩⟩
  · rw [follows.books.shows]
    exact regular.uncrossed
  · exact priced.inside follows regular isPrice

/-- A bid and an ask that do not meet. -/
def bidAndAsk : List Message :=
  [{ clientId := 7, requestId := 1, orderId := 1
     instrumentId := 1, price := 10, quantity := 5 },
    { clientId := 8, requestId := 1, orderId := 1, side := .ask
      instrumentId := 1, price := 12, quantity := 5 }]

def bidDelta : Message :=
  { kind := .delta, epoch := 1, sequence := 1, exchangeId := 1
    instrumentId := 1, price := 10, quantity := 5, remaining := 5 }

def askDelta : Message :=
  { kind := .delta, epoch := 1, sequence := 2, exchangeId := 2, side := .ask
    instrumentId := 1, price := 12, quantity := 5, remaining := 5 }

/-- A bid and an ask that rest publish one delta each. -/
theorem feedOf_bidAndAsk :
    ∃ turns, StepSystem.run process Turn.engine single bidAndAsk = .ok turns ∧
      feedOf turns = [bidDelta, askDelta] := by
  have evaluated : ((StepSystem.run process Turn.engine single bidAndAsk).map
      feedOf).toOption = some [bidDelta, askDelta] := by decide +kernel
  obtain ⟨turns, ran, _⟩ := single_reachable.run_feeding bidAndAsk
  rw [ran] at evaluated
  exact ⟨turns, ran, Option.some.inj evaluated⟩

/--
A client hears the second of two deltas first, is restored from an old
snapshot and then finds both in its queue.
-/
theorem market_safety_after_a_gap :
    ∃ turns client price,
      StepSystem.run process Turn.engine single bidAndAsk = .ok turns ∧
        connect .capacity {} { kind := .report, report := .status, epoch := 1 } =
          .ok client ∧
        (([Call.recover [⟨single.snapshot.map .ok, []⟩],
          .drainMarket [.ok askDelta] false
            [⟨single.snapshot.map .ok, [.ok bidDelta, .ok askDelta]⟩]].foldl
          TradingClient.call client).features.get 1).microprice = some price ∧
        ∃ book, Inside book price := by
  obtain ⟨turns, ran, feed⟩ := feedOf_bidAndAsk
  have created : Created .capacity single :=
    ⟨OrderedMap.empty.insert 1 {}, 1, rfl⟩
  let client : TradingClient :=
    { config := {}, market := { pool := .capacity }, epoch := 1 }
  have connected : connect .capacity {}
      { kind := .report, report := .status, epoch := 1 } = .ok client := by
    simp [connect, client]
  have sent : Arrives single.snapshot (single.snapshot.map .ok) :=
    ⟨single.snapshot, [], (List.append_nil _).symm, Or.inl rfl⟩
  let calls : List Call :=
    [.recover [⟨single.snapshot.map .ok, []⟩],
      .drainMarket [.ok askDelta] false
        [⟨single.snapshot.map .ok, [.ok bidDelta, .ok askDelta]⟩]]
  have drawn : ∀ call ∈ calls, call.Drawn single turns := by
    simp only [calls, List.mem_cons, List.not_mem_nil, or_false,
      forall_eq_or_imp, forall_eq, Call.Drawn, Genuine, MarketReplica.Drawn,
      feed]
    exact ⟨⟨⟨single, by simp, sent⟩, by simp⟩, by simp, ⟨single, by simp, sent⟩,
      by simp [Genuine, MarketReplica.Drawn, feed]⟩
  obtain ⟨_, _, _, prices⟩ := market_safety created ran connected drawn
    (by decide +kernel)
  have price : ((calls.foldl TradingClient.call client).features.get
      1).microprice = some 11 := by decide +kernel
  obtain ⟨book, _, inside⟩ := (prices 1).2 11 price
  exact ⟨turns, client, 11, ran, connected, price, book, inside⟩

end Run

end TradingClient

end LimitOrderBook
