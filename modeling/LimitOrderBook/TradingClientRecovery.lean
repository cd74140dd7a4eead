import LimitOrderBook.TradingClientMarket

namespace LimitOrderBook

/-!
# When a recovery succeeds

A round of `recover` takes a snapshot and then verifies what was buffered while
the snapshot was on its way.  It succeeds exactly if nothing is missing in the
buffer and the buffer is not too long; a round that fails leaves nothing behind
that could make the next one fail.
-/

/--
A buffered message that reveals no loss: a delta that is known already, a
heartbeat that does not announce more, or the next delta.
-/
inductive Advances (epoch : Nat) (first : Sequence) (m : Message) :
    Sequence → Prop where
  | kept :
      m.kind = .delta ∨ m.kind = .heartbeat →
      m.epoch = epoch →
      m.sequence ≤ first →
      Advances epoch first m first
  | next :
      m.kind = .delta →
      m.epoch = epoch →
      m.sequence = first + 1 →
      Advances epoch first m (first + 1)

theorem Advances.unique
    {epoch : Nat} {first last other : Sequence} {m : Message}
    (advances : Advances epoch first m last)
    (again : Advances epoch first m other) : other = last := by
  cases advances with
  | kept _ _ old =>
      cases again with
      | kept _ _ _ => rfl
      | next _ _ successor => lia
  | next _ _ successor =>
      cases again with
      | kept _ _ old => lia
      | next _ _ _ => rfl

/-- Buffered messages in which nothing is missing. -/
inductive Gapless (epoch : Nat) : Sequence → List Message → Sequence → Prop where
  | done {first : Sequence} : Gapless epoch first [] first
  | step {first middle last : Sequence} {m : Message} {rest : List Message} :
      Advances epoch first m middle →
      Gapless epoch middle rest last →
      Gapless epoch first (m :: rest) last

theorem Gapless.unique
    {epoch : Nat} {first last other : Sequence} {buffered : List Message}
    (gapless : Gapless epoch first buffered last)
    (again : Gapless epoch first buffered other) : other = last := by
  induction gapless with
  | done =>
      cases again
      rfl
  | step advances _ inductionHypothesis =>
      cases again with
      | step againAdvances rest =>
          cases advances.unique againAdvances
          exact inductionHypothesis rest

namespace TradingClient

open MatchingEngine

variable {client : TradingClient} {engine boundary : MatchingEngine}
  {pool : PoolBytes} {turns : List Turn} {messages : List Message} {m : Message}

/-! ## One message -/

/-- A client that follows a run, at the given sequence number. -/
structure At (engine : MatchingEngine) (turns : List Turn)
    (client : TradingClient) (sequence : Sequence) : Prop where
  created : Created client.market.pool engine
  follows : client.market.Follows engine.epoch sequence
    (Market.upTo (feedOf turns) sequence)

/-- A known delta or an old heartbeat changes nothing. -/
theorem observe_kept
    (synchronized : client.market.synchronized = true)
    (sameEpoch : m.epoch = client.market.epoch)
    (old : m.sequence ≤ client.market.sequence)
    (kind : m.kind = .delta ∨ m.kind = .heartbeat) :
    client.observe m = (client, true) := by
  have notFresh : ¬ Fresh client.market m := fun fresh =>
    Nat.not_lt.mpr old fresh.2.2
  have notBeyond : ¬ client.market.sequence < m.sequence := Nat.not_lt.mpr old
  have consumed : client.market.consume m = (client.market, true) := by
    rcases kind with isDelta | isHeartbeat
    · simp [MarketReplica.consume, synchronized, sameEpoch, isDelta, old]
    · simp [MarketReplica.consume, synchronized, sameEpoch, isHeartbeat,
        notBeyond]
  simp [observe, notFresh, consumed]

/-- The next delta of a run is accepted. -/
theorem At.next
    {sequence : Sequence} (reached : client.At engine turns sequence)
    (ran : StepSystem.run process Turn.engine engine messages = .ok turns)
    (member : m ∈ feedOf turns) (isDelta : m.kind = .delta)
    (sameEpoch : m.epoch = engine.epoch) (successor : m.sequence = sequence + 1) :
    ∃ after, client.observe m = (after, true) ∧
      after.At engine turns (sequence + 1) := by
  obtain ⟨numbered, final, feed⟩ := feed_of_created reached.created ran
  obtain ⟨_, here⟩ := numbered.getElem?_of_mem member
  have index : m.sequence - 0 - 1 = sequence := by lia
  rw [index] at here
  obtain ⟨market, consumed, samePool, follows⟩ := reached.follows.consume isDelta
    sameEpoch successor (feed.admits here)
  rw [← Market.upTo_succ here] at follows
  have fresh : Fresh client.market m := by
    refine ⟨isDelta, sameEpoch.trans reached.follows.epoch.symm, ?_⟩
    rw [reached.follows.sequence]
    lia
  refine ⟨{ client with
      market := market
      features := (client.features.before m
        (client.market.book m.instrumentId)).after m
          (market.book m.instrumentId) }, ?_, ?_, follows⟩
  · simp [observe, consumed, fresh]
  · rw [samePool]
    exact reached.created

/-- What is accepted reveals no loss. -/
theorem At.advances
    {sequence : Sequence} (reached : client.At engine turns sequence)
    (accepted : (client.observe m).2 = true) :
    ∃ next, Advances engine.epoch sequence m next := by
  have consumes : (client.market.consume m).2 = true := by
    unfold observe at accepted
    dsimp only at accepted
    by_contra refused
    rw [if_pos (by simpa using refused)] at accepted
    cases accepted
  have sequences := reached.follows.sequence
  rw [← reached.follows.epoch]
  unfold MarketReplica.consume at consumes
  split at consumes
  · cases consumes
  · split at consumes
    · cases consumes
    · rename_i sameEpoch
      have sameEpoch := not_not.mp sameEpoch
      split at consumes
      · rename_i isHeartbeat
        dsimp only at consumes
        split at consumes
        · cases consumes
        · rename_i notBeyond
          exact ⟨_, .kept (Or.inr isHeartbeat) sameEpoch
            (sequences ▸ Nat.le_of_not_lt notBeyond)⟩
      · split at consumes
        · cases consumes
        · rename_i isDelta
          have isDelta := not_not.mp isDelta
          split at consumes
          · rename_i old
            exact ⟨_, .kept (Or.inl isDelta) sameEpoch (sequences ▸ old)⟩
          · split at consumes
            · cases consumes
            · rename_i later successor
              have one := not_not.mp successor
              exact ⟨_, .next isDelta sameEpoch (by lia)⟩

/-- Exactly the messages that reveal no loss are accepted. -/
theorem At.observe
    {sequence : Sequence} (reached : client.At engine turns sequence)
    (ran : StepSystem.run process Turn.engine engine messages = .ok turns)
    (genuine : Genuine engine turns m) :
    (∃ next after, Advances engine.epoch sequence m next ∧
        client.observe m = (after, true) ∧ after.At engine turns next) ∨
      (∀ next, ¬ Advances engine.epoch sequence m next) ∧
        ∃ after, client.observe m = (after, false) := by
  have sequences := reached.follows.sequence
  by_cases advances : ∃ next, Advances engine.epoch sequence m next
  · obtain ⟨next, advances⟩ := advances
    refine Or.inl ⟨next, ?_⟩
    cases advances with
    | kept kind sameEpoch old =>
        refine ⟨client, .kept kind sameEpoch old, ?_, reached⟩
        exact observe_kept reached.follows.synchronized
          (sameEpoch.trans reached.follows.epoch.symm) (sequences.symm ▸ old)
          kind
    | next isDelta sameEpoch successor =>
        have member : m ∈ feedOf turns := by
          rcases genuine with member | notDelta | notEpoch
          · exact member
          · exact absurd isDelta notDelta
          · exact absurd sameEpoch notEpoch
        obtain ⟨after, observed, afterAt⟩ :=
          reached.next ran member isDelta sameEpoch successor
        exact ⟨after, .next isDelta sameEpoch successor, observed, afterAt⟩
  · refine Or.inr ⟨fun next advance => advances ⟨next, advance⟩,
      (client.observe m).1, Prod.ext rfl ?_⟩
    by_contra accepted
    exact advances (reached.advances (by simpa using accepted))

/-! ## The suffix -/

/-- The suffix is valid if nothing is missing and it is short enough. -/
theorem At.verified
    {sequence last : Sequence} (reached : client.At engine turns sequence)
    (ran : StepSystem.run process Turn.engine engine messages = .ok turns)
    {buffered : List Message} {budget : Nat}
    (genuine : ∀ m ∈ buffered, Genuine engine turns m)
    (gapless : Gapless engine.epoch sequence buffered last)
    (short : buffered.length < budget) :
    ∃ after, client.verifySuffix budget (buffered.map .ok) = (after, .ok true) ∧
      after.At engine turns last := by
  induction budget generalizing client sequence buffered with
  | zero => exact absurd short (Nat.not_lt_zero _)
  | succ budget inductionHypothesis =>
      cases gapless with
      | done => exact ⟨client, rfl, reached⟩
      | @step _ middle _ m rest advances restGapless =>
          rcases reached.observe ran (genuine m List.mem_cons_self) with
            ⟨next, after, advance, observed, afterAt⟩ | ⟨none, _⟩
          · cases advances.unique advance
            obtain ⟨final, verified, finalAt⟩ :=
              inductionHypothesis afterAt
                (fun other member => genuine other (List.mem_cons_of_mem _ member))
                restGapless (Nat.lt_of_succ_lt_succ short)
            refine ⟨final, ?_, finalAt⟩
            simp [verifySuffix, observed, verified]
          · exact absurd advances (none middle)

/-- Otherwise the loop ends with a suffix that is not valid. -/
theorem At.refused
    {sequence : Sequence} (reached : client.At engine turns sequence)
    (ran : StepSystem.run process Turn.engine engine messages = .ok turns)
    {buffered : List Message} {budget : Nat}
    (genuine : ∀ m ∈ buffered, Genuine engine turns m)
    (invalid : ¬ ∃ last, Gapless engine.epoch sequence buffered last ∧
      buffered.length < budget) :
    ∃ after, client.verifySuffix budget (buffered.map .ok) =
      (after, .ok false) := by
  induction budget generalizing client sequence buffered with
  | zero => exact ⟨client, rfl⟩
  | succ budget inductionHypothesis =>
      cases buffered with
      | nil => exact absurd ⟨sequence, .done, Nat.succ_pos _⟩ invalid
      | cons m rest =>
          rcases reached.observe ran (genuine m List.mem_cons_self) with
            ⟨next, after, advance, observed, afterAt⟩ | ⟨_, after, observed⟩
          · obtain ⟨final, verified⟩ := inductionHypothesis afterAt
              (fun other member => genuine other (List.mem_cons_of_mem _ member))
              (by
                rintro ⟨last, gapless, short⟩
                exact invalid ⟨last, .step advance gapless,
                  Nat.succ_lt_succ short⟩)
            exact ⟨final, by simp [verifySuffix, observed, verified]⟩
          · exact ⟨after, by simp [verifySuffix, observed]⟩

/-! ## What a recovery leaves alone -/

/-- Another replica with pools of the same size, and other features. -/
def Reseen (client next : TradingClient) : Prop :=
  ∃ market features, market.pool = client.market.pool ∧
    next = { client with market := market, features := features }

theorem Reseen.refl (client : TradingClient) : client.Reseen client :=
  ⟨client.market, client.features, rfl, rfl⟩

theorem Reseen.trans
    {next last : TradingClient} (first : client.Reseen next)
    (second : next.Reseen last) : client.Reseen last := by
  obtain ⟨market, features, samePool, rfl⟩ := first
  obtain ⟨lastMarket, lastFeatures, lastPool, rfl⟩ := second
  exact ⟨lastMarket, lastFeatures, lastPool.trans samePool, rfl⟩

theorem reseen_observe (client : TradingClient) (m : Message) :
    client.Reseen (client.observe m).1 := by
  have observed := client.observe_observed m
  generalize client.observe m = result at observed
  cases observed with
  | passed => exact .refl client
  | lost _ samePool => exact ⟨_, _, samePool, rfl⟩
  | applied _ _ _ _ samePool _ => exact ⟨_, _, samePool, rfl⟩

theorem reseen_verifySuffix
    (client : TradingClient) (budget : Nat)
    (buffered : List (Except String Message)) :
    client.Reseen (client.verifySuffix budget buffered).1 := by
  induction budget generalizing client buffered with
  | zero => exact .refl client
  | succ budget inductionHypothesis =>
      rcases buffered with _ | ⟨text | m, rest⟩
      · exact .refl client
      · exact .refl client
      · have first := client.reseen_observe m
        rw [verifySuffix]
        dsimp only
        split
        · exact first.trans (inductionHypothesis _ rest)
        · exact first

theorem reseen_reload
    (client : TradingClient) (snapshot : List Message)
    (buffered : List (Except String Message)) :
    client.Reseen (client.reload snapshot buffered).1 := by
  unfold reload
  cases restored : client.market.restore snapshot with
  | mk market result =>
      cases result with
      | error text =>
          rw [MarketReplica.restore_error restored]
          exact ⟨client.market.invalidate, client.features, rfl, rfl⟩
      | ok _ =>
          have samePool : market.pool = client.market.pool :=
            MarketReplica.restore_pool restored
          dsimp only
          split
          · exact ⟨_, _, samePool, rfl⟩
          · exact Reseen.trans ⟨_, _, samePool, rfl⟩
              (reseen_verifySuffix _ _ buffered)

/-! ## Whole recoveries -/

/-- A boundary whose snapshot was sent, and what was buffered meanwhile. -/
structure Attempt where
  boundary : MatchingEngine
  buffered : List Message

/-- The round of an attempt on which no call fails. -/
def Attempt.round (attempt : Attempt) : Round where
  received := attempt.boundary.snapshot.map .ok
  buffered := attempt.buffered.map .ok

/-- An attempt of a run whose snapshot is within the bound of the client. -/
structure Attempt.Drawn (engine : MatchingEngine) (turns : List Turn)
    (attempt : Attempt) : Prop where
  member : attempt.boundary ∈ engine :: turns.map Turn.engine
  bounded : attempt.boundary.snapshot.length ≤ 1000000
  genuine : ∀ m ∈ attempt.buffered, Genuine engine turns m

/-- Nothing is missing in the buffer, and it is short enough. -/
def Attempt.CatchesUp (epoch : Nat) (attempt : Attempt) (last : Sequence) :
    Prop :=
  Gapless epoch attempt.boundary.sequence attempt.buffered last ∧
    attempt.buffered.length < suffixBudget

/-- A client between two calls of an open session with the engine. -/
structure Open (pool : PoolBytes) (engine : MatchingEngine)
    (client : TradingClient) : Prop where
  pool : client.market.pool = pool
  epoch : client.epoch = engine.epoch
  running : client.closed = false

theorem receive_round
    {attempt : Attempt} (drawn : attempt.Drawn engine turns) :
    receiveSnapshot attempt.boundary.epoch [] attempt.round.received =
      .ok (some attempt.boundary.snapshot) := by
  have completes := completes_snapshot attempt.boundary []
  rw [List.append_nil] at completes
  exact receiveSnapshot_eq_some_iff.mpr
    ⟨attempt.boundary.snapshot, completes, rfl, drawn.bounded⟩

/-- A snapshot within the bound can be restored. -/
theorem Attempt.Drawn.restores
    {attempt : Attempt} (drawn : attempt.Drawn engine turns)
    (created : Created pool engine)
    (ran : StepSystem.run process Turn.engine engine messages = .ok turns)
    (opened : client.Open pool engine) :
    ∃ restored, client.market.restore attempt.boundary.snapshot =
      (restored, .ok ()) := by
  obtain ⟨reachable, _⟩ := boundary_upTo created ran drawn.member
  rw [← opened.pool] at reachable
  refine MarketReplica.restore_ok reachable.invariant reachable.epoch_ne_zero ?_
  have bounded := drawn.bounded
  rw [snapshot_eq, List.length_append, List.length_cons,
    reachable.invariant.sound.length_rows] at bounded
  lia

theorem Open.reload
    {attempt : Attempt} (opened : client.Open pool engine)
    (created : Created pool engine)
    (ran : StepSystem.run process Turn.engine engine messages = .ok turns)
    (drawn : attempt.Drawn engine turns) :
    (∀ last, attempt.CatchesUp engine.epoch last →
        ∃ after, client.reload attempt.boundary.snapshot
            attempt.round.buffered = (after, .ok true) ∧
          after.At engine turns last) ∧
      ((¬ ∃ last, attempt.CatchesUp engine.epoch last) →
        ∃ after, client.reload attempt.boundary.snapshot
          attempt.round.buffered = (after, .ok false)) := by
  obtain ⟨restored, success⟩ := drawn.restores created ran opened
  obtain ⟨samePool, follows⟩ := restored_follows created ran drawn.member
    (MarketReplica.restore_of_pool (by exact opened.pool.symm) success)
  let loaded : TradingClient :=
    { client with
      market := restored
      features := refreshed restored attempt.boundary.snapshot }
  have loadedAt : loaded.At engine turns attempt.boundary.sequence :=
    ⟨samePool.symm ▸ created, follows⟩
  have step : client.reload attempt.boundary.snapshot attempt.round.buffered =
      loaded.verifySuffix suffixBudget (attempt.buffered.map .ok) := by
    simp [TradingClient.reload, success, opened.running, Attempt.round, loaded]
  rw [step]
  exact ⟨fun last caught =>
      loadedAt.verified ran drawn.genuine caught.1 caught.2,
    loadedAt.refused ran drawn.genuine⟩

theorem Open.reseen
    {next : TradingClient} (opened : client.Open pool engine)
    (reseen : client.Reseen next) : next.Open pool engine := by
  obtain ⟨market, features, samePool, rfl⟩ := reseen
  exact ⟨samePool.trans opened.pool, opened.epoch, opened.running⟩

theorem Open.recoverLoop
    (opened : client.Open pool engine)
    (unsynchronized : client.market.synchronized = false)
    (created : Created pool engine)
    (ran : StepSystem.run process Turn.engine engine messages = .ok turns)
    {attempts : List Attempt}
    (drawn : ∀ attempt ∈ attempts, attempt.Drawn engine turns) :
    (∀ before attempt after last, attempts = before ++ attempt :: after →
        (∀ failed ∈ before, ¬ ∃ last, failed.CatchesUp engine.epoch last) →
        attempt.CatchesUp engine.epoch last →
        ∃ final, client.recoverLoop (attempts.map Attempt.round) =
            ({ final with recoveries := client.recoveries + 1 }, .ok ()) ∧
          client.Reseen final ∧ final.At engine turns last) ∧
      ((∀ attempt ∈ attempts,
          ¬ ∃ last, attempt.CatchesUp engine.epoch last) →
        ∃ final, client.recoverLoop (attempts.map Attempt.round) =
            (final, .error "Snapshot/suffix recovery deadline expired") ∧
          client.Reseen final ∧ final.market.synchronized = false) := by
  induction attempts generalizing client with
  | nil =>
      refine ⟨fun before _ _ _ shape => absurd shape (by simp), fun _ => ?_⟩
      exact ⟨client, rfl, .refl client, unsynchronized⟩
  | cons first rest inductionHypothesis =>
      have firstDrawn := drawn first List.mem_cons_self
      obtain ⟨_, sameEpoch, _⟩ := boundary_upTo created ran firstDrawn.member
      have received : receiveSnapshot client.epoch [] first.round.received =
          .ok (some first.boundary.snapshot) := by
        rw [opened.epoch, ← sameEpoch]
        exact receive_round firstDrawn
      obtain ⟨succeeds, fails⟩ := opened.reload created ran firstDrawn
      have reseen := client.reseen_reload first.boundary.snapshot
        first.round.buffered
      by_cases caught : ∃ last, first.CatchesUp engine.epoch last
      · obtain ⟨last, caught⟩ := caught
        obtain ⟨final, reloaded, finalAt⟩ := succeeds last caught
        rw [reloaded] at reseen
        refine ⟨?_, fun none => absurd ⟨last, caught⟩
          (none first List.mem_cons_self)⟩
        intro before attempt after other shape failed catches
        cases before with
        | nil =>
            obtain ⟨rfl, _⟩ := List.cons.inj shape
            cases caught.1.unique catches.1
            refine ⟨final, ?_, reseen, finalAt⟩
            have sameCount : final.recoveries = client.recoveries := by
              obtain ⟨_, _, _, rfl⟩ := reseen
              rfl
            simp [TradingClient.recoverLoop, received, reloaded, sameCount]
        | cons head before =>
            obtain ⟨rfl, _⟩ := List.cons.inj shape
            exact absurd ⟨last, caught⟩ (failed first List.mem_cons_self)
      · obtain ⟨next, reloaded⟩ := fails caught
        rw [reloaded] at reseen
        have unwatched : client.Reseen next.invalidate :=
          reseen.trans ⟨next.market.invalidate, next.features, rfl, rfl⟩
        have step : client.recoverLoop ((first :: rest).map Attempt.round) =
            next.invalidate.recoverLoop (rest.map Attempt.round) := by
          simp [TradingClient.recoverLoop, received, reloaded]
        have sameCount : next.invalidate.recoveries = client.recoveries := by
          obtain ⟨_, _, _, same⟩ := unwatched
          rw [same]
        obtain ⟨restSucceeds, restFails⟩ := inductionHypothesis
          (opened.reseen unwatched) rfl
          fun other member => drawn other (List.mem_cons_of_mem _ member)
        rw [step]
        refine ⟨?_, fun none => ?_⟩
        · intro before attempt after last shape failed catches
          cases before with
          | nil =>
              obtain ⟨rfl, _⟩ := List.cons.inj shape
              exact absurd ⟨last, catches⟩ caught
          | cons head before =>
              obtain ⟨rfl, restShape⟩ := List.cons.inj shape
              obtain ⟨final, recovered, finalReseen, finalAt⟩ := restSucceeds
                before attempt after last restShape
                (fun other member =>
                  failed other (List.mem_cons_of_mem _ member)) catches
              rw [sameCount] at recovered
              exact ⟨final, recovered, unwatched.trans finalReseen, finalAt⟩
        · obtain ⟨final, recovered, finalReseen, stopped⟩ :=
            restFails fun other member =>
              none other (List.mem_cons_of_mem _ member)
          exact ⟨final, recovered, unwatched.trans finalReseen, stopped⟩

/--
The account of a client: its session, orders, positions, requests and reports.
-/
def SameAccount (client next : TradingClient) : Prop :=
  next.config = client.config ∧ next.manager = client.manager ∧
    next.requestId = client.requestId ∧ next.epoch = client.epoch ∧
    next.handled = client.handled ∧ next.closed = client.closed

theorem Reseen.sameAccount
    {next : TradingClient} (reseen : client.Reseen next) :
    client.SameAccount next := by
  obtain ⟨_, _, _, rfl⟩ := reseen
  exact ⟨rfl, rfl, rfl, rfl, rfl, rfl⟩

/--
A recovery succeeds with the first attempt in which nothing is missing behind
the snapshot and fewer than 4096 messages are buffered.  It then shows the
market up to the last delta of that buffer.  If there is no such attempt, it
ends with an error and without a market.  Either way the account is untouched.
-/
theorem recover_exact
    {attempts : List Attempt}
    (opened : client.Open pool engine) (created : Created pool engine)
    (ran : StepSystem.run process Turn.engine engine messages = .ok turns)
    (drawn : ∀ attempt ∈ attempts, attempt.Drawn engine turns) :
    (∀ before attempt after last, attempts = before ++ attempt :: after →
        (∀ failed ∈ before, ¬ ∃ last, failed.CatchesUp engine.epoch last) →
        attempt.CatchesUp engine.epoch last →
        ∃ final, client.recover (attempts.map Attempt.round) = (final, .ok ()) ∧
          final.market.synchronized = true ∧ final.market.sequence = last ∧
          marketOf final.market.books = Market.upTo (feedOf turns) last ∧
          final.recoveries = client.recoveries + 1 ∧
          client.SameAccount final) ∧
      ((∀ attempt ∈ attempts,
          ¬ ∃ last, attempt.CatchesUp engine.epoch last) →
        ∃ final, client.recover (attempts.map Attempt.round) =
            (final, .error "Snapshot/suffix recovery deadline expired") ∧
          final.market.synchronized = false ∧ client.SameAccount final) := by
  have unwatched : client.Reseen client.invalidate :=
    ⟨client.market.invalidate, client.features, rfl, rfl⟩
  obtain ⟨succeeds, fails⟩ :=
    (opened.reseen unwatched).recoverLoop rfl created ran drawn
  constructor
  · intro before attempt after last shape failed catches
    obtain ⟨final, recovered, reseen, finalAt⟩ :=
      succeeds before attempt after last shape failed catches
    exact ⟨_, recovered, finalAt.follows.synchronized,
      finalAt.follows.sequence, finalAt.follows.books.shows, rfl,
      (unwatched.trans reseen).sameAccount⟩
  · intro none
    obtain ⟨final, recovered, reseen, stopped⟩ := fails none
    exact ⟨final, recovered, stopped, (unwatched.trans reseen).sameAccount⟩

/-- A round that misses a delta, and then one that misses nothing. -/
theorem recover_exact_second_round :
    ∃ turns, ∃ client final : TradingClient,
      StepSystem.run process Turn.engine single bidAndAsk = .ok turns ∧
        client.Open .capacity single ∧
        client.recover ([⟨single, [askDelta]⟩,
          ⟨single, [bidDelta, bidDelta, askDelta]⟩].map Attempt.round) =
            (final, .ok ()) ∧
        final.market.sequence = 2 := by
  obtain ⟨turns, ran, feed⟩ := feedOf_bidAndAsk
  have created : Created .capacity single :=
    ⟨OrderedMap.empty.insert 1 {}, 1, rfl⟩
  have opened : Open .capacity single
      { config := {}, market := { pool := .capacity }, epoch := 1 } :=
    ⟨rfl, rfl, rfl⟩
  let attempts : List Attempt :=
    [⟨single, [askDelta]⟩, ⟨single, [bidDelta, bidDelta, askDelta]⟩]
  have drawn : ∀ attempt ∈ attempts, attempt.Drawn single turns := by
    intro attempt member
    have genuine : ∀ m ∈ attempt.buffered, m ∈ feedOf turns := by
      simp only [attempts, List.mem_cons, List.not_mem_nil, or_false] at member
      rcases member with rfl | rfl
      · simp [feed]
      · simp [feed]
    simp only [attempts, List.mem_cons, List.not_mem_nil, or_false] at member
    rcases member with rfl | rfl
    · exact ⟨by simp, by decide +kernel, fun m inBuffer =>
        Or.inl (genuine m inBuffer)⟩
    · exact ⟨by simp, by decide +kernel, fun m inBuffer =>
        Or.inl (genuine m inBuffer)⟩
  have missing : ∀ failed ∈ [(⟨single, [askDelta]⟩ : Attempt)],
      ¬ ∃ last, failed.CatchesUp single.epoch last := by
    intro failed member
    rw [List.mem_singleton.mp member]
    rintro ⟨last, gapless, _⟩
    cases gapless with
    | step advances _ =>
        cases advances with
        | kept _ _ old => exact absurd old (by decide)
        | next _ _ successor => exact absurd successor (by decide)
  have catches : Attempt.CatchesUp single.epoch
      ⟨single, [bidDelta, bidDelta, askDelta]⟩ 2 :=
    ⟨.step (.next rfl rfl rfl) (.step (.kept (Or.inl rfl) rfl (by decide))
      (.step (.next rfl rfl rfl) .done)), by decide⟩
  obtain ⟨succeeds, _⟩ := recover_exact opened created ran drawn
  obtain ⟨final, recovered, _, sequence, _⟩ :=
    succeeds [⟨single, [askDelta]⟩] _ [] 2 rfl missing catches
  exact ⟨turns, _, final, ran, opened, recovered, sequence⟩

end TradingClient

end LimitOrderBook
