import LimitOrderBook.EngineGuarantees

namespace LimitOrderBook

/-!
# The terminal report

`process` copies the command into its `Complete` and corrects the copy only
when an order is live under the key of the command.  Otherwise the report says
what the command itself said.  Whether an order will be live can be told before
the call: from the command, the live orders and the room in the book.
-/

namespace MatchingEngine

/-- A new order that leaves something to rest. -/
structure Opens (engine : MatchingEngine) (slots : Nat) (c : Message) :
    Prop where
  action : c.action = .new
  carriesOut : engine.CarriesOut slots c none
  rests : Turn.rests c (c.quantity - offered (engine.facing c)) = true

/-- A command that takes away the live order it names. -/
inductive Removes (engine : MatchingEngine) (slots : Nat) (c m : Message) :
    Prop where
  | cancelled :
      c.action = .cancel →
      m.instrumentId = c.instrumentId →
      Removes engine slots c m
  | swept :
      c.action = .cancelAll →
      c.instrumentId = 0 ∨ m.instrumentId = c.instrumentId →
      Removes engine slots c m
  | filled :
      c.action = .replace →
      m.instrumentId = c.instrumentId →
      engine.CarriesOut slots c (some m) →
      ¬ c.Shrinks m →
      c.quantity ≤ offered (engine.facing c) →
      Removes engine slots c m

/-- After the command an order will be live under its key. -/
def EndsLive (engine : MatchingEngine) (slots : Nat) (c : Message) : Prop :=
  match engine.liveOrder c.clientId c.orderId with
  | none => engine.Opens slots c
  | some m => ¬ engine.Removes slots c m

theorem Removes.action
    {engine : MatchingEngine} {slots : Nat} {c m : Message}
    (removes : engine.Removes slots c m) :
    c.action = .cancel ∨ c.action = .cancelAll ∨ c.action = .replace := by
  cases removes with
  | cancelled action _ => exact Or.inl action
  | swept action _ => exact Or.inr (Or.inl action)
  | filled action _ _ _ _ => exact Or.inr (Or.inr action)

/-- A live order is stored under its own id and names its owner. -/
theorem Sound.liveOrder_eq_some
    {slots : Nat} {engine : MatchingEngine} (sound : engine.Sound slots)
    {client : ClientId} {orderId : OrderId} {m : Message} :
    engine.liveOrder client orderId = some m ↔
      engine.resting.find? m.exchangeId = some m ∧ m.clientId = client ∧
        m.orderId = orderId := by
  constructor
  · intro live
    obtain ⟨id, indexed, found⟩ := Option.bind_eq_some_iff.mp live
    obtain ⟨other, otherFound, client, order⟩ :=
      (sound.linked.keyed _ _ _).mp indexed
    have same := found.symm.trans otherFound
    cases same
    rw [sound.exchangeId_eq found]
    exact ⟨found, client, order⟩
  · rintro ⟨found, rfl, rfl⟩
    have indexed := sound.linked.find?_key found
    exact Option.bind_eq_some_iff.mpr ⟨_, indexed, found⟩

end MatchingEngine

/-- The terminal report says what is live under the key of its command. -/
def Turn.TellsRemaining (turn : Turn) (c : Message) : Prop :=
  ∃ complete,
    turn.batch.reports.getLast? = some complete ∧
      complete.report = .complete ∧
      (∀ m, turn.engine.liveOrder c.clientId c.orderId = some m →
        complete.remaining = m.quantity ∧
          complete.exchangeId = m.exchangeId) ∧
      (turn.engine.liveOrder c.clientId c.orderId = none →
        complete.remaining = 0)

namespace Turn

variable {slots : Nat} {turn final swept : Turn} {c m : Message}
  {old : Option Message} {r : InstrumentRules} {fills : List Fill}
  {leaves : Quantity} {books : Books}

/-- The report is a copy of the command when nothing is live. -/
theorem finish_tellsRemaining
    (sound : final.engine.Sound slots) (c : Message) :
    (final.finish c).TellsRemaining c ↔
      c.remaining = 0 ∨
        (final.engine.liveOrder c.clientId c.orderId).isSome := by
  have last : (final.finish c).batch.reports.getLast? =
      some ((final.completion c).asReport .complete .none final.engine.epoch
        (final.engine.responseSequence + 1)) :=
    List.getLast?_concat
  have same : (final.finish c).engine.liveOrder c.clientId c.orderId =
      final.engine.liveOrder c.clientId c.orderId :=
    rfl
  unfold TellsRemaining
  rw [last, same]
  cases live : final.engine.liveOrder c.clientId c.orderId with
  | none =>
      have unindexed :
          final.engine.byClient.find? (c.clientId, c.orderId) = none := by
        cases indexed : final.engine.byClient.find? (c.clientId, c.orderId) with
        | none => rfl
        | some id =>
            obtain ⟨m, found, _⟩ := (sound.linked.keyed _ _ _).mp indexed
            have stored : final.engine.resting.find? id = some m := found
            simp [MatchingEngine.liveOrder, indexed, stored] at live
      simp [completion, unindexed, Message.asReport]
  | some m =>
      obtain ⟨found, client, order⟩ := sound.liveOrder_eq_some.mp live
      have indexed := sound.linked.find?_key found
      rw [client, order] at indexed
      have stored :
          final.engine.byClient.find? (c.clientId, c.orderId) =
            some m.exchangeId := indexed
      simp [completion, stored, found, Message.asReport]

/-! ## What is live after a command -/

theorem TurnedDown.liveOrder
    (turnedDown : TurnedDown turn c final) (client : ClientId)
    (orderId : OrderId) :
    final.engine.liveOrder client orderId =
      turn.engine.liveOrder client orderId := by
  obtain ⟨positions, stats, changed, _⟩ := turnedDown.engine_eq
  rw [changed]
  rfl

/-- What is live after a placement is what rests of it. -/
theorem Placement.live_iff
    (placement : Placement slots turn c old r fills leaves books swept)
    (sound : turn.engine.Sound slots) :
    ((swept.publishResidual (turn.engine.incoming c) leaves
        (rests c leaves)).engine.liveOrder c.clientId c.orderId).isSome ↔
      rests c leaves = true := by
  have own := placement.residualOrder sound
  rw [MatchingEngine.blotter_eq_liveOrder] at own
  rw [← Option.isSome_map, own]
  unfold restOf
  split
  · simp [*]
  · simp [*]

/-- A new order is live when it was carried out and something of it rests. -/
theorem Submits.live_of_new
    (submits : Submits slots turn c none final)
    (sound : turn.engine.Sound slots)
    (fresh : turn.engine.liveOrder c.clientId c.orderId = none) :
    (final.engine.liveOrder c.clientId c.orderId).isSome ↔
      turn.engine.CarriesOut slots c none ∧
        rests c (c.quantity - offered (turn.engine.facing c)) = true := by
  cases submits with
  | turnedDown refused turnedDown =>
      rw [turnedDown.liveOrder, fresh]
      simp [refused]
  | reduced isOld _ _ _ _ _ => cases isOld
  | placed carries left placement =>
      rw [placement.live_iff sound, left]
      simp [carries]

/-- A new order under the key of a live one changes nothing. -/
theorem Submits.live_of_used
    (submits : Submits slots turn c none final)
    (live : turn.engine.liveOrder c.clientId c.orderId = some m) :
    final.engine.liveOrder c.clientId c.orderId = some m := by
  cases submits with
  | turnedDown _ turnedDown =>
      rw [turnedDown.liveOrder]
      exact live
  | reduced isOld _ _ _ _ _ => cases isOld
  | placed _ _ placement =>
      have unused : turn.engine.byClient.find? (c.clientId, c.orderId) = none :=
        placement.enters
      simp [MatchingEngine.liveOrder, unused] at live

/-- Only a replacement that is filled completely leaves no order behind. -/
theorem Submits.live_of_replace
    (submits : Submits slots turn c (some m) final)
    (sound : turn.engine.Sound slots)
    (live : turn.engine.liveOrder c.clientId c.orderId = some m) :
    (final.engine.liveOrder c.clientId c.orderId).isSome ↔
      ¬ (turn.engine.CarriesOut slots c (some m) ∧ ¬ c.Shrinks m ∧
        c.quantity ≤ offered (turn.engine.facing c)) := by
  cases submits with
  | turnedDown refused turnedDown =>
      rw [turnedDown.liveOrder, live]
      simp [refused]
  | reduced isOld _ _ replaces shrinks reshelved =>
      cases isOld
      have held := sound.linked.blotter_resize replaces.found c.quantity
      rw [← afterReduce_ledger reshelved, replaces.client, replaces.order]
        at held
      have own := congrFun (congrFun held c.clientId) c.orderId
      rw [Blotter.put_self, MatchingEngine.blotter_eq_liveOrder] at own
      rw [← Option.isSome_map, own]
      simp [shrinks]
  | placed carries left placement =>
      have moves := placement.moves m rfl
      rw [placement.live_iff sound, placement.rests_of_replace sound, left]
      simp [carries, Message.Shrinks, moves, Nat.sub_ne_zero_iff_lt]

/-- A cancellation leaves the orders live that it does not take. -/
theorem Cancels.live_iff
    {request : Nat} {ms : List Message}
    (cancels : Cancels slots request turn ms final)
    (sound : turn.engine.Sound slots) :
    (final.engine.liveOrder c.clientId c.orderId).isSome ↔
      ∃ m, turn.engine.liveOrder c.clientId c.orderId = some m ∧
        m.exchangeId ∉ ms.map Message.exchangeId := by
  rw [Option.isSome_iff_exists]
  refine exists_congr fun m => ?_
  rw [(cancels.sound sound).liveOrder_eq_some, sound.liveOrder_eq_some,
    cancels.resting]
  split
  · simp [*]
  · simp [*]

/-- A cancel-all takes the orders of its client on its instrument. -/
theorem mem_cancelAllIds
    (sound : turn.engine.Sound slots)
    (live : turn.engine.liveOrder c.clientId c.orderId = some m) :
    m.exchangeId ∈ cancelAllIds turn.engine c ↔
      c.instrumentId = 0 ∨ m.instrumentId = c.instrumentId := by
  obtain ⟨found, client, _⟩ := sound.liveOrder_eq_some.mp live
  constructor
  · intro listed
    obtain ⟨entry, member, sameId⟩ := List.mem_map.mp listed
    obtain ⟨stored, targeted⟩ := List.mem_filter.mp member
    have entryFound := OrderedMap.mem_entries.mp stored
    rw [sameId, found] at entryFound
    cases entryFound
    exact (of_decide_eq_true targeted).2
  · intro targeted
    refine List.mem_map.mpr ⟨(m.exchangeId, m), List.mem_filter.mpr
      ⟨OrderedMap.mem_entries.mpr found, ?_⟩, rfl⟩
    exact decide_eq_true ⟨client, targeted⟩

/-- The result has an order live under the command's key as foretold. -/
def Foretold (slots : Nat) (turn : Turn) (c : Message)
    (result : Except Fault Turn) : Prop :=
  ∃ final,
    result = .ok final ∧ final.engine.Sound slots ∧
      ((final.engine.liveOrder c.clientId c.orderId).isSome ↔
        turn.engine.EndsLive slots c)

/-- A rejection leaves live what was live. -/
theorem reject_foretold
    (sound : turn.engine.Sound slots) {reason : Reject}
    (nonzero : reason ≠ .none) (notNew : c.action ≠ .new)
    (keeps : ∀ m, turn.engine.liveOrder c.clientId c.orderId = some m →
      ¬ turn.engine.Removes slots c m) :
    Foretold slots turn c (.ok (turn.reject c reason)) := by
  refine ⟨_, rfl, reject_sound sound c reason, ?_⟩
  rw [(TurnedDown.rejected nonzero).liveOrder]
  unfold MatchingEngine.EndsLive
  cases live : turn.engine.liveOrder c.clientId c.orderId with
  | none =>
      simpa using fun opens : turn.engine.Opens slots c => notNew opens.action
  | some m => simpa using keeps m live

theorem new_foretold
    (sound : turn.engine.Sound slots) (named : c.clientId ≠ 0)
    (known : (turn.engine.clients.find? c.clientId).isSome)
    (action : c.action = .new) :
    Foretold slots turn c (turn.submit c 0) := by
  obtain ⟨final, submitted, submits⟩ :=
    submit_decided none sound named known (by simp)
  refine ⟨final, submitted, (submits.handled action).sound sound, ?_⟩
  unfold MatchingEngine.EndsLive
  cases live : turn.engine.liveOrder c.clientId c.orderId with
  | none =>
      rw [submits.live_of_new sound live]
      constructor
      · rintro ⟨carries, restsHere⟩
        exact ⟨action, carries, restsHere⟩
      · intro opens
        exact ⟨opens.carriesOut, opens.rests⟩
  | some m =>
      rw [submits.live_of_used live]
      refine ⟨fun _ removes => ?_, fun _ => rfl⟩
      simpa [action] using removes.action

theorem cancel_foretold
    (sound : turn.engine.Sound slots) (action : c.action = .cancel)
    (live : turn.engine.liveOrder c.clientId c.orderId = some m)
    (instrument : m.instrumentId = c.instrumentId) :
    Foretold slots turn c (turn.cancel m.exchangeId c.requestId) := by
  have found := (sound.liveOrder_eq_some.mp live).1
  obtain ⟨books, cancelled, reshelved⟩ := cancel_ok sound found c.requestId
  have cancels : Cancels slots c.requestId turn [m]
      (turn.afterCancel m c.requestId books) :=
    .next found reshelved .done
  refine ⟨_, cancelled, cancels.sound sound, ?_⟩
  rw [cancels.live_iff sound, MatchingEngine.EndsLive, live]
  constructor
  · rintro ⟨other, isLive, kept⟩
    cases isLive
    exact absurd List.mem_cons_self kept
  · intro keeps
    exact absurd (.cancelled action instrument) keeps

theorem replace_foretold
    (sound : turn.engine.Sound slots) (named : c.clientId ≠ 0)
    (known : (turn.engine.clients.find? c.clientId).isSome)
    (action : c.action = .replace)
    (live : turn.engine.liveOrder c.clientId c.orderId = some m)
    (instrument : m.instrumentId = c.instrumentId) :
    Foretold slots turn c (turn.submit c m.exchangeId) := by
  obtain ⟨found, client, order⟩ := sound.liveOrder_eq_some.mp live
  obtain ⟨final, submitted, submits⟩ :=
    submit_decided (some m) sound named known (by
      intro other isOld
      cases isOld
      exact ⟨found, client, order, instrument⟩)
  refine ⟨final, submitted, (submits.handled action).sound sound, ?_⟩
  rw [submits.live_of_replace sound live, MatchingEngine.EndsLive, live]
  refine not_congr ⟨?_, fun removes => ?_⟩
  · rintro ⟨carries, moves, all⟩
    exact .filled action instrument carries moves all
  · cases removes with
    | cancelled isCancel _ => simp [isCancel] at action
    | swept isCancelAll _ => simp [isCancelAll] at action
    | filled _ _ carries moves all => exact ⟨carries, moves, all⟩

/-- Cancel and Replace both need a live order on their instrument. -/
theorem indexed_foretold
    (sound : turn.engine.Sound slots) (named : c.clientId ≠ 0)
    (known : (turn.engine.clients.find? c.clientId).isSome)
    (action : c.action = .cancel ∨ c.action = .replace) :
    Foretold slots turn c (turn.dispatch c) := by
  have notNew : c.action ≠ .new := by
    rcases action with isCancel | isReplace
    · simp [isCancel]
    · simp [isReplace]
  have notAll : c.action ≠ .cancelAll := by
    rcases action with isCancel | isReplace
    · simp [isCancel]
    · simp [isReplace]
  cases indexed : turn.engine.byClient.find? (c.clientId, c.orderId) with
  | none =>
      have unknown : turn.dispatch c = .ok (turn.reject c .unknownOrder) := by
        rcases action with isCancel | isReplace
        · simp [dispatch, isCancel, indexed]
        · simp [dispatch, isReplace, indexed]
      rw [unknown]
      refine reject_foretold sound (by decide) notNew fun m live => ?_
      simp [MatchingEngine.liveOrder, indexed] at live
  | some id =>
      obtain ⟨m, found, client, order⟩ := (sound.linked.keyed _ _ _).mp indexed
      obtain rfl : m.exchangeId = id := sound.exchangeId_eq found
      have live := sound.liveOrder_eq_some.mpr ⟨found, client, order⟩
      rw [dispatch_indexed action indexed found]
      by_cases instrument : m.instrumentId = c.instrumentId
      · rw [if_neg (not_not.mpr instrument)]
        rcases action with isCancel | isReplace
        · rw [if_pos isCancel]
          exact cancel_foretold sound isCancel live instrument
        · rw [if_neg (by simp [isReplace])]
          exact replace_foretold sound named known isReplace live instrument
      · rw [if_pos instrument]
        refine reject_foretold sound (by decide) notNew
          fun other isLive removes => ?_
        rw [live] at isLive
        cases isLive
        cases removes with
        | cancelled _ here => exact instrument here
        | swept isCancelAll _ => exact notAll isCancelAll
        | filled _ here _ _ _ => exact instrument here

theorem cancelAll_foretold
    (sound : turn.engine.Sound slots) (action : c.action = .cancelAll) :
    Foretold slots turn c (turn.dispatch c) := by
  obtain ⟨final, ms, dispatched, _, ids, cancels, finalSound⟩ :=
    dispatch_cancelAll sound action
  refine ⟨final, dispatched, finalSound, ?_⟩
  rw [cancels.live_iff sound, ids, MatchingEngine.EndsLive]
  cases live : turn.engine.liveOrder c.clientId c.orderId with
  | none =>
      refine ⟨?_, fun opens => ?_⟩
      · rintro ⟨_, isLive, _⟩
        cases isLive
      · have isNew := opens.action
        simp [action] at isNew
  | some m =>
      constructor
      · rintro ⟨other, isLive, kept⟩ removes
        cases isLive
        rw [mem_cancelAllIds sound live] at kept
        cases removes with
        | cancelled isCancel _ => simp [isCancel] at action
        | swept _ targeted => exact kept targeted
        | filled isReplace _ _ _ _ => simp [isReplace] at action
      · intro keeps
        refine ⟨m, rfl, fun listed => keeps (.swept action ?_)⟩
        exact (mem_cancelAllIds sound live).mp listed

/-- Whether an order is live after a command can be told before it. -/
theorem dispatch_foretold
    (sound : turn.engine.Sound slots) (named : c.clientId ≠ 0)
    (known : (turn.engine.clients.find? c.clientId).isSome) :
    Foretold slots turn c (turn.dispatch c) := by
  have unlisted : c.action ≠ .new → c.action ≠ .cancel →
      c.action ≠ .cancelAll → c.action ≠ .replace →
      turn.dispatch c = .ok (turn.reject c .invalidCommand) →
      Foretold slots turn c (turn.dispatch c) := by
    intro notNew notCancel notAll notReplace dispatched
    rw [dispatched]
    refine reject_foretold sound (by decide) notNew fun m _ removes => ?_
    rcases removes.action with isCancel | isCancelAll | isReplace
    · exact notCancel isCancel
    · exact notAll isCancelAll
    · exact notReplace isReplace
  cases action : c.action with
  | new =>
      have submits : turn.dispatch c = turn.submit c 0 := by
        simp [dispatch, action]
      rw [submits]
      exact new_foretold sound named known action
  | cancel => exact indexed_foretold sound named known (Or.inl action)
  | replace => exact indexed_foretold sound named known (Or.inr action)
  | cancelAll => exact cancelAll_foretold sound action
  | snapshot =>
      refine unlisted ?_ ?_ ?_ ?_ ?_ <;> simp [dispatch, action]
  | status =>
      refine unlisted ?_ ?_ ?_ ?_ ?_ <;> simp [dispatch, action]
  | unlisted raw outside =>
      refine unlisted ?_ ?_ ?_ ?_ ?_ <;> simp [dispatch, action]

end Turn

namespace MatchingEngine

variable {engine : MatchingEngine} {c : Message} {turn : Turn}
  {pool : PoolBytes} {slots : Nat}

/-- What is foretold rests on the live orders, the book and the checks. -/
theorem EndsLive.transfer
    {next : MatchingEngine}
    (live : next.liveOrder c.clientId c.orderId =
      engine.liveOrder c.clientId c.orderId)
    (facing : next.facing c = engine.facing c)
    (carriesOut : ∀ old, next.CarriesOut slots c old ↔
      engine.CarriesOut slots c old)
    (ends : engine.EndsLive slots c) : next.EndsLive slots c := by
  unfold EndsLive at ends ⊢
  rw [live]
  cases held : engine.liveOrder c.clientId c.orderId with
  | none =>
      rw [held] at ends
      exact ⟨ends.action, (carriesOut none).mpr ends.carriesOut,
        facing ▸ ends.rests⟩
  | some m =>
      rw [held] at ends
      refine fun removes => ends ?_
      cases removes with
      | cancelled action here => exact .cancelled action here
      | swept action targeted => exact .swept action targeted
      | filled action here carries moves all =>
          exact .filled action here ((carriesOut _).mp carries) moves
            (facing ▸ all)

/-- Opening the client's record changes nothing of what is foretold. -/
theorem start_endsLive (engine : MatchingEngine) (slots : Nat) (c : Message) :
    (engine.start c).engine.EndsLive slots c ↔ engine.EndsLive slots c := by
  have passes : ∀ old, (engine.start c).engine.Passes c old ↔
      engine.Passes c old := by
    intro old
    have state : (engine.start c).engine.clientState c.clientId =
        engine.clientState c.clientId :=
      clientState_openClient engine c.clientId c.clientId
    unfold Passes
    rw [state]
    exact Iff.rfl
  have admits : (engine.start c).engine.Admits slots c ↔
      engine.Admits slots c :=
    ⟨fun ⟨passive, foreign, whole, room⟩ => ⟨passive, foreign, whole, room⟩,
      fun ⟨passive, foreign, whole, room⟩ => ⟨passive, foreign, whole, room⟩⟩
  have carriesOut : ∀ old, (engine.start c).engine.CarriesOut slots c old ↔
      engine.CarriesOut slots c old := by
    intro old
    constructor
    · rintro ⟨passed, sameSide, admitted⟩
      exact ⟨(passes old).mp passed, sameSide, admitted.imp_right admits.mp⟩
    · rintro ⟨passed, sameSide, admitted⟩
      exact ⟨(passes old).mpr passed, sameSide, admitted.imp_right admits.mpr⟩
  exact ⟨EndsLive.transfer rfl rfl fun old => (carriesOut old).symm,
    EndsLive.transfer rfl rfl carriesOut⟩

/--
For every reachable engine and every well-sequenced command, the terminal
report tells what is live under the key of the command exactly when the command
says that nothing remains or an order ends up live there.
-/
theorem complete_tells_remaining_iff
    (reachable : Reachable pool engine) (sequenced : engine.WellSequenced c)
    (processed : engine.process c = .ok turn) :
    turn.TellsRemaining c ↔
      c.remaining = 0 ∨ engine.EndsLive pool.book.slots c := by
  have sound := start_sound reachable.invariant.sound c
  obtain ⟨final, dispatched, finalSound, live⟩ :=
    Turn.dispatch_foretold sound sequenced.client (start_known engine c)
  have whole := process_dispatched sequenced dispatched finalSound
  rw [processed] at whole
  cases whole
  rw [Turn.finish_tellsRemaining finalSound, live, start_endsLive]

/-- An order that says nothing of its rest gets a true report. -/
theorem complete_tells_remaining_expired :
    ∃ turn,
      single.process
          { clientId := 7, requestId := 1, orderId := 1, tif := .ioc
            instrumentId := 1, price := 10, quantity := 5 } = .ok turn ∧
        turn.TellsRemaining
          { clientId := 7, requestId := 1, orderId := 1, tif := .ioc
            instrumentId := 1, price := 10, quantity := 5 } := by
  let c : Message :=
    { clientId := 7, requestId := 1, orderId := 1, tif := .ioc
      instrumentId := 1, price := 10, quantity := 5 }
  obtain ⟨turn, processed, _⟩ := single_reachable.outcome c
  have sequenced : single.WellSequenced c :=
    ⟨⟨rfl, by decide, by decide⟩, by decide, rfl⟩
  exact ⟨turn, processed,
    (complete_tells_remaining_iff single_reachable sequenced
      processed).mpr (Or.inl rfl)⟩

/-- An order that expires is said to have left what its client wrote. -/
theorem complete_repeats_the_command :
    ∃ turn,
      Reachable .capacity single ∧
        single.WellSequenced
          { clientId := 7, requestId := 1, orderId := 1, tif := .ioc
            instrumentId := 1, price := 10, quantity := 5, remaining := 5 } ∧
        single.process
          { clientId := 7, requestId := 1, orderId := 1, tif := .ioc
            instrumentId := 1, price := 10, quantity := 5, remaining := 5 } =
            .ok turn ∧
        ¬ turn.TellsRemaining
          { clientId := 7, requestId := 1, orderId := 1, tif := .ioc
            instrumentId := 1, price := 10, quantity := 5,
            remaining := 5 } := by
  let c : Message :=
    { clientId := 7, requestId := 1, orderId := 1, tif := .ioc
      instrumentId := 1, price := 10, quantity := 5, remaining := 5 }
  have sequenced : single.WellSequenced c :=
    ⟨⟨rfl, by decide, by decide⟩, by decide, rfl⟩
  have evaluated : ((single.process c).map fun turn =>
      ((turn.engine.liveOrder 7 1).isSome,
        turn.batch.reports.getLast?.map Message.remaining)).toOption =
      some (false, some 5) := by
    decide +kernel
  obtain ⟨turn, processed, _⟩ := single_reachable.outcome c
  rw [processed] at evaluated
  simp only [Except.map, Except.toOption, Option.some.injEq, Prod.mk.injEq,
    Option.isSome_eq_false_iff, Option.isNone_iff_eq_none] at evaluated
  obtain ⟨dead, copied⟩ := evaluated
  refine ⟨turn, single_reachable, sequenced, processed, ?_⟩
  rintro ⟨complete, last, _, _, none⟩
  rw [last, Option.map_some, none dead] at copied
  cases copied

end MatchingEngine

end LimitOrderBook
