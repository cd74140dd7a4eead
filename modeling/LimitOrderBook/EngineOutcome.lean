import LimitOrderBook.EngineProcess

namespace LimitOrderBook

/-!
# The outcomes of a call

Everything that `process` can do to a sound engine, case by case.
-/

/-- A replacement that keeps the order's place in its queue. -/
def Message.Shrinks (c old : Message) : Prop :=
  old.price = c.price ∧ c.quantity ≤ old.quantity

namespace MatchingEngine

/-- The checks of `submit` that come before the plan. -/
def Passes (engine : MatchingEngine) (c : Message) (old : Option Message) :
    Prop :=
  ∃ r, engine.instruments.find? c.instrumentId = some r ∧
    checkCommand r c (replacedId old) = .none ∧
    engine.checkRisk r (engine.clientState c.clientId) c (replacedId old) =
      .none

/-- A new order or a replacement that `submit` does not turn down. -/
structure CarriesOut (engine : MatchingEngine) (slots : Nat) (c : Message)
    (old : Option Message) : Prop where
  passes : engine.Passes c old
  sameSide : ∀ m, old = some m → m.side = c.side
  admits : (∃ m, old = some m ∧ c.Shrinks m) ∨ engine.Admits slots c

end MatchingEngine

namespace Turn

variable {slots : Nat} {turn final : Turn} {c : Message}

/-- Cancelled orders, from one turn to another. -/
inductive Cancels (slots : Nat) (request : Nat) :
    Turn → List Message → Turn → Prop where
  | done {turn : Turn} : Cancels slots request turn [] turn
  | next {turn final : Turn} {m : Message} {rest : List Message}
      {books : Books} :
      turn.engine.resting.find? m.exchangeId = some m →
      Reshelved slots turn.engine.books books
        (turn.engine.ledger.remove m).market →
      Cancels slots request (turn.afterCancel m request books) rest final →
      Cancels slots request turn (m :: rest) final

theorem cancels_ok
    {ms : List Message} (sound : turn.engine.Sound slots)
    (found : ∀ m ∈ ms, turn.engine.resting.find? m.exchangeId = some m)
    (apart : (ms.map Message.exchangeId).Nodup) (request : Nat) :
    ∃ final,
      (ms.map Message.exchangeId).foldlM
          (fun turn id => turn.cancel id request) turn = .ok final ∧
        Cancels slots request turn ms final ∧ final.engine.Sound slots := by
  induction ms generalizing turn with
  | nil => exact ⟨turn, rfl, .done, sound⟩
  | cons m rest inductionHypothesis =>
      have here := found m (by simp)
      obtain ⟨notAgain, restApart⟩ := List.nodup_cons.mp apart
      obtain ⟨books, cancelled, reshelved⟩ := cancel_ok sound here request
      have stillFound : ∀ other ∈ rest,
          (turn.afterCancel m request books).engine.resting.find?
            other.exchangeId = some other := by
        intro other member
        have different : other.exchangeId ≠ m.exchangeId := fun same =>
          notAgain (same ▸ List.mem_map_of_mem member)
        simp [afterCancel, withBooks, update, report, different,
          found other (by simp [member])]
      obtain ⟨final, done, cancels, finalSound⟩ :=
        inductionHypothesis (afterCancel_sound sound here reshelved) stillFound
          restApart
      refine ⟨final, ?_, .next here reshelved cancels, finalSound⟩
      rw [List.map_cons, List.foldlM_cons, cancelled]
      exact done

/-- The orders a cancellation command takes. -/
inductive CancelTargets (engine : MatchingEngine) (c : Message) :
    List Message → Prop where
  | one {m : Message} :
      c.action = .cancel →
      engine.resting.find? m.exchangeId = some m →
      m.clientId = c.clientId →
      m.orderId = c.orderId →
      m.instrumentId = c.instrumentId →
      CancelTargets engine c [m]
  | all :
      c.action = .cancelAll →
      CancelTargets engine c
        ((engine.resting.entries.filter fun entry =>
          decide (entry.2.clientId = c.clientId ∧
            (c.instrumentId = 0 ∨
              entry.2.instrumentId = c.instrumentId))).map Prod.snd)

/-- Only a cancellation takes orders. -/
theorem CancelTargets.action
    {engine : MatchingEngine} {c : Message} {ms : List Message}
    (targets : CancelTargets engine c ms) :
    c.action = .cancel ∨ c.action = .cancelAll := by
  cases targets with
  | one isCancel => exact .inl isCancel
  | all isCancelAll => exact .inr isCancelAll

/-- What the business part of a command can do. -/
inductive Handled (slots : Nat) (turn : Turn) (c : Message) : Turn → Prop where
  | rejected {reason : Reject} :
      reason ≠ .none →
      Handled slots turn c (turn.reject c reason)
  | full :
      Handled slots turn c
        ((turn.openPosition c.clientId c.instrumentId).reject c .capacity)
  | cancelled {ms : List Message} {final : Turn} :
      CancelTargets turn.engine c ms →
      Cancels slots c.requestId turn ms final →
      Handled slots turn c final
  | reduced {old : Message} {r : InstrumentRules} {books : Books} :
      c.action = .replace →
      turn.engine.Checked c (some old) r →
      turn.engine.Replaces c old →
      old.price = c.price →
      c.quantity ≤ old.quantity →
      Reshelved slots turn.engine.books books
        (turn.engine.ledger.resize old c.quantity).market →
      Handled slots turn c (turn.afterReduce c old books)
  | placed {old : Option Message} {r : InstrumentRules} {fills : List Fill}
      {leaves : Quantity} {books : Books} {swept : Turn} :
      c.action = entryAction old →
      Placement slots turn c old r fills leaves books swept →
      Handled slots turn c
        (swept.publishResidual (turn.engine.incoming c) leaves
          (rests c leaves))

theorem Cancels.sound
    {request : Nat} {ms : List Message}
    (cancels : Cancels slots request turn ms final)
    (sound : turn.engine.Sound slots) : final.engine.Sound slots := by
  induction cancels with
  | done => exact sound
  | next found reshelved _ inductionHypothesis =>
      exact inductionHypothesis (afterCancel_sound sound found reshelved)

theorem Handled.sound
    (handled : Handled slots turn c final) (sound : turn.engine.Sound slots) :
    final.engine.Sound slots := by
  cases handled with
  | rejected _ => exact reject_sound sound c _
  | full => exact reject_sound (openPosition_sound sound _ _) c _
  | cancelled _ cancels => exact cancels.sound sound
  | reduced _ checked replaces _ smaller reshelved =>
      refine afterReduce_sound sound replaces.found smaller ?_ reshelved
      intro r rules
      rw [replaces.instrument, checked.rules] at rules
      cases rules
      exact checked.command.lots
  | placed _ placement => exact publishResidual_sound placement.sound _ _ _

/-- A client's order id that was never used has no key. -/
theorem unused_key
    (sound : turn.engine.Sound slots) {state : ClientState}
    (known : turn.engine.clients.find? c.clientId = some state)
    (isNew : state.maxOrderId < c.orderId) :
    turn.engine.byClient.find? (c.clientId, c.orderId) = none := by
  cases indexed : turn.engine.byClient.find? (c.clientId, c.orderId) with
  | none => rfl
  | some id =>
      obtain ⟨m, found, client, order⟩ := (sound.linked.keyed _ _ _).mp indexed
      obtain ⟨state', known', used⟩ := (sound.backed id m found).owner
      rw [client, known] at known'
      cases known'
      rw [order] at used
      exact absurd isNew (Nat.not_lt_of_le used)

/-- `submit` after the checks of a new order. -/
theorem submit_new
    {r : InstrumentRules} {state : ClientState} {book : OrderBook}
    (rules : turn.engine.instruments.find? c.instrumentId = some r)
    (passed : checkCommand r c 0 = .none)
    (known : turn.engine.clients.find? c.clientId = some state)
    (risk : turn.engine.checkRisk r state c 0 = .none)
    (bookFound : turn.engine.books.find? c.instrumentId = some book) :
    turn.submit c 0 = turn.place c 0 book := by
  simp [submit, rules, passed, atKey_of_find? known, risk,
    atKey_of_find? bookFound, Bind.bind, Except.bind]

/-- `submit` after the checks of a replacement. -/
theorem submit_replace
    {r : InstrumentRules} {state : ClientState} {book : OrderBook}
    {old : Message}
    (rules : turn.engine.instruments.find? c.instrumentId = some r)
    (passed : checkCommand r c old.exchangeId = .none)
    (known : turn.engine.clients.find? c.clientId = some state)
    (risk : turn.engine.checkRisk r state c old.exchangeId = .none)
    (bookFound : turn.engine.books.find? c.instrumentId = some book)
    (positive : old.exchangeId ≠ 0)
    (found : turn.engine.resting.find? old.exchangeId = some old)
    (instrument : old.instrumentId = c.instrumentId) :
    turn.submit c old.exchangeId =
      if old.side ≠ c.side then
        .ok (turn.reject c .invalidCommand)
      else if old.price = c.price ∧ c.quantity ≤ old.quantity then
        turn.reduce c old.exchangeId old
      else
        turn.place c old.exchangeId book := by
  simp [submit, rules, passed, atKey_of_find? known, risk, positive,
    atKey_of_find? bookFound, atKey_of_find? found, instrument, Bind.bind,
    Except.bind, pure, Except.pure]

/-- What `submit` ends in, and on what condition. -/
inductive Submits (slots : Nat) (turn : Turn) (c : Message)
    (old : Option Message) : Turn → Prop where
  | turnedDown {final : Turn} :
      ¬ turn.engine.CarriesOut slots c old →
      TurnedDown turn c final →
      Submits slots turn c old final
  | reduced {m : Message} {r : InstrumentRules} {books : Books} :
      old = some m →
      turn.engine.CarriesOut slots c old →
      turn.engine.Checked c (some m) r →
      turn.engine.Replaces c m →
      c.Shrinks m →
      Reshelved slots turn.engine.books books
        (turn.engine.ledger.resize m c.quantity).market →
      Submits slots turn c old (turn.afterReduce c m books)
  | placed {r : InstrumentRules} {fills : List Fill} {leaves : Quantity}
      {books : Books} {swept : Turn} :
      turn.engine.CarriesOut slots c old →
      leaves = c.quantity - offered (turn.engine.facing c) →
      Placement slots turn c old r fills leaves books swept →
      Submits slots turn c old
        (swept.publishResidual (turn.engine.incoming c) leaves
          (rests c leaves))

/-- `submit` after its checks, when it does not only reduce an order. -/
theorem placed_decided
    {old : Option Message} {r : InstrumentRules} {book : OrderBook}
    (sound : turn.engine.Sound slots)
    (bookFound : turn.engine.books.find? c.instrumentId = some book)
    (passes : turn.engine.Passes c old)
    (checked : turn.engine.Checked c old r)
    (enters : turn.engine.Enters c old)
    (moves : ∀ m, old = some m → ¬ c.Shrinks m)
    (sameSide : ∀ m, old = some m → m.side = c.side)
    (submitted : turn.submit c (replacedId old) =
      turn.place c (replacedId old) book) :
    ∃ final,
      turn.submit c (replacedId old) = .ok final ∧
        Submits slots turn c old final := by
  obtain ⟨final, placed, outcome⟩ :=
    place_decided sound bookFound checked enters moves
  refine ⟨final, submitted.trans placed, ?_⟩
  rcases outcome with ⟨turnedDown, refused⟩ |
    ⟨admits, fills, leaves, books, swept, left, placement, rfl⟩
  · refine .turnedDown (fun carries => ?_) turnedDown
    rcases carries.admits with ⟨m, isOld, shrinks⟩ | admits
    · exact moves m isOld shrinks
    · exact refused admits
  · exact .placed ⟨passes, sameSide, Or.inr admits⟩ left placement

/-- `submit` carries out exactly the commands that pass and are admitted. -/
theorem submit_decided
    (old : Option Message) (sound : turn.engine.Sound slots)
    (named : c.clientId ≠ 0)
    (known : (turn.engine.clients.find? c.clientId).isSome)
    (indexed : ∀ m, old = some m →
      turn.engine.resting.find? m.exchangeId = some m ∧
        m.clientId = c.clientId ∧ m.orderId = c.orderId ∧
        m.instrumentId = c.instrumentId) :
    ∃ final,
      turn.submit c (replacedId old) = .ok final ∧
        Submits slots turn c old final := by
  have rejects : ∀ reason : Reject, reason ≠ .none →
      ¬ turn.engine.CarriesOut slots c old →
      turn.submit c (replacedId old) = .ok (turn.reject c reason) →
      ∃ final, turn.submit c (replacedId old) = .ok final ∧
        Submits slots turn c old final :=
    fun reason nonzero refused submitted =>
      ⟨_, submitted, .turnedDown refused (.rejected nonzero)⟩
  cases rules : turn.engine.instruments.find? c.instrumentId with
  | none =>
      refine rejects .unknownInstrument (by decide) (fun carries => ?_)
        (by simp [submit, rules])
      obtain ⟨r, found, _⟩ := carries.passes
      rw [rules] at found
      cases found
  | some r =>
      obtain ⟨state, stateKnown⟩ := Option.isSome_iff_exists.mp known
      have isState : turn.engine.clientState c.clientId = state := by
        simp [MatchingEngine.clientState, stateKnown]
      have passes_iff : turn.engine.Passes c old ↔
          checkCommand r c (replacedId old) = .none ∧
            turn.engine.checkRisk r state c (replacedId old) = .none := by
        simp [MatchingEngine.Passes, rules, isState]
      by_cases passed : checkCommand r c (replacedId old) = .none
      · have command := checkCommand_none passed
        by_cases risk :
            turn.engine.checkRisk r state c (replacedId old) = .none
        · have passes := passes_iff.mpr ⟨passed, risk⟩
          have checked : turn.engine.Checked c old r :=
            ⟨rules, command, named, state, stateKnown, risk⟩
          obtain ⟨book, bookFound⟩ := sound.book_of_rules rules
          cases old with
          | none =>
              have isNew : state.maxOrderId < c.orderId := by
                unfold MatchingEngine.checkRisk at risk
                split at risk
                · cases risk
                · rename_i fresh
                  simpa [replacedId] using fresh
              exact placed_decided sound bookFound passes checked
                (unused_key sound stateKnown isNew) (by simp) (by simp)
                (submit_new rules passed stateKnown risk bookFound)
          | some m =>
              obtain ⟨found, client, order, instrument⟩ := indexed m rfl
              have positive : m.exchangeId ≠ 0 :=
                Nat.ne_of_gt (sound.linked.numbered _ m found).2.1
              have submitted := submit_replace rules passed stateKnown risk
                bookFound positive found instrument
              by_cases sameSide : m.side = c.side
              · have replaces : turn.engine.Replaces c m :=
                  ⟨found, client, order, instrument, sameSide⟩
                rw [if_neg (not_not.mpr sameSide)] at submitted
                by_cases kept : m.price = c.price ∧ c.quantity ≤ m.quantity
                · obtain ⟨books, reduced, reshelved⟩ :=
                    reduce_ok sound found instrument command.quantityPos kept.2
                  rw [if_pos kept, reduced] at submitted
                  exact ⟨_, submitted, .reduced rfl
                    ⟨passes, by simpa using sameSide, Or.inl ⟨m, rfl, kept⟩⟩
                    checked replaces kept reshelved⟩
                · rw [if_neg kept] at submitted
                  exact placed_decided sound bookFound passes checked replaces
                    (by simpa [Message.Shrinks] using kept)
                    (by simpa using sameSide) submitted
              · rw [if_pos sameSide] at submitted
                exact rejects .invalidCommand (by decide)
                  (fun carries => sameSide (carries.sameSide m rfl)) submitted
        · refine rejects _ risk
            (fun carries => risk (passes_iff.mp carries.passes).2) ?_
          simp [submit, rules, passed, atKey_of_find? stateKnown, risk,
            Bind.bind, Except.bind, pure, Except.pure]
      · exact rejects _ passed
          (fun carries => passed (passes_iff.mp carries.passes).1)
          (by simp [submit, rules, passed])

theorem Submits.handled
    {old : Option Message} (submits : Submits slots turn c old final)
    (action : c.action = entryAction old) : Handled slots turn c final := by
  cases submits with
  | turnedDown _ turnedDown =>
      cases turnedDown with
      | rejected nonzero => exact .rejected nonzero
      | full => exact .full
  | reduced isOld _ checked replaces shrinks reshelved =>
      rw [isOld] at action
      exact .reduced action checked replaces shrinks.1 shrinks.2 reshelved
  | placed _ _ placement => exact .placed action placement

/-- Cancel and Replace look the order up in the same way. -/
theorem dispatch_indexed
    {m : Message} (action : c.action = .cancel ∨ c.action = .replace)
    (indexed : turn.engine.byClient.find? (c.clientId, c.orderId) =
      some m.exchangeId)
    (found : turn.engine.resting.find? m.exchangeId = some m) :
    turn.dispatch c =
      if m.instrumentId ≠ c.instrumentId then
        .ok (turn.reject c .unknownOrder)
      else if c.action = .cancel then
        turn.cancel m.exchangeId c.requestId
      else
        turn.submit c m.exchangeId := by
  rcases action with isCancel | isReplace
  · simp [dispatch, isCancel, indexed, atKey_of_find? found, Bind.bind,
      Except.bind, pure, Except.pure]
  · simp [dispatch, isReplace, indexed, atKey_of_find? found, Bind.bind,
      Except.bind, pure, Except.pure]

/-- A cancel-all takes the client's orders one by one and is never refused. -/
theorem dispatch_cancelAll
    (sound : turn.engine.Sound slots) (action : c.action = .cancelAll) :
    ∃ final ms,
      turn.dispatch c = .ok final ∧ CancelTargets turn.engine c ms ∧
        ms.map Message.exchangeId = cancelAllIds turn.engine c ∧
        Cancels slots c.requestId turn ms final ∧ final.engine.Sound slots := by
  let targets := turn.engine.resting.entries.filter fun entry =>
    decide (entry.2.clientId = c.clientId ∧
      (c.instrumentId = 0 ∨ entry.2.instrumentId = c.instrumentId))
  have stored : ∀ entry ∈ targets,
      turn.engine.resting.find? entry.1 = some entry.2 := fun entry member =>
    OrderedMap.mem_entries.mp (List.mem_of_mem_filter member)
  have ids : (targets.map Prod.snd).map Message.exchangeId =
      cancelAllIds turn.engine c := by
    rw [List.map_map]
    refine List.map_congr_left fun entry member => ?_
    exact sound.exchangeId_eq (stored entry member)
  have apart : ((targets.map Prod.snd).map Message.exchangeId).Nodup := by
    rw [ids]
    exact List.Nodup.sublist (List.filter_sublist.map _)
      turn.engine.resting.keys_nodup
  have found : ∀ m ∈ targets.map Prod.snd,
      turn.engine.resting.find? m.exchangeId = some m := by
    intro m member
    obtain ⟨entry, entryMember, rfl⟩ := List.mem_map.mp member
    rw [sound.exchangeId_eq (stored entry entryMember)]
    exact stored entry entryMember
  obtain ⟨final, done, cancels, finalSound⟩ :=
    cancels_ok sound found apart c.requestId
  refine ⟨final, _, ?_, .all action, ids, cancels, finalSound⟩
  rw [ids] at done
  simpa [dispatch, action] using done

theorem dispatch_ok
    (sound : turn.engine.Sound slots) (named : c.clientId ≠ 0)
    (known : (turn.engine.clients.find? c.clientId).isSome) :
    ∃ final,
      turn.dispatch c = .ok final ∧
        Handled slots turn c final ∧ final.engine.Sound slots := by
  have rejects : ∀ reason : Reject, reason ≠ .none →
      turn.dispatch c = .ok (turn.reject c reason) →
      ∃ final, turn.dispatch c = .ok final ∧
        Handled slots turn c final ∧ final.engine.Sound slots :=
    fun reason nonzero submitted =>
      ⟨_, submitted, .rejected nonzero, reject_sound sound c reason⟩
  have submits : ∀ old, c.action = entryAction old →
      (∀ m, old = some m → turn.engine.resting.find? m.exchangeId = some m ∧
        m.clientId = c.clientId ∧ m.orderId = c.orderId ∧
        m.instrumentId = c.instrumentId) →
      ∃ final, turn.submit c (replacedId old) = .ok final ∧
        Handled slots turn c final ∧ final.engine.Sound slots := by
    intro old action indexed
    obtain ⟨final, submitted, submits⟩ :=
      submit_decided old sound named known indexed
    have handled := submits.handled action
    exact ⟨final, submitted, handled, handled.sound sound⟩
  have lookedUp : (c.action = .cancel ∨ c.action = .replace) →
      ∃ final, turn.dispatch c = .ok final ∧
        Handled slots turn c final ∧ final.engine.Sound slots := by
    intro action
    cases indexed : turn.engine.byClient.find? (c.clientId, c.orderId) with
    | none =>
        refine rejects .unknownOrder (by decide) ?_
        rcases action with isCancel | isReplace
        · simp [dispatch, isCancel, indexed]
        · simp [dispatch, isReplace, indexed]
    | some id =>
        obtain ⟨m, found, client, order⟩ :=
          (sound.linked.keyed _ _ _).mp indexed
        obtain rfl : m.exchangeId = id := sound.exchangeId_eq found
        have unfolded := dispatch_indexed action indexed found
        by_cases instrument : m.instrumentId = c.instrumentId
        · rw [if_neg (not_not.mpr instrument)] at unfolded
          rcases action with isCancel | isReplace
          · obtain ⟨books, cancelled, reshelved⟩ :=
              cancel_ok sound found c.requestId
            rw [if_pos isCancel, cancelled] at unfolded
            exact ⟨_, unfolded, .cancelled
              (.one isCancel found client order instrument)
              (.next found reshelved .done),
              afterCancel_sound sound found reshelved⟩
          · rw [if_neg (by simp [isReplace])] at unfolded
            rw [unfolded]
            exact submits (some m) isReplace (by
              intro other isOld
              cases isOld
              exact ⟨found, client, order, instrument⟩)
        · rw [if_pos instrument] at unfolded
          exact rejects .unknownOrder (by decide) unfolded
  cases action : c.action with
  | new =>
      have unfolded : turn.dispatch c = turn.submit c 0 := by
        simp [dispatch, action]
      rw [unfolded]
      exact submits none action (by simp)
  | cancel => exact lookedUp (Or.inl action)
  | replace => exact lookedUp (Or.inr action)
  | cancelAll =>
      obtain ⟨final, ms, dispatched, targets, _, cancels, finalSound⟩ :=
        dispatch_cancelAll sound action
      exact ⟨final, dispatched, .cancelled targets cancels, finalSound⟩
  | snapshot =>
      exact rejects .invalidCommand (by decide) (by simp [dispatch, action])
  | status =>
      exact rejects .invalidCommand (by decide) (by simp [dispatch, action])
  | unlisted raw outside =>
      exact rejects .invalidCommand (by decide) (by simp [dispatch, action])

/-- The terminal report of a handled command. -/
def completion (turn : Turn) (c : Message) : Message :=
  match turn.engine.byClient.find? (c.clientId, c.orderId) with
  | none => c
  | some id =>
      { c with
        remaining :=
          ((turn.engine.resting.find? id).map Message.quantity).getD 0
        exchangeId := id }

/-- The end of a handled command. -/
def finish (turn : Turn) (c : Message) : Turn :=
  (turn.report (turn.completion c) .complete).remember c

theorem complete_ok (sound : turn.engine.Sound slots) (c : Message) :
    turn.complete c = .ok (turn.report (turn.completion c) .complete) := by
  unfold complete completion
  cases indexed : turn.engine.byClient.find? (c.clientId, c.orderId) with
  | none => rfl
  | some id =>
      obtain ⟨m, found, _⟩ := (sound.linked.keyed _ _ _).mp indexed
      have stored : turn.engine.resting.find? id = some m := found
      simp [atKey_of_find? stored, stored, Bind.bind, Except.bind, pure,
        Except.pure]

theorem finish_sound (sound : turn.engine.Sound slots) (c : Message) :
    (turn.finish c).engine.Sound slots := by
  refine sound.congr rfl rfl rfl rfl ⟨rfl, ?_, fun _ known => known⟩
  intro client state known
  simp only [finish, remember, report, OrderedMap.find?_modify]
  by_cases isOwner : client = c.clientId
  · subst isOwner
    rw [if_pos rfl, known]
    exact ⟨_, rfl, Nat.le_refl _⟩
  · rw [if_neg isOwner]
    exact ⟨state, known, Nat.le_refl _⟩

end Turn

/-- A command that is not a query. -/
def Message.Business (c : Message) : Prop :=
  c.kind = .command ∧ c.action ≠ .snapshot ∧ c.action ≠ .status

namespace MatchingEngine

/-- The command `process` expects next from its client. -/
structure WellSequenced (engine : MatchingEngine) (c : Message) : Prop where
  business : c.Business
  client : c.clientId ≠ 0
  next : c.requestId = engine.lastRequest c.clientId + 1

/-- The last command of a client again. -/
structure Retries (engine : MatchingEngine) (c : Message) : Prop where
  business : c.Business
  client : c.clientId ≠ 0
  request : c.requestId ≠ 0
  sameRequest : c.requestId = engine.lastRequest c.clientId
  sameCommand : c = (engine.clientState c.clientId).lastCommand

/-- The turn in which a well-sequenced command starts. -/
def start (engine : MatchingEngine) (c : Message) : Turn where
  engine :=
    { engine.openClient c.clientId with
      stats := { engine.stats with commands := engine.stats.commands + 1 } }
  batch := {}

/-- Everything a call of `process` can do. -/
inductive Outcome (slots : Nat) (engine : MatchingEngine) (c : Message) :
    Turn → Prop where
  | refused :
      c.kind ≠ .command ∨ c.action = .snapshot →
      Outcome slots engine c (Turn.reject ⟨engine, {}⟩ c .invalidCommand)
  | status :
      c.kind = .command →
      c.action = .status →
      Outcome slots engine c
        (Turn.report ⟨engine, {}⟩
          { c with requestId := engine.lastRequest c.clientId } .status)
  | anonymous :
      c.Business →
      c.clientId = 0 ∨ c.requestId = 0 →
      Outcome slots engine c
        ((Turn.reject ⟨engine, {}⟩ c .invalidCommand).report c .complete)
  | retried :
      engine.Retries c →
      Outcome slots engine c
        ⟨engine.openClient c.clientId,
          { reports := (engine.clientState c.clientId).cached }⟩
  | unsequenced :
      c.Business →
      c.clientId ≠ 0 →
      c.requestId ≠ 0 →
      c.requestId ≠ engine.lastRequest c.clientId + 1 →
      ¬ engine.Retries c →
      Outcome slots engine c
        ((Turn.reject ⟨engine.openClient c.clientId, {}⟩ c .sequence).report c
          .complete)
  | handled {turn : Turn} :
      engine.WellSequenced c →
      Turn.Handled slots (engine.start c) c turn →
      Outcome slots engine c (turn.finish c)

variable {slots : Nat} {engine : MatchingEngine} {c : Message}

theorem WellSequenced.request
    (sequenced : engine.WellSequenced c) : c.requestId ≠ 0 := by
  rw [sequenced.next]
  exact Nat.succ_ne_zero _

/-- The next command of a client is not its last one again. -/
theorem WellSequenced.notRetry
    (sequenced : engine.WellSequenced c) : ¬ engine.Retries c := by
  intro retries
  have next := sequenced.next
  rw [retries.sameRequest] at next
  exact absurd next (Nat.ne_of_lt (Nat.lt_succ_self _))

/-- A retry has one outcome only. -/
theorem Outcome.of_retries
    {turn : Turn} (outcome : Outcome slots engine c turn)
    (retries : engine.Retries c) :
    turn = ⟨engine.openClient c.clientId,
      { reports := (engine.clientState c.clientId).cached }⟩ := by
  cases outcome with
  | refused query =>
      rcases query with notCommand | isSnapshot
      · exact absurd retries.business.1 notCommand
      · exact absurd isSnapshot retries.business.2.1
  | status _ isStatus => exact absurd isStatus retries.business.2.2
  | anonymous _ anonymous =>
      exact absurd anonymous (not_or.mpr ⟨retries.client, retries.request⟩)
  | retried _ => rfl
  | unsequenced _ _ _ _ notRetry => exact absurd retries notRetry
  | handled sequenced _ => exact absurd retries sequenced.notRetry

@[simp] theorem clientState_openClient
    (engine : MatchingEngine) (client other : ClientId) :
    (engine.openClient client).clientState other = engine.clientState other := by
  by_cases same : other = client
  · subst same
    simp [clientState, openClient]
  · simp [clientState, openClient, same]

theorem openClient_extends (engine : MatchingEngine) (client : ClientId) :
    engine.Extends (engine.openClient client) where
  instruments := rfl
  clients other state known := by
    refine ⟨state, ?_, Nat.le_refl _⟩
    by_cases same : other = client
    · subst same
      simp [openClient, known]
    · simp [openClient, same, known]
  positions _ known := known

theorem openClient_sound
    (sound : engine.Sound slots) (client : ClientId) :
    (engine.openClient client).Sound slots :=
  sound.congr rfl rfl rfl rfl (openClient_extends engine client)

theorem start_sound (sound : engine.Sound slots) (c : Message) :
    (engine.start c).engine.Sound slots :=
  (openClient_sound sound c.clientId).congr rfl rfl rfl rfl
    (.of_eq rfl rfl rfl)

/-- `process` writes the starting turn out. -/
theorem start_dispatch
    {turn : Turn} (dispatched : Turn.dispatch (engine.start c) c = .ok turn) :
    Turn.dispatch
        ⟨{ engine.openClient c.clientId with
          stats :=
            { (engine.openClient c.clientId).stats with
              commands :=
                (engine.openClient c.clientId).stats.commands + 1 } },
          {}⟩ c = .ok turn :=
  dispatched

/-- A call on a sound engine does not fault and has one of the outcomes. -/
theorem process_outcome (sound : engine.Sound slots) (c : Message) :
    ∃ turn,
      engine.process c = .ok turn ∧ Outcome slots engine c turn ∧
        turn.engine.Sound slots := by
  have outside : (⟨engine, {}⟩ : Turn).engine.Sound slots := sound
  have opened : (⟨engine.openClient c.clientId, {}⟩ : Turn).engine.Sound slots :=
    openClient_sound sound c.clientId
  unfold process
  split
  · rename_i query
    exact ⟨_, rfl, .refused query, Turn.reject_sound outside c _⟩
  · rename_i command
    obtain ⟨isCommand, notSnapshot⟩ := not_or.mp command
    split
    · rename_i isStatus
      exact ⟨_, rfl, .status (not_not.mp isCommand) isStatus,
        Turn.report_sound outside _ _ _⟩
    · rename_i notStatus
      have business : c.Business :=
        ⟨not_not.mp isCommand, notSnapshot, notStatus⟩
      split
      · rename_i anonymous
        exact ⟨_, rfl, .anonymous business anonymous,
          Turn.report_sound (Turn.reject_sound outside c _) _ _ _⟩
      · rename_i named
        obtain ⟨client, request⟩ := not_or.mp named
        simp only [clientState_openClient]
        split
        · rename_i retry
          exact ⟨_, rfl, .retried ⟨business, client, request, retry.1, retry.2⟩,
            openClient_sound sound _⟩
        · rename_i notRetry
          split
          · rename_i outOfSequence
            have notNext :
                c.requestId ≠ engine.lastRequest c.clientId + 1 := by
              unfold lastRequest
              omega
            exact ⟨_, rfl, .unsequenced business client request notNext
              (fun retry => notRetry ⟨retry.sameRequest, retry.sameCommand⟩),
              Turn.report_sound (Turn.reject_sound opened c _) _ _ _⟩
          · rename_i inSequence
            have next : c.requestId = engine.lastRequest c.clientId + 1 := by
              unfold lastRequest
              omega
            obtain ⟨turn, dispatched, handled, turnSound⟩ :=
              Turn.dispatch_ok (start_sound sound c) client
                (by simp [start, openClient])
            refine ⟨turn.finish c, ?_, .handled ⟨business, client, next⟩ handled,
              Turn.finish_sound turnSound c⟩
            simp only [start_dispatch dispatched,
              Turn.complete_ok turnSound c, Bind.bind, Except.bind, pure,
              Except.pure]
            rfl

/-- A well-sequenced command is dispatched and finished. -/
theorem process_dispatched
    (sequenced : engine.WellSequenced c) {turn : Turn}
    (dispatched : Turn.dispatch (engine.start c) c = .ok turn)
    (turnSound : turn.engine.Sound slots) :
    engine.process c = .ok (turn.finish c) := by
  obtain ⟨⟨isCommand, notSnapshot, notStatus⟩, client, next⟩ := sequenced
  have request : c.requestId ≠ 0 := by lia
  unfold lastRequest at next
  have notRetry : ¬ (c.requestId =
      (engine.clientState c.clientId).lastRequest ∧
        c = (engine.clientState c.clientId).lastCommand) := by lia
  have inSequence : ¬ (c.requestId ≤
      (engine.clientState c.clientId).lastRequest ∨
        c.requestId - (engine.clientState c.clientId).lastRequest ≠ 1) := by
    lia
  unfold process
  simp only [isCommand, notSnapshot, notStatus, client, request,
    clientState_openClient, notRetry, inSequence, ne_eq, not_true_eq_false,
    or_self, if_false, start_dispatch dispatched,
    Turn.complete_ok turnSound c, Bind.bind, Except.bind, pure, Except.pure]
  rfl

end MatchingEngine

end LimitOrderBook
