import LimitOrderBook.EngineBlotter
import LimitOrderBook.EngineRetry

namespace LimitOrderBook

/-!
# The reports of a call

Outside a retry the reports of a call carry rising numbers above those of all
earlier calls, and for every client whose commands are in sequence they account
for its orders and its positions.
-/

/-- Reports with rising numbers after one number and up to another. -/
structure Stamped (first : Sequence) (reports : List Message)
    (last : Sequence) : Prop where
  kinds : ∀ m ∈ reports, m.kind = .report
  within : ∀ m ∈ reports, first < m.sequence ∧ m.sequence ≤ last
  rising : reports.Pairwise fun earlier later =>
    earlier.sequence < later.sequence
  grown : first ≤ last

namespace Stamped

variable {first last : Sequence} {reports : List Message} {m : Message}

theorem nil (first : Sequence) : Stamped first [] first where
  kinds := by simp
  within := by simp
  rising := .nil
  grown := Nat.le_refl _

theorem concat
    (stamped : Stamped first reports last) (kind : m.kind = .report)
    (next : m.sequence = last + 1) :
    Stamped first (reports ++ [m]) (last + 1) where
  kinds other member := by
    rcases List.mem_append.mp member with before | isLast
    · exact stamped.kinds other before
    · rw [List.mem_singleton.mp isLast]
      exact kind
  within other member := by
    have grown := stamped.grown
    rcases List.mem_append.mp member with before | isLast
    · obtain ⟨after, upTo⟩ := stamped.within other before
      exact ⟨after, Nat.le_succ_of_le upTo⟩
    · rw [List.mem_singleton.mp isLast, next]
      exact ⟨Nat.lt_succ_of_le grown, Nat.le_refl _⟩
  rising := by
    refine List.pairwise_append.mpr
      ⟨stamped.rising, List.pairwise_singleton _ _, ?_⟩
    intro earlier before later isLast
    rw [List.mem_singleton.mp isLast, next]
    exact Nat.lt_succ_of_le (stamped.within earlier before).2
  grown := Nat.le_succ_of_le stamped.grown

end Stamped

namespace Turn

variable {slots : Nat} {turn final : Turn} {c incoming : Message}
  {left after : Quantity} {first : Sequence}

/-- The reports of a turn are numbered after those of the calls before. -/
def Stamps (first : Sequence) (turn : Turn) : Prop :=
  Stamped first turn.batch.reports turn.engine.responseSequence

theorem Stamps.report
    (stamps : Stamps first turn) (m : Message) (type : ReportType)
    (reason : Reject := .none) : Stamps first (turn.report m type reason) :=
  stamps.concat rfl rfl

theorem Stamps.reject
    (stamps : Stamps first turn) (c : Message) (reason : Reject) :
    Stamps first (turn.reject c reason) :=
  stamps.concat rfl rfl

/--
What holds of the reports so far and of the last number, and is kept by every
further report that is not the terminal one.
-/
def Continues (holds : List Message → Sequence → Prop) : Prop :=
  ∀ reports last m, holds reports last → m.kind = .report →
    m.report ≠ .complete → m.report ≠ .status → m.sequence = last + 1 →
      holds (reports ++ [m]) (last + 1)

section Continues

variable {holds : List Message → Sequence → Prop}

theorem Continues.report
    (continues : Continues holds)
    (before : holds turn.batch.reports turn.engine.responseSequence)
    (m : Message) (type : ReportType) (notComplete : type ≠ .complete)
    (notStatus : type ≠ .status) (reason : Reject := .none) :
    holds (turn.report m type reason).batch.reports
      (turn.report m type reason).engine.responseSequence :=
  continues _ _ _ before rfl notComplete notStatus rfl

theorem Fills.continues
    {fills : List Fill}
    (executed : Fills slots c incoming turn left fills final after)
    (continues : Continues holds)
    (before : holds turn.batch.reports turn.engine.responseSequence) :
    holds final.batch.reports final.engine.responseSequence := by
  induction executed with
  | done => exact before
  | @next turn final left after fill rest maker books _ _ _
      inductionHypothesis =>
      refine inductionHypothesis ?_
      have made := continues.report before
        (execution maker fill turn.engine.nextTrade) .fill (by decide)
        (by decide)
      exact continues _ _ _ made rfl (by simp) (by simp) rfl

theorem Cancels.continues
    {request : Nat} {ms : List Message}
    (cancels : Cancels slots request turn ms final)
    (continues : Continues holds)
    (before : holds turn.batch.reports turn.engine.responseSequence) :
    holds final.batch.reports final.engine.responseSequence := by
  induction cancels with
  | done => exact before
  | next _ _ _ inductionHypothesis =>
      exact inductionHypothesis
        (continues _ _ _ before rfl (by simp) (by simp) rfl)

/-- The business part of a command adds reports one by one. -/
theorem Handled.continues
    (handled : Handled slots turn c final) (continues : Continues holds)
    (before : holds turn.batch.reports turn.engine.responseSequence) :
    holds final.batch.reports final.engine.responseSequence := by
  cases handled with
  | rejected _ => exact continues _ _ _ before rfl (by simp) (by simp) rfl
  | full => exact continues _ _ _ before rfl (by simp) (by simp) rfl
  | cancelled _ cancels => exact cancels.continues continues before
  | reduced _ _ _ _ _ _ =>
      rw [afterReduce_reports, afterReduce_engine]
      exact continues _ _ _ before rfl (by simp [Message.asReport])
        (by simp [Message.asReport]) rfl
  | @placed old _ fills leaves books swept _ placement =>
      have executed := placement.executed.continues continues (by
        rw [afterEntry_reports, afterEntry_engine]
        exact continues _ _ _ before rfl
          (by cases old <;> simp [Message.asReport, entryReport])
          (by cases old <;> simp [Message.asReport, entryReport]) rfl)
      unfold publishResidual
      split
      · exact executed
      · split
        · exact continues _ _ _ executed rfl (by simp) (by simp) rfl
        · exact executed

end Continues

theorem Handled.stamps
    (handled : Handled slots turn c final) (stamps : Stamps first turn) :
    Stamps first final :=
  handled.continues
    (fun _ _ _ stamped kind _ _ next => stamped.concat kind next) stamps

end Turn

namespace MatchingEngine

variable {slots : Nat} {engine : MatchingEngine} {c : Message} {turn : Turn}
  {pool : PoolBytes}

theorem Outcome.stamps
    (outcome : Outcome slots engine c turn) (notRetry : ¬ engine.Retries c) :
    Turn.Stamps engine.responseSequence turn := by
  have idle : Turn.Stamps engine.responseSequence ⟨engine, {}⟩ :=
    .nil engine.responseSequence
  cases outcome with
  | refused _ => exact idle.reject c _
  | status _ _ => exact idle.report _ _
  | anonymous _ _ => exact Turn.Stamps.report (idle.reject c _) c _
  | retried retries => exact absurd retries notRetry
  | unsequenced _ _ _ _ _ => exact Turn.Stamps.report (idle.reject c _) c _
  | handled _ handled =>
      have started : Turn.Stamps engine.responseSequence (engine.start c) :=
        .nil engine.responseSequence
      exact Turn.Stamps.report (handled.stamps started) _ _

/-! ## What is remembered for a client -/

/-- Only a client's next command changes what is known of the client. -/
theorem Outcome.clientState_or_sequenced
    (outcome : Outcome slots engine c turn) (client : ClientId) :
    turn.engine.clientState client = engine.clientState client ∨
      client = c.clientId ∧ engine.WellSequenced c := by
  rcases outcome.quiet_or_handled with quiet | ⟨sequenced, done, handled, rfl⟩
  · exact Or.inl (quiet.clients client)
  · by_cases own : client = c.clientId
    · exact Or.inr ⟨own, sequenced⟩
    · left
      rw [clientState_finish done c client (handled_known handled), if_neg own]
      have kept : done.engine.clientState client =
          (engine.start c).engine.clientState client := by
        unfold clientState
        rcases handled.clients with same | raised
        · rw [same]
        · rw [raised, OrderedMap.find?_modify, if_neg own]
      rw [kept, clientState_start]

/-- What a call leaves in the memory for a client. -/
theorem Outcome.cached
    (outcome : Outcome slots engine c turn) (client : ClientId) :
    (turn.engine.clientState client).cached =
        (engine.clientState client).cached ∨
      client = c.clientId ∧ ¬ engine.Retries c ∧
        (turn.engine.clientState client).cached =
          turn.batch.addressedTo client := by
  rcases outcome.clientState_or_sequenced client with same | ⟨rfl, sequenced⟩
  · exact Or.inl (congrArg ClientState.cached same)
  · exact Or.inr ⟨rfl, sequenced.notRetry,
      (outcome.remembers sequenced).clientState.2.2⟩

/-- Every report remembered for a client has a property. -/
def Caches (holds : ClientId → Message → Prop) (engine : MatchingEngine) :
    Prop :=
  ∀ client, ∀ m ∈ (engine.clientState client).cached, holds client m

/-- A property of all reports to a client is one of what it remembers. -/
theorem Reachable.caches
    {holds : ClientId → Message → Prop} (reachable : Reachable pool engine)
    (answered : ∀ {engine c turn}, Outcome pool.book.slots engine c turn →
      engine.Caches holds →
        ∀ client, ∀ m ∈ turn.batch.addressedTo client, holds client m) :
    engine.Caches holds := by
  refine reachable.induction ?_ ?_
  · intro engine created
    obtain ⟨instruments, epoch, constructed⟩ := created
    obtain ⟨_, _, rfl⟩ := create_ok constructed
    intro client m member
    cases member
  · intro engine c turn _ outcome held client
    rcases outcome.cached client with same | ⟨_, _, cached⟩
    · rw [same]
      exact held client
    · rw [cached]
      exact answered outcome held client

/-- The reports remembered for a client are its own. -/
def CachesOwn (engine : MatchingEngine) : Prop :=
  ∀ client, ∀ m ∈ (engine.clientState client).cached, m.clientId = client

theorem Reachable.cachesOwn
    (reachable : Reachable pool engine) : engine.CachesOwn := by
  refine reachable.caches fun _ _ client m member => ?_
  simpa using (List.mem_filter.mp member).2

/--
What holds of every answer when it is given, and is kept by every call that is
not the client's next command, holds of what is remembered.
-/
theorem Reachable.memory
    (reachable : Reachable pool engine)
    (holds : MatchingEngine → Message → List Message → Prop)
    (given : ∀ engine c turn, Reachable pool engine → engine.WellSequenced c →
      engine.process c = .ok turn →
        holds turn.engine c (turn.batch.addressedTo c.clientId))
    (kept : ∀ engine other turn c reports, Reachable pool engine →
      engine.process other = .ok turn →
      ¬ (other.clientId = c.clientId ∧ engine.WellSequenced other) →
        holds engine c reports → holds turn.engine c reports) :
    ∀ client, (engine.clientState client).lastRequest ≠ 0 →
      (engine.clientState client).lastCommand.clientId = client ∧
        holds engine (engine.clientState client).lastCommand
          (engine.clientState client).cached := by
  induction reachable with
  | start created =>
      obtain ⟨instruments, epoch, constructed⟩ := created
      obtain ⟨_, _, rfl⟩ := create_ok constructed
      intro client asked
      exact absurd rfl asked
  | @step engine other turn reachable processed inductionHypothesis =>
      intro client asked
      obtain ⟨outcome, _⟩ := Reachable.outcome_of reachable processed
      by_cases own : client = other.clientId ∧ engine.WellSequenced other
      · obtain ⟨rfl, sequenced⟩ := own
        obtain ⟨_, lastCommand, cached⟩ :=
          (outcome.remembers sequenced).clientState
        rw [lastCommand, cached]
        exact ⟨rfl, given engine other turn reachable sequenced processed⟩
      · have same : turn.engine.clientState client =
            engine.clientState client :=
          (outcome.clientState_or_sequenced client).resolve_right own
        rw [same] at asked ⊢
        obtain ⟨sender, held⟩ := inductionHypothesis client asked
        refine ⟨sender, kept engine other turn _ _ reachable processed ?_ held⟩
        rw [sender]
        exact fun isOwn => own ⟨isOwn.1.symm, isOwn.2⟩

/-- A retry repeats what is remembered of its command. -/
theorem Reachable.retried
    {holds : MatchingEngine → Message → List Message → Prop}
    (retries : engine.Retries c)
    (memory : ∀ client, (engine.clientState client).lastRequest ≠ 0 →
      (engine.clientState client).lastCommand.clientId = client ∧
        holds engine (engine.clientState client).lastCommand
          (engine.clientState client).cached) :
    holds engine c (engine.clientState c.clientId).cached := by
  have asked : (engine.clientState c.clientId).lastRequest ≠ 0 := by
    rw [← lastRequest, ← retries.sameRequest]
    exact retries.request
  have held := (memory c.clientId asked).2
  rw [← retries.sameCommand] at held
  exact held

/-! ## The orders of a client in sequence -/

/-- A client sends its next command, its last one again, or a query. -/
def InSequence (engine : MatchingEngine) (client : ClientId) (c : Message) :
    Prop :=
  c.clientId = client → c.Business →
    engine.WellSequenced c ∨ engine.Retries c

/-- A command that is refused for its place in the sequence. -/
def OutOfSequence (engine : MatchingEngine) (c : Message) : Prop :=
  c.Business ∧ ¬ engine.WellSequenced c ∧ ¬ engine.Retries c

/-- A request whose `remaining` differs from the live order it names. -/
def MisstatesLive (engine : MatchingEngine) (c : Message) : Prop :=
  ∃ id m, engine.resting.find? id = some m ∧ m.clientId = c.clientId ∧
    m.orderId = c.orderId ∧ m.quantity ≠ c.remaining

/-- The client's refused commands say what is left of the orders they name. -/
def Truthful (engine : MatchingEngine) (client : ClientId) (c : Message) :
    Prop :=
  c.clientId = client → ¬ (engine.OutOfSequence c ∧ engine.MisstatesLive c)

theorem InSequence.truthful
    {client : ClientId} (inSequence : engine.InSequence client c) :
    engine.Truthful client c := by
  rintro own ⟨⟨business, notNext, notRetry⟩, _⟩
  rcases inSequence own business with sequenced | retries
  · exact notNext sequenced
  · exact notRetry retries

/-- A completion built from a truthful request changes no blotter. -/
theorem Truthful.completed
    {client : ClientId} (truthful : engine.Truthful client c)
    (sound : engine.Sound slots) (outOfSequence : engine.OutOfSequence c)
    (epoch : Nat) (sequence : Sequence) (orderId : OrderId) :
    (engine.ledger.blotter.read
        (c.asReport .complete .none epoch sequence)) client orderId =
      engine.ledger.blotter client orderId := by
  by_cases own : c.clientId = client
  · have stated : ¬ engine.MisstatesLive c := fun misstates =>
      truthful own ⟨outOfSequence, misstates⟩
    refine congrFun (congrFun (Blotter.put_eq_self ?_) client) orderId
    cases held : engine.ledger.blotter c.clientId c.orderId with
    | none => simp [Blotter.readOrder, Message.asReport, held, Blotter.left]
    | some terms =>
        obtain ⟨id, m, stored, sameClient, sameOrder, rfl⟩ :=
          sound.linked.blotter_eq_some.mp held
        have sameQuantity : m.quantity = c.remaining := by
          by_contra differs
          exact stated ⟨id, m, stored, sameClient, sameOrder, differs⟩
        have some_left := (sound.positive stored).2
        simp [Blotter.readOrder, Message.asReport, held, Blotter.left,
          some_left, ← sameQuantity, Message.terms]
  · exact Blotter.read_of_ne fun same => own same.symm

/-- The reports of a call account for the orders of a truthful client. -/
theorem Outcome.announces
    {client : ClientId} (outcome : Outcome slots engine c turn)
    (sound : engine.Sound slots) (notRetry : ¬ engine.Retries c)
    (truthful : engine.Truthful client c) (orderId : OrderId) :
    turn.batch.reports.foldl Blotter.read engine.ledger.blotter client
        orderId =
      turn.engine.ledger.blotter client orderId := by
  have idle : Turn.Announces engine.ledger.blotter ⟨engine, {}⟩
      engine.ledger.blotter := rfl
  have refusedWith : ∀ reason, engine.OutOfSequence c →
      ((Turn.reject ⟨engine, {}⟩ c reason).report c
        .complete).batch.reports.foldl Blotter.read engine.ledger.blotter
          client orderId =
        engine.ledger.blotter client orderId := by
    intro reason outOfSequence
    have completed := (idle.reject (c := c) reason).report c .complete
    rw [completed]
    exact truthful.completed sound outOfSequence _ _ orderId
  cases outcome with
  | refused _ => exact congrFun (congrFun (idle.reject _) client) orderId
  | status _ _ =>
      have reported := idle.report
        { c with requestId := engine.lastRequest c.clientId } .status
      rw [Blotter.read, Blotter.put_eq_self (by
        simp [Blotter.readOrder, Message.asReport])] at reported
      exact congrFun (congrFun reported client) orderId
  | anonymous business anonymous =>
      refine refusedWith _ ⟨business, fun sequenced => ?_, notRetry⟩
      exact not_or.mpr ⟨sequenced.client, sequenced.request⟩ anonymous
  | retried retries => exact absurd retries notRetry
  | unsequenced business _ _ notNext _ =>
      exact refusedWith _
        ⟨business, fun sequenced => notNext sequenced.next, notRetry⟩
  | @handled done _ handled =>
      have started : Turn.Announces engine.ledger.blotter (engine.start c)
          (engine.start c).engine.ledger.blotter := rfl
      have doneSound : done.engine.Sound slots := handled.sound
        (start_sound sound c)
      have announced := Turn.finish_announces doneSound
        (handled.announces (start_sound sound c) started) c
      exact congrFun (congrFun announced client) orderId

end MatchingEngine

end LimitOrderBook
