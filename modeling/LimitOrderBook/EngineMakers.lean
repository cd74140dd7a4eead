import LimitOrderBook.EngineReplies

namespace LimitOrderBook

/-!
# What a client hears of other clients' commands

The reports of a command that are for another client are fills of that client's
resting orders.  Each of them names an order that has exactly what the fill
takes and leaves.
-/

/-- A fill of an order with these terms. -/
structure Message.Takes (m : Message) (terms : OrderTerms) : Prop where
  fill : m.report = .fill
  instrument : terms.instrumentId = m.instrumentId
  side : terms.side = m.side
  listed : m.side.Listed
  quantity : terms.quantity = m.quantity + m.remaining

namespace Blotter

/-- A report for a client takes from one of its orders. -/
def Fulfilled (client : ClientId) (blotter : Blotter) (m : Message) : Prop :=
  m.clientId = client →
    ∃ terms, blotter client m.orderId = some terms ∧ m.Takes terms

/-- Read in order, all reports for a client take from its orders. -/
def Fulfils (client : ClientId) : Blotter → List Message → Prop
  | _, [] => True
  | blotter, m :: rest =>
      Fulfilled client blotter m ∧ Fulfils client (blotter.read m) rest

theorem Fulfils.concat
    {client : ClientId} {blotter : Blotter} {reports : List Message}
    {m : Message} (fulfils : Fulfils client blotter reports)
    (last : Fulfilled client (reports.foldl read blotter) m) :
    Fulfils client blotter (reports ++ [m]) := by
  induction reports generalizing blotter with
  | nil => exact ⟨last, trivial⟩
  | cons first rest inductionHypothesis =>
      exact ⟨fulfils.1, inductionHypothesis fulfils.2 last⟩

theorem Fulfils.split
    {client : ClientId} {blotter : Blotter} {reports : List Message}
    {m : Message} (fulfils : Fulfils client blotter (reports ++ [m])) :
    Fulfils client blotter reports ∧
      Fulfilled client (reports.foldl read blotter) m := by
  induction reports generalizing blotter with
  | nil => exact ⟨trivial, fulfils.1⟩
  | cons first rest inductionHypothesis =>
      obtain ⟨front, last⟩ := inductionHypothesis fulfils.2
      exact ⟨⟨fulfils.1, front⟩, last⟩

/-- Everything a client hears is a fill. -/
theorem Fulfils.fill
    {client : ClientId} {blotter : Blotter} {reports : List Message}
    (fulfils : Fulfils client blotter reports) {m : Message}
    (member : m ∈ reports) (own : m.clientId = client) : m.report = .fill := by
  induction reports generalizing blotter with
  | nil => cases member
  | cons first rest inductionHypothesis =>
      rcases List.mem_cons.mp member with isFirst | later
      · subst isFirst
        obtain ⟨terms, _, takes⟩ := fulfils.1 own
        exact takes.fill
      · exact inductionHypothesis fulfils.2 later

/-- Nobody else gives a client an order. -/
theorem Fulfils.keeps_none
    {client : ClientId} {blotter : Blotter} {reports : List Message}
    (fulfils : Fulfils client blotter reports) {orderId : OrderId}
    (none : blotter client orderId = none) :
    reports.foldl read blotter client orderId = Option.none := by
  induction reports generalizing blotter with
  | nil => exact none
  | cons m rest inductionHypothesis =>
      refine inductionHypothesis fulfils.2 ?_
      by_cases own : m.clientId = client
      · obtain ⟨terms, held, _⟩ := fulfils.1 own
        have other : ¬ (client = m.clientId ∧ orderId = m.orderId) := by
          rintro ⟨_, rfl⟩
          rw [none] at held
          cases held
        rw [read, put_of_ne other]
        exact none
      · rw [read_of_ne (Ne.symm own)]
        exact none

end Blotter

namespace Turn

variable {slots : Nat} {turn final swept : Turn} {c incoming maker : Message}
  {fill : Fill} {left : Quantity} {books : Books} {start : Blotter}
  {client : ClientId}

/-- The reports so far for a client take from its orders. -/
def Fulfils (client : ClientId) (start : Blotter) (turn : Turn) : Prop :=
  Blotter.Fulfils client start turn.batch.reports

/-- A report for somebody else. -/
theorem Fulfils.report
    (fulfils : Fulfils client start turn) (m : Message)
    (foreign : client ≠ m.clientId) (type : ReportType)
    (reason : Reject := .none) :
    Fulfils client start (turn.report m type reason) :=
  Blotter.Fulfils.concat fulfils fun own => absurd own.symm foreign

theorem afterFill_fulfils
    (sound : turn.engine.Sound slots)
    (fillOf : FillOf turn.engine c maker fill left)
    (sender : incoming.clientId = c.clientId) (foreign : client ≠ c.clientId)
    (sweeps : Sweeps start turn c left) (fulfils : Fulfils client start turn) :
    Fulfils client start (turn.afterFill c incoming maker fill left books) := by
  unfold Fulfils
  rw [afterFill_reports]
  refine Blotter.Fulfils.concat (Blotter.Fulfils.concat fulfils ?_) ?_
  · rintro rfl
    obtain ⟨r, _, allows⟩ := (sound.backed _ maker fillOf.found).allowed
    refine ⟨maker.terms, ?_, rfl, rfl, rfl, allows.side, ?_⟩
    · have shown : turn.batch.reports.foldl Blotter.read start = _ := sweeps
      rw [shown, Blotter.put_of_ne fun same => foreign same.1]
      exact sound.linked.blotter_of_found fillOf.found
    · exact (Nat.add_sub_of_le fillOf.enough).symm
  · intro own
    exact absurd (own.symm.trans sender) foreign

theorem Fills.fulfils
    {fills : List Fill} {after : Quantity}
    (executed : Fills slots c incoming turn left fills final after)
    (sound : turn.engine.Sound slots)
    (sender : incoming.clientId = c.clientId)
    (order : incoming.orderId = c.orderId) (foreign : client ≠ c.clientId)
    (sweeps : Sweeps start turn c left) (fulfils : Fulfils client start turn) :
    Fulfils client start final := by
  induction executed with
  | done => exact fulfils
  | next fillOf reshelved _ inductionHypothesis =>
      exact inductionHypothesis (afterFill_sound incoming sound fillOf reshelved)
        (afterFill_sweeps sound fillOf reshelved sender order sweeps)
        (afterFill_fulfils sound fillOf sender foreign sweeps fulfils)

theorem CancelTargets.own
    {engine : MatchingEngine} {ms : List Message}
    (targets : CancelTargets engine c ms) {m : Message} (member : m ∈ ms) :
    m.clientId = c.clientId := by
  cases targets with
  | one _ _ own _ _ => rw [List.mem_singleton.mp member, own]
  | all _ =>
      obtain ⟨entry, listed, rfl⟩ := List.mem_map.mp member
      have own := (List.mem_filter.mp listed).2
      simp only [decide_eq_true_eq] at own
      exact own.1

theorem Cancels.fulfils
    {request : Nat} {ms : List Message}
    (cancels : Cancels slots request turn ms final)
    (foreign : ∀ m ∈ ms, client ≠ m.clientId)
    (fulfils : Fulfils client start turn) : Fulfils client start final := by
  induction cancels with
  | done => exact fulfils
  | @next turn final m rest books _ _ _ inductionHypothesis =>
      refine inductionHypothesis
        (fun other member => foreign other (List.mem_cons_of_mem m member)) ?_
      have updated : Fulfils client start ((turn.withBooks books).update
          { m with requestId := request, remaining := 0 } .cancel) := fulfils
      exact updated.report { m with requestId := request, remaining := 0 }
        (foreign m List.mem_cons_self) .cancelled

theorem publishResidual_fulfils
    (fulfils : Fulfils client start turn) (m : Message)
    (foreign : client ≠ m.clientId) (leaves : Quantity) (restsHere : Bool) :
    Fulfils client start (turn.publishResidual m leaves restsHere) := by
  unfold publishResidual
  split
  · exact fulfils
  · split
    · exact fulfils.report { m with quantity := leaves, remaining := 0 } foreign
        .cancelled
    · exact fulfils

theorem Handled.fulfils
    (handled : Handled slots turn c final) (sound : turn.engine.Sound slots)
    (foreign : client ≠ c.clientId)
    (announces : Announces start turn turn.engine.ledger.blotter)
    (fulfils : Fulfils client start turn) : Fulfils client start final := by
  cases handled with
  | rejected _ => exact fulfils.report c foreign .rejected _
  | full =>
      have opened : Fulfils client start
          (turn.openPosition c.clientId c.instrumentId) := fulfils
      exact opened.report c foreign .rejected .capacity
  | cancelled targets cancels =>
      refine cancels.fulfils (fun m member own => foreign ?_) fulfils
      exact own.trans (targets.own member)
  | reduced _ _ _ _ _ _ =>
      unfold Fulfils
      rw [afterReduce_reports]
      exact Blotter.Fulfils.concat fulfils fun own => absurd own.symm foreign
  | @placed old r fills leaves books swept _ placement =>
      refine publishResidual_fulfils ?_ (turn.engine.incoming c) foreign _ _
      refine placement.executed.fulfils placement.entrySound rfl rfl foreign
        ?_ ?_
      · exact afterEntry_sweeps sound placement.enters placement.shelves
          placement.checked.command.quantityPos announces
      · unfold Fulfils
        rw [afterEntry_reports]
        exact Blotter.Fulfils.concat fulfils fun own => absurd own.symm foreign

end Turn

namespace MatchingEngine

variable {slots : Nat} {engine : MatchingEngine} {c : Message} {turn : Turn}
  {client : ClientId}

/-- What a client hears of a command of somebody else. -/
theorem Outcome.fulfils
    (outcome : Outcome slots engine c turn) (sound : engine.Sound slots)
    (foreign : client ≠ c.clientId) (notRetry : ¬ engine.Retries c) :
    Turn.Fulfils client engine.ledger.blotter turn := by
  have idle : ∀ start : MatchingEngine,
      Turn.Fulfils client engine.ledger.blotter ⟨start, {}⟩ := fun _ => trivial
  cases outcome with
  | refused _ => exact (idle engine).report c foreign .rejected _
  | status _ _ =>
      exact (idle engine).report
        { c with requestId := engine.lastRequest c.clientId } foreign .status
  | anonymous _ _ =>
      exact Turn.Fulfils.report ((idle engine).report c foreign .rejected _)
        c foreign .complete
  | retried retries => exact absurd retries notRetry
  | unsequenced _ _ _ _ _ =>
      exact Turn.Fulfils.report ((idle _).report c foreign .rejected _)
        c foreign .complete
  | @handled done _ handled =>
      have started : Turn.Fulfils client engine.ledger.blotter
          (engine.start c) := trivial
      have finished := handled.fulfils (start_sound sound c) foreign rfl started
      refine Turn.Fulfils.report finished (done.completion c) ?_ .complete
      rw [(completion_fields done c).1]
      exact foreign

/-- A client gets no order from the commands of others. -/
theorem Outcome.keeps_none
    (outcome : Outcome slots engine c turn) (sound : engine.Sound slots)
    (foreign : client ≠ c.clientId) {orderId : OrderId}
    (none : engine.ledger.blotter client orderId = none) :
    turn.engine.ledger.blotter client orderId = Option.none := by
  by_cases retries : engine.Retries c
  · rw [outcome.of_retries retries]
    exact none
  · have truthful : engine.Truthful client c := fun own =>
      absurd own.symm foreign
    rw [← outcome.announces sound retries truthful]
    exact (outcome.fulfils sound foreign retries).keeps_none none

end MatchingEngine

end LimitOrderBook
