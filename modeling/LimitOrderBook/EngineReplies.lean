import LimitOrderBook.EngineReports

namespace LimitOrderBook

/-!
# One terminal message for every request

Whatever way a request takes through the engine, its batch has exactly one
message that ends the answer, and that message goes to the sender.  Reports to
other clients never end anything.
-/

/-- The messages that end the answer to a request. -/
def Message.terminal (m : Message) : Bool :=
  decide (m.kind = .report ∧ (m.report = .complete ∨ m.report = .status) ∨
    m.kind = .snapshotEnd)

/-- A terminal message and the request whose answer it ends. -/
def Answers (c m : Message) : Prop :=
  if c.action = .snapshot then
    m.kind = .snapshotEnd
  else
    m.kind = .report ∧ m.clientId = c.clientId ∧
      if c.action = .status then
        m.report = .status
      else
        m.report = .complete ∧ m.requestId = c.requestId ∧
          m.orderId = c.orderId

/-- The answer to a request has one terminal message. -/
def Concludes (c : Message) (messages : List Message) : Prop :=
  ∃ m, messages.filter Message.terminal = [m] ∧ Answers c m

/-- The types of reports after which more of the answer follows. -/
def ReportType.goesOn (type : ReportType) : Bool :=
  decide (type ≠ .complete ∧ type ≠ .status)

/-- A report on the way to the answer. -/
structure Message.Interim (m : Message) : Prop where
  kind : m.kind = .report
  goesOn : m.report.goesOn = true

theorem Message.Interim.not_terminal {m : Message} (interim : m.Interim) :
    m.terminal = false := by
  have goesOn := interim.goesOn
  simp only [ReportType.goesOn, decide_eq_true_eq] at goesOn
  simp [Message.terminal, interim.kind, goesOn]

namespace Turn

variable {slots : Nat} {turn final : Turn} {c incoming : Message}
  {left after : Quantity}

/-- Nothing of the answer is terminal yet. -/
def Unanswered (turn : Turn) : Prop :=
  ∀ m ∈ turn.batch.reports, m.Interim

theorem Unanswered.concat
    (unanswered : turn.Unanswered) {added : Message}
    (reports : final.batch.reports = turn.batch.reports ++ [added])
    (interim : added.Interim) : final.Unanswered := by
  intro other member
  rw [reports] at member
  rcases List.mem_append.mp member with before | isLast
  · exact unanswered other before
  · rw [List.mem_singleton.mp isLast]
    exact interim

theorem Unanswered.reject
    (unanswered : turn.Unanswered) (c : Message) (reason : Reject) :
    (turn.reject c reason).Unanswered :=
  unanswered.concat rfl ⟨rfl, rfl⟩

/-- The business part of a command ends nothing. -/
theorem Handled.unanswered
    (handled : Handled slots turn c final) (unanswered : turn.Unanswered) :
    final.Unanswered := by
  have continues : Continues fun reports _ => ∀ m ∈ reports, m.Interim := by
    intro reports _ added interim kind notComplete notStatus _ m member
    rcases List.mem_append.mp member with before | isLast
    · exact interim m before
    · rw [List.mem_singleton.mp isLast]
      exact ⟨kind, by simp [ReportType.goesOn, notComplete, notStatus]⟩
  exact handled.continues continues unanswered

/-- The report after an unanswered turn is the only terminal one. -/
theorem Unanswered.concludes
    (unanswered : turn.Unanswered) {added : Message}
    (terminal : added.terminal = true) (answers : Answers c added)
    (reports : final.batch.reports = turn.batch.reports ++ [added]) :
    Concludes c final.batch.reports := by
  refine ⟨added, ?_, answers⟩
  have none : turn.batch.reports.filter Message.terminal = [] :=
    List.filter_eq_nil_iff.mpr fun m member => by
      simp [(unanswered m member).not_terminal]
  rw [reports, List.filter_append, none]
  simp [terminal]

end Turn

namespace MatchingEngine

variable {slots : Nat} {engine : MatchingEngine} {c : Message} {turn : Turn}
  {pool : PoolBytes}

/-- A completion answers the command it is built from. -/
theorem answers_complete
    (business : c.Business) {m : Message} (kind : m.kind = .report)
    (type : m.report = .complete) (client : m.clientId = c.clientId)
    (request : m.requestId = c.requestId) (order : m.orderId = c.orderId) :
    m.terminal = true ∧ Answers c m := by
  refine ⟨by simp [Message.terminal, kind, type], ?_⟩
  rw [Answers, if_neg business.2.1, if_neg business.2.2]
  exact ⟨kind, client, type, request, order⟩

theorem completion_fields (turn : Turn) (c : Message) :
    (turn.completion c).clientId = c.clientId ∧
      (turn.completion c).requestId = c.requestId ∧
      (turn.completion c).orderId = c.orderId := by
  unfold Turn.completion
  split
  · exact ⟨rfl, rfl, rfl⟩
  · exact ⟨rfl, rfl, rfl⟩

/-- The reports of a handled command. -/
theorem handled_concludes
    (sequenced : engine.WellSequenced c)
    (handled : Turn.Handled slots (engine.start c) c turn) :
    Concludes c (turn.finish c).batch.reports := by
  have started : (engine.start c).Unanswered := fun m member => by cases member
  obtain ⟨client, request, order⟩ := completion_fields turn c
  obtain ⟨terminal, answers⟩ := answers_complete sequenced.business
    (m := (turn.completion c).asReport .complete .none turn.engine.epoch
      (turn.engine.responseSequence + 1))
    rfl rfl client request order
  exact (handled.unanswered started).concludes terminal answers rfl

/-- The memory of a client answers its last command. -/
def CachesAnswers (engine : MatchingEngine) : Prop :=
  ∀ client, (engine.clientState client).lastRequest ≠ 0 →
    Concludes (engine.clientState client).lastCommand
      (engine.clientState client).cached

/-- Any request that is not a snapshot query is answered by one report. -/
theorem Outcome.concludes
    (outcome : Outcome slots engine c turn) (caches : engine.CachesAnswers)
    (command : c.kind = .command) (notSnapshot : c.action ≠ .snapshot) :
    Concludes c turn.batch.reports := by
  have silent : ∀ engine : MatchingEngine,
      Turn.Unanswered ⟨engine, {}⟩ := fun _ m member => by cases member
  -- a rejection and a completion, both built from the command
  have refused : ∀ (engine : MatchingEngine) (reason : Reject), c.Business →
      Concludes c ((Turn.reject ⟨engine, {}⟩ c reason).report c
        .complete).batch.reports := by
    intro engine reason business
    obtain ⟨terminal, answers⟩ := answers_complete business
      (m := c.asReport .complete .none engine.epoch
        (engine.responseSequence + 1 + 1)) rfl rfl rfl rfl rfl
    exact ((silent engine).reject c reason).concludes terminal answers rfl
  cases outcome with
  | refused isRefused =>
      rcases isRefused with notCommand | isSnapshot
      · exact absurd command notCommand
      · exact absurd isSnapshot notSnapshot
  | status _ isStatus =>
      refine (silent engine).concludes ?_ ?_ rfl
      · rfl
      · rw [Answers, if_neg notSnapshot, if_pos isStatus]
        exact ⟨rfl, rfl, rfl⟩
  | anonymous business _ => exact refused engine _ business
  | retried retries =>
      have known := caches c.clientId (fun none => retries.request (by
        rw [retries.sameRequest, lastRequest, none]))
      rw [← retries.sameCommand] at known
      exact known
  | unsequenced business _ _ _ _ => exact refused _ _ business
  | handled sequenced handled => exact handled_concludes sequenced handled

theorem Reachable.cachesAnswers
    (reachable : Reachable pool engine) : engine.CachesAnswers := by
  intro client asked
  refine (reachable.memory (fun _ => Concludes) ?_
    (fun _ _ _ _ _ _ _ _ held => held) client asked).2
  intro engine c turn reachable sequenced processed
  obtain ⟨outcome, _⟩ := reachable.outcome_of processed
  obtain ⟨done, handled, rfl⟩ := outcome.handled_of_sequenced sequenced
  obtain ⟨m, only, answers⟩ := handled_concludes sequenced handled
  refine ⟨m, ?_, answers⟩
  have own : m.clientId = c.clientId := by
    rw [Answers, if_neg sequenced.business.2.1] at answers
    exact answers.2.1
  rw [Batch.addressedTo, List.filter_comm, only]
  simp [own]

/-- The memory of a client holds reports. -/
def CachesReports (engine : MatchingEngine) : Prop :=
  ∀ client, ∀ m ∈ (engine.clientState client).cached, m.kind = .report

/-- The reports of a call are reports, also when they come from memory. -/
theorem Outcome.reports_kind
    (outcome : Outcome slots engine c turn) (caches : engine.CachesReports) :
    ∀ m ∈ turn.batch.reports, m.kind = .report := by
  by_cases retries : engine.Retries c
  · rw [outcome.of_retries retries]
    exact caches c.clientId
  · exact (outcome.stamps retries).kinds

theorem Reachable.cachesReports
    (reachable : Reachable pool engine) : engine.CachesReports :=
  reachable.caches fun outcome held _ m member =>
    outcome.reports_kind held m (List.mem_filter.mp member).1

/-- A row of a snapshot. -/
structure Row (m : Message) : Prop where
  kind : m.kind = .snapshotBegin ∨ m.kind = .snapshotOrder ∨
    m.kind = .snapshotEnd
  client : m.clientId = 0
  request : m.requestId = 0
  order : m.orderId = 0

/-- The rows between the first and the last one. -/
theorem mem_orderRows
    (engine : MatchingEngine) {m : Message}
    (member : m ∈ engine.books.entries.flatMap
      (bookRows engine.epoch engine.sequence)) :
    m.kind = .snapshotOrder ∧ Row m := by
  obtain ⟨entry, _, inBook⟩ := List.mem_flatMap.mp member
  obtain ⟨level, _, inLevel⟩ := List.mem_flatMap.mp inBook
  obtain ⟨order, _, rfl⟩ := List.mem_map.mp inLevel
  exact ⟨rfl, Or.inr (Or.inl rfl), rfl, rfl, rfl⟩

theorem snapshot_row
    (engine : MatchingEngine) {m : Message} (member : m ∈ engine.snapshot) :
    Row m := by
  rcases List.mem_append.mp member with before | isLast
  · rcases List.mem_append.mp before with isFirst | between
    · rw [List.mem_singleton.mp isFirst]
      exact ⟨Or.inl rfl, rfl, rfl, rfl⟩
    · exact (mem_orderRows engine between).2
  · rw [List.mem_singleton.mp isLast]
    exact ⟨Or.inr (Or.inr rfl), rfl, rfl, rfl⟩

/-- The last row ends the answer to a snapshot query. -/
theorem snapshot_concludes
    (engine : MatchingEngine) (isSnapshot : c.action = .snapshot) :
    Concludes c engine.snapshot := by
  refine ⟨{ engine.envelope with kind := .snapshotEnd }, ?_, ?_⟩
  · have between : (engine.books.entries.flatMap
        (bookRows engine.epoch engine.sequence)).filter
        Message.terminal = [] :=
      List.filter_eq_nil_iff.mpr fun m member => by
        simp [Message.terminal, (mem_orderRows engine member).1]
    rw [snapshot, List.filter_append, List.filter_append, between]
    rfl
  · rw [Answers, if_pos isSnapshot]

end MatchingEngine

end LimitOrderBook
