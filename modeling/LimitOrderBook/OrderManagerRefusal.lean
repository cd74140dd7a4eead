import LimitOrderBook.OrderManagerMirror

namespace LimitOrderBook

/-!
# Refused commands and the client's own view

The terminal report of a refused command repeats the live order the command
names, except when the command is refused for its place in the sequence: then
it repeats the request, and the manager takes the `remaining` field of the
request for what is left of the order.
-/

namespace OrderManager

open MatchingEngine

variable {slots : Nat} {manager : OrderManager} {engine : MatchingEngine}
  {client : ClientId} {c : Message} {turn : Turn} {pool : PoolBytes}

/-- Writing what is left of an order changes nothing but another quantity. -/
theorem settle_eq_iff
    {orders : OrderedMap OrderId Message (· < ·)} {m : Message}
    (positive : ∀ order, orders.find? m.orderId = some order →
      order.quantity ≠ 0) :
    settle orders m = orders ↔
      ∀ order, orders.find? m.orderId = some order →
        order.quantity = m.remaining := by
  unfold settle
  cases found : orders.find? m.orderId with
  | none => simp
  | some order =>
      have some_left := positive order found
      simp only [Option.some.injEq, forall_eq']
      by_cases gone : m.remaining = 0
      · rw [if_pos gone, gone]
        refine iff_of_false ?_ some_left
        intro same
        have erased := congrArg (fun map => map.find? m.orderId) same
        simp [found] at erased
      · rw [if_neg gone]
        constructor
        · intro same
          have written := congrArg (fun map => map.find? m.orderId) same
          simp only [OrderedMap.find?_insert, if_true, found,
            Option.some.injEq] at written
          exact (congrArg Message.quantity written).symm
        · intro same
          rw [← same]
          exact OrderedMap.insert_of_find?_some found

/-- Every order of a mirror is a live order of the engine. -/
theorem Mirrors.live
    (mirrors : manager.Mirrors engine client) (sound : engine.Sound slots)
    {orderId : OrderId} {order : Message}
    (found : manager.orders.find? orderId = some order) :
    ∃ id m, engine.resting.find? id = some m ∧ m.clientId = client ∧
      m.orderId = orderId ∧ m.quantity = order.quantity := by
  have shown := mirrors.shows.orders orderId
  rw [found] at shown
  obtain ⟨id, m, stored, sameClient, sameOrder, sameTerms⟩ :=
    sound.linked.blotter_eq_some.mp shown.symm
  exact ⟨id, m, stored, sameClient, sameOrder,
    congrArg OrderTerms.quantity sameTerms⟩

/-- Every live order of the client is in its mirror. -/
theorem Mirrors.holds
    (mirrors : manager.Mirrors engine client) (sound : engine.Sound slots)
    {id : OrderId} {m : Message}
    (stored : engine.resting.find? id = some m) (own : m.clientId = client) :
    ∃ order, manager.orders.find? m.orderId = some order ∧
      order.quantity = m.quantity := by
  have shown := mirrors.shows.orders m.orderId
  rw [← own, sound.linked.blotter_of_found stored] at shown
  obtain ⟨order, found, sameTerms⟩ := Option.map_eq_some_iff.mp shown
  exact ⟨order, found, congrArg OrderTerms.quantity sameTerms⟩

/-- The orders and the positions of a manager stay as they are. -/
def SameView (manager later : OrderManager) : Prop :=
  later.orders = manager.orders ∧
    ∀ instrument, later.position instrument = manager.position instrument

/-- A rejection alone changes nothing but the number of the last report. -/
theorem consume_rejected
    (manager : OrderManager) {m : Message} (isRejection : m.report = .rejected) :
    manager.SameView (manager.consume m).1 := by
  unfold consume
  split
  · exact ⟨rfl, fun _ => rfl⟩
  · simp only [apply, isRejection]
    exact ⟨rfl, fun _ => rfl⟩

/-- A rejection followed by a terminal report. -/
theorem Mirrors.refusal
    (mirrors : manager.Mirrors engine client) (sound : engine.Sound slots)
    (c done : Message) (reason : Reject) (epoch : Nat) :
    manager.SameView (manager.consumeAll
        [c.asReport .rejected reason epoch (engine.responseSequence + 1),
          done.asReport .complete .none epoch
            (engine.responseSequence + 2)]) ↔
      ∀ order, manager.orders.find? done.orderId = some order →
        order.quantity = done.remaining := by
  have behind := mirrors.behind
  have first : ¬ manager.Stale (c.asReport .rejected reason epoch
      (engine.responseSequence + 1)) := by
    simp only [Stale, Message.asReport, not_or]
    exact ⟨by simp, by simp, by lia⟩
  have second : ¬ (manager.apply (c.asReport .rejected reason epoch
      (engine.responseSequence + 1))).Stale (done.asReport .complete .none
        epoch (engine.responseSequence + 2)) := by
    simp only [Stale, apply_lastReport, Message.asReport, not_or]
    exact ⟨by simp, by simp, by lia⟩
  have consumed : manager.consumeAll
      [c.asReport .rejected reason epoch (engine.responseSequence + 1),
        done.asReport .complete .none epoch (engine.responseSequence + 2)] =
      { manager with
        lastReport := engine.responseSequence + 2
        orders :=
          if done.orderId ≠ 0 then
            settle manager.orders (done.asReport .complete .none epoch
              (engine.responseSequence + 2))
          else
            manager.orders } := by
    rw [consumeAll_cons, consume_of_not_stale first, consumeAll_cons,
      consume_of_not_stale second, consumeAll_nil]
    by_cases named : done.orderId = 0
    · simp [apply, Message.asReport, named]
    · simp [apply, Message.asReport, named]
  have positive : ∀ order, manager.orders.find? done.orderId = some order →
      done.orderId ≠ 0 ∧ order.quantity ≠ 0 := by
    intro order found
    obtain ⟨id, m, stored, _, sameOrder, sameQuantity⟩ :=
      mirrors.live sound found
    rw [← sameOrder, ← sameQuantity]
    exact ⟨(sound.backed id m stored).named.2, (sound.positive stored).2⟩
  rw [consumed]
  refine (and_iff_left fun _ => rfl).trans ?_
  by_cases named : done.orderId = 0
  · rw [if_neg (not_not.mpr named)]
    exact iff_of_true rfl fun order found =>
      absurd named (positive order found).1
  · rw [if_pos named]
    exact settle_eq_iff fun order found => (positive order found).2

/-- The `remaining` field of a request against the orders of the mirror. -/
theorem Mirrors.not_misstates_iff
    (mirrors : manager.Mirrors engine c.clientId) (sound : engine.Sound slots) :
    (∀ order, manager.orders.find? c.orderId = some order →
        order.quantity = c.remaining) ↔
      ¬ engine.MisstatesLive c := by
  constructor
  · rintro stated ⟨id, m, stored, sameClient, sameOrder, differs⟩
    obtain ⟨order, found, sameQuantity⟩ := mirrors.holds sound stored sameClient
    rw [sameOrder] at found
    exact differs (sameQuantity.symm.trans (stated order found))
  · intro stated order found
    by_contra differs
    obtain ⟨id, m, stored, sameClient, sameOrder, sameQuantity⟩ :=
      mirrors.live sound found
    exact stated ⟨id, m, stored, sameClient, sameOrder,
      fun same => differs (sameQuantity.symm.trans same)⟩

/-- The terminal report of a well-sequenced command is true. -/
theorem Mirrors.completion_true
    (mirrors : manager.Mirrors engine c.clientId) (sound : engine.Sound slots)
    (same : turn.engine.ledger = engine.ledger) :
    ∀ order, manager.orders.find? (turn.completion c).orderId = some order →
      order.quantity = (turn.completion c).remaining := by
  have byClient : turn.engine.byClient = engine.byClient :=
    congrArg Ledger.byClient same
  have resting : turn.engine.resting = engine.resting :=
    congrArg Ledger.resting same
  intro order found
  have named : (turn.completion c).orderId = c.orderId := by
    unfold Turn.completion
    split <;> rfl
  rw [named] at found
  obtain ⟨id, m, stored, sameClient, sameOrder, sameQuantity⟩ :=
    mirrors.live sound found
  have indexed := sound.linked.find?_key stored
  rw [sameClient, sameOrder] at indexed
  have key : engine.byClient.find? (c.clientId, c.orderId) = some id := indexed
  simp [Turn.completion, byClient, resting, key, stored, sameQuantity]

/--
A refused command leaves the orders and the positions of its client's mirror as
they are, unless it is refused for its place in the sequence and its
`remaining` field differs from the quantity of the live order it names.
-/
theorem refusal_keeps_view_iff
    (reachable : Reachable pool engine)
    (mirrors : manager.Mirrors engine c.clientId)
    (processed : engine.process c = .ok turn)
    (rejected : ∃ m ∈ turn.batch.reports, m.report = .rejected) :
    manager.SameView (manager.consumeAll turn.batch.reports) ↔
      ¬ (engine.OutOfSequence c ∧ engine.MisstatesLive c) := by
  have sound := reachable.invariant.sound
  obtain ⟨outcome, _⟩ := reachable.outcome_of processed
  have unsequenced : engine.OutOfSequence c → ∀ reason,
      (manager.SameView (manager.consumeAll
          [c.asReport .rejected reason engine.epoch
            (engine.responseSequence + 1),
            c.asReport .complete .none engine.epoch
              (engine.responseSequence + 2)]) ↔
        ¬ (engine.OutOfSequence c ∧ engine.MisstatesLive c)) := by
    intro outOfSequence reason
    rw [mirrors.refusal sound, mirrors.not_misstates_iff sound]
    simp only [outOfSequence, true_and]
  cases outcome with
  | refused query =>
      refine iff_of_true (consume_rejected manager rfl) ?_
      rintro ⟨⟨business, _⟩, _⟩
      rcases query with notCommand | isSnapshot
      · exact notCommand business.1
      · exact business.2.1 isSnapshot
  | status _ _ =>
      obtain ⟨m, member, isRejection⟩ := rejected
      rw [List.mem_singleton.mp member] at isRejection
      cases isRejection
  | anonymous business anonymous =>
      refine unsequenced ⟨business, fun sequenced => ?_, fun retries => ?_⟩ _
      · exact not_or.mpr ⟨sequenced.client, sequenced.request⟩ anonymous
      · exact not_or.mpr ⟨retries.client, retries.request⟩ anonymous
  | retried retries =>
      rw [consumeAll_of_stale mirrors.answered]
      exact iff_of_true ⟨rfl, fun _ => rfl⟩
        fun outOfSequence => outOfSequence.1.2.2 retries
  | unsequenced business _ _ notNext notRetry =>
      exact unsequenced
        ⟨business, fun sequenced => notNext sequenced.next, notRetry⟩ _
  | @handled done sequenced handled =>
      refine iff_of_true ?_ fun outOfSequence => outOfSequence.1.2.1 sequenced
      have clean : (engine.start c).Unrejected := by
        intro m member
        cases member
      rcases handled.turnedDown_or_unrejected clean with turnedDown | carriedOut
      · cases turnedDown with
        | rejected _ =>
            exact (mirrors.refusal sound c _ _ engine.epoch).mpr
              (mirrors.completion_true sound rfl)
        | full =>
            exact (mirrors.refusal sound c _ _ engine.epoch).mpr
              (mirrors.completion_true sound rfl)
      · obtain ⟨m, member, isRejection⟩ := rejected
        exact absurd isRejection
          (carriedOut.report (done.completion c) (by decide) .none m member)

/--
A cancellation with a request number that is too high is refused, and the
client's manager forgets an order that the engine still holds.
-/
theorem refusal_forgets_live_order :
    ∃ (engine : MatchingEngine) (manager : OrderManager) (turn : Turn),
      Reachable .capacity engine ∧ manager.Mirrors engine 7 ∧
        engine.process
            { action := .cancel, clientId := 7, requestId := 5, orderId := 1
              instrumentId := 1 } = .ok turn ∧
        (∃ m ∈ turn.batch.reports, m.report = .rejected) ∧
        (turn.engine.resting.find? 1).map Message.terms =
          some ⟨1, .bid, 10, 5⟩ ∧
        (manager.orders.find? 1).map Message.terms =
          some ⟨1, .bid, 10, 5⟩ ∧
        (manager.consumeAll turn.batch.reports).orders.find? 1 = none ∧
        ¬ manager.SameView (manager.consumeAll turn.batch.reports) := by
  let order : Message :=
    { clientId := 7, requestId := 1, orderId := 1
      instrumentId := 1, price := 10, quantity := 5 }
  let cancel : Message :=
    { action := .cancel, clientId := 7, requestId := 5, orderId := 1
      instrumentId := 1 }
  let answers : List Message :=
    [{ order.asReport .accepted .none 1 1 with
        exchangeId := 1, remaining := 5 },
      { order.asReport .complete .none 1 2 with
        exchangeId := 1, remaining := 5 }]
  let refusal : List Message :=
    [cancel.asReport .rejected .sequence 1 3,
      cancel.asReport .complete .none 1 4]
  obtain ⟨first, processed, _, reachable⟩ := single_reachable.outcome order
  obtain ⟨second, refused, _, _⟩ := reachable.outcome cancel
  have evaluated : ((single.process order).map fun turn =>
      (turn.batch.addressedTo 7, ((turn.engine.process cancel).map fun next =>
        (next.batch.reports, (next.engine.resting.find? 1).map
          Message.terms)).toOption)).toOption =
      some (answers, some (refusal, some ⟨1, .bid, 10, 5⟩)) := by
    decide +kernel
  rw [processed] at evaluated
  simp only [Except.map, Except.toOption, Option.some.injEq, Prod.mk.injEq]
    at evaluated
  obtain ⟨answered, afterwards⟩ := evaluated
  rw [refused] at afterwards
  simp only [Option.some.injEq, Prod.mk.injEq] at afterwards
  obtain ⟨reports, kept⟩ := afterwards
  have started : Mirrors {} single 7 :=
    .start ⟨OrderedMap.empty.insert 1 {}, 1, rfl⟩ 7
  have mirrors := started.step single_reachable
    (InSequence.truthful fun _ _ =>
      Or.inl ⟨⟨rfl, by decide, by decide⟩, by decide, rfl⟩) processed
  rw [answered] at mirrors
  have held : ((({} : OrderManager).consumeAll answers).orders.find? 1).map
      Message.terms = some ⟨1, .bid, 10, 5⟩ := by decide +kernel
  have forgotten : ((({} : OrderManager).consumeAll answers).consumeAll
      refusal).orders.find? 1 = none := by decide +kernel
  refine ⟨first.engine, _, second, reachable, mirrors, refused, ?_, kept, held,
    ?_, ?_⟩
  · rw [reports]
    exact ⟨_, List.mem_cons_self, rfl⟩
  · rw [reports]
    exact forgotten
  · rw [reports]
    intro same
    rw [same.1] at forgotten
    rw [forgotten] at held
    cases held

/-- The same cancellation with the order's quantity as `remaining`. -/
theorem refusal_keeps_view_of_true_remaining :
    ∃ (engine : MatchingEngine) (manager : OrderManager) (turn : Turn),
      Reachable .capacity engine ∧ manager.Mirrors engine 7 ∧
        engine.process
            { action := .cancel, clientId := 7, requestId := 5, orderId := 1
              instrumentId := 1, remaining := 5 } = .ok turn ∧
        (∃ m ∈ turn.batch.reports, m.report = .rejected) ∧
        manager.SameView (manager.consumeAll turn.batch.reports) := by
  let order : Message :=
    { clientId := 7, requestId := 1, orderId := 1
      instrumentId := 1, price := 10, quantity := 5 }
  let cancel : Message :=
    { action := .cancel, clientId := 7, requestId := 5, orderId := 1
      instrumentId := 1, remaining := 5 }
  obtain ⟨first, processed, _, reachable⟩ := single_reachable.outcome order
  obtain ⟨second, refused, _, _⟩ := reachable.outcome cancel
  have evaluated : ((single.process order).map fun turn =>
      (turn.engine.resting.entries.map fun entry =>
        (entry.2.orderId, entry.2.quantity),
        ((turn.engine.process cancel).map fun next =>
          next.batch.reports.map Message.report).toOption)).toOption =
      some ([(1, 5)], some [.rejected, .complete]) := by
    decide +kernel
  rw [processed] at evaluated
  simp only [Except.map, Except.toOption, Option.some.injEq, Prod.mk.injEq]
    at evaluated
  obtain ⟨live, afterwards⟩ := evaluated
  rw [refused] at afterwards
  simp only [Option.some.injEq] at afterwards
  have started : Mirrors {} single 7 :=
    .start ⟨OrderedMap.empty.insert 1 {}, 1, rfl⟩ 7
  have mirrors := started.step single_reachable
    (InSequence.truthful fun _ _ =>
      Or.inl ⟨⟨rfl, by decide, by decide⟩, by decide, rfl⟩) processed
  have rejected : ∃ m ∈ second.batch.reports, m.report = .rejected :=
    List.mem_map.mp (by rw [afterwards]; exact List.mem_cons_self)
  refine ⟨first.engine, _, second, reachable, mirrors, refused, rejected, ?_⟩
  refine (refusal_keeps_view_iff reachable mirrors refused rejected).mpr ?_
  rintro ⟨_, id, m, stored, _, _, differs⟩
  have entry := List.mem_map_of_mem
    (f := fun entry : OrderId × Message => (entry.2.orderId, entry.2.quantity))
    (OrderedMap.mem_entries.mpr stored)
  rw [live, List.mem_singleton] at entry
  exact differs (congrArg Prod.snd entry)

end OrderManager

end LimitOrderBook
