import LimitOrderBook.FeedBooks
import LimitOrderBook.OrderBookRefinement

namespace LimitOrderBook.Feed

/-!
# What an event changes

An event is read against the routes of its own venue and channel and nothing
else.  What it does is a change: nothing, the clearing of the channel, or one
call on one core book together with the routes it writes.  On sound books
`apply` succeeds exactly when there is a change that can be performed, and then
performs it.  All results about whole streams go through this form.
-/

/-- What an event does to the books and routes of its venue and channel. -/
inductive Change where
  | nothing
  | clear
  | order (book : BookKey) (made : BookCall)
      (writes : List (OrderId × Option Tracked))

/-- The routes of one venue and channel. -/
abbrev Lookup := OrderId → Option Tracked

def Lookup.write (find : Lookup) (write : OrderId × Option Tracked) : Lookup :=
  fun orderId => if orderId = write.1 then write.2 else find orderId

def Lookup.writeAll (find : Lookup)
    (writes : List (OrderId × Option Tracked)) : Lookup :=
  writes.foldl Lookup.write find

/-- The route of an order as the core shows it. -/
def Tracked.view (orderId : OrderId) (tracked : Tracked) : OrderView :=
  ⟨orderId, tracked.side, tracked.price, tracked.quantity⟩

/-- The orders that the routes place in a book. -/
def Lookup.shown (find : Lookup) (book : BookKey) (orderId : OrderId) :
    Option OrderView :=
  ((find orderId).filter fun tracked => decide (tracked.book = book)).map
    (Tracked.view orderId)

/-- The routes of a channel lead to books of that channel. -/
def Lookup.Placed (find : Lookup) (venue : Text) (channel : Nat) : Prop :=
  ∀ orderId tracked, find orderId = some tracked →
    tracked.book.venue = venue ∧ tracked.book.channel = channel

namespace Change

/-- The change of an addition. -/
def ofAdd (find : Lookup) (venue : Text) (e : Event) : Option Change :=
  let book : BookKey := ⟨venue, e.channel, e.symbol⟩
  if e.symbol ≠ [] ∧ find e.orderId = none ∧ 0 < e.price ∧ 0 < e.quantity then
    some (.order book (.add {} ⟨e.orderId, e.side, e.price, e.quantity⟩)
      [(e.orderId, some ⟨book, e.side, e.price, e.quantity⟩)])
  else
    none

/-- The change of a decrement. -/
def ofDecrement (e : Event) (old : Tracked) : Option Change :=
  if 0 < e.quantity ∧ e.quantity ≤ old.quantity then
    some (.order old.book (.execute ⟨e.orderId, e.quantity⟩)
      [(e.orderId,
        if old.quantity - e.quantity = 0 then none
        else some { old with quantity := old.quantity - e.quantity })])
  else
    none

/-- The change of an execution that names what remains. -/
def ofExecuteRemaining (e : Event) (old : Tracked) : Option Change :=
  if 0 < e.quantity ∧ e.remaining ≤ 2 ^ 32 - 1 then
    if e.remaining = 0 then
      some (.order old.book (.cancel ⟨e.orderId⟩) [(e.orderId, none)])
    else
      some (.order old.book
        (.replace {} e.orderId ⟨e.orderId, old.side, old.price, e.remaining⟩
          true)
        [(e.orderId, some { old with quantity := e.remaining })])
  else
    none

/-- The change of a replacement. -/
def ofReplace (find : Lookup) (e : Event) (old : Tracked) : Option Change :=
  let tracked := { old with price := e.price, quantity := e.quantity }
  if (e.newOrderId = e.orderId ∨ find e.newOrderId = none) ∧
      (0 < e.price ∧ 0 < e.quantity) ∧
      (e.maintainPriority = false ∨
        e.newOrderId = e.orderId ∧ e.price = old.price) then
    some (.order old.book
      (.replace {} e.orderId ⟨e.newOrderId, old.side, e.price, e.quantity⟩
        e.maintainPriority)
      (if e.newOrderId = e.orderId then
        [(e.orderId, some tracked)]
      else
        [(e.newOrderId, some tracked), (e.orderId, none)]))
  else
    none

/-- The change of an event on a known order. -/
def ofKnown (find : Lookup) (e : Event) (old : Tracked) : Option Change :=
  match e.type with
  | .delete =>
      some (.order old.book (.cancel ⟨e.orderId⟩) [(e.orderId, none)])
  | .reduce | .execute => ofDecrement e old
  | .executeRemaining => ofExecuteRemaining e old
  | .replace => ofReplace find e old
  | _ => none

/-- The change of an event, read against the routes of its channel. -/
def ofEvent (find : Lookup) (venue : Text) (e : Event) : Option Change :=
  if venue = [] then
    none
  else
    match e.type with
    | .metadata | .directory | .trade => some .nothing
    | .clear => some .clear
    | .add => ofAdd find venue e
    | _ =>
        (find e.orderId).bind fun old =>
          if e.symbol = [] ∨ old.book.symbol = e.symbol then
            ofKnown find e old
          else
            none

/--
A call that goes with its writes: both stay within one book, and what the call
does to the orders of a reference is what the writes do to the routes.
-/
structure Paired
    (find : Lookup) (book : BookKey) (made : BookCall)
    (writes : List (OrderId × Option Tracked)) : Prop where
  within : ∀ write ∈ writes, ∀ tracked,
    find write.1 = some tracked ∨ write.2 = some tracked → tracked.book = book
  follows : ∀ reference : Reference,
    (∀ orderId, reference.order orderId = find.shown book orderId) →
    (reference.call made).2 = .ok →
    ∀ orderId, (reference.call made).1.order orderId =
      (find.writeAll writes).shown book orderId

end Change

end LimitOrderBook.Feed

/-! ## What the calls do to the orders of a reference -/

namespace LimitOrderBook.Reference

variable {reference : Reference}

@[simp] theorem order_arrive
    (reference : Reference) (event : AddOrder) (orderId : OrderId) :
    (reference.arrive event).order orderId =
      if orderId = event.orderId then
        some ⟨event.orderId, event.side, event.price, event.quantity⟩
      else
        reference.order orderId := by
  simp only [Reference.order, arrive, OrderedMap.find?_insert]
  split_ifs with same
  · rw [same]
    rfl
  · rfl

@[simp] theorem order_remove
    (reference : Reference) (removed orderId : OrderId) :
    (reference.remove removed).order orderId =
      if orderId = removed then none else reference.order orderId := by
  simp only [Reference.order, remove, OrderedMap.find?_erase]
  split_ifs <;> rfl

@[simp] theorem order_setRemaining
    (reference : Reference) (changed orderId : OrderId)
    (order : ReferenceOrder) (quantity : Quantity) :
    (reference.setRemaining changed order quantity).order orderId =
      if orderId = changed then
        some ⟨changed, order.side, order.price, quantity⟩
      else
        reference.order orderId := by
  simp only [Reference.order, setRemaining, OrderedMap.find?_insert]
  split_ifs with same
  · rw [same]
    rfl
  · rfl

theorem add_ok {event : AddOrder} (ok : (reference.add event).2 = .ok) :
    reference.add event = (reference.arrive event, .ok) := by
  unfold add at ok ⊢
  split_ifs at ok ⊢
  rfl

theorem cancel_ok
    {orderId : OrderId} (ok : (reference.cancel orderId).2 = .ok) :
    reference.cancel orderId = (reference.remove orderId, .ok) := by
  unfold cancel at ok ⊢
  split at ok
  · cases ok
  · rfl

theorem execute_ok
    {orderId : OrderId} {quantity : Quantity}
    (ok : (reference.execute orderId quantity).2 = .ok) :
    ∃ order, reference.orders.find? orderId = some order ∧
      quantity ≤ order.remaining ∧
      reference.execute orderId quantity =
        (if order.remaining = quantity then reference.remove orderId
          else reference.setRemaining orderId order
            (order.remaining - quantity), .ok) := by
  unfold execute at ok ⊢
  cases found : reference.orders.find? orderId with
  | none => simp [found] at ok
  | some order =>
      simp only [found] at ok ⊢
      split_ifs at ok ⊢ with isZero tooMuch all
      · exact ⟨order, rfl, Nat.not_lt.mp tooMuch, by rw [if_pos all]⟩
      · exact ⟨order, rfl, Nat.not_lt.mp tooMuch, by rw [if_neg all]⟩

theorem replace_ok
    {oldId : OrderId} {next : AddOrder} {maintainPriority : Bool}
    (ok : (reference.replace oldId next maintainPriority).2 = .ok) :
    ∃ old, reference.orders.find? oldId = some old ∧
      (maintainPriority = true →
        next.price = old.price ∧ next.orderId = oldId) ∧
      next.side = old.side ∧
      reference.replace oldId next maintainPriority =
        (if maintainPriority then
            reference.setRemaining oldId old next.quantity
          else (reference.remove oldId).arrive next, .ok) := by
  unfold replace at ok ⊢
  cases found : reference.orders.find? oldId with
  | none => simp [found] at ok
  | some old =>
      simp only [found] at ok ⊢
      split_ifs at ok ⊢ with noQuantity noPrice otherSide used keeps moves
      · have kept : next.price = old.price ∧ next.orderId = oldId := by
          simpa [not_or] using moves
        exact ⟨old, rfl, fun _ => kept, by simpa using otherSide, rfl⟩
      · exact ⟨old, rfl, fun isTrue => absurd isTrue keeps,
          by simpa using otherSide, rfl⟩

end LimitOrderBook.Reference

namespace LimitOrderBook.Feed

/-! ## Every change pairs its call with its writes -/

variable {find : Lookup} {book : BookKey} {venue : Text} {e : Event}

theorem Lookup.shown_write
    (find : Lookup) (write : OrderId × Option Tracked) (book : BookKey)
    (orderId : OrderId) :
    (find.write write).shown book orderId =
      if orderId = write.1 then
        (write.2.filter fun tracked => decide (tracked.book = book)).map
          (Tracked.view orderId)
      else
        find.shown book orderId := by
  simp only [shown, Lookup.write]
  split_ifs <;> rfl

theorem Lookup.shown_routed
    {orderId : OrderId} {tracked : Tracked}
    (found : find orderId = some tracked) :
    find.shown tracked.book orderId = some (tracked.view orderId) := by
  simp [shown, found, Option.filter]

/-- A route after some writes is one of them or was there before. -/
theorem Lookup.writeAll_cases
    (find : Lookup) (writes : List (OrderId × Option Tracked))
    (orderId : OrderId) :
    find.writeAll writes orderId = find orderId ∨
      ∃ write ∈ writes, write.1 = orderId ∧
        find.writeAll writes orderId = write.2 := by
  induction writes generalizing find with
  | nil => exact Or.inl rfl
  | cons write rest inductionHypothesis =>
      rcases inductionHypothesis (find.write write) with
        kept | ⟨later, member, same, value⟩
      · by_cases here : orderId = write.1
        · refine Or.inr ⟨write, by simp, here.symm, ?_⟩
          exact kept.trans (by simp [Lookup.write, here])
        · exact Or.inl (kept.trans (by simp [Lookup.write, here]))
      · exact Or.inr ⟨later, List.mem_cons_of_mem _ member, same, value⟩

/-- Writes that a test hides, old and new, do not change what it shows. -/
theorem Lookup.filter_writeAll
    {find : Lookup} {writes : List (OrderId × Option Tracked)}
    {test : Tracked → Bool}
    (hidden : ∀ write ∈ writes, ∀ tracked,
      find write.1 = some tracked ∨ write.2 = some tracked →
        test tracked = false)
    (orderId : OrderId) :
    (find.writeAll writes orderId).filter test =
      (find orderId).filter test := by
  rcases find.writeAll_cases writes orderId with
    kept | ⟨write, member, rfl, value⟩
  · rw [kept]
  · have old : (find write.1).filter test = none :=
      Option.filter_eq_none_iff.mpr fun tracked isOld => by
        simp [hidden write member tracked (Or.inl isOld)]
    have new : write.2.filter test = none :=
      Option.filter_eq_none_iff.mpr fun tracked isNew => by
        simp [hidden write member tracked (Or.inr isNew)]
    rw [value, new, old]

namespace Change

variable {made : BookCall} {writes : List (OrderId × Option Tracked)}

/-- The writes of a change leave the orders of other books alone. -/
theorem Paired.shown_other
    (paired : Paired find book made writes) {other : BookKey}
    (apart : other ≠ book) (orderId : OrderId) :
    (find.writeAll writes).shown other orderId =
      find.shown other orderId := by
  refine congrArg (Option.map _) (Lookup.filter_writeAll ?_ orderId)
  intro write member tracked written
  rw [paired.within write member tracked written, decide_eq_false_iff_not]
  exact apart.symm

theorem Paired.placed
    (paired : Paired find book made writes) {venue : Text} {channel : Nat}
    (placed : find.Placed venue channel)
    (sameVenue : book.venue = venue) (sameChannel : book.channel = channel) :
    (find.writeAll writes).Placed venue channel := by
  intro orderId tracked found
  rcases find.writeAll_cases writes orderId with
    kept | ⟨write, member, _, value⟩
  · exact placed orderId tracked (kept ▸ found)
  · rw [paired.within write member tracked (Or.inr (value ▸ found))]
    exact ⟨sameVenue, sameChannel⟩

theorem paired_add
    {price quantity : Nat} {orderId : OrderId} {side : Side}
    (unused : find orderId = none) :
    Paired find book (.add {} ⟨orderId, side, price, quantity⟩)
      [(orderId, some ⟨book, side, price, quantity⟩)] where
  within write member tracked placed := by
    rw [List.mem_singleton.mp member, unused] at placed
    rcases placed with isOld | isNew
    · cases isOld
    · cases isNew
      rfl
  follows reference same ok other := by
    have added := Reference.add_ok ok
    simp only [Reference.call, added, Reference.order_arrive,
      Lookup.writeAll, List.foldl_cons, List.foldl_nil, Lookup.shown_write,
      same]
    split_ifs with here
    · rw [here]
      simp [Option.filter, Tracked.view]
    · rfl

/-- A write to a route of the book. -/
theorem within_known
    {orderId : OrderId} {old : Tracked} {value : Option Tracked}
    (found : find orderId = some old)
    (kept : ∀ tracked, value = some tracked → tracked.book = old.book) :
    ∀ write ∈ [(orderId, value)], ∀ tracked,
      find write.1 = some tracked ∨ write.2 = some tracked →
        tracked.book = old.book := by
  intro write member tracked placed
  rw [List.mem_singleton.mp member, found] at placed
  rcases placed with isOld | isNew
  · cases isOld
    rfl
  · exact kept tracked isNew

theorem paired_cancel
    {orderId : OrderId} {old : Tracked} (found : find orderId = some old) :
    Paired find old.book (.cancel ⟨orderId⟩) [(orderId, none)] where
  within := within_known found nofun
  follows reference same ok other := by
    have cancelled := Reference.cancel_ok ok
    simp only [Reference.call, cancelled, Reference.order_remove,
      Lookup.writeAll, List.foldl_cons, List.foldl_nil, Lookup.shown_write,
      same]
    rfl

/-- The order a reference holds for a route. -/
theorem stored_eq
    {reference : Reference} {orderId : OrderId} {old : Tracked}
    {order : ReferenceOrder} (found : find orderId = some old)
    (same : ∀ orderId, reference.order orderId = find.shown old.book orderId)
    (stored : reference.orders.find? orderId = some order) :
    order.side = old.side ∧ order.price = old.price ∧
      order.remaining = old.quantity := by
  have shown := same orderId
  rw [Lookup.shown_routed found, Reference.order, stored, Option.map_some,
    Option.some.injEq] at shown
  simpa [Reference.view, Tracked.view] using shown

theorem paired_execute
    {orderId : OrderId} {old : Tracked} {quantity : Quantity}
    (found : find orderId = some old) :
    Paired find old.book (.execute ⟨orderId, quantity⟩)
      [(orderId, if old.quantity - quantity = 0 then none
        else some { old with quantity := old.quantity - quantity })] where
  within := within_known found fun tracked isSome => by
    split_ifs at isSome
    cases isSome
    rfl
  follows reference same ok other := by
    obtain ⟨order, stored, enough, executed⟩ := Reference.execute_ok ok
    obtain ⟨side, price, remaining⟩ := stored_eq found same stored
    simp only [Reference.call, executed, Lookup.writeAll, List.foldl_cons,
      List.foldl_nil, Lookup.shown_write]
    by_cases all : order.remaining = quantity
    · have none_left : old.quantity - quantity = 0 := by lia
      simp [all, none_left, same]
    · have some_left : old.quantity - quantity ≠ 0 := by lia
      simp only [all, some_left, if_false, Reference.order_setRemaining, same]
      split_ifs with here
      · rw [here]
        simp [Option.filter, Tracked.view, side, price, remaining]
      · rfl

theorem paired_replace
    {orderId newId : OrderId} {old : Tracked} {price quantity : Nat}
    {maintainPriority : Bool} (found : find orderId = some old)
    (unused : newId = orderId ∨ find newId = none)
    (keeps : maintainPriority = false ∨
      newId = orderId ∧ price = old.price) :
    let tracked := { old with price := price, quantity := quantity }
    Paired find old.book
      (.replace {} orderId ⟨newId, old.side, price, quantity⟩
        maintainPriority)
      (if newId = orderId then [(orderId, some tracked)]
        else [(newId, some tracked), (orderId, none)]) := by
  intro tracked
  have placedTracked :
      (Option.filter (fun tracked : Tracked =>
        decide (tracked.book = old.book)) (some tracked)).map
          (Tracked.view newId) =
        some ⟨newId, old.side, price, quantity⟩ := by
    simp [Option.filter, Tracked.view, tracked]
  -- Either branch of the core's replacement leaves the same orders behind.
  have followed :
      ∀ reference : Reference,
        (∀ orderId, reference.order orderId =
          find.shown old.book orderId) →
        (reference.call (.replace {} orderId
          ⟨newId, old.side, price, quantity⟩ maintainPriority)).2 = .ok →
        ∀ other, (reference.call (.replace {} orderId
          ⟨newId, old.side, price, quantity⟩ maintainPriority)).1.order
            other =
          if other = newId then some ⟨newId, old.side, price, quantity⟩
          else if other = orderId then none
          else find.shown old.book other := by
    intro reference same ok other
    obtain ⟨order, stored, kept, _, replaced⟩ := Reference.replace_ok ok
    obtain ⟨side, oldPrice, _⟩ := stored_eq found same stored
    simp only [Reference.call, replaced]
    cases maintainPriority with
    | true =>
        obtain ⟨keptPrice, keptId⟩ := kept rfl
        simp only at keptPrice keptId
        simp only [if_true, Reference.order_setRemaining, same, keptId, side,
          keptPrice]
        split_ifs <;> rfl
    | false =>
        simp [same]
  split_ifs with sameId
  · refine ⟨within_known found fun _ isSome => by
      cases isSome
      rfl, ?_⟩
    intro reference same ok other
    rw [followed reference same ok other]
    simp only [Lookup.writeAll, List.foldl_cons, List.foldl_nil,
      Lookup.shown_write, sameId]
    split_ifs with here
    · rw [here, ← sameId, placedTracked]
    · rfl
  · have free : find newId = none := unused.resolve_left sameId
    refine ⟨?_, ?_⟩
    · intro write member other placed
      rcases List.mem_cons.mp member with isNew | isOld
      · rw [isNew, free] at placed
        rcases placed with impossible | isTracked
        · cases impossible
        · cases isTracked
          rfl
      · have erased : ∀ tracked : Tracked,
            none = some tracked → tracked.book = old.book := by
          intro tracked impossible
          cases impossible
        exact within_known found erased write isOld other placed
    · intro reference same ok other
      rw [followed reference same ok other]
      simp only [Lookup.writeAll, List.foldl_cons, List.foldl_nil,
        Lookup.shown_write]
      by_cases isNew : other = newId
      · have notOld : other ≠ orderId := fun isOld => sameId (isNew ▸ isOld)
        rw [if_pos isNew, if_neg notOld, if_pos isNew, isNew, placedTracked]
      · rw [if_neg isNew, if_neg isNew]
        rfl

/-- A change of a known order calls its book. -/
theorem paired_ofKnown
    {old : Tracked} {made : BookCall}
    {writes : List (OrderId × Option Tracked)}
    (found : find e.orderId = some old)
    (changed : ofKnown find e old = some (.order book made writes)) :
    book = old.book ∧ Paired find book made writes := by
  have decrement (isDecrement : ofDecrement e old =
      some (.order book made writes)) :
      book = old.book ∧ Paired find book made writes := by
    obtain ⟨_, same⟩ := Option.ite_none_right_eq_some.mp isDecrement
    cases same
    exact ⟨rfl, paired_execute found⟩
  unfold ofKnown at changed
  split at changed
  · cases changed
    exact ⟨rfl, paired_cancel found⟩
  · exact decrement changed
  · exact decrement changed
  · obtain ⟨_, same⟩ := Option.ite_none_right_eq_some.mp changed
    split_ifs at same
    · cases same
      exact ⟨rfl, paired_cancel found⟩
    · cases same
      have kept : Paired find old.book
          (.replace {} e.orderId
            ⟨e.orderId, old.side, old.price, e.remaining⟩ true) _ :=
        paired_replace found (Or.inl rfl) (Or.inr ⟨rfl, rfl⟩)
      rw [if_pos rfl] at kept
      exact ⟨rfl, kept⟩
  · obtain ⟨⟨unused, _, keeps⟩, same⟩ :=
      Option.ite_none_right_eq_some.mp changed
    cases same
    exact ⟨rfl, paired_replace found unused keeps⟩
  · cases changed

/-- Every change of an event pairs a call on a book of its channel. -/
theorem paired_ofEvent
    {made : BookCall} {writes : List (OrderId × Option Tracked)}
    (placed : find.Placed venue e.channel)
    (changed : ofEvent find venue e = some (.order book made writes)) :
    book.venue = venue ∧ book.channel = e.channel ∧
      Paired find book made writes := by
  obtain ⟨_, changed⟩ := Option.ite_none_left_eq_some.mp changed
  split at changed
  · cases changed
  · cases changed
  · cases changed
  · cases changed
  · obtain ⟨⟨_, unused, _⟩, same⟩ :=
      Option.ite_none_right_eq_some.mp changed
    cases same
    exact ⟨rfl, rfl, paired_add unused⟩
  · obtain ⟨old, found, changed⟩ := Option.bind_eq_some_iff.mp changed
    obtain ⟨_, known⟩ := Option.ite_none_right_eq_some.mp changed
    obtain ⟨rfl, paired⟩ := paired_ofKnown found known
    obtain ⟨sameVenue, sameChannel⟩ := placed _ _ found
    exact ⟨sameVenue, sameChannel, paired⟩

end Change

end LimitOrderBook.Feed
