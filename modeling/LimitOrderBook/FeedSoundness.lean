import LimitOrderBook.FeedChanges

namespace LimitOrderBook.Feed.Books

/-!
# Sound books

Books are sound when, channel by channel, the routes of selected symbols and
the orders of the core books are the same orders.  On sound books `apply` is
the performing of the event's change, and performing a change keeps them
sound.
-/

variable {books : Books} {venue : Text} {channel : Nat} {e : Event}

/-- The routes of a venue and channel. -/
def route (books : Books) (venue : Text) (channel : Nat) : Lookup :=
  fun orderId => books.orders.find? ⟨venue, channel, orderId⟩

/-- The core book of a key; a book that does not exist yet is a new one. -/
def core (books : Books) (key : BookKey) : OrderBook :=
  (books.books.find? key).getD books.newBook

/-! ## Performing a change -/

def writeRoute (venue : Text) (channel : Nat) (orders : Routes)
    (write : OrderId × Option Tracked) : Routes :=
  match write.2 with
  | none => orders.erase ⟨venue, channel, write.1⟩
  | some tracked => orders.insert ⟨venue, channel, write.1⟩ tracked

/-- Price and quantity are in the range of the core's types. -/
def Represented (price quantity : Nat) : Prop :=
  (0 < price ∧ price ≤ 2 ^ 32 - 1) ∧ 0 < quantity ∧ quantity ≤ 2 ^ 32 - 1

instance (price quantity : Nat) : Decidable (Represented price quantity) :=
  inferInstanceAs (Decidable (_ ∧ _))

/-- A call whose numbers the core can take. -/
def InRange : BookCall → Prop
  | .add _ event => Represented event.price event.quantity
  | .cancel _ => True
  | .execute event => event.quantity < 2 ^ 32
  | .replace _ _ next _ => Represented next.price next.quantity
  | .reset => True

instance : DecidablePred InRange
  | .add _ _ => inferInstanceAs (Decidable (Represented _ _))
  | .cancel _ => inferInstanceAs (Decidable True)
  | .execute event => inferInstanceAs (Decidable (event.quantity < 2 ^ 32))
  | .replace _ _ _ _ => inferInstanceAs (Decidable (Represented _ _))
  | .reset => inferInstanceAs (Decidable True)

def withRoutes (books : Books) (venue : Text) (channel : Nat)
    (writes : List (OrderId × Option Tracked)) : Books :=
  { books with
    orders := writes.foldl (writeRoute venue channel) books.orders }

def withCore (books : Books) (key : BookKey) (core : OrderBook) : Books :=
  { books with books := books.books.insert key core }

/-- Drop every route and book of a channel. -/
def cleared (books : Books) (venue : Text) (channel : Nat) : Books :=
  { books with
    orders := books.orders.eraseIf fun key =>
      decide (key.venue = venue ∧ key.channel = channel)
    books := books.books.eraseIf fun key =>
      decide (key.venue = venue ∧ key.channel = channel) }

/-- Carry a change out, or fail on the call it needs. -/
def perform (books : Books) (venue : Text) (channel : Nat) :
    Change → Option Books
  | .nothing => some books
  | .clear => some (books.cleared venue channel)
  | .order key made writes =>
      let routed := books.withRoutes venue channel writes
      if books.selected key.symbol then
        if InRange made ∧ ((books.core key).call made).2 = .ok then
          some
            { routed.withCore key ((books.core key).call made).1 with
              updates := books.updates + 1 }
        else
          none
      else
        some routed

/-- A write of the order table changes the routes of its channel. -/
theorem route_writeRoute
    (books : Books) (write : OrderId × Option Tracked) (other : Text)
    (otherChannel : Nat) :
    { books with
      orders := writeRoute venue channel books.orders write }.route other
        otherChannel =
      if other = venue ∧ otherChannel = channel then
        (books.route other otherChannel).write write
      else
        books.route other otherChannel := by
  funext orderId
  obtain ⟨written, value⟩ := write
  by_cases here : other = venue ∧ otherChannel = channel
  · obtain ⟨rfl, rfl⟩ := here
    cases value <;> simp [route, writeRoute, Lookup.write]
  · have apart : (⟨other, otherChannel, orderId⟩ : OrderKey) ≠
        ⟨venue, channel, written⟩ := by
      intro same
      cases same
      exact here ⟨rfl, rfl⟩
    rw [if_neg here]
    cases value <;> simp [route, writeRoute, apart]

/-- Several writes do so one after another. -/
theorem route_withRoutes
    (books : Books) (venue other : Text) (channel otherChannel : Nat)
    (writes : List (OrderId × Option Tracked)) :
    (books.withRoutes venue channel writes).route other otherChannel =
      if other = venue ∧ otherChannel = channel then
        (books.route other otherChannel).writeAll writes
      else
        books.route other otherChannel := by
  induction writes generalizing books with
  | nil => simp [Lookup.writeAll, withRoutes]
  | cons write rest inductionHypothesis =>
      have step := inductionHypothesis
        { books with orders := writeRoute venue channel books.orders write }
      rw [route_writeRoute] at step
      refine step.trans ?_
      split_ifs
      · rfl
      · rfl

/-! ## Soundness -/

/-- A book that calls on a new book of so many slots have led to. -/
structure Grown (slots : Nat) (core : OrderBook) : Prop where
  refines : ∃ reference, core.Refines reference
  fits : core.Fits
  sameSlots : core.slots = slots

/-- Routes and core books hold the same orders, channel by channel. -/
structure Sound (books : Books) : Prop where
  placed : ∀ venue channel, (books.route venue channel).Placed venue channel
  chosen : ∀ key, (books.books.find? key).isSome → books.selected key.symbol
  grown : ∀ key, Grown books.newBook.slots (books.core key)
  agrees : ∀ key, books.selected key.symbol → ∀ orderId,
    (books.core key).order orderId =
      (books.route key.venue key.channel).shown key orderId

/-- A book that exists is the core of its key. -/
theorem core_of_found
    {key : BookKey} {core : OrderBook}
    (found : books.books.find? key = some core) : books.core key = core := by
  simp [Books.core, found]

/-- A new book has no orders. -/
theorem newBook_order (books : Books) (orderId : OrderId) :
    books.newBook.order orderId = none := by
  simp [newBook, OrderBook.order, OrderBook.ofPool]

/-- A new book is one that calls have led to, by none of them. -/
theorem grown_newBook (books : Books) :
    Grown books.newBook.slots books.newBook where
  refines := ⟨{}, OrderBook.Refines.start books.poolBytes (by decide)⟩
  fits := by
    intro side order live
    rw [newBook, OrderBook.ofPool_sideOrders] at live
    cases live
  sameSlots := rfl

/-- A call that goes through: what it does to the orders, and the book after. -/
theorem Grown.call
    {slots : Nat} {core : OrderBook} (grown : Grown slots core)
    {made : BookCall} (inRange : InRange made)
    (ok : (core.call made).2 = .ok) :
    Grown slots (core.call made).1 ∧
      ∃ reference : Reference,
        (∀ orderId, core.order orderId = reference.order orderId) ∧
        (reference.call made).2 = .ok ∧
        ∀ orderId, (core.call made).1.order orderId =
          (reference.call made).1.order orderId := by
  obtain ⟨⟨reference, refines⟩, fits, sameSlots⟩ := grown
  have granted : (core.call made).2 ≠ .allocationFailed := by
    rw [ok]
    decide
  obtain ⟨sameAnswer, after⟩ := refines.call_follows granted
  have madeFits : made.Fits := by
    cases made with
    | add heap event => exact Nat.lt_of_le_of_lt inRange.2.2 (by decide)
    | cancel event => trivial
    | execute event => exact inRange
    | replace heap oldId next maintainPriority =>
        exact Nat.lt_of_le_of_lt inRange.2.2 (by decide)
    | reset => trivial
  exact ⟨⟨⟨_, after⟩, refines.wf.call_fits madeFits fits,
    (refines.wf.call_wf made).2.trans sameSlots⟩, reference, refines.order_eq,
    sameAnswer ▸ ok, after.order_eq⟩

/-- What create returns is sound. -/
theorem sound_create
    {filter : Text} {poolBytes : Nat} {fresh : Books}
    (created : create filter poolBytes = .ok fresh) : fresh.Sound := by
  unfold create at created
  split_ifs at created
  cases created
  exact
    { placed := nofun
      chosen := nofun
      grown := fun _ => grown_newBook _
      agrees := fun _ _ orderId => newBook_order _ orderId }

namespace Sound

/-- A selected route has its book. -/
theorem book_isSome
    (sound : books.Sound) {orderId : OrderId} {old : Tracked}
    (found : books.route venue channel orderId = some old) :
    (books.books.find? old.book).isSome = books.selected old.book.symbol := by
  obtain ⟨sameVenue, sameChannel⟩ := sound.placed _ _ _ _ found
  rw [Bool.eq_iff_iff]
  refine ⟨sound.chosen old.book, fun chosen => ?_⟩
  have shown := sound.agrees old.book chosen orderId
  rw [sameVenue, sameChannel, Lookup.shown_routed found] at shown
  cases missing : books.books.find? old.book with
  | some core => rfl
  | none =>
      rw [Books.core, missing, Option.getD_none, newBook_order] at shown
      cases shown

/-- The quantity of a selected route fits the core's type. -/
theorem quantity_lt
    (sound : books.Sound) {orderId : OrderId} {old : Tracked}
    (found : books.route venue channel orderId = some old)
    (chosen : books.selected old.book.symbol) : old.quantity < 2 ^ 32 := by
  obtain ⟨sameVenue, sameChannel⟩ := sound.placed _ _ _ _ found
  obtain ⟨⟨reference, refines⟩, fits, _⟩ := sound.grown old.book
  have shown := sound.agrees old.book chosen orderId
  rw [sameVenue, sameChannel, Lookup.shown_routed found,
    refines.order_eq] at shown
  have live : old.view orderId ∈ (books.core old.book).sideOrders old.side := by
    rw [refines.orders]
    exact Reference.mem_sideOrders.mpr ⟨shown, rfl⟩
  exact fits old.side _ live

end Sound

/-! ## Applying an event is performing its change -/

/-- A requirement passes or the event fails. -/
theorem toOption_require
    {α : Type} (books : Books) (value : Bool) (message : String)
    (next : Unit → Except Thrown α) :
    (books.require value message >>= next).toOption =
      if value then (next ()).toOption else none := by
  cases value <;> rfl

/-- An order is made when the core can represent it. -/
theorem toOption_addOrder
    (books : Books) (orderId : OrderId) (side : Side) (price quantity : Nat) :
    (books.addOrder orderId side price quantity).toOption =
      if Represented price quantity then
        some ⟨orderId, side, price, quantity⟩
      else
        none := by
  simp only [addOrder, toOption_require, decide_eq_true_eq, Represented,
    ← ite_and]
  rfl

/-- A replacement is made and handed to the core. -/
theorem toOption_replacement
    (books : Books) (core : OrderBook) (oldId orderId : OrderId) (side : Side)
    (price quantity : Nat) (maintainPriority : Bool) :
    (books.addOrder orderId side price quantity >>= fun order =>
      (.ok (core.replace {} oldId order maintainPriority) :
        Except Thrown _)).toOption =
      let made : BookCall :=
        .replace {} oldId ⟨orderId, side, price, quantity⟩ maintainPriority
      if InRange made then some (core.call made) else none := by
  rw [Fallible.toOption_bind, toOption_addOrder]
  by_cases represented : Represented price quantity
  · simp [InRange, represented, OrderBook.call, Except.toOption]
  · simp [InRange, represented]

/-- What remains of a call once its result has been checked. -/
def settle (books : Books) (key : BookKey)
    (outcome : OrderBook × ApplyResult) : Option Books :=
  if outcome.2 = .ok then some (books.withCore key outcome.1) else none

/-- An answer of the core is settled in the books. -/
theorem toOption_applied
    (books : Books) (key : BookKey) (outcome : OrderBook × ApplyResult) :
    (books.applied key outcome).toOption = books.settle key outcome := by
  unfold applied settle withCore
  dsimp only
  split_ifs <;> rfl

/-- The end of `apply` for events on known orders. -/
def counted (books : Books) (key : BookKey) (outcome : Except Thrown Books) :
    Except Thrown Books := do
  let after ← outcome
  if (books.books.find? key).isSome then
    .ok { after with updates := after.updates + 1 }
  else
    .ok after

/-- A requirement behind the count of the core. -/
theorem toOption_counted_require
    (books : Books) (key : BookKey) (value : Bool) (message : String)
    (next : Unit → Except Thrown Books) :
    (books.counted key (books.require value message >>= next)).toOption =
      if value then (books.counted key (next ())).toOption else none := by
  cases value <;> rfl

/-- A call on the book of a route, with the writes that follow it. -/
theorem toOption_known
    {key : BookKey} (made : BookCall)
    (writes : List (OrderId × Option Tracked))
    {operation : OrderBook → Except Thrown (OrderBook × ApplyResult)}
    (reroute : Routes → Routes)
    (chosen : (books.books.find? key).isSome = books.selected key.symbol)
    (called : books.selected key.symbol →
      (operation (books.core key)).toOption =
        if InRange made then some ((books.core key).call made) else none)
    (rerouted : reroute books.orders =
      writes.foldl (writeRoute venue channel) books.orders) :
    (books.counted key (books.touch key operation >>= fun touched =>
      .ok { touched with orders := reroute touched.orders })).toOption =
      books.perform venue channel (.order key made writes) := by
  unfold perform touch counted
  cases found : books.books.find? key with
  | none =>
      rw [found] at chosen
      simp [← chosen, withRoutes, ← rerouted]
      rfl
  | some core =>
      rw [found] at chosen
      have isCore := core_of_found found
      have called := called chosen.symm
      rw [isCore] at called
      simp only [Fallible.toOption_bind, called, toOption_applied, ← chosen,
        Option.isSome_some, if_true, isCore]
      by_cases inRange : InRange made
      · by_cases ok : (core.call made).2 = .ok
        · simp only [inRange, ok, settle, if_true, Option.bind_some, and_self]
          simp [withCore, withRoutes, Except.toOption, rerouted]
        · simp [inRange, ok, settle]
      · simp [inRange]

namespace Sound

variable {old : Tracked}

/-- A delete cancels its order. -/
theorem delete_eq
    (sound : books.Sound)
    (found : books.route venue e.channel e.orderId = some old)
    (kind : e.type = .delete) :
    (books.counted old.book (books.applyKnown venue e old)).toOption =
      books.perform venue e.channel
        (.order old.book (.cancel ⟨e.orderId⟩) [(e.orderId, none)]) := by
  simp only [applyKnown, kind]
  refine toOption_known _ _
    (fun orders => orders.erase ⟨venue, e.channel, e.orderId⟩)
    (sound.book_isSome found) (fun _ => ?_) rfl
  simp [InRange, OrderBook.call, Except.toOption]

/-- A decrement removes a part of its order, or all of it. -/
theorem decrement_eq
    (sound : books.Sound)
    (found : books.route venue e.channel e.orderId = some old)
    (kind : e.type = .reduce ∨ e.type = .execute) :
    (books.counted old.book (books.applyKnown venue e old)).toOption =
      (Change.ofDecrement e old).bind (books.perform venue e.channel) := by
  have applied : books.applyKnown venue e old =
      books.require (0 < e.quantity ∧ e.quantity ≤ old.quantity)
        "Invalid feed decrement" >>= fun _ =>
      books.touch old.book (fun core =>
        .ok (core.applyExecute ⟨e.orderId, e.quantity % 2 ^ 32⟩)) >>=
      fun touched =>
        .ok (touched.setQuantity ⟨venue, e.channel, e.orderId⟩ old
          (old.quantity - e.quantity)) := by
    rcases kind with kind | kind
    · simp only [applyKnown, kind]
    · simp only [applyKnown, kind]
  rw [applied, toOption_counted_require, Change.ofDecrement]
  simp only [decide_eq_true_eq]
  by_cases guard : 0 < e.quantity ∧ e.quantity ≤ old.quantity
  case neg => simp only [guard, if_false, Option.bind_none]
  simp only [guard, and_self, if_true, Option.bind_some]
  refine toOption_known _ _ (fun orders =>
      if old.quantity - e.quantity = 0 then
        orders.erase ⟨venue, e.channel, e.orderId⟩
      else
        orders.insert ⟨venue, e.channel, e.orderId⟩
          { old with quantity := old.quantity - e.quantity })
    (sound.book_isSome found) (fun chosen => ?_) ?_
  · have small : e.quantity < 2 ^ 32 :=
      Nat.lt_of_le_of_lt guard.2 (sound.quantity_lt found chosen)
    simp only [InRange, small, if_true, OrderBook.call,
      Nat.mod_eq_of_lt small]
    rfl
  · split_ifs <;> rfl

/-- An execution of the rest takes what it states. -/
theorem executeRemaining_eq
    (sound : books.Sound)
    (found : books.route venue e.channel e.orderId = some old)
    (kind : e.type = .executeRemaining) :
    (books.counted old.book (books.applyKnown venue e old)).toOption =
      (Change.ofExecuteRemaining e old).bind
        (books.perform venue e.channel) := by
  simp only [applyKnown, kind]
  rw [toOption_counted_require, Change.ofExecuteRemaining]
  simp only [decide_eq_true_eq]
  by_cases guard : 0 < e.quantity ∧ e.remaining ≤ 2 ^ 32 - 1
  case neg => simp only [guard, if_false, Option.bind_none]
  simp only [guard, and_self, if_true]
  by_cases isZero : e.remaining = 0
  · simp only [isZero, if_true, Option.bind_some]
    refine toOption_known _ _
      (fun orders => orders.erase ⟨venue, e.channel, e.orderId⟩)
      (sound.book_isSome found) (fun _ => ?_) rfl
    simp [InRange, OrderBook.call, Except.toOption]
  · simp only [isZero, if_false, Option.bind_some]
    simp only [setQuantity, isZero, if_false]
    refine toOption_known _ _
      (fun orders => orders.insert ⟨venue, e.channel, e.orderId⟩
        { old with quantity := e.remaining })
      (sound.book_isSome found) (fun _ => ?_) rfl
    exact toOption_replacement ..

/-- A replacement moves its order to the new id. -/
theorem replace_eq
    (sound : books.Sound)
    (found : books.route venue e.channel e.orderId = some old)
    (kind : e.type = .replace) :
    (books.counted old.book (books.applyKnown venue e old)).toOption =
      (Change.ofReplace (books.route venue e.channel) e old).bind
        (books.perform venue e.channel) := by
  have sameKey :
      ((⟨venue, e.channel, e.newOrderId⟩ : OrderKey) =
        ⟨venue, e.channel, e.orderId⟩) = (e.newOrderId = e.orderId) := by
    simp
  have unused :
      (books.orders.contains ⟨venue, e.channel, e.newOrderId⟩ = false) =
        (books.route venue e.channel e.newOrderId = none) := by
    simp [OrderedMap.contains, route]
  simp only [applyKnown, kind, applyReplace]
  rw [toOption_counted_require, toOption_counted_require,
    toOption_counted_require, Change.ofReplace]
  simp only [decide_eq_true_eq, sameKey, unused, ← ite_and]
  by_cases guard :
      (e.newOrderId = e.orderId ∨
        books.route venue e.channel e.newOrderId = none) ∧
      (0 < e.price ∧ 0 < e.quantity) ∧
      (e.maintainPriority = false ∨
        e.newOrderId = e.orderId ∧ e.price = old.price)
  case neg => rw [if_neg guard, if_neg guard, Option.bind_none]
  rw [if_pos guard, if_pos guard, Option.bind_some]
  have missing : e.newOrderId ≠ e.orderId →
      books.orders.find? ⟨venue, e.channel, e.newOrderId⟩ = none :=
    fun otherId => guard.1.resolve_left otherId
  refine toOption_known _ _ (fun orders =>
      if e.newOrderId = e.orderId then
        orders.insert ⟨venue, e.channel, e.orderId⟩
          { old with price := e.price, quantity := e.quantity }
      else
        (orders.emplace ⟨venue, e.channel, e.newOrderId⟩
          { old with price := e.price, quantity := e.quantity }).erase
            ⟨venue, e.channel, e.orderId⟩)
    (sound.book_isSome found) (fun chosen => ?_) ?_
  · exact toOption_replacement ..
  · split_ifs with sameId
    · rfl
    · simp [writeRoute, OrderedMap.emplace, missing sameId]

/-- Each event about a known order is the change it stands for. -/
theorem known_eq
    (sound : books.Sound)
    (found : books.route venue e.channel e.orderId = some old) :
    (books.counted old.book (books.applyKnown venue e old)).toOption =
      (Change.ofKnown (books.route venue e.channel) e old).bind
        (books.perform venue e.channel) := by
  cases kind : e.type with
  | delete =>
      rw [sound.delete_eq found kind]
      simp [Change.ofKnown, kind]
  | reduce =>
      rw [sound.decrement_eq found (Or.inl kind)]
      simp only [Change.ofKnown, kind]
  | execute =>
      rw [sound.decrement_eq found (Or.inr kind)]
      simp only [Change.ofKnown, kind]
  | executeRemaining =>
      rw [sound.executeRemaining_eq found kind]
      simp only [Change.ofKnown, kind]
  | replace =>
      rw [sound.replace_eq found kind]
      simp only [Change.ofKnown, kind]
  | _ =>
      simp only [applyKnown, Change.ofKnown, kind, counted]
      rfl

/-- An add is the change it stands for. -/
theorem add_eq (books : Books) (venue : Text) (e : Event) :
    (books.applyAdd venue e).toOption =
      (Change.ofAdd (books.route venue e.channel) venue e).bind
        (books.perform venue e.channel) := by
  have unused :
      (books.orders.contains ⟨venue, e.channel, e.orderId⟩ = false) =
        (books.route venue e.channel e.orderId = none) := by
    simp [OrderedMap.contains, route]
  unfold applyAdd Change.ofAdd
  rw [toOption_require, toOption_require]
  simp only [decide_eq_true_eq, unused, ← ite_and, and_assoc]
  by_cases guard :
      e.symbol ≠ [] ∧ books.route venue e.channel e.orderId = none ∧
        0 < e.price ∧ 0 < e.quantity
  case neg => rw [if_neg guard, if_neg guard, Option.bind_none]
  have missing :
      books.orders.find? ⟨venue, e.channel, e.orderId⟩ = none := guard.2.1
  rw [if_pos guard, if_pos guard, Option.bind_some]
  by_cases chosen : books.selected e.symbol = true
  · have sameInsert (core : OrderBook) :
        (books.books.emplace ⟨venue, e.channel, e.symbol⟩
          books.newBook).insert ⟨venue, e.channel, e.symbol⟩ core =
          books.books.insert ⟨venue, e.channel, e.symbol⟩ core := by
      refine OrderedMap.ext_find? fun key => ?_
      simp only [OrderedMap.find?_insert, OrderedMap.find?_emplace]
      split_ifs <;> rfl
    simp only [chosen, if_true, Fallible.toOption_bind, toOption_addOrder, perform,
      toOption_applied]
    by_cases represented : Represented e.price e.quantity
    · simp only [represented, InRange, settle, withCore, sameInsert,
        OrderBook.call, OrderedMap.find?_emplace, if_true, Option.getD_some,
        Option.bind_some, true_and, Books.core]
      by_cases ok : (((books.books.find? ⟨venue, e.channel, e.symbol⟩).getD
          books.newBook).applyAdd {}
            ⟨e.orderId, e.side, e.price, e.quantity⟩).2 = .ok
      · simp [ok, Except.toOption, withRoutes, writeRoute, OrderedMap.emplace,
          missing]
      · simp [ok]
    · simp [represented, InRange]
  · simp [chosen, perform, bind, Except.bind, Except.toOption, withRoutes,
      writeRoute, OrderedMap.emplace, missing]

/-- On sound books, `apply` reads the event's change and performs it. -/
theorem apply_eq (sound : books.Sound) (venue : Text) (e : Event) :
    (books.apply venue e).toOption =
      (Change.ofEvent (books.route venue e.channel) venue e).bind
        (books.perform venue e.channel) := by
  unfold apply Change.ofEvent
  rw [toOption_require]
  by_cases noVenue : venue = []
  · simp [noVenue]
  simp only [noVenue, ne_eq, not_false_eq_true, decide_true, if_true, if_false]
  have known :
      (match books.orders.find? ⟨venue, e.channel, e.orderId⟩ with
        | none =>
            (.error ⟨books,
              "Unknown feed order; missing history or wrong channel"⟩ :
              Except Thrown Books)
        | some old => do
            books.require (e.symbol = [] ∨ old.book.symbol = e.symbol)
              "Order belongs to another symbol"
            books.counted old.book (books.applyKnown venue e old)).toOption =
        ((books.route venue e.channel e.orderId).bind fun old =>
          if e.symbol = [] ∨ old.book.symbol = e.symbol then
            Change.ofKnown (books.route venue e.channel) e old
          else none).bind (books.perform venue e.channel) := by
    cases found : books.route venue e.channel e.orderId with
    | none =>
        have missing :
            books.orders.find? ⟨venue, e.channel, e.orderId⟩ = none := found
        simp [missing, Except.toOption]
    | some old =>
        have stored :
            books.orders.find? ⟨venue, e.channel, e.orderId⟩ = some old :=
          found
        simp only [stored, toOption_require, decide_eq_true_eq,
          Option.bind_some]
        split_ifs
        · exact sound.known_eq found
        · rfl
  cases kind : e.type with
  | metadata => rfl
  | directory => rfl
  | trade => rfl
  | clear => rfl
  | add => exact add_eq books venue e
  | _ => exact known

end Sound

/-! ## Performing keeps books sound -/

/-- Writing a core changes one book. -/
theorem core_withCore
    (books : Books) (key other : BookKey) (core : OrderBook) :
    (books.withCore key core).core other =
      if other = key then core else books.core other := by
  simp only [Books.core, withCore, OrderedMap.find?_insert]
  split_ifs <;> rfl

/-- A clear leaves new books on its channel. -/
theorem core_cleared
    (books : Books) (venue : Text) (channel : Nat) (key : BookKey) :
    (books.cleared venue channel).core key =
      if key.venue = venue ∧ key.channel = channel then books.newBook
      else books.core key := by
  simp only [Books.core, cleared, OrderedMap.find?_eraseIf, decide_eq_true_eq]
  split_ifs <;> rfl

/-- A clear leaves no routes on its channel. -/
theorem route_cleared
    (books : Books) (venue other : Text) (channel otherChannel : Nat) :
    (books.cleared venue channel).route other otherChannel =
      if other = venue ∧ otherChannel = channel then fun _ => none
      else books.route other otherChannel := by
  funext orderId
  simp only [route, cleared, OrderedMap.find?_eraseIf, decide_eq_true_eq]
  split_ifs <;> rfl

namespace Sound

/-- Sound books stay so when a channel is cleared. -/
theorem cleared
    (sound : books.Sound) (venue : Text) (channel : Nat) :
    (books.cleared venue channel).Sound where
  placed other otherChannel := by
    rw [route_cleared]
    split_ifs
    · exact nofun
    · exact sound.placed other otherChannel
  chosen key found := by
    simp only [Books.cleared, OrderedMap.find?_eraseIf] at found
    split_ifs at found
    · cases found
    · exact sound.chosen key found
  grown key := by
    rw [core_cleared]
    split_ifs
    · exact grown_newBook books
    · exact sound.grown key
  agrees key chosen orderId := by
    rw [core_cleared, route_cleared]
    split_ifs
    · exact newBook_order books orderId
    · exact sound.agrees key chosen orderId

variable {key : BookKey} {made : BookCall}
  {writes : List (OrderId × Option Tracked)}

/-- Routes lead to books of their own channel. -/
theorem placed_withRoutes
    (sound : books.Sound)
    (sameVenue : key.venue = venue) (sameChannel : key.channel = channel)
    (paired : Change.Paired (books.route venue channel) key made writes)
    (other : Text) (otherChannel : Nat) :
    ((books.withRoutes venue channel writes).route other otherChannel).Placed
      other otherChannel := by
  rw [route_withRoutes]
  split_ifs with here
  · obtain ⟨rfl, rfl⟩ := here
    exact paired.placed (sound.placed _ _) sameVenue sameChannel
  · exact sound.placed other otherChannel

/-- The writes of a change are shown by its book and by no other. -/
theorem shown_withRoutes
    (sameVenue : key.venue = venue) (sameChannel : key.channel = channel)
    (paired : Change.Paired (books.route venue channel) key made writes)
    (other : BookKey) (orderId : OrderId) :
    ((books.withRoutes venue channel writes).route other.venue
        other.channel).shown other orderId =
      if other = key then
        ((books.route venue channel).writeAll writes).shown key orderId
      else
        (books.route other.venue other.channel).shown other orderId := by
  rw [route_withRoutes]
  split_ifs with sameChannels here here
  · rw [here, sameVenue, sameChannel]
  · rw [sameChannels.1, sameChannels.2]
    exact paired.shown_other here orderId
  · exact absurd ⟨here ▸ sameVenue, here ▸ sameChannel⟩ sameChannels
  · rfl

/-- Performing the change of one order keeps books sound. -/
theorem written
    (sound : books.Sound) {next : Books}
    (sameVenue : key.venue = venue) (sameChannel : key.channel = channel)
    (paired : Change.Paired (books.route venue channel) key made writes)
    (performed : books.perform venue channel (.order key made writes) =
      some next) : next.Sound := by
  have placed := sound.placed_withRoutes sameVenue sameChannel paired
  have shown := shown_withRoutes sameVenue sameChannel paired
  unfold perform at performed
  dsimp only at performed
  by_cases chosen : books.selected key.symbol = true
  · rw [if_pos chosen] at performed
    obtain ⟨⟨inRange, ok⟩, same⟩ :=
      Option.ite_none_right_eq_some.mp performed
    cases same
    obtain ⟨grown, reference, before, answered, after⟩ :=
      (sound.grown key).call inRange ok
    refine ⟨placed, ?_, ?_, ?_⟩
    · intro other found
      simp only [withCore, OrderedMap.find?_insert] at found
      split_ifs at found with here
      · rw [here]
        exact chosen
      · exact sound.chosen other found
    · intro other
      refine (congrArg (Grown _) (core_withCore _ key other _)).mpr ?_
      split_ifs
      · exact grown
      · exact sound.grown other
    · intro other otherChosen orderId
      refine (congrArg (fun core => core.order orderId)
        (core_withCore _ key other _)).trans ?_
      refine Eq.trans ?_ (shown other orderId).symm
      split_ifs with here
      · rw [after]
        refine paired.follows reference (fun id => ?_) answered orderId
        rw [← before, sound.agrees key chosen, sameVenue, sameChannel]
      · exact sound.agrees other otherChosen orderId
  · rw [if_neg chosen] at performed
    cases performed
    refine ⟨placed, sound.chosen, sound.grown, ?_⟩
    intro other otherChosen orderId
    have apart : other ≠ key := fun same => chosen (same ▸ otherChosen)
    rw [shown, if_neg apart]
    exact sound.agrees other otherChosen orderId

/-- An event that is applied leaves sound books behind. -/
theorem apply
    (sound : books.Sound) {next : Books}
    (applied : books.apply venue e = .ok next) : next.Sound := by
  have performed := sound.apply_eq venue e
  rw [applied] at performed
  obtain ⟨change, changed, performed⟩ :=
    Option.bind_eq_some_iff.mp performed.symm
  cases change with
  | nothing =>
      cases performed
      exact sound
  | clear =>
      cases performed
      exact sound.cleared venue e.channel
  | order key made writes =>
      obtain ⟨sameVenue, sameChannel, paired⟩ :=
        Change.paired_ofEvent (sound.placed _ _) changed
      exact sound.written sameVenue sameChannel paired performed

end Sound

end LimitOrderBook.Feed.Books
