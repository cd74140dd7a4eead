import LimitOrderBook.EventReplay
import Mathlib.Data.List.Perm.Basic

namespace LimitOrderBook

/-!
# Generated files

The model of `tools/generate_events.cpp`.  The generator keeps its live orders
in a list of its own and writes only events that a book accepts, whatever the
random numbers are.  What it does not keep is a limit: a replay of its file
stops at the first order for which the book has no room.
-/

namespace EventCsv

/-- A file of events. -/
def eventFile (events : List MarketEvent) : List Char :=
  writeCsvHeader ++ events.flatMap writeEventCsv

/-- The line of an event in a file. -/
def eventLine (event : MarketEvent) : Line :=
  [','].intercalate (eventFields event)

/-- A line without a newline is read up to the one behind it. -/
theorem linesFrom_line
    {body : Line} (noNewline : '\n' ∉ body) (start : Line) (rest : List Char) :
    linesFrom start (body ++ '\n' :: rest) = (start ++ body) ::
      linesFrom [] rest := by
  induction body generalizing start with
  | nil => simp [linesFrom]
  | cons c body inductionHypothesis =>
      have notNewline : c ≠ '\n' := fun same => noNewline (by simp [same])
      have others : '\n' ∉ body := fun member => noNewline (by simp [member])
      rw [List.cons_append, linesFrom, if_neg notNewline,
        inductionHypothesis others]
      simp

/-- The line of an event is one line. -/
theorem not_mem_eventLine (event : MarketEvent) : '\n' ∉ eventLine event := by
  intro member
  rcases mem_join member with isComma | ⟨text, textMember, inText⟩
  · exact absurd isComma (by decide)
  · exact absurd (eventFields_alphanum event text textMember _ inText)
      (by decide)

/-- Reading a file gives the header and a line for each event. -/
theorem fileLines_eventFile (events : List MarketEvent) :
    fileLines (eventFile events) =
      writeCsvHeader.dropLast :: events.map eventLine := by
  have header : writeCsvHeader = writeCsvHeader.dropLast ++ ['\n'] := by decide
  have plain : '\n' ∉ writeCsvHeader.dropLast := by decide
  have body : linesFrom [] (events.flatMap writeEventCsv) =
      events.map eventLine := by
    induction events with
    | nil => rfl
    | cons event rest inductionHypothesis =>
        rw [List.flatMap_cons, writeEventCsv_eq, List.append_assoc]
        exact (linesFrom_line (not_mem_eventLine event) [] _).trans
          (congrArg _ inductionHypothesis)
  calc fileLines (eventFile events)
      = linesFrom [] (writeCsvHeader.dropLast ++
          '\n' :: events.flatMap writeEventCsv) := by
        rw [fileLines, eventFile, List.append_cons, ← header]
    _ = writeCsvHeader.dropLast ::
          linesFrom [] (events.flatMap writeEventCsv) :=
        linesFrom_line plain [] _
    _ = writeCsvHeader.dropLast :: events.map eventLine := by rw [body]

/-- Nor does it have spaces that a reader would strip. -/
theorem strip_eventLine (event : MarketEvent) :
    strip (eventLine event) = eventLine event := by
  have stripped := strip_writeEventCsv event
    (by simp : ∀ c ∈ ([] : Line), isLineEnd c = true)
  unfold strip at stripped ⊢
  rw [eventLine, ← stripped]
  exact List.rdropWhile_idempotent _ _

/-- The line of an event is read as the event. -/
theorem accepted_eventLine
    {event : MarketEvent} (encodable : event.Encodable) :
    Accepted (strip (eventLine event)) event := by
  rw [strip_eventLine]
  exact accepted_writeEventCsv encodable

/-- Every line that is written is parsed to its event. -/
theorem lineEvents_eventLine
    {events : List MarketEvent}
    (encodable : ∀ event ∈ events, event.Encodable) :
    lineEvents (events.map eventLine) = events := by
  unfold lineEvents
  rw [List.filterMap_map]
  refine (List.filterMap_congr fun event member => ?_).trans
    List.filterMap_some
  exact parseEventLine_event_iff.mpr
    (accepted_eventLine (encodable event member))

end EventCsv

namespace EventReplay

open EventCsv

/-- A file of events passes as far as the events are accepted. -/
theorem passes_eventLines
    {events : List MarketEvent}
    (encodable : ∀ event ∈ events, event.Encodable)
    (accepted : ∀ answer ∈ ReferenceMarket.answers {} events,
      answer = some .ok) :
    Passes {} (writeCsvHeader.dropLast :: events.map eventLine) := by
  have parsed : parseEventLine writeCsvHeader.dropLast = {} := by decide
  refine .skip (by decide) parsed ⟨?_, ?_⟩
  · intro line member
    obtain ⟨event, isEvent, rfl⟩ := List.mem_map.mp member
    exact Or.inr ⟨event, accepted_eventLine (encodable event isEvent)⟩
  · rw [lineEvents_eventLine encodable]
    exact accepted

end EventReplay

/-- `ActiveOrder`. -/
structure ActiveOrder where
  id : OrderId
  remaining : Quantity
  deriving DecidableEq, Inhabited

/-- The random numbers for one event. -/
structure Draw where
  operation : Nat := 0
  offset : Nat := 0
  quantity : Nat := 0
  index : Nat := 0
  executed : Nat := 0

/-- `std::uniform_int_distribution`: a random number gives one of the range. -/
def uniform (low high random : Nat) : Nat :=
  low + random % (high - low + 1)

/-- The variables of `generate_events`. -/
structure EventGenerator where
  instrumentId : InstrumentId := 1
  sequence : Sequence := 1
  nextOrderId : OrderId := 1
  active : List ActiveOrder := []

namespace EventGenerator

open EventCsv

/-- The last order takes the place of one that is gone. -/
def removeAt (active : List ActiveOrder) (index : Nat) : List ActiveOrder :=
  (active.set index (active.getLastD default)).dropLast

/-- The order that the generator adds next. -/
def addition (generator : EventGenerator) (draw : Draw) : AddOrder :=
  let side : Side := if generator.nextOrderId % 2 = 0 then .ask else .bid
  let offset := uniform 0 100 draw.offset
  { orderId := generator.nextOrderId
    side := side
    price := if side = .bid then 10000 - offset else 10001 + offset
    quantity := uniform 1 500 draw.quantity }

/-- The body of the loop: the event that is written and the variables after. -/
def next (generator : EventGenerator) (draw : Draw) :
    MarketEvent × EventGenerator :=
  let operation := uniform 0 99 draw.operation
  if generator.active = [] ∨ operation < 65 then
    let add := generator.addition draw
    (⟨generator.sequence, generator.instrumentId, .add add⟩,
      { generator with
        sequence := generator.sequence + 1
        nextOrderId := generator.nextOrderId + 1
        active := generator.active ++ [⟨add.orderId, add.quantity⟩] })
  else
    let index := uniform 0 (generator.active.length - 1) draw.index
    let active := generator.active.getD index default
    if operation < 82 then
      (⟨generator.sequence, generator.instrumentId, .cancel ⟨active.id⟩⟩,
        { generator with
          sequence := generator.sequence + 1
          active := removeAt generator.active index })
    else
      let executed := uniform 1 active.remaining draw.executed
      let remaining := active.remaining - executed
      (⟨generator.sequence, generator.instrumentId,
          .execute ⟨active.id, executed⟩⟩,
        { generator with
          sequence := generator.sequence + 1
          active :=
            if remaining = 0 then
              removeAt generator.active index
            else
              generator.active.set index ⟨active.id, remaining⟩ })

/-- The events of a run. -/
def events (generator : EventGenerator) : List Draw → List MarketEvent
  | [] => []
  | draw :: rest =>
      (generator.next draw).1 :: events (generator.next draw).2 rest

/-- The variables after a run. -/
def after (generator : EventGenerator) (draws : List Draw) : EventGenerator :=
  draws.foldl (fun generator draw => (generator.next draw).2) generator

/-- The file of `generate_events`. -/
def generate (instrumentId : InstrumentId) (draws : List Draw) : List Char :=
  eventFile (events { instrumentId := instrumentId } draws)

end EventGenerator

/-! ## The orders of a book as the generator keeps them -/

namespace Reference

variable {book : Reference}

def shown (book : Reference) : List ActiveOrder :=
  book.orders.entries.map fun entry => ⟨entry.1, entry.2.remaining⟩

/-- A book shows each of its orders once. -/
theorem length_shown (book : Reference) :
    book.shown.length = book.orders.size :=
  List.length_map ..

/-- An order is shown with what remains of it. -/
theorem mem_shown {order : ActiveOrder} :
    order ∈ book.shown ↔ ∃ stored,
      book.orders.find? order.id = some stored ∧
        stored.remaining = order.remaining := by
  constructor
  · intro member
    obtain ⟨entry, stored, rfl⟩ := List.mem_map.mp member
    exact ⟨entry.2, OrderedMap.mem_entries.mp stored, rfl⟩
  · rintro ⟨stored, found, same⟩
    refine List.mem_map.mpr
      ⟨(order.id, stored), OrderedMap.mem_entries.mpr found, ?_⟩
    rw [same]

/-- An order that arrives is one more. -/
theorem shown_arrive
    {event : AddOrder} (unused : book.orders.find? event.orderId = none) :
    (book.arrive event).shown.Perm
      (⟨event.orderId, event.quantity⟩ :: book.shown) := by
  obtain ⟨before, after, shape, _, _, inserted⟩ :=
    OrderedMap.split_of_find?_none unused
  simp only [shown, arrive, inserted, shape, List.map_append, List.map_cons]
  exact List.perm_middle

/-- An order that is found is one of those shown. -/
theorem shown_remove
    {orderId : OrderId} {order : ReferenceOrder}
    (found : book.orders.find? orderId = some order) :
    book.shown.Perm (⟨orderId, order.remaining⟩ ::
      (book.remove orderId).shown) := by
  obtain ⟨before, after, shape, _, _, _, erased⟩ :=
    OrderedMap.split_of_find?_some found
  simp only [shown, remove, erased, shape, List.map_append, List.map_cons]
  exact List.perm_middle

/-- A partial fill changes one order. -/
theorem shown_setRemaining
    {orderId : OrderId} {order : ReferenceOrder}
    (found : book.orders.find? orderId = some order) (quantity : Quantity) :
    (book.setRemaining orderId order quantity).shown.Perm
      (⟨orderId, quantity⟩ :: (book.remove orderId).shown) := by
  obtain ⟨before, after, shape, _, _, overwritten, erased⟩ :=
    OrderedMap.split_of_find?_some found
  simp only [shown, setRemaining, remove, overwritten, erased, List.map_append,
    List.map_cons]
  exact List.perm_middle

end Reference

namespace EventGenerator

variable {generator : EventGenerator} {market : ReferenceMarket}

/-! ## The generator's list -/

/-- No draw is below its range. -/
theorem le_uniform (low high random : Nat) : low ≤ uniform low high random :=
  Nat.le_add_right ..

/-- No draw is above its range. -/
theorem uniform_le
    {low high : Nat} (ordered : low ≤ high) (random : Nat) :
    uniform low high random ≤ high := by
  have below := Nat.mod_lt random (Nat.succ_pos (high - low))
  unfold uniform
  lia

/-- The last order fills the gap, which changes the order only. -/
theorem removeAt_perm
    {active : List ActiveOrder} {index : Nat} (inside : index < active.length) :
    (removeAt active index).Perm (active.eraseIdx index) := by
  have nonempty : active ≠ [] := List.ne_nil_of_length_pos (by lia)
  obtain ⟨init, last, rfl⟩ : ∃ init last, active = init ++ [last] :=
    ⟨active.dropLast, active.getLast nonempty,
      (List.dropLast_append_getLast nonempty).symm⟩
  have isLast : (init ++ [last]).getLastD default = last := by simp
  rw [removeAt, isLast]
  by_cases early : index < init.length
  · rw [List.set_append_left _ _ early, List.dropLast_concat,
      List.eraseIdx_append_of_lt_length early]
    exact (List.set_perm_cons_eraseIdx early last).trans
      (List.perm_append_singleton last _).symm
  · have isEnd : index = init.length := by
      rw [List.length_append, List.length_singleton] at inside
      lia
    subst isEnd
    rw [List.eraseIdx_append_of_length_le (Nat.le_refl _)]
    simp

/-- A live order is chosen, and the others are what is left without it. -/
theorem chosen_perm
    {active : List ActiveOrder} {index : Nat} (inside : index < active.length) :
    active.Perm
      (active.getD index default :: removeAt active index) := by
  have isChosen : active.getD index default = active.get ⟨index, inside⟩ := by
    simp [List.getD_eq_getElem?_getD, inside]
  rw [isChosen]
  exact (List.getElem_cons_eraseIdx_perm inside).symm.trans
    ((removeAt_perm inside).symm.cons _)

/-- Writing an order in its place changes one order. -/
theorem set_perm
    {active : List ActiveOrder} {index : Nat} (inside : index < active.length)
    (order : ActiveOrder) :
    (active.set index order).Perm (order :: removeAt active index) :=
  (List.set_perm_cons_eraseIdx inside order).trans
    ((removeAt_perm inside).symm.cons _)

/-! ## One event -/

/-- The generator and a market have the same orders. -/
structure Keeps (generator : EventGenerator) (market : ReferenceMarket) :
    Prop where
  sequence : generator.sequence = market.sequence + 1
  orders : (market.book generator.instrumentId).shown.Perm generator.active
  unused : ∀ order ∈ generator.active, order.id < generator.nextOrderId
  live : ∀ order ∈ generator.active,
    0 < order.remaining ∧ order.remaining ≤ 500
  named : generator.nextOrderId ≤ generator.sequence
  only : ∀ other, other ≠ generator.instrumentId → market.books other = none

/-- What an event that its book accepts makes of a market. -/
theorem offer_ok
    {event : MarketEvent} {book : Reference}
    (isNext : event.sequence = market.sequence + 1)
    (answered : market.answer event = (book, .ok)) :
    (market.offer event).2 = some .ok ∧
      (market.offer event).1.sequence = event.sequence ∧
      (market.offer event).1.book event.instrumentId = book ∧
      ∀ other, other ≠ event.instrumentId →
        (market.offer event).1.books other = market.books other := by
  simp +contextual [ReferenceMarket.offer, isNext, ReferenceMarket.apply,
    answered, ReferenceMarket.book]

theorem addition_listed (generator : EventGenerator) (draw : Draw) :
    (generator.addition draw).side = .bid ∨
      (generator.addition draw).side = .ask := by
  unfold addition
  split_ifs
  · exact Or.inr rfl
  · exact Or.inl rfl

/-- Prices and quantities that are drawn are those a book accepts. -/
theorem addition_valid (generator : EventGenerator) (draw : Draw) :
    (generator.addition draw).quantity ≠ 0 ∧
      (generator.addition draw).quantity ≤ 500 ∧
      (generator.addition draw).price ≠ 0 ∧
      (generator.addition draw).price < 2 ^ 32 := by
  have some := le_uniform 1 500 draw.quantity
  have few := @uniform_le 1 500 (by decide) draw.quantity
  have near := @uniform_le 0 100 (by decide) draw.offset
  refine ⟨Nat.ne_of_gt some, few, ?_⟩
  by_cases even : generator.nextOrderId % 2 = 0
  · simp only [addition, even, if_true, reduceCtorEq, if_false]
    lia
  · simp only [addition, even, if_false, if_true]
    lia

/-- What holds of the generator and the market after an event. -/
structure Written (generator : EventGenerator) (market : ReferenceMarket)
    (written : MarketEvent × EventGenerator) : Prop where
  instrument : written.1.instrumentId = generator.instrumentId ∧
    written.2.instrumentId = generator.instrumentId
  sequence : written.1.sequence = market.sequence + 1
  fits : written.1.payload.orderId < generator.sequence + 1 ∧
    written.1.payload.priceField < 2 ^ 32 ∧
    written.1.payload.quantityField < 2 ^ 32 ∧ written.1.payload.SideListed
  next : written.2.sequence = generator.sequence + 1
  accepted : written.2.active.length ≤ OrderBookRegistry.room →
    (market.offer written.1).2 = some .ok ∧
      written.2.Keeps (market.offer written.1).1
  refused : OrderBookRegistry.room < written.2.active.length →
    (market.apply written.1).2 = .allocationFailed

/-- The generator counts the live orders of the market. -/
theorem Keeps.length
    (keeps : generator.Keeps market) :
    (market.book generator.instrumentId).orders.size =
      generator.active.length := by
  rw [← Reference.length_shown, keeps.orders.length_eq]

/-- A live order is in the book of the instrument. -/
theorem Keeps.stored
    (keeps : generator.Keeps market) {order : ActiveOrder}
    (member : order ∈ generator.active) :
    ∃ book stored, market.books generator.instrumentId = some book ∧
      book = market.book generator.instrumentId ∧
      book.orders.find? order.id = some stored ∧
      stored.remaining = order.remaining := by
  obtain ⟨stored, found, same⟩ :=
    Reference.mem_shown.mp (keeps.orders.mem_iff.mpr member)
  cases known : market.books generator.instrumentId with
  | none =>
      simp [ReferenceMarket.book, known] at found
  | some book =>
      have isBook : book = market.book generator.instrumentId := by
        rw [ReferenceMarket.book, known, Option.getD_some]
      exact ⟨book, stored, rfl, isBook, isBook ▸ found, same⟩

/-- The order that is added has a fresh id, and only room can be missing. -/
theorem Keeps.add
    (keeps : generator.Keeps market) (draw : Draw) :
    let written : MarketEvent × EventGenerator :=
      (⟨generator.sequence, generator.instrumentId,
          .add (generator.addition draw)⟩,
        { generator with
          sequence := generator.sequence + 1
          nextOrderId := generator.nextOrderId + 1
          active := generator.active ++
            [⟨(generator.addition draw).orderId,
              (generator.addition draw).quantity⟩] })
    generator.active.length ≤ OrderBookRegistry.room →
      Written generator market written := by
  intro written roomy
  obtain ⟨someQuantity, few, somePrice, priceFits⟩ :=
    addition_valid generator draw
  have listed := addition_listed generator draw
  have unused : (market.book generator.instrumentId).orders.find?
      (generator.addition draw).orderId = none := by
    cases found : (market.book generator.instrumentId).orders.find?
        (generator.addition draw).orderId with
    | none => rfl
    | some stored =>
        have member : (⟨(generator.addition draw).orderId, stored.remaining⟩ :
            ActiveOrder) ∈ generator.active :=
          keeps.orders.mem_iff.mp (Reference.mem_shown.mpr ⟨stored, found, rfl⟩)
        exact absurd (keeps.unused _ member) (Nat.lt_irrefl _)
  have added : (market.book generator.instrumentId).add
      (generator.addition draw) =
        ((market.book generator.instrumentId).arrive
          (generator.addition draw), .ok) := by
    have isListed : (generator.addition draw).side.Listed := listed
    simp [Reference.add, someQuantity, somePrice, OrderedMap.contains, unused,
      isListed]
  have length : written.2.active.length = generator.active.length + 1 := by
    simp [written]
  refine ⟨⟨rfl, rfl⟩, keeps.sequence, ⟨?_, priceFits, ?_, listed⟩, rfl, ?_, ?_⟩
  · exact Nat.lt_succ_of_le keeps.named
  · exact few.trans_lt (by decide)
  · intro fits
    have answered : market.answer written.1 =
        ((market.book generator.instrumentId).arrive
          (generator.addition draw), .ok) := by
      have notFull : (market.book generator.instrumentId).orders.size ≠
          OrderBookRegistry.room := by
        rw [keeps.length]
        lia
      simp [written, ReferenceMarket.answer, ReferenceMarket.addWithin, added,
        notFull]
    obtain ⟨isOk, sequence, book, others⟩ := offer_ok keeps.sequence answered
    refine ⟨isOk, congrArg (· + 1) sequence.symm, ?_, ?_, ?_, ?_,
      fun other apart => (others other apart).trans (keeps.only other apart)⟩
    · rw [book]
      refine (Reference.shown_arrive unused).trans ?_
      exact (keeps.orders.cons _).trans
        (List.perm_append_singleton _ _).symm
    · intro order member
      rcases List.mem_append.mp member with old | isNew
      · exact (keeps.unused order old).trans (Nat.lt_succ_self _)
      · rw [List.mem_singleton.mp isNew]
        exact Nat.lt_succ_self _
    · intro order member
      rcases List.mem_append.mp member with old | isNew
      · exact keeps.live order old
      · rw [List.mem_singleton.mp isNew]
        exact ⟨Nat.pos_of_ne_zero someQuantity, few⟩
    · exact Nat.succ_le_succ keeps.named
  · intro tooMany
    have full : (market.book generator.instrumentId).orders.size =
        OrderBookRegistry.room := by
      rw [keeps.length]
      lia
    simp [written, ReferenceMarket.apply, ReferenceMarket.answer,
      ReferenceMarket.addWithin, added, full]

/-- What holds after an event about an order that stays or goes. -/
theorem Keeps.change
    (keeps : generator.Keeps market) {payload : EventPayload} {book : Reference}
    {active : List ActiveOrder}
    (answered : market.answer
      ⟨generator.sequence, generator.instrumentId, payload⟩ = (book, .ok))
    (orders : book.shown.Perm active)
    (kept : ∀ order ∈ active, ∃ old ∈ generator.active,
      order.id = old.id ∧ 0 < order.remaining ∧
        order.remaining ≤ old.remaining)
    (fits : payload.orderId < generator.sequence + 1 ∧
      payload.priceField < 2 ^ 32 ∧ payload.quantityField < 2 ^ 32 ∧
      payload.SideListed)
    (fewer : active.length ≤ generator.active.length)
    (roomy : generator.active.length ≤ OrderBookRegistry.room) :
    Written generator market
      (⟨generator.sequence, generator.instrumentId, payload⟩,
        { generator with
          sequence := generator.sequence + 1
          active := active }) := by
  refine ⟨⟨rfl, rfl⟩, keeps.sequence, fits, rfl, fun _ => ?_, fun tooMany => ?_⟩
  · obtain ⟨isOk, sequence, isBook, others⟩ :=
      offer_ok keeps.sequence answered
    refine ⟨isOk, congrArg (· + 1) sequence.symm, ?_, fun order member => ?_,
      fun order member => ?_, keeps.named.trans (Nat.le_succ _),
      fun other apart => (others other apart).trans (keeps.only other apart)⟩
    · rw [isBook]
      exact orders
    · obtain ⟨old, oldMember, sameId, _⟩ := kept order member
      rw [sameId]
      exact keeps.unused old oldMember
    · obtain ⟨old, oldMember, _, some, less⟩ := kept order member
      exact ⟨some, less.trans (keeps.live old oldMember).2⟩
  · exact absurd (fewer.trans roomy) (Nat.not_le_of_lt tooMany)

/-- A cancel that is written names a live order. -/
theorem Keeps.cancel
    (keeps : generator.Keeps market)
    (roomy : generator.active.length ≤ OrderBookRegistry.room)
    {order : ActiveOrder} {rest : List ActiveOrder}
    (chosen : generator.active.Perm (order :: rest)) :
    Written generator market
      (⟨generator.sequence, generator.instrumentId, .cancel ⟨order.id⟩⟩,
        { generator with
          sequence := generator.sequence + 1
          active := rest }) := by
  have member : order ∈ generator.active :=
    chosen.mem_iff.mpr List.mem_cons_self
  obtain ⟨book, stored, known, isBook, found, same⟩ := keeps.stored member
  have orders : (book.remove order.id).shown.Perm rest := by
    have removed := Reference.shown_remove found
    rw [same] at removed
    exact (removed.symm.trans
      ((isBook ▸ keeps.orders).trans chosen)).cons_inv
  have answered : market.answer
      ⟨generator.sequence, generator.instrumentId, .cancel ⟨order.id⟩⟩ =
        (book.remove order.id, .ok) := by
    simp [ReferenceMarket.answer, known, Reference.cancel, found]
  refine keeps.change answered orders ?_ ?_ ?_ roomy
  · intro other isRest
    have old := chosen.mem_iff.mpr (List.mem_cons_of_mem _ isRest)
    exact ⟨other, old, rfl, (keeps.live other old).1, Nat.le_refl _⟩
  · exact ⟨Nat.lt_succ_of_le
      ((keeps.unused order member).le.trans keeps.named), Nat.two_pow_pos 32,
      Nat.two_pow_pos 32, trivial⟩
  · rw [chosen.length_eq]
    exact Nat.le_succ _

/-- An execution that is written takes no more than remains. -/
theorem Keeps.execute
    (keeps : generator.Keeps market)
    (roomy : generator.active.length ≤ OrderBookRegistry.room)
    {order : ActiveOrder} {rest active : List ActiveOrder} {executed : Quantity}
    (chosen : generator.active.Perm (order :: rest)) (some : 0 < executed)
    (enough : executed ≤ order.remaining)
    (left : active.Perm (if order.remaining - executed = 0 then rest
      else ⟨order.id, order.remaining - executed⟩ :: rest)) :
    Written generator market
      (⟨generator.sequence, generator.instrumentId,
          .execute ⟨order.id, executed⟩⟩,
        { generator with
          sequence := generator.sequence + 1
          active := active }) := by
  have member : order ∈ generator.active :=
    chosen.mem_iff.mpr List.mem_cons_self
  obtain ⟨book, stored, known, isBook, found, same⟩ := keeps.stored member
  have others : (book.remove order.id).shown.Perm rest := by
    have removed := Reference.shown_remove found
    rw [same] at removed
    exact (removed.symm.trans
      ((isBook ▸ keeps.orders).trans chosen)).cons_inv
  have small := (keeps.live order member).2
  have isRest : ∀ other ∈ rest, other ∈ generator.active := fun other inRest =>
    chosen.mem_iff.mpr (List.mem_cons_of_mem _ inRest)
  have fits : EventPayload.orderId (.execute ⟨order.id, executed⟩) <
        generator.sequence + 1 ∧
      EventPayload.priceField (.execute ⟨order.id, executed⟩) < 2 ^ 32 ∧
      EventPayload.quantityField (.execute ⟨order.id, executed⟩) < 2 ^ 32 ∧
      EventPayload.SideListed (.execute ⟨order.id, executed⟩) :=
    ⟨Nat.lt_succ_of_le ((keeps.unused order member).le.trans keeps.named),
      Nat.two_pow_pos 32, (enough.trans small).trans_lt (by decide), trivial⟩
  have notZero : executed ≠ 0 := Nat.ne_of_gt some
  have notMore : ¬ order.remaining < executed := Nat.not_lt_of_le enough
  by_cases whole : order.remaining - executed = 0
  · rw [if_pos whole] at left
    have all : order.remaining = executed := by lia
    have answered : market.answer ⟨generator.sequence, generator.instrumentId,
        .execute ⟨order.id, executed⟩⟩ = (book.remove order.id, .ok) := by
      simp [ReferenceMarket.answer, known, Reference.execute, found, same, all,
        notZero]
    refine keeps.change answered (others.trans left.symm) ?_ fits ?_ roomy
    · intro other inActive
      have old := isRest other (left.mem_iff.mp inActive)
      exact ⟨other, old, rfl, (keeps.live other old).1, Nat.le_refl _⟩
    · rw [left.length_eq, chosen.length_eq]
      exact Nat.le_succ _
  · rw [if_neg whole] at left
    have notAll : order.remaining ≠ executed := by lia
    have answered : market.answer ⟨generator.sequence, generator.instrumentId,
        .execute ⟨order.id, executed⟩⟩ =
          (book.setRemaining order.id stored (order.remaining - executed),
            .ok) := by
      simp [ReferenceMarket.answer, known, Reference.execute, found, same,
        notZero, notMore, notAll]
    refine keeps.change answered ?_ ?_ fits ?_ roomy
    · exact (Reference.shown_setRemaining found _).trans
        ((others.cons _).trans left.symm)
    · intro other inActive
      rcases List.mem_cons.mp (left.mem_iff.mp inActive) with rfl | inRest
      · exact ⟨order, member, rfl, Nat.pos_of_ne_zero whole, Nat.sub_le _ _⟩
      · have old := isRest other inRest
        exact ⟨other, old, rfl, (keeps.live other old).1, Nat.le_refl _⟩
    · rw [left.length_eq, chosen.length_eq]
      exact Nat.le_refl _

/-- An event that the generator writes is accepted if there is room for it. -/
theorem Keeps.next
    (keeps : generator.Keeps market)
    (roomy : generator.active.length ≤ OrderBookRegistry.room) (draw : Draw) :
    Written generator market (generator.next draw) := by
  unfold EventGenerator.next
  by_cases adds : generator.active = [] ∨ uniform 0 99 draw.operation < 65
  · rw [if_pos adds]
    exact keeps.add draw roomy
  · rw [if_neg adds]
    rw [not_or] at adds
    have inside : uniform 0 (generator.active.length - 1) draw.index <
        generator.active.length := by
      have someOrder := List.length_pos_iff.mpr adds.1
      have bounded := @uniform_le 0 (generator.active.length - 1)
        (Nat.zero_le _) draw.index
      lia
    have chosen := chosen_perm inside
    have live := (keeps.live _ (chosen.mem_iff.mpr List.mem_cons_self)).1
    split_ifs with cancels
    · exact keeps.cancel roomy chosen
    · refine keeps.execute roomy chosen (le_uniform 1 _ _)
        (uniform_le live _) ?_
      split_ifs
      · exact List.Perm.refl _
      · exact set_perm inside _

/-- What is written fits the numbers of a line. -/
theorem Written.encodable
    {draw : Draw} (written : Written generator market (generator.next draw))
    (keeps : generator.Keeps market)
    (instrumentFits : generator.instrumentId < 2 ^ 64)
    (sequenceFits : generator.sequence < 2 ^ 64) :
    (generator.next draw).1.Encodable := by
  obtain ⟨orderFits, priceFits, quantityFits, listed⟩ := written.fits
  refine ⟨?_, ?_, ?_, priceFits, quantityFits, listed⟩
  · rw [written.sequence, ← keeps.sequence]
    exact sequenceFits
  · rw [written.instrument.1]
    exact instrumentFits
  · exact (Nat.le_of_lt_succ orderFits).trans_lt sequenceFits

/-! ## A whole file -/

/-- The live orders of a generator never outgrow a book. -/
def Roomy (generator : EventGenerator) (draws : List Draw) : Prop :=
  ∀ count ≤ draws.length,
    (generator.after (draws.take count)).active.length ≤ OrderBookRegistry.room

/-- There is room at each step. -/
theorem roomy_cons
    {draw : Draw} {rest : List Draw} :
    generator.Roomy (draw :: rest) ↔
      generator.active.length ≤ OrderBookRegistry.room ∧
        (generator.next draw).2.Roomy rest := by
  constructor
  · intro roomy
    refine ⟨roomy 0 (Nat.zero_le _), fun count bounded => ?_⟩
    exact roomy (count + 1) (Nat.succ_le_succ bounded)
  · rintro ⟨first, later⟩ count bounded
    cases count with
    | zero => exact first
    | succ count => exact later count (Nat.le_of_succ_le_succ bounded)

/-- A run is accepted as far as there is room. -/
theorem Keeps.run
    (keeps : generator.Keeps market)
    (roomy : generator.active.length ≤ OrderBookRegistry.room)
    (instrumentFits : generator.instrumentId < 2 ^ 64) (draws : List Draw)
    (sequenceFits : generator.sequence + draws.length ≤ 2 ^ 64) :
    (generator.Roomy draws ∧
      (∀ event ∈ generator.events draws, event.Encodable) ∧
      (∀ answer ∈ market.answers (generator.events draws), answer = some .ok) ∧
      (generator.after draws).Keeps
        (market.afterEvents (generator.events draws))) ∨
    ∃ before draw rest, draws = before ++ draw :: rest ∧
      generator.Roomy before ∧
      OrderBookRegistry.room <
        (generator.after (before ++ [draw])).active.length ∧
      (∀ event ∈ generator.events (before ++ [draw]), event.Encodable) ∧
      (∀ answer ∈ market.answers (generator.events before),
        answer = some .ok) ∧
      ∃ event, generator.events (before ++ [draw]) =
          generator.events before ++ [event] ∧
        event.sequence =
          (market.afterEvents (generator.events before)).sequence + 1 ∧
        ((market.afterEvents (generator.events before)).apply event).2 =
          .allocationFailed := by
  induction draws generalizing generator market with
  | nil =>
      refine Or.inl ⟨fun count _ => ?_, by simp [events], by
        simp [events, ReferenceMarket.answers], keeps⟩
      simpa [after] using roomy
  | cons draw rest inductionHypothesis =>
      have written := keeps.next roomy draw
      rw [List.length_cons] at sequenceFits
      have encodable := written.encodable keeps instrumentFits (by lia)
      by_cases fits : (generator.next draw).2.active.length ≤
          OrderBookRegistry.room
      · obtain ⟨isOk, nextKeeps⟩ := written.accepted fits
        rcases inductionHypothesis nextKeeps fits
            (written.instrument.2 ▸ instrumentFits)
            (by rw [written.next]; lia) with
          ⟨laterRoomy, laterEncodable, accepted, last⟩ |
            ⟨before, bad, others, rfl, laterRoomy, tooMany, laterEncodable,
              accepted, event, shape, isNext, refused⟩
        · exact Or.inl ⟨roomy_cons.mpr ⟨roomy, laterRoomy⟩,
            List.forall_mem_cons.mpr ⟨encodable, laterEncodable⟩,
            List.forall_mem_cons.mpr ⟨isOk, accepted⟩, last⟩
        · exact Or.inr ⟨draw :: before, bad, others, rfl,
            roomy_cons.mpr ⟨roomy, laterRoomy⟩, tooMany,
            List.forall_mem_cons.mpr ⟨encodable, laterEncodable⟩,
            List.forall_mem_cons.mpr ⟨isOk, accepted⟩, event,
            congrArg _ shape, isNext, refused⟩
      · refine Or.inr ⟨[], draw, rest, rfl, fun count _ => ?_,
          Nat.lt_of_not_le fits, ?_, by simp [events, ReferenceMarket.answers],
          (generator.next draw).1, rfl, written.sequence,
          written.refused (Nat.lt_of_not_le fits)⟩
        · simpa [after] using roomy
        · simpa [events] using encodable

/-- One event is written for each draw. -/
theorem length_events (generator : EventGenerator) (draws : List Draw) :
    (generator.events draws).length = draws.length := by
  induction draws generalizing generator with
  | nil => rfl
  | cons draw rest inductionHypothesis =>
      exact congrArg (· + 1) (inductionHypothesis _)

/-- The instrument stays the same. -/
theorem next_instrumentId (generator : EventGenerator) (draw : Draw) :
    (generator.next draw).2.instrumentId = generator.instrumentId := by
  unfold next
  dsimp only
  split_ifs
  · rfl
  · rfl
  · rfl
  · rfl

/-- The instrument stays the same over the whole file. -/
theorem after_instrumentId (generator : EventGenerator) (draws : List Draw) :
    (generator.after draws).instrumentId = generator.instrumentId := by
  induction draws generalizing generator with
  | nil => rfl
  | cons draw rest inductionHypothesis =>
      exact (inductionHypothesis _).trans (next_instrumentId generator draw)

/-- An event adds at most one live order. -/
theorem length_next (generator : EventGenerator) (draw : Draw) :
    (generator.next draw).2.active.length ≤ generator.active.length + 1 := by
  have removed (index : Nat) :
      (removeAt generator.active index).length ≤ generator.active.length := by
    simp [removeAt]
  unfold next
  dsimp only
  split_ifs
  · simp
  · exact (removed _).trans (Nat.le_succ _)
  · exact (removed _).trans (Nat.le_succ _)
  · simp

/-- A draw adds one order at most. -/
theorem length_after (generator : EventGenerator) (draws : List Draw) :
    (generator.after draws).active.length ≤
      generator.active.length + draws.length := by
  induction draws generalizing generator with
  | nil => exact Nat.le_refl _
  | cons draw rest inductionHypothesis =>
      have first := length_next generator draw
      have later := inductionHypothesis (generator.next draw).2
      rw [List.length_cons]
      exact later.trans (by lia)

/-- A longer run goes on where the shorter one ended. -/
theorem events_append
    (generator : EventGenerator) (first second : List Draw) :
    generator.events (first ++ second) =
      generator.events first ++ (generator.after first).events second := by
  induction first generalizing generator with
  | nil => rfl
  | cons draw rest inductionHypothesis =>
      exact congrArg _ (inductionHypothesis _)

end EventGenerator

/-- A registry of one instrument counts the orders of its book. -/
theorem OrderBookRegistry.orderCount_of_only
    {registry : OrderBookRegistry} {instrumentId : InstrumentId}
    (only : ∀ other, other ≠ instrumentId → registry.books.find? other = none) :
    registry.orderCount = (registry.bookOf instrumentId).orderCount := by
  have gone : registry.books.erase instrumentId = .empty := by
    refine OrderedMap.ext_find? fun other => ?_
    by_cases own : other = instrumentId
    · simp [own]
    · simp [own, only other own]
  unfold OrderBookRegistry.orderCount OrderBookRegistry.bookOf
  cases found : registry.books.find? instrumentId with
  | none =>
      rw [← OrderedMap.erase_of_find?_none found, gone]
      rfl
  | some book =>
      rw [OrderedMap.total_erase_of_find?_some found, gone]
      rfl

namespace EventGenerator

open EventCsv EventReplay

variable {market : ReferenceMarket} {instrumentId : InstrumentId}
  {draws : List Draw}

/-- The registry of a replay holds the live orders of the generator. -/
theorem Keeps.registry
    {generator : EventGenerator} (keeps : generator.Keeps market)
    {registry : OrderBookRegistry} (mirrors : registry.Mirrors market) :
    registry.orderCount = generator.active.length ∧
      ∀ order, order ∈ generator.active ↔
        (registry.bookOf generator.instrumentId).remainingQuantity order.id =
          some order.remaining := by
  obtain ⟨refines, _⟩ := mirrors.bookOf generator.instrumentId
  have shows := refines.shows
  constructor
  · rw [OrderBookRegistry.orderCount_of_only fun other apart => ?_,
      refines.orderCount_eq, keeps.length]
    have related := mirrors.books other
    rw [keeps.only other apart] at related
    generalize registry.books.find? other = found at related
    cases related
    rfl
  · intro order
    rw [← keeps.orders.mem_iff, Reference.mem_shown, shows.remainingQuantity]
    simp [Reference.order, Reference.view]

/-- Both begin with no order. -/
theorem keeps_start (instrumentId : InstrumentId) :
    Keeps { instrumentId := instrumentId } {} where
  sequence := rfl
  orders := .refl _
  unused := by simp
  live := by simp
  named := Nat.le_refl _
  only _ _ := rfl

/--
Whatever the random numbers are, a replay accepts a generated file to its end
and has the live orders of the generator then, if these never outgrow a book.
Otherwise it stops at the first order for which there is no room.
-/
theorem generated_replay
    (instrumentFits : instrumentId < 2 ^ 64) (counted : draws.length < 2 ^ 64) :
    let start : EventGenerator := { instrumentId := instrumentId }
    (start.Roomy draws ∧ ∃ state : EventReplay,
      readLines (fun _ => {}) {} (fileLines (generate instrumentId draws)) =
        .ok state ∧
      replay (fun _ => {}) (generate instrumentId draws) = .ok state.report ∧
      state.eventCount = draws.length ∧
      state.registry.orderCount = (start.after draws).active.length ∧
      ∀ order, order ∈ (start.after draws).active ↔
        (state.registry.bookOf instrumentId).remainingQuantity order.id =
          some order.remaining) ∨
    ∃ before draw rest, draws = before ++ draw :: rest ∧
      start.Roomy before ∧
      OrderBookRegistry.room <
        (start.after (before ++ [draw])).active.length ∧
      replay (fun _ => {}) (generate instrumentId draws) =
        .error (.applyError (before.length + 2) .allocationFailed) := by
  intro start
  have lines := fileLines_eventFile (start.events draws)
  rcases (keeps_start instrumentId).run (Nat.zero_le _) instrumentFits draws
      (by change 1 + draws.length ≤ 2 ^ 64; lia) with
    ⟨roomy, encodable, accepted, keeps⟩ |
      ⟨before, draw, rest, rfl, roomy, tooMany, encodable, accepted, event,
        shape, isNext, refused⟩
  · have passes := passes_eventLines encodable accepted
    rw [← lines] at passes
    have read : lineEvents (fileLines (generate instrumentId draws)) =
        start.events draws := by
      rw [generate, lines]
      exact (lineEvents_cons_skipped (by decide) _).trans
        (lineEvents_eventLine encodable)
    obtain ⟨count, orders⟩ := keeps.registry
      (OrderBookRegistry.mirrors_empty.afterEvents (start.events draws)).2
    have finished : readLines (fun _ => {}) {}
        (fileLines (generate instrumentId draws)) =
          .ok (advanced {} (fileLines (generate instrumentId draws))) :=
      Passes.read passes OrderBookRegistry.mirrors_empty
    refine Or.inl ⟨roomy, _, finished, passes.replay, ?_, ?_⟩
    · exact (Nat.zero_add _).trans
        ((congrArg List.length read).trans (length_events start draws))
    · have registry : (advanced {} (fileLines
          (generate instrumentId draws))).registry =
            OrderBookRegistry.afterEvents {} (start.events draws) :=
        congrArg (OrderBookRegistry.afterEvents {}) read
      rw [← registry] at count orders
      rw [after_instrumentId] at orders
      exact ⟨count, orders⟩
  · have written : start.events (before ++ draw :: rest) =
        start.events before ++ event ::
          (start.after (before ++ [draw])).events rest := by
      rw [List.append_cons before draw rest, events_append, shape,
        List.append_assoc]
      rfl
    rw [shape] at encodable
    have eventEncodable := encodable event (by simp)
    have passes := passes_eventLines
      (fun other member => encodable other (List.mem_append_left _ member))
      accepted
    refine Or.inr ⟨before, draw, rest, rfl, roomy, tooMany, ?_⟩
    rw [written, List.map_append, List.map_cons] at lines
    have read : lineEvents (writeCsvHeader.dropLast ::
        (start.events before).map eventLine) = start.events before :=
      (lineEvents_cons_skipped (by decide) _).trans
        (lineEvents_eventLine fun other member =>
          encodable other (List.mem_append_left _ member))
    have explains : Explains
        (ReferenceMarket.afterEvents {} (lineEvents (writeCsvHeader.dropLast ::
          (start.events before).map eventLine)))
        ((writeCsvHeader.dropLast ::
          (start.events before).map eventLine).length + 1)
        (eventLine event) (.applyError (before.length + 2)
          .allocationFailed) := by
      rw [read, List.length_cons, List.length_map, length_events]
      exact .refused (accepted_eventLine eventEncodable) isNext refused
        (by decide)
    exact explains.replay (written ▸ lines) passes

/-- Two orders are added, and the first is executed in part. -/
theorem generated_replay_partial :
    ∃ state : EventReplay,
      readLines (fun _ => {}) {} (fileLines (generate 7
          [{ quantity := 9 }, {}, { operation := 90, executed := 1 }])) =
        .ok state ∧
      state.eventCount = 3 ∧ state.registry.orderCount = 2 := by
  let draws : List Draw :=
    [{ quantity := 9 }, {}, { operation := 90, executed := 1 }]
  have orders : (after { instrumentId := 7 } draws).active.length = 2 := by
    decide
  rcases @generated_replay 7 draws (by decide) (by decide) with
    ⟨_, state, finished, _, count, live, _⟩ |
      ⟨before, draw, rest, shape, _, tooMany, _⟩
  · exact ⟨state, finished, count, live.trans orders⟩
  · have bounded := length_after { instrumentId := 7 } (before ++ [draw])
    have lengths := congrArg List.length shape
    rw [List.length_append, List.length_singleton] at bounded
    rw [List.length_append, List.length_cons] at lengths
    change 512 < _ at tooMany
    change _ ≤ 0 + (before.length + 1) at bounded
    change 3 = _ at lengths
    lia

end EventGenerator

end LimitOrderBook
