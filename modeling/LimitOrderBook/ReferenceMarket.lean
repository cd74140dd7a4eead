import LimitOrderBook.OrderBookConsistency
import LimitOrderBook.OrderBookRefinement
import LimitOrderBook.OrderBookRegistry
import Mathlib.Logic.Function.Basic

namespace LimitOrderBook

/-!
# The market that a registry stands for

A market has one flat reference book for each instrument that was ever traded.
A book has room for so many orders; nothing else limits it.  With a heap that
refuses nothing, a registry answers every event of every stream as its market
does, and each of its books shows what the reference book shows.
-/

/-- The orders that the pool of a registry's book has room for. -/
def OrderBookRegistry.room : Nat := 512

structure ReferenceMarket where
  sequence : Sequence := 0
  books : InstrumentId → Option Reference := fun _ => none

namespace ReferenceMarket

/-- The book of an instrument, or an empty one. -/
def book (market : ReferenceMarket) (instrumentId : InstrumentId) : Reference :=
  (market.books instrumentId).getD {}

/-- An addition to a book with so much room. -/
def addWithin (room : Nat) (book : Reference) (event : AddOrder) :
    Reference × ApplyResult :=
  if (book.add event).2 = .ok ∧ book.orders.size = room then
    (book, .allocationFailed)
  else
    book.add event

/-- What the book of an event's instrument makes of it. -/
def answer (market : ReferenceMarket) (event : MarketEvent) :
    Reference × ApplyResult :=
  match event.payload, market.books event.instrumentId with
  | .add add, _ =>
      addWithin OrderBookRegistry.room (market.book event.instrumentId) add
  | .cancel cancel, some book => book.cancel cancel.orderId
  | .execute execute, some book => book.execute execute.orderId execute.quantity
  | _, none => ({}, .unknownInstrument)

def apply (market : ReferenceMarket) (event : MarketEvent) :
    ReferenceMarket × ApplyResult :=
  if (market.answer event).2 = .ok then
    ({ sequence := event.sequence
       books := Function.update market.books event.instrumentId
        (some (market.answer event).1) },
      .ok)
  else
    (market, (market.answer event).2)

/-- Events out of turn have no answer. -/
def offer (market : ReferenceMarket) (event : MarketEvent) :
    ReferenceMarket × Option ApplyResult :=
  if event.sequence = market.sequence + 1 then
    ((market.apply event).1, some (market.apply event).2)
  else
    (market, none)

def afterEvents (market : ReferenceMarket) (events : List MarketEvent) :
    ReferenceMarket :=
  events.foldl (fun market event => (market.offer event).1) market

/-- The answers to a list of events. -/
def answers (market : ReferenceMarket) : List MarketEvent →
    List (Option ApplyResult)
  | [] => []
  | event :: rest =>
      (market.offer event).2 :: answers (market.offer event).1 rest

end ReferenceMarket

namespace OrderBook.Refines

variable {book : OrderBook} {reference : Reference}

/-- Only an addition that its arguments allow can run out of memory. -/
theorem addable_of_failed
    {heap : HeapGrants} {event : AddOrder}
    (failed : (book.applyAdd heap event).2 = .allocationFailed) :
    book.Addable event := by
  by_cases quantityPos : event.quantity = 0
  · simp [applyAdd, quantityPos] at failed
  by_cases pricePos : event.price = 0
  · simp [applyAdd, quantityPos, pricePos] at failed
  cases found : book.ordersById.find? event.orderId with
  | some location =>
      simp [applyAdd, quantityPos, pricePos, OrderedMap.contains, found]
        at failed
  | none =>
      by_cases listed : event.side.Listed
      · exact ⟨quantityPos, pricePos, found, listed⟩
      · simp [applyAdd, quantityPos, pricePos, OrderedMap.contains, found,
          listed] at failed

theorem add_of_addable
    (refines : book.Refines reference) {event : AddOrder}
    (addable : book.Addable event) :
    reference.add event = (reference.arrive event, .ok) := by
  have unused : reference.orders.contains event.orderId = false := by
    rw [← refines.contains_eq]
    simp [OrderedMap.contains, addable.unused]
  simp [Reference.add, addable.quantityPos, addable.pricePos, unused,
    addable.listed]

/-- With a working heap a book follows a reference that has its room. -/
theorem add_within
    (refines : book.Refines reference) (event : AddOrder) :
    (book.applyAdd {} event).2 =
        (ReferenceMarket.addWithin book.slots reference event).2 ∧
      ((book.applyAdd {} event).2 = .ok →
        (book.applyAdd {} event).1.Refines
          (ReferenceMarket.addWithin book.slots reference event).1) := by
  have sameCount := refines.orderCount_eq
  by_cases failed : (book.applyAdd {} event).2 = .allocationFailed
  · have addable := addable_of_failed failed
    have full : reference.orders.size = book.slots :=
      sameCount.symm.trans ((refines.wf.refused_iff_full addable).mp failed)
    have refused : ReferenceMarket.addWithin book.slots reference event =
        (reference, .allocationFailed) := by
      rw [ReferenceMarket.addWithin, refines.add_of_addable addable]
      exact if_pos ⟨rfl, full⟩
    rw [refused, failed]
    exact ⟨rfl, fun isOk => nomatch isOk⟩
  · obtain ⟨sameAnswer, next⟩ := refines.add_follows {} event failed
    have roomy : ReferenceMarket.addWithin book.slots reference event =
        reference.add event := by
      refine if_neg fun ⟨isOk, full⟩ => failed ?_
      have addable := addable_of_ok (sameAnswer.trans isOk)
      exact (refines.wf.refused_iff_full addable).mpr (sameCount.trans full)
    rw [roomy]
    exact ⟨sameAnswer, fun _ => next⟩

end OrderBook.Refines

namespace OrderBookRegistry

variable {registry : OrderBookRegistry} {market : ReferenceMarket}

/-- A registry and a market that hold the same orders in the same order. -/
structure Mirrors (registry : OrderBookRegistry) (market : ReferenceMarket) :
    Prop where
  sequence : registry.sequence = market.sequence
  ready : registry.BooksReady
  books : ∀ instrumentId,
    Option.Rel (fun (book : OrderBook) reference =>
        book.Refines reference ∧ book.slots = room)
      (registry.books.find? instrumentId) (market.books instrumentId)

theorem newBook_slots : newBook.slots = room := by
  decide

theorem Mirrors.bookOf
    (mirrors : registry.Mirrors market) (instrumentId : InstrumentId) :
    (registry.bookOf instrumentId).Refines (market.book instrumentId) ∧
      (registry.bookOf instrumentId).slots = room := by
  have related := mirrors.books instrumentId
  rw [OrderBookRegistry.bookOf, ReferenceMarket.book]
  generalize registry.books.find? instrumentId = found at related
  generalize market.books instrumentId = stored at related
  cases related with
  | some related => exact related
  | none => exact ⟨OrderBook.Refines.start _ (by decide), newBook_slots⟩

/-- The answer of a registry is that of the book of the instrument. -/
theorem apply_answer (registry : OrderBookRegistry) (event : MarketEvent) :
    (registry.apply {} event).2 =
      (registry.applyPayload {} event.instrumentId event.payload).2 := by
  simp only [apply]
  split_ifs with isOk
  · rfl
  · rfl

theorem Mirrors.answer
    (mirrors : registry.Mirrors market) (event : MarketEvent) :
    (registry.apply {} event).2 = (market.answer event).2 := by
  rw [apply_answer]
  obtain ⟨sequence, instrumentId, payload⟩ := event
  have related := mirrors.books instrumentId
  obtain ⟨refines, slots⟩ := mirrors.bookOf instrumentId
  cases payload with
  | add add =>
      have same := (refines.add_within add).1
      rw [slots] at same
      refine Eq.trans ?_ same
      simp only [applyPayload, applyAdd, tryEmplace, OrderBookRegistry.bookOf]
      cases registry.books.find? instrumentId with
      | some book => rfl
      | none => rfl
  | cancel cancel =>
      simp only [applyPayload, applyCancel, applyFound,
        ReferenceMarket.answer]
      generalize registry.books.find? instrumentId = found at related
      generalize market.books instrumentId = stored at related
      cases related with
      | some related => exact (related.1.cancel_follows cancel).1
      | none => rfl
  | execute execute =>
      simp only [applyPayload, applyExecute, applyFound,
        ReferenceMarket.answer]
      generalize registry.books.find? instrumentId = found at related
      generalize market.books instrumentId = stored at related
      cases related with
      | some related => exact (related.1.execute_follows execute).1
      | none => rfl

/-- The book that takes an event follows the book of the market. -/
theorem Mirrors.taken
    (mirrors : registry.Mirrors market) {event : MarketEvent}
    {next : OrderBook}
    (done : (registry.bookOf event.instrumentId).call
      (event.payload.call {}) = (next, .ok))
    (isOk : (market.answer event).2 = .ok) :
    next.Refines (market.answer event).1 ∧ next.slots = room := by
  obtain ⟨sequence, instrumentId, payload⟩ := event
  obtain ⟨refines, slots⟩ := mirrors.bookOf instrumentId
  have sameSlots := (refines.wf.call_wf (payload.call {})).2
  rw [done] at sameSlots
  refine ⟨?_, sameSlots.trans slots⟩
  cases payload with
  | add add =>
      have follows := (refines.add_within add).2
      have answered : (registry.bookOf instrumentId).applyAdd {} add =
        (next, .ok) := done
      rw [answered, slots] at follows
      exact follows rfl
  | cancel cancel =>
      have follows := refines.cancel_follows cancel
      have answered : (registry.bookOf instrumentId).applyCancel cancel =
        (next, .ok) := done
      rw [answered] at follows
      simp only [ReferenceMarket.answer, ReferenceMarket.book] at isOk follows ⊢
      cases stored : market.books instrumentId with
      | none => simp [stored] at isOk
      | some book =>
          rw [stored] at follows
          exact follows.2
  | execute execute =>
      have follows := refines.execute_follows execute
      have answered : (registry.bookOf instrumentId).applyExecute execute =
        (next, .ok) := done
      rw [answered] at follows
      simp only [ReferenceMarket.answer, ReferenceMarket.book] at isOk follows ⊢
      cases stored : market.books instrumentId with
      | none => simp [stored] at isOk
      | some book =>
          rw [stored] at follows
          exact follows.2

theorem Mirrors.apply
    (mirrors : registry.Mirrors market) (event : MarketEvent) :
    (registry.apply {} event).2 = (market.apply event).2 ∧
      (registry.apply {} event).1.Mirrors (market.apply event).1 := by
  have answer := mirrors.answer event
  have takes := apply_takes mirrors.ready {} event
  generalize isApplied : registry.apply {} event = applied at answer takes
  unfold ReferenceMarket.apply
  cases takes with
  | refused refused =>
      have notOk : (market.answer event).2 ≠ .ok := fun isOk =>
        refused (Eq.trans answer isOk)
      rw [if_neg notOk]
      exact ⟨answer, mirrors⟩
  | @taken next done wf initialised =>
      have isOk : (market.answer event).2 = .ok := answer.symm
      rw [if_pos isOk]
      refine ⟨rfl, rfl, ?_, fun instrumentId => ?_⟩
      · intro instrumentId book found
        rw [OrderedMap.find?_insert] at found
        split_ifs at found
        · cases found
          exact ⟨wf, initialised⟩
        · exact mirrors.ready _ _ found
      · rw [OrderedMap.find?_insert]
        by_cases own : instrumentId = event.instrumentId
        · subst own
          simp only [if_true, Function.update_self]
          exact .some (mirrors.taken done isOk)
        · simp only [own, if_false, Function.update_of_ne own]
          exact mirrors.books instrumentId

theorem Mirrors.offer
    (mirrors : registry.Mirrors market) (event : MarketEvent) :
    (registry.offer { event := event }).2 = (market.offer event).2 ∧
      (registry.offer { event := event }).1.Mirrors (market.offer event).1 := by
  have inTurn : registry.seqValid event.sequence = true ↔
      event.sequence = market.sequence + 1 := by
    rw [seqValid, decide_eq_true_eq, mirrors.sequence]
    lia
  obtain ⟨answer, next⟩ := mirrors.apply event
  unfold OrderBookRegistry.offer ReferenceMarket.offer
  by_cases isNext : event.sequence = market.sequence + 1
  · rw [if_pos (inTurn.mpr isNext), if_pos isNext]
    exact ⟨congrArg some answer, next⟩
  · rw [if_neg (mt inTurn.mp isNext), if_neg isNext]
    exact ⟨rfl, mirrors⟩

/-- The answers to a list of events, from a heap that refuses nothing. -/
def answers (registry : OrderBookRegistry) : List MarketEvent →
    List (Option ApplyResult)
  | [] => []
  | event :: rest =>
      (registry.offer { event := event }).2 ::
        answers (registry.offer { event := event }).1 rest

/-- The registry after some events, with a heap that refuses nothing. -/
def afterEvents (registry : OrderBookRegistry) (events : List MarketEvent) :
    OrderBookRegistry :=
  registry.afterOffers (events.map fun event => { event := event })

theorem Mirrors.afterEvents
    (mirrors : registry.Mirrors market) (events : List MarketEvent) :
    registry.answers events = market.answers events ∧
      (registry.afterEvents events).Mirrors (market.afterEvents events) := by
  induction events generalizing registry market with
  | nil => exact ⟨rfl, mirrors⟩
  | cons event rest inductionHypothesis =>
      obtain ⟨answer, next⟩ := mirrors.offer event
      obtain ⟨answers, last⟩ := inductionHypothesis next
      refine ⟨?_, last⟩
      rw [OrderBookRegistry.answers, ReferenceMarket.answers, answer, answers]

theorem mirrors_empty : Mirrors {} {} where
  sequence := rfl
  ready := tracks_empty.ready
  books _ := .none

/--
A registry answers every stream of events as its market does, also when events
come out of turn or a book is full, and afterwards it has the books of the
market and each shows the orders of its reference in the same places.
-/
theorem registry_refines (events : List MarketEvent) :
    answers {} events = ReferenceMarket.answers {} events ∧
      (afterEvents {} events).getSeq =
        (ReferenceMarket.afterEvents {} events).sequence ∧
      ∀ instrumentId,
        Option.Rel OrderBook.Shows
          ((afterEvents {} events).books.find? instrumentId)
          ((ReferenceMarket.afterEvents {} events).books instrumentId) := by
  obtain ⟨answers, mirrors⟩ := mirrors_empty.afterEvents events
  refine ⟨answers, mirrors.sequence, fun instrumentId => ?_⟩
  have related := mirrors.books instrumentId
  generalize (afterEvents {} events).books.find? instrumentId = found at related
  generalize (ReferenceMarket.afterEvents {} events).books instrumentId =
    stored at related
  cases related with
  | some related => exact .some related.1.shows
  | none => exact .none

end OrderBookRegistry

end LimitOrderBook
