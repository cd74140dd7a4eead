import LimitOrderBook.OrderBookCalls
import Mathlib.Data.List.Range

namespace LimitOrderBook

/-!
# The registry of books

The model of `core/order_registry.hpp`: one stream of numbered events drives
one book per instrument.  The heap may refuse a new map node, the storage of
the new book's pool and every request of the book itself.

Every book of the registry has answered `Ok` to an addition, so its pool is
set up and a failed event leaves it exactly alone.  From that case list follow
the numbering of the stream, the atomicity of failures and the independence of
the instruments.
-/

/-- Which heap requests of one event are granted. -/
structure RegistryGrants where
  book : Bool := true
  heap : HeapGrants := {}

structure OrderBookRegistry where
  sequence : Sequence := 0
  books : OrderedMap InstrumentId OrderBook (· < ·) := .empty
  deriving DecidableEq

/-- The call that an event makes on its book. -/
def EventPayload.call (heap : HeapGrants) : EventPayload → BookCall
  | .add event => .add heap event
  | .cancel event => .cancel event
  | .execute event => .execute event

namespace OrderBookRegistry

/-- `OrderBook()`; its storage is aligned as `operator new` does. -/
def newBook : OrderBook :=
  .ofPool 4096 capacityBytes

/--
`try_emplace` of a new book: the book and whether it was created, or nothing
when `std::bad_alloc` leaves the map as it was.
-/
def tryEmplace
    (registry : OrderBookRegistry) (grants : RegistryGrants)
    (instrumentId : InstrumentId) : Option (OrderBook × Bool) :=
  match registry.books.find? instrumentId with
  | some book => some (book, false)
  | none => if grants.book then some (newBook, true) else none

/-- `apply(AddOrder)`. -/
def applyAdd
    (registry : OrderBookRegistry) (grants : RegistryGrants)
    (event : AddOrder) (instrumentId : InstrumentId) :
    OrderBookRegistry × ApplyResult :=
  match registry.tryEmplace grants instrumentId with
  | none => (registry, .allocationFailed)
  | some (book, inserted) =>
      let (next, result) := book.applyAdd grants.heap event
      let books := registry.books.insert instrumentId next
      ({ registry with
          books :=
            if inserted ∧ result ≠ .ok then
              books.erase instrumentId
            else
              books },
        result)

/-- What cancellations and executions do on the book of an instrument. -/
def applyFound
    (registry : OrderBookRegistry) (instrumentId : InstrumentId)
    (operation : OrderBook → OrderBook × ApplyResult) :
    OrderBookRegistry × ApplyResult :=
  match registry.books.find? instrumentId with
  | some book =>
      let (next, result) := operation book
      ({ registry with books := registry.books.insert instrumentId next },
        result)
  | none => (registry, .unknownInstrument)

/-- `apply(CancelOrder)`. -/
def applyCancel
    (registry : OrderBookRegistry) (event : CancelOrder)
    (instrumentId : InstrumentId) : OrderBookRegistry × ApplyResult :=
  registry.applyFound instrumentId (·.applyCancel event)

/-- `apply(ExecuteOrder)`. -/
def applyExecute
    (registry : OrderBookRegistry) (event : ExecuteOrder)
    (instrumentId : InstrumentId) : OrderBookRegistry × ApplyResult :=
  registry.applyFound instrumentId (·.applyExecute event)

/-- The `std::visit` of `apply`. -/
def applyPayload
    (registry : OrderBookRegistry) (grants : RegistryGrants)
    (instrumentId : InstrumentId) :
    EventPayload → OrderBookRegistry × ApplyResult
  | .add event => registry.applyAdd grants event instrumentId
  | .cancel event => registry.applyCancel event instrumentId
  | .execute event => registry.applyExecute event instrumentId

def apply
    (registry : OrderBookRegistry) (grants : RegistryGrants)
    (event : MarketEvent) : OrderBookRegistry × ApplyResult :=
  let (after, result) :=
    registry.applyPayload grants event.instrumentId event.payload
  if result = .ok then
    ({ after with sequence := event.sequence }, result)
  else
    (after, result)

def seqValid (registry : OrderBookRegistry) (seq : Sequence) : Bool :=
  decide (registry.sequence < seq ∧ seq - registry.sequence = 1)

def getSeq (registry : OrderBookRegistry) : Sequence :=
  registry.sequence

/-! ## A stream of offered events -/

/-- An event that arrives, with what the heap will grant it. -/
structure Offer where
  event : MarketEvent
  grants : RegistryGrants := {}

/-- The hosts' use of the registry: out-of-turn events are not applied. -/
def offer (registry : OrderBookRegistry) (offered : Offer) :
    OrderBookRegistry × Option ApplyResult :=
  if registry.seqValid offered.event.sequence then
    let (after, result) := registry.apply offered.grants offered.event
    (after, some result)
  else
    (registry, none)

/-- The registry after a stream. -/
def afterOffers (registry : OrderBookRegistry) (offers : List Offer) :
    OrderBookRegistry :=
  offers.foldl (fun registry offered => (registry.offer offered).1) registry

/-- The events of a stream that were applied with `Ok`. -/
def accepted : OrderBookRegistry → List Offer → List MarketEvent
  | _, [] => []
  | registry, offered :: rest =>
      let (after, answer) := registry.offer offered
      if answer = some .ok then
        offered.event :: accepted after rest
      else
        accepted after rest

/-- A fresh book after the events of one instrument. -/
def replayed (instrumentId : InstrumentId) (events : List MarketEvent) :
    OrderBook :=
  newBook.afterCalls
    ((events.filter fun event => event.instrumentId = instrumentId).map
      fun event => event.payload.call {})

/-! ## One event -/

/-- Every book is well formed and has served an order. -/
def BooksReady (registry : OrderBookRegistry) : Prop :=
  ∀ instrumentId book, registry.books.find? instrumentId = some book →
    book.Wf ∧ book.Initialised

/-- The book of an instrument, or the one its first event would get. -/
def bookOf (registry : OrderBookRegistry) (instrumentId : InstrumentId) :
    OrderBook :=
  (registry.books.find? instrumentId).getD newBook

theorem newBook_wf : newBook.Wf :=
  OrderBook.ofPool_wf (by decide)

/-- A call on a book that has served an order changes it or leaves it. -/
theorem call_answers
    {book : OrderBook} (wf : book.Wf) (initialised : book.Initialised)
    (heap : HeapGrants) (payload : EventPayload) :
    ((book.call (payload.call heap)).2 ≠ .ok ∧
      (book.call (payload.call heap)).1 = book) ∨
    ∃ next, book.call (payload.call heap) = (next, .ok) ∧
      book.call (payload.call {}) = (next, .ok) ∧
      next.Wf ∧ next.Initialised := by
  rcases wf.call_ends (payload.call heap) with
    ⟨result, isRefusal, refused⟩ | ⟨next, failed, facts⟩ |
      ⟨next, done, facts⟩
  · exact Or.inl ⟨by rwa [refused], by rw [refused]⟩
  · rw [failed]
    refine Or.inl ⟨by simp, ?_⟩
    exact facts.restored.eq_of_initialised initialised
  · refine Or.inr ⟨next, done, ?_⟩
    cases payload with
    | add event =>
        obtain ⟨granted, init⟩ := OrderBook.applyAdd_answers_ok done
        exact ⟨granted, facts.wf, init⟩
    | cancel event =>
        exact ⟨done, facts.wf, initialised.applyCancel done⟩
    | execute event =>
        exact ⟨done, facts.wf, initialised.applyExecute done⟩

/-- How one event ends: nothing is left behind, or one book takes it. -/
inductive Takes (registry : OrderBookRegistry) (event : MarketEvent) :
    OrderBookRegistry × ApplyResult → Prop where
  | refused {result : ApplyResult} :
      result ≠ .ok → Takes registry event (registry, result)
  | taken {next : OrderBook} :
      (registry.bookOf event.instrumentId).call (event.payload.call {}) =
        (next, .ok) →
      next.Wf → next.Initialised →
      Takes registry event
        (⟨event.sequence, registry.books.insert event.instrumentId next⟩, .ok)

variable {registry : OrderBookRegistry}

/-- An addition to a new book refuses, fails or sets its pool up. -/
theorem newBook_answers (heap : HeapGrants) (event : AddOrder) :
    (newBook.applyAdd heap event).2 ≠ .ok ∨
    ∃ next, newBook.applyAdd heap event = (next, .ok) ∧
      newBook.applyAdd {} event = (next, .ok) ∧
      next.Wf ∧ next.Initialised := by
  by_cases answer : (newBook.applyAdd heap event).2 = .ok
  · have added : newBook.applyAdd heap event =
        ((newBook.applyAdd heap event).1, .ok) := Prod.ext rfl answer
    obtain ⟨granted, init⟩ := OrderBook.applyAdd_answers_ok added
    exact Or.inr ⟨_, added, granted, (newBook_wf.call_wf (.add heap event)).1,
      init⟩
  · exact Or.inl answer

theorem applyFound_takes
    (ready : registry.BooksReady) {event : MarketEvent} {heap : HeapGrants}
    {operation : OrderBook → OrderBook × ApplyResult}
    (calls : ∀ book : OrderBook,
      operation book = book.call (event.payload.call heap)) :
    let outcome := registry.applyFound event.instrumentId operation
    Takes registry event
      (if outcome.2 = .ok then
        ({ outcome.1 with sequence := event.sequence }, outcome.2)
      else
        outcome) := by
  intro outcome
  cases found : registry.books.find? event.instrumentId with
  | none =>
      have missing : outcome = (registry, .unknownInstrument) := by
        simp [outcome, applyFound, found]
      rw [missing]
      exact .refused (by decide)
  | some book =>
      have ran : outcome =
          (⟨registry.sequence, registry.books.insert event.instrumentId
              (book.call (event.payload.call heap)).1⟩,
            (book.call (event.payload.call heap)).2) := by
        simp [outcome, applyFound, found, calls]
      rw [ran]
      obtain ⟨wf, initialised⟩ := ready _ _ found
      rcases call_answers wf initialised heap event.payload with
        ⟨isRefusal, same⟩ | ⟨next, done, granted, nextWf, nextInit⟩
      · simp only [isRefusal, if_false, same,
          OrderedMap.insert_of_find?_some found]
        exact .refused isRefusal
      · simp only [done, if_true]
        exact .taken (by rwa [bookOf, found]) nextWf nextInit

theorem applyAdd_takes
    (ready : registry.BooksReady) (grants : RegistryGrants)
    (sequence : Sequence) (instrumentId : InstrumentId) (event : AddOrder) :
    let outcome := registry.applyAdd grants event instrumentId
    Takes registry ⟨sequence, instrumentId, .add event⟩
      (if outcome.2 = .ok then
        ({ outcome.1 with sequence := sequence }, outcome.2)
      else
        outcome) := by
  intro outcome
  cases found : registry.books.find? instrumentId with
  | some book =>
      have same : outcome =
          registry.applyFound instrumentId (·.applyAdd grants.heap event) := by
        simp [outcome, applyAdd, applyFound, tryEmplace, found]
      rw [same]
      exact @applyFound_takes registry ready
        ⟨sequence, instrumentId, .add event⟩ grants.heap _ fun _ => rfl
  | none =>
      cases given : grants.book with
      | false =>
          have missing : outcome = (registry, .allocationFailed) := by
            simp [outcome, applyAdd, tryEmplace, found, given]
          rw [missing]
          exact .refused (by decide)
      | true =>
          rcases newBook_answers grants.heap event with
            isRefusal | ⟨next, added, granted, nextWf, nextInit⟩
          · have undone : outcome =
                (registry, (newBook.applyAdd grants.heap event).2) := by
              simp [outcome, applyAdd, tryEmplace, found, given, isRefusal,
                OrderedMap.erase_of_find?_none found]
            simp only [undone, isRefusal, if_false]
            exact .refused isRefusal
          · have kept : outcome =
                (⟨registry.sequence,
                  registry.books.insert instrumentId next⟩, .ok) := by
              simp [outcome, applyAdd, tryEmplace, found, given, added]
            simp only [kept, if_true]
            refine .taken ?_ nextWf nextInit
            rw [bookOf, found]
            exact granted

/-- Every event leaves nothing behind or is taken by one book. -/
theorem apply_takes
    (ready : registry.BooksReady) (grants : RegistryGrants)
    (event : MarketEvent) :
    Takes registry event (registry.apply grants event) := by
  obtain ⟨sequence, instrumentId, payload⟩ := event
  cases payload with
  | add event => exact applyAdd_takes ready grants sequence instrumentId event
  | cancel event =>
      exact @applyFound_takes registry ready
        ⟨sequence, instrumentId, .cancel event⟩ {} _ fun _ => rfl
  | execute event =>
      exact @applyFound_takes registry ready
        ⟨sequence, instrumentId, .execute event⟩ {} _ fun _ => rfl

/-! ## Whole streams -/

/-- What a registry shows of the events it has taken so far. -/
structure Tracks (registry : OrderBookRegistry) (taken : List MarketEvent) :
    Prop where
  ready : registry.BooksReady
  numbered : taken.map MarketEvent.sequence = List.range' 1 registry.getSeq
  books : ∀ instrumentId,
    registry.books.find? instrumentId =
      if ∃ event ∈ taken, event.instrumentId = instrumentId then
        some (replayed instrumentId taken)
      else
        none

theorem replayed_append
    (instrumentId : InstrumentId) (taken : List MarketEvent)
    (event : MarketEvent) :
    replayed instrumentId (taken ++ [event]) =
      if event.instrumentId = instrumentId then
        ((replayed instrumentId taken).call (event.payload.call {})).1
      else
        replayed instrumentId taken := by
  unfold replayed
  by_cases own : event.instrumentId = instrumentId
  · simp [own, OrderBook.afterCalls]
  · simp [own]

theorem Tracks.bookOf_eq
    {taken : List MarketEvent} (tracks : registry.Tracks taken)
    (instrumentId : InstrumentId) :
    registry.bookOf instrumentId = replayed instrumentId taken := by
  rw [bookOf, tracks.books]
  split_ifs with known
  · rfl
  · have none : (taken.filter fun event =>
        event.instrumentId = instrumentId) = [] := by
      rw [List.filter_eq_nil_iff]
      intro event member own
      exact known ⟨event, member, by simpa using own⟩
    simp [replayed, none, OrderBook.afterCalls]

theorem Tracks.taken
    {taken : List MarketEvent} (tracks : registry.Tracks taken)
    {event : MarketEvent} (inTurn : registry.seqValid event.sequence = true)
    {next : OrderBook}
    (done : (registry.bookOf event.instrumentId).call
      (event.payload.call {}) = (next, .ok))
    (nextWf : next.Wf) (nextInit : next.Initialised) :
    Tracks
      ⟨event.sequence, registry.books.insert event.instrumentId next⟩
      (taken ++ [event]) where
  ready := by
    intro instrumentId book found
    rw [OrderedMap.find?_insert] at found
    split_ifs at found
    · cases found
      exact ⟨nextWf, nextInit⟩
    · exact tracks.ready _ _ found
  numbered := by
    have isNext : event.sequence = registry.getSeq + 1 := by
      simp only [seqValid, decide_eq_true_eq] at inTurn
      unfold getSeq
      lia
    rw [List.map_append, tracks.numbered]
    simp only [List.map_cons, List.map_nil, getSeq] at isNext ⊢
    rw [isNext, List.range'_1_concat, Nat.add_comm]
  books := by
    intro instrumentId
    rw [OrderedMap.find?_insert, replayed_append]
    by_cases own : event.instrumentId = instrumentId
    · subst own
      rw [tracks.bookOf_eq] at done
      simp [done]
    · have other : instrumentId ≠ event.instrumentId := fun same =>
        own same.symm
      rw [tracks.books]
      simp [own, other]

/-- How an offer ends. -/
theorem Tracks.offer
    {taken : List MarketEvent} (tracks : registry.Tracks taken)
    (offered : Offer) :
    ((registry.offer offered).2 ≠ some .ok ∧
      (registry.offer offered).1 = registry) ∨
    ((registry.offer offered).2 = some .ok ∧
      (registry.offer offered).1.Tracks (taken ++ [offered.event])) := by
  unfold OrderBookRegistry.offer
  split_ifs with inTurn
  · have takes := apply_takes tracks.ready offered.grants offered.event
    cases ended : registry.apply offered.grants offered.event with
    | mk after result =>
        rw [ended] at takes
        cases takes with
        | refused isRefusal =>
            exact Or.inl ⟨by simpa using isRefusal, rfl⟩
        | taken done nextWf nextInit =>
            exact Or.inr ⟨rfl, tracks.taken inTurn done nextWf nextInit⟩
  · exact Or.inl ⟨by simp, rfl⟩

theorem Tracks.afterOffers
    {taken : List MarketEvent} (tracks : registry.Tracks taken)
    (offers : List Offer) :
    (registry.afterOffers offers).Tracks
      (taken ++ registry.accepted offers) := by
  induction offers generalizing registry taken with
  | nil => simpa [OrderBookRegistry.afterOffers, accepted] using tracks
  | cons offered rest inductionHypothesis =>
      rcases tracks.offer offered with
        ⟨isRefusal, same⟩ | ⟨answered, later⟩
      · have restTracks := inductionHypothesis tracks
        simp only [accepted, isRefusal, if_false]
        simpa [OrderBookRegistry.afterOffers, same] using restTracks
      · have restTracks := inductionHypothesis later
        simp only [accepted, answered, if_true]
        simpa [OrderBookRegistry.afterOffers] using restTracks

theorem tracks_empty : Tracks {} [] where
  ready := by
    intro instrumentId book found
    simp at found
  numbered := rfl
  books := by simp

/-- What a stream shows of a registry after it. -/
structure StreamContract
    (registry : OrderBookRegistry) (taken : List MarketEvent) : Prop where
  /-- The accepted events are numbered without a gap. -/
  numbered : taken.map MarketEvent.sequence = List.range' 1 registry.getSeq
  /-- An event that is not accepted changes nothing. -/
  atomic : ∀ offered, (registry.offer offered).2 ≠ some .ok →
    (registry.offer offered).1 = registry
  /-- Another event may then use the number of a refused one. -/
  retried : ∀ offered, (registry.offer offered).2 ≠ some .ok →
    ∀ sequence, (registry.offer offered).1.seqValid sequence =
      registry.seqValid sequence
  /-- An instrument is there once it has an accepted event. -/
  instruments : ∀ instrumentId,
    instrumentId ∈ registry.books.keys ↔
      ∃ event ∈ taken, event.instrumentId = instrumentId
  /-- Every book is what its own events make of a new one. -/
  books : ∀ instrumentId book,
    registry.books.find? instrumentId = some book →
      book = replayed instrumentId taken

/--
Whatever is offered and whatever the heap refuses, the accepted events are
numbered in turn, the others leave no trace, and each book has seen the
accepted events of its own instrument alone.
-/
theorem stream_contract (offers : List Offer) :
    StreamContract (afterOffers {} offers) (accepted {} offers) := by
  have tracks := tracks_empty.afterOffers offers
  rw [List.nil_append] at tracks
  refine ⟨tracks.numbered, ?_, ?_, ?_, ?_⟩
  · intro offered isRefusal
    rcases tracks.offer offered with ⟨_, same⟩ | ⟨answered, _⟩
    · exact same
    · exact absurd answered isRefusal
  · intro offered isRefusal sequence
    rcases tracks.offer offered with ⟨_, same⟩ | ⟨answered, _⟩
    · rw [same]
    · exact absurd answered isRefusal
  · intro instrumentId
    rw [OrderedMap.mem_keys, tracks.books]
    split_ifs with known
    · simpa using known
    · simpa using known
  · intro instrumentId book found
    rw [tracks.books] at found
    split_ifs at found
    exact (Option.some.inj found).symm

end OrderBookRegistry

end LimitOrderBook
