import LimitOrderBook.FeedStreams

namespace LimitOrderBook.Feed.Books

/-!
# Filters and channels do not interfere

Two comparisons of runs.  Books that keep one symbol follow books that keep
all, because routes are kept for every symbol.  Books shared by many channels
follow the books of each channel alone, because an event reads and writes its
own channel only.
-/

variable {books : Books} {filter : Text} {poolBytes : Nat}

theorem Running.newBook_eq
    {otherFilter : Text} {other : Books}
    (running : Running filter poolBytes books)
    (otherRunning : Running otherFilter poolBytes other) :
    books.newBook = other.newBook := by
  rw [newBook, newBook, running.poolBytes, otherRunning.poolBytes]

theorem Running.selected_iff
    (running : Running filter poolBytes books) (symbol : Text) :
    books.selected symbol = true ↔ filter = [] ∨ filter = symbol := by
  rw [selected, running.filter, decide_eq_true_eq]

/-! ## One symbol out of all -/

/-- Books of one symbol beside the books of all symbols. -/
structure Filters (symbol : Text) (poolBytes : Nat) (all one : Books) :
    Prop where
  runningAll : Running [] poolBytes all
  runningOne : Running symbol poolBytes one
  orders : one.orders = all.orders
  books : ∀ key, one.books.find? key =
    if key.symbol = symbol then all.books.find? key else none

variable {symbol : Text} {all one : Books}

theorem Filters.perform
    (filters : Filters symbol poolBytes all one) (nonempty : symbol ≠ [])
    {venue : Text} {channel : Nat} {change : Change} {allNext : Books}
    (performed : all.perform venue channel change = some allNext) :
    ∃ oneNext, one.perform venue channel change = some oneNext ∧
      oneNext.orders = allNext.orders ∧
      ∀ key, oneNext.books.find? key =
        if key.symbol = symbol then allNext.books.find? key else none := by
  cases change with
  | nothing =>
      cases performed
      exact ⟨one, rfl, filters.orders, filters.books⟩
  | clear =>
      cases performed
      refine ⟨_, rfl, by simp [cleared, filters.orders], fun key => ?_⟩
      simp only [cleared, OrderedMap.find?_eraseIf, filters.books]
      split_ifs <;> rfl
  | order key made writes =>
      have allChosen : all.selected key.symbol = true :=
        (filters.runningAll.selected_iff _).mpr (Or.inl rfl)
      have routes : (one.withRoutes venue channel writes).orders =
          (all.withRoutes venue channel writes).orders := by
        simp [withRoutes, filters.orders]
      unfold Books.perform at performed ⊢
      dsimp only at performed ⊢
      rw [if_pos allChosen] at performed
      obtain ⟨guard, same⟩ := Option.ite_none_right_eq_some.mp performed
      cases same
      by_cases here : key.symbol = symbol
      · have oneChosen : one.selected key.symbol = true :=
          (filters.runningOne.selected_iff _).mpr (Or.inr here.symm)
        have sameCore : one.core key = all.core key := by
          rw [Books.core, Books.core, filters.books, if_pos here,
            filters.runningOne.newBook_eq filters.runningAll]
        rw [if_pos oneChosen, sameCore, if_pos guard]
        refine ⟨_, rfl, routes, fun other => ?_⟩
        simp only [withCore, withRoutes, OrderedMap.find?_insert,
          filters.books]
        split_ifs with isKey isSymbol
        · rfl
        · exact absurd (isKey ▸ here) isSymbol
        · rfl
        · rfl
      · have oneUnchosen : ¬ one.selected key.symbol = true := by
          rw [filters.runningOne.selected_iff]
          rintro (isEmpty | same)
          · exact nonempty isEmpty
          · exact here same.symm
        rw [if_neg oneUnchosen]
        refine ⟨_, rfl, routes, fun other => ?_⟩
        simp only [withCore, withRoutes, OrderedMap.find?_insert,
          filters.books]
        split_ifs with isSymbol isKey
        · exact absurd (isKey ▸ isSymbol) here
        · rfl
        · rfl

/-- What the books of all symbols take, the books of one symbol take. -/
theorem Filters.apply
    (filters : Filters symbol poolBytes all one) (nonempty : symbol ≠ [])
    {venue : Text} {e : Event} {allNext : Books}
    (applied : all.apply venue e = .ok allNext) :
    ∃ oneNext, one.apply venue e = .ok oneNext ∧
      Filters symbol poolBytes allNext oneNext := by
  have allPerformed := filters.runningAll.sound.apply_eq venue e
  rw [applied] at allPerformed
  obtain ⟨change, changed, performed⟩ :=
    Option.bind_eq_some_iff.mp allPerformed.symm
  obtain ⟨oneNext, onePerformed, orders, books⟩ :=
    filters.perform nonempty performed
  have sameRoutes : one.route venue e.channel = all.route venue e.channel := by
    funext orderId
    rw [route, route, filters.orders]
  have oneApplied : one.apply venue e = .ok oneNext := by
    refine Fallible.toOption_eq_some.mp ?_
    rw [filters.runningOne.sound.apply_eq, sameRoutes, changed]
    exact onePerformed
  exact ⟨oneNext, oneApplied, filters.runningAll.apply applied,
    filters.runningOne.apply oneApplied, orders, books⟩

/-- The same over a whole stream. -/
theorem Filters.consumeAll
    (filters : Filters symbol poolBytes all one) (nonempty : symbol ≠ [])
    {events : List (Text × Event)} (quiet : all.thrown events = []) :
    one.thrown events = [] ∧
      Filters symbol poolBytes (all.consumeAll events)
        (one.consumeAll events) := by
  induction events generalizing all one with
  | nil => exact ⟨rfl, filters⟩
  | cons event rest inductionHypothesis =>
      obtain ⟨first, later⟩ := List.append_eq_nil_iff.mp quiet
      have applied := consume_ok filters.runningAll.valid (by simpa using first)
      obtain ⟨oneNext, oneApplied, nextFilters⟩ :=
        filters.apply nonempty applied
      have consumed : one.consume event.1 event.2 = (oneNext, none) := by
        simp [consume, filters.runningOne.valid, oneApplied]
      obtain ⟨oneQuiet, lastFilters⟩ := inductionHypothesis nextFilters later
      constructor
      · simp [thrown, consumed, oneQuiet]
      · rw [Books.consumeAll, Books.consumeAll, List.foldl_cons,
          List.foldl_cons, consumed]
        exact lastFilters

theorem thrown_of_append
    {before after : List (Text × Event)}
    (quiet : books.thrown (before ++ after) = []) :
    books.thrown before = [] := by
  rw [thrown_append] at quiet
  exact (List.append_eq_nil_iff.mp quiet).1

/--
Whatever unfiltered books take without error, books filtered to a symbol take
too, and after every event they have the same books of that symbol, with the
same levels, totals and queues.
-/
theorem filtered_follows
    (nonempty : symbol ≠ []) (createdAll : create [] poolBytes = .ok all)
    (createdOne : create symbol poolBytes = .ok one)
    (events : List (Text × Event)) (quiet : all.thrown events = []) :
    one.thrown events = [] ∧
      ∀ before after, events = before ++ after → ∀ venue channel,
        ((one.consumeAll before).books.find?
            ⟨venue, channel, symbol⟩).map OrderBook.snapshot =
          ((all.consumeAll before).books.find?
            ⟨venue, channel, symbol⟩).map OrderBook.snapshot := by
  have start : Filters symbol poolBytes all one := by
    refine ⟨running_create createdAll, running_create createdOne, ?_, ?_⟩
    all_goals
      unfold create at createdAll createdOne
      split_ifs at createdAll createdOne
      cases createdAll
      cases createdOne
    · rfl
    · intro key
      split_ifs <;> rfl
  refine ⟨(start.consumeAll nonempty quiet).1, ?_⟩
  rintro before after rfl venue channel
  have filters := (start.consumeAll nonempty (thrown_of_append quiet)).2
  rw [filters.books, if_pos rfl]

/-- A follow-up without a symbol, on a selected and on another order. -/
theorem filtered_follows_followup :
    let all : Books := { filter := [], poolBytes := 256 }
    let one : Books := { filter := [83], poolBytes := 256 }
    let events : List (Text × Event) :=
      [([86],
          { type := .add, symbol := [83], orderId := 1, price := 5,
            quantity := 3 }),
        ([86],
          { type := .add, symbol := [84], orderId := 2, price := 5,
            quantity := 3 }),
        ([86],
          { type := .replace, orderId := 2, newOrderId := 4, price := 6,
            quantity := 9 }),
        ([86], { type := .execute, orderId := 1, quantity := 2 })]
    all.thrown events = [] ∧
      one.thrown events = [] ∧
      ((one.consumeAll events).books.find? ⟨[86], 0, [83]⟩).map
          OrderBook.snapshot =
        some [⟨.bid, 5, 1, [⟨1, .bid, 5, 1⟩]⟩] ∧
      ((one.consumeAll events).books.find? ⟨[86], 0, [83]⟩).map
          OrderBook.snapshot =
        ((all.consumeAll events).books.find? ⟨[86], 0, [83]⟩).map
          OrderBook.snapshot := by
  intro all one events
  have quiet : all.thrown events = [] := by decide +kernel
  have createdAll : create [] 256 = .ok all := rfl
  have createdOne : create [83] 256 = .ok one := rfl
  obtain ⟨oneQuiet, same⟩ :=
    filtered_follows (by decide) createdAll createdOne events quiet
  exact ⟨quiet, oneQuiet, by decide +kernel,
    same events [] (List.append_nil _).symm [86] 0⟩

/-! ## Many channels in shared books -/

variable {shared single : Books} {venue other : Text}
  {channel otherChannel : Nat}

/-- Two books that have one channel in common. -/
structure SameChannel (venue : Text) (channel : Nat) (shared single : Books) :
    Prop where
  route : shared.route venue channel = single.route venue channel
  books : ∀ symbol, shared.books.find? ⟨venue, channel, symbol⟩ =
    single.books.find? ⟨venue, channel, symbol⟩

theorem SameChannel.core_eq
    (same : SameChannel venue channel shared single)
    (sharedRunning : Running filter poolBytes shared)
    (singleRunning : Running filter poolBytes single) (symbol : Text) :
    shared.core ⟨venue, channel, symbol⟩ =
      single.core ⟨venue, channel, symbol⟩ := by
  rw [Books.core, Books.core, same.books,
    sharedRunning.newBook_eq singleRunning]

/-- Performing the same change keeps two books the same on its channel. -/
theorem SameChannel.perform
    (same : SameChannel venue channel shared single)
    (sharedRunning : Running filter poolBytes shared)
    (singleRunning : Running filter poolBytes single) {change : Change}
    (within : ∀ key made writes, change = .order key made writes →
      key.venue = venue ∧ key.channel = channel) {singleNext : Books}
    (performed : single.perform venue channel change = some singleNext) :
    ∃ sharedNext, shared.perform venue channel change = some sharedNext ∧
      SameChannel venue channel sharedNext singleNext := by
  cases change with
  | nothing =>
      cases performed
      exact ⟨shared, rfl, same⟩
  | clear =>
      cases performed
      refine ⟨_, rfl, ?_, fun symbol => ?_⟩
      · rw [route_cleared, route_cleared]
        simp
      · simp [cleared]
  | order key made writes =>
      obtain ⟨sameVenue, sameChannel⟩ := within key made writes rfl
      obtain ⟨keyVenue, keyChannel, symbol⟩ := key
      obtain rfl : keyVenue = venue := sameVenue
      obtain rfl : keyChannel = channel := sameChannel
      have routes :
          (shared.withRoutes keyVenue keyChannel writes).route keyVenue
              keyChannel =
            (single.withRoutes keyVenue keyChannel writes).route keyVenue
              keyChannel := by
        rw [route_withRoutes, route_withRoutes, same.route]
      have sameSelected : shared.selected symbol = single.selected symbol := by
        rw [selected, selected, sharedRunning.filter, singleRunning.filter]
      have sameCore := same.core_eq sharedRunning singleRunning symbol
      unfold Books.perform at performed ⊢
      dsimp only at performed ⊢
      rw [sameSelected, sameCore]
      split_ifs at performed ⊢
      · cases performed
        refine ⟨_, rfl, routes, fun other => ?_⟩
        simp only [withCore, withRoutes, OrderedMap.find?_insert, same.books]
      · cases performed
        exact ⟨_, rfl, routes, same.books⟩

/-- A change of one channel is not seen on another. -/
theorem perform_elsewhere
    {change : Change} {next : Books}
    (apart : ¬ (other = venue ∧ otherChannel = channel))
    (within : ∀ key made writes, change = .order key made writes →
      key.venue = venue ∧ key.channel = channel)
    (performed : books.perform venue channel change = some next) :
    SameChannel other otherChannel next books := by
  cases change with
  | nothing =>
      cases performed
      exact ⟨rfl, fun _ => rfl⟩
  | clear =>
      cases performed
      refine ⟨by rw [route_cleared, if_neg apart], fun symbol => ?_⟩
      simp [cleared, apart]
  | order key made writes =>
      obtain ⟨sameVenue, sameChannel⟩ := within key made writes rfl
      have routes :
          (books.withRoutes venue channel writes).route other otherChannel =
            books.route other otherChannel := by
        rw [route_withRoutes, if_neg apart]
      unfold Books.perform at performed
      dsimp only at performed
      split_ifs at performed
      · cases performed
        refine ⟨routes, fun symbol => ?_⟩
        have otherKey : (⟨other, otherChannel, symbol⟩ : BookKey) ≠ key := by
          rintro rfl
          exact apart ⟨sameVenue, sameChannel⟩
        simp [withCore, withRoutes, otherKey]
      · cases performed
        exact ⟨routes, fun _ => rfl⟩

/-- The change of an event stays in the event's channel. -/
theorem Sound.within
    (sound : books.Sound) {e : Event} {change : Change}
    (changed : Change.ofEvent (books.route venue e.channel) venue e =
      some change) :
    ∀ key made writes, change = .order key made writes →
      key.venue = venue ∧ key.channel = e.channel := by
  rintro key made writes rfl
  obtain ⟨sameVenue, sameChannel, _⟩ :=
    Change.paired_ofEvent (sound.placed _ _) changed
  exact ⟨sameVenue, sameChannel⟩

/-- An event of the channel is taken by both books or by neither. -/
theorem SameChannel.apply
    {e : Event} (same : SameChannel venue e.channel shared single)
    (sharedRunning : Running filter poolBytes shared)
    (singleRunning : Running filter poolBytes single) {singleNext : Books}
    (applied : single.apply venue e = .ok singleNext) :
    ∃ sharedNext, shared.apply venue e = .ok sharedNext ∧
      SameChannel venue e.channel sharedNext singleNext := by
  have singlePerformed := singleRunning.sound.apply_eq venue e
  rw [applied] at singlePerformed
  obtain ⟨change, changed, performed⟩ :=
    Option.bind_eq_some_iff.mp singlePerformed.symm
  obtain ⟨sharedNext, sharedPerformed, nextSame⟩ :=
    same.perform sharedRunning singleRunning
      (singleRunning.sound.within changed) performed
  refine ⟨sharedNext, Fallible.toOption_eq_some.mp ?_, nextSame⟩
  rw [sharedRunning.sound.apply_eq, same.route, changed]
  exact sharedPerformed

/-- An event of another channel is not seen. -/
theorem apply_elsewhere
    (running : Running filter poolBytes books) {e : Event} {next : Books}
    (apart : ¬ (other = venue ∧ otherChannel = e.channel))
    (applied : books.apply venue e = .ok next) :
    SameChannel other otherChannel next books := by
  have performed := running.sound.apply_eq venue e
  rw [applied] at performed
  obtain ⟨change, changed, performed⟩ :=
    Option.bind_eq_some_iff.mp performed.symm
  exact perform_elsewhere apart (running.sound.within changed) performed

/-- The events of one venue and channel, in their order. -/
def ofChannel (venue : Text) (channel : Nat) (events : List (Text × Event)) :
    List (Text × Event) :=
  events.filter fun event =>
    decide (event.1 = venue ∧ event.2.channel = channel)

/-- A sequence that holds every stream's events in the stream's order. -/
def Interleaves (streams : Text → Nat → List Event)
    (events : List (Text × Event)) : Prop :=
  ∀ venue channel, ofChannel venue channel events =
    (streams venue channel).map fun e => (venue, e)

/-- Shared books beside the books of every channel alone. -/
theorem sharedChannels
    {singles : Text → Nat → Books} {events : List (Text × Event)}
    (sharedRunning : Running filter poolBytes shared)
    (singlesRunning : ∀ venue channel,
      Running filter poolBytes (singles venue channel))
    (same : ∀ venue channel,
      SameChannel venue channel shared (singles venue channel))
    (quiet : ∀ venue channel,
      (singles venue channel).thrown (ofChannel venue channel events) = []) :
    shared.thrown events = [] ∧
      ∀ venue channel, SameChannel venue channel (shared.consumeAll events)
        ((singles venue channel).consumeAll
          (ofChannel venue channel events)) := by
  induction events generalizing shared singles with
  | nil => exact ⟨rfl, same⟩
  | cons event rest inductionHypothesis =>
      obtain ⟨venue, e⟩ := event
      have here : ofChannel venue e.channel ((venue, e) :: rest) =
          (venue, e) :: ofChannel venue e.channel rest :=
        List.filter_cons_of_pos (by simp)
      have elsewhere {other : Text} {otherChannel : Nat}
          (apart : ¬ (other = venue ∧ otherChannel = e.channel)) :
          ofChannel other otherChannel ((venue, e) :: rest) =
            ofChannel other otherChannel rest := by
        refine List.filter_cons_of_neg ?_
        rw [decide_eq_true_eq]
        rintro ⟨sameVenue, sameChannel⟩
        exact apart ⟨sameVenue.symm, sameChannel.symm⟩
      have singleQuiet := quiet venue e.channel
      rw [here] at singleQuiet
      obtain ⟨first, later⟩ := List.append_eq_nil_iff.mp singleQuiet
      have singleApplied := consume_ok (singlesRunning venue e.channel).valid
        (by simpa using first)
      obtain ⟨next, applied, nextSame⟩ := (same venue e.channel).apply
        sharedRunning (singlesRunning venue e.channel) singleApplied
      have consumed : shared.consume venue e = (next, none) := by
        simp [consume, sharedRunning.valid, applied]
      -- Only the books of the event's own channel move on.
      let moved : Text → Nat → Books := fun other otherChannel =>
        if other = venue ∧ otherChannel = e.channel then
          ((singles venue e.channel).consume venue e).1
        else
          singles other otherChannel
      have movedRunning (other : Text) (otherChannel : Nat) :
          Running filter poolBytes (moved other otherChannel) := by
        unfold moved
        split_ifs
        · exact (singlesRunning venue e.channel).apply singleApplied
        · exact singlesRunning other otherChannel
      have movedSame (other : Text) (otherChannel : Nat) :
          SameChannel other otherChannel next (moved other otherChannel) := by
        unfold moved
        split_ifs with isHere
        · rw [isHere.1, isHere.2]
          exact nextSame
        · have unseen := apply_elsewhere sharedRunning isHere applied
          exact ⟨unseen.route.trans (same other otherChannel).route,
            fun symbol => (unseen.books symbol).trans
              ((same other otherChannel).books symbol)⟩
      have movedQuiet (other : Text) (otherChannel : Nat) :
          (moved other otherChannel).thrown
            (ofChannel other otherChannel rest) = [] := by
        unfold moved
        split_ifs with isHere
        · rw [isHere.1, isHere.2]
          exact later
        · rw [← elsewhere isHere]
          exact quiet other otherChannel
      obtain ⟨quietRest, sameRest⟩ := inductionHypothesis
        (sharedRunning.apply applied) movedRunning movedSame movedQuiet
      constructor
      · simp [thrown, consumed, quietRest]
      · intro other otherChannel
        have restSame := sameRest other otherChannel
        unfold moved at restSame
        rw [consumeAll, List.foldl_cons, consumed]
        by_cases isHere : other = venue ∧ otherChannel = e.channel
        · rw [if_pos isHere] at restSame
          rw [isHere.1, isHere.2] at restSame ⊢
          rw [here]
          exact restSame
        · rw [if_neg isHere] at restSame
          rw [elsewhere isHere]
          exact restSame

/--
When every channel's stream is taken without error by fresh books, shared books
take every interleaving of the streams, and for each channel they end with the
books that its stream alone leads to.
-/
theorem interleaving_independent
    {fresh : Books} (created : create filter poolBytes = .ok fresh)
    (streams : Text → Nat → List Event)
    (quiet : ∀ venue channel,
      fresh.thrown ((streams venue channel).map fun e => (venue, e)) = [])
    (events : List (Text × Event)) (interleaves : Interleaves streams events) :
    fresh.thrown events = [] ∧
      ∀ venue channel symbol,
        (fresh.consumeAll events).books.find? ⟨venue, channel, symbol⟩ =
          (fresh.consumeAll ((streams venue channel).map
            fun e => (venue, e))).books.find? ⟨venue, channel, symbol⟩ := by
  have start := running_create created
  have channelsQuiet (venue : Text) (channel : Nat) :
      fresh.thrown (ofChannel venue channel events) = [] := by
    rw [interleaves venue channel]
    exact quiet venue channel
  obtain ⟨sharedQuiet, same⟩ := sharedChannels start (fun _ _ => start)
    (fun _ _ => ⟨rfl, fun _ => rfl⟩) channelsQuiet
  refine ⟨sharedQuiet, fun venue channel symbol => ?_⟩
  rw [(same venue channel).books, interleaves venue channel]

/-- Two channels with the same ids and symbol, and a clear on one of them. -/
theorem interleaving_independent_clear :
    let fresh : Books := { filter := [], poolBytes := 256 }
    let add (channel : Nat) : Event :=
      { type := .add, channel := channel, symbol := [83], orderId := 1,
        price := 5, quantity := 3 }
    let clear : Event := { type := .clear, channel := 1 }
    let events : List (Text × Event) :=
      [([86], add 1), ([86], add 2), ([86], clear), ([86], add 1)]
    let streams : Text → Nat → List Event := fun venue channel =>
      if venue = [86] ∧ channel = 1 then [add 1, clear, add 1]
      else if venue = [86] ∧ channel = 2 then [add 2]
      else []
    fresh.thrown events = [] ∧
      (fresh.consumeAll events).books.find? ⟨[86], 2, [83]⟩ =
        (fresh.consumeAll ((streams [86] 2).map
          fun e => ([86], e))).books.find? ⟨[86], 2, [83]⟩ := by
  intro fresh add clear events streams
  have quiet (venue : Text) (channel : Nat) :
      fresh.thrown ((streams venue channel).map fun e => (venue, e)) = [] := by
    by_cases first : venue = [86] ∧ channel = 1
    · rw [first.1, first.2]
      decide +kernel
    by_cases second : venue = [86] ∧ channel = 2
    · rw [second.1, second.2]
      decide +kernel
    · simp [streams, first, second, thrown]
  have interleaves : Interleaves streams events := by
    intro venue channel
    by_cases first : venue = [86] ∧ channel = 1
    · rw [first.1, first.2]
      decide +kernel
    by_cases second : venue = [86] ∧ channel = 2
    · rw [second.1, second.2]
      decide +kernel
    · have elsewhere : ∀ event ∈ events,
          ¬ (event.1 = venue ∧ event.2.channel = channel) := by
        intro event member here
        simp only [events, List.mem_cons, List.not_mem_nil, or_false] at member
        rcases member with rfl | rfl | rfl | rfl
        · exact first ⟨here.1.symm, here.2.symm⟩
        · exact second ⟨here.1.symm, here.2.symm⟩
        · exact first ⟨here.1.symm, here.2.symm⟩
        · exact first ⟨here.1.symm, here.2.symm⟩
      have none_here : ofChannel venue channel events = [] :=
        List.filter_eq_nil_iff.mpr (by simpa using elsewhere)
      simp [none_here, streams, first, second]
  have created : create [] 256 = .ok fresh := rfl
  obtain ⟨sharedQuiet, same⟩ :=
    interleaving_independent created streams quiet events interleaves
  exact ⟨sharedQuiet, same [86] 2 [83]⟩

end LimitOrderBook.Feed.Books
