import LimitOrderBook.FeedSoundness

namespace LimitOrderBook.Feed.Books

/-!
# Streams of events

Books consume a finite sequence of events of any venues and channels.  While
no call throws, routes and core books hold the same orders, and the runtime
checker accepts exactly when every level total fits its 64-bit aggregate.  The
first throw poisons the books for good.
-/

variable {books fresh : Books} {events : List (Text × Event)}

/-- The books after a sequence of events. -/
def consumeAll (books : Books) (events : List (Text × Event)) : Books :=
  events.foldl (fun books event => (books.consume event.1 event.2).1) books

/-- What the calls of a sequence threw. -/
def thrown (books : Books) : List (Text × Event) → List String
  | [] => []
  | event :: rest =>
      (books.consume event.1 event.2).2.toList ++
        thrown (books.consume event.1 event.2).1 rest

/-- Every level total of every book is in the range of its aggregate. -/
def TotalsFit (books : Books) : Prop :=
  ∀ key core, books.books.find? key = some core → core.TotalsFit

/--
The routed orders of selected symbols are the orders of the core books, under
venue, channel and id and with their side, price and quantity.
-/
structure Corresponds (books : Books) : Prop where
  selected : ∀ key core, books.books.find? key = some core →
    books.selected key.symbol
  once : ∀ key core, books.books.find? key = some core →
    (core.orders.map OrderView.orderId).Nodup
  inBook : ∀ key core order, books.books.find? key = some core →
    (order ∈ core.orders ↔
      ∃ tracked,
        books.orders.find? ⟨key.venue, key.channel, order.orderId⟩ =
            some tracked ∧
          tracked.book = key ∧ order = tracked.view order.orderId)
  routed : ∀ key tracked, books.orders.find? key = some tracked →
    tracked.book.venue = key.venue ∧ tracked.book.channel = key.channel ∧
      (books.selected tracked.book.symbol →
        (books.books.find? tracked.book).isSome)

/-! ## Runs -/

/-- An event without a fault is applied. -/
theorem consume_ok
    {venue : Text} {e : Event} (valid : books.valid = true)
    (quiet : (books.consume venue e).2 = none) :
    books.apply venue e = .ok (books.consume venue e).1 := by
  unfold consume at quiet ⊢
  rw [if_pos valid] at quiet ⊢
  split at quiet
  next after applied => rw [applied]
  next => cases quiet

/-- An event keeps the books valid, with their filter and pool. -/
theorem apply_valid
    {venue : Text} {e : Event} {next : Books}
    (applied : books.apply venue e = .ok next) (sound : books.Sound) :
    next.valid = books.valid ∧ next.filter = books.filter ∧
      next.poolBytes = books.poolBytes := by
  have performed := sound.apply_eq venue e
  rw [applied] at performed
  obtain ⟨change, _, performed⟩ :=
    Option.bind_eq_some_iff.mp performed.symm
  cases change with
  | nothing =>
      cases performed
      exact ⟨rfl, rfl, rfl⟩
  | clear =>
      cases performed
      exact ⟨rfl, rfl, rfl⟩
  | order key made writes =>
      unfold perform at performed
      dsimp only at performed
      split_ifs at performed
      · cases performed
        exact ⟨rfl, rfl, rfl⟩
      · cases performed
        exact ⟨rfl, rfl, rfl⟩

/-- Sound books that no call has poisoned. -/
structure Running (filter : Text) (poolBytes : Nat) (books : Books) :
    Prop where
  sound : books.Sound
  valid : books.valid = true
  filter : books.filter = filter
  poolBytes : books.poolBytes = poolBytes

variable {filter : Text} {poolBytes : Nat}

/-- What create returns is running. -/
theorem running_create (created : create filter poolBytes = .ok fresh) :
    fresh.Running filter poolBytes := by
  have sound := sound_create created
  unfold create at created
  split_ifs at created
  cases created
  exact ⟨sound, rfl, rfl, rfl⟩

/-- An event that is applied leaves the books running. -/
theorem Running.apply
    (running : Running filter poolBytes books) {venue : Text} {e : Event}
    {next : Books} (applied : books.apply venue e = .ok next) :
    Running filter poolBytes next := by
  obtain ⟨valid, sameFilter, samePool⟩ := apply_valid applied running.sound
  exact ⟨running.sound.apply applied, valid.trans running.valid,
    sameFilter.trans running.filter, samePool.trans running.poolBytes⟩

/-- A stream without faults leaves the books running. -/
theorem Running.consumeAll
    (running : Running filter poolBytes books)
    (quiet : books.thrown events = []) :
    Running filter poolBytes (books.consumeAll events) := by
  induction events generalizing books with
  | nil => exact running
  | cons event rest inductionHypothesis =>
      obtain ⟨first, later⟩ := List.append_eq_nil_iff.mp quiet
      have applied := consume_ok running.valid (by simpa using first)
      exact inductionHypothesis (running.apply applied) later

/-- Poisoned books answer every event in the same way. -/
theorem consume_poisoned
    (poisoned : books.valid = false) (venue : Text) (e : Event) :
    books.consume venue e =
      (books, some "Feed books require rebuild after error") := by
  simp [consume, poisoned]

/-- Poisoned books consume nothing any more. -/
theorem consumeAll_poisoned
    (poisoned : books.valid = false) (events : List (Text × Event)) :
    books.consumeAll events = books := by
  induction events with
  | nil => rfl
  | cons event rest inductionHypothesis =>
      rw [consumeAll, List.foldl_cons, consume_poisoned poisoned]
      exact inductionHypothesis

/-- A fault poisons the books. -/
theorem valid_of_thrown
    (noisy : books.thrown events ≠ []) :
    (books.consumeAll events).valid = false := by
  induction events generalizing books with
  | nil => exact absurd rfl noisy
  | cons event rest inductionHypothesis =>
      cases answered : (books.consume event.1 event.2).2 with
      | none =>
          refine inductionHypothesis fun quiet => noisy ?_
          simp [thrown, answered, quiet]
      | some message =>
          have poisoned : (books.consume event.1 event.2).1.valid = false := by
            unfold consume at answered ⊢
            split_ifs at answered ⊢ with valid
            · split at answered
              next => cases answered
              next => rfl
            · simpa using valid
          rw [consumeAll, List.foldl_cons]
          exact (congrArg Books.valid
            (consumeAll_poisoned poisoned rest)).trans poisoned

/-! ## The correspondence of routes and books -/

/-- The orders of a core are those it finds. -/
theorem Grown.mem_orders
    {slots : Nat} {core : OrderBook} (grown : Grown slots core)
    {order : OrderView} :
    order ∈ core.orders ↔ core.order order.orderId = some order := by
  obtain ⟨⟨reference, refines⟩, _, _⟩ := grown
  rw [OrderBook.mem_orders, refines.order_eq]
  constructor
  · rintro ⟨side, live⟩
    rw [refines.orders] at live
    exact (Reference.mem_sideOrders.mp live).1
  · intro shown
    refine ⟨order.side, ?_⟩
    rw [refines.orders]
    exact Reference.mem_sideOrders.mpr ⟨shown, rfl⟩

/-- An order is shown in the book of its route. -/
theorem Lookup.shown_eq_some
    {find : Lookup} {key : BookKey} {orderId : OrderId} {order : OrderView} :
    find.shown key orderId = some order ↔
      ∃ tracked, find orderId = some tracked ∧ tracked.book = key ∧
        order = tracked.view orderId := by
  simp only [Lookup.shown, Option.map_eq_some_iff, Option.filter_eq_some_iff,
    decide_eq_true_eq]
  constructor
  · rintro ⟨tracked, ⟨found, here⟩, rfl⟩
    exact ⟨tracked, found, here, rfl⟩
  · rintro ⟨tracked, found, here, rfl⟩
    exact ⟨tracked, ⟨found, here⟩, rfl⟩

/-- Routes and cores name the same orders. -/
theorem Sound.corresponds (sound : books.Sound) : books.Corresponds where
  selected key core found := sound.chosen key (by simp [found])
  once key core found := by
    obtain ⟨⟨reference, refines⟩, _, _⟩ := sound.grown key
    rw [core_of_found found] at refines
    have idsNodup := refines.wf.indexed.idsNodup
    rw [OrderBook.orders_eq, List.map_map]
    exact idsNodup
  inBook key core order found := by
    have grown := sound.grown key
    have agrees := sound.agrees key (sound.chosen key (by simp [found]))
      order.orderId
    rw [core_of_found found] at grown agrees
    rw [grown.mem_orders, agrees, Lookup.shown_eq_some]
    rfl
  routed key tracked found := by
    have routed : books.route key.venue key.channel key.orderId =
        some tracked := found
    obtain ⟨sameVenue, sameChannel⟩ := sound.placed _ _ _ _ routed
    refine ⟨sameVenue, sameChannel, fun chosen => ?_⟩
    rw [sound.book_isSome routed]
    exact chosen

/-! ## The checker -/

/-- Each route is confirmed by its core. -/
theorem Sound.validateRoute_eq
    (sound : books.Sound) {entry : OrderKey × Tracked}
    (member : entry ∈ books.orders.entries) (count : Nat) :
    books.validateRoute count entry =
      .ok (count + if books.selected entry.2.book.symbol then 1 else 0) := by
  have found : books.route entry.1.venue entry.1.channel entry.1.orderId =
      some entry.2 := OrderedMap.mem_entries.mp member
  unfold validateRoute
  by_cases chosen : books.selected entry.2.book.symbol = true
  · obtain ⟨sameVenue, sameChannel⟩ := sound.placed _ _ _ _ found
    have present := sound.book_isSome found
    rw [chosen, Option.isSome_iff_exists] at present
    obtain ⟨core, coreFound⟩ := present
    have shown := sound.agrees entry.2.book chosen entry.1.orderId
    rw [sameVenue, sameChannel, Lookup.shown_routed found,
      core_of_found coreFound] at shown
    simp [chosen, coreFound, shown, Tracked.view]
  · simp [chosen]

/-- A sum of ones counts. -/
theorem sum_ite_eq_countP
    {α : Type} (counts : α → Bool) (items : List α) :
    (items.map fun item => if counts item then 1 else 0).sum =
      items.countP counts := by
  induction items with
  | nil => rfl
  | cons item rest inductionHypothesis =>
      rw [List.map_cons, List.sum_cons, inductionHypothesis,
        List.countP_cons, Nat.add_comm]

/-- Counting value by value over distinct values. -/
theorem sum_countP_eq
    {α β : Type} [DecidableEq β] (value : α → β) (items : List α)
    {keys : List β} (nodup : keys.Nodup) :
    (keys.map fun key =>
        items.countP fun item => decide (value item = key)).sum =
      items.countP fun item => decide (value item ∈ keys) := by
  induction keys with
  | nil => simp
  | cons key rest inductionHypothesis =>
      obtain ⟨fresh, restNodup⟩ := List.nodup_cons.mp nodup
      rw [List.map_cons, List.sum_cons, inductionHypothesis restNodup]
      clear inductionHypothesis
      induction items with
      | nil => rfl
      | cons item others itemsHypothesis =>
          simp only [List.countP_cons, decide_eq_true_eq, List.mem_cons]
          simp only [List.mem_cons] at itemsHypothesis
          by_cases here : value item = key
          · simp only [here, fresh, true_or, if_true, if_false]
            lia
          · simp only [here, false_or, if_false]
            lia

/-- The walk over the routes counts those of its symbol. -/
theorem Sound.validateRoutes_eq (sound : books.Sound) :
    books.orders.entries.foldlM books.validateRoute 0 =
      .ok (books.orders.entries.countP fun entry =>
        books.selected entry.2.book.symbol) := by
  have walked := Fallible.foldlM_count books.validateRoute
    (fun entry => if books.selected entry.2.book.symbol then 1 else 0)
    (fun entry member => sound.validateRoute_eq member) 0
  rw [walked, Nat.zero_add, sum_ite_eq_countP]

/-- The routes of one book. -/
def routesOf (books : Books) (key : BookKey) : List (OrderKey × Tracked) :=
  books.orders.entries.filter fun entry => decide (entry.2.book = key)

/-- A book holds as many orders as it has routes. -/
theorem Sound.orderCount_eq
    (sound : books.Sound) {key : BookKey} {core : OrderBook}
    (found : books.books.find? key = some core) :
    core.orderCount = (books.routesOf key).length := by
  have corresponds := sound.corresponds
  have inRoutes {entry : OrderKey × Tracked} :
      entry ∈ books.routesOf key ↔
        books.orders.find? entry.1 = some entry.2 ∧ entry.2.book = key := by
    rw [routesOf, List.mem_filter, OrderedMap.mem_entries,
      decide_eq_true_eq]
  have keyOf {entry : OrderKey × Tracked} (member : entry ∈ books.routesOf key) :
      entry.1 = ⟨key.venue, key.channel, entry.1.orderId⟩ := by
    obtain ⟨stored, here⟩ := inRoutes.mp member
    obtain ⟨sameVenue, sameChannel, _⟩ := corresponds.routed _ _ stored
    rw [here] at sameVenue sameChannel
    rw [sameVenue, sameChannel]
  have routesNodup :
      ((books.routesOf key).map fun entry => entry.1.orderId).Nodup := by
    have keysNodup : (books.routesOf key).Pairwise
        fun first second => first.1 ≠ second.1 :=
      (List.pairwise_map.mp books.orders.keys_nodup).filter _
    refine List.pairwise_map.mpr (keysNodup.imp_of_mem ?_)
    intro first second firstMember secondMember apart sameId
    refine apart ?_
    rw [keyOf firstMember, keyOf secondMember, sameId]
  have sameMembers :
      ∀ orderId, orderId ∈ core.orders.map OrderView.orderId ↔
        orderId ∈ (books.routesOf key).map fun entry => entry.1.orderId := by
    intro orderId
    simp only [List.mem_map]
    constructor
    · rintro ⟨order, live, rfl⟩
      obtain ⟨tracked, routed, here, _⟩ :=
        (corresponds.inBook key core order found).mp live
      exact ⟨(⟨key.venue, key.channel, order.orderId⟩, tracked),
        inRoutes.mpr ⟨routed, here⟩, rfl⟩
    · rintro ⟨entry, member, rfl⟩
      obtain ⟨stored, here⟩ := inRoutes.mp member
      refine ⟨entry.2.view entry.1.orderId,
        (corresponds.inBook key core _ found).mpr ⟨entry.2, ?_, here, rfl⟩,
        rfl⟩
      rw [keyOf member] at stored
      exact stored
  have sameLength := ((List.perm_ext_iff_of_nodup
    (corresponds.once key core found) routesNodup).mpr sameMembers).length_eq
  obtain ⟨⟨reference, refines⟩, _, _⟩ := sound.grown key
  rw [core_of_found found] at refines
  rw [refines.wf.orderCount_eq]
  simpa [OrderBook.orders_eq] using sameLength

/-- The orders of all books are the routes of selected symbols. -/
theorem Sound.orderCount_sum (sound : books.Sound) :
    (books.books.entries.map fun entry => entry.2.orderCount).sum =
      books.orders.entries.countP fun entry =>
        books.selected entry.2.book.symbol := by
  have perBook :
      (books.books.entries.map fun entry => entry.2.orderCount) =
        books.books.keys.map fun key =>
          books.orders.entries.countP fun entry =>
            decide (entry.2.book = key) := by
    rw [OrderedMap.keys, List.map_map]
    refine List.map_congr_left fun entry member => ?_
    rw [sound.orderCount_eq (OrderedMap.mem_entries.mp member), routesOf,
      ← List.countP_eq_length_filter]
    rfl
  rw [perBook, sum_countP_eq _ _ books.books.keys_nodup]
  refine List.countP_congr fun entry member => ?_
  have found : books.route entry.1.venue entry.1.channel entry.1.orderId =
      some entry.2 := OrderedMap.mem_entries.mp member
  rw [decide_eq_true_eq, OrderedMap.mem_keys, sound.book_isSome found]

/-- A core passes its check if its totals fit. -/
theorem Sound.checkInvariants_core
    (sound : books.Sound) {key : BookKey} {core : OrderBook}
    (found : books.books.find? key = some core) :
    core.checkInvariants = .ok () ↔ core.TotalsFit := by
  obtain ⟨⟨reference, refines⟩, fits, _⟩ := sound.grown key
  rw [core_of_found found] at refines fits
  refine refines.wf.checkInvariants_iff fun order live => ?_
  obtain ⟨side, sideLive⟩ := OrderBook.mem_orders.mp live
  exact fits side order sideLive

/-- Valid sound books are accepted exactly when every level total fits. -/
theorem Sound.validates_iff
    (sound : books.Sound) (valid : books.valid = true) :
    books.validateInvariants = true ↔ books.TotalsFit := by
  constructor
  · intro accepted key core found
    unfold validateInvariants checkInvariants at accepted
    rw [if_pos valid, sound.validateRoutes_eq] at accepted
    cases walked : books.books.entries.foldlM validateBook 0 with
    | error fault =>
        rw [walked] at accepted
        cases accepted
    | ok count =>
        obtain ⟨before, after, checked⟩ := Fallible.foldlM_ok walked _
          (OrderedMap.mem_entries.mpr found)
        obtain ⟨_, coreAccepted, _⟩ := Fallible.bind_ok checked
        exact (sound.checkInvariants_core found).mp coreAccepted
  · intro totals
    have walked := Fallible.foldlM_count validateBook
      (fun entry => entry.2.orderCount)
      (fun (entry : BookKey × OrderBook)
          (member : entry ∈ books.books.entries) count => by
        have found := OrderedMap.mem_entries.mp member
        have accepted := (sound.checkInvariants_core found).mpr
          (totals _ _ found)
        simp only [validateBook, accepted, bind, Except.bind]) 0
    unfold validateInvariants checkInvariants
    rw [if_pos valid, sound.validateRoutes_eq, walked, sound.orderCount_sum]
    simp [bind, Except.bind, Except.isOk, Except.toBool]

/-- Poisoned books do not validate. -/
theorem validates_poisoned (poisoned : books.valid = false) :
    books.validateInvariants = false := by
  simp [validateInvariants, checkInvariants, poisoned, Except.isOk,
    Except.toBool]

/-- Totals fit in books of at most `2 ^ 32 + 1` slots. -/
theorem Sound.totalsFit
    (sound : books.Sound) (slotsFit : books.newBook.slots ≤ 2 ^ 32 + 1) :
    books.TotalsFit := by
  intro key core found
  obtain ⟨⟨reference, refines⟩, fits, slots⟩ := sound.grown key
  rw [core_of_found found] at refines fits slots
  refine refines.wf.totalsFit (slots ▸ slotsFit) fun order live => ?_
  obtain ⟨side, sideLive⟩ := OrderBook.mem_orders.mp live
  exact fits side order sideLive

/--
While no call has thrown, routes and books correspond and the checker accepts
exactly when every level total fits, which it does in books of at most
`2 ^ 32 + 1` slots.  Once a call has thrown, the books are invalid and every
later call throws and changes nothing.
-/
theorem consumeAll_invariant
    (created : create filter poolBytes = .ok fresh)
    (events : List (Text × Event)) :
    (fresh.thrown events = [] →
      (fresh.consumeAll events).Corresponds ∧
        ((fresh.consumeAll events).validateInvariants = true ↔
          (fresh.consumeAll events).TotalsFit) ∧
        (fresh.newBook.slots ≤ 2 ^ 32 + 1 →
          (fresh.consumeAll events).validateInvariants = true)) ∧
      (fresh.thrown events ≠ [] →
        (fresh.consumeAll events).valid = false ∧
          (fresh.consumeAll events).validateInvariants = false ∧
          ∀ venue e, ∃ message,
            (fresh.consumeAll events).consume venue e =
              (fresh.consumeAll events, some message)) := by
  have start := running_create created
  constructor
  · intro quiet
    have running := start.consumeAll quiet
    have accepts := running.sound.validates_iff running.valid
    refine ⟨running.sound.corresponds, accepts, fun slotsFit => ?_⟩
    refine accepts.mpr (running.sound.totalsFit ?_)
    rwa [newBook, running.poolBytes, ← start.poolBytes]
  · intro noisy
    have poisoned := valid_of_thrown noisy
    exact ⟨poisoned, validates_poisoned poisoned, fun venue e =>
      ⟨_, consume_poisoned poisoned venue e⟩⟩

/-- Hidden size, a new id, an unselected order and then a duplicate. -/
theorem consumeAll_invariant_duplicate :
    let fresh : Books := { filter := [83], poolBytes := 256 }
    let events : List (Text × Event) :=
      [([86],
          { type := .add, symbol := [83], orderId := 1, price := 5,
            quantity := 3 }),
        ([86],
          { type := .add, symbol := [84], orderId := 2, price := 5,
            quantity := 3 }),
        ([86],
          { type := .executeRemaining, orderId := 1, quantity := 1,
            remaining := 7 }),
        ([86],
          { type := .replace, orderId := 1, newOrderId := 3, price := 6,
            quantity := 4 })]
    let failing := events ++
      [([86],
          { type := .add, symbol := [83], orderId := 2, price := 5,
            quantity := 3 })]
    create [83] 256 = .ok fresh ∧
      (fresh.consumeAll events).Corresponds ∧
      (fresh.consumeAll events).validateInvariants = true ∧
      (fresh.consumeAll failing).valid = false := by
  intro fresh events failing
  have created : create [83] 256 = .ok fresh := rfl
  have quiet : fresh.thrown events = [] := by decide +kernel
  have noisy : fresh.thrown failing ≠ [] := by decide +kernel
  have slotsFit : fresh.newBook.slots ≤ 2 ^ 32 + 1 := by decide +kernel
  obtain ⟨corresponds, _, accepted⟩ :=
    (consumeAll_invariant created events).1 quiet
  exact ⟨created, corresponds, accepted slotsFit,
    ((consumeAll_invariant created failing).2 noisy).1⟩

/-! ## A level that outgrows its aggregate -/

/-- The largest order the core takes, under one more id. -/
def floodEvent (orderId : Nat) : Event where
  type := .add
  symbol := [83]
  orderId := orderId
  side := .bid
  price := 1
  quantity := 2 ^ 32 - 1

def flood (count : Nat) : List (Text × Event) :=
  (List.range count).map fun orderId => ([86], floodEvent orderId)

/-- The one book these orders go to. -/
def floodKey : BookKey := ⟨[86], 0, [83]⟩

/-- The books after so many of these orders. -/
structure Flooded (poolBytes count : Nat) (books : Books) : Prop where
  running : Running [] poolBytes books
  unused : ∀ orderId, count ≤ orderId → books.route [86] 0 orderId = none
  bids : ((books.core floodKey).sideOrders .bid).length = count
  asks : (books.core floodKey).sideOrders .ask = []
  level : ∀ order ∈ (books.core floodKey).sideOrders .bid,
    order.price = 1 ∧ order.quantity = 2 ^ 32 - 1

/-- There is room for one more order of the flood. -/
theorem Flooded.step
    {count : Nat} (flooded : Flooded poolBytes count books)
    (room : count < books.newBook.slots) :
    ∃ next, books.apply [86] (floodEvent count) = .ok next ∧
      Flooded poolBytes (count + 1) next := by
  obtain ⟨running, unused, bids, asks, level⟩ := flooded
  have chosen : books.selected floodKey.symbol = true := by
    simp [selected, running.filter]
  have free := unused count (Nat.le_refl _)
  obtain ⟨⟨reference, refines⟩, _, slots⟩ := running.sound.grown floodKey
  have addable : (books.core floodKey).Addable
      ⟨count, .bid, 1, 2 ^ 32 - 1⟩ := by
    refine ⟨by simp, by simp, ?_, Or.inl rfl⟩
    have missing := running.sound.agrees floodKey chosen count
    simpa [floodKey, Lookup.shown, free, OrderBook.order] using missing
  have counted : (books.core floodKey).orderCount = count := by
    rw [refines.wf.orderCount_orders, OrderBook.orders, List.length_append,
      bids, asks]
    rfl
  obtain ⟨after, added, _, _, orders⟩ :=
    OrderBook.applyAdd_ok refines.wf addable (by rw [counted, slots]; exact room)
  have called : (books.core floodKey).call
      (.add {} ⟨count, .bid, 1, 2 ^ 32 - 1⟩) = (after, .ok) := added
  have changed :
      Change.ofEvent (books.route [86] 0) [86] (floodEvent count) =
        some (.order floodKey (.add {} ⟨count, .bid, 1, 2 ^ 32 - 1⟩)
          [(count, some ⟨floodKey, .bid, 1, 2 ^ 32 - 1⟩)]) := by
    simp [Change.ofEvent, Change.ofAdd, floodEvent, free, floodKey]
  have inRange : InRange (.add {} ⟨count, .bid, 1, 2 ^ 32 - 1⟩) := by
    simp [InRange, Represented]
  have performed := running.sound.apply_eq [86] (floodEvent count)
  rw [show (floodEvent count).channel = 0 from rfl, changed,
    Option.bind_some, perform, if_pos chosen, called,
    if_pos ⟨inRange, rfl⟩] at performed
  obtain ⟨next, applied, nextBooks, nextRoute⟩ :
      ∃ next, books.apply [86] (floodEvent count) = .ok next ∧
        next.books = books.books.insert floodKey after ∧
        next.route [86] 0 = (books.withRoutes [86] 0
          [(count, some ⟨floodKey, .bid, 1, 2 ^ 32 - 1⟩)]).route [86] 0 :=
    ⟨_, Fallible.toOption_eq_some.mp performed, rfl, rfl⟩
  have nextCore : next.core floodKey = after := by
    simp [Books.core, nextBooks]
  refine ⟨next, applied, running.apply applied, ?_, ?_, ?_, ?_⟩
  · intro orderId later
    have apart : orderId ≠ count := by lia
    rw [nextRoute, route_withRoutes]
    simp [Lookup.writeAll, Lookup.write, apart, unused orderId (by lia)]
  all_goals
    rw [nextCore]
  · rw [orders .bid, if_pos rfl, List.orderedInsert_length, bids]
  · rw [orders .ask, if_neg (by simp), asks]
  · intro order live
    rw [orders .bid, if_pos rfl, List.mem_orderedInsert] at live
    rcases live with isNew | old
    · rw [isNew]
      exact ⟨rfl, rfl⟩
    · exact level order old

/-- Streams are consumed one after the other. -/
theorem consumeAll_append
    (books : Books) (first second : List (Text × Event)) :
    books.consumeAll (first ++ second) =
      (books.consumeAll first).consumeAll second := by
  simp [consumeAll]

/-- So are their faults found. -/
theorem thrown_append
    (books : Books) (first second : List (Text × Event)) :
    books.thrown (first ++ second) =
      books.thrown first ++ (books.consumeAll first).thrown second := by
  induction first generalizing books with
  | nil => rfl
  | cons event rest inductionHypothesis =>
      rw [List.cons_append, thrown, inductionHypothesis, thrown,
        List.append_assoc]
      rfl

/-- As long as the pool has slots the flood is taken in. -/
theorem flooded_flood
    (created : create [] poolBytes = .ok fresh) {count : Nat}
    (room : count ≤ fresh.newBook.slots) :
    fresh.thrown (flood count) = [] ∧
      Flooded poolBytes count (fresh.consumeAll (flood count)) := by
  have start := running_create created
  induction count with
  | zero =>
      unfold create at created
      split_ifs at created
      cases created
      have noOrders (side : Side) :
          (Books.core { filter := [], poolBytes := poolBytes }
            floodKey).sideOrders side = [] :=
        OrderBook.ofPool_sideOrders ..
      refine ⟨rfl, start, fun _ _ => rfl, ?_, noOrders .ask, ?_⟩
      · exact congrArg List.length (noOrders .bid)
      · intro order live
        have none_live := noOrders .bid ▸ live
        cases none_live
  | succ count inductionHypothesis =>
      obtain ⟨quiet, flooded⟩ := inductionHypothesis (by lia)
      have sameSlots : (fresh.consumeAll (flood count)).newBook =
          fresh.newBook := by
        rw [newBook, newBook, flooded.running.poolBytes, start.poolBytes]
      obtain ⟨next, applied, nextFlooded⟩ :=
        flooded.step (by rw [sameSlots]; lia)
      have consumed : (fresh.consumeAll (flood count)).consume [86]
          (floodEvent count) = (next, none) := by
        simp [consume, flooded.running.valid, applied]
      have shape : flood (count + 1) =
          flood count ++ [([86], floodEvent count)] := by
        simp [flood, List.range_succ]
      rw [shape, thrown_append, consumeAll_append, quiet]
      have lastQuiet : (fresh.consumeAll (flood count)).thrown
          [([86], floodEvent count)] = [] := by
        simp [thrown, consumed]
      have lastNext : (fresh.consumeAll (flood count)).consumeAll
          [([86], floodEvent count)] = next :=
        congrArg Prod.fst consumed
      rw [lastQuiet, lastNext]
      exact ⟨rfl, nextFlooded⟩

/-- Too many of them overflow the aggregate of their level. -/
theorem Flooded.not_totalsFit
    {count : Nat} (flooded : Flooded poolBytes count books)
    (many : 2 ^ 64 ≤ count * (2 ^ 32 - 1)) : ¬ books.TotalsFit := by
  intro totals
  obtain ⟨_, _, bids, _, level⟩ := flooded
  have nonempty : (books.core floodKey).sideOrders .bid ≠ [] := by
    intro isEmpty
    rw [isEmpty] at bids
    simp [← bids] at many
  cases found : books.books.find? floodKey with
  | none =>
      rw [Books.core, found, Option.getD_none, newBook,
        OrderBook.ofPool_sideOrders] at nonempty
      exact nonempty rfl
  | some core =>
      rw [core_of_found found] at bids level nonempty
      obtain ⟨order, live⟩ := List.exists_mem_of_ne_nil _ nonempty
      obtain ⟨entry, member, inLevel⟩ := List.mem_flatMap.mp live
      have priceOne : entry.1 = 1 := by
        obtain ⟨node, _, rfl⟩ := List.mem_map.mp inLevel
        exact (level _ live).1
      have wholeSide : OrderBook.levelOrders .bid entry.1 entry.2 =
          core.sideOrders .bid := by
        rw [OrderBook.levelOrders_eq_filter
          (OrderedMap.mem_entries.mp member), priceOne]
        exact List.filter_eq_self.mpr fun other otherLive => by
          simpa using (level other otherLive).1
      have fits := totals _ _ found _ (List.mem_append_left _
        (List.mem_map_of_mem member))
      have quantities : (core.sideOrders .bid).map OrderView.quantity =
          List.replicate count (2 ^ 32 - 1) :=
        List.eq_replicate_iff.mpr ⟨by simp [bids], fun quantity isOne => by
          obtain ⟨other, otherLive, rfl⟩ := List.mem_map.mp isOne
          exact (level other otherLive).2⟩
      rw [wholeSide, quantities, List.sum_replicate] at fits
      exact absurd fits (Nat.not_lt.mpr many)

/--
With a pool of `2 ^ 32 + 2` slots, as many orders of the largest quantity on
one price are all taken in, and the checker refuses their overflowing level.
-/
theorem flood_overflows :
    ∃ fresh, create [] (32 * (2 ^ 32 + 2)) = .ok fresh ∧
      fresh.thrown (flood (2 ^ 32 + 2)) = [] ∧
      (fresh.consumeAll (flood (2 ^ 32 + 2))).validateInvariants = false := by
  have created : create [] (32 * (2 ^ 32 + 2)) =
      .ok { filter := [], poolBytes := 32 * (2 ^ 32 + 2) } := rfl
  have slots : (OrderBook.ofPool 4096 (32 * (2 ^ 32 + 2))).slots =
      2 ^ 32 + 2 := by
    decide +kernel
  obtain ⟨quiet, flooded⟩ := flooded_flood created (Nat.le_of_eq slots.symm)
  refine ⟨_, created, quiet, ?_⟩
  have accepts := flooded.running.sound.validates_iff flooded.running.valid
  rw [Bool.eq_false_iff, ne_eq, accepts]
  exact flooded.not_totalsFit (by norm_num)

end LimitOrderBook.Feed.Books
