import LimitOrderBook.Fallible
import LimitOrderBook.OrderBookViews
import Mathlib.Algebra.Order.BigOperators.Group.List

namespace LimitOrderBook.OrderBook

/-!
# The runtime checker is exact

The checker walks both level maps with one set of seen ids.  Its two loops are
followed by two lemmas each: what a run over a queue or over a list of levels
leaves in the audit when nothing is wrong with them, and that nothing is wrong
with them when the run does not fail.  So the checker accepts exactly the
coherent books, and of the well-formed ones those whose totals fit.
-/

variable {book : OrderBook}

/-- A queue the checker walks through without complaint. -/
structure QueueAccepted
    (book : OrderBook) (side : Side) (price : Price)
    (seen : List OrderId) (computed : Nat) (queue : List QueueNode) :
    Prop where
  positive : ∀ node ∈ queue, node.remainingQuantity ≠ 0
  unseen : ∀ node ∈ queue, node.orderId ∉ seen
  idsNodup : (queue.map QueueNode.orderId).Nodup
  indexed : ∀ node ∈ queue,
    book.ordersById.find? node.orderId = some ⟨side, price, node.handle⟩
  fits : computed + (queue.map QueueNode.remainingQuantity).sum < 2 ^ 64

/-- Behind the first node its id is seen and its quantity counted. -/
theorem QueueAccepted.rest
    {side : Side} {price : Price} {seen : List OrderId} {computed : Nat}
    {node : QueueNode} {queue : List QueueNode}
    (accepted :
      QueueAccepted book side price seen computed (node :: queue)) :
    QueueAccepted book side price (node.orderId :: seen)
      (computed + node.remainingQuantity) queue where
  positive other member := accepted.positive other (by simp [member])
  unseen other member isSeen := by
    obtain ⟨nodeFresh, _⟩ := List.nodup_cons.mp accepted.idsNodup
    rcases List.mem_cons.mp isSeen with same | earlier
    · exact nodeFresh (same ▸ List.mem_map_of_mem member)
    · exact accepted.unseen other (by simp [member]) earlier
  idsNodup := (List.nodup_cons.mp accepted.idsNodup).2
  indexed other member := accepted.indexed other (by simp [member])
  fits := by
    have fits := accepted.fits
    rw [List.map_cons, List.sum_cons] at fits
    lia

theorem validateOrders_ok
    {side : Side} {price : Price} {queue : List QueueNode}
    (audit : Audit) {computed : Nat}
    (accepted :
      QueueAccepted book side price audit.seenOrderIds computed queue) :
    queue.foldlM (validateOrder book side price) (audit, computed) =
      .ok
        ({ audit with
            seenOrderIds :=
              (queue.map QueueNode.orderId).reverse ++ audit.seenOrderIds
            levelOrderCount := audit.levelOrderCount + queue.length },
          computed + (queue.map QueueNode.remainingQuantity).sum) := by
  induction queue generalizing audit computed with
  | nil =>
      rfl
  | cons node rest inductionHypothesis =>
      have positive := accepted.positive node (by simp)
      have unseen := accepted.unseen node (by simp)
      have indexed := accepted.indexed node (by simp)
      have step :
          validateOrder book side price (audit, computed) node =
            .ok
              ({ audit with
                  seenOrderIds := node.orderId :: audit.seenOrderIds
                  levelOrderCount := audit.levelOrderCount + 1 },
                computed + node.remainingQuantity) := by
        have noOverflow :
            ¬ 2 ^ 64 - 1 - node.remainingQuantity < computed := by
          have fits := accepted.fits
          rw [List.map_cons, List.sum_cons] at fits
          lia
        simp only [validateOrder, positive, unseen, noOverflow, indexed,
          if_false, ne_eq, not_true_eq_false]
      rw [List.foldlM_cons, step]
      simp only [bind, Except.bind]
      rw [inductionHypothesis _ accepted.rest]
      simp only [List.map_cons, List.reverse_cons, List.append_assoc,
        List.cons_append, List.nil_append, List.length_cons, List.sum_cons,
        Nat.add_comm 1, Nat.add_assoc]

/-- Every level of a list is accepted, one after the other. -/
structure LevelsAccepted
    (book : OrderBook) (side : Side) (seen : List OrderId)
    (entries : List (Price × PriceLevel)) : Prop where
  levelWf : ∀ entry ∈ entries, LevelWf entry.1 entry.2
  indexed : ∀ entry ∈ entries, ∀ node ∈ entry.2.orders,
    book.ordersById.find? node.orderId = some ⟨side, entry.1, node.handle⟩
  idsNodup : ((entries.flatMap (levelNodes side)).map
    fun placed => placed.node.orderId).Nodup
  unseen : ∀ placed ∈ entries.flatMap (levelNodes side),
    placed.node.orderId ∉ seen
  fits : ∀ entry ∈ entries,
    (entry.2.orders.map QueueNode.remainingQuantity).sum < 2 ^ 64

theorem map_orderId_levelNodes
    (side : Side) (entry : Price × PriceLevel) :
    (levelNodes side entry).map (fun placed => placed.node.orderId) =
      entry.2.orders.map QueueNode.orderId := by
  simp [levelNodes, Function.comp_def]

/-- The first level's queue is accepted from a total of nothing. -/
theorem LevelsAccepted.first
    {side : Side} {seen : List OrderId} {entry : Price × PriceLevel}
    {rest : List (Price × PriceLevel)}
    (accepted : LevelsAccepted book side seen (entry :: rest)) :
    QueueAccepted book side entry.1 seen 0 entry.2.orders where
  positive := (accepted.levelWf entry (by simp)).positive
  unseen node member :=
    accepted.unseen ⟨side, entry.1, node⟩
      (List.mem_append_left _ (List.mem_map_of_mem member))
  idsNodup := by
    have idsNodup := accepted.idsNodup
    rw [List.flatMap_cons, List.map_append, map_orderId_levelNodes] at idsNodup
    exact (List.nodup_append.mp idsNodup).1
  indexed := accepted.indexed entry (by simp)
  fits := by simpa using accepted.fits entry (by simp)

/-- Behind the first level the ids of its queue are seen. -/
theorem LevelsAccepted.rest
    {side : Side} {seen : List OrderId} {entry : Price × PriceLevel}
    {rest : List (Price × PriceLevel)}
    (accepted : LevelsAccepted book side seen (entry :: rest)) :
    LevelsAccepted book side
      ((entry.2.orders.map QueueNode.orderId).reverse ++ seen) rest := by
  have idsNodup := accepted.idsNodup
  rw [List.flatMap_cons, List.map_append, map_orderId_levelNodes] at idsNodup
  obtain ⟨_, restNodup, apart⟩ := List.nodup_append.mp idsNodup
  refine ⟨fun other member => accepted.levelWf other (by simp [member]),
    fun other member => accepted.indexed other (by simp [member]), restNodup,
    ?_, fun other member => accepted.fits other (by simp [member])⟩
  intro placed member isSeen
  rcases List.mem_append.mp isSeen with here | earlier
  · exact apart _ (List.mem_reverse.mp here) _
      (List.mem_map_of_mem member) rfl
  · exact accepted.unseen placed (List.mem_append_right _ member) earlier

/-- The best price after a walk: the first level's, if none was known. -/
def bestAfter (known : Option Price) (entries : List (Price × PriceLevel)) :
    Option Price :=
  known.orElse fun _ => entries.head?.map Prod.fst

theorem validateLevel_ok
    {side : Side} {audit : Audit} {entry : Price × PriceLevel}
    {rest : List (Price × PriceLevel)}
    (accepted :
      LevelsAccepted book side audit.seenOrderIds (entry :: rest))
    (settled : ∀ best, audit.expectedBest = some best →
      improves side entry.1 (some best) = false) :
    validateLevel book side audit entry =
      .ok
        { seenOrderIds :=
            (entry.2.orders.map QueueNode.orderId).reverse ++
              audit.seenOrderIds
          levelOrderCount :=
            audit.levelOrderCount + entry.2.orders.length
          expectedBest := bestAfter audit.expectedBest [entry] } := by
  have levelWf := accepted.levelWf entry (by simp)
  have pricePos := levelWf.pricePos
  have bestEq :
      (if improves side entry.1 audit.expectedBest = true then some entry.1
        else audit.expectedBest) = bestAfter audit.expectedBest [entry] := by
    cases known : audit.expectedBest with
    | none => simp [improves, bestAfter]
    | some best => simp [settled best known, bestAfter]
  have walked := validateOrders_ok
    { audit with expectedBest := bestAfter audit.expectedBest [entry] }
    accepted.first
  simp only [validateLevel, pricePos, List.isEmpty_eq_false_iff.mpr
    levelWf.nonempty, Bool.false_eq_true, if_false, bestEq, walked, bind,
    Except.bind, Nat.zero_add, levelWf.aggregate, ne_eq, not_true_eq_false]

theorem validateLevels_ok
    {lt : Price → Price → Prop} {side : Side}
    (direction : ∀ best price, lt best price →
      improves side price (some best) = false)
    {entries : List (Price × PriceLevel)}
    (sorted : entries.Pairwise fun first second => lt first.1 second.1)
    (audit : Audit)
    (accepted : LevelsAccepted book side audit.seenOrderIds entries)
    (settled : ∀ best, audit.expectedBest = some best →
      ∀ entry ∈ entries, improves side entry.1 (some best) = false) :
    entries.foldlM (validateLevel book side) audit =
      .ok
        { seenOrderIds :=
            ((entries.flatMap (levelNodes side)).map
              fun placed => placed.node.orderId).reverse ++
              audit.seenOrderIds
          levelOrderCount := audit.levelOrderCount +
            (entries.flatMap (levelNodes side)).length
          expectedBest := bestAfter audit.expectedBest entries } := by
  induction entries generalizing audit with
  | nil =>
      cases audit
      simp [bestAfter, pure, Except.pure]
  | cons entry rest inductionHypothesis =>
      obtain ⟨entryFirst, restSorted⟩ := List.pairwise_cons.mp sorted
      have step := validateLevel_ok accepted
        fun best known => settled best known entry (by simp)
      have restSettled :
          ∀ best, bestAfter audit.expectedBest [entry] = some best →
            ∀ other ∈ rest, improves side other.1 (some best) = false := by
        intro best known other member
        cases before : audit.expectedBest with
        | none =>
            simp only [before, bestAfter, Option.orElse, List.head?_cons,
              Option.map_some, Option.some.injEq] at known
            exact direction best other.1 (known ▸ entryFirst other member)
        | some earlier =>
            simp only [before, bestAfter, Option.orElse,
              Option.some.injEq] at known
            exact settled best (known ▸ before) other (by simp [member])
      rw [List.foldlM_cons, step]
      simp only [bind, Except.bind]
      rw [inductionHypothesis restSorted _ accepted.rest restSettled]
      have bestSame :
          bestAfter (bestAfter audit.expectedBest [entry]) rest =
            bestAfter audit.expectedBest (entry :: rest) := by
        cases audit.expectedBest <;> rfl
      simp only [bestSame, List.flatMap_cons, List.map_append,
        map_orderId_levelNodes, List.reverse_append, List.append_assoc, List.length_append,
        Nat.add_assoc]
      simp [levelNodes]

/-- Every level's exact total is in the range of its 64-bit aggregate. -/
def TotalsFit (book : OrderBook) : Prop :=
  ∀ level ∈ book.snapshot, (level.orders.map OrderView.quantity).sum < 2 ^ 64

theorem TotalsFit.sum_lt
    {lt : Price → Price → Prop} {side : Side}
    {levels : OrderedMap Price PriceLevel lt} (totals : book.TotalsFit)
    (shown : ∀ level ∈ shelfLevels side levels, level ∈ book.snapshot)
    {entry : Price × PriceLevel} (member : entry ∈ levels.entries) :
    (entry.2.orders.map QueueNode.remainingQuantity).sum < 2 ^ 64 := by
  have fits := totals _ (shown _ (List.mem_map_of_mem member))
  simpa [levelOrders, Function.comp_def] using fits

theorem mem_snapshot
    {level : LevelView} :
    level ∈ book.snapshot ↔
      (∃ entry ∈ book.bids.entries, level =
        ⟨.bid, entry.1, entry.2.aggregateQuantity,
          levelOrders .bid entry.1 entry.2⟩) ∨
      ∃ entry ∈ book.asks.entries, level =
        ⟨.ask, entry.1, entry.2.aggregateQuantity,
          levelOrders .ask entry.1 entry.2⟩ := by
  simp only [snapshot, shelfLevels, List.mem_append, List.mem_map, eq_comm]

theorem levelOrders_sublist
    {lt : Price → Price → Prop} (side : Side)
    {levels : OrderedMap Price PriceLevel lt} {entry : Price × PriceLevel}
    (member : entry ∈ levels.entries) :
    (levelOrders side entry.1 entry.2).Sublist (shelfOrders side levels) := by
  obtain ⟨before, after, shape⟩ := List.append_of_mem member
  rw [shelfOrders, shape, List.flatMap_append, List.flatMap_cons]
  exact (List.sublist_append_left _ _).trans (List.sublist_append_right _ _)

/-- The orders of a level are among the orders of the book. -/
theorem orders_of_snapshot
    {level : LevelView} (shown : level ∈ book.snapshot) :
    level.orders.Sublist book.orders := by
  rcases mem_snapshot.mp shown with ⟨entry, member, rfl⟩ | ⟨entry, member, rfl⟩
  · exact (levelOrders_sublist .bid member).trans
      (List.sublist_append_left _ _)
  · exact (levelOrders_sublist .ask member).trans
      (List.sublist_append_right _ _)

/-- The totals of 32-bit quantities fit unless the book has too many slots. -/
theorem Wf.totalsFit
    (wf : book.Wf) (slotsFit : book.slots ≤ 2 ^ 32 + 1)
    (quantitiesFit : ∀ order ∈ book.orders, order.quantity < 2 ^ 32) :
    book.TotalsFit := by
  intro level shown
  have sublist := orders_of_snapshot shown
  have countLe : book.orders.length ≤ book.slots := by
    obtain ⟨pool, owned, holds⟩ := wf.pooled
    simpa [orders_eq, slots, owned] using holds.length_le
  have sumLe :
      (level.orders.map OrderView.quantity).sum ≤
        level.orders.length * (2 ^ 32 - 1) := by
    have each := List.sum_le_card_nsmul
      (level.orders.map OrderView.quantity) (2 ^ 32 - 1) (by
        intro quantity member
        obtain ⟨order, orderMember, rfl⟩ := List.mem_map.mp member
        have narrow := quantitiesFit order (sublist.subset orderMember)
        lia)
    simpa using each
  have lengthLe := sublist.length_le
  lia

/-! ## Coherent books -/

/-- What the checker is for: the levels and the index tell the same story. -/
structure Coherent (book : OrderBook) : Prop where
  bidLevels : ∀ entry ∈ book.bids.entries, LevelSound entry.1 entry.2
  askLevels : ∀ entry ∈ book.asks.entries, LevelSound entry.1 entry.2
  indexed : Indexed book.placed book.ordersById

/-- The levels of one side are accepted when the other side's ids are seen. -/
theorem levelsAccepted_of_indexed
    (indexed : Indexed book.placed book.ordersById)
    {lt : Price → Price → Prop} {side : Side}
    {levels : OrderedMap Price PriceLevel lt} (seen : List OrderId)
    (coherent : ∀ entry ∈ levels.entries, LevelSound entry.1 entry.2)
    (inside : ∀ entry ∈ shelfNodes side levels, entry ∈ book.placed)
    (idsNodup : ((shelfNodes side levels).map
      fun entry => entry.node.orderId).Nodup)
    (unseen : ∀ entry ∈ shelfNodes side levels, entry.node.orderId ∉ seen) :
    LevelsAccepted book side seen levels.entries where
  levelWf entry member := (levelSound_iff.mp (coherent entry member)).1
  indexed entry member _ nodeMember :=
    (indexed.exact _ _).mpr
      ⟨_, inside _ (List.mem_flatMap.mpr
        ⟨entry, member, List.mem_map_of_mem nodeMember⟩), rfl, rfl⟩
  idsNodup := idsNodup
  unseen := unseen
  fits entry member := (levelSound_iff.mp (coherent entry member)).2

/-- The checker accepts a coherent book. -/
theorem Coherent.checkInvariants_ok
    (coherent : book.Coherent) : book.checkInvariants = .ok () := by
  have indexed := coherent.indexed
  have idsNodup := indexed.idsNodup
  have lengthEq :
      book.placed.length = (shelfNodes .bid book.bids).length +
        (shelfNodes .ask book.asks).length := by
    simp [placed]
  rw [placed, List.map_append] at idsNodup
  obtain ⟨bidsNodup, asksNodup, sidesApart⟩ := List.nodup_append.mp idsNodup
  have bidsAccepted := levelsAccepted_of_indexed indexed []
    coherent.bidLevels (fun _ member => List.mem_append_left _ member)
    bidsNodup (by simp)
  have asksAccepted := levelsAccepted_of_indexed indexed
    (((shelfNodes .bid book.bids).map
      fun entry => entry.node.orderId).reverse ++ [])
    coherent.askLevels (fun _ member => List.mem_append_right _ member)
    asksNodup
    (by
      intro entry member seen
      rw [List.append_nil, List.mem_reverse] at seen
      exact sidesApart _ seen _ (List.mem_map_of_mem member) rfl)
  have bidsWalked := validateLevels_ok
    (fun best price later => by simpa [improves] using Nat.le_of_lt later)
    book.bids.sorted {} bidsAccepted (by simp)
  have asksWalked := validateLevels_ok
    (fun best price later => by simpa [improves] using Nat.le_of_lt later)
    book.asks.sorted
    ⟨((shelfNodes .bid book.bids).map
      fun entry => entry.node.orderId).reverse ++ [],
      0 + (shelfNodes .bid book.bids).length, none⟩
    asksAccepted (by simp)
  have allSeen :
      ∀ orderId ∈ book.ordersById.keys,
        orderId ∈ ((shelfNodes .ask book.asks).map
            fun entry => entry.node.orderId).reverse ++
          (((shelfNodes .bid book.bids).map
            fun entry => entry.node.orderId).reverse ++ []) := by
    intro orderId member
    obtain ⟨location, found⟩ :=
      Option.isSome_iff_exists.mp (OrderedMap.mem_keys.mp member)
    obtain ⟨entry, entryMember, rfl, _⟩ :=
      (indexed.exact orderId location).mp found
    rcases List.mem_append.mp entryMember with isBid | isAsk
    · exact List.mem_append_right _ (List.mem_append_left _
        (List.mem_reverse.mpr (List.mem_map_of_mem isBid)))
    · exact List.mem_append_left _
        (List.mem_reverse.mpr (List.mem_map_of_mem isAsk))
  have countEq : book.ordersById.size = book.placed.length := indexed.size_eq
  unfold checkInvariants validateLevels
  rw [bidsWalked]
  simp only [bind, Except.bind, shelfNodes] at asksWalked ⊢
  rw [asksWalked]
  dsimp only
  split
  next orderId found =>
    have unseen := List.find?_some found
    have seen := allSeen orderId (List.mem_of_find?_eq_some found)
    simp only [decide_eq_true_eq] at unseen
    exact absurd seen unseen
  next =>
    have countSame :
        0 + (book.bids.entries.flatMap (levelNodes .bid)).length +
            (book.asks.entries.flatMap (levelNodes .ask)).length =
          book.ordersById.size := by
      rw [countEq, lengthEq, Nat.zero_add]
      rfl
    simp only [countSame, bestBid, bestAsk, bestAfter,
      Option.orElse, ne_eq, not_true_eq_false, if_false]

/-! ## What the checker's acceptance says -/

theorem validateOrder_accepted
    {side : Side} {price : Price} {state next : Audit × Nat}
    {node : QueueNode} (narrow : node.remainingQuantity < 2 ^ 64)
    (accepted : validateOrder book side price state node = .ok next) :
    node.remainingQuantity ≠ 0 ∧
      node.orderId ∉ state.1.seenOrderIds ∧
      state.2 + node.remainingQuantity < 2 ^ 64 ∧
      book.ordersById.find? node.orderId =
        some ⟨side, price, node.handle⟩ ∧
      next.1.seenOrderIds = node.orderId :: state.1.seenOrderIds ∧
      next.2 = state.2 + node.remainingQuantity := by
  obtain ⟨audit, computed⟩ := state
  unfold validateOrder at accepted
  dsimp only at accepted ⊢
  split_ifs at accepted with zero seen overflow
  cases found : book.ordersById.find? node.orderId with
  | none =>
      rw [found] at accepted
      cases accepted
  | some location =>
      rw [found] at accepted
      dsimp only at accepted
      split_ifs at accepted with wrongSide wrongPrice wrongIterator
      cases accepted
      obtain ⟨_, _, _⟩ := location
      simp only [ne_eq, not_not] at wrongSide wrongPrice wrongIterator
      subst wrongSide wrongPrice wrongIterator
      exact ⟨zero, seen, by lia, rfl, rfl, rfl⟩

/-- A walk over a queue that does not fail accepts every node. -/
theorem validateOrders_accepted
    {side : Side} {price : Price} {queue : List QueueNode}
    {state last : Audit × Nat}
    (narrow : ∀ node ∈ queue, node.remainingQuantity < 2 ^ 64)
    (small : state.2 < 2 ^ 64)
    (walked : queue.foldlM (validateOrder book side price) state =
      .ok last) :
    QueueAccepted book side price state.1.seenOrderIds state.2 queue := by
  induction queue generalizing state with
  | nil =>
      exact
        { positive := by simp
          unseen := by simp
          idsNodup := .nil
          indexed := by simp
          fits := by simpa using small }
  | cons node rest inductionHypothesis =>
      rw [List.foldlM_cons] at walked
      obtain ⟨next, stepped, restWalked⟩ := Fallible.bind_ok walked
      obtain ⟨positive, unseen, fits, indexed, seenNext, computedNext⟩ :=
        validateOrder_accepted (narrow node (by simp)) stepped
      have accepted := inductionHypothesis
        (fun other member => narrow other (by simp [member]))
        (computedNext ▸ fits) restWalked
      rw [seenNext, computedNext] at accepted
      exact
        { positive := List.forall_mem_cons.mpr ⟨positive, accepted.positive⟩
          unseen := List.forall_mem_cons.mpr ⟨unseen, fun other member seen =>
            accepted.unseen other member (List.mem_cons_of_mem _ seen)⟩
          idsNodup := by
            refine List.nodup_cons.mpr ⟨?_, accepted.idsNodup⟩
            intro again
            obtain ⟨other, member, same⟩ := List.mem_map.mp again
            exact accepted.unseen other member (same ▸ List.mem_cons_self)
          indexed := List.forall_mem_cons.mpr ⟨indexed, accepted.indexed⟩
          fits := by
            have restFits := accepted.fits
            rw [List.map_cons, List.sum_cons]
            lia }

theorem validateLevel_accepted
    {side : Side} {audit next : Audit} {entry : Price × PriceLevel}
    (narrow : ∀ node ∈ entry.2.orders, node.remainingQuantity < 2 ^ 64)
    (accepted : validateLevel book side audit entry = .ok next) :
    LevelWf entry.1 entry.2 ∧
      QueueAccepted book side entry.1 audit.seenOrderIds 0 entry.2.orders ∧
      next.seenOrderIds =
        (entry.2.orders.map QueueNode.orderId).reverse ++
          audit.seenOrderIds := by
  unfold validateLevel at accepted
  dsimp only at accepted
  split_ifs at accepted with zeroPrice isEmpty
  -- Whether the level improves on the best price does not matter here.
  all_goals
    obtain ⟨state, walked, rest⟩ := Fallible.bind_ok accepted
    have queueAccepted := validateOrders_accepted narrow (by simp) walked
    have walkedSo := validateOrders_ok _ queueAccepted
    rw [walked] at walkedSo
    cases walkedSo
    dsimp only at rest
    split_ifs at rest with mismatch
    cases rest
    simp only [Nat.zero_add, ne_eq, not_not] at mismatch
    exact ⟨⟨zeroPrice, by simpa using isEmpty, queueAccepted.positive,
      mismatch.symm⟩, queueAccepted, rfl⟩

/-- A walk over a list of levels that does not fail accepts every level. -/
theorem validateLevels_accepted
    {side : Side} {entries : List (Price × PriceLevel)} {audit last : Audit}
    (narrow : ∀ entry ∈ entries, ∀ node ∈ entry.2.orders,
      node.remainingQuantity < 2 ^ 64)
    (walked : entries.foldlM (validateLevel book side) audit = .ok last) :
    LevelsAccepted book side audit.seenOrderIds entries := by
  induction entries generalizing audit with
  | nil =>
      exact
        { levelWf := by simp
          indexed := by simp
          idsNodup := .nil
          unseen := by simp
          fits := by simp }
  | cons entry rest inductionHypothesis =>
      rw [List.foldlM_cons] at walked
      obtain ⟨next, stepped, restWalked⟩ := Fallible.bind_ok walked
      obtain ⟨levelWf, queueAccepted, seenNext⟩ :=
        validateLevel_accepted (narrow entry (by simp)) stepped
      have accepted := inductionHypothesis
        (fun other member => narrow other (by simp [member])) restWalked
      rw [seenNext] at accepted
      exact
        { levelWf := List.forall_mem_cons.mpr ⟨levelWf, accepted.levelWf⟩
          indexed := List.forall_mem_cons.mpr
            ⟨queueAccepted.indexed, accepted.indexed⟩
          idsNodup := by
            rw [List.flatMap_cons, List.map_append, List.nodup_append]
            refine ⟨by simpa [levelNodes, Function.comp_def] using
              queueAccepted.idsNodup, accepted.idsNodup, ?_⟩
            rintro _ here _ there rfl
            obtain ⟨placed, member, same⟩ := List.mem_map.mp there
            refine accepted.unseen placed member (List.mem_append_left _ ?_)
            rw [same, List.mem_reverse]
            simpa [levelNodes, Function.comp_def] using here
          unseen := by
            intro placed member
            rw [List.flatMap_cons] at member
            rcases List.mem_append.mp member with here | later
            · obtain ⟨node, nodeMember, rfl⟩ := List.mem_map.mp here
              exact queueAccepted.unseen node nodeMember
            · exact fun seen => accepted.unseen placed later
                (List.mem_append_right _ seen)
          fits := List.forall_mem_cons.mpr
            ⟨by simpa using queueAccepted.fits, accepted.fits⟩ }

/-- The checker's three walks leave no entry of the index unaccounted for. -/
theorem indexed_of_walks
    (bids : LevelsAccepted book .bid [] book.bids.entries)
    (asks : LevelsAccepted book .ask
      ((shelfNodes .bid book.bids).map fun entry => entry.node.orderId).reverse
      book.asks.entries)
    (swept : ∀ orderId ∈ book.ordersById.keys,
      ∃ entry ∈ book.placed, entry.node.orderId = orderId) :
    Indexed book.placed book.ordersById := by
  have indexed : ∀ entry ∈ book.placed,
      book.ordersById.find? entry.node.orderId = some entry.location := by
    intro entry member
    rcases List.mem_append.mp member with isBid | isAsk
    · obtain ⟨level, levelMember, inLevel⟩ := List.mem_flatMap.mp isBid
      obtain ⟨node, nodeMember, rfl⟩ := List.mem_map.mp inLevel
      exact bids.indexed level levelMember node nodeMember
    · obtain ⟨level, levelMember, inLevel⟩ := List.mem_flatMap.mp isAsk
      obtain ⟨node, nodeMember, rfl⟩ := List.mem_map.mp inLevel
      exact asks.indexed level levelMember node nodeMember
  constructor
  · rw [placed, List.map_append]
    refine List.nodup_append.mpr ⟨bids.idsNodup, asks.idsNodup, ?_⟩
    rintro _ isBid _ isAsk rfl
    obtain ⟨entry, member, same⟩ := List.mem_map.mp isAsk
    refine asks.unseen entry member ?_
    rw [same, List.mem_reverse]
    exact isBid
  · intro orderId location
    constructor
    · intro found
      obtain ⟨entry, member, rfl⟩ :=
        swept orderId (OrderedMap.mem_keys.mpr (by rw [found]; rfl))
      rw [indexed entry member] at found
      exact ⟨entry, member, rfl, (Option.some.inj found).symm⟩
    · rintro ⟨entry, member, rfl, rfl⟩
      exact indexed entry member

/-- The fields of a state have the widths of the source's types. -/
def Representable (book : OrderBook) : Prop :=
  ∀ entry ∈ book.placed, entry.node.remainingQuantity < 2 ^ 32

theorem Representable.narrow
    (representable : book.Representable)
    {lt : Price → Price → Prop} {side : Side}
    {levels : OrderedMap Price PriceLevel lt}
    (inside : ∀ entry ∈ shelfNodes side levels, entry ∈ book.placed) :
    ∀ entry ∈ levels.entries, ∀ node ∈ entry.2.orders,
      node.remainingQuantity < 2 ^ 64 := by
  intro entry member node nodeMember
  have placedHere := inside ⟨side, entry.1, node⟩ (List.mem_flatMap.mpr
    ⟨entry, member, List.mem_map_of_mem nodeMember⟩)
  exact (representable _ placedHere).trans (by decide)

/-- A book that the checker accepts is coherent. -/
theorem coherent_of_checkInvariants
    (representable : book.Representable)
    (accepted : book.checkInvariants = .ok ()) : book.Coherent := by
  unfold checkInvariants at accepted
  obtain ⟨bidAudit, bidsWalked, rest⟩ := Fallible.bind_ok accepted
  obtain ⟨askAudit, asksWalked, indexSwept⟩ := Fallible.bind_ok rest
  have bidsAccepted := validateLevels_accepted
    (representable.narrow fun _ => List.mem_append_left _) bidsWalked
  have bidsSeen := validateLevels_ok
    (fun best price later => by simpa [improves] using Nat.le_of_lt later)
    book.bids.sorted _ bidsAccepted (by simp)
  rw [validateLevels, bidsSeen] at bidsWalked
  cases bidsWalked
  have asksAccepted := validateLevels_accepted
    (representable.narrow fun _ => List.mem_append_right _) asksWalked
  have asksSeen := validateLevels_ok
    (fun best price later => by simpa [improves] using Nat.le_of_lt later)
    book.asks.sorted _ asksAccepted (by simp)
  rw [validateLevels, asksSeen] at asksWalked
  cases asksWalked
  simp only [List.append_nil] at asksAccepted indexSwept
  refine
    { bidLevels := fun entry member => levelSound_iff.mpr
        ⟨bidsAccepted.levelWf entry member, bidsAccepted.fits entry member⟩
      askLevels := fun entry member => levelSound_iff.mpr
        ⟨asksAccepted.levelWf entry member, asksAccepted.fits entry member⟩
      indexed := indexed_of_walks bidsAccepted asksAccepted ?_ }
  intro orderId member
  split at indexSwept
  · cases indexSwept
  · rename_i allSeen
    have seen := List.find?_eq_none.mp allSeen orderId member
    rw [decide_eq_true_iff, not_not, List.mem_append, List.mem_reverse,
      List.mem_reverse] at seen
    rcases seen with isAsk | isBid
    · obtain ⟨entry, entryMember, same⟩ := List.mem_map.mp isAsk
      exact ⟨entry, List.mem_append_right _ entryMember, same⟩
    · obtain ⟨entry, entryMember, same⟩ := List.mem_map.mp isBid
      exact ⟨entry, List.mem_append_left _ entryMember, same⟩

theorem checkInvariants_ok_iff (representable : book.Representable) :
    book.checkInvariants = .ok () ↔ book.Coherent :=
  ⟨coherent_of_checkInvariants representable, Coherent.checkInvariants_ok⟩

/-- Of all states, corrupted ones included, the checker accepts the coherent. -/
theorem validateInvariants_exact
    (book : OrderBook) (representable : book.Representable) :
    book.validateInvariants = true ↔ book.Coherent := by
  rw [← checkInvariants_ok_iff representable, validateInvariants]
  cases book.checkInvariants with
  | error reason => simp [Except.isOk, Except.toBool]
  | ok done => simp [Except.isOk, Except.toBool]

/-- A bid with two orders whose index entries point at each other's nodes. -/
def crossedIndex : OrderBook where
  pool := none
  bids := OrderedMap.empty.insert 100 ⟨[⟨0, 7, 3⟩, ⟨32, 8, 4⟩], 7⟩
  ordersById :=
    (OrderedMap.empty.insert 7 ⟨.bid, 100, 32⟩).insert 8 ⟨.bid, 100, 0⟩

theorem validateInvariants_exact_crossed :
    crossedIndex.validateInvariants = true ↔ crossedIndex.Coherent :=
  validateInvariants_exact crossedIndex (by unfold Representable; decide)

/-! ## Well-formed books -/

/-- A well-formed book is coherent once its totals fit. -/
theorem Wf.coherent (wf : book.Wf) (totals : book.TotalsFit) :
    book.Coherent where
  bidLevels _ member := levelSound_iff.mpr
    ⟨wf.bidLevels.of_entry member,
      totals.sum_lt (fun _ => List.mem_append_left _) member⟩
  askLevels _ member := levelSound_iff.mpr
    ⟨wf.askLevels.of_entry member,
      totals.sum_lt (fun _ => List.mem_append_right _) member⟩
  indexed := wf.indexed

theorem Coherent.totalsFit (coherent : book.Coherent) :
    book.TotalsFit := by
  intro level shown
  rcases mem_snapshot.mp shown with ⟨entry, member, rfl⟩ | ⟨entry, member, rfl⟩
  · simpa [levelOrders, Function.comp_def] using
      (levelSound_iff.mp (coherent.bidLevels entry member)).2
  · simpa [levelOrders, Function.comp_def] using
      (levelSound_iff.mp (coherent.askLevels entry member)).2

/-- The checker accepts a well-formed book with 32-bit quantities and slots. -/
theorem Wf.checkInvariants_ok
    (wf : book.Wf) (slotsFit : book.slots < 2 ^ 32)
    (quantitiesFit : ∀ order ∈ book.orders, order.quantity < 2 ^ 32) :
    book.checkInvariants = .ok () :=
  (wf.coherent (wf.totalsFit (by lia) quantitiesFit)).checkInvariants_ok

/-- The checker accepts a well-formed book exactly when its totals fit. -/
theorem Wf.checkInvariants_iff
    (wf : book.Wf)
    (quantitiesFit : ∀ order ∈ book.orders, order.quantity < 2 ^ 32) :
    book.checkInvariants = .ok () ↔ book.TotalsFit := by
  have representable : book.Representable := fun entry member =>
    quantitiesFit _ (orders_eq book ▸ List.mem_map_of_mem member)
  constructor
  · exact fun accepted =>
      ((checkInvariants_ok_iff representable).mp accepted).totalsFit
  · exact fun totals => (wf.coherent totals).checkInvariants_ok

end LimitOrderBook.OrderBook
