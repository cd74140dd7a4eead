import LimitOrderBook.FeedIsolation

namespace LimitOrderBook.Feed

/-!
# Leaving out the orders of other symbols

Books of one symbol keep routes of all orders.  When the events of the other
symbols are left out of the stream, only those routes are missing: an event
that names its symbol touches routes and books of that symbol alone.
-/

/-- The part of some routes that one symbol has. -/
def Lookup.ofSymbol (find : Lookup) (symbol : Text) : Lookup :=
  fun orderId =>
    (find orderId).filter fun tracked => decide (tracked.book.symbol = symbol)

/-- Events that change no book and no route. -/
def Event.Passive (e : Event) : Prop :=
  e.type = .metadata ∨ e.type = .directory ∨ e.type = .trade

variable {find : Lookup} {symbol venue : Text} {e : Event}
  {writes : List (OrderId × Option Tracked)}

theorem Lookup.ofSymbol_none
    {orderId : OrderId} (missing : find orderId = none) :
    find.ofSymbol symbol orderId = none := by
  simp [Lookup.ofSymbol, missing]

theorem Lookup.ofSymbol_some
    {orderId : OrderId} {tracked : Tracked}
    (found : find orderId = some tracked)
    (here : tracked.book.symbol = symbol) :
    find.ofSymbol symbol orderId = some tracked := by
  simp [Lookup.ofSymbol, found, Option.filter, here]

/-- Writes of the symbol are written to its part. -/
theorem Lookup.ofSymbol_writeAll
    (within : ∀ write ∈ writes, ∀ tracked, write.2 = some tracked →
      tracked.book.symbol = symbol) :
    (find.writeAll writes).ofSymbol symbol =
      (find.ofSymbol symbol).writeAll writes := by
  induction writes generalizing find with
  | nil => rfl
  | cons write rest inductionHypothesis =>
      have restWithin :
          ((find.write write).writeAll rest).ofSymbol symbol =
            ((find.write write).ofSymbol symbol).writeAll rest :=
        inductionHypothesis fun other member =>
          within other (List.mem_cons_of_mem _ member)
      refine restWithin.trans ?_
      rw [Lookup.writeAll, Lookup.writeAll, List.foldl_cons]
      congr 1
      funext orderId
      simp only [Lookup.ofSymbol, Lookup.write]
      split_ifs
      · cases value : write.2 with
        | none => rfl
        | some tracked =>
            have here := within write (by simp) tracked value
            simp [Option.filter, here]
      · rfl

/-- Writes of other symbols are not seen. -/
theorem Lookup.ofSymbol_elsewhere
    (within : ∀ write ∈ writes, ∀ tracked,
      find write.1 = some tracked ∨ write.2 = some tracked →
        tracked.book.symbol ≠ symbol) :
    (find.writeAll writes).ofSymbol symbol = find.ofSymbol symbol := by
  funext orderId
  refine Lookup.filter_writeAll ?_ orderId
  intro write member tracked written
  exact decide_eq_false (within write member tracked written)

namespace Change

variable {book : BookKey} {made : BookCall} {change : Change}

theorem passive_ofEvent
    (passive : e.Passive) (changed : ofEvent find venue e = some change) :
    change = .nothing := by
  obtain ⟨_, changed⟩ := Option.ite_none_left_eq_some.mp changed
  rcases passive with kind | kind | kind
  all_goals
    rw [kind] at changed
    cases changed
    rfl

/-- An event that names its symbol changes a book of that symbol. -/
theorem symbol_ofEvent
    (named : e.symbol ≠ [])
    (changed : ofEvent find venue e = some (.order book made writes)) :
    book.symbol = e.symbol := by
  obtain ⟨_, changed⟩ := Option.ite_none_left_eq_some.mp changed
  split at changed
  · cases changed
  · cases changed
  · cases changed
  · cases changed
  · obtain ⟨_, same⟩ := Option.ite_none_right_eq_some.mp changed
    cases same
    rfl
  · obtain ⟨old, found, changed⟩ := Option.bind_eq_some_iff.mp changed
    obtain ⟨belongs, known⟩ := Option.ite_none_right_eq_some.mp changed
    obtain ⟨rfl, _⟩ := paired_ofKnown found known
    exact belongs.resolve_left named

/-- An event on a known order changes orders. -/
theorem ofKnown_ne_clear (old : Tracked) :
    ofKnown find e old ≠ some .clear := by
  unfold ofKnown ofDecrement ofExecuteRemaining ofReplace
  dsimp only
  intro isClear
  split at isClear
  · cases isClear
  · split_ifs at isClear
    all_goals cases isClear
  · split_ifs at isClear
    all_goals cases isClear
  · split_ifs at isClear
    all_goals cases isClear
  · split_ifs at isClear
    all_goals cases isClear
  · cases isClear

/-- Only a clearing event clears. -/
theorem clear_ofEvent
    (changed : ofEvent find venue e = some .clear) : e.type = .clear := by
  obtain ⟨_, changed⟩ := Option.ite_none_left_eq_some.mp changed
  split at changed
  · cases changed
  · cases changed
  · cases changed
  · assumption
  · obtain ⟨_, same⟩ := Option.ite_none_right_eq_some.mp changed
    cases same
  · obtain ⟨old, _, changed⟩ := Option.bind_eq_some_iff.mp changed
    obtain ⟨_, known⟩ := Option.ite_none_right_eq_some.mp changed
    exact absurd known (ofKnown_ne_clear old)

/-- The part of the symbol is enough to read an event of the symbol. -/
theorem ofEvent_ofSymbol
    (named : symbol ≠ [])
    (relevant : e.Passive ∨ e.type = .clear ∨ e.symbol = symbol)
    (changed : ofEvent find venue e = some change) :
    ofEvent (find.ofSymbol symbol) venue e = some change := by
  obtain ⟨venueNamed, changed⟩ := Option.ite_none_left_eq_some.mp changed
  unfold ofEvent
  rw [if_neg venueNamed]
  have ofOrder (isOrder : ¬ (e.Passive ∨ e.type = .clear)) :
      e.symbol = symbol := by
    rcases relevant with passive | clear | here
    · exact absurd (Or.inl passive) isOrder
    · exact absurd (Or.inr clear) isOrder
    · exact here
  have known (here : e.symbol = symbol)
      (changed : ((find e.orderId).bind fun old =>
        if e.symbol = [] ∨ old.book.symbol = e.symbol then
          ofKnown find e old
        else none) = some change) :
      ((find.ofSymbol symbol e.orderId).bind fun old =>
        if e.symbol = [] ∨ old.book.symbol = e.symbol then
          ofKnown (find.ofSymbol symbol) e old
        else none) = some change := by
    obtain ⟨old, found, changed⟩ := Option.bind_eq_some_iff.mp changed
    obtain ⟨belongs, isKnown⟩ := Option.ite_none_right_eq_some.mp changed
    have oldHere : old.book.symbol = symbol :=
      (belongs.resolve_left (here ▸ named)).trans here
    rw [Lookup.ofSymbol_some found oldHere, Option.bind_some, if_pos belongs]
    unfold ofKnown at isKnown ⊢
    cases kind : e.type with
    | replace =>
        simp only [kind] at isKnown ⊢
        obtain ⟨⟨unused, rest⟩, same⟩ :=
          Option.ite_none_right_eq_some.mp isKnown
        have stillUnused : e.newOrderId = e.orderId ∨
            find.ofSymbol symbol e.newOrderId = none :=
          unused.imp_right Lookup.ofSymbol_none
        unfold ofReplace
        rw [if_pos ⟨stillUnused, rest⟩]
        exact same
    | _ =>
        simp only [kind] at isKnown ⊢
        exact isKnown
  cases kind : e.type with
  | metadata =>
      simp only [kind] at changed ⊢
      exact changed
  | directory =>
      simp only [kind] at changed ⊢
      exact changed
  | trade =>
      simp only [kind] at changed ⊢
      exact changed
  | clear =>
      simp only [kind] at changed ⊢
      exact changed
  | add =>
      simp only [kind] at changed ⊢
      obtain ⟨⟨hasSymbol, unused, rest⟩, same⟩ :=
        Option.ite_none_right_eq_some.mp changed
      unfold ofAdd
      rw [if_pos ⟨hasSymbol, Lookup.ofSymbol_none unused, rest⟩]
      exact same
  | _ =>
      simp only [kind] at changed ⊢
      exact known (ofOrder (by simp [Event.Passive, kind])) changed

end Change

namespace Books

variable {poolBytes : Nat} {full sample : Books}

/-- The same books of one symbol, with its own routes only. -/
structure Restricts (symbol : Text) (poolBytes : Nat) (full sample : Books) :
    Prop where
  runningFull : Running symbol poolBytes full
  runningSample : Running symbol poolBytes sample
  books : sample.books = full.books
  updates : sample.updates = full.updates
  routes : ∀ venue channel, sample.route venue channel =
    (full.route venue channel).ofSymbol symbol

theorem restricts_create
    {fresh : Books} (created : create symbol poolBytes = .ok fresh) :
    Restricts symbol poolBytes fresh fresh := by
  have running := running_create created
  refine ⟨running, running, rfl, rfl, fun venue channel => ?_⟩
  unfold create at created
  split_ifs at created
  cases created
  rfl

/-- An event of another symbol is taken as if it had not been there. -/
theorem Restricts.skip
    (restricts : Restricts symbol poolBytes full sample)
    (named : symbol ≠ [])
    (irrelevant : e.Passive ∨
      e.type ≠ .clear ∧ e.symbol ≠ [] ∧ e.symbol ≠ symbol) {next : Books}
    (applied : full.apply venue e = .ok next) :
    Restricts symbol poolBytes next sample := by
  have performed := restricts.runningFull.sound.apply_eq venue e
  rw [applied] at performed
  obtain ⟨change, changed, performed⟩ :=
    Option.bind_eq_some_iff.mp performed.symm
  have running := restricts.runningFull.apply applied
  have same (isSame : next = full) : Restricts symbol poolBytes next sample :=
    ⟨running, restricts.runningSample, isSame ▸ restricts.books,
      isSame ▸ restricts.updates, isSame ▸ restricts.routes⟩
  rcases irrelevant with passive | ⟨notClear, hasSymbol, other⟩
  · obtain rfl := Change.passive_ofEvent passive changed
    cases performed
    exact same rfl
  · cases change with
    | nothing =>
        cases performed
        exact same rfl
    | clear => exact absurd (Change.clear_ofEvent changed) notClear
    | order key made writes =>
        have keySymbol := Change.symbol_ofEvent hasSymbol changed
        obtain ⟨_, _, paired⟩ := Change.paired_ofEvent
          (restricts.runningFull.sound.placed _ _) changed
        have unselected : ¬ full.selected key.symbol = true := by
          rw [restricts.runningFull.selected_iff, keySymbol]
          rintro (isNil | isSymbol)
          · exact named isNil
          · exact other isSymbol.symm
        unfold perform at performed
        dsimp only at performed
        rw [if_neg unselected] at performed
        cases performed
        refine ⟨running, restricts.runningSample, restricts.books,
          restricts.updates, fun otherVenue otherChannel => ?_⟩
        rw [route_withRoutes, restricts.routes]
        split_ifs with here
        · rw [here.1, here.2]
          refine (Lookup.ofSymbol_elsewhere ?_).symm
          intro write member tracked placed isSymbol
          rw [paired.within write member tracked placed, keySymbol]
            at isSymbol
          exact other isSymbol
        · rfl

/-- An event of the symbol is taken in the same way. -/
theorem Restricts.apply
    (restricts : Restricts symbol poolBytes full sample)
    (named : symbol ≠ [])
    (relevant : e.Passive ∨ e.type = .clear ∨ e.symbol = symbol)
    {next : Books} (applied : full.apply venue e = .ok next) :
    ∃ sampleNext, sample.apply venue e = .ok sampleNext ∧
      Restricts symbol poolBytes next sampleNext := by
  have fullSound := restricts.runningFull.sound
  have performed := fullSound.apply_eq venue e
  rw [applied] at performed
  obtain ⟨change, changed, performed⟩ :=
    Option.bind_eq_some_iff.mp performed.symm
  have sampleChanged : Change.ofEvent (sample.route venue e.channel) venue e =
      some change := by
    rw [restricts.routes]
    exact Change.ofEvent_ofSymbol named relevant changed
  -- What is left to show once the sample has performed the change as well.
  have finish {sampleNext : Books}
      (samplePerformed : sample.perform venue e.channel change =
        some sampleNext)
      (books : sampleNext.books = next.books)
      (updates : sampleNext.updates = next.updates)
      (routes : ∀ venue channel, sampleNext.route venue channel =
        (next.route venue channel).ofSymbol symbol) :
      ∃ sampleNext, sample.apply venue e = .ok sampleNext ∧
        Restricts symbol poolBytes next sampleNext := by
    have sampleApplied : sample.apply venue e = .ok sampleNext := by
      refine Fallible.toOption_eq_some.mp ?_
      rw [restricts.runningSample.sound.apply_eq, sampleChanged]
      exact samplePerformed
    exact ⟨sampleNext, sampleApplied, restricts.runningFull.apply applied,
      restricts.runningSample.apply sampleApplied, books, updates, routes⟩
  cases change with
  | nothing =>
      cases performed
      exact finish rfl restricts.books restricts.updates restricts.routes
  | clear =>
      cases performed
      refine finish rfl ?_ restricts.updates fun otherVenue otherChannel => ?_
      · simp [cleared, restricts.books]
      · rw [route_cleared, route_cleared, restricts.routes]
        split_ifs <;> rfl
  | order key made writes =>
      obtain ⟨_, _, paired⟩ :=
        Change.paired_ofEvent (fullSound.placed _ _) changed
      have keySymbol : key.symbol = symbol := by
        rcases relevant with passive | isClear | here
        · cases Change.passive_ofEvent passive changed
        · obtain ⟨_, changed⟩ := Option.ite_none_left_eq_some.mp changed
          rw [isClear] at changed
          cases changed
        · exact (Change.symbol_ofEvent (here ▸ named) changed).trans here
      have routes (otherVenue : Text) (otherChannel : Nat) :
          (sample.withRoutes venue e.channel writes).route otherVenue
              otherChannel =
            ((full.withRoutes venue e.channel writes).route otherVenue
              otherChannel).ofSymbol symbol := by
        rw [route_withRoutes, route_withRoutes, restricts.routes]
        split_ifs
        · refine (Lookup.ofSymbol_writeAll ?_).symm
          intro write member tracked isNew
          rw [paired.within write member tracked (Or.inr isNew), keySymbol]
        · rfl
      have fullChosen : full.selected key.symbol = true :=
        (restricts.runningFull.selected_iff _).mpr (Or.inr keySymbol.symm)
      have sampleChosen : sample.selected key.symbol = true :=
        (restricts.runningSample.selected_iff _).mpr (Or.inr keySymbol.symm)
      have sameCore : sample.core key = full.core key := by
        rw [core, core, restricts.books,
          restricts.runningSample.newBook_eq restricts.runningFull]
      unfold perform at performed
      dsimp only at performed
      rw [if_pos fullChosen] at performed
      obtain ⟨guard, same⟩ := Option.ite_none_right_eq_some.mp performed
      cases same
      have samplePerformed :
          sample.perform venue e.channel (.order key made writes) =
            some { (sample.withRoutes venue e.channel writes).withCore key
                    ((full.core key).call made).1 with
                  updates := sample.updates + 1 } := by
        unfold perform
        dsimp only
        rw [if_pos sampleChosen, sameCore, if_pos guard]
      refine finish samplePerformed ?_ ?_ routes
      · simp [withCore, withRoutes, restricts.books]
      · simp [restricts.updates]

end Books

end LimitOrderBook.Feed
