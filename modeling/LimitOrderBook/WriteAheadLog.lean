import LimitOrderBook.StepSystem
import Mathlib.Data.List.Forall2

/-!
# Write-ahead logs

A service that appends every input to a log before it processes and answers it,
and that replays the log after a crash.  Recovery need not restore the very same
state: it is enough that steps respect a relation between states.  Then nothing
that was answered is ever lost, repeated or contradicted.
-/

namespace WriteAheadLog

open StepSystem

variable {σ ι τ β ε : Type}

/-- A service, its log and what it has answered. -/
structure Store (σ ι β : Type) where
  live : Option σ := none
  log : List ι := []
  answered : List (ι × β) := []

/-- How a service works and what does not matter about it. -/
structure Service (σ ι τ β ε : Type) where
  step : σ → ι → Except ε τ
  next : τ → σ
  reply : τ → β
  /-- The states that a replay may start from. -/
  initial : σ → Prop
  same : σ → σ → Prop
  alike : β → β → Prop

/-- Steps do not tell related states apart. -/
structure Service.Lawful (service : Service σ ι τ β ε) : Prop where
  step : ∀ {state other : σ} {input : ι} {result : τ},
    service.same state other → service.step state input = .ok result →
    ∃ otherResult, service.step other input = .ok otherResult ∧
      service.alike (service.reply result) (service.reply otherResult) ∧
      service.same (service.next result) (service.next otherResult)
  initial : ∀ {state other : σ}, service.initial state →
    service.initial other → service.same state other

inductive Step (service : Service σ ι τ β ε) (store : Store σ ι β) :
    Store σ ι β → Prop where
  /-- An input is logged, processed and answered. -/
  | answer {state : σ} {input : ι} {result : τ} :
      store.live = some state →
      service.step state input = .ok result →
      Step service store
        { live := some (service.next result)
          log := store.log ++ [input]
          answered := store.answered ++ [(input, service.reply result)] }
  /-- Something happens that does not matter. -/
  | drift {state other : σ} :
      store.live = some state →
      (∀ reference, service.same state reference →
        service.same other reference) →
      Step service store { store with live := some other }
  /-- A crash, perhaps after more was logged than was answered. -/
  | crash {state : σ} {pending : List ι} {results : List τ} :
      store.live = some state →
      run service.step service.next state pending = .ok results →
      Step service store
        { store with live := none, log := store.log ++ pending }
  /-- The log is replayed. -/
  | recover {state : σ} {results : List τ} :
      store.live = none →
      service.initial state →
      run service.step service.next state store.log = .ok results →
      Step service store
        { store with live := some (last service.next state results) }

/-- Some steps. -/
inductive Steps (service : Service σ ι τ β ε) (store : Store σ ι β) :
    Store σ ι β → Prop where
  | refl : Steps service store store
  | tail {middle final : Store σ ι β} :
      Steps service store middle →
      Step service middle final →
      Steps service store final

variable {service : Service σ ι τ β ε} {store final : Store σ ι β} {start : σ}

theorem Steps.one
    (step : Step service store final) : Steps service store final :=
  .tail .refl step

theorem Steps.trans
    {middle : Store σ ι β} (first : Steps service store middle)
    (second : Steps service middle final) : Steps service store final := by
  induction second with
  | refl => exact first
  | tail _ moved inductionHypothesis => exact .tail inductionHypothesis moved

/-- What was answered is part of the log's replay, in the order of the log. -/
def Answers (service : Service σ ι τ β ε) (answered : List (ι × β))
    (log : List ι) (results : List τ) : Prop :=
  ∃ kept, kept.Sublist (log.zip results) ∧
    List.Forall₂ (fun (answer : ι × β) (entry : ι × τ) =>
      answer.1 = entry.1 ∧ service.alike answer.2 (service.reply entry.2))
      answered kept

/-- A store agrees with the replay of its log. -/
structure Consistent (service : Service σ ι τ β ε) (start : σ)
    (store : Store σ ι β) (results : List τ) : Prop where
  replayed : run service.step service.next start store.log = .ok results
  live : ∀ state ∈ store.live,
    service.same state (last service.next start results)
  answers : Answers service store.answered store.log results

theorem run_same
    (lawful : service.Lawful) {state other : σ} {inputs : List ι}
    {results : List τ} (same : service.same state other)
    (ran : run service.step service.next state inputs = .ok results) :
    ∃ others, run service.step service.next other inputs = .ok others ∧
      service.same (last service.next state results)
        (last service.next other others) := by
  induction inputs generalizing state other results with
  | nil =>
      cases ran
      exact ⟨[], rfl, same⟩
  | cons input rest inductionHypothesis =>
      obtain ⟨result, later, stepped, restRan, rfl⟩ := run_cons_ok ran
      obtain ⟨otherResult, otherStepped, _, sameNext⟩ :=
        lawful.step same stepped
      obtain ⟨others, othersRan, sameLast⟩ :=
        inductionHypothesis sameNext restRan
      exact ⟨otherResult :: others, run_cons_of_ok otherStepped othersRan,
        sameLast⟩

theorem length_run
    {state : σ} {inputs : List ι} {results : List τ}
    (ran : run service.step service.next state inputs = .ok results) :
    inputs.length = results.length := by
  induction inputs generalizing state results with
  | nil =>
      cases ran
      rfl
  | cons input rest inductionHypothesis =>
      obtain ⟨result, later, _, restRan, rfl⟩ := run_cons_ok ran
      exact congrArg (· + 1) (inductionHypothesis restRan)

/-- More in the log contradicts nothing. -/
theorem Answers.more
    {answered : List (ι × β)} {log : List ι} {results : List τ}
    (answers : Answers service answered log results)
    (sameLength : log.length = results.length) (inputs : List ι)
    (later : List τ) :
    Answers service answered (log ++ inputs) (results ++ later) := by
  obtain ⟨kept, sublist, related⟩ := answers
  rw [Answers, List.zip_append sameLength]
  exact ⟨kept, sublist.trans (List.sublist_append_left _ _), related⟩

theorem Answers.answer
    {answered : List (ι × β)} {log : List ι} {results : List τ} {input : ι}
    {reply : β} {result : τ} (answers : Answers service answered log results)
    (sameLength : log.length = results.length)
    (alike : service.alike reply (service.reply result)) :
    Answers service (answered ++ [(input, reply)]) (log ++ [input])
      (results ++ [result]) := by
  obtain ⟨kept, sublist, related⟩ := answers
  rw [Answers, List.zip_append sameLength]
  refine ⟨kept ++ [(input, result)], sublist.append (List.Sublist.refl _), ?_⟩
  exact List.rel_append related (.cons ⟨rfl, alike⟩ .nil)

/-- What the replay answers is what was answered. -/
theorem Consistent.answer
    {results : List τ} {input : ι} {result other : τ}
    (consistent : Consistent service start store results)
    (stepped : service.step (last service.next start results) input = .ok other)
    (alike : service.alike (service.reply result) (service.reply other))
    (same : service.same (service.next result) (service.next other)) :
    Consistent service start
      { live := some (service.next result)
        log := store.log ++ [input]
        answered := store.answered ++ [(input, service.reply result)] }
      (results ++ [other]) := by
  have one : run service.step service.next
      (last service.next start results) [input] = .ok [other] :=
    run_cons_of_ok stepped rfl
  obtain ⟨both, final⟩ := run_append consistent.replayed one
  refine ⟨both, ?_,
    consistent.answers.answer (length_run consistent.replayed) alike⟩
  rintro _ ⟨⟩
  rw [final]
  exact same

theorem Consistent.step
    {results : List τ} (lawful : service.Lawful)
    (isInitial : service.initial start)
    (consistent : Consistent service start store results)
    (moved : Step service store final) :
    ∃ later, Consistent service start final (results ++ later) := by
  obtain ⟨replayed, live, answers⟩ := consistent
  have sameLength := length_run replayed
  cases moved with
  | @answer state input result isLive stepped =>
      obtain ⟨other, otherStepped, alike, sameNext⟩ :=
        lawful.step (live state isLive) stepped
      exact ⟨[other], Consistent.answer ⟨replayed, live, answers⟩ otherStepped
        alike sameNext⟩
  | @drift state other isLive drifts =>
      refine ⟨[], ?_⟩
      rw [List.append_nil]
      refine ⟨replayed, ?_, answers⟩
      rintro _ ⟨⟩
      exact drifts _ (live state isLive)
  | @crash state pending more isLive ran =>
      obtain ⟨others, othersRan, _⟩ :=
        run_same lawful (live state isLive) ran
      exact ⟨others, (run_append replayed othersRan).1, by simp,
        answers.more sameLength _ _⟩
  | @recover state others _ startsToo ran =>
      refine ⟨[], ?_⟩
      rw [List.append_nil]
      refine ⟨replayed, ?_, answers⟩
      rintro _ ⟨⟩
      obtain ⟨again, ranAgain, same⟩ :=
        run_same lawful (lawful.initial startsToo isInitial) ran
      rw [replayed] at ranAgain
      cases ranAgain
      exact same

/-- Every run of the service is explained by the replay of its log. -/
theorem Steps.consistent
    {results : List τ} (lawful : service.Lawful)
    (isInitial : service.initial start)
    (consistent : Consistent service start store results)
    (steps : Steps service store final) :
    ∃ later, Consistent service start final (results ++ later) := by
  induction steps with
  | refl => exact ⟨[], by rw [List.append_nil]; exact consistent⟩
  | tail _ moved inductionHypothesis =>
      obtain ⟨earlier, middle⟩ := inductionHypothesis
      obtain ⟨later, final⟩ := middle.step lawful isInitial moved
      exact ⟨earlier ++ later, by rw [← List.append_assoc]; exact final⟩

/-- The log only grows. -/
theorem Steps.log
    (steps : Steps service store final) :
    ∃ later, final.log = store.log ++ later := by
  induction steps with
  | refl => exact ⟨[], (List.append_nil _).symm⟩
  | tail _ moved inductionHypothesis =>
      obtain ⟨earlier, log⟩ := inductionHypothesis
      cases moved with
      | answer _ _ =>
          exact ⟨_, (congrArg (· ++ _) log).trans (List.append_assoc _ _ _)⟩
      | drift _ _ => exact ⟨earlier, log⟩
      | crash _ _ =>
          exact ⟨_, (congrArg (· ++ _) log).trans (List.append_assoc _ _ _)⟩
      | recover _ _ _ => exact ⟨earlier, log⟩

theorem last_append
    (next : τ → σ) (state : σ) (first second : List τ) :
    last next state (first ++ second) =
      last next (last next state first) second := by
  induction first generalizing state with
  | nil => rfl
  | cons result rest inductionHypothesis => exact inductionHypothesis _

/-- A run in two parts. -/
theorem run_append_ok
    {state : σ} {first second : List ι} {results : List τ}
    (ran : run service.step service.next state (first ++ second) =
      .ok results) :
    ∃ earlier later, results = earlier ++ later ∧
      run service.step service.next state first = .ok earlier ∧
      run service.step service.next (last service.next state earlier) second =
        .ok later := by
  induction first generalizing state results with
  | nil => exact ⟨[], results, rfl, rfl, ran⟩
  | cons input rest inductionHypothesis =>
      obtain ⟨result, others, stepped, restRan, rfl⟩ := run_cons_ok ran
      obtain ⟨earlier, later, rfl, earlierRan, laterRan⟩ :=
        inductionHypothesis restRan
      exact ⟨result :: earlier, later, rfl,
        run_cons_of_ok stepped earlierRan, laterRan⟩

/-- Later on, the replay goes on from where it was. -/
theorem Consistent.extend
    {results : List τ} (lawful : service.Lawful)
    (isInitial : service.initial start)
    (consistent : Consistent service start store results)
    (steps : Steps service store final) :
    ∃ inputs later, final.log = store.log ++ inputs ∧
      run service.step service.next (last service.next start results) inputs =
        .ok later ∧
      Consistent service start final (results ++ later) := by
  obtain ⟨later, atEnd⟩ := steps.consistent lawful isInitial consistent
  obtain ⟨inputs, log⟩ := steps.log
  have ran := atEnd.replayed
  rw [log] at ran
  obtain ⟨first, second, parts, firstRan, secondRan⟩ := run_append_ok ran
  have sameFirst : results = first :=
    Except.ok.inj (consistent.replayed.symm.trans firstRan)
  subst sameFirst
  have sameSecond := List.append_cancel_left parts
  subst sameSecond
  exact ⟨inputs, later, log, secondRan, atEnd⟩

end WriteAheadLog
