import LimitOrderBook.StepSystem

/-!
# Two runs side by side

Two fallible computations agree when both fault in the same way or both
succeed with related results.  The rules follow the structure of a program;
the last one compares the run of a system with the run of another that sees
only a part of the inputs.
-/

namespace TwoRuns

variable {α β γ δ ι ε : Type} {related : α → β → Prop}
  {relatedAfter : γ → δ → Prop}

/-- Both fault in the same way, or both succeed with related results. -/
inductive Both (related : α → β → Prop) :
    Except ε α → Except ε β → Prop where
  | ok {first : α} {second : β} :
      related first second → Both related (.ok first) (.ok second)
  | error {fault : ε} : Both related (.error fault) (.error fault)

namespace Both

theorem bind
    {first : Except ε α} {second : Except ε β} {f : α → Except ε γ}
    {g : β → Except ε δ} (before : Both related first second)
    (after : ∀ x y, related x y → Both relatedAfter (f x) (g y)) :
    Both relatedAfter (first >>= f) (second >>= g) := by
  cases before with
  | ok holds => exact after _ _ holds
  | error => exact .error

/-- A computation that both sides share. -/
theorem bindSame
    (shared : Except ε α) {f : α → Except ε γ} {g : α → Except ε δ}
    (after : ∀ x, Both relatedAfter (f x) (g x)) :
    Both relatedAfter (shared >>= f) (shared >>= g) := by
  cases shared with
  | ok x => exact after x
  | error fault => exact .error

theorem imp
    {weaker : α → β → Prop} {first : Except ε α} {second : Except ε β}
    (both : Both related first second)
    (implies : ∀ x y, related x y → weaker x y) :
    Both weaker first second := by
  cases both with
  | ok holds => exact .ok (implies _ _ holds)
  | error => exact .error

/-- Both sides take the same branch. -/
theorem ite
    {first other : Except ε α} {second otherSecond : Except ε β}
    {condition otherCondition : Prop} [Decidable condition]
    [Decidable otherCondition] (same : condition ↔ otherCondition)
    (taken : condition → Both related first second)
    (left : ¬ condition → Both related other otherSecond) :
    Both related (if condition then first else other)
      (if otherCondition then second else otherSecond) := by
  by_cases holds : condition
  · rw [if_pos holds, if_pos (same.mp holds)]
    exact taken holds
  · rw [if_neg holds, if_neg (same.not.mp holds)]
    exact left holds

theorem foldlM
    {f : α → ι → Except ε α} {g : β → ι → Except ε β}
    (step : ∀ x y input, related x y → Both related (f x input) (g y input))
    (inputs : List ι) {x : α} {y : β} (start : related x y) :
    Both related (inputs.foldlM f x) (inputs.foldlM g y) := by
  induction inputs generalizing x y with
  | nil => exact .ok start
  | cons input rest inductionHypothesis =>
      rw [List.foldlM_cons, List.foldlM_cons]
      exact (step x y input start).bind fun _ _ holds =>
        inductionHypothesis holds

/-- When one side succeeds, so does the other. -/
theorem of_ok
    {first : α} {second : Except ε β}
    (both : Both related (.ok first) second) :
    ∃ result, second = .ok result ∧ related first result := by
  cases both with
  | ok holds => exact ⟨_, rfl, holds⟩

end Both

variable {σ ρ τ υ : Type} {step : σ → ι → Except ε τ} {next : τ → σ}
  {otherStep : ρ → ι → Except ε υ} {otherNext : υ → ρ}

/--
Two systems that take related steps on the same inputs have related runs, with
related results one by one.
-/
theorem run_forall₂
    {states : σ → ρ → Prop} {results : τ → υ → Prop}
    (steps : ∀ state other input, states state other →
      Both (fun result otherResult => results result otherResult ∧
        states (next result) (otherNext otherResult))
        (step state input) (otherStep other input))
    {state : σ} {other : ρ} (start : states state other) {inputs : List ι}
    {outcomes : List τ}
    (ran : StepSystem.run step next state inputs = .ok outcomes) :
    ∃ others,
      StepSystem.run otherStep otherNext other inputs = .ok others ∧
        List.Forall₂ results outcomes others ∧
        states (StepSystem.last next state outcomes)
          (StepSystem.last otherNext other others) := by
  induction inputs generalizing state other outcomes with
  | nil =>
      cases ran
      exact ⟨[], rfl, .nil, start⟩
  | cons input rest inductionHypothesis =>
      obtain ⟨result, later, stepped, restRan, rfl⟩ :=
        StepSystem.run_cons_ok ran
      have both := steps state other input start
      rw [stepped] at both
      obtain ⟨otherResult, otherStepped, same, nextStates⟩ := both.of_ok
      obtain ⟨others, othersRan, allSame, final⟩ :=
        inductionHypothesis nextStates restRan
      exact ⟨otherResult :: others,
        StepSystem.run_cons_of_ok otherStepped othersRan, .cons same allSame,
        final⟩

/--
A system and another that sees only the inputs that pass a filter: inputs that
do not pass leave the relation as it is.
-/
theorem run_filter
    (states : σ → ρ → Prop) {passes : ι → Bool} {admitted : ι → Prop}
    (seen : ∀ state other input, states state other → passes input = true →
      Both (fun result otherResult =>
        states (next result) (otherNext otherResult))
        (step state input) (otherStep other input))
    (unseen : ∀ state other input result, states state other →
      admitted input → passes input = false → step state input = .ok result →
      states (next result) other)
    {state : σ} {other : ρ} (start : states state other) {inputs : List ι}
    (allAdmitted : ∀ input ∈ inputs, admitted input) {outcomes : List τ}
    (ran : StepSystem.run step next state inputs = .ok outcomes) :
    ∃ others,
      StepSystem.run otherStep otherNext other (inputs.filter passes) =
          .ok others ∧
        states (StepSystem.last next state outcomes)
          (StepSystem.last otherNext other others) := by
  induction inputs generalizing state other outcomes with
  | nil =>
      cases ran
      exact ⟨[], rfl, start⟩
  | cons input rest inductionHypothesis =>
      obtain ⟨result, later, stepped, restRan, rfl⟩ :=
        StepSystem.run_cons_ok ran
      have restAdmitted : ∀ input ∈ rest, admitted input :=
        fun input member => allAdmitted input (List.mem_cons_of_mem _ member)
      cases passing : passes input with
      | true =>
          have both := seen state other input start passing
          rw [stepped] at both
          obtain ⟨otherResult, otherStepped, nextStates⟩ := both.of_ok
          obtain ⟨others, othersRan, final⟩ :=
            inductionHypothesis nextStates restAdmitted restRan
          rw [List.filter_cons_of_pos passing]
          exact ⟨otherResult :: others,
            StepSystem.run_cons_of_ok otherStepped othersRan, final⟩
      | false =>
          have nextStates := unseen state other input result start
            (allAdmitted input List.mem_cons_self) passing stepped
          rw [List.filter_cons_of_neg (by simp [passing])]
          exact inductionHypothesis nextStates restAdmitted restRan

end TwoRuns
