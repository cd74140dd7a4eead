import Mathlib.Data.List.Basic

/-!
# Runs of fallible step functions

A step takes a state and an input and either faults or answers with a result;
`next` reads the following state off a result.  A run feeds a list of inputs
and stops at the first fault.  The rules here turn facts about one step into
facts about every run and every reachable state.
-/

namespace StepSystem

variable {σ ι τ ε : Type} {step : σ → ι → Except ε τ} {next : τ → σ}

/-- Feed a list of inputs, collecting the results. -/
def run (step : σ → ι → Except ε τ) (next : τ → σ) :
    σ → List ι → Except ε (List τ)
  | _, [] => .ok []
  | state, input :: rest =>
      match step state input with
      | .error fault => .error fault
      | .ok result =>
          match run step next (next result) rest with
          | .error fault => .error fault
          | .ok results => .ok (result :: results)

/-- The state after a list of results. -/
def last (next : τ → σ) : σ → List τ → σ
  | state, [] => state
  | _, result :: rest => last next (next result) rest

theorem last_mem (next : τ → σ) (state : σ) (results : List τ) :
    last next state results ∈ state :: results.map next := by
  induction results generalizing state with
  | nil => exact List.mem_singleton.mpr rfl
  | cons result rest inductionHypothesis =>
      exact List.mem_cons_of_mem _ (inductionHypothesis (next result))

theorem last_holds
    (holds : σ → Prop) {state : σ} {results : List τ} (start : holds state)
    (later : ∀ result ∈ results, holds (next result)) :
    holds (last next state results) := by
  rcases List.mem_cons.mp (last_mem next state results) with
    isStart | afterStart
  · rw [isStart]
    exact start
  · obtain ⟨result, member, isLast⟩ := List.mem_map.mp afterStart
    rw [← isLast]
    exact later result member

/-- States that successful steps lead to. -/
inductive Reachable (step : σ → ι → Except ε τ) (next : τ → σ)
    (initial : σ → Prop) : σ → Prop where
  | start {state : σ} : initial state → Reachable step next initial state
  | step {state : σ} {input : ι} {result : τ} :
      Reachable step next initial state →
      step state input = .ok result →
      Reachable step next initial (next result)

/-- What holds at the start and is kept by every step holds everywhere. -/
theorem Reachable.invariant
    {initial holds : σ → Prop} {state : σ}
    (reachable : Reachable step next initial state)
    (atStart : ∀ state, initial state → holds state)
    (kept : ∀ state input result, holds state →
      step state input = .ok result → holds (next result)) :
    holds state := by
  induction reachable with
  | start isInitial => exact atStart _ isInitial
  | step _ stepped inductionHypothesis =>
      exact kept _ _ _ inductionHypothesis stepped

theorem run_cons_ok
    {state : σ} {input : ι} {rest : List ι} {results : List τ}
    (ran : run step next state (input :: rest) = .ok results) :
    ∃ result others,
      step state input = .ok result ∧
        run step next (next result) rest = .ok others ∧
        results = result :: others := by
  cases stepped : step state input with
  | error fault =>
      simp [run, stepped] at ran
  | ok result =>
      cases restRan : run step next (next result) rest with
      | error fault =>
          simp [run, stepped, restRan] at ran
      | ok others =>
          simp only [run, stepped, restRan, Except.ok.injEq] at ran
          exact ⟨result, others, rfl, restRan, ran.symm⟩

theorem run_cons_of_ok
    {state : σ} {input : ι} {rest : List ι} {result : τ} {others : List τ}
    (stepped : step state input = .ok result)
    (ran : run step next (next result) rest = .ok others) :
    run step next state (input :: rest) = .ok (result :: others) := by
  simp [run, stepped, ran]

/-- Inputs that are rewritten before they are fed. -/
theorem run_map
    {κ : Type} (f : κ → ι) (state : σ) (inputs : List κ) :
    run step next state (inputs.map f) =
      run (fun state input => step state (f input)) next state inputs := by
  induction inputs generalizing state with
  | nil => rfl
  | cons input rest inductionHypothesis =>
      simp only [List.map_cons, run, inductionHypothesis]

theorem run_append
    {state : σ} {first second : List ι} {results others : List τ}
    (ran : run step next state first = .ok results)
    (ranOn : run step next (last next state results) second = .ok others) :
    run step next state (first ++ second) = .ok (results ++ others) ∧
      last next state (results ++ others) =
        last next (last next state results) others := by
  induction first generalizing state results with
  | nil =>
      cases ran
      exact ⟨ranOn, rfl⟩
  | cons input rest inductionHypothesis =>
      obtain ⟨result, later, stepped, restRan, rfl⟩ := run_cons_ok ran
      obtain ⟨both, final⟩ := inductionHypothesis restRan ranOn
      exact ⟨run_cons_of_ok stepped both, final⟩

/-- A run through reachable states stays reachable. -/
theorem Reachable.run
    {initial : σ → Prop} {state : σ}
    (reachable : Reachable step next initial state) {inputs : List ι}
    {results : List τ}
    (ran : StepSystem.run step next state inputs = .ok results) :
    Reachable step next initial (last next state results) := by
  induction inputs generalizing state results with
  | nil =>
      cases ran
      exact reachable
  | cons input rest inductionHypothesis =>
      obtain ⟨result, others, stepped, restRan, rfl⟩ := run_cons_ok ran
      exact inductionHypothesis (.step reachable stepped) restRan

/-- When no step faults on states that hold, no run does, and they all hold. -/
theorem run_ok
    {holds : σ → Prop}
    (total : ∀ state input, holds state →
      ∃ result, step state input = .ok result ∧ holds (next result))
    {state : σ} (start : holds state) (inputs : List ι) :
    ∃ results,
      StepSystem.run step next state inputs = .ok results ∧
        results.length = inputs.length ∧
        ∀ result ∈ results, holds (next result) := by
  induction inputs generalizing state with
  | nil => exact ⟨[], rfl, rfl, by simp⟩
  | cons input rest inductionHypothesis =>
      obtain ⟨result, stepped, resultHolds⟩ := total state input start
      obtain ⟨others, ran, sameLength, allHold⟩ :=
        inductionHypothesis resultHolds
      refine ⟨result :: others, run_cons_of_ok stepped ran,
        by simp [sameLength], ?_⟩
      intro other member
      rcases List.mem_cons.mp member with isFirst | later
      · exact isFirst ▸ resultHolds
      · exact allHold other later

end StepSystem
