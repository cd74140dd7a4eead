import Mathlib.Algebra.Order.BigOperators.Group.List
import Mathlib.Algebra.Ring.Nat

/-!
# Fallible computations

Inversion rules for computations that answer or fault: what is known about the
parts once the whole is known to have answered, and the passage to optional
results when the fault itself does not matter.
-/

namespace Fallible

variable {α β σ ε : Type}

theorem bind_ok
    {first : Except ε α} {next : α → Except ε β} {result : β}
    (answered : (first >>= next) = .ok result) :
    ∃ value, first = .ok value ∧ next value = .ok result := by
  cases first with
  | error fault => cases answered
  | ok value => exact ⟨value, rfl, answered⟩

/-- Every element of a list went through a fold that answered. -/
theorem foldlM_ok
    {step : σ → α → Except ε σ} {items : List α} {state last : σ}
    (folded : items.foldlM step state = .ok last) :
    ∀ item ∈ items, ∃ before after, step before item = .ok after := by
  induction items generalizing state with
  | nil => exact fun item member => absurd member List.not_mem_nil
  | cons item rest inductionHypothesis =>
      rw [List.foldlM_cons] at folded
      obtain ⟨next, stepped, restFolded⟩ := bind_ok folded
      intro other member
      rcases List.mem_cons.mp member with rfl | later
      · exact ⟨state, next, stepped⟩
      · exact inductionHypothesis restFolded other later

theorem forM_ok
    {check : α → Except ε Unit} {items : List α}
    (each : ∀ item ∈ items, check item = .ok ()) :
    items.forM check = .ok () := by
  induction items with
  | nil => rfl
  | cons item rest inductionHypothesis =>
      have first := each item (by simp)
      have others := inductionHypothesis
        fun other member => each other (by simp [member])
      simp only [List.forM, first, Bind.bind, Except.bind]
      exact others

/-- A fold of checks that count ends in the sum of the counts. -/
theorem foldlM_count
    (check : Nat → α → Except ε Nat) (size : α → Nat)
    {items : List α}
    (each : ∀ item ∈ items, ∀ count,
      check count item = .ok (count + size item)) (start : Nat) :
    items.foldlM check start = .ok (start + (items.map size).sum) := by
  induction items generalizing start with
  | nil => rfl
  | cons item rest inductionHypothesis =>
      rw [List.foldlM_cons, each item (by simp)]
      refine (inductionHypothesis
        (fun other member => each other (by simp [member])) _).trans ?_
      rw [List.map_cons, List.sum_cons, Nat.add_assoc]

theorem toOption_bind
    (first : Except ε α) (next : α → Except ε β) :
    (first >>= next).toOption =
      first.toOption.bind fun value => (next value).toOption := by
  cases first with
  | error fault => rfl
  | ok value => rfl

theorem toOption_eq_some
    {first : Except ε α} {value : α} :
    first.toOption = some value ↔ first = .ok value := by
  cases first with
  | error fault => simp [Except.toOption]
  | ok result => simp [Except.toOption]

/-! ## Pre- and postconditions -/

/-- How a computation may end: with such a fault or with such a result. -/
def Ends (faulted : ε → Prop) (answered : α → Prop) : Except ε α → Prop
  | .error fault => faulted fault
  | .ok value => answered value

namespace Ends

variable {faulted : ε → Prop} {answered : α → Prop} {then_ : β → Prop}

/-- Nothing is asked of a computation. -/
theorem anyhow (first : Except ε α) :
    Ends (fun _ => True) (fun _ => True) first := by
  cases first with
  | error fault => trivial
  | ok value => trivial

theorem mono
    {weaker : α → Prop} {first : Except ε α}
    (ends : Ends faulted answered first)
    (weaken : ∀ value, answered value → weaker value) :
    Ends faulted weaker first := by
  cases first with
  | error fault => exact ends
  | ok value => exact weaken value ends

theorem bind
    {first : Except ε α} {next : α → Except ε β}
    (ends : Ends faulted answered first)
    (after : ∀ value, answered value → Ends faulted then_ (next value)) :
    Ends faulted then_ (first >>= next) := by
  cases first with
  | error fault => exact ends
  | ok value => exact after value ends

theorem ite
    {condition : Prop} [Decidable condition] {first second : Except ε α}
    (whenTrue : condition → Ends faulted answered first)
    (whenFalse : ¬ condition → Ends faulted answered second) :
    Ends faulted answered (if condition then first else second) := by
  by_cases holds : condition
  · rw [if_pos holds]
    exact whenTrue holds
  · rw [if_neg holds]
    exact whenFalse holds

/-- A fold whose invariant speaks of the items already passed. -/
theorem foldlM
    {step : σ → α → Except ε σ} (invariant : List α → σ → Prop)
    {items : List α} {state : σ} (start : invariant [] state)
    (each : ∀ passed item state, passed ++ [item] <+: items →
      invariant passed state →
      Ends faulted (invariant (passed ++ [item])) (step state item)) :
    Ends faulted (invariant items) (items.foldlM step state) := by
  have walk :
      ∀ (rest passed : List α) (state : σ), passed ++ rest = items →
        invariant passed state →
        Ends faulted (invariant items) (rest.foldlM step state) := by
    intro rest
    induction rest with
    | nil =>
        intro passed state shape holds
        rw [List.append_nil] at shape
        exact shape ▸ holds
    | cons item rest inductionHypothesis =>
        intro passed state shape holds
        rw [List.foldlM_cons]
        have split : passed ++ [item] ++ rest = items := by
          simpa using shape
        refine (each passed item state ⟨rest, split⟩ holds).bind ?_
        exact fun next nextHolds =>
          inductionHypothesis _ next split nextHolds
  exact walk items [] state rfl start

/-- What is known of the result once the computation is known to answer. -/
theorem of_answers
    {first : Except ε α} (ends : Ends faulted (fun _ => True) first)
    (each : ∀ value, first = .ok value → answered value) :
    Ends faulted answered first := by
  cases first with
  | error fault => exact ends
  | ok value => exact each value rfl

theorem of_ok
    {first : Except ε α} {value : α} (ends : Ends faulted answered first)
    (isOk : first = .ok value) : answered value := by
  rw [isOk] at ends
  exact ends

end Ends

end Fallible
