import LimitOrderBook.OrderedMap
import Mathlib.Data.Option.Defs
import Mathlib.Logic.Function.Basic

/-!
# Maps under renaming

Two maps are alike under an injective renaming of their keys when every lookup
in one has a related lookup in the other.  The iteration orders of such maps
need not be related, but every operation by key keeps them alike.

A map whose values are rewritten keeps its keys, so there every operation
commutes with the rewriting.
-/

namespace OrderedMap

variable {κ ν μ : Type} {lt : κ → κ → Prop} [DecidableEq κ]

/-- Lookups under renamed keys give related values. -/
def Rekeyed (rename : κ → κ) (related : ν → ν → Prop)
    (first second : OrderedMap κ ν lt) : Prop :=
  ∀ key, Option.Rel related (first.find? key) (second.find? (rename key))

namespace Rekeyed

variable {rename : κ → κ} {related : ν → ν → Prop}
  {first second : OrderedMap κ ν lt}

theorem getD
    (rekeyed : Rekeyed rename related first second) (key : κ)
    {value other : ν} (default : related value other) :
    related ((first.find? key).getD value)
      ((second.find? (rename key)).getD other) := by
  have found := rekeyed key
  generalize first.find? key = stored at found ⊢
  generalize second.find? (rename key) = otherStored at found ⊢
  cases found with
  | some holds => exact holds
  | none => exact default

/-- Lookups of related values that are equal. -/
theorem find?_eq
    (rekeyed : Rekeyed rename Eq first second) (key : κ) :
    second.find? (rename key) = first.find? key := by
  have found := rekeyed key
  generalize first.find? key = stored at found ⊢
  generalize second.find? (rename key) = otherStored at found ⊢
  cases found with
  | some holds => rw [holds]
  | none => rfl

theorem erase
    (rekeyed : Rekeyed rename related first second)
    (injective : Function.Injective rename) (key : κ) :
    Rekeyed rename related (first.erase key) (second.erase (rename key)) := by
  intro other
  simp only [find?_erase, injective.eq_iff]
  split_ifs
  · exact .none
  · exact rekeyed other

variable [DecidableRel lt] [IsStrictTotalOrder κ lt]

theorem insert
    (rekeyed : Rekeyed rename related first second)
    (injective : Function.Injective rename) (key : κ) {value other : ν}
    (values : related value other) :
    Rekeyed rename related (first.insert key value)
      (second.insert (rename key) other) := by
  intro asked
  simp only [find?_insert, injective.eq_iff]
  split_ifs
  · exact .some values
  · exact rekeyed asked

theorem emplace
    (rekeyed : Rekeyed rename related first second)
    (injective : Function.Injective rename) (key : κ) {value other : ν}
    (values : related value other) :
    Rekeyed rename related (first.emplace key value)
      (second.emplace (rename key) other) := by
  intro asked
  simp only [find?_emplace, injective.eq_iff]
  split_ifs
  · exact .some (rekeyed.getD key values)
  · exact rekeyed asked

theorem modify
    (rekeyed : Rekeyed rename related first second)
    (injective : Function.Injective rename) (key : κ) {f g : ν → ν}
    (keeps : ∀ value other, related value other →
      related (f value) (g other)) :
    Rekeyed rename related (first.modify key f)
      (second.modify (rename key) g) := by
  intro asked
  simp only [find?_modify, injective.eq_iff]
  split_ifs
  · have found := rekeyed key
    generalize first.find? key = stored at found ⊢
    generalize second.find? (rename key) = otherStored at found ⊢
    cases found with
    | some holds => exact .some (keeps _ _ holds)
    | none => exact .none
  · exact rekeyed asked

end Rekeyed

/-! ## Rewritten values -/

variable [IsStrictTotalOrder κ lt]

theorem mapValues_erase (f : ν → μ) (map : OrderedMap κ ν lt) (key : κ) :
    (map.erase key).mapValues f = (map.mapValues f).erase key := by
  refine ext_find? fun other => ?_
  simp only [find?_mapValues, find?_erase]
  split_ifs <;> rfl

theorem mapValues_congr
    {f g : ν → μ} {map : OrderedMap κ ν lt}
    (same : ∀ key value, map.find? key = some value → f value = g value) :
    map.mapValues f = map.mapValues g := by
  refine ext_find? fun key => ?_
  simp only [find?_mapValues]
  cases found : map.find? key with
  | none => rfl
  | some value => exact congrArg some (same key value found)

variable [DecidableRel lt]

theorem mapValues_insert
    (f : ν → μ) (map : OrderedMap κ ν lt) (key : κ) (value : ν) :
    (map.insert key value).mapValues f =
      (map.mapValues f).insert key (f value) := by
  refine ext_find? fun other => ?_
  simp only [find?_mapValues, find?_insert]
  split_ifs <;> rfl

theorem mapValues_emplace
    (f : ν → μ) (map : OrderedMap κ ν lt) (key : κ) (value : ν) :
    (map.emplace key value).mapValues f =
      (map.mapValues f).emplace key (f value) := by
  refine ext_find? fun other => ?_
  simp only [find?_mapValues, find?_emplace]
  split_ifs
  · cases map.find? key <;> rfl
  · rfl

end OrderedMap
