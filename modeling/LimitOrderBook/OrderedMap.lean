import Mathlib.Order.RelClasses
import Mathlib.Data.List.Basic
import Mathlib.Algebra.BigOperators.Group.List.Basic
import Mathlib.Algebra.Group.Basic
import Mathlib.Tactic.Abel

/-!
# Finite maps that iterate in key order

An ordered associative container: a finite map whose iteration order is the
order of its keys.  The comparator is a parameter of the type, so that one
development serves ascending and descending maps.

The representation is the strictly sorted list of entries.  The map laws
(`find?_insert`, `find?_erase`) hold key by key.  The splitting lemmas
`split_of_find?_some` and `split_of_find?_none` say where in the iteration
order an update takes place, and every fact about a traversal of a whole map
is derived from them.
-/

/-- A finite map given by its entries in strictly increasing key order. -/
structure OrderedMap (κ ν : Type) (lt : κ → κ → Prop) where
  entries : List (κ × ν)
  sorted : entries.Pairwise fun first second => lt first.1 second.1

namespace OrderedMap

variable {κ ν μ : Type} {lt : κ → κ → Prop}

/-- Maps with the same entries are equal. -/
@[ext] theorem ext_entries
    {first second : OrderedMap κ ν lt}
    (sameEntries : first.entries = second.entries) :
    first = second := by
  cases first
  cases second
  cases sameEntries
  rfl

instance [DecidableEq κ] [DecidableEq ν] : DecidableEq (OrderedMap κ ν lt) :=
  fun first second =>
    decidable_of_iff (first.entries = second.entries)
      ⟨ext_entries, congrArg entries⟩

/-- The map without entries. -/
def empty : OrderedMap κ ν lt where
  entries := []
  sorted := .nil

instance : Inhabited (OrderedMap κ ν lt) := ⟨empty⟩

/-- The number of entries. -/
def size (map : OrderedMap κ ν lt) : Nat :=
  map.entries.length

/-- The keys in iteration order. -/
def keys (map : OrderedMap κ ν lt) : List κ :=
  map.entries.map Prod.fst

/-- Insert one entry in key order, overwriting an entry under the same key. -/
def insertEntry
    (lt : κ → κ → Prop) [DecidableRel lt] [DecidableEq κ]
    (key : κ) (value : ν) : List (κ × ν) → List (κ × ν)
  | [] => [(key, value)]
  | head :: rest =>
      if head.1 = key then
        (key, value) :: rest
      else if lt key head.1 then
        (key, value) :: head :: rest
      else
        head :: insertEntry lt key value rest

/-- The value stored under a key. -/
def find? [DecidableEq κ] (map : OrderedMap κ ν lt) (key : κ) : Option ν :=
  (map.entries.find? fun entry => decide (entry.1 = key)).map Prod.snd

/-- Whether a key is present. -/
def contains [DecidableEq κ] (map : OrderedMap κ ν lt) (key : κ) : Bool :=
  (map.find? key).isSome

theorem mem_insertEntry
    [DecidableRel lt] [DecidableEq κ]
    {key : κ} {value : ν} {entry : κ × ν} {entries : List (κ × ν)}
    (member : entry ∈ insertEntry lt key value entries) :
    entry = (key, value) ∨ entry ∈ entries := by
  induction entries with
  | nil =>
      simpa [insertEntry] using member
  | cons head rest inductionHypothesis =>
      simp only [insertEntry] at member
      split_ifs at member
      · grind
      · grind
      · grind

theorem insertEntry_sorted
    [DecidableRel lt] [DecidableEq κ] [IsStrictTotalOrder κ lt]
    (key : κ) (value : ν) {entries : List (κ × ν)}
    (sorted : entries.Pairwise fun first second => lt first.1 second.1) :
    (insertEntry lt key value entries).Pairwise
      fun first second => lt first.1 second.1 := by
  induction entries with
  | nil =>
      simp [insertEntry]
  | cons head rest inductionHypothesis =>
      obtain ⟨headFirst, restSorted⟩ := List.pairwise_cons.mp sorted
      simp only [insertEntry]
      split_ifs with sameKey keyFirst
      · subst sameKey
        exact List.pairwise_cons.mpr ⟨headFirst, restSorted⟩
      · refine List.pairwise_cons.mpr ⟨?_, sorted⟩
        intro entry member
        rcases List.mem_cons.mp member with isHead | inRest
        · exact isHead ▸ keyFirst
        · exact trans_of lt keyFirst (headFirst entry inRest)
      · refine List.pairwise_cons.mpr ⟨?_, inductionHypothesis restSorted⟩
        intro entry member
        rcases mem_insertEntry member with isNew | inRest
        · rcases trichotomous_of lt head.1 key with before | same | after
          · exact isNew ▸ before
          · exact absurd same sameKey
          · exact absurd after keyFirst
        · exact headFirst entry inRest

/-- Store a value under a key, overwriting the previous one. -/
def insert
    [DecidableRel lt] [DecidableEq κ] [IsStrictTotalOrder κ lt]
    (map : OrderedMap κ ν lt) (key : κ) (value : ν) : OrderedMap κ ν lt where
  entries := insertEntry lt key value map.entries
  sorted := insertEntry_sorted key value map.sorted

/-- Store a value under a key unless the key is already present. -/
def emplace
    [DecidableRel lt] [DecidableEq κ] [IsStrictTotalOrder κ lt]
    (map : OrderedMap κ ν lt) (key : κ) (value : ν) : OrderedMap κ ν lt :=
  match map.find? key with
  | some _ => map
  | none => map.insert key value

/-- Rewrite the value under a key in place. -/
def modify
    [DecidableRel lt] [DecidableEq κ] [IsStrictTotalOrder κ lt]
    (map : OrderedMap κ ν lt) (key : κ) (f : ν → ν) : OrderedMap κ ν lt :=
  match map.find? key with
  | some value => map.insert key (f value)
  | none => map

/-- Remove the entry under a key, if there is one. -/
def erase [DecidableEq κ] (map : OrderedMap κ ν lt) (key : κ) :
    OrderedMap κ ν lt where
  entries := map.entries.filter fun entry => decide (entry.1 ≠ key)
  sorted := map.sorted.filter _

/-- Drop the entries whose key satisfies a predicate. -/
def eraseIf (map : OrderedMap κ ν lt) (dropped : κ → Bool) :
    OrderedMap κ ν lt where
  entries := map.entries.filter fun entry => !dropped entry.1
  sorted := map.sorted.filter _

/-- Apply a function to every value, keeping the keys. -/
def mapValues (f : ν → μ) (map : OrderedMap κ ν lt) : OrderedMap κ μ lt where
  entries := map.entries.map fun entry => (entry.1, f entry.2)
  sorted := List.pairwise_map.mpr map.sorted

/-- Sum a quantity over all entries. -/
def total [AddMonoid μ] (map : OrderedMap κ ν lt) (f : κ → ν → μ) : μ :=
  (map.entries.map fun entry => f entry.1 entry.2).sum

/-! ## Membership -/

section Membership

variable [IsStrictTotalOrder κ lt]

/-- Sorted entries under one key are the same entry. -/
theorem eq_of_mem_entries
    {entries : List (κ × ν)}
    (sorted : entries.Pairwise fun first second => lt first.1 second.1)
    {first second : κ × ν}
    (firstMember : first ∈ entries)
    (secondMember : second ∈ entries)
    (sameKey : first.1 = second.1) :
    first = second := by
  induction entries with
  | nil =>
      simp at firstMember
  | cons head rest inductionHypothesis =>
      obtain ⟨headFirst, restSorted⟩ := List.pairwise_cons.mp sorted
      rcases List.mem_cons.mp firstMember with firstHead | firstRest
      · rcases List.mem_cons.mp secondMember with secondHead | secondRest
        · rw [firstHead, secondHead]
        · subst firstHead
          exact absurd (sameKey ▸ headFirst second secondRest)
            (irrefl_of lt second.1)
      · rcases List.mem_cons.mp secondMember with secondHead | secondRest
        · subst secondHead
          exact absurd (sameKey ▸ headFirst first firstRest)
            (irrefl_of lt first.1)
        · exact inductionHypothesis restSorted firstRest secondRest

theorem keys_nodup (map : OrderedMap κ ν lt) : map.keys.Nodup := by
  refine List.pairwise_map.mpr (map.sorted.imp ?_)
  intro first second before same
  exact irrefl_of lt second.1 (same ▸ before)

variable [DecidableEq κ]

/-- An entry of the map is exactly a successful lookup. -/
theorem mem_entries
    {map : OrderedMap κ ν lt} {key : κ} {value : ν} :
    (key, value) ∈ map.entries ↔ map.find? key = some value := by
  unfold find?
  constructor
  · intro member
    cases found : map.entries.find? (fun entry => decide (entry.1 = key)) with
    | none =>
        have missing := List.find?_eq_none.mp found (key, value) member
        simp at missing
    | some entry =>
        have entryKey : entry.1 = key := by
          simpa using List.find?_some found
        have entrySame : entry = (key, value) :=
          eq_of_mem_entries map.sorted (List.mem_of_find?_eq_some found)
            member entryKey
        simp [entrySame]
  · intro lookup
    cases found : map.entries.find? (fun entry => decide (entry.1 = key)) with
    | none =>
        simp [found] at lookup
    | some entry =>
        have entryKey : entry.1 = key := by
          simpa using List.find?_some found
        have entryValue : entry.2 = value := by
          simpa [found] using lookup
        rw [← entryKey, ← entryValue]
        exact List.mem_of_find?_eq_some found

theorem mem_keys
    {map : OrderedMap κ ν lt} {key : κ} :
    key ∈ map.keys ↔ (map.find? key).isSome := by
  simp only [keys, List.mem_map, Option.isSome_iff_exists]
  constructor
  · rintro ⟨entry, member, rfl⟩
    exact ⟨entry.2, mem_entries.mp member⟩
  · rintro ⟨value, lookup⟩
    exact ⟨(key, value), mem_entries.mpr lookup, rfl⟩

/-- Two maps with the same lookups have the same entries in the same order. -/
theorem ext_find?
    {first second : OrderedMap κ ν lt}
    (sameLookups : ∀ key, first.find? key = second.find? key) :
    first = second := by
  apply ext_entries
  have sameMembers : ∀ entry, entry ∈ first.entries ↔ entry ∈ second.entries := by
    rintro ⟨key, value⟩
    rw [mem_entries, mem_entries, sameLookups]
  have nodupEntries (map : OrderedMap κ ν lt) : map.entries.Nodup := by
    refine map.sorted.imp ?_
    intro left right before same
    exact irrefl_of lt right.1 (same ▸ before)
  refine List.Perm.eq_of_pairwise ?_ first.sorted second.sorted
    ((List.perm_ext_iff_of_nodup (nodupEntries first) (nodupEntries second)).mpr
      sameMembers)
  intro left right _ _ before after
  exact absurd after (asymm_of lt before)

end Membership

/-! ## Map laws -/

section Laws

variable [DecidableEq κ]

@[simp] theorem find?_empty (key : κ) :
    (empty : OrderedMap κ ν lt).find? key = none := rfl

@[simp] theorem find?_erase
    (map : OrderedMap κ ν lt) (key other : κ) :
    (map.erase key).find? other =
      if other = key then none else map.find? other := by
  simp only [find?, erase]
  induction map.entries with
  | nil =>
      simp
  | cons head rest inductionHypothesis =>
      by_cases headKey : head.1 = key <;>
        by_cases headOther : head.1 = other <;>
        by_cases same : other = key <;>
        simp_all

@[simp] theorem find?_eraseIf
    (map : OrderedMap κ ν lt) (dropped : κ → Bool) (key : κ) :
    (map.eraseIf dropped).find? key =
      if dropped key then none else map.find? key := by
  simp only [find?, eraseIf]
  induction map.entries with
  | nil =>
      simp
  | cons head rest inductionHypothesis =>
      by_cases same : head.1 = key
      · by_cases gone : dropped key = true
        · simpa [same, gone] using inductionHypothesis
        · simp [same, gone]
      · by_cases gone : dropped head.1 = true
        · simpa [gone, same] using inductionHypothesis
        · simpa [gone, same] using inductionHypothesis

@[simp] theorem find?_mapValues
    (f : ν → μ) (map : OrderedMap κ ν lt) (key : κ) :
    (map.mapValues f).find? key = (map.find? key).map f := by
  simp only [find?, mapValues]
  induction map.entries with
  | nil =>
      rfl
  | cons head rest inductionHypothesis =>
      by_cases headKey : head.1 = key <;>
        simp_all

variable [DecidableRel lt] [IsStrictTotalOrder κ lt]

@[simp] theorem find?_insert
    (map : OrderedMap κ ν lt) (key other : κ) (value : ν) :
    (map.insert key value).find? other =
      if other = key then some value else map.find? other := by
  simp only [find?, insert]
  induction map.entries with
  | nil =>
      by_cases same : other = key
      · simp [insertEntry, same]
      · simp [insertEntry, same, Ne.symm same]
  | cons head rest inductionHypothesis =>
      simp only [insertEntry]
      split_ifs with headKey keyFirst <;> grind

@[simp] theorem find?_emplace
    (map : OrderedMap κ ν lt) (key other : κ) (value : ν) :
    (map.emplace key value).find? other =
      if other = key then some ((map.find? key).getD value)
      else map.find? other := by
  unfold emplace
  cases found : map.find? key with
  | none =>
      simp
  | some stored =>
      by_cases same : other = key <;> simp [same, found]

@[simp] theorem find?_modify
    (map : OrderedMap κ ν lt) (key other : κ) (f : ν → ν) :
    (map.modify key f).find? other =
      if other = key then (map.find? key).map f else map.find? other := by
  unfold modify
  cases found : map.find? key with
  | none =>
      by_cases same : other = key <;> simp [same, found]
  | some stored =>
      by_cases same : other = key <;> simp [same]

end Laws

/-! ## Where an update takes place -/

section Splitting

variable [DecidableEq κ] [DecidableRel lt] [IsStrictTotalOrder κ lt]

/-- Inserting after entries with smaller keys leaves those entries in front. -/
theorem insertEntry_append
    {key : κ} {value : ν} {before after : List (κ × ν)}
    (smaller : ∀ entry ∈ before, lt entry.1 key) :
    insertEntry lt key value (before ++ after) =
      before ++ insertEntry lt key value after := by
  induction before with
  | nil =>
      rfl
  | cons head rest inductionHypothesis =>
      have headSmaller : lt head.1 key := smaller head (by simp)
      have headNe : head.1 ≠ key := fun same =>
        irrefl_of lt key (same ▸ headSmaller)
      have restSmaller : ∀ entry ∈ rest, lt entry.1 key :=
        fun entry member => smaller entry (by simp [member])
      simp [insertEntry, headNe, asymm_of lt headSmaller,
        inductionHypothesis restSmaller]

/-- A present key splits the entries; overwriting and erasing act there. -/
theorem split_of_find?_some
    {map : OrderedMap κ ν lt} {key : κ} {value : ν}
    (found : map.find? key = some value) :
    ∃ before after,
      map.entries = before ++ (key, value) :: after ∧
        (∀ entry ∈ before, lt entry.1 key) ∧
        (∀ entry ∈ after, lt key entry.1) ∧
        (∀ fresh, (map.insert key fresh).entries =
          before ++ (key, fresh) :: after) ∧
        (map.erase key).entries = before ++ after := by
  obtain ⟨before, after, shape⟩ :=
    List.append_of_mem (mem_entries.mpr found)
  have sorted := map.sorted
  rw [shape, List.pairwise_append, List.pairwise_cons] at sorted
  obtain ⟨_, ⟨largerAfter, _⟩, across⟩ := sorted
  have smallerBefore : ∀ entry ∈ before, lt entry.1 key :=
    fun entry member => across entry member (key, value) (by simp)
  refine ⟨before, after, shape, smallerBefore, largerAfter, ?_, ?_⟩
  · intro fresh
    simp only [insert]
    rw [shape, insertEntry_append smallerBefore]
    simp [insertEntry]
  · simp only [erase]
    rw [shape, List.filter_append, List.filter_cons]
    have keepBefore :
        before.filter (fun entry => decide (entry.1 ≠ key)) = before := by
      refine List.filter_eq_self.mpr fun entry member => ?_
      have ne : entry.1 ≠ key := fun same =>
        irrefl_of lt key (same ▸ smallerBefore entry member)
      simpa using ne
    have keepAfter :
        after.filter (fun entry => decide (entry.1 ≠ key)) = after := by
      refine List.filter_eq_self.mpr fun entry member => ?_
      have ne : entry.1 ≠ key := fun same =>
        irrefl_of lt key (same ▸ largerAfter entry member)
      simpa using ne
    rw [keepBefore, keepAfter]
    simp

/-- A missing key splits the entries where its insertion takes place. -/
theorem split_of_find?_none
    {map : OrderedMap κ ν lt} {key : κ}
    (missing : map.find? key = none) :
    ∃ before after,
      map.entries = before ++ after ∧
        (∀ entry ∈ before, lt entry.1 key) ∧
        (∀ entry ∈ after, lt key entry.1) ∧
        (∀ fresh, (map.insert key fresh).entries =
          before ++ (key, fresh) :: after) := by
  have inserted : ∀ fresh, (map.insert key fresh).find? key = some fresh := by
    simp
  -- Erasing a freshly inserted key gives back the map it was inserted into.
  have restored : ∀ fresh, (map.insert key fresh).erase key = map := by
    intro fresh
    apply ext_find?
    intro other
    by_cases same : other = key <;> simp [same, missing]
  by_cases anyFresh : Nonempty ν
  · obtain ⟨fresh⟩ := anyFresh
    obtain ⟨before, after, _, smaller, larger, overwritten, erased⟩ :=
      split_of_find?_some (inserted fresh)
    refine ⟨before, after, ?_, smaller, larger, ?_⟩
    · rw [← erased, restored fresh]
    · intro other
      have twice :
          (map.insert key fresh).insert key other = map.insert key other := by
        apply ext_find?
        intro third
        by_cases same : third = key <;> simp [same]
      rw [← twice, overwritten other]
  · refine ⟨[], map.entries, rfl, by simp, ?_, ?_⟩
    · intro entry
      exact (anyFresh ⟨entry.2⟩).elim
    · intro fresh
      exact (anyFresh ⟨fresh⟩).elim

/-- Overwriting a key twice keeps the last value. -/
@[simp] theorem insert_insert
    (map : OrderedMap κ ν lt) (key : κ) (first second : ν) :
    (map.insert key first).insert key second = map.insert key second := by
  apply ext_find?
  intro other
  by_cases same : other = key <;> simp [same]

/-- Removing a key forgets what was stored under it. -/
@[simp] theorem erase_insert
    (map : OrderedMap κ ν lt) (key : κ) (value : ν) :
    (map.insert key value).erase key = map.erase key := by
  apply ext_find?
  intro other
  by_cases same : other = key <;> simp [same]

/-- Storing under a key forgets that it was removed. -/
@[simp] theorem insert_erase
    (map : OrderedMap κ ν lt) (key : κ) (value : ν) :
    (map.erase key).insert key value = map.insert key value := by
  apply ext_find?
  intro other
  by_cases same : other = key <;> simp [same]

/-- Changes under different keys commute. -/
theorem erase_insert_of_ne
    (map : OrderedMap κ ν lt) {key other : κ} (value : ν) (apart : key ≠ other) :
    (map.insert key value).erase other = (map.erase other).insert key value := by
  apply ext_find?
  intro third
  by_cases isKey : third = key <;> by_cases isOther : third = other <;>
    simp_all

/-- A new key is inserted. -/
theorem emplace_of_find?_none
    {map : OrderedMap κ ν lt} {key : κ}
    (missing : map.find? key = none) (value : ν) :
    map.emplace key value = map.insert key value := by
  simp [emplace, missing]

/-- Overwriting keeps the keys. -/
theorem keys_insert_of_find?_some
    {map : OrderedMap κ ν lt} {key : κ} {value : ν}
    (found : map.find? key = some value) (fresh : ν) :
    (map.insert key fresh).keys = map.keys := by
  obtain ⟨before, after, shape, _, _, overwritten, _⟩ :=
    split_of_find?_some found
  simp [keys, shape, overwritten]

omit [DecidableRel lt] in
/-- Removing a key that is not there changes nothing. -/
theorem erase_of_find?_none
    {map : OrderedMap κ ν lt} {key : κ}
    (missing : map.find? key = none) : map.erase key = map := by
  apply ext_find?
  intro other
  by_cases same : other = key <;> simp [same, missing]

/-- Writing back the stored value changes nothing. -/
theorem insert_of_find?_some
    {map : OrderedMap κ ν lt} {key : κ} {value : ν}
    (found : map.find? key = some value) :
    map.insert key value = map := by
  apply ext_find?
  intro other
  by_cases same : other = key <;> simp [same, found]

end Splitting

/-! ## Totals and sizes -/

@[simp] theorem total_empty [AddMonoid μ] (f : κ → ν → μ) :
    (empty : OrderedMap κ ν lt).total f = 0 := rfl

/-- The number of entries is the total of the constant one. -/
theorem size_eq_total (map : OrderedMap κ ν lt) :
    map.size = map.total fun _ _ => 1 := by
  simp [size, total]

section Totals

variable [DecidableEq κ] [DecidableRel lt] [IsStrictTotalOrder κ lt]

/-- A new entry adds its own contribution. -/
theorem total_insert_of_find?_none
    [AddCommMonoid μ]
    {map : OrderedMap κ ν lt} {key : κ}
    (missing : map.find? key = none) (value : ν) (f : κ → ν → μ) :
    (map.insert key value).total f = f key value + map.total f := by
  obtain ⟨before, after, shape, _, _, inserted⟩ := split_of_find?_none missing
  simp only [total, inserted, shape, List.map_append, List.map_cons,
    List.sum_append, List.sum_cons]
  abel

/-- Erasing an entry removes exactly its contribution. -/
theorem total_erase_of_find?_some
    [AddCommMonoid μ]
    {map : OrderedMap κ ν lt} {key : κ} {value : ν}
    (found : map.find? key = some value) (f : κ → ν → μ) :
    map.total f = f key value + (map.erase key).total f := by
  obtain ⟨before, after, shape, _, _, _, erased⟩ := split_of_find?_some found
  simp only [total, erased, shape, List.map_append, List.map_cons,
    List.sum_append, List.sum_cons]
  abel

/-- Overwriting an entry exchanges the two contributions. -/
theorem total_insert_of_find?_some
    [AddCommMonoid μ]
    {map : OrderedMap κ ν lt} {key : κ} {value : ν}
    (found : map.find? key = some value) (fresh : ν) (f : κ → ν → μ) :
    (map.insert key fresh).total f + f key value =
      f key fresh + map.total f := by
  obtain ⟨before, after, shape, _, _, overwritten, _⟩ :=
    split_of_find?_some found
  simp only [total, overwritten, shape, List.map_append, List.map_cons,
    List.sum_append, List.sum_cons]
  abel

/-- Overwriting two entries exchanges their contributions. -/
theorem total_insert_insert
    [AddCommMonoid μ]
    {map : OrderedMap κ ν lt} {first second : κ} {firstOld secondOld : ν}
    (apart : second ≠ first)
    (firstFound : map.find? first = some firstOld)
    (secondFound : map.find? second = some secondOld)
    (firstNew secondNew : ν) (f : κ → ν → μ) :
    ((map.insert first firstNew).insert second secondNew).total f +
        (f first firstOld + f second secondOld) =
      f first firstNew + f second secondNew + map.total f := by
  have stillFound : (map.insert first firstNew).find? second = some secondOld := by
    simp [apart, secondFound]
  have outer := total_insert_of_find?_some stillFound secondNew f
  have inner := total_insert_of_find?_some firstFound firstNew f
  calc
    _ = ((map.insert first firstNew).insert second secondNew).total f +
          f second secondOld + f first firstOld := by abel
    _ = f second secondNew +
          ((map.insert first firstNew).total f + f first firstOld) := by
        rw [outer]
        abel
    _ = _ := by
        rw [inner]
        abel

omit [DecidableRel lt] in
/-- Entries that all contribute nothing. -/
theorem total_eq_zero
    [AddCommMonoid μ]
    {map : OrderedMap κ ν lt} {f : κ → ν → μ}
    (nothing : ∀ key value, map.find? key = some value → f key value = 0) :
    map.total f = 0 := by
  refine List.sum_eq_zero fun term member => ?_
  obtain ⟨⟨key, value⟩, listed, rfl⟩ := List.mem_map.mp member
  exact nothing key value (mem_entries.mp listed)

/-- A new entry that contributes nothing keeps the total. -/
theorem total_emplace_of_zero
    [AddCommMonoid μ]
    (map : OrderedMap κ ν lt) {key : κ} {value : ν} {f : κ → ν → μ}
    (nothing : f key value = 0) :
    (map.emplace key value).total f = map.total f := by
  unfold emplace
  cases found : map.find? key with
  | none =>
      simp only
      rw [total_insert_of_find?_none found, nothing, zero_add]
  | some stored => rfl

end Totals

end OrderedMap
