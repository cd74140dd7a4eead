import Mathlib.Order.RelClasses
import Mathlib.Data.List.Sort
import Mathlib.Data.List.Pairwise

/-!
# Priority lists with first-in-first-out ties

A list ordered by a key and, among equal keys, by an arrival stamp.  The
library function for arriving items is `List.orderedInsert` with the strict
key order: it puts the item behind everything that does not have a worse key.

`Ahead` is the lexicographic order on key and stamp.  A list that is pairwise
`Ahead` is determined by its members, stays so when an item with a new
largest stamp arrives, and commutes with the removal of other items.
-/

namespace PriorityQueue

variable {α κ : Type} {lt : κ → κ → Prop} {key : α → κ} {stamp : α → Nat}

/-- A strictly better key. -/
def Outranks (lt : κ → κ → Prop) (key : α → κ) (first second : α) : Prop :=
  lt (key first) (key second)

instance [DecidableRel lt] : DecidableRel (Outranks lt key) :=
  fun first second => inferInstanceAs (Decidable (lt (key first) (key second)))

/-- A better key, or the same key and an earlier arrival. -/
def Ahead (lt : κ → κ → Prop) (key : α → κ) (stamp : α → Nat)
    (first second : α) : Prop :=
  lt (key first) (key second) ∨
    key first = key second ∧ stamp first < stamp second

/-- A list in key order, with nothing said about equal keys. -/
def InOrder (lt : κ → κ → Prop) (key : α → κ) (items : List α) : Prop :=
  items.Pairwise fun first second => ¬ Outranks lt key second first

section Insertion

variable [DecidableRel lt]

/-- Items that do not have a worse key stay in front of an arrival. -/
theorem orderedInsert_append
    {fresh : α} {before after : List α}
    (stays : ∀ item ∈ before, ¬ Outranks lt key fresh item) :
    (before ++ after).orderedInsert (Outranks lt key) fresh =
      before ++ after.orderedInsert (Outranks lt key) fresh := by
  induction before with
  | nil =>
      rfl
  | cons head rest inductionHypothesis =>
      have headStays : ¬ Outranks lt key fresh head := stays head (by simp)
      have restStays : ∀ item ∈ rest, ¬ Outranks lt key fresh item :=
        fun item member => stays item (by simp [member])
      simp [headStays, inductionHypothesis restStays]

/-- An item that outranks a whole list arrives at its head. -/
theorem orderedInsert_head
    {fresh : α} {after : List α}
    (first : ∀ item ∈ after, Outranks lt key fresh item) :
    after.orderedInsert (Outranks lt key) fresh = fresh :: after := by
  cases after with
  | nil =>
      rfl
  | cons head rest =>
      simp [first head (by simp)]

end Insertion

section Order

variable [IsStrictTotalOrder κ lt]

theorem ahead_asymm {first second : α}
    (before : Ahead lt key stamp first second) :
    ¬ Ahead lt key stamp second first := by
  rintro (better | ⟨sameKey, earlier⟩)
  · rcases before with better' | ⟨sameKey, _⟩
    · exact asymm_of lt better better'
    · exact irrefl_of lt (key first) (sameKey ▸ better)
  · rcases before with better' | ⟨_, earlier'⟩
    · exact irrefl_of lt (key first) (sameKey ▸ better')
    · omega

theorem nodup_of_pairwise
    {items : List α} (ordered : items.Pairwise (Ahead lt key stamp)) :
    items.Nodup := by
  refine ordered.imp ?_
  intro left right before same
  exact ahead_asymm before (same ▸ before)

/-- Ordered lists with the same members are equal. -/
theorem eq_of_mem_iff
    {first second : List α}
    (firstOrdered : first.Pairwise (Ahead lt key stamp))
    (secondOrdered : second.Pairwise (Ahead lt key stamp))
    (sameMembers : ∀ item, item ∈ first ↔ item ∈ second) :
    first = second := by
  refine List.Perm.eq_of_pairwise ?_ firstOrdered secondOrdered
    ((List.perm_ext_iff_of_nodup (nodup_of_pairwise firstOrdered)
      (nodup_of_pairwise secondOrdered)).mpr sameMembers)
  intro left right _ _ before after
  exact absurd after (ahead_asymm before)

theorem inOrder_of_ahead
    {items : List α} (ordered : items.Pairwise (Ahead lt key stamp)) :
    InOrder lt key items := by
  refine ordered.imp ?_
  rintro first second (better | ⟨sameKey, _⟩) worse
  · exact asymm_of lt better worse
  · have looped : lt (key second) (key first) := worse
    rw [sameKey] at looped
    exact irrefl_of lt (key second) looped

/-- A list in key order splits at an arriving key. -/
theorem split_at_key
    {items : List α} (ordered : InOrder lt key items)
    (fresh : α) :
    ∃ before after,
      items = before ++ after ∧
        (∀ item ∈ before, ¬ Outranks lt key fresh item) ∧
        (∀ item ∈ after, Outranks lt key fresh item) := by
  classical
  induction items with
  | nil =>
      exact ⟨[], [], rfl, by simp, by simp⟩
  | cons head rest inductionHypothesis =>
      obtain ⟨headFirst, restOrdered⟩ := List.pairwise_cons.mp ordered
      by_cases headAfter : Outranks lt key fresh head
      · refine ⟨[], head :: rest, rfl, by simp, ?_⟩
        intro item member
        rcases List.mem_cons.mp member with isHead | inRest
        · exact isHead ▸ headAfter
        · rcases trichotomous_of lt (key head) (key item) with
            better | same | worse
          · exact trans_of lt headAfter better
          · exact (congrArg (lt (key fresh)) same).mp headAfter
          · exact absurd worse (headFirst item inRest)
      · obtain ⟨before, after, shape, stays, follows⟩ :=
          inductionHypothesis restOrdered
        refine ⟨head :: before, after, by simp [shape], ?_, follows⟩
        intro item member
        rcases List.mem_cons.mp member with isHead | inBefore
        · exact isHead ▸ headAfter
        · exact stays item inBefore

variable [DecidableRel lt]

/-- Arrival with the largest stamp keeps the order. -/
theorem pairwise_orderedInsert
    {items : List α} (ordered : items.Pairwise (Ahead lt key stamp))
    {fresh : α} (latest : ∀ item ∈ items, stamp item < stamp fresh) :
    (items.orderedInsert (Outranks lt key) fresh).Pairwise
      (Ahead lt key stamp) := by
  obtain ⟨before, after, rfl, stays, follows⟩ :=
    split_at_key (inOrder_of_ahead ordered) fresh
  rw [orderedInsert_append stays, orderedInsert_head follows]
  obtain ⟨beforeOrdered, afterOrdered, across⟩ := List.pairwise_append.mp ordered
  refine List.pairwise_append.mpr
    ⟨beforeOrdered, List.pairwise_cons.mpr ⟨?_, afterOrdered⟩, ?_⟩
  · intro item member
    exact Or.inl (follows item member)
  · intro item member other otherMember
    rcases List.mem_cons.mp otherMember with isFresh | inAfter
    · subst isFresh
      rcases trichotomous_of lt (key item) (key other) with better | same | worse
      · exact Or.inl better
      · exact Or.inr ⟨same, latest item (List.mem_append_left _ member)⟩
      · exact absurd worse (stays item member)
    · exact across item member other inAfter

/-- Removing other items commutes with an arrival. -/
theorem filter_orderedInsert
    {items : List α} (ordered : InOrder lt key items)
    {fresh : α} {keep : α → Bool} (kept : keep fresh = true) :
    (items.orderedInsert (Outranks lt key) fresh).filter keep =
      (items.filter keep).orderedInsert (Outranks lt key) fresh := by
  obtain ⟨before, after, rfl, stays, follows⟩ := split_at_key ordered fresh
  rw [orderedInsert_append stays, orderedInsert_head follows,
    List.filter_append, List.filter_append, List.filter_cons_of_pos kept,
    orderedInsert_append fun item member =>
      stays item (List.mem_of_mem_filter member),
    orderedInsert_head fun item member =>
      follows item (List.mem_of_mem_filter member)]

/-- An arrival stands last among the items with its key. -/
theorem filter_key_orderedInsert
    {items : List α} (ordered : InOrder lt key items)
    [DecidableEq κ] (fresh : α) :
    (items.orderedInsert (Outranks lt key) fresh).filter
        (fun item => decide (key item = key fresh)) =
      items.filter (fun item => decide (key item = key fresh)) ++ [fresh] := by
  obtain ⟨before, after, rfl, stays, follows⟩ := split_at_key ordered fresh
  have noneAfter :
      after.filter (fun item => decide (key item = key fresh)) = [] := by
    refine List.filter_eq_nil_iff.mpr fun item member => ?_
    have worse : lt (key fresh) (key item) := follows item member
    simp only [decide_eq_true_eq]
    intro same
    rw [same] at worse
    exact irrefl_of lt _ worse
  rw [orderedInsert_append stays, orderedInsert_head follows,
    List.filter_append, List.filter_append,
    List.filter_cons_of_pos (by simp), noneAfter]
  simp

theorem inOrder_orderedInsert
    {items : List α} (ordered : InOrder lt key items) (fresh : α) :
    InOrder lt key (items.orderedInsert (Outranks lt key) fresh) := by
  obtain ⟨before, after, rfl, stays, follows⟩ := split_at_key ordered fresh
  obtain ⟨beforeOrdered, afterOrdered, across⟩ :=
    List.pairwise_append.mp ordered
  rw [orderedInsert_append stays, orderedInsert_head follows]
  refine List.pairwise_append.mpr ⟨beforeOrdered,
    List.pairwise_cons.mpr ⟨?_, afterOrdered⟩, ?_⟩
  · intro item member worse
    exact asymm_of lt (follows item member) worse
  · intro item member other otherMember
    rcases List.mem_cons.mp otherMember with isFresh | inAfter
    · rw [isFresh]
      exact stays item member
    · exact across item member other inAfter

/-- What an arrival does to the items of one key. -/
theorem filter_value_orderedInsert
    {items : List α} (ordered : InOrder lt key items)
    [DecidableEq κ] (fresh : α) (value : κ) :
    (items.orderedInsert (Outranks lt key) fresh).filter
        (fun item => decide (key item = value)) =
      if key fresh = value then
        items.filter (fun item => decide (key item = value)) ++ [fresh]
      else
        items.filter fun item => decide (key item = value) := by
  split_ifs with isValue
  · rw [← isValue]
    exact filter_key_orderedInsert ordered fresh
  · obtain ⟨before, after, rfl, stays, follows⟩ := split_at_key ordered fresh
    rw [orderedInsert_append stays, orderedInsert_head follows,
      List.filter_append, List.filter_append,
      List.filter_cons_of_neg (by simpa using isValue)]

/-! ## Sorting -/

section Sorting

variable [DecidableEq κ]

/-- The order to sort by: better keys first, then earlier stamps. -/
def ranks (lt : κ → κ → Prop) [DecidableRel lt] (key : α → κ)
    (stamp : α → Nat) (first second : α) : Bool :=
  decide (lt (key first) (key second) ∨
    key first = key second ∧ stamp first ≤ stamp second)

theorem ranks_trans
    (first second third : α)
    (before : ranks lt key stamp first second = true)
    (after : ranks lt key stamp second third = true) :
    ranks lt key stamp first third = true := by
  simp only [ranks, decide_eq_true_eq] at *
  rcases before with better | ⟨sameKey, earlier⟩
  · rcases after with better' | ⟨sameKey', _⟩
    · exact Or.inl (trans_of lt better better')
    · exact Or.inl (sameKey' ▸ better)
  · rcases after with better' | ⟨sameKey', earlier'⟩
    · exact Or.inl (sameKey ▸ better')
    · exact Or.inr ⟨sameKey.trans sameKey', Nat.le_trans earlier earlier'⟩

theorem ranks_total (first second : α) :
    (ranks lt key stamp first second || ranks lt key stamp second first) =
      true := by
  simp only [ranks, Bool.or_eq_true, decide_eq_true_eq]
  rcases trichotomous_of lt (key first) (key second) with
    better | sameKey | worse
  · exact Or.inl (Or.inl better)
  · rcases Nat.le_total (stamp first) (stamp second) with earlier | later
    · exact Or.inl (Or.inr ⟨sameKey, earlier⟩)
    · exact Or.inr (Or.inr ⟨sameKey.symm, later⟩)
  · exact Or.inr (Or.inl worse)

/-- Sorting items of different stamps puts them in priority order. -/
theorem mergeSort_ahead
    {items : List α} (apart : (items.map stamp).Nodup) :
    (items.mergeSort (ranks lt key stamp)).Pairwise (Ahead lt key stamp) := by
  have sorted : (items.mergeSort (ranks lt key stamp)).Pairwise
      fun first second => ranks lt key stamp first second = true :=
    List.pairwise_mergeSort ranks_trans ranks_total items
  have different :
      (items.mergeSort (ranks lt key stamp)).Pairwise
        fun first second => stamp first ≠ stamp second := by
    refine List.pairwise_map.mp ?_
    exact ((List.mergeSort_perm _ _).map _).nodup_iff.mpr apart
  refine (sorted.and different).imp ?_
  rintro first second ⟨ranked, otherStamp⟩
  simp only [ranks, decide_eq_true_eq] at ranked
  rcases ranked with better | ⟨sameKey, earlier⟩
  · exact Or.inl better
  · exact Or.inr ⟨sameKey, Nat.lt_of_le_of_ne earlier otherStamp⟩

end Sorting

end Order

/-! ## Stable sorting -/

section Stable

variable [IsStrictTotalOrder κ lt] [DecidableRel lt]

/-- The order to sort by when equal keys are to keep their places. -/
def notBehind (lt : κ → κ → Prop) [DecidableRel lt] (key : α → κ)
    (first second : α) : Bool :=
  decide (¬ lt (key second) (key first))

theorem notBehind_trans
    (first second third : α)
    (before : notBehind lt key first second = true)
    (after : notBehind lt key second third = true) :
    notBehind lt key first third = true := by
  simp only [notBehind, decide_eq_true_eq] at *
  intro behind
  rcases trichotomous_of lt (key first) (key second) with
    better | same | worse
  · exact after (trans_of lt behind better)
  · exact after (same ▸ behind)
  · exact before worse

theorem notBehind_total (first second : α) :
    (notBehind lt key first second || notBehind lt key second first) =
      true := by
  simp only [notBehind, Bool.or_eq_true, decide_eq_true_eq]
  by_cases behind : lt (key second) (key first)
  · exact Or.inr fun ahead => asymm_of lt behind ahead
  · exact Or.inl behind

theorem mergeSort_inOrder (items : List α) :
    InOrder lt key (items.mergeSort (notBehind lt key)) := by
  have sorted : (items.mergeSort (notBehind lt key)).Pairwise
      fun first second => notBehind lt key first second = true :=
    List.pairwise_mergeSort notBehind_trans notBehind_total items
  refine sorted.imp ?_
  intro first second ordered
  simpa [notBehind, Outranks] using ordered

/-- Sorting keeps the items of one key in their order. -/
theorem filter_key_mergeSort [DecidableEq κ] (items : List α) (value : κ) :
    (items.mergeSort (notBehind lt key)).filter
        (fun item => decide (key item = value)) =
      items.filter fun item => decide (key item = value) := by
  have tied : (items.filter fun item => decide (key item = value)).Pairwise
      fun first second => notBehind lt key first second = true := by
    refine List.pairwise_of_forall_mem_list fun first isFirst second isSecond => ?_
    have firstKey : key first = value := by
      simpa using (List.mem_filter.mp isFirst).2
    have secondKey : key second = value := by
      simpa using (List.mem_filter.mp isSecond).2
    simp [notBehind, firstKey, secondKey, irrefl_of lt value]
  have kept := (List.sublist_mergeSort notBehind_trans notBehind_total tied
    List.filter_sublist).filter fun item => decide (key item = value)
  rw [List.filter_filter] at kept
  simp only [Bool.and_self] at kept
  refine (kept.eq_of_length ?_).symm
  exact (((List.mergeSort_perm items (notBehind lt key)).filter
    fun item => decide (key item = value)).length_eq).symm

end Stable

/-- Lists in key order that list every key alike are equal. -/
theorem eq_of_inOrder
    [IsStrictTotalOrder κ lt] [DecidableEq κ] {first second : List α} (firstOrdered : InOrder lt key first)
    (secondOrdered : InOrder lt key second)
    (alike : ∀ item ∈ first ++ second,
      first.filter (fun other => decide (key other = key item)) =
        second.filter fun other => decide (key other = key item)) :
    first = second := by
  induction first generalizing second with
  | nil =>
      cases second with
      | nil => rfl
      | cons item rest =>
          have missing := alike item (by simp)
          simp at missing
  | cons item rest inductionHypothesis =>
      cases second with
      | nil =>
          have missing := alike item (by simp)
          simp at missing
      | cons other others =>
          obtain ⟨itemFirst, restOrdered⟩ := List.pairwise_cons.mp firstOrdered
          obtain ⟨otherFirst, othersOrdered⟩ :=
            List.pairwise_cons.mp secondOrdered
          have sameKey : key item = key other := by
            have itemHere : item ∈ other :: others := by
              have listed := alike item (by simp)
              have member : item ∈ (item :: rest).filter fun each =>
                  decide (key each = key item) := by simp
              rw [listed] at member
              exact List.mem_of_mem_filter member
            have otherHere : other ∈ item :: rest := by
              have listed := alike other (by simp)
              have member : other ∈ (other :: others).filter fun each =>
                  decide (key each = key other) := by simp
              rw [← listed] at member
              exact List.mem_of_mem_filter member
            rcases List.mem_cons.mp itemHere with rfl | later
            · rfl
            rcases List.mem_cons.mp otherHere with rfl | otherLater
            · rfl
            rcases trichotomous_of lt (key item) (key other) with
              better | same | worse
            · exact absurd better (otherFirst item later)
            · exact same
            · exact absurd worse (itemFirst other otherLater)
          have heads := alike item (by simp)
          rw [List.filter_cons_of_pos (by simp),
            List.filter_cons_of_pos (by simp [sameKey])] at heads
          obtain ⟨rfl, _⟩ := List.cons.inj heads
          rw [inductionHypothesis restOrdered othersOrdered ?_]
          intro each member
          have listed := alike each (by
            rcases List.mem_append.mp member with inRest | inOthers
            · simp [inRest]
            · simp [inOthers])
          rw [List.filter_cons, List.filter_cons] at listed
          split_ifs at listed with isKey
          · exact (List.cons.inj listed).2
          · exact listed

end PriorityQueue
