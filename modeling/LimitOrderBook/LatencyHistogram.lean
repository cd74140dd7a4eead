import Mathlib.Algebra.Order.Floor.Div
import Mathlib.GroupTheory.GroupAction.Ring
import LimitOrderBook.Frequencies
import LimitOrderBook.OrderedMap

/-!
# Exact latency quantiles

`LatencyHistogram` counts durations in nanoseconds: those below the size of
the dense region in a vector, the others in a map of outliers.  A quantile is
found by one running count through both.

A duration is a 64-bit number that is only compared, so it is a natural number
here; the counters and the rank are `UInt64` and wrap as in the source.  The
sum, the least and the largest duration are left out: only the summary reads
them, and the sum is a floating-point number.
-/

/-- The dense region holds the durations up to 100 us. -/
def denseSize : Nat := 100001

structure LatencyHistogram (size : Nat) where
  dense : Vector UInt64 size
  outliers : OrderedMap Nat UInt64 (· < ·)
  count : UInt64
  outlying : ∀ entry ∈ outliers.entries, size ≤ entry.1

namespace LatencyHistogram

open Frequencies

variable {size : Nat}

/-- The histogram before any observation. -/
def empty (size : Nat) : LatencyHistogram size where
  dense := .replicate size 0
  outliers := .empty
  count := 0
  outlying _ member := absurd member List.not_mem_nil

/-- `observe`. -/
def observe (histogram : LatencyHistogram size) (ns : Nat) :
    LatencyHistogram size :=
  if bound : ns < size then
    { histogram with
      dense := histogram.dense.set ns (histogram.dense[ns] + 1)
      count := histogram.count + 1 }
  else
    { histogram with
      outliers :=
        histogram.outliers.insert ns
          ((histogram.outliers.find? ns).getD 0 + 1)
      count := histogram.count + 1
      outlying := by
        intro entry member
        rcases OrderedMap.mem_insertEntry member with rfl | earlier
        · exact Nat.le_of_not_lt bound
        · exact histogram.outlying entry earlier }

/-- The cells of the dense region, in the order of its indices. -/
def denseCells (histogram : LatencyHistogram size) : List (Nat × UInt64) :=
  histogram.dense.toList.mapIdx Prod.mk

/-- The rank of a quantile, split so that no product exceeds 64 bits. -/
def rank (count permille : UInt64) : UInt64 :=
  count / 1000 * permille + (count % 1000 * permille + 999) / 1000

/-- A loop of `quantile`: it returns a duration or ends with the running count. -/
def scan (rank : UInt64) : List (Nat × UInt64) → UInt64 → Nat ⊕ UInt64
  | [], accumulated => .inr accumulated
  | cell :: rest, accumulated =>
      if accumulated + cell.2 ≥ rank then
        .inl cell.1
      else
        scan rank rest (accumulated + cell.2)

/-- What `quantile` throws. -/
inductive QuantileError where
  | invalidArgument (text : String)
  | logicError (text : String)
  deriving DecidableEq, Repr

/-- `quantile`. -/
def quantile (histogram : LatencyHistogram size) (permille : UInt32) :
    Except QuantileError Nat :=
  if permille = 0 ∨ permille > 1000 ∨ histogram.count = 0 then
    .error (.invalidArgument
      "Nonempty histogram and quantile 1..1000 required")
  else
    let rank := rank histogram.count permille.toUInt64
    match scan rank histogram.denseCells 0 with
    | .inl ns => .ok ns
    | .inr accumulated =>
        match scan rank histogram.outliers.entries accumulated with
        | .inl ns => .ok ns
        | .inr _ => .error (.logicError "Latency histogram count mismatch")

/-- The text of one cell. -/
def cellText (cell : Nat × UInt64) : String :=
  "[" ++ toString cell.1 ++ "," ++ toString cell.2 ++ "]"

/-- `append` of `frequencies`: whether the cell is the first, and the output. -/
def append (written : Bool × String) (cell : Nat × UInt64) : Bool × String :=
  if cell.2 = 0 then
    written
  else
    (false, (if written.1 then written.2 else written.2 ++ ",") ++
      cellText cell)

/-- `frequencies`. -/
def frequencies (histogram : LatencyHistogram size) : String :=
  let written := histogram.denseCells.foldl append (true, "[")
  (histogram.outliers.entries.foldl append written).2 ++ "]"

/-- The histogram after a sequence of observations. -/
def observed (size : Nat) (durations : List Nat) : LatencyHistogram size :=
  durations.foldl observe (empty size)

/-! ## What is counted -/

/-- How often a duration was observed, wherever it is counted. -/
def tally (histogram : LatencyHistogram size) (ns : Nat) : UInt64 :=
  if _ : ns < size then
    histogram.dense[ns]
  else
    (histogram.outliers.find? ns).getD 0

/-- Each duration is counted. -/
theorem count_observe (histogram : LatencyHistogram size) (ns : Nat) :
    (histogram.observe ns).count = histogram.count + 1 := by
  unfold observe
  split_ifs <;> rfl

/-- Each duration is counted in its own cell. -/
theorem tally_observe (histogram : LatencyHistogram size) (ns other : Nat) :
    (histogram.observe ns).tally other =
      if other = ns then histogram.tally ns + 1 else histogram.tally other := by
  by_cases same : other = ns
  · subst same
    rw [if_pos rfl]
    by_cases dense : other < size <;> simp [observe, tally, dense]
  · rw [if_neg same]
    unfold observe tally
    split_ifs
    · exact Vector.getElem_set_ne ‹_› ‹_› (Ne.symm same)
    · rfl
    · rfl
    · rw [OrderedMap.find?_insert, if_neg same]

/-- A histogram counts a sequence of durations. -/
structure Counts (histogram : LatencyHistogram size) (durations : List Nat) :
    Prop where
  count : histogram.count.toNat = durations.length
  tally : ∀ ns, (histogram.tally ns).toNat = durations.count ns

/-- At first nothing is counted. -/
theorem empty_counts : Counts (empty size) [] where
  count := rfl
  tally ns := by
    unfold LatencyHistogram.tally
    split_ifs
    · simp [empty]
    · rfl

/-- One more duration, short of an overflow. -/
theorem Counts.observe
    {histogram : LatencyHistogram size} {durations : List Nat}
    (counts : Counts histogram durations)
    (fewer : durations.length + 1 < 2 ^ 64) (ns : Nat) :
    Counts (histogram.observe ns) (durations ++ [ns]) where
  count := by
    rw [count_observe, UInt64.toNat_add, counts.count, List.length_append]
    exact Nat.mod_eq_of_lt fewer
  tally other := by
    rw [tally_observe, List.count_append, List.count_singleton]
    by_cases same : other = ns
    · have bounded : durations.count ns ≤ durations.length :=
        List.count_le_length
      subst same
      rw [if_pos rfl, if_pos (beq_self_eq_true other), UInt64.toNat_add,
        counts.tally]
      exact Nat.mod_eq_of_lt (by simp; omega)
    · rw [if_neg same, if_neg (by simpa using Ne.symm same)]
      exact counts.tally other

/-- A histogram counts the durations that were observed. -/
theorem observed_counts {durations : List Nat}
    (fewer : durations.length < 2 ^ 64) :
    Counts (observed size durations) durations := by
  induction durations using List.reverseRecOn with
  | nil => exact empty_counts
  | append_singleton earlier ns inductionHypothesis =>
      rw [List.length_append] at fewer
      have before := inductionHypothesis (by omega)
      rw [observed, List.foldl_append]
      exact before.observe fewer ns

/-! ## The cells of both stores -/

/-- Every cell in the order of the loops, with its frequency as a number. -/
def cells (histogram : LatencyHistogram size) : List (Nat × UInt64) :=
  histogram.denseCells ++ histogram.outliers.entries

/-- Cells with their counters read as numbers. -/
def counted (cells : List (Nat × UInt64)) : List (Nat × Nat) :=
  cells.map fun cell => (cell.1, cell.2.toNat)

/-- The dense cells are those of the array. -/
theorem mem_denseCells
    {histogram : LatencyHistogram size} {cell : Nat × UInt64} :
    cell ∈ histogram.denseCells ↔
      ∃ bound : cell.1 < size, histogram.dense[cell.1] = cell.2 := by
  rw [denseCells, List.mem_mapIdx]
  constructor
  · rintro ⟨index, bound, rfl⟩
    exact ⟨by simpa using bound, by simp⟩
  · rintro ⟨bound, stored⟩
    exact ⟨cell.1, by simpa using bound, by simp [stored]⟩

/-- They come in order of their durations. -/
theorem denseCells_increasing (histogram : LatencyHistogram size) :
    histogram.denseCells.Pairwise fun first second => first.1 < second.1 := by
  rw [List.pairwise_iff_getElem]
  intro first second firstBound secondBound before
  simpa [denseCells] using before

/-- The dense region comes before the outliers. -/
theorem cells_increasing (histogram : LatencyHistogram size) :
    histogram.cells.Pairwise fun first second => first.1 < second.1 := by
  refine List.pairwise_append.mpr
    ⟨histogram.denseCells_increasing, histogram.outliers.sorted, ?_⟩
  intro near nearMember far farMember
  obtain ⟨bound, _⟩ := mem_denseCells.mp nearMember
  exact bound.trans_le (histogram.outlying far farMember)

/-- A cell holds the tally of its duration. -/
theorem tally_of_mem
    {histogram : LatencyHistogram size} {cell : Nat × UInt64}
    (member : cell ∈ histogram.cells) : histogram.tally cell.1 = cell.2 := by
  unfold tally
  rcases List.mem_append.mp member with dense | outlier
  · obtain ⟨bound, stored⟩ := mem_denseCells.mp dense
    rw [dif_pos bound, stored]
  · have found : histogram.outliers.find? cell.1 = some cell.2 :=
      OrderedMap.mem_entries.mp outlier
    rw [dif_neg (Nat.not_lt.mpr (histogram.outlying cell outlier)), found]
    rfl

/-- A duration with a tally has a cell. -/
theorem mem_of_tally
    {histogram : LatencyHistogram size} {ns : Nat}
    (observed : histogram.tally ns ≠ 0) :
    (ns, histogram.tally ns) ∈ histogram.cells := by
  unfold tally at observed ⊢
  split_ifs at observed ⊢ with bound
  · exact List.mem_append_left _ (mem_denseCells.mpr ⟨bound, rfl⟩)
  · cases found : histogram.outliers.find? ns with
    | none => exact absurd (by rw [found]; rfl) observed
    | some frequency =>
        exact List.mem_append_right _ (OrderedMap.mem_entries.mpr found)

/-- So do all cells that have counted something. -/
theorem counted_increasing (histogram : LatencyHistogram size) :
    Increasing (counted histogram.cells) :=
  List.pairwise_map.mpr histogram.cells_increasing

/-- The cells of a histogram stand for what it counts, sorted. -/
theorem Counts.expand_eq
    {histogram : LatencyHistogram size} {durations : List Nat}
    (counts : Counts histogram durations) :
    expand (counted histogram.cells) = durations.mergeSort (· ≤ ·) := by
  refine histogram.counted_increasing.expand_eq fun ns => ?_
  rw [← counts.tally]
  by_cases present : ∃ cell ∈ histogram.cells, cell.1 = ns
  · obtain ⟨cell, member, rfl⟩ := present
    rw [tally_of_mem member]
    exact count_expand histogram.counted_increasing.nodup
      (List.mem_map.mpr ⟨cell, member, rfl⟩)
  · have absent : ns ∉ expand (counted histogram.cells) := by
      intro member
      obtain ⟨frequency, inCells⟩ := mem_expand member
      obtain ⟨cell, cellMember, same⟩ := List.mem_map.mp inCells
      exact present ⟨cell, cellMember, congrArg Prod.fst same⟩
    have untallied : histogram.tally ns = 0 := by
      by_contra tallied
      exact present ⟨_, mem_of_tally tallied, rfl⟩
    rw [List.count_eq_zero.mpr absent, untallied]
    rfl

/-! ## The rank and the scan -/

/-- No part of a rank exceeds 64 bits, and the rank is the exact one. -/
def RankExact (count : UInt64) (permille : UInt32) : Prop :=
  count.toNat / 1000 * permille.toNat +
      (count.toNat % 1000 * permille.toNat + 999) / 1000 < 2 ^ 64 ∧
    count.toNat % 1000 * permille.toNat + 999 < 2 ^ 64 ∧
    (rank count permille.toUInt64).toNat =
      (count.toNat * permille.toNat) ⌈/⌉ 1000

/-- The rank of a quantile, without an overflow. -/
theorem rank_exact (count : UInt64) {permille : UInt32}
    (valid : permille ≤ 1000) : RankExact count permille := by
  have bounded : permille.toNat ≤ 1000 := UInt32.le_iff_toNat_le.mp valid
  have countBound := count.toNat_lt
  have whole : count.toNat / 1000 * permille.toNat ≤
      count.toNat / 1000 * 1000 := Nat.mul_le_mul_left _ bounded
  have part : count.toNat % 1000 * permille.toNat ≤
      count.toNat % 1000 * 1000 := Nat.mul_le_mul_left _ bounded
  have split : count.toNat * permille.toNat =
      1000 * (count.toNat / 1000 * permille.toNat) +
        count.toNat % 1000 * permille.toNat := by
    rw [← Nat.mul_assoc, ← Nat.add_mul, Nat.div_add_mod]
  refine ⟨by omega, by omega, ?_⟩
  rw [Nat.ceilDiv_eq_add_pred_div, split]
  simp only [rank, UInt64.toNat_add, UInt64.toNat_mul, UInt64.toNat_div,
    UInt64.toNat_mod, UInt32.toNat_toUInt64, UInt64.reduceToNat]
  rw [Nat.mod_eq_of_lt (a := count.toNat / 1000 * permille.toNat) (by omega),
    Nat.mod_eq_of_lt (a := count.toNat % 1000 * permille.toNat) (by omega),
    Nat.mod_eq_of_lt (a := _ + 999) (by omega), Nat.mod_eq_of_lt (by omega)]
  omega

/-- The scan of one store goes on in the next. -/
theorem scan_append (rank : UInt64) (near far : List (Nat × UInt64))
    (accumulated : UInt64) :
    scan rank (near ++ far) accumulated =
      match scan rank near accumulated with
      | .inl ns => .inl ns
      | .inr reached => scan rank far reached := by
  induction near generalizing accumulated with
  | nil => rfl
  | cons cell rest inductionHypothesis =>
      rw [List.cons_append, scan, scan]
      split_ifs
      · rfl
      · exact inductionHypothesis _

/-- The scan reads the elements that its cells stand for. -/
theorem scan_eq
    (rank : UInt64) {cells : List (Nat × UInt64)} {accumulated : UInt64}
    (fits : accumulated.toNat + total (counted cells) < 2 ^ 64) :
    (scan rank cells accumulated).getLeft? =
      reached rank.toNat (counted cells) accumulated.toNat := by
  induction cells generalizing accumulated with
  | nil => rfl
  | cons cell rest inductionHypothesis =>
      rw [counted, List.map_cons, total_cons, ← counted] at fits
      rw [counted, List.map_cons, ← counted, scan, reached]
      have sum : (accumulated + cell.2).toNat =
          accumulated.toNat + cell.2.toNat := by
        rw [UInt64.toNat_add]
        exact Nat.mod_eq_of_lt (by omega)
      simp only [ge_iff_le, UInt64.le_iff_toNat_le, sum]
      split_ifs
      · rfl
      · rw [← sum]
        exact inductionHypothesis (by rw [sum]; omega)

/-- A scan through both stores that stops answers a quantile. -/
theorem quantile_ok
    {histogram : LatencyHistogram size} {permille : UInt32}
    (positive : permille ≠ 0) (valid : permille ≤ 1000)
    (nonempty : histogram.count ≠ 0) {ns : Nat}
    (found : scan (rank histogram.count permille.toUInt64)
      histogram.cells 0 = .inl ns) :
    histogram.quantile permille = .ok ns := by
  have accepted :
      ¬(permille = 0 ∨ permille > 1000 ∨ histogram.count = 0) := by
    rintro (zero | large | none)
    · exact positive zero
    · exact UInt32.not_lt.mpr valid large
    · exact nonempty none
  rw [cells, scan_append] at found
  simp only [quantile, if_neg accepted]
  cases near : scan (rank histogram.count permille.toUInt64)
      histogram.denseCells 0 with
  | inl first =>
      rw [near] at found
      exact congrArg Except.ok (Sum.inl.inj found)
  | inr accumulated =>
      rw [near] at found
      simp only [found]

/-- The rank of a quantile is the rank of an element. -/
theorem ceilDiv_rank {length permille : Nat}
    (nonempty : 0 < length) (positive : 0 < permille)
    (valid : permille ≤ 1000) :
    0 < (length * permille) ⌈/⌉ 1000 ∧
      (length * permille) ⌈/⌉ 1000 ≤ length := by
  have product : 0 < length * permille := Nat.mul_pos nonempty positive
  have bounded : length * permille ≤ length * 1000 :=
    Nat.mul_le_mul_left length valid
  rw [Nat.ceilDiv_eq_add_pred_div]
  omega

/-- A quantile is the element of its rank among the sorted durations. -/
theorem Counts.quantile
    {histogram : LatencyHistogram size} {durations : List Nat}
    (counts : Counts histogram durations) (nonempty : durations ≠ [])
    {permille : UInt32} (positive : permille ≠ 0) (valid : permille ≤ 1000) :
    ∃ ns, histogram.quantile permille = .ok ns ∧
      (durations.mergeSort (· ≤ ·))[
        (durations.length * permille.toNat) ⌈/⌉ 1000 - 1]? = some ns := by
  have observed : 0 < durations.length := List.length_pos_iff.mpr nonempty
  obtain ⟨first, last⟩ := ceilDiv_rank observed
    (Nat.pos_of_ne_zero fun zero => positive (UInt32.toNat_inj.mp zero))
    (UInt32.le_iff_toNat_le.mp valid)
  obtain ⟨_, _, sameRank⟩ := rank_exact histogram.count valid
  rw [counts.count] at sameRank
  have all : total (counted histogram.cells) = durations.length := by
    rw [← length_expand, counts.expand_eq, List.length_mergeSort]
  have fits : (0 : UInt64).toNat + total (counted histogram.cells) <
      2 ^ 64 := by
    rw [all, ← counts.count, UInt64.toNat_zero, Nat.zero_add]
    exact histogram.count.toNat_lt
  have scanned := scan_eq (rank histogram.count permille.toUInt64) fits
  rw [sameRank, UInt64.toNat_zero, reached_eq _ first, counts.expand_eq,
    Nat.sub_zero] at scanned
  have inside : (durations.length * permille.toNat) ⌈/⌉ 1000 - 1 <
      (durations.mergeSort (· ≤ ·)).length := by
    rw [List.length_mergeSort]
    omega
  refine ⟨_, quantile_ok positive valid ?_ ?_,
    List.getElem?_eq_getElem inside⟩
  · intro none
    rw [← counts.count, none] at observed
    exact Nat.lt_irrefl 0 observed
  · rw [List.getElem?_eq_getElem inside] at scanned
    exact Sum.getLeft?_eq_some_iff.mp scanned

/-- A higher quantile is no shorter. -/
theorem Counts.monotone
    {histogram : LatencyHistogram size} {durations : List Nat}
    (counts : Counts histogram durations) (nonempty : durations ≠ [])
    {low high : UInt32} (positive : low ≠ 0) (ordered : low ≤ high)
    (valid : high ≤ 1000) :
    ∃ first second, histogram.quantile low = .ok first ∧
      histogram.quantile high = .ok second ∧ first ≤ second := by
  have lowValid : low ≤ 1000 := UInt32.le_trans ordered valid
  have highPositive : high ≠ 0 := by
    rintro rfl
    exact positive (UInt32.le_zero_iff.mp ordered)
  obtain ⟨first, answered, atFirst⟩ := counts.quantile nonempty positive lowValid
  obtain ⟨second, answeredToo, atSecond⟩ :=
    counts.quantile nonempty highPositive valid
  refine ⟨first, second, answered, answeredToo, ?_⟩
  obtain ⟨_, rfl⟩ := List.getElem?_eq_some_iff.mp atFirst
  obtain ⟨_, rfl⟩ := List.getElem?_eq_some_iff.mp atSecond
  have ranks : (durations.length * low.toNat) ⌈/⌉ 1000 ≤
      (durations.length * high.toNat) ⌈/⌉ 1000 := by
    have products := Nat.mul_le_mul_left durations.length
      (UInt32.le_iff_toNat_le.mp ordered)
    simp only [Nat.ceilDiv_eq_add_pred_div]
    omega
  exact List.sortedLE_mergeSort.getElem_le_getElem_of_le
    (Nat.sub_le_sub_right ranks 1)

/-- The cells never add up to less than a rank. -/
theorem Counts.never_mismatched
    {histogram : LatencyHistogram size} {durations : List Nat}
    (counts : Counts histogram durations) (permille : UInt32)
    (text : String) :
    histogram.quantile permille ≠ .error (.logicError text) := by
  by_cases refused :
      permille = 0 ∨ permille > 1000 ∨ histogram.count = 0
  · rw [LatencyHistogram.quantile, if_pos refused]
    rintro ⟨⟩
  · obtain ⟨positive, valid, observed⟩ := not_or.mp refused |>.imp_right not_or.mp
    have nonempty : durations ≠ [] := by
      rintro rfl
      exact observed (UInt64.toNat_inj.mp counts.count)
    obtain ⟨ns, answered, _⟩ :=
      counts.quantile nonempty positive (UInt32.not_lt.mp valid)
    rw [answered]
    rintro ⟨⟩

/-! ## The listing -/

/-- Cells with nothing to report are passed over. -/
def reportable (cells : List (Nat × UInt64)) : List (Nat × UInt64) :=
  cells.filter fun cell => decide (cell.2 ≠ 0)

/-- What has been written once some texts have been appended. -/
def writtenSo (texts : List String) : Bool × String :=
  (texts.isEmpty, "[" ++ ",".intercalate texts)

/-- A cell is written behind the others. -/
theorem append_writtenSo (texts : List String) {cell : Nat × UInt64}
    (reported : cell.2 ≠ 0) :
    append (writtenSo texts) cell = writtenSo (texts ++ [cellText cell]) := by
  rw [append, if_neg reported]
  by_cases first : texts = []
  · subst first
    simp [writtenSo]
  · simp [writtenSo, first, String.append_assoc,
      String.intercalate_append_of_ne_nil first]

/-- All cells that are to be reported are written. -/
theorem foldl_append (cells : List (Nat × UInt64)) (texts : List String) :
    cells.foldl append (writtenSo texts) =
      writtenSo (texts ++ (reportable cells).map cellText) := by
  induction cells generalizing texts with
  | nil => simp [reportable]
  | cons cell rest inductionHypothesis =>
      rw [List.foldl_cons]
      by_cases skipped : cell.2 = 0
      · rw [append, if_pos skipped, inductionHypothesis]
        simp [reportable, skipped]
      · rw [append_writtenSo texts skipped, inductionHypothesis]
        simp [reportable, skipped]

/-- `frequencies` lists the cells with something to report. -/
theorem frequencies_eq (histogram : LatencyHistogram size) :
    histogram.frequencies =
      "[" ++ ",".intercalate ((reportable histogram.cells).map cellText) ++
        "]" := by
  have start : (true, "[") = writtenSo [] := by simp [writtenSo]
  rw [frequencies, start, ← List.foldl_append, ← cells, foldl_append]
  rfl

example : (observed 4 [3, 9, 1, 3, 4]).frequencies =
    "[[1,1],[3,2],[4,1],[9,1]]" := by
  decide +kernel

/-- The listed cells are the durations with their multiplicities. -/
theorem Counts.reportable
    {histogram : LatencyHistogram size} {durations : List Nat}
    (counts : Counts histogram durations) (cell : Nat × UInt64) :
    cell ∈ reportable histogram.cells ↔
      cell.1 ∈ durations ∧ cell.2.toNat = durations.count cell.1 := by
  rw [LatencyHistogram.reportable, List.mem_filter, decide_eq_true_iff]
  constructor
  · rintro ⟨member, reported⟩
    have frequency : cell.2.toNat = durations.count cell.1 := by
      rw [← tally_of_mem member, counts.tally]
    refine ⟨List.count_pos_iff.mp ?_, frequency⟩
    rw [← frequency]
    exact Nat.pos_of_ne_zero fun zero => reported (UInt64.toNat_inj.mp zero)
  · rintro ⟨observed, frequency⟩
    have same : histogram.tally cell.1 = cell.2 :=
      UInt64.toNat_inj.mp ((counts.tally cell.1).trans frequency.symm)
    have reported : cell.2 ≠ 0 := by
      rintro zero
      rw [zero] at frequency
      exact (List.count_pos_iff.mpr observed).ne frequency
    have tallied := mem_of_tally (same ▸ reported)
    rw [same] at tallied
    exact ⟨tallied, reported⟩

/-- The report is in order of the durations. -/
theorem reportable_increasing (histogram : LatencyHistogram size) :
    (LatencyHistogram.reportable histogram.cells).Pairwise
      fun first second => first.1 < second.1 :=
  histogram.cells_increasing.filter _

/-! ## Exactness -/

/-- A histogram answers for a sequence of durations without any loss. -/
structure Exact (histogram : LatencyHistogram size) (durations : List Nat) :
    Prop where
  quantile : durations ≠ [] → ∀ permille : UInt32,
    permille ≠ 0 → permille ≤ 1000 →
      ∃ ns, histogram.quantile permille = .ok ns ∧
        (durations.mergeSort (· ≤ ·))[
          (durations.length * permille.toNat) ⌈/⌉ 1000 - 1]? = some ns
  monotone : durations ≠ [] → ∀ low high : UInt32,
    low ≠ 0 → low ≤ high → high ≤ 1000 →
      ∃ first second, histogram.quantile low = .ok first ∧
        histogram.quantile high = .ok second ∧ first ≤ second
  matched : ∀ permille text,
    histogram.quantile permille ≠ .error (.logicError text)
  listing : ∃ listed : List (Nat × UInt64),
    histogram.frequencies =
        "[" ++ ",".intercalate (listed.map cellText) ++ "]" ∧
      listed.Pairwise (fun first second => first.1 < second.1) ∧
      ∀ cell, cell ∈ listed ↔
        cell.1 ∈ durations ∧ cell.2.toNat = durations.count cell.1

/-- What is counted gives the exact quantiles. -/
theorem Counts.exact
    {histogram : LatencyHistogram size} {durations : List Nat}
    (counts : Counts histogram durations) : Exact histogram durations where
  quantile nonempty _ positive valid := counts.quantile nonempty positive valid
  monotone nonempty _ _ positive ordered valid :=
    counts.monotone nonempty positive ordered valid
  matched := counts.never_mismatched
  listing := ⟨_, histogram.frequencies_eq, histogram.reportable_increasing,
    counts.reportable⟩

/--
Whatever fewer than `2 ^ 64` durations are observed, quantiles are elements of
the sorted sequence by their exact rank, and the listing is complete.
-/
theorem latency_quantiles_exact
    (durations : List Nat) (fewer : durations.length < 2 ^ 64) :
    Exact (observed denseSize durations) durations ∧
      ∀ (count : UInt64) (permille : UInt32), permille ≤ 1000 →
        RankExact count permille :=
  ⟨(observed_counts fewer).exact, fun count _ => rank_exact count⟩

/-- Four durations, one of them beyond the dense cells. -/
theorem latency_quantiles_exact_sample :
    Exact (observed denseSize [500000, 100, 100001, 100])
        [500000, 100, 100001, 100] ∧
      ∀ (count : UInt64) (permille : UInt32), permille ≤ 1000 →
        RankExact count permille :=
  latency_quantiles_exact [500000, 100, 100001, 100] (by decide)

end LatencyHistogram
