import LimitOrderBook.FeedBytes
import LimitOrderBook.LittleEndian

namespace LimitOrderBook.Feed

/-!
# Fields inside a span

Inside its span a read is a plain function of the field's bytes: a number in
one of the two byte orders or a text without its padding.  Neither an access
outside the span nor one of the two errors about truncated fields is left.
-/

variable {b : Bytes} {pos size : Nat}

/-- The bytes of a field; fewer where the span ends before it. -/
def field (b : Bytes) (pos size : Nat) : Bytes :=
  (b.drop pos).take size

theorem length_field (inside : pos + size ≤ b.length) :
    (field b pos size).length = size := by
  rw [field, List.length_take, List.length_drop]
  lia

theorem byteAt_inside (inside : pos < b.length) :
    byteAt b pos = .ok b[pos] := by
  rw [byteAt, List.getElem?_eq_getElem inside]

/-- The bytes that a loop reads one after another. -/
theorem range_field (inside : pos + size ≤ b.length) :
    (List.range size).map (fun i => b[pos + i]?.getD 0) =
      field b pos size := by
  apply List.ext_getElem
  · simp [length_field inside]
  · intro i here there
    have small : pos + i < b.length := by
      simp at here
      lia
    simp [field, small]

theorem range_field_reverse (inside : pos + size ≤ b.length) :
    (List.range size).map (fun i => b[pos + (size - 1 - i)]?.getD 0) =
      (field b pos size).reverse := by
  rw [← range_field inside, ← List.map_reverse, List.range_eq_range',
    List.reverse_range', List.map_map]
  simp [Function.comp_def, List.range_eq_range']

/-- A loop that works on one byte of a span after another. -/
theorem foldlM_byteAt
    {σ : Type} (step : σ → UInt8 → Except Fault σ) (position : Nat → Nat)
    {indices : List Nat} (inside : ∀ i ∈ indices, position i < b.length)
    (state : σ) :
    indices.foldlM (fun state i => byteAt b (position i) >>= step state)
        state =
      (indices.map fun i => b[position i]?.getD 0).foldlM step state := by
  rw [List.foldlM_map]
  induction indices generalizing state with
  | nil => rfl
  | cons index rest inductionHypothesis =>
      have here := inside index (by simp)
      rw [List.foldlM_cons, List.foldlM_cons, byteAt_inside here,
        List.getElem?_eq_getElem here]
      cases stepped : step state b[position index] with
      | error fault => simp [stepped, Bind.bind, Except.bind]
      | ok next =>
          simp only [Option.getD_some, stepped, Bind.bind, Except.bind]
          exact inductionHypothesis
            (fun other member => inside other (by simp [member])) next

/-- A loop whose body cannot fail. -/
theorem foldlM_shift (digits : Bytes) (value : Nat) :
    digits.foldlM (m := Except Fault)
        (fun value byte => .ok (value * 256 + byte.toNat)) value =
      .ok (digits.foldl (fun value byte => value * 256 + byte.toNat)
        value) := by
  induction digits generalizing value with
  | nil => rfl
  | cons byte rest inductionHypothesis => exact inductionHypothesis _

theorem integer_little (small : size ≤ 8) (inside : pos + size ≤ b.length) :
    integer b pos size true = .ok (LittleEndian.number (field b pos size)) := by
  have guard : size ≤ 8 ∧ pos ≤ b.length ∧ size ≤ b.length - pos := by lia
  have bytesInside : ∀ i ∈ List.range size,
      pos + (size - 1 - i) < b.length := by
    intro i member
    rw [List.mem_range] at member
    lia
  rw [integer, require, decide_eq_true guard, ← LittleEndian.number_reverse,
    ← range_field_reverse inside]
  exact (foldlM_byteAt _ _ bytesInside 0).trans (foldlM_shift _ 0)

theorem integer_big (small : size ≤ 8) (inside : pos + size ≤ b.length) :
    integer b pos size false = .ok (BigEndian.number (field b pos size)) := by
  have guard : size ≤ 8 ∧ pos ≤ b.length ∧ size ≤ b.length - pos := by lia
  have bytesInside : ∀ i ∈ List.range size, pos + i < b.length := by
    intro i member
    rw [List.mem_range] at member
    lia
  rw [integer, require, decide_eq_true guard, ← range_field inside]
  exact (foldlM_byteAt _ _ bytesInside 0).trans (foldlM_shift _ 0)

/-- A byte of a symbol, once it has been read. -/
def symbolStep (result : Text) (byte : UInt8) : Except Fault Text := do
  require (32 ≤ byte ∧ byte ≤ 126) "Non-ASCII symbol"
  .ok (result ++ [byte])

/-- What `symbol` makes of the bytes of its field. -/
def symbolText (padded : Bytes) : Except Fault Text := do
  let text ← padded.foldlM symbolStep []
  let result := text.rdropWhile fun byte => decide (byte = 32)
  require (result ≠ [] ∧ result.head? ≠ some 32 ∧ 32 ∉ result)
    "Empty or malformed symbol"
  .ok result

theorem symbol_inside (inside : pos + size ≤ b.length) :
    symbol b pos size = symbolText (field b pos size) := by
  have guard : pos ≤ b.length ∧ size ≤ b.length - pos := by lia
  have bytesInside : ∀ i ∈ List.range size, pos + i < b.length := by
    intro i member
    rw [List.mem_range] at member
    lia
  have padded : (List.range size).foldlM (symbolByte b pos) [] =
      (field b pos size).foldlM symbolStep [] := by
    rw [← range_field inside]
    exact foldlM_byteAt symbolStep _ bytesInside []
  simp only [symbol, require, decide_eq_true guard, padded]
  rfl

/-- The loop passes printable text on and stops at anything else. -/
theorem foldlM_symbolStep
    (padded : Bytes) (start : Text)
    [decidable : Decidable (∀ byte ∈ padded, 32 ≤ byte ∧ byte ≤ 126)] :
    padded.foldlM symbolStep start =
      if ∀ byte ∈ padded, 32 ≤ byte ∧ byte ≤ 126 then
        .ok (start ++ padded)
      else
        .error (.thrown "Non-ASCII symbol") := by
  induction padded generalizing start decidable with
  | nil => simp [pure, Except.pure]
  | cons byte rest inductionHypothesis =>
      rw [List.foldlM_cons, symbolStep, require]
      by_cases printable : 32 ≤ byte ∧ byte ≤ 126
      · rw [decide_eq_true printable, if_pos rfl]
        refine (inductionHypothesis (start ++ [byte])).trans ?_
        simp [printable]
      · rw [decide_eq_false printable, if_neg Bool.false_ne_true,
          if_neg fun all => printable (all byte (by simp))]
        rfl

/-- Text that is read is the field's bytes without their padding. -/
theorem symbolText_ok
    {padded : Bytes} {name : Text} (read : symbolText padded = .ok name) :
    name = padded.rdropWhile (fun byte => decide (byte = 32)) ∧
      name ≠ [] := by
  obtain ⟨text, loop, read⟩ := Fallible.bind_ok read
  obtain ⟨_, wellFormed, same⟩ := Fallible.bind_ok read
  cases same
  rw [foldlM_symbolStep] at loop
  split_ifs at loop
  cases loop
  exact ⟨rfl, (of_decide_eq_true (require_safe.of_ok wellFormed)).1⟩

/-! ## The faults that are left -/

/-- The faults that say that a field ends outside its span. -/
def boundsFaults : List Fault :=
  [.outOfBounds, .thrown "Truncated integer", .thrown "Truncated symbol"]

/-- A fault that is about what the input says. -/
def Intended (fault : Fault) : Prop :=
  fault ∉ boundsFaults

instance (fault : Fault) : Decidable (Intended fault) :=
  inferInstanceAs (Decidable (¬ _))

/-- A computation that stays inside its spans, and answers only like this. -/
abbrev Cleanly {α : Type} (answered : α → Prop) (first : Except Fault α) :
    Prop :=
  Fallible.Ends Intended answered first

/-- A message with a number in it is neither of the errors about fields. -/
theorem intended_append
    {stem detail : String} {first : Char}
    (starts : stem.toList.head? = some first) (differs : first ≠ 'T') :
    Intended (.thrown (stem ++ detail)) := by
  have start : (stem ++ detail).toList.head? = some first := by
    rw [String.toList_append, List.head?_append, starts]
    rfl
  intro member
  simp only [boundsFaults, List.mem_cons, reduceCtorEq, Fault.thrown.injEq,
    List.not_mem_nil, or_false, false_or] at member
  rcases member with same | same
  · rw [same] at start
    exact differs (Option.some.inj start).symm
  · rw [same] at start
    exact differs (Option.some.inj start).symm

theorem throws_clean
    {α : Type} {answered : α → Prop} {what : String}
    (intended : Intended (.thrown what)) :
    Cleanly answered (.error (.thrown what)) :=
  intended

theorem require_clean
    {value : Bool} {message : String} (intended : Intended (.thrown message)) :
    Cleanly (fun _ => value = true) (require value message) := by
  cases value with
  | true => exact rfl
  | false => exact intended

theorem byteAt_clean (inside : pos < b.length) :
    Cleanly (fun byte => b[pos]? = some byte) (byteAt b pos) := by
  rw [byteAt_inside inside]
  exact List.getElem?_eq_getElem inside

theorem subspan_clean (inside : pos + size ≤ b.length) :
    Cleanly (fun m => m = (b.drop pos).take size) (subspan b pos size) := by
  rw [subspan, if_pos inside]
  exact rfl

theorem integer_clean
    (little : Bool) (small : size ≤ 8) (inside : pos + size ≤ b.length) :
    Cleanly (fun _ => True) (integer b pos size little) := by
  cases little with
  | true =>
      rw [integer_little small inside]
      trivial
  | false =>
      rw [integer_big small inside]
      trivial

theorem symbol_clean (inside : pos + size ≤ b.length) :
    Cleanly (fun _ => True) (symbol b pos size) := by
  rw [symbol_inside inside]
  have text : Cleanly (fun _ => True)
      ((field b pos size).foldlM symbolStep []) := by
    refine Fallible.Ends.foldlM (fun _ _ => True) trivial ?_
    intro passed byte result _ _
    exact (require_clean (by decide)).bind fun _ _ => trivial
  exact text.bind fun _ _ =>
    (require_clean (by decide)).bind fun _ _ => trivial

theorem side_clean (c : UInt8) : Cleanly (fun _ => True) (side c) :=
  (require_clean (by decide)).bind fun _ _ => trivial

/-- A clean computation is in particular a safe one. -/
theorem safely_of_cleanly
    {α : Type} {answered : α → Prop} {first : Except Fault α}
    (clean : Cleanly answered first) : Safely answered first := by
  cases first with
  | error fault =>
      rintro rfl
      exact clean (by decide)
  | ok value => exact clean

end LimitOrderBook.Feed
