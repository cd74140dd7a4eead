import LimitOrderBook.Fallible

/-!
# Short reads and writes

A call may move fewer bytes than were asked for.  These loops call again until
all bytes have been moved, and their rules say that it does not matter how the
bytes come in.  A transfer that moves as many bytes as a plan says meets what
the rules ask for.
-/

namespace ShortTransfers

variable {σ ε : Type}

/--
Read until so many bytes are there.  At the end of the source, what has been
read so far decides the result.  Every turn reads a byte or ends the loop, so
that as many turns as bytes are wanted are enough.
-/
def readLoop (read : σ → Nat → σ × List UInt8)
    (atEnd : List UInt8 → Except ε (Option (List UInt8))) (size : Nat) :
    Nat → σ → List UInt8 → Except ε (σ × Option (List UInt8))
  | 0, state, used => .ok (state, some used)
  | turns + 1, state, used =>
      if used.length < size then
        if (read state (size - used.length)).2 = [] then do
          let result ← atEnd used
          .ok ((read state (size - used.length)).1, result)
        else
          readLoop read atEnd size turns (read state (size - used.length)).1
            (used ++ (read state (size - used.length)).2)
      else
        .ok (state, some used)

/-- The whole loop. -/
def readFully (read : σ → Nat → σ × List UInt8)
    (atEnd : List UInt8 → Except ε (Option (List UInt8))) (state : σ)
    (size : Nat) : Except ε (σ × Option (List UInt8)) :=
  readLoop read atEnd size size state []

/-- A read call returns what comes next, and nothing only at the end. -/
structure Reads (read : σ → Nat → σ × List UInt8) (rest : σ → List UInt8) :
    Prop where
  next : ∀ state size,
    (read state size).2 ++ rest (read state size).1 = rest state
  short : ∀ state size, (read state size).2.length ≤ size
  progress : ∀ state size, 0 < size → (read state size).2 = [] →
    rest state = []

namespace Reads

variable {read : σ → Nat → σ × List UInt8} {rest : σ → List UInt8}
  {atEnd : List UInt8 → Except ε (Option (List UInt8))}
  {size turns : Nat} {state : σ} {used wanted more : List UInt8}

/-- A chunk of bytes that are wanted is the beginning of them. -/
theorem chunk
    (reads : Reads read rest) (size : Nat)
    (there : rest state = wanted ++ more) (enough : size ≤ wanted.length) :
    ∃ later, wanted = (read state size).2 ++ later ∧
      rest (read state size).1 = later ++ more := by
  have short := (reads.short state size).trans enough
  have split := (reads.next state size).trans there
  have start := congrArg (List.take (read state size).2.length) split
  have tail := congrArg (List.drop (read state size).2.length) split
  rw [List.take_left, List.take_append_of_le_length short] at start
  rw [List.drop_left, List.drop_append_of_le_length short] at tail
  refine ⟨wanted.drop (read state size).2.length, ?_, tail⟩
  calc wanted
      = wanted.take (read state size).2.length ++
          wanted.drop (read state size).2.length :=
        (List.take_append_drop _ _).symm
    _ = (read state size).2 ++
          wanted.drop (read state size).2.length := by rw [← start]

/-- Bytes that are there are read, however they come in. -/
theorem readLoop_append
    (reads : Reads read rest) (there : rest state = wanted ++ more)
    (wants : used.length + wanted.length = size)
    (enough : wanted.length ≤ turns) :
    ∃ next, readLoop read atEnd size turns state used =
        .ok (next, some (used ++ wanted)) ∧ rest next = more := by
  induction turns generalizing state used wanted with
  | zero =>
      have isNil : wanted = [] :=
        List.length_eq_zero_iff.mp (Nat.le_zero.mp enough)
      subst isNil
      exact ⟨state, by simp [readLoop], there⟩
  | succ turns inductionHypothesis =>
      unfold readLoop
      by_cases wanting : used.length < size
      · obtain ⟨later, shape, nextRest⟩ :=
          reads.chunk (size - used.length) there (by omega)
        have chunkSome : (read state (size - used.length)).2 ≠ [] := by
          intro isNil
          have atEnd := reads.progress _ _ (by omega) isNil
          rw [there] at atEnd
          have isNil := (List.append_eq_nil_iff.mp atEnd).1
          rw [isNil, List.length_nil] at wants
          omega
        have chunkPos := List.length_pos_iff.mpr chunkSome
        have lengths := congrArg List.length shape
        rw [List.length_append] at lengths
        obtain ⟨final, isRead, finalRest⟩ :=
          @inductionHypothesis _
            (used ++ (read state (size - used.length)).2) _ nextRest
            (by rw [List.length_append]; omega) (by omega)
        refine ⟨final, ?_, finalRest⟩
        rw [if_pos wanting, if_neg chunkSome, isRead]
        rw [List.append_assoc, ← shape]
      · have isNil : wanted = [] :=
          List.length_eq_zero_iff.mp (by omega)
        subst isNil
        exact ⟨state, by simp [wanting], there⟩

/-- With too few bytes left, the end of the source decides. -/
theorem readLoop_short
    (reads : Reads read rest)
    (wants : used.length + (rest state).length < size)
    (enough : (rest state).length < turns) :
    ∃ next, readLoop read atEnd size turns state used =
        (atEnd (used ++ rest state)).map (fun result => (next, result)) ∧
      rest next = [] := by
  induction turns generalizing state used with
  | zero => exact absurd enough (Nat.not_lt_zero _)
  | succ turns inductionHypothesis =>
      unfold readLoop
      rw [if_pos (by omega)]
      have split := reads.next state (size - used.length)
      by_cases chunkNone : (read state (size - used.length)).2 = []
      · have isNil := reads.progress _ _ (by omega) chunkNone
        refine ⟨(read state (size - used.length)).1, ?_, ?_⟩
        · rw [if_pos chunkNone, isNil, List.append_nil]
          cases atEnd used with
          | error fault => rfl
          | ok result => rfl
        · rw [chunkNone, isNil] at split
          exact split
      · have chunkPos := List.length_pos_iff.mpr chunkNone
        have lengths := congrArg List.length split
        rw [List.length_append] at lengths
        obtain ⟨final, isRead, finalRest⟩ :=
          @inductionHypothesis (read state (size - used.length)).1
            (used ++ (read state (size - used.length)).2)
            (by rw [List.length_append]; omega) (by omega)
        refine ⟨final, ?_, finalRest⟩
        rw [if_neg chunkNone, isRead, List.append_assoc, split]

/-- What a read returns is what it takes off the source. -/
theorem readLoop_shorter
    (reads : Reads read rest) {next : σ} {got : List UInt8}
    (never : ∀ used, atEnd used ≠ .ok (some got))
    (isRead : readLoop read atEnd size turns state used =
      .ok (next, some got)) :
    got.length + (rest next).length = used.length + (rest state).length ∧
      min size (used.length + turns) ≤ got.length := by
  induction turns generalizing state used with
  | zero =>
      cases isRead
      exact ⟨rfl, by omega⟩
  | succ turns inductionHypothesis =>
      have split := congrArg List.length
        (reads.next state (size - used.length))
      rw [List.length_append] at split
      unfold readLoop at isRead
      split_ifs at isRead with wanting chunkNone
      · obtain ⟨result, ended, same⟩ := Fallible.bind_ok isRead
        cases same
        exact absurd ended (never used)
      · have chunkPos := List.length_pos_iff.mpr chunkNone
        obtain ⟨lengths, enough⟩ := inductionHypothesis isRead
        rw [List.length_append] at lengths enough
        omega
      · cases isRead
        exact ⟨rfl, by omega⟩

theorem readFully_append
    (reads : Reads read rest) (there : rest state = wanted ++ more)
    (wants : wanted.length = size) :
    ∃ next, readFully read atEnd state size = .ok (next, some wanted) ∧
      rest next = more :=
  reads.readLoop_append there ((Nat.zero_add _).trans wants) wants.le

theorem readFully_short
    (reads : Reads read rest) (few : (rest state).length < size) :
    ∃ next, readFully read atEnd state size =
        (atEnd (rest state)).map (fun result => (next, result)) ∧
      rest next = [] :=
  reads.readLoop_short ((Nat.zero_add _).trans_lt few) few

theorem readFully_shorter
    (reads : Reads read rest) {next : σ} {got : List UInt8}
    (never : ∀ used, atEnd used ≠ .ok (some got))
    (isRead : readFully read atEnd state size = .ok (next, some got)) :
    (rest next).length + size ≤ (rest state).length := by
  obtain ⟨lengths, enough⟩ := reads.readLoop_shorter never isRead
  rw [List.length_nil] at lengths enough
  omega

end Reads

/-- What no read call changes, the loop does not change. -/
theorem readLoop_unchanged
    {κ : Type} {read : σ → Nat → σ × List UInt8}
    {atEnd : List UInt8 → Except ε (Option (List UInt8))} (part : σ → κ)
    (unchanged : ∀ state size, part (read state size).1 = part state)
    {size turns : Nat} {state next : σ} {used : List UInt8}
    {result : Option (List UInt8)}
    (isRead : readLoop read atEnd size turns state used =
      .ok (next, result)) :
    part next = part state := by
  induction turns generalizing state used with
  | zero =>
      cases isRead
      rfl
  | succ turns inductionHypothesis =>
      unfold readLoop at isRead
      split_ifs at isRead
      · obtain ⟨_, _, same⟩ := Fallible.bind_ok isRead
        cases same
        exact unchanged state _
      · exact (inductionHypothesis isRead).trans (unchanged state _)
      · cases isRead
        rfl

/--
Write until no bytes are left.  Every turn writes a byte or ends the loop, so
that as many turns as there are bytes are enough.
-/
def writeLoop (write : σ → List UInt8 → σ × Nat) (stalled : ε) :
    Nat → σ → List UInt8 → Except ε σ
  | 0, state, _ => .ok state
  | turns + 1, state, data =>
      if data = [] then
        .ok state
      else if (write state data).2 = 0 then
        .error stalled
      else
        writeLoop write stalled turns (write state data).1
          (data.drop (write state data).2)

/-- A write call adds some of the bytes it is given, at least one. -/
structure Writes (write : σ → List UInt8 → σ × Nat) (ready : σ → Prop)
    (written : σ → List UInt8) : Prop where
  stays : ∀ state data, ready state → ready (write state data).1
  adds : ∀ state data, ready state →
    written (write state data).1 =
      written state ++ data.take (write state data).2
  progress : ∀ state data, data ≠ [] → 0 < (write state data).2

/-- All bytes are written, however many go in each call. -/
theorem Writes.writeLoop_append
    {write : σ → List UInt8 → σ × Nat} {ready : σ → Prop}
    {written : σ → List UInt8} (writes : Writes write ready written)
    {stalled : ε} {turns : Nat} {state : σ} {data : List UInt8}
    (isReady : ready state) (enough : data.length ≤ turns) :
    ∃ next, writeLoop write stalled turns state data = .ok next ∧
      ready next ∧ written next = written state ++ data := by
  induction turns generalizing state data with
  | zero =>
      have isNil : data = [] :=
        List.length_eq_zero_iff.mp (Nat.le_zero.mp enough)
      exact ⟨state, rfl, isReady, by rw [isNil, List.append_nil]⟩
  | succ turns inductionHypothesis =>
      unfold writeLoop
      by_cases isNil : data = []
      · exact ⟨state, if_pos isNil, isReady, by rw [isNil, List.append_nil]⟩
      · have moved := writes.progress state data isNil
        obtain ⟨final, isWritten, finalReady, finalWritten⟩ :=
          @inductionHypothesis _ (data.drop (write state data).2)
            (writes.stays state data isReady)
            (by rw [List.length_drop]; omega)
        refine ⟨final, ?_, finalReady, ?_⟩
        · rw [if_neg isNil, if_neg (by omega), isWritten]
        · rw [finalWritten, writes.adds state data isReady,
            List.append_assoc, List.take_append_drop]

/-! ## Planned transfers -/

/-- Bytes around an offset; each call moves as many as are planned for it. -/
structure Planned where
  before : List UInt8 := []
  rest : List UInt8
  plan : Nat → Nat
  calls : Nat := 0

namespace Planned

def read (source : Planned) (size : Nat) : Planned × List UInt8 :=
  let count := min (source.plan source.calls + 1) (min size source.rest.length)
  ({ source with
      before := source.before ++ source.rest.take count
      rest := source.rest.drop count
      calls := source.calls + 1 },
    source.rest.take count)

/-- Bytes that are written replace those behind the offset. -/
def write (target : Planned) (data : List UInt8) : Planned × Nat :=
  let count := min (target.plan target.calls + 1) data.length
  ({ target with
      before := target.before ++ data.take count
      rest := target.rest.drop count
      calls := target.calls + 1 },
    count)

/-- Every plan lets a call read something. -/
theorem reads : Reads read rest where
  next source size := List.take_append_drop _ _
  short source size := by
    have bound : (source.read size).2.length ≤ min size source.rest.length :=
      (List.length_take_le _ _).trans (min_le_right _ _)
    exact bound.trans (min_le_left _ _)
  progress source size wanted isNil := by
    rcases List.take_eq_nil_iff.mp isNil with noneRead | isNil
    · have empty : source.rest.length = 0 := by omega
      exact List.length_eq_zero_iff.mp empty
    · exact isNil

theorem keeps (source : Planned) (size : Nat) :
    (source.read size).1.before ++ (source.read size).1.rest =
      source.before ++ source.rest := by
  simp [read, List.append_assoc]

/-- Every plan lets a call write something. -/
theorem writes : Writes write (fun target => target.rest = []) before where
  stays target data atEnd := by simp [write, atEnd]
  adds target data atEnd := rfl
  progress target data nonempty := by
    have someLeft := List.length_pos_iff.mpr nonempty
    exact lt_min (Nat.succ_pos _) someLeft

end Planned

end ShortTransfers
