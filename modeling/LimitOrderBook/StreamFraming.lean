import Mathlib.Algebra.Order.Group.Nat

namespace LimitOrderBook.Net

/-!
# Frames over a stream

The model of `net/poll_io.hpp`.  Frames of a fixed size go out through `flush`
and come in through `read_frame`.  Both keep their place between calls in
variables of the caller, since a call of the operating system may move a part
of a frame only, and may move nothing at all.
-/

/-- What a call to `send` or `recv` does; a transfer moves a byte or more. -/
inductive Answer where
  | moved (extra : Nat)
  | interrupted
  | again
  | failed
  deriving DecidableEq

/-! ## Sending -/

/-- The frames of a caller of `flush`, and the bytes that went out. -/
structure Outgoing (N : Nat) where
  frames : List (Vector UInt8 N) := []
  sent : Nat := 0
  wire : List UInt8 := []

/-- How a call to `flush` is left; one that waits for an answer is running. -/
inductive Flush where
  | running
  | returned
  | threw (what : String)
  deriving DecidableEq

namespace Outgoing

variable {N : Nat}

/-- A call to `send` with the rest of a frame. -/
def send (state : Outgoing N) (frame : Vector UInt8 N) (extra : Nat) :
    List UInt8 :=
  (frame.toList.drop state.sent).take (extra + 1)

/-- The bookkeeping after a transfer. -/
def advance (state : Outgoing N) (later : List (Vector UInt8 N))
    (chunk : List UInt8) : Outgoing N :=
  if state.sent + chunk.length = N then
    { frames := later, sent := 0, wire := state.wire ++ chunk }
  else
    { state with
      sent := state.sent + chunk.length
      wire := state.wire ++ chunk }

/-- The loop of `flush`, on the answers that `send` gives during the call. -/
def flushLoop : List Answer → Nat → Outgoing N → Outgoing N × Flush
  | answers, budget, state =>
      match state.frames with
      | [] => (state, .returned)
      | frame :: later =>
          if 64 ≤ budget then
            (state, .returned)
          else
            match answers with
            | [] => (state, .running)
            | .interrupted :: rest =>
                -- The budget is unsigned: below zero and back again.
                flushLoop rest (((budget + (2 ^ 32 - 1)) % 2 ^ 32 + 1) %
                  2 ^ 32) state
            | .again :: _ => (state, .returned)
            | .failed :: _ => (state, .threw "send trading frame")
            | .moved extra :: rest =>
                if state.send frame extra = [] then
                  (state, .threw "Trading send made no progress")
                else
                  flushLoop rest ((budget + 1) % 2 ^ 32)
                    (state.advance later (state.send frame extra))

/-- `flush`. -/
def flush (state : Outgoing N) (answers : List Answer) : Outgoing N × Flush :=
  flushLoop answers 0 state

/-- What a caller does: append a frame, or flush. -/
inductive Operation (N : Nat) where
  | append (frame : Vector UInt8 N)
  | flush (answers : List Answer)

def perform (state : Outgoing N) : Operation N → Outgoing N
  | .append frame => { state with frames := state.frames ++ [frame] }
  | .flush answers => (state.flush answers).1

def run (operations : List (Operation N)) : Outgoing N :=
  operations.foldl perform {}

end Outgoing

/-- The bytes of some frames. -/
def bytesOf {N : Nat} (frames : List (Vector UInt8 N)) : List UInt8 :=
  frames.flatMap Vector.toList

/-- The frames that were ever appended. -/
def appended {N : Nat} : List (Outgoing.Operation N) → List (Vector UInt8 N)
  | [] => []
  | .append frame :: later => frame :: appended later
  | .flush _ :: later => appended later

/--
The place that the variables of `flush` mark: what went out and what is left
make up the frames of the queue.
-/
structure Outgoing.Marks {N : Nat} (queued popped : List (Vector UInt8 N))
    (state : Outgoing N) : Prop where
  queue : popped ++ state.frames = queued
  whole : state.wire ++ (bytesOf state.frames).drop state.sent =
    bytesOf queued
  place : state.wire.length = N * popped.length + state.sent
  inside : state.sent < N ∨ state.sent = 0
  empty : state.frames = [] → state.sent = 0

namespace Outgoing

variable {N : Nat} {queued popped : List (Vector UInt8 N)}
  {state : Outgoing N} {frame : Vector UInt8 N}
  {later : List (Vector UInt8 N)}

/-- What is left of the first frame comes before the other frames. -/
theorem Marks.left
    (marks : Marks queued popped state) (shape : state.frames = frame :: later) :
    (bytesOf state.frames).drop state.sent =
      frame.toList.drop state.sent ++ bytesOf later := by
  have inside : state.sent ≤ frame.toList.length := by
    rw [Vector.length_toList]
    rcases marks.inside with small | isZero <;> lia
  rw [shape, bytesOf, List.flatMap_cons,
    List.drop_append_of_le_length inside]
  rfl

/-- One transfer. -/
theorem Marks.advance
    (marks : Marks queued popped state) (shape : state.frames = frame :: later)
    {extra : Nat} (moved : state.send frame extra ≠ []) :
    ∃ popped, Marks queued popped
      (state.advance later (state.send frame extra)) := by
  have frameLength : frame.toList.length = N := Vector.length_toList ..
  have movedPos := List.length_pos_iff.mpr moved
  have sendSplit : state.send frame extra ++
      (frame.toList.drop state.sent).drop (extra + 1) =
        frame.toList.drop state.sent := List.take_append_drop _ _
  have sendLength : (state.send frame extra).length =
      min (extra + 1) (N - state.sent) := by
    rw [send, List.length_take, List.length_drop, frameLength]
  have conserved : state.wire ++ state.send frame extra ++
      ((frame.toList.drop state.sent).drop (extra + 1) ++ bytesOf later) =
        bytesOf queued := by
    rw [← marks.whole, marks.left shape]
    conv_rhs => rw [← sendSplit]
    simp only [List.append_assoc]
  unfold Outgoing.advance
  split_ifs with complete
  · refine ⟨popped ++ [frame], ?_, ?_, ?_, Or.inr rfl, fun _ => rfl⟩
    · rw [← marks.queue, shape, List.append_assoc, List.singleton_append]
    · have nothing :
          (frame.toList.drop state.sent).drop (extra + 1) = [] := by
        rw [List.drop_drop, List.drop_eq_nil_iff, frameLength]
        lia
      rw [nothing, List.nil_append] at conserved
      exact conserved
    · dsimp only
      rw [List.length_append, List.length_append, marks.place,
        List.length_singleton, Nat.mul_add, Nat.mul_one]
      lia
  · have more : state.sent + (state.send frame extra).length < N := by lia
    refine ⟨popped, marks.queue, ?_, ?_, Or.inl more, ?_⟩
    · have behind :
          (bytesOf state.frames).drop
              (state.sent + (state.send frame extra).length) =
            (frame.toList.drop state.sent).drop (extra + 1) ++
              bytesOf later := by
        rw [← List.drop_drop, marks.left shape]
        conv_lhs => rw [← sendSplit]
        rw [List.append_assoc, List.drop_left]
      dsimp only
      rw [behind]
      exact conserved
    · dsimp only
      rw [List.length_append, marks.place]
      lia
    · intro isNil
      rw [shape] at isNil
      cases isNil

theorem Marks.flushLoop
    (marks : Marks queued popped state) (answers : List Answer)
    (budget : Nat) :
    ∃ popped, Marks queued popped (flushLoop answers budget state).1 := by
  induction answers generalizing popped state budget with
  | nil =>
      unfold Outgoing.flushLoop
      split
      · exact ⟨popped, marks⟩
      · split_ifs
        · exact ⟨popped, marks⟩
        · exact ⟨popped, marks⟩
  | cons answer rest inductionHypothesis =>
      unfold Outgoing.flushLoop
      split
      · exact ⟨popped, marks⟩
      · next frame later shape =>
        split_ifs
        · exact ⟨popped, marks⟩
        · cases answer with
          | interrupted => exact inductionHypothesis marks _
          | again => exact ⟨popped, marks⟩
          | failed => exact ⟨popped, marks⟩
          | moved extra =>
              dsimp only
              split_ifs with stalled
              · exact ⟨popped, marks⟩
              · obtain ⟨next, nextMarks⟩ := marks.advance shape stalled
                exact inductionHypothesis nextMarks _

/-- One operation of the caller. -/
theorem Marks.perform
    (marks : Marks queued popped state) (operation : Operation N) :
    ∃ next, Marks (queued ++ appended [operation]) next
      (state.perform operation) := by
  cases operation with
  | append frame =>
      have inside : state.sent ≤ (bytesOf state.frames).length := by
        cases shape : state.frames with
        | nil => simp [marks.empty shape]
        | cons first later =>
            have firstLength : first.toList.length = N :=
              Vector.length_toList ..
            rw [bytesOf, List.flatMap_cons, List.length_append, firstLength]
            rcases marks.inside with small | isZero <;> lia
      have split : bytesOf (state.frames ++ [frame]) =
          bytesOf state.frames ++ bytesOf [frame] := List.flatMap_append ..
      have queuedSplit : bytesOf (queued ++ [frame]) =
          bytesOf queued ++ bytesOf [frame] := List.flatMap_append ..
      refine ⟨popped, ?_, ?_, marks.place, marks.inside, ?_⟩
      · rw [← marks.queue, List.append_assoc]
        rfl
      · change state.wire ++ (bytesOf (state.frames ++ [frame])).drop
          state.sent = bytesOf (queued ++ [frame])
        rw [split, queuedSplit, List.drop_append_of_le_length inside,
          ← List.append_assoc, marks.whole]
      · intro isNil
        exact absurd isNil (List.append_ne_nil_of_right_ne_nil _
          (List.cons_ne_nil _ _))
  | flush answers =>
      have same : queued ++ appended [.flush answers] = queued :=
        List.append_nil _
      rw [same]
      exact marks.flushLoop answers 0

/-- The bytes that were sent are those of the queue up to the marked place. -/
theorem Marks.wire_eq
    (marks : Marks queued popped state) :
    state.wire = (bytesOf queued).take (N * popped.length + state.sent) := by
  rw [← marks.whole, ← marks.place, List.take_left]

theorem marks_foldl
    (marks : Marks queued popped state) (operations : List (Operation N)) :
    ∃ last, Marks (queued ++ appended operations) last
      (operations.foldl Outgoing.perform state) := by
  induction operations generalizing queued popped state with
  | nil => exact ⟨popped, by rw [appended, List.append_nil]; exact marks⟩
  | cons operation later inductionHypothesis =>
      obtain ⟨next, nextMarks⟩ := marks.perform operation
      obtain ⟨last, lastMarks⟩ := inductionHypothesis nextMarks
      have split : appended (operation :: later) =
          appended [operation] ++ appended later := by
        cases operation <;> rfl
      refine ⟨last, ?_⟩
      rw [split, ← List.append_assoc]
      exact lastMarks

end Outgoing

/-! ## Receiving -/

/-- The variables of a caller of `read_frame`, and what is left of the stream. -/
structure Incoming (N : Nat) where
  frame : Vector UInt8 N
  used : Nat := 0
  rest : List UInt8

/-- How a call to `read_frame` is left, with the frame that was completed. -/
inductive Read (N : Nat) where
  | running
  | again
  | frame (block : Vector UInt8 N)
  | eof
  | threw (what : String)
  deriving DecidableEq

namespace Incoming

variable {N : Nat}

/-- A call to `recv` for the rest of a frame; nothing at the end only. -/
def recv (state : Incoming N) (extra : Nat) : List UInt8 :=
  state.rest.take (min (extra + 1) (N - state.used))

/-- The bytes that were received are stored behind those of the frame. -/
def store (state : Incoming N) (chunk : List UInt8) : Incoming N where
  frame := Vector.ofFn fun i =>
    if state.used ≤ i then
      chunk.getD (i - state.used) (state.frame.get i)
    else
      state.frame.get i
  used := state.used + chunk.length
  rest := state.rest.drop chunk.length

/-- `read_frame`, on the answers that `recv` gives during the call. -/
def readFrame : List Answer → Incoming N → Incoming N × Read N
  | answers, state =>
      if state.used < N then
        match answers with
        | [] => (state, .running)
        | .interrupted :: later => readFrame later state
        | .again :: _ => (state, .again)
        | .failed :: _ => (state, .threw "recv trading frame")
        | .moved extra :: later =>
            if state.recv extra = [] then
              if state.used ≠ 0 then
                (state, .threw "Peer disconnected inside trading frame")
              else
                (state, .eof)
            else
              readFrame later (state.store (state.recv extra))
      else
        ({ state with used := 0 }, .frame state.frame)

/-- Calls one after the other, and how they are left. -/
def readCalls (state : Incoming N) :
    List (List Answer) → Incoming N × List (Read N)
  | [] => (state, [])
  | answers :: later =>
      let (next, result) := readFrame answers state
      let (last, results) := readCalls next later
      (last, result :: results)

end Incoming

/-- The frames among the results of some calls. -/
def blocksOf {N : Nat} (results : List (Read N)) : List (Vector UInt8 N) :=
  results.filterMap fun result =>
    match result with
    | .frame block => some block
    | _ => none

theorem length_bytesOf {N : Nat} (frames : List (Vector UInt8 N)) :
    (bytesOf frames).length = N * frames.length := by
  induction frames with
  | nil => rfl
  | cons frame later inductionHypothesis =>
      have split : bytesOf (frame :: later) =
          frame.toList ++ bytesOf later := rfl
      rw [split, List.length_append, inductionHypothesis,
        Vector.length_toList, List.length_cons, Nat.mul_add, Nat.mul_one,
        Nat.add_comm]

theorem bytesOf_blocksOf_cons
    {N : Nat} (result : Read N) (later : List (Read N)) :
    bytesOf (blocksOf (result :: later)) =
      bytesOf (blocksOf [result]) ++ bytesOf (blocksOf later) := by
  have split : blocksOf (result :: later) =
      blocksOf [result] ++ blocksOf later := by
    cases result <;> rfl
  rw [split]
  exact List.flatMap_append ..

/-- A call that `recv` does not turn away, with so many transfers. -/
structure Eager (answers : List Answer) (transfers : Nat) : Prop where
  willing : ∀ answer ∈ answers, answer ≠ .again ∧ answer ≠ .failed
  enough : transfers ≤ answers.countP fun answer =>
    decide (answer ≠ .interrupted)

namespace Incoming

variable {N : Nat} {state : Incoming N}

/-- The part of the stream that has not been returned in frames. -/
def pending (state : Incoming N) : List UInt8 :=
  state.frame.toList.take state.used ++ state.rest

theorem length_pending (inside : state.used ≤ N) :
    state.pending.length = state.used + state.rest.length := by
  simp [pending, inside]

theorem recv_length (state : Incoming N) (extra : Nat) :
    state.used + (state.recv extra).length ≤ max N state.used := by
  rw [recv, List.length_take]
  lia

theorem recv_nil (inside : state.used < N) (extra : Nat) :
    state.recv extra = [] ↔ state.rest = [] := by
  rw [recv, List.take_eq_nil_iff]
  constructor
  · rintro (isZero | isNil)
    · lia
    · exact isNil
  · exact Or.inr

/-- What is stored is no longer in the stream. -/
theorem pending_store
    (inside : state.used < N) (extra : Nat) :
    (state.store (state.recv extra)).pending = state.pending := by
  have short := state.recv_length extra
  have fits : state.used + (state.recv extra).length ≤ N := by lia
  have stored : (state.store (state.recv extra)).frame.toList.take
      (state.used + (state.recv extra).length) =
        state.frame.toList.take state.used ++ state.recv extra := by
    apply List.ext_getElem
    · simp [inside.le, fits]
    · intro i small _
      simp only [List.length_take, Vector.length_toList] at small
      by_cases before : i < state.used
      · simp [store, before, inside.le, Vector.get]
      · have later : i - state.used < (state.recv extra).length := by lia
        simp [store, inside.le, later, Nat.le_of_not_lt before]
  have restSplit : state.recv extra ++
      state.rest.drop (state.recv extra).length = state.rest :=
    List.prefix_iff_eq_append.mp (List.take_prefix ..)
  unfold pending
  rw [show (state.store (state.recv extra)).used =
    state.used + (state.recv extra).length from rfl, stored,
    List.append_assoc]
  conv_rhs => rw [← restSplit]
  rfl

/-- A call, in terms of what had not been returned before it. -/
structure Delivers (state : Incoming N) (outcome : Incoming N × Read N) :
    Prop where
  inside : outcome.1.used < N
  split : state.pending = bytesOf (blocksOf [outcome.2]) ++ outcome.1.pending
  ended : outcome.2 = .eof → outcome.1.pending.length = 0
  torn : outcome.2 = .threw "Peer disconnected inside trading frame" →
    0 < outcome.1.pending.length ∧ outcome.1.pending.length < N

theorem readFrame_whole
    (answers : List Answer) (whole : ¬ state.used < N) :
    readFrame answers state = ({ state with used := 0 }, .frame state.frame) := by
  unfold readFrame
  rw [if_neg whole]

theorem delivers_whole
    (positive : 0 < N) (inside : state.used ≤ N) (whole : ¬ state.used < N) :
    Delivers state ({ state with used := 0 }, .frame state.frame) where
  inside := positive
  split := by
    have used : state.used = N := by lia
    have all : state.frame.toList.take N = state.frame.toList :=
      List.take_of_length_le (Vector.length_toList ..).le
    simp [pending, used, bytesOf, blocksOf, all]
  ended isEof := by cases isEof
  torn isTorn := by cases isTorn

/-- A call that returns nothing and stores nothing. -/
theorem delivers_idle
    (inside : state.used < N) {result : Read N}
    (isIdle : result = .running ∨ result = .again ∨
      result = .threw "recv trading frame") :
    Delivers state (state, result) := by
  rcases isIdle with rfl | rfl | rfl
  all_goals
    refine ⟨inside, rfl, ?_, ?_⟩
    · intro isEof
      cases isEof
    · intro isTorn
      simp at isTorn

/-- A call that has found the end of the stream. -/
theorem delivers_end
    (inside : state.used < N) (atEnd : state.rest = []) :
    Delivers state (state, if state.used ≠ 0 then
      .threw "Peer disconnected inside trading frame" else .eof) := by
  have length := length_pending inside.le
  rw [atEnd, List.length_nil] at length
  split_ifs with some_used
  · refine ⟨inside, rfl, ?_, fun _ => by lia⟩
    intro isEof
    cases isEof
  · refine ⟨inside, rfl, fun _ => by lia, ?_⟩
    intro isTorn
    cases isTorn

theorem store_used
    (inside : state.used < N) (extra : Nat) :
    (state.store (state.recv extra)).used ≤ N := by
  have short := state.recv_length extra
  change state.used + (state.recv extra).length ≤ N
  lia

theorem readFrame_delivers
    (positive : 0 < N) (answers : List Answer) (inside : state.used ≤ N) :
    Delivers state (readFrame answers state) := by
  induction answers generalizing state with
  | nil =>
      by_cases more : state.used < N
      · have same : readFrame [] state = (state, .running) := if_pos more
        rw [same]
        exact delivers_idle more (Or.inl rfl)
      · rw [readFrame_whole [] more]
        exact delivers_whole positive inside more
  | cons answer later inductionHypothesis =>
      by_cases more : state.used < N
      · unfold readFrame
        rw [if_pos more]
        cases answer with
        | interrupted => exact inductionHypothesis inside
        | again => exact delivers_idle more (Or.inr (Or.inl rfl))
        | failed => exact delivers_idle more (Or.inr (Or.inr rfl))
        | moved extra =>
            dsimp only
            by_cases atEnd : state.recv extra = []
            · have found := delivers_end more ((recv_nil more extra).mp atEnd)
              rw [if_pos atEnd]
              split_ifs at found ⊢
              · exact found
              · exact found
            · rw [if_neg atEnd]
              have stored := inductionHypothesis (store_used more extra)
              exact ⟨stored.inside, (pending_store more extra).symm.trans
                stored.split, stored.ended, stored.torn⟩
      · rw [readFrame_whole _ more]
        exact delivers_whole positive inside more

/-- What a call returns that is not turned away. -/
structure Decided (state : Incoming N) (result : Read N) : Prop where
  whole : N ≤ state.pending.length → ∃ block, result = .frame block
  ended : 0 < N → state.pending.length = 0 → result = .eof
  torn : 0 < state.pending.length → state.pending.length < N →
    result = .threw "Peer disconnected inside trading frame"

theorem decided_whole
    (inside : state.used ≤ N) (isWhole : ¬ state.used < N)
    (answers : List Answer) :
    Decided state (readFrame answers state).2 := by
  have length := length_pending inside
  rw [readFrame_whole _ isWhole]
  exact ⟨fun _ => ⟨state.frame, rfl⟩, fun _ _ => by lia, fun _ _ => by lia⟩

/-- With enough transfers, a call returns as soon as it can. -/
theorem readFrame_eager
    {answers : List Answer} (inside : state.used ≤ N)
    (eager : Eager answers (N - state.used)) :
    Decided state (readFrame answers state).2 := by
  induction answers generalizing state with
  | nil =>
      have none_wanted : N - state.used ≤ 0 := eager.enough
      exact decided_whole inside (by lia) []
  | cons answer later inductionHypothesis =>
      by_cases more : state.used < N
      · have laterWilling : ∀ other ∈ later,
            other ≠ .again ∧ other ≠ .failed :=
          fun other member => eager.willing other (by simp [member])
        have willing := eager.willing answer (by simp)
        have enough := eager.enough
        unfold readFrame
        rw [if_pos more]
        cases answer with
        | interrupted =>
            exact inductionHypothesis inside ⟨laterWilling, by
              simpa using enough⟩
        | again => exact absurd rfl willing.1
        | failed => exact absurd rfl willing.2
        | moved extra =>
            rw [List.countP_cons_of_pos (by simp)] at enough
            have length := length_pending inside
            dsimp only
            by_cases atEnd : state.recv extra = []
            · have isEnd := (recv_nil more extra).mp atEnd
              rw [isEnd, List.length_nil] at length
              rw [if_pos atEnd]
              split_ifs with some_used
              · exact ⟨fun _ => by lia, fun _ _ => by lia, fun _ _ => rfl⟩
              · exact ⟨fun _ => by lia, fun _ _ => rfl, fun _ _ => by lia⟩
            · rw [if_neg atEnd]
              have moved := List.length_pos_iff.mpr atEnd
              have used : (state.store (state.recv extra)).used =
                state.used + (state.recv extra).length := rfl
              obtain ⟨whole, ended, torn⟩ := inductionHypothesis
                (store_used more extra) ⟨laterWilling, by lia⟩
              rw [pending_store more] at whole ended torn
              exact ⟨whole, ended, torn⟩
      · exact decided_whole inside more _

/-- Calls one after the other. -/
theorem readCalls_delivers
    (positive : 0 < N) (calls : List (List Answer))
    (inside : state.used < N) :
    let last := (readCalls state calls).1
    let results := (readCalls state calls).2
    last.used < N ∧
      state.pending = bytesOf (blocksOf results) ++ last.pending ∧
      (.eof ∈ results → last.pending.length = 0) ∧
      (.threw "Peer disconnected inside trading frame" ∈ results →
        0 < last.pending.length ∧ last.pending.length < N) := by
  induction calls generalizing state with
  | nil =>
      exact ⟨inside, rfl, fun member => absurd member List.not_mem_nil,
        fun member => absurd member List.not_mem_nil⟩
  | cons answers later inductionHypothesis =>
      have first := readFrame_delivers positive answers inside.le
      obtain ⟨lastInside, split, ended, torn⟩ :=
        inductionHypothesis first.inside
      have lengths := congrArg List.length split
      rw [List.length_append, length_bytesOf] at lengths
      refine ⟨lastInside, ?_, ?_, ?_⟩
      · dsimp only [readCalls]
        rw [bytesOf_blocksOf_cons, List.append_assoc, ← split]
        exact first.split
      · intro member
        rcases List.mem_cons.mp member with isEof | isLater
        · have atEnd := first.ended isEof.symm
          dsimp only [readCalls]
          lia
        · exact ended isLater
      · intro member
        rcases List.mem_cons.mp member with isTorn | isLater
        · obtain ⟨some_left, few⟩ := first.torn isTorn.symm
          have noBlocks : (blocksOf (readCalls (readFrame answers state).1
              later).2).length = 0 := by
            by_contra some_blocks
            have big : N * 1 ≤ N * (blocksOf (readCalls
                (readFrame answers state).1 later).2).length :=
              Nat.mul_le_mul_left N (Nat.pos_of_ne_zero some_blocks)
            lia
          rw [noBlocks, Nat.mul_zero, Nat.zero_add] at lengths
          dsimp only [readCalls]
          rw [← lengths]
          exact ⟨some_left, few⟩
        · exact torn isLater

end Incoming

/-! ## Both directions -/

/--
Sending: what went out is the beginning of the queued frames up to the place
that the popped frames and the offset mark.  Receiving: the calls return the
consecutive frames of the stream; once one of them has found the end, it was
on a frame's boundary exactly if that call returned `eof`, and inside a frame
exactly if it threw; and a call that is not turned away returns one of the
three.
-/
theorem stream_framing (N : Nat) :
    (∀ operations : List (Outgoing.Operation N),
      let state := Outgoing.run operations
      ∃ popped, popped ++ state.frames = appended operations ∧
        state.wire = (bytesOf (appended operations)).take
          (N * popped.length + state.sent) ∧
        state.wire.length = N * popped.length + state.sent ∧
        (state.sent < N ∨ state.sent = 0) ∧
        (state.frames = [] → state.sent = 0)) ∧
    (0 < N → ∀ (stream : List UInt8) (buffer : Vector UInt8 N)
        (calls : List (List Answer)),
      let last := (Incoming.readCalls ⟨buffer, 0, stream⟩ calls).1
      let results := (Incoming.readCalls ⟨buffer, 0, stream⟩ calls).2
      stream = bytesOf (blocksOf results) ++
          (last.frame.toList.take last.used ++ last.rest) ∧
        last.used < N ∧
        ((.eof ∈ results ∨
            .threw "Peer disconnected inside trading frame" ∈ results) →
          (.eof ∈ results ↔ N ∣ stream.length) ∧
          (.threw "Peer disconnected inside trading frame" ∈ results ↔
            ¬ N ∣ stream.length) ∧
          (blocksOf results).length = stream.length / N) ∧
        ∀ answers, Eager answers (N - last.used) →
          let result := (Incoming.readFrame answers last).2
          (N ≤ last.used + last.rest.length →
            ∃ block, result = .frame block) ∧
          (last.used + last.rest.length = 0 → result = .eof) ∧
          (0 < last.used + last.rest.length →
            last.used + last.rest.length < N →
            result = .threw "Peer disconnected inside trading frame")) := by
  constructor
  · intro operations
    have start : Outgoing.Marks [] [] ({} : Outgoing N) :=
      ⟨rfl, rfl, rfl, Or.inr rfl, fun _ => rfl⟩
    obtain ⟨popped, marks⟩ := Outgoing.marks_foldl start operations
    exact ⟨popped, marks.queue, marks.wire_eq, marks.place, marks.inside,
      marks.empty⟩
  · intro positive stream buffer calls
    obtain ⟨inside, split, ended, torn⟩ :=
      @Incoming.readCalls_delivers N ⟨buffer, 0, stream⟩ positive calls
        positive
    have streamSplit : stream = _ := split
    have length := congrArg List.length streamSplit
    rw [List.length_append, length_bytesOf] at length
    refine ⟨streamSplit, inside, ?_, ?_⟩
    · intro found
      rcases found with isEof | isTorn
      · have none_left := ended isEof
        rw [none_left, Nat.add_zero] at length
        have divides : N ∣ stream.length := ⟨_, length⟩
        refine ⟨⟨fun _ => divides, fun _ => isEof⟩, ⟨?_, ?_⟩, ?_⟩
        · intro isTorn
          have some_left := (torn isTorn).1
          lia
        · exact fun indivisible => absurd divides indivisible
        · rw [length, Nat.mul_div_cancel_left _ positive]
      · obtain ⟨some_left, few⟩ := torn isTorn
        have remainder := congrArg (· % N) length
        simp only [Nat.mul_add_mod, Nat.mod_eq_of_lt few] at remainder
        have indivisible : ¬ N ∣ stream.length := by
          intro divides
          rw [Nat.mod_eq_zero_of_dvd divides] at remainder
          lia
        refine ⟨⟨?_, ?_⟩, ⟨fun _ => indivisible, fun _ => isTorn⟩, ?_⟩
        · intro isEof
          have none_left := ended isEof
          lia
        · exact fun divides => absurd divides indivisible
        · rw [length, Nat.mul_add_div positive, Nat.div_eq_of_lt few,
            Nat.add_zero]
    · intro answers eager
      have decided := Incoming.readFrame_eager inside.le eager
      have pending := Incoming.length_pending inside.le
      rw [← pending]
      exact ⟨decided.whole, decided.ended positive, decided.torn⟩

/-- Frames of two bytes, cut in the middle on both ways. -/
theorem stream_framing_pairs :
    let first : Vector UInt8 2 := #v[1, 2]
    let second : Vector UInt8 2 := #v[3, 4]
    let state := Outgoing.run [.append first, .flush [.moved 0, .again],
      .append second, .flush [.interrupted, .moved 5, .moved 0]]
    let read := Incoming.readCalls ⟨second, 0, [1, 2, 3]⟩
      [[.moved 0, .again], [.moved 7], [.moved 0, .interrupted, .moved 0]]
    state.wire = [1, 2, 3] ∧ state.sent = 1 ∧
      (∃ popped, popped ++ state.frames = [first, second] ∧
        state.wire.length = 2 * popped.length + state.sent) ∧
      blocksOf read.2 = [first] ∧ ¬ 2 ∣ [1, 2, 3].length := by
  intro first second state read
  have sends := (stream_framing 2).1
    [.append first, .flush [.moved 0, .again], .append second,
      .flush [.interrupted, .moved 5, .moved 0]]
  have receives := (stream_framing 2).2 (by decide) [1, 2, 3] second
    [[.moved 0, .again], [.moved 7], [.moved 0, .interrupted, .moved 0]]
  obtain ⟨popped, queue, _, place, _, _⟩ := sends
  obtain ⟨_, _, found, _⟩ := receives
  have isTorn : Read.threw "Peer disconnected inside trading frame" ∈
      read.2 := by decide +kernel
  refine ⟨by decide +kernel, by decide +kernel, ⟨popped, queue, place⟩,
    by decide +kernel, ?_⟩
  exact (found (Or.inr isTorn)).2.1.mp isTorn

end LimitOrderBook.Net
