import Mathlib.Order.Nat

/-!
# Dialogues over streams of bytes

Two programs talk in turns over two streams of bytes.  Each receives frames of
one size and answers each with a frame of its own or by ending, and a stream
takes and gives any part of what is there.  The rules here say that the bytes
come in the order of the turns: whatever is sent in parts, the two programs
are where they are when whole frames are handed over.  A stream may fail, and
a program that has ended has closed its streams.
-/

namespace Dialogue

/-- A program that answers frames, and what it says when it ends otherwise. -/
structure Responder (τ ε : Type) (receives sends : Nat) where
  respond : τ → Vector UInt8 receives → τ × (Vector UInt8 sends ⊕ ε)
  /-- The other program has ended between two frames. -/
  closed : τ → ε
  /-- The other program has ended inside a frame. -/
  cut : τ → ε
  failed : τ → String → ε

inductive Phase (ε : Type) where
  | sending (rest : List UInt8)
  | receiving (got : List UInt8)
  | ended (verdict : ε)

/-- A program waits for an answer once all bytes of its frame are sent. -/
def Phase.afterSend {ε : Type} (rest : List UInt8) : Phase ε :=
  if rest = [] then .receiving [] else .sending rest

structure Endpoint (τ ε : Type) where
  state : τ
  phase : Phase ε

def Endpoint.Ended {τ ε : Type} (endpoint : Endpoint τ ε) : Prop :=
  ∃ verdict, endpoint.phase = .ended verdict

/-- Two programs and the bytes that are on their ways. -/
structure Link (τ ε υ δ : Type) where
  left : Endpoint τ ε
  right : Endpoint υ δ
  toRight : List UInt8 := []
  toLeft : List UInt8 := []

section Steps

variable {τ ε υ δ : Type} {m n : Nat}

/-- What a program that goes on does with its streams, and what it sends. -/
inductive Moves (program : Responder τ ε m n) :
    Endpoint τ ε → List UInt8 → Endpoint τ ε → List UInt8 → List UInt8 →
      Prop where
  | sends {state : τ} {first rest inbox : List UInt8} :
      first ≠ [] →
      Moves program ⟨state, .sending (first ++ rest)⟩ inbox
        ⟨state, .afterSend rest⟩ inbox first
  | receives {state : τ} {got first later : List UInt8} :
      first ≠ [] →
      (got ++ first).length ≤ m →
      Moves program ⟨state, .receiving got⟩ (first ++ later)
        ⟨state, .receiving (got ++ first)⟩ later []
  | responds {state next : τ} {frame : Vector UInt8 m}
      {answer : Vector UInt8 n} {inbox : List UInt8} :
      program.respond state frame = (next, .inl answer) →
      Moves program ⟨state, .receiving frame.toList⟩ inbox
        ⟨next, .sending answer.toList⟩ inbox []

/-- How a program ends; `faulty` says whether its streams may fail. -/
inductive Ends (program : Responder τ ε m n) (faulty peerEnded : Prop) :
    Endpoint τ ε → List UInt8 → τ → ε → Prop where
  | responds {state next : τ} {frame : Vector UInt8 m} {verdict : ε}
      {inbox : List UInt8} :
      program.respond state frame = (next, .inr verdict) →
      Ends program faulty peerEnded ⟨state, .receiving frame.toList⟩ inbox
        next verdict
  | closed {state : τ} :
      peerEnded →
      Ends program faulty peerEnded ⟨state, .receiving []⟩ []
        state (program.closed state)
  | cut {state : τ} {got : List UInt8} :
      peerEnded →
      got ≠ [] →
      got.length < m →
      Ends program faulty peerEnded ⟨state, .receiving got⟩ []
        state (program.cut state)
  | sendFailed {state : τ} {rest inbox : List UInt8} {what : String} :
      faulty →
      Ends program faulty peerEnded ⟨state, .sending rest⟩ inbox
        state (program.failed state what)
  | receiveFailed {state : τ} {got inbox : List UInt8} {what : String} :
      faulty →
      got.length < m →
      Ends program faulty peerEnded ⟨state, .receiving got⟩ inbox
        state (program.failed state what)

/-- One program takes a step. -/
inductive Step (first : Responder τ ε n m) (second : Responder υ δ m n)
    (faulty : Prop) : Link τ ε υ δ → Link τ ε υ δ → Prop where
  | left {link : Link τ ε υ δ} {next : Endpoint τ ε}
      {inbox sent : List UInt8} :
      Moves first link.left link.toLeft next inbox sent →
      Step first second faulty link
        ⟨next, link.right, link.toRight ++ sent, inbox⟩
  | right {link : Link τ ε υ δ} {next : Endpoint υ δ}
      {inbox sent : List UInt8} :
      Moves second link.right link.toRight next inbox sent →
      Step first second faulty link
        ⟨link.left, next, inbox, link.toLeft ++ sent⟩
  | leftEnds {link : Link τ ε υ δ} {next : τ} {verdict : ε} :
      Ends first faulty link.right.Ended link.left link.toLeft next verdict →
      Step first second faulty link
        { link with left := ⟨next, .ended verdict⟩ }
  | rightEnds {link : Link τ ε υ δ} {next : υ} {verdict : δ} :
      Ends second faulty link.left.Ended link.right link.toRight next
        verdict →
      Step first second faulty link
        { link with right := ⟨next, .ended verdict⟩ }

/-- A run of so many steps. -/
inductive Steps (first : Responder τ ε n m) (second : Responder υ δ m n)
    (faulty : Prop) : Nat → Link τ ε υ δ → Link τ ε υ δ → Prop where
  | refl {link : Link τ ε υ δ} : Steps first second faulty 0 link link
  | tail {count : Nat} {link middle last : Link τ ε υ δ} :
      Steps first second faulty count link middle →
      Step first second faulty middle last →
      Steps first second faulty (count + 1) link last

end Steps

variable {τ ε υ δ : Type} {m n : Nat}

/-- Whole frames are handed over, from one that the first program sends. -/
inductive Talks (first : Responder τ ε n m) (second : Responder υ δ m n)
    (start : τ × υ × Vector UInt8 m) : τ → υ → Vector UInt8 m → Prop where
  | start : Talks first second start start.1 start.2.1 start.2.2
  | exchange {left next : τ} {right after : υ} {frame sent : Vector UInt8 m}
      {answer : Vector UInt8 n} :
      Talks first second start left right frame →
      second.respond right frame = (after, .inl answer) →
      first.respond left answer = (next, .inl sent) →
      Talks first second start next after sent

/-- The work that is left for so many exchanges of frames. -/
def work (m n exchanges : Nat) : Nat :=
  exchanges * (2 * m + 2 * n + 2)

/--
The parts of a frame that is on its way, and the steps that are left until
the first program has nothing more to send.
-/
inductive InTurn (first : Responder τ ε n m) (second : Responder υ δ m n)
    (start : τ × υ × Vector UInt8 m) (rank : τ → Nat) :
    Link τ ε υ δ → Nat → Prop where
  | forth {left : τ} {right : υ} {frame : Vector UInt8 m}
      {got flying rest : List UInt8} :
      Talks first second start left right frame →
      frame.toList = got ++ flying ++ rest →
      InTurn first second start rank
        ⟨⟨left, .afterSend rest⟩, ⟨right, .receiving got⟩, flying, []⟩
        (work m n (rank left) + 2 * rest.length + flying.length + 2 * n + 2)
  | back {left : τ} {right after : υ} {frame : Vector UInt8 m}
      {answer : Vector UInt8 n} {got flying rest : List UInt8} :
      Talks first second start left right frame →
      second.respond right frame = (after, .inl answer) →
      answer.toList = got ++ flying ++ rest →
      InTurn first second start rank
        ⟨⟨left, .receiving got⟩, ⟨after, .afterSend rest⟩, [], flying⟩
        (work m n (rank left) + 2 * rest.length + flying.length + 1)

/-- Each answer leaves the first program with less to send. -/
def Shrinks (first : Responder τ ε n m) (rank : τ → Nat) : Prop :=
  ∀ left answer next sent,
    first.respond left answer = (next, .inl sent) → rank next < rank left

/-- A program is as in a turn, or has ended there. -/
def Side (program : Responder τ ε m n) (faulty peerEnded : Prop)
    (now before : Endpoint τ ε) (inbox : List UInt8) : Prop :=
  now = before ∨ ∃ state verdict, now = ⟨state, .ended verdict⟩ ∧
    Ends program faulty peerEnded before inbox state verdict

/-- A link in a turn, but that programs have ended. -/
structure Seen (first : Responder τ ε n m) (second : Responder υ δ m n)
    (faulty : Prop) (link turn : Link τ ε υ δ) : Prop where
  toRight : link.toRight = turn.toRight
  toLeft : link.toLeft = turn.toLeft
  left : Side first faulty link.right.Ended link.left turn.left turn.toLeft
  right : Side second faulty link.left.Ended link.right turn.right turn.toRight

variable {first : Responder τ ε n m} {second : Responder υ δ m n}
  {start : τ × υ × Vector UInt8 m} {rank : τ → Nat} {faulty : Prop}
  {link next turn : Link τ ε υ δ} {due : Nat}

/-! ## One program -/

/-- With bytes left, the endpoint goes on sending. -/
theorem afterSend_cons {rest : List UInt8} (more : rest ≠ []) :
    (.afterSend rest : Phase ε) = .sending rest :=
  if_neg more

/-- Frames have bytes. -/
theorem toList_ne_nil (positive : 0 < m) (frame : Vector UInt8 m) :
    frame.toList ≠ [] := by
  intro isNil
  have length := congrArg List.length isNil
  rw [Vector.length_toList] at length
  exact absurd length positive.ne'

/-- A whole frame is still to be sent. -/
theorem afterSend_frame (positive : 0 < m) (frame : Vector UInt8 m) :
    (.afterSend frame.toList : Phase ε) = .sending frame.toList :=
  afterSend_cons (toList_ne_nil positive frame)

/-- A receiving endpoint takes more bytes, or answers its frame. -/
theorem Moves.of_receiving
    {program : Responder τ ε n m} {state : τ} {after : Endpoint τ ε}
    {got flying inbox sent : List UInt8}
    (moves : Moves program ⟨state, .receiving got⟩ flying after inbox sent) :
    sent = [] ∧
    ((∃ more, more ≠ [] ∧ flying = more ++ inbox ∧
        after = ⟨state, .receiving (got ++ more)⟩) ∨
      ∃ frame answer later, got = frame.toList ∧
        program.respond state frame = (later, .inl answer) ∧
        after = ⟨later, .sending answer.toList⟩ ∧ inbox = flying) := by
  cases moves with
  | receives some _ => exact ⟨rfl, Or.inl ⟨_, some, rfl, rfl⟩⟩
  | responds responded =>
      exact ⟨rfl, Or.inr ⟨_, _, _, rfl, responded, rfl, rfl⟩⟩

/-- A sending endpoint sends more of its bytes. -/
theorem Moves.of_afterSend
    {program : Responder τ ε n m} {state : τ} {after : Endpoint τ ε}
    {rest inbox sent : List UInt8} (positive : 0 < n)
    (moves : Moves program ⟨state, .afterSend rest⟩ [] after inbox sent) :
    ∃ more, rest = sent ++ more ∧ sent ≠ [] ∧
      after = ⟨state, .afterSend more⟩ ∧ inbox = [] := by
  by_cases isNil : rest = []
  · rw [Phase.afterSend, if_pos isNil] at moves
    obtain ⟨_, ⟨more, some, parts, _⟩ | ⟨frame, _, _, isFrame, _⟩⟩ :=
      moves.of_receiving
    · exact absurd (List.append_eq_nil_iff.mp parts.symm).1 some
    · exact absurd isFrame.symm (toList_ne_nil positive frame)
  · rw [afterSend_cons isNil] at moves
    cases moves with
    | sends some => exact ⟨_, rfl, some, rfl, rfl⟩

/-- A program that has received as much as a frame has received the frame. -/
theorem whole_frame
    {frame sent : Vector UInt8 m} {flying rest : List UInt8}
    (parts : sent.toList = frame.toList ++ flying ++ rest) :
    frame = sent ∧ flying = [] ∧ rest = [] := by
  have lengths := congrArg List.length parts
  simp only [List.length_append, Vector.length_toList] at lengths
  obtain rfl : flying = [] := List.length_eq_zero_iff.mp (by omega)
  obtain rfl : rest = [] := List.length_eq_zero_iff.mp (by omega)
  rw [List.append_nil, List.append_nil] at parts
  exact ⟨(Vector.toList_inj.mp parts).symm, rfl, rfl⟩

/-! ## Turns -/

/-- A move of the first endpoint is its turn. -/
theorem InTurn.left
    (inTurn : InTurn first second start rank turn due) (positive : 0 < m)
    (answers : 0 < n) {after : Endpoint τ ε} {inbox sent : List UInt8}
    (moves : Moves first turn.left turn.toLeft after inbox sent) :
    ∃ later, InTurn first second start rank
        ⟨after, turn.right, turn.toRight ++ sent, inbox⟩ later ∧
      (Shrinks first rank → later < due) := by
  cases inTurn with
  | @forth _ _ _ got flying _ talks parts =>
      obtain ⟨more, rfl, some, rfl, rfl⟩ := moves.of_afterSend answers
      have sends := List.length_pos_iff.mpr some
      refine ⟨_, .forth talks ((parts.trans ?_) :
        _ = got ++ (flying ++ sent) ++ more), fun _ => ?_⟩
      · simp only [List.append_assoc]
      · simp only [List.length_append]
        omega
  | @back _ _ _ _ _ got _ rest talks answered parts =>
      obtain ⟨rfl, ⟨more, some, rfl, rfl⟩ |
        ⟨frame, reply, later, rfl, responded, rfl, rfl⟩⟩ := moves.of_receiving
      · have receives := List.length_pos_iff.mpr some
        refine ⟨_, .back talks answered ((parts.trans ?_) :
          _ = (got ++ more) ++ inbox ++ rest), fun _ => ?_⟩
        · simp only [List.append_assoc]
        · simp only [List.length_append]
          omega
      · obtain ⟨rfl, rfl, rfl⟩ := whole_frame parts
        have forth := @InTurn.forth _ _ _ _ _ _ first second start rank _ _ _
          [] [] reply.toList (talks.exchange answered responded) rfl
        rw [afterSend_frame positive] at forth
        refine ⟨_, forth, fun shrinks => ?_⟩
        have fewer := shrinks _ _ _ _ responded
        have lengths := Nat.mul_le_mul_right (2 * m + 2 * n + 2) fewer
        rw [Nat.succ_mul] at lengths
        simp only [work, List.length_nil, Vector.length_toList]
        omega

/-- A move of the second endpoint is its turn, and costs a step. -/
theorem InTurn.right
    (inTurn : InTurn first second start rank turn due) (positive : 0 < m)
    (answers : 0 < n) {after : Endpoint υ δ} {inbox sent : List UInt8}
    (moves : Moves second turn.right turn.toRight after inbox sent) :
    ∃ later, InTurn first second start rank
        ⟨turn.left, after, inbox, turn.toLeft ++ sent⟩ later ∧
      later < due := by
  cases inTurn with
  | @forth _ _ _ got _ rest talks parts =>
      obtain ⟨rfl, ⟨more, some, rfl, rfl⟩ |
        ⟨frame, reply, later, rfl, responded, rfl, rfl⟩⟩ := moves.of_receiving
      · have receives := List.length_pos_iff.mpr some
        refine ⟨_, .forth talks ((parts.trans ?_) :
          _ = (got ++ more) ++ inbox ++ rest), ?_⟩
        · simp only [List.append_assoc]
        · simp only [List.length_append]
          omega
      · obtain ⟨rfl, rfl, rfl⟩ := whole_frame parts
        have back := @InTurn.back _ _ _ _ _ _ first second start rank _ _ _ _
          _ [] [] reply.toList talks responded rfl
        rw [afterSend_frame answers] at back
        refine ⟨_, back, ?_⟩
        simp only [List.length_nil, Vector.length_toList]
        omega
  | @back _ _ _ _ _ got flying _ talks answered parts =>
      obtain ⟨more, rfl, some, rfl, rfl⟩ := moves.of_afterSend positive
      have sends := List.length_pos_iff.mpr some
      refine ⟨_, .back talks answered ((parts.trans ?_) :
        _ = got ++ (flying ++ sent) ++ more), ?_⟩
      · simp only [List.append_assoc]
      · simp only [List.length_append]
        omega

/-! ## Programs that have ended -/

variable {program : Responder τ ε n m} {peerEnded : Prop}
  {endpoint : Endpoint τ ε} {inbox : List UInt8}

def Phase.running : Phase ε → Nat
  | .ended _ => 0
  | .sending _ => 1
  | .receiving _ => 1

def Link.running (link : Link τ ε υ δ) : Nat :=
  link.left.phase.running + link.right.phase.running

/-- An endpoint that moves has not ended and does not end. -/
theorem Moves.not_ended
    {after : Endpoint τ ε} {later sent : List UInt8}
    (moves : Moves program endpoint inbox after later sent) :
    ¬ endpoint.Ended ∧ after.phase.running = endpoint.phase.running := by
  constructor
  · rintro ⟨verdict, hasEnded⟩
    cases moves <;> cases hasEnded
  · cases moves with
    | @sends _ _ rest _ _ =>
        by_cases isNil : rest = []
        · rw [Phase.afterSend, if_pos isNil]
          rfl
        · rw [afterSend_cons isNil]
          rfl
    | receives _ _ => rfl
    | responds _ => rfl

/-- An endpoint that ends had not ended. -/
theorem Ends.not_ended
    {state : τ} {verdict : ε}
    (ends : Ends program faulty peerEnded endpoint inbox state verdict) :
    ¬ endpoint.Ended ∧ endpoint.phase.running = 1 := by
  constructor
  · rintro ⟨verdict, hasEnded⟩
    cases ends <;> cases hasEnded
  · cases ends <;> rfl

/-- An ending does not depend on a stream that is not read at its end. -/
theorem Ends.elsewhere
    {state : τ} {verdict : ε} {later : Prop} {others : List UInt8}
    (ends : Ends program faulty peerEnded endpoint inbox state verdict)
    (same : peerEnded → later ∧ others = inbox) :
    Ends program faulty later endpoint others state verdict := by
  cases ends with
  | responds responded => exact .responds responded
  | closed hasEnded =>
      obtain ⟨stays, rfl⟩ := same hasEnded
      exact .closed stays
  | cut hasEnded some short =>
      obtain ⟨stays, rfl⟩ := same hasEnded
      exact .cut stays some short
  | sendFailed mayFail => exact .sendFailed mayFail
  | receiveFailed mayFail short => exact .receiveFailed mayFail short

/-- A side that still runs is where its turn says. -/
theorem Side.of_running
    {before : Endpoint τ ε}
    (side : Side program faulty peerEnded endpoint before inbox)
    (running : ¬ endpoint.Ended) : endpoint = before := by
  rcases side with same | ⟨_, verdict, rfl, _⟩
  · exact same
  · exact absurd ⟨verdict, rfl⟩ running

/-- What happens elsewhere leaves a side as it is. -/
theorem Side.elsewhere
    {before : Endpoint τ ε} {later : Prop} {others : List UInt8}
    (side : Side program faulty peerEnded endpoint before inbox)
    (same : peerEnded → later ∧ others = inbox) :
    Side program faulty later endpoint before others := by
  rcases side with isSame | ⟨state, verdict, hasEnded, ends⟩
  · exact Or.inl isSame
  · exact Or.inr ⟨state, verdict, hasEnded, ends.elsewhere same⟩

/-- A step of the link keeps it in turn, and costs what is due. -/
theorem Seen.step
    (seen : Seen first second faulty link turn)
    (inTurn : InTurn first second start rank turn due) (positive : 0 < m)
    (answers : 0 < n) (step : Step first second faulty link next) :
    ∃ after later, InTurn first second start rank after later ∧
      Seen first second faulty next after ∧
      (Shrinks first rank →
        later + next.running < due + link.running) := by
  obtain ⟨toRight, toLeft, left, right⟩ := seen
  cases step with
  | @left after inbox sent moves =>
      obtain ⟨notEnded, running⟩ := moves.not_ended
      rw [left.of_running notEnded, toLeft] at moves
      obtain ⟨later, inTurn, shrinks⟩ := inTurn.left positive answers moves
      refine ⟨_, later, inTurn, ⟨by rw [toRight], rfl, Or.inl rfl,
        right.elsewhere fun hasEnded => absurd hasEnded notEnded⟩,
        fun fewer => ?_⟩
      have := shrinks fewer
      simp only [Link.running, running]
      omega
  | @right after inbox sent moves =>
      obtain ⟨notEnded, running⟩ := moves.not_ended
      rw [right.of_running notEnded, toRight] at moves
      obtain ⟨later, inTurn, shrinks⟩ := inTurn.right positive answers moves
      refine ⟨_, later, inTurn, ⟨rfl, by rw [toLeft],
        left.elsewhere fun hasEnded => absurd hasEnded notEnded, Or.inl rfl⟩,
        fun _ => ?_⟩
      simp only [Link.running, running]
      omega
  | @leftEnds state verdict ends =>
      obtain ⟨notEnded, running⟩ := ends.not_ended
      rw [left.of_running notEnded, toLeft] at ends
      refine ⟨turn, due, inTurn, ⟨toRight, toLeft,
        Or.inr ⟨state, verdict, rfl, ends⟩,
        right.elsewhere fun hasEnded => absurd hasEnded notEnded⟩,
        fun _ => ?_⟩
      change due + (0 + link.right.phase.running) <
        due + (link.left.phase.running + link.right.phase.running)
      omega
  | @rightEnds state verdict ends =>
      obtain ⟨notEnded, running⟩ := ends.not_ended
      rw [right.of_running notEnded, toRight] at ends
      refine ⟨turn, due, inTurn, ⟨toRight, toLeft,
        left.elsewhere fun hasEnded => absurd hasEnded notEnded,
        Or.inr ⟨state, verdict, rfl, ends⟩⟩, fun _ => ?_⟩
      change due + (link.left.phase.running + 0) <
        due + (link.left.phase.running + link.right.phase.running)
      omega

/-- The first frame is about to be sent. -/
def opening (start : τ × υ × Vector UInt8 m) : Link τ ε υ δ where
  left := ⟨start.1, .sending start.2.2.toList⟩
  right := ⟨start.2.1, .receiving []⟩

/-- A whole frame may be sent in one call, and received in one. -/
theorem Moves.sends_frame
    {program : Responder τ ε n m} {state : τ} {frame : Vector UInt8 m}
    {inbox : List UInt8} (positive : 0 < m) :
    Moves program ⟨state, .sending frame.toList⟩ inbox
      ⟨state, .receiving []⟩ inbox frame.toList := by
  have sends := @Moves.sends _ _ _ _ program state frame.toList [] inbox
    (toList_ne_nil positive frame)
  rwa [List.append_nil] at sends

/-- A frame that is there may be received whole. -/
theorem Moves.receives_frame
    {program : Responder τ ε n m} {state : τ} {frame : Vector UInt8 n}
    (positive : 0 < n) :
    Moves program ⟨state, .receiving []⟩ frame.toList
      ⟨state, .receiving frame.toList⟩ [] [] := by
  have receives := @Moves.receives _ _ _ _ program state [] frame.toList []
    (toList_ne_nil positive frame) (Vector.length_toList ..).le
  rwa [List.append_nil] at receives

/-- An exchange of whole frames, if neither program ends in it. -/
def exchange (first : Responder τ ε n m) (second : Responder υ δ m n) :
    τ × υ × Vector UInt8 m → Option (τ × υ × Vector UInt8 m)
  | (left, right, frame) =>
      match second.respond right frame with
      | (_, .inr _) => none
      | (after, .inl answer) =>
          match first.respond left answer with
          | (_, .inr _) => none
          | (next, .inl sent) => some (next, after, sent)

/-- The calls of an exchange. -/
theorem steps_exchange
    {turn next : τ × υ × Vector UInt8 m} (positive : 0 < m) (answers : 0 < n)
    (exchanged : exchange first second turn = some next) :
    Steps first second faulty 6 (opening turn) (opening next) := by
  obtain ⟨left, right, frame⟩ := turn
  simp only [exchange] at exchanged
  split at exchanged
  · cases exchanged
  rename_i after answer responded
  split at exchanged
  · cases exchanged
  rename_i later sent heard
  cases exchanged
  have asked : Steps first second faulty 3 (opening (left, right, frame))
      ⟨⟨left, .receiving []⟩, ⟨after, .sending answer.toList⟩, [], []⟩ :=
    .tail (.tail (.tail .refl (.left (.sends_frame positive)))
      (.right (.receives_frame positive))) (.right (.responds responded))
  exact .tail (.tail (.tail asked (.right (.sends_frame answers)))
    (.left (.receives_frame answers))) (.left (.responds heard))

/-- A run is as far as the turns of a dialogue are. -/
theorem Steps.seen
    {count : Nat} (steps : Steps first second faulty count (opening start) link)
    (positive : 0 < m) (answers : 0 < n) (rank : τ → Nat) :
    ∃ turn due, InTurn first second start rank turn due ∧
      Seen first second faulty link turn ∧
      (Shrinks first rank → due + link.running + count ≤
        work m n (rank start.1) + 2 * m + 2 * n + 4) := by
  generalize isOpening : opening start = origin at steps
  induction steps with
  | refl =>
      subst isOpening
      have inTurn := @InTurn.forth _ ε _ δ _ _ first second start rank _ _ _
        [] [] start.2.2.toList .start rfl
      rw [afterSend_frame positive] at inTurn
      refine ⟨_, _, inTurn, ⟨rfl, rfl, Or.inl rfl, Or.inl rfl⟩, fun _ => ?_⟩
      simp only [Link.running, opening, Phase.running, List.length_nil,
        Vector.length_toList]
      omega
  | tail _ step inductionHypothesis =>
      obtain ⟨turn, due, inTurn, seen, bounded⟩ :=
        inductionHypothesis isOpening
      obtain ⟨after, later, inTurn, seen, shrinks⟩ :=
        seen.step inTurn positive answers step
      refine ⟨after, later, inTurn, seen, fun fewer => ?_⟩
      have := bounded fewer
      have := shrinks fewer
      omega

/-! ## Where a dialogue stands -/

/-- A program has not ended, but that a stream of its own has failed. -/
def Goes (program : Responder τ ε n m) (faulty : Prop)
    (endpoint : Endpoint τ ε) : Prop :=
  ¬ endpoint.Ended ∨ faulty ∧
    ∃ what, endpoint.phase = .ended (program.failed endpoint.state what)

/-- A program has ended between two frames because the other has. -/
def Closed (program : Responder τ ε n m) (endpoint : Endpoint τ ε) : Prop :=
  endpoint.phase = .ended (program.closed endpoint.state)

/-- A program has ended because the other has. -/
def HungUp (program : Responder τ ε n m) (endpoint : Endpoint τ ε) : Prop :=
  Closed program endpoint ∨
    endpoint.phase = .ended (program.cut endpoint.state)

/-- The states of two programs that have handed over whole frames. -/
inductive Reached (first : Responder τ ε n m) (second : Responder υ δ m n)
    (start : τ × υ × Vector UInt8 m) : τ → υ → Prop where
  | asked {left : τ} {right : υ} {frame : Vector UInt8 m} :
      Talks first second start left right frame →
      Reached first second start left right
  | answered {left : τ} {right after : υ} {frame : Vector UInt8 m}
      {answer : Vector UInt8 n} :
      Talks first second start left right frame →
      second.respond right frame = (after, .inl answer) →
      Reached first second start left after

/-- How far the programs are and, where they have ended, which ended first. -/
inductive Stands (first : Responder τ ε n m) (second : Responder υ δ m n)
    (start : τ × υ × Vector UInt8 m) (faulty : Prop) (link : Link τ ε υ δ) :
    Prop where
  | between :
      Reached first second start link.left.state link.right.state →
      Goes first faulty link.left →
      Goes second faulty link.right →
      Stands first second start faulty link
  | leftHungUp :
      Reached first second start link.left.state link.right.state →
      HungUp first link.left →
      link.right.Ended →
      Goes second faulty link.right →
      Stands first second start faulty link
  | rightHungUp :
      Reached first second start link.left.state link.right.state →
      link.left.Ended →
      Goes first faulty link.left →
      HungUp second link.right →
      Stands first second start faulty link
  | rightEnded {right : υ} {frame : Vector UInt8 m} {verdict : δ} :
      Talks first second start link.left.state right frame →
      second.respond right frame = (link.right.state, .inr verdict) →
      link.right.phase = .ended verdict →
      Goes first faulty link.left ∨ Closed first link.left →
      Stands first second start faulty link
  | leftEnded {left : τ} {right : υ} {frame : Vector UInt8 m}
      {answer : Vector UInt8 n} {verdict : ε} :
      Talks first second start left right frame →
      second.respond right frame = (link.right.state, .inl answer) →
      first.respond left answer = (link.left.state, .inr verdict) →
      link.left.phase = .ended verdict →
      Goes second faulty link.right ∨ Closed second link.right →
      Stands first second start faulty link

/-- An endpoint that sends has not ended. -/
theorem afterSend_running (rest : List UInt8) {verdict : ε} :
    (.afterSend rest : Phase ε) ≠ .ended verdict := by
  unfold Phase.afterSend
  split_ifs <;> exact nofun

/-- A side that had to send goes on, or was closed by its peer. -/
theorem Side.of_afterSend
    {state : τ} {rest : List UInt8} (positive : 0 < n)
    (side : Side program faulty peerEnded endpoint
      ⟨state, .afterSend rest⟩ []) :
    endpoint.state = state ∧ (Goes program faulty endpoint ∨
      Closed program endpoint ∧ peerEnded ∧ rest = []) := by
  rcases side with rfl | ⟨after, verdict, rfl, ends⟩
  · exact ⟨rfl, Or.inl (Or.inl fun ⟨_, hasEnded⟩ =>
      afterSend_running rest hasEnded)⟩
  by_cases isNil : rest = []
  · rw [Phase.afterSend, if_pos isNil] at ends
    generalize isGot : ([] : List UInt8) = got at ends
    cases ends with
    | @responds _ _ frame =>
        exact absurd isGot.symm (toList_ne_nil positive frame)
    | closed hasEnded =>
        exact ⟨rfl, Or.inr ⟨rfl, hasEnded, isNil⟩⟩
    | cut _ some _ => exact absurd isGot.symm some
    | receiveFailed mayFail _ => exact ⟨rfl, Or.inl (Or.inr ⟨mayFail, _, rfl⟩)⟩
  · rw [afterSend_cons isNil] at ends
    cases ends with
    | sendFailed mayFail => exact ⟨rfl, Or.inl (Or.inr ⟨mayFail, _, rfl⟩)⟩

/-- A side that had to receive gave its verdict, or goes on. -/
theorem Side.of_receiving
    {state : τ} {got : List UInt8} (positive : 0 < n)
    (side : Side program faulty peerEnded endpoint
      ⟨state, .receiving got⟩ inbox) :
    (∃ frame verdict, got = frame.toList ∧
      program.respond state frame = (endpoint.state, .inr verdict) ∧
      endpoint.phase = .ended verdict) ∨
    endpoint.state = state ∧ (Goes program faulty endpoint ∨
      HungUp program endpoint ∧ peerEnded ∧ inbox = [] ∧ got.length < n) := by
  rcases side with rfl | ⟨after, verdict, rfl, ends⟩
  · exact Or.inr ⟨rfl, Or.inl (Or.inl nofun)⟩
  cases ends with
  | responds responded => exact Or.inl ⟨_, _, rfl, responded, rfl⟩
  | closed hasEnded =>
      exact Or.inr ⟨rfl, Or.inr ⟨Or.inl rfl, hasEnded, rfl, positive⟩⟩
  | cut hasEnded _ short =>
      exact Or.inr ⟨rfl, Or.inr ⟨Or.inr rfl, hasEnded, rfl, short⟩⟩
  | receiveFailed mayFail _ =>
      exact Or.inr ⟨rfl, Or.inl (Or.inr ⟨mayFail, _, rfl⟩)⟩

/-- Two programs do not both wait for the other to end. -/
theorem Stands.of_reached
    (reached : Reached first second start link.left.state link.right.state)
    {leftWaits rightWaits : Prop} (notBoth : leftWaits → ¬ rightWaits)
    (left : Goes first faulty link.left ∨
      HungUp first link.left ∧ link.right.Ended ∧ leftWaits)
    (right : Goes second faulty link.right ∨
      HungUp second link.right ∧ link.left.Ended ∧ rightWaits) :
    Stands first second start faulty link := by
  rcases left with leftGoes | ⟨leftHungUp, rightEnded, waits⟩ <;>
    rcases right with rightGoes | ⟨rightHungUp, leftEnded, alsoWaits⟩
  · exact .between reached leftGoes rightGoes
  · exact .rightHungUp reached leftEnded leftGoes rightHungUp
  · exact .leftHungUp reached leftHungUp rightEnded rightGoes
  · exact absurd alsoWaits (notBoth waits)

/-- What is seen of a link says how both sides stand. -/
theorem Seen.stands
    (seen : Seen first second faulty link turn)
    (inTurn : InTurn first second start rank turn due) (positive : 0 < m)
    (answers : 0 < n) : Stands first second start faulty link := by
  obtain ⟨_, _, leftSide, rightSide⟩ := seen
  cases inTurn with
  | @forth left right frame got flying rest talks parts =>
      obtain ⟨isLeft, leftGoes⟩ := leftSide.of_afterSend answers
      rcases rightSide.of_receiving positive with
        ⟨whole, verdict, rfl, responded, hasEnded⟩ | ⟨isRight, rightGoes⟩
      · obtain ⟨rfl, _, _⟩ := whole_frame parts
        rw [← isLeft] at talks
        exact .rightEnded talks responded hasEnded
          (leftGoes.imp_right And.left)
      · refine .of_reached (.asked (isLeft ▸ isRight ▸ talks)) ?_
          (leftGoes.imp_right (And.imp_left Or.inl)) rightGoes
        rintro rfl ⟨rfl, short⟩
        have lengths := congrArg List.length parts
        simp only [List.append_nil, Vector.length_toList] at lengths
        exact absurd lengths.symm short.ne
  | @back left right after frame answer got flying rest talks responded parts =>
      obtain ⟨isRight, rightGoes⟩ := rightSide.of_afterSend positive
      rw [← isRight] at responded
      rcases leftSide.of_receiving answers with
        ⟨whole, verdict, rfl, ended, hasEnded⟩ | ⟨isLeft, leftGoes⟩
      · obtain ⟨rfl, _, _⟩ := whole_frame parts
        exact .leftEnded talks responded ended hasEnded
          (rightGoes.imp_right And.left)
      · refine .of_reached (.answered (isLeft ▸ talks) responded) ?_ leftGoes
          (rightGoes.imp_right (And.imp_left Or.inl))
        rintro ⟨rfl, short⟩ rfl
        have lengths := congrArg List.length parts
        simp only [List.append_nil, Vector.length_toList] at lengths
        exact absurd lengths.symm short.ne

/-- Two programs at any time of a run. -/
theorem Steps.stands
    {count : Nat} (steps : Steps first second faulty count (opening start) link)
    (positive : 0 < m) (answers : 0 < n) :
    Stands first second start faulty link := by
  obtain ⟨_, _, inTurn, seen, _⟩ := steps.seen positive answers fun _ => 0
  exact seen.stands inTurn positive answers

/-- A run is not longer than the answers that the first program waits for. -/
theorem Steps.bounded
    {count : Nat} (steps : Steps first second faulty count (opening start) link)
    (positive : 0 < m) (answers : 0 < n) (shrinks : Shrinks first rank) :
    count ≤ work m n (rank start.1) + 2 * m + 2 * n + 4 := by
  obtain ⟨_, _, _, _, bounded⟩ := steps.seen positive answers rank
  exact (Nat.le_add_left _ _).trans (bounded shrinks)

/-! ## A dialogue goes on to its end -/

/-- A program need not wait for the other to go on. -/
def CanStep (program : Responder τ ε n m) (faulty peerEnded : Prop)
    (endpoint : Endpoint τ ε) (inbox : List UInt8) : Prop :=
  (∃ after later sent, Moves program endpoint inbox after later sent) ∨
    ∃ next verdict, Ends program faulty peerEnded endpoint inbox next verdict

/-- A receiving endpoint can step when there is anything for it. -/
theorem canStep_receiving
    (state : τ) {got : List UInt8} (fits : got.length ≤ n)
    (there : inbox ≠ [] ∨ got.length = n ∨ peerEnded) :
    CanStep program faulty peerEnded ⟨state, .receiving got⟩ inbox := by
  by_cases whole : got.length = n
  · obtain ⟨frame, rfl⟩ : ∃ frame : Vector UInt8 n, got = frame.toList :=
      ⟨⟨got.toArray, by simpa using whole⟩, rfl⟩
    cases responded : program.respond state frame with
    | mk next result =>
        cases result with
        | inl answer => exact Or.inl ⟨_, _, _, .responds responded⟩
        | inr verdict => exact Or.inr ⟨_, _, .responds responded⟩
  have short : got.length < n := Nat.lt_of_le_of_ne fits whole
  cases inbox with
  | cons byte later =>
      have moves := @Moves.receives _ _ _ _ program state got [byte] later
        (by simp) (by simpa using Nat.succ_le_of_lt short)
      exact Or.inl ⟨_, _, _, moves⟩
  | nil =>
      have hasEnded : peerEnded := by simpa [whole] using there
      by_cases isNil : got = []
      · subst isNil
        exact Or.inr ⟨_, _, .closed hasEnded⟩
      · exact Or.inr ⟨_, _, .cut hasEnded isNil short⟩

/-- A sending endpoint can step: it has bytes, or its peer has ended. -/
theorem canStep_afterSend
    (state : τ) {rest : List UInt8} (there : rest ≠ [] ∨ peerEnded) :
    CanStep program faulty peerEnded ⟨state, .afterSend rest⟩ [] := by
  by_cases isNil : rest = []
  · rw [Phase.afterSend, if_pos isNil]
    exact canStep_receiving state (Nat.zero_le _)
      (Or.inr (Or.inr (there.resolve_left (not_not.mpr isNil))))
  · have moves := @Moves.sends _ _ _ _ program state rest [] [] isNil
    rw [List.append_nil] at moves
    rw [afterSend_cons isNil]
    exact Or.inl ⟨_, _, _, moves⟩

/-- One of two programs has something to do about a frame on its way. -/
theorem canStep_between
    {receiver : Responder υ δ m n} {waiting : Endpoint υ δ} {asks : τ}
    {answers : υ} {frame : Vector UInt8 m} {got flying rest : List UInt8}
    (parts : frame.toList = got ++ flying ++ rest)
    (sends : Side program faulty waiting.Ended endpoint
      ⟨asks, .afterSend rest⟩ [])
    (receives : Side receiver faulty endpoint.Ended waiting
      ⟨answers, .receiving got⟩ flying)
    (notBoth : ¬ (endpoint.Ended ∧ waiting.Ended)) :
    CanStep program faulty waiting.Ended endpoint [] ∨
      CanStep receiver faulty endpoint.Ended waiting flying := by
  have lengths := congrArg List.length parts
  simp only [List.length_append, Vector.length_toList] at lengths
  by_cases firstEnded : endpoint.Ended
  · have same := receives.of_running fun hasEnded =>
      notBoth ⟨firstEnded, hasEnded⟩
    rw [same]
    exact Or.inr (canStep_receiving answers (by omega)
      (Or.inr (Or.inr firstEnded)))
  have same := sends.of_running firstEnded
  by_cases more : rest ≠ [] ∨ waiting.Ended
  · rw [same]
    exact Or.inl (canStep_afterSend asks more)
  · obtain ⟨isNil, secondGoes⟩ := not_or.mp more
    obtain rfl := not_not.mp isNil
    rw [receives.of_running secondGoes]
    refine Or.inr (canStep_receiving answers (by omega) ?_)
    by_cases noBytes : flying = []
    · subst noBytes
      exact Or.inr (Or.inl lengths.symm)
    · exact Or.inl noBytes

/-- A dialogue is not over before both programs have ended. -/
theorem Steps.goes_on
    {count : Nat} (steps : Steps first second faulty count (opening start) link)
    (positive : 0 < m) (answers : 0 < n)
    (notBoth : ¬ (link.left.Ended ∧ link.right.Ended)) :
    ∃ next, Step first second faulty link next := by
  obtain ⟨turn, _, inTurn, seen, _⟩ := steps.seen positive answers fun _ => 0
  have one : CanStep first faulty link.right.Ended link.left link.toLeft ∨
      CanStep second faulty link.left.Ended link.right link.toRight := by
    rw [seen.toLeft, seen.toRight]
    cases inTurn with
    | forth _ parts => exact canStep_between parts seen.left seen.right notBoth
    | back _ _ parts =>
        exact (canStep_between parts seen.right seen.left
          fun both => notBoth both.symm).symm
  rcases one with (⟨_, _, _, moves⟩ | ⟨_, _, ends⟩) |
    (⟨_, _, _, moves⟩ | ⟨_, _, ends⟩)
  · exact ⟨_, .left moves⟩
  · exact ⟨_, .leftEnds ends⟩
  · exact ⟨_, .right moves⟩
  · exact ⟨_, .rightEnds ends⟩

/-- Runs that are bounded and go on get to an end. -/
theorem exists_ended
    {origin : Link τ ε υ δ} {bound : Nat}
    (bounded : ∀ count link,
      Steps first second faulty count origin link → count ≤ bound)
    (goesOn : ∀ count link, Steps first second faulty count origin link →
      ¬ (link.left.Ended ∧ link.right.Ended) →
      ∃ next, Step first second faulty link next) :
    ∃ count link, Steps first second faulty count origin link ∧
      link.left.Ended ∧ link.right.Ended := by
  by_contra noEnd
  have longer (count : Nat) :
      ∃ link, Steps first second faulty count origin link := by
    induction count with
    | zero => exact ⟨origin, .refl⟩
    | succ count inductionHypothesis =>
        obtain ⟨link, steps⟩ := inductionHypothesis
        obtain ⟨next, step⟩ := goesOn count link steps fun both =>
          noEnd ⟨count, link, steps, both⟩
        exact ⟨next, .tail steps step⟩
  obtain ⟨link, steps⟩ := longer (bound + 1)
  exact absurd (bounded _ link steps) (Nat.not_succ_le_self bound)

/-- The first program has ended before its first frame. -/
def silence (said : Endpoint τ ε) (right : υ) : Link τ ε υ δ where
  left := said
  right := ⟨right, .receiving []⟩

/-- A program that is sent nothing sees the other end. -/
theorem Steps.of_silence
    {count : Nat} {said : Endpoint τ ε} {right : υ}
    (steps : Steps first second faulty count (silence said right) link)
    (positive : 0 < m) (hasEnded : said.Ended) :
    link.left = said ∧ link.toRight = [] ∧
      (link.right = ⟨right, .receiving []⟩ ∧ count = 0 ∨
        link.right.Ended ∧ link.right.state = right ∧ count = 1 ∧
          (Goes second faulty link.right ∨ Closed second link.right)) := by
  generalize isStart : silence said right = origin at steps
  induction steps with
  | refl =>
      subst isStart
      exact ⟨rfl, rfl, Or.inl ⟨rfl, rfl⟩⟩
  | @tail _ _ middle _ _ step inductionHypothesis =>
      obtain ⟨isLeft, noBytes, goes⟩ := inductionHypothesis isStart
      cases step with
      | left moves => exact absurd hasEnded (isLeft ▸ moves.not_ended.1)
      | leftEnds ends => exact absurd hasEnded (isLeft ▸ ends.not_ended.1)
      | right moves =>
          rcases goes with ⟨isRight, _⟩ | ⟨rightEnded, _⟩
          · rw [isRight, noBytes] at moves
            have isNil : (.receiving [] : Phase δ) = .afterSend [] := rfl
            rw [isNil] at moves
            obtain ⟨more, parts, some, _⟩ := moves.of_afterSend positive
            exact absurd (List.append_eq_nil_iff.mp parts.symm).1 some
          · exact absurd rightEnded moves.not_ended.1
      | @rightEnds state verdict ends =>
          rcases goes with ⟨isRight, rfl⟩ | ⟨rightEnded, _⟩
          · rw [isRight, noBytes] at ends
            have side : Side second faulty middle.left.Ended
                ⟨state, .ended verdict⟩ ⟨right, .afterSend []⟩ [] :=
              Or.inr ⟨state, verdict, rfl, ends⟩
            obtain ⟨isState, fate⟩ := side.of_afterSend positive
            exact ⟨isLeft, noBytes, Or.inr ⟨⟨verdict, rfl⟩, isState, rfl,
              fate.imp_right And.left⟩⟩
          · exact absurd rightEnded ends.not_ended.1

/-- When one side has ended, the other can go on to its end. -/
theorem Steps.silence_goes_on
    {count : Nat} {said : Endpoint τ ε} {right : υ}
    (steps : Steps first second faulty count (silence said right) link)
    (positive : 0 < m) (hasEnded : said.Ended)
    (running : ¬ link.right.Ended) :
    ∃ next, Step first second faulty link next := by
  obtain ⟨isLeft, noBytes, ⟨isRight, _⟩ | ⟨rightEnded, _⟩⟩ :=
    steps.of_silence positive hasEnded
  · have ends : Ends second faulty link.left.Ended link.right link.toRight right
        (second.closed right) := by
      rw [isRight, noBytes, isLeft]
      exact .closed hasEnded
    exact ⟨_, .rightEnds ends⟩
  · exact absurd rightEnded running

end Dialogue
