import LimitOrderBook.FeedBytes
import LimitOrderBook.ShortTransfers

namespace LimitOrderBook.Feed

/-!
# Archives of records

The model of `feed/input.cpp` and of the writer that the sample tool uses.  The
compression library is a parameter, with what the source relies on: it gives
back the bytes that were written, and each read returns some of them, at least
one, and nothing only at the end.
-/

/-- `zlib`, as far as `Input` uses it. -/
structure GzLibrary where
  GzFile : Type
  gzread : GzFile → Nat → GzFile × Bytes
  /-- The bytes that are still to be read. -/
  rest : GzFile → Bytes
  reads : ShortTransfers.Reads gzread rest

namespace GzLibrary

variable {zlib : GzLibrary}

/-- What `Input::Impl::read` does at the end of the file. -/
def atEnd (boundary : Bool) (used : Bytes) : Except Fault (Option Bytes) :=
  if boundary ∧ used = [] then
    .ok none
  else
    .error (.thrown "Truncated feed record")

/-- `Input::Impl::read`; no bytes mean that it returned false. -/
def read (file : zlib.GzFile) (size : Nat) (boundary : Bool) :
    Except Fault (zlib.GzFile × Option Bytes) :=
  ShortTransfers.readFully zlib.gzread (atEnd boundary) file size

end GzLibrary

variable {zlib : GzLibrary}

/-- A library whose reads return as much as is planned for each of them. -/
def plannedLibrary : GzLibrary where
  GzFile := ShortTransfers.Planned
  gzread := ShortTransfers.Planned.read
  rest := ShortTransfers.Planned.rest
  reads := ShortTransfers.Planned.reads

inductive Format where
  | itch50
  | pitch
  deriving DecidableEq

namespace Input

/-- The body of a record after its length prefix. -/
def readBody (format : Format) (file : zlib.GzFile) (head : Bytes) :
    Except Fault (zlib.GzFile × Option Bytes) := do
  let length ← integer head 0 2 (decide (format = .pitch))
  require ((if format = .pitch then 8 else 1) ≤ length)
    "Invalid archive record length"
  if format = .pitch then do
    let (next, body) ← GzLibrary.read file (length - 2) false
    .ok (next, body.map fun body => head ++ body)
  else
    GzLibrary.read file length false

/-- `Input::next`; no record means that it returned false. -/
def next (format : Format) (file : zlib.GzFile) :
    Except Fault (zlib.GzFile × Option Bytes) := do
  let (after, head) ← GzLibrary.read file 2 true
  match head with
  | none => .ok (after, none)
  | some head => readBody format after head

end Input

/-- `Output::write`: the length in two bytes, and the message. -/
def frame (message : Bytes) : Bytes :=
  UInt8.ofNat (message.length / 256) :: UInt8.ofNat (message.length % 256) ::
    message

/-- The bytes of an archive. -/
def archive (records : List Bytes) : Bytes :=
  records.flatMap frame

/-! ## Reading what was written -/

namespace GzLibrary

theorem read_append
    {file : zlib.GzFile} {wanted more : Bytes}
    (there : zlib.rest file = wanted ++ more) (boundary : Bool) :
    ∃ next, read file wanted.length boundary = .ok (next, some wanted) ∧
      zlib.rest next = more :=
  zlib.reads.readFully_append there rfl

theorem read_nil
    {file : zlib.GzFile} {size : Nat} (empty : zlib.rest file = [])
    (wanted : 0 < size) :
    ∃ next, read file size true = .ok (next, none) := by
  have few : (zlib.rest file).length < size := by
    rw [empty]
    exact wanted
  obtain ⟨next, isRead, _⟩ := zlib.reads.readFully_short few
  exact ⟨next, isRead.trans (by simp [empty, atEnd, Except.map])⟩

theorem read_shorter
    {size : Nat} {boundary : Bool} {file next : zlib.GzFile} {got : Bytes}
    (isRead : read file size boundary = .ok (next, some got)) :
    (zlib.rest next).length + size ≤ (zlib.rest file).length := by
  have never (used : Bytes) : atEnd boundary used ≠ .ok (some got) := by
    unfold atEnd
    split_ifs <;> simp
  exact zlib.reads.readFully_shorter never isRead

end GzLibrary

/-- The two length bytes of a record give its length back. -/
theorem integer_frame
    {message : Bytes} (short : message.length < 65536) :
    integer [UInt8.ofNat (message.length / 256),
      UInt8.ofNat (message.length % 256)] 0 2 false =
        .ok message.length := by
  have high : (UInt8.ofNat (message.length / 256)).toNat =
      message.length / 256 := UInt8.toNat_ofNat_of_lt' (by lia)
  have low : (UInt8.ofNat (message.length % 256)).toNat =
      message.length % 256 := UInt8.toNat_ofNat_of_lt' (by lia)
  have whole : message.length / 256 * 256 + message.length % 256 =
      message.length := by lia
  simp [integer, require, byteAt, List.range, List.range.loop, bind,
    Except.bind, high, low, whole, pure, Except.pure]

namespace Input

theorem next_end
    {format : Format} {file : zlib.GzFile} (atEnd : zlib.rest file = []) :
    ∃ after, next format file = .ok (after, none) := by
  obtain ⟨after, read⟩ := GzLibrary.read_nil atEnd (Nat.zero_lt_two)
  refine ⟨after, ?_⟩
  unfold next
  rw [read]
  rfl

/-- A record that was framed is read back. -/
theorem next_frame
    {file : zlib.GzFile} {message more : Bytes}
    (nonempty : 1 ≤ message.length) (short : message.length < 65536)
    (there : zlib.rest file = frame message ++ more) :
    ∃ after, next .itch50 file = .ok (after, some message) ∧
      zlib.rest after = more := by
  have split : zlib.rest file =
      [UInt8.ofNat (message.length / 256),
        UInt8.ofNat (message.length % 256)] ++ (message ++ more) := there
  obtain ⟨middle, headRead, middleRest⟩ := GzLibrary.read_append split true
  obtain ⟨after, bodyRead, afterRest⟩ := GzLibrary.read_append middleRest false
  refine ⟨after, ?_, afterRest⟩
  have twoRead : GzLibrary.read file 2 true = .ok (middle, some _) := headRead
  unfold next
  rw [twoRead]
  simp only [bind, Except.bind, readBody, require, reduceCtorEq, decide_false,
    integer_frame short, nonempty, decide_true, if_true, if_false]
  exact bodyRead

/-- Every record that is read makes the file shorter. -/
theorem next_shorter
    {format : Format} {file after : zlib.GzFile} {record : Bytes}
    (read : next format file = .ok (after, some record)) :
    (zlib.rest after).length < (zlib.rest file).length := by
  obtain ⟨⟨middle, head⟩, headRead, rest⟩ := Fallible.bind_ok read
  cases head with
  | none => cases rest
  | some head =>
      have headShorter := GzLibrary.read_shorter headRead
      obtain ⟨length, _, rest⟩ := Fallible.bind_ok rest
      obtain ⟨_, _, rest⟩ := Fallible.bind_ok rest
      split_ifs at rest
      · obtain ⟨⟨last, body⟩, bodyRead, same⟩ := Fallible.bind_ok rest
        cases body with
        | none => cases same
        | some body =>
            cases same
            have bodyShorter := GzLibrary.read_shorter bodyRead
            lia
      · have bodyShorter := GzLibrary.read_shorter rest
        lia

end Input

end LimitOrderBook.Feed
