import LimitOrderBook.FeedInput
import LimitOrderBook.ItchDecoder

namespace LimitOrderBook.Feed

open Itch

/-!
# Extracting a sample of one symbol

The model of `tools/extract_itch_sample.cpp`.  The tool copies an archive's
global records and those of one symbol.  It follows the symbol's locate on the
raw bytes, without the decoder.  Command line, progress and the printed summary
are left out.
-/

variable {zlib : GzLibrary}

/-- All records of an archive. -/
def readAll (format : Format) (file : zlib.GzFile) :
    Except Fault (List Bytes) :=
  match _read : Input.next format file with
  | .error fault => .error fault
  | .ok (_, none) => .ok []
  | .ok (after, some record) => do
      let records ← readAll format after
      .ok (record :: records)
termination_by (zlib.rest file).length
decreasing_by exact Input.next_shorter ‹_›

/-- The variables of the extraction loop, with what has been written. -/
structure Extraction where
  records : Nat := 0
  selectedLocate : Nat := 0
  ended : Bool := false
  output : Bytes := []
  deriving DecidableEq

namespace Extraction

/-- The checks of the symbol argument. -/
def checkSymbol (symbol : Text) : Except Fault Unit := do
  require (symbol ≠ [] ∧ symbol.length ≤ 8)
    "Input, output and an ITCH symbol of 1..8 bytes required"
  symbol.forM fun c => require (33 ≤ c ∧ c ≤ 126) "Invalid symbol"

/-- The locate of a record. -/
def locateOf (message : Bytes) : Nat :=
  (message.getD 1 0).toNat * 256 + (message.getD 2 0).toNat

/-- The first record must be the start of messages. -/
def checkFirst (state : Extraction) (kind : UInt8) (message : Bytes) :
    Except Fault Unit :=
  require
    (state.records ≠ 0 ∨ kind = byte 'S' ∧ message.length = 12 ∧
      message[11]? = some (byte 'O'))
    "Source must start at Start of Messages"

/-- Whether the session has ended after a record. -/
def trackSystem (state : Extraction) (kind : UInt8) (locate : Nat)
    (message : Bytes) : Except Fault Bool :=
  if kind = byte 'S' then do
    require (locate = 0 ∧ message.length = 12)
      "Invalid system event/session restart"
    let code ← byteAt message 11
    require (code ∈ systemEvents ∧ ¬ (state.records ≠ 0 ∧ code = byte 'O'))
      "Invalid system event/session restart"
    .ok (decide (code = byte 'C'))
  else
    .ok state.ended

/-- The name in a stock directory, without its padding. -/
def directoryName (message : Bytes) : Text :=
  ((message.drop 11).take 8).rdropWhile fun byte => decide (byte = 32)

/-- The selected locate after a record. -/
def trackDirectory (symbol : Text) (state : Extraction) (kind : UInt8)
    (locate : Nat) (message : Bytes) : Except Fault Nat :=
  if kind = byte 'R' then do
    require (message.length = 39 ∧ locate ≠ 0) "Invalid Stock Directory"
    if directoryName message = symbol then do
      require (state.selectedLocate = 0 ∨ state.selectedLocate = locate)
        "Selected symbol changes stock locate"
      .ok locate
    else do
      require (state.selectedLocate ≠ locate)
        "Selected stock locate changes symbol"
      .ok state.selectedLocate
  else
    .ok state.selectedLocate

/-- Global records and those of the selected symbol are kept. -/
def keeps (selectedLocate : Nat) (message : Bytes) : Bool :=
  decide (locateOf message = 0 ∨
    selectedLocate ≠ 0 ∧ locateOf message = selectedLocate)

/-- The body of the extraction loop. -/
def process (symbol : Text) (state : Extraction) (message : Bytes) :
    Except Fault Extraction := do
  require (state.ended = false ∧ 11 ≤ message.length)
    "Message after session end or incomplete ITCH header"
  let kind ← byteAt message 0
  state.checkFirst kind message
  let ended ← state.trackSystem kind (locateOf message) message
  let selected ←
    trackDirectory symbol state kind (locateOf message) message
  .ok
    { records := state.records + 1
      selectedLocate := selected
      ended := ended
      output :=
        if keeps selected message then state.output ++ frame message
        else state.output }

/-- The extraction loop. -/
def loop (symbol : Text) (file : zlib.GzFile) (state : Extraction) :
    Except Fault Extraction :=
  match _read : Input.next .itch50 file with
  | .error fault => .error fault
  | .ok (_, none) => .ok state
  | .ok (after, some message) => do
      let next ← process symbol state message
      loop symbol after next
termination_by (zlib.rest file).length
decreasing_by exact Input.next_shorter ‹_›

/-- The tool: the bytes of the sample. -/
def extract (symbol : Text) (source : zlib.GzFile) : Except Fault Bytes := do
  checkSymbol symbol
  let state ← loop symbol source {}
  require (state.ended = true ∧ state.selectedLocate ≠ 0)
    "Complete session and selected Stock Directory required"
  .ok state.output

/-- The records that the loop writes. -/
def keptRecords (symbol : Text) : Extraction → List Bytes → List Bytes
  | _, [] => []
  | state, message :: rest =>
      match process symbol state message with
      | .error _ => []
      | .ok next =>
          (if keeps next.selectedLocate message then [message] else []) ++
            keptRecords symbol next rest

end Extraction

/-! ## Archives are read back whole -/

/-- Records that the two length bytes can describe. -/
def Framed (records : List Bytes) : Prop :=
  ∀ record ∈ records, 1 ≤ record.length ∧ record.length < 65536

/-- A reader of an archive gets its records one by one and then the end. -/
theorem archive_induction
    (holds : zlib.GzFile → List Bytes → Prop)
    (ended : ∀ file after, Input.next .itch50 file = .ok (after, none) →
      holds file [])
    (more : ∀ file after record rest,
      Input.next .itch50 file = .ok (after, some record) →
      holds after rest → holds file (record :: rest))
    {records : List Bytes} (framed : Framed records) {file : zlib.GzFile}
    (there : zlib.rest file = archive records) : holds file records := by
  induction records generalizing file with
  | nil =>
      obtain ⟨after, read⟩ := Input.next_end there
      exact ended file after read
  | cons record rest inductionHypothesis =>
      obtain ⟨nonempty, short⟩ := framed record (by simp)
      obtain ⟨after, read, afterRest⟩ := Input.next_frame nonempty short there
      exact more file after record rest read (inductionHypothesis
        (fun other member => framed other (by simp [member])) afterRest)

theorem readAll_archive
    {records : List Bytes} (framed : Framed records) {file : zlib.GzFile}
    (there : zlib.rest file = archive records) :
    readAll .itch50 file = .ok records := by
  refine archive_induction (fun file records =>
    readAll .itch50 file = .ok records) ?_ ?_ framed there
  · intro file after read
    unfold readAll
    split
    next fault failed => rw [read] at failed; cases failed
    next => rfl
    next after record more => rw [read] at more; cases more
  · intro file after record rest read restRead
    unfold readAll
    split
    next fault failed => rw [read] at failed; cases failed
    next file' ended => rw [read] at ended; cases ended
    next after' record' found =>
      rw [read] at found
      cases found
      rw [restRead]
      rfl

namespace Extraction

theorem loop_archive
    {symbol : Text} {records : List Bytes} (framed : Framed records)
    {file : zlib.GzFile} (there : zlib.rest file = archive records)
    (state : Extraction) :
    loop symbol file state = records.foldlM (process symbol) state := by
  refine archive_induction (fun file records => ∀ state,
    loop symbol file state = records.foldlM (process symbol) state)
    ?_ ?_ framed there state
  · intro file after read state
    unfold loop
    split
    next fault failed => rw [read] at failed; cases failed
    next => rfl
    next after record more => rw [read] at more; cases more
  · intro file after record rest read restRead state
    unfold loop
    split
    next fault failed => rw [read] at failed; cases failed
    next file' ended => rw [read] at ended; cases ended
    next after' record' found =>
      rw [read] at found
      cases found
      rw [List.foldlM_cons]
      cases process symbol state record with
      | error fault => rfl
      | ok next => exact restRead next

end Extraction

end LimitOrderBook.Feed
