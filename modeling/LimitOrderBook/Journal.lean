import LimitOrderBook.ShortTransfers
import LimitOrderBook.MessageFrames

namespace LimitOrderBook

/-!
# The command journal

The model of `trading/journal.cpp`.  A journal is a file of a header and of
records, each a frame with its checksum.  The operating system is a parameter,
with what the source relies on: reads and writes move some of the bytes, at
least one; an interrupted call is made again and moves none.  Other failures of
it, the lock and the calls that force the file to the disk are left out, since
they do not change its bytes.
-/

/-- The operating system, as far as the journal uses it. -/
structure FileSystem where
  Descriptor : Type
  read : Descriptor → Nat → Descriptor × List UInt8
  write : Descriptor → List UInt8 → Descriptor × Nat
  /-- The bytes before the offset of a file, and those after it. -/
  before : Descriptor → List UInt8
  rest : Descriptor → List UInt8
  reads : ShortTransfers.Reads read rest
  /-- Reading does not change a file. -/
  keeps : ∀ fd size, before (read fd size).1 ++ rest (read fd size).1 =
    before fd ++ rest fd
  /-- At its end, a file grows by what is written. -/
  writes : ShortTransfers.Writes write (fun fd => rest fd = []) before

variable {fs : FileSystem}

namespace FileSystem.Descriptor

def before (fd : fs.Descriptor) : List UInt8 :=
  fs.before fd

def rest (fd : fs.Descriptor) : List UInt8 :=
  fs.rest fd

def contents (fd : fs.Descriptor) : List UInt8 :=
  fd.before ++ fd.rest

/-- A file that has just been opened. -/
structure Stored (fd : fs.Descriptor) (bytes : List UInt8) : Prop where
  before : fd.before = []
  rest : fd.rest = bytes

theorem Stored.contents
    {fd : fs.Descriptor} {bytes : List UInt8} (isStored : fd.Stored bytes) :
    fd.contents = bytes := by
  rw [Descriptor.contents, isStored.before, isStored.rest, List.nil_append]

end FileSystem.Descriptor

/-- An operating system whose calls move as many bytes as are planned. -/
def plannedFiles : FileSystem where
  Descriptor := ShortTransfers.Planned
  read := ShortTransfers.Planned.read
  write := ShortTransfers.Planned.write
  before := ShortTransfers.Planned.before
  rest := ShortTransfers.Planned.rest
  reads := ShortTransfers.Planned.reads
  keeps := ShortTransfers.Planned.keeps
  writes := ShortTransfers.Planned.writes

namespace Journal

def atEnd (used : List UInt8) : Except String (Option (List UInt8)) :=
  if used ≠ [] then
    .error "Torn journal record; restore a verified journal backup"
  else
    .ok none

/-- `read_all`; no bytes mean that it returned false. -/
def readAll (fd : fs.Descriptor) (size : Nat) :
    Except String (fs.Descriptor × Option (List UInt8)) :=
  ShortTransfers.readFully fs.read atEnd fd size

/-- `write_all`. -/
def writeAll (fd : fs.Descriptor) (data : List UInt8) :
    Except String fs.Descriptor :=
  ShortTransfers.writeLoop fs.write "Journal write made no progress"
    data.length fd data

def checksum (bytes : Frame) : UInt32 :=
  bytes.toList.foldl (fun hash b => (hash ^^^ b.toUInt32) * 16777619)
    2166136261

/-- The header of the constructor: a magic number, a version and the hash. -/
def header (configHash : Nat) : List UInt8 :=
  [76, 74, 82, 49, 1, 0, 0, 0] ++ BigEndian.bytes configHash 8

/-- The bytes that were read into a frame. -/
def frameFrom (bytes : List UInt8) : Frame :=
  Vector.ofFn fun i => bytes.getD i 0

/-- The checks of a record, once its bytes have been read. -/
def checkRecord (bytes : Frame) (crc : List UInt8) : Except String Message :=
  match decode bytes with
  | none => .error "Corrupt journal record"
  | some m =>
      if BigEndian.number crc ≠ (checksum bytes).toNat ∨ m.kind ≠ .command ∨
          m.action = .status ∨ m.action = .snapshot then
        .error "Corrupt journal record"
      else
        .ok m

/-- The checksum of a record, and its checks. -/
def readRest (fd : fs.Descriptor) (bytes : List UInt8) :
    Except String (fs.Descriptor × Option Message) := do
  let (after, crc) ← readAll fd 4
  match crc with
  | none => .error "Missing journal checksum"
  | some crc => do
      let m ← checkRecord (frameFrom bytes) crc
      .ok (after, some m)

/-- One turn of the loop over records; no message means its end. -/
def readRecord (fd : fs.Descriptor) :
    Except String (fs.Descriptor × Option Message) := do
  let (after, bytes) ← readAll fd frameSize
  match bytes with
  | none => .ok (after, none)
  | some bytes => readRest after bytes

theorem atEnd_never
    {got : List UInt8} (used : List UInt8) : atEnd used ≠ .ok (some got) := by
  unfold atEnd
  split_ifs <;> simp

/-- Every record that is read makes the file shorter. -/
theorem readRecord_shorter
    {fd after : fs.Descriptor} {m : Message}
    (isRead : readRecord fd = .ok (after, some m)) :
    after.rest.length < fd.rest.length := by
  obtain ⟨⟨middle, bytes⟩, bytesRead, isRead⟩ := Fallible.bind_ok isRead
  cases bytes with
  | none => cases isRead
  | some bytes =>
      obtain ⟨⟨last, crc⟩, crcRead, isRead⟩ := Fallible.bind_ok isRead
      cases crc with
      | none => cases isRead
      | some crc =>
          obtain ⟨_, _, same⟩ := Fallible.bind_ok isRead
          cases same
          have first : middle.rest.length + frameSize ≤ fd.rest.length :=
            fs.reads.readFully_shorter atEnd_never bytesRead
          have second : after.rest.length + 4 ≤ middle.rest.length :=
            fs.reads.readFully_shorter atEnd_never crcRead
          lia

/-- The loop over records. -/
def recover (fd : fs.Descriptor) :
    Except String (fs.Descriptor × List Message) :=
  match _read : readRecord fd with
  | .error what => .error what
  | .ok (after, none) => .ok (after, [])
  | .ok (after, some m) => do
      let (last, later) ← recover after
      .ok (last, m :: later)
termination_by fd.rest.length
decreasing_by exact readRecord_shorter ‹_›

/-- The header of a file is checked, and that of an empty file written. -/
def checkHeader (fd : fs.Descriptor) (configHash : Nat) :
    Except String fs.Descriptor := do
  let (after, found) ← readAll fd 16
  match found with
  | none => writeAll after (header configHash)
  | some found =>
      if found ≠ header configHash then
        .error "Journal version/instrument configuration mismatch"
      else
        .ok after

end Journal

structure Journal (fs : FileSystem) where
  fd : fs.Descriptor
  recovered : List Message

namespace Journal

/-- The constructor, on a file that has been opened. -/
def openFile (fd : fs.Descriptor) (configHash : Nat) :
    Except String (Journal fs) := do
  let after ← checkHeader fd configHash
  let (last, recovered) ← recover after
  .ok ⟨last, recovered⟩

/-- The bytes of a record. -/
def record (bytes : Frame) : List UInt8 :=
  bytes.toList ++ BigEndian.bytes (checksum bytes).toNat 4

/-- `Journal::append`. -/
def append (journal : Journal fs) (command : Message) :
    Except String (Journal fs) := do
  let bytes ← encode command
  let fd ← writeAll journal.fd (record bytes)
  .ok { journal with fd := fd }

end Journal

end LimitOrderBook
