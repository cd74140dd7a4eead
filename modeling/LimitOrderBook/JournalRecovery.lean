import LimitOrderBook.Journal

namespace LimitOrderBook.Journal

/-!
# What a journal recovers

A file that was cut anywhere is either refused or recovers the commands before
the cut.
-/

/-- The commands that a journal is given. -/
structure Journaled (m : Message) : Prop where
  fits : m.Fits
  kind : m.kind = .command
  action : m.action = .new ∨ m.action = .cancel ∨ m.action = .replace ∨
    m.action = .cancelAll

/-- The records of some commands. -/
def records (commands : List Message) : List UInt8 :=
  commands.flatMap fun command => record (frameOf command)

variable {fs : FileSystem} {fd : fs.Descriptor} {commands : List Message} {command : Message}
  {configHash : Nat}

/-- A record has a hundred bytes. -/
theorem length_record (bytes : Frame) : (record bytes).length = 100 := by
  rw [record, List.length_append, Vector.length_toList,
    BigEndian.length_bytes]
  rfl

/-- Records lie one behind the other. -/
theorem length_records (commands : List Message) :
    (records commands).length = 100 * commands.length := by
  induction commands with
  | nil => rfl
  | cons command rest inductionHypothesis =>
      have split : records (command :: rest) =
          record (frameOf command) ++ records rest := rfl
      rw [split, List.length_append, length_record, inductionHypothesis,
        List.length_cons]
      lia

/-- A header has sixteen bytes. -/
theorem length_header (configHash : Nat) :
    (header configHash).length = 16 := by
  simp [header]

/-! ## Reading -/

/-- Bytes that are there are read whole. -/
theorem readAll_append
    {wanted more : List UInt8} {size : Nat}
    (there : fd.rest = wanted ++ more) (wants : wanted.length = size) :
    ∃ next, readAll fd size = .ok (next, some wanted) ∧ next.rest = more :=
  fs.reads.readFully_append there wants

/-- At the end of the file nothing is read, which is no error. -/
theorem readAll_end
    {size : Nat} (empty : fd.rest = []) (wanted : 0 < size) :
    ∃ next, readAll fd size = .ok (next, none) ∧ next.rest = [] := by
  have few : fd.rest.length < size := by
    rw [empty]
    exact wanted
  obtain ⟨next, isRead, nextRest⟩ :=
    fs.reads.readFully_short few
  have ended : atEnd (fs.rest fd) = .ok none := if_neg (not_not.mpr empty)
  exact ⟨next, isRead.trans (congrArg (Except.map _) ended), nextRest⟩

/-- A file that ends within the bytes is refused. -/
theorem readAll_torn
    {size : Nat} (nonempty : fd.rest ≠ []) (few : fd.rest.length < size) :
    ∃ what, readAll fd size = .error what := by
  obtain ⟨next, isRead, _⟩ := fs.reads.readFully_short few
  have torn : atEnd (fs.rest fd) =
      .error "Torn journal record; restore a verified journal backup" :=
    if_pos nonempty
  exact ⟨_, isRead.trans (congrArg (Except.map _) torn)⟩

/-- Reading changes no byte of the file. -/
theorem readAll_contents
    {size : Nat} {next : fs.Descriptor} {result : Option (List UInt8)}
    (isRead : readAll fd size = .ok (next, result)) :
    next.contents = fd.contents :=
  ShortTransfers.readLoop_unchanged FileSystem.Descriptor.contents fs.keeps
    isRead

/-- A frame is read back from its bytes. -/
theorem frameFrom_toList (bytes : Frame) :
    frameFrom bytes.toList = bytes := by
  apply Vector.ext
  intro i small
  simp [frameFrom]

/-- A record that was written passes its checks. -/
theorem checkRecord_record
    (journaled : Journaled command) (listed : command.Listed) :
    checkRecord (frameFrom (frameOf command).toList)
        (BigEndian.bytes (checksum (frameOf command)).toNat 4) =
      .ok command := by
  have sameSum : BigEndian.number
      (BigEndian.bytes (checksum (frameOf command)).toNat 4) =
        (checksum (frameOf command)).toNat := by
    rw [BigEndian.number_bytes]
    exact Nat.mod_eq_of_lt (UInt32.toNat_lt _)
  unfold checkRecord
  rw [frameFrom_toList, decode_frameOf command journaled.fits listed]
  dsimp only
  rw [if_neg]
  rintro (different | notCommand | isStatus | isSnapshot)
  · exact different sameSum
  · exact notCommand journaled.kind
  · rcases journaled.action with isAction | isAction | isAction | isAction
    all_goals
      rw [isAction] at isStatus
      cases isStatus
  · rcases journaled.action with isAction | isAction | isAction | isAction
    all_goals
      rw [isAction] at isSnapshot
      cases isSnapshot

/-- A whole record is read. -/
theorem readRecord_record
    (journaled : Journaled command) (listed : command.Listed)
    {more : List UInt8}
    (there : fd.rest = record (frameOf command) ++ more) :
    ∃ after, readRecord fd = .ok (after, some command) ∧
      after.rest = more := by
  rw [record, List.append_assoc] at there
  obtain ⟨middle, bytesRead, middleRest⟩ :=
    readAll_append there (Vector.length_toList ..)
  obtain ⟨after, crcRead, afterRest⟩ :=
    readAll_append middleRest (BigEndian.length_bytes ..)
  refine ⟨after, ?_, afterRest⟩
  unfold readRecord
  rw [bytesRead]
  simp only [bind, Except.bind, readRest, crcRead,
    checkRecord_record journaled listed]

/-- A record that was cut is refused. -/
theorem readRecord_cut
    {length : Nat} (nonempty : 0 < length) (cut : length < 100)
    {bytes : List UInt8} (whole : bytes.length = 100)
    (there : fd.rest = bytes.take length) :
    ∃ what, readRecord fd = .error what := by
  have restLength : fd.rest.length = length := by
    rw [there, List.length_take]
    lia
  unfold readRecord
  by_cases inFrame : length < frameSize
  · have few : fd.rest.length < frameSize := restLength ▸ inFrame
    have some_left := List.length_pos_iff.mp (restLength ▸ nonempty)
    obtain ⟨what, torn⟩ := readAll_torn some_left few
    exact ⟨what, by rw [torn]; rfl⟩
  · have long : (fd.rest.take frameSize).length = frameSize := by
      rw [List.length_take]
      lia
    obtain ⟨middle, bytesRead, middleRest⟩ :=
      readAll_append (List.take_append_drop frameSize fd.rest).symm long
    have middleLength := congrArg List.length middleRest
    rw [List.length_drop, restLength] at middleLength
    rw [bytesRead]
    by_cases atFrame : middle.rest = []
    · obtain ⟨after, ended, _⟩ := readAll_end atFrame (Nat.succ_pos 3)
      exact ⟨"Missing journal checksum",
        by simp only [bind, Except.bind, readRest, ended]⟩
    · have few : middle.rest.length < 4 := by
        unfold frameSize at middleLength
        lia
      obtain ⟨what, torn⟩ := readAll_torn atFrame few
      exact ⟨what, by simp only [bind, Except.bind, readRest, torn]⟩

/-! ## Recovering -/

/-- At the end of the file the recovery ends. -/
theorem recover_end (empty : fd.rest = []) :
    ∃ after, recover fd = .ok (after, []) ∧ after.rest = [] ∧
      after.contents = fd.contents := by
  have wanted : 0 < frameSize := by decide
  obtain ⟨after, ended, afterRest⟩ := readAll_end empty wanted
  have isRead : readRecord fd = .ok (after, none) := by
    unfold readRecord
    rw [ended]
    rfl
  refine ⟨after, ?_, afterRest, readAll_contents ended⟩
  unfold recover
  split
  · next what failed =>
    rw [isRead] at failed
    cases failed
  · next last ended =>
    rw [isRead] at ended
    cases ended
    rfl
  · next last m found =>
    rw [isRead] at found
    cases found

/-- The recovery is refused with the text of its record. -/
theorem recover_refused
    {what : String} (refused : readRecord fd = .error what) :
    recover fd = .error what := by
  unfold recover
  split
  · next other failed =>
    rw [refused] at failed
    cases failed
    rfl
  · next last ended =>
    rw [refused] at ended
    cases ended
  · next last m found =>
    rw [refused] at found
    cases found

/-- A record that is read is the next command. -/
theorem recover_next
    {after : fs.Descriptor} (isRead : readRecord fd = .ok (after, some command)) :
    recover fd = (recover after).map
      fun result => (result.1, command :: result.2) := by
  conv_lhs => unfold recover
  split
  · next what failed =>
    rw [isRead] at failed
    cases failed
  · next last ended =>
    rw [isRead] at ended
    cases ended
  · next last m found =>
    rw [isRead] at found
    cases found
    cases recover after with
    | error what => rfl
    | ok result => rfl

/--
Records that were cut after some bytes: whole records are recovered, and all
other lengths are refused.
-/
theorem recover_take
    (journaled : ∀ command ∈ commands, Journaled command ∧ command.Listed)
    {length : Nat} (there : fd.rest = (records commands).take length)
    (inside : length ≤ 100 * commands.length) :
    (∀ count, length = 100 * count →
      ∃ after, recover fd = .ok (after, commands.take count) ∧
        after.rest = []) ∧
    ((∀ count, length ≠ 100 * count) → ∃ what, recover fd = .error what) := by
  induction commands generalizing fd length with
  | nil =>
      have isZero : length = 0 := by simpa using inside
      subst isZero
      refine ⟨fun count _ => ?_, fun never => absurd rfl (never 0)⟩
      obtain ⟨after, recovered, afterRest, _⟩ := recover_end there
      rw [List.take_nil]
      exact ⟨after, recovered, afterRest⟩
  | cons command rest inductionHypothesis =>
      obtain ⟨isJournaled, listed⟩ := journaled command (by simp)
      have split : records (command :: rest) =
          record (frameOf command) ++ records rest := rfl
      have recordLength := length_record (frameOf command)
      rw [List.length_cons] at inside
      by_cases whole : 100 ≤ length
      · have tail : fd.rest = record (frameOf command) ++
            (records rest).take (length - 100) := by
          rw [there, split, List.take_append, recordLength,
            List.take_of_length_le (by lia)]
        obtain ⟨after, isRead, afterRest⟩ :=
          readRecord_record isJournaled listed tail
        obtain ⟨complete, cut⟩ := inductionHypothesis
          (fun other member => journaled other (by simp [member])) afterRest
          (by lia)
        rw [recover_next isRead]
        constructor
        · intro count isCount
          obtain ⟨count, rfl⟩ : ∃ earlier, count = earlier + 1 :=
            ⟨count - 1, by lia⟩
          obtain ⟨last, recovered, lastRest⟩ := complete count (by lia)
          refine ⟨last, ?_, lastRest⟩
          rw [recovered]
          rfl
        · intro never
          obtain ⟨what, refused⟩ := cut fun count isCount =>
            never (count + 1) (by lia)
          exact ⟨what, by rw [refused]; rfl⟩
      · have head : fd.rest = (record (frameOf command)).take length := by
          rw [there, split, List.take_append_of_le_length (by lia)]
        constructor
        · intro count isCount
          obtain rfl : count = 0 := by lia
          have empty : fd.rest = [] := by
            rw [head, isCount]
            rfl
          obtain ⟨after, recovered, afterRest, _⟩ := recover_end empty
          exact ⟨after, recovered, afterRest⟩
        · intro never
          have positive : 0 < length :=
            Nat.pos_of_ne_zero fun isZero => never 0 isZero
          obtain ⟨what, refused⟩ :=
            readRecord_cut positive (by lia) recordLength head
          exact ⟨what, recover_refused refused⟩

/-! ## Opening and appending -/

/-- At the end of the file bytes are appended. -/
theorem writeAll_append
    (atEnd : fd.rest = []) (data : List UInt8) :
    ∃ next, writeAll fd data = .ok next ∧ next.rest = [] ∧
      next.before = fd.before ++ data :=
  fs.writes.writeLoop_append atEnd (Nat.le_refl _)

/-- An empty file becomes a new journal. -/
theorem openFile_empty
    (empty : fd.Stored []) (configHash : Nat) :
    ∃ journal, openFile fd configHash = .ok journal ∧
      journal.recovered = [] ∧ journal.fd.rest = [] ∧
      journal.fd.contents = header configHash := by
  have wanted : 0 < 16 := by decide
  obtain ⟨after, ended, afterRest⟩ := readAll_end empty.rest wanted
  have noContents : after.contents = [] :=
    (readAll_contents ended).trans empty.contents
  obtain ⟨written, isWritten, writtenRest, writtenBefore⟩ :=
    writeAll_append afterRest (header configHash)
  obtain ⟨last, recovered, lastRest, sameContents⟩ := recover_end writtenRest
  refine ⟨⟨last, []⟩, ?_, rfl, lastRest, ?_⟩
  · unfold openFile checkHeader
    simp only [ended, bind, Except.bind, isWritten, recovered]
  · have noBefore := (List.append_eq_nil_iff.mp noContents).1
    rw [sameContents, FileSystem.Descriptor.contents, writtenRest,
      writtenBefore, noBefore, List.append_nil, List.nil_append]

/-- A file with its header recovers what its records recover. -/
theorem openFile_header
    {bytes : List UInt8} (isStored : fd.Stored (header configHash ++ bytes)) :
    ∃ after : fs.Descriptor, after.rest = bytes ∧
      openFile fd configHash =
        (recover after).map fun result => ⟨result.1, result.2⟩ := by
  obtain ⟨after, isRead, afterRest⟩ :=
    readAll_append isStored.rest (length_header configHash)
  refine ⟨after, afterRest, ?_⟩
  unfold openFile checkHeader
  simp only [isRead, bind, Except.bind, ne_eq, not_true_eq_false, if_false]
  cases recover after with
  | error what => rfl
  | ok result => rfl

/-- A file that is shorter than its header is refused. -/
theorem openFile_short
    {bytes : List UInt8} (isStored : fd.Stored bytes) (configHash : Nat)
    (nonempty : bytes ≠ []) (short : bytes.length < 16) :
    ∃ what, openFile fd configHash = .error what := by
  rw [← isStored.rest] at nonempty short
  obtain ⟨what, torn⟩ := readAll_torn nonempty short
  refine ⟨what, ?_⟩
  unfold openFile checkHeader
  rw [torn]
  rfl

/-- A file with another header of the same length is refused. -/
theorem openFile_wrongHeader
    {found bytes : List UInt8} (isStored : fd.Stored (found ++ bytes))
    (whole : found.length = 16) (wrong : found ≠ header configHash) :
    ∃ what, openFile fd configHash = .error what := by
  obtain ⟨after, isRead, _⟩ := readAll_append isStored.rest whole
  refine ⟨"Journal version/instrument configuration mismatch", ?_⟩
  unfold openFile checkHeader
  simp only [isRead, bind, Except.bind, ne_eq, wrong, not_false_eq_true,
    if_true]

/-- A file with the header of another configuration is refused. -/
theorem openFile_mismatch
    {otherHash : Nat} {bytes : List UInt8}
    (isStored : fd.Stored (header configHash ++ bytes))
    (fits : configHash < 2 ^ 64) (otherFits : otherHash < 2 ^ 64)
    (different : otherHash ≠ configHash) :
    ∃ what, openFile fd otherHash = .error what := by
  refine openFile_wrongHeader isStored (length_header configHash)
    fun same => ?_
  have sameBytes := List.append_cancel_left same
  exact different (BigEndian.bytes_inj fits otherFits sameBytes).symm

/-- Commands are appended when their enumerations are listed. -/
theorem append_iff
    {journal : Journal fs} (fits : command.Fits)
    (atEnd : journal.fd.rest = []) :
    (∃ next, journal.append command = .ok next) ↔ command.Listed := by
  unfold append
  constructor
  · rintro ⟨next, appended⟩
    obtain ⟨bytes, encoded, _⟩ := Fallible.bind_ok appended
    exact ((encode_iff command fits).mp encoded).1
  · intro listed
    have encoded := (encode_iff command fits).mpr ⟨listed, rfl⟩
    obtain ⟨fd, isWritten, _⟩ :=
      writeAll_append atEnd (record (frameOf command))
    exact ⟨{ journal with fd := fd },
      by simp only [encoded, bind, Except.bind, isWritten]⟩

/-- A command is appended as its record. -/
theorem append_contents
    {journal next : Journal fs} (fits : command.Fits)
    (atEnd : journal.fd.rest = [])
    (appended : journal.append command = .ok next) :
    next.fd.rest = [] ∧ next.fd.contents =
      journal.fd.contents ++ record (frameOf command) := by
  obtain ⟨bytes, encoded, appended⟩ := Fallible.bind_ok appended
  obtain ⟨fd, isWritten, same⟩ := Fallible.bind_ok appended
  cases same
  obtain ⟨_, rfl⟩ := (encode_iff command fits).mp encoded
  obtain ⟨after, sameWritten, afterRest, afterBefore⟩ :=
    writeAll_append atEnd (record (frameOf command))
  rw [isWritten] at sameWritten
  cases sameWritten
  refine ⟨afterRest, ?_⟩
  rw [FileSystem.Descriptor.contents, FileSystem.Descriptor.contents,
    afterRest, afterBefore, atEnd, List.append_nil, List.append_nil]

/-- Append commands, until one throws. -/
def appendAll (journal : Journal fs) (commands : List Message) :
    Except String (Journal fs) :=
  commands.foldlM append journal

/-- Commands with listed values are all appended. -/
theorem appendAll_listed
    {journal : Journal fs} (journaled : ∀ command ∈ commands, Journaled command)
    (atEnd : journal.fd.rest = [])
    (listed : ∀ command ∈ commands, command.Listed) :
    ∃ last, journal.appendAll commands = .ok last := by
  induction commands generalizing journal with
  | nil => exact ⟨journal, rfl⟩
  | cons command rest inductionHypothesis =>
      have fits := (journaled command (by simp)).fits
      obtain ⟨next, appended⟩ :=
        (append_iff fits atEnd).mpr (listed command (by simp))
      obtain ⟨last, later⟩ := inductionHypothesis
        (fun other member => journaled other (by simp [member]))
        (append_contents fits atEnd appended).1
        (fun other member => listed other (by simp [member]))
      refine ⟨last, ?_⟩
      rw [appendAll, List.foldlM_cons, appended]
      exact later

/-- The file then has all their records, in order. -/
theorem appendAll_contents
    {journal last : Journal fs}
    (journaled : ∀ command ∈ commands, Journaled command)
    (atEnd : journal.fd.rest = [])
    (appended : journal.appendAll commands = .ok last) :
    (∀ command ∈ commands, command.Listed) ∧
      last.fd.contents = journal.fd.contents ++ records commands := by
  induction commands generalizing journal with
  | nil =>
      cases appended
      exact ⟨by simp, by simp [records]⟩
  | cons command rest inductionHypothesis =>
      have fits := (journaled command (by simp)).fits
      rw [appendAll, List.foldlM_cons] at appended
      obtain ⟨next, isNext, appended⟩ := Fallible.bind_ok appended
      obtain ⟨nextEnd, nextContents⟩ := append_contents fits atEnd isNext
      obtain ⟨listed, lastContents⟩ := inductionHypothesis
        (fun other member => journaled other (by simp [member])) nextEnd
        appended
      constructor
      · intro other member
        rcases List.mem_cons.mp member with rfl | later
        · exact (append_iff fits atEnd).mp ⟨next, isNext⟩
        · exact listed other later
      · rw [lastContents, nextContents, List.append_assoc]
        rfl

/-- The part of a file after a cut behind its header. -/
theorem take_header
    (configHash : Nat) (bytes : List UInt8) {length : Nat}
    (long : 16 ≤ length) :
    (header configHash ++ bytes).take length =
      header configHash ++ bytes.take (length - 16) := by
  rw [List.take_append, length_header,
    List.take_of_length_le (by rw [length_header]; exact long)]

/-- Cuts behind the header are decided by the records before them. -/
theorem openFile_cut
    (journaled : ∀ command ∈ commands, Journaled command ∧ command.Listed)
    {length : Nat} (inside : length ≤ 100 * commands.length)
    (isStored : fd.Stored
      (header configHash ++ (records commands).take length)) :
    (∀ count, length = 100 * count →
      ∃ reopened, openFile fd configHash = .ok reopened ∧
        reopened.recovered = commands.take count) ∧
    ((∀ count, length ≠ 100 * count) →
      ∃ what, openFile fd configHash = .error what) := by
  obtain ⟨after, afterRest, isOpened⟩ := openFile_header isStored
  obtain ⟨complete, cut⟩ := recover_take journaled afterRest inside
  rw [isOpened]
  constructor
  · intro count isCount
    obtain ⟨last, recovered, _⟩ := complete count isCount
    rw [recovered]
    exact ⟨⟨last, commands.take count⟩, rfl, rfl⟩
  · intro never
    obtain ⟨what, refused⟩ := cut never
    rw [refused]
    exact ⟨what, rfl⟩

/-- A file of whole records is recovered. -/
theorem openFile_whole
    (journaled : ∀ command ∈ commands, Journaled command ∧ command.Listed)
    (isStored : fd.Stored (header configHash ++ records commands)) :
    ∃ reopened, openFile fd configHash = .ok reopened ∧
      reopened.recovered = commands := by
  rw [← List.take_of_length_le (length_records commands).le] at isStored
  obtain ⟨reopened, isOpened, recovered⟩ :=
    (openFile_cut journaled (Nat.le_refl _) isStored).1 commands.length rfl
  rw [List.take_of_length_le (Nat.le_refl _)] at recovered
  exact ⟨reopened, isOpened, recovered⟩

/--
A journal of commands, and what is left of its file after a crash.  The whole
file recovers the commands.  A file that was cut is refused, unless nothing is
left of it, which makes it a new journal, or whole records are left, which
recovers their commands.  Another configuration is always refused.
-/
theorem recovers_crash_cuts
    (hashFits : configHash < 2 ^ 64)
    (journaled : ∀ command ∈ commands, Journaled command)
    (empty : fd.Stored []) :
    ∃ fresh, openFile fd configHash = .ok fresh ∧
      ((∀ command ∈ commands, command.Listed) →
        ∃ journal, fresh.appendAll commands = .ok journal) ∧
      ∀ journal, fresh.appendAll commands = .ok journal →
        ∀ reading : fs.Descriptor,
          (reading.Stored journal.fd.contents →
            ∃ reopened, openFile reading configHash = .ok reopened ∧
              reopened.recovered = commands) ∧
          (reading.Stored [] →
            ∃ reopened, openFile reading configHash = .ok reopened ∧
              reopened.recovered = [] ∧
              reopened.fd.contents = header configHash) ∧
          (∀ length < journal.fd.contents.length,
            reading.Stored (journal.fd.contents.take length) →
            (∀ count, length = 16 + 100 * count →
              ∃ reopened, openFile reading configHash = .ok reopened ∧
                reopened.recovered = commands.take count) ∧
            (length ≠ 0 → (∀ count, length ≠ 16 + 100 * count) →
              ∃ what, openFile reading configHash = .error what)) ∧
          ∀ otherHash < 2 ^ 64, otherHash ≠ configHash →
            reading.Stored journal.fd.contents →
            ∃ what, openFile reading otherHash = .error what := by
  obtain ⟨fresh, opened, _, freshEnd, freshContents⟩ :=
    openFile_empty empty configHash
  refine ⟨fresh, opened, appendAll_listed journaled freshEnd, ?_⟩
  intro journal appended reading
  obtain ⟨listed, contents⟩ :=
    appendAll_contents journaled freshEnd appended
  rw [freshContents] at contents
  have both : ∀ command ∈ commands, Journaled command ∧ command.Listed :=
    fun command member => ⟨journaled command member, listed command member⟩
  have recordsLength := length_records commands
  have contentsLength : journal.fd.contents.length =
      16 + 100 * commands.length := by
    rw [contents, List.length_append, length_header, recordsLength]
  refine ⟨?_, ?_, ?_, ?_⟩
  · rw [contents]
    exact openFile_whole both
  · intro emptied
    obtain ⟨reopened, isOpened, recovered, _, isHeader⟩ :=
      openFile_empty emptied configHash
    exact ⟨reopened, isOpened, recovered, isHeader⟩
  · intro length short isStored
    rw [contents] at isStored
    constructor
    · intro count isCount
      rw [take_header _ _ (by lia)] at isStored
      exact (openFile_cut both (by lia) isStored).1 count (by lia)
    · intro nonempty never
      by_cases inHeader : length < 16
      · refine openFile_short isStored configHash ?_ ?_
        · rw [← List.length_pos_iff, List.length_take, ← contents]
          lia
        · rw [List.length_take]
          lia
      · rw [take_header _ _ (by lia)] at isStored
        exact (openFile_cut both (by lia) isStored).2
          fun count isCount => never count (by lia)
  · intro otherHash otherFits different isStored
    rw [contents] at isStored
    exact openFile_mismatch isStored hashFits otherFits different

/-- A planned file that has just been opened. -/
def planned (bytes : List UInt8) (plan : Nat → Nat) : plannedFiles.Descriptor :=
  { rest := bytes, plan := plan : ShortTransfers.Planned }

/-- A descriptor with a plan holds its file. -/
theorem planned_stored (bytes : List UInt8) (plan : Nat → Nat) :
    (planned bytes plan).Stored bytes :=
  ⟨rfl, rfl⟩

/-- Two commands, of which a cut in the second one leaves nothing. -/
theorem recovers_crash_cuts_two :
    let first : Message :=
      { orderId := 7, clientId := 1, requestId := 1, price := 90,
        quantity := 5, instrumentId := 1 }
    let second : Message := { first with action := .cancel, requestId := 2 }
    ∃ fresh journal, openFile (planned [] fun _ => 2) 3 = .ok fresh ∧
      fresh.appendAll [first, second] = .ok journal ∧
      (∃ reopened, openFile (planned (journal.fd.contents.take 116)
        fun _ => 6) 3 = .ok reopened ∧ reopened.recovered = [first]) ∧
      ∃ what, openFile (planned (journal.fd.contents.take 117)
        fun _ => 6) 3 = .error what := by
  intro first second
  have firstFits : first.Fits := by
    constructor <;> decide
  have firstListed : first.Listed := by
    constructor <;> decide
  have secondFits : second.Fits := by
    constructor <;> decide
  have secondListed : second.Listed := by
    constructor <;> decide
  have journaled : ∀ command ∈ [first, second], Journaled command := by
    rintro command member
    rcases List.mem_pair.mp member with rfl | rfl
    · exact ⟨firstFits, rfl, Or.inl rfl⟩
    · exact ⟨secondFits, rfl, Or.inr (Or.inl rfl)⟩
  have listed : ∀ command ∈ [first, second], command.Listed := by
    rintro command member
    rcases List.mem_pair.mp member with rfl | rfl
    · exact firstListed
    · exact secondListed
  have hashFits : 3 < 2 ^ 64 := by decide
  have empty := planned_stored [] fun _ => 2
  obtain ⟨fresh, opened, appends, recovers⟩ :=
    recovers_crash_cuts hashFits journaled empty
  obtain ⟨journal, appended⟩ := appends listed
  obtain ⟨_, _, freshEnd, freshContents⟩ : ∃ _ : Unit,
      fresh.recovered = [] ∧ fresh.fd.rest = [] ∧
        fresh.fd.contents = header 3 := by
    obtain ⟨other, isOther, facts⟩ := openFile_empty empty 3
    rw [opened] at isOther
    cases isOther
    exact ⟨(), facts⟩
  have long : journal.fd.contents.length = 216 := by
    rw [(appendAll_contents journaled freshEnd appended).2, freshContents,
      List.length_append, length_header, length_records]
    rfl
  refine ⟨fresh, journal, opened, appended, ?_, ?_⟩
  · exact ((recovers journal appended _).2.2.1 116 (by lia)
      (planned_stored _ _)).1 1 rfl
  · exact ((recovers journal appended _).2.2.1 117 (by lia)
      (planned_stored _ _)).2 (by decide) (fun count => by lia)

/-! ## The codec -/

/--
The codec is a bijection between messages with listed enumerations and the
frames it accepts.  So a command that was read from the wire can be journaled
and is recovered unchanged.
-/
theorem codec_bijective :
    (∀ m : Message, m.Fits → m.Listed →
      ∃ b, encode m = .ok b ∧ decode b = some m) ∧
    (∀ m : Message, m.Fits → ¬ m.Listed →
      encode m = .error "Invalid trading message enum") ∧
    (∀ (b : Frame) (m : Message), decode b = some m →
      m.Fits ∧ m.Listed ∧ encode m = .ok b) ∧
    (∀ (b other : Frame) (m : Message), decode b = some m →
      decode other = some m → b = other) ∧
    (∀ (b : Frame) (m : Message), decode b = some m → m.kind = .command →
      (m.action = .new ∨ m.action = .cancel ∨ m.action = .replace ∨
        m.action = .cancelAll) →
      ∀ (fs : FileSystem) (fd : fs.Descriptor) (configHash : Nat),
        fd.Stored [] →
        ∃ fresh journal, openFile fd configHash = .ok fresh ∧
          fresh.append m = .ok journal ∧
          ∀ reading : fs.Descriptor, reading.Stored journal.fd.contents →
            ∃ reopened, openFile reading configHash = .ok reopened ∧
              reopened.recovered = [m]) := by
  refine ⟨?_, ?_, ?_, ?_, ?_⟩
  · intro m fits listed
    exact ⟨frameOf m, (encode_iff m fits).mpr ⟨listed, rfl⟩,
      decode_frameOf m fits listed⟩
  · intro m fits unlisted
    cases encoded : encode m with
    | error what =>
        unfold encode at encoded
        split_ifs at encoded
        exact encoded.symm
    | ok b => exact absurd ((encode_iff m fits).mp encoded).1 unlisted
  · intro b m decoded
    obtain ⟨fits, encoded⟩ := decode_iff.mp decoded
    exact ⟨fits, (decode_some decoded).1, encoded⟩
  · intro b other m decoded otherDecoded
    exact (decode_some decoded).2.frameOf_eq.symm.trans
      (decode_some otherDecoded).2.frameOf_eq
  · intro b m decoded isCommand action fs fd configHash empty
    obtain ⟨listed, readFrom⟩ := decode_some decoded
    have journaled : Journaled m := ⟨readFrom.fits, isCommand, action⟩
    obtain ⟨fresh, opened, _, freshEnd, freshContents⟩ :=
      openFile_empty empty configHash
    obtain ⟨journal, appended⟩ := (append_iff readFrom.fits freshEnd).mpr listed
    have contents := (append_contents readFrom.fits freshEnd appended).2
    have both : ∀ other ∈ [m], Journaled other ∧ other.Listed := by
      intro other member
      cases List.mem_singleton.mp member
      exact ⟨journaled, listed⟩
    have sameFile : journal.fd.contents =
        header configHash ++ records [m] := by
      rw [contents, freshContents]
      simp [records]
    refine ⟨fresh, journal, opened, appended, fun reading isStored => ?_⟩
    rw [sameFile] at isStored
    exact openFile_whole both isStored

end LimitOrderBook.Journal
