import LimitOrderBook.JournalRecovery
import Mathlib.Data.UInt

namespace LimitOrderBook.Journal

/-!
# Damage to a journal

One step of the checksum can be undone: the byte is combined by exclusive or,
and the multiplier is odd.  So a single byte that differs changes the checksum
of every frame, and no file with one damaged byte is opened.
-/

/-- One step of the checksum. -/
def mix (hash : UInt32) (byte : UInt8) : UInt32 :=
  (hash ^^^ byte.toUInt32) * 16777619

theorem mul_multiplier_inj
    {first second : UInt32} (same : first * 16777619 = second * 16777619) :
    first = second := by
  have inverse : (16777619 : UInt32) * 899433627 = 1 := by decide
  have undone := congrArg (· * 899433627) same
  simpa [mul_assoc, inverse] using undone

theorem mix_hash_inj
    {first second : UInt32} {byte : UInt8}
    (same : mix first byte = mix second byte) : first = second := by
  have sameXor := congrArg (· ^^^ byte.toUInt32) (mul_multiplier_inj same)
  simpa [UInt32.xor_assoc] using sameXor

theorem mix_byte_inj
    {hash : UInt32} {first second : UInt8}
    (same : mix hash first = mix hash second) : first = second := by
  have sameXor := congrArg (hash ^^^ ·) (mul_multiplier_inj same)
  have sameWide : first.toUInt32 = second.toUInt32 := by
    simpa [← UInt32.xor_assoc] using sameXor
  exact UInt8.toUInt32_inj.mp sameWide

theorem foldl_mix_inj
    {bytes : List UInt8} {first second : UInt32}
    (same : bytes.foldl mix first = bytes.foldl mix second) :
    first = second := by
  induction bytes generalizing first second with
  | nil => exact same
  | cons byte rest inductionHypothesis =>
      exact mix_hash_inj (inductionHypothesis same)

/-- One byte that differs changes the result, whatever surrounds it. -/
theorem foldl_mix_set
    {bytes : List UInt8} {position : Nat} {value : UInt8} {hash : UInt32}
    (inside : position < bytes.length)
    (different : bytes[position]? ≠ some value) :
    (bytes.set position value).foldl mix hash ≠ bytes.foldl mix hash := by
  induction bytes generalizing position hash with
  | nil => cases inside
  | cons byte rest inductionHypothesis =>
      cases position with
      | zero =>
          intro same
          rw [List.set_cons_zero, List.foldl_cons, List.foldl_cons] at same
          have sameByte := mix_byte_inj (foldl_mix_inj same)
          rw [List.getElem?_cons_zero, sameByte] at different
          exact different rfl
      | succ position =>
          exact inductionHypothesis (Nat.lt_of_succ_lt_succ inside) different

theorem checksum_eq (bytes : Frame) :
    checksum bytes = bytes.toList.foldl mix 2166136261 := rfl

theorem frameFrom_bytes
    {bytes : List UInt8} (whole : bytes.length = frameSize) :
    (frameFrom bytes).toList = bytes := by
  apply List.ext_getElem
  · rw [Vector.length_toList, whole]
  · intro i _ small
    simp [frameFrom, small]

/-- A whole record passes or fails its checks. -/
theorem readRecord_whole
    {fs : FileSystem} {fd : fs.Descriptor} {bytes crc more : List UInt8}
    (there : fd.rest = bytes ++ (crc ++ more))
    (wholeBytes : bytes.length = frameSize) (wholeCrc : crc.length = 4) :
    ∃ after : fs.Descriptor, after.rest = more ∧ readRecord fd =
      (checkRecord (frameFrom bytes) crc).map fun m => (after, some m) := by
  obtain ⟨middle, bytesRead, middleRest⟩ := readAll_append there wholeBytes
  obtain ⟨after, crcRead, afterRest⟩ := readAll_append middleRest wholeCrc
  refine ⟨after, afterRest, ?_⟩
  unfold readRecord
  rw [bytesRead]
  simp only [bind, Except.bind, readRest, crcRead]
  cases checkRecord (frameFrom bytes) crc with
  | error what => rfl
  | ok m => rfl

theorem checkRecord_mismatch
    {bytes : Frame} {crc : List UInt8}
    (different : BigEndian.number crc ≠ (checksum bytes).toNat) :
    checkRecord bytes crc = .error "Corrupt journal record" := by
  unfold checkRecord
  cases decode bytes with
  | none => rfl
  | some m => exact if_pos (Or.inl different)

/-- The checksum does not match a record with one damaged byte. -/
theorem readRecord_damaged
    {fs : FileSystem} {fd : fs.Descriptor} {frame : Frame} {position : Nat} {value : UInt8}
    {more : List UInt8} (inside : position < 100)
    (different : (record frame)[position]? ≠ some value)
    (there : fd.rest = (record frame).set position value ++ more) :
    ∃ what, readRecord fd = .error what := by
  have frameLength : frame.toList.length = frameSize := Vector.length_toList ..
  have sumFits : (checksum frame).toNat < 256 ^ 4 := UInt32.toNat_lt _
  have sumNumber : BigEndian.number
      (BigEndian.bytes (checksum frame).toNat 4) =
        (checksum frame).toNat := by
    rw [BigEndian.number_bytes, Nat.mod_eq_of_lt sumFits]
  by_cases inFrame : position < frameSize
  · have inBytes : position < frame.toList.length := by lia
    rw [record, List.getElem?_append_left inBytes]
      at different
    rw [record, List.set_append_left _ _ inBytes,
      List.append_assoc] at there
    have damagedLength : (frame.toList.set position value).length =
        frameSize := by rw [List.length_set, frameLength]
    obtain ⟨after, _, isRead⟩ := readRecord_whole there damagedLength
      (BigEndian.length_bytes ..)
    have mismatch : BigEndian.number
        (BigEndian.bytes (checksum frame).toNat 4) ≠
          (checksum (frameFrom (frame.toList.set position value))).toNat := by
      rw [sumNumber, checksum_eq, checksum_eq, frameFrom_bytes damagedLength]
      intro same
      exact foldl_mix_set inBytes different
        (UInt32.toNat_inj.mp same).symm
    rw [checkRecord_mismatch mismatch] at isRead
    exact ⟨_, isRead⟩
  · have behind : frame.toList.length ≤ position := by lia
    rw [record, List.getElem?_append_right behind] at different
    rw [record, List.set_append_right _ _ behind, List.append_assoc] at there
    obtain ⟨after, _, isRead⟩ := readRecord_whole there frameLength
      (by rw [List.length_set, BigEndian.length_bytes])
    have mismatch : BigEndian.number
        ((BigEndian.bytes (checksum frame).toNat 4).set
          (position - frame.toList.length) value) ≠
            (checksum (frameFrom frame.toList)).toNat := by
      rw [frameFrom_toList]
      intro same
      have sameBytes := BigEndian.number_inj (by rw [List.length_set])
        (same.trans sumNumber.symm)
      refine different ?_
      rw [← sameBytes]
      refine List.getElem?_set_self ?_
      rw [BigEndian.length_bytes, frameLength]
      change position - 96 < 4
      lia
    rw [checkRecord_mismatch mismatch] at isRead
    exact ⟨_, isRead⟩

variable {fs : FileSystem} {commands : List Message} {configHash position : Nat} {value : UInt8}

/-- No records with one damaged byte are recovered. -/
theorem recover_damaged
    {fd : fs.Descriptor}
    (journaled : ∀ command ∈ commands, Journaled command ∧ command.Listed)
    (inside : position < (records commands).length)
    (different : (records commands)[position]? ≠ some value)
    (there : fd.rest = (records commands).set position value) :
    ∃ what, recover fd = .error what := by
  induction commands generalizing fd position with
  | nil => cases inside
  | cons command rest inductionHypothesis =>
      obtain ⟨isJournaled, listed⟩ := journaled command (by simp)
      have split : records (command :: rest) =
          record (frameOf command) ++ records rest := rfl
      have recordLength := length_record (frameOf command)
      rw [split] at inside different there
      by_cases here : position < 100
      · rw [List.getElem?_append_left (by lia)] at different
        rw [List.set_append_left _ _ (by lia)] at there
        obtain ⟨what, refused⟩ := readRecord_damaged here different there
        exact ⟨what, recover_refused refused⟩
      · rw [List.getElem?_append_right (by lia)] at different
        rw [List.set_append_right _ _ (by lia)] at there
        rw [List.length_append] at inside
        obtain ⟨after, isRead, afterRest⟩ :=
          readRecord_record isJournaled listed there
        obtain ⟨what, refused⟩ := inductionHypothesis
          (fun other member => journaled other (by simp [member]))
          (by lia) different afterRest
        exact ⟨what, by rw [recover_next isRead, refused]; rfl⟩

/--
A journal of commands whose file has one byte replaced by another value is
never opened.
-/
theorem damage_detected
    (journaled : ∀ command ∈ commands, Journaled command)
    {fd reading : fs.Descriptor} (empty : fd.Stored [])
    {fresh journal : Journal fs} (opened : openFile fd configHash = .ok fresh)
    (appended : fresh.appendAll commands = .ok journal)
    (inside : position < journal.fd.contents.length)
    (different : journal.fd.contents[position]? ≠ some value)
    (isStored : reading.Stored (journal.fd.contents.set position value)) :
    ∃ what, openFile reading configHash = .error what := by
  obtain ⟨other, sameOpened, _, freshEnd, freshContents⟩ :=
    openFile_empty empty configHash
  rw [opened] at sameOpened
  cases sameOpened
  obtain ⟨listed, contents⟩ :=
    appendAll_contents journaled freshEnd appended
  rw [freshContents] at contents
  have headerLength := length_header configHash
  rw [contents] at inside different isStored
  by_cases inHeader : position < 16
  · rw [List.getElem?_append_left (by lia)] at different
    rw [List.set_append_left _ _ (by lia)] at isStored
    refine openFile_wrongHeader isStored (by rw [List.length_set, headerLength])
      ?_
    intro same
    refine different ?_
    rw [← same]
    exact List.getElem?_set_self (by lia)
  · rw [List.getElem?_append_right (by lia)] at different
    rw [List.set_append_right _ _ (by lia)] at isStored
    rw [List.length_append] at inside
    obtain ⟨after, afterRest, isOpened⟩ := openFile_header isStored
    obtain ⟨what, refused⟩ := recover_damaged
      (fun command member => ⟨journaled command member,
        listed command member⟩) (by lia) different afterRest
    rw [isOpened, refused]
    exact ⟨what, rfl⟩

/-- A damaged quantity in a journal of one command. -/
theorem damage_detected_quantity :
    let command : Message :=
      { orderId := 7, clientId := 1, requestId := 1, price := 90,
        quantity := 5, instrumentId := 1 }
    ∃ fresh journal, openFile (planned [] fun _ => 0) 3 = .ok fresh ∧
      fresh.appendAll [command] = .ok journal ∧
      journal.fd.contents[91]? = some 5 ∧
      ∃ what, openFile (planned (journal.fd.contents.set 91 6) fun _ => 9) 3 =
        .error what := by
  intro command
  have fits : command.Fits := by
    constructor <;> decide
  have listed : command.Listed := by
    constructor <;> decide
  have journaled : ∀ other ∈ [command], Journaled other := by
    intro other member
    cases List.mem_singleton.mp member
    exact ⟨fits, rfl, Or.inl rfl⟩
  have allListed : ∀ other ∈ [command], other.Listed := by
    intro other member
    cases List.mem_singleton.mp member
    exact listed
  have empty := planned_stored [] fun _ => 0
  obtain ⟨fresh, opened, _, freshEnd, freshContents⟩ := openFile_empty empty 3
  obtain ⟨journal, appended⟩ :=
    appendAll_listed journaled freshEnd allListed
  have contents := (appendAll_contents journaled freshEnd appended).2
  rw [freshContents] at contents
  have stored : journal.fd.contents[91]? = some 5 := by
    rw [contents]
    decide +kernel
  have inside : 91 < journal.fd.contents.length := by
    rw [contents, List.length_append, length_header, length_records]
    decide
  refine ⟨fresh, journal, opened, appended, stored, ?_⟩
  refine damage_detected journaled empty opened appended inside ?_
    (planned_stored _ _)
  rw [stored]
  decide

end LimitOrderBook.Journal
