import LimitOrderBook.EngineRequests
import LimitOrderBook.Exchange
import LimitOrderBook.JournalRecovery
import LimitOrderBook.WriteAheadLog

namespace LimitOrderBook

/-!
# The exchange across crashes

`run_exchange` with a journal file.  A process may end at any byte of a write
and start again on what is left of the file.  A write that was interrupted
leaves a prefix of what it was to write; what `append` returned from has been
forced to the disk and stays there.

Whatever was answered before some crashes is still answered the same way after
them, and no command that was answered is executed twice.
-/

namespace Journal

variable {fs : FileSystem} {fd : fs.Descriptor} {commands : List Message} {configHash : Nat}

theorem readRecord_contents
    {after : fs.Descriptor} {result : Option Message}
    (isRead : readRecord fd = .ok (after, result)) :
    after.contents = fd.contents := by
  obtain ⟨⟨middle, bytes⟩, bytesRead, isRead⟩ := Fallible.bind_ok isRead
  have first := readAll_contents bytesRead
  cases bytes with
  | none =>
      cases isRead
      exact first
  | some bytes =>
      obtain ⟨⟨last, crc⟩, crcRead, isRead⟩ := Fallible.bind_ok isRead
      have second := readAll_contents crcRead
      cases crc with
      | none => cases isRead
      | some crc =>
          obtain ⟨_, _, same⟩ := Fallible.bind_ok isRead
          cases same
          exact second.trans first

/-- Recovering does not change a file. -/
theorem recover_contents
    {after : fs.Descriptor} (recovered : recover fd = .ok (after, commands)) :
    after.contents = fd.contents := by
  induction fd using recover.induct generalizing after commands with
  | case1 fd what failed =>
      rw [recover_refused failed] at recovered
      cases recovered
  | case2 fd last ended =>
      have isLast : recover fd = .ok (last, []) := by
        unfold recover
        split
        · next what failed =>
          rw [ended] at failed
          cases failed
        · next same =>
          rw [ended] at same
          cases same
          rfl
        · next same =>
          rw [ended] at same
          cases same
      rw [isLast] at recovered
      cases recovered
      exact readRecord_contents ended
  | case3 fd next m isRead inductionHypothesis =>
      rw [recover_next isRead] at recovered
      cases later : recover next with
      | error what => rw [later] at recovered; cases recovered
      | ok result =>
          rw [later] at recovered
          cases recovered
          exact (inductionHypothesis later).trans (readRecord_contents isRead)

/-- A file of whole records is ready for further ones. -/
theorem openFile_records
    (journaled : ∀ command ∈ commands, Journaled command ∧ command.Listed)
    (isStored : fd.Stored (header configHash ++ records commands)) :
    ∃ reopened, openFile fd configHash = .ok reopened ∧
      reopened.recovered = commands ∧ reopened.fd.rest = [] ∧
      reopened.fd.contents = header configHash ++ records commands := by
  obtain ⟨after, isRead, afterRest⟩ :=
    readAll_append isStored.rest (length_header configHash)
  have whole : after.rest = (records commands).take (100 * commands.length) := by
    rw [List.take_of_length_le (length_records commands).le]
    exact afterRest
  obtain ⟨last, recovered, lastRest⟩ :=
    (recover_take journaled whole (Nat.le_refl _)).1 commands.length rfl
  rw [List.take_of_length_le (Nat.le_refl _)] at recovered
  refine ⟨⟨last, commands⟩, ?_, rfl, lastRest, ?_⟩
  · unfold openFile checkHeader
    simp only [isRead, bind, Except.bind, ne_eq, not_true_eq_false, if_false,
      recovered]
  · rw [recover_contents recovered, readAll_contents isRead]
    exact isStored.contents

end Journal

/-- The process of an exchange. -/
structure Running (fs : FileSystem) where
  engine : MatchingEngine
  journal : Journal fs

/-- A machine that runs an exchange. -/
structure Host (fs : FileSystem) where
  running : Option (Running fs) := none
  /-- The journal file while there is no process. -/
  disk : List UInt8 := []
  /-- The journaled commands that were answered, with their batches. -/
  answered : List (Message × Batch) := []

/-- What the engine thread takes from the queue of requests. -/
structure Message.Received (c : Message) : Prop where
  fits : c.Fits
  listed : c.Listed
  kind : c.kind = .command

/-- What a message writes to the journal. -/
def Message.recordOf (c : Message) : List UInt8 :=
  if Exchange.journaled c then Journal.record (frameOf c) else []

namespace Host

variable {fs : FileSystem}

/--
A step of the machine.  A start also sums the cash of all clients, and the
source does so in `long double`: which logs leave sums of zero is `conserves`.
-/
inductive Step (pool : PoolBytes) (instruments : Instruments)
    (configHash : Nat) (conserves : List Message → Prop) (host : Host fs) :
    Host fs → Prop where
  | answer {running : Running fs} {c : Message} {journal : Journal fs}
      {turn : Turn} :
      host.running = some running →
      c.Received →
      Exchange.journaled c = true →
      running.journal.append c = .ok journal →
      running.engine.process c = .ok turn →
      Step pool instruments configHash conserves host
        { host with
          running := some ⟨turn.engine, journal⟩
          answered := host.answered ++ [(c, turn.batch)] }
  /-- Queries are answered, but not journaled. -/
  | query {running : Running fs} {c : Message} {served : Served} :
      host.running = some running →
      c.Received →
      Exchange.journaled c = false →
      Exchange.serve ⟨running.engine, []⟩ c = .ok served →
      Step pool instruments configHash conserves host
        { host with running := some ⟨served.exchange.engine, running.journal⟩ }
  /-- A crash, with some bytes of the next record written. -/
  | crash {running : Running fs} {c : Message} (written : Nat) :
      host.running = some running →
      c.Received →
      Step pool instruments configHash conserves host
        { host with
          running := none
          disk := running.journal.fd.contents ++ c.recordOf.take written }
  | start {fd : fs.Descriptor} {epoch : Nat} {journal : Journal fs}
      {engine : MatchingEngine} :
      host.running = none →
      fd.Stored host.disk →
      Journal.openFile fd configHash = .ok journal →
      Exchange.recover pool instruments epoch journal.recovered = .ok engine →
      conserves journal.recovered →
      Step pool instruments configHash conserves host
        { host with running := some ⟨engine, journal⟩ }
  /-- A crash while the header of a new journal is written. -/
  | crashStart (written : Nat) :
      host.running = none →
      host.disk = [] →
      Step pool instruments configHash conserves host
        { host with disk := (Journal.header configHash).take written }

/-- Some steps of a host. -/
inductive Steps (pool : PoolBytes) (instruments : Instruments)
    (configHash : Nat) (conserves : List Message → Prop) (host : Host fs) :
    Host fs → Prop where
  | refl : Steps pool instruments configHash conserves host host
  | tail {middle final : Host fs} :
      Steps pool instruments configHash conserves host middle →
      Step pool instruments configHash conserves middle final →
      Steps pool instruments configHash conserves host final

variable {pool : PoolBytes} {instruments : Instruments} {configHash : Nat}
  {conserves : List Message → Prop} {host next final : Host fs}
  {log : List Message}

open MatchingEngine

theorem Steps.trans
    {middle : Host fs}
    (first : Steps pool instruments configHash conserves host middle)
    (second : Steps pool instruments configHash conserves middle final) :
    Steps pool instruments configHash conserves host final := by
  induction second with
  | refl => exact first
  | tail _ moved inductionHypothesis => exact .tail inductionHypothesis moved

/-! ## What is left of a file -/

/-- The journal file between two processes. -/
inductive Remains (configHash : Nat) (log : List Message) :
    List UInt8 → Prop where
  | whole : Remains configHash log
      (Journal.header configHash ++ Journal.records log)
  /-- The last record is not complete. -/
  | torn {c : Message} {written : Nat} :
      Journal.Journaled c →
      c.Listed →
      0 < written →
      written < 100 →
      Remains configHash log
        (Journal.header configHash ++ Journal.records log ++
          (Journal.record (frameOf c)).take written)
  /-- Nothing but a part of the header. -/
  | headless {written : Nat} :
      written < 16 →
      log = [] →
      Remains configHash log ((Journal.header configHash).take written)

theorem Remains.log_eq_nil
    {disk : List UInt8} (remains : Remains configHash log disk)
    (empty : disk = []) : log = [] := by
  have length := congrArg List.length empty
  cases remains with
  | whole =>
      rw [List.length_append, Journal.length_header, List.length_nil] at length
      lia
  | torn _ _ _ _ =>
      rw [List.length_append, List.length_append, Journal.length_header,
        List.length_nil] at length
      lia
  | headless _ isNil => exact isNil

/-- The files that a process can start on. -/
def Intact (configHash : Nat) (log : List Message) (disk : List UInt8) : Prop :=
  disk = Journal.header configHash ++ Journal.records log ∨
    log = [] ∧ disk = []

theorem records_append (log : List Message) (c : Message) :
    Journal.records (log ++ [c]) =
      Journal.records log ++ Journal.record (frameOf c) := by
  simp [Journal.records]

/-- Whole records are recovered, and all other files are refused. -/
theorem Remains.opens
    {disk : List UInt8} (remains : Remains configHash log disk)
    (journaled : ∀ c ∈ log, Journal.Journaled c ∧ c.Listed)
    {fd : fs.Descriptor} (isStored : fd.Stored disk) :
    (∃ journal, Journal.openFile fd configHash = .ok journal ∧
      journal.recovered = log ∧ journal.fd.rest = [] ∧
      journal.fd.contents =
        Journal.header configHash ++ Journal.records log ∧
      Intact configHash log disk) ∨
      (∃ what, Journal.openFile fd configHash = .error what) ∧
        ¬ Intact configHash log disk := by
  cases remains with
  | whole =>
      obtain ⟨journal, opened, recovered, atEnd, contents⟩ :=
        Journal.openFile_records journaled isStored
      exact Or.inl ⟨journal, opened, recovered, atEnd, contents, Or.inl rfl⟩
  | @torn c written isJournaled listed some few =>
      have more : ∀ other ∈ log ++ [c], Journal.Journaled other ∧
          other.Listed := by
        intro other member
        rcases List.mem_append.mp member with before | isLast
        · exact journaled other before
        · rw [List.mem_singleton.mp isLast]
          exact ⟨isJournaled, listed⟩
      have split : Journal.records log ++
          (Journal.record (frameOf c)).take written =
            (Journal.records (log ++ [c])).take
              (100 * log.length + written) := by
        rw [records_append, ← Journal.length_records log,
          List.take_length_add_append]
      have inside : 100 * log.length + written ≤
          100 * (log ++ [c]).length := by
        rw [List.length_append, List.length_singleton]
        lia
      rw [List.append_assoc, split] at isStored ⊢
      refine Or.inr ⟨(Journal.openFile_cut more inside isStored).2
        fun count => by lia, ?_⟩
      have length : (Journal.header configHash ++ (Journal.records
          (log ++ [c])).take (100 * log.length + written)).length =
            16 + (100 * log.length + written) := by
        rw [List.length_append, Journal.length_header, List.length_take,
          Journal.length_records, List.length_append, List.length_singleton]
        lia
      rintro (isWhole | ⟨_, isEmpty⟩)
      · rw [isWhole, List.length_append, Journal.length_header,
          Journal.length_records] at length
        lia
      · rw [isEmpty, List.length_nil] at length
        lia
  | @headless written few isNil =>
      subst isNil
      have length : ((Journal.header configHash).take written).length =
          written := by
        rw [List.length_take, Journal.length_header]
        lia
      by_cases nothing : written = 0
      · subst nothing
        obtain ⟨journal, opened, recovered, atEnd, contents⟩ :=
          Journal.openFile_empty isStored configHash
        refine Or.inl ⟨journal, opened, recovered, atEnd, ?_, Or.inr ⟨rfl, rfl⟩⟩
        rw [contents]
        exact (List.append_nil _).symm
      · refine Or.inr ⟨Journal.openFile_short isStored configHash
          (fun isNil => ?_) (by rw [length]; exact few), ?_⟩
        · rw [isNil] at length
          exact nothing length.symm
        · rintro (isWhole | ⟨_, isEmpty⟩)
          · rw [isWhole, List.length_append, Journal.length_header] at length
            lia
          · rw [isEmpty] at length
            exact nothing length.symm

/-! ## The journal as a log -/

/-- The engine as a service that is replayed from its log. -/
def service (pool : PoolBytes) (instruments : Instruments) :
    WriteAheadLog.Service MatchingEngine Message Turn Batch Fault where
  step := process
  next := Turn.engine
  reply := Turn.batch
  initial engine := ∃ epoch, create pool instruments epoch = .ok engine
  same := Agrees
  alike := Batch.Agrees

theorem service_lawful (pool : PoolBytes) (instruments : Instruments) :
    (service pool instruments).Lawful where
  step {engine other c turn} agrees processed := by
    have both := agrees.process c
    have isOk : engine.process c = .ok turn := processed
    rw [isOk] at both
    generalize isOther : other.process c = result at both
    cases both with
    | ok same => exact ⟨_, isOther, same.batch, same.engine⟩
  initial {engine other} := by
    rintro ⟨epoch, created⟩ ⟨otherEpoch, otherCreated⟩
    obtain ⟨again, createdAgain, agrees⟩ :=
      Exchange.create_agrees created (create_ok otherCreated).2.1
    rw [otherCreated] at createdAgain
    cases createdAgain
    exact agrees

/-- A host without its file. -/
def store (host : Host fs) (log : List Message) :
    WriteAheadLog.Store MatchingEngine Message Batch where
  live := host.running.map Running.engine
  log := log
  answered := host.answered

/-- The file of a host holds a log. -/
structure Durable (pool : PoolBytes) (configHash : Nat) (host : Host fs)
    (log : List Message) : Prop where
  journaled : ∀ c ∈ log, Journal.Journaled c ∧ c.Listed
  running : ∀ running ∈ host.running,
    Reachable pool running.engine ∧ running.journal.fd.rest = [] ∧
      running.journal.fd.contents =
        Journal.header configHash ++ Journal.records log
  stopped : host.running = none → Remains configHash log host.disk

theorem journaled_of_received
    {c : Message} (received : c.Received)
    (isJournaled : Exchange.journaled c = true) :
    Journal.Journaled c ∧ c.Listed := by
  refine ⟨⟨received.fits, received.kind, ?_⟩, received.listed⟩
  have listed := received.listed.action
  simp only [Exchange.journaled, decide_eq_true_eq] at isJournaled
  simp only [Action.listed, List.mem_cons, List.not_mem_nil, or_false] at listed
  tauto

namespace Durable

/-- A crash leaves a file that holds the log, or one with a torn record. -/
theorem crash
    (durable : Durable pool configHash host log) {running : Running fs}
    (up : host.running = some running) {c : Message} (received : c.Received)
    (written : Nat) :
    ∃ pending turns,
      @Durable fs pool configHash
        { host with
          running := none
          disk := running.journal.fd.contents ++ c.recordOf.take written }
        (log ++ pending) ∧
      StepSystem.run process Turn.engine running.engine pending =
        .ok turns := by
  obtain ⟨reachable, _, contents⟩ := durable.running running up
  have nothing : @Durable fs pool configHash
      { host with
        running := none
        disk := running.journal.fd.contents } (log ++ []) := by
    rw [List.append_nil]
    exact ⟨durable.journaled, by simp, fun _ => contents ▸ .whole⟩
  by_cases isJournaled : Exchange.journaled c = true
  · have isRecord : c.recordOf = Journal.record (frameOf c) :=
      if_pos isJournaled
    obtain ⟨record, listed⟩ := journaled_of_received received isJournaled
    rw [isRecord]
    rcases Nat.eq_zero_or_pos written with rfl | some
    · exact ⟨[], [], by simpa using nothing, rfl⟩
    · by_cases whole : 100 ≤ written
      · obtain ⟨turn, processed, _⟩ := reachable.outcome c
        refine ⟨[c], [turn], ⟨?_, by simp, fun _ => ?_⟩,
          StepSystem.run_cons_of_ok processed rfl⟩
        · intro other member
          rcases List.mem_append.mp member with before | isLast
          · exact durable.journaled other before
          · rw [List.mem_singleton.mp isLast]
            exact ⟨record, listed⟩
        · change Remains configHash (log ++ [c])
            (running.journal.fd.contents ++
              (Journal.record (frameOf c)).take written)
          rw [List.take_of_length_le (by rw [Journal.length_record]; exact whole),
            contents, List.append_assoc, ← records_append]
          exact .whole
      · refine ⟨[], [], ⟨by simpa using durable.journaled, by simp,
          fun _ => ?_⟩, rfl⟩
        rw [List.append_nil]
        change Remains configHash log (running.journal.fd.contents ++
          (Journal.record (frameOf c)).take written)
        rw [contents]
        exact .torn record listed some (Nat.lt_of_not_le whole)
  · have noRecord : c.recordOf = [] := if_neg isJournaled
    rw [noRecord, List.take_nil, List.append_nil]
    exact ⟨[], [], nothing, rfl⟩

/-- An answer is in the file before it is given. -/
theorem answer
    (durable : Durable pool configHash host log) {running : Running fs}
    {c : Message} {journal : Journal fs} {turn : Turn}
    (up : host.running = some running) (received : c.Received)
    (isJournaled : Exchange.journaled c = true)
    (appended : running.journal.append c = .ok journal)
    (processed : running.engine.process c = .ok turn) :
    Durable pool configHash
      { host with
        running := some ⟨turn.engine, journal⟩
        answered := host.answered ++ [(c, turn.batch)] } (log ++ [c]) := by
  obtain ⟨reachable, atEnd, contents⟩ := durable.running running up
  obtain ⟨record, listed⟩ := journaled_of_received received isJournaled
  obtain ⟨stillAtEnd, longer⟩ :=
    Journal.append_contents received.fits atEnd appended
  refine ⟨?_, ?_, by simp⟩
  · intro other member
    rcases List.mem_append.mp member with before | isLast
    · exact durable.journaled other before
    · rw [List.mem_singleton.mp isLast]
      exact ⟨record, listed⟩
  · rintro _ ⟨⟩
    refine ⟨.step reachable processed, stillAtEnd, ?_⟩
    rw [longer, contents, records_append, List.append_assoc]

/-- Every step of a host is one of its log, or none. -/
theorem step
    (durable : Durable pool configHash host log)
    (moved : Step pool instruments configHash conserves host next) :
    ∃ later, Durable pool configHash next later ∧
      WriteAheadLog.Steps (service pool instruments) (host.store log)
        (next.store later) := by
  cases moved with
  | @answer running c journal turn up received isJournaled appended processed =>
      exact ⟨log ++ [c],
        durable.answer up received isJournaled appended processed,
        .one (.answer (congrArg (Option.map Running.engine) up) processed)⟩
  | @query running c served up received isQuery serves =>
      obtain ⟨reachable, atEnd, contents⟩ := durable.running running up
      obtain ⟨again, servesAgain, next⟩ :=
        @Exchange.serve_ok pool ⟨running.engine, []⟩ reachable c
      rw [serves] at servesAgain
      cases servesAgain
      refine ⟨log, ⟨durable.journaled, ?_, by simp⟩, ?_⟩
      · rintro _ ⟨⟩
        exact ⟨next, atEnd, contents⟩
      · have agrees : ∀ reference, running.engine.Agrees reference →
            served.exchange.engine.Agrees reference :=
          fun reference same => @Exchange.serve_query ⟨running.engine, []⟩
            reference c served same received.kind isQuery serves
        exact .one (.drift (congrArg (Option.map Running.engine) up) agrees)
  | @crash running c written up received =>
      obtain ⟨pending, turns, later, ran⟩ := durable.crash up received written
      exact ⟨log ++ pending, later,
        .one (.crash (congrArg (Option.map Running.engine) up) ran)⟩
  | @start fd epoch journal engine down isStored opened recovers _ =>
      rcases (durable.stopped down).opens durable.journaled isStored with
        ⟨found, isOpened, recovered, atEnd, contents, _⟩ | ⟨⟨what, refused⟩, _⟩
      · rw [opened] at isOpened
        cases isOpened
        rw [recovered] at recovers
        obtain ⟨initial, turns, created, ran, rfl⟩ :=
          Exchange.recover_ok recovers
        refine ⟨log, ⟨durable.journaled, ?_, by simp⟩, ?_⟩
        · rintro _ ⟨⟩
          exact ⟨Exchange.recover_reachable recovers, atEnd, contents⟩
        · exact .one (.recover (congrArg (Option.map Running.engine) down)
            ⟨epoch, created⟩ ran)
      · rw [refused] at opened
        cases opened
  | crashStart written down empty =>
      obtain rfl := (durable.stopped down).log_eq_nil empty
      refine ⟨[], ⟨by simp, fun running up => ?_, fun _ => ?_⟩, ?_⟩
      · rw [down] at up
        cases up
      · by_cases few : written < 16
        · exact .headless few rfl
        · change Remains configHash [] ((Journal.header configHash).take written)
          rw [List.take_of_length_le (by rw [Journal.length_header]; lia),
            ← List.append_nil (Journal.header configHash)]
          exact .whole
      · exact .refl

theorem steps
    (durable : Durable pool configHash host log)
    (moved : Steps pool instruments configHash conserves host final) :
    ∃ later, Durable pool configHash final later ∧
      WriteAheadLog.Steps (service pool instruments) (host.store log)
        (final.store later) := by
  induction moved with
  | refl => exact ⟨log, durable, .refl⟩
  | tail _ moved inductionHypothesis =>
      obtain ⟨middle, middleDurable, earlier⟩ := inductionHypothesis
      obtain ⟨later, laterDurable, last⟩ := middleDurable.step moved
      exact ⟨later, laterDurable, earlier.trans last⟩

end Durable

/-- A machine before the first start. -/
theorem durable_blank : Durable pool configHash ({} : Host fs) [] :=
  ⟨by simp, by simp, fun _ => @Remains.headless _ _ 0 (by decide) rfl⟩

/-- The replay of a log explains a host. -/
theorem Steps.consistent
    {initial : MatchingEngine} {epoch : Nat}
    (created : create pool instruments epoch = .ok initial)
    (moved : Steps pool instruments configHash conserves {} host) :
    ∃ log turns, Durable pool configHash host log ∧
      WriteAheadLog.Consistent (service pool instruments) initial
        (host.store log) turns := by
  obtain ⟨log, durable, steps⟩ := durable_blank.steps moved
  have blank : WriteAheadLog.Consistent (service pool instruments) initial
      (store ({} : Host fs) []) [] :=
    ⟨rfl, by simp [store], ⟨[], List.Sublist.refl _, .nil⟩⟩
  obtain ⟨turns, consistent⟩ := steps.consistent
    (service_lawful pool instruments) ⟨epoch, created⟩ blank
  exact ⟨log, turns, durable, consistent⟩

/--
A file is recovered exactly when no record and no header is cut and the sums of
the cash are zero.
-/
theorem Durable.restarts
    {initial : MatchingEngine} {epoch : Nat} {turns : List Turn}
    (durable : Durable pool configHash host log)
    (created : create pool instruments epoch = .ok initial)
    (ran : StepSystem.run process Turn.engine initial log = .ok turns)
    (down : host.running = none) {fd : fs.Descriptor}
    (isStored : fd.Stored host.disk) {other : Nat} (nonzero : other ≠ 0) :
    (∃ journal engine,
      Journal.openFile fd configHash = .ok journal ∧
        Exchange.recover pool instruments other journal.recovered =
          .ok engine ∧
        conserves journal.recovered ∧
        engine.Agrees (StepSystem.last Turn.engine initial turns)) ↔
      Intact configHash log host.disk ∧ conserves log := by
  rcases (durable.stopped down).opens durable.journaled isStored with
    ⟨journal, opened, recovered, _, _, intact⟩ | ⟨⟨what, refused⟩, cut⟩
  · constructor
    · rintro ⟨found, _, isFound, _, conserved, _⟩
      rw [opened] at isFound
      cases isFound
      rw [recovered] at conserved
      exact ⟨intact, conserved⟩
    rintro ⟨_, conserved⟩
    obtain ⟨otherInitial, otherCreated, _⟩ :=
      Exchange.create_agrees created nonzero
    have lawful := service_lawful pool instruments
    obtain ⟨others, othersRan, _⟩ := WriteAheadLog.run_same lawful
      (lawful.initial ⟨epoch, created⟩ ⟨other, otherCreated⟩) ran
    obtain ⟨again, ranAgain, same⟩ := WriteAheadLog.run_same lawful
      (lawful.initial ⟨other, otherCreated⟩ ⟨epoch, created⟩) othersRan
    have isAgain : again = turns :=
      Except.ok.inj (ranAgain.symm.trans ran)
    rw [isAgain] at same
    rw [← recovered] at conserved othersRan
    exact ⟨journal, _, opened,
      Exchange.recover_of_run otherCreated othersRan, conserved, same⟩
  · refine ⟨?_, fun intact => absurd intact.1 cut⟩
    rintro ⟨journal, _, opened, _⟩
    rw [refused] at opened
    cases opened

/--
Durability.  A machine with a new journal runs exchanges, with crashes at any
byte.  At any time the file holds some log of commands, and its replay explains
everything: what was answered is a part of that replay, in its order, with the
same batches up to the epoch and the numbers of the reports; a process that runs
is in its last state; and if none runs, the file has the log and perhaps bytes
of an unfinished write behind it, and the next process can start on that state
exactly if there are no such bytes and the sums of the cash are zero.
-/
theorem crash_durability
    {initial : MatchingEngine} {epoch : Nat}
    (created : create pool instruments epoch = .ok initial)
    (moved : Steps pool instruments configHash conserves {} host) :
    ∃ log turns,
      StepSystem.run process Turn.engine initial log = .ok turns ∧
      (∃ kept, kept.Sublist (log.zip turns) ∧
        List.Forall₂ (fun (answer : Message × Batch) (entry : Message × Turn) =>
          answer.1 = entry.1 ∧ answer.2.Agrees entry.2.batch)
          host.answered kept) ∧
      (∀ running ∈ host.running,
        running.engine.Agrees (StepSystem.last Turn.engine initial turns) ∧
          running.journal.fd.contents =
            Journal.header configHash ++ Journal.records log) ∧
      (host.running = none → Remains configHash log host.disk ∧
        ∀ fd : fs.Descriptor, fd.Stored host.disk → ∀ other, other ≠ 0 →
          ((∃ journal engine,
            Journal.openFile fd configHash = .ok journal ∧
              Exchange.recover pool instruments other journal.recovered =
                .ok engine ∧
              conserves journal.recovered ∧
              engine.Agrees (StepSystem.last Turn.engine initial turns)) ↔
            Intact configHash log host.disk ∧ conserves log)) := by
  obtain ⟨log, turns, durable, consistent⟩ := moved.consistent created
  refine ⟨log, turns, consistent.replayed, consistent.answers,
    fun running up => ⟨?_, (durable.running running up).2.2⟩,
    fun down => ⟨durable.stopped down, fun fd isStored other nonzero =>
      durable.restarts created consistent.replayed down isStored nonzero⟩⟩
  exact consistent.live _ (Option.mem_map_of_mem _ up)

/-- A host that has answered one order of an empty exchange. -/
theorem answers_one
    {c : Message} (received : c.Received) (sequenced : single.WellSequenced c) :
    ∃ (journal : Journal plannedFiles) (engine : MatchingEngine)
        (opened : Journal plannedFiles) (answered : Batch),
      Steps .capacity (OrderedMap.empty.insert 1 {}) 3 (fun _ => True) {}
          { running := some ⟨single, opened⟩ } ∧
        opened.append c = .ok journal ∧
        single.process c = .ok ⟨engine, answered⟩ ∧
        journal.fd.contents =
          Journal.header 3 ++ Journal.records [c] ∧
        Steps .capacity (OrderedMap.empty.insert 1 {}) 3 (fun _ => True) {}
          { running := some ⟨engine, journal⟩, answered := [(c, answered)] } := by
  have isStored := Journal.planned_stored [] fun _ => 6
  obtain ⟨opened, isOpened, recovered, atEnd, contents⟩ :=
    Journal.openFile_empty isStored 3
  have created : create .capacity (OrderedMap.empty.insert 1 {}) 1 =
      .ok single := rfl
  have empty : StepSystem.run process Turn.engine single [] = .ok [] := rfl
  have started : Steps .capacity (OrderedMap.empty.insert 1 {}) 3 (fun _ => True) {}
      { running := some ⟨single, opened⟩ } := by
    refine .tail .refl (@Step.start _ _ _ _ _ _ _ 1 _ _ rfl isStored isOpened
      ?_ trivial)
    rw [recovered]
    exact Exchange.recover_of_run created empty
  obtain ⟨journal, appended⟩ :=
    (Journal.append_iff received.fits atEnd).mpr received.listed
  obtain ⟨⟨engine, answered⟩, processed, _⟩ := single_reachable.outcome c
  have isJournaled : Exchange.journaled c = true :=
    decide_eq_true sequenced.business.2
  refine ⟨journal, engine, opened, answered, started, appended, processed, ?_,
    .tail started (@Step.answer _ _ _ _ _ _ ⟨single, opened⟩ c journal
      ⟨engine, answered⟩ rfl received isJournaled appended processed)⟩
  rw [(Journal.append_contents received.fits atEnd appended).2, contents]
  simp [Journal.records]

/-- A crash in the record of a cancellation leaves a file that is refused. -/
theorem crash_durability_torn :
    ∃ (host : Host plannedFiles) (c : Message) (answered : Batch),
      Steps .capacity (OrderedMap.empty.insert 1 {}) 3 (fun _ => True) {} host ∧
      host.running = none ∧ host.answered = [(c, answered)] ∧
      host.disk.length = 166 ∧
      ∃ log turns,
        StepSystem.run process Turn.engine single log = .ok turns ∧
          c ∈ log := by
  let order : Message :=
    { orderId := 1, clientId := 7, requestId := 1, price := 10
      quantity := 5, instrumentId := 1 }
  let cancel : Message := { order with action := .cancel, requestId := 2 }
  have received : order.Received :=
    ⟨by constructor <;> decide, by constructor <;> decide, rfl⟩
  have cancels : cancel.Received :=
    ⟨by constructor <;> decide, by constructor <;> decide, rfl⟩
  have sequenced : single.WellSequenced order :=
    ⟨⟨rfl, by decide, by decide⟩, by decide, rfl⟩
  obtain ⟨journal, engine, _, answered, _, _, _, contents, running⟩ :=
    answers_one received sequenced
  have crashed := running.tail (.crash 50 rfl cancels)
  obtain ⟨log, turns, ran, ⟨kept, sublist, related⟩, _⟩ :=
    @crash_durability _ _ _ _ _ _ single 1 rfl crashed
  refine ⟨_, order, answered, crashed, rfl, rfl, ?_, log, turns, ran, ?_⟩
  · have isRecord : cancel.recordOf = Journal.record (frameOf cancel) := rfl
    simp [isRecord, contents, Journal.length_header, Journal.length_records,
      Journal.length_record]
  · cases related with
    | @cons _ entry _ _ same _ =>
        have member := sublist.subset List.mem_cons_self
        have isOrder : order = entry.1 := same.1
        rw [isOrder]
        exact (List.of_mem_zip member).1

end Host

/-! ## Retries -/

namespace MatchingEngine

variable {pool : PoolBytes} {engine : MatchingEngine} {client : ClientId}

/-- While its last request stays the same, no next command of a client came. -/
theorem Reachable.undisturbed
    (reachable : Reachable pool engine) {messages : List Message}
    {turns : List Turn}
    (ran : StepSystem.run process Turn.engine engine messages = .ok turns)
    (same : (StepSystem.last Turn.engine engine turns).lastRequest client =
      engine.lastRequest client) :
    Undisturbed client engine messages := by
  have grows : ∀ {messages : List Message} {engine : MatchingEngine}
      {turns : List Turn}, Reachable pool engine →
      StepSystem.run process Turn.engine engine messages = .ok turns →
      engine.lastRequest client ≤
        (StepSystem.last Turn.engine engine turns).lastRequest client := by
    intro messages
    induction messages with
    | nil =>
        intro engine turns _ ran
        cases ran
        exact Nat.le_refl _
    | cons m rest inductionHypothesis =>
        intro engine turns reachable ran
        obtain ⟨turn, later, processed, restRan, rfl⟩ :=
          StepSystem.run_cons_ok ran
        obtain ⟨outcome, next⟩ := reachable.outcome_of processed
        exact (outcome.lastRequest_le client).trans
          (inductionHypothesis next restRan)
  induction messages generalizing engine turns with
  | nil => trivial
  | cons m rest inductionHypothesis =>
      obtain ⟨turn, later, processed, restRan, rfl⟩ := StepSystem.run_cons_ok ran
      obtain ⟨outcome, next⟩ := Reachable.outcome_of reachable processed
      have after := grows next restRan
      have first := outcome.lastRequest_le client
      change (StepSystem.last Turn.engine turn.engine later).lastRequest client =
        engine.lastRequest client at same
      constructor
      · rintro ⟨rfl, sequenced⟩
        have raised := outcome.lastRequest_sequenced sequenced
        have isNext := sequenced.next
        lia
      · intro other otherProcessed
        rw [processed] at otherProcessed
        cases otherProcessed
        exact inductionHypothesis next restRan (by lia)

/-- A command that is remembered is retried on any engine that agrees. -/
theorem Agrees.retries
    {reference : MatchingEngine} {c : Message} {reports : List Message}
    (agrees : engine.Agrees reference) (remembers : reference.Remembers c reports)
    (business : c.Business) (named : c.clientId ≠ 0) (request : c.requestId ≠ 0) :
    engine.Retries c ∧ engine.openClient c.clientId = engine := by
  have state := agrees.clientState c.clientId
  obtain ⟨sameRequest, sameCommand, _⟩ := remembers.clientState
  have isLast : c.requestId = engine.lastRequest c.clientId :=
    sameRequest.symm.trans state.lastRequest.symm
  refine ⟨⟨business, named, request, isLast,
    (state.lastCommand.trans sameCommand).symm⟩, ?_⟩
  cases known : engine.clients.find? c.clientId with
  | none =>
      rw [lastRequest, MatchingEngine.clientState, known] at isLast
      exact absurd isLast request
  | some _ => simp [MatchingEngine.openClient, OrderedMap.emplace, known]

end MatchingEngine

namespace Host

open MatchingEngine

variable {fs : FileSystem} {pool : PoolBytes} {instruments : Instruments}
  {configHash : Nat}
  {conserves : List Message → Prop} {host final : Host fs}

/--
Exactly once across crashes.  After a client's next command was answered, the
host may crash and start again any number of times, and other clients go on.
As long as the client sends no further command, a process that runs answers
the command again with the same reports, up to the epoch and their numbers, and
changes nothing.
-/
theorem exactly_once_across_crashes
    {initial : MatchingEngine} {epoch : Nat} {running later : Running fs}
    {c : Message} {journal : Journal fs} {turn : Turn}
    (created : create pool instruments epoch = .ok initial)
    (earlier : Steps pool instruments configHash conserves {} host)
    (up : host.running = some running) (received : c.Received)
    (sequenced : running.engine.WellSequenced c)
    (appended : running.journal.append c = .ok journal)
    (processed : running.engine.process c = .ok turn)
    (moved : Steps pool instruments configHash conserves
      { host with
        running := some ⟨turn.engine, journal⟩
        answered := host.answered ++ [(c, turn.batch)] } final)
    (upAgain : final.running = some later)
    (isLast : later.engine.lastRequest c.clientId = c.requestId) :
    ∃ again reappended,
      later.journal.append c = .ok reappended ∧
        later.engine.process c = .ok again ∧
        again.engine = later.engine ∧
        again.batch.updates = [] ∧
        again.batch.reports.map Message.unstamped =
          (turn.batch.addressedTo c.clientId).map Message.unstamped := by
  have isJournaled : Exchange.journaled c = true :=
    decide_eq_true sequenced.business.2
  have lawful := service_lawful pool instruments
  obtain ⟨log, turns, durable, consistent⟩ := earlier.consistent created
  have before := consistent.live _ (Option.mem_map_of_mem _ up)
  -- The reference is the replay of the log without any crash.
  obtain ⟨answer, answerProcessed, sameBatch, sameEngine⟩ :=
    lawful.step before processed
  have reference : Reachable pool
      (StepSystem.last Turn.engine initial turns) :=
    StepSystem.Reachable.run (.start ⟨instruments, epoch, created⟩)
      consistent.replayed
  have referenceSequenced :
      (StepSystem.last Turn.engine initial turns).WellSequenced c :=
    ⟨sequenced.business, sequenced.client, sequenced.next.trans
      (congrArg (· + 1) (before.clientState c.clientId).lastRequest)⟩
  obtain ⟨outcome, answered⟩ := reference.outcome_of answerProcessed
  obtain ⟨finalLog, finalDurable, steps⟩ :=
    (durable.answer up received isJournaled appended processed).steps moved
  obtain ⟨rest, more, _, ran, finalConsistent⟩ :=
    (consistent.answer answerProcessed sameBatch sameEngine).extend lawful
      ⟨epoch, created⟩ steps
  have after := finalConsistent.live _ (Option.mem_map_of_mem _ upAgain)
  rw [WriteAheadLog.last_append, WriteAheadLog.last_append] at after
  rw [WriteAheadLog.last_append] at ran
  change later.engine.Agrees
    (StepSystem.last Turn.engine answer.engine more) at after
  change StepSystem.run process Turn.engine answer.engine rest = .ok more at ran
  have sameLast : (StepSystem.last Turn.engine answer.engine more).lastRequest
      c.clientId = answer.engine.lastRequest c.clientId := by
    rw [outcome.lastRequest_sequenced referenceSequenced, ← isLast]
    exact (after.clientState c.clientId).lastRequest.symm
  obtain ⟨again, ranAgain, _, remembers⟩ := answered.run_remembers rest
    (answered.undisturbed ran sameLast) (outcome.remembers referenceSequenced)
  rw [ran] at ranAgain
  cases ranAgain
  obtain ⟨retries, known⟩ := after.retries remembers sequenced.business
    sequenced.client (by have isNext := sequenced.next; lia)
  obtain ⟨reachable, fileEnd, _⟩ := finalDurable.running later upAgain
  obtain ⟨retried, retriedProcessed, retriedOutcome, _⟩ := reachable.outcome c
  obtain ⟨reappended, appends⟩ :=
    (Journal.append_iff received.fits fileEnd).mpr received.listed
  have isRetried := retriedOutcome.of_retries retries
  rw [known] at isRetried
  refine ⟨retried, reappended, appends, retriedProcessed, ?_, ?_, ?_⟩
  · rw [isRetried]
  · rw [isRetried]
  · rw [isRetried]
    refine (after.clientState c.clientId).cached.trans ?_
    rw [remembers.clientState.2.2]
    exact (sameBatch.addressed c.clientId).symm

/-- An order is sent again after a crash and a new start. -/
theorem exactly_once_across_crashes_restarted :
    ∃ c later again answered, ∃ host : Host plannedFiles,
      Steps .capacity (OrderedMap.empty.insert 1 {}) 3 (fun _ => True) {} host ∧
      host.running = some later ∧ host.answered = [(c, answered)] ∧
      later.engine.process c = .ok again ∧ again.engine = later.engine ∧
      again.batch.reports.map Message.unstamped =
        (answered.addressedTo 7).map Message.unstamped := by
  let order : Message :=
    { orderId := 1, clientId := 7, requestId := 1, price := 10
      quantity := 5, instrumentId := 1 }
  have received : order.Received :=
    ⟨by constructor <;> decide, by constructor <;> decide, rfl⟩
  have sequenced : single.WellSequenced order :=
    ⟨⟨rfl, by decide, by decide⟩, by decide, rfl⟩
  obtain ⟨journal, engine, opened, answered, started, appended, processed,
    contents, running⟩ := answers_one received sequenced
  have journaled : ∀ c ∈ [order], Journal.Journaled c ∧ c.Listed := by
    intro c member
    cases List.mem_singleton.mp member
    exact journaled_of_received received rfl
  obtain ⟨fd, onDisk⟩ : ∃ fd : plannedFiles.Descriptor,
      fd.Stored (journal.fd.contents ++ order.recordOf.take 0) :=
    ⟨_, Journal.planned_stored _ fun _ => 2⟩
  have isStored := onDisk
  rw [List.take_zero, List.append_nil, contents] at isStored
  obtain ⟨reopened, isReopened, recovered, _⟩ :=
    Journal.openFile_records journaled isStored
  let fresh : MatchingEngine := { single with epoch := 2 }
  have created : create .capacity (OrderedMap.empty.insert 1 {}) 2 =
      .ok fresh := rfl
  have reachable : Reachable .capacity fresh := .start ⟨_, 2, created⟩
  obtain ⟨turn, replayed, outcome, _⟩ := reachable.outcome order
  have replayedAll : StepSystem.run process Turn.engine fresh [order] =
      .ok [turn] := StepSystem.run_cons_of_ok replayed rfl
  have moved : Steps .capacity (OrderedMap.empty.insert 1 {}) 3
      (fun _ => True)
      { running := some ⟨engine, journal⟩, answered := [(order, answered)] }
      { running := some ⟨turn.engine, reopened⟩
        disk := journal.fd.contents ++ order.recordOf.take 0
        answered := [(order, answered)] } := by
    refine (Steps.refl.tail (.crash 0 rfl received)).tail
      (@Step.start _ _ _ _ _ _ _ 2 _ _ rfl onDisk isReopened ?_ trivial)
    rw [recovered]
    exact Exchange.recover_of_run created replayedAll
  have freshSequenced : fresh.WellSequenced order :=
    ⟨⟨rfl, by decide, by decide⟩, by decide, rfl⟩
  obtain ⟨again, _, _, retried, unchanged, _, reports⟩ :=
    @exactly_once_across_crashes _ _ _ _ _ _ _ single 1 _ _ order journal
      ⟨engine, answered⟩ rfl started rfl received sequenced appended processed
      moved rfl (outcome.lastRequest_sequenced freshSequenced)
  exact ⟨order, _, again, answered, _, running.trans moved, rfl, rfl, retried,
    unchanged, reports⟩

end Host

end LimitOrderBook
