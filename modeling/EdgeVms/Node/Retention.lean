import EdgeVms.Node.AppHost
import EdgeVms.Python.Path
import Mathlib.Data.List.Sort

/-! # Retention of a node

One pass over the archive index and the files that it names.  Every call of the
database and of the file system is a request, so a crash is a prefix of the pass.
-/

namespace EdgeVms.Node

open Process Python

structure Date where
  year : Nat
  month : Nat
  day : Nat
  deriving DecidableEq

namespace Date

/-- `datetime(day.year, day.month, day.day, tzinfo=timezone.utc)` -/
def midnight (day : Date) : ℚ := DateTime.timestamp ⟨day.year, day.month, day.day, 0, 0, 0⟩

/-- The first of the next month. -/
def nextMonth (day : Date) : Date := if day.month = 12 then ⟨day.year + 1, 1, 1⟩ else ⟨day.year, day.month + 1, 1⟩

/-- `f"{month:%Y_%m}"` -/
def yearMonth (day : Date) : String := DateTime.padded 4 day.year ++ "_" ++ DateTime.padded 2 day.month

end Date

/-- `now - timedelta(days=days)`: there are only the years 1 to 9999. -/
def minusDays (now : ℚ) (days : Int) : Except Error ℚ :=
  let then_ := now - days * 86400
  if -62135596800 ≤ then_ ∧ then_ < 253402300800 then .ok then_ else .error .overflowError

/-- What the console may choose for a full disk. -/
inductive DiskFullPolicy where
  | stopRecording
  | degradeRetention
  | byPriority
  deriving DecidableEq

structure RetentionSettings where
  archiveDir : String
  partitionsAhead : Int
  diskHighWater : ℚ
  diskFullPolicy : DiskFullPolicy
  segmentSeconds : Int

inductive Parent where
  | segments
  | events
  deriving DecidableEq

def Parent.name : Parent → String
  | .segments => "segments"
  | .events => "events"

/-- What an event tells. -/
inductive Payload where
  | orphans (count : Nat)
  | stopped (policy : DiskFullPolicy) (usage : ℚ)
  | degraded (policy : DiskFullPolicy) (bytesFreed : Nat) (cameras : Table ℚ)
  deriving DecidableEq

abbrev RetentionEvent := String × Option Int × Payload

structure RetentionReport where
  partitionsCreated : List String := []
  partitionsDropped : List String := []
  filesUnlinked : Nat := 0
  bytesFreedByPolicy : Nat := 0
  policyApplied : Option DiskFullPolicy := none
  recordingAllowed : Bool := true
  /-- The new oldest segment of each. -/
  degradedCameras : Table ℚ := []
  orphans : List String := []
  events : List RetentionEvent := []

/-- A month of a table: its name, and its bounds. -/
structure Month where
  name : String
  lo : Date
  hi : Date
  deriving DecidableEq

namespace Retention

inductive Request where
  | partitions (parent : Parent)
  | ensurePartition (parent : Parent) (month : Date)
  | pathsInPartition (part : String)
  /-- `ALTER TABLE … DETACH PARTITION …` -/
  | detachPartition (parent : Parent) (part : String)
  | dropTable (part : String)
  | expireRows (camera : Int) (olderThan : ℚ)
  | oldestSegments (limit : Nat) (priorityFirst : Bool)
  | deleteSegment (path : String)
  | retentionDays
  | indexedPathsUnder (pattern : String)
  | logEvent (event : RetentionEvent)
  | usage
  | unlink (path : String)
  | walkFiles (root : String)

@[reducible] def Request.Answer : Request → Type
  | .partitions _ => List Month
  | .ensurePartition _ _ => Except Error String
  | .pathsInPartition _ | .expireRows _ _ | .indexedPathsUnder _ => List String
  | .oldestSegments _ _ => List SegmentRow
  | .retentionDays => Table Int
  | .usage => ℚ
  | .walkFiles _ => List (String × ℚ)
  | .detachPartition _ _ | .dropTable _ | .deleteSegment _ | .logEvent _ | .unlink _ => Unit

abbrev interface : Interface := ⟨Request, Request.Answer⟩

inductive Phase where
  | windows
  | policy
  | sweep
  deriving DecidableEq

inductive Fault where
  | python (error : Error)
  /-- The policy has gone through all the rounds it was given. -/
  | unfinished
  deriving DecidableEq

abbrev Program (α : Type) := Proc interface Phase Fault α

def ask (phase : Phase) (request : Request) : Program request.Answer := Proc.perform (I := interface) phase request

def value {α : Type} (answer : Except Error α) : Program α :=
  match answer with
  | .ok value => return value
  | .error error => throw (.python error)

/-! ## The pass -/

/-- `_months`: so many firsts of the month. -/
def months : Nat → Date → List Date
  | 0, _ => []
  | n + 1, first => first :: months n first.nextMonth

def ensureRounds (parent : Parent) (existing : List String) :
    List Date → RetentionReport → Program RetentionReport
  | [], report => return report
  | month :: rest, report => do
    let name := parent.name ++ "_" ++ month.yearMonth
    if name ∈ existing then ensureRounds parent existing rest report
    else
      let _ ← value (← ask .windows (.ensurePartition parent month))
      ensureRounds parent existing rest { report with partitionsCreated := report.partitionsCreated ++ [name] }

def ensurePartitions (now : ℚ) (ahead : Int) (report : RetentionReport) : Program RetentionReport := do
  let segments ← ask .windows (.partitions .segments)
  let events ← ask .windows (.partitions .events)
  let existing := (segments ++ events).map Month.name
  let today ← value (DateTime.fromTimestamp now)
  let wanted := months (ahead + 1).toNat ⟨today.year, today.month, 1⟩
  let report ← ensureRounds .segments existing wanted report
  ensureRounds .events existing wanted report

/-- `_unlink_all` -/
def unlinkAll : List String → RetentionReport → Program RetentionReport
  | [], report => return report
  | path :: rest, report => do
    let () ← ask .windows (.unlink path)
    unlinkAll rest { report with filesUnlinked := report.filesUnlinked + 1 }

/-- Detached, then dropped. -/
def dropPartition (parent : Parent) (part : String) : Program Unit := do
  let () ← ask .windows (.detachPartition parent part)
  ask .windows (.dropTable part)

/-- Whole months of segments: remember the paths, drop, then unlink. -/
def dropRounds (cutoff : ℚ) : List Month → RetentionReport → Program RetentionReport
  | [], report => return report
  | part :: rest, report => do
    if part.hi.midnight ≤ cutoff then
      let paths ← ask .windows (.pathsInPartition part.name)
      dropPartition .segments part.name
      let report ← unlinkAll paths { report with partitionsDropped := report.partitionsDropped ++ [part.name] }
      dropRounds cutoff rest report
    else dropRounds cutoff rest report

def dropEventRounds (cutoff : ℚ) : List Month → RetentionReport → Program RetentionReport
  | [], report => return report
  | part :: rest, report => do
    if part.hi.midnight ≤ cutoff then
      dropPartition .events part.name
      dropEventRounds cutoff rest { report with partitionsDropped := report.partitionsDropped ++ [part.name] }
    else dropEventRounds cutoff rest report

/-- The windows that are shorter than the longest: rows first, files after. -/
def expireRounds (now : ℚ) (longest : Int) : Table Int → RetentionReport → Program RetentionReport
  | [], report => return report
  | (cid, days) :: rest, report => do
    if days < longest then
      let olderThan ← value (minusDays now days)
      let paths ← ask .windows (.expireRows cid olderThan)
      let report ← unlinkAll paths report
      expireRounds now longest rest report
    else expireRounds now longest rest report

/-- One batch of the policy: no more is given up than needed. -/
def giveUpRounds (target : ℚ) : List SegmentRow → Nat → RetentionReport → Program (Nat × RetentionReport)
  | [], freed, report => return (freed, report)
  | seg :: rest, freed, report => do
    let usage ← ask .policy .usage
    if usage ≤ target then return (freed, report)
    else
      let () ← ask .policy (.deleteSegment seg.path)
      let () ← ask .policy (.unlink seg.path)
      giveUpRounds target rest (freed + seg.bytes)
        { report with
          filesUnlinked := report.filesUnlinked + 1
          degradedCameras := report.degradedCameras.set seg.camera seg.start }

/-- `while fs.usage(archive_dir) > target`; nothing bounds the loop, so its rounds are counted. -/
def degradeRounds (policy : DiskFullPolicy) (target : ℚ) :
    Nat → Nat → RetentionReport → Program (Nat × RetentionReport)
  | 0, _, _ => throw .unfinished
  | rounds + 1, freed, report => do
    let usage ← ask .policy .usage
    if usage ≤ target then return (freed, report)
    else
      let batch ← ask .policy (.oldestSegments 50 (policy = .byPriority))
      if batch.isEmpty then return (freed, { report with recordingAllowed := false })
      else
        let (freed, report) ← giveUpRounds target batch freed report
        degradeRounds policy target rounds freed report

/-- `_apply_policy`; `double` is what the floats make of a number. -/
def applyPolicy (settings : RetentionSettings) (double : ℚ → ℚ) (rounds : Nat) (report : RetentionReport) :
    Program RetentionReport := do
  let policy := settings.diskFullPolicy
  let report := { report with policyApplied := some policy }
  if policy = .stopRecording then
    let usage ← ask .policy .usage
    return { report with
      recordingAllowed := false
      events := report.events ++
        [("retention.stopped", none, .stopped policy (double (roundEven (usage * 1000) / 1000)))] }
  else
    let (freed, report) ← degradeRounds policy (double (settings.diskHighWater - 5 / 100)) rounds 0 report
    return { report with
      bytesFreedByPolicy := freed
      events := report.events ++ [("retention.degraded", none, .degraded policy freed report.degradedCameras)] }

def logRounds : List RetentionEvent → Program Unit
  | [] => return ()
  | event :: rest => do
    let () ← ask .sweep (.logEvent event)
    logRounds rest

/-- Files without a row are reported once no pipeline can still be writing them. -/
def sweep (settings : RetentionSettings) (now : ℚ) (report : RetentionReport) : Program RetentionReport := do
  let indexed ← ask .sweep (.indexedPathsUnder (settings.archiveDir ++ "%"))
  let grace := 2 * settings.segmentSeconds
  let files ← ask .sweep (.walkFiles settings.archiveDir)
  let orphans := (files.filter fun (path, mtime) => path ∉ indexed ∧ now - mtime > grace).map Prod.fst
  let report := { report with orphans := report.orphans ++ orphans }
  let report := if report.orphans.isEmpty then report else
    { report with events := report.events ++ [("archive.orphans", none, .orphans report.orphans.length)] }
  logRounds report.events
  return report

def enforceRetention (settings : RetentionSettings) (double : ℚ → ℚ) (rounds : Nat) (now : ℚ) :
    Program RetentionReport := do
  let report ← ensurePartitions now settings.partitionsAhead {}
  let retention ← ask .windows .retentionDays
  match (retention.map Prod.snd).max? with
  | none => return report
  | some longest =>
    let cutoff ← value (minusDays now longest)
    let segments ← ask .windows (.partitions .segments)
    let report ← dropRounds cutoff segments report
    let events ← ask .windows (.partitions .events)
    let report ← dropEventRounds cutoff events report
    let report ← expireRounds now longest retention report
    -- the disk is still full: the policy decides, and the node says so
    let usage ← ask .windows .usage
    if settings.diskHighWater ≤ usage then
      let report ← applyPolicy settings double rounds report
      sweep settings now report
    else sweep settings now report

/-! ## The database and the files -/

structure Partition where
  month : Month
  rows : List SegmentRow

/-- What retention reads of a row of `cameras`. -/
structure CameraPolicy where
  id : Int
  retentionDays : Int
  priority : Int

structure Disk where
  segments : List Partition
  events : List Month
  /-- The tables that are not part of their parent any more. -/
  detached : List String
  cameras : List CameraPolicy
  logged : List RetentionEvent
  /-- The path and the modification time of each file. -/
  files : List (String × ℚ)
  /-- How often the usage was asked for. -/
  asked : Nat

namespace Disk

/-- The index. -/
def rows (disk : Disk) : List SegmentRow := disk.segments.flatMap Partition.rows

def months (disk : Disk) : Parent → List Month
  | .segments => disk.segments.map Partition.month
  | .events => disk.events

/-- `DELETE FROM segments WHERE …` -/
def delete (gone : SegmentRow → Bool) (disk : Disk) : Disk :=
  { disk with segments := disk.segments.map fun part => { part with rows := part.rows.filter fun row => !gone row } }

def retentionDays (disk : Disk) : Table Int :=
  disk.cameras.foldl (fun (days : Table Int) cam => days.set cam.id cam.retentionDays) []

/-- `ensure_month_partition` -/
def ensurePartition (parent : Parent) (month : Date) (disk : Disk) : Except Error String × Disk :=
  let new : Month := ⟨parent.name ++ "_" ++ month.yearMonth, month, month.nextMonth⟩
  if new.name ∈ (disk.months .segments ++ disk.months .events).map Month.name ++ disk.detached then (.ok new.name, disk)
  else if (disk.months parent).any fun other =>
      new.lo.midnight < other.hi.midnight ∧ other.lo.midnight < new.hi.midnight then
    (.error (.runtimeError "partition would overlap"), disk)
  else
    match parent with
    | .segments => (.ok new.name, { disk with segments := disk.segments ++ [⟨new, []⟩] })
    | .events => (.ok new.name, { disk with events := disk.events ++ [new] })

def detachPartition (parent : Parent) (part : String) (disk : Disk) : Disk :=
  match parent with
  | .segments =>
    { disk with
      segments := disk.segments.filter fun other => other.month.name ≠ part
      detached := disk.detached ++ [part] }
  | .events =>
    { disk with
      events := disk.events.filter fun other => other.name ≠ part
      detached := disk.detached ++ [part] }

/-- `FROM segments s JOIN cameras c …`: what is given up first comes first. -/
def oldestSegments (limit : Nat) (priorityFirst : Bool) (disk : Disk) : List SegmentRow :=
  let joined := disk.rows.filterMap fun row =>
    (disk.cameras.find? fun cam => cam.id = row.camera).map fun cam => (cam.priority, row)
  let before (first second : Int × SegmentRow) : Bool :=
    if priorityFirst ∧ first.1 ≠ second.1 then first.1 < second.1 else first.2.start ≤ second.2.start
  ((joined.insertionSort fun first second => before first second).take limit).map Prod.snd

/-- `LIKE` -/
def like : List Char → List Char → Bool
  | [], text => text.isEmpty
  | '%' :: pattern, text => text.tails.any (like pattern)
  | '_' :: pattern, text =>
    match text with
    | [] => false
    | _ :: rest => like pattern rest
  | '\\' :: c :: pattern, text =>
    match text with
    | [] => false
    | c' :: rest => c = c' && like pattern rest
  | c :: pattern, text =>
    match text with
    | [] => false
    | c' :: rest => c = c' && like pattern rest

end Disk

/-- `usage` is the fraction that is used each time it is asked for. -/
def handler (usage : Nat → ℚ) : Handler interface Disk
  | .partitions parent, disk => ((disk.months parent).insertionSort fun first second => first.name ≤ second.name, disk)
  | .ensurePartition parent month, disk => disk.ensurePartition parent month
  | .pathsInPartition part, disk =>
    ((disk.segments.filter fun other => other.month.name = part).flatMap fun part => part.rows.map SegmentRow.path,
      disk)
  | .detachPartition parent part, disk => ((), disk.detachPartition parent part)
  | .dropTable part, disk => ((), { disk with detached := disk.detached.filter (· ≠ part) })
  | .expireRows camera olderThan, disk =>
    let gone (row : SegmentRow) : Bool := row.camera = camera ∧ row.start < olderThan
    ((disk.rows.filter gone).map SegmentRow.path, disk.delete gone)
  | .oldestSegments limit priorityFirst, disk => (disk.oldestSegments limit priorityFirst, disk)
  | .deleteSegment path, disk => ((), disk.delete fun row => row.path = path)
  | .retentionDays, disk => (disk.retentionDays, disk)
  | .indexedPathsUnder pattern, disk =>
    ((disk.rows.map SegmentRow.path).filter fun path => Disk.like pattern.toList path.toList, disk)
  | .logEvent event, disk => ((), { disk with logged := disk.logged ++ [event] })
  | .usage, disk => (usage disk.asked, { disk with asked := disk.asked + 1 })
  | .unlink path, disk => ((), { disk with files := disk.files.filter fun file => file.1 ≠ path })
  | .walkFiles root, disk => (disk.files.filter fun file => (root ++ "/").toList.isPrefixOf file.1.toList, disk)

end Retention

end EdgeVms.Node
