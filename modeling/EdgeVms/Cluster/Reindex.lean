import EdgeVms.Node.Retention
import EdgeVms.Process.Basic
import EdgeVms.Python.Relpath

/-! # The reindex sweep

The sweep walks the archive and inserts the rows that are missing in the index, with
the epoch of the path.  The store may fail at any of its calls, and a call that fails
may still have done its work.
-/

namespace EdgeVms.Cluster.Reindex

open Process Python

/-! ## Paths and numbers -/

/-- One component more, as `filepath.Clean` takes it. -/
def cleanPart (rooted : Bool) (parts : List String) (part : String) : List String :=
  if part = "" ∨ part = "." then parts
  else if part = ".." then
    match parts.getLast? with
    | none => if rooted then parts else parts ++ [".."]
    | some last => if last = ".." then parts ++ [".."] else parts.dropLast
  else parts ++ [part]

structure Cleaned where
  rooted : Bool
  parts : List String
  deriving DecidableEq

/-- `filepath.Clean` -/
def clean (path : String) : Cleaned :=
  let rooted : Bool := path.toList.head? = some '/'
  ⟨rooted, (split '/' path).foldl (cleanPart rooted) []⟩

/-- The components of `filepath.Rel(basepath, targpath)`. -/
def rel (basepath targpath : String) : Option (List String) :=
  let base := clean basepath
  let targ := clean targpath
  if targ = base then some ["."]
  else if base.rooted ≠ targ.rooted then none
  else
    let parts := if targ.parts = [] ∧ !targ.rooted then ["."] else targ.parts
    let shared := Path.commonPrefix base.parts parts
    if shared < parts.length ∧ base.parts[shared]? = some ".." then none
    else some (List.replicate (base.parts.length - shared) ".." ++ parts.drop shared)

def maxInt64 : Int := 2 ^ 63 - 1

def parseDigits (negative : Bool) (digits : List Char) : Option Int :=
  let n : Int := DateTime.number digits
  if digits.isEmpty || !digits.all Char.isDigit then none
  else if negative then if n ≤ maxInt64 + 1 then some (-n) else none
  else if n ≤ maxInt64 then some n
  else none

/-- `strconv.ParseInt(text, 10, 64)` -/
def parseInt (text : String) : Option Int :=
  match text.toList with
  | '+' :: digits => parseDigits false digits
  | '-' :: digits => parseDigits true digits
  | digits => parseDigits false digits

/-- The digits of a directory that matches `^e\d+$`. -/
def epochDigits (dir : String) : Option (List Char) :=
  match dir.toList with
  | 'e' :: digits => if !digits.isEmpty && digits.all Char.isDigit then some digits else none
  | _ => none

/-- The stamp of a file that matches `^(\d{8}T\d{6}Z)\.mp4$`. -/
def stampOf (file : String) : Option (List Char) :=
  let chars := file.toList
  if chars.length = 20 ∧ (chars.take 8).all Char.isDigit ∧ chars[8]? = some 'T' ∧
      ((chars.drop 9).take 6).all Char.isDigit ∧ chars.drop 15 = "Z.mp4".toList then
    some (chars.take 16)
  else none

/-- `time.Parse("20060102T150405Z", stamp)` of eight digits, a `T`, six digits and a `Z`; there is a year zero. -/
def parseTime (stamp : List Char) : Option DateTime :=
  let t : DateTime :=
    { year := DateTime.number (stamp.take 4)
      month := DateTime.number ((stamp.drop 4).take 2)
      day := DateTime.number ((stamp.drop 6).take 2)
      hour := DateTime.number ((stamp.drop 9).take 2)
      minute := DateTime.number ((stamp.drop 11).take 2)
      second := DateTime.number ((stamp.drop 13).take 2) }
  if 1 ≤ t.month ∧ t.month ≤ 12 ∧ 1 ≤ t.day ∧ t.day ≤ DateTime.daysIn t.year t.month ∧ t.hour ≤ 23 ∧ t.minute ≤ 59 ∧
      t.second ≤ 59 then
    some t
  else none

/-- The camera, the epoch and the start, in nanoseconds, of `<archive>/<cam>/e<epoch>/<start>Z.mp4`. -/
def parse (path archiveDir : String) : Option (Int × Int × Int) :=
  match rel archiveDir path with
  | some [cam, dir, file] => do
    let digits ← epochDigits dir
    let cam ← parseInt cam
    let stamp ← stampOf file
    let start ← parseTime stamp
    -- the error is not looked at: out of range is the largest number there is
    let epoch := min (DateTime.number digits : Int) maxInt64
    return (cam, epoch, start.timestamp * 10 ^ 9)
  | _ => none

example : parse "/data/archive/7/e5/20260908T091000Z.mp4" "/data/archive" = some (7, 5, 1788858600 * 10 ^ 9) := by
  decide +kernel

example : parse "/data/archive/7/20260908T091000Z.mp4" "/data/archive" = none := by decide +kernel

/-! ## The sweep -/

/-- A file that the walk finds, and when it was modified, in nanoseconds. -/
structure FileInfo where
  path : String
  mtime : Int

structure FS where
  walkFiles : List FileInfo
  size : String → Int

/-- A row of the index; its times are in nanoseconds. -/
structure Segment where
  camera : Int
  start : Int
  end_ : Int
  path : String
  size : Int
  epoch : Int
  deriving DecidableEq

structure ReindexReport where
  reindexed : Nat := 0
  fenced : Nat := 0
  skippedOpen : Nat := 0
  skippedUnparsable : Nat := 0
  paths : List String := []
  deriving DecidableEq

structure ReindexedEvent where
  segments : Nat
  fenced : Nat
  currentEpoch : Int
  deriving DecidableEq

inductive Request where
  | indexedPathsUnder (prefix_ : String)
  | indexSegment (seg : Segment)
  | logEvent (event : ReindexedEvent)

/-- What a store call returns as its error. -/
inductive StoreError where
  | failed
  deriving DecidableEq

@[reducible] def Request.Answer : Request → Type
  | .indexedPathsUnder _ => Except StoreError (List String)
  | .indexSegment _ | .logEvent _ => Except StoreError Unit

abbrev interface : Interface := ⟨Request, Request.Answer⟩

abbrev Program (α : Type) := Proc interface Unit Empty α

def ask (request : Request) : Program request.Answer := Proc.perform (I := interface) () request

/-- What a sweep is given. -/
structure Given where
  fsys : FS
  archiveDir : String
  currentEpoch : Int
  segmentSeconds : Int
  now : ℚ

/-- Younger than two segments: it may still be being written. -/
def Given.isOpen (given : Given) (f : FileInfo) : Bool :=
  let grace : ℚ := 2 * given.segmentSeconds
  given.now - f.mtime / 10 ^ 9 < grace

def sweepRounds (given : Given) (indexed : List String) :
    List FileInfo → ReindexReport → Program (ReindexReport × Option StoreError)
  | [], rep => do
    if 0 < rep.reindexed then
      match ← ask (.logEvent ⟨rep.reindexed, rep.fenced, given.currentEpoch⟩) with
      | .error err => return (rep, some err)
      | .ok () => return (rep, none)
    else return (rep, none)
  | f :: rest, rep => do
    if f.path ∈ indexed then sweepRounds given indexed rest rep
    else
      match parse f.path given.archiveDir with
      | none => sweepRounds given indexed rest { rep with skippedUnparsable := rep.skippedUnparsable + 1 }
      | some (cam, epoch, start) =>
        if given.isOpen f then sweepRounds given indexed rest { rep with skippedOpen := rep.skippedOpen + 1 }
        else if f.mtime ≤ start then
          sweepRounds given indexed rest { rep with skippedUnparsable := rep.skippedUnparsable + 1 }
        else
          match ← ask (.indexSegment ⟨cam, start, f.mtime, f.path, given.fsys.size f.path, epoch⟩) with
          | .error err => return (rep, some err)
          | .ok () =>
            sweepRounds given indexed rest
              { rep with
                reindexed := rep.reindexed + 1
                paths := rep.paths ++ [f.path]
                fenced := if epoch < given.currentEpoch then rep.fenced + 1 else rep.fenced }

def sweep (given : Given) : Program (ReindexReport × Option StoreError) := do
  match ← ask (.indexedPathsUnder given.archiveDir) with
  | .error err => return ({}, some err)
  | .ok indexed => sweepRounds given indexed given.fsys.walkFiles {}

/-! ## The store -/

/-- How a call goes: one that fails may still have been applied. -/
inductive Fate where
  | succeeds
  | fails (applied : Bool)
  deriving DecidableEq

/-- `fates` are those of the next calls; the later ones succeed. -/
structure Store where
  segments : List Segment
  events : List ReindexedEvent
  fates : List Fate

namespace Store

def fate (store : Store) : Fate := store.fates.headD .succeeds

/-- `SELECT path FROM segments WHERE path LIKE prefix || '%'` -/
def pathsUnder (prefix_ : String) (segments : List Segment) : List String :=
  (segments.map Segment.path).filter fun path => Node.Retention.Disk.like (prefix_ ++ "%").toList path.toList

end Store

def handler : Handler interface Store
  | .indexedPathsUnder prefix_, store =>
    match store.fate with
    | .succeeds => (.ok (Store.pathsUnder prefix_ store.segments), { store with fates := store.fates.tail })
    | .fails _ => (.error .failed, { store with fates := store.fates.tail })
  | .indexSegment seg, store =>
    match store.fate with
    | .succeeds => (.ok (), { store with segments := store.segments ++ [seg], fates := store.fates.tail })
    | .fails applied =>
      (.error .failed,
        { store with
          segments := if applied then store.segments ++ [seg] else store.segments
          fates := store.fates.tail })
  | .logEvent event, store =>
    match store.fate with
    | .succeeds => (.ok (), { store with events := store.events ++ [event], fates := store.fates.tail })
    | .fails applied =>
      (.error .failed,
        { store with
          events := if applied then store.events ++ [event] else store.events
          fates := store.fates.tail })

end EdgeVms.Cluster.Reindex
