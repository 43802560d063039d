import EdgeVms.Platform.Resource
import Mathlib.Data.List.Infix

/-! # The resources of all servers

Every server has its disk, its clock and one resource job; they meet in the store and in
the requests that they serve to each other.  A request may fail at its sender and still
arrive, later or in part.
-/

namespace EdgeVms.Platform

open Process Python

namespace Resource

/-- What is the same for all resources of a site. -/
structure Site where
  url : String → String
  /-- The server that an address reaches. -/
  host : String → String
  reaches : ∀ server, host (url server) = server
  bucketSeconds : Int
  lostAfter : ℚ
  /-- Does `json.loads` accept the line? -/
  isJson : Bytes → Bool

/-! ## One disk -/

structure Disk where
  /-- The tree of the server itself. -/
  files : Tree
  /-- Directories of units from which files were removed. -/
  bare : List (String × String)
  /-- Below `.mirror`, by the server that owns the originals. -/
  copies : Dict Tree

def Disk.empty : Disk := ⟨Versioned.empty 0, [], []⟩

def Disk.copiesOf (disk : Disk) (server : String) : Tree := (disk.copies.get? server).getD (Versioned.empty 0)

/-- The lines that are not blank. -/
def linesOf (bytes : Bytes) : List Bytes :=
  (bytes.splitOnP fun byte => byte = 10 ∨ byte = 13).filter fun line =>
    line.any fun byte => !isBlank (Char.ofNat byte.toNat)

/-- How many events `read_bucket` finds. -/
def Site.countEvents (site : Site) (bytes : Bytes) : Except Error Nat :=
  if (linesOf bytes).all site.isJson then .ok (linesOf bytes).length else .error .valueError

/-- `out.append(Bucket(…))` if the file is a bucket. -/
def Site.bucketAt (site : Site) (count : Bytes → Except Error Nat) (tree : Tree) (path : String) :
    Except Error (Option Bucket) := do
  match ← parseBucket path with
  | none => return none
  | some (subsystem, unit, epoch, start) =>
    let events ← count ((tree.read path).getD [])
    return some ⟨subsystem, unit, epoch, start.timestamp, start.timestamp + site.bucketSeconds, path, events⟩

/-- By start, then by epoch. -/
def sortBuckets (buckets : List Bucket) : List Bucket :=
  buckets.insertionSort fun left right =>
    left.start < right.start ∨ (left.start = right.start ∧ left.epoch ≤ right.epoch)

def Site.bucketsAmong (site : Site) (count : Bytes → Except Error Nat) (tree : Tree) (paths : List String) :
    Except Error (List Bucket) := do
  let found ← paths.mapM (site.bucketAt count tree)
  return sortBuckets (found.filterMap id)

/-- `os.walk(base)` -/
def isUnder (base path : String) : Bool := (base ++ "/").toList.isPrefixOf path.toList

/-- Every bucket file for a unit, from the files alone. -/
def Site.bucketsUnder (site : Site) (disk : Disk) (subsystem unit : String) : Except Error (List Bucket) :=
  site.bucketsAmong site.countEvents disk.files
    (disk.files.keys.filter fun path => isUnder (subsystem ++ "/" ++ unit) path)

/-- The copies of a server's buckets; `path` is the one on that server. -/
def Site.mirroredBuckets (site : Site) (disk : Disk) (server : String) : Except Error (List Bucket) :=
  site.bucketsAmong (fun bytes => .ok (linesOf bytes).length) (disk.copiesOf server) (disk.copiesOf server).keys

/-- The two directories a file lies in. -/
def unitOf (path : String) : Option (String × String) :=
  match split '/' path with
  | subsystem :: unit :: _ :: _ => some (subsystem, unit)
  | _ => none

/-- The directories of units that there are. -/
def Disk.units (disk : Disk) : List (String × String) :=
  (disk.bare ++ disk.files.keys.filterMap unitOf).filter fun (subsystem, _) => subsystem.toList.head? ≠ some '.'

/-- `subsystems_under` -/
def Disk.subsystemsUnder (disk : Disk) : Dict (List String) :=
  (sorted (disk.units.map Prod.fst).dedup).map fun subsystem =>
    (subsystem, sorted ((disk.units.filter fun entry => entry.1 = subsystem).map Prod.snd).dedup)

def Disk.write (disk : Disk) (path : String) (bytes : Bytes) : Disk :=
  { disk with files := disk.files.write path bytes }

/-- The directory stays. -/
def Disk.remove (disk : Disk) (path : String) : Disk :=
  { disk with files := disk.files.remove path, bare := disk.bare ++ (unitOf path).toList }

def Disk.keepCopy (disk : Disk) (server path : String) (bytes : Bytes) : Disk :=
  { disk with copies := disk.copies.set server ((disk.copiesOf server).write path bytes) }

/-! ## The requests between resources -/

/-- `".." in rel or not path.endswith(".events.jsonl")` -/
def isRefused (rel path : String) : Bool :=
  decide ("..".toList <:+: rel.toList) || !".events.jsonl".toList.isSuffixOf path.toList

/-- `do_PUT`, of the bytes that arrive. -/
def Disk.servePut (disk : Disk) (server path : String) (bytes : Bytes) : Except Fault Unit × Disk :=
  if isRefused (server ++ "/" ++ path) path || server = "" then (.error (.status 400), disk)
  else (.ok (), disk.keepCopy server path bytes)

/-- `do_GET`, of `/events/.mirror/<server>/<path>`. -/
def Disk.serveEvents (disk : Disk) (server path : String) : Except Fault Bytes :=
  if isRefused (".mirror/" ++ server ++ "/" ++ path) path then .error (.status 404)
  else
    match (disk.copiesOf server).read path with
    | some bytes => .ok bytes
    | none => .error (.status 404)

/-- A PUT that failed at its sender. -/
structure Parcel where
  host : String
  server : String
  path : String
  bytes : Bytes

structure Fleet where
  disks : String → Disk
  clock : String → ℚ
  beats : Dict ResourceBeat
  rows : Rows
  /-- Does the store answer? -/
  store : Bool
  /-- Does the server answer? -/
  up : String → Bool
  sent : List Parcel

def Fleet.setDisk (fleet : Fleet) (server : String) (disk : Disk) : Fleet :=
  { fleet with disks := Function.update fleet.disks server disk }

/-- The meaning of the requests that the job of a server makes. -/
def handler (site : Site) (me : String) : Handler interface Fleet
  | .wall, fleet => (fleet.clock me, fleet)
  | .row key, fleet => (if fleet.store then .ok (fleet.rows.read key) else .error .unreachable, fleet)
  | .resources, fleet => (if fleet.store then .ok fleet.beats else .error .unreachable, fleet)
  | .units, fleet => ((fleet.disks me).subsystemsUnder, fleet)
  | .buckets subsystem unit, fleet =>
    ((site.bucketsUnder (fleet.disks me) subsystem unit).mapError .python, fleet)
  | .read path, fleet =>
    (match (fleet.disks me).files.read path with
      | some bytes => .ok bytes
      | none => .error .fileNotFound, fleet)
  | .exists_ path, fleet => (((fleet.disks me).files.read path).isSome, fleet)
  | .remove path, fleet =>
    if ((fleet.disks me).files.read path).isSome then
      (.ok (), fleet.setDisk me ((fleet.disks me).remove path))
    else (.error .fileNotFound, fleet)
  | .place path bytes, fleet => ((), fleet.setDisk me ((fleet.disks me).write path bytes))
  | .mirrored url server, fleet =>
    (if fleet.up (site.host url) then (site.mirroredBuckets (fleet.disks (site.host url)) server).mapError .python
      else .error .unreachable, fleet)
  | .put url server path bytes, fleet =>
    if fleet.up (site.host url) then
      let (answer, disk) := (fleet.disks (site.host url)).servePut server path bytes
      (answer, fleet.setDisk (site.host url) disk)
    else (.error .unreachable, { fleet with sent := fleet.sent ++ [⟨site.host url, server, path, bytes⟩] })
  | .fetch url server path, fleet =>
    (if fleet.up (site.host url) then (fleet.disks (site.host url)).serveEvents server path
      else .error .unreachable, fleet)

/-- What a resource says of itself. -/
def Site.heartbeat (site : Site) (fleet : Fleet) (server : String) : Except Error ResourceBeat := do
  let disk := fleet.disks server
  let mirrors ← (sorted (disk.copies.map Prod.fst)).mapM fun owner => do
    return (owner, (← site.mirroredBuckets disk owner).length)
  return ⟨server, fleet.clock server, site.url server, disk.subsystemsUnder, mirrors⟩

/-! ## Runs -/

inductive Job where
  | retain
  | mirror
  | restore

inductive Outcome where
  | removed (count : Nat)
  | mirrored (report : Report)
  | pulled (count : Nat)
  deriving DecidableEq

def Job.program (site : Site) (server : String) : Job → Program Outcome
  | .retain => Outcome.removed <$> Resource.retain
  | .mirror => Outcome.mirrored <$> Resource.mirror site.lostAfter server
  | .restore => Outcome.pulled <$> Resource.restore site.lostAfter server

inductive Event where
  /-- An event is recorded: `EventLog.append`, of the log of a unit on a server. -/
  | append (server : String) (log : EventLog) (t : ℚ) (line : Bytes)
  /-- The job of a server begins a pass, whatever became of the last one. -/
  | begin_ (server : String) (job : Job)
  /-- The job of a server gets the answer to its next request. -/
  | step (server : String)
  /-- A PUT that failed at its sender arrives, as far as its first bytes. -/
  | late (which count : Nat)
  | clock (server : String) (now : ℚ)
  | beat (server : String)
  | lose (server : String)
  | links (up : String → Bool)
  | store (answers : Bool)
  | policy (key : Key) (items : Items)
  /-- The disk of a server is replaced. -/
  | wipe (server : String)

structure Running where
  fleet : Fleet
  jobs : String → Program Outcome
  /-- The buckets that were closed when the last pass of a server began. -/
  closed : String → List String

/-- The path of a bucket below the root of its server. -/
def relativePath (log : EventLog) (t : ℚ) : Except Error String := EventLog.pathFor { log with root := "" } t

def Fleet.append (fleet : Fleet) (server : String) (log : EventLog) (t : ℚ) (line : Bytes) : Fleet :=
  match relativePath log t with
  | .error _ => fleet
  | .ok path =>
    let disk := fleet.disks server
    fleet.setDisk server (disk.write path ((disk.files.read path).getD [] ++ line))

def Fleet.deliver (fleet : Fleet) (parcel : Parcel) (count : Nat) : Fleet :=
  fleet.setDisk parcel.host ((fleet.disks parcel.host).servePut parcel.server parcel.path (parcel.bytes.take count)).2

/-- The end of a bucket's span. -/
def Site.endOf (site : Site) (path : String) : Option ℚ :=
  match parseBucket path with
  | .ok (some (_, _, _, start)) => some (start.timestamp + site.bucketSeconds)
  | _ => none

/-- The buckets of a server whose span is over. -/
def Site.closedAt (site : Site) (fleet : Fleet) (server : String) : List String :=
  (fleet.disks server).files.keys.filter fun path =>
    (site.endOf path).any (· ≤ fleet.clock server) && path.toList.head? ≠ some '.'

def Fleet.move (site : Site) (fleet : Fleet) : Event → Fleet
  | .append server log t line => fleet.append server log t line
  | .late which count =>
    match fleet.sent[which]? with
    | some parcel => { fleet.deliver parcel count with sent := fleet.sent.eraseIdx which }
    | none => fleet
  | .clock server now => { fleet with clock := Function.update fleet.clock server (max now (fleet.clock server)) }
  | .beat server =>
    match site.heartbeat fleet server with
    | .ok beat => { fleet with beats := fleet.beats.set server beat }
    | .error _ => fleet
  | .lose server => { fleet with beats := fleet.beats.pop server }
  | .links up => { fleet with up }
  | .store answers => { fleet with store := answers }
  | .policy key items => { fleet with rows := fleet.rows.write key items }
  | .wipe server => fleet.setDisk server Disk.empty
  | .begin_ _ _ | .step _ => fleet

def step (site : Site) (running : Running) : Event → Running
  | .begin_ server job =>
    { running with
      jobs := Function.update running.jobs server (job.program site server)
      closed := Function.update running.closed server (site.closedAt running.fleet server) }
  | .step server =>
    let (program, fleet) := Proc.advance (handler site server) (running.jobs server, running.fleet)
    { running with fleet, jobs := Function.update running.jobs server program }
  | event => { running with fleet := running.fleet.move site event }

/-- Every job waits. -/
def start (fleet : Fleet) : Running := ⟨fleet, fun _ => .ret (.removed 0), fun _ => []⟩

end Resource

end EdgeVms.Platform
