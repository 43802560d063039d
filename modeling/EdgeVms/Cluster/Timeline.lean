import EdgeVms.Vms.Manifest

/-! # One camera's timeline across the resources

A camera that failed over has footage on two servers.  The console asks each resource
that reports the camera for its manifest, over HTTP, and merges the lines; beside it
stands the timeline that a resource makes of its own manifest.
-/

namespace EdgeVms.Cluster.Timeline

open Python Vms
open Manifest (Shelf manifestPath object)

/-! ## Lines -/

/-- A segment of a manifest, its path as it stands there. -/
structure Segment where
  cam : Int
  epoch : Int
  start : Floating
  end_ : Floating
  path : Value
  bytes : Int

structure Bucket where
  subsystem : Value
  unit : Text
  epoch : Int
  start : Floating
  end_ : Floating
  path : Value
  events : Int

def segmentOf (d : Dict Value) : Except Error Segment := do
  let cam ← (← d.item "cam").toInt
  let epoch ← (← d.item "epoch").toInt
  let start ← Json.toFloat (← d.item "start")
  let end_ ← Json.toFloat (← d.item "end")
  let path ← d.item "path"
  let bytes ← (← d.item "bytes").toInt
  return ⟨cam, epoch, start, end_, path, bytes⟩

/-- `Segment.from_line(line)` -/
def Segment.fromLine (line : List Char) : Except Error Segment := do
  match ← Json.loads line with
  | .dict d => segmentOf d
  | _ => throw .typeError

def bucketOf (d : Dict Value) : Except Error Bucket := do
  let subsystem ← d.item "subsystem"
  let unit := (← d.item "unit").text
  let epoch ← (← d.item "epoch").toInt
  let start ← Json.toFloat (← d.item "start")
  let end_ ← Json.toFloat (← d.item "end")
  let path ← d.item "path"
  let events ← (← d.item "events").toInt
  return ⟨subsystem, unit, epoch, start, end_, path, events⟩

/-- `[Segment.from_line(l)] if json.loads(l).get("kind", "media") == "media" else []` -/
def media? (line : List Char) : Except Error (Option Segment) := do
  let d ← object line
  if (d.getD "kind" (.str "media")).equals "media" then some <$> segmentOf d else return none

/-- `[bucket_from_line(l)] if json.loads(l).get("kind") == "events" else []` -/
def events? (line : List Char) : Except Error (Option Bucket) := do
  let d ← object line
  if (d.getD "kind" .none).equals "events" then some <$> bucketOf d else return none

/-! ## The timeline of one archive -/

/-- `Manifest.read()` -/
def read (shelf : Shelf) (cam : Int) : Except Error (List Segment) := do
  let found ← (← Manifest.linesOf shelf (toString cam)).mapM media?
  return found.filterMap id

/-- `Manifest.buckets()` -/
def buckets (shelf : Shelf) (cam : Int) : Except Error (List Bucket) := do
  let found ← (← Manifest.linesOf shelf (toString cam)).mapM events?
  return found.filterMap id

structure Span where
  start : Floating
  end_ : Floating
  /-- The path, or `none` for events without media. -/
  media : Value
  epoch : Int
  events : Int
  fenced : Bool

section Window

variable (t0 t1 : Floating) (current : Option Int)

def fenced (epoch : Int) : Bool := current.any (epoch < ·)

def inside (start end_ : Floating) : Bool := t0.lt end_ && start.lt t1

def mediaSpans (segments : List Segment) : List Span :=
  (segments.filter fun s => inside t0 t1 s.start s.end_).map fun s =>
    ⟨s.start, s.end_, s.path, s.epoch, 0, fenced current s.epoch⟩

/-- The bucket has events of a recorded span. -/
def hits (b : Bucket) (o : Span) : Bool :=
  o.media.truthy && o.epoch = b.epoch && o.start.lt b.end_ && b.start.lt o.end_

def bucketRounds : List Bucket → List Span → List Span
  | [], out => out
  | b :: rest, out =>
    if inside t0 t1 b.start b.end_ then
      match out.findIdx? (hits b) with
      | some hit => bucketRounds rest (out.modify hit fun o => { o with events := o.events + b.events })
      | none => bucketRounds rest (out ++ [⟨b.start, b.end_, .none, b.epoch, b.events, fenced current b.epoch⟩])
    else bucketRounds rest out

def sortSpans (spans : List Span) : List Span :=
  spans.insertionSort fun left right => Manifest.Before (left.start, left.epoch) (right.start, right.epoch)

/-- `Manifest.timeline(t0, t1, current_epoch)` -/
def timeline (shelf : Shelf) (cam : Int) : Except Error (List Span) := do
  let out := mediaSpans t0 t1 current (← read shelf cam)
  return sortSpans (bucketRounds t0 t1 current (← buckets shelf cam) out)

end Window

/-! ## The route -/

/-- The lines of a text: where they end, and what stays of an end. -/
def cut (isEnd : Char → Bool) (kept : List Char) : List Char → List (List Char)
  | [] => []
  | '\r' :: '\n' :: rest => kept :: cut isEnd kept rest
  | c :: rest =>
    if isEnd c then kept :: cut isEnd kept rest
    else
      match cut isEnd kept rest with
      | [] => [[c]]
      | line :: lines => (c :: line) :: lines

/-- `for l in f`, of a file opened for text. -/
def fileLines : List Char → List (List Char) := cut (fun c => c = '\n' || c = '\r') ['\n']

/-- The ends that `str.splitlines` knows. -/
def isLineEnd (c : Char) : Bool :=
  (0x0a ≤ c.toNat && c.toNat ≤ 0x0d) || (0x1c ≤ c.toNat && c.toNat ≤ 0x1e) || c.toNat ∈ [0x85, 0x2028, 0x2029]

/-- `text.splitlines()` -/
def splitlines : List Char → List (List Char) := cut isLineEnd []

/-- `if line.strip()` -/
def full (line : List Char) : Bool := !line.all Json.isBlank

/-- `Manifest._lines()` -/
def keptLines (shelf : Shelf) (cam : Int) : Except Error (List (List Char)) :=
  match shelf.files.read (manifestPath (toString cam)) with
  | some file => (fun text => (fileLines text).filter full) <$> Json.decode file.bytes
  | none => .ok []

/-- `path.rsplit("/", 1)[1]` -/
def lastPart (path : String) : String := (split '/' path).getLast?.getD ""

/-- `extra(path, headers)` for the paths of manifests. -/
def manifestRoute (shelf : Shelf) (path : String) : Except Error (Option (Nat × List UInt8)) :=
  if "/manifest/".toList.isPrefixOf path.toList then do
    let cam ← (Text.plain (lastPart path)).toInt
    return some (200, Json.encode (← keptLines shelf cam).flatten)
  else return none

/-! ## The console -/

/-- What answers at a URL. -/
abbrev Network := String → Option Shelf

/-- `ManifestReader.read(url, cam)`; nothing if it raises. -/
def readManifest (net : Network) (url : String) (cam : Int) : Option (List Segment) := do
  let shelf ← net url
  let (_, body) ← (← (manifestRoute shelf ("/manifest/" ++ toString cam)).toOption)
  (do ((splitlines (← Json.decode body)).filter full).mapM Segment.fromLine : Except Error (List Segment)).toOption

structure Heartbeat where
  ts : ℚ
  url : String
  /-- The units of each subsystem. -/
  units : Dict (List String)

structure Row where
  start : Floating
  end_ : Floating
  path : Value
  epoch : Int
  server : String
  fenced : Bool

structure MergedTimeline where
  segments : List Row
  unreachable : List String
  note : String

section Merge

variable (net : Network) (cam : Int) (t0 t1 : Floating) (current : Option Int) (now lostAfter : ℚ)

def rowsOf (server : String) (segments : List Segment) : List Row :=
  (segments.filter fun s => inside t0 t1 s.start s.end_).map fun s =>
    ⟨s.start, s.end_, s.path, s.epoch, server, fenced current s.epoch⟩

def mergeRounds : Dict Heartbeat → List Row → List String → List Row × List String
  | [], segs, unreachable => (segs, unreachable)
  | (server, hb) :: rest, segs, unreachable =>
    if toString cam ∉ hb.units.getD "vms" [] then mergeRounds rest segs unreachable
    else if now - hb.ts > lostAfter then mergeRounds rest segs (unreachable ++ [server])
    else
      match readManifest net hb.url cam with
      | none => mergeRounds rest segs (unreachable ++ [server])
      | some rows => mergeRounds rest (segs ++ rowsOf t0 t1 current server rows) unreachable

def noteOf (unreachable : List String) : String :=
  if unreachable.isEmpty then ""
  else "ranges on " ++ ", ".intercalate unreachable ++ " are unavailable until the server returns — not lost"

def sortRows (rows : List Row) : List Row :=
  rows.insertionSort fun left right => Manifest.Before (left.start, left.epoch) (right.start, right.epoch)

/-- `merged_timeline(resources, reader, cam, t0, t1, current_epoch, now, lost_after)` -/
def mergedTimeline (resources : Dict Heartbeat) : MergedTimeline :=
  let (segs, unreachable) := mergeRounds net cam t0 t1 current now lostAfter
    (resources.insertionSort fun left right => left.1 ≤ right.1) [] []
  ⟨sortRows segs, unreachable, noteOf unreachable⟩

end Merge

end EdgeVms.Cluster.Timeline
