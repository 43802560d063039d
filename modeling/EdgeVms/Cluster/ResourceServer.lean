import EdgeVms.Cluster.SegmentRoute
import EdgeVms.Cluster.Timeline
import EdgeVms.Python.Relpath

/-! # The files behind the resource's routes

What the server of a resource reads and writes for a request: the platform's routes,
and those of the VMS when they are plugged in.  What the system refuses is left out.
-/

namespace EdgeVms.Cluster.ResourceServer

open Python Platform

/-- The files and directories that the server finds. -/
structure Machine (cwd root : String) where
  /-- What a regular file holds. -/
  content : String → Option (List UInt8)
  /-- `os.path.join(d, f)` for the files of `os.walk(base)`, in its order. -/
  walk : String → List String
  below : ∀ base, ∀ path ∈ walk base,
    ∃ names, names ≠ [] ∧ (∀ name ∈ names, Path.Name name) ∧ path = Path.join base names
  /-- The root is a directory. -/
  directory : ∀ path, Path.partsOf cwd path = Path.partsOf cwd root → content path = none

inductive Access where
  | read (path : String)
  | write (path : String)

def Access.path : Access → String
  | .read path => path
  | .write path => path

structure Headers where
  range : Option String
  contentLength : Option String

inductive Method where
  | get
  | put
  | other

/-- What stands behind a front: `path.startswith(front)`, `path[len(front):]`. -/
def after? (front path : String) : Option String :=
  if front.toList.isPrefixOf path.toList then some (String.ofList (path.toList.drop front.toList.length)) else none

/-- `".." in rel` -/
def hasUp (rel : String) : Bool := "..".toList <:+: rel.toList

/-- `rel.endswith(".events.jsonl")` -/
def isEvents (rel : String) : Bool := ".events.jsonl".toList.isSuffixOf rel.toList

/-- `sub, unit` of `_, _, sub, unit = path.split("/", 3)` -/
def subUnit (path : String) : Option (String × String) :=
  match split '/' path with
  | _ :: _ :: sub :: unit :: rest => some (sub, join '/' (unit :: rest))
  | _ => none

/-- `server, _, path = rel.partition("/")` -/
def partition (rel : String) : String × String :=
  (String.ofList (rel.toList.takeWhile (· ≠ '/')), String.ofList ((rel.toList.dropWhile (· ≠ '/')).drop 1))

def mirrorOf (root server : String) : String := Path.join root [".mirror", server]

section Routes

variable {cwd root : String} (machine : Machine cwd root)

/-- `parse_bucket(path, start)` -/
def parseBucketAt (cwd path start : String) : Except Error (Option (String × String × Int × DateTime)) := do
  parseBucket (join '/' (← Path.relparts cwd path start))

/-- The files that are taken for buckets are read, until one cannot be. -/
def bucketReads (start : String) (legible : Option (List UInt8) → Bool) : List String → List Access
  | [] => []
  | path :: rest =>
    match parseBucketAt cwd path start with
    | .error _ => []
    | .ok none => bucketReads start legible rest
    | .ok (some _) =>
      .read path :: if legible (machine.content path) then bucketReads start legible rest else []

/-- `read_bucket(path)` returns, of a file that may be gone by now. -/
def isRead (content : Option (List UInt8)) : Bool :=
  match content with
  | some bytes => (do (← Json.linesOf bytes).mapM Json.loads : Except Error (List Value)).toOption.isSome
  | none => true

/-- `sum(1 for l in fh if l.strip())` returns. -/
def isCounted (content : Option (List UInt8)) : Bool :=
  match content with
  | some bytes => (Json.decode bytes).toOption.isSome
  | none => false

def bucketsUnder (subsystem unit : String) : List Access :=
  bucketReads machine root isRead (machine.walk (unitDir root subsystem unit))

def mirroredBuckets (server : String) : List Access :=
  bucketReads machine (mirrorOf root server) isCounted (machine.walk (mirrorOf root server))

/-- The range of a header is two numbers, or nothing. -/
def isRange (range : Option String) : Bool :=
  match range with
  | none => true
  | some rng => (SegmentRoute.bounds ⟨[], by decide⟩ rng).toOption.isSome

/-- `vms_routes`: `extra(path, headers)` -/
def extra (path : String) (headers : Headers) : List Access :=
  match after? "/manifest/" path with
  | some _ =>
    match (Text.plain (Timeline.lastPart path)).toInt with
    | .ok cam => [.read (Path.joinTwo (unitDir root "vms" (toString cam)) "manifest.jsonl")]
    | .error _ => []
  | none =>
    match after? "/segment/" path with
    | some rel =>
      let p := Path.joinTwo root rel
      if hasUp rel || (machine.content p).isNone || !isRange headers.range then [] else [.read p]
    | none => []

def doGet (plugged : Bool) (path : String) (headers : Headers) : List Access :=
  match after? "/buckets/" path with
  | some _ =>
    match subUnit path with
    | some (sub, unit) => bucketsUnder machine sub unit
    | none => []
  | none =>
    match after? "/mirrored/" path with
    | some server => mirroredBuckets machine server
    | none =>
      match after? "/events/" path with
      | some rel =>
        let p := Path.joinTwo root rel
        if hasUp rel || !isEvents rel || (machine.content p).isNone then [] else [.read p]
      | none => if plugged then extra machine path headers else []

/-- `int(self.headers.get("Content-Length", 0))` returns. -/
def isLength (length : Option String) : Bool :=
  match length with
  | none => true
  | some text => (Text.plain text).toInt.toOption.isSome

/-- The copy is written beside its place, then put there. -/
def doPut (root path : String) (headers : Headers) : List Access :=
  match after? "/mirror/" path with
  | none => []
  | some rel =>
    let (server, path) := partition rel
    if hasUp rel || server = "" || !isEvents path then []
    else
      let dest := Path.join root [".mirror", server, path]
      if isLength headers.contentLength then [.write (dest ++ ".tmp"), .write dest] else []

/-- The files of a request; the server knows two methods. -/
def handle (plugged : Bool) (method : Method) (path : String) (headers : Headers) : List Access :=
  match method with
  | .get => doGet machine plugged path headers
  | .put => doPut root path headers
  | .other => []

end Routes

end EdgeVms.Cluster.ResourceServer
