import EdgeVms.Platform.Contract
import EdgeVms.Platform.Events

/-! # The event index

A cache over the buckets of all resources: two tables, `seen` and `events`.  It reads
one bucket after the other, and buckets and resources change between any two reads.
-/

namespace EdgeVms.Platform

open Process Python

/-- What a resource says of itself. -/
structure ResourceBeat where
  server : String
  ts : ℚ
  url : String
  units : Dict (List String)
  mirrors : Dict Nat

namespace EventIndex

/-- A line of a bucket, parsed. -/
abbrev Line := Dict Value

/-- A row of `events`. -/
structure EventRow where
  subsystem : String
  unit : String
  cam : Value
  epoch : Int
  t : Floating
  kind : Value
  server : String
  path : String
  fields : Dict Value

inductive Fault where
  | unreachable
  | python (error : Error)
  | database

/-- What the index keeps beside its tables, and the counter of a pass. -/
structure Counters where
  state : String
  indexedSegments : Nat
  lastMirrorAdded : Nat
  added : Nat

/-- Where the lines of a bucket are read: its own resource, or a peer that holds a copy. -/
inductive Origin where
  | own (url : String)
  | copy (url : String)
  deriving DecidableEq

inductive Request where
  | wall
  | recollect
  | count (change : Counters → Counters)
  | clear
  /-- Is the bucket in `seen`? -/
  | seen (server path : String)
  /-- The rows of one bucket and its line in `seen`, in one transaction. -/
  | insert (server path : String) (rows : List EventRow)
  | buckets (url subsystem unit : String)
  | mirrored (url server : String)
  /-- `reader.events` and `reader.mirrored_events`: the lines of a bucket of the server. -/
  | events (origin : Origin) (server path : String)

@[reducible] def Request.Answer : Request → Type
  | .wall => ℚ
  | .recollect => Counters
  | .count _ | .clear => Unit
  | .seen _ _ => Bool
  | .insert _ _ _ => Except Fault Unit
  | .buckets _ _ _ | .mirrored _ _ => Except Fault (List Bucket)
  | .events _ _ _ => Except Fault (List Line)

abbrev interface : Interface := ⟨Request, Request.Answer⟩

abbrev Program (α : Type) := Proc interface Unit Fault α

def ask (request : Request) : Program request.Answer := Proc.perform (I := interface) () request

/-! ## Indexing a bucket -/

/-- `e.get("cam", int(unit) if unit.isdigit() else None)`: the default is worked out first. -/
def camOf (unit : String) (e : Line) : Except Error Value := do
  let default ← if isDigits unit then Value.int <$> (Text.plain unit).toInt else pure .none
  return e.getD "cam" default

def rowOf (server subsystem unit : String) (epoch : Int) (path : String) (e : Line) : Except Error EventRow := do
  let cam ← camOf unit e
  let t ← (← e.item "t").toFloat
  let kind ← e.item "kind"
  return ⟨subsystem, unit, cam, epoch, t, kind, server, path, e.filter fun (k, _) => k ∉ ["t", "kind", "cam"]⟩

/-- What the loops over a resource's own buckets and over copies do not share. -/
structure Source where
  origin : Origin
  /-- The subsystem and the unit of the rows. -/
  filed : Bucket → String × String
  count : Nat → Counters → Counters

def Source.own (url subsystem unit : String) : Source where
  origin := .own url
  filed _ := (subsystem, unit)
  count n counters := { counters with added := counters.added + n, indexedSegments := counters.indexedSegments + 1 }

def Source.copy (url : String) : Source where
  origin := .copy url
  filed b := (b.subsystem, b.unit)
  count n counters :=
    { counters with lastMirrorAdded := counters.lastMirrorAdded + n, indexedSegments := counters.indexedSegments + 1 }

def bucketRounds (server : String) (source : Source) : List Bucket → Program Unit
  | [] => return ()
  | b :: rest => do
    if b.events = 0 then bucketRounds server source rest
    else if ← ask (.seen server b.path) then bucketRounds server source rest
    else
      let lines ← Proc.ofExcept (← ask (.events source.origin server b.path))
      let (subsystem, unit) := source.filed b
      let rows ← Proc.ofExcept ((lines.mapM (rowOf server subsystem unit b.epoch b.path)).mapError .python)
      Proc.ofExcept (← ask (.insert server b.path rows))
      ask (.count (source.count rows.length))
      bucketRounds server source rest

/-! ## A pass -/

def unitRounds (server url subsystem : String) : List String → Program Unit
  | [] => return ()
  | unit :: rest => do
    let bs ← Proc.ofExcept (← ask (.buckets url subsystem unit))
    bucketRounds server (.own url subsystem unit) bs
    unitRounds server url subsystem rest

def subsystemRounds (server url : String) : List (String × List String) → Program Unit
  | [] => return ()
  | (subsystem, units) :: rest => do
    unitRounds server url subsystem units
    subsystemRounds server url rest

def holderRounds (server : String) : List (String × ResourceBeat) → Program Unit
  | [] => return ()
  | (_, hb) :: rest => do
    tryCatch
      (do
        let bs ← Proc.ofExcept (← ask (.mirrored hb.url server))
        bucketRounds server (.copy hb.url) bs)
      -- that peer is not answering either
      fun _ => return ()
    holderRounds server rest

/-- The live peers whose heartbeat says that they hold copies. -/
def holders (server : String) (live : Dict ResourceBeat) : List (String × ResourceBeat) :=
  live.filter fun (_, hb) => (hb.mirrors.get? server).isSome

/-- `_from_mirror` -/
def fromMirror (server : String) (live : Dict ResourceBeat) : Program Bool := do
  ask (.count fun counters => { counters with lastMirrorAdded := 0 })
  if (holders server live).isEmpty then return false
  holderRounds server (holders server live)
  return true

/-- Those who are unreachable, and those who were read from their peers. -/
abbrev Named := List String × List String

def serverRounds (live : Dict ResourceBeat) : List (String × ResourceBeat) → Named → Program Named
  | [], named => return named
  | (server, hb) :: rest, (unreachable, mirror) => do
    if (live.get? server).isNone then
      if ← fromMirror server live then
        ask (.count fun counters => { counters with added := counters.added + counters.lastMirrorAdded })
        serverRounds live rest (unreachable, mirror ++ [server])
      else serverRounds live rest (unreachable ++ [server], mirror)
    else
      let answered ← tryCatch (do subsystemRounds server hb.url hb.units; return true) fun _ => return false
      serverRounds live rest (if answered then unreachable else unreachable ++ [server], mirror)

def stateText (named : Named) : String :=
  let (unreachable, mirror) := named
  "live" ++ (if unreachable.isEmpty then "" else "; " ++ ", ".intercalate unreachable ++ " unreachable") ++
    (if mirror.isEmpty then "" else "; " ++ ", ".intercalate mirror ++ " from mirror")

structure TailReport where
  added : Nat
  unreachable : List String
  fromMirror : List String
  segments : Nat

/-- The resources whose heartbeat is recent. -/
def liveAt (now lostAfter : ℚ) (resources : Dict ResourceBeat) : Dict ResourceBeat :=
  resources.filter fun (_, hb) => now - hb.ts ≤ lostAfter

/-- `sorted(resources.items())` -/
def inOrder (resources : Dict ResourceBeat) : List (String × ResourceBeat) :=
  resources.insertionSort fun left right => left.1 ≤ right.1

def tail (lostAfter : ℚ) (resources : Dict ResourceBeat) (rebuild : Bool) : Program TailReport := do
  ask (.count fun counters =>
    { counters with state := if rebuild then "catching up" else counters.state, added := 0 })
  let now ← ask .wall
  let named ← serverRounds (liveAt now lostAfter resources) (inOrder resources) ([], [])
  ask (.count fun counters => { counters with state := stateText named })
  let counters ← ask .recollect
  return ⟨counters.added, named.1, named.2, counters.indexedSegments⟩

/-- From nothing: what a failed-over instance does first. -/
def rebuild (lostAfter : ℚ) (resources : Dict ResourceBeat) : Program TailReport := do
  ask .clear
  ask (.count fun counters => { counters with indexedSegments := 0 })
  tail lostAfter resources true

/-! ## The tables -/

structure Tables where
  /-- `(server, path)` is its primary key. -/
  seen : List (String × String)
  events : List EventRow

/-- The rows of one bucket. -/
def Tables.rowsOf (tables : Tables) (server path : String) : List EventRow :=
  tables.events.filter fun row => row.server = server ∧ row.path = path

/-- A value that a statement takes as a parameter. -/
def bindable : Value → Bool
  | .list _ | .dict _ => false
  | .int n => -2 ^ 63 ≤ n && n < 2 ^ 63
  | _ => true

def Tables.insert (tables : Tables) (server path : String) (rows : List EventRow) : Except Fault Tables :=
  if rows.any fun row => !(bindable row.cam && bindable (.int row.epoch) && bindable row.kind) then .error .database
  else if (server, path) ∈ tables.seen then .error .database
  else .ok ⟨tables.seen ++ [(server, path)], tables.events ++ rows⟩

/-! ## What the index finds -/

/-- The lines of a bucket that is there: its file comes into being with the first. -/
abbrev Lines := {lines : List Line // lines ≠ []}

/-- What answers the index at one moment; a bucket that is gone is an error. -/
structure Site where
  wall : ℚ
  /-- Does the database take the transaction of a bucket? -/
  database : String → String → Except Fault Unit
  buckets : String → String → String → Except Fault (List Bucket)
  mirrored : String → String → Except Fault (List Bucket)
  lines : Origin → String → String → Except Fault Lines

/-- A read that was answered. -/
structure Reading where
  origin : Origin
  server : String
  path : String
  lines : Lines

structure Box where
  tables : Tables
  counters : Counters
  site : Nat → Site
  served : Nat
  readings : List Reading

namespace Box

/-- A new index. -/
def new (site : Nat → Site) : Box := ⟨⟨[], []⟩, ⟨"empty", 0, 0, 0⟩, site, 0, []⟩

def now (box : Box) : Site := box.site box.served

def tick (box : Box) : Box := { box with served := box.served + 1 }

end Box

def handler : Handler interface Box
  | .wall, box => (box.now.wall, box.tick)
  | .recollect, box => (box.counters, box.tick)
  | .count change, box => ((), { box.tick with counters := change box.counters })
  | .clear, box => ((), { box.tick with tables := ⟨[], []⟩ })
  | .seen server path, box => (decide ((server, path) ∈ box.tables.seen), box.tick)
  | .insert server path rows, box =>
    match box.now.database server path, box.tables.insert server path rows with
    | .ok _, .ok tables => (.ok (), { box.tick with tables := tables })
    | .ok _, .error fault | .error fault, _ => (.error fault, box.tick)
  | .buckets url subsystem unit, box => (box.now.buckets url subsystem unit, box.tick)
  | .mirrored url server, box => (box.now.mirrored url server, box.tick)
  | .events origin server path, box =>
    match box.now.lines origin server path with
    | .error fault => (.error fault, box.tick)
    | .ok lines => (.ok lines.val, { box.tick with readings := box.readings ++ [⟨origin, server, path, lines⟩] })

/-! ## Asking the index -/

/-- Retention on a resource removed buckets: their events go with them. -/
def Tables.forget (tables : Tables) (server : String) (paths : List String) : Tables where
  seen := tables.seen.filter fun bucket => ¬ (bucket.1 = server ∧ bucket.2 ∈ paths)
  events := tables.events.filter fun row => ¬ (row.server = server ∧ row.path ∈ paths)

/-- What a query asks for; without a limit it is 1000. -/
structure Query where
  t0 : ℚ
  t1 : ℚ
  cam : Option Int := none
  kind : Option String := none
  subsystem : Option String := none
  unit : Option String := none
  /-- By the subsystem and the unit. -/
  currentEpochs : String → String → Option Int := fun _ _ => none
  limit : Int := 1000

/-- `cam = ?` -/
def equalsNumber : Value → Int → Bool
  | .int m, n => m = n
  | .float (.finite x), n => x = n
  | .bool b, n => (if b then 1 else 0) = n
  | _, _ => false

def Query.selects (query : Query) (row : EventRow) : Bool :=
  (row.t ≠ .nan && !row.t.lt (.finite query.t0) && row.t.lt (.finite query.t1)) &&
    query.cam.all (equalsNumber row.cam) && query.kind.all row.kind.equals &&
    query.subsystem.all (row.subsystem = ·) && query.unit.all (row.unit = ·)

/-- The rows of the answer, by their times. -/
def Query.rows (query : Query) (tables : Tables) : List EventRow :=
  let found := (tables.events.filter query.selects).insertionSort fun left right => ¬ right.t.lt left.t
  if 0 ≤ query.limit then found.take query.limit.toNat else found

/-- What the index itself says of an event. -/
def Query.provenance (query : Query) (row : EventRow) : Dict Value :=
  [("subsystem", .str row.subsystem), ("unit", .str row.unit), ("cam", row.cam), ("epoch", .int row.epoch),
    ("t", .float row.t), ("kind", row.kind), ("server", .str row.server), ("bucket", .str row.path),
    ("fenced", .bool ((query.currentEpochs row.subsystem row.unit).any (row.epoch < ·)))]

/-- `{…, **json.loads(fields)}` -/
def Query.answer (query : Query) (row : EventRow) : Dict Value := (query.provenance row).update row.fields

structure Found where
  events : List (Dict Value)
  state : String

def query (query : Query) (box : Box) : Found := ⟨(query.rows box.tables).map query.answer, box.counters.state⟩

end EventIndex

end EdgeVms.Platform
