import EdgeVms.Platform.Fleet

/-! # The index beside the resources

What the resources answer the index, from their disks; and the runs in which events
are recorded, resources retain and the index takes its tail passes.  A tail pass is
taken between two requests of the resources.
-/

namespace EdgeVms.Platform.IndexedFleet

open Process Python Resource
open EventIndex (Box Lines Line)

/-- The surroundings of a tail pass: its clock, the heartbeats that it goes by, which servers answer it,
and whether the database takes the transaction of a bucket. -/
structure Pass (site : Resource.Site) where
  wall : ℚ
  beats : Dict ResourceBeat
  up : String → Bool
  database : String → String → Except EventIndex.Fault Unit
  /-- There is one heartbeat of a server, with the address of that server. -/
  keyed : (beats.map Prod.fst).Nodup
  own : ∀ entry ∈ beats, entry.2.url = site.url entry.1

/-- The lines of a body; a bucket that holds no event is not asked for. -/
def linesIn (parse : Bytes → Except Error (List Line)) (body : Bytes) : Except EventIndex.Fault Lines :=
  match parse body with
  | .error error => .error (.python error)
  | .ok lines => if some : lines ≠ [] then .ok ⟨lines, some⟩ else .error .unreachable

/-- `do_GET`, of `/events/<path>`. -/
def serveOwn (disk : Disk) (path : String) : Except EventIndex.Fault Bytes :=
  if isRefused path path then .error .unreachable
  else
    match disk.files.read path with
    | some bytes => .ok bytes
    | none => .error .unreachable

variable (site : Resource.Site) (parse : Bytes → Except Error (List Line))

/-- What the index is answered during the pass. -/
def answers (fleet : Fleet) (pass : Pass site) : EventIndex.Site where
  wall := pass.wall
  database := pass.database
  buckets url subsystem unit :=
    if pass.up (site.host url) then
      (site.bucketsUnder (fleet.disks (site.host url)) subsystem unit).mapError .python
    else .error .unreachable
  mirrored url server :=
    if pass.up (site.host url) then
      (site.mirroredBuckets (fleet.disks (site.host url)) server).mapError .python
    else .error .unreachable
  lines origin server path :=
    match origin with
    | .own url =>
      if pass.up (site.host url) then serveOwn (fleet.disks (site.host url)) path >>= linesIn parse
      else .error .unreachable
    | .copy url =>
      if pass.up (site.host url) then
        match (fleet.disks (site.host url)).serveEvents server path with
        | .ok body => linesIn parse body
        | .error _ => .error .unreachable
      else .error .unreachable

structure Indexed where
  running : Running
  box : Box

inductive Event where
  /-- An event is recorded on a server. -/
  | append (server : String) (log : EventLog) (t : ℚ) (line : Bytes)
  /-- The job of a server begins a retain pass, whatever became of the last one. -/
  | retain (server : String)
  /-- The job of a server gets the answer to its next request. -/
  | request (server : String)
  | clock (server : String) (now : ℚ)
  | store (answers : Bool)
  | policy (key : Key) (items : Items)
  | tail (pass : Pass site)

/-- One tail pass of the index. -/
def tailed (lostAfter : ℚ) (state : Indexed) (pass : Pass site) : Box :=
  ((EventIndex.tail lostAfter pass.beats false).run EventIndex.handler
    { state.box with site := fun _ => answers site parse state.running.fleet pass, readings := [] }).2

def step (lostAfter : ℚ) (state : Indexed) : Event site → Indexed
  | .append server log t line => { state with running := Resource.step site state.running (.append server log t line) }
  | .retain server => { state with running := Resource.step site state.running (.begin_ server .retain) }
  | .request server => { state with running := Resource.step site state.running (.step server) }
  | .clock server now => { state with running := Resource.step site state.running (.clock server now) }
  | .store answers => { state with running := Resource.step site state.running (.store answers) }
  | .policy key items => { state with running := Resource.step site state.running (.policy key items) }
  | .tail pass => { state with box := tailed site parse lostAfter state pass }

/-- Before the first pass nobody is asked. -/
def nobody : EventIndex.Site where
  wall := 0
  database _ _ := .error .database
  buckets _ _ _ := .error .unreachable
  mirrored _ _ := .error .unreachable
  lines _ _ _ := .error .unreachable

/-- A new index, beside resources that hold these files and no copies. -/
def start (trees : String → Tree) (clock : String → ℚ) (rows : Rows) : Indexed where
  running := Resource.start ⟨fun server => ⟨trees server, [], []⟩, clock, [], rows, true, fun _ => true, []⟩
  box := .new fun _ => nobody

end EdgeVms.Platform.IndexedFleet
