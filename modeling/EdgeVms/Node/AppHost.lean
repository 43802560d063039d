import EdgeVms.Process.Basic
import EdgeVms.Vms.Reconciler

/-! # The AppHost of a node

One process with a loop for each concern.  The loops take turns, so a reconcile pass
is one step; a report pass waits for the database at each of its calls, and segments
close meanwhile.
-/

namespace EdgeVms.Node

open Process Python Vms

inductive Fault where
  | database
  | actuator

inductive PipelineState where
  | idle
  | starting
  | running
  | failed
  deriving DecidableEq

structure Pipeline where
  state : PipelineState
  lastError : Option String

/-- A row of `segments`. -/
structure SegmentRow where
  camera : Int
  start : ℚ
  end_ : ℚ
  path : String
  bytes : Nat
  epoch : Int
  deriving DecidableEq

structure AppHost where
  epoch : Int
  desired : List Camera
  reconciler : Reconciler
  pipelines : Table Pipeline
  recordingAllowed : Bool
  pendingIndex : List SegmentRow
  wake : Bool
  startedAt : ℚ
  passes : Nat

abbrev Action := String × Int

namespace AppHost

def new (epoch : Int) (startedAt : ℚ) : AppHost := ⟨epoch, [], .new, [], true, [], false, startedAt, 0⟩

/-! ## The actuator -/

/-- How pipelines start in one pass, by camera. -/
abbrev Starts := Int → Except Fault Bool

/-- A restart lets go of the old pipeline before it builds the new one. -/
def release (verb : String) (cid : Int) (pipelines : Table Pipeline) : Table Pipeline :=
  if verb = "stop" ∨ verb = "restart" then pipelines.pop cid else pipelines

/-- `GstActuator.__call__` -/
def actuator (starts : Starts) (verb : String) (cid : Int) (host : AppHost) : Except Fault Bool × AppHost :=
  let released := release verb cid host.pipelines
  if verb = "stop" then (.ok true, { host with pipelines := released })
  else
    match starts cid with
    | .ok true => (.ok true, { host with pipelines := released.set cid ⟨.starting, none⟩ })
    | .ok false => (.ok false, { host with pipelines := released })
    | .error fault => (.error fault, { host with pipelines := released })

/-- `_actuate`: while the disk is full nothing new is started. -/
def actuate (starts : Starts) (verb : String) (cid : Int) (host : AppHost) : Except Fault Bool × AppHost :=
  if (verb = "start" ∨ verb = "restart") ∧ !host.recordingAllowed then (.ok false, host)
  else actuator starts verb cid host

/-! ## Reconciling -/

/-- The loop over the desired cameras; `jitter` is what `random()` answers. -/
def startRounds (starts : Starts) (jitter : Int → ℚ) (now : ℚ) :
    List (Int × Camera) → AppHost → Except Fault (List Action) × AppHost
  | [], host => (.ok [], host)
  | (cid, cam) :: rest, host =>
    if host.reconciler.rests cid cam now then startRounds starts jitter now rest host
    else
      let verb := if host.reconciler.actual.has cid then "restart" else "start"
      match actuate starts verb cid host with
      | (.error fault, host) => (.error fault, host)
      | (.ok true, host) =>
        let (actions, host) := startRounds starts jitter now rest
          { host with reconciler := host.reconciler.succeed cid cam.revision }
        (((verb, cid) :: ·) <$> actions, host)
      | (.ok false, host) =>
        let (actions, host) := startRounds starts jitter now rest
          { host with reconciler := host.reconciler.fail cid now (jitter cid) }
        ((("failed", cid) :: ·) <$> actions, host)

/-- The stop loop, over what is taken to run. -/
def stopRounds (starts : Starts) (desired : Table Camera) :
    List Int → AppHost → Except Fault (List Action) × AppHost
  | [], host => (.ok [], host)
  | cid :: rest, host =>
    if desired.has cid then stopRounds starts desired rest host
    else
      match actuate starts "stop" cid host with
      | (.error fault, host) => (.error fault, host)
      | (.ok _, host) =>
        let (actions, host) := stopRounds starts desired rest
          { host with reconciler := host.reconciler.forget cid }
        ((("stop", cid) :: ·) <$> actions, host)

def reconcile (starts : Starts) (jitter : Int → ℚ) (now : ℚ) (host : AppHost) :
    Except Fault (List Action) × AppHost :=
  let desired := Reconciler.desired host.desired
  match startRounds starts jitter now desired host with
  | (.error fault, host) => (.error fault, host)
  | (.ok started, host) =>
    let (stopped, host) := stopRounds starts desired host.reconciler.actual.keys host
    ((started ++ ·) <$> stopped, host)

/-- A pass, once the rows are there. -/
def reconcileOnce (rows : List Camera) (starts : Starts) (jitter : Int → ℚ) (clock : ℚ) (host : AppHost) :
    Except Fault (List Action) × AppHost :=
  match reconcile starts jitter (clock - host.startedAt) { host with desired := rows } with
  | (.ok actions, host) => (.ok actions, { host with passes := host.passes + 1 })
  | failed => failed

/-! ## What happens meanwhile -/

/-- What a pipeline's bus said. -/
inductive Heard where
  | nothing
  | playing
  | died

/-- `GstActuator.pump`: the pipelines that live on, and those that died. -/
def pump (bus : Int → Heard) (pipelines : Table Pipeline) : Table Pipeline × List Int :=
  (pipelines.filterMap fun (cid, p) =>
    match bus cid with
    | .nothing => some (cid, p)
    | .playing => some (cid, if p.state = .starting then { p with state := .running } else p)
    | .died => none,
    Table.keys (pipelines.filter fun (cid, _) => match bus cid with | .died => true | _ => false))

/-- One round of `pump_buses`. -/
def pumpBuses (bus : Int → Heard) (jitter : Int → ℚ) (clock : ℚ) (host : AppHost) : AppHost :=
  let (alive, dead) := pump bus host.pipelines
  { host with
    pipelines := alive
    reconciler := dead.foldl (fun loop cid => loop.lost cid (clock - host.startedAt) (jitter cid)) host.reconciler
    wake := host.wake || !dead.isEmpty }

/-- What `retention` does with the report of a pass that returned. -/
def retained (allowed : Bool) (host : AppHost) : AppHost :=
  if allowed ≠ host.recordingAllowed then { host with recordingAllowed := allowed, wake := true } else host

/-- `_on_segment_closed`: queue only. -/
def onSegmentClosed (cid : Int) (start end_ : ℚ) (path : String) (bytes : Nat) (host : AppHost) : AppHost :=
  { host with pendingIndex := host.pendingIndex ++ [⟨cid, start, end_, path, bytes, host.epoch⟩] }

inductive Event where
  | reconcile (rows : List Camera) (starts : Starts) (jitter : Int → ℚ) (clock : ℚ)
  | pump (bus : Int → Heard) (jitter : Int → ℚ) (clock : ℚ)
  | retention (allowed : Bool)
  | segmentClosed (cid : Int) (start end_ : ℚ) (path : String) (bytes : Nat)

def step (host : AppHost) : Event → AppHost
  | .reconcile rows starts jitter clock => (host.reconcileOnce rows starts jitter clock).2
  | .pump bus jitter clock => host.pumpBuses bus jitter clock
  | .retention allowed => host.retained allowed
  | .segmentClosed cid start end_ path bytes => host.onSegmentClosed cid start end_ path bytes

/-! ## Reporting -/

/-- `phases()`: the observed revision and the phase of each camera. -/
def phases (host : AppHost) : Table (Int × String) :=
  host.desired.foldl (fun out cam =>
    if !cam.enabled then out.set cam.id (cam.revision, "pending")
    else
      let have_ := (host.reconciler.actual.get? cam.id).getD 0
      let st := ((host.pipelines.get? cam.id).map Pipeline.state).getD .idle
      let phase := match st with
        | .running => "running"
        | .starting => "starting"
        | .failed => "failed"
        | .idle => "pending"
      let failing := host.reconciler.failures.has cam.id && (st = .idle || st = .failed)
      out.set cam.id (have_, if failing then "failed" else phase)) []

end AppHost

namespace Report

inductive Request where
  | recollect
  /-- The queue is taken away, and an empty one left in its place. -/
  | take
  | report (rows : List (Int × Int × String))
  | setCondition (camera : Int) (condition : String) (status : Bool) (reason : Option String)
  | indexSegment (row : SegmentRow)

@[reducible] def Request.Answer : Request → Type
  | .recollect => AppHost
  | .take => List SegmentRow
  | .report _ | .setCondition _ _ _ _ | .indexSegment _ => Except Fault Unit

abbrev interface : Interface := ⟨Request, Request.Answer⟩

inductive Stage where
  | idle
  /-- Writing a row, with those still to be written after it. -/
  | indexing (rest : List SegmentRow)

abbrev Program (α : Type) := Proc interface Stage Fault α

def ask (request : Request) : Program request.Answer := Proc.perform (I := interface) .idle request

/-- The reasons, on their own axis. -/
def conditionRounds : List Camera → Program Unit
  | [] => return ()
  | cam :: rest => do
    let host ← ask .recollect
    let f := host.reconciler.failures.get? cam.id
    let p := host.pipelines.get? cam.id
    let said := f.map fun f => "failing, retry in " ++ fixed f.delay ++ "s"
    let reason := ((p.bind Pipeline.lastError).filter (· ≠ "")).or said
    Proc.ofExcept (← ask (.setCondition cam.id "camera_reachable" f.isNone (if f.isSome then reason else none)))
    let host ← ask .recollect
    Proc.ofExcept (← ask (.setCondition cam.id "storage_available" host.recordingAllowed
      (if host.recordingAllowed then none else some "disk full; policy=stop_recording")))
    Proc.ofExcept (← ask (.setCondition cam.id "licensed" true none))
    conditionRounds rest

def indexRounds : List SegmentRow → Program Unit
  | [] => return ()
  | row :: rest => do
    Proc.ofExcept (← Proc.perform (I := interface) (.indexing rest) (.indexSegment row))
    indexRounds rest

def reportOnce : Program Unit := do
  let host ← ask .recollect
  Proc.ofExcept (← ask (.report (host.phases.map fun (cid, rev, phase) => (cid, rev, phase))))
  let host ← ask .recollect
  conditionRounds host.desired
  -- the spool became an archive
  let pending ← ask .take
  indexRounds pending

/-- What becomes of one call of the database. -/
inductive Outcome where
  | done
  /-- It raises, and has changed nothing. -/
  | refused
  /-- It raises, but what it wrote is written. -/
  | unanswered

def Outcome.answer : Outcome → Except Fault Unit
  | .done => .ok ()
  | .refused | .unanswered => .error .database

/-- The host, and the rows of `segments`. -/
structure Box where
  host : AppHost
  segments : List SegmentRow

def handler (outcome : Outcome) : Handler interface Box
  | .recollect, box => (box.host, box)
  | .take, box => (box.host.pendingIndex, { box with host := { box.host with pendingIndex := [] } })
  | .report _, box => (outcome.answer, box)
  | .setCondition _ _ _ _, box => (outcome.answer, box)
  | .indexSegment row, box =>
    (outcome.answer,
      match outcome with
      | .refused => box
      | .done | .unanswered => { box with segments := box.segments ++ [row] })

end Report

end EdgeVms.Node
