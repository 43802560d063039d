import EdgeVms.Platform.Events
import EdgeVms.Vms.Controller
import EdgeVms.Vms.Reconciler

/-! # The worker of the VMS

One process and its pipelines.  Its memory is a `VmsWorker`; a pass that raises
leaves behind what it had changed by then.
-/

namespace EdgeVms.Vms

open Process Python Platform

structure VmsWorker extends Worker where
  reconciler : Reconciler
  /-- The cameras whose pipeline the actuator runs. -/
  pipelines : List Int
  rows : List Camera
  assignmentRev : Int
  recordingAllowed : Bool
  fencedReason : Option String
  archiveRoot : String
  bucketSeconds : Int
  observed : List (Int × ℚ × String)
  startedAt : ℚ
  passes : Nat

namespace VmsWorker

/-- The worker as its constructor leaves it, once it is somebody. -/
def new (me : Worker) (archiveRoot : String) (startedAt : ℚ) : VmsWorker :=
  { me with
    reconciler := .new, pipelines := [], rows := [], assignmentRev := 0, recordingAllowed := true,
    fencedReason := none, archiveRoot := archiveRoot, bucketSeconds := 600, observed := [],
    startedAt := startedAt, passes := 0 }

/-- With the platform's part of the memory as a call left it. -/
def withBase (me : VmsWorker) (base : Worker) : VmsWorker := { me with toWorker := base }

/-! ## The actuator -/

/-- `GstActuator.__call__`: a restart lets go of the old pipeline before it builds the new one. -/
def actuator (verb : String) (cid : Int) (row : Dict Value) : Program VmsWorker Bool := do
  Program.remember fun me =>
    if verb = "stop" ∨ verb = "restart" then { me with pipelines := me.pipelines.filter (· ≠ cid) } else me
  if verb = "stop" then return true
  let up ← Program.actuator verb row
  Program.remember fun me =>
    if up then { me with pipelines := me.pipelines.filter (· ≠ cid) ++ [cid] } else me
  return up

/-- `GstActuator.pump`: what gathered on the bus; a dead pipeline is let go of. -/
def pump : Program VmsWorker (List Int × List Posted) := do
  let (dead, posted) ← Program.bus
  Program.remember fun me => { me with pipelines := me.pipelines.filter (· ∉ dead) }
  return (dead, posted)

/-! ## The store, as the reconciler sees it -/

def refreshRounds : List String → List Camera → Program VmsWorker (List Camera)
  | [], rows => return rows
  | unit :: rest, rows => do
    let (items, _) ← Program.get (VmsController.cameraKey unit)
    if (rowValues items).isEmpty || VmsController.isDeleted (rowValues items) then refreshRounds rest rows
    else
      let r ← Program.value (row (rowValues items))
      let id ← Program.value (do (← Dict.item r "id").toInt)
      let revision ← Program.value (do (← Dict.item r "revision").toInt)
      let enabled ← Program.value (Value.truthy <$> Dict.item r "enabled")
      refreshRounds rest (rows ++ [⟨id, enabled, revision, r⟩])

/-- Read the assignment and the rows it names. -/
def refresh : Program VmsWorker Unit := do
  let me ← Program.recollect
  let a ← Worker.assignment vms me.toWorker
  Program.remember fun me => { me with assignmentRev := a.rev }
  let rows ← refreshRounds a.units []
  Program.remember fun me => { me with rows := rows }

/-! ## The gate -/

/-- The epoch for a start or a restart: a new one for a new writer. -/
def epochFor (verb unit : String) (me : VmsWorker) : Program VmsWorker Int :=
  match if verb = "start" then none else me.epochs.get? unit with
  | some epoch => return epoch
  | none => do
    let (epoch, base) ← Worker.takeEpoch vms me.toWorker unit
    Program.remember fun me => me.withBase base
    return epoch

/-- `_actuate` -/
def actuate (verb : String) (cid : Int) (row : Dict Value) : Program VmsWorker Bool := do
  if verb = "stop" then
    let ok ← actuator "stop" cid row
    Program.remember fun me => me.withBase (me.release (toString cid))
    return ok
  else
    let me ← Program.recollect
    if !me.recordingAllowed then return false
    let epoch ← epochFor verb (toString cid) me
    let me ← Program.recollect
    let may ← Worker.mayWrite me.toWorker (toString cid)
    if !may then return false
    actuator verb cid (row.set "epoch" (.int epoch))

def now : Program VmsWorker ℚ := do
  let me ← Program.recollect
  let clock ← Program.clock
  return clock - me.startedAt

/-! ## The passes -/

/-- The loop over the desired cameras. -/
def startRounds (now : ℚ) : List (Int × Camera) → Program VmsWorker (List (String × Int))
  | [] => return []
  | (cid, cam) :: rest => do
    let me ← Program.recollect
    if me.reconciler.rests cid cam now then startRounds now rest
    else
      let verb := if me.reconciler.actual.has cid then "restart" else "start"
      if ← actuate verb cid cam.row then
        Program.remember fun me => { me with reconciler := me.reconciler.succeed cid cam.revision }
        let actions ← startRounds now rest
        return (verb, cid) :: actions
      else
        let random ← Program.random
        Program.remember fun me => { me with reconciler := me.reconciler.fail cid now random }
        let actions ← startRounds now rest
        return ("failed", cid) :: actions

/-- The stop loop, over what is taken to run. -/
def stopRounds (desired : Table Camera) : List Int → Program VmsWorker (List (String × Int))
  | [] => return []
  | cid :: rest => do
    if desired.has cid then stopRounds desired rest
    else
      let _ ← actuate "stop" cid [("id", .int cid)]
      Program.remember fun me => { me with reconciler := me.reconciler.forget cid }
      let actions ← stopRounds desired rest
      return ("stop", cid) :: actions

def reconcile (now : ℚ) : Program VmsWorker (List (String × Int)) := do
  let me ← Program.recollect
  let desired := Reconciler.desired me.rows
  let started ← startRounds now desired
  let me ← Program.recollect
  let stopped ← stopRounds desired me.reconciler.actual.keys
  return started ++ stopped

def reconcileOnce : Program VmsWorker (List (String × Int)) := do
  refresh
  let actions ← reconcile (← now)
  Program.remember fun me => { me with passes := me.passes + 1 }
  return actions

/-- Stop every pipeline, and record nothing from now on. -/
def fence (why : String) : Program VmsWorker Unit := do
  let me ← Program.recollect
  if !me.recordingAllowed then return ()
  Program.remember fun me =>
    { me with
      recordingAllowed := false, fencedReason := some why, pipelines := [], reconciler := me.reconciler.clear }

def lostRounds (assigned : List String) : List String → Program VmsWorker Unit
  | [] => return ()
  | unit :: rest => do
    if unit ∉ assigned then
      let cid ← Program.value (Text.plain unit).toInt
      let _ ← actuator "stop" cid [("id", .int cid)]
      Program.remember fun me =>
        { me.withBase (me.release unit) with reconciler := me.reconciler.forget cid }
      lostRounds assigned rest
    else
      let me ← Program.recollect
      fence ("camera " ++ unit ++ ": a newer epoch was issued to another instance of " ++ me.named)

def leasePass : Program VmsWorker (List String) := do
  let me ← Program.recollect
  let (mine, base) ← Worker.renewSlot vms me.toWorker
  Program.remember fun me => me.withBase base
  if !mine then
    fence ("slot " ++ me.named ++ " is held by another instance now")
    return me.epochs.map Prod.fst
  else
    let (lost, base) ← Worker.renewLeases base
    Program.remember fun me => me.withBase base
    if lost.isEmpty then return []
    let a ← Worker.assignment vms base
    lostRounds a.units lost
    return lost

/-- `EventLog.append`: a field may not have the name of an argument, and a value must have a text in JSON. -/
def append (log : EventLog) (t : ℚ) (fields : Dict Field) : Program VmsWorker String := do
  if fields.any fun field => field.1 ∈ ["self", "t", "kind"] then throw (.python .typeError)
  else
    let path ← Program.value (log.pathFor t)
    Program.append path
    -- the file is open by then
    if fields.any fun field => field.2.isOther then throw (.python .typeError)
    else return path

/-- A line in the camera's bucket, under the epoch this worker holds for it. -/
def observe (cid : Int) (kind : String) (fields : Dict Field) : Program VmsWorker (Option String) := do
  if fields.any fun field => field.1 ∈ ["self", "cid", "kind"] then throw (.python .typeError)
  else
    let me ← Program.recollect
    match me.epochs.get? (toString cid), me.recordingAllowed with
    | some epoch, true =>
      let t ← Program.wall
      Program.remember fun me => { me with observed := me.observed ++ [(cid, t, kind)] }
      some <$> append ⟨me.archiveRoot, vms.name, toString cid, epoch, me.bucketSeconds⟩ t fields
    | _, _ => return none

def postedRounds : List Posted → Program VmsWorker Unit
  | [] => return ()
  | event :: rest => do
    let _ ← observe event.camera event.kind event.fields
    postedRounds rest

def deadRounds : List Int → Program VmsWorker Unit
  | [] => return ()
  | cid :: rest => do
    let now ← now
    let random ← Program.random
    Program.remember fun me => { me with reconciler := me.reconciler.lost cid now random }
    let _ ← observe cid "silent" []
    deadRounds rest

/-- The bus, drained. -/
def pumpOnce : Program VmsWorker Unit := do
  let (dead, posted) ← pump
  postedRounds posted
  deadRounds dead

/-! ## What it reports -/

/-- The report of one camera. -/
def cameraStatus (me : VmsWorker) (cam : Camera) : Except Error (Dict Value) := do
  let position := ((me.reconciler.status me.rows).get? cam.id).getD .converged
  let phase :=
    if me.reconciler.actual.has cam.id then "running"
    else if cam.enabled && me.reconciler.failures.has cam.id then "failed"
    else "pending"
  let name ← Dict.item cam.row "name"
  return [("id", .int cam.id), ("name", name), ("enabled", .bool cam.enabled), ("phase", .str (.plain phase)),
    ("position", .str (.plain position.text)), ("revision", .int cam.revision),
    ("observed_revision", .int ((me.reconciler.actual.get? cam.id).getD 0)),
    ("epoch", .int ((me.epochs.get? (toString cam.id)).getD 0))]

def status (me : VmsWorker) : Except Error (List (Dict Value)) := me.rows.mapM me.cameraStatus

/-- The cameras that this worker could still take. -/
def headroom (me : VmsWorker) (capacity : Int) : Int := max 0 (capacity - me.rows.length)

/-- The heartbeat, with the name that its object is put under. -/
def heartbeatOnce (server : String) (capacity : Int) : Program VmsWorker (String × Heartbeat) := do
  let me ← Program.recollect
  let status ← Program.value me.status
  let ts ← Program.wall
  return (me.named, ⟨me.named, .finite ts, status,
    [("server", .str (.plain server)), ("instance", .str (.plain me.instance_)),
      ("assignment_rev", .int me.assignmentRev),
      ("fenced", .bool !me.recordingAllowed), ("conflicts", .int me.conflicts), ("passes", .int me.passes),
      ("capacity", .int capacity), ("headroom", .int (me.headroom capacity))]⟩)

/-! ## The end of `run` -/

def stopAll : Program VmsWorker Unit := Program.remember fun me => { me with pipelines := [] }

def releaseSlot : Program VmsWorker Unit := do
  let me ← Program.recollect
  let base ← Worker.releaseSlot vms me.toWorker
  Program.remember fun me => me.withBase base

end VmsWorker

end EdgeVms.Vms
