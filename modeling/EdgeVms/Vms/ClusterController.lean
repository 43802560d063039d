import EdgeVms.Vms.Controller

/-! # The controller of a cluster

The VMS controller with a constraint: a worker gets a camera only if its server
reaches all of the camera's labels.  `place` is its own; `ensure_placed` calls it,
and everything else is inherited.
-/

namespace EdgeVms.Vms.ClusterController

open Process Python Platform VmsController

variable {M : Type}

/-- The worker's last heartbeat, whatever its age. -/
def lastSeen (worker : String) : Program M (Option Heartbeat) := do
  return (← Controller.workersSeen vms (10 ^ 12)).get? worker

/-- The labels that the worker's server reports. -/
def labelsOf (worker : String) : Program M (List String) := do
  match ← lastSeen worker with
  | some beat =>
    let labels ← Program.value (beat.extra.getD "labels" (.str (.plain ""))).splitCommas
    return labels.filter (· ≠ "")
  | none => return []

def serverOf (worker : String) : Program M String := do
  match ← lastSeen worker with
  | some beat => return (beat.extra.getD "server" (.str (.plain "?"))).text.string
  | none => return "?"

/-- `cam.get("labels") or []` -/
def need (cam : Dict Value) : Except Error (List Value) :=
  let labels := cam.getD "labels" .none
  if labels.truthy then labels.toList else .ok []

/-- `need <= labels` -/
def within (need : List Value) (labels : List String) : Bool := need.all fun label => labels.any label.equals

def eligibleRounds (need : List Value) : List String → List String → Program M (List String)
  | [], pool => return pool
  | worker :: rest, pool => do
    if within need (← labelsOf worker) then eligibleRounds need rest (pool ++ [worker])
    else eligibleRounds need rest pool

/-- The workers that reach the camera. -/
def eligible (cam : Dict Value) (workers : List String) : Program M (List String) := do
  eligibleRounds (← Program.value (need cam)) workers []

/-- The labels, for the reason. -/
def reaching (cam : Dict Value) : Except Error String := do
  let labels := cam.getD "labels" .none
  if labels.truthy then
    let names ← (← labels.toList).mapM fun label => match label with
      | .str text => .ok text.string
      | _ => .error .typeError
    return " reaching " ++ join ',' (sorted names)
  else return ""

def place (capacity : Int) (cid : Int) (workers : Option (List String)) : Program M (Option Placement) := do
  match ← placement cid with
  | some have_ => return some have_
  | none =>
    match ← camera cid with
    | none => return none
    | some cam =>
      let pool ← eligible cam (sorted (← candidates workers))
      -- nothing that can reach it
      if pool.isEmpty then return none
      else
        match ← bestRounds capacity pool none 0 with
        | (none, _) => return none
        | (some best, most) =>
          let labels ← Program.value (reaching cam)
          let reason := "most free capacity (" ++ toString most ++ ") among " ++ toString pool.length ++ " worker(s)" ++
            labels ++ "; on " ++ (← serverOf best)
          let now ← Program.wall
          let written ← Controller.write (placementKey cid) fun it => do
            if hasWorker it then return none
            return some (placementItems (.plain best) (.plain reason) now (← Program.value (nextRev it)))
          let pl ← Program.value (placementOf cid written)
          let _ ← Controller.assignAdd vms pl.worker.string (toString cid)
          return some pl

def ensureRounds (capacity : Int) (workers : Option (List String)) :
    List (Int × Dict Value) → List Placement → Program M (List Placement)
  | [], out => return out
  | (cid, _) :: rest, out => do
    match ← place capacity cid workers with
    | some pl => ensureRounds capacity workers rest (out ++ [pl])
    | none => ensureRounds capacity workers rest out

/-- The inherited `ensure_placed`, with this controller's `place`. -/
def ensurePlaced (capacity : Int) (workers : Option (List String)) : Program M (List Placement) := do
  ensureRounds capacity workers (← cameras) []

end EdgeVms.Vms.ClusterController
