import EdgeVms.Platform.Contract
import EdgeVms.Vms.Config

/-! # The VMS controller

Cameras, placement and assignment.  The controller holds nothing but the
capacity it assumes of a worker that reports none.
-/

namespace EdgeVms.Vms

open Process Python Platform

def vms : Subsystem := ⟨"vms"⟩

structure Placement where
  camera : Int
  worker : Text
  reason : Text
  at_ : Floating
  rev : Int

namespace VmsController

variable {M : Type}

def camerasKey : Key := vms.config ["cameras"]
def cameraKey (unit : String) : Key := vms.config ["cameras", unit]
def placementKey (cid : Int) : Key := vms.config ["placement", toString cid]
def retentionKey (cid : Int) : Key := vms.config ["retention", toString cid]

/-- What the worker said it can carry, from its last heartbeat. -/
def capacityOf (capacity : Int) (worker : String) : Program M Int := do
  let seen ← Controller.workersSeen vms (10 ^ 12)
  match (seen.get? worker).bind fun beat => beat.extra.get? "capacity" with
  | some reported => Program.value reported.toInt
  | none => return capacity

/-! ## Cameras -/

def names (keys : List String) : String := (Value.list (keys.map fun key => .str (.plain key))).repr

def refuse (fields : Dict Value) : Except Exn Unit :=
  let bad := (fields.map Prod.fst).filter (· ∈ forbiddenFields)
  let unknown := (fields.map Prod.fst).filter (· ∉ operatorFields)
  if !bad.isEmpty then
    .error (.refused ("a client may not set " ++ names bad ++
      ": placement is decided and stored by the controller with a " ++
      "reason; revision, epoch and phase are not the operator's"))
  else if !unknown.isEmpty then .error (.refused ("unknown field(s) " ++ names unknown))
  else .ok ()

def nextId : Program M Int := do
  let new ← Controller.write (vms.config ["next_id"]) fun it => do
    let n ← Program.value (it.getD "n" (.int 0)).toInt
    return some [("n", .int (n + 1))]
  Program.value (do (← Dict.item new "n").toInt)

/-- The policy for a camera's events: how long the platform keeps its buckets. -/
def retention (cid : Int) (days : Option Int) : Program M Unit := do
  let _ ← Controller.write (retentionKey cid) fun it =>
    match days with
    | none => return if it.isEmpty then none else some [("days", .int 0)]
    | some days =>
      return if (it.getD "days" .none).equals (toString days) then none else some [("days", .int days)]

/-- The row `create_camera` writes. -/
def newRow (cid : Int) (source : Value) (fields : Dict Value) : Except Error (Dict Value) := do
  let retention ← (fields.getD "retention_days" (.int 30)).toInt
  let eventsRetention ← (fields.getD "events_retention_days" (.int 365)).toInt
  let priority ← (fields.getD "priority" (.int 100)).toInt
  let labels ← (fields.getD "labels" (.list [])).toList
  return [("id", .int cid), ("name", fields.getD "name" (.str (.plain ("cam" ++ toString cid)))),
    ("source", source), ("enabled", .bool (fields.getD "enabled" (.bool true)).truthy),
    ("retention_days", .int retention), ("events_retention_days", .int eventsRetention),
    ("priority", .int priority), ("revision", .int 1), ("labels", .list labels)]

/-- `r["events_retention_days"]`, an int in every row. -/
def eventsRetention (r : Dict Value) : Except Error Int := do
  (← Dict.item r "events_retention_days").toInt

def createCamera (fields : Dict Value) : Program M (Dict Value) := do
  Proc.ofExcept (refuse fields)
  let source := fields.getD "source" .none
  if !source.truthy then
    throw (.refused "a camera needs a source (driverpack://file/<name> or driverpack://<vendor>/<host>)")
  else
    let cid ← nextId
    let r ← Program.value (newRow cid source fields)
    let _ ← Program.put (cameraKey (toString cid)) (← Program.value (items r)) (some 0)
    retention cid (some (← Program.value (eventsRetention r)))
    return r

/-- What `update_camera` makes of the stored items. -/
def updated (cid : Int) (fields : Dict Value) (it : Dict Value) : Except Error (Dict Value) := do
  if it.isEmpty || (it.getD "deleted" .none).equals "true" then throw (.keyError (toString cid))
  let r ← row it
  let r := fields.foldl (fun r field => r.set field.1 field.2) r
  let revision ← (← Dict.item r "revision").toInt
  items (r.set "revision" (.int (revision + 1)))

def updateCamera (cid : Int) (fields : Dict Value) : Program M (Dict Value) := do
  Proc.ofExcept (refuse fields)
  let written ← Controller.write (cameraKey (toString cid)) fun it =>
    some <$> Program.value (updated cid fields it)
  let r ← Program.value (row written)
  if (fields.get? "events_retention_days").isSome then
    retention cid (some (← Program.value (eventsRetention r)))
  return r

def isDeleted (it : Dict Value) : Bool := (it.getD "deleted" .none).equals "true"

def camera (cid : Int) : Program M (Option (Dict Value)) := do
  let (items, _) ← Program.get (cameraKey (toString cid))
  if (rowValues items).isEmpty || isDeleted (rowValues items) then return none
  some <$> Program.value (row (rowValues items))

def camerasRounds : List Key → List (Int × Dict Value) → Program M (List (Int × Dict Value))
  | [], out => return out
  | path :: rest, out => do
    let (items, _) ← Program.get path
    if (rowValues items).isEmpty || isDeleted (rowValues items) then camerasRounds rest out
    else
      let r ← Program.value (row (rowValues items))
      let id ← Program.value (do (← Dict.item r "id").toInt)
      camerasRounds rest (out ++ [(id, r)])

/-- The rows that are not deleted, each with its id, by id. -/
def cameras : Program M (List (Int × Dict Value)) := do
  let rows ← camerasRounds (← Program.list camerasKey) []
  return rows.insertionSort fun left right => left.1 ≤ right.1

/-! ## Placement -/

/-- A placement row with a worker. -/
def placementOf (cid : Int) (it : Dict Value) : Except Error Placement := do
  let worker ← Dict.item it "worker"
  let reason ← Dict.item it "reason"
  let at_ ← (← Dict.item it "at").toFloat
  let rev ← (← Dict.item it "rev").toInt
  return ⟨cid, worker.text, reason.text, at_, rev⟩

def hasWorker (it : Dict Value) : Bool := (it.getD "worker" .none).truthy

def placement (cid : Int) : Program M (Option Placement) := do
  let (items, _) ← Program.get (placementKey cid)
  if hasWorker (rowValues items) then some <$> Program.value (placementOf cid (rowValues items))
  else return none

/-- `int(it.get("rev", 0)) + 1 if it else 1` -/
def nextRev (it : Dict Value) : Except Error Int :=
  if it.isEmpty then .ok 1 else do return (← (it.getD "rev" (.int 0)).toInt) + 1

def placementItems (worker reason : Text) (at_ : ℚ) (rev : Int) : Dict Value :=
  [("worker", .str worker), ("reason", .str reason), ("at", .float (.finite at_)), ("rev", .int rev)]

def load (worker : String) : Program M Int := do
  return (← Controller.assignment vms worker).units.length

/-- `workers if workers is not None else self.workers_seen()` -/
def candidates (workers : Option (List String)) : Program M (List String) :=
  match workers with
  | some workers => return workers
  | none => do return (← Controller.workersSeen vms 45).map Prod.fst

/-- The free capacity `capacity_of(w) - load(w)`. -/
def free (capacity : Int) (worker : String) : Program M Int := do
  let carries ← capacityOf capacity worker
  return carries - (← load worker)

def bestRounds (capacity : Int) : List String → Option String → Int → Program M (Option String × Int)
  | [], best, most => return (best, most)
  | worker :: rest, best, most => do
    let f ← free capacity worker
    if f > most then bestRounds capacity rest (some worker) f else bestRounds capacity rest best most

/-- Place one camera on the worker with the most free capacity. -/
def place (capacity : Int) (cid : Int) (workers : Option (List String)) : Program M (Option Placement) := do
  match ← placement cid with
  | some have_ => return some have_
  | none =>
    let workers := sorted (← candidates workers)
    match ← bestRounds capacity workers none 0 with
    | (none, _) => return none
    | (some best, most) =>
      let reason := "most free capacity (" ++ toString most ++ ") among " ++ toString workers.length ++ " worker(s)"
      let now ← Program.wall
      -- the row first (CAS decides who won), then the assignment
      let written ← Controller.write (placementKey cid) fun it => do
        if hasWorker it then return none
        return some (placementItems (.plain best) (.plain reason) now (← Program.value (nextRev it)))
      let pl ← Program.value (placementOf cid written)
      let _ ← (Controller.assignAdd vms pl.worker.string (toString cid)).within
        (.settled (toString cid) (some pl.worker.string))
      return some pl

def ensureRounds (capacity : Int) (workers : Option (List String)) :
    List (Int × Dict Value) → List Placement → Program M (List Placement)
  | [], out => return out
  | (cid, _) :: rest, out => do
    match ← place capacity cid workers with
    | some pl => ensureRounds capacity workers rest (out ++ [pl])
    | none => ensureRounds capacity workers rest out

def ensurePlaced (capacity : Int) (workers : Option (List String)) : Program M (List Placement) := do
  ensureRounds capacity workers (← cameras) []

/-- Take a camera off every list but the destination's. -/
def unlistRounds (unit to_ : String) : Dict Assignment → Program M Unit
  | [] => return ()
  | (worker, a) :: rest => do
    if unit ∈ a.units ∧ worker ≠ to_ then
      let _ ← Controller.assignRemove vms worker unit
      unlistRounds unit to_ rest
    else unlistRounds unit to_ rest

/-- The one two-writer operation. -/
def move (cid : Int) (to_ : String) (reason : String) : Program M Placement :=
  Proc.settling (.settled (toString cid) (some to_)) do
    unlistRounds (toString cid) to_ (← Controller.assignments vms)
    let new ← Controller.write (placementKey cid) fun it => do
      let now ← Program.wall
      return some (placementItems (.plain to_) (.plain reason) now (← Program.value (nextRev it)))
    let _ ← Controller.assignAdd vms to_ (toString cid)
    Program.value do
      let at_ ← (← Dict.item new "at").toFloat
      let rev ← (← Dict.item new "rev").toInt
      return ⟨cid, .plain to_, .plain reason, at_, rev⟩

def deleteCamera (cid : Int) : Program M Unit := do
  let _ ← Controller.write (cameraKey (toString cid)) fun it =>
    return if it.isEmpty then none else some (it.set "deleted" (.str (.plain "true")))
  retention cid none
  match ← placement cid with
  | none => return ()
  | some pl =>
    Proc.within (.settled (toString cid) none) do
      let _ ← Controller.assignRemove vms pl.worker.string (toString cid)
      let _ ← Controller.write (placementKey cid) fun it => do
        let now ← Program.wall
        let rev ← Program.value (it.getD "rev" (.int 0)).toInt
        return some (placementItems (.plain "") (.plain "deleted") now (rev + 1))
      return ()

/-- `max(workers, key=...)`: the first of the greatest. -/
def mostFreeRounds (capacity : Int) : List String → Option (String × Int) → Program M (Option String)
  | [], best => return best.map Prod.fst
  | worker :: rest, best => do
    let f ← free capacity worker
    match best with
    | some (_, most) => mostFreeRounds capacity rest (if f > most then some (worker, f) else best)
    | none => mostFreeRounds capacity rest (some (worker, f))

abbrev Moved := Int × String × String

def redistributeUnits (capacity : Int) (gone : String) (live : List String) :
    List String → List Moved → Program M (List Moved)
  | [], moves => return moves
  | unit :: rest, moves => do
    let cid ← Program.value (Text.plain unit).toInt
    match ← mostFreeRounds capacity live none with
    | none => return moves
    | some best =>
      let carried ← load best
      if carried ≥ (← capacityOf capacity best) then return moves
      let left ← free capacity best
      let _ ← move cid best ("slot " ++ gone ++ " released; most free capacity (" ++ toString left ++ ")")
      redistributeUnits capacity gone live rest (moves ++ [(cid, gone, best)])

def redistributeRounds (capacity : Int) (workers : Option (List String)) :
    List String → List Moved → Program M (List Moved)
  | [], moves => return moves
  | gone :: rest, moves => do
    let live := sorted ((← candidates workers).filter (· ≠ gone))
    let a ← Controller.assignment vms gone
    let units ← Program.value (sortedBy (fun unit => (Text.plain unit).toInt) a.units)
    redistributeRounds capacity workers rest (← redistributeUnits capacity gone live units moves)

/-- Move the cameras of released slots to the workers that are here. -/
def redistribute (capacity : Int) (workers : Option (List String)) : Program M (List Moved) := do
  redistributeRounds capacity workers (← Controller.releasedSlots vms) []

/-! ## Rebalancing

`double` is what a double makes of a rational. -/

/-- `{w: self.load(w) / self.capacity_of(w) for w in workers}` -/
def loadsRounds (double : ℚ → ℚ) (capacity : Int) : List String → Dict ℚ → Program M (Dict ℚ)
  | [], loads => return loads
  | worker :: rest, loads => do
    let carried ← load worker
    let carries ← capacityOf capacity worker
    if carries = 0 then throw (.python .zeroDivisionError)
    else loadsRounds double capacity rest (loads.set worker (double (carried / carries)))

/-- The first worker of the most extreme load. -/
def extreme (beyond : ℚ → ℚ → Bool) (loads : Dict ℚ) : String → List String → String
  | best, [] => best
  | best, worker :: rest =>
    extreme beyond loads (if beyond (loads.getD worker 0) (loads.getD best 0) then worker else best) rest

def rebalanceRounds (double : ℚ → ℚ) (capacity : Int) (deadBand : ℚ) (workers : List String) :
    Nat → List Moved → Program M (List Moved)
  | 0, moves => return moves
  | left + 1, moves =>
    match workers with
    | [] | [_] => return moves
    | first :: rest => do
      let loads ← loadsRounds double capacity workers []
      let hi := extreme (fun load most => load > most) loads first rest
      let lo := extreme (fun load least => load < least) loads first rest
      let spread := double (loads.getD hi 0 - loads.getD lo 0)
      if spread < deadBand then return moves
      else
        let a ← Controller.assignment vms hi
        let cands ← Program.value (a.units.mapM fun unit => (Text.plain unit).toInt)
        match cands.insertionSort (· ≤ ·) with
        | [] => return moves
        | cid :: _ =>
          let carried ← load lo
          let carries ← capacityOf capacity lo
          if carried + 1 > carries then return moves
          else
            let _ ← move cid lo ("rebalance from " ++ hi ++ " (spread " ++ fixed (double (spread * 100)) ++ "%)")
            rebalanceRounds double capacity deadBand workers left (moves ++ [(cid, hi, lo)])

/-- Even out the loads, when asked, by so many moves at most. -/
def rebalance (double : ℚ → ℚ) (capacity budget : Int) (deadBand : ℚ) (workers : Option (List String)) :
    Program M (List Moved) := do
  let workers := sorted (← candidates workers)
  rebalanceRounds double capacity deadBand workers budget.toNat []

/-! ## The read model, from heartbeats -/

def age (now : ℚ) (beat : Heartbeat) : Floating :=
  match beat.ts with
  | .finite ts => .finite (now - ts)
  | .infinite negative => .infinite !negative
  | .nan => .nan

/-- The cameras as one worker reports them; `round1` is `round(age, 1)`. -/
def reported (round1 : Floating → Floating) (now lostAfter : ℚ) (worker : String) (beat : Heartbeat) :
    List (Dict Value) :=
  let state := if Controller.fresh now lostAfter beat then "live" else "stale"
  beat.status.map fun s =>
    (((Dict.set s "worker" (.str (.plain worker))).set "server" (Dict.getD beat.extra "server" (.str (.plain "?")))).set
      "age" (.float (round1 (age now beat)))).set "worker_state" (.str (.plain state))

/-- The ids of a status are integers. -/
def rowId (row : Dict Value) : Except Error Int := do
  match ← Dict.item row "id" with
  | .int id => return id
  | _ => throw .typeError

def readModel (round1 : Floating → Floating) (lostAfter : ℚ) : Program M (List (Dict Value)) := do
  let now ← Program.wall
  let seen ← Controller.workersSeen vms (10 ^ 12)
  let rows := seen.flatMap fun (worker, beat) => reported round1 now lostAfter worker beat
  Program.value (sortedBy rowId rows)

end VmsController

end EdgeVms.Vms
