import EdgeVms.Vms.Worker

/-! # Instances of the workers

Processes that hold the slots of workers, over one config store and one object
store.  A call of a process makes its requests one at a time, so that the calls
of two processes interleave in any way; the calls of one follow one another.
-/

namespace EdgeVms.Vms

open Process Python Platform

/-- The calls that `run` makes, in its loop and at its end. -/
inductive InstanceCall where
  | reconcile
  | pump
  | lease
  | heartbeat
  | stopAll
  | release

/-- What a call returns: the heartbeat that is to be put, if it is one. -/
abbrev Report := Option (String × Heartbeat)

/-- A server, and the cameras that a process can carry there. -/
structure Host where
  server : String
  capacity : Int
  archiveRoot : String

namespace InstanceCall

def program (host : Host) : InstanceCall → Program VmsWorker Report
  | reconcile => do
    let _ ← VmsWorker.reconcileOnce
    return none
  | pump => do
    VmsWorker.pumpOnce
    return none
  | lease => do
    let _ ← VmsWorker.leasePass
    return none
  | heartbeat => do return some (← VmsWorker.heartbeatOnce host.server host.capacity)
  | stopAll => do
    VmsWorker.stopAll
    return none
  | release => do
    VmsWorker.releaseSlot
    return none

end InstanceCall

/-- The constructor of a worker, up to the moment when it is somebody. -/
def construct (instance_ : String) (host : Host) (prefer : Option String) : Program VmsWorker Report := do
  let me ← Worker.claimSlot vms (.new instance_) prefer
  let startedAt ← Program.clock
  Program.remember fun _ => .new me host.archiveRoot startedAt
  return none

/-- `ι` names the processes. -/
structure Instances (ι : Type) where
  vars : Rows
  memory : ι → VmsWorker
  flight : ι → Option (Program VmsWorker Report)
  /-- The heartbeat objects, by worker, each with the process that put it; no program sees the process. -/
  beats : String → Option (Heartbeat × ι)

namespace Instances

inductive Event (ι : Type) where
  /-- A process starts, for the slot that it is told, or for whichever is free. -/
  | construct (i : ι) (prefer : Option String)
  | call (i : ι) (call : InstanceCall)
  /-- The next request of a process is served, or its heartbeat put. -/
  | serve (i : ι) (now : Outside)
  /-- Somebody else writes a row that is no slot: slots are not handed out. -/
  | write (key : Key) (items : Dict Value) (cas : Option Nat)

/-- The process that an event is a step of. -/
def Event.process? {ι : Type} : Event ι → Option ι
  | .construct i _ | .call i _ | .serve i _ => some i
  | .write _ _ _ => none

variable {ι : Type} [DecidableEq ι]

/-- What the processes share, and what each is told. -/
structure Site (ι : Type) where
  store : Variables
  view : ι → View
  instance_ : ι → String
  host : ι → Host

def start (site : Site ι) (vars : Rows) : Instances ι :=
  ⟨vars, fun i => .new (.new (site.instance_ i)) (site.host i).archiveRoot 0, fun _ => none, fun _ => none⟩

/-- What a process sees at this moment. -/
def world (state : Instances ι) (now : Outside) : World ι VmsWorker := ⟨state.vars, state.memory, fun _ => now, 0⟩

def serve (site : Site ι) (state : Instances ι) (i : ι) (now : Outside) : Instances ι :=
  match state.flight i with
  | none => state
  | some (.raise _) | some (.ret none) => { state with flight := Function.update state.flight i none }
  | some (.ret (some (name, beat))) =>
    { state with
      flight := Function.update state.flight i none
      beats := Function.update state.beats name (some (beat, i)) }
  | some (.call _ request next) =>
    let (answer, world) := handler site.store (site.view i) i request (state.world now)
    { state with
      vars := world.vars
      memory := world.memory
      flight := Function.update state.flight i (some (next answer)) }

def step (site : Site ι) (state : Instances ι) : Event ι → Instances ι
  | .construct i prefer =>
    if state.flight i = none ∧ (state.memory i).name = none then
      { state with flight := Function.update state.flight i (some (construct (site.instance_ i) (site.host i) prefer)) }
    else state
  | .call i call =>
    if state.flight i = none ∧ (state.memory i).name ≠ none then
      { state with flight := Function.update state.flight i (some (call.program (site.host i))) }
    else state
  | .serve i now => state.serve site i now
  | .write key items cas =>
    if vms.slots <+: key then state
    else { state with vars := (site.store.put {} state.vars key items cas).2 }

/-- What a controller sees; the store lists the names in an order of its own. -/
def controllers (state : Instances ι) (now : Outside) : World Unit Unit where
  vars := state.vars
  memory _ := ()
  outside _ :=
    { now with
      heartbeats := fun subsystem => (now.heartbeats subsystem).filter fun name => (state.beats name).isSome
      heartbeat := fun _ name => .ok ((state.beats name).map Prod.fst) }
  served := 0

/-- What a controller reads. -/
def read {α : Type} (site : Site ι) (state : Instances ι) (now : Outside) (p : Program Unit α) : Except Exn α :=
  (p.run (handler site.store {} ()) (state.controllers now)).1

end Instances

end EdgeVms.Vms
