import EdgeVms.Cluster.Placer
import EdgeVms.Node.GoReconciler
import EdgeVms.Process.Run

/-! # The host of a Node

A process takes an epoch, holds a lease on it and records while the lease lets it.
The goroutines of one process share its fields; its mutex keeps a pass of the
reconciler and a fence apart.
-/

namespace EdgeVms.Cluster.NodeHost

open Process Python
open Node (GoReconciler GoCamera)

/-! ## The epoch -/

def epochPath (node : String) : String := "nodes/" ++ node ++ "/epoch"

/-- What 64 bits keep of a number. -/
def int64 (n : Int) : Int := n.bmod (2 ^ 64)

/-- `ParseInt(text, 10, 64)` with its error dropped: beyond the range it is the last number within. -/
def atoi (text : String) : Int := max (-2 ^ 63) (min (2 ^ 63 - 1) (parseInt text))

/-- `CurrentEpoch`, of the row that was read -/
def currentEpoch (items : Option Items) : Int := atoi ((items.getD []).getD "epoch" "")

/-! ## The lease -/

structure Settings where
  leaseTTL : ℚ
  leaseMargin : ℚ
  maxBackoff : ℚ
  stallFailures : Nat

structure Lease where
  epoch : Int
  ttl : ℚ
  margin : ℚ
  lastRenewal : ℚ
  fenced : Bool
  conflicts : Nat

namespace Lease

def new (epoch : Int) (settings : Settings) (clock : ℚ) : Lease :=
  ⟨epoch, settings.leaseTTL, settings.leaseMargin, clock, false, 0⟩

def mayWrite (lease : Lease) (clock : ℚ) : Bool :=
  !lease.fenced && clock - lease.lastRenewal < lease.ttl - lease.margin

/-- `Renew` of a lease that is not fenced, once the epoch has been read; the clock is read after that. -/
def renew (lease : Lease) (live : Option Int) (clock : ℚ) : Bool × Lease :=
  match live with
  -- the cluster is unreachable; keep going until TTL − margin
  | none => (lease.mayWrite clock, lease)
  | some live =>
    if live ≠ lease.epoch then (false, { lease with fenced := true, conflicts := lease.conflicts + 1 })
    else (true, { lease with lastRenewal := clock })

end Lease

/-! ## The actuator -/

structure FakeActuator where
  running : List Int
  calls : List (String × Int)

def FakeActuator.actuate (act : FakeActuator) (fails : Bool) (verb : String) (id : Int) : Bool × FakeActuator :=
  let others := act.running.filter (· ≠ id)
  let calls := act.calls ++ [(verb, id)]
  if verb = "stop" then (true, ⟨others, calls⟩)
  else if fails then (false, ⟨others, calls⟩)
  else (true, ⟨others ++ [id], calls⟩)

def FakeActuator.stopAll (act : FakeActuator) : FakeActuator := { act with running := [] }

/-! ## The host -/

/-- A pass of the reconciler, which holds the mutex: what is left of its two loops. -/
structure Working where
  now : ℚ
  desired : Table GoCamera
  starts : List Int
  /-- The stop loop, once it has begun. -/
  stops : Option (List Int)

/-- Where `leaseOnce` is. -/
inductive Tick where
  | idle
  /-- The epoch was read, then; the clock has not been read yet. -/
  | answered (live : Option Int) (since : ℚ)
  /-- The lease does not hold; `Fence` waits for the mutex. -/
  | failed (why : String)
deriving DecidableEq

structure Host where
  lease : Lease
  recordingAllowed : Bool
  reconciler : GoReconciler
  actuator : FakeActuator
  pass : Option Working
  passes : Nat
  tick : Tick

namespace Host

def new (settings : Settings) (epoch : Int) (clock : ℚ) : Host where
  lease := .new epoch settings clock
  recordingAllowed := true
  reconciler := { GoReconciler.new with maxBackoff := settings.maxBackoff, stallFailures := settings.stallFailures }
  actuator := ⟨[], []⟩
  pass := none
  passes := 0
  tick := .idle

/-- A fenced instance starts nothing, nor does one whose lease ran out. -/
def gate (host : Host) (clock : ℚ) (verb : String) : Bool :=
  !(verb = "start" || verb = "restart") || (host.recordingAllowed && host.lease.mayWrite clock)

def actuate (host : Host) (clock : ℚ) (fails : Bool) (verb : String) (id : Int) : Bool × Host :=
  if host.gate clock verb then
    let (done, act) := host.actuator.actuate fails verb id
    (done, { host with actuator := act })
  else (false, host)

/-- The calls that a round of the reconciler makes, and what it remembers after it. -/
def round (host : Host) (clock : ℚ) (fails : Bool) (pass : Vms.Reconciler.Pass GoReconciler) : Host :=
  { pass.calls.foldl (fun host call => (host.actuate clock fails call.1 call.2).2) host with reconciler := pass.loop }

/-- `ReconcileOnce` has fetched the rows and locks the mutex; `now` counts from the start of the process. -/
def begin_ (host : Host) (rows : List GoCamera) (now : ℚ) : Host :=
  { host with pass := some ⟨now, GoReconciler.desired rows, GoReconciler.order rows, none⟩ }

/-- The next round of the pass. -/
def work (host : Host) (clock : ℚ) (fails : Bool) (random : ℚ) : Host :=
  match host.pass with
  | none => host
  | some w =>
    match w.stops, w.starts with
    | none, id :: rest =>
      let answer := fun verb id => (host.actuate clock fails verb id).1
      { host.round clock fails
          (GoReconciler.startRounds answer (fun _ => random) w.now w.desired [id] host.reconciler) with
        pass := some { w with starts := rest } }
    | none, [] => { host with pass := some { w with stops := some (host.reconciler.stops w.desired) } }
    | some (id :: rest), _ =>
      { host.round clock fails (GoReconciler.stopRounds [id] host.reconciler) with
        pass := some { w with stops := some rest } }
    | some [], _ => { host with pass := none, passes := host.passes + 1 }

/-- `Fence`: this instance's epoch is stale. -/
def fence (host : Host) : Host :=
  if host.recordingAllowed then
    { host with
      recordingAllowed := false
      actuator := host.actuator.stopAll
      reconciler := host.reconciler.clear }
  else host

/-- What `leaseOnce` does with the answer. -/
def renew (host : Host) (live : Option Int) (clock : ℚ) : Host :=
  let (holds, lease) := host.lease.renew live clock
  { host with
    lease
    tick :=
      if holds then .idle
      else .failed (if lease.fenced then "a newer epoch was issued" else "lease expired without renewal") }

end Host

/-! ## The processes of one Node -/

inductive Phase where
  | off
  /-- In `NextEpoch`, with so many rounds left. -/
  | reading (left : Nat)
  | writing (left : Nat) (current : Int) (index : Nat)
  /-- `NextEpoch` has returned; `NewLease` has not read the clock yet. -/
  | issued (epoch : Int) (since : ℚ)
  | running (host : Host)
  | exited

structure Instance where
  settings : Settings
  /-- Its clock counts from here. -/
  booted : ℚ
  phase : Phase

/-- An epoch that was written to the store. -/
structure Issue where
  who : Nat
  epoch : Int
  time : ℚ

/-- A pipeline that was started. -/
structure Start where
  who : Nat
  epoch : Int
  camera : Int
  time : ℚ

structure Processes where
  now : ℚ
  vars : Versioned String fun _ => Items
  /-- Does the store answer the process? -/
  answers : Nat → Bool
  instances : Nat → Instance
  issues : List Issue
  starts : List Start

inductive Event where
  | wait (seconds : ℚ)
  | links (answers : Nat → Bool)
  /-- Another row of the store is written. -/
  | put (path : String) (items : Items)
  | boot (who : Nat) (settings : Settings)
  | exit (who : Nat)
  /-- `NextEpoch` reads the row, or writes it. -/
  | read (who : Nat)
  | write (who : Nat) (outcome : Outcome)
  | newLease (who : Nat)
  /-- `leaseOnce` reads the epoch; it reads the clock; it gets the mutex for `Fence`. -/
  | lease (who : Nat)
  | renew (who : Nat)
  | fence (who : Nat)
  | reconcile (who : Nat) (rows : List GoCamera)
  | work (who : Nat) (fails : Bool) (random : ℚ)

namespace Processes

def start (now : ℚ) (index : Nat) : Processes :=
  ⟨now, .empty index, fun _ => true, fun _ => ⟨⟨30, 5, 60, 3⟩, now, .off⟩, [], []⟩

def setPhase (state : Processes) (who : Nat) (phase : Phase) : Processes :=
  { state with instances := Function.update state.instances who { state.instances who with phase } }

def host? (state : Processes) (who : Nat) : Option Host :=
  match (state.instances who).phase with
  | .running host => some host
  | _ => none

/-- `Clock()` -/
def clock (state : Processes) (who : Nat) : ℚ := state.now - (state.instances who).booted

variable (node : String)

def row (state : Processes) : Option Items := state.vars.read (epochPath node)

/-- The `Put` of `NextEpoch`. -/
def write (state : Processes) (who left : Nat) (current : Int) (index : Nat) (outcome : Outcome) : Processes :=
  let conflict := index ≠ state.vars.version (epochPath node)
  let epoch := int64 (current + 1)
  let written : Processes :=
    { state with
      vars := state.vars.write (epochPath node) [("epoch", toString epoch)]
      issues := state.issues ++ [⟨who, epoch, state.now⟩] }
  match outcome with
  | .failed => state.setPhase who .exited
  | .lost => if conflict then state.setPhase who .exited else written.setPhase who .exited
  | .done => if conflict then state.setPhase who (.reading left) else written.setPhase who (.issued epoch state.now)

/-- The pipelines that a round has started. -/
def started (state : Processes) (who : Nat) (before after : Host) : List Start :=
  (after.actuator.calls.drop before.actuator.calls.length).filterMap fun call =>
    if (call.1 = "start" ∨ call.1 = "restart") ∧ call.2 ∈ after.actuator.running then
      some ⟨who, before.lease.epoch, call.2, state.now⟩
    else none

def step (state : Processes) : Event → Processes
  | .wait seconds => { state with now := state.now + max 0 seconds }
  | .links answers => { state with answers }
  | .put path items => if path = epochPath node then state else { state with vars := state.vars.write path items }
  | .boot who settings =>
    match (state.instances who).phase with
    | .off => { state with instances := Function.update state.instances who ⟨settings, state.now, .reading 10⟩ }
    | _ => state
  | .exit who => state.setPhase who .exited
  | .read who =>
    match (state.instances who).phase with
    | .reading (left + 1) =>
      if state.answers who then
        state.setPhase who (.writing left (currentEpoch (state.row node)) (state.vars.version (epochPath node)))
      else state.setPhase who .exited
    | .reading 0 => state.setPhase who .exited
    | _ => state
  | .write who outcome =>
    match (state.instances who).phase with
    | .writing left current index => state.write node who left current index outcome
    | _ => state
  | .newLease who =>
    match (state.instances who).phase with
    | .issued epoch _ =>
      state.setPhase who (.running (.new (state.instances who).settings epoch (state.clock who)))
    | _ => state
  | .lease who =>
    match (state.instances who).phase with
    | .running host =>
      match host.tick with
      | .idle =>
        state.setPhase who (.running { host with
          tick :=
            if host.lease.fenced then .failed "a newer epoch was issued"
            else .answered (if state.answers who then some (currentEpoch (state.row node)) else none) state.now })
      | _ => state
    | _ => state
  | .renew who =>
    match (state.instances who).phase with
    | .running host =>
      match host.tick with
      | .answered live _ => state.setPhase who (.running (host.renew live (state.clock who)))
      | _ => state
    | _ => state
  | .fence who =>
    match (state.instances who).phase with
    | .running host =>
      match host.tick, host.pass with
      | .failed _, none => state.setPhase who (.running { host.fence with tick := .idle })
      | _, _ => state
    | _ => state
  | .reconcile who rows =>
    match (state.instances who).phase with
    | .running host =>
      match host.pass with
      | none => state.setPhase who (.running (host.begin_ rows (state.clock who)))
      | some _ => state
    | _ => state
  | .work who fails random =>
    match (state.instances who).phase with
    | .running host =>
      let after := host.work (state.clock who) fails random
      { state.setPhase who (.running after) with starts := state.starts ++ state.started who host after }
    | _ => state

end Processes

end EdgeVms.Cluster.NodeHost
