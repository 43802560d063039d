import EdgeVms.Vms.Reconciler
import Mathlib.Data.List.Sort

/-! # The reconcile loop in Go

The same loop over maps, whose keys it sorts before it goes through them.
-/

namespace EdgeVms.Node

open Python Vms

structure GoCamera where
  id : Int
  enabled : Bool
  revision : Int

/-- The columns of a row that Go scans. -/
def GoCamera.ofRow (row : Camera) : GoCamera := ⟨row.id, row.enabled, row.revision⟩

structure GoReconciler where
  actual : Table Int
  failures : Table Failure
  maxBackoff : ℚ
  stallFailures : Nat

namespace GoReconciler

open Reconciler (Pass Position Event)

def new : GoReconciler := ⟨[], [], 60, 3⟩

/-- The cameras by their ids. -/
def desired (rows : List GoCamera) : Table GoCamera :=
  rows.foldl (fun desired cam => if cam.enabled then desired.set cam.id cam else desired) []

def order (rows : List GoCamera) : List Int :=
  ((rows.filter GoCamera.enabled).map GoCamera.id).insertionSort (· ≤ ·)

def fail (r : GoReconciler) (id : Int) (now random : ℚ) : GoReconciler :=
  let n := ((r.failures.get? id).map Failure.n).getD 0 + 1
  let base := min (2 ^ n) r.maxBackoff
  let delay := base * (1 / 2 + random * (1 / 2))
  { r with failures := r.failures.set id ⟨n, now + delay, delay⟩ }

def startRounds (actuator : String → Int → Bool) (random : Int → ℚ) (now : ℚ) (desired : Table GoCamera) :
    List Int → GoReconciler → Pass GoReconciler
  | [], r => ⟨[], [], r⟩
  | id :: rest, r =>
    let cam := (desired.get? id).getD ⟨0, false, 0⟩
    let have_ := r.actual.get? id
    if have_.any fun revision => revision ≥ cam.revision then startRounds actuator random now desired rest r
    else if (r.failures.get? id).any fun f => now < f.retryAt then startRounds actuator random now desired rest r
    else
      let verb := if have_.isSome then "restart" else "start"
      if actuator verb id then
        (startRounds actuator random now desired rest
          { r with actual := r.actual.set id cam.revision, failures := r.failures.pop id }).following
            (verb, id) (verb, id)
      else
        (startRounds actuator random now desired rest (r.fail id now (random id))).following ("failed", id) (verb, id)

def stopRounds : List Int → GoReconciler → Pass GoReconciler
  | [], r => ⟨[], [], r⟩
  | id :: rest, r =>
    (stopRounds rest { r with actual := r.actual.pop id }).following ("stop", id) ("stop", id)

/-- What runs and is not wanted, sorted. -/
def stops (r : GoReconciler) (desired : Table GoCamera) : List Int :=
  (r.actual.keys.filter fun id => !desired.has id).insertionSort (· ≤ ·)

def reconcile (r : GoReconciler) (rows : List GoCamera) (now : ℚ) (actuator : String → Int → Bool)
    (random : Int → ℚ) : Pass GoReconciler :=
  let started := startRounds actuator random now (desired rows) (order rows) r
  let stopped := stopRounds (started.loop.stops (desired rows)) started.loop
  ⟨started.actions ++ stopped.actions, started.calls ++ stopped.calls, stopped.loop⟩

def lost (r : GoReconciler) (id : Int) (now random : ℚ) : GoReconciler :=
  { r with actual := r.actual.pop id }.fail id now random

def clear (r : GoReconciler) : GoReconciler := { r with actual := [] }

def status (r : GoReconciler) (rows : List GoCamera) : Table (Position × Int) :=
  rows.foldl (fun out cam =>
    if !cam.enabled then out
    else
      let lag := cam.revision - (r.actual.get? cam.id).getD 0
      let lag := if lag < 0 then 0 else lag
      out.set cam.id
        (if lag = 0 then (.converged, 0)
        else if ((r.failures.get? cam.id).map Failure.n).getD 0 ≥ r.stallFailures then (.stalled, lag)
        else (.lagging, lag))) []

def step (r : GoReconciler) : Event → GoReconciler
  | .reconcile rows now actuator random => (r.reconcile (rows.map GoCamera.ofRow) now actuator random).loop
  | .lost id now random => r.lost id now random
  | .clear => r.clear

end GoReconciler

end EdgeVms.Node
