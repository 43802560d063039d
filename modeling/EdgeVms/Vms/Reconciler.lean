import EdgeVms.Python.Table

/-! # What the reconcile loop remembers

`actual` is what the loop takes to run, by camera, with the revision it runs at.
-/

namespace EdgeVms.Vms

open Python

/-- A camera row, with the columns that the loop reads. -/
structure Camera where
  id : Int
  enabled : Bool
  revision : Int
  row : Dict Value

structure Failure where
  n : Nat
  retryAt : ℚ
  delay : ℚ

structure Reconciler where
  actual : Table Int
  failures : Table Failure
  maxBackoff : ℚ
  stallFailures : Nat

namespace Reconciler

def new : Reconciler := ⟨[], [], 60, 3⟩

/-- `{c["id"]: c for c in desired if c["enabled"]}` -/
def desired (rows : List Camera) : Table Camera :=
  rows.foldl (fun desired cam => if cam.enabled then desired.set cam.id cam else desired) []

/-- What the pass takes to be desired: the enabled cameras. -/
theorem has_desired (rows : List Camera) (cid : Int) :
    (desired rows).has cid = true ↔ ∃ cam ∈ rows, cam.enabled = true ∧ cam.id = cid := by
  have rounds : ∀ table : Table Camera,
      (rows.foldl (fun desired cam => if cam.enabled then desired.set cam.id cam else desired) table).has cid = true ↔
        table.has cid = true ∨ ∃ cam ∈ rows, cam.enabled = true ∧ cam.id = cid := by
    induction rows with
    | nil => simp
    | cons cam rest ih =>
      intro table
      rw [List.foldl_cons, ih]
      by_cases enabled : cam.enabled = true
      · simp only [enabled, if_true, Table.has_set, Bool.or_eq_true, decide_eq_true_eq, List.mem_cons, exists_eq_or_imp,
          true_and]
        tauto
      · simp [enabled]
  have nothing : Table.has ([] : Table Camera) cid = false := rfl
  rw [desired, rounds, nothing]
  simp

/-- Nothing to do now: the camera runs at its revision, or waits to be tried again. -/
def rests (loop : Reconciler) (cid : Int) (cam : Camera) (now : ℚ) : Bool :=
  ((loop.actual.get? cid).any fun have_ => cam.revision ≤ have_) ||
    (loop.failures.get? cid).any fun failure => now < failure.retryAt

def succeed (loop : Reconciler) (cid revision : Int) : Reconciler :=
  { loop with actual := loop.actual.set cid revision, failures := loop.failures.pop cid }

/-- `_fail`, with what `random()` answered. -/
def fail (loop : Reconciler) (cid : Int) (now random : ℚ) : Reconciler :=
  let n := ((loop.failures.get? cid).map Failure.n).getD 0 + 1
  let delay := min (2 ^ n) loop.maxBackoff * (1 / 2 + random * (1 / 2))
  { loop with failures := loop.failures.set cid ⟨n, now + delay, delay⟩ }

def forget (loop : Reconciler) (cid : Int) : Reconciler := { loop with actual := loop.actual.pop cid }

def lost (loop : Reconciler) (cid : Int) (now random : ℚ) : Reconciler := (loop.forget cid).fail cid now random

inductive Position where
  | converged
  | lagging
  | stalled

def Position.text : Position → String
  | converged => "converged"
  | lagging => "lagging"
  | stalled => "stalled"

/-- How far each enabled camera is behind. -/
def status (loop : Reconciler) (rows : List Camera) : Table Position :=
  rows.foldl (fun out cam =>
    if cam.enabled then
      let have_ := (loop.actual.get? cam.id).getD 0
      let position :=
        if max (cam.revision - have_) 0 = 0 then .converged
        else if ((loop.failures.get? cam.id).map Failure.n).getD 0 ≥ loop.stallFailures then .stalled
        else .lagging
      out.set cam.id position
    else out) []

/-- The same, with the lag in revisions. -/
def statusLag (loop : Reconciler) (rows : List Camera) : Table (Position × Int) :=
  rows.foldl (fun out cam =>
    if cam.enabled then
      let lag := max (cam.revision - (loop.actual.get? cam.id).getD 0) 0
      out.set cam.id
        (if lag = 0 then (.converged, 0)
        else if ((loop.failures.get? cam.id).map Failure.n).getD 0 ≥ loop.stallFailures then (.stalled, lag)
        else (.lagging, lag))
    else out) []

/-- What a fence does: the pipelines were stopped underneath the loop. -/
def clear (loop : Reconciler) : Reconciler := { loop with actual := [] }

/-! ## A pass with nothing around it -/

/-- What a pass did, what it asked of the actuator, and what it remembers. -/
structure Pass (Loop : Type) where
  actions : List (String × Int)
  calls : List (String × Int)
  loop : Loop

/-- The pass, after one call that came first. -/
def Pass.following {Loop : Type} (pass : Pass Loop) (action call : String × Int) : Pass Loop :=
  { pass with actions := action :: pass.actions, calls := call :: pass.calls }

/-- The loop over the desired cameras, with what the actuator and `random()` answer. -/
def startRounds (actuator : String → Int → Bool) (random : Int → ℚ) (now : ℚ) :
    List (Int × Camera) → Reconciler → Pass Reconciler
  | [], loop => ⟨[], [], loop⟩
  | (cid, cam) :: rest, loop =>
    if loop.rests cid cam now then startRounds actuator random now rest loop
    else
      let verb := if loop.actual.has cid then "restart" else "start"
      if actuator verb cid then
        (startRounds actuator random now rest (loop.succeed cid cam.revision)).following (verb, cid) (verb, cid)
      else
        (startRounds actuator random now rest (loop.fail cid now (random cid))).following ("failed", cid) (verb, cid)

/-- The stop loop, over what is taken to run. -/
def stopRounds (desired : Table Camera) : List Int → Reconciler → Pass Reconciler
  | [], loop => ⟨[], [], loop⟩
  | cid :: rest, loop =>
    if desired.has cid then stopRounds desired rest loop
    else (stopRounds desired rest (loop.forget cid)).following ("stop", cid) ("stop", cid)

def reconcile (loop : Reconciler) (rows : List Camera) (now : ℚ) (actuator : String → Int → Bool) (random : Int → ℚ) :
    Pass Reconciler :=
  let started := startRounds actuator random now (desired rows) loop
  let stopped := stopRounds (desired rows) started.loop.actual.keys started.loop
  ⟨started.actions ++ stopped.actions, started.calls ++ stopped.calls, stopped.loop⟩

/-- What happens to a loop. -/
inductive Event where
  | reconcile (rows : List Camera) (now : ℚ) (actuator : String → Int → Bool) (random : Int → ℚ)
  | lost (cid : Int) (now random : ℚ)
  | clear

def step (loop : Reconciler) : Event → Reconciler
  | .reconcile rows now actuator random => (loop.reconcile rows now actuator random).loop
  | .lost cid now random => loop.lost cid now random
  | .clear => loop.clear

end Reconciler

end EdgeVms.Vms
