import Mathlib.Data.Rat.Floor

/-! # The supervisor at the edge

`looper.py` starts the child, waits for it and starts it again, until a signal asks it to
stop.  Its handler may run between any two of its steps.
-/

namespace EdgeVms.Kvs

inductive Child where
  | running (terminated : Bool)
  | exited (returncode : Int)

/-- `terminate()`: a child that has ended is left alone. -/
def Child.terminate : Child → Child
  | .running _ => .running true
  | ended => ended

/-- A child ends by itself. -/
def Child.exit (returncode : Int) : Child → Child
  | .running _ => .exited returncode
  | ended => ended

namespace Looper

/-- Where `main` and `run_child_once` are. -/
inductive Place where
  /-- At `while not _shutting_down`. -/
  | loop
  /-- Up to the call of `Popen`. -/
  | launching
  /-- `Popen` has returned the child; `_current_proc` does not have it yet. -/
  | launched (child : Nat)
  /-- At `if _shutting_down` behind that. -/
  | assigned
  | waiting
  /-- The child has ended; `_current_proc` still has it. -/
  | waited (returncode : Int)
  /-- Back in `main`. -/
  | returned (returncode : Int)
  | sleeping (seconds : ℚ)
  | slept
  /-- In `finally`. -/
  | stopping
  | ended
  deriving DecidableEq

end Looper

structure Looper where
  shuttingDown : Bool
  currentProc : Option Nat
  place : Looper.Place
  backoff : ℚ
  loopNum : Nat
  /-- All children so far, in the order of their launches. -/
  children : List Child

namespace Looper

def backoffStart : ℚ := 1

def backoffCap : ℚ := 30

def start : Looper := ⟨false, none, .loop, backoffStart, 0, []⟩

def terminate (state : Looper) (child : Nat) : Looper :=
  { state with children := state.children.modify child Child.terminate }

/-- `_request_shutdown` -/
def requestShutdown (state : Looper) : Looper :=
  let state := { state with shuttingDown := true }
  match state.currentProc with
  | some child => state.terminate child
  | none => state

inductive Event where
  /-- SIGINT or SIGTERM. -/
  | signal
  | childExits (child : Nat) (returncode : Int)
  /-- The supervisor goes on, as far as it can; `launches` if `Popen` returns. -/
  | next (launches : Bool)
  /-- The sleep is over: a signal does not end it. -/
  | wake

def next (state : Looper) (launches : Bool) : Looper :=
  match state.place with
  | .loop =>
    if state.shuttingDown then { state with place := .stopping }
    else { state with place := .launching, loopNum := state.loopNum + 1 }
  | .launching =>
    if launches then
      { state with children := state.children ++ [.running false], place := .launched state.children.length }
    else { state with place := .stopping }
  | .launched child => { state with currentProc := some child, place := .assigned }
  | .assigned =>
    let state := { state with place := .waiting }
    match state.shuttingDown, state.currentProc with
    | true, some child => state.terminate child
    | _, _ => state
  | .waiting =>
    match state.currentProc.bind fun child => state.children[child]? with
    | some (.exited returncode) => { state with place := .waited returncode }
    | _ => state
  | .waited returncode => { state with currentProc := none, place := .returned returncode }
  | .returned returncode =>
    if state.shuttingDown then { state with place := .stopping }
    else if returncode = 0 then { state with backoff := backoffStart, place := .loop }
    else { state with place := .sleeping state.backoff }
  | .sleeping _ => state
  | .slept => { state with backoff := min (state.backoff * 2) backoffCap, place := .loop }
  | .stopping => { state with place := .ended }
  | .ended => state

def step (state : Looper) : Event → Looper
  | .signal => if state.place = .ended then state else state.requestShutdown
  | .childExits child returncode =>
    { state with children := state.children.modify child (Child.exit returncode) }
  | .next launches => state.next launches
  | .wake =>
    match state.place with
    | .sleeping _ => { state with place := .slept }
    | _ => state

end Looper

end EdgeVms.Kvs
