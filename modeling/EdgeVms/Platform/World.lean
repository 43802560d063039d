import EdgeVms.Process.Basic
import EdgeVms.Process.Versioned
import EdgeVms.Python.Value
import Mathlib.Data.List.Sort

/-! # The world of the platform's programs

What the controllers and workers ask for: the rows of a `Variables` store, the
heartbeat objects, the clocks, the actuator, and the memory of their own
process.  Everything that is neither store nor memory is `Outside`: a function
of the number of requests served so far, so that it may change between any two.
-/

namespace EdgeVms.Platform

open Process Python

/-- A path of the store, by its segments; a segment holds no slash. -/
abbrev Key := List String

def Key.path (key : Key) : String := join '/' key

/-- A stored row. `put` makes a text of every value. -/
abbrev Items := Dict Text

/-- The package that defines an exception class: `Conflict` and `Forbidden` exist twice. -/
inductive Package where
  | vmsplatform
  | cluster
  deriving DecidableEq, Repr

inductive Exn where
  | python (error : Error)
  | conflict (package : Package) (message : String)
  | forbidden (package : Package) (message : String)
  | refused (message : String)
  deriving DecidableEq, Repr

structure Heartbeat where
  worker : String
  ts : Floating
  status : List (Dict Value)
  extra : Dict Value

/-- A field of an observation: a value that JSON has a text for, or another. -/
inductive Field where
  | json (value : Value)
  | other

def Field.isOther : Field → Bool
  | json _ => false
  | other => true

/-- What an element saw of a camera. -/
structure Posted where
  camera : Int
  kind : String
  fields : Dict Field

/-- What a program sees of everything but the store and its own memory. -/
structure Outside where
  wall : ℚ
  clock : ℚ
  random : ℚ
  /-- The names under `<subsystem>/` that have a heartbeat object. -/
  heartbeats : String → List String
  heartbeat : String → String → Except Exn (Option Heartbeat)
  actuator : String → Dict Value → Except Exn Bool
  /-- What gathered on the bus of the pipelines: dead cameras and observations. -/
  bus : List Int × List Posted
  /-- Does the file system take a line for the file? -/
  append : String → Except Exn Unit

abbrev Rows := Versioned Key fun _ => Items

/-- `ι` names the processes, `M` is the memory of one. -/
structure World (ι M : Type) where
  vars : Rows
  memory : ι → M
  outside : Nat → Outside
  served : Nat

inductive Request (M : Type) where
  | get (key : Key)
  | put (key : Key) (items : Dict Value) (cas : Option Nat)
  | list (above : Key)
  | wall
  | clock
  | random
  | heartbeats (subsystem : String)
  | heartbeat (subsystem name : String)
  | actuator (verb : String) (camera : Dict Value)
  | bus
  | append (path : String)
  | recollect
  | remember (change : M → M)

@[reducible] def Request.Answer {M : Type} : Request M → Type
  | .get _ => Except Exn (Option Items × Nat)
  | .put _ _ _ => Except Exn Nat
  | .list _ => List Key
  | .wall | .clock | .random => ℚ
  | .heartbeats _ => List String
  | .heartbeat _ _ => Except Exn (Option Heartbeat)
  | .actuator _ _ => Except Exn Bool
  | .bus => List Int × List Posted
  | .append _ => Except Exn Unit
  | .recollect => M
  | .remember _ => Unit

abbrev interface (M : Type) : Interface := ⟨Request M, Request.Answer⟩

/-- Where a program is in its work. -/
inductive Phase where
  | idle
  /-- Bringing the lists in line with the worker (if any) a camera is meant to have. -/
  | settled (camera : String) (worker : Option String)
  /-- Between reading its own slot and renewing it. -/
  | renewing
  /-- With a new epoch of a unit not yet in its memory. -/
  | starting (unit : String) (epoch : Int)
  deriving DecidableEq, Repr

abbrev Program (M α : Type) := Proc (interface M) Phase Exn α

namespace Program

variable {M α : Type}

def ask (request : Request M) : Program M request.Answer :=
  Proc.perform (I := interface M) .idle request

/-- The value of a Python expression that makes no request. -/
def value (result : Except Error α) : Program M α :=
  match result with
  | .ok value => .ret value
  | .error error => .raise (.python error)

def get (key : Key) : Program M (Option Items × Nat) := ask (.get key) >>= Proc.ofExcept

def put (key : Key) (items : Dict Value) (cas : Option Nat) : Program M Nat :=
  ask (.put key items cas) >>= Proc.ofExcept

def list (above : Key) : Program M (List Key) := ask (.list above)

def wall : Program M ℚ := ask .wall

def clock : Program M ℚ := ask .clock

def random : Program M ℚ := ask .random

def recollect : Program M M := ask .recollect

def remember (change : M → M) : Program M Unit := ask (.remember change)

def actuator (verb : String) (camera : Dict Value) : Program M Bool :=
  ask (.actuator verb camera) >>= Proc.ofExcept

def bus : Program M (List Int × List Posted) := ask .bus

def append (path : String) : Program M Unit := ask (.append path) >>= Proc.ofExcept

end Program

/-- The view one client has of a store: who it is, and what each writer is allowed. -/
structure View where
  writer : Option String := none
  acl : Dict (List String) := []

/-- `path == p or (p.endswith("*") and path.startswith(p[:-1]))` -/
def View.covers (pattern path : String) : Bool :=
  path = pattern ||
    (pattern.toList.getLast? = some '*' && pattern.toList.dropLast.isPrefixOf path.toList)

def View.forbids (view : View) (path : String) : Option String :=
  match view.writer with
  | none => none
  | some writer =>
    if !view.acl.isEmpty && !((view.acl.getD writer []).any fun pattern => View.covers pattern path) then
      some (writer ++ " may not write " ++ path)
    else none

/-- The protocol of a config store. -/
structure Variables where
  get : Rows → Key → Except Exn (Option Items × Nat)
  put : View → Rows → Key → Dict Value → Option Nat → Except Exn Nat × Rows
  list : Rows → Key → List Key

/-- The listing of the rows under a prefix, sorted by their paths. -/
def listing (rows : Rows) (above : Key) : List Key :=
  (rows.keys.filter fun key => above.isPrefixOf key && key ≠ above).insertionSort
    fun left right => left.path ≤ right.path

def World.tick {ι M : Type} (world : World ι M) : World ι M := { world with served := world.served + 1 }

@[simp] theorem World.tick_vars {ι M : Type} (world : World ι M) : world.tick.vars = world.vars := rfl

@[simp] theorem World.tick_outside {ι M : Type} (world : World ι M) : world.tick.outside = world.outside := rfl

/-- What is outside at this moment. -/
def World.now {ι M : Type} (world : World ι M) : Outside := world.outside world.served

/-- The meaning of the requests of process `i`, over any store. -/
def handler {ι M : Type} [DecidableEq ι] (store : Variables) (view : View) (i : ι) :
    Handler (interface M) (World ι M)
  | .get key, world => (store.get world.vars key, world.tick)
  | .put key items cas, world =>
    ((store.put view world.vars key items cas).1,
      { world.tick with vars := (store.put view world.vars key items cas).2 })
  | .list above, world => (store.list world.vars above, world.tick)
  | .wall, world => (world.now.wall, world.tick)
  | .clock, world => (world.now.clock, world.tick)
  | .random, world => (world.now.random, world.tick)
  | .heartbeats subsystem, world => (world.now.heartbeats subsystem, world.tick)
  | .heartbeat subsystem name, world => (world.now.heartbeat subsystem name, world.tick)
  | .actuator verb camera, world => (world.now.actuator verb camera, world.tick)
  | .bus, world => (world.now.bus, world.tick)
  | .append path, world => (world.now.append path, world.tick)
  | .recollect, world => (world.memory i, world.tick)
  | .remember change, world =>
    ((), { world.tick with memory := Function.update world.memory i (change (world.memory i)) })

/-- Whatever the surroundings of one process answer to its `n`-th request. -/
abbrev Surroundings (M : Type) := Nat → (request : Request M) → request.Answer

/-- One process in its surroundings: only the requests of its own memory have a fixed meaning.  The number
counts the requests. -/
def within {M : Type} (answers : Surroundings M) : Handler (interface M) (M × Nat)
  | .recollect, (memory, n) => (memory, (memory, n + 1))
  | .remember change, (memory, n) => ((), (change memory, n + 1))
  | request, (memory, n) => (answers n request, (memory, n + 1))

/-- Clocks that stand, no heartbeat, a quiet bus, an actuator and files that always succeed. -/
def quietOutside : Outside where
  wall := 0
  clock := 0
  random := 0
  heartbeats _ := []
  heartbeat _ _ := .ok none
  actuator _ _ := .ok true
  bus := ([], [])
  append _ := .ok ()

/-- The store as `FileVariables` first opens it. -/
def freshWorld (ι : Type) : World ι Unit := ⟨Versioned.empty 1000, fun _ => (), fun _ => quietOutside, 0⟩

end EdgeVms.Platform
