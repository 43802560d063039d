import EdgeVms.Cluster.Config
import EdgeVms.Process.Basic
import EdgeVms.Process.Versioned
import EdgeVms.Python.Value
import Mathlib.Data.Rat.Defs

/-! # The one-way publication upward

The object first, then the Variable by check-and-set.  Each call may fail before
it has done anything, or after.
-/

namespace EdgeVms.Cluster

open Process Python

structure Publisher where
  node : String
  floor : ℚ
  publishedRev : Int
  lastPublish : ℚ
  /-- Negative: the last attempt succeeded. -/
  failedSince : ℚ
  publishes : Nat

def Publisher.new (node : String) (floor : ℚ) : Publisher := ⟨node, floor, 0, -10 ^ 9, -1, 0⟩

/-- The payload of a Variable. -/
abbrev Items := Dict String

inductive Request where
  | configRevision
  | dumpConfig
  | cameras
  | putObject (key : String) (blob : Config)
  | getVariable (path : String)
  | putVariable (path : String) (items : Items) (cas : Nat)
  | clock
  | recollect
  | remember (change : Publisher → Publisher)

@[reducible] def Request.Answer : Request → Type
  | .configRevision => Except Err Int
  | .dumpConfig => Except Err Config
  | .cameras => Except Err (List CameraRow)
  | .putObject _ _ => Except Err Unit
  | .getVariable _ => Except Err (Option Items × Nat)
  | .putVariable _ _ _ => Except Err Nat
  | .clock => ℚ
  | .recollect => Publisher
  | .remember _ => Unit

abbrev interface : Interface := ⟨Request, Request.Answer⟩

/-- What a pointer is stored for: the revision that was read first, the dump, and the cameras read last. -/
inductive Stage where
  | idle
  | pointing (rev : Int) (blob : Config) (cams : List CameraRow)

abbrev Program (α : Type) := Proc interface Stage Empty α

namespace Publisher

def ask (request : Request) : Program request.Answer := Proc.perform (I := interface) .idle request

def variable_ (node : String) : String := "nodes/" ++ node

/-- `fmt.Sprintf("%s/rev-%d", p.Node, rev)` -/
def objectKey (node : String) (rev : Int) : String := node ++ "/rev-" ++ toString rev

def idsOf (cams : List CameraRow) : List String := cams.map fun camera => toString camera.id

def pointer (node key : String) (rev : Int) (cams : List CameraRow) (items : Items) : Items :=
  (((items.set "node" node).set "config" key).set "revision" (toString rev)).set "cameras" (join ',' (idsOf cams))

def failed : Program Bool := do
  let p ← ask .recollect
  if p.failedSince < 0 then
    let now ← ask .clock
    let _ ← ask (.remember fun p => { p with failedSince := now })
    return false
  else return false

/-- 2. then the pointer -/
def putPointer (node : String) (rev : Int) (blob : Config) (cams : List CameraRow) (items : Option Items) (idx : Nat) :
    Program Bool := do
  let items := pointer node (objectKey node rev) rev cams (items.getD [])
  match ← Proc.within (.pointing rev blob cams) (ask (.putVariable (variable_ node) items idx)) with
  | .error .conflict => return false
  | .error .failed => failed
  | .ok _ =>
    let now ← ask .clock
    let _ ← ask (.remember fun p =>
      { p with publishedRev := rev, lastPublish := now, failedSince := -1, publishes := p.publishes + 1 })
    return true

/-- 1. the object, first -/
def putBlob (node : String) (rev : Int) (blob : Config) : Program Bool := do
  match ← ask (.putObject (objectKey node rev) blob) with
  | .error _ => failed
  | .ok _ =>
    match ← ask (.getVariable (variable_ node)) with
    | .error _ => failed
    | .ok (items, idx) =>
      match ← ask .cameras with
      | .error _ => failed
      | .ok cams => putPointer node rev blob cams items idx

/-- Publish if the local revision moved past what the directory holds. -/
def publishOnce : Program Bool := do
  match ← ask .configRevision with
  | .error _ => failed
  | .ok rev =>
    let p ← ask .recollect
    if rev ≤ p.publishedRev then return true
    else if (← ask .clock) - p.lastPublish < p.floor then return true
    else
      match ← ask .dumpConfig with
      | .error _ => failed
      | .ok blob => putBlob p.node rev blob

/-- The `replicated` condition for the console. -/
def replicated (p : Publisher) (localRev : Int) : Bool := localRev ≤ p.publishedRev

end Publisher

/-! ## The Node and its cluster -/

/-- How a call fares: refused before it did anything, or done and not acknowledged. -/
structure Weather where
  refused : Bool
  unacknowledged : Bool
  clock : ℚ

structure NodeWorld where
  db : Database
  objects : String → Option Config
  vars : Versioned String fun _ => Items
  publisher : Publisher
  weather : Nat → Weather
  served : Nat

namespace NodeWorld

def now (world : NodeWorld) : Weather := world.weather world.served

def tick (world : NodeWorld) : NodeWorld := { world with served := world.served + 1 }

/-- An answer that does not come. -/
def answered {α : Type} (world : NodeWorld) (answer : Except Err α) : Except Err α :=
  if world.now.refused then .error .failed else answer

/-- The acknowledgement of a write. -/
def acknowledged {α : Type} (world : NodeWorld) (answer : α) : Except Err α :=
  if world.now.unacknowledged then .error .failed else .ok answer

/-- The meaning of the publisher's requests. -/
def handler : Handler interface NodeWorld
  | .configRevision, world => (world.answered (.ok world.db.configRevision), world.tick)
  | .dumpConfig, world => (world.answered world.db.dumpConfig, world.tick)
  | .cameras, world => (world.answered world.db.fetchDesired, world.tick)
  | .putObject key blob, world =>
    if world.now.refused then (.error .failed, world.tick)
    else (world.acknowledged (), { world.tick with objects := Function.update world.objects key (some blob) })
  | .getVariable path, world =>
    (world.answered (.ok (world.vars.read path, world.vars.version path)), world.tick)
  | .putVariable path items cas, world =>
    if world.now.refused then (.error .failed, world.tick)
    else if cas ≠ world.vars.version path then (.error .conflict, world.tick)
    else
      (world.acknowledged (world.vars.index + 1),
        { world.tick with vars := world.vars.write path items })
  | .clock, world => (world.now.clock, world.tick)
  | .recollect, world => (world.publisher, world.tick)
  | .remember change, world => ((), { world.tick with publisher := change world.publisher })

/-- A Node that was never configured, and a directory that has never seen it. -/
def fresh (node : String) (floor : ℚ) (weather : Nat → Weather) : NodeWorld :=
  ⟨.empty, fun _ => none, Versioned.empty 0, .new node floor, weather, 0⟩

end NodeWorld

end EdgeVms.Cluster
