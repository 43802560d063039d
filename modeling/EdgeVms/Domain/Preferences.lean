import EdgeVms.Cluster.Directory
import EdgeVms.Process.Pool

/-! # The preferences of a user

One object for each user, with a revision.  The object store has no check-and-set:
a read and a write are two requests.
-/

namespace EdgeVms.Domain

open Python Process EdgeVms.Cluster
open NomadVariables (subscript)

inductive ObjectRequest where
  | get (key : String)
  | put (key : String) (data : Value)

/-- The objects by their JSON; an empty object reads like none. -/
def objectInterface : Interface where
  Request := ObjectRequest
  Answer
    | .get _ => Option Value
    | .put _ _ => Unit

/-- The object store. -/
abbrev Objects := String → Option Value

namespace Objects

def handler : Handler objectInterface Objects
  | .get key, objects => (objects key, objects)
  | .put key data, objects => ((), Function.update objects key (some data))

end Objects

inductive PrefsError where
  | conflict (message : String)
  | python (error : Error)
  deriving DecidableEq

abbrev PrefsProgram := Proc objectInterface Unit PrefsError

namespace PrefsProgram

def ask (request : ObjectRequest) : PrefsProgram (objectInterface.Answer request) :=
  .perform (I := objectInterface) () request

def prefsKey (uid : String) : String := "users/" ++ uid ++ "/prefs"

/-- `json.dumps({"revision": revision, "prefs": prefs})` -/
def prefsObject (revision : Int) (prefs : Value) : Value := .dict [("revision", .int revision), ("prefs", prefs)]

/-- `d["prefs"], int(d["revision"])` -/
def prefsOf (d : Value) : Except Error (Value × Int) := do
  let prefs ← subscript d "prefs"
  return (prefs, ← (← subscript d "revision").toInt)

def getPrefs (uid : String) : PrefsProgram (Value × Int) := do
  match ← ask (.get (prefsKey uid)) with
  | none => return (.dict [], 0)
  | some d => Proc.ofExcept ((prefsOf d).mapError .python)

def stale (current baseRevision : Int) : String :=
  "prefs revision " ++ toString current ++ ", you had " ++ toString baseRevision

def putPrefs (uid : String) (prefs : Value) (baseRevision : Int) : PrefsProgram Int := do
  let (_, current) ← getPrefs uid
  if baseRevision ≠ current then throw (.conflict (stale current baseRevision))
  let _ ← ask (.put (prefsKey uid) (prefsObject (current + 1) prefs))
  return current + 1

end PrefsProgram

/-! ## The tabs of a user -/

/-- A tab with what it is about to save, and the revision that it has shown. -/
structure Tab where
  prefs : Value
  base : Int

/-- The tabs and the store. -/
structure Tabs (ι : Type) where
  pool : Pool objectInterface Unit PrefsError Int Objects ι
  /-- The calls that returned, in order; no tab sees it. -/
  returned : List ι

namespace Tabs

variable {ι : Type} [DecidableEq ι]

def begin_ (uid : String) (tabs : ι → Tab) (objects : Objects) : Tabs ι :=
  ⟨⟨fun i => PrefsProgram.putPrefs uid (tabs i).prefs (tabs i).base, objects⟩, []⟩

/-- The next request of call `i` is answered. -/
def step (state : Tabs ι) (i : ι) : Tabs ι :=
  let pool := Pool.step (fun _ => Objects.handler) state.pool i
  let returns := (state.pool.procs i).value?.isNone && (pool.procs i).value?.isSome
  ⟨pool, if returns then state.returned ++ [i] else state.returned⟩

end Tabs

end EdgeVms.Domain
