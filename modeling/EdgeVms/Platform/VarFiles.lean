import EdgeVms.Platform.Variables

/-! # The files of the config store

Below the rows lie files: one JSON file per path in one directory, whose name is the
path with every slash written as `%2F`, and a counter beside the directory.
-/

namespace EdgeVms.Platform

open Python

/-- `path.replace("/", "%2F")` -/
def escape (chars : List Char) : List Char := chars.flatMap fun c => if c = '/' then ['%', '2', 'F'] else [c]

/-- `name.replace("%2F", "/")` -/
def unescape : List Char → List Char
  | '%' :: '2' :: 'F' :: rest => '/' :: unescape rest
  | c :: rest => c :: unescape rest
  | [] => []

/-- What is in a file of the store. -/
structure Content where
  items : Items
  index : Nat

/-- The directory `vars`, and the number in the file `index`. -/
structure VarFiles where
  dir : Dict Content
  index : Option Nat

namespace VarFiles

inductive Fault where
  | exn (exn : Exn)
  | osError

def empty : VarFiles := ⟨[], none⟩

/-- `_safe` -/
def safe (path : String) : Except Fault String :=
  if "..".toList <:+: path.toList || path.toList.head? = some '/' then .error (.exn (.python .valueError)) else .ok path

/-- The name of the file of a path. -/
def fileName (path : String) : String := String.ofList (escape path.toList) ++ ".json"

/-- `_file` -/
def file (path : String) : Except Fault String := fileName <$> safe path

/-- The names that the file system takes. -/
def opens (name : String) : Except Fault Unit :=
  if '\x00' ∈ name.toList then .error (.exn (.python .valueError))
  else if 255 < name.utf8ByteSize then .error .osError
  else .ok ()

def nextIndex (store : VarFiles) : Nat × VarFiles :=
  (store.index.getD 1000 + 1, { store with index := some (store.index.getD 1000 + 1) })

def get (store : VarFiles) (path : String) : Except Fault (Option Items × Nat) := do
  let name ← file path
  opens name
  match store.dir.get? name with
  | some d => return (some d.items, d.index)
  | none => return (none, 0)

def conflict (path : String) (expected current : Nat) : Fault :=
  .exn (.conflict .vmsplatform
    (path ++ ": cas=" ++ toString expected ++ " but ModifyIndex=" ++ toString current))

/-- Written beside, then renamed. -/
def replace (store : VarFiles) (name : String) (d : Content) : Except Fault Unit × VarFiles :=
  match opens (name ++ ".tmp") with
  | .error error => (.error error, store)
  | .ok () => (.ok (), { store with dir := ((store.dir.set (name ++ ".tmp") d).pop (name ++ ".tmp")).set name d })

/-- The index of the file, if it is the one that the caller expects. -/
def current (store : VarFiles) (path : String) (cas : Option Nat) : Except Fault Unit := do
  let (_, current) ← store.get path
  match cas with
  | some expected => if expected ≠ current then throw (conflict path expected current)
  | none => return ()

def put (view : View) (store : VarFiles) (path : String) (items : Dict Value) (cas : Option Nat) :
    Except Fault Nat × VarFiles :=
  match view.forbids path with
  | some message => (.error (.exn (.forbidden .vmsplatform message)), store)
  | none =>
    match store.current path cas with
    | .error error => (.error error, store)
    | .ok () =>
      let (idx, store) := store.nextIndex
      match store.replace (fileName path) ⟨stored items, idx⟩ with
      | (.ok (), store) => (.ok idx, store)
      | (.error error, store) => (.error error, store)

def delete (store : VarFiles) (path : String) (cas : Option Nat) : Except Fault Unit × VarFiles :=
  match store.current path cas with
  | .error error => (.error error, store)
  | .ok () => (.ok (), ({ store with dir := store.dir.pop (fileName path) }).nextIndex.2)

/-- The path of a file of the store; other files are passed over. -/
def pathOf (name : String) : Option String :=
  if ".json".toList <:+ name.toList then
    some (String.ofList (unescape (name.toList.take (name.toList.length - 5))))
  else none

def list (store : VarFiles) (above : String) : List String :=
  (((store.dir.map Prod.fst).filterMap pathOf).filter fun path => above.toList.isPrefixOf path.toList).insertionSort
    (· ≤ ·)

example : (put {} empty "vms/next_id" [("n", .int 1)] none).2.list "vms/" = ["vms/next_id"] := by decide +kernel

end VarFiles

end EdgeVms.Platform
