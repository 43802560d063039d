import EdgeVms.Python.Value

/-! # What the cluster's store answers

The adapter to the store's HTTP interface, and the scan of `nodes/*` that is a
cluster's directory.  The HTTP client is a function of the request: within one
scan no request is made twice.
-/

namespace EdgeVms.Cluster

open Python

/-- What the HTTP client raises while it opens a URL or reads what it opened. -/
inductive HttpFailure where
  | httpError (code : Nat)
  /-- The connection is refused, or cannot be made in time. -/
  | urlError
  /-- The connection is there, and the answer does not come in time. -/
  | timeoutError
  | python (error : Error)
  deriving DecidableEq

inductive StoreError where
  | conflict
  | forbidden (url : String)
  | http (failure : HttpFailure)
  | python (error : Error)
  deriving DecidableEq

/-- What a reader of a cluster meets: an exception of its stores, or the domain's own. -/
inductive Raised where
  | store (error : StoreError)
  | unreachable
  deriving DecidableEq

/-- The reading half of the interface of the stores. -/
structure Variables where
  get : String → Except Raised (Option (Dict Value) × Int)
  list : String → Except Raised (List String)

/-- The JSON of an object; no object is an answer, too. -/
abbrev ObjectStore := String → Except Raised (Option Value)

structure NomadVariables where
  addr : String
  namespace_ : String
  /-- Method and URL to status and the JSON of the body, if there is one. -/
  urlopen : String → String → Except HttpFailure (Nat × Option Value)

namespace NomadVariables

def req (store : NomadVariables) (method url : String) : Except StoreError (Nat × Option Value) :=
  match store.urlopen method url with
  | .ok answer => .ok answer
  | .error (.httpError code) =>
    if code = 409 then .error .conflict
    else if code = 403 then .error (.forbidden url)
    else if code = 404 then .ok (404, none)
    else .error (.http (.httpError code))
  | .error failure => .error (.http failure)

def varUrl (store : NomadVariables) (path : String) : String :=
  store.addr ++ "/v1/var/" ++ path ++ "?namespace=" ++ store.namespace_

def varsUrl (store : NomadVariables) (above : String) : String :=
  store.addr ++ "/v1/vars?prefix=" ++ above ++ "&namespace=" ++ store.namespace_

/-- `value[key]` -/
def subscript (value : Value) (key : String) : Except Error Value :=
  match value with
  | .dict entries => Dict.item entries key
  | _ => .error .typeError

/-- `dict(body["Items"]), int(body["ModifyIndex"])` -/
def row (body : Value) : Except Error (Option (Dict Value) × Int) := do
  let items ← match ← subscript body "Items" with
    | .dict entries => Except.ok entries
    | _ => Except.error .typeError
  return (some items, ← (← subscript body "ModifyIndex").toInt)

def get (store : NomadVariables) (path : String) : Except StoreError (Option (Dict Value) × Int) := do
  let (status, body) ← store.req "GET" (store.varUrl path)
  match body with
  | none => return (none, 0)
  | some body => if status = 404 then return (none, 0) else (row body).mapError .python

/-- `[v["Path"] for v in (body or [])]` -/
def paths (body : Value) : Except Error (List String) := do
  if !body.truthy then return []
  (← body.toList).mapM fun v => do
    match ← subscript v "Path" with
    | .str text => return text.string
    | _ => throw .attributeError

def list (store : NomadVariables) (above : String) : Except StoreError (List String) := do
  let (_, body) ← store.req "GET" (store.varsUrl above)
  match body with
  | none => return []
  | some body => (paths body).mapError .python

/-- The store as its readers know it. -/
def asVariables (store : NomadVariables) : Variables where
  get path := (store.get path).mapError .store
  list above := (store.list above).mapError .store

/-- Every connection is refused or runs out of time. -/
def Silent (store : NomadVariables) : Prop :=
  ∀ method url, store.urlopen method url = .error .urlError ∨ store.urlopen method url = .error .timeoutError

end NomadVariables

/-! ## The directory -/

structure Holding where
  cameras : List Int
  config : Value
  revision : Int

namespace NodeDirectory

def listed (cameras : Value) : Except Error (List Int) := do
  ((← cameras.splitCommas).filter fun c => (strip (c.toList.map asAscii)) ≠ []).mapM fun c => (Text.plain c).toInt

def holding (items : Dict Value) : Except Error Holding := do
  let cameras ← listed (items.getD "cameras" (.str (.plain "")))
  let revision := items.getD "revision" (.str (.plain "0"))
  let revision ← (if revision.truthy then revision else .int 0).toInt
  return ⟨cameras, items.getD "config" (.str (.plain "")), revision⟩

/-- `path.count("/") != 1` -/
def isNode (path : String) : Bool := path.toList.count '/' = 1

def scanPaths (vars : Variables) : List String → Dict Holding → Except Raised (Dict Holding)
  | [], out => .ok out
  | path :: rest, out =>
    if isNode path then do
      match (← vars.get path).1 with
      | none => scanPaths vars rest out
      | some items =>
        match items.get? "node" with
        | none => scanPaths vars rest out
        | some node =>
          let holding ← (holding items).mapError fun error => .store (.python error)
          scanPaths vars rest (out.set node.text.string holding)
    else scanPaths vars rest out

/-- `scan(force=True)`: what each Node of the cluster holds. -/
def scan (vars : Variables) : Except Raised (Dict Holding) := do
  scanPaths vars (← vars.list "nodes/") []

end NodeDirectory

end EdgeVms.Cluster
