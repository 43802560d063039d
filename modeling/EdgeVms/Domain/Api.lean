import EdgeVms.Domain.Federation

/-! # The console's write API

A façade: an edit goes to the Node that holds the camera, and the response is
kept under the caller's idempotency key.  The session counts, besides, which
edits the Nodes were asked for.
-/

namespace EdgeVms.Domain

open Python EdgeVms.Cluster

def FORBIDDEN_FIELDS : List String :=
  ["node", "cluster", "placement", "epoch", "observed_revision", "phase"]

/-- `E` is what the verifier, the discovery of the consoles and the consoles themselves may raise. -/
inductive Failure (E : Type) where
  | api (status : Nat) (detail : String)
  | directory (error : Raised)
  | other (error : E)

/-- What can be asked of a Node's own console: `F` is a field's value, `R` an answer. -/
structure NodeConsole (F R E : Type) where
  updateCamera : Int → Dict F → Option String → Except (Failure E) R
  createCamera : Dict F → Option String → Except (Failure E) R

inductive Response (R : Type) where
  | updated (camera : Int) (node : String) (cluster : Option String) (result : R) (authenticated : Bool)
  | created (node : String) (result : R) (authenticated : Bool)

/-- What a call meets: the domain, the consoles of the Nodes, and what the verifier says of a token. -/
structure Surroundings (F R E : Type) where
  fed : Federation
  consoles : String → Except (Failure E) (NodeConsole F R E)
  verifier : String → Except (Failure E) String

/-- An edit that a Node was asked for. -/
structure Asked where
  node : String
  key : String
  deriving DecidableEq

structure ConsoleAPI (R : Type) where
  /-- `verifier is not None` -/
  verified : Bool
  seen : Dict (Response R)
  asked : List Asked

namespace ConsoleAPI

variable {F R E : Type}

def new (verified : Bool) : ConsoleAPI R := ⟨verified, [], []⟩

def subject (api : ConsoleAPI R) (around : Surroundings F R E) (token : Option String) :
    Except (Failure E) (Option String) :=
  if !api.verified then .ok none
  else match token with
    | none | some "" => .error (.api 401 "a token is required")
    | some token => some <$> around.verifier token

def refusePlacement (fields : Dict F) : Except (Failure E) Unit :=
  let bad := (fields.map Prod.fst).filter (· ∈ FORBIDDEN_FIELDS)
  if bad ≠ [] then
    .error (.api 400 ("a client may not set " ++ (Value.list (bad.map fun k => .str (.plain k))).repr ++
      ": placement is decided and stored by the placement service with a reason; phase and observed_revision" ++
      " are controller-owned"))
  else .ok ()

/-- The Node that holds the camera, and its cluster. -/
def locate (around : Surroundings F R E) (camera : Int) : Except (Failure E) (String × Option String) := do
  let ans ← (DomainDirectory.where_ around.fed camera).mapError .directory
  match ans.node with
  | some node => return (node, ans.cluster)
  | none => throw (.api (if ans.complete then 404 else 503) ans.sentence)

/-- A Node is asked; its response is kept, its exception is not. -/
def forward (api : ConsoleAPI R) (node key : String) (answer : Except (Failure E) R) (resp : R → Response R) :
    Except (Failure E) (Response R) × ConsoleAPI R :=
  let api := { api with asked := api.asked ++ [⟨node, key⟩] }
  match answer with
  | .ok result => (.ok (resp result), { api with seen := api.seen.set key (resp result) })
  | .error error => (.error error, api)

def updateCamera (around : Surroundings F R E) (camera : Int) (fields : Dict F) (key : String) (token : Option String)
    (api : ConsoleAPI R) : Except (Failure E) (Response R) × ConsoleAPI R :=
  match api.seen.get? key with
  | some resp => (.ok resp, api)
  | none =>
    let prepared : Except (Failure E) (Option String × String × Option String × NodeConsole F R E) := do
      refusePlacement fields
      let subject ← api.subject around token
      let (node, cluster) ← locate around camera
      return (subject, node, cluster, ← around.consoles node)
    match prepared with
    | .ok (subject, node, cluster, console) =>
      api.forward node key (console.updateCamera camera fields subject)
        fun result => .updated camera node cluster result api.verified
    | .error error => (.error error, api)

def createCamera (around : Surroundings F R E) (fields : Dict F) (node key : String) (token : Option String)
    (api : ConsoleAPI R) : Except (Failure E) (Response R) × ConsoleAPI R :=
  match api.seen.get? key with
  | some resp => (.ok resp, api)
  | none =>
    let prepared : Except (Failure E) (Option String × NodeConsole F R E) := do
      refusePlacement fields
      let subject ← api.subject around token
      return (subject, ← around.consoles node)
    match prepared with
    | .ok (subject, console) =>
      api.forward node key (console.createCamera fields subject) fun result => .created node result api.verified
    | .error error => (.error error, api)

end ConsoleAPI

/-! ## Calls -/

inductive Operation where
  | update (camera : Int)
  | create (node : String)

structure Call (F : Type) where
  operation : Operation
  fields : Dict F
  key : String
  token : Option String

def Call.serve {F R E : Type} (call : Call F) (around : Surroundings F R E) (api : ConsoleAPI R) :
    Except (Failure E) (Response R) × ConsoleAPI R :=
  match call.operation with
  | .update camera => api.updateCamera around camera call.fields call.key call.token
  | .create node => api.createCamera around call.fields node call.key call.token

end EdgeVms.Domain
