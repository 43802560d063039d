import EdgeVms.Cluster.Publisher

/-! # The restore of a fresh Node

A pointer to a missing object is refused, and so is an object that is not what
the pointer says.
-/

namespace EdgeVms.Cluster

open Python

/-- What a Node knows of itself before it does anything. -/
structure Identity where
  node : String
  /-- Empty when the directory has never seen this Node. -/
  configObject : String
  configRevision : Int

/-- `ParseInt(text, 10, 64)` with its error dropped: digits and a sign, and nothing else. -/
def parseInt (text : String) : Int :=
  if text.toList.all fun c => c.isDigit || c = '-' || c = '+' then (pyInt text).getD 0 else 0

/-- `FromEnvironment`, where the Variable says it all. -/
def Identity.fromVariable (node : String) (items : Option Items) : Identity :=
  let items := items.getD []
  ⟨node, items.getD "config" "", ((items.get? "revision").map parseInt).getD 0⟩

def Identity.seenBefore (id : Identity) : Bool := id.configObject ≠ ""

inductive RestoreError where
  | refused (why : String)
  | failed (err : Err)

inductive RestoreState where
  | restored
  | unconfigured
  | alreadyConfigured
  deriving DecidableEq

structure RestoreResult where
  state : RestoreState
  revision : Int
  cameras : Nat

/-- The steps of the restore, with the store as it leaves it. -/
def rehydrate (id : Identity) (store : Database) (objects : String → Except Err (Option Config)) :
    Except RestoreError (RestoreResult × Database) :=
  if !store.isUnconfigured then .ok (⟨.alreadyConfigured, store.configRevision, 0⟩, store)
  else if !id.seenBefore then .ok (⟨.unconfigured, 0, 0⟩, store)
  else
    match objects id.configObject with
    | .error err => .error (.failed err)
    | .ok none => .error (.refused ("Variable names " ++ id.configObject ++
        " but the object store has no such object — publication order was broken or the store lost data; " ++
        "refusing to guess"))
    | .ok (some blob) =>
      if revisionOf blob ≠ id.configRevision then
        .error (.refused ("object " ++ id.configObject ++ " is revision " ++ toString (revisionOf blob) ++
          " but the Variable says " ++ toString id.configRevision ++ "; refusing to guess"))
      else
        match store.restoreConfig blob with
        | .error err => .error (.failed err)
        | .ok (_, store) =>
          match store.fetchDesired with
          | .error err => .error (.failed err)
          | .ok cams => .ok (⟨.restored, revisionOf blob, cams.length⟩, store)

end EdgeVms.Cluster
