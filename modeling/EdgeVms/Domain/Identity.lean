import EdgeVms.Process.Pool
import EdgeVms.Process.Versioned
import EdgeVms.Python.Value
import Mathlib.Data.List.Sort
import Mathlib.Data.String.Basic

/-! # Where users live

The records of the users in the domain's Variables, and the set of them as an
object that a pointer names.  Each request of a call is a step of its own.
-/

namespace EdgeVms.Domain

open Process Python

structure User where
  id : String
  kind : String
  roles : List String
  pwhash : String
  idpSubject : String
  created : Floating
  deriving DecidableEq

namespace User

def toItems (u : User) : Dict Value :=
  [("id", .str (.plain u.id)), ("kind", .str (.plain u.kind)), ("roles", .str (.plain (join ',' u.roles))),
    ("pwhash", .str (.plain u.pwhash)), ("idp_subject", .str (.plain u.idpSubject)), ("created", .float u.created)]

/-- A row holds texts. -/
def fromItems (it : Dict Text) : Except Error User := do
  let id ← it.item "id"
  let kind ← it.item "kind"
  let created ← (it.getD "created" (.plain "0")).toFloat
  return ⟨id.string, kind.string, fields ',' (it.getD "roles" (.plain "")).string,
    (it.getD "pwhash" (.plain "")).string,
    (it.getD "idp_subject" (.plain "")).string, created⟩

end User

/-- The object: the whole set at once. -/
structure UserSet where
  format : Int
  revision : Int
  users : List (Dict Value)

/-- `User.from_items` of each; the values are texts and numbers. -/
def UserSet.decode (blob : UserSet) : Except Error (List User) :=
  blob.users.mapM fun it => User.fromItems (it.mapValues Value.text)

/-- `identity/pointer` -/
structure UserPointer where
  object : String
  revision : Int
  deriving DecidableEq

/-- The rows of `identity/`. -/
inductive IdentityKey where
  | user (uid : String)
  | pointer
  deriving DecidableEq

@[reducible] def IdentityRow : IdentityKey → Type
  | .user _ => Dict Text
  | .pointer => UserPointer

abbrev IdentityRows := Versioned IdentityKey IdentityRow

/-- The users that have a record, in the order of the listing. -/
def IdentityRows.uids (rows : IdentityRows) : List String :=
  (rows.keys.filterMap fun
    | .user uid => some uid
    | .pointer => none).insertionSort (· ≤ ·)

/-- What an `IdentityStore` keeps in memory. -/
structure IdentityStore where
  floor : ℚ
  lastPublish : ℚ
  dirty : Bool
  publishedRev : Int
  publishes : Nat

def IdentityStore.new (floor : ℚ) : IdentityStore := ⟨floor, -10 ^ 9, false, 0, 0⟩

inductive IdentityRequest where
  | get (uid : String)
  | put (uid : String) (items : Dict Value) (cas : Nat)
  | list
  | putObject (name : String) (blob : UserSet)
  | getPointer
  | putPointer (pointer : UserPointer) (cas : Nat)
  | clock
  | recollect
  | remember (change : IdentityStore → IdentityStore)

inductive IdentityError where
  | conflict
  | keyError (uid : String)
  | exists_ (message : String)
  | python (error : Error)
  deriving DecidableEq

@[reducible] def IdentityRequest.Answer : IdentityRequest → Type
  | .get _ => Option (Dict Text) × Nat
  | .put _ _ _ | .putPointer _ _ => Except IdentityError Unit
  | .list => List String
  | .putObject _ _ => Unit
  | .getPointer => Option UserPointer × Nat
  | .clock => ℚ
  | .recollect => IdentityStore
  | .remember _ => Unit

/-- Where a call is: `rereading` says which record an edit has decided on, `publishing` which revision
is on its way. -/
inductive IdentityPhase where
  | idle
  | rereading (uid : String) (decided : Option (Dict Text))
  | publishing (rev : Int)
  deriving DecidableEq

abbrev identityInterface : Interface := ⟨IdentityRequest, IdentityRequest.Answer⟩

abbrev IdentityProgram (α : Type) := Proc identityInterface IdentityPhase IdentityError α

namespace IdentityProgram

def ask (phase : IdentityPhase) (request : IdentityRequest) : IdentityProgram request.Answer :=
  Proc.perform (I := identityInterface) phase request

/-- The user of a row, if there is one: no row and no items are no user. -/
def userOf (items : Option (Dict Text)) : Except IdentityError (Option User) :=
  match items with
  | none | some [] => .ok none
  | some items => some <$> (User.fromItems items).mapError .python

/-- `_put` -/
def putUser (phase : IdentityPhase) (u : User) : IdentityProgram Unit := do
  let (_, idx) ← ask phase (.get u.id)
  let answer ← ask .idle (.put u.id u.toItems idx)
  Proc.ofExcept answer
  ask .idle (.remember fun me => { me with dirty := true })

/-- `pwhash` is of the password, `created` the time. -/
def createLocal (uid pwhash : String) (roles : List String) (created : Floating) : IdentityProgram Unit := do
  let (items, _) ← ask .idle (.get uid)
  match ← Proc.ofExcept (userOf items) with
  | some _ => throw (.exists_ ("user " ++ uid ++ " exists"))
  | none => putUser (.rereading uid items) ⟨uid, "local", roles, pwhash, "", created⟩

/-- Nothing is looked at before the write. -/
def createFederated (uid idpSubject : String) (roles : List String) (created : Floating) : IdentityProgram Unit :=
  putUser .idle ⟨uid, "idp", roles, "", idpSubject, created⟩

def setRoles (uid : String) (roles : List String) : IdentityProgram Unit := do
  let (items, _) ← ask .idle (.get uid)
  match ← Proc.ofExcept (userOf items) with
  | none => throw (.keyError uid)
  | some u => putUser (.rereading u.id items) { u with roles := roles }

def delete (uid : String) : IdentityProgram Unit := do
  let (_, idx) ← ask .idle (.get uid)
  let answer ← ask .idle (.put uid [("id", .str (.plain uid)), ("kind", .str (.plain "deleted"))] idx)
  Proc.ofExcept answer
  ask .idle (.remember fun me => { me with dirty := true })

/-- The user that `users` takes from a row, if it takes one. -/
def listed (items : Option (Dict Text)) : Except IdentityError (Option User) :=
  match items with
  | none => .ok none
  | some items =>
    if items.get? "kind" = some (.plain "local") ∨ items.get? "kind" = some (.plain "idp") then
      some <$> (User.fromItems items).mapError .python
    else .ok none

def usersRounds (rev : Int) : List String → List User → IdentityProgram (List User)
  | [], out => return out
  | uid :: rest, out => do
    let (items, _) ← ask (.publishing rev) (.get uid)
    match ← Proc.ofExcept (listed items) with
    | some u => usersRounds rev rest (out ++ [u])
    | none => usersRounds rev rest out

def objectName (rev : Int) : String := "identity/rev-" ++ toString rev

/-- The object first, then the pointer. -/
def publish (force : Bool) : IdentityProgram Bool := do
  let me ← ask .idle .recollect
  if !(me.dirty || force) then return false
  let early ← if force then pure false else do
    let now ← ask .idle .clock
    pure (now - me.lastPublish < me.floor : Bool)
  if early then return false
  let rev := me.publishedRev + 1
  let uids ← ask (.publishing rev) .list
  let users ← usersRounds rev uids []
  let _ ← ask (.publishing rev) (.putObject (objectName rev) ⟨1, rev, users.map User.toItems⟩)
  let (_, idx) ← ask (.publishing rev) .getPointer
  let answer ← ask (.publishing rev) (.putPointer ⟨objectName rev, rev⟩ idx)
  Proc.ofExcept answer
  let now ← ask (.publishing rev) .clock
  let _ ← ask (.publishing rev) (.remember fun me =>
    { me with publishedRev := rev, lastPublish := now, dirty := false, publishes := me.publishes + 1 })
  return true

end IdentityProgram

inductive IdentityCall where
  | createLocal (uid pwhash : String) (roles : List String) (created : Floating)
  | setRoles (uid : String) (roles : List String)
  | delete (uid : String)

namespace IdentityCall

def uid : IdentityCall → String
  | createLocal uid _ _ _ | setRoles uid _ | delete uid => uid

def program : IdentityCall → IdentityProgram Unit
  | createLocal uid pwhash roles created => IdentityProgram.createLocal uid pwhash roles created
  | setRoles uid roles => IdentityProgram.setRoles uid roles
  | delete uid => IdentityProgram.delete uid

end IdentityCall

/-! ## The stores -/

/-- `κ` are the calls or processes, each with the memory of its store. -/
structure IdentityWorld (κ : Type) where
  rows : IdentityRows
  objects : String → Option UserSet
  memory : κ → IdentityStore
  time : ℚ
  /-- Whose writes of user records went through, in order; no program sees it. -/
  committed : List κ

namespace IdentityWorld

variable {κ : Type} [DecidableEq κ]

def handler (c : κ) : Handler identityInterface (IdentityWorld κ)
  | .get uid, world => ((world.rows.read (.user uid), world.rows.version (.user uid)), world)
  | .put uid items cas, world =>
    if cas = world.rows.version (.user uid) then
      (.ok (), { world with
        rows := world.rows.write (.user uid) (items.mapValues Value.text)
        committed := world.committed ++ [c] })
    else (.error .conflict, world)
  | .list, world => (IdentityRows.uids world.rows, world)
  | .putObject name blob, world => ((), { world with objects := Function.update world.objects name (some blob) })
  | .getPointer, world => ((world.rows.read .pointer, world.rows.version .pointer), world)
  | .putPointer pointer cas, world =>
    if cas = world.rows.version .pointer then (.ok (), { world with rows := world.rows.write .pointer pointer })
    else (.error .conflict, world)
  | .clock, world => (world.time, world)
  | .recollect, world => (world.memory c, world)
  | .remember change, world =>
    ((), { world with memory := Function.update world.memory c (change (world.memory c)) })

end IdentityWorld

/-! ## The service -/

inductive IdentityEdit where
  | call (call : IdentityCall)
  | createFederated (uid idpSubject : String) (roles : List String) (created : Floating)

def IdentityEdit.program : IdentityEdit → IdentityProgram Unit
  | .call c => c.program
  | .createFederated uid idpSubject roles created => IdentityProgram.createFederated uid idpSubject roles created

/-- One process, with the call of `publish` that is on its way. -/
structure IdentityService where
  world : IdentityWorld Unit
  flight : Option (IdentityProgram Bool)
  /-- The objects that the pointer has ever named; no program sees it. -/
  named : List String

namespace IdentityService

inductive Event where
  | wait (seconds : ℚ)
  | edit (edit : IdentityEdit)
  | publish (force : Bool)
  | advance
  /-- An exception of a store ends the call of `publish`. -/
  | abort
  | restart

def start (floor : ℚ) : IdentityService := ⟨⟨.empty 1000, fun _ => none, fun _ => .new floor, 0, []⟩, none, []⟩

/-- The names, with the one that the pointer has now. -/
def noteName (rows : IdentityRows) (named : List String) : List String :=
  match rows.read .pointer with
  | some pointer => if pointer.object ∈ named then named else named ++ [pointer.object]
  | none => named

def step (state : IdentityService) : Event → IdentityService
  | .wait seconds => { state with world := { state.world with time := state.world.time + |seconds| } }
  | .edit edit => { state with world := (edit.program.run (IdentityWorld.handler ()) state.world).2 }
  | .publish force =>
    match state.flight with
    | some _ => state
    | none => { state with flight := some (IdentityProgram.publish force) }
  | .advance =>
    match state.flight with
    | none => state
    | some p =>
      let (p', world) := Proc.advance (IdentityWorld.handler ()) (p, state.world)
      ⟨world, if p'.Finished then none else some p', noteName world.rows state.named⟩
  | .abort => { state with flight := none }
  | .restart =>
    { state with
      world := { state.world with memory := fun _ => .new (state.world.memory ()).floor }
      flight := none }

end IdentityService

end EdgeVms.Domain
