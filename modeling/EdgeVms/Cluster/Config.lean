import Mathlib.Data.List.Sort

/-! # A Node's configuration

The tables that one Node's Postgres keeps, the edits an operator makes of them,
and what travels of them: one blob, which a fresh Node restores.  The blob is
JSON; `Config` is what the text says.
-/

namespace EdgeVms.Cluster

structure Site where
  id : String
  name : String
  deriving DecidableEq

/-- The operator-owned columns of a camera. -/
structure CameraFields where
  siteId : Option String
  name : String
  rtspUrl : String
  credUsername : Option String
  credSecret : Option (List UInt8)
  enabled : Bool
  retentionDays : Int
  priority : Int
  deriving DecidableEq

structure CameraRow where
  id : Int
  fields : CameraFields
  revision : Int
  deriving DecidableEq

structure Operator where
  id : Int
  username : String
  pwhash : String
  deriving DecidableEq

structure Grant where
  id : Int
  subject : String
  capability : String
  validUntil : Option String
  deriving DecidableEq

/-- What a call of the Node's store, of the object store or of the Variables may fail with. -/
inductive Err where
  | conflict
  | failed
  deriving DecidableEq

/-- The blob. -/
structure Config where
  format : Int
  revision : Int
  sites : List Site
  cameras : List CameraRow
  operators : List Operator
  grants : List Grant
  deriving DecidableEq

/-- The greatest revision of the rows; 0 without rows. -/
def maxRevision (cameras : List CameraRow) : Int :=
  cameras.foldl (fun rev camera => if camera.revision > rev then camera.revision else rev) 0

def encode (sites : List Site) (cameras : List CameraRow) (operators : List Operator) (grants : List Grant) : Config :=
  ⟨1, maxRevision cameras, sites, cameras, operators, grants⟩

def decode (blob : Config) : Except Err Config := if blob.format ≠ 1 then .error .failed else .ok blob

def revisionOf (blob : Config) : Int := blob.revision

/-! ## The tables -/

structure Database where
  sites : List Site
  cameras : List CameraRow
  operators : List Operator
  grants : List Grant
  deriving DecidableEq

/-- A statement of the operator. -/
inductive Edit where
  | insertSite (site : Site)
  | updateSite (id name : String)
  | deleteSite (id : String)
  | insertCamera (id : Int) (fields : CameraFields)
  | updateCamera (id : Int) (fields : CameraFields)
  | deleteCamera (id : Int)
  | insertOperator (operator : Operator)
  | updateOperator (operator : Operator)
  | deleteOperator (id : Int)
  | insertGrant (grant : Grant)
  | updateGrant (grant : Grant)
  | deleteGrant (id : Int)

namespace Database

def empty : Database := ⟨[], [], [], []⟩

/-- `REFERENCES sites(id)`; no site is a site, too. -/
def knows (db : Database) (siteId : Option String) : Bool :=
  match siteId with
  | none => true
  | some id => db.sites.any (·.id = id)

/-- `cameras_bump`: the revision moves when an operator-owned column does. -/
def bump (old : CameraRow) (fields : CameraFields) : CameraRow :=
  ⟨old.id, fields, if fields ≠ old.fields then old.revision + 1 else old.revision⟩

/-- A statement that a constraint refuses changes nothing. -/
def apply (db : Database) : Edit → Database
  | .insertSite site => if db.sites.any (·.id = site.id) then db else { db with sites := db.sites ++ [site] }
  | .updateSite id name => { db with sites := db.sites.map fun site => if site.id = id then ⟨id, name⟩ else site }
  | .deleteSite id =>
    if db.cameras.any (·.fields.siteId = some id) then db else { db with sites := db.sites.filter (·.id ≠ id) }
  | .insertCamera id fields =>
    if db.cameras.any (·.id = id) || !db.knows fields.siteId then db
    else { db with cameras := db.cameras ++ [⟨id, fields, 1⟩] }
  | .updateCamera id fields =>
    if !db.knows fields.siteId then db
    else { db with cameras := db.cameras.map fun camera => if camera.id = id then bump camera fields else camera }
  | .deleteCamera id => { db with cameras := db.cameras.filter (·.id ≠ id) }
  | .insertOperator operator =>
    if db.operators.any fun other => other.id = operator.id || other.username = operator.username then db
    else { db with operators := db.operators ++ [operator] }
  | .updateOperator operator =>
    if db.operators.any fun other => other.id ≠ operator.id && other.username = operator.username then db
    else { db with operators := db.operators.map fun other => if other.id = operator.id then operator else other }
  | .deleteOperator id => { db with operators := db.operators.filter (·.id ≠ id) }
  | .insertGrant grant =>
    if db.grants.any (·.id = grant.id) then db else { db with grants := db.grants ++ [grant] }
  | .updateGrant grant => { db with grants := db.grants.map fun other => if other.id = grant.id then grant else other }
  | .deleteGrant id => { db with grants := db.grants.filter (·.id ≠ id) }

/-! ## The statements of the host -/

/-- `ORDER BY id` -/
def byId (cameras : List CameraRow) : List CameraRow := cameras.insertionSort fun left right => left.id ≤ right.id

/-- The configuration as it is now. -/
def config (db : Database) : Config :=
  encode (db.sites.insertionSort fun left right => left.id ≤ right.id) (byId db.cameras)
    (db.operators.insertionSort fun left right => left.id ≤ right.id)
    (db.grants.insertionSort fun left right => left.id ≤ right.id)

/-- `FetchDesired`: a camera without a site does not scan into a row of strings. -/
def fetchDesired (db : Database) : Except Err (List CameraRow) :=
  if db.cameras.any (·.fields.siteId.isNone) then .error .failed else .ok (byId db.cameras)

def dumpConfig (db : Database) : Except Err Config := do
  let _ ← db.fetchDesired
  return db.config

/-- `COALESCE(MAX(revision), 0)` -/
def configRevision (db : Database) : Int := ((db.cameras.map CameraRow.revision).max?).getD 0

def isUnconfigured (db : Database) : Bool := db.cameras.isEmpty

/-- `INSERT ... ON CONFLICT (id) DO NOTHING`, row by row, over the rows that are there. -/
def restoreSites (there : List Site) (rows : List Site) : List Site :=
  rows.foldl (fun there site => if there.any (·.id = site.id) then there else there ++ [site]) there

def restoreCameras (sites : List Site) : List CameraRow → List CameraRow → Except Err (List CameraRow)
  | there, [] => .ok there
  | there, camera :: rest =>
    if there.any (·.id = camera.id) then restoreCameras sites there rest
    else if !knows ⟨sites, [], [], []⟩ camera.fields.siteId then .error .failed
    else restoreCameras sites (there ++ [camera]) rest

def restoreOperators : List Operator → List Operator → Except Err (List Operator)
  | there, [] => .ok there
  | there, operator :: rest =>
    if there.any (·.id = operator.id) then restoreOperators there rest
    else if there.any (·.username = operator.username) then .error .failed
    else restoreOperators (there ++ [operator]) rest

def restoreGrants (there : List Grant) (rows : List Grant) : List Grant :=
  rows.foldl (fun there grant => if there.any (·.id = grant.id) then there else there ++ [grant]) there

/-- One transaction: it restores all the rows or none. -/
def restoreConfig (db : Database) (blob : Config) : Except Err (Int × Database) := do
  let c ← decode blob
  let sites := restoreSites db.sites c.sites
  let cameras ← restoreCameras sites db.cameras c.cameras
  let operators ← restoreOperators db.operators c.operators
  return (c.revision, ⟨sites, cameras, operators, restoreGrants db.grants c.grants⟩)

end Database

end EdgeVms.Cluster
