import EdgeVms.Cluster.Config
import EdgeVms.Node.AppHost

/-! # The Node's database, and what the console reads of it

An operator writes the operator-owned columns, the AppHost the others, and `cameras_bump`
moves the revision with the former only.  `Node` is the database and the one process that
works on it, with a fetch or a report that may be on its way.
-/

namespace EdgeVms.Node

open Process Python Vms
open Cluster (CameraFields Site)

/-- What a request can put into a column. -/
inductive Cell where
  | null
  | text (value : String)
  | int (value : Int)
  | bool (value : Bool)
  | bytes (value : List UInt8)
  deriving DecidableEq

/-- `bool(value)` -/
def Cell.truthy : Cell → Bool
  | .null => false
  | .text value => value ≠ ""
  | .int value => value ≠ 0
  | .bool value => value
  | .bytes value => value ≠ []

namespace PgStore

/-- A row of `cameras`. -/
structure Row where
  id : Int
  fields : CameraFields
  revision : Int
  observedRevision : Int
  phase : String
  lastSeen : Option ℚ
  deriving DecidableEq

/-- A row of `camera_conditions`. -/
structure ConditionRow where
  camera : Int
  condition : String
  status : Bool
  reason : Option String
  since : ℚ
  deriving DecidableEq

structure Tables where
  sites : List Site
  cameras : List Row
  /-- What `cameras_id_seq` answers next. -/
  nextId : Int
  conditions : List ConditionRow
  segments : List SegmentRow

def empty : Tables := ⟨[], [], 1, [], []⟩

/-! ## The columns -/

def operatorColumns : List String :=
  ["site_id", "name", "rtsp_url", "cred_username", "cred_secret", "enabled", "retention_days", "priority"]

def int4 (n : Int) : Bool := -2147483648 ≤ n && n ≤ 2147483647

/-- The value can be sent as the column's type. -/
def typed : String → Cell → Bool
  | _, .null => true
  | column, .text _ => column ∈ ["site_id", "name", "rtsp_url", "cred_username"]
  | column, .int n => column ∈ ["retention_days", "priority"] && int4 n
  | column, .bool _ => column = "enabled"
  | column, .bytes _ => column = "cred_secret"

/-- `column = value`, unless the column is `NOT NULL`. -/
def assign (fields : CameraFields) (assignment : String × Cell) : Option CameraFields :=
  match assignment with
  | ("site_id", .null) => some { fields with siteId := none }
  | ("site_id", .text value) => some { fields with siteId := some value }
  | ("name", .text value) => some { fields with name := value }
  | ("rtsp_url", .text value) => some { fields with rtspUrl := value }
  | ("cred_username", .null) => some { fields with credUsername := none }
  | ("cred_username", .text value) => some { fields with credUsername := some value }
  | ("cred_secret", .null) => some { fields with credSecret := none }
  | ("cred_secret", .bytes value) => some { fields with credSecret := some value }
  | ("enabled", .bool value) => some { fields with enabled := value }
  | ("retention_days", .int value) => some { fields with retentionDays := value }
  | ("priority", .int value) => some { fields with priority := value }
  | _ => none

/-- The row of an `INSERT`, with the defaults of the columns that it does not name. -/
def inserted (values : Dict Cell) : Option CameraFields :=
  if (values.get? "name").isNone ∨ (values.get? "rtsp_url").isNone then none
  else values.foldlM assign ⟨none, "", "", none, none, true, 30, 100⟩

/-- The `WHEN` clause of `cameras_bump`: `IS DISTINCT FROM`, column by column. -/
def distinct (old new : CameraFields) : Bool :=
  old.siteId ≠ new.siteId || old.name ≠ new.name || old.rtspUrl ≠ new.rtspUrl ||
    old.credUsername ≠ new.credUsername || old.credSecret ≠ new.credSecret || old.enabled ≠ new.enabled ||
    old.retentionDays ≠ new.retentionDays || old.priority ≠ new.priority

/-- An `UPDATE` of one row, once `cameras_bump` has seen it. -/
def bumpRevision (old new : Row) : Row :=
  if distinct old.fields new.fields then { new with revision := old.revision + 1 } else new

/-- `UPDATE cameras SET ... WHERE id = ...` -/
def Tables.update (tables : Tables) (cid : Int) (set : Row → Row) : Tables :=
  { tables with cameras := tables.cameras.map fun row => if row.id = cid then bumpRevision row (set row) else row }

/-- `REFERENCES sites(id)` -/
def Tables.knows (tables : Tables) (fields : CameraFields) : Bool :=
  fields.siteId.all fun siteId => tables.sites.any fun site => site.id = siteId

/-! ## Operator-owned writes -/

/-- `encrypt`: the key may be missing. -/
abbrev Encrypt := Cell → Int → Except Fault (List UInt8)

/-- What is left of the fields of a request. -/
def owned (fields : Dict Cell) : Dict Cell := fields.filter fun entry => entry.1 ∈ operatorColumns

/-- One transaction.  A row that is refused has drawn its id. -/
def createCamera (fields : Dict Cell) (encrypt : Encrypt) (tables : Tables) : Except Fault Int × Tables :=
  let fields := owned fields
  let secret := (fields.get? "cred_secret").filter Cell.truthy
  -- the secret is sealed with the id, so it comes in an `UPDATE` of its own
  let values := fields.pop "cred_secret"
  if values = [] ∨ !values.all fun (column, value) => typed column value then (.error .database, tables)
  else
    let cid := tables.nextId
    let drawn := { tables with nextId := cid + 1 }
    match inserted values with
    | none => (.error .database, drawn)
    | some row =>
      if !tables.knows row then (.error .database, drawn)
      else
        let stored := { drawn with cameras := tables.cameras ++ [⟨cid, row, 1, 0, "pending", none⟩] }
        match secret with
        | none => (.ok cid, stored)
        | some secret =>
          match encrypt secret cid with
          | .error fault => (.error fault, drawn)
          | .ok blob =>
            (.ok cid, stored.update cid fun row => { row with fields := { row.fields with credSecret := some blob } })

/-- The secret of an update, as it is stored. -/
def sealed (cid : Int) (fields : Dict Cell) (encrypt : Encrypt) : Except Fault (Dict Cell) :=
  match fields.get? "cred_secret" with
  | none => .ok fields
  | some secret =>
    if secret.truthy then (fun blob => fields.set "cred_secret" (.bytes blob)) <$> encrypt secret cid
    else .ok (fields.set "cred_secret" .null)

/-- Whether there was a row to update. -/
def updateCamera (cid : Int) (fields : Dict Cell) (encrypt : Encrypt) (tables : Tables) : Except Fault Bool × Tables :=
  match sealed cid (owned fields) encrypt with
  | .error fault => (.error fault, tables)
  | .ok values =>
    if values = [] then (.ok true, tables)
    else if !values.all fun (column, value) => typed column value then (.error .database, tables)
    else
      match tables.cameras.find? fun row => row.id = cid with
      | none => (.ok false, tables)
      | some row =>
        match values.foldlM assign row.fields with
        | none => (.error .database, tables)
        | some new =>
          if !tables.knows new then (.error .database, tables)
          else (.ok true, tables.update cid fun row => { row with fields := new })

def deleteCamera (cid : Int) (tables : Tables) : Bool × Tables :=
  (tables.cameras.any fun row => row.id = cid,
    { tables with cameras := tables.cameras.filter fun row => row.id ≠ cid })

def upsertSite (siteId name : String) (tables : Tables) : Tables :=
  if tables.sites.any fun site => site.id = siteId then
    { tables with sites := tables.sites.map fun site => if site.id = siteId then ⟨siteId, name⟩ else site }
  else { tables with sites := tables.sites ++ [⟨siteId, name⟩] }

/-! ## Controller-owned writes -/

/-- `report`: one `UPDATE` for each row, in one transaction. -/
def report (rows : List (Int × Int × String)) (now : ℚ) (tables : Tables) : Tables :=
  rows.foldl (fun tables (cid, revision, phase) =>
    tables.update cid fun row =>
      { row with observedRevision := revision, phase := phase, lastSeen := some now }) tables

/-- `ON CONFLICT (camera_id, condition) DO UPDATE` -/
def setCondition (cid : Int) (condition : String) (status : Bool) (reason : Option String) (now : ℚ)
    (conditions : List ConditionRow) : List ConditionRow :=
  if conditions.any fun row => row.camera = cid ∧ row.condition = condition then
    conditions.map fun row =>
      if row.camera = cid ∧ row.condition = condition then
        -- `since` moves only when the status flips
        { row with status, reason, since := if row.status = status then row.since else now }
      else row
  else conditions ++ [⟨cid, condition, status, reason, now⟩]

/-! ## Reads -/

/-- What `DESIRED_SQL` selects of a row. -/
def Row.desired (row : Row) : Cluster.CameraRow := ⟨row.id, row.fields, row.revision⟩

/-- `DESIRED_SQL` -/
def fetchDesired (tables : Tables) : List Cluster.CameraRow :=
  (tables.cameras.map Row.desired).insertionSort fun first second => first.id ≤ second.id

/-- `dict(r)`, with a blob as the list of its bytes. -/
def asDict (row : Cluster.CameraRow) : Camera :=
  let text (value : String) : Value := .str (.plain value)
  let nullable {α : Type} (value : Option α) (read : α → Value) : Value := (value.map read).getD .none
  ⟨row.id, row.fields.enabled, row.revision,
    [("id", .int row.id), ("site_id", nullable row.fields.siteId text), ("name", text row.fields.name),
      ("rtsp_url", text row.fields.rtspUrl), ("cred_username", nullable row.fields.credUsername text),
      ("cred_secret", nullable row.fields.credSecret fun blob => .list (blob.map fun byte => .int byte.toNat)),
      ("enabled", .bool row.fields.enabled), ("retention_days", .int row.fields.retentionDays),
      ("priority", .int row.fields.priority), ("revision", .int row.revision)]⟩

/-- A row of the view `camera_status`. -/
structure StatusRow where
  id : Int
  name : String
  siteId : Option String
  enabled : Bool
  revision : Int
  observedRevision : Int
  lag : Int
  phase : String
  lastSeen : Option ℚ
  lastSegmentEnd : Option ℚ
  silentFor : Option ℚ

/-- `ORDER BY lower(span) DESC LIMIT 1`, among the segments of the last two hours. -/
def lastSegment (segments : List SegmentRow) (cid : Int) (now : ℚ) : Option SegmentRow :=
  (segments.filter fun row => row.camera = cid ∧ now - 7200 < row.start).foldl (fun last row =>
    match last with
    | none => some row
    | some last => if last.start < row.start then some row else some last) none

def Row.status (row : Row) (segments : List SegmentRow) (now : ℚ) : StatusRow :=
  let last := (lastSegment segments row.id now).map SegmentRow.end_
  ⟨row.id, row.fields.name, row.fields.siteId, row.fields.enabled, row.revision, row.observedRevision,
    row.revision - row.observedRevision, row.phase, row.lastSeen, last, last.map fun end_ => now - end_⟩

/-- `SELECT * FROM camera_status ORDER BY id` -/
def status (now : ℚ) (tables : Tables) : List StatusRow :=
  (tables.cameras.insertionSort fun first second => first.id ≤ second.id).map fun row => row.status tables.segments now

/-- What `conditions()` has for a camera. -/
def conditionsOf (conditions : List ConditionRow) (cid : Int) : List ConditionRow :=
  (conditions.filter fun row => row.camera = cid).insertionSort fun first second => first.condition ≤ second.condition

end PgStore

/-! ## The console -/

namespace Console

inductive Position where
  | unreachable
  | converged
  | stalled
  | lagging
  deriving DecidableEq

def Position.text : Position → String
  | unreachable => "unreachable"
  | converged => "converged"
  | stalled => "stalled"
  | lagging => "lagging"

structure CameraStatus where
  id : Int
  name : String
  siteId : Option String
  enabled : Bool
  position : Position
  lag : Int
  phase : String
  silentForSeconds : Option ℚ
  conditions : List PgStore.ConditionRow

open PgStore in
/-- What `build_status` says of one row. -/
def cameraStatus (reportInterval now : ℚ) (conditions : List ConditionRow) (row : StatusRow) : CameraStatus :=
  let conds := conditionsOf conditions row.id
  let nodeReporting := row.lastSeen.any fun lastSeen => now - lastSeen < 3 * reportInterval
  let position :=
    -- grey: we do not know
    if !nodeReporting then .unreachable
    else if row.lag ≤ 0 then .converged
    else if row.phase = "failed" ∧ conds.any fun condition => !condition.status then .stalled
    else .lagging
  ⟨row.id, row.name, row.siteId, row.enabled, position, row.lag, row.phase, row.silentFor, conds⟩

open PgStore in
/-- `build_status`, with the answers of its two queries. -/
def buildStatus (reportInterval now : ℚ) (rows : List StatusRow) (conditions : List ConditionRow) :
    Bool × List CameraStatus :=
  let cameras := rows.map (cameraStatus reportInterval now conditions)
  (cameras.any (fun camera => camera.position ≠ .unreachable) || cameras.isEmpty, cameras)

end Console

/-! ## The Node -/

structure NodeVms where
  host : AppHost
  tables : PgStore.Tables
  /-- The rows of a fetch that the pass has not begun with. -/
  fetched : Option (List Cluster.CameraRow)
  /-- The report, as far as it has come. -/
  report : Report.Program Unit
  stopping : Bool

namespace NodeVms

open Report PgStore

def new (epoch : Int) (startedAt : ℚ) (tables : Tables) :
    NodeVms := ⟨.new epoch startedAt, tables, none, .ret (), false⟩

/-- The calls of the report.  A segment that is empty is refused. -/
def handler (outcome : Report.Outcome) (now : ℚ) : Handler Report.interface (AppHost × Tables)
  | .recollect, (host, tables) => (host, host, tables)
  | .take, (host, tables) => (host.pendingIndex, { host with pendingIndex := [] }, tables)
  | .report rows, (host, tables) =>
    (outcome.answer, host, match outcome with
      | .refused => tables
      | .done | .unanswered => PgStore.report rows now tables)
  | .setCondition camera condition status reason, (host, tables) =>
    (outcome.answer, host, match outcome with
      | .refused => tables
      | .done | .unanswered =>
        { tables with conditions := PgStore.setCondition camera condition status reason now tables.conditions })
  | .indexSegment row, (host, tables) =>
    if row.end_ ≤ row.start then (.error .database, host, tables)
    else
      (outcome.answer, host, match outcome with
        | .refused => tables
        | .done | .unanswered => { tables with segments := tables.segments ++ [row] })

/-- Where the segment is not refused, a row of `segments` is all that it brings. -/
theorem handler_indexSegment (outcome : Report.Outcome) (now : ℚ) (row : SegmentRow) (host : AppHost)
    (tables : Tables) :
    ∃ segments, (handler outcome now (.indexSegment row) (host, tables)).2 = (host, { tables with segments }) := by
  by_cases empty : row.end_ ≤ row.start
  · exact ⟨tables.segments, by simp [handler, empty]⟩
  · cases outcome with
    | refused => exact ⟨tables.segments, by simp [handler, empty]⟩
    | done | unanswered => exact ⟨tables.segments ++ [row], by simp [handler, empty]⟩

/-- Of the host, a call touches the queue of the index and nothing else. -/
theorem handler_host (outcome : Report.Outcome) (now : ℚ) (request : Report.Request) (host : AppHost)
    (tables : Tables) :
    ∃ pendingIndex, (handler outcome now request (host, tables)).2.1 = { host with pendingIndex } := by
  cases request with
  | take => exact ⟨[], rfl⟩
  | recollect | report rows | setCondition camera condition status reason => exact ⟨host.pendingIndex, rfl⟩
  | indexSegment row =>
    obtain ⟨segments, same⟩ := handler_indexSegment outcome now row host tables
    exact ⟨host.pendingIndex, by rw [same]⟩

inductive Event where
  | createCamera (fields : Dict Cell) (encrypt : Encrypt)
  | updateCamera (cid : Int) (fields : Dict Cell) (encrypt : Encrypt)
  | deleteCamera (cid : Int)
  | upsertSite (siteId name : String)
  /-- `fetch_desired` is answered. -/
  | fetch
  /-- The pass that the answer was for. -/
  | reconcile (starts : AppHost.Starts) (jitter : Int → ℚ) (clock : ℚ)
  /-- A call of the report, or a report that begins. -/
  | report (outcome : Report.Outcome) (now : ℚ)
  | pump (bus : Int → AppHost.Heard) (jitter : Int → ℚ) (clock : ℚ)
  | retention (allowed : Bool)
  | segmentClosed (cid : Int) (start end_ : ℚ) (path : String) (bytes : Nat)
  /-- SIGTERM: the pipelines are stopped and the loops cancelled; a last report follows. -/
  | stop
  /-- The process is gone, however it ended, and another one starts. -/
  | boot (epoch : Int) (startedAt : ℚ)

/-- What a loop does, unless it is cancelled. -/
def loops (node : NodeVms) (does : NodeVms) : NodeVms := if node.stopping then node else does

def reports (node : NodeVms) (outcome : Report.Outcome) (now : ℚ) : NodeVms :=
  match node.report with
  -- what was raised is logged, and the loop goes on
  | .ret _ | .raise _ => node.loops { node with report := reportOnce }
  | .call _ _ _ =>
    let (report, host, tables) := Proc.advance (handler outcome now) (node.report, node.host, node.tables)
    { node with report, host, tables }

def step (node : NodeVms) : Event → NodeVms
  | .createCamera fields encrypt => { node with tables := (PgStore.createCamera fields encrypt node.tables).2 }
  | .updateCamera cid fields encrypt => { node with tables := (PgStore.updateCamera cid fields encrypt node.tables).2 }
  | .deleteCamera cid => { node with tables := (PgStore.deleteCamera cid node.tables).2 }
  | .upsertSite siteId name => { node with tables := PgStore.upsertSite siteId name node.tables }
  | .fetch => node.loops { node with fetched := some (fetchDesired node.tables) }
  | .reconcile starts jitter clock =>
    match node.fetched with
    | none => node
    | some rows =>
      { node with host := (node.host.reconcileOnce (rows.map asDict) starts jitter clock).2, fetched := none }
  | .report outcome now => node.reports outcome now
  | .pump bus jitter clock => node.loops { node with host := node.host.pumpBuses bus jitter clock }
  | .retention allowed => node.loops { node with host := node.host.retained allowed }
  | .segmentClosed cid start end_ path bytes =>
    { node with host := node.host.onSegmentClosed cid start end_ path bytes }
  | .stop =>
    -- `stop_all`, and `report_once` for the last time
    { node with host := { node.host with pipelines := [] }, fetched := none, report := reportOnce, stopping := true }
  | .boot epoch startedAt => .new epoch startedAt node.tables

end NodeVms

end EdgeVms.Node
