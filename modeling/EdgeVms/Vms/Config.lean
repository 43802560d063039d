import EdgeVms.Python.Value

/-! # The VMS's camera rows, as items of the config store -/

namespace EdgeVms.Vms

open Python

def operatorFields : List String :=
  ["name", "source", "enabled", "retention_days", "events_retention_days", "priority", "labels"]

def forbiddenFields : List String :=
  ["worker", "placement", "epoch", "revision", "observed_revision", "phase", "id"]

/-- Stored items as a camera row. -/
def row (items : Dict Value) : Except Error (Dict Value) := do
  let id ← (← Dict.item items "id").toInt
  let retention ← (items.getD "retention_days" (.int 30)).toInt
  let eventsRetention ← (items.getD "events_retention_days" (.int 365)).toInt
  let priority ← (items.getD "priority" (.int 100)).toInt
  let revision ← (items.getD "revision" (.int 1)).toInt
  let labels ← (items.getD "labels" (.str (.plain ""))).splitCommas
  return [("id", .int id), ("name", items.getD "name" (.str (.plain ""))),
    ("source", items.getD "source" (.str (.plain ""))),
    ("enabled", .bool ((items.getD "enabled" (.str (.plain "true"))).equals "true")),
    ("retention_days", .int retention), ("events_retention_days", .int eventsRetention),
    ("priority", .int priority), ("revision", .int revision),
    ("labels", .list ((labels.filter (· ≠ "")).map fun label => .str (.plain label)))]

/-- What is joined into the `labels` text of a row. -/
def labelParts (labels : Value) : List Value :=
  match labels with
  | .list labels => labels
  | other => (split ',' other.text.string).map fun label => .str (.plain label)

/-- A camera row as items. -/
def items (row : Dict Value) : Except Error (Dict Value) := do
  let id ← Dict.item row "id"
  let name ← Dict.item row "name"
  let source ← Dict.item row "source"
  let enabled ← Dict.item row "enabled"
  let retention ← Dict.item row "retention_days"
  let revision ← Dict.item row "revision"
  let labels ← Value.joinCommas (labelParts (row.getD "labels" (.list [])))
  return [("id", id), ("name", name), ("source", source),
    ("enabled", .str (.plain (if enabled.truthy then "true" else "false"))),
    ("retention_days", retention), ("events_retention_days", row.getD "events_retention_days" (.int 365)),
    ("priority", row.getD "priority" (.int 100)), ("revision", revision), ("labels", .str (.plain labels))]

end EdgeVms.Vms
