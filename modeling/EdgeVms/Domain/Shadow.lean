import EdgeVms.Domain.Federation
import EdgeVms.Python.Table

/-! # Shadow mode

The domain that writes nothing: what the directory says should run, against what the
Nodes report that they run.
-/

namespace EdgeVms.Domain

open Python

/-- Which cameras a Node runs, under which epoch, at which revision of the directory. -/
structure NodeReport where
  node : String
  epoch : Int
  cameras : List Int
  observedRevision : Int

inductive FindingKind where
  | lagging
  | stalled
  | orphaned
  | unmanaged
  | conflict
  | staleEpoch
  deriving DecidableEq

namespace FindingKind

def name : FindingKind → String
  | lagging => "lagging"
  | stalled => "stalled"
  | orphaned => "orphaned"
  | unmanaged => "unmanaged"
  | conflict => "conflict"
  | staleEpoch => "stale_epoch"

def isFault : FindingKind → Bool
  | stalled | orphaned | conflict | staleEpoch => true
  | lagging | unmanaged => false

end FindingKind

structure Finding where
  kind : FindingKind
  camera : Option Int
  node : Option String
  detail : String
  deriving DecidableEq

structure DivergenceReport where
  findings : List Finding
  revision : Int

namespace DivergenceReport

def count (rep : DivergenceReport) (kind : FindingKind) : Nat := (rep.findings.filter (·.kind = kind)).length

def unmanaged (rep : DivergenceReport) : Nat := rep.count .unmanaged

def faults (rep : DivergenceReport) : List Finding := rep.findings.filter (·.kind.isFault)

end DivergenceReport

/-- The text of a list of strings. -/
def listed (names : List String) : String := Value.repr (.list (names.map fun name => .str (.plain name)))

structure Shadow where
  grace : ℚ
  /-- The last observed revision of each Node, and since when. -/
  progress : Dict (Int × ℚ)

namespace Shadow

def new (grace : ℚ) : Shadow := ⟨grace, []⟩

/-- What the loop over the reports has found. -/
structure Pass where
  findings : List Finding
  /-- The Nodes that claim each camera. -/
  claims : Table (List String)
  progress : Dict (Int × ℚ)

/-- `claims.setdefault(c, []).append(node)` -/
def claim (node : String) (claims : Table (List String)) (c : Int) : Table (List String) :=
  claims.set c ((claims.get? c).getD [] ++ [node])

/-- Since when the Node has been at its revision. -/
def progressed (now : ℚ) (r : NodeReport) (progress : Dict (Int × ℚ)) : ℚ × Dict (Int × ℚ) :=
  match progress.get? r.node with
  | some (last, since) =>
    if last ≠ r.observedRevision then (now, progress.set r.node (r.observedRevision, now)) else (since, progress)
  | none => (now, progress.set r.node (r.observedRevision, now))

section Compare

variable (grace : ℚ) (placed : Table String) (epochs : Dict Int) (revision : Int) (now : ℚ)

/-- How far the Node is behind the directory, and for how long it has not moved. -/
def behindFinding (since : ℚ) (r : NodeReport) : Option Finding :=
  let behind := revision - r.observedRevision
  if behind > 0 then
    let age := now - since
    some ⟨if age > grace then .stalled else .lagging, none, some r.node,
      "behind by " ++ toString behind ++ " revision(s) for " ++ fixed age ++ "s"⟩
  else none

/-- One round of the loop over the reports. -/
def report (pass : Pass) (r : NodeReport) : Pass :=
  let current := epochs.getD r.node r.epoch
  if current ≠ r.epoch then
    -- a fenced writer's claims count for nothing
    { pass with
      findings := pass.findings ++ [⟨.staleEpoch, none, some r.node,
        "reports under epoch " ++ toString r.epoch ++ ", current is " ++ toString current⟩] }
  else
    let moved := progressed now r pass.progress
    { findings := pass.findings ++ (behindFinding grace revision now moved.1 r).toList
      claims := r.cameras.foldl (claim r.node) pass.claims
      progress := moved.2 }

def claimFinding (cam : Int) : List String → Option Finding
  -- a camera is in `claims` because of a claim
  | [] => none
  | [node] =>
    match placed.get? cam with
    | none => some ⟨.unmanaged, some cam, some node, "running, never placed"⟩
    | some there =>
      if there ≠ node then some ⟨.conflict, some cam, some node, "placed on " ++ there ++ ", running on " ++ node⟩
      else none
  | nodes => some ⟨.conflict, some cam, none, "claimed by " ++ listed (DomainDirectory.sorted nodes)⟩

def orphanFinding (claims : Table (List String)) (cam : Int) (node : String) : Option Finding :=
  if claims.has cam then none else some ⟨.orphaned, some cam, some node, "placed, and no Node claims it"⟩

def compare (shadow : Shadow) (reports : List NodeReport) : DivergenceReport × Shadow :=
  let pass := reports.foldl (report shadow.grace epochs revision now) ⟨[], [], shadow.progress⟩
  (⟨pass.findings ++ pass.claims.filterMap (fun (cam, nodes) => claimFinding placed cam nodes) ++
      placed.filterMap (fun (cam, node) => orphanFinding pass.claims cam node), revision⟩,
    { shadow with progress := pass.progress })

end Compare

end Shadow

/-- The written criterion for switching the domain into write mode. -/
def exitCriterion (rep : DivergenceReport) (consecutiveClean required : Int) : Bool × String :=
  if rep.unmanaged ≠ 0 then
    (false, "unmanaged=" ++ toString rep.unmanaged ++ ": the model does not describe everything that runs")
  else if !rep.faults.isEmpty then
    (false, toString rep.faults.length ++ " fault(s) outstanding: " ++
      listed (DomainDirectory.sorted (rep.faults.map (·.kind.name)).dedup))
  else if consecutiveClean < required then
    (false, toString consecutiveClean ++ "/" ++ toString required ++ " consecutive clean reports")
  else (true, "unmanaged == 0, no faults, stable across reports: the domain may write")

end EdgeVms.Domain
