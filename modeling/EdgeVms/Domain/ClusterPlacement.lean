import EdgeVms.Cluster.Placer
import EdgeVms.Domain.Federation
import EdgeVms.Platform.Variables

/-! # Placement onto clusters

Which cluster a camera belongs to: one that reaches its network, chosen once and
stored by check-and-set.
-/

namespace EdgeVms.Domain

open Process Python

open Platform (Exn View stored)

structure CameraSite where
  camera : Int
  network : String

/-- A cluster of the federation, and the networks that it can see. -/
structure ReachingCluster where
  name : String
  reaches : List String

structure ClusterPlacement where
  cluster : String
  reason : String
  at_ : Floating
  rev : Int
  deriving DecidableEq

/-! ## The variables -/

abbrev PlacementRows := Versioned String fun _ => Platform.Items

inductive PlacementRequest where
  | get (path : String)
  | put (path : String) (items : Dict Value) (cas : Nat)

@[reducible] def PlacementRequest.Answer : PlacementRequest → Type
  | .get _ => Option Platform.Items × Nat
  | .put _ _ _ => Except Exn Nat

abbrev placementInterface : Interface := ⟨PlacementRequest, PlacementRequest.Answer⟩

abbrev PlacementProgram (α : Type) := Proc placementInterface Unit Exn α

/-- `FakeVariables`, as one writer sees them. -/
def placementHandler (view : View) : Handler placementInterface PlacementRows
  | .get path, rows => ((rows.read path, rows.version path), rows)
  | .put path items cas, rows =>
    match view.forbids path with
    | some message => (.error (.forbidden .cluster message), rows)
    | none =>
      if cas = rows.version path then (.ok (rows.index + 1), rows.write path (stored items))
      else
        (.error (.conflict .cluster ("cas=" ++ toString cas ++ " but ModifyIndex=" ++ toString (rows.version path))),
          rows)

/-! ## The placer -/

/-- The first of the greatest. -/
def maxBy {α : Type} (key : α → Floating) : List α → Option α
  | [] => none
  | first :: rest => some (rest.foldl (fun best c => if (key best).lt (key c) then c else best) first)

/-- What a call of `place` goes by: the placer's opinions, its clock at each try, and how deep it may recurse. -/
structure PlaceCall where
  headroom : String → Floating
  unreachable : List String
  clock : Nat → Floating
  depth : Nat

namespace ClusterPlacer

def ask (request : PlacementRequest) : PlacementProgram request.Answer :=
  Proc.perform (I := placementInterface) () request

def path (camera : Int) : String := "domain/placement/" ++ toString camera

def revPath : String := "domain/placement"

/-- What a row says; a row without a cluster says nothing. -/
def placementOf (items : Option Platform.Items) : Except Error (Option ClusterPlacement) :=
  match items with
  | none => .ok none
  | some items =>
    if (items.getD "cluster" "").string = "" then .ok none
    else do
      let cluster ← items.item "cluster"
      let reason ← items.item "reason"
      let at_ ← (← items.item "at").toFloat
      let rev ← (← items.item "rev").toInt
      return some ⟨cluster.string, reason.string, at_, rev⟩

def raising {α : Type} (result : Except Error α) : PlacementProgram α := Proc.ofExcept (result.mapError .python)

def current (camera : Int) : PlacementProgram (Option ClusterPlacement) := do
  let (items, _) ← ask (.get (path camera))
  raising (placementOf items)

def candidates (clusters : List ReachingCluster) (site : CameraSite) (unreachable : List String) :
    List ReachingCluster :=
  clusters.filter fun c => site.network ∈ c.reaches ∧ c.name ∉ unreachable

/-- The number after the one that is stored. -/
def nextRev (items : Option Platform.Items) : Except Error Int :=
  match items with
  | none | some [] => .ok 1
  | some items => do return (← (← items.item "rev").toInt) + 1

/-- `_rev` calls itself on a conflict. -/
def rev : Nat → PlacementProgram Int
  | 0 => throw (.python (.runtimeError "maximum recursion depth exceeded"))
  | depth + 1 => do
    let (items, idx) ← ask (.get revPath)
    let number ← raising (nextRev items)
    match ← ask (.put revPath [("rev", .int number)] idx) with
    | .ok _ => return number
    | .error (.conflict .cluster _) => rev depth
    | .error error => throw error

def storeRounds (call : PlaceCall) (camera : Int) (cluster reason : String) (retries : Nat) :
    Nat → PlacementProgram ClusterPlacement
  | 0 => throw (.python (.runtimeError
      ("could not store placement for camera " ++ toString camera ++ " after " ++ toString retries ++ " conflicts")))
  | left + 1 => do
    let (items, idx) ← ask (.get (path camera))
    match ← raising (placementOf items) with
    | some pl => return pl
    | none =>
      let number ← rev call.depth
      let pl : ClusterPlacement := ⟨cluster, reason, call.clock left, number⟩
      match ← ask (.put (path camera) [("cluster", .str cluster), ("reason", .str reason), ("at", .float pl.at_),
        ("rev", .int number)] idx) with
      | .ok _ => return pl
      | .error (.conflict .cluster _) => storeRounds call camera cluster reason retries left
      | .error error => throw error

def fixed1 : Floating → String
  | .finite q => Cluster.fixed1 q
  | other => other.text

def refusal (clusters : List ReachingCluster) (site : CameraSite) : String :=
  let seen := DomainDirectory.sorted ((clusters.filter fun c => site.network ∈ c.reaches).map ReachingCluster.name)
  if seen.isEmpty then
    "camera " ++ toString site.camera ++ ": no cluster in the domain reaches " ++ site.network
  else
    "camera " ++ toString site.camera ++ ": the only cluster(s) reaching " ++ site.network ++ " (" ++
      Answer.commas seen ++ ") are unreachable; not placing elsewhere — nothing else can see it"

def place (clusters : List ReachingCluster) (site : CameraSite) (call : PlaceCall) :
    PlacementProgram ClusterPlacement := do
  match ← current site.camera with
  | some pl => return pl
  | none =>
    let cands := candidates clusters site call.unreachable
    match maxBy (fun c => call.headroom c.name) (cands.insertionSort fun a b => a.name ≤ b.name) with
    | none => throw (.refused (refusal clusters site))
    | some best =>
      let why := if cands.length = 1 then "only cluster reaching " ++ site.network
        else "most headroom (" ++ fixed1 (call.headroom best.name) ++ ") among " ++ toString cands.length ++
          " reaching " ++ site.network
      storeRounds call site.camera best.name why 5 5

end ClusterPlacer

end EdgeVms.Domain
