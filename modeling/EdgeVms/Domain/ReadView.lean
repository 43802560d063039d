import EdgeVms.Domain.Federation
import EdgeVms.Process.Grouping

/-! # The read model of the domain

The last heartbeat of each Node, kept in memory across the passes, with the
clusters that the last pass did not reach.
-/

namespace EdgeVms.Domain

open Python EdgeVms.Cluster

structure Snapshot where
  node : String
  cluster : String
  ts : Floating
  epoch : Int
  server : String
  cameras : List Value
  revision : Int

/-- Of the heartbeat of a Node. -/
def Snapshot.ofHeartbeat (node cluster : String) : Value → Except Error Snapshot
  | .dict hb => do
    let ts ← (Dict.getD hb "ts" (.int 0)).toFloat
    let epoch ← (Dict.getD hb "epoch" (.int 0)).toInt
    let cameras ← (Dict.getD hb "cameras" (.list [])).toList
    let revision ← (Dict.getD hb "revision" (.int 0)).toInt
    return ⟨node, cluster, ts, epoch, (Dict.getD hb "server" (.str (.plain "?"))).text.string, cameras, revision⟩
  | _ => .error .attributeError

structure ReadView where
  lostAfter : ℚ
  /-- By Node. -/
  snapshots : Dict Snapshot
  /-- When each cluster's last successful pass was. -/
  clusterOk : Dict ℚ
  clusterDownSince : Dict ℚ
  passes : Nat

namespace ReadView

def new (lostAfter : ℚ) : ReadView := ⟨lostAfter, [], [], [], 0⟩

/-- The Nodes of one cluster; what was taken over before an exception stays. -/
def takeNodes (name : String) (objects : ObjectStore) : List String → ReadView → Except Raised Unit × ReadView
  | [], view => (.ok (), view)
  | node :: rest, view =>
    match objects (node ++ "/heartbeat") with
    | .error error => (.error error, view)
    | .ok none => takeNodes name objects rest view
    | .ok (some hb) =>
      match Snapshot.ofHeartbeat node name hb with
      | .error error => (.error (.store (.python error)), view)
      | .ok s => takeNodes name objects rest { view with snapshots := view.snapshots.set node s }

/-- The `try` of the loop. -/
def takeCluster (name : String) (c : Cluster) (view : ReadView) : Except Raised Unit × ReadView :=
  match NodeDirectory.scan c.vars with
  | .error error => (.error error, view)
  | .ok nodes => takeNodes name c.objects (nodes.map Prod.fst) view

/-- `dict.setdefault(key, value)` -/
def setDefault (times : Dict ℚ) (key : String) (value : ℚ) : Dict ℚ :=
  match times.get? key with
  | some _ => times
  | none => times.set key value

def refreshRounds (now : ℚ) : Dict Cluster → ReadView → Except Raised Unit × ReadView
  | [], view => (.ok (), { view with passes := view.passes + 1 })
  | (name, c) :: rest, view =>
    match takeCluster name c view with
    | (.ok (), view) =>
      refreshRounds now rest
        { view with clusterOk := view.clusterOk.set name now, clusterDownSince := view.clusterDownSince.pop name }
    | (.error .unreachable, view) =>
      refreshRounds now rest { view with clusterDownSince := setDefault view.clusterDownSince name now }
    -- no other exception is caught
    | (.error error, view) => (.error error, view)

def refresh (fed : Federation) (now : ℚ) (view : ReadView) : Except Raised Unit × ReadView :=
  refreshRounds now fed.clusters view

inductive NodeState where
  | unreachable
  | stale
  | live
  deriving DecidableEq

/-- The state of every row that comes from the snapshot. -/
def nodeState (view : ReadView) (now : ℚ) (s : Snapshot) : NodeState :=
  if (view.clusterDownSince.get? s.cluster).isSome then .unreachable
  -- `age = max(0.0, now - s.ts)`; an age of `nan` is not greater than anything
  else match s.ts with
    | .finite ts => if max 0 (now - ts) > view.lostAfter then .stale else .live
    | .infinite true => .stale
    | .infinite false | .nan => if 0 > view.lostAfter then .stale else .live

def complete (view : ReadView) : Bool := view.clusterDownSince.isEmpty

/-! ## Reads, from memory -/

/-- A camera as the console lists it. -/
structure Row where
  camera : Int
  name : Value
  site : Value
  node : String
  cluster : String
  server : String
  phase : Value
  conditions : Value
  revision : Int
  epoch : Int
  /-- Seconds since the snapshot that the row comes from. -/
  age : Floating
  nodeState : NodeState

/-- `max(0.0, now - s.ts)` -/
def age (now : ℚ) (s : Snapshot) : Floating :=
  match s.ts with
  | .finite ts => .finite (max 0 (now - ts))
  | .infinite true => .infinite false
  | .infinite false | .nan => .finite 0

def rowOf (view : ReadView) (now : ℚ) (s : Snapshot) : Value → Except Error Row
  | .dict cam => do
    let camera ← (← Dict.item cam "id").toInt
    let revision ← (Dict.getD cam "revision" (.int 0)).toInt
    return {
      camera
      name := Dict.getD cam "name" (.str (.plain ""))
      site := Dict.getD cam "site" (.str (.plain ""))
      node := s.node
      cluster := s.cluster
      server := s.server
      phase := Dict.getD cam "phase" (.str (.plain "?"))
      conditions := Dict.getD cam "conditions" (.dict [])
      revision
      epoch := s.epoch
      age := age now s
      nodeState := view.nodeState now s }
  | _ => .error .typeError

/-- `r.cluster, r.node, r.camera` of the first do not come after those of the second. -/
def Row.Before (first second : Row) : Prop :=
  first.cluster < second.cluster ∨ (first.cluster = second.cluster ∧
    (first.node < second.node ∨ (first.node = second.node ∧ first.camera ≤ second.camera)))

instance : DecidableRel Row.Before := fun first second =>
  inferInstanceAs (Decidable (first.cluster < second.cluster ∨ (first.cluster = second.cluster ∧
    (first.node < second.node ∨ (first.node = second.node ∧ first.camera ≤ second.camera)))))

def rows (view : ReadView) (now : ℚ) : Except Error (List Row) := do
  let out ← view.snapshots.mapM fun entry => entry.2.cameras.mapM (view.rowOf now entry.2)
  return out.flatten.insertionSort Row.Before

inductive Scope where
  | cluster
  | server
  | node
  deriving DecidableEq

structure Cause where
  scope : Scope
  name : String
  silentFor : Floating
  nodes : List String
  cameras : Nat

/-- `now - ts` -/
def since (now : ℚ) : Floating → Floating
  | .finite ts => .finite (now - ts)
  | .infinite negative => .infinite (!negative)
  | .nan => .nan

/-- `max(times)` -/
def latest : List Floating → Floating
  | [] => .nan
  | first :: rest => rest.foldl (fun best ts => if best.lt ts then ts else best) first

/-- `s.cluster not in cluster_down_since and now - s.ts > lost_after` -/
def isSilent (view : ReadView) (now : ℚ) (s : Snapshot) : Bool :=
  (view.clusterDownSince.get? s.cluster).isNone && (Floating.finite view.lostAfter).lt (since now s.ts)

def clusterCause (view : ReadView) (now : ℚ) (cl : String) (down : ℚ) : Cause :=
  let nodes := (view.snapshots.map Prod.snd).filter fun s => s.cluster = cl
  ⟨.cluster, cl, .finite (now - down), DomainDirectory.sorted (nodes.map (·.node)),
    (nodes.map fun s => s.cameras.length).sum⟩

/-- The causes of a group of silent Nodes on one server. -/
def groupCauses (view : ReadView) (now : ℚ) (cl server : String) (group : List Snapshot) : List Cause :=
  let allOnServer := (view.snapshots.map Prod.snd).filter fun s => s.cluster = cl ∧ s.server = server
  if group.length = allOnServer.length ∧ group.length > 1 then
    [⟨.server, cl ++ "/" ++ server, since now (latest (group.map (·.ts))),
      DomainDirectory.sorted (group.map (·.node)), (group.map fun s => s.cameras.length).sum⟩]
  else group.map fun s => ⟨.node, s.node, since now s.ts, [s.node], s.cameras.length⟩

/-- More cameras first, then by name. -/
def Cause.Before (first second : Cause) : Prop :=
  first.cameras > second.cameras ∨ (first.cameras = second.cameras ∧ first.name ≤ second.name)

instance : DecidableRel Cause.Before := fun first second =>
  inferInstanceAs (Decidable (first.cameras > second.cameras ∨
    (first.cameras = second.cameras ∧ first.name ≤ second.name)))

/-- Silence grouped by the largest failure domain that explains it. -/
def causes (view : ReadView) (now : ℚ) : List Cause :=
  let silent := (view.snapshots.map Prod.snd).filter (view.isSilent now)
  let byServer := Process.Grouping.groups (fun s => (s.cluster, s.server)) silent
  (view.clusterDownSince.map (fun (cl, down) => view.clusterCause now cl down) ++
    byServer.flatMap fun ((cl, server), group) => view.groupCauses now cl server group).insertionSort Cause.Before

end ReadView

end EdgeVms.Domain
