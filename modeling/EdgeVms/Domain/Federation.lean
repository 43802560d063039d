import EdgeVms.Cluster.Directory
import EdgeVms.Python.Value
import Mathlib.Data.List.Sort

/-! # A domain of clusters

Nothing replicates between the clusters, so the domain reads each of them and
says which ones it did not reach.
-/

namespace EdgeVms.Domain

open Python EdgeVms.Cluster

/-- The domain's handle on one region. -/
structure Cluster where
  name : String
  vars : Variables
  objects : ObjectStore

/-- The clusters, each under its name. -/
structure Federation where
  clusters : Dict Cluster
  distinct : (clusters.map Prod.fst).Nodup

namespace Federation

def empty : Federation := ⟨[], List.nodup_nil⟩

def add (fed : Federation) (c : Cluster) : Federation :=
  ⟨fed.clusters.set c.name c, Dict.nodup_keys_set fed.distinct c.name c⟩

/-- What the environment names: each cluster's Variables and object store.  The object stores know
no more of the domain's exception than the Variables do. -/
def fromEnv (entries : List (String × NomadVariables × (String → Except StoreError (Option Value)))) :
    Federation :=
  entries.foldl (fun fed (name, nomad, objects) =>
    fed.add ⟨name, nomad.asVariables, fun key => (objects key).mapError .store⟩) empty

end Federation

/-- What each Node of each cluster holds. -/
abbrev Scan := Dict (Dict Holding)

/-- Where a camera is, and how much of the domain that claim covers. -/
structure Answer where
  camera : Int
  node : Option String
  cluster : Option String
  searched : List String
  unreachable : List String

namespace Answer

def complete (ans : Answer) : Bool := ans.unreachable.isEmpty

def found (ans : Answer) : Bool := ans.node.isSome

def commas (names : List String) : String := String.intercalate ", " names

def sentence (ans : Answer) : String :=
  if ans.found then
    let s := "camera " ++ toString ans.camera ++ " is on " ++ ans.node.getD "None" ++ " in " ++ ans.cluster.getD "None"
    if ans.complete then s else s ++ " (and " ++ commas ans.unreachable ++ " could not be asked)"
  else if ans.complete then
    "camera " ++ toString ans.camera ++ " is on no Node in the domain (" ++ toString ans.searched.length ++
      " clusters searched)"
  else
    "camera " ++ toString ans.camera ++ " was not found in the " ++ toString ans.searched.length ++
      " cluster(s) I could reach; " ++ commas ans.unreachable ++ " unreachable — not 'not anywhere'"

end Answer

namespace DomainDirectory

def scanRounds : Dict Cluster → Scan → List String → Except Raised (Scan × List String)
  | [], out, down => .ok (out, down)
  | (name, c) :: rest, out, down =>
    match NodeDirectory.scan c.vars with
    | .ok nodes => scanRounds rest (out ++ [(name, nodes)]) down
    | .error .unreachable => scanRounds rest out (down ++ [name])
    -- no other exception is caught
    | .error error => .error error

/-- What each cluster holds, and the clusters that did not answer. -/
def scan (fed : Federation) : Except Raised (Scan × List String) := scanRounds fed.clusters [] []

/-- Cluster and Node of every claim to the camera. -/
def hits (camera : Int) (scan : Scan) : List (String × String) :=
  scan.flatMap fun (cl, nodes) => (nodes.filter fun (_, h) => camera ∈ h.cameras).map fun (node, _) => (cl, node)

def sorted (names : List String) : List String := names.insertionSort (· ≤ ·)

def claimed (hits : List (String × String)) : String :=
  "[" ++ String.intercalate ", " (hits.map fun (cl, node) => "(" ++ quoted cl ++ ", " ++ quoted node ++ ")") ++ "]"

def where_ (fed : Federation) (camera : Int) : Except Raised Answer := do
  let (scan, down) ← scan fed
  match hits camera scan with
  | [] => return ⟨camera, none, none, sorted (scan.map Prod.fst), sorted down⟩
  | [(cl, node)] => return ⟨camera, some node, some cl, sorted (scan.map Prod.fst), sorted down⟩
  | hits => throw (.store (.python (.runtimeError ("camera " ++ toString camera ++ " claimed by " ++ claimed hits ++
      ": a placement or fencing failure, not a tie"))))

end DomainDirectory

/-! ## The federation over time -/

/-- A `Cluster` object for as long as it lives: its name, and the region that its stores ask. -/
structure Handle (Region : Type) where
  name : String
  region : Region
  deriving DecidableEq

/-- How the regions answer at one moment. -/
abbrev Moment (Region : Type) := Region → Variables × ObjectStore

/-- The clusters of a federation, or of a directory, as objects. -/
structure Members (Region : Type) where
  clusters : Dict (Handle Region)
  distinct : (clusters.map Prod.fst).Nodup

namespace Members

variable {Region : Type}

def add (fed : Members Region) (c : Handle Region) : Members Region :=
  ⟨fed.clusters.set c.name c, Dict.nodup_keys_set fed.distinct c.name c⟩

/-- The clusters as a pass over them meets them. -/
def now (members : Members Region) (moment : Moment Region) : Federation where
  clusters := members.clusters.mapValues fun c => ⟨c.name, (moment c.region).1, (moment c.region).2⟩
  distinct := by simpa [Dict.mapValues, Function.comp_def] using members.distinct

end Members

namespace DomainDirectory

variable {Region : Type}

/-- A directory of the domain: the federation it refers to, and `_dirs`. -/
structure Built (Region : Type) where
  fed : Members Region
  dirs : Members Region

/-- `__init__`: one directory for each cluster that the federation has now. -/
def init (fed : Members Region) : Built Region := ⟨fed, fed⟩

inductive Event (Region : Type) where
  | add (c : Handle Region)
  /-- A new directory of the same federation takes the place of the old one. -/
  | init
  | where_

def Built.step (directory : Built Region) : Event Region → Built Region
  | .add c => { directory with fed := directory.fed.add c }
  | .init => DomainDirectory.init directory.fed
  -- every scan is forced, so what a query leaves in the caches is never read
  | .where_ => directory

/-- `where` asks the directories, and not the federation. -/
def Built.where_ (directory : Built Region) (moment : Moment Region) (camera : Int) : Except Raised Answer :=
  DomainDirectory.where_ (directory.dirs.now moment) camera

end DomainDirectory

end EdgeVms.Domain
