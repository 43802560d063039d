import EdgeVms.Python.Table
import Mathlib.Data.List.DropRight

/-! # The live gateway

A node has a tee for each of its cameras; the gateway subscribes to a tee once, and
fans its frames out to the viewers.  All queues are bounded and lose their oldest
frame when they are full.
-/

namespace EdgeVms.Domain

open Python

variable {F : Type}

/-- A `deque` of a bounded length. -/
structure LeakyQueue (F : Type) where
  maxsize : Nat
  q : List F
  dropped : Nat

namespace LeakyQueue

def new (maxsize : Nat) : LeakyQueue F := ⟨maxsize, [], 0⟩

def push (frame : F) (queue : LeakyQueue F) : LeakyQueue F :=
  { queue with
    q := (queue.q ++ [frame]).rtake queue.maxsize
    dropped := if queue.q.length = queue.maxsize then queue.dropped + 1 else queue.dropped }

/-- What is left of it by `drain`, which returns its frames. -/
def drained (queue : LeakyQueue F) : LeakyQueue F := { queue with q := [] }

end LeakyQueue

structure LiveTee (F : Type) where
  subscribers : Dict (LeakyQueue F)
  frames : Nat

namespace LiveTee

def new : LiveTee F := ⟨[], 0⟩

/-- `subscribers.setdefault(who, LeakyQueue(maxsize))` -/
def subscribe (who : String) (maxsize : Nat) (tee : LiveTee F) : LiveTee F :=
  match tee.subscribers.get? who with
  | some _ => tee
  | none => { tee with subscribers := tee.subscribers.set who (.new maxsize) }

def unsubscribe (who : String) (tee : LiveTee F) : LiveTee F :=
  { tee with subscribers := tee.subscribers.pop who }

def push (frame : F) (tee : LiveTee F) : LiveTee F :=
  { frames := tee.frames + 1, subscribers := tee.subscribers.mapValues (·.push frame) }

end LiveTee

inductive GatewayError where
  | keyError (message : String)
  | forbidden (token : String)
  deriving DecidableEq

/-- The camera's frames come in through the queue that the gateway has at the tee of `node`: the
object that `open` returned. -/
structure Upstream (F : Type) where
  node : String
  viewers : Dict (LeakyQueue F)

structure Gateway (F : Type) where
  name : String
  upstreams : Table (Upstream F)

/-- What the directory and the nodes answer during one call. -/
structure Directory where
  where_ : Int → Option String
  authorise : String → String → Int → Except GatewayError String

/-- The gateway, and the tees behind the live endpoint of each node. -/
structure Relay (F : Type) where
  gateway : Gateway F
  endpoint : String → Table (LiveTee F)

namespace Relay

def tee? (relay : Relay F) (node : String) (camera : Int) : Option (LiveTee F) := (relay.endpoint node).get? camera

def setTee (relay : Relay F) (node : String) (camera : Int) (tee : LiveTee F) : Relay F :=
  { relay with endpoint := Function.update relay.endpoint node ((relay.endpoint node).set camera tee) }

def setUpstream (relay : Relay F) (camera : Int) (up : Upstream F) : Relay F :=
  { relay with gateway := { relay.gateway with upstreams := relay.gateway.upstreams.set camera up } }

def popUpstream (relay : Relay F) (camera : Int) : Relay F :=
  { relay with gateway := { relay.gateway with upstreams := relay.gateway.upstreams.pop camera } }

def upstream? (relay : Relay F) (camera : Int) : Option (Upstream F) := relay.gateway.upstreams.get? camera

/-- `endpoint(node).open(camera, token, who=self.name)` -/
def open_ (directory : Directory) (node : String) (camera : Int) (token : String) (relay : Relay F) :
    Except GatewayError (Relay F) := do
  let _ ← directory.authorise node token camera
  match relay.tee? node camera with
  | none => throw (.keyError ("camera " ++ toString camera ++ " is not on " ++ node))
  | some tee => return relay.setTee node camera (tee.subscribe relay.gateway.name 30)

/-- The upstream that a viewer joins: one subscription for each camera, but every viewer is checked. -/
def joined (directory : Directory) (node : String) (camera : Int) (token : String) (relay : Relay F) :
    Except GatewayError (Upstream F × Relay F) := do
  match (relay.upstream? camera).filter (·.node = node) with
  | none => return (⟨node, []⟩, ← relay.open_ directory node camera token)
  | some up =>
    let _ ← directory.authorise node token camera
    return (up, relay)

def watch (directory : Directory) (camera : Int) (token viewer : String) (maxsize : Nat) (relay : Relay F) :
    Except GatewayError (Relay F) := do
  match directory.where_ camera with
  | none => throw (.keyError ("camera " ++ toString camera ++ " is on no Node this domain can reach"))
  | some node =>
    let (up, relay) ← relay.joined directory node camera token
    return relay.setUpstream camera { up with viewers := up.viewers.set viewer (.new maxsize) }

/-- The last one out ends the subscription. -/
def leave (camera : Int) (viewer : String) (relay : Relay F) : Except GatewayError Unit × Relay F :=
  match relay.upstream? camera with
  | none => (.ok (), relay)
  | some up =>
    match up.viewers.get? viewer with
    | none => (.ok (), relay)
    | some _ =>
      let left := { up with viewers := up.viewers.pop viewer }
      if left.viewers.isEmpty then
        match relay.tee? up.node camera with
        | none => (.error (.keyError (toString camera)), relay.setUpstream camera left)
        | some tee =>
          (.ok (), (relay.setTee up.node camera (tee.unsubscribe relay.gateway.name)).popUpstream camera)
      else (.ok (), relay.setUpstream camera left)

/-- One round of `pump`: the frames of a camera go to each of its viewers. -/
def pumpCamera (relay : Relay F) (camera : Int) : Relay F :=
  match relay.upstream? camera with
  | none => relay
  | some up =>
    match relay.tee? up.node camera with
    | none => relay
    | some tee =>
      match tee.subscribers.get? relay.gateway.name with
      | none => relay
      | some queue =>
        let tee := { tee with subscribers := tee.subscribers.set relay.gateway.name queue.drained }
        let viewers := up.viewers.mapValues fun vq => queue.q.foldl (fun vq frame => vq.push frame) vq
        (relay.setTee up.node camera tee).setUpstream camera { up with viewers }

def pump (relay : Relay F) : Relay F := relay.gateway.upstreams.keys.foldl pumpCamera relay

/-- The directory says where the camera is now; the viewers go along. -/
def reconnect (directory : Directory) (camera : Int) (token : String) (relay : Relay F) :
    Except GatewayError (Option String × Relay F) := do
  let node := directory.where_ camera
  match (relay.upstream? camera).filter fun up => some up.node ≠ node with
  | none => return (node, relay)
  | some up =>
    match node with
    | none => throw (.keyError "None")
    | some to_ =>
      let relay ← relay.open_ directory to_ camera token
      return (node, relay.setUpstream camera ⟨to_, up.viewers⟩)

/-- The pipeline of a node hands an access unit to its tee. -/
def push (node : String) (camera : Int) (frame : F) (relay : Relay F) : Relay F :=
  match relay.tee? node camera with
  | none => relay
  | some tee => relay.setTee node camera (tee.push frame)

/-- A viewer drains its queue. -/
def drain (camera : Int) (viewer : String) (relay : Relay F) : Relay F :=
  match relay.upstream? camera with
  | none => relay
  | some up =>
    match up.viewers.get? viewer with
    | none => relay
    | some vq => relay.setUpstream camera { up with viewers := up.viewers.set viewer vq.drained }

end Relay

end EdgeVms.Domain
