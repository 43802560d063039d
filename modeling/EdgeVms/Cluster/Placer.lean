import EdgeVms.Cluster.Rehydrate
import EdgeVms.Process.Fallible
import EdgeVms.Python.Table
import Mathlib.Data.List.Sort

/-! # Placement onto Nodes

Where each camera lives: in memory, and row by row in Variables, under
`placement/<camera>`.  Numbers are rationals, and `double` is what a double makes
of one; a map is gone through in the order of its list.
-/

namespace EdgeVms.Cluster

open Process Python

/-- A set of labels; only its keys count for the camera that asks. -/
abbrev Labels := Dict Bool

def Labels.subsetOf (a b : Labels) : Bool := a.all fun entry => b.getD entry.1 false

structure PCamera where
  id : Int
  load : ℚ
  labels : Labels
  deriving DecidableEq

structure PNode where
  id : String
  capacity : ℚ
  labels : Labels
  deriving DecidableEq

/-- What Go reads of a key that is not there. -/
def PCamera.zero : PCamera := ⟨0, 0, []⟩

def PNode.zero : PNode := ⟨"", 0, []⟩

structure Placement where
  node : String
  reason : String
  rev : Int
  deriving DecidableEq

structure Move where
  camera : Int
  from_ : String
  to_ : String
  deriving DecidableEq

/-- How a call fares: done; refused before it did anything; or done and not acknowledged. -/
inductive Outcome where
  | done
  | failed
  | lost
  deriving DecidableEq

/-- The rows, and how the next calls fare; those after them are done. -/
structure Vars where
  table : Versioned String fun _ => Items
  calls : List Outcome

structure Placer where
  nodes : Dict PNode
  vars : Vars
  placed : Table Placement

namespace Vars

def call (vars : Vars) : Outcome := vars.calls.headD .done

def next (vars : Vars) : Vars := { vars with calls := vars.calls.tail }

/-- `Get` -/
def get (path : String) (vars : Vars) : Except Err (Option Items × Nat) × Vars :=
  match vars.call with
  | .done => (.ok (vars.table.read path, vars.table.version path), vars.next)
  | _ => (.error .failed, vars.next)

/-- `Put`; no `cas` is `NoCAS`. -/
def put (path : String) (items : Items) (cas : Option Nat) (vars : Vars) : Except Err Nat × Vars :=
  if vars.call = .failed then (.error .failed, vars.next)
  else if vars.table.Matches path cas then
    (if vars.call = .done then .ok (vars.table.index + 1) else .error .failed,
      { vars.next with table := vars.table.write path items })
  else (.error .conflict, vars.next)

/-- The paths of `List`, sorted. -/
def listed (pre : String) (vars : Vars) : List String :=
  (vars.table.keys.filter fun path => pre.toList <+: path.toList).insertionSort (· ≤ ·)

def list (pre : String) (vars : Vars) : Except Err (List String) × Vars :=
  match vars.call with
  | .done => (.ok (vars.listed pre), vars.next)
  | _ => (.error .failed, vars.next)

end Vars

/-- One decimal, halves to the even one. -/
def fixed1 (x : ℚ) : String :=
  let tenths := fixed (|x| * 10)
  let digits := if tenths.length < 2 then "0" ++ tenths else tenths
  (if x < 0 then "-" else "") ++ String.ofList (digits.toList.dropLast) ++ "." ++
    String.ofList (digits.toList.drop (digits.length - 1))

example : [fixed1 (5 / 2), fixed1 (-1 / 4), fixed1 0] = ["2.5", "-0.2", "0.0"] := by decide +kernel

/-- `%.0f` -/
def percent : Floating → String
  | .finite q => fixed q
  | .infinite negative => if negative then "-Inf" else "+Inf"
  | .nan => "NaN"

namespace Placer

abbrev Op (α : Type) := Operation Err Placer α

variable (double : ℚ → ℚ)

/-- A call of Variables. -/
def calling {α : Type} (call : Vars → Except Err α × Vars) : Op α :=
  .of fun p => ((call p.vars).1, { p with vars := (call p.vars).2 })

/-- Where the placement of a camera is stored. -/
def path (cam : Int) : String := "placement/" ++ toString cam

/-- The placement that a row says; a row without a Node says none. -/
def placementOf (items : Option Items) : Option Placement :=
  match items with
  | none => none
  | some items =>
    if items.getD "node" "" = "" then none
    else some ⟨items.getD "node" "", items.getD "reason" "", parseInt (items.getD "rev" "")⟩

/-- What comes after the first slash. -/
def afterSlash (path : String) : String := String.ofList ((path.toList.dropWhile (· ≠ '/')).drop 1)

def loadRows : List String → Op Unit
  | [] => return ()
  | path :: rest => do
    let (items, _) ← calling (Vars.get path)
    match placementOf items with
    | none => loadRows rest
    | some pl =>
      modify fun p => { p with placed := p.placed.set (parseInt (afterSlash path)) pl }
      loadRows rest

def loading : Op Unit := do
  let paths ← calling (Vars.list "placement/")
  loadRows paths

/-- `NewPlacer` -/
def newPlacer (nodes : Dict PNode) (vars : Vars) : Except Err Placer :=
  match loading.result ⟨nodes, vars, []⟩ with
  | (.ok _, p) => .ok p
  | (.error err, _) => .error err

def rowItems (pl : Placement) : Items := [("node", pl.node), ("reason", pl.reason), ("rev", toString pl.rev)]

def store (cam : Int) (pl : Placement) : Op Unit := do
  let (_, idx) ← calling (Vars.get (path cam))
  let _ ← calling (Vars.put (path cam) (rowItems pl) (some idx))
  modify fun p => { p with placed := p.placed.set cam pl }

def rev : Op Int := do
  let (items, _) ← calling (Vars.get "placement")
  let rev := parseInt ((items.getD []).getD "rev" "") + 1
  let _ ← calling (Vars.put "placement" [("rev", toString rev)] none)
  return rev

/-- Sorted. -/
def nodeIds (nodes : Dict PNode) : List String := (nodes.map Prod.fst).insertionSort (· ≤ ·)

/-- `p.Nodes[id]` -/
def nodeAt (nodes : Dict PNode) (id : String) : PNode := nodes.getD id .zero

/-- `cameras[c]` -/
def cameraAt (cameras : Table PCamera) (c : Int) : PCamera := (cameras.get? c).getD .zero

def loadOf (placed : Table Placement) (node : String) (cameras : Table PCamera) : ℚ :=
  placed.foldl (fun sum entry =>
    match cameras.get? entry.1 with
    | some cam => if entry.2.node = node then double (sum + cam.load) else sum
    | none => sum) 0

def eligible (nodes : Dict PNode) (cam : PCamera) : List PNode :=
  ((nodeIds nodes).map (nodeAt nodes)).filter fun n => cam.labels.subsetOf n.labels

/-- The eligible Node with the most free capacity, and how much that is. -/
def best (nodes : Dict PNode) (placed : Table Placement) (cam : PCamera) (cameras : Table PCamera) :
    Option (PNode × ℚ) :=
  (eligible nodes cam).foldl (fun best n =>
    let free := double (n.capacity - loadOf double placed n.id cameras)
    if free ≥ cam.load ∧ free > (best.map Prod.snd).getD 0 then some (n, free) else best) none

/-- Places one new camera.  `none` says that the system is full. -/
def place (cam : PCamera) (cameras : Table PCamera) : Op (Option Placement) := do
  let p ← get
  match p.placed.get? cam.id with
  | some pl => return some pl
  | none =>
    match best double p.nodes p.placed cam cameras with
    | none => return none
    | some (n, free) =>
      let rev ← rev
      let pl : Placement := ⟨n.id, "most free capacity (" ++ fixed1 free ++ ") among " ++
        toString (eligible p.nodes cam).length ++ " eligible", rev⟩
      store cam.id pl
      return some pl

def removedItems (rev : Int) : Items := [("node", ""), ("reason", "removed"), ("rev", toString rev)]

def remove (cam : Int) : Op Unit := do
  let p ← get
  if p.placed.has cam then
    let rev ← rev
    let (_, idx) ← calling (Vars.get (path cam))
    let _ ← calling (Vars.put (path cam) (removedItems rev) (some idx))
    modify fun p => { p with placed := p.placed.pop cam }

/-- Nothing moves. -/
def addNode (n : PNode) : Op Unit := modify fun p => { p with nodes := p.nodes.set n.id n }

/-- The cameras of a Node, sorted. -/
def orphans (placed : Table Placement) (node : String) : List Int :=
  ((placed.filter fun entry => entry.2.node = node).map Prod.fst).insertionSort (· ≤ ·)

/-- Places the orphans anew, one by one; those that found no home. -/
def rehome (cameras : Table PCamera) : List Int → Op (List Int)
  | [] => return []
  | c :: rest => do
    modify fun p => { p with placed := p.placed.pop c }
    let pl ← place double (cameraAt cameras c) cameras
    let homeless ← rehome cameras rest
    return if pl.isNone then c :: homeless else homeless

def retireNode (node : String) (cameras : Table PCamera) : Op (List Int) := do
  modify fun p => { p with nodes := p.nodes.pop node }
  let p ← get
  rehome double cameras (orphans p.placed node)

/-- `x / y` of doubles. -/
def quotient (x y : ℚ) : Floating :=
  if y ≠ 0 then .finite (double (x / y)) else if x = 0 then .nan else .infinite (x < 0)

/-- `x - y` of doubles. -/
def difference : Floating → Floating → Floating
  | .finite x, .finite y => .finite (double (x - y))
  | .nan, _ => .nan
  | _, .nan => .nan
  | .infinite negative, .finite _ => .infinite negative
  | .finite _, .infinite negative => .infinite !negative
  | .infinite left, .infinite right => if left = right then .nan else .infinite left

def times100 : Floating → Floating
  | .finite x => .finite (double (x * 100))
  | other => other

/-- How full a Node is. -/
def level (p : Placer) (cameras : Table PCamera) (id : String) : Floating :=
  quotient double (loadOf double p.placed id cameras) (nodeAt p.nodes id).capacity

/-- The fullest and the emptiest. -/
def extremes (level : String → Floating) (first : String) (ids : List String) : String × String :=
  ids.foldl (fun both id =>
    (if Floating.lt (level both.1) (level id) then id else both.1,
      if Floating.lt (level id) (level both.2) then id else both.2)) (first, first)

/-- The lightest camera of `hi` that may go to `lo`; negative when there is none. -/
def candidate (p : Placer) (cameras : Table PCamera) (hi lo : String) : Int :=
  p.placed.foldl (fun candidate entry =>
    match cameras.get? entry.1 with
    | none => candidate
    | some cam =>
      if entry.2.node ≠ hi || !cam.labels.subsetOf (nodeAt p.nodes lo).labels then candidate
      else
        let least := (cameraAt cameras candidate).load
        if candidate < 0 ∨ cam.load < least ∨ (cam.load = least ∧ entry.1 < candidate) then entry.1 else candidate) (-1)

/-- At most this many rounds, with the moves so far. -/
def rebalanceRounds (cameras : Table PCamera) (deadBand : ℚ) :
    Nat → List Move → Operation (List Move × Err) Placer (List Move)
  | 0, moves => return moves
  | left + 1, moves => do
    let p ← get
    match nodeIds p.nodes with
    | [] => return moves
    | first :: ids =>
      let (hi, lo) := extremes (level double p cameras) first (first :: ids)
      let spread := difference double (level double p cameras hi) (level double p cameras lo)
      if Floating.lt spread (.finite deadBand) then return moves
      else
        let c := candidate p cameras hi lo
        if c < 0 then return moves
        else if double (loadOf double p.placed lo cameras + (cameraAt cameras c).load) > (nodeAt p.nodes lo).capacity then
          return moves
        else
          let rev ← rev.withError fun err => (moves, err)
          (store c
            ⟨lo, "rebalance from " ++ hi ++ " (spread " ++ percent (times100 double spread) ++ "%)", rev⟩).withError
            fun err => (moves, err)
          rebalanceRounds cameras deadBand left (moves ++ [⟨c, hi, lo⟩])

def rebalance (cameras : Table PCamera) (budget : Nat) (deadBand : ℚ) :
    Operation (List Move × Err) Placer (List Move) :=
  rebalanceRounds double cameras deadBand budget []

def checkPlaced (p : Placer) (cameras : Table PCamera) (entry : Int × Placement) : Except String Unit :=
  match p.nodes.get? entry.2.node with
  | none => .error ("camera " ++ toString entry.1 ++ " placed on a Node that does not exist")
  | some n =>
    if (cameraAt cameras entry.1).labels.subsetOf n.labels then .ok ()
    else .error ("camera " ++ toString entry.1 ++ " violates its constraint")

def checkNode (p : Placer) (cameras : Table PCamera) (n : PNode) : Except String Unit :=
  if loadOf double p.placed n.id cameras > double (n.capacity + 1 / 10 ^ 9) then .error (n.id ++ " over capacity")
  else .ok ()

def checkInvariants (p : Placer) (cameras : Table PCamera) : Except String Unit := do
  p.placed.forM (checkPlaced p cameras)
  p.nodes.forM fun entry => checkNode double p cameras entry.2

/-! ## A placement service -/

/-- A call, and how the calls of Variables fare that it makes. -/
inductive Event where
  | place (cam : PCamera) (calls : List Outcome)
  | remove (cam : Int) (calls : List Outcome)
  | addNode (n : PNode)
  | retireNode (node : String) (calls : List Outcome)
  | rebalance (budget : Nat) (deadBand : ℚ) (calls : List Outcome)

/-- The next calls fare so. -/
def facing (p : Placer) (calls : List Outcome) : Placer := { p with vars := { p.vars with calls := calls } }

def step (cameras : Table PCamera) (p : Placer) : Event → Placer
  | .place cam calls => (place double cam cameras).after (p.facing calls)
  | .remove cam calls => (remove cam).after (p.facing calls)
  | .addNode n => (addNode n).after p
  | .retireNode node calls => (retireNode double node cameras).after (p.facing calls)
  | .rebalance budget deadBand calls => (rebalance double cameras budget deadBand).after (p.facing calls)

end Placer

end EdgeVms.Cluster
