import EdgeVms.Platform.Epoch

/-! # The subsystem contract

`Controller` writes configuration by read-modify-write; `Worker` claims a slot,
takes epochs and renews leases.  Both are generic in the subsystem.
-/

namespace EdgeVms.Platform

open Process Python

variable {M : Type}

structure Subsystem where
  name : String

namespace Subsystem

variable (sub : Subsystem)

def config (parts : List String) : Key := sub.name :: parts
def workers : Key := [sub.name, "workers"]
def slots : Key := [sub.name, "slots"]
def assignment (worker : String) : Key := [sub.name, "workers", worker]
def epochKey (unit : String) : Key := [sub.name, "epoch", unit]
def slotKey (worker : String) : Key := [sub.name, "slots", worker]

end Subsystem

/-- `sorted(names)` -/
def sorted (names : List String) : List String := names.insertionSort (· ≤ ·)

/-- `path.rsplit("/", 1)[1]` -/
def lastSegment (key : Key) : String := key.getLast?.getD ""

structure Assignment where
  worker : String
  units : List String
  rev : Int
  deriving DecidableEq

namespace Assignment

def toItems (a : Assignment) : Dict Value :=
  [("units", .str (.plain (join ',' a.units))), ("rev", .int a.rev)]

def fromItems (worker : String) (items : Dict Value) : Except Error Assignment :=
  if items.isEmpty then .ok ⟨worker, [], 0⟩
  else do
    let units ← (items.getD "units" (.str (.plain ""))).splitCommas
    let rev ← (items.getD "rev" (.int 0)).toInt
    return ⟨worker, units.filter (· ≠ ""), rev⟩

end Assignment

/-- A worker's name, as a row. -/
structure Slot where
  name : String
  holder : String
  until_ : Floating
  released : Bool
  gen : Int

namespace Slot

def toItems (slot : Slot) : Dict Value :=
  [("holder", .str (.plain slot.holder)), ("until", .float slot.until_),
    ("released", .str (.plain (if slot.released then "true" else "false"))), ("gen", .int slot.gen)]

def fromItems (name : String) (items : Dict Value) : Except Error Slot :=
  if items.isEmpty then .ok ⟨name, "", .finite 0, true, 0⟩
  else do
    let until_ ← (items.getD "until" (.int 0)).toFloat
    let gen ← (items.getD "gen" (.int 0)).toInt
    return ⟨name, (items.getD "holder" (.str (.plain ""))).text.string, until_,
      (items.getD "released" .none).equals "true", gen⟩

def lapsed (slot : Slot) (now : ℚ) : Bool :=
  !slot.released && slot.holder ≠ "" && slot.until_.lt (.finite now)

def claimable (slot : Slot) (now : ℚ) : Bool :=
  slot.released || slot.holder = "" || slot.until_.lt (.finite now)

end Slot

/-- The characters that `isdigit` accepts and `int` does not. -/
def otherDigits : List (Nat × Nat) :=
  [(0xb2, 0xb3), (0xb9, 0xb9), (0x1369, 0x1371), (0x19da, 0x19da), (0x2070, 0x2070), (0x2074, 0x2079),
    (0x2080, 0x2089), (0x2460, 0x2468), (0x2474, 0x247c), (0x2488, 0x2490), (0x24ea, 0x24ea),
    (0x24f5, 0x24fd), (0x24ff, 0x24ff), (0x2776, 0x277e), (0x2780, 0x2788), (0x278a, 0x2792),
    (0x10a40, 0x10a43), (0x10e60, 0x10e68), (0x11052, 0x1105a), (0x1f100, 0x1f10a)]

def isDigits (text : String) : Bool :=
  text ≠ "" && text.toList.all fun c =>
    (decimalZeros.any fun first => first ≤ c.toNat && c.toNat < first + 10) ||
      otherDigits.any fun range => range.1 ≤ c.toNat && c.toNat ≤ range.2

def slotNumber (name : String) : Except Error Int :=
  let tail := (split '-' name).getLast?.getD ""
  if isDigits tail then (Text.plain tail).toInt else .ok 0

/-- `sorted(names, key=key)` for a key that may raise: all keys first, then a stable sort. -/
def sortedBy {α : Type} (key : α → Except Error Int) (items : List α) : Except Error (List α) := do
  let keyed ← items.mapM fun item => do return (← key item, item)
  return (keyed.insertionSort fun left right => left.1 ≤ right.1).map Prod.snd

/-! ## The controller -/

namespace Controller

variable (sub : Subsystem)

/-- `put`, with a lost check-and-set told apart. -/
def attempt (path : Key) (new : Dict Value) (index : Nat) (lost : Program M (Dict Value)) :
    Program M (Dict Value) :=
  tryCatch
    (do
      let _ ← Program.put path new (some index)
      return new)
    fun error => match error with
      | .conflict .vmsplatform _ => lost
      | error => throw error

/-- The loop of `write`; `left` of its `retries` rounds are still to come. -/
def writeRounds (path : Key) (mutate : Dict Value → Program M (Option (Dict Value))) (retries : Nat) :
    Nat → Program M (Dict Value)
  | 0 => throw (.python (.runtimeError (path.path ++ ": " ++ toString retries ++ " conflicts")))
  | left + 1 => do
    let (items, index) ← Program.get path
    match ← mutate (rowValues items) with
    | none => return rowValues items
    | some new => attempt path new index (writeRounds path mutate retries left)

/-- Read-modify-write by check-and-set. -/
def write (path : Key) (mutate : Dict Value → Program M (Option (Dict Value))) : Program M (Dict Value) :=
  writeRounds path mutate 10 10

def fresh (now maxAge : ℚ) (beat : Heartbeat) : Bool :=
  match beat.ts with
  | .finite ts => now - ts ≤ maxAge
  | .infinite negative => !negative
  | .nan => false

def seenRounds (now maxAge : ℚ) : List String → Dict Heartbeat → Program M (Dict Heartbeat)
  | [], out => return out
  | name :: rest, out => do
    match ← Program.ask (.heartbeat sub.name name) >>= Proc.ofExcept with
    | some beat => seenRounds now maxAge rest (if fresh now maxAge beat then out.set beat.worker beat else out)
    | none => seenRounds now maxAge rest out

/-- Which workers exist: those that heartbeat recently. -/
def workersSeen (maxAge : ℚ) : Program M (Dict Heartbeat) := do
  let now ← Program.wall
  let names ← Program.ask (.heartbeats sub.name)
  seenRounds sub now maxAge names []

def assignment (worker : String) : Program M Assignment := do
  let (items, _) ← Program.get (sub.assignment worker)
  Program.value (Assignment.fromItems worker (rowValues items))

/-- `sorted(set(units) | {unit}, key=str)` -/
def withUnit (units : List String) (unit : String) : List String := sorted (units ++ [unit]).dedup

def assignAdd (worker unit : String) : Program M Assignment := do
  let written ← write (sub.assignment worker) fun items => do
    let a ← Program.value (Assignment.fromItems worker items)
    if unit ∈ a.units then return none
    return some (Assignment.toItems ⟨worker, withUnit a.units unit, a.rev + 1⟩)
  Program.value (Assignment.fromItems worker written)

def assignRemove (worker unit : String) : Program M Assignment := do
  let written ← write (sub.assignment worker) fun items => do
    let a ← Program.value (Assignment.fromItems worker items)
    if unit ∉ a.units then return none
    return some (Assignment.toItems ⟨worker, a.units.filter (· ≠ unit), a.rev + 1⟩)
  Program.value (Assignment.fromItems worker written)

def assignmentsRounds : List Key → Dict Assignment → Program M (Dict Assignment)
  | [], out => return out
  | path :: rest, out => do
    let a ← assignment sub (lastSegment path)
    assignmentsRounds rest (out.set (lastSegment path) a)

def assignments : Program M (Dict Assignment) := do
  assignmentsRounds sub (← Program.list sub.workers) []

def slotsRounds : List Key → Dict Slot → Program M (Dict Slot)
  | [], out => return out
  | path :: rest, out => do
    let (items, _) ← Program.get path
    let slot ← Program.value (Slot.fromItems (lastSegment path) (rowValues items))
    slotsRounds rest (out.set (lastSegment path) slot)

def slots : Program M (Dict Slot) := do
  slotsRounds (← Program.list sub.slots) []

def releasedRounds : List (String × Slot) → List String → Program M (List String)
  | [], out => return out
  | (name, slot) :: rest, out => do
    if slot.released then
      let a ← assignment sub name
      releasedRounds rest (if a.units.isEmpty then out else out ++ [name])
    else releasedRounds rest out

/-- Slots whose holder let go on purpose and that still have an assignment. -/
def releasedSlots : Program M (List String) := do
  let names ← releasedRounds sub (← slots sub) []
  Program.value (sortedBy slotNumber names)

/-- An operator's statement that a slot is gone for good. -/
def retire (worker : String) : Program M Slot := do
  let written ← write (sub.slotKey worker) fun items => do
    let slot ← Program.value (Slot.fromItems worker items)
    if slot.released then return none
    return some (Slot.toItems { slot with name := worker, released := true })
  Program.value (Slot.fromItems worker written)

end Controller

/-! ## The worker

A worker's calls take its memory and return it as they leave it: none of them
changes it and then raises. -/

structure Worker where
  name : Option String
  /-- The process; a name is a slot. -/
  instance_ : String
  slot : Option Slot
  slotTtl : ℚ
  leaseTtl : ℚ
  leaseMargin : ℚ
  epochs : Dict Int
  leases : Dict Lease

namespace Worker

/-- A process as it starts, with the default times. -/
def new (instance_ : String) : Worker := ⟨none, instance_, none, 45, 30, 5, [], []⟩

variable (sub : Subsystem)

/-- The name as it stands in a path. -/
def named (me : Worker) : String := me.name.getD "None"

def knownRounds : List String → Dict Slot → Program M (Dict Slot)
  | [], known => return known
  | name :: rest, known => do
    let (items, _) ← Program.get (sub.slotKey name)
    let slot ← Program.value (Slot.fromItems name (rowValues items))
    knownRounds rest (known.set name slot)

/-- The candidates of a round: the preferred slot; or else the lapsed slots, the longest lapsed first, then
the free ones by number, then an unused number. -/
def claimOrder (prefer : Option String) (names : List String) (known : Dict Slot) (now : ℚ) :
    Except Error (List String) :=
  match prefer with
  | some name => return [name]
  | none => do
    let lapsed := (known.filter fun entry => entry.2.lapsed now).insertionSort
      fun left right => !right.2.until_.lt left.2.until_
    let free ← sortedBy slotNumber
      ((known.filter fun entry => entry.2.claimable now && !entry.2.lapsed now).map Prod.fst)
    let numbers ← names.mapM slotNumber
    return lapsed.map Prod.fst ++ free ++ ["w-" ++ toString (numbers.foldl max 0 + 1)]

/-- The slot of `cand`, taken by this worker; `none` when somebody took it between the read and the
write. -/
def take (me : Worker) (cand : String) (cur : Slot) (now : ℚ) (index : Nat) : Program M (Option Worker) :=
  let new : Slot := ⟨cand, me.instance_, .finite (now + me.slotTtl), false, cur.gen + 1⟩
  tryCatch
    (do
      let _ ← Program.put (sub.slotKey cand) new.toItems (some index)
      return some { me with slot := some new, name := some cand })
    fun error => match error with
      | .conflict .vmsplatform _ => return none
      | error => throw error

def claimAmong (me : Worker) (prefer : Option String) (now : ℚ) : List String → Program M (Option Worker)
  | [] => return none
  | cand :: rest => do
    let (items, index) ← Program.get (sub.slotKey cand)
    let cur ← Program.value (Slot.fromItems cand (rowValues items))
    -- a preferred slot is taken regardless
    if prefer.isNone && !cur.claimable now then claimAmong me prefer now rest
    else
      match ← take sub me cand cur now index with
      | some me => return some me
      | none => claimAmong me prefer now rest

/-- The loop of `claim_slot`; `left` of its `retries` rounds are still to come. -/
def claimRounds (me : Worker) (prefer : Option String) (now : ℚ) (retries : Nat) : Nat → Program M Worker
  | 0 => throw (.python (.runtimeError
      (me.instance_ ++ ": could not claim a slot in " ++ toString retries ++ " tries")))
  | left + 1 => do
    let names := (← Program.list sub.slots).map fun key => Key.path (key.drop sub.slots.length)
    let known ← knownRounds sub names []
    let order ← Program.value (claimOrder prefer names known now)
    match ← claimAmong sub me prefer now order with
    | some me => return me
    | none => claimRounds me prefer now retries left

/-- Become somebody. -/
def claimSlot (me : Worker) (prefer : Option String) : Program M Worker := do
  let now ← Program.wall
  claimRounds sub me prefer now 50 50

/-- Still me? -/
def renewSlot (me : Worker) : Program M (Bool × Worker) := do
  if me.slot.isNone then return (true, me)
  let (items, index) ← Program.get (sub.slotKey me.named)
  let cur ← Program.value (Slot.fromItems me.named (rowValues items))
  if cur.holder ≠ me.instance_ then return (false, me)
  Proc.within .renewing do
    let now ← Program.wall
    let new : Slot := ⟨me.named, me.instance_, .finite (now + me.slotTtl), false, cur.gen⟩
    tryCatch
      (do
        let _ ← Program.put (sub.slotKey me.named) new.toItems (some index)
        return (true, { me with slot := some new }))
      fun error => match error with
        | .conflict .vmsplatform _ => return (false, me)
        | error => throw error

/-- The row of an orderly stop, unless somebody wrote in between. -/
def letGo (me : Worker) (cur : Slot) (index : Nat) : Program M Unit := do
  let now ← Program.wall
  let new : Slot := ⟨me.named, me.instance_, .finite now, true, cur.gen⟩
  tryCatch
    (do
      let _ ← Program.put (sub.slotKey me.named) new.toItems (some index)
      return ())
    fun error => match error with
      | .conflict .vmsplatform _ => return ()
      | error => throw error

/-- An orderly stop. -/
def releaseSlot (me : Worker) : Program M Worker := do
  if me.slot.isNone then return me
  let (items, index) ← Program.get (sub.slotKey me.named)
  let cur ← Program.value (Slot.fromItems me.named (rowValues items))
  let _ ← (if cur.holder = me.instance_ then letGo sub me cur index else return () : Program M Unit)
  return { me with slot := none }

def assignment (me : Worker) : Program M Assignment := do
  let (items, _) ← Program.get (sub.assignment me.named)
  Program.value (Assignment.fromItems me.named (rowValues items))

/-- A new epoch of the unit, and a lease on it. -/
def takeEpoch (me : Worker) (unit : String) : Program M (Int × Worker) := do
  let (epoch, _) ← nextEpoch (sub.epochKey unit)
  let now ← Proc.within (.starting unit epoch) Program.clock
  let lease : Lease := ⟨sub.epochKey unit, epoch, me.leaseTtl, me.leaseMargin, now, false, 0⟩
  return (epoch, { me with epochs := me.epochs.set unit epoch, leases := me.leases.set unit lease })

def release (me : Worker) (unit : String) : Worker :=
  { me with epochs := me.epochs.pop unit, leases := me.leases.pop unit }

def mayWrite (me : Worker) (unit : String) : Program M Bool :=
  match me.leases.get? unit with
  | none => return false
  | some lease => lease.mayWrite

def renewRounds : Dict Lease → Program M (List String × Dict Lease)
  | [] => return ([], [])
  | (unit, lease) :: rest => do
    let (renewed, lease) ← lease.renew
    let (lost, leases) ← renewRounds rest
    return (if renewed then lost else unit :: lost, (unit, lease) :: leases)

/-- The units whose lease was lost: fenced or expired. -/
def renewLeases (me : Worker) : Program M (List String × Worker) := do
  let (lost, leases) ← renewRounds me.leases
  return (lost, { me with leases := leases })

def conflicts (me : Worker) : Nat := (me.leases.map fun entry => entry.2.conflicts).sum

end Worker

/-- Processes that just started, over the store as it is first opened. -/
def workersWorld {ι : Type} (instances : ι → String) : World ι Worker :=
  ⟨Versioned.empty 1000, fun i => .new (instances i), fun _ => quietOutside, 0⟩

end EdgeVms.Platform
