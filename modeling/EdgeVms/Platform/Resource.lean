import EdgeVms.Platform.EventIndex

/-! # The resource job

One job per server: it retains the buckets of all subsystems by their days, leaves copies
of the closed ones with the next live resources, and pulls them home to an empty disk.
-/

namespace EdgeVms.Platform

open Process Python

/-- The content of a file. -/
abbrev Bytes := List UInt8

/-- Files, by their path below a directory. -/
abbrev Tree := Versioned String fun _ => Bytes

namespace Resource

inductive Fault where
  | unreachable
  | fileNotFound
  /-- `urllib.error.HTTPError` -/
  | status (code : Nat)
  | python (error : Error)
  deriving DecidableEq

inductive Request where
  | wall
  /-- A row of the store. -/
  | row (key : Key)
  | resources
  | units
  | buckets (subsystem unit : String)
  | read (path : String)
  | exists_ (path : String)
  | remove (path : String)
  /-- Written beside, then renamed: it appears whole. -/
  | place (path : String) (bytes : Bytes)
  | mirrored (url server : String)
  | put (url server path : String) (bytes : Bytes)
  /-- `PeerClient.get`: a copy that a peer holds. -/
  | fetch (url server path : String)

@[reducible] def Request.Answer : Request → Type
  | .wall => ℚ
  | .row _ => Except Fault (Option Items)
  | .resources => Except Fault (Dict ResourceBeat)
  | .units => Dict (List String)
  | .buckets _ _ | .mirrored _ _ => Except Fault (List Bucket)
  | .read _ | .fetch _ _ _ => Except Fault Bytes
  | .exists_ _ => Bool
  | .remove _ | .put _ _ _ _ => Except Fault Unit
  | .place _ _ => Unit

abbrev interface : Interface := ⟨Request, Request.Answer⟩

inductive Stage where
  | idle
  /-- With the bytes of a bucket in hand, for a peer. -/
  | sending (path : String)
  deriving DecidableEq

abbrev Program (α : Type) := Proc interface Stage Fault α

def ask (request : Request) : Program request.Answer := Proc.perform (I := interface) .idle request

def send (path : String) (request : Request) : Program request.Answer :=
  Proc.perform (I := interface) (.sending path) request

def value {α : Type} : Except Error α → Program α
  | .ok value => .ret value
  | .error error => .raise (.python error)

def row (key : Key) : Program (Option Items) := ask (.row key) >>= Proc.ofExcept

/-! ## The rows -/

structure Settings where
  enabled : Bool
  copies : Int

def mirrorSettings : Program Settings := do
  let items ← row ["platform", "mirror"]
  let enabled := items.any fun items => (items.get? "enabled").any fun text => text.string = "true"
  let copies ← value (match (items.getD []).get? "copies" with
    | some text => text.toInt
    | none => .ok 1)
  return ⟨enabled, copies⟩

def daysRounds (default : Floating) : List Key → Program Floating
  | [] => return default
  | key :: rest => do
    let items ← row key
    match (items.getD []).get? "days" with
    | some days => value days.toFloat
    | none => daysRounds default rest

/-- The days of the unit if its subsystem set them, else those of the subsystem, else a year. -/
def retentionDays (subsystem unit : String) : Program Floating :=
  daysRounds (.finite 365) [[subsystem, "retention", unit], [subsystem, "retention"]]

/-- `items[:n]` -/
def sliceTo {α : Type} (items : List α) (n : Int) : List α :=
  if 0 ≤ n then items.take n.toNat else items.take (items.length + n).toNat

/-- The next live resources after mine, in sorted order. -/
def peersOf (server : String) (live : List String) (copies : Int) : List String :=
  let others := sorted (live.filter (· ≠ server))
  sliceTo (others.filter (server < ·) ++ others.filter (· < server)) copies

/-! ## What is here -/

def closedRounds : List Bucket → List Bucket → Program (List Bucket)
  | [], out => return out
  | b :: rest, out => do
    let now ← ask .wall
    closedRounds rest (if b.end_ ≤ now then out ++ [b] else out)

def unitRounds (subsystem : String) : List String → List Bucket → Program (List Bucket)
  | [], out => return out
  | unit :: rest, out => do
    let bs ← Proc.ofExcept (← ask (.buckets subsystem unit))
    unitRounds subsystem rest (← closedRounds bs out)

def subsystemRounds : List (String × List String) → List Bucket → Program (List Bucket)
  | [], out => return out
  | (subsystem, units) :: rest, out => do
    subsystemRounds rest (← unitRounds subsystem units out)

def closedBuckets : Program (List Bucket) := do
  subsystemRounds (← ask .units) []

def liveResources (lostAfter : ℚ) : Program (Dict ResourceBeat) := do
  let now ← ask .wall
  let seen ← Proc.ofExcept (← ask .resources)
  return EventIndex.liveAt now lostAfter seen

/-! ## The policy pass -/

/-- `end < now - days * 86400` -/
def isExpired (days : Floating) (now end_ : ℚ) : Bool :=
  match days with
  | .finite days => end_ < now - days * 86400
  | .infinite negative => negative
  | .nan => false

def removeRounds (days : Floating) : List Bucket → Nat → Program Nat
  | [], removed => return removed
  | b :: rest, removed => do
    let now ← ask .wall
    if isExpired days now b.end_ then
      Proc.ofExcept (← ask (.remove b.path))
      removeRounds days rest (removed + 1)
    else removeRounds days rest removed

def retainUnits (subsystem : String) : List String → Nat → Program Nat
  | [], removed => return removed
  | unit :: rest, removed => do
    let days ← retentionDays subsystem unit
    let bs ← Proc.ofExcept (← ask (.buckets subsystem unit))
    retainUnits subsystem rest (← removeRounds days bs removed)

def retainRounds : List (String × List String) → Nat → Program Nat
  | [], removed => return removed
  | (subsystem, units) :: rest, removed => do
    retainRounds rest (← retainUnits subsystem units removed)

/-- Each subsystem's buckets by its own days. -/
def retain : Program Nat := do
  retainRounds (← ask .units) 0

structure Report where
  enabled : Bool
  mirrored : Nat
  peers : List String
  deriving DecidableEq

def putRounds (url server : String) (have_ : List String) : List Bucket → Nat → Program Nat
  | [], n => return n
  | b :: rest, n => do
    if b.path ∈ have_ then putRounds url server have_ rest n
    else
      let bytes ← Proc.ofExcept (← ask (.read b.path))
      Proc.ofExcept (← send b.path (.put url server b.path bytes))
      putRounds url server have_ rest (n + 1)

def peerRounds (server : String) (live : Dict ResourceBeat) : List String → Nat → Program Nat
  | [], n => return n
  | peer :: rest, n => do
    let hb ← value (live.item peer)
    let held ← Proc.ofExcept (← ask (.mirrored hb.url server))
    let bs ← closedBuckets
    peerRounds server live rest (← putRounds hb.url server (held.map Bucket.path) bs n)

/-- Every closed bucket of this server goes to the peers that do not hold it. -/
def mirror (lostAfter : ℚ) (server : String) : Program Report := do
  let knob ← mirrorSettings
  if !knob.enabled then return ⟨false, 0, []⟩
  let live ← liveResources lostAfter
  let peers := peersOf server (live.map Prod.fst) knob.copies
  let n ← peerRounds server live peers 0
  return ⟨true, n, peers⟩

def pullRounds (url server : String) : List String → Nat → Program Nat
  | [], pulled => return pulled
  | path :: rest, pulled => do
    if ← ask (.exists_ path) then pullRounds url server rest pulled
    else
      let bytes ← Proc.ofExcept (← ask (.fetch url server path))
      ask (.place path bytes)
      pullRounds url server rest (pulled + 1)

def restoreRounds (server : String) : List (String × ResourceBeat) → Nat → Program Nat
  | [], pulled => return pulled
  | (peer, hb) :: rest, pulled => do
    if peer = server ∨ (hb.mirrors.get? server).isNone then restoreRounds server rest pulled
    else
      let held ← Proc.ofExcept (← ask (.mirrored hb.url server))
      restoreRounds server rest (← pullRounds hb.url server (sorted (held.map Bucket.path)) pulled)

/-- The owner pulls its buckets from whoever holds copies. -/
def restore (lostAfter : ℚ) (server : String) : Program Nat := do
  restoreRounds server (← liveResources lostAfter) 0

/-- `pass_`, without the passes of the subsystems. -/
def pass_ (lostAfter : ℚ) (server : String) : Program (Nat × Report) := do
  let removed ← retain
  return (removed, ← mirror lostAfter server)

end Resource

end EdgeVms.Platform
