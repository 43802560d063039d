import EdgeVms.Python.Json
import EdgeVms.Vms.Archive

/-! # The manifest as a file

The archive with the bytes of its files: manifests and event buckets are lines of
JSON.  A crash may leave a last line half written; the readers raise on a line that
they cannot read.  A repair is modelled at one moment.
-/

namespace EdgeVms.Vms.Manifest

open Process Python Platform Archive

/-! ## Lines -/

structure Media where
  cam : Int
  epoch : Int
  start : Floating
  end_ : Floating
  path : String
  bytes : Int

structure Events where
  subsystem : Value
  unit : Text
  epoch : Int
  start : Floating
  end_ : Floating
  path : String
  events : Int

inductive Line where
  | media (line : Media)
  | events (line : Events)

namespace Line

def start : Line → Floating
  | .media line => line.start
  | .events line => line.start

def epoch : Line → Int
  | .media line => line.epoch
  | .events line => line.epoch

def media? : Line → Option Media
  | .media line => some line
  | .events _ => none

def events? : Line → Option Events
  | .media _ => none
  | .events line => some line

/-- `entry.line()` -/
def text : Line → List Char
  | .media line => Json.dumps (.dict [("kind", .str "media"), ("cam", .int line.cam), ("epoch", .int line.epoch),
      ("start", .float line.start), ("end", .float line.end_), ("path", .str line.path), ("bytes", .int line.bytes)])
  | .events line => Json.dumps (.dict [("kind", .str "events"), ("subsystem", line.subsystem), ("unit", .str line.unit),
      ("epoch", .int line.epoch), ("start", .float line.start), ("end", .float line.end_), ("path", .str line.path),
      ("events", .int line.events)])

end Line

/-- A path that is no text: it is the name of no file. -/
inductive Stray where
  | none
  | number (x : ℚ)
  | infinite (negative : Bool)
  | nan
  deriving DecidableEq

/-- A path is to be a key of a dictionary. -/
def keyOf : Value → Except Error (String ⊕ Stray)
  | .str text => .ok (.inl text.string)
  | .none => .ok (.inr .none)
  | .bool value => .ok (.inr (.number (if value then 1 else 0)))
  | .int value => .ok (.inr (.number value))
  | .float (.finite x) => .ok (.inr (.number x))
  | .float (.infinite negative) => .ok (.inr (.infinite negative))
  | .float .nan => .ok (.inr .nan)
  | .list _ | .dict _ => .error .typeError

/-- `Segment.from_line(line)` -/
def mediaOf (d : Dict Value) : Except Error (Media ⊕ Stray) := do
  let cam ← (← d.item "cam").toInt
  let epoch ← (← d.item "epoch").toInt
  let start ← Json.toFloat (← d.item "start")
  let end_ ← Json.toFloat (← d.item "end")
  let path ← d.item "path"
  let bytes ← (← d.item "bytes").toInt
  match ← keyOf path with
  | .inl path => return .inl ⟨cam, epoch, start, end_, path, bytes⟩
  | .inr stray => return .inr stray

/-- `bucket_from_line(line)` -/
def eventsOf (d : Dict Value) : Except Error (Events ⊕ Stray) := do
  let subsystem ← d.item "subsystem"
  let unit := (← d.item "unit").text
  let epoch ← (← d.item "epoch").toInt
  let start ← Json.toFloat (← d.item "start")
  let end_ ← Json.toFloat (← d.item "end")
  let path ← d.item "path"
  let events ← (← d.item "events").toInt
  match ← keyOf path with
  | .inl path => return .inl ⟨subsystem, unit, epoch, start, end_, path, events⟩
  | .inr stray => return .inr stray

def object (line : List Char) : Except Error (Dict Value) := do
  match ← Json.loads line with
  | .dict d => return d
  | _ => throw .attributeError

/-- A media line: a line without a kind is one. -/
def media? (line : List Char) : Except Error (Option (Media ⊕ Stray)) := do
  let d ← object line
  if (d.getD "kind" (.str "media")).equals "media" then some <$> mediaOf d else return none

def events? (line : List Char) : Except Error (Option (Events ⊕ Stray)) := do
  let d ← object line
  if (d.getD "kind" .none).equals "events" then some <$> eventsOf d else return none

/-! ## The archive -/

structure Shelf where
  /-- Every file below the root of the archive. -/
  files : Versioned String fun _ => File
  /-- The directories below `vms`. -/
  units : List String
  nodup : units.Nodup

section

variable (now : ℚ) (bucketSeconds : Int)

def manifestPath (unit : String) : String := "vms/" ++ unit ++ "/manifest.jsonl"

def walk (shelf : Shelf) (unit : String) : List String :=
  shelf.files.keys.filter fun path => ("vms/" ++ unit ++ "/").toList.isPrefixOf path.toList

/-- `Manifest._lines()` -/
def linesOf (shelf : Shelf) (unit : String) : Except Error (List (List Char)) :=
  match shelf.files.read (manifestPath unit) with
  | some file => Json.linesOf file.bytes
  | none => .ok []

def read (shelf : Shelf) (unit : String) : Except Error (List (Media ⊕ Stray)) := do
  let found ← (← linesOf shelf unit).mapM media?
  return found.filterMap id

def buckets (shelf : Shelf) (unit : String) : Except Error (List (Events ⊕ Stray)) := do
  let found ← (← linesOf shelf unit).mapM events?
  return found.filterMap id

/-- `read_bucket(path)` -/
def readBucket (shelf : Shelf) (path : String) : Except Error (List Value) :=
  match shelf.files.read path with
  | some file => do (← Json.linesOf file.bytes).mapM Json.loads
  | none => .ok []

/-- `line.start, line.epoch` of the first do not come after those of the second. -/
def Before (left right : Floating × Int) : Prop :=
  ¬ (right.1.lt left.1 = true ∨ (right.1 = left.1 ∧ right.2 < left.2))

instance : DecidableRel Before := fun left right =>
  inferInstanceAs (Decidable (¬ (right.1.lt left.1 = true ∨ (right.1 = left.1 ∧ right.2 < left.2))))

def bucketRounds (shelf : Shelf) : List String → Except Error (List Events)
  | [] => .ok []
  | path :: rest => do
    match ← parseBucket path with
    | none => bucketRounds shelf rest
    | some (subsystem, unit, epoch, start) =>
      let events ← readBucket shelf path
      let later ← bucketRounds shelf rest
      return ⟨.str subsystem, unit, epoch, .finite start.timestamp, .finite (start.timestamp + bucketSeconds), path,
        events.length⟩ :: later

def bucketsUnder (shelf : Shelf) (unit : String) : Except Error (List Events) := do
  let found ← bucketRounds bucketSeconds shelf (walk shelf unit)
  return found.insertionSort fun left right => Before (left.start, left.epoch) (right.start, right.epoch)

def sortLines (lines : List Line) : List Line :=
  lines.insertionSort fun left right => Before (left.start, left.epoch) (right.start, right.epoch)

def content (lines : List Line) : List UInt8 := Json.encode (lines.flatMap fun line => line.text ++ ['\n'])

/-- Written beside the manifest, then put in its place. -/
def rewrite (shelf : Shelf) (unit : String) (segs : List Media) (past : List Events) : Shelf :=
  { shelf with
    files := (shelf.files.remove (manifestPath unit ++ ".tmp")).write (manifestPath unit)
      ⟨content (sortLines (segs.map .media ++ past.map .events)), now⟩ }

/-! ## Repair -/

def lift {α : Type} : Except Error α → Except Fault α
  | .ok value => .ok value
  | .error error => .error (.python error)

/-- Lines for files that no line names. -/
def add (shelf : Shelf) : Dict Parsed → Dict Media → Except Fault (Dict Media)
  | [], lines => .ok lines
  | (rel, cam, epoch, start) :: rest, lines =>
    if (lines.get? rel).isSome then add shelf rest lines
    else
      match shelf.files.read rel with
      | none => .error .fileNotFound
      | some file => add shelf rest
          (lines.set rel ⟨cam, epoch, .finite start.timestamp, .finite file.mtime, rel, file.bytes.length⟩)

def named {α : Type} (found : List (α ⊕ Stray)) : List α := found.filterMap Sum.getLeft?

def strays {α : Type} (found : List (α ⊕ Stray)) : List Stray := (found.filterMap Sum.getRight?).dedup

def repairCamera (shelf : Shelf) (cam : Int) : Except Fault ((Nat × Nat) × Shelf) := do
  let unit := toString cam
  let found ← lift (read shelf unit)
  let old := byPath Media.path (named found)
  let here ← lift (present (walk shelf unit) [])
  let lines ← add shelf here old
  let kept := lines.filter fun entry => (here.get? entry.1).isSome
  let listed ← lift (buckets shelf unit)
  let known := byPath Events.path (named listed)
  let under ← lift (bucketsUnder bucketSeconds shelf unit)
  let onDisk := byPath Events.path (under.filter fun bucket => !(Floating.lt (.finite now) bucket.end_))
  return ((missing here old + missing onDisk known,
      missing lines here + (strays found).length + missing known onDisk + (strays listed).length),
    rewrite now shelf unit (kept.map Prod.snd) (onDisk.map Prod.snd))

def repairRounds : List Int → Nat × Nat → Shelf → Except Fault ((Nat × Nat) × Shelf)
  | [], counts, shelf => .ok (counts, shelf)
  | cam :: rest, (added, dropped), shelf => do
    let ((added', dropped'), shelf) ← repairCamera now bucketSeconds shelf cam
    repairRounds rest (added + added', dropped + dropped') shelf

def cameras (shelf : Shelf) : Except Error (List Int) := do
  let cams ← (shelf.units.filter isDigits).mapM fun unit => (Text.plain unit).toInt
  return cams.insertionSort (· ≤ ·)

/-- Make the manifests agree with the files. -/
def repair (shelf : Shelf) : Except Fault ((Nat × Nat) × Shelf) := do
  repairRounds now bucketSeconds (← lift (cameras shelf)) (0, 0) shelf

end

end EdgeVms.Vms.Manifest
