import EdgeVms.Platform.Contract
import EdgeVms.Platform.Events

/-! # The archive: where footage lies

A closed segment is promoted from the spool into the archive, then gets a line in
the camera's manifest.  Two processes work on the archive at once, the worker that
promotes and the resource job that repairs and retains; paths are relative to the
root of the spool or of the archive.
-/

namespace EdgeVms.Vms

open Process Python Platform

def segmentPath (root : String) (cam epoch : Int) (start : DateTime) : String :=
  Path.join root ["vms", toString cam, epochDir epoch, start.stamp ++ ".mp4"]

theorem segmentPath_eq (root : String) (cam epoch : Int) (start : DateTime) :
    segmentPath root cam epoch start =
      Path.joinTwo (Path.joinTwo (Path.join root ["vms", toString cam]) (epochDir epoch)) (start.stamp ++ ".mp4") := by
  rw [segmentPath, Path.join_cons, Path.join_cons, Path.join_cons, Path.join_cons, Path.join_nil, Path.join_cons,
    Path.join_cons, Path.join_nil]

/-- `SEGMENT.match(file)`: the stamp. `$` also matches before a last newline. -/
def segmentStamp (file : String) : Option (List Char) :=
  let chars := if file.toList.getLast? = some '\n' then file.toList.dropLast else file.toList
  if chars.length = 20 ∧ (chars.take 8).all Char.isDigit ∧ chars[8]? = some 'T' ∧
      ((chars.drop 9).take 6).all Char.isDigit ∧ chars.drop 15 = "Z.mp4".toList then
    some (chars.take 16)
  else none

/-- `EPOCH_DIR.match(dir)` -/
def isEpochDir (dir : String) : Bool :=
  match dir.toList with
  | 'e' :: rest =>
    let digits := if rest.getLast? = some '\n' then rest.dropLast else rest
    !digits.isEmpty && digits.all Char.isDigit
  | _ => false

/-- The camera, the epoch and the start in the path of a segment. -/
def parse (rel : String) : Except Error (Option (Int × Int × DateTime)) :=
  match split '/' rel with
  | [sub, cam, dir, file] =>
    if sub ≠ "vms" || !isDigits cam || !isEpochDir dir then .ok none
    else
      match segmentStamp file with
      | none => .ok none
      | some stamp => do
        let cam ← (Text.plain cam).toInt
        let epoch ← (Text.plain (String.ofList (dir.toList.drop 1))).toInt
        let start ← DateTime.strptime stamp
        return some (cam, epoch, start)
  | _ => .ok none

structure Segment where
  cam : Int
  epoch : Int
  start : ℚ
  end_ : ℚ
  path : String
  bytes : Nat

/-- A line of a manifest. -/
inductive Entry where
  | media (segment : Segment)
  | events (bucket : Bucket)

namespace Entry

def media? : Entry → Option Segment
  | media segment => some segment
  | events _ => none

def events? : Entry → Option Bucket
  | media _ => none
  | events bucket => some bucket

def start : Entry → ℚ
  | media segment => segment.start
  | events bucket => bucket.start

def epoch : Entry → Int
  | media segment => segment.epoch
  | events bucket => bucket.epoch

end Entry

/-! ## Files -/

structure File where
  bytes : List UInt8
  mtime : ℚ
  deriving DecidableEq

inductive Fault where
  | fileNotFound
  | crossDevice
  | python (error : Error)
  deriving DecidableEq

inductive Folder where
  | spool
  | archive

structure Stat where
  size : Nat
  mtime : ℚ

namespace Archive

inductive Request where
  | stat (folder : Folder) (path : String)
  | rename (path : String)
  | read (path : String)
  | create (path : String)
  | extend (path : String) (byte : UInt8)
  | setTime (path : String) (mtime : ℚ)
  | replace (temporary path : String)
  | remove (folder : Folder) (path : String)
  | walk (folder : Folder) (above : String)
  | units
  | makeUnit (unit : String)
  | lines (unit : String)
  | open_ (unit : String)
  | append (inode : Nat) (entry : Entry)
  | rewrite (unit : String) (entries : List Entry)
  | buckets (unit : String)
  | touched (path : String)
  | days (cam : Int)
  | wall

@[reducible] def Request.Answer : Request → Type
  | .stat _ _ => Except Fault Stat
  | .read _ => Except Fault (List UInt8)
  | .rename _ | .extend _ _ | .setTime _ _ | .replace _ _ | .remove _ _ => Except Fault Unit
  | .create _ | .makeUnit _ | .append _ _ | .rewrite _ _ => Unit
  | .walk _ _ | .units => List String
  | .lines _ => List Entry
  | .open_ _ => Nat
  | .buckets _ => List Bucket
  | .touched _ | .wall => ℚ
  | .days _ => Int

abbrev interface : Interface := ⟨Request, Request.Answer⟩

inductive Stage where
  | idle
  /-- Looking for what ended before the cutoff. -/
  | retaining (cutoff : ℚ)

abbrev Program (α : Type) := Proc interface Stage Fault α

def ask (request : Request) : Program request.Answer := Proc.perform (I := interface) .idle request

def value {α : Type} : Except Error α → Program α
  | .ok value => .ret value
  | .error error => .raise (.python error)

/-! ## The manifest -/

/-- Opened for appending, then written: the line goes to the file that was opened. -/
def append (unit : String) (entry : Entry) : Program Unit := do
  ask (.makeUnit unit)
  let inode ← ask (.open_ unit)
  ask (.append inode entry)

/-- The media lines. -/
def read (unit : String) : Program (List Segment) := do
  return (← ask (.lines unit)).filterMap Entry.media?

/-- The closed event buckets. -/
def buckets (unit : String) : Program (List Bucket) := do
  return (← ask (.lines unit)).filterMap Entry.events?

def sortEntries (entries : List Entry) : List Entry :=
  entries.insertionSort fun left right =>
    left.start < right.start ∨ (left.start = right.start ∧ left.epoch ≤ right.epoch)

/-- The new lines appear at once, under the old name. -/
def rewrite (unit : String) (segs : List Segment) (given : Option (List Bucket)) : Program Unit := do
  let kept ← match given with
    | some given => pure given
    | none => buckets unit
  ask (.rewrite unit (sortEntries (segs.map .media ++ kept.map .events)))

/-! ## Promotion -/

def extendRounds (path : String) : List UInt8 → Program Unit
  | [] => return ()
  | byte :: rest => do
    Proc.ofExcept (← ask (.extend path byte))
    extendRounds path rest

/-- `shutil.copy2(src, dest)` -/
def copy2 (src dest : String) : Program Unit := do
  let bytes ← Proc.ofExcept (← ask (.read src))
  ask (.create dest)
  extendRounds dest bytes
  let st ← Proc.ofExcept (← ask (.stat .spool src))
  Proc.ofExcept (← ask (.setTime dest st.mtime))

/-- Into the archive: at once, or by a copy that appears whole. -/
def move (path : String) : Program Unit :=
  tryCatch (do Proc.ofExcept (← ask (.rename path))) fun error => match error with
    | .python error => throw (.python error)
    | .fileNotFound | .crossDevice => do
      copy2 path (path ++ ".tmp")
      Proc.ofExcept (← ask (.replace (path ++ ".tmp") path))
      Proc.ofExcept (← ask (.remove .spool path))

/-- The directory of a unit, in the path of one of its files. -/
def unitIn (path : String) : String := (split '/' path)[1]?.getD ""

def promote (path : String) (end_ : Option ℚ) : Program Segment := do
  match ← value (parse path) with
  | none => throw (.python .valueError)
  | some (cam, epoch, start) =>
    let st ← Proc.ofExcept (← ask (.stat .spool path))
    ask (.makeUnit (unitIn path))
    move path
    let seg : Segment := ⟨cam, epoch, start.timestamp, end_.getD st.mtime, path, st.size⟩
    append (toString cam) (.media seg)
    return seg

def closedRounds (graceSeconds now : ℚ) : List String → List String → Program (List String)
  | [], out => return out
  | path :: rest, out => do
    match ← value (parse path) with
    | none => closedRounds graceSeconds now rest out
    | some _ =>
      let st ← Proc.ofExcept (← ask (.stat .spool path))
      closedRounds graceSeconds now rest (if now - st.mtime ≥ graceSeconds then out ++ [path] else out)

/-- Segments in the spool older than the grace. -/
def closedInSpool (graceSeconds now : ℚ) : Program (List String) := do
  return sorted (← closedRounds graceSeconds now (← ask (.walk .spool "")) [])

def promoteRounds : List String → Program Unit
  | [] => return ()
  | path :: rest => do
    let _ ← promote path none
    promoteRounds rest

/-- What a worker does first: it promotes what the last instance closed. -/
def startup (now : ℚ) : Program Unit := do
  promoteRounds (← closedInSpool 30 now)

/-! ## The resource job -/

def cameras : Program (List Int) := do
  let cams ← value (((← ask .units).filter isDigits).mapM fun unit => (Text.plain unit).toInt)
  return cams.insertionSort (· ≤ ·)

abbrev Parsed := Int × Int × DateTime

/-- The segments among files. -/
def present : List String → Dict Parsed → Except Error (Dict Parsed)
  | [], out => .ok out
  | path :: rest, out => do
    match ← parse path with
    | some parsed => present rest (out.set path parsed)
    | none => present rest out

/-- Lines for files that no line names. -/
def addRounds : Dict Parsed → Dict Segment → Program (Dict Segment)
  | [], lines => return lines
  | (rel, cam, epoch, start) :: rest, lines => do
    if (lines.get? rel).isSome then addRounds rest lines
    else
      let st ← Proc.ofExcept (← ask (.stat .archive rel))
      addRounds rest (lines.set rel ⟨cam, epoch, start.timestamp, st.mtime, rel, st.size⟩)

/-- The buckets whose span is over. -/
def overRounds : List Bucket → Dict Bucket → Program (Dict Bucket)
  | [], out => return out
  | bucket :: rest, out => do
    let now ← ask .wall
    overRounds rest (if bucket.end_ ≤ now then out.set bucket.path bucket else out)

def byPath {α : Type} (path : α → String) (items : List α) : Dict α :=
  items.foldl (fun dict item => dict.set (path item) item) []

/-- How many keys of the first are not in the second. -/
def missing {α β : Type} (first : Dict α) (second : Dict β) : Nat :=
  (first.filter fun entry => (second.get? entry.1).isNone).length

def repairCamera (cam : Int) : Program (Nat × Nat) := do
  let unit := toString cam
  let old := byPath Segment.path (← read unit)
  let files ← ask (.walk .archive ("vms/" ++ unit ++ "/"))
  let here ← value (present files [])
  let lines ← addRounds here old
  let kept := lines.filter fun entry => (here.get? entry.1).isSome
  let known := byPath Bucket.path (← buckets unit)
  let onDisk ← overRounds (← ask (.buckets unit)) []
  rewrite unit (kept.map Prod.snd) (some (onDisk.map Prod.snd))
  return (missing here old + missing onDisk known, missing lines here + missing known onDisk)

def repairRounds : List Int → Nat × Nat → Program (Nat × Nat)
  | [], counts => return counts
  | cam :: rest, (added, dropped) => do
    let (added', dropped') ← repairCamera cam
    repairRounds rest (added + added', dropped + dropped')

/-- Make the manifests agree with the files. -/
def repair : Program (Nat × Nat) := do
  repairRounds (← cameras) (0, 0)

def closeRounds (unit : String) (now graceSeconds : ℚ) (known : List String) : List Bucket → Nat → Program Nat
  | [], closed => return closed
  | bucket :: rest, closed => do
    if bucket.path ∈ known ∨ bucket.end_ > now then closeRounds unit now graceSeconds known rest closed
    else
      let touched ← ask (.touched bucket.path)
      if now - touched < graceSeconds then closeRounds unit now graceSeconds known rest closed
      else
        append unit (.events bucket)
        closeRounds unit now graceSeconds known rest (closed + 1)

def closeBucketsRounds (now graceSeconds : ℚ) : List Int → Nat → Program Nat
  | [], closed => return closed
  | cam :: rest, closed => do
    let known := (← buckets (toString cam)).map Bucket.path
    let more ← closeRounds (toString cam) now graceSeconds known (← ask (.buckets (toString cam))) closed
    closeBucketsRounds now graceSeconds rest more

/-- Lines for the buckets whose span is over and that nobody touches any more. -/
def closeBuckets (now graceSeconds : ℚ) : Program Nat := do
  closeBucketsRounds now graceSeconds (← cameras) 0

def retainRounds (cutoff : ℚ) : List Segment → List Segment → Nat → Program (List Segment × Nat)
  | [], keep, removed => return (keep, removed)
  | segment :: rest, keep, removed =>
    if segment.end_ < cutoff then do
      tryCatch (do Proc.ofExcept (← ask (.remove .archive segment.path))) fun error => match error with
        | .fileNotFound => return ()
        | error => throw error
      retainRounds cutoff rest keep (removed + 1)
    else retainRounds cutoff rest (keep ++ [segment]) removed

/-- Delete the media that ended too long ago: the file first, then the line. -/
def retain (cam : Int) (days now : ℚ) : Program Nat := do
  let cutoff := now - days * 86400
  let segs ← Proc.within (.retaining cutoff) (read (toString cam))
  let (keep, removed) ← retainRounds cutoff segs [] 0
  if removed ≠ 0 then
    rewrite (toString cam) keep none
    return removed
  else return removed

def retainAll (now : ℚ) : List Int → Nat → Program Nat
  | [], removed => return removed
  | cam :: rest, removed => do
    let days ← ask (.days cam)
    let more ← retain cam days now
    retainAll now rest (removed + more)

/-- The VMS's part of the resource job. -/
def pass_ (now : ℚ) : Program (Nat × Nat × Nat × Nat) := do
  let (added, dropped) ← repair
  let closed ← closeBuckets now 30
  let removed ← retainAll now (← cameras) 0
  return (added, dropped, closed, removed)

/-! ## The disk -/

/-- What the processes see of everything but media and manifests. -/
structure Around where
  wall : ℚ
  buckets : String → List Bucket
  touched : String → ℚ
  days : Int → Int

structure Disk where
  spool : Versioned String fun _ => File
  archive : Versioned String fun _ => File
  /-- The directories of the cameras in the archive. -/
  units : List String
  manifest : String → Option Nat
  inodes : Nat → List Entry
  fresh : Nat
  around : Nat → Around
  served : Nat

namespace Disk

def tick (disk : Disk) : Disk := { disk with served := disk.served + 1 }

def now (disk : Disk) : Around := disk.around disk.served

def folder (disk : Disk) : Folder → Versioned String fun _ => File
  | .spool => disk.spool
  | .archive => disk.archive

/-- The lines of a camera's manifest. -/
def linesOf (disk : Disk) (unit : String) : List Entry := ((disk.manifest unit).map disk.inodes).getD []

/-- A new file under the name of the manifest. -/
def withManifest (disk : Disk) (unit : String) (entries : List Entry) : Disk :=
  { disk with
    manifest := Function.update disk.manifest unit (some disk.fresh)
    inodes := Function.update disk.inodes disk.fresh entries
    fresh := disk.fresh + 1 }

def stat (disk : Disk) (folder : Folder) (path : String) : Except Fault Stat :=
  match (disk.folder folder).read path with
  | some file => .ok ⟨file.bytes.length, file.mtime⟩
  | none => .error .fileNotFound

/-- An open file in the archive is changed. -/
def edit (disk : Disk) (path : String) (change : File → File) : Except Fault Unit × Disk :=
  match disk.archive.read path with
  | some file => (.ok (), { disk with archive := disk.archive.write path (change file) })
  | none => (.error .fileNotFound, disk)

/-- The meaning of the requests, with the spool on the device of the archive or on another. -/
def handler (sameDevice : Bool) : Handler interface Disk
  | .stat folder path, disk => (disk.stat folder path, disk.tick)
  | .rename path, disk =>
    match disk.spool.read path with
    | none => (.error .fileNotFound, disk.tick)
    | some file =>
      if sameDevice then
        (.ok (), { disk.tick with spool := disk.spool.remove path, archive := disk.archive.write path file })
      else (.error .crossDevice, disk.tick)
  | .read path, disk =>
    (match disk.spool.read path with
      | some file => .ok file.bytes
      | none => .error .fileNotFound, disk.tick)
  | .create path, disk => ((), { disk.tick with archive := disk.archive.write path ⟨[], disk.now.wall⟩ })
  | .extend path byte, disk => disk.tick.edit path fun file => ⟨file.bytes ++ [byte], disk.now.wall⟩
  | .setTime path mtime, disk => disk.tick.edit path fun file => { file with mtime := mtime }
  | .replace temporary path, disk =>
    match disk.archive.read temporary with
    | none => (.error .fileNotFound, disk.tick)
    | some file => (.ok (), { disk.tick with archive := (disk.archive.remove temporary).write path file })
  | .remove .spool path, disk =>
    if (disk.spool.read path).isSome then (.ok (), { disk.tick with spool := disk.spool.remove path })
    else (.error .fileNotFound, disk.tick)
  | .remove .archive path, disk =>
    if (disk.archive.read path).isSome then (.ok (), { disk.tick with archive := disk.archive.remove path })
    else (.error .fileNotFound, disk.tick)
  | .walk folder above, disk =>
    ((disk.folder folder).keys.filter fun path => above.toList.isPrefixOf path.toList, disk.tick)
  | .units, disk => (disk.units, disk.tick)
  | .makeUnit unit, disk =>
    ((), if unit ∈ disk.units then disk.tick else { disk.tick with units := unit :: disk.units })
  | .lines unit, disk => (disk.linesOf unit, disk.tick)
  | .open_ unit, disk =>
    match disk.manifest unit with
    | some inode => (inode, disk.tick)
    | none => (disk.fresh, disk.tick.withManifest unit [])
  | .append inode entry, disk =>
    ((), { disk.tick with inodes := Function.update disk.inodes inode (disk.inodes inode ++ [entry]) })
  | .rewrite unit entries, disk => ((), disk.tick.withManifest unit entries)
  | .buckets unit, disk => (disk.now.buckets unit, disk.tick)
  | .touched path, disk => (disk.now.touched path, disk.tick)
  | .days cam, disk => (disk.now.days cam, disk.tick)
  | .wall, disk => (disk.now.wall, disk.tick)

end Disk

end Archive

end EdgeVms.Vms
