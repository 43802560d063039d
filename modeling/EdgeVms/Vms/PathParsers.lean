import EdgeVms.Platform.Contract
import EdgeVms.Platform.Events
import EdgeVms.Python.Relpath
import EdgeVms.Vms.Archive

/-! # The path parsers, on any path

`parse` and `parse_bucket` with the path and the root as they are given: the path is
made relative to the root first, and `\d` and `isdigit` take digits of any script.
-/

namespace EdgeVms.Vms.PathParsers

open Python Platform

/-- `\d` -/
def isDecimal (c : Char) : Bool := decimalZeros.any fun first => first ≤ c.toNat && c.toNat < first + 10

/-- `EPOCH_DIR.match(dir)` -/
def matchesEpoch (dir : String) : Bool :=
  match dir.toList with
  | 'e' :: rest => !(beforeNewline rest).isEmpty && (beforeNewline rest).all isDecimal
  | _ => false

/-- The stamp of a file that matches `^(\d{8}T\d{6}Z)` and the ending. -/
def stampIn (ending : List Char) (file : String) : Option (List Char) :=
  let chars := beforeNewline file.toList
  if chars.length = 16 + ending.length ∧ (chars.take 8).all isDecimal ∧ chars[8]? = some 'T' ∧
      ((chars.drop 9).take 6).all isDecimal ∧ chars.drop 15 = 'Z' :: ending then
    some (chars.take 16)
  else none

/-- The ending in `SEGMENT`. -/
def segmentEnding : List Char := ".mp4".toList

/-- The ending in `EVENTS`. -/
def eventsEnding : List Char := ".events.jsonl".toList

/-- The patterns of `strptime` ask for some of the digits in ASCII. -/
def takesDigits (stamp : List Char) : Bool :=
  let ascii (i : Nat) := stamp[i]?.all fun c => c.toNat < 128
  ascii 4 && ascii 5 && ascii 6 && (ascii 7 || stamp[6]? = some '1' || stamp[6]? = some '2') && ascii 9 &&
    (ascii 10 || stamp[9]? = some '0' || stamp[9]? = some '1') && ascii 11 && ascii 13

/-- `datetime.strptime(stamp, "%Y%m%dT%H%M%SZ")` -/
def strptime (stamp : List Char) : Except Error DateTime :=
  if takesDigits stamp then DateTime.strptime (stamp.map asAscii) else .error .valueError

def intOf (text : List Char) : Except Error Int := (Text.plain (String.ofList text)).toInt

/-- The camera, the epoch and the start of a segment path. -/
def parse (cwd path root : String) : Except Error (Option (Int × Int × DateTime)) := do
  match ← Path.relparts cwd path root with
  | [sub, cam, dir, file] =>
    if sub ≠ "vms" || !isDigits cam || !matchesEpoch dir then return none
    else
      match stampIn segmentEnding file with
      | none => return none
      | some stamp => do
        let cam ← intOf cam.toList
        let epoch ← intOf (dir.toList.drop 1)
        let start ← strptime stamp
        return some (cam, epoch, start)
  | _ => return none

/-- The subsystem, the unit, the epoch and the start of a bucket path. -/
def parseBucket (cwd path root : String) : Except Error (Option (String × String × Int × ℚ)) := do
  match ← Path.relparts cwd path root with
  | [subsystem, unit, dir, file] =>
    if !matchesEpoch dir then return none
    else
      match stampIn eventsEnding file with
      | none => return none
      | some stamp => do
        let start ← strptime stamp
        let epoch ← intOf (dir.toList.drop 1)
        return some (subsystem, unit, epoch, start.timestamp)
  | _ => return none

end EdgeVms.Vms.PathParsers
