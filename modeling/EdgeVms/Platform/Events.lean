import EdgeVms.Python.Path

/-! # The event log

A bucket is a file for a span of time, under the unit and the epoch of its writer.
-/

namespace EdgeVms.Platform

open Python

def bucketStart (t : ℚ) (bucketSeconds : Int) : Except Error ℚ :=
  if bucketSeconds = 0 then .error .zeroDivisionError
  else .ok (⌊t / bucketSeconds⌋ * bucketSeconds : Int)

/-- `_stamp` -/
def stampOf (t : ℚ) : Except Error String := DateTime.stamp <$> DateTime.fromTimestamp t

def unitDir (root subsystem unit : String) : String := Path.join root [subsystem, unit]

def epochDir (epoch : Int) : String := "e" ++ toString epoch

def bucketPath (root subsystem unit : String) (epoch : Int) (start : ℚ) : Except Error String := do
  let stamp ← stampOf start
  return Path.join (unitDir root subsystem unit) [epochDir epoch, stamp ++ ".events.jsonl"]

structure EventLog where
  root : String
  subsystem : String
  unit : String
  epoch : Int
  bucketSeconds : Int

def EventLog.pathFor (log : EventLog) (t : ℚ) : Except Error String := do
  let start ← bucketStart t log.bucketSeconds
  bucketPath log.root log.subsystem log.unit log.epoch start

/-- `$` also matches before a last newline. -/
def beforeNewline (chars : List Char) : List Char := if chars.getLast? = some '\n' then chars.dropLast else chars

/-- `EPOCH_DIR.match(dir)` -/
def matchesEpoch (dir : String) : Bool :=
  match dir.toList with
  | 'e' :: rest => !(beforeNewline rest).isEmpty && (beforeNewline rest).all Char.isDigit
  | _ => false

/-- `EVENTS.match(file)`: the stamp. -/
def eventsStamp (file : String) : Option (List Char) :=
  let chars := beforeNewline file.toList
  if chars.length = 29 ∧ (chars.take 8).all Char.isDigit ∧ chars[8]? = some 'T' ∧
      ((chars.drop 9).take 6).all Char.isDigit ∧ chars.drop 15 = "Z.events.jsonl".toList then
    some (chars.take 16)
  else none

/-- The subsystem, the unit, the epoch and the start in the path of a bucket, below the root. -/
def parseBucket (rel : String) : Except Error (Option (String × String × Int × DateTime)) :=
  match split '/' rel with
  | [subsystem, unit, dir, file] =>
    if !matchesEpoch dir then .ok none
    else
      match eventsStamp file with
      | none => .ok none
      | some stamp => do
        let start ← DateTime.strptime stamp
        let epoch ← (Text.plain (String.ofList (dir.toList.drop 1))).toInt
        return some (subsystem, unit, epoch, start)
  | _ => .ok none

/-- A bucket, from its file or from its manifest line. -/
structure Bucket where
  subsystem : String
  unit : String
  epoch : Int
  start : ℚ
  end_ : ℚ
  path : String
  events : Nat

theorem component_epochDir (epoch : Int) : Path.Component (epochDir epoch) where
  nonempty := by
    intro empty
    have chars := congrArg String.toList empty
    simp [epochDir] at chars
  whole := by
    simp only [epochDir, String.toList_append, List.mem_append, not_or]
    exact ⟨by decide, not_mem_toString (by decide) (by decide) epoch⟩

theorem epochDir_inj {epoch epoch' : Int} (same : epochDir epoch = epochDir epoch') : epoch = epoch' :=
  toString_inj (String.append_right_inj "e" |>.mp same)

/-- A file of one name and an ending is one component. -/
theorem component_file (t : DateTime) {ending : String} (whole : '/' ∉ ending.toList) :
    Path.Component (t.stamp ++ ending) where
  nonempty := by
    intro empty
    have chars := congrArg String.toList empty
    simp [DateTime.stamp] at chars
  whole := by
    simp only [String.toList_append, List.mem_append, not_or]
    exact ⟨t.slash_not_mem_stamp, whole⟩

/-- Where a bucket lies tells its epoch. -/
theorem EventLog.pathFor_eq {log : EventLog} {t : ℚ} {path : String} (found : log.pathFor t = .ok path) :
    ∃ start : DateTime, path = Path.joinTwo (Path.joinTwo (unitDir log.root log.subsystem log.unit)
      (epochDir log.epoch)) (start.stamp ++ ".events.jsonl") := by
  simp only [pathFor, bind_eq_ok, bucketPath] at found
  obtain ⟨first, -, stamp, stamped, result⟩ := found
  have path_eq := (Except.ok.inj result).symm
  obtain ⟨start, -, rfl⟩ := map_eq_ok.mp stamped
  rw [Path.join_cons, Path.join_cons, Path.join_nil] at path_eq
  exact ⟨start, path_eq⟩

end EdgeVms.Platform
