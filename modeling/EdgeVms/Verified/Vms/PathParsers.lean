import EdgeVms.Python.Calendar
import EdgeVms.Python.Stamps
import EdgeVms.Vms.PathParsers

/-! # What the path parsers take

The parsers read back every path that the encoders make.  They take more than that: digits
of other scripts, zeros in front, a newline at the end, a path that is spelled in another
way; and where the digits name no number or no day they raise.
-/

namespace EdgeVms.Verified.PathParsers

open Python Python.DateTime Python.Path Vms.PathParsers
open Platform hiding matchesEpoch parseBucket
open Vms hiding parse

/-! ## Reading what was encoded -/

theorem isDecimal_digit {c : Char} (digit : c.isDigit) : isDecimal c := by
  have bounds := digit_bounds digit
  refine List.any_eq_true.mpr ⟨0x30, by decide, ?_⟩
  simp only [Bool.and_eq_true, decide_eq_true_eq]
  omega

theorem beforeNewline_eq {chars : List Char} (closed : '\n' ∉ chars) : beforeNewline chars = chars :=
  if_neg fun last => closed (List.mem_of_getLast? last)

section Numerals

variable (n : Nat)

theorem shortest_toString : Shortest (toString (n : Int)).toList := shortest_iff.mpr ⟨n, rfl⟩

theorem digits_toString : ∀ c ∈ (toString n).toList, c.isDigit := (shortest_toString n).all

theorem toString_ne_nil : (toString n).toList ≠ [] := (shortest_toString n).some_

theorem isDigits_toString : isDigits (toString n) = true := by
  have some_ : toString n ≠ "" := fun empty => toString_ne_nil n (by rw [empty]; rfl)
  rw [isDigits, Bool.and_eq_true, decide_eq_true_eq]
  exact ⟨some_, List.all_eq_true.mpr fun c member =>
    Bool.or_eq_true_iff.mpr (.inl (isDecimal_digit (digits_toString n c member)))⟩

theorem toList_epochDir (epoch : Int) : (epochDir epoch).toList = 'e' :: (toString epoch).toList := by
  have letter : "e".toList = ['e'] := by decide
  rw [epochDir, String.toList_append, letter]
  rfl

theorem matchesEpoch_iff {dir : String} {rest : List Char} (letter : dir.toList = 'e' :: rest) :
    matchesEpoch dir ↔ beforeNewline rest ≠ [] ∧ ∀ c ∈ beforeNewline rest, isDecimal c := by
  rw [matchesEpoch, letter]
  simp

theorem letter_of_matchesEpoch {dir : String} (accepted : matchesEpoch dir) : ∃ rest, dir.toList = 'e' :: rest := by
  rw [matchesEpoch] at accepted
  split at accepted
  next rest letter => exact ⟨rest, letter⟩
  next => cases accepted

theorem matchesEpoch_epochDir : matchesEpoch (epochDir n) = true := by
  have digits := digits_toString n
  rw [matchesEpoch_iff (toList_epochDir n)]
  have same : toString (n : Int) = toString n := rfl
  rw [same, beforeNewline_eq fun member => absurd (digits _ member) (by decide)]
  exact ⟨toString_ne_nil n, fun c member => isDecimal_digit (digits c member)⟩

theorem intOf_toString (n : Int) : intOf (toString n).toList = .ok n := by
  rw [intOf, String.ofList_toList]
  exact Text.toInt_repr n

end Numerals

theorem head_negative {n : Int} (negative : n < 0) : ∃ digits, (toString n).toList = '-' :: digits := by
  have minus : "-".toList = ['-'] := by decide
  rw [Int.toString_eq_repr, Int.repr_eq_if, if_neg (not_le.mpr negative), String.toList_append, minus]
  exact ⟨_, rfl⟩

/-- A minus is no digit. -/
theorem nonneg_of_isDigits {n : Int} (digits : isDigits (toString n)) : 0 ≤ n := by
  by_contra negative
  obtain ⟨rest, minus⟩ := head_negative (not_le.mp negative)
  rw [isDigits, minus, List.all_cons, Bool.and_eq_true, Bool.and_eq_true] at digits
  exact absurd digits.2.1 (by decide)

theorem nonneg_of_matchesEpoch {n : Int} (accepted : matchesEpoch (epochDir n)) : 0 ≤ n := by
  by_contra negative
  obtain ⟨rest, minus⟩ := head_negative (not_le.mp negative)
  rw [matchesEpoch_iff (toList_epochDir n), minus] at accepted
  obtain ⟨some_, all⟩ := accepted
  rw [beforeNewline] at some_ all
  split at some_
  next last =>
    rw [if_pos last] at all
    cases rest with
    | nil => exact absurd rfl some_
    | cons next rest => exact absurd (all '-' List.mem_cons_self) (by decide)
  next other =>
    rw [if_neg other] at all
    exact absurd (all '-' List.mem_cons_self) (by decide)

section Stamped

variable {stamp : List Char} (shaped : Shaped stamp)

include shaped

theorem shaped_length : stamp.length = 16 := by
  obtain ⟨year, month, day, hour, minute, second, rfl, lengths, -⟩ := shaped
  simp only [List.map_cons, List.map_nil, List.cons.injEq, and_true] at lengths
  obtain ⟨four, two, two', hours, minutes, seconds⟩ := lengths
  simp [four, two, two', hours, minutes, seconds]

theorem shaped_solid : ∀ c ∈ stamp, Solid c := by
  obtain ⟨year, month, day, hour, minute, second, rfl, -, digits⟩ := shaped
  simp only [List.forall_mem_cons] at digits
  obtain ⟨years, months, days, hours, minutes, seconds, -⟩ := digits
  simp only [List.forall_mem_append, List.forall_mem_cons]
  have letters : Solid 'T' ∧ Solid 'Z' := ⟨⟨by decide, by decide⟩, by decide, by decide⟩
  exact ⟨fun c member => solid_digit (years c member), fun c member => solid_digit (months c member),
    fun c member => solid_digit (days c member), letters.1, fun c member => solid_digit (hours c member),
    fun c member => solid_digit (minutes c member), fun c member => solid_digit (seconds c member), letters.2,
    List.forall_mem_nil _⟩

theorem takesDigits_shaped : takesDigits stamp = true := by
  have ascii (i : Nat) : (stamp[i]?.all fun c => c.toNat < 128) = true := by
    rw [Option.all_eq_true]
    intro c found
    have solid := shaped_solid shaped c (List.mem_of_getElem? found)
    exact decide_eq_true (by have := solid.1; omega)
  simp only [takesDigits, ascii, Bool.true_or, Bool.and_true]

theorem strptime_shaped : PathParsers.strptime stamp = DateTime.strptime stamp := by
  rw [PathParsers.strptime, if_pos (takesDigits_shaped shaped), map_asAscii_solid (shaped_solid shaped)]

theorem stampIn_shaped {ending : List Char} (closed : '\n' ∉ ending) :
    stampIn ending (String.ofList (stamp ++ ending)) = some stamp := by
  have length := shaped_length shaped
  have line : '\n' ∉ stamp ++ ending := by
    rw [List.mem_append, not_or]
    exact ⟨fun member => absurd (shaped_solid shaped _ member).2 (by decide), closed⟩
  rw [stampIn, String.toList_ofList, beforeNewline_eq line, if_pos, List.take_left' length]
  obtain ⟨year, month, day, hour, minute, second, rfl, lengths, digits⟩ := shaped
  simp only [List.map_cons, List.map_nil, List.cons.injEq, and_true] at lengths
  obtain ⟨four, two, two', hours, minutes, seconds⟩ := lengths
  simp only [List.forall_mem_cons] at digits
  obtain ⟨yearDigits, monthDigits, dayDigits, hourDigits, minuteDigits, secondDigits, -⟩ := digits
  have all {run : List Char} (digits : ∀ c ∈ run, c.isDigit) : run.all isDecimal = true :=
    List.all_eq_true.mpr fun c member => isDecimal_digit (digits c member)
  refine ⟨?_, ?_, ?_, ?_, ?_⟩
  · rw [List.length_append, length]
  · simp [List.take_append, four, two, two', List.take_of_length_le, all yearDigits, all monthDigits, all dayDigits]
  · simp [List.getElem?_append, four, two, two']
  · simp [List.drop_append, List.take_append, four, two, two', hours, minutes, seconds, List.drop_of_length_le,
      List.take_of_length_le, all hourDigits, all minuteDigits, all secondDigits]
  · simp [List.drop_append, four, two, two', hours, minutes, seconds, List.drop_of_length_le]

end Stamped

/-! ## Names -/

theorem name_of_component {part : String} (component : Component part) {c : Char} (member : c ∈ part.toList)
    (letter : c ≠ '.') : Name part where
  component := component
  dot := by
    rintro rfl
    have dots : ∀ c ∈ ".".toList, c = '.' := by simp
    exact letter (dots c member)
  up := by
    rintro rfl
    have dots : ∀ c ∈ "..".toList, c = '.' := by simp
    exact letter (dots c member)

theorem name_toString (n : Int) : Name (toString n) := by
  have some_ := (atomic_toString n).nonempty
  have chars : (toString n).toList ≠ [] := fun nil => some_ (String.toList_injective nil)
  obtain ⟨c, member⟩ := List.exists_mem_of_ne_nil _ chars
  refine name_of_component ⟨some_, not_mem_toString (by decide) (by decide) n⟩ member ?_
  rintro rfl
  exact not_mem_toString (by decide) (by decide) n member

theorem name_epochDir (epoch : Int) : Name (epochDir epoch) :=
  name_of_component (component_epochDir epoch) (by rw [toList_epochDir]; exact List.mem_cons_self) (by decide : 'e' ≠ '.')

theorem name_file (t : DateTime) {ending : String} (whole : '/' ∉ ending.toList) : Name (t.stamp ++ ending) := by
  refine name_of_component (component_file t whole) ?_ (by decide : 'T' ≠ '.')
  rw [String.toList_append, toList_stamp]
  simp

theorem name_vms : Name "vms" where
  component := ⟨by decide, by decide⟩
  dot := by decide
  up := by decide

theorem name_down {parts : List String} (all : ∀ part ∈ parts, Name part) {part : String} (whole : '/' ∉ part.toList) :
    ∀ name ∈ down parts part, Name name := by
  rw [down]
  split
  next => exact all
  next other =>
    rw [not_or] at other
    split
    next => exact fun name member => all name (List.mem_of_mem_dropLast member)
    next up =>
      intro name member
      obtain member | member := List.mem_append.mp member
      · exact all name member
      · rw [List.mem_singleton.mp member]
        exact ⟨⟨other.1, whole⟩, other.2, up⟩

theorem name_partsOf {cwd path : String} : ∀ part ∈ partsOf cwd path, Name part := by
  have pieces : ∀ piece ∈ split '/' (joinTwo cwd path), '/' ∉ piece.toList := by
    intro piece member
    rw [split, List.mem_map] at member
    obtain ⟨chars, split, rfl⟩ := member
    rw [String.toList_ofList]
    exact not_mem_splitOn split
  have from_ (pieces : List String) (whole : ∀ piece ∈ pieces, '/' ∉ piece.toList) (parts : List String)
      (all : ∀ part ∈ parts, Name part) : ∀ part ∈ pieces.foldl down parts, Name part := by
    induction pieces generalizing parts with
    | nil => exact all
    | cons piece pieces ih =>
      obtain ⟨first, rest⟩ := List.forall_mem_cons.mp whole
      exact ih rest (down parts piece) (name_down all first)
  exact from_ _ pieces [] (List.forall_mem_nil _)

/-! ## What is right -/

/-- A time that `strftime` writes with four digits of the year. -/
def Dated (t : DateTime) : Prop := t.Exists ∧ 1000 ≤ t.year

/-- A whole second of such a time. -/
def Whole (start : ℚ) : Prop := ∃ n : Int, start = n ∧ ∃ t, fromTimestamp n = .ok t ∧ Dated t

section Right

variable (cwd root path : String)

/-- The path lies under the root. -/
def Under : Prop := partsOf cwd root <+: partsOf cwd path

/-- `parse` takes the path if and only if `segment_path` makes it, and never raises. -/
def ParsesSegments : Prop :=
  (∃ found, parse cwd path root = .ok found) ∧ ∀ cam epoch start,
    parse cwd path root = .ok (some (cam, epoch, start)) ↔ Dated start ∧ segmentPath root cam epoch start = path

/-- `parse_bucket` takes the path if and only if `bucket_path` makes it, and never raises. -/
def ParsesBuckets : Prop :=
  (∃ found, parseBucket cwd path root = .ok found) ∧ ∀ subsystem unit epoch start,
    parseBucket cwd path root = .ok (some (subsystem, unit, epoch, start)) ↔
      Whole start ∧ bucketPath root subsystem unit epoch start = .ok path

/-! ## When it is -/

/-- The last two names of a path in plain digits: no zero in front, a day that there is, nothing behind the ending. -/
structure Plain (ending dir file : String) : Prop where
  epoch : Shortest (dir.toList.drop 1)
  day : ∃ shaped : Shaped (file.toList.take 16), Dated shaped.time
  whole : file.toList.drop 16 = ending.toList

/-- The names below the root. -/
def Below (names : List String) : Prop := partsOf cwd path = partsOf cwd root ++ names

/-- The names that pass the tests of `parse` are plain, and the path is spelled with them. -/
structure SegmentsHold : Prop where
  some_ : path ≠ ""
  plain : ∀ cam dir file, Below cwd root path ["vms", cam, dir, file] → isDigits cam → matchesEpoch dir →
    (stampIn segmentEnding file).isSome →
      path = join root ["vms", cam, dir, file] ∧ Shortest cam.toList ∧ Plain ".mp4" dir file
  -- a camera or an epoch with a minus fails the tests
  positive : ∀ cam epoch start, Dated start → path = segmentPath root cam epoch start → 0 ≤ cam ∧ 0 ≤ epoch

/-- The names that pass the tests of `parse_bucket` are plain, and the path is spelled with them. -/
structure BucketsHold : Prop where
  some_ : path ≠ ""
  plain : ∀ subsystem unit dir file, Below cwd root path [subsystem, unit, dir, file] → matchesEpoch dir →
    (stampIn eventsEnding file).isSome →
      path = join root [subsystem, unit, dir, file] ∧ Plain ".events.jsonl" dir file
  -- so does an epoch with a minus, and a subsystem or a unit that is no one name
  positive : ∀ subsystem unit epoch start, Whole start → bucketPath root subsystem unit epoch start = .ok path →
    Name subsystem ∧ Name unit ∧ 0 ≤ epoch

end Right

/-! ## The tests -/

section Tests

variable {cwd root path : String}

theorem below_unique {names names' : List String} (below : Below cwd root path names)
    (below' : Below cwd root path names') :
    names = names' := List.append_cancel_left (below.symm.trans below')

section Segment

variable {cam dir file : String} {stamp : List Char}

theorem parse_tested (some_ : path ≠ "") (below : Below cwd root path ["vms", cam, dir, file]) (digits : isDigits cam)
    (accepted : matchesEpoch dir) (stamped : stampIn segmentEnding file = some stamp) :
    parse cwd path root = do
      let cam ← intOf cam.toList
      let epoch ← intOf (dir.toList.drop 1)
      let start ← PathParsers.strptime stamp
      return some (cam, epoch, start) := by
  have rel : relparts cwd path root = pure ["vms", cam, dir, file] := relparts_below some_ below
  rw [parse, rel, pure_bind]
  dsimp only
  rw [if_neg (by simp [digits, accepted]), stamped]

/-- A path under the root passes the tests of `parse`, or is none. -/
theorem parse_cases (some_ : path ≠ "") (under : Under cwd root path) :
    parse cwd path root = .ok none ∨ ∃ cam dir file stamp, Below cwd root path ["vms", cam, dir, file] ∧
      isDigits cam ∧ matchesEpoch dir ∧ stampIn segmentEnding file = some stamp := by
  obtain ⟨names, below⟩ := under
  have rel : relparts cwd path root = pure (if names = [] then ["."] else names) := relparts_below some_ below.symm
  rw [parse, rel, pure_bind]
  obtain _ | ⟨sub, _ | ⟨cam, _ | ⟨dir, _ | ⟨file, _ | ⟨more, rest⟩⟩⟩⟩⟩ := names
  case cons.cons.cons.cons.nil =>
    rw [if_neg (List.cons_ne_nil _ _)]
    dsimp only
    by_cases refused : (sub ≠ "vms" || !isDigits cam || !matchesEpoch dir) = true
    · exact .inl (if_pos refused)
    · rw [if_neg refused]
      simp only [Bool.or_eq_true, decide_eq_true_eq, Bool.not_eq_true', not_or, not_not, Bool.not_eq_false] at refused
      obtain ⟨⟨rfl, digits⟩, accepted⟩ := refused
      cases stamped : stampIn segmentEnding file with
      | none => exact .inl rfl
      | some stamp => exact .inr ⟨cam, dir, file, stamp, below.symm, digits, accepted, stamped⟩
  all_goals exact .inl rfl

end Segment

section Bucket

variable {subsystem unit dir file : String} {stamp : List Char}

theorem parseBucket_tested (some_ : path ≠ "") (below : Below cwd root path [subsystem, unit, dir, file])
    (accepted : matchesEpoch dir) (stamped : stampIn eventsEnding file = some stamp) :
    parseBucket cwd path root = do
      let start ← PathParsers.strptime stamp
      let epoch ← intOf (dir.toList.drop 1)
      return some (subsystem, unit, epoch, start.timestamp) := by
  have rel : relparts cwd path root = pure [subsystem, unit, dir, file] := relparts_below some_ below
  rw [parseBucket, rel, pure_bind]
  dsimp only
  rw [if_neg (by simp [accepted]), stamped]

/-- A path under the root passes the tests of `parse_bucket`, or is none. -/
theorem parseBucket_cases (some_ : path ≠ "") (under : Under cwd root path) :
    parseBucket cwd path root = .ok none ∨ ∃ subsystem unit dir file stamp,
      Below cwd root path [subsystem, unit, dir, file] ∧ matchesEpoch dir ∧ stampIn eventsEnding file = some stamp := by
  obtain ⟨names, below⟩ := under
  have rel : relparts cwd path root = pure (if names = [] then ["."] else names) := relparts_below some_ below.symm
  rw [parseBucket, rel, pure_bind]
  obtain _ | ⟨subsystem, _ | ⟨unit, _ | ⟨dir, _ | ⟨file, _ | ⟨more, rest⟩⟩⟩⟩⟩ := names
  case cons.cons.cons.cons.nil =>
    rw [if_neg (List.cons_ne_nil _ _)]
    dsimp only
    by_cases refused : (!matchesEpoch dir) = true
    · exact .inl (if_pos refused)
    · rw [if_neg refused]
      rw [Bool.not_eq_true', Bool.not_eq_false] at refused
      cases stamped : stampIn eventsEnding file with
      | none => exact .inl rfl
      | some stamp => exact .inr ⟨subsystem, unit, dir, file, stamp, below.symm, refused, stamped⟩
  all_goals exact .inl rfl

end Bucket

end Tests

/-! ## Plain names are the encoders' -/

theorem plain_encoded {t : DateTime} (dated : Dated t) (ending : String) (m : Nat) :
    Plain ending (epochDir m) (t.stamp ++ ending) := by
  have length := shaped_length (shapedStamp dated.1)
  constructor
  case epoch =>
    rw [toList_epochDir]
    exact shortest_toString m
  case day =>
    rw [String.toList_append, List.take_left' length]
    exact ⟨shapedStamp dated.1, (shapedStamp_time dated.1).symm ▸ dated⟩
  case whole => rw [String.toList_append, List.drop_left' length]

theorem Plain.canonical {ending dir file : String} (plain : Plain ending dir file) (accepted : matchesEpoch dir) :
    ∃ (m : Nat) (t : DateTime), Dated t ∧ dir = epochDir m ∧ file = t.stamp ++ ending := by
  obtain ⟨shortest, ⟨shaped, dated⟩, whole⟩ := plain
  obtain ⟨rest, letter⟩ := letter_of_matchesEpoch accepted
  rw [letter, List.drop_one, List.tail_cons, ← String.toList_ofList (l := rest), shortest_iff] at shortest
  obtain ⟨m, digits⟩ := shortest
  refine ⟨m, shaped.time, dated, String.toList_injective ?_, String.toList_injective ?_⟩
  · have same : toString (m : Int) = toString m := rfl
    rw [letter, toList_epochDir, same, ← digits, String.toList_ofList]
  · rw [String.toList_append, shaped.stamp_time, ← whole, List.take_append_drop]

section Encoded

variable (cwd root : String)

theorem below_segmentPath (cam epoch : Int) (t : DateTime) : Below cwd root (segmentPath root cam epoch t)
    ["vms", toString cam, epochDir epoch, t.stamp ++ ".mp4"] := by
  refine partsOf_join cwd root ?_
  simp only [List.forall_mem_cons]
  exact ⟨name_vms, name_toString cam, name_epochDir epoch, name_file t (by decide), List.forall_mem_nil _⟩

theorem segmentPath_ne_empty (cam epoch : Int) (t : DateTime) : segmentPath root cam epoch t ≠ "" := by
  refine join_ne_empty ?_ (List.cons_ne_nil _ _)
  simp only [List.forall_mem_cons]
  exact ⟨name_vms, name_toString cam, name_epochDir epoch, name_file t (by decide), List.forall_mem_nil _⟩

theorem stampIn_file {t : DateTime} (exists_ : t.Exists) {ending : String} (closed : '\n' ∉ ending.toList) :
    stampIn ending.toList (t.stamp ++ ending) = some t.stamp.toList := by
  have same : t.stamp ++ ending = String.ofList (t.stamp.toList ++ ending.toList) := by
    rw [← String.toList_append, String.ofList_toList]
  rw [same, stampIn_shaped (shapedStamp exists_) closed]

theorem parse_segmentPath (n m : Nat) {t : DateTime} (exists_ : t.Exists) :
    parse cwd (segmentPath root n m t) root = .ok (some (n, m, t)) := by
  rw [parse_tested (segmentPath_ne_empty root n m t) (below_segmentPath cwd root n m t) (isDigits_toString n)
    (matchesEpoch_epochDir m) (stampIn_file exists_ (by decide : '\n' ∉ ".mp4".toList)), toList_epochDir, List.drop_one,
    List.tail_cons, intOf_toString, intOf_toString, strptime_shaped (shapedStamp exists_), strptime_stamp exists_]
  rfl

end Encoded

theorem SegmentsHold.canonical {cwd root path : String} (hold : SegmentsHold cwd root path) {cam dir file : String}
    {stamp : List Char} (below : Below cwd root path ["vms", cam, dir, file]) (digits : isDigits cam)
    (accepted : matchesEpoch dir) (stamped : stampIn segmentEnding file = some stamp) :
    ∃ (n m : Nat) (t : DateTime), Dated t ∧ path = segmentPath root n m t := by
  obtain ⟨spelled, shortest, plain⟩ := hold.plain cam dir file below digits accepted (by rw [stamped]; rfl)
  obtain ⟨n, rfl⟩ := shortest_iff.mp shortest
  obtain ⟨m, t, dated, rfl, rfl⟩ := plain.canonical accepted
  exact ⟨n, m, t, dated, spelled⟩

theorem SegmentsHold.parse_made {cwd root path : String} (hold : SegmentsHold cwd root path) {cam epoch : Int}
    {start : DateTime} (dated : Dated start) (made : segmentPath root cam epoch start = path) :
    parse cwd path root = .ok (some (cam, epoch, start)) := by
  obtain ⟨cams, epochs⟩ := hold.positive cam epoch start dated made.symm
  obtain ⟨n, rfl⟩ := Int.eq_ofNat_of_zero_le cams
  obtain ⟨m, rfl⟩ := Int.eq_ofNat_of_zero_le epochs
  rw [← made]
  exact parse_segmentPath cwd root n m dated.1

/-- `parse` is right on a path under the root exactly if the names that pass its tests are plain. -/
theorem parsesSegments_iff {cwd root path : String} (under : Under cwd root path) :
    ParsesSegments cwd root path ↔ SegmentsHold cwd root path := by
  constructor
  · rintro ⟨⟨found, returned⟩, exact_⟩
    have some_ : path ≠ "" := by
      rintro rfl
      cases returned
    constructor
    case some_ => exact some_
    case plain =>
      intro cam dir file below digits accepted stamped
      obtain ⟨stamp, stamped⟩ := Option.isSome_iff_exists.mp stamped
      -- what passes the tests and is returned is a value, so the path is made of it
      have value := returned
      rw [parse_tested some_ below digits accepted stamped] at value
      simp only [bind_eq_ok] at value
      obtain ⟨n, -, m, -, t, -, value⟩ := value
      rw [← Except.ok.inj value] at returned
      obtain ⟨dated, made⟩ := (exact_ n m t).mp returned
      have names := below_unique (made ▸ below_segmentPath cwd root n m t) below
      simp only [List.cons.injEq, and_true, true_and] at names
      obtain ⟨rfl, rfl, rfl⟩ := names
      obtain ⟨n, rfl⟩ := Int.eq_ofNat_of_zero_le (nonneg_of_isDigits digits)
      obtain ⟨m, rfl⟩ := Int.eq_ofNat_of_zero_le (nonneg_of_matchesEpoch accepted)
      exact ⟨made.symm, shortest_toString n, plain_encoded dated _ m⟩
    case positive =>
      intro cam epoch start dated made
      have parsed := (exact_ cam epoch start).mpr ⟨dated, made.symm⟩
      obtain none_ | ⟨cam', dir, file, stamp, below, digits, accepted, -⟩ := parse_cases some_ under
      · rw [none_] at parsed
        cases parsed
      · have names := below_unique (made ▸ below_segmentPath cwd root cam epoch start) below
        simp only [List.cons.injEq, and_true, true_and] at names
        obtain ⟨rfl, rfl, -⟩ := names
        exact ⟨nonneg_of_isDigits digits, nonneg_of_matchesEpoch accepted⟩
  · intro hold
    obtain none_ | ⟨cam, dir, file, stamp, below, digits, accepted, stamped⟩ := parse_cases hold.some_ under
    · refine ⟨⟨none, none_⟩, fun cam epoch start => ⟨fun parsed => ?_, fun both => hold.parse_made both.1 both.2⟩⟩
      rw [none_] at parsed
      cases parsed
    · obtain ⟨n, m, t, dated, made⟩ := hold.canonical below digits accepted stamped
      have parsed := hold.parse_made dated made.symm
      refine ⟨⟨_, parsed⟩, fun cam epoch start => ⟨fun same => ?_, fun both => hold.parse_made both.1 both.2⟩⟩
      rw [parsed] at same
      cases same
      exact ⟨dated, made.symm⟩

/-! ## Buckets -/

theorem whole_iff {start : ℚ} : Whole start ↔ ∃ t : DateTime, Dated t ∧ start = t.timestamp := by
  constructor
  · rintro ⟨n, rfl, t, read, dated⟩
    refine ⟨t, dated, ?_⟩
    rw [(timestamp_fromTimestamp read).2]
  · rintro ⟨t, dated, rfl⟩
    exact ⟨t.timestamp, rfl, t, fromTimestamp_timestamp dated.1, dated⟩

section Encoded

variable (cwd root : String) {subsystem unit : String}

theorem bucketPath_eq (subsystem unit : String) (epoch : Int) {t : DateTime} (exists_ : t.Exists) :
    bucketPath root subsystem unit epoch t.timestamp =
      .ok (join root [subsystem, unit, epochDir epoch, t.stamp ++ ".events.jsonl"]) := by
  have joined (names : List String) : join (unitDir root subsystem unit) names =
      join root (subsystem :: unit :: names) := by
    rw [unitDir, join_cons, join_cons, join_cons, join_cons, join_nil]
  have stamped : stampOf t.timestamp = pure t.stamp := by
    rw [stampOf, fromTimestamp_timestamp exists_]
    rfl
  rw [bucketPath, stamped, pure_bind, joined]
  rfl

theorem names_bucket (subsystems : Name subsystem) (units : Name unit) (epoch : Int) (t : DateTime) :
    ∀ name ∈ [subsystem, unit, epochDir epoch, t.stamp ++ ".events.jsonl"], Name name := by
  simp only [List.forall_mem_cons]
  exact ⟨subsystems, units, name_epochDir epoch, name_file t (by decide), List.forall_mem_nil _⟩

theorem parse_bucketPath (subsystems : Name subsystem) (units : Name unit) (m : Nat) {t : DateTime}
    (exists_ : t.Exists) :
    parseBucket cwd (join root [subsystem, unit, epochDir m, t.stamp ++ ".events.jsonl"]) root =
      .ok (some (subsystem, unit, m, t.timestamp)) := by
  have names := names_bucket subsystems units m t
  rw [parseBucket_tested (join_ne_empty names (List.cons_ne_nil _ _)) (partsOf_join cwd root names)
    (matchesEpoch_epochDir m) (stampIn_file exists_ (by decide : '\n' ∉ ".events.jsonl".toList)), toList_epochDir,
    List.drop_one, List.tail_cons, intOf_toString, strptime_shaped (shapedStamp exists_), strptime_stamp exists_]
  rfl

end Encoded

theorem BucketsHold.parse_made {cwd root path : String} (hold : BucketsHold cwd root path) {subsystem unit : String}
    {epoch : Int} {start : ℚ} (whole : Whole start) (made : bucketPath root subsystem unit epoch start = .ok path) :
    parseBucket cwd path root = .ok (some (subsystem, unit, epoch, start)) := by
  obtain ⟨subsystems, units, epochs⟩ := hold.positive subsystem unit epoch start whole made
  obtain ⟨m, rfl⟩ := Int.eq_ofNat_of_zero_le epochs
  obtain ⟨t, dated, rfl⟩ := whole_iff.mp whole
  rw [bucketPath_eq root subsystem unit m dated.1] at made
  rw [← Except.ok.inj made]
  exact parse_bucketPath cwd root subsystems units m dated.1

theorem BucketsHold.canonical {cwd root path : String} (hold : BucketsHold cwd root path)
    {subsystem unit dir file : String} {stamp : List Char} (below : Below cwd root path [subsystem, unit, dir, file])
    (accepted : matchesEpoch dir) (stamped : stampIn eventsEnding file = some stamp) :
    ∃ (m : Nat) (start : ℚ), Whole start ∧ bucketPath root subsystem unit m start = .ok path := by
  obtain ⟨spelled, plain⟩ := hold.plain subsystem unit dir file below accepted (by rw [stamped]; rfl)
  obtain ⟨m, t, dated, rfl, rfl⟩ := plain.canonical accepted
  refine ⟨m, t.timestamp, whole_iff.mpr ⟨t, dated, rfl⟩, ?_⟩
  rw [bucketPath_eq root subsystem unit m dated.1, spelled]

/-- `parse_bucket` is right on a path under the root exactly if the names that pass its tests are plain. -/
theorem parsesBuckets_iff {cwd root path : String} (under : Under cwd root path) :
    ParsesBuckets cwd root path ↔ BucketsHold cwd root path := by
  constructor
  · rintro ⟨⟨found, returned⟩, exact_⟩
    have some_ : path ≠ "" := by
      rintro rfl
      cases returned
    have names {subsystem unit dir file : String} (below : Below cwd root path [subsystem, unit, dir, file]) :
        Name subsystem ∧ Name unit := by
      have all := @name_partsOf cwd path
      rw [below] at all
      exact ⟨all _ (by simp), all _ (by simp)⟩
    constructor
    case some_ => exact some_
    case plain =>
      intro subsystem unit dir file below accepted stamped
      obtain ⟨stamp, stamped⟩ := Option.isSome_iff_exists.mp stamped
      have value := returned
      rw [parseBucket_tested some_ below accepted stamped] at value
      simp only [bind_eq_ok] at value
      obtain ⟨t, -, m, -, value⟩ := value
      rw [← Except.ok.inj value] at returned
      obtain ⟨whole, made⟩ := (exact_ subsystem unit m t.timestamp).mp returned
      obtain ⟨t, dated, start⟩ := whole_iff.mp whole
      rw [start, bucketPath_eq root subsystem unit m dated.1] at made
      have made := Except.ok.inj made
      have names' := names_bucket (names below).1 (names below).2 m t
      have same := below_unique (made ▸ partsOf_join cwd root names') below
      simp only [List.cons.injEq, and_true, true_and] at same
      obtain ⟨rfl, rfl⟩ := same
      obtain ⟨m, rfl⟩ := Int.eq_ofNat_of_zero_le (nonneg_of_matchesEpoch accepted)
      exact ⟨made.symm, plain_encoded dated _ m⟩
    case positive =>
      intro subsystem unit epoch start whole made
      have parsed := (exact_ subsystem unit epoch start).mpr ⟨whole, made⟩
      obtain none_ | ⟨subsystem', unit', dir, file, stamp, below, accepted, stamped⟩ := parseBucket_cases some_ under
      · rw [none_] at parsed
        cases parsed
      · -- the value that is read holds the names
        rw [parseBucket_tested some_ below accepted stamped] at parsed
        simp only [bind_eq_ok] at parsed
        obtain ⟨t, -, m, -, value⟩ := parsed
        have value := Option.some.inj (Except.ok.inj value)
        simp only [Prod.mk.injEq] at value
        obtain ⟨rfl, rfl, rfl, rfl⟩ := value
        obtain ⟨subsystems, units⟩ := names below
        obtain ⟨t', dated, start⟩ := whole_iff.mp whole
        rw [start, bucketPath_eq root _ _ _ dated.1] at made
        have names' := names_bucket subsystems units m t'
        have same := below_unique (Except.ok.inj made ▸ partsOf_join cwd root names') below
        simp only [List.cons.injEq, and_true, true_and] at same
        obtain ⟨rfl, -⟩ := same
        exact ⟨subsystems, units, nonneg_of_matchesEpoch accepted⟩
  · intro hold
    obtain none_ | ⟨subsystem, unit, dir, file, stamp, below, accepted, stamped⟩ := parseBucket_cases hold.some_ under
    · refine ⟨⟨none, none_⟩, fun subsystem unit epoch start =>
        ⟨fun parsed => ?_, fun both => hold.parse_made both.1 both.2⟩⟩
      rw [none_] at parsed
      cases parsed
    · obtain ⟨m, start, whole, made⟩ := hold.canonical below accepted stamped
      have parsed := hold.parse_made whole made
      refine ⟨⟨_, parsed⟩, fun subsystem unit epoch start =>
        ⟨fun same => ?_, fun both => hold.parse_made both.1 both.2⟩⟩
      rw [parsed] at same
      cases same
      exact ⟨whole, made⟩

/-! ## Both parsers -/

end EdgeVms.Verified.PathParsers
