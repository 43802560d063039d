import EdgeVms.Python.Value

/-! # Paths and times

`os.path.join`, and the time stamps that name files.
-/

namespace EdgeVms.Python

namespace Path

/-- `os.path.join(path, part)`: an absolute part starts again. -/
def joinTwo (path part : String) : String :=
  if part.toList.head? = some '/' then part
  else if path = "" || path.toList.getLast? = some '/' then path ++ part
  else path ++ "/" ++ part

/-- `os.path.join(path, *parts)`. -/
def join (path : String) (parts : List String) : String := parts.foldl joinTwo path

@[simp] theorem join_nil (path : String) : join path [] = path := rfl

@[simp] theorem join_cons (path part : String) (parts : List String) :
    join path (part :: parts) = join (joinTwo path part) parts := rfl

example : join "/data" ["vms", "7", "e1"] = "/data/vms/7/e1" := by decide

example : join "/data" ["/etc", "e1"] = "/etc/e1" := by decide

/-- One component: not empty, and without a slash. -/
abbrev Component (part : String) : Prop := Atomic '/' part

/-- Behind a component comes a slash, whatever stands before it. -/
theorem joinTwo_component (path : String) {part : String} (component : Component part) :
    ∃ before : List Char, (joinTwo path part).toList = before ++ part.toList ∧
      (before = [] ∨ ∃ above, before = above ++ ['/']) := by
  have relative : part.toList.head? ≠ some '/' := fun absolute =>
    component.whole (List.mem_of_mem_head? absolute)
  rw [joinTwo, if_neg relative]
  by_cases open_ : (path = "" || path.toList.getLast? = some '/') = true
  · rw [if_pos open_]
    refine ⟨path.toList, String.toList_append, ?_⟩
    obtain empty | slash := Bool.or_eq_true_iff.mp open_
    · exact .inl (by simpa using empty)
    · have last := of_decide_eq_true slash
      exact .inr ⟨path.toList.dropLast, (List.dropLast_append_getLast? _ last).symm⟩
  · rw [if_neg open_]
    exact ⟨path.toList ++ ['/'], by simp, .inr ⟨path.toList, rfl⟩⟩

theorem split_last {before before' after after' : List Char}
    (whole : '/' ∉ after) (whole' : '/' ∉ after') (same : before ++ '/' :: after = before' ++ '/' :: after') :
    before = before' ∧ after = after' := by
  obtain ⟨middle, before_eq, after_eq⟩ | ⟨middle, before_eq, after_eq⟩ := List.append_eq_append_iff.mp same
  · cases middle with
    | nil => exact ⟨by simpa using before_eq.symm, by simpa using after_eq⟩
    | cons c middle =>
      obtain ⟨rfl, rfl⟩ := List.cons.inj after_eq
      exact absurd (by simp) whole
  · cases middle with
    | nil => exact ⟨by simpa using before_eq, by simpa using after_eq.symm⟩
    | cons c middle =>
      obtain ⟨rfl, rfl⟩ := List.cons.inj after_eq
      exact absurd (by simp) whole'

/-- The last component of a path is what was joined last. -/
theorem component_inj {before before' : List Char} {part part' : String}
    (whole : '/' ∉ part.toList) (whole' : '/' ∉ part'.toList)
    (above : before = [] ∨ ∃ above, before = above ++ ['/'])
    (above' : before' = [] ∨ ∃ above, before' = above ++ ['/'])
    (same : before ++ part.toList = before' ++ part'.toList) : before = before' ∧ part = part' := by
  obtain rfl | ⟨above, rfl⟩ := above
  · obtain rfl | ⟨above', rfl⟩ := above'
    · exact ⟨rfl, String.toList_injective (by simpa using same)⟩
    · rw [List.nil_append] at same
      exact absurd (by rw [same]; simp) whole
  · obtain rfl | ⟨above', rfl⟩ := above'
    · rw [List.nil_append] at same
      exact absurd (by rw [← same]; simp) whole'
    · obtain ⟨rfl, parts⟩ := split_last whole whole' (by simpa using same)
      exact ⟨rfl, String.toList_injective parts⟩

theorem joinTwo_file {path dir file : String} (dirs : Component dir) (files : Component file) :
    (joinTwo (joinTwo path dir) file).toList = (joinTwo path dir).toList ++ '/' :: file.toList := by
  obtain ⟨before, ends, -⟩ := joinTwo_component path dirs
  have some_ : dir.toList ≠ [] := fun empty => dirs.nonempty (by simpa using empty)
  have closed : ¬ (joinTwo path dir = "" || (joinTwo path dir).toList.getLast? = some '/') = true := by
    intro open_
    obtain empty | slash := Bool.or_eq_true_iff.mp open_
    · rw [of_decide_eq_true empty] at ends
      exact some_ (List.append_eq_nil_iff.mp ends.symm).2
    · have last := of_decide_eq_true slash
      rw [ends, List.getLast?_append_of_ne_nil _ some_] at last
      exact dirs.whole (List.mem_of_getLast? last)
  have relative : file.toList.head? ≠ some '/' := fun absolute =>
    files.whole (List.mem_of_mem_head? absolute)
  rw [joinTwo, if_neg relative, if_neg closed]
  simp

/-- Two paths that end in a directory and a file are the same only if both are. -/
theorem joinTwo_inj {path path' dir dir' file file' : String} (dirs : Component dir) (dirs' : Component dir')
    (files : Component file) (files' : Component file')
    (same : joinTwo (joinTwo path dir) file = joinTwo (joinTwo path' dir') file') :
    dir = dir' ∧ file = file' := by
  have chars := congrArg String.toList same
  rw [joinTwo_file dirs files, joinTwo_file dirs' files'] at chars
  obtain ⟨above, ends⟩ := split_last files.whole files'.whole chars
  obtain ⟨before, dir_eq, slash⟩ := joinTwo_component path dirs
  obtain ⟨before', dir_eq', slash'⟩ := joinTwo_component path' dirs'
  rw [dir_eq, dir_eq'] at above
  exact ⟨(component_inj dirs.whole dirs'.whole slash slash' above).2, String.toList_injective ends⟩

end Path

/-! ## Time -/

/-- To the nearest integer, halves to the even one. -/
def roundEven (x : ℚ) : Int :=
  let rest := x - ⌊x⌋
  if rest < 1 / 2 ∨ (rest = 1 / 2 ∧ ⌊x⌋ % 2 = 0) then ⌊x⌋ else ⌊x⌋ + 1

structure DateTime where
  year : Nat
  month : Nat
  day : Nat
  hour : Nat
  minute : Nat
  second : Nat
  deriving DecidableEq

namespace DateTime

/-- `datetime.fromtimestamp(t, timezone.utc)`, to the second. -/
def fromTimestamp (t : ℚ) : Except Error DateTime :=
  let seconds := roundEven (t * 1000000) / 1000000
  let days := seconds / 86400 + 719468
  let rest := (seconds % 86400).toNat
  -- days of a 400 year era, counted from the first of March
  let era := days / 146097
  let day := (days % 146097).toNat
  let year := (day - day / 1460 + day / 36524 - day / 146096) / 365
  let dayOfYear := day - (365 * year + year / 4 - year / 100)
  let month := (5 * dayOfYear + 2) / 153
  let civil := era * 400 + year + (if month < 10 then 0 else 1)
  if civil < 1 ∨ 9999 < civil then .error .valueError
  else .ok
    { year := civil.toNat
      month := if month < 10 then month + 3 else month - 9
      day := dayOfYear - (153 * month + 2) / 5 + 1
      hour := rest / 3600
      minute := rest / 60 % 60
      second := rest % 60 }

/-- `f"{n:0{width}d}"` -/
def padded (width n : Nat) : String :=
  String.ofList (List.replicate (width - (toString n).length) '0') ++ toString n

/-- `strftime("%Y%m%dT%H%M%SZ")` -/
def stamp (t : DateTime) : String :=
  padded 4 t.year ++ padded 2 t.month ++ padded 2 t.day ++ "T" ++ padded 2 t.hour ++ padded 2 t.minute ++
    padded 2 t.second ++ "Z"

theorem not_mem_padded {c : Char} (digit : c.isDigit = false) (width n : Nat) :
    c ∉ (padded width n).toList := by
  have other : c ≠ '0' := by
    rintro rfl
    cases digit
  have clear : c ∉ (toString n).toList := by
    intro member
    have decimal := Nat.isDigit_of_mem_toDigits (b := 10) (by decide) (by decide) (by simpa using member)
    rw [digit] at decimal
    cases decimal
  simp only [padded, String.toList_append, String.toList_ofList, List.mem_append, List.mem_replicate]
  tauto

/-- A stamp begins no directory. -/
theorem slash_not_mem_stamp (t : DateTime) : '/' ∉ t.stamp.toList := by
  simp only [stamp, String.toList_append, List.mem_append, not_or]
  have digits := fun width n => not_mem_padded (c := '/') (by decide) width n
  have letters : '/' ∉ "T".toList ∧ '/' ∉ "Z".toList := by decide
  exact ⟨⟨⟨⟨⟨⟨⟨digits _ _, digits _ _⟩, digits _ _⟩, letters.1⟩, digits _ _⟩, digits _ _⟩, digits _ _⟩, letters.2⟩

/-- `t.timestamp()` of a time in UTC. -/
def timestamp (t : DateTime) : Int :=
  let year : Int := if t.month ≤ 2 then t.year - 1 else t.year
  let month : Int := if t.month ≤ 2 then t.month + 9 else t.month - 3
  let dayOfYear := (153 * month + 2) / 5 + t.day - 1
  let days := year / 400 * 146097 + year % 400 * 365 + year % 400 / 4 - year % 400 / 100 + dayOfYear - 719468
  days * 86400 + t.hour * 3600 + t.minute * 60 + t.second

def daysIn (year month : Nat) : Nat :=
  if month = 2 then if year % 4 = 0 ∧ (year % 100 ≠ 0 ∨ year % 400 = 0) then 29 else 28
  else if month ∈ [4, 6, 9, 11] then 30
  else 31

/-- A time that there is. -/
def Exists (t : DateTime) : Prop :=
  1 ≤ t.year ∧ t.year ≤ 9999 ∧ 1 ≤ t.month ∧ t.month ≤ 12 ∧ 1 ≤ t.day ∧ t.day ≤ daysIn t.year t.month ∧
    t.hour ≤ 23 ∧ t.minute ≤ 59 ∧ t.second ≤ 59

instance (t : DateTime) : Decidable t.Exists := inferInstanceAs (Decidable (_ ∧ _))

/-- The number that a run of decimal digits stands for. -/
def number (digits : List Char) : Nat := digits.foldl (fun n c => 10 * n + (c.toNat - 48)) 0

/-- `datetime.strptime(stamp, "%Y%m%dT%H%M%SZ")`, of eight digits, a `T`, six digits and a `Z`. -/
def strptime (stamp : List Char) : Except Error DateTime :=
  let t : DateTime :=
    { year := number (stamp.take 4)
      month := number ((stamp.drop 4).take 2)
      day := number ((stamp.drop 6).take 2)
      hour := number ((stamp.drop 9).take 2)
      minute := number ((stamp.drop 11).take 2)
      second := number ((stamp.drop 13).take 2) }
  if t.Exists then .ok t else .error .valueError

example : timestamp <$> strptime "20240229T123456Z".toList = .ok 1709210096 := by decide

example : stamp <$> fromTimestamp 1709210096 = .ok "20240229T123456Z" := by decide +kernel

end DateTime

end EdgeVms.Python
