import EdgeVms.Python.Path
import Mathlib.Algebra.Order.Group.Nat
import Mathlib.Order.Monotone.Basic

/-! # The calendar

Days are counted in eras of four hundred years, years from the first of March.  So
`timestamp` and `fromTimestamp` are inverses, from year one to year 9999.
-/

namespace EdgeVms.Python.DateTime

/-! ## Years of an era -/

/-- The first day of a year of the era. -/
def startOf (year : Nat) : Nat := 365 * year + year / 4 - year / 100

/-- The day without the leap days before it. -/
def settled (day : Nat) : Nat := day - day / 1460 + day / 36524 - day / 146096

def yearIn (day : Nat) : Nat := settled day / 365

theorem settled_step (day : Nat) : settled day ≤ settled (day + 1) := by
  have fours : day / 1460 ≤ day ∧ (day + 1) / 1460 ≤ day / 1460 + 1 := by omega
  -- Every fourth of the centuries that come back is taken away again, and not before it came back.
  have centuries (n : Nat) : n / 146096 = n / 36524 / 4 := (Nat.div_div_eq_div_mul n 36524 4).symm
  have back : (day + 1) / 36524 = day / 36524 ∨ (day + 1) / 36524 = day / 36524 + 1 := by omega
  unfold settled
  rw [centuries, centuries]
  generalize day / 36524 = b at back
  generalize (day + 1) / 36524 = b' at back
  generalize day / 1460 = a at fours
  generalize (day + 1) / 1460 = a' at fours
  have kept : b + b' / 4 ≤ b' + b / 4 := by omega
  have less : b / 4 ≤ b ∧ b' / 4 ≤ b' := by omega
  generalize b / 4 = c at kept less
  generalize b' / 4 = c' at kept less
  omega

theorem yearIn_mono {day day' : Nat} (before : day ≤ day') : yearIn day ≤ yearIn day' :=
  Nat.div_le_div_right (monotone_nat_of_le_succ settled_step before)

/-- The day after the last one of a year. -/
def endOf (year : Nat) : Nat := if year < 399 then startOf (year + 1) else 146097

theorem yearIn_ends : ∀ year < 400, yearIn (startOf year) = year ∧ yearIn (endOf year - 1) = year := by decide +kernel

theorem yearIn_eq {year day : Nat} (inside : year < 400) (low : startOf year ≤ day) (high : day < endOf year) :
    yearIn day = year := by
  obtain ⟨first, last⟩ := yearIn_ends year inside
  have after := yearIn_mono low
  have before := yearIn_mono (Nat.le_sub_one_of_lt high)
  rw [first] at after
  rw [last] at before
  exact Nat.le_antisymm before after

theorem yearIn_bounds {day : Nat} (inside : day < 146097) :
    yearIn day < 400 ∧ startOf (yearIn day) ≤ day ∧ day < endOf (yearIn day) := by
  have below : yearIn day < 400 := by
    have last : yearIn day ≤ yearIn (endOf 399 - 1) := yearIn_mono (Nat.le_sub_one_of_lt inside)
    rw [(yearIn_ends 399 (by decide)).2] at last
    omega
  refine ⟨below, ?_, ?_⟩
  · by_contra early
    rw [not_le] at early
    have last := yearIn_mono (Nat.le_sub_one_of_lt early)
    cases found : yearIn day with
    | zero =>
      rw [found] at early
      exact absurd early (Nat.not_lt_zero _)
    | succ before =>
      have end_ : endOf before = startOf (before + 1) := by rw [endOf, if_pos (by omega)]
      rw [found, ← end_, (yearIn_ends before (by omega)).2] at last
      omega
  · rw [endOf]
    split
    next before =>
      by_contra late
      have first := yearIn_mono (not_lt.mp late)
      rw [(yearIn_ends _ (by omega)).1] at first
      omega
    next => exact inside

/-! ## Months from March on -/

def lengths : List Nat := [31, 30, 31, 30, 31, 31, 30, 31, 30, 31, 31, 29]

def monthIn (dayOfYear : Nat) : Nat := (5 * dayOfYear + 2) / 153

/-- The day of the year on which a month begins. -/
def beginning (month : Nat) : Nat := (153 * month + 2) / 5

/-- A day of a month; the leap day is the last one of the year. -/
theorem monthIn_eq : ∀ month < 12, ∀ day < lengths.getD month 0, monthIn (beginning month + day) = month ∧
    beginning month + day < 366 ∧ (beginning month + day = 365 → month = 11 ∧ day = 28) := by decide +kernel

theorem monthIn_bounds : ∀ dayOfYear < 366, monthIn dayOfYear < 12 ∧ beginning (monthIn dayOfYear) ≤ dayOfYear ∧
    dayOfYear - beginning (monthIn dayOfYear) < lengths.getD (monthIn dayOfYear) 0 ∧
      (dayOfYear < 365 → monthIn dayOfYear = 11 → dayOfYear - beginning 11 < 28) := by decide +kernel

def Leap (year : Nat) : Prop := year % 4 = 0 ∧ (year % 100 ≠ 0 ∨ year % 400 = 0)

instance (year : Nat) : Decidable (Leap year) := inferInstanceAs (Decidable (_ ∧ _))

theorem endOf_eq : ∀ year < 400, endOf year = startOf year + if Leap (year + 1) then 366 else 365 := by
  intro year inside
  by_cases leap : Leap (year + 1)
  · rw [if_pos leap]
    unfold Leap at leap
    unfold endOf startOf
    split <;> omega
  · rw [if_neg leap]
    unfold Leap at leap
    unfold endOf startOf
    split <;> omega

theorem endOf_le : ∀ year < 400, endOf year ≤ 146097 := by
  intro year inside
  unfold endOf startOf
  split <;> omega

theorem leap_mod (year : Nat) : Leap (year % 400 + 1) ↔ Leap (year + 1) := by
  unfold Leap
  omega

/-- The month's length in a year counted from January. -/
theorem daysIn_eq {year month : Nat} (low : 1 ≤ month) (high : month ≤ 12) :
    daysIn year month = if month = 2 ∧ ¬ Leap year then 28
      else lengths.getD (if month ≤ 2 then month + 9 else month - 3) 0 := by
  have february : daysIn year 2 = if Leap year then 29 else 28 := rfl
  obtain rfl | rfl | rfl | rfl | rfl | rfl | rfl | rfl | rfl | rfl | rfl | rfl : month = 1 ∨ month = 2 ∨ month = 3 ∨
    month = 4 ∨ month = 5 ∨ month = 6 ∨ month = 7 ∨ month = 8 ∨ month = 9 ∨ month = 10 ∨ month = 11 ∨ month = 12 := by
    omega
  case inr.inl =>
    rw [february]
    by_cases leap : Leap year <;> simp [leap, lengths]
  all_goals simp [daysIn, lengths]

/-! ## There and back -/

theorem roundEven_int (n : Int) : roundEven n = n := by
  simp [roundEven]

section March

variable (t : DateTime)

def marchYear : Nat := if t.month ≤ 2 then t.year - 1 else t.year

def marchMonth : Nat := if t.month ≤ 2 then t.month + 9 else t.month - 3

def dayOfYear : Nat := beginning t.marchMonth + (t.day - 1)

/-- Days from the first of March of the year before the first one. -/
def dayNumber : Nat := t.marchYear / 400 * 146097 + (startOf (t.marchYear % 400) + t.dayOfYear)

def secondOfDay : Nat := t.hour * 3600 + t.minute * 60 + t.second

end March

theorem timestamp_eq {t : DateTime} (exists_ : t.Exists) :
    t.timestamp = ((t.dayNumber : Int) - 719468) * 86400 + t.secondOfDay := by
  obtain ⟨year, -, month, month', day, -, -, -, -⟩ := exists_
  unfold timestamp dayNumber secondOfDay dayOfYear beginning marchYear marchMonth startOf
  by_cases early : t.month ≤ 2
  · simp only [early, if_true]
    omega
  · simp only [early, if_false]
    omega

/-- The day of the year is one of that year. -/
theorem dayOfYear_lt {t : DateTime} (exists_ : t.Exists) :
    t.marchMonth < 12 ∧ t.day - 1 < lengths.getD t.marchMonth 0 ∧
      startOf (t.marchYear % 400) + t.dayOfYear < endOf (t.marchYear % 400) := by
  obtain ⟨year, -, month, month', day, days, -, -, -⟩ := exists_
  have march : t.marchMonth < 12 := by
    unfold marchMonth
    split <;> omega
  rw [daysIn_eq month month'] at days
  have short : t.day - 1 < lengths.getD t.marchMonth 0 := by
    split at days
    next february =>
      rw [marchMonth, february.1]
      show t.day - 1 < 29
      omega
    next =>
      rw [marchMonth]
      omega
  refine ⟨march, short, ?_⟩
  have inside : t.marchYear % 400 < 400 := Nat.mod_lt _ (by decide)
  obtain ⟨-, below, leapDay⟩ := monthIn_eq _ march _ short
  rw [endOf_eq _ inside, dayOfYear]
  by_cases last : beginning t.marchMonth + (t.day - 1) = 365
  · -- the twenty-ninth of February
    obtain ⟨february, day'⟩ := leapDay last
    have two : t.month = 2 := by
      unfold marchMonth at february
      split at february <;> omega
    have before : t.marchYear + 1 = t.year := by
      rw [marchYear, if_pos (by omega)]
      omega
    have leap : Leap t.year := by
      by_contra common
      rw [if_pos ⟨two, common⟩] at days
      omega
    rw [if_pos ((leap_mod _).mpr (before ▸ leap))]
    omega
  · split <;> omega

/-- The time of a day of a year and a second of the day. -/
def assembled (march dayOfYear second : Nat) : DateTime where
  year := march + if monthIn dayOfYear < 10 then 0 else 1
  month := if monthIn dayOfYear < 10 then monthIn dayOfYear + 3 else monthIn dayOfYear - 9
  day := dayOfYear - beginning (monthIn dayOfYear) + 1
  hour := second / 3600
  minute := second / 60 % 60
  second := second % 60

theorem assembled_eq {t : DateTime} (exists_ : t.Exists) : assembled t.marchYear t.dayOfYear t.secondOfDay = t := by
  obtain ⟨march, short, -⟩ := dayOfYear_lt exists_
  obtain ⟨month, -⟩ := monthIn_eq _ march _ short
  obtain ⟨low, high, first, twelve, day, -, hour, minute, second⟩ := exists_
  have year : t.marchYear + (if t.marchMonth < 10 then 0 else 1) = t.year := by
    unfold marchYear marchMonth
    split <;> split <;> omega
  have month' : (if t.marchMonth < 10 then t.marchMonth + 3 else t.marchMonth - 9) = t.month := by
    unfold marchMonth
    split <;> split <;> omega
  have hours : t.secondOfDay / 3600 = t.hour ∧ t.secondOfDay / 60 % 60 = t.minute ∧ t.secondOfDay % 60 = t.second := by
    unfold secondOfDay
    omega
  rw [assembled, dayOfYear, month, year, month', Nat.add_sub_cancel_left, Nat.sub_add_cancel day, hours.1, hours.2.1,
    hours.2.2]

theorem fromTimestamp_int {number second : Nat} (inside : second < 86400) (n : Int)
    (same : n = ((number : Int) - 719468) * 86400 + second) :
    fromTimestamp n =
      let t := assembled (number / 146097 * 400 + yearIn (number % 146097))
        (number % 146097 - startOf (yearIn (number % 146097))) second
      if t.year < 1 ∨ 9999 < t.year then .error .valueError else .ok t := by
  have whole : roundEven ((n : ℚ) * 1000000) / 1000000 = n := by
    rw [← Int.cast_ofNat, ← Int.cast_mul, roundEven_int]
    omega
  have days : n / 86400 + 719468 = number := by omega
  have rest : (n % 86400).toNat = second := by omega
  have era : (number : Int) / 146097 = (number / 146097 : Nat) := rfl
  have day : ((number : Int) % 146097).toNat = number % 146097 := rfl
  simp only [fromTimestamp, whole, days, rest, era, day]
  generalize number % 146097 = day
  have year : (day - day / 1460 + day / 36524 - day / 146096) / 365 = yearIn day := rfl
  have first : 365 * yearIn day + yearIn day / 4 - yearIn day / 100 = startOf (yearIn day) := rfl
  simp only [year, first]
  generalize day - startOf (yearIn day) = dayOfYear
  have month : (5 * dayOfYear + 2) / 153 = monthIn dayOfYear := rfl
  have firstDay : (153 * monthIn dayOfYear + 2) / 5 = beginning (monthIn dayOfYear) := rfl
  simp only [month, firstDay]
  generalize number / 146097 = era
  have civil : (era : Int) * 400 + yearIn day + (if monthIn dayOfYear < 10 then 0 else 1) =
      (assembled (era * 400 + yearIn day) dayOfYear second).year := by
    rw [assembled]
    split <;> push_cast <;> rfl
  rw [civil, Int.toNat_natCast]
  by_cases outside : (assembled (era * 400 + yearIn day) dayOfYear second).year < 1 ∨
      9999 < (assembled (era * 400 + yearIn day) dayOfYear second).year
  · rw [if_pos (by omega), if_pos outside]
  · rw [if_neg (by omega), if_neg outside]
    rfl

theorem secondOfDay_lt {t : DateTime} (exists_ : t.Exists) : t.secondOfDay < 86400 := by
  obtain ⟨-, -, -, -, -, -, hour, minute, second⟩ := exists_
  unfold secondOfDay
  omega

theorem fromTimestamp_timestamp {t : DateTime} (exists_ : t.Exists) : fromTimestamp (t.timestamp : ℚ) = .ok t := by
  obtain ⟨-, -, inside⟩ := dayOfYear_lt exists_
  have era : t.marchYear % 400 < 400 := Nat.mod_lt _ (by decide)
  have last := endOf_le _ era
  have number : t.dayNumber / 146097 = t.marchYear / 400 ∧
      t.dayNumber % 146097 = startOf (t.marchYear % 400) + t.dayOfYear := by
    unfold dayNumber
    omega
  have year := yearIn_eq era (Nat.le_add_right _ t.dayOfYear) inside
  have march : t.marchYear / 400 * 400 + t.marchYear % 400 = t.marchYear := Nat.div_add_mod' _ _
  rw [fromTimestamp_int (secondOfDay_lt exists_) _ (timestamp_eq exists_), number.1, number.2, year, march,
    Nat.add_sub_cancel_left, assembled_eq exists_]
  obtain ⟨low, high, -⟩ := exists_
  exact if_neg (by omega)

theorem fromTimestamp_negative {n : Int} (early : n / 86400 + 719468 < 0) :
    fromTimestamp (n : ℚ) = .error .valueError := by
  have whole : roundEven ((n : ℚ) * 1000000) / 1000000 = n := by
    rw [← Int.cast_ofNat, ← Int.cast_mul, roundEven_int]
    omega
  simp only [fromTimestamp, whole]
  generalize n / 86400 + 719468 = days at early ⊢
  have inside : (days % 146097).toNat < 146097 := by omega
  have year := (yearIn_bounds inside).1
  generalize (days % 146097).toNat = day at year ⊢
  have same : (day - day / 1460 + day / 36524 - day / 146096) / 365 = yearIn day := rfl
  have era : days / 146097 < 0 := by omega
  rw [same, if_pos]
  left
  split <;> omega

section Assembled

variable {march day second : Nat}

theorem assembled_march (bounded : day < 366) :
    (assembled march day second).marchYear = march ∧ (assembled march day second).dayOfYear = day ∧
      (assembled march day second).secondOfDay = second := by
  obtain ⟨months, begun, -, -⟩ := monthIn_bounds day bounded
  refine ⟨?_, ?_, ?_⟩
  · unfold marchYear assembled
    dsimp only
    split <;> split <;> omega
  · have month : (assembled march day second).marchMonth = monthIn day := by
      unfold marchMonth assembled
      dsimp only
      split <;> split <;> omega
    rw [dayOfYear, month, assembled]
    dsimp only
    omega
  · unfold secondOfDay assembled
    dsimp only
    omega

theorem assembled_exists (bounded : day < if Leap (march + 1) then 366 else 365) (within : second < 86400)
    (low : 1 ≤ (assembled march day second).year) (high : (assembled march day second).year ≤ 9999) :
    (assembled march day second).Exists := by
  have bounded' : day < 366 := by
    split at bounded <;> omega
  obtain ⟨months, begun, short, common⟩ := monthIn_bounds day bounded'
  have first : 1 ≤ (assembled march day second).month := by
    unfold assembled
    dsimp only
    split <;> omega
  have last : (assembled march day second).month ≤ 12 := by
    unfold assembled
    dsimp only
    split <;> omega
  have month : (if (assembled march day second).month ≤ 2 then (assembled march day second).month + 9
      else (assembled march day second).month - 3) = monthIn day := by
    unfold assembled
    dsimp only
    split <;> split <;> omega
  refine ⟨low, high, first, last, Nat.le_add_left 1 _, ?_, ?_, ?_, ?_⟩
  · rw [daysIn_eq first last]
    split
    next february =>
      -- February of a common year has no twenty-ninth day
      have eleven : monthIn day = 11 := by
        rw [← month, february.1]
        rfl
      have year : (assembled march day second).year = march + 1 := by
        rw [assembled]
        dsimp only
        rw [eleven]
        rfl
      rw [if_neg (year ▸ february.2)] at bounded
      have early := common bounded eleven
      rw [assembled, eleven]
      exact early
    next =>
      rw [month]
      exact short
  · show second / 3600 ≤ 23
    omega
  · show second / 60 % 60 ≤ 59
    omega
  · show second % 60 ≤ 59
    omega

end Assembled

theorem timestamp_fromTimestamp {n : Int} {t : DateTime} (read : fromTimestamp (n : ℚ) = .ok t) :
    t.Exists ∧ t.timestamp = n := by
  by_cases early : n / 86400 + 719468 < 0
  · rw [fromTimestamp_negative early] at read
    cases read
  · have within : (n % 86400).toNat < 86400 := by omega
    have same : n = (((n / 86400 + 719468).toNat : Int) - 719468) * 86400 + (n % 86400).toNat := by omega
    rw [fromTimestamp_int within n same] at read
    generalize (n / 86400 + 719468).toNat = number at same read
    generalize (n % 86400).toNat = second at within same read
    obtain ⟨year, first, last⟩ := yearIn_bounds (Nat.mod_lt number (by decide : 0 < 146097))
    rw [endOf_eq _ year] at last
    generalize made : assembled (number / 146097 * 400 + yearIn (number % 146097))
      (number % 146097 - startOf (yearIn (number % 146097))) second = t' at read
    obtain ⟨bounds, same'⟩ : ¬ (t'.year < 1 ∨ 9999 < t'.year) ∧ t' = t := by
      by_cases outside : t'.year < 1 ∨ 9999 < t'.year
      · rw [if_pos outside] at read
        cases read
      · rw [if_neg outside] at read
        exact ⟨outside, Except.ok.inj read⟩
    subst same' made
    have leap := leap_mod (number / 146097 * 400 + yearIn (number % 146097))
    rw [Nat.mul_add_mod_of_lt year] at leap
    have bounded : number % 146097 - startOf (yearIn (number % 146097)) <
        if Leap (number / 146097 * 400 + yearIn (number % 146097) + 1) then 366 else 365 := by
      rw [← if_congr leap rfl rfl]
      omega
    have exists_ := assembled_exists bounded within (by omega) (by omega)
    refine ⟨exists_, ?_⟩
    have bounded' : number % 146097 - startOf (yearIn (number % 146097)) < 366 := by
      split at bounded <;> omega
    obtain ⟨march, day, seconds⟩ :=
      @assembled_march (number / 146097 * 400 + yearIn (number % 146097)) _ second bounded'
    have era : (number / 146097 * 400 + yearIn (number % 146097)) / 400 = number / 146097 := by omega
    have back : number / 146097 * 146097 + (startOf (yearIn (number % 146097)) +
        (number % 146097 - startOf (yearIn (number % 146097)))) = number := by
      rw [Nat.add_sub_cancel' first]
      exact Nat.div_add_mod' number 146097
    rw [timestamp_eq exists_, dayNumber, march, day, seconds, Nat.mul_add_mod_of_lt year, era, back, same]

end EdgeVms.Python.DateTime
