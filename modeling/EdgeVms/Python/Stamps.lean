import EdgeVms.Python.Path
import Mathlib.Data.List.Induction
import Mathlib.Data.List.TakeDrop

/-! # Runs of digits, and the stamps made of them

A run of decimal digits is its length and its number; a stamp is six of them.
-/

namespace EdgeVms.Python.DateTime

theorem number_eq (digits : List Char) : number digits = Nat.ofDigitChars 10 digits 0 := rfl

theorem number_concat (digits : List Char) (c : Char) :
    number (digits ++ [c]) = 10 * number digits + (c.toNat - 48) := by
  rw [number_eq, Nat.ofDigitChars_append, Nat.ofDigitChars_cons, Nat.ofDigitChars_nil]
  rfl

theorem number_lt {digits : List Char} (all : ∀ c ∈ digits, c.isDigit) : number digits < 10 ^ digits.length := by
  induction digits using List.reverseRecOn with
  | nil => decide
  | append_singleton digits c ih =>
    have before := ih fun c member => all c (List.mem_append_left _ member)
    have digit := digit_bounds (all c (by simp))
    rw [number_concat, List.length_append, List.length_singleton, pow_succ]
    omega

theorem number_inj {digits digits' : List Char} (all : ∀ c ∈ digits, c.isDigit) (all' : ∀ c ∈ digits', c.isDigit)
    (length : digits.length = digits'.length) (same : number digits = number digits') : digits = digits' := by
  induction digits using List.reverseRecOn generalizing digits' with
  | nil => exact (List.length_eq_zero_iff.mp length.symm).symm
  | append_singleton digits c ih =>
    obtain rfl | ⟨digits', c', rfl⟩ := List.eq_nil_or_concat' digits'
    · simp at length
    · rw [number_concat, number_concat] at same
      have digit := digit_bounds (all c (by simp))
      have digit' := digit_bounds (all' c' (by simp))
      have last : c.toNat = c'.toNat := by omega
      rw [ih (fun c member => all c (List.mem_append_left _ member))
        (fun c member => all' c (List.mem_append_left _ member)) (by simpa using length) (by omega),
        Char.toNat_inj.mp last]

/-! ## Padded numbers -/

theorem toList_padded (width n : Nat) :
    (padded width n).toList = List.replicate (width - (Nat.toDigits 10 n).length) '0' ++ Nat.toDigits 10 n := by
  have digits : (toString n).toList = Nat.toDigits 10 n := Nat.toList_repr
  have length : (toString n).length = (Nat.toDigits 10 n).length := by rw [← String.length_toList, digits]
  rw [padded, String.toList_append, String.toList_ofList, digits, length]

theorem digits_padded {width n : Nat} : ∀ c ∈ (padded width n).toList, c.isDigit := by
  intro c member
  rw [toList_padded, List.mem_append] at member
  obtain zeros | digits := member
  · rw [List.eq_of_mem_replicate zeros]
    rfl
  · exact Nat.isDigit_of_mem_toDigits (by decide) (by decide) digits

theorem number_padded (width n : Nat) : number (padded width n).toList = n := by
  rw [toList_padded, number_eq, Nat.ofDigitChars_append, Nat.ofDigitChars_replicate_zero, Nat.mul_zero,
    Nat.ofDigitChars_ten_toDigits]

theorem length_padded {width n : Nat} (wide : 0 < width) (small : n < 10 ^ width) :
    (padded width n).toList.length = width := by
  have short := (Nat.length_toDigits_le_iff (by decide) wide).mpr small
  rw [toList_padded, List.length_append, List.length_replicate]
  omega

theorem padded_number {digits : List Char} (some_ : digits ≠ []) (all : ∀ c ∈ digits, c.isDigit) :
    (padded digits.length (number digits)).toList = digits :=
  number_inj digits_padded all (length_padded (List.length_pos_iff.mpr some_) (number_lt all)) (number_padded _ _)

/-- A numeral without zeros in front. -/
structure Shortest (digits : List Char) : Prop where
  some_ : digits ≠ []
  all : ∀ c ∈ digits, c.isDigit
  zero : digits.head? = some '0' → digits = ['0']

theorem eq_zero_of_head (n : Nat) (zero : (Nat.toDigits 10 n).head? = some '0') : n = 0 := by
  induction n using Nat.strong_induction_on with
  | _ n ih =>
    by_cases small : n < 10
    · rw [Nat.toDigits_of_lt_base small] at zero
      have first : ∀ n < 10, n.digitChar = '0' → n = 0 := by decide
      exact first n small (Option.some.inj zero)
    · rw [Nat.toDigits_of_base_le (by decide) (not_lt.mp small),
        List.head?_append_of_ne_nil _ Nat.toDigits_ne_nil] at zero
      have rest := ih (n / 10) (by omega) zero
      omega

theorem shortest_toDigits (n : Nat) : Shortest (Nat.toDigits 10 n) := by
  refine ⟨Nat.toDigits_ne_nil, fun c member => Nat.isDigit_of_mem_toDigits (by decide) (by decide) member,
    fun zero => ?_⟩
  rw [eq_zero_of_head n zero]
  rfl

theorem shortest_iff {text : String} : Shortest text.toList ↔ ∃ n : Nat, text = toString n := by
  constructor
  · intro shortest
    refine ⟨number text.toList, String.toList_injective ?_⟩
    have whole := padded_number shortest.some_ shortest.all
    rw [toList_padded] at whole
    have digits : (toString (number text.toList)).toList = Nat.toDigits 10 (number text.toList) := Nat.toList_repr
    rw [digits]
    cases left : text.toList.length - (Nat.toDigits 10 (number text.toList)).length with
    | zero =>
      rw [left] at whole
      exact whole.symm
    | succ more =>
      rw [left, List.replicate_succ] at whole
      have zero := shortest.zero (by rw [← whole]; rfl)
      rw [zero]
      decide
  · rintro ⟨n, rfl⟩
    have digits : (toString n).toList = Nat.toDigits 10 n := Nat.toList_repr
    rw [digits]
    exact shortest_toDigits n

/-! ## Stamps -/

/-- The runs of digits of a stamp. -/
structure Shaped (stamp : List Char) where
  year : List Char
  month : List Char
  day : List Char
  hour : List Char
  minute : List Char
  second : List Char
  whole : stamp = year ++ (month ++ (day ++ 'T' :: (hour ++ (minute ++ (second ++ ['Z'])))))
  lengths : [year, month, day, hour, minute, second].map List.length = [4, 2, 2, 2, 2, 2]
  digits : ∀ run ∈ [year, month, day, hour, minute, second], ∀ c ∈ run, c.isDigit

def Shaped.time {stamp : List Char} (shaped : Shaped stamp) : DateTime :=
  ⟨number shaped.year, number shaped.month, number shaped.day, number shaped.hour, number shaped.minute,
    number shaped.second⟩

theorem Shaped.strptime {stamp : List Char} (shaped : Shaped stamp) :
    strptime stamp = if shaped.time.Exists then .ok shaped.time else .error .valueError := by
  obtain ⟨year, month, day, hour, minute, second, rfl, lengths, digits⟩ := shaped
  simp only [List.map_cons, List.map_nil, List.cons.injEq, and_true] at lengths
  obtain ⟨four, two, two', hours, minutes, seconds⟩ := lengths
  have runs : [(year ++ (month ++ (day ++ 'T' :: (hour ++ (minute ++ (second ++ ['Z'])))))).take 4,
      ((year ++ (month ++ (day ++ 'T' :: (hour ++ (minute ++ (second ++ ['Z'])))))).drop 4).take 2,
      ((year ++ (month ++ (day ++ 'T' :: (hour ++ (minute ++ (second ++ ['Z'])))))).drop 6).take 2,
      ((year ++ (month ++ (day ++ 'T' :: (hour ++ (minute ++ (second ++ ['Z'])))))).drop 9).take 2,
      ((year ++ (month ++ (day ++ 'T' :: (hour ++ (minute ++ (second ++ ['Z'])))))).drop 11).take 2,
      ((year ++ (month ++ (day ++ 'T' :: (hour ++ (minute ++ (second ++ ['Z'])))))).drop 13).take 2] =
      [year, month, day, hour, minute, second] := by
    simp [List.drop_append, four, two, two', hours, minutes, seconds, List.drop_of_length_le]
  simp only [List.cons.injEq, and_true] at runs
  obtain ⟨y, mo, d, h, mi, s⟩ := runs
  rw [DateTime.strptime, y, mo, d, h, mi, s]
  rfl

theorem toList_stamp (t : DateTime) : t.stamp.toList = (padded 4 t.year).toList ++ ((padded 2 t.month).toList ++
    ((padded 2 t.day).toList ++ 'T' :: ((padded 2 t.hour).toList ++ ((padded 2 t.minute).toList ++
      ((padded 2 t.second).toList ++ ['Z']))))) := by
  have letters : "T".toList = ['T'] ∧ "Z".toList = ['Z'] := by decide
  simp only [stamp, String.toList_append, letters, List.append_assoc, List.cons_append, List.nil_append]

theorem daysIn_le (year month : Nat) : daysIn year month ≤ 31 := by
  unfold daysIn
  split
  · split <;> omega
  · split <;> omega

def shapedStamp {t : DateTime} (exists_ : t.Exists) : Shaped t.stamp.toList where
  year := (padded 4 t.year).toList
  month := (padded 2 t.month).toList
  day := (padded 2 t.day).toList
  hour := (padded 2 t.hour).toList
  minute := (padded 2 t.minute).toList
  second := (padded 2 t.second).toList
  whole := toList_stamp t
  lengths := by
    obtain ⟨-, year, -, month, -, day, hour, minute, second⟩ := exists_
    have days := daysIn_le t.year t.month
    have two (n : Nat) (small : n < 100) : (padded 2 n).toList.length = 2 := length_padded (by decide) small
    have four : (padded 4 t.year).toList.length = 4 := length_padded (by decide) (by omega)
    simp only [List.map_cons, List.map_nil]
    rw [four, two t.month (by omega), two t.day (by omega), two t.hour (by omega), two t.minute (by omega),
      two t.second (by omega)]
  digits := by
    have four : ∀ c ∈ (padded 4 t.year).toList, c.isDigit := digits_padded
    have two (n : Nat) : ∀ c ∈ (padded 2 n).toList, c.isDigit := digits_padded
    simp only [List.forall_mem_cons]
    exact ⟨four, two _, two _, two _, two _, two _, nofun⟩

theorem shapedStamp_time {t : DateTime} (exists_ : t.Exists) : (shapedStamp exists_).time = t := by
  simp only [Shaped.time, shapedStamp, number_padded]

theorem strptime_stamp {t : DateTime} (exists_ : t.Exists) : strptime t.stamp.toList = .ok t := by
  rw [(shapedStamp exists_).strptime, shapedStamp_time, if_pos exists_]

/-- A stamp is the stamp of the time that is read off it. -/
theorem Shaped.stamp_time {stamp : List Char} (shaped : Shaped stamp) : shaped.time.stamp.toList = stamp := by
  obtain ⟨year, month, day, hour, minute, second, rfl, lengths, digits⟩ := shaped
  simp only [List.map_cons, List.map_nil, List.cons.injEq, and_true] at lengths
  obtain ⟨four, two, two', hours, minutes, seconds⟩ := lengths
  have back (width : Nat) (positive : 0 < width) (run : List Char) (long : run.length = width)
      (all : ∀ c ∈ run, c.isDigit) : (padded width (number run)).toList = run := by
    subst long
    exact padded_number (List.length_pos_iff.mp positive) all
  rw [toList_stamp, time, back 4 (by decide) year four (digits year (by simp)),
    back 2 (by decide) month two (digits month (by simp)), back 2 (by decide) day two' (digits day (by simp)),
    back 2 (by decide) hour hours (digits hour (by simp)), back 2 (by decide) minute minutes (digits minute (by simp)),
    back 2 (by decide) second seconds (digits second (by simp))]

end EdgeVms.Python.DateTime
