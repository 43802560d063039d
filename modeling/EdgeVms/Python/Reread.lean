import EdgeVms.Python.Json
import EdgeVms.Python.Stamps

/-! # What is written is read back

`json.loads` of what `json.dumps` has written: the same value, its floats as their
texts show them.  A value is read from the front of a text, with any text behind it
that does not go on with a number.
-/

namespace EdgeVms.Python.Json

/-! ## Strings -/

theorem hexDigit_digitChar {n : Nat} (below : n < 16) : hexDigit (Nat.digitChar n) = some n :=
  (by decide : ∀ n < 16, hexDigit (Nat.digitChar n) = some n) n below

theorem hexFour_hexText {n : Nat} (below : n < 0x10000) (rest : List Char) :
    hexFour ((hexText n).drop 2 ++ rest) = .ok (n, rest) := by
  have first := hexDigit_digitChar (Nat.mod_lt (n / 4096) (by decide : 0 < 16))
  have second := hexDigit_digitChar (Nat.mod_lt (n / 256) (by decide : 0 < 16))
  have third := hexDigit_digitChar (Nat.mod_lt (n / 16) (by decide : 0 < 16))
  have fourth := hexDigit_digitChar (Nat.mod_lt n (by decide : 0 < 16))
  show hexFour (Nat.digitChar (n / 4096 % 16) :: Nat.digitChar (n / 256 % 16) :: Nat.digitChar (n / 16 % 16) ::
    Nat.digitChar (n % 16) :: rest) = _
  simp only [hexFour, first, second, third, fourth]
  have whole : ((n / 4096 % 16 * 16 + n / 256 % 16) * 16 + n / 16 % 16) * 16 + n % 16 = n := by omega
  rw [whole]

theorem escaped_hexText {n : Nat} (below : n < 0x10000) (text : n < 0xd800 ∨ 0xdfff < n) (rest : List Char) :
    escaped ((hexText n).drop 1 ++ rest) = .ok (Char.ofNat n, rest) := by
  show unicode ((hexText n).drop 2 ++ rest) = _
  rw [unicode, hexFour_hexText below]
  show (if n < 0xd800 ∨ 0xdfff < n then _ else _) = _
  rw [if_pos text]
  rfl

theorem escaped_halves {high low : Nat} (high_le : 0xd800 ≤ high) (high_lt : high < 0xdc00) (low_le : 0xdc00 ≤ low)
    (low_lt : low ≤ 0xdfff) (rest : List Char) :
    escaped ((hexText high).drop 1 ++ (hexText low ++ rest)) =
      .ok (Char.ofNat (0x10000 + (high - 0xd800) * 1024 + (low - 0xdc00)), rest) := by
  have second : hexFour ((hexText low).drop 2 ++ rest) = .ok (low, rest) := hexFour_hexText (by omega) rest
  show unicode ((hexText high).drop 2 ++ ('\\' :: 'u' :: ((hexText low).drop 2 ++ rest))) = _
  rw [unicode, hexFour_hexText (by omega)]
  simp only [bind, Except.bind, second]
  rw [if_neg (by omega), if_pos ⟨high_lt, low_le, low_lt⟩]
  rfl

/-- A character beyond the first plane is written as two halves. -/
theorem escaped_pair {n : Nat} (above : 0x10000 ≤ n) (below : n < 0x110000) (rest : List Char) :
    escaped ((hexText (0xd800 + (n - 0x10000) / 1024)).drop 1 ++
      (hexText (0xdc00 + (n - 0x10000) % 1024) ++ rest)) = .ok (Char.ofNat n, rest) := by
  rw [escaped_halves (by omega) (by omega) (by omega) (by omega)]
  have whole : 0x10000 + (0xd800 + (n - 0x10000) / 1024 - 0xd800) * 1024 +
      (0xdc00 + (n - 0x10000) % 1024 - 0xdc00) = n := by omega
  rw [whole]

/-- A character that is no control character and is ASCII. -/
def Printable (c : Char) : Prop := 32 ≤ c.toNat ∧ c.toNat < 127

instance (c : Char) : Decidable (Printable c) := inferInstanceAs (Decidable (_ ∧ _))

/-- The forms of a character between quotes. -/
inductive Quoted (c : Char) : List Char → Prop where
  | short (letter : Char) (printable : Printable letter) (taken : ∀ rest, escaped (letter :: rest) = .ok (c, rest)) :
      Quoted c ['\\', letter]
  | plain (quote : c ≠ '"') (backslash : c ≠ '\\') (printable : Printable c) : Quoted c [c]
  | hex (plane : c.toNat < 0x10000) : Quoted c (hexText c.toNat)
  | pair (plane : 0x10000 ≤ c.toNat) : Quoted c
      (hexText (0xd800 + (c.toNat - 0x10000) / 1024) ++ hexText (0xdc00 + (c.toNat - 0x10000) % 1024))

theorem quoted_quotedChar (c : Char) : Quoted c (quotedChar c) := by
  unfold quotedChar
  by_cases quote : c = '"'
  · subst quote
    exact .short '"' (by decide) fun _ => rfl
  rw [if_neg quote]
  by_cases backslash : c = '\\'
  · subst backslash
    exact .short '\\' (by decide) fun _ => rfl
  rw [if_neg backslash]
  by_cases newline : c = '\n'
  · subst newline
    exact .short 'n' (by decide) fun _ => rfl
  rw [if_neg newline]
  by_cases carriage : c = '\r'
  · subst carriage
    exact .short 'r' (by decide) fun _ => rfl
  rw [if_neg carriage]
  by_cases tab : c = '\t'
  · subst tab
    exact .short 't' (by decide) fun _ => rfl
  rw [if_neg tab]
  by_cases feed : c = '\x0c'
  · subst feed
    exact .short 'f' (by decide) fun _ => rfl
  rw [if_neg feed]
  by_cases back : c = '\x08'
  · subst back
    exact .short 'b' (by decide) fun _ => rfl
  rw [if_neg back]
  by_cases printable : 32 ≤ c.toNat ∧ c.toNat < 127
  · rw [if_pos printable]
    exact .plain quote backslash printable
  rw [if_neg printable]
  by_cases plane : c.toNat < 0x10000
  · rw [if_pos plane]
    exact .hex plane
  · rw [if_neg plane]
    exact .pair (Nat.le_of_not_lt plane)

/-- One step of the reader takes one character back. -/
theorem string_quotedChar (c : Char) (fuel : Nat) (rest : List Char) :
    string (fuel + 1) (quotedChar c ++ rest) = (do
      let (more, rest) ← string fuel rest
      return (c :: more, rest)) := by
  have valid := c.valid
  simp only [UInt32.isValidChar, Nat.isValidChar] at valid
  have bound : c.toNat < 0x110000 := by
    show c.val.toNat < _
    omega
  have whole : c.toNat < 0xd800 ∨ 0xdfff < c.toNat := by
    show c.val.toNat < _ ∨ _ < c.val.toNat
    omega
  have escape (chars : List Char) (taken : escaped (chars ++ rest) = .ok (c, rest)) :
      string (fuel + 1) ('\\' :: (chars ++ rest)) = (do
        let (more, rest) ← string fuel rest
        return (c :: more, rest)) := by
    rw [string, if_neg (by decide), if_pos rfl, taken]
    rfl
  generalize quotedChar c = written, quoted_quotedChar c = form
  cases form with
  | short letter _ taken => exact escape [letter] (taken rest)
  | plain quote backslash printable =>
    show string (fuel + 1) (c :: rest) = _
    rw [string, if_neg quote, if_neg backslash, if_neg (Nat.not_lt.mpr printable.1)]
  | hex plane =>
    have taken := escaped_hexText plane whole rest
    rw [Char.ofNat_toNat] at taken
    exact escape _ taken
  | pair plane =>
    have taken := escaped_pair plane bound rest
    rw [Char.ofNat_toNat, ← List.append_assoc] at taken
    have read := escape _ taken
    rw [List.append_assoc] at read ⊢
    exact read

theorem string_quoted (chars : List Char) {fuel : Nat} (enough : chars.length < fuel) (rest : List Char) :
    string fuel (chars.flatMap quotedChar ++ '"' :: rest) = .ok (chars, rest) := by
  induction chars generalizing fuel with
  | nil =>
    obtain ⟨fuel, rfl⟩ := Nat.exists_eq_succ_of_ne_zero (Nat.ne_of_gt enough)
    rfl
  | cons c chars ih =>
    obtain ⟨fuel, rfl⟩ := Nat.exists_eq_succ_of_ne_zero (Nat.ne_of_gt (Nat.zero_lt_of_lt enough))
    rw [List.flatMap_cons, List.append_assoc, string_quotedChar, ih (Nat.lt_of_succ_lt_succ enough)]
    rfl

/-! ## Numbers -/

/-- A float as its text shows it. -/
def shownFloat : Floating → Floating
  | .finite q =>
    let fraction := Floating.decimals 17 (q.num.natAbs % q.den) q.den
    .finite ((if q < 0 then -1 else 1) *
      DateTime.number (Nat.toDigits 10 (q.num.natAbs / q.den) ++ fraction) / 10 ^ fraction.length)
  | x => x

/-- A number at the front does not go on here. -/
def Stops (rest : List Char) : Prop := ∀ c ∈ rest.head?, c.isDigit = false ∧ c ≠ '.' ∧ c ≠ 'e' ∧ c ≠ 'E'

theorem span_digits {digits rest : List Char} (all : ∀ c ∈ digits, c.isDigit)
    (stops : ∀ c ∈ rest.head?, c.isDigit = false) : (digits ++ rest).span Char.isDigit = (digits, rest) := by
  rw [List.span_eq_takeWhile_dropWhile]
  have here : rest.takeWhile Char.isDigit = [] ∧ rest.dropWhile Char.isDigit = rest := by
    cases rest with
    | nil => exact ⟨rfl, rfl⟩
    | cons c rest =>
      have other := Bool.eq_false_iff.mp (stops c rfl)
      exact ⟨List.takeWhile_cons_of_neg other, List.dropWhile_cons_of_neg other⟩
  rw [List.takeWhile_append_of_pos all, List.dropWhile_append_of_pos all, here.1, here.2, List.append_nil]

theorem places_stops {rest : List Char} (stops : Stops rest) : places rest = ([], rest) := by
  cases rest with
  | nil => rfl
  | cons c rest =>
    have point := (stops c rfl).2.1
    unfold places
    split
    · next same => exact absurd (List.head_eq_of_cons_eq same) point
    · rfl

theorem exponent_stops {rest : List Char} (stops : Stops rest) : exponent rest = none := by
  cases rest with
  | nil => rfl
  | cons c rest =>
    have letters := (stops c rfl).2.2
    unfold exponent
    split
    · next same => exact absurd (List.head_eq_of_cons_eq same) letters.1
    · next same => exact absurd (List.head_eq_of_cons_eq same) letters.2
    · rfl

theorem places_digits {fraction rest : List Char} (some_ : fraction ≠ []) (all : ∀ c ∈ fraction, c.isDigit)
    (stops : Stops rest) : places ('.' :: (fraction ++ rest)) = (fraction, rest) := by
  rw [places, span_digits all fun c first => (stops c first).1]
  simp [some_]

/-- The digits before the point. -/
def wholeOf (chars : List Char) : List Char × List Char :=
  match chars with
  | '0' :: rest => (['0'], rest)
  | chars => chars.span Char.isDigit

theorem wholeOf_shortest {whole tail : List Char} (shortest : DateTime.Shortest whole)
    (ends : ∀ c ∈ tail.head?, c.isDigit = false) : wholeOf (whole ++ tail) = (whole, tail) := by
  unfold wholeOf
  split
  next rest zero =>
    have first : whole.head? = some '0' := by
      have same := congrArg List.head? zero
      rwa [List.head?_append_of_ne_nil _ shortest.some_] at same
    have all := shortest.zero first
    subst all
    exact congrArg _ (List.cons.inj zero).2.symm
  next => exact span_digits shortest.all ends

/-- The number after its sign. -/
def unsignedNumber (sign : Int) (chars : List Char) : Except Error (Value × List Char) :=
  let (whole, rest) := wholeOf chars
  if whole.isEmpty then .error .valueError
  else
    let (fraction, rest) := places rest
    let mantissa : ℚ := sign * DateTime.number (whole ++ fraction) / 10 ^ fraction.length
    match exponent rest with
    | some (power, rest) => .ok (.float (.finite (mantissa * 10 ^ power)), rest)
    | none =>
      if fraction.isEmpty then .ok (.int (sign * DateTime.number whole), rest)
      else .ok (.float (.finite mantissa), rest)

theorem number_minus (chars : List Char) : number ('-' :: chars) = unsignedNumber (-1) chars := rfl

theorem number_plain {chars : List Char} (plain : chars.head? ≠ some '-') : number chars = unsignedNumber 1 chars := by
  unfold number
  split
  next sign more same =>
    split at same
    · exact absurd rfl plain
    · cases same
      rfl

theorem unsignedNumber_int (sign : Int) {whole rest : List Char} (shortest : DateTime.Shortest whole)
    (stops : Stops rest) :
    unsignedNumber sign (whole ++ rest) = .ok (.int (sign * DateTime.number whole), rest) := by
  have some_ : whole.isEmpty = false := by simpa using shortest.some_
  rw [unsignedNumber, wholeOf_shortest shortest fun c first => (stops c first).1]
  simp only [some_, places_stops stops, exponent_stops stops]
  rfl

theorem unsignedNumber_float (sign : Int) {whole fraction rest : List Char} (shortest : DateTime.Shortest whole)
    (some_ : fraction ≠ []) (all : ∀ c ∈ fraction, c.isDigit) (stops : Stops rest) :
    unsignedNumber sign (whole ++ ('.' :: (fraction ++ rest))) =
      .ok (.float (.finite (sign * DateTime.number (whole ++ fraction) / 10 ^ fraction.length)), rest) := by
  have some_' : whole.isEmpty = false := by simpa using shortest.some_
  have fraction_some : fraction.isEmpty = false := by simpa using some_
  rw [unsignedNumber, wholeOf_shortest shortest]
  · simp only [some_', fraction_some, places_digits some_ all stops, exponent_stops stops]
    rfl
  · rintro c ⟨⟩
    rfl

/-- A numeral with its sign. -/
def withSign (negative : Bool) (chars : List Char) : List Char := if negative then '-' :: chars else chars

theorem withSign_append (negative : Bool) (chars rest : List Char) :
    withSign negative chars ++ rest = withSign negative (chars ++ rest) := by
  cases negative <;> rfl

theorem toList_int (n : Int) : (toString n).toList = withSign (n < 0) (Nat.toDigits 10 n.natAbs) := by
  rw [Int.toString_eq_repr, Int.repr_eq_if]
  split
  next sign =>
    have same : n.toNat = n.natAbs := by omega
    rw [withSign, decide_eq_false (by omega), Nat.toList_repr, same]
    rfl
  next sign =>
    have same : (-n).toNat = n.natAbs := by omega
    rw [withSign, decide_eq_true (by omega), String.toList_append, Nat.toList_repr, same]
    rfl

theorem floatText_finite (q : ℚ) : floatText (.finite q) =
    withSign (q < 0) (Nat.toDigits 10 (q.num.natAbs / q.den) ++
      '.' :: Floating.decimals 17 (q.num.natAbs % q.den) q.den) := by
  have whole : (toString (q.num.natAbs / q.den)).toList = Nat.toDigits 10 (q.num.natAbs / q.den) := Nat.toList_repr
  show (Floating.finite q).text.toList = _
  rw [Floating.text, String.toList_append, String.toList_append, String.toList_append, whole, String.toList_ofList]
  by_cases negative : q < 0
  · rw [if_pos negative, withSign, decide_eq_true negative]
    simp
  · rw [if_neg negative, withSign, decide_eq_false negative]
    simp

theorem number_withSign {digits : List Char} (some_ : digits ≠ []) (all : ∀ c ∈ digits, c.isDigit) (negative : Bool)
    (tail : List Char) :
    number (withSign negative (digits ++ tail)) = unsignedNumber (if negative then -1 else 1) (digits ++ tail) := by
  cases negative with
  | true => exact number_minus _
  | false =>
    refine number_plain fun minus => ?_
    rw [withSign, if_neg Bool.false_ne_true, List.head?_append_of_ne_nil _ some_,
      List.head?_eq_some_head some_] at minus
    have digit := all _ (List.head_mem some_)
    rw [Option.some.inj minus] at digit
    cases digit

theorem number_int (n : Int) {rest : List Char} (stops : Stops rest) :
    number ((toString n).toList ++ rest) = .ok (.int n, rest) := by
  have shortest := DateTime.shortest_toDigits n.natAbs
  have read : DateTime.number (Nat.toDigits 10 n.natAbs) = n.natAbs := Nat.ofDigitChars_ten_toDigits
  rw [toList_int, withSign_append, number_withSign shortest.some_ shortest.all,
    unsignedNumber_int _ shortest stops, read]
  have whole : (if decide (n < 0) = true then -1 else 1) * (n.natAbs : Int) = n := by
    split
    next negative =>
      have below := of_decide_eq_true negative
      omega
    next positive =>
      have above := of_decide_eq_false (Bool.eq_false_iff.mpr positive)
      omega
  rw [whole]

/-! ## Floats -/

theorem isDigit_digitChar {n : Nat} (below : n < 10) : (Nat.digitChar n).isDigit :=
  (by decide : ∀ n < 10, (Nat.digitChar n).isDigit = true) n below

theorem decimals_digits (fuel : Nat) {rest divisor : Nat} (below : rest < divisor) :
    ∀ c ∈ Floating.decimals fuel rest divisor, c.isDigit := by
  induction fuel generalizing rest with
  | zero => nofun
  | succ fuel ih =>
    intro c member
    rw [Floating.decimals] at member
    obtain rfl | later := List.mem_cons.mp member
    · exact isDigit_digitChar (Nat.div_lt_of_lt_mul (by omega))
    · split at later
      · cases later
      · exact ih (Nat.mod_lt _ (Nat.zero_lt_of_lt below)) c later

theorem decimals_ne_nil (fuel rest divisor : Nat) : Floating.decimals (fuel + 1) rest divisor ≠ [] := by
  rw [Floating.decimals]
  exact List.cons_ne_nil _ _

theorem number_float (q : ℚ) {rest : List Char} (stops : Stops rest) :
    number (floatText (.finite q) ++ rest) = .ok (.float (shownFloat (.finite q)), rest) := by
  have shortest := DateTime.shortest_toDigits (q.num.natAbs / q.den)
  have all := decimals_digits 17 (Nat.mod_lt q.num.natAbs q.den_pos)
  have some_ : Floating.decimals 17 (q.num.natAbs % q.den) q.den ≠ [] := decimals_ne_nil 16 _ _
  rw [floatText_finite, withSign_append, List.append_assoc, List.cons_append,
    number_withSign shortest.some_ shortest.all, unsignedNumber_float _ shortest some_ all stops, shownFloat]
  by_cases negative : q < 0
  · simp [negative]
  · simp [negative]

/-! ## Values -/

mutual

/-- The value with its floats as their texts show them; of two members with one key the last stays. -/
def shown : Value → Value
  | .float x => .float (shownFloat x)
  | .str text => .str (.plain text.string)
  | .list items => .list (shownItems items)
  | .dict entries => .dict (shownEntries [] entries)
  | value => value

def shownItems : List Value → List Value
  | [] => []
  | value :: rest => shown value :: shownItems rest

def shownEntries : Dict Value → List (String × Value) → Dict Value
  | out, [] => out
  | out, (key, value) :: rest => shownEntries (out.set key (shown value)) rest

end

/-- The text begins with something that is no space, and ends no list. -/
def Opens (chars : List Char) : Prop := ∃ c more, chars = c :: more ∧ isSpace c = false ∧ c ≠ ']'

theorem Opens.append {chars : List Char} (opens : Opens chars) (rest : List Char) : Opens (chars ++ rest) := by
  obtain ⟨c, more, rfl, facts⟩ := opens
  exact ⟨c, more ++ rest, rfl, facts⟩

theorem Opens.skip {chars : List Char} (opens : Opens chars) : Json.skip chars = chars := by
  obtain ⟨c, more, rfl, solid, -⟩ := opens
  exact List.dropWhile_cons_of_neg (Bool.eq_false_iff.mp solid)

theorem opens_digits {digits : List Char} (some_ : digits ≠ []) (all : ∀ c ∈ digits, c.isDigit) : Opens digits := by
  obtain ⟨c, more, rfl⟩ := List.exists_cons_of_ne_nil some_
  have bounds := digit_bounds (all c List.mem_cons_self)
  refine ⟨c, more, rfl, ?_, ?_⟩
  · have apart (other : Char) (outside : ¬ (48 ≤ other.toNat ∧ other.toNat ≤ 57)) : c ≠ other := by
      rintro rfl
      exact outside bounds
    simp [isSpace, apart ' ' (by decide), apart '\t' (by decide), apart '\n' (by decide), apart '\r' (by decide)]
  · rintro rfl
    exact absurd bounds (by decide)

theorem opens_withSign {digits : List Char} (some_ : digits ≠ []) (all : ∀ c ∈ digits, c.isDigit) (negative : Bool)
    (tail : List Char) : Opens (withSign negative (digits ++ tail)) := by
  cases negative with
  | true => exact ⟨'-', _, rfl, rfl, by decide⟩
  | false => exact (opens_digits some_ all).append tail

theorem opens_int (n : Int) : Opens (toString n).toList := by
  have shortest := DateTime.shortest_toDigits n.natAbs
  rw [toList_int, ← List.append_nil (Nat.toDigits 10 n.natAbs)]
  exact opens_withSign shortest.some_ shortest.all _ _

theorem opens_float (x : Floating) : Opens (floatText x) := by
  cases x with
  | nan => exact ⟨'N', _, rfl, rfl, by decide⟩
  | infinite negative => cases negative <;> exact ⟨_, _, rfl, rfl, by decide⟩
  | finite q =>
    have shortest := DateTime.shortest_toDigits (q.num.natAbs / q.den)
    rw [floatText_finite]
    exact opens_withSign shortest.some_ shortest.all _ _

theorem opens_dumps (v : Value) : Opens (dumps v) := by
  unfold dumps
  cases v with
  | none => exact ⟨'n', _, rfl, rfl, by decide⟩
  | bool value => cases value <;> exact ⟨_, _, rfl, rfl, by decide⟩
  | int value => exact opens_int value
  | float x => exact opens_float x
  | str text => exact ⟨'"', _, rfl, rfl, by decide⟩
  | list items => exact ⟨'[', _, rfl, rfl, by decide⟩
  | dict entries => exact ⟨'\x7b', _, rfl, rfl, by decide⟩

/-- A digit, or a sign before one. -/
def beginsNumber : List Char → Bool
  | '-' :: c :: _ => c.isDigit
  | c :: _ => c.isDigit
  | [] => false

theorem beginsNumber_append (a b : Char) (more rest : List Char) :
    beginsNumber (a :: b :: more ++ rest) = beginsNumber (a :: b :: more) := by
  by_cases minus : a = '-'
  · subst minus
    rfl
  · simp [beginsNumber, minus]

theorem constant?_number {chars : List Char} (begins : beginsNumber chars = true) : constant? chars = none := by
  have words : (constants.all fun entry => 2 ≤ entry.1.toList.length && !beginsNumber entry.1.toList) = true := by
    decide
  refine List.findSome?_eq_none_iff.mpr fun entry member => ?_
  have word := List.all_eq_true.mp words entry member
  refine if_neg fun front => ?_
  obtain ⟨rest, rfl⟩ := List.isPrefixOf_iff_prefix.mp front
  simp only [Bool.and_eq_true, decide_eq_true_eq, Bool.not_eq_true'] at word
  obtain ⟨a, b, more, same⟩ : ∃ a b more, entry.1.toList = a :: b :: more := by
    match entry.1.toList, word.1 with
    | a :: b :: more, _ => exact ⟨a, b, more, rfl⟩
  rw [same, beginsNumber_append] at begins
  rw [same, begins] at word
  exact absurd word.2 (by decide)

theorem beginsNumber_withSign {digits : List Char} (some_ : digits ≠ []) (all : ∀ c ∈ digits, c.isDigit)
    (negative : Bool) (tail : List Char) : beginsNumber (withSign negative (digits ++ tail)) = true := by
  obtain ⟨c, more, rfl⟩ := List.exists_cons_of_ne_nil some_
  have digit := all c List.mem_cons_self
  cases negative with
  | true => exact digit
  | false =>
    show beginsNumber (c :: (more ++ tail)) = true
    unfold beginsNumber
    split
    next same =>
      rw [(List.cons.inj same).1] at digit
      cases digit
    next same => exact (List.cons.inj same).1 ▸ digit
    next same => cases same

/-- A text that begins a number is read as one. -/
theorem value_number {chars : List Char} (begins : beginsNumber chars = true) (fuel : Nat) :
    value (fuel + 1) chars = number chars := by
  cases chars with
  | nil => cases begins
  | cons c rest =>
    have apart (other : Char) (none_ : ∀ more, beginsNumber (other :: more) = false) : c ≠ other := by
      rintro rfl
      rw [none_] at begins
      cases begins
    rw [value, if_neg (apart '"' fun _ => rfl), if_neg (apart '\x7b' fun _ => rfl), if_neg (apart '[' fun _ => rfl),
      constant?_number begins]

theorem value_int (n : Int) (fuel : Nat) {rest : List Char} (stops : Stops rest) :
    value (fuel + 1) ((toString n).toList ++ rest) = .ok (.int n, rest) := by
  have shortest := DateTime.shortest_toDigits n.natAbs
  have begins := beginsNumber_withSign shortest.some_ shortest.all (n < 0) rest
  rw [← withSign_append, ← toList_int] at begins
  rw [value_number begins, number_int n stops]

theorem value_float (x : Floating) (fuel : Nat) {rest : List Char} (stops : Stops rest) :
    value (fuel + 1) (floatText x ++ rest) = .ok (.float (shownFloat x), rest) := by
  cases x with
  | nan => rfl
  | infinite negative => cases negative <;> rfl
  | finite q =>
    have shortest := DateTime.shortest_toDigits (q.num.natAbs / q.den)
    have begins := beginsNumber_withSign shortest.some_ shortest.all (q < 0)
      ('.' :: Floating.decimals 17 (q.num.natAbs % q.den) q.den ++ rest)
    rw [← List.append_assoc, ← withSign_append, ← floatText_finite] at begins
    rw [value_number begins, number_float q stops]

theorem stops_cons {c : Char} (stops : c.isDigit = false ∧ c ≠ '.' ∧ c ≠ 'e' ∧ c ≠ 'E') (rest : List Char) :
    Stops (c :: rest) := by
  rintro _ ⟨⟩
  exact stops

theorem length_le_quoted (chars : List Char) : chars.length ≤ (chars.flatMap quotedChar).length := by
  induction chars with
  | nil => exact Nat.le_refl 0
  | cons c chars ih =>
    have some_ : 1 ≤ (quotedChar c).length := by
      generalize quotedChar c = written, quoted_quotedChar c = form
      cases form with
      | short | plain | hex | pair => exact Nat.le_add_left 1 _
    rw [List.flatMap_cons, List.length_append, List.length_cons]
    omega

theorem value_quoted (text : String) {fuel : Nat} (enough : (quoted text).length ≤ fuel) (rest : List Char) :
    value fuel (quoted text ++ rest) = .ok (.str (.plain text), rest) := by
  have long := length_le_quoted text.toList
  simp only [quoted, List.cons_append, List.length_cons, List.length_append, List.length_nil, List.append_assoc,
    List.nil_append] at enough ⊢
  obtain ⟨fuel, rfl⟩ := Nat.exists_eq_add_of_lt (show 0 < fuel by omega)
  rw [Nat.zero_add, value, if_pos rfl, string_quoted _ (by omega)]
  show Except.ok (Value.str (.plain (String.ofList text.toList)), rest) = _
  rw [String.ofList_toList]

theorem dumpsItems_cons (v v' : Value) (more : List Value) :
    dumpsItems (v :: v' :: more) = dumps v ++ ',' :: ' ' :: dumpsItems (v' :: more) := by
  rw [dumpsItems]
  nofun

theorem dumpsEntries_cons (key : String) (v : Value) (entry : String × Value) (more : List (String × Value)) :
    dumpsEntries ((key, v) :: entry :: more) =
      quoted key ++ ':' :: ' ' :: dumps v ++ ',' :: ' ' :: dumpsEntries (entry :: more) := by
  rw [dumpsEntries]
  nofun

theorem opens_dumpsItems {items : List Value} (some_ : items ≠ []) : Opens (dumpsItems items) := by
  match items, some_ with
  | [v], _ =>
    rw [dumpsItems]
    exact opens_dumps v
  | v :: _ :: _, _ =>
    rw [dumpsItems_cons]
    exact (opens_dumps v).append _

theorem dumpsEntries_quote {entries : List (String × Value)} (some_ : entries ≠ []) :
    ∃ more, dumpsEntries entries = '"' :: more := by
  match entries, some_ with
  | [(key, v)], _ =>
    rw [dumpsEntries]
    exact ⟨_, rfl⟩
  | (key, v) :: _ :: _, _ =>
    rw [dumpsEntries_cons]
    exact ⟨_, rfl⟩

theorem skip_space (chars : List Char) : skip (' ' :: chars) = skip chars := rfl

theorem elements_comma {fuel : Nat} {chars tail : List Char} {v : Value}
    (read : value fuel chars = .ok (v, ',' :: tail)) (out : List Value) :
    elements (fuel + 1) out chars = elements fuel (out ++ [v]) (skip tail) := by
  rw [elements, read]
  rfl

theorem elements_close {fuel : Nat} {chars rest : List Char} {v : Value}
    (read : value fuel chars = .ok (v, ']' :: rest)) (out : List Value) :
    elements (fuel + 1) out chars = .ok (out ++ [v], rest) := by
  rw [elements, read]
  rfl

theorem string_key {key : String} {fuel : Nat} (enough : (quoted key).length ≤ fuel + 1) (tail : List Char) :
    string fuel (key.toList.flatMap quotedChar ++ ('"' :: tail)) = .ok (key.toList, tail) := by
  have long := length_le_quoted key.toList
  rw [quoted, List.cons_append, List.length_cons, List.length_append, List.length_singleton] at enough
  exact string_quoted _ (by omega) tail

theorem members_key {fuel : Nat} {key : String} (enough : (quoted key).length ≤ fuel + 1) {chars : List Char}
    (opens : Opens chars) (out : Dict Value) :
    members (fuel + 1) out (quoted key ++ ':' :: ' ' :: chars) = (do
      let (item, rest) ← value fuel chars
      match skip rest with
      | ',' :: rest => members fuel (out.set key item) (skip rest)
      | '\x7d' :: rest => return (out.set key item, rest)
      | _ => throw Error.valueError) := by
  have there : quoted key ++ ':' :: ' ' :: chars =
      '"' :: (key.toList.flatMap quotedChar ++ ('"' :: ':' :: ' ' :: chars)) := by simp [quoted]
  rw [there, members, string_key enough]
  show (do
    let (item, rest) ← value fuel (skip (' ' :: chars))
    match skip rest with
    | ',' :: rest => members fuel (out.set (String.ofList key.toList) item) (skip rest)
    | '\x7d' :: rest => return (out.set (String.ofList key.toList) item, rest)
    | _ => throw Error.valueError) = _
  rw [skip_space, opens.skip, String.ofList_toList]

theorem members_comma {fuel : Nat} {key : String} (enough : (quoted key).length ≤ fuel + 1) {chars tail : List Char}
    (opens : Opens chars) {v : Value} (read : value fuel chars = .ok (v, ',' :: tail)) (out : Dict Value) :
    members (fuel + 1) out (quoted key ++ ':' :: ' ' :: chars) = members fuel (out.set key v) (skip tail) := by
  rw [members_key enough opens, read]
  rfl

theorem members_close {fuel : Nat} {key : String} (enough : (quoted key).length ≤ fuel + 1) {chars rest : List Char}
    (opens : Opens chars) {v : Value} (read : value fuel chars = .ok (v, '\x7d' :: rest)) (out : Dict Value) :
    members (fuel + 1) out (quoted key ++ ':' :: ' ' :: chars) = .ok (out.set key v, rest) := by
  rw [members_key enough opens, read]
  rfl

theorem value_list {fuel : Nat} {chars rest : List Char} (opens : Opens chars) {items : List Value}
    (read : elements fuel [] chars = .ok (items, rest)) :
    value (fuel + 1) ('[' :: chars) = .ok (.list items, rest) := by
  rw [value, if_neg (by decide), if_neg (by decide), if_pos rfl, opens.skip]
  obtain ⟨c, more, rfl, -, bracket⟩ := opens
  split
  next same => exact absurd (List.cons.inj same).1 bracket
  next => rw [read]; rfl

theorem value_dict {fuel : Nat} {more rest : List Char} {entries : Dict Value}
    (read : members fuel [] ('"' :: more) = .ok (entries, rest)) :
    value (fuel + 1) ('\x7b' :: '"' :: more) = .ok (.dict entries, rest) := by
  rw [value, if_neg (by decide), if_pos rfl]
  show (do
    let read ← members fuel [] ('"' :: more)
    return (Value.dict read.1, read.2)) = _
  rw [read]
  rfl

mutual

/-- The value at the front of a text is the one that has been written there. -/
theorem value_dumps (v : Value) {fuel : Nat} (enough : (dumps v).length ≤ fuel) {rest : List Char}
    (stops : Stops rest) : value fuel (dumps v ++ rest) = .ok (shown v, rest) := by
  have some_ : 0 < (dumps v).length := by
    obtain ⟨c, more, same, -⟩ := opens_dumps v
    rw [same]
    exact Nat.zero_lt_succ _
  obtain ⟨fuel, rfl⟩ := Nat.exists_eq_succ_of_ne_zero (Nat.ne_of_gt (Nat.lt_of_lt_of_le some_ enough))
  match v with
  | .none => rfl
  | .bool true => rfl
  | .bool false => rfl
  | .int n => exact value_int n fuel stops
  | .float x => exact value_float x fuel stops
  | .str text => exact value_quoted text.string enough rest
  | .list [] => rfl
  | .list (v :: more) =>
    simp only [dumps, List.cons_append, List.length_cons, List.length_append, List.length_nil, List.append_assoc,
      List.nil_append] at enough ⊢
    have opens := opens_dumpsItems (List.cons_ne_nil v more)
    exact value_list (opens.append _) (elements_dumps (v :: more) (List.cons_ne_nil _ _) (by omega) [] rest)
  | .dict [] => rfl
  | .dict (entry :: more) =>
    simp only [dumps, List.cons_append, List.length_cons, List.length_append, List.length_nil, List.append_assoc,
      List.nil_append] at enough ⊢
    obtain ⟨chars, quote⟩ := dumpsEntries_quote (List.cons_ne_nil entry more)
    have short : (dumpsEntries (entry :: more)).length < fuel := by omega
    have read := members_dumps (entry :: more) (List.cons_ne_nil _ _) short [] rest
    rw [quote, List.cons_append] at read ⊢
    exact value_dict read

/-- The items up to the end of their list. -/
theorem elements_dumps (items : List Value) (some_ : items ≠ []) {fuel : Nat}
    (enough : (dumpsItems items).length < fuel) (out : List Value) (rest : List Char) :
    elements fuel out (dumpsItems items ++ ']' :: rest) = .ok (out ++ shownItems items, rest) := by
  obtain ⟨fuel, rfl⟩ := Nat.exists_eq_succ_of_ne_zero (Nat.ne_of_gt (Nat.zero_lt_of_lt enough))
  match items, some_ with
  | [v], _ =>
    rw [dumpsItems] at enough ⊢
    have read := value_dumps v (Nat.le_of_lt_succ enough) (stops_cons (by decide) rest : Stops (']' :: rest))
    exact elements_close read out
  | v :: v' :: more, _ =>
    have opens := (opens_dumpsItems (List.cons_ne_nil v' more)).append (']' :: rest)
    rw [dumpsItems_cons] at enough ⊢
    simp only [List.length_append, List.length_cons] at enough
    have short : (dumps v).length ≤ fuel := by omega
    have read := value_dumps v short (stops_cons (by decide) _ :
      Stops (',' :: ' ' :: (dumpsItems (v' :: more) ++ ']' :: rest)))
    rw [List.append_assoc, List.cons_append, List.cons_append, elements_comma read, skip_space, opens.skip,
      elements_dumps (v' :: more) (List.cons_ne_nil _ _) (by omega), List.append_assoc]
    rfl

/-- The members up to the end of their object. -/
theorem members_dumps (entries : List (String × Value)) (some_ : entries ≠ []) {fuel : Nat}
    (enough : (dumpsEntries entries).length < fuel) (out : Dict Value) (rest : List Char) :
    members fuel out (dumpsEntries entries ++ '\x7d' :: rest) = .ok (shownEntries out entries, rest) := by
  obtain ⟨fuel, rfl⟩ := Nat.exists_eq_succ_of_ne_zero (Nat.ne_of_gt (Nat.zero_lt_of_lt enough))
  match entries, some_ with
  | [(key, v)], _ =>
    rw [dumpsEntries] at enough ⊢
    simp only [List.length_append, List.length_cons] at enough
    have short : (dumps v).length ≤ fuel := by omega
    have read := value_dumps v short (stops_cons (by decide) rest : Stops ('\x7d' :: rest))
    rw [List.append_assoc, List.cons_append, List.cons_append]
    exact members_close (by omega) ((opens_dumps v).append _) read out
  | (key, v) :: entry :: more, _ =>
    obtain ⟨chars, quote⟩ := dumpsEntries_quote (List.cons_ne_nil entry more)
    have opens : Opens (dumpsEntries (entry :: more)) := ⟨'"', chars, quote, rfl, by decide⟩
    rw [dumpsEntries_cons] at enough ⊢
    simp only [List.length_append, List.length_cons] at enough
    have short : (dumps v).length ≤ fuel := by omega
    have read := value_dumps v short (stops_cons (by decide) _ :
      Stops (',' :: ' ' :: (dumpsEntries (entry :: more) ++ '\x7d' :: rest)))
    have there : quoted key ++ ':' :: ' ' :: dumps v ++ ',' :: ' ' :: dumpsEntries (entry :: more) ++ '\x7d' :: rest =
        quoted key ++ ':' :: ' ' ::
          (dumps v ++ ',' :: ' ' :: (dumpsEntries (entry :: more) ++ '\x7d' :: rest)) := by simp
    rw [there, members_comma (by omega) ((opens_dumps v).append _) read, skip_space, (opens.append _).skip,
      members_dumps (entry :: more) (List.cons_ne_nil _ _) (by omega)]
    rfl

end

/-- What is written is read back. -/
theorem loads_dumps (v : Value) : loads (dumps v) = .ok (shown v) := by
  have read : value ((dumps v).length + 1) (dumps v ++ []) = .ok (shown v, []) :=
    value_dumps v (Nat.le_succ (dumps v).length) nofun
  rw [List.append_nil] at read
  rw [loads, (opens_dumps v).skip, read]
  rfl

/-! ## One line -/

theorem printable_digit {c : Char} (digit : c.isDigit) : Printable c := by
  have bounds := digit_bounds digit
  exact ⟨by omega, by omega⟩

theorem printable_hexText (n : Nat) : ∀ c ∈ hexText n, Printable c := by
  have hexadecimal : ∀ n < 16, Printable (Nat.digitChar n) := by decide
  have last (m : Nat) : Printable (Nat.digitChar (m % 16)) := hexadecimal _ (Nat.mod_lt _ (by decide))
  intro c member
  simp only [hexText, List.map_cons, List.map_nil, List.mem_cons, List.not_mem_nil, or_false] at member
  obtain rfl | rfl | rfl | rfl | rfl | rfl := member
  · decide
  · decide
  all_goals exact last _

theorem printable_quotedChar (c : Char) : ∀ c' ∈ quotedChar c, Printable c' := by
  generalize quotedChar c = written, quoted_quotedChar c = form
  cases form with
  | short letter printable =>
    have both : Printable '\\' ∧ Printable letter := ⟨by decide, printable⟩
    simpa using both
  | plain _ _ printable => simpa using printable
  | hex => exact printable_hexText _
  | pair =>
    intro c' member
    exact (List.mem_append.mp member).elim (printable_hexText _ c') (printable_hexText _ c')

theorem printable_quoted (text : String) : ∀ c ∈ quoted text, Printable c := by
  intro c member
  simp only [quoted, List.cons_append, List.mem_cons, List.mem_append, List.mem_flatMap, List.not_mem_nil,
    or_false] at member
  obtain rfl | ⟨c', -, inside⟩ | rfl := member
  · decide
  · exact printable_quotedChar c' c inside
  · decide

theorem printable_withSign (negative : Bool) {chars : List Char} (printable : ∀ c ∈ chars, Printable c) :
    ∀ c ∈ withSign negative chars, Printable c := by
  cases negative with
  | true =>
    intro c member
    obtain rfl | later := List.mem_cons.mp member
    · decide
    · exact printable c later
  | false => exact printable

theorem printable_int (n : Int) : ∀ c ∈ (toString n).toList, Printable c := by
  rw [toList_int]
  exact printable_withSign _ fun c member => printable_digit ((DateTime.shortest_toDigits _).all c member)

theorem printable_word {chars : List Char} (all : chars.all (fun c => decide (Printable c)) = true) :
    ∀ c ∈ chars, Printable c := fun c member => of_decide_eq_true (List.all_eq_true.mp all c member)

theorem printable_float (x : Floating) : ∀ c ∈ floatText x, Printable c := by
  cases x with
  | nan => exact printable_word (by decide)
  | infinite negative => cases negative <;> exact printable_word (by decide)
  | finite q =>
    rw [floatText_finite]
    refine printable_withSign _ fun c member => ?_
    obtain whole | fraction := List.mem_append.mp member
    · exact printable_digit ((DateTime.shortest_toDigits _).all c whole)
    · obtain rfl | digits := List.mem_cons.mp fraction
      · decide
      · exact printable_digit (decimals_digits 17 (Nat.mod_lt q.num.natAbs q.den_pos) c digits)

mutual

/-- What is written has no ends of lines inside, of any kind. -/
theorem printable_dumps (v : Value) : ∀ c ∈ dumps v, Printable c := by
  match v with
  | .none => exact printable_word (by decide)
  | .bool true => exact printable_word (by decide)
  | .bool false => exact printable_word (by decide)
  | .int n => exact printable_int n
  | .float x => exact printable_float x
  | .str text => exact printable_quoted text.string
  | .list items =>
    intro c member
    simp only [dumps, List.cons_append, List.mem_cons, List.mem_append, List.not_mem_nil, or_false] at member
    obtain rfl | inside | rfl := member
    · decide
    · exact printable_dumpsItems items c inside
    · decide
  | .dict entries =>
    intro c member
    simp only [dumps, List.cons_append, List.mem_cons, List.mem_append, List.not_mem_nil, or_false] at member
    obtain rfl | inside | rfl := member
    · decide
    · exact printable_dumpsEntries entries c inside
    · decide

theorem printable_dumpsItems (items : List Value) : ∀ c ∈ dumpsItems items, Printable c := by
  match items with
  | [] => nofun
  | [v] =>
    rw [dumpsItems]
    exact printable_dumps v
  | v :: v' :: more =>
    intro c member
    simp only [dumpsItems_cons, List.mem_append, List.mem_cons] at member
    obtain inside | rfl | rfl | later := member
    · exact printable_dumps v c inside
    · decide
    · decide
    · exact printable_dumpsItems (v' :: more) c later

theorem printable_dumpsEntries (entries : List (String × Value)) : ∀ c ∈ dumpsEntries entries, Printable c := by
  match entries with
  | [] => nofun
  | [(key, v)] =>
    intro c member
    simp only [dumpsEntries, List.mem_append, List.mem_cons] at member
    obtain name | rfl | rfl | inside := member
    · exact printable_quoted key c name
    · decide
    · decide
    · exact printable_dumps v c inside
  | (key, v) :: entry :: more =>
    intro c member
    simp only [dumpsEntries_cons, List.mem_append, List.mem_cons] at member
    obtain ((name | rfl | rfl | inside) | rfl | rfl | later) := member
    · exact printable_quoted key c name
    · decide
    · decide
    · exact printable_dumps v c inside
    · decide
    · decide
    · exact printable_dumpsEntries (entry :: more) c later

end

end EdgeVms.Python.Json
