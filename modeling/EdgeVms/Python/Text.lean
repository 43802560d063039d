import Mathlib.Data.List.Basic

/-! # Python's texts: numerals and separators

`int(text)` as the interpreter reads it, and `split` and `join` on one
separator.  The two round trips at the end (`pyInt_toString`, `split_join`) are
what every row that holds a number or a list of names rests on.
-/

namespace EdgeVms.Python

/-! ## `int(text)` -/

/-- The zeros of the blocks of ten decimal digits (Unicode category Nd). -/
def decimalZeros : List Nat :=
  [0x30, 0x660, 0x6f0, 0x7c0, 0x966, 0x9e6, 0xa66, 0xae6, 0xb66, 0xbe6, 0xc66, 0xce6, 0xd66, 0xde6,
    0xe50, 0xed0, 0xf20, 0x1040, 0x1090, 0x17e0, 0x1810, 0x1946, 0x19d0, 0x1a80, 0x1a90, 0x1b50,
    0x1bb0, 0x1c40, 0x1c50, 0xa620, 0xa8d0, 0xa900, 0xa9d0, 0xa9f0, 0xaa50, 0xabf0, 0xff10, 0x104a0,
    0x10d30, 0x11066, 0x110f0, 0x11136, 0x111d0, 0x112f0, 0x11450, 0x114d0, 0x11650, 0x116c0,
    0x11730, 0x118e0, 0x11950, 0x11c50, 0x11d50, 0x11da0, 0x16a60, 0x16ac0, 0x16b50, 0x1d7ce,
    0x1d7d8, 0x1d7e2, 0x1d7ec, 0x1d7f6, 0x1e140, 0x1e2f0, 0x1e950, 0x1fbf0]

def isBlank (c : Char) : Bool := c.toNat == 0x20 || (0x09 ≤ c.toNat && c.toNat ≤ 0x0d)

/-- White space outside ASCII. -/
def isWideBlank (c : Char) : Bool :=
  c.toNat ∈ [0x85, 0xa0, 0x1680, 0x2028, 0x2029, 0x202f, 0x205f, 0x3000] ||
    (0x2000 ≤ c.toNat && c.toNat ≤ 0x200a)

/-- What `int` sees of a character: any blank as a space, any decimal digit as its ASCII digit. -/
def asAscii (c : Char) : Char :=
  if c.toNat < 127 then c
  else if isWideBlank c then ' '
  else match decimalZeros.find? fun first => first ≤ c.toNat && c.toNat < first + 10 with
    | some first => Nat.digitChar (c.toNat - first)
    | none => '?'

def strip (chars : List Char) : List Char :=
  ((chars.dropWhile isBlank).reverse.dropWhile isBlank).reverse

/-- Digits, with single underscores between them. -/
def numeral : List Char → Option (List Char)
  | [] => none
  | [c] => if c.isDigit then some [c] else none
  | c :: '_' :: rest => if c.isDigit then (c :: ·) <$> numeral rest else none
  | c :: rest => if c.isDigit then (c :: ·) <$> numeral rest else none

def unsigned (chars : List Char) : Option Nat :=
  (numeral chars).map (Nat.ofDigitChars 10 · 0)

/-- `int(text)`; `none` is the `ValueError`. -/
def pyInt (text : String) : Option Int :=
  match strip (text.toList.map asAscii) with
  | '-' :: rest => (unsigned rest).map fun n : Nat => -(n : Int)
  | '+' :: rest => (unsigned rest).map fun n : Nat => (n : Int)
  | chars => (unsigned chars).map fun n : Nat => (n : Int)

example : pyInt " 1_0\n" = some 10 := by decide
example : [pyInt "", pyInt "_1", pyInt "1__0", pyInt "- 5", pyInt "1.5"] = List.replicate 5 none := by
  decide

theorem numeral_digits {chars : List Char} (nonempty : chars ≠ [])
    (digits : ∀ c ∈ chars, c.isDigit) : numeral chars = some chars := by
  induction chars with
  | nil => exact absurd rfl nonempty
  | cons c rest ih =>
    have digit : c.isDigit := digits c (by simp)
    cases rest with
    | nil => simp [numeral, digit]
    | cons next rest =>
      have plain : next ≠ '_' := by
        rintro rfl
        exact absurd (digits '_' (by simp)) (by decide)
      have later : numeral (next :: rest) = some (next :: rest) :=
        ih (by simp) fun x member => digits x (List.mem_cons_of_mem _ member)
      rw [numeral]
      · simp [digit, later]
      · simp
      · rintro _ ⟨⟩; exact plain rfl

theorem unsigned_toDigits (n : Nat) : unsigned (Nat.toDigits 10 n) = some n := by
  have digits : ∀ c ∈ Nat.toDigits 10 n, c.isDigit :=
    fun c member => Nat.isDigit_of_mem_toDigits (by decide) (by decide) member
  simp [unsigned, numeral_digits Nat.toDigits_ne_nil digits, Nat.ofDigitChars_ten_toDigits]

theorem digit_bounds {c : Char} (digit : c.isDigit) : 48 ≤ c.toNat ∧ c.toNat ≤ 57 := by
  simp only [Char.isDigit, Bool.and_eq_true, decide_eq_true_eq, ge_iff_le, UInt32.le_iff_toNat_le] at digit
  exact digit

/-- A character that `asAscii` and `strip` leave alone. -/
def Solid (c : Char) : Prop := c.toNat < 127 ∧ isBlank c = false

theorem solid_digit {c : Char} (digit : c.isDigit) : Solid c := by
  have bounds := digit_bounds digit
  constructor
  · omega
  · simp only [isBlank, Bool.or_eq_false_iff, beq_eq_false_iff_ne, Bool.and_eq_false_imp,
      decide_eq_true_eq, decide_eq_false_iff_not]
    omega

theorem strip_solid {chars : List Char} (solid : ∀ c ∈ chars, Solid c) : strip chars = chars := by
  have dropless : ∀ cs : List Char, (∀ c ∈ cs, Solid c) → cs.dropWhile isBlank = cs := by
    intro cs all
    cases cs with
    | nil => rfl
    | cons c rest => simp [(all c (by simp)).2]
  rw [strip, dropless chars solid,
    dropless chars.reverse fun c member => solid c (List.mem_reverse.mp member), List.reverse_reverse]

theorem map_asAscii_solid {chars : List Char} (solid : ∀ c ∈ chars, Solid c) :
    chars.map asAscii = chars := by
  refine (List.map_congr_left fun c member => ?_).trans (List.map_id _)
  simp [asAscii, (solid c member).1]

theorem pyInt_digits {chars : List Char} (digits : ∀ c ∈ chars, c.isDigit) :
    pyInt (String.ofList chars) = (unsigned chars).map fun n : Nat => (n : Int) := by
  have solid : ∀ c ∈ chars, Solid c := fun c member => solid_digit (digits c member)
  rw [pyInt, String.toList_ofList, map_asAscii_solid solid, strip_solid solid]
  split
  next rest => exact absurd (digits '-' (by simp)) (by decide)
  next rest => exact absurd (digits '+' (by simp)) (by decide)
  next => rfl

theorem pyInt_minus {chars : List Char} (digits : ∀ c ∈ chars, c.isDigit) :
    pyInt (String.ofList ('-' :: chars)) = (unsigned chars).map fun n : Nat => -(n : Int) := by
  have solid : ∀ c ∈ '-' :: chars, Solid c := by
    intro c member
    cases member with
    | head => exact ⟨by decide, by decide⟩
    | tail _ later => exact solid_digit (digits c later)
  rw [pyInt, String.toList_ofList, map_asAscii_solid solid, strip_solid solid]
  rfl

theorem pyInt_toString (n : Int) : pyInt (toString n) = some n := by
  have digits : ∀ m, ∀ c ∈ Nat.toDigits 10 m, c.isDigit :=
    fun m c member => Nat.isDigit_of_mem_toDigits (by decide) (by decide) member
  have repr : ∀ m : Nat, m.repr = String.ofList (Nat.toDigits 10 m) := by
    intro m
    rw [← Nat.toList_repr, String.ofList_toList]
  rw [Int.toString_eq_repr, Int.repr_eq_if]
  by_cases sign : 0 ≤ n
  · rw [if_pos sign, repr, pyInt_digits (digits _), unsigned_toDigits]
    simp [Int.toNat_of_nonneg sign]
  · have minus : "-" ++ String.ofList (Nat.toDigits 10 (-n).toNat) =
        String.ofList ('-' :: Nat.toDigits 10 (-n).toNat) := by
      rw [← String.toList_inj]
      simp
    rw [if_neg sign, repr, minus, pyInt_minus (digits _), unsigned_toDigits]
    simp only [Option.map_some, Option.some.injEq]
    omega

@[simp] theorem pyInt_repr (n : Int) : pyInt n.repr = some n := by
  rw [← Int.toString_eq_repr, pyInt_toString]

@[simp] theorem pyInt_repr_nat (n : Nat) : pyInt n.repr = some (n : Int) := pyInt_toString (n : Int)

theorem strip_head {c : Char} (rest : List Char) (solid : isBlank c = false) :
    ∃ rest', strip (c :: rest) = c :: rest' := by
  rw [strip, List.dropWhile_cons_of_neg (by simp [solid]), List.reverse_cons, List.dropWhile_append]
  split
  · exact ⟨[], by simp [solid]⟩
  · rw [List.reverse_append]
    exact ⟨_, rfl⟩

/-- No numeral starts with a character that is neither a digit nor a sign. -/
theorem pyInt_none {text : String} {c : Char} {rest : List Char} (chars : text.toList = c :: rest)
    (solid : Solid c) (sign : c ≠ '-' ∧ c ≠ '+') (digit : c.isDigit = false) : pyInt text = none := by
  have ascii : asAscii c = c := by rw [asAscii, if_pos solid.1]
  obtain ⟨rest', stripped⟩ := strip_head (rest.map asAscii) solid.2
  have refused : numeral (c :: rest') = none := by
    cases rest' with
    | nil => simp [numeral, digit]
    | cons next later =>
      by_cases under : next = '_'
      · subst under
        simp [numeral, digit]
      · rw [numeral]
        · simp [digit]
        · simp
        · rintro _ ⟨⟩
          exact under rfl
  rw [pyInt, chars, List.map_cons, ascii, stripped]
  simp [sign.1, sign.2, unsigned, refused]

theorem mem_dropWhile {c : Char} {chars : List Char} (member : c ∈ chars) (solid : isBlank c = false) :
    c ∈ chars.dropWhile isBlank := by
  rw [← List.takeWhile_append_dropWhile (p := isBlank) (l := chars), List.mem_append] at member
  obtain blank | solid' := member
  · rw [List.all_eq_true.mp List.all_takeWhile c blank] at solid
    cases solid
  · exact solid'

theorem mem_strip {c : Char} {chars : List Char} (member : c ∈ chars) (solid : isBlank c = false) :
    c ∈ strip chars := by
  apply List.mem_reverse.mpr
  apply mem_dropWhile _ solid
  exact List.mem_reverse.mpr (mem_dropWhile member solid)

theorem numeral_chars {chars digits : List Char} (made : numeral chars = some digits) :
    ∀ c ∈ chars, c.isDigit = true ∨ c = '_' := by
  induction chars using numeral.induct generalizing digits with
  | case1 => cases made
  | case2 c digit =>
    intro c' member
    rw [List.mem_singleton.mp member]
    exact .inl digit
  | case3 c other =>
    rw [numeral, if_neg other] at made
    cases made
  | case4 c rest digit ih =>
    rw [numeral, if_pos digit] at made
    obtain ⟨_, later, -⟩ := Option.map_eq_some_iff.mp made
    simp only [List.forall_mem_cons]
    exact ⟨.inl digit, .inr trivial, ih later⟩
  | case5 c rest other =>
    rw [numeral, if_neg other] at made
    cases made
  | case6 c rest nonempty underscore digit ih =>
    rw [numeral, if_pos digit] at made
    · obtain ⟨_, later, -⟩ := Option.map_eq_some_iff.mp made
      exact List.forall_mem_cons.mpr ⟨.inl digit, ih later⟩
    · exact nonempty
    · exact underscore
  | case7 c rest nonempty underscore other =>
    rw [numeral, if_neg other] at made
    · cases made
    · exact nonempty
    · exact underscore

/-- A text with a point in it is no integer. -/
theorem pyInt_point {text : String} (point : '.' ∈ text.toList) : pyInt text = none := by
  have mapped : '.' ∈ text.toList.map asAscii := List.mem_map.mpr ⟨'.', point, by decide⟩
  have inside := mem_strip mapped (by decide)
  have refuses : ∀ chars : List Char, '.' ∈ chars → unsigned chars = none := by
    intro chars member
    cases made : numeral chars with
    | none => simp [unsigned, made]
    | some digits => exact absurd (numeral_chars made '.' member) (by decide)
  rw [pyInt]
  split
  next rest same =>
    rw [same, List.mem_cons] at inside
    rw [refuses rest (inside.resolve_left (by decide))]
    rfl
  next rest same =>
    rw [same, List.mem_cons] at inside
    rw [refuses rest (inside.resolve_left (by decide))]
    rfl
  next =>
    rw [refuses _ inside]
    rfl

theorem toString_inj {n m : Int} (same : toString n = toString m) : n = m := by
  have read := pyInt_toString n
  rw [same, pyInt_toString] at read
  exact (Option.some.inj read).symm

/-! ## `split` and `join` -/

/-- `text.split(sep)`. -/
def split (sep : Char) (text : String) : List String :=
  (text.toList.splitOn sep).map String.ofList

/-- `sep.join(parts)`. -/
def join (sep : Char) (parts : List String) : String :=
  String.ofList ([sep].intercalate (parts.map String.toList))

theorem toList_join_cons {sep : Char} {part : String} {parts : List String} (more : parts ≠ []) :
    (join sep (part :: parts)).toList = part.toList ++ sep :: (join sep parts).toList := by
  simp [join, List.intercalate_cons_of_ne_nil, more]

theorem mem_join {sep c : Char} {parts : List String} (member : c ∈ (join sep parts).toList) :
    c = sep ∨ ∃ part ∈ parts, c ∈ part.toList := by
  induction parts with
  | nil => simp [join] at member
  | cons part rest ih =>
    by_cases more : rest = []
    · subst more
      exact .inr ⟨part, List.mem_cons_self, by simpa [join] using member⟩
    · rw [toList_join_cons more, List.mem_append, List.mem_cons] at member
      obtain here | rfl | later := member
      · exact .inr ⟨part, List.mem_cons_self, here⟩
      · exact .inl rfl
      · obtain separator | ⟨other, inside, there⟩ := ih later
        · exact .inl separator
        · exact .inr ⟨other, List.mem_cons_of_mem _ inside, there⟩

/-- `[part for part in text.split(sep) if part]`. -/
def fields (sep : Char) (text : String) : List String :=
  (split sep text).filter (· ≠ "")

/-- A name that survives being joined to others and split off again. -/
structure Atomic (sep : Char) (part : String) : Prop where
  nonempty : part ≠ ""
  whole : sep ∉ part.toList

theorem split_join {sep : Char} {parts : List String} (nonempty : parts ≠ [])
    (whole : ∀ part ∈ parts, sep ∉ part.toList) : split sep (join sep parts) = parts := by
  have pieces : ∀ piece ∈ parts.map String.toList, sep ∉ piece := by
    simpa using whole
  rw [split, join, String.toList_ofList, List.splitOn_intercalate sep pieces (by simpa using nonempty),
    List.map_map]
  exact (List.map_congr_left fun part _ => String.ofList_toList).trans (List.map_id _)

theorem join_split (sep : Char) (text : String) : join sep (split sep text) = text := by
  rw [join, split, List.map_map]
  have pieces : (text.toList.splitOn sep).map (String.toList ∘ String.ofList) = text.toList.splitOn sep :=
    (List.map_congr_left fun piece _ => String.toList_ofList).trans (List.map_id _)
  rw [pieces, List.intercalate_splitOn, String.ofList_toList]

theorem fields_join {sep : Char} {parts : List String} (atomic : ∀ part ∈ parts, Atomic sep part) :
    fields sep (join sep parts) = parts := by
  by_cases empty : parts = []
  · subst empty
    rfl
  · rw [fields, split_join empty fun part member => (atomic part member).whole]
    exact List.filter_eq_self.mpr fun part member => by simpa using (atomic part member).nonempty

theorem not_mem_splitOn {sep : Char} {chars piece : List Char} (member : piece ∈ chars.splitOn sep) :
    sep ∉ piece := by
  induction chars generalizing piece with
  | nil =>
    rw [List.splitOn_nil, List.mem_singleton] at member
    simp [member]
  | cons c rest ih =>
    rw [List.splitOn_cons_eq_if_modifyHead] at member
    split at member
    next separator =>
      obtain rfl | later := List.mem_cons.mp member
      · simp
      · exact ih later
    next other =>
      cases pieces : rest.splitOn sep with
      | nil => exact absurd pieces (List.splitOn_ne_nil sep rest)
      | cons first later =>
        rw [pieces] at member ih
        obtain rfl | member := List.mem_cons.mp member
        · have differs : sep ≠ c := fun same => other (by simp [same])
          simpa [differs] using ih (by simp)
        · exact ih (List.mem_cons_of_mem _ member)

theorem atomic_fields {sep : Char} {text part : String} (member : part ∈ fields sep text) :
    Atomic sep part := by
  simp only [fields, split, List.mem_filter, List.mem_map, decide_eq_true_eq, ne_eq] at member
  obtain ⟨⟨piece, split, rfl⟩, nonempty⟩ := member
  exact ⟨nonempty, by simpa using not_mem_splitOn split⟩

/-- The text of an integer has digits, and perhaps a minus. -/
theorem not_mem_toString {c : Char} (digit : c.isDigit = false) (minus : c ≠ '-') (n : Int) :
    c ∉ (toString n).toList := by
  have clear : ∀ m, c ∉ Nat.toDigits 10 m := by
    intro m member
    have decimal := Nat.isDigit_of_mem_toDigits (by decide) (by decide) member
    rw [digit] at decimal
    cases decimal
  rw [Int.toString_eq_repr, Int.repr_eq_if]
  split
  · rw [Nat.toList_repr]
    exact clear _
  · simp [Nat.toList_repr, minus, clear]

/-- The text of an integer is one name. -/
theorem atomic_toString (n : Int) : Atomic ',' (toString n) := by
  constructor
  · intro empty
    have read := pyInt_toString n
    have refused : pyInt "" = none := by decide
    rw [empty, refused] at read
    cases read
  · exact not_mem_toString (by decide) (by decide) n

end EdgeVms.Python
