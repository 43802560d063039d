import EdgeVms.Python.Path
import EdgeVms.Python.Value

/-! # JSON in the lines of a file

`json.loads` reads one value and nothing after it; `json.dumps` writes ASCII only.
The parser is given as many steps as the text has characters, and each step takes one.
-/

namespace EdgeVms.Python.Json

def isSpace (c : Char) : Bool := c = ' ' || c = '\t' || c = '\n' || c = '\r'

def skip (chars : List Char) : List Char := chars.dropWhile isSpace

/-! ## Numbers -/

def places : List Char → List Char × List Char
  | '.' :: rest =>
    let (digits, after) := rest.span Char.isDigit
    if digits.isEmpty then ([], '.' :: rest) else (digits, after)
  | chars => ([], chars)

def signed : List Char → Option (Int × List Char)
  | '-' :: rest => digitsOf true rest
  | '+' :: rest => digitsOf false rest
  | rest => digitsOf false rest
where
  digitsOf (negative : Bool) (chars : List Char) : Option (Int × List Char) :=
    let (digits, after) := chars.span Char.isDigit
    if digits.isEmpty then none
    else some (if negative then -(DateTime.number digits : Int) else DateTime.number digits, after)

def exponent (chars : List Char) : Option (Int × List Char) :=
  match chars with
  | 'e' :: rest | 'E' :: rest => signed rest
  | _ => none

/-- The longest number at the front; a fraction or an exponent makes it a float. -/
def number (chars : List Char) : Except Error (Value × List Char) :=
  let (sign, chars) : Int × List Char := match chars with
    | '-' :: rest => (-1, rest)
    | chars => (1, chars)
  let (whole, rest) := match chars with
    | '0' :: rest => (['0'], rest)
    | chars => chars.span Char.isDigit
  if whole.isEmpty then .error .valueError
  else
    let (fraction, rest) := places rest
    let mantissa : ℚ := sign * DateTime.number (whole ++ fraction) / 10 ^ fraction.length
    match exponent rest with
    | some (power, rest) => .ok (.float (.finite (mantissa * 10 ^ power)), rest)
    | none =>
      if fraction.isEmpty then .ok (.int (sign * DateTime.number whole), rest)
      else .ok (.float (.finite mantissa), rest)

/-! ## Strings -/

def hexDigit (c : Char) : Option Nat :=
  if c.isDigit then some (c.toNat - 48)
  else if 'a' ≤ c ∧ c ≤ 'f' then some (c.toNat - 87)
  else if 'A' ≤ c ∧ c ≤ 'F' then some (c.toNat - 55)
  else none

def hexFour : List Char → Except Error (Nat × List Char)
  | a :: b :: c :: d :: rest =>
    match hexDigit a, hexDigit b, hexDigit c, hexDigit d with
    | some a, some b, some c, some d => .ok (((a * 16 + b) * 16 + c) * 16 + d, rest)
    | _, _, _, _ => .error .valueError
  | _ => .error .valueError

/-- A half of a surrogate pair that has no other half stands for the replacement character. -/
def unicode (chars : List Char) : Except Error (Char × List Char) := do
  let (high, rest) ← hexFour chars
  if high < 0xd800 ∨ 0xdfff < high then return (Char.ofNat high, rest)
  else
    match rest with
    | '\\' :: 'u' :: more =>
      let (low, after) ← hexFour more
      if high < 0xdc00 ∧ 0xdc00 ≤ low ∧ low ≤ 0xdfff then
        return (Char.ofNat (0x10000 + (high - 0xd800) * 1024 + (low - 0xdc00)), after)
      else return ('\ufffd', rest)
    | rest => return ('\ufffd', rest)

def escaped : List Char → Except Error (Char × List Char)
  | '"' :: rest => .ok ('"', rest)
  | '\\' :: rest => .ok ('\\', rest)
  | '/' :: rest => .ok ('/', rest)
  | 'b' :: rest => .ok ('\x08', rest)
  | 'f' :: rest => .ok ('\x0c', rest)
  | 'n' :: rest => .ok ('\n', rest)
  | 'r' :: rest => .ok ('\r', rest)
  | 't' :: rest => .ok ('\t', rest)
  | 'u' :: rest => unicode rest
  | _ => .error .valueError

/-- The characters up to the closing quote. -/
def string : Nat → List Char → Except Error (List Char × List Char)
  | 0, _ | _, [] => .error .valueError
  | fuel + 1, c :: rest => do
    if c = '"' then return ([], rest)
    else if c = '\\' then
      let (c, rest) ← escaped rest
      let (more, rest) ← string fuel rest
      return (c :: more, rest)
    else if c.toNat < 32 then throw .valueError
    else
      let (more, rest) ← string fuel rest
      return (c :: more, rest)

/-! ## Values -/

def constants : List (String × Value) :=
  [("null", .none), ("true", .bool true), ("false", .bool false), ("NaN", .float .nan),
    ("Infinity", .float (.infinite false)), ("-Infinity", .float (.infinite true))]

def constant? (chars : List Char) : Option (Value × List Char) :=
  constants.findSome? fun (word, value) =>
    if word.toList.isPrefixOf chars then some (value, chars.drop word.length) else none

mutual

def value : Nat → List Char → Except Error (Value × List Char)
  | 0, _ | _, [] => .error .valueError
  | fuel + 1, c :: rest =>
    if c = '"' then do
      let (chars, rest) ← string fuel rest
      return (.str (.plain (String.ofList chars)), rest)
    else if c = '\x7b' then
      match skip rest with
      | '\x7d' :: rest => .ok (.dict [], rest)
      | rest => do
        let (entries, rest) ← members fuel [] rest
        return (.dict entries, rest)
    else if c = '[' then
      match skip rest with
      | ']' :: rest => .ok (.list [], rest)
      | rest => do
        let (items, rest) ← elements fuel [] rest
        return (.list items, rest)
    else
      match constant? (c :: rest) with
      | some found => .ok found
      | none => number (c :: rest)

/-- Of two members with one key the last stays. -/
def members : Nat → Dict Value → List Char → Except Error (Dict Value × List Char)
  | fuel + 1, out, '"' :: rest => do
    let (key, rest) ← string fuel rest
    match skip rest with
    | ':' :: rest =>
      let (item, rest) ← value fuel (skip rest)
      match skip rest with
      | ',' :: rest => members fuel (out.set (String.ofList key) item) (skip rest)
      | '\x7d' :: rest => return (out.set (String.ofList key) item, rest)
      | _ => throw .valueError
    | _ => throw .valueError
  | _, _, _ => .error .valueError

def elements : Nat → List Value → List Char → Except Error (List Value × List Char)
  | 0, _, _ => .error .valueError
  | fuel + 1, out, chars => do
    let (item, rest) ← value fuel chars
    match skip rest with
    | ',' :: rest => elements fuel (out ++ [item]) (skip rest)
    | ']' :: rest => return (out ++ [item], rest)
    | _ => throw .valueError

end

/-- `json.loads(line)` -/
def loads (chars : List Char) : Except Error Value := do
  let (found, rest) ← value (chars.length + 1) (skip chars)
  if (skip rest).isEmpty then return found else throw .valueError

/-! ## `float(value)` -/

/-- Digits with single underscores between them, as a number and its length. -/
def run (chars : List Char) : Option (List Char × List Char) :=
  let (front, rest) := chars.span fun c => c.isDigit || c = '_'
  if front.isEmpty then some ([], rest) else (numeral front).map (·, rest)

def decimal (chars : List Char) : Option ℚ := do
  let (whole, rest) ← run chars
  let (fraction, rest) ← match rest with
    | '.' :: rest => run rest
    | rest => some ([], rest)
  if whole.isEmpty && fraction.isEmpty then none
  else
    let mantissa : ℚ := DateTime.number (whole ++ fraction) / 10 ^ fraction.length
    match rest with
    | [] => some mantissa
    | rest =>
      let (power, rest) ← exponent rest
      if rest.isEmpty then some (mantissa * 10 ^ power) else none

/-- `float(text)`, without a sign. -/
def magnitude (chars : List Char) : Option Floating :=
  match String.ofList (chars.map Char.toLower) with
  | "inf" | "infinity" => some (.infinite false)
  | "nan" => some .nan
  | _ => .finite <$> decimal chars

def negated : Floating → Floating
  | .finite x => .finite (-x)
  | .infinite negative => .infinite !negative
  | .nan => .nan

def textToFloat (chars : List Char) : Option Floating :=
  match strip (chars.map asAscii) with
  | '-' :: rest => negated <$> magnitude rest
  | '+' :: rest => magnitude rest
  | chars => magnitude chars

/-- `float(value)`, of any text. -/
def toFloat : Value → Except Error Floating
  | .str (.plain string) =>
    match textToFloat string.toList with
    | some x => .ok x
    | none => .error .valueError
  | value => value.toFloat

/-! ## Texts -/

def hexText (n : Nat) : List Char :=
  '\\' :: 'u' :: [n / 4096 % 16, n / 256 % 16, n / 16 % 16, n % 16].map Nat.digitChar

def quotedChar (c : Char) : List Char :=
  if c = '"' then ['\\', '"']
  else if c = '\\' then ['\\', '\\']
  else if c = '\n' then ['\\', 'n']
  else if c = '\r' then ['\\', 'r']
  else if c = '\t' then ['\\', 't']
  else if c = '\x0c' then ['\\', 'f']
  else if c = '\x08' then ['\\', 'b']
  else if 32 ≤ c.toNat ∧ c.toNat < 127 then [c]
  else if c.toNat < 0x10000 then hexText c.toNat
  else hexText (0xd800 + (c.toNat - 0x10000) / 1024) ++ hexText (0xdc00 + (c.toNat - 0x10000) % 1024)

def quoted (text : String) : List Char := '"' :: text.toList.flatMap quotedChar ++ ['"']

def floatText : Floating → List Char
  | .nan => "NaN".toList
  | .infinite negative => if negative then "-Infinity".toList else "Infinity".toList
  | x => x.text.toList

mutual

/-- `json.dumps(value)` -/
def dumps : Value → List Char
  | .none => "null".toList
  | .bool value => if value then "true".toList else "false".toList
  | .int value => (toString value).toList
  | .float x => floatText x
  | .str text => quoted text.string
  | .list items => '[' :: dumpsItems items ++ [']']
  | .dict entries => '\x7b' :: dumpsEntries entries ++ ['\x7d']

def dumpsItems : List Value → List Char
  | [] => []
  | [value] => dumps value
  | value :: rest => dumps value ++ ',' :: ' ' :: dumpsItems rest

def dumpsEntries : List (String × Value) → List Char
  | [] => []
  | [(key, value)] => quoted key ++ ':' :: ' ' :: dumps value
  | (key, value) :: rest => quoted key ++ ':' :: ' ' :: dumps value ++ ',' :: ' ' :: dumpsEntries rest

end

/-! ## Files -/

/-- What a file opened for text holds. -/
def decode (bytes : List UInt8) : Except Error (List Char) :=
  match String.fromUTF8? ⟨bytes.toArray⟩ with
  | some text => .ok text.toList
  | none => .error .valueError

def encode (chars : List Char) : List UInt8 := (String.ofList chars).toByteArray.toList

theorem toList_loop (bytes : ByteArray) (i : Nat) (read : List UInt8) :
    ByteArray.toList.loop bytes i read = read.reverse ++ bytes.data.toList.drop i := by
  rw [ByteArray.toList.loop]
  split
  next inside =>
    have there : i < bytes.data.toList.length := inside
    have byte : bytes.get! i = bytes.data.toList[i] := getElem!_pos bytes.data i inside
    rw [toList_loop bytes (i + 1), byte, List.reverse_cons, List.append_assoc, List.singleton_append,
      ← List.drop_eq_getElem_cons there]
  next outside =>
    have past : bytes.data.toList.length ≤ i := Nat.not_lt.mp outside
    rw [List.drop_eq_nil_of_le past, List.append_nil]
  termination_by bytes.size - i

theorem toByteArray_encode (chars : List Char) :
    (⟨(encode chars).toArray⟩ : ByteArray) = (String.ofList chars).toByteArray := by
  rw [encode, ByteArray.toList, toList_loop]
  rfl

theorem encode_eq (chars : List Char) : encode chars = chars.flatMap String.utf8EncodeChar := by
  rw [encode, ByteArray.toList, toList_loop]
  exact List.toList_data_toByteArray

/-- What is written is read back. -/
theorem decode_encode (chars : List Char) : decode (encode chars) = .ok chars := by
  have valid := (String.ofList chars).isValidUTF8
  rw [decode, toByteArray_encode, String.fromUTF8?, dif_pos valid]
  exact congrArg Except.ok (String.toList_ofList)

/-- Lines without their ends, of any of the three kinds. -/
def splitLines : List Char → List (List Char)
  | [] => [[]]
  | '\r' :: '\n' :: rest => [] :: splitLines rest
  | c :: rest =>
    if c = '\n' ∨ c = '\r' then [] :: splitLines rest
    else
      match splitLines rest with
      | [] => [[c]]
      | line :: lines => (c :: line) :: lines

/-- `c.isspace()` -/
def isBlank (c : Char) : Bool :=
  Python.isBlank c || Python.isWideBlank c || (0x1c ≤ c.toNat && c.toNat ≤ 0x1f)

/-- `[l for l in f if l.strip()]` -/
def linesOf (bytes : List UInt8) : Except Error (List (List Char)) :=
  (fun text => (splitLines text).filter fun line => !line.all isBlank) <$> decode bytes

end EdgeVms.Python.Json
