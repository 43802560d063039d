import EdgeVms.Python.Value

/-! # `urllib.parse`

Percent-encoding with no safe character of one's own, and the five parts of a URL.  What
`urlsplit` checks of a bracketed host and of the normal form of a netloc only raises; it
is the parameter `wellFormed`.
-/

namespace EdgeVms.Python.Url

/-! ## `quote(text, safe='')` -/

def alwaysSafe (c : Char) : Bool := c.isAlphanum || c ∈ ['_', '.', '-', '~']

def hexDigit (n : Nat) : Char := (Nat.digitChar n).toUpper

def quoter (byte : UInt8) : List Char :=
  if alwaysSafe (Char.ofNat byte.toNat) then [Char.ofNat byte.toNat]
  else ['%', hexDigit (byte.toNat / 16), hexDigit (byte.toNat % 16)]

def quote (text : List Char) : List Char := (text.flatMap String.utf8EncodeChar).flatMap quoter

theorem alphanum_hexDigit : ∀ n < 16, (hexDigit n).isAlphanum := by decide

theorem mem_quote {text : List Char} {c : Char} (member : c ∈ quote text) : alwaysSafe c ∨ c = '%' := by
  obtain ⟨byte, -, written⟩ := List.mem_flatMap.mp member
  have small : byte.toNat < 256 := byte.toNat_lt
  unfold quoter at written
  split at written
  next safe =>
    rw [List.mem_singleton.mp written]
    exact .inl safe
  next =>
    simp only [List.mem_cons, List.not_mem_nil, or_false] at written
    obtain rfl | rfl | rfl := written
    · exact .inr rfl
    · exact .inl (by simp [alwaysSafe, alphanum_hexDigit (byte.toNat / 16) (by omega)])
    · exact .inl (by simp [alwaysSafe, alphanum_hexDigit (byte.toNat % 16) (by omega)])

theorem ascii_of_safe {c : Char} (safe : alwaysSafe c) : c.toNat < 128 := by
  have ranges : decide ('A'.val ≤ c.val ∧ c.val ≤ 'Z'.val) || (decide ('a'.val ≤ c.val) && decide (c.val ≤ 'z'.val)) ||
      (decide ('0'.val ≤ c.val) && decide (c.val ≤ '9'.val)) || decide (c ∈ ['_', '.', '-', '~']) := safe
  simp only [Bool.or_eq_true, Bool.and_eq_true, decide_eq_true_eq, UInt32.le_iff_toNat_le, List.mem_cons,
    List.not_mem_nil, or_false] at ranges
  have value : c.toNat = c.val.toNat := rfl
  obtain ((⟨-, small⟩ | ⟨-, small⟩) | ⟨-, small⟩) | rfl | rfl | rfl | rfl := ranges
  · exact value ▸ Nat.lt_of_le_of_lt small (by decide)
  · exact value ▸ Nat.lt_of_le_of_lt small (by decide)
  · exact value ▸ Nat.lt_of_le_of_lt small (by decide)
  all_goals decide

/-! ## `urlsplit` and `urlunsplit` -/

structure SplitResult where
  scheme : List Char
  netloc : List Char
  path : List Char
  query : List Char
  fragment : List Char
  deriving DecidableEq

def schemeChar (c : Char) : Bool := c.isAlphanum || c ∈ ['+', '-', '.']

/-- What stands before the first colon, in lower case, where it can be a scheme. -/
def splitScheme (url : List Char) : List Char × List Char :=
  let before := url.takeWhile (· ≠ ':')
  match url.dropWhile (· ≠ ':') with
  | _ :: rest =>
    if before.head?.any Char.isAlpha && before.all schemeChar then (before.map Char.toLower, rest) else ([], url)
  | [] => ([], url)

def delimiter (c : Char) : Bool := c ∈ ['/', '?', '#']

def splitNetloc : List Char → List Char × List Char
  | '/' :: '/' :: rest => (rest.takeWhile (!delimiter ·), rest.dropWhile (!delimiter ·))
  | url => ([], url)

/-- `text.split(separator, 1)`, with nothing for the second part that is not there -/
def splitFirst (separator : Char) (text : List Char) : List Char × List Char :=
  (text.takeWhile (· ≠ separator), (text.dropWhile (· ≠ separator)).drop 1)

/-- The characters that are removed wherever they stand. -/
def unsafeChar (c : Char) : Bool := c ∈ ['\t', '\r', '\n']

def urlsplit (wellFormed : List Char → Bool) (url : List Char) : Except Error SplitResult :=
  let url := (url.dropWhile (·.toNat ≤ 0x20)).filter (!unsafeChar ·)
  let (scheme, url) := splitScheme url
  let (netloc, url) := splitNetloc url
  if ('[' ∈ netloc ∧ ']' ∉ netloc) ∨ (']' ∈ netloc ∧ '[' ∉ netloc) then .error .valueError
  else if netloc ≠ [] ∧ !wellFormed netloc then .error .valueError
  else
    let (url, fragment) := splitFirst '#' url
    let (path, query) := splitFirst '?' url
    .ok ⟨scheme, netloc, path, query, fragment⟩

def usesNetloc : List String :=
  ["", "ftp", "http", "gopher", "nntp", "telnet", "imap", "wais", "file", "mms", "https", "shttp", "snews",
    "prospero", "rtsp", "rtsps", "rtspu", "rsync", "svn", "svn+ssh", "sftp", "nfs", "git", "git+ssh", "ws", "wss"]

def urlunsplit (parts : SplitResult) : List Char :=
  let url :=
    if parts.netloc ≠ [] ∨ (parts.scheme ≠ [] ∧ String.ofList parts.scheme ∈ usesNetloc) ∨
        parts.path.take 2 = ['/', '/'] then
      '/' :: '/' :: parts.netloc ++
        (if parts.path ≠ [] ∧ parts.path.head? ≠ some '/' then '/' :: parts.path else parts.path)
    else parts.path
  let url := if parts.scheme ≠ [] then parts.scheme ++ ':' :: url else url
  let url := if parts.query ≠ [] then url ++ '?' :: parts.query else url
  if parts.fragment ≠ [] then url ++ '#' :: parts.fragment else url

/-- What a URL says after its netloc. -/
def SplitResult.afterNetloc (parts : SplitResult) : List Char :=
  parts.path ++ (if parts.query ≠ [] then '?' :: parts.query else []) ++
    (if parts.fragment ≠ [] then '#' :: parts.fragment else [])

theorem splitNetloc_rest {url : List Char} (netloc : (splitNetloc url).1 ≠ []) :
    ∀ c ∈ (splitNetloc url).2.head?, delimiter c := by
  unfold splitNetloc at netloc ⊢
  split
  next rest =>
    intro c head
    have stops := List.head?_dropWhile_not (!delimiter ·) rest
    rw [Option.mem_def.mp head] at stops
    simpa using stops
  next => simp at netloc

/-- A path that follows a netloc begins with a slash. -/
theorem path_of_urlsplit {wellFormed : List Char → Bool} {url : List Char} {parts : SplitResult}
    (split_ : urlsplit wellFormed url = .ok parts) (netloc : parts.netloc ≠ []) :
    parts.path = [] ∨ parts.path.head? = some '/' := by
  obtain ⟨rest, path, first⟩ : ∃ rest, parts.path = (splitFirst '?' (splitFirst '#' rest).1).1 ∧
      ∀ c ∈ rest.head?, delimiter c := by
    simp only [urlsplit] at split_
    generalize splitScheme _ = schemed at split_
    split at split_
    · cases split_
    · split at split_
      · cases split_
      · cases split_
        exact ⟨(splitNetloc schemed.2).2, rfl, splitNetloc_rest netloc⟩
  cases rest with
  | nil => exact .inl path
  | cons c rest =>
    have one := first c rfl
    simp only [delimiter, List.mem_cons, List.not_mem_nil, or_false, decide_eq_true_eq] at one
    rw [path]
    obtain rfl | rfl | rfl := one
    · exact .inr (by simp [splitFirst])
    · exact .inl (by simp [splitFirst])
    · exact .inl (by simp [splitFirst])

theorem urlunsplit_eq {parts : SplitResult} (scheme : parts.scheme ≠ []) (netloc : parts.netloc ≠ [])
    (path : parts.path = [] ∨ parts.path.head? = some '/') :
    urlunsplit parts = parts.scheme ++ ':' :: '/' :: '/' :: parts.netloc ++ parts.afterNetloc := by
  have rooted : ¬(parts.path ≠ [] ∧ parts.path.head? ≠ some '/') := by
    obtain empty | rooted := path
    · simp [empty]
    · simp [rooted]
  simp only [urlunsplit, SplitResult.afterNetloc, if_pos scheme, if_neg rooted, netloc, ne_eq,
    not_false_eq_true, true_or, if_true]
  by_cases query : parts.query = [] <;> by_cases fragment : parts.fragment = [] <;> simp [query, fragment]

end EdgeVms.Python.Url
