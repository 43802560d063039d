import EdgeVms.Python.Text
import Mathlib.Algebra.Order.Floor.Defs
import Mathlib.Data.Rat.Floor

/-! # Python's values, as far as JSON and the stores carry them

A float has an exact value, and a text that `str` makes of it is kept with the
float (`Text.float`), since reading it back gives the same float.  Every other
text is plain.
-/

namespace EdgeVms.Python

/-- The built-in exceptions that the modelled code lets through or catches. -/
inductive Error where
  | typeError
  | valueError
  | overflowError
  | attributeError
  | keyError (key : String)
  | runtimeError (message : String)
  | zeroDivisionError
  deriving DecidableEq, Repr

theorem bind_eq_ok {ε α β : Type} {x : Except ε α} {f : α → Except ε β} {b : β} :
    (x >>= f) = .ok b ↔ ∃ a, x = .ok a ∧ f a = .ok b := by
  cases x with
  | error e => simp [Bind.bind, Except.bind]
  | ok a => simp [Bind.bind, Except.bind]

theorem map_eq_ok {ε α β : Type} {x : Except ε α} {f : α → β} {b : β} :
    f <$> x = .ok b ↔ ∃ a, x = .ok a ∧ f a = b := by
  cases x with
  | error e => simp [Functor.map, Except.map]
  | ok a => simp [Functor.map, Except.map]

theorem mapError_eq_ok {ε ε' α : Type} {result : Except ε α} {f : ε → ε'} {value : α} :
    result.mapError f = .ok value ↔ result = .ok value := by
  cases result <;> simp [Except.mapError]

theorem mapM_ok_iff {ε α β : Type} {f : α → Except ε β} {xs : List α} :
    (∃ ys, xs.mapM f = .ok ys) ↔ ∀ x ∈ xs, ∃ y, f x = .ok y := by
  induction xs with
  | nil => simp [pure, Except.pure]
  | cons x rest ih =>
    rw [List.forall_mem_cons, ← ih]
    simp only [List.mapM_cons, bind_eq_ok]
    constructor
    · rintro ⟨_, y, first, ys, others, -⟩
      exact ⟨⟨y, first⟩, ys, others⟩
    · rintro ⟨⟨y, first⟩, ys, others⟩
      exact ⟨_, y, first, ys, others, rfl⟩

theorem length_of_mapM {ε α β : Type} {f : α → Except ε β} {xs : List α} {ys : List β} (made : xs.mapM f = .ok ys) :
    ys.length = xs.length := by
  induction xs generalizing ys with
  | nil =>
    cases made
    rfl
  | cons x rest ih =>
    simp only [List.mapM_cons, bind_eq_ok] at made
    obtain ⟨y, -, others, later, ends⟩ := made
    cases ends
    rw [List.length_cons, List.length_cons, ih later]

theorem mem_of_mapM_ok {ε α β : Type} {f : α → Except ε β} {xs : List α} {ys : List β} (made : xs.mapM f = .ok ys)
    {x : α} (member : x ∈ xs) : ∃ y ∈ ys, f x = .ok y := by
  induction xs generalizing ys with
  | nil => cases member
  | cons first rest ih =>
    simp only [List.mapM_cons, bind_eq_ok] at made
    obtain ⟨y, made, others, later, ends⟩ := made
    cases ends
    obtain rfl | inside := List.mem_cons.mp member
    · exact ⟨y, .head _, made⟩
    · obtain ⟨y', there, made'⟩ := ih later inside
      exact ⟨y', .tail _ there, made'⟩

theorem of_mem_mapM_ok {ε α β : Type} {f : α → Except ε β} {xs : List α} {ys : List β} (made : xs.mapM f = .ok ys)
    {y : β} (member : y ∈ ys) : ∃ x ∈ xs, f x = .ok y := by
  induction xs generalizing ys with
  | nil =>
    cases made
    cases member
  | cons first rest ih =>
    simp only [List.mapM_cons, bind_eq_ok] at made
    obtain ⟨y', made, others, later, ends⟩ := made
    cases ends
    obtain rfl | inside := List.mem_cons.mp member
    · exact ⟨first, .head _, made⟩
    · obtain ⟨x, there, made'⟩ := ih later inside
      exact ⟨x, .tail _ there, made'⟩

/-- `f"{x:.0f}"`: to the nearest integer, halves to the even one. -/
def fixed (x : ℚ) : String :=
  let whole := ⌊|x|⌋
  let rest := |x| - whole
  (if x < 0 then "-" else "") ++ toString (if rest < 1 / 2 ∨ (rest = 1 / 2 ∧ whole % 2 = 0) then whole else whole + 1)

example : [fixed (1 / 2), fixed (3 / 2), fixed (-3 / 4)] = ["0", "2", "-1"] := by decide +kernel

inductive Floating where
  | finite (value : ℚ)
  | infinite (negative : Bool)
  | nan
  deriving DecidableEq

namespace Floating

/-- Decimal digits of `rest / divisor`, at most `fuel` of them, at least one. -/
def decimals : Nat → Nat → Nat → List Char
  | 0, _, _ => []
  | fuel + 1, rest, divisor =>
    Nat.digitChar (10 * rest / divisor) ::
      if 10 * rest % divisor = 0 then [] else decimals fuel (10 * rest % divisor) divisor

/-- The positional text; exact for the decimals of up to seventeen places. -/
def text : Floating → String
  | .finite q =>
    let whole := toString (q.num.natAbs / q.den)
    (if q < 0 then "-" else "") ++ whole ++ "." ++ String.ofList (decimals 17 (q.num.natAbs % q.den) q.den)
  | .infinite negative => if negative then "-inf" else "inf"
  | .nan => "nan"

/-- `x < y`. -/
def lt : Floating → Floating → Bool
  | .finite x, .finite y => x < y
  | .finite _, .infinite negative => !negative
  | .infinite negative, .finite _ => negative
  | .infinite left, .infinite right => left && !right
  | .nan, _ => false
  | _, .nan => false

def add : Floating → ℚ → Floating
  | .finite x, y => .finite (x + y)
  | other, _ => other

/-- `int(x)` rounds towards zero. -/
def toInt : Floating → Except Error Int
  | .finite q => .ok (if q < 0 then ⌈q⌉ else ⌊q⌋)
  | .infinite _ => .error .overflowError
  | .nan => .error .valueError

end Floating

inductive Text where
  | plain (string : String)
  | float (x : Floating)
  deriving DecidableEq

namespace Text

def string : Text → String
  | .plain string => string
  | .float x => x.text

/-- `int(text)`. -/
def toInt (text : Text) : Except Error Int :=
  match pyInt text.string with
  | some n => .ok n
  | none => .error .valueError

/-- `float(text)`. -/
def toFloat : Text → Except Error Floating
  | .float x => .ok x
  | .plain string =>
    match pyInt string with
    | some n => .ok (.finite n)
    | none => .error .valueError

instance : Coe String Text := ⟨.plain⟩

@[simp] theorem string_plain (string : String) : (Text.plain string).string = string := rfl

@[simp] theorem toInt_repr (n : Int) : (Text.plain n.repr).toInt = .ok n := by
  simp [toInt]

@[simp] theorem toFloat_float (x : Floating) : (Text.float x).toFloat = .ok x := rfl

end Text

/-! ## Dictionaries -/

/-- A dictionary, in insertion order. -/
abbrev Dict (α : Type) := List (String × α)

namespace Dict

variable {α β : Type}

def get? (dict : Dict α) (key : String) : Option α :=
  (dict.find? fun entry => entry.1 = key).map Prod.snd

/-- `dict.get(key, default)`. -/
def getD (dict : Dict α) (key : String) (default : α) : α := (dict.get? key).getD default

/-- `dict[key]`. -/
def item (dict : Dict α) (key : String) : Except Error α :=
  match dict.get? key with
  | some value => .ok value
  | none => .error (.keyError key)

/-- `dict[key] = value`: a key that is there keeps its place. -/
def set : Dict α → String → α → Dict α
  | [], key, value => [(key, value)]
  | (key', value') :: rest, key, value =>
    if key' = key then (key', value) :: rest else (key', value') :: set rest key value

/-- `dict.pop(key, None)`. -/
def pop (dict : Dict α) (key : String) : Dict α := dict.filter fun entry => entry.1 ≠ key

def mapValues (f : α → β) (dict : Dict α) : Dict β := dict.map fun entry => (entry.1, f entry.2)

/-- `{**dict, **other}` -/
def update (dict other : Dict α) : Dict α :=
  dict.map (fun entry => (entry.1, other.getD entry.1 entry.2)) ++
    other.filter fun entry => (dict.get? entry.1).isNone

@[simp] theorem get?_nil (key : String) : get? ([] : Dict α) key = none := rfl

theorem get?_cons (key key' : String) (value : α) (rest : Dict α) :
    get? ((key', value) :: rest) key = if key' = key then some value else get? rest key := by
  by_cases same : key' = key <;> simp [get?, same]

@[simp] theorem get?_set_self (dict : Dict α) (key : String) (value : α) :
    (dict.set key value).get? key = some value := by
  induction dict with
  | nil => simp [set, get?_cons]
  | cons entry rest ih =>
    obtain ⟨key', value'⟩ := entry
    by_cases same : key' = key
    · simp [set, same, get?_cons]
    · simpa [set, same, get?_cons] using ih

@[simp] theorem get?_set_other (dict : Dict α) {key key' : String} (value : α) (other : key' ≠ key) :
    (dict.set key value).get? key' = dict.get? key' := by
  induction dict with
  | nil => simp [set, get?_cons, other.symm]
  | cons entry rest ih =>
    obtain ⟨first, value'⟩ := entry
    by_cases same : first = key
    · simp [set, same, get?_cons, other.symm]
    · simp only [set, same, if_false, get?_cons, ih]

@[simp] theorem get?_pop_self (dict : Dict α) (key : String) : (dict.pop key).get? key = none := by
  simp [pop, get?, List.find?_filter]

@[simp] theorem get?_pop_other (dict : Dict α) {key key' : String} (other : key' ≠ key) :
    (dict.pop key).get? key' = dict.get? key' := by
  induction dict with
  | nil => rfl
  | cons entry rest ih =>
    obtain ⟨first, value⟩ := entry
    by_cases same : first = key
    · have gone : pop ((first, value) :: rest) key = pop rest key := by simp [pop, same]
      rw [gone, ih, get?_cons, if_neg (by rw [same]; exact other.symm)]
    · have kept : pop ((first, value) :: rest) key = (first, value) :: pop rest key := by simp [pop, same]
      rw [kept, get?_cons, get?_cons, ih]

@[simp] theorem get?_mapValues (f : α → β) (dict : Dict α) (key : String) :
    (dict.mapValues f).get? key = (dict.get? key).map f := by
  induction dict with
  | nil => rfl
  | cons entry rest ih =>
    have unfolded : mapValues f (entry :: rest) = (entry.1, f entry.2) :: mapValues f rest := rfl
    rw [unfolded, get?_cons, ih, get?_cons]
    split <;> rfl

theorem get?_append (dict other : Dict α) (key : String) :
    get? (dict ++ other) key = (dict.get? key).or (other.get? key) := by
  induction dict with
  | nil => rfl
  | cons entry rest ih =>
    obtain ⟨key', value⟩ := entry
    rw [List.cons_append, get?_cons, get?_cons, ih]
    split <;> rfl

theorem get?_filter (keep : String → Bool) (dict : Dict α) (key : String) :
    get? (dict.filter fun entry => keep entry.1) key = if keep key then dict.get? key else none := by
  induction dict with
  | nil => simp
  | cons entry rest ih =>
    obtain ⟨key', value⟩ := entry
    by_cases kept : keep key' = true
    · have stays : ((key', value) :: rest).filter (fun entry => keep entry.1) =
          (key', value) :: rest.filter fun entry => keep entry.1 := List.filter_cons_of_pos kept
      rw [stays, get?_cons, get?_cons, ih]
      by_cases same : key' = key
      · rw [if_pos same, if_pos same, ← same, if_pos kept]
      · rw [if_neg same, if_neg same]
    · have goes : ((key', value) :: rest).filter (fun entry => keep entry.1) =
          rest.filter fun entry => keep entry.1 := List.filter_cons_of_neg kept
      rw [goes, ih, get?_cons]
      by_cases same : key' = key
      · rw [if_pos same, ← same, if_neg kept, if_neg kept]
      · rw [if_neg same]

/-- The second dictionary wins. -/
theorem get?_update (dict other : Dict α) (key : String) :
    (dict.update other).get? key = (other.get? key).or (dict.get? key) := by
  have mapped : ∀ entries : Dict α, get? (entries.map fun entry => (entry.1, other.getD entry.1 entry.2)) key =
      (entries.get? key).map (other.getD key) := by
    intro entries
    induction entries with
    | nil => rfl
    | cons entry rest ih =>
      obtain ⟨key', value⟩ := entry
      rw [List.map_cons, get?_cons, get?_cons, ih]
      split
      next same => rw [same]; rfl
      next => rfl
  rw [update, get?_append, mapped, get?_filter fun key => (dict.get? key).isNone]
  cases mine : dict.get? key with
  | none => simp
  | some value => cases theirs : other.get? key <;> simp [getD, theirs]

theorem mem_set {dict : Dict α} {key : String} {value : α} {entry : String × α} (member : entry ∈ dict.set key value) :
    entry = (key, value) ∨ entry ∈ dict := by
  induction dict with
  | nil => exact .inl (List.mem_singleton.mp member)
  | cons first rest ih =>
    obtain ⟨key', value'⟩ := first
    rw [set] at member
    split at member
    next same =>
      obtain rfl | later := List.mem_cons.mp member
      · exact .inl (by rw [same])
      · exact .inr (.tail _ later)
    next =>
      obtain rfl | later := List.mem_cons.mp member
      · exact .inr (.head _)
      · exact (ih later).imp id (.tail _)

theorem mem_of_get? {dict : Dict α} {key : String} {value : α} (found : dict.get? key = some value) :
    (key, value) ∈ dict := by
  induction dict with
  | nil => cases found
  | cons entry rest ih =>
    obtain ⟨key', value'⟩ := entry
    rw [get?_cons] at found
    split at found
    next same =>
      cases found
      subst same
      exact List.mem_cons_self
    next => exact List.mem_cons_of_mem _ (ih found)

theorem get?_of_mem {dict : Dict α} {key : String} {value : α} (distinct : (dict.map Prod.fst).Nodup)
    (member : (key, value) ∈ dict) : dict.get? key = some value := by
  induction dict with
  | nil => cases member
  | cons entry rest ih =>
    obtain ⟨key', value'⟩ := entry
    rw [List.map_cons, List.nodup_cons] at distinct
    rw [get?_cons]
    obtain same | inside := List.mem_cons.mp member
    · cases same
      rw [if_pos rfl]
    · have other : key' ≠ key := fun same => distinct.1 (List.mem_map.mpr ⟨_, inside, same.symm⟩)
      rw [if_neg other, ih distinct.2 inside]

theorem nodup_keys_pop {dict : Dict α} (nodup : (dict.map Prod.fst).Nodup) (key : String) :
    ((dict.pop key).map Prod.fst).Nodup := nodup.sublist (List.filter_sublist.map Prod.fst)

theorem mem_keys {dict : Dict α} {key : String} : key ∈ dict.map Prod.fst ↔ (dict.get? key).isSome := by
  induction dict with
  | nil => simp
  | cons entry rest ih =>
    obtain ⟨key', value⟩ := entry
    rw [List.map_cons, List.mem_cons, ih, get?_cons]
    split
    next same => simp [same]
    next other => simp [Ne.symm other]

theorem mapValues_set (f : α → β) (dict : Dict α) (key : String) (value : α) :
    (dict.set key value).mapValues f = (dict.mapValues f).set key (f value) := by
  induction dict with
  | nil => rfl
  | cons entry rest ih =>
    obtain ⟨key', value'⟩ := entry
    by_cases same : key' = key
    · simp [set, mapValues, same]
    · simpa [set, mapValues, same] using ih

theorem mapValues_pop (f : α → β) (dict : Dict α) (key : String) :
    (dict.pop key).mapValues f = (dict.mapValues f).pop key := by
  simp only [pop, mapValues, List.filter_map]
  rfl

theorem isEmpty_mapValues (f : α → β) (dict : Dict α) : (dict.mapValues f).isEmpty = dict.isEmpty :=
  List.isEmpty_map

theorem pop_of_absent {dict : Dict α} {key : String} (absent : dict.get? key = none) : dict.pop key = dict := by
  refine List.filter_eq_self.mpr fun entry inside => ?_
  have other : entry.1 ≠ key := by
    rintro rfl
    have there := mem_keys.mp (List.mem_map_of_mem inside)
    rw [absent] at there
    cases there
  simpa using other

theorem set_ne_nil (dict : Dict α) (key : String) (value : α) : dict.set key value ≠ [] := by
  intro empty
  have found := get?_set_self dict key value
  rw [empty] at found
  cases found

theorem keys_set (dict : Dict α) (key : String) (value : α) :
    (dict.set key value).map Prod.fst =
      if key ∈ dict.map Prod.fst then dict.map Prod.fst else dict.map Prod.fst ++ [key] := by
  induction dict with
  | nil => simp [set]
  | cons entry rest ih =>
    obtain ⟨key', value'⟩ := entry
    by_cases same : key' = key
    · simp [set, same]
    · rw [set, if_neg same, List.map_cons, ih, List.map_cons]
      by_cases later : key ∈ rest.map Prod.fst
      · rw [if_pos later, if_pos (.tail _ later)]
      · rw [if_neg later, if_neg (by simpa [Ne.symm same] using later), List.cons_append]

/-- A new key comes last. -/
theorem set_of_absent {dict : Dict α} {key : String} (value : α) (absent : key ∉ dict.map Prod.fst) :
    dict.set key value = dict ++ [(key, value)] := by
  induction dict with
  | nil => rfl
  | cons entry rest ih =>
    obtain ⟨key', value'⟩ := entry
    obtain ⟨other, later⟩ := not_or.mp (fun either => absent (List.mem_cons.mpr either))
    rw [set, if_neg (Ne.symm other), ih later, List.cons_append]

theorem keys_pop (dict : Dict α) (key : String) :
    (dict.pop key).map Prod.fst = (dict.map Prod.fst).filter (· ≠ key) := by
  simp only [pop, List.filter_map]
  rfl

theorem keys_mapValues (f : α → β) (dict : Dict α) : (dict.mapValues f).map Prod.fst = dict.map Prod.fst := by
  simp [mapValues]

theorem nodup_keys_set {dict : Dict α} (nodup : (dict.map Prod.fst).Nodup) (key : String) (value : α) :
    ((dict.set key value).map Prod.fst).Nodup := by
  rw [keys_set]
  split
  next => exact nodup
  next absent =>
    rw [List.nodup_append]
    refine ⟨nodup, by simp, ?_⟩
    rintro other member _ last rfl
    exact absent (List.mem_singleton.mp last ▸ member)

end Dict

/-! ## Values -/

inductive Value where
  | none
  | bool (value : Bool)
  | int (value : Int)
  | float (x : Floating)
  | str (text : Text)
  | list (items : List Value)
  | dict (entries : List (String × Value))

/-- `repr(string)`; characters outside ASCII are left as they are. -/
def quoted (string : String) : String :=
  let chars := string.toList
  let quote := if '\'' ∈ chars ∧ '"' ∉ chars then '"' else '\''
  let escape (c : Char) : List Char :=
    if c = '\\' then ['\\', '\\']
    else if c = quote then ['\\', quote]
    else if c = '\n' then ['\\', 'n']
    else if c = '\r' then ['\\', 'r']
    else if c = '\t' then ['\\', 't']
    else if c.toNat < 32 ∨ c.toNat = 127 then
      ['\\', 'x', Nat.digitChar (c.toNat / 16), Nat.digitChar (c.toNat % 16)]
    else [c]
  String.ofList (quote :: chars.flatMap escape ++ [quote])

namespace Value

mutual

/-- `repr(value)`. -/
def repr : Value → String
  | .none => "None"
  | .bool value => if value then "True" else "False"
  | .int value => toString value
  | .float x => x.text
  | .str text => quoted text.string
  | .list items => "[" ++ reprItems items ++ "]"
  | .dict entries => "\x7b" ++ reprEntries entries ++ "\x7d"

def reprItems : List Value → String
  | [] => ""
  | [value] => repr value
  | value :: rest => repr value ++ ", " ++ reprItems rest

def reprEntries : List (String × Value) → String
  | [] => ""
  | [(key, value)] => quoted key ++ ": " ++ repr value
  | (key, value) :: rest => quoted key ++ ": " ++ repr value ++ ", " ++ reprEntries rest

end

/-- `str(value)`. -/
def text : Value → Text
  | .str text => text
  | .float x => .float x
  | value => .plain (repr value)

/-- `bool(value)`. -/
def truthy : Value → Bool
  | .none => false
  | .bool value => value
  | .int value => value ≠ 0
  | .float x => x ≠ .finite 0
  | .str text => text.string ≠ ""
  | .list items => !items.isEmpty
  | .dict entries => !entries.isEmpty

/-- `int(value)`. -/
def toInt : Value → Except Error Int
  | .bool value => .ok (if value then 1 else 0)
  | .int value => .ok value
  | .float x => x.toInt
  | .str text => text.toInt
  | .none | .list _ | .dict _ => .error .typeError

/-- `float(value)`. -/
def toFloat : Value → Except Error Floating
  | .bool value => .ok (.finite (if value then 1 else 0))
  | .int value => .ok (.finite value)
  | .float x => .ok x
  | .str text => text.toFloat
  | .none | .list _ | .dict _ => .error .typeError

/-- `list(value)`. -/
def toList : Value → Except Error (List Value)
  | .str text => .ok (text.string.toList.map fun c => .str (.plain (String.ofList [c])))
  | .list items => .ok items
  | .dict entries => .ok (entries.map fun entry => .str (.plain entry.1))
  | .none | .bool _ | .int _ | .float _ => .error .typeError

/-- `value == string`. -/
def equals (value : Value) (string : String) : Bool :=
  match value with
  | .str text => text.string = string
  | _ => false

/-- `value.split(",")`. -/
def splitCommas : Value → Except Error (List String)
  | .str text => .ok (split ',' text.string)
  | _ => .error .attributeError

/-- `",".join(values)`. -/
def joinCommas (values : List Value) : Except Error String :=
  (join ',' ·) <$> values.mapM fun value => match value with
    | .str text => .ok text.string
    | _ => .error .typeError

@[simp] theorem toInt_int (n : Int) : (Value.int n).toInt = .ok n := rfl

@[simp] theorem text_int (n : Int) : (Value.int n).text = .plain n.repr := by
  simp [text, Value.repr]

@[simp] theorem text_str (text : Text) : (Value.str text).text = text := rfl

end Value

end EdgeVms.Python
