import EdgeVms.Verified.Vms.CameraEdits

/-! # What is read back

The row that `create_camera` and `update_camera` return against the row that
`camera` reads afterwards, and against the values that the operator gave.  The two
rows are one list of fields, filled once from the written values and once from their
texts, so that the comparison goes field by field.
-/

namespace EdgeVms.Verified.OperatorFields

open Process Python Platform Vms VmsController

/-! ## Equal values -/

/-- The number that a value is; `nan` equals none. -/
def number? : Value → Option Floating
  | .bool value => some (.finite (if value then 1 else 0))
  | .int n => some (.finite n)
  | .float .nan => none
  | .float x => some x
  | _ => none

/-- `value == value'`. -/
inductive Same : Value → Value → Prop
  | none : Same .none .none
  | number {value value' : Value} {x : Floating} (first : number? value = some x) (second : number? value' = some x) :
      Same value value'
  | str {text text' : Text} (same : text.string = text'.string) : Same (.str text) (.str text')
  | list {items items' : List Value} (same : List.Forall₂ Same items items') : Same (.list items) (.list items')
  | dict {entries entries' : List (String × Value)}
      (same : ∀ key, Option.Rel Same (Dict.get? entries key) (Dict.get? entries' key)) :
      Same (.dict entries) (.dict entries')

/-- `row == row'`. -/
def SameRow (r r' : Dict Value) : Prop := ∀ key, Option.Rel Same (r.get? key) (r'.get? key)

namespace Same

theorem number_iff {value value' : Value} {x : Floating} (number : number? value = some x) :
    Same value value' ↔ number? value' = some x := by
  constructor
  · intro same
    cases same with
    | number first second =>
      rw [number] at first
      cases first
      exact second
    | none | str | list | dict => cases number
  · exact Same.number number

theorem int_iff {n : Int} {value : Value} : Same (.int n) value ↔ number? value = some (.finite n) := number_iff rfl

theorem str_iff {text : Text} {value : Value} :
    Same (.str text) value ↔ ∃ text', value = .str text' ∧ text.string = text'.string := by
  constructor
  · intro same
    cases same with
    | str same => exact ⟨_, rfl, same⟩
    | number first _ => cases first
  · rintro ⟨text', rfl, same⟩
    exact .str same

theorem list_iff {items : List Value} {value : Value} :
    Same (.list items) value ↔ ∃ items', value = .list items' ∧ List.Forall₂ Same items items' := by
  constructor
  · intro same
    cases same with
    | list same => exact ⟨_, rfl, same⟩
    | number first _ => cases first
  · rintro ⟨items', rfl, same⟩
    exact .list same

/-- A list of strings equals a list of the same strings, and nothing else. -/
theorem strings_iff {strings : List String} {items : List Value} :
    List.Forall₂ Same (strings.map fun string => .str (.plain string)) items ↔
      ∃ texts : List Text, items = texts.map .str ∧ texts.map Text.string = strings := by
  induction strings generalizing items with
  | nil =>
    constructor
    · intro same
      cases same
      exact ⟨[], rfl, rfl⟩
    · rintro ⟨texts, rfl, none⟩
      rw [List.map_eq_nil_iff.mp none]
      exact .nil
  | cons string rest ih =>
    constructor
    · intro same
      cases same with
      | cons first later =>
        obtain ⟨text, rfl, here⟩ := str_iff.mp first
        obtain ⟨texts, rfl, there⟩ := ih.mp later
        exact ⟨text :: texts, rfl, by rw [List.map_cons, there, ← here]; rfl⟩
    · rintro ⟨texts, rfl, all⟩
      cases texts with
      | nil => cases all
      | cons text texts =>
        obtain ⟨here, there⟩ := List.cons.inj all
        exact .cons (.str here.symm) (ih.mpr ⟨texts, rfl, there⟩)

end Same

/-! ## Rows -/

def strings (labels : List String) : List Value := labels.map fun label => .str (.plain label)

/-- A row, as `row` and `create_camera` make one. -/
def rowOf (id : Int) (name source : Value) (enabled : Bool) (retention events priority revision : Int)
    (labels : List Value) : Dict Value :=
  [("id", .int id), ("name", name), ("source", source), ("enabled", .bool enabled), ("retention_days", .int retention),
    ("events_retention_days", .int events), ("priority", .int priority), ("revision", .int revision),
    ("labels", .list labels)]

/-- Items, as `items` makes them and as they are read. -/
def itemsOf (id name source : Value) (enabled : Bool) (retention events priority revision : Value) (labels : String) :
    Dict Value :=
  [("id", id), ("name", name), ("source", source), ("enabled", .str (.plain (if enabled then "true" else "false"))),
    ("retention_days", retention), ("events_retention_days", events), ("priority", priority), ("revision", revision),
    ("labels", .str (.plain labels))]

section Rows

variable {id name source name' source' retention events priority revision : Value} {enabled : Bool} {labels : String}
  {r : Dict Value}

/-- `row` of items. -/
theorem row_itemsOf : row (itemsOf id name source enabled retention events priority revision labels) = .ok r ↔
    ∃ i a b c n, id.toInt = .ok i ∧ retention.toInt = .ok a ∧ events.toInt = .ok b ∧ priority.toInt = .ok c ∧
      revision.toInt = .ok n ∧ r = rowOf i name source enabled a b c n (strings (fields ',' labels)) := by
  simp only [row, bind_eq_ok]
  constructor
  · rintro ⟨_, found, i, hi, a, ha, b, hb, c, hc, n, hn, parts, split, ends⟩
    cases found
    cases split
    cases ends
    exact ⟨i, a, b, c, n, hi, ha, hb, hc, hn, by cases enabled <;> rfl⟩
  · rintro ⟨i, a, b, c, n, hi, ha, hb, hc, hn, rfl⟩
    exact ⟨id, rfl, i, hi, a, ha, b, hb, c, hc, n, hn, _, rfl, by cases enabled <;> rfl⟩

/-- Reading the items that were stored gives the text of each. -/
theorem rowValues_stored_itemsOf :
    rowValues (some (stored (itemsOf id name source enabled retention events priority revision labels))) =
      itemsOf (.str id.text) (.str name.text) (.str source.text) enabled (.str retention.text) (.str events.text)
        (.str priority.text) (.str revision.text) labels := rfl

theorem sameRow_nil : SameRow ([] : Dict Value) [] := fun _ => .none

theorem sameRow_cons {field : String} {value value' : Value} {rest rest' : Dict Value} (first : Same value value')
    (others : SameRow rest rest') : SameRow ((field, value) :: rest) ((field, value') :: rest') := by
  intro key
  rw [Dict.get?_cons, Dict.get?_cons]
  split
  · exact .some first
  · exact others key

theorem sameRow_rowOf {i a b c n : Int} {labels labels' : List Value} :
    SameRow (rowOf i name source enabled a b c n labels) (rowOf i name' source' enabled a b c n labels') ↔
      Same name name' ∧ Same source source' ∧ Same (.list labels) (.list labels') := by
  constructor
  · intro same
    have names : Option.Rel Same (some name) (some name') := same "name"
    have sources : Option.Rel Same (some source) (some source') := same "source"
    have listed : Option.Rel Same (some (.list labels)) (some (.list labels')) := same "labels"
    exact ⟨Option.rel_some_some.mp names, Option.rel_some_some.mp sources, Option.rel_some_some.mp listed⟩
  · rintro ⟨names, sources, listed⟩
    have number (m : Int) : Same (.int m) (.int m) := Same.number rfl rfl
    have flag : Same (.bool enabled) (.bool enabled) := Same.number rfl rfl
    apply sameRow_cons (number i)
    apply sameRow_cons names
    apply sameRow_cons sources
    apply sameRow_cons flag
    apply sameRow_cons (number a)
    apply sameRow_cons (number b)
    apply sameRow_cons (number c)
    apply sameRow_cons (number n)
    exact sameRow_cons listed sameRow_nil

end Rows

/-! ## `camera` -/

section Camera

variable {ι M : Type} [DecidableEq ι] {view : View} {i : ι} {world : World ι M}

/-- What `camera` answers, alone. -/
def read (view : View) (i : ι) (cid : Int) (world : World ι M) : Except Exn (Option (Dict Value)) :=
  ((camera cid : Program M _).run (handler FileVariables view i) world).1

theorem read_eq (cid : Int) {items : Dict Value}
    (found : rowValues (world.vars.read (cameraKey (toString cid))) = items)
    (present : Present items) : read view i cid world = (some <$> row items).mapError .python := by
  have looked : (Program.get (cameraKey (toString cid)) : Program M _).run (handler FileVariables view i) world = _ :=
    Ends.get (cameraKey_clear cid)
  have there : (items.isEmpty || isDeleted items) = false := Bool.or_eq_false_iff.mpr present
  unfold read camera
  rw [Proc.bind_eq, Proc.run_bind, looked]
  dsimp only
  rw [found, there]
  cases row items <;> rfl

/-- The camera is read as it was returned, and each of the operator's values is in it. -/
structure ReadBack (fields r : Dict Value) (answer : Except Exn (Option (Dict Value))) : Prop where
  row : ∃ back, answer = .ok (some back) ∧ SameRow back r
  given : ∀ field value, fields.get? field = some value → Option.Rel Same (r.get? field) (some value)

variable {fields : Dict Value} {id n a b c cid : Int} {name source retention events priority : Value} {enabled : Bool}
  {joined : String} {labels : List Value}

/-- A row that is a number again is the same number. -/
theorem toInt_of_parses {value : Value} {n : Int} (same : value.toInt = .ok n) (parses : TextParses value) :
    value.text.toInt = .ok n := by
  obtain ⟨m, read⟩ := parses
  have twice := toInt_of_text read
  rw [same] at twice
  cases twice
  exact read

theorem present_itemsOf {id revision : Value} :
    Present (itemsOf id name source enabled retention events priority revision joined) := ⟨rfl, rfl⟩

/-- The first half, for a row whose items are in the store: the strings, the numbers and the labels that the items
hold come back. -/
theorem back_iff (ha : retention.toInt = .ok a) (hb : events.toInt = .ok b) (hc : priority.toInt = .ok c)
    (found : world.vars.read (cameraKey (toString cid)) =
      some (stored (itemsOf (.int id) name source enabled retention events priority (.int n) joined))) :
    (∃ back, read view i cid world = .ok (some back) ∧ SameRow back (rowOf id name source enabled a b c n labels)) ↔
      ((∃ text, name = .str text) ∧ ∃ text, source = .str text) ∧
        (TextParses retention ∧ TextParses events ∧ TextParses priority) ∧
        ∃ texts : List Text, labels = texts.map .str ∧ texts.map Text.string = Python.fields ',' joined := by
  have answered (back : Dict Value) : read view i cid world = .ok (some back) ↔
      row (itemsOf (.str (Value.int id).text) (.str name.text) (.str source.text) enabled (.str retention.text)
        (.str events.text) (.str priority.text) (.str (Value.int n).text) joined) = .ok back := by
    rw [read_eq cid (by rw [found, rowValues_stored_itemsOf]) present_itemsOf]
    generalize row _ = answer
    cases answer <;> simp [Functor.map, Except.map, Except.mapError]
  have text_same (value : Value) : Same (.str value.text) value ↔ ∃ text, value = .str text := by
    rw [Same.str_iff]
    constructor
    · rintro ⟨text, is_, -⟩
      exact ⟨text, is_⟩
    · rintro ⟨text, rfl⟩
      exact ⟨text, rfl, rfl⟩
  have labels_same : Same (.list (strings (Python.fields ',' joined))) (.list labels) ↔
      ∃ texts : List Text, labels = texts.map .str ∧ texts.map Text.string = Python.fields ',' joined := by
    rw [Same.list_iff, ← Same.strings_iff]
    constructor
    · rintro ⟨_, same, all⟩
      cases same
      exact all
    · intro all
      exact ⟨labels, rfl, all⟩
  rw [← text_same, ← text_same, ← labels_same]
  constructor
  · rintro ⟨back, answer, same⟩
    obtain ⟨i', a', b', c', n', hi', ha', hb', hc', hn', rfl⟩ := row_itemsOf.mp ((answered back).mp answer)
    have parses : TextParses retention ∧ TextParses events ∧ TextParses priority := ⟨⟨a', ha'⟩, ⟨b', hb'⟩, ⟨c', hc'⟩⟩
    simp only [Value.toInt, toInt_of_parses ha parses.1, toInt_of_parses hb parses.2.1, toInt_of_parses hc parses.2.2,
      Value.text_int, Text.toInt_repr, Except.ok.injEq] at hi' ha' hb' hc' hn'
    subst hi' ha' hb' hc' hn'
    obtain ⟨names, sources, labels⟩ := sameRow_rowOf.mp same
    exact ⟨⟨names, sources⟩, parses, labels⟩
  · rintro ⟨⟨names, sources⟩, ⟨first, second, third⟩, labels⟩
    refine ⟨_, (answered _).mpr (row_itemsOf.mpr ⟨id, a, b, c, n, by simp [Value.toInt], toInt_of_parses ha first,
      toInt_of_parses hb second, toInt_of_parses hc third, by simp [Value.toInt], rfl⟩), ?_⟩
    exact sameRow_rowOf.mpr ⟨names, sources, labels⟩

/-- The second half, for the fields that an operator may give. -/
theorem given_iff (accepted : refuse fields = .ok ()) :
    (∀ field value, fields.get? field = some value →
      Option.Rel Same ((rowOf id name source enabled a b c n labels).get? field) (some value)) ↔
      (∀ value, fields.get? "name" = some value → Same name value) ∧
        (∀ value, fields.get? "source" = some value → Same source value) ∧
        (∀ value, fields.get? "enabled" = some value → Same (.bool enabled) value) ∧
        (∀ value, fields.get? "retention_days" = some value → Same (.int a) value) ∧
        (∀ value, fields.get? "events_retention_days" = some value → Same (.int b) value) ∧
        (∀ value, fields.get? "priority" = some value → Same (.int c) value) ∧
        ∀ value, fields.get? "labels" = some value → Same (.list labels) value := by
  have related {field : String} {found : Value}
      (there : (rowOf id name source enabled a b c n labels).get? field = some found) :
      (∀ value, fields.get? field = some value →
        Option.Rel Same ((rowOf id name source enabled a b c n labels).get? field) (some value)) ↔
          ∀ value, fields.get? field = some value → Same found value := by
    rw [there]
    simp only [Option.rel_some_some]
  constructor
  · intro given
    exact ⟨(related rfl).mp (given _), (related rfl).mp (given _), (related rfl).mp (given _),
      (related rfl).mp (given _),
      (related rfl).mp (given _), (related rfl).mp (given _), (related rfl).mp (given _)⟩
  · rintro ⟨names, sources, flags, first, second, third, labels⟩ field
    by_cases operators : field ∈ operatorFields
    · simp only [operatorFields, List.mem_cons, List.not_mem_nil, or_false] at operators
      obtain rfl | rfl | rfl | rfl | rfl | rfl | rfl := operators
      · exact (related rfl).mpr names
      · exact (related rfl).mpr sources
      · exact (related rfl).mpr flags
      · exact (related rfl).mpr first
      · exact (related rfl).mpr second
      · exact (related rfl).mpr third
      · exact (related rfl).mpr labels
    · intro value found
      rw [get?_of_refuse accepted operators] at found
      cases found

end Camera

/-! ## Values that survive -/

/-- `True`, `False`, or a number that equals one of them. -/
def Flag (value : Value) : Prop := ∃ flag : Bool, number? value = number? (.bool flag)

/-- A list of names without commas. -/
def Names (value : Value) : Prop :=
  ∃ texts : List Text, value = .list (texts.map .str) ∧ ∀ text ∈ texts, Atomic ',' text.string

theorem flag_iff {value : Value} : Same (.bool value.truthy) value ↔ Flag value := by
  rw [Same.number_iff (x := .finite (if value.truthy then 1 else 0)) rfl]
  constructor
  · intro same
    exact ⟨value.truthy, same⟩
  · rintro ⟨flag, same⟩
    rw [same]
    have truthy : value.truthy = flag := by
      cases value with
      | bool value => cases value <;> cases flag <;> simp [number?, Value.truthy] at same ⊢
      | int n => cases flag <;> simp_all [number?, Value.truthy]
      | float x =>
        cases x with
        | finite q => cases flag <;> simp_all [number?, Value.truthy]
        | infinite negative => simp [number?] at same
        | nan => simp [number?] at same
      | none | str | list | dict => simp [number?] at same
    rw [truthy]
    rfl

/-- `int(value) == value`. -/
theorem whole_iff {value : Value} {n : Int} (read : value.toInt = .ok n) :
    Same (.int n) value ↔ ∃ m : Int, number? value = some (.finite m) := by
  rw [Same.int_iff]
  constructor
  · intro same
    exact ⟨n, same⟩
  · rintro ⟨m, same⟩
    have whole : n = m := by
      cases value with
      | bool value =>
        have read' : (if value then 1 else 0 : Int) = n := Except.ok.inj read
        have same' : (if value then 1 else 0 : ℚ) = m :=
          by simpa only [number?, Option.some.injEq, Floating.finite.injEq] using same
        rw [← read']
        cases value <;> exact_mod_cast same'
      | int n => simp_all [number?]
      | float x =>
        cases x with
        | finite q =>
          simp only [number?, Option.some.injEq, Floating.finite.injEq] at same
          subst same
          simpa [Value.toInt, Floating.toInt, eq_comm] using read
        | infinite negative => simp [number?] at same
        | nan => simp [number?] at same
      | none | str | list | dict => simp [number?] at same
    rw [same, whole]

/-- An integer is the only number whose text `int` accepts. -/
theorem int_iff {value : Value} {n : Int} (read : value.toInt = .ok n) :
    (TextParses value ∧ Same (.int n) value) ↔ ∃ m, value = .int m := by
  constructor
  · rintro ⟨parses, same⟩
    obtain rfl | ⟨text, rfl, -⟩ := text_parses_cases (toInt_of_parses read parses)
    · exact ⟨n, rfl⟩
    · cases same with
      | number _ second => cases second
  · rintro ⟨m, rfl⟩
    cases read
    exact ⟨⟨n, by simp⟩, .number rfl rfl⟩

theorem joinCommas_texts (texts : List Text) :
    Value.joinCommas (texts.map .str) = .ok (join ',' (texts.map Text.string)) := by
  rw [Value.joinCommas, List.mapM_map]
  exact congrArg _ List.mapM_pure

theorem texts_same (texts : List Text) : List.Forall₂ Same (texts.map .str) (texts.map .str) := by
  rw [List.forall₂_same]
  intro value inside
  obtain ⟨text, -, rfl⟩ := List.mem_map.mp inside
  exact .str rfl

/-- What `create_camera` makes of the labels. -/
theorem names_created_iff {value : Value} {labels : List Value} {joined : String} (listed : value.toList = .ok labels)
    (joins : Value.joinCommas labels = .ok joined) :
    ((∃ texts : List Text, labels = texts.map .str ∧ texts.map Text.string = Python.fields ',' joined) ∧
      Same (.list labels) value) ↔ Names value := by
  constructor
  · rintro ⟨⟨texts, rfl, parts⟩, same⟩
    obtain ⟨items, rfl, -⟩ := Same.list_iff.mp same
    cases listed
    refine ⟨texts, rfl, fun text inside => ?_⟩
    exact atomic_fields (parts ▸ List.mem_map_of_mem inside)
  · rintro ⟨texts, rfl, atomic⟩
    cases listed
    rw [joinCommas_texts] at joins
    cases joins
    exact ⟨⟨texts, rfl, (fields_join (by simpa using atomic)).symm⟩, .list (texts_same texts)⟩

/-- What `update_camera` makes of them. -/
theorem names_updated_iff {value : Value} {joined : String} (joins : Value.joinCommas (labelParts value) = .ok joined) :
    Same (.list (strings (Python.fields ',' joined))) value ↔ Names value := by
  constructor
  · intro same
    obtain ⟨items, rfl, all⟩ := Same.list_iff.mp same
    obtain ⟨texts, rfl, parts⟩ := Same.strings_iff.mp all
    refine ⟨texts, rfl, fun text inside => ?_⟩
    exact atomic_fields (parts ▸ List.mem_map_of_mem inside)
  · rintro ⟨texts, rfl, atomic⟩
    rw [labelParts, joinCommas_texts] at joins
    cases joins
    rw [fields_join (by simpa using atomic)]
    exact .list (Same.strings_iff.mpr ⟨texts, rfl, rfl⟩)

/-! ## What the calls return, and what they leave -/

section Calls

variable {ι M : Type} [DecidableEq ι] {view : View} {i : ι} {world world' : World ι M} {given r : Dict Value} {cid : Int}

theorem item_ok {key : String} {value : Value} : Dict.item r key = .ok value ↔ r.get? key = some value := by
  rw [Dict.item]
  cases r.get? key <;> simp

/-- `items` of a row. -/
theorem items_ok {new : Dict Value} (made : items r = .ok new) :
    ∃ id name source enabled retention revision joined, r.get? "id" = some id ∧ r.get? "name" = some name ∧
      r.get? "source" = some source ∧ r.get? "enabled" = some enabled ∧ r.get? "retention_days" = some retention ∧
      r.get? "revision" = some revision ∧ Value.joinCommas (labelParts (r.getD "labels" (.list []))) = .ok joined ∧
      new = itemsOf id name source enabled.truthy retention (r.getD "events_retention_days" (.int 365))
        (r.getD "priority" (.int 100)) revision joined := by
  simp only [items, bind_eq_ok, item_ok] at made
  obtain ⟨id, h₁, name, h₂, source, h₃, enabled, h₄, retention, h₅, revision, h₆, joined, joins, ends⟩ := made
  cases ends
  exact ⟨id, name, source, enabled, retention, revision, joined, h₁, h₂, h₃, h₄, h₅, h₆, joins, rfl⟩

/-- A row that is read has strings for its name and its source. -/
theorem row_read {items : Option Items} (decoded : row (rowValues items) = .ok r) :
    ∃ id enabled retention events priority revision, ∃ name source : Text, ∃ labels : List String,
      r = rowOf id (.str name) (.str source) enabled retention events priority revision (strings labels) := by
  have text (key default : String) : ∃ text : Text, (rowValues items).getD key (.str (.plain default)) = .str text := by
    rw [Dict.getD, get?_rowValues]
    cases Dict.get? (items.getD []) key with
    | none => exact ⟨.plain default, rfl⟩
    | some text => exact ⟨text, rfl⟩
  obtain ⟨name, names⟩ := text "name" ""
  obtain ⟨source, sources⟩ := text "source" ""
  simp only [row, bind_eq_ok, names, sources] at decoded
  obtain ⟨_, _, id, _, retention, _, events, _, priority, _, revision, _, labels, _, ends⟩ := decoded
  cases ends
  exact ⟨id, _, retention, events, priority, revision, name, source, _, rfl⟩

theorem retention_keeps {days : Int} (ends : Ends view i (retention cid (some days)) world () world') :
    CamerasKept world.vars world'.vars := by
  obtain ⟨written, middle, ends, returned⟩ := Ends.bind_inv ends
  obtain ⟨-, rfl⟩ := Ends.ret_inv returned
  refine write_keeps (not_ofCamera_retention cid) (fun it => ?_) ends
  dsimp only
  split <;> trivial

theorem read_of_kept {rows rows' : Rows} (kept : CamerasKept rows rows') (cid : Int) :
    rows'.read (cameraKey (toString cid)) = rows.read (cameraKey (toString cid)) :=
  congrArg (Option.map Prod.fst) (kept _ (ofCamera_cameraKey _))

theorem create_ends (ends : Ends view i (createCamera given) world r world') :
    refuse given = .ok () ∧ (given.getD "source" .none).truthy = true ∧ ∃ cid a b c labels joined,
      (given.getD "retention_days" (.int 30)).toInt = .ok a ∧
      (given.getD "events_retention_days" (.int 365)).toInt = .ok b ∧
      (given.getD "priority" (.int 100)).toInt = .ok c ∧
      (given.getD "labels" (.list [])).toList = .ok labels ∧ Value.joinCommas labels = .ok joined ∧
      r = rowOf cid (given.getD "name" (.str (.plain ("cam" ++ toString cid)))) (given.getD "source" .none)
        (given.getD "enabled" (.bool true)).truthy a b c 1 labels ∧
      world'.vars.read (cameraKey (toString cid)) = some (stored (itemsOf (.int cid)
        (given.getD "name" (.str (.plain ("cam" ++ toString cid)))) (given.getD "source" .none)
        (given.getD "enabled" (.bool true)).truthy (.int a) (.int b) (.int c) (.int 1) joined)) := by
  have outcome : Outcome view i (createCamera given) world (.ok r) world' := ends
  obtain ⟨_, -, raised, -⟩ | ⟨_, accepted, outcome⟩ := Outcome.ofExcept_inv outcome
  · cases raised
  dsimp only at outcome
  split at outcome
  · cases (Outcome.raise_inv outcome).1
  next sourced =>
  obtain ⟨_, raised, -⟩ | ⟨cid, counted, -, outcome⟩ := Outcome.bind_inv outcome
  · cases raised
  obtain ⟨_, -, raised, -⟩ | ⟨made, makes, outcome⟩ := Outcome.value_inv outcome
  · cases raised
  obtain ⟨_, -, raised, -⟩ | ⟨texts, written, outcome⟩ := Outcome.value_inv outcome
  · cases raised
  obtain ⟨⟨_, raised⟩, -⟩ | ⟨index, put, stands, outcome⟩ := Outcome.put_inv outcome
  · cases raised
  obtain ⟨_, -, raised, -⟩ | ⟨days, -, outcome⟩ := Outcome.value_inv outcome
  · cases raised
  obtain ⟨_, raised, -⟩ | ⟨_, _, after, outcome⟩ := Outcome.bind_inv outcome
  · cases raised
  obtain ⟨same, rfl⟩ := Outcome.ret_inv outcome
  cases same
  simp only [newRow, bind_eq_ok] at makes
  obtain ⟨a, ha, b, hb, c, hc, labels, listed, ends'⟩ := makes
  cases ends'
  obtain ⟨_, _, _, _, _, _, joined, h₁, h₂, h₃, h₄, h₅, h₆, joins, rfl⟩ := items_ok written
  cases h₁
  cases h₂
  cases h₃
  cases h₄
  cases h₅
  cases h₆
  refine ⟨accepted, by simpa using sourced, cid, a, b, c, labels, joined, ha, hb, hc, listed, joins, rfl, ?_⟩
  rw [read_of_kept (retention_keeps after), stands, Versioned.read_write_self]
  rfl

/-- What an update writes: the given values, and for each of the others what the row holds. -/
theorem updated_ok {items : Option Items} {new : Dict Value} (accepted : refuse given = .ok ())
    (distinct : (given.map Prod.fst).Nodup) (made : updated cid given (rowValues items) = .ok new) :
    ∃ id n d₁ d₂ d₃ enabled joined, ∃ name source : Text, ∃ labels : List String,
      Value.joinCommas (labelParts (given.getD "labels" (.list (strings labels)))) = .ok joined ∧
      new = itemsOf (.int id) (given.getD "name" (.str name)) (given.getD "source" (.str source))
        (given.getD "enabled" (.bool enabled)).truthy (given.getD "retention_days" (.int d₁))
        (given.getD "events_retention_days" (.int d₂)) (given.getD "priority" (.int d₃)) (.int n) joined := by
  by_cases present : Present (rowValues items)
  case neg =>
    rw [updated_absent present] at made
    cases made
  simp only [updated, present.1, present.2, Bool.or_self, Bool.false_eq_true, if_false, bind_eq_ok, item_ok] at made
  obtain ⟨old, decoded, _, -, revision, -, made⟩ := made
  obtain ⟨id, enabled, d₁, d₂, d₃, n, name, source, labels, rfl⟩ := row_read decoded
  let old := rowOf id (.str name) (.str source) enabled d₁ d₂ d₃ n (strings labels)
  have merged {key : String} {value : Value} (other : key ≠ "revision") (found : old.get? key = some value) :
      Dict.get? ((given.foldl (fun r field => r.set field.1 field.2) old).set "revision" (.int (revision + 1))) key =
        some (given.getD key value) :=
    (Dict.get?_set_other _ _ other).trans (get?_merge_some distinct key found)
  obtain ⟨_, _, _, _, _, _, joined, h₁, h₂, h₃, h₄, h₅, h₆, joins, rfl⟩ := items_ok made
  rw [merged (by decide) rfl] at h₁ h₂ h₃ h₄ h₅
  rw [Dict.get?_set_self] at h₆
  cases h₁
  cases h₂
  cases h₃
  cases h₄
  cases h₅
  cases h₆
  have filled {key : String} {value default : Value} (other : key ≠ "revision") (found : old.get? key = some value) :
      Dict.getD ((given.foldl (fun r field => r.set field.1 field.2) old).set "revision" (.int (revision + 1))) key default =
        given.getD key value := by
    rw [Dict.getD, merged other found]
    rfl
  rw [filled (by decide) rfl] at joins
  refine ⟨id, revision + 1, d₁, d₂, d₃, enabled, joined, name, source, labels, joins, ?_⟩
  rw [filled (by decide) rfl, filled (by decide) rfl]
  have kept : given.getD "id" (.int id) = .int id := by
    rw [Dict.getD, get?_of_refuse accepted (by decide)]
    rfl
  rw [kept]

theorem update_ends
    (distinct : (given.map Prod.fst).Nodup) (ends : Ends view i (updateCamera cid given) world r world') :
    refuse given = .ok () ∧ ∃ id n a b c d₁ d₂ d₃ enabled joined, ∃ name source : Text, ∃ labels : List String,
      (given.getD "retention_days" (.int d₁)).toInt = .ok a ∧
      (given.getD "events_retention_days" (.int d₂)).toInt = .ok b ∧
      (given.getD "priority" (.int d₃)).toInt = .ok c ∧
      Value.joinCommas (labelParts (given.getD "labels" (.list (strings labels)))) = .ok joined ∧
      r = rowOf id (given.getD "name" (.str name)) (given.getD "source" (.str source))
        (given.getD "enabled" (.bool enabled)).truthy a b c n (strings (Python.fields ',' joined)) ∧
      world'.vars.read (cameraKey (toString cid)) = some (stored (itemsOf (.int id) (given.getD "name" (.str name))
        (given.getD "source" (.str source)) (given.getD "enabled" (.bool enabled)).truthy
        (given.getD "retention_days" (.int d₁)) (given.getD "events_retention_days" (.int d₂))
        (given.getD "priority" (.int d₃)) (.int n) joined)) := by
  have outcome : Outcome view i (updateCamera cid given) world (.ok r) world' := ends
  obtain ⟨_, -, raised, -⟩ | ⟨_, accepted, outcome⟩ := Outcome.ofExcept_inv outcome
  · cases raised
  obtain ⟨_, raised, -⟩ | ⟨written, middle, writes, outcome⟩ := Outcome.bind_inv outcome
  · cases raised
  obtain ⟨new, _, -, mutated, stands⟩ := Ends.write_inv (fun it => ReadsOnly.map (ReadsOnly.value _)) writes
  obtain ⟨new', _, made, returned⟩ := Ends.bind_inv mutated
  obtain ⟨rfl, -⟩ := Ends.ret_inv returned
  obtain ⟨made, -⟩ := Ends.value_inv made
  obtain ⟨rfl, rfl⟩ := stands
  obtain ⟨id, n, d₁, d₂, d₃, enabled, joined, name, source, labels, joins, rfl⟩ := updated_ok accepted distinct made
  obtain ⟨_, -, raised, -⟩ | ⟨decoded, read, outcome⟩ := Outcome.value_inv outcome
  · cases raised
  obtain ⟨i', a, b, c, n', hi, ha, hb, hc, hn, rfl⟩ := row_itemsOf.mp read
  cases hi
  cases hn
  refine ⟨accepted, id, n, a, b, c, d₁, d₂, d₃, enabled, joined, name, source, labels, ha, hb, hc, joins, ?_⟩
  split at outcome
  · obtain ⟨_, -, raised, -⟩ | ⟨days, -, outcome⟩ := Outcome.value_inv outcome
    · cases raised
    obtain ⟨_, raised, -⟩ | ⟨_, _, after, outcome⟩ := Outcome.bind_inv outcome
    · cases raised
    obtain ⟨same, rfl⟩ := Outcome.ret_inv outcome
    cases same
    refine ⟨rfl, ?_⟩
    rw [read_of_kept (retention_keeps after)]
    exact Versioned.read_write_self _ _ _
  · obtain ⟨same, rfl⟩ := Outcome.ret_inv outcome
    cases same
    exact ⟨rfl, Versioned.read_write_self _ _ _⟩

/-! ## What the operator wrote -/

/-- The numbers that a call takes as they are. -/
def Whole : Edit → Value → Prop
  | .create _, value => ∃ n : Int, number? value = some (.finite n)
  | .update _ _, value => ∃ n, value = .int n

/-- The values that a call is given are strings, flags, whole numbers and names, each in its place. -/
structure Plain (edit : Edit) : Prop where
  name : ∀ value, edit.fields.get? "name" = some value → ∃ text, value = .str text
  source : ∀ value, edit.fields.get? "source" = some value → ∃ text, value = .str text
  enabled : ∀ value, edit.fields.get? "enabled" = some value → Flag value
  numbers : ∀ field ∈ operatorNumbers, ∀ value, edit.fields.get? field = some value → Whole edit value
  labels : ∀ value, edit.fields.get? "labels" = some value → Names value

/-- The camera that a call is about. -/
def cameraOf : Edit → Dict Value → Option Int
  | .create _, r =>
    match r.get? "id" with
    | some (.int cid) => some cid
    | _ => none
  | .update cid _, _ => some cid

theorem numbers_iff {edit : Edit} : (∀ field ∈ operatorNumbers, ∀ value, edit.fields.get? field = some value →
    Whole edit value) ↔
      (∀ value, edit.fields.get? "retention_days" = some value → Whole edit value) ∧
        (∀ value, edit.fields.get? "events_retention_days" = some value → Whole edit value) ∧
        ∀ value, edit.fields.get? "priority" = some value → Whole edit value := by
  simp only [operatorNumbers, List.forall_mem_cons, List.not_mem_nil, false_implies, implies_true, and_true]

/-- A default that has the property leaves it to what is given. -/
theorem getD_iff {holds : Value → Prop} {field : String} {default : Value} (fallback : holds default) :
    holds (given.getD field default) ↔ ∀ value, given.get? field = some value → holds value := by
  rw [Dict.getD]
  cases given.get? field with
  | none => exact iff_of_true fallback fun value given => (by cases given)
  | some value => simp

theorem getD_of_given {field : String} {default value : Value} (found : given.get? field = some value) :
    given.getD field default = value := by
  rw [Dict.getD, found]
  rfl

theorem string_same {field : String} {default : Value} (text : ∃ text, given.getD field default = .str text) :
    ∀ value, given.get? field = some value → Same (given.getD field default) value := by
  intro value found
  obtain ⟨text, is_⟩ := text
  rw [getD_of_given found] at is_ ⊢
  rw [is_]
  exact .str rfl

theorem enabled_iff {default : Value} :
    (∀ value, given.get? "enabled" = some value → Same (.bool (given.getD "enabled" default).truthy) value) ↔
      ∀ value, given.get? "enabled" = some value → Flag value := by
  refine forall₂_congr fun value found => ?_
  rw [getD_of_given found, flag_iff]

theorem create_number_iff {field : String} {default : Value} {n : Int}
    (read : (given.getD field default).toInt = .ok n) :
    (∀ value, given.get? field = some value → Same (.int n) value) ↔
      ∀ value, given.get? field = some value → Whole (.create given) value := by
  refine forall₂_congr fun value found => ?_
  rw [getD_of_given found] at read
  exact whole_iff read

theorem update_number_iff {field : String} {n d : Int} (read : (given.getD field (.int d)).toInt = .ok n) :
    (TextParses (given.getD field (.int d)) ∧ ∀ value, given.get? field = some value → Same (.int n) value) ↔
      ∀ value, given.get? field = some value → Whole (.update cid given) value := by
  cases found : given.get? field with
  | none =>
    rw [Dict.getD, found]
    exact iff_of_true ⟨⟨d, by simp⟩, fun _ given => (by cases given)⟩ fun _ given => (by cases given)
  | some value =>
    rw [getD_of_given found] at read ⊢
    simp only [Option.some.injEq, forall_eq']
    exact int_iff read

theorem create_labels_iff {labels : List Value} {joined : String}
    (listed : (given.getD "labels" (.list [])).toList = .ok labels) (joins : Value.joinCommas labels = .ok joined) :
    ((∃ texts : List Text, labels = texts.map .str ∧ texts.map Text.string = Python.fields ',' joined) ∧
      ∀ value, given.get? "labels" = some value → Same (.list labels) value) ↔
        ∀ value, given.get? "labels" = some value → Names value := by
  cases found : given.get? "labels" with
  | none =>
    rw [Dict.getD, found] at listed
    cases listed
    cases joins
    exact iff_of_true ⟨⟨[], rfl, rfl⟩, fun _ given => (by cases given)⟩ fun _ given => (by cases given)
  | some value =>
    rw [getD_of_given found] at listed
    simp only [Option.some.injEq, forall_eq']
    exact names_created_iff listed joins

theorem update_labels_iff {default : Value} {joined : String}
    (joins : Value.joinCommas (labelParts (given.getD "labels" default)) = .ok joined) :
    (∀ value, given.get? "labels" = some value → Same (.list (strings (Python.fields ',' joined))) value) ↔
      ∀ value, given.get? "labels" = some value → Names value := by
  refine forall₂_congr fun value found => ?_
  rw [getD_of_given found] at joins
  exact names_updated_iff joins

/-- What the operator wrote is what is read back. -/
def ReadsBack (view : View) (i : ι) (edit : Edit) (r : Dict Value) (world : World ι M) : Prop :=
  ∃ cid, cameraOf edit r = some cid ∧ ReadBack edit.fields r (read view i cid world)

theorem create_reads_back_iff (ends : Ends view i (createCamera given) world r world') :
    ReadsBack view i (.create given) r world' ↔ Plain (.create given) := by
  obtain ⟨accepted, sourced, cid, a, b, c, labels, joined, ha, hb, hc, listed, joins, rfl, found⟩ := create_ends ends
  have back :=
    @back_iff ι M _ view i world' cid 1 a b c cid _ _ (.int a) (.int b) (.int c) _ joined labels rfl rfl rfl found
  have parses (n : Int) : TextParses (.int n) := ⟨n, by simp⟩
  have source : (∃ text, given.getD "source" .none = .str text) ↔
      ∀ value, given.get? "source" = some value → ∃ text, value = .str text := by
    cases there : given.get? "source" with
    | none =>
      rw [Dict.getD, there] at sourced
      cases sourced
    | some value =>
      rw [getD_of_given there]
      simp
  have name :=
    @getD_iff given (fun value => ∃ text, value = .str text) "name" (.str (.plain ("cam" ++ toString cid))) ⟨_, rfl⟩
  have names := create_labels_iff listed joins
  constructor
  · rintro ⟨_, same, row, values⟩
    cases same
    obtain ⟨⟨isName, isSource⟩, -, texts⟩ := back.mp row
    obtain ⟨-, -, flags, first, second, third, labels⟩ := (given_iff accepted).mp values
    refine ⟨name.mp isName, source.mp isSource, enabled_iff.mp flags, numbers_iff.mpr ?_, names.mp ⟨texts, labels⟩⟩
    exact ⟨(create_number_iff ha).mp first, (create_number_iff hb).mp second, (create_number_iff hc).mp third⟩
  · intro plain
    have isName := name.mpr plain.name
    have isSource := source.mpr plain.source
    obtain ⟨texts, labels⟩ := names.mpr plain.labels
    obtain ⟨first, second, third⟩ := numbers_iff.mp plain.numbers
    refine ⟨cid, rfl, back.mpr ⟨⟨isName, isSource⟩, ⟨parses a, parses b, parses c⟩, texts⟩, (given_iff accepted).mpr ?_⟩
    exact ⟨string_same isName, string_same isSource, enabled_iff.mpr plain.enabled, (create_number_iff ha).mpr first,
      (create_number_iff hb).mpr second, (create_number_iff hc).mpr third, labels⟩

theorem update_reads_back_iff (distinct : (given.map Prod.fst).Nodup)
    (ends : Ends view i (updateCamera cid given) world r world') :
    ReadsBack view i (.update cid given) r world' ↔ Plain (.update cid given) := by
  obtain ⟨accepted, id, n, a, b, c, d₁, d₂, d₃, enabled, joined, nm, src, labels, ha, hb, hc, joins, rfl, found⟩ :=
    update_ends distinct ends
  have back := @back_iff ι M _ view i world' id n a b c cid _ _ _ _ _ _ joined (strings (Python.fields ',' joined))
    ha hb hc found
  have name := @getD_iff given (fun value => ∃ text, value = .str text) "name" (.str nm) ⟨_, rfl⟩
  have source := @getD_iff given (fun value => ∃ text, value = .str text) "source" (.str src) ⟨_, rfl⟩
  have texts : ∃ texts : List Text, strings (Python.fields ',' joined) = texts.map .str ∧
      texts.map Text.string = Python.fields ',' joined := by
    refine ⟨(Python.fields ',' joined).map .plain, ?_, ?_⟩
    · rw [List.map_map]
      rfl
    · rw [List.map_map]
      exact List.map_id _
  constructor
  · rintro ⟨_, same, row, values⟩
    cases same
    obtain ⟨⟨isName, isSource⟩, ⟨days, events, priority⟩, -⟩ := back.mp row
    obtain ⟨-, -, flags, first, second, third, labels⟩ := (given_iff accepted).mp values
    refine ⟨name.mp isName, source.mp isSource, enabled_iff.mp flags, numbers_iff.mpr ?_,
      (update_labels_iff joins).mp labels⟩
    exact ⟨(update_number_iff ha).mp ⟨days, first⟩, (update_number_iff hb).mp ⟨events, second⟩,
      (update_number_iff hc).mp ⟨priority, third⟩⟩
  · intro plain
    have isName := name.mpr plain.name
    have isSource := source.mpr plain.source
    obtain ⟨first, second, third⟩ := numbers_iff.mp plain.numbers
    obtain ⟨days, first⟩ := (update_number_iff ha).mpr first
    obtain ⟨events, second⟩ := (update_number_iff hb).mpr second
    obtain ⟨priority, third⟩ := (update_number_iff hc).mpr third
    refine ⟨cid, rfl, back.mpr ⟨⟨isName, isSource⟩, ⟨days, events, priority⟩, texts⟩, (given_iff accepted).mpr ?_⟩
    exact ⟨string_same isName, string_same isSource, enabled_iff.mpr plain.enabled, first, second, third,
      (update_labels_iff joins).mpr plain.labels⟩

/-- An immediate `camera` returns the row that the call returned, and the row holds what the operator gave, exactly
when the call was given plain values. -/
theorem operator_fields_read_back_iff {edit : Edit} (distinct : (edit.fields.map Prod.fst).Nodup)
    (ends : Ends view i edit.program world r world') :
    ReadsBack view i edit r world' ↔ Plain edit := by
  cases edit with
  | create given => exact create_reads_back_iff ends
  | update cid given => exact update_reads_back_iff distinct ends

end Calls

/-! ## Labels in one string -/

def gateWith (labels : Value) : Edit := .create [("source", .str (.plain "driverpack://file/gate")), ("labels", labels)]

theorem ends_edited {edit : Edit} {world : World Unit Unit} (returned : (edited edit world).1.isOk = true) :
    ∃ r, Ends controllerView () edit.program world r (edited edit world).2 := by
  have outcome := edited_outcome edit world
  cases result : (edited edit world).1 with
  | error error =>
    rw [result] at returned
    cases returned
  | ok r =>
    rw [result] at outcome
    exact ⟨r, outcome⟩

theorem operator_fields_read_back_two_labels : ∃ r world',
    Ends controllerView () (gateWith (.list [.str (.plain "vlan:a"), .str (.plain "vlan:b")])).program
      (freshWorld Unit) r world' ∧
      ReadsBack controllerView () (gateWith (.list [.str (.plain "vlan:a"), .str (.plain "vlan:b")])) r world' := by
  obtain ⟨r, ends⟩ := @ends_edited (gateWith (.list [.str (.plain "vlan:a"), .str (.plain "vlan:b")])) (freshWorld Unit)
    (by decide +kernel)
  refine ⟨r, _, ends, (operator_fields_read_back_iff (by decide) ends).mpr ?_⟩
  constructor
  · intro value given
    cases given
  · intro value given
    cases given
    exact ⟨_, rfl⟩
  · intro value given
    cases given
  · intro field counted value given
    simp only [operatorNumbers, List.mem_cons, List.not_mem_nil, or_false] at counted
    obtain rfl | rfl | rfl := counted <;> cases given
  · intro value given
    cases given
    refine ⟨["vlan:a", "vlan:b"], rfl, ?_⟩
    simp only [List.forall_mem_cons]
    exact ⟨⟨by decide, by decide⟩, ⟨by decide, by decide⟩, List.forall_mem_nil _⟩

/-- The characters of the string are the labels of the row that is returned, and its parts those of the row that is
read. -/
theorem labels_string_not_read_back : ∃ r world',
    Ends controllerView () (gateWith (.str (.plain "a,b"))).program (freshWorld Unit) r world' ∧
      ¬ ReadsBack controllerView () (gateWith (.str (.plain "a,b"))) r world' := by
  obtain ⟨r, ends⟩ := @ends_edited (gateWith (.str (.plain "a,b"))) (freshWorld Unit) (by decide +kernel)
  refine ⟨r, _, ends, fun back => ?_⟩
  obtain ⟨texts, listed, -⟩ := ((create_reads_back_iff ends).mp back).labels (.str (.plain "a,b")) rfl
  cases listed

end EdgeVms.Verified.OperatorFields
