import EdgeVms.Verified.Vms.Placement

/-! # Camera rows: written, stored, decoded

A row is written from values and decoded from their texts.  `create_camera`
makes an integer of every numeric field before it writes; `update_camera` writes
what it is given, so that a field decodes only if `int` accepts its text.
-/

namespace EdgeVms.Verified

open Process Python Platform Vms VmsController

/-- `int` accepts the value. -/
def Parses (value : Value) : Prop := ∃ n, value.toInt = .ok n

/-- `int` accepts the text that is stored for the value. -/
def TextParses (value : Value) : Prop := ∃ n, value.text.toInt = .ok n

/-- `int` accepts the text that is stored for an integer or a string, and no other. -/
theorem text_parses_cases {value : Value} {n : Int} (read : value.text.toInt = .ok n) :
    value = .int n ∨ ∃ text, value = .str text ∧ text.toInt = .ok n := by
  have refused : ∀ text : String, pyInt text = none → (Text.plain text).toInt ≠ .ok n := by
    intro text none same
    simp [Text.toInt, none] at same
  cases value with
  | bool value =>
    have none : pyInt (Value.bool value).repr = none := by
      cases value
      · decide
      · decide
    exact absurd read (refused _ none)
  | int value =>
    rw [Value.text_int, Text.toInt_repr] at read
    cases read
    exact .inl rfl
  | str text => exact .inr ⟨text, rfl, read⟩
  | none => exact absurd read (refused _ (by decide))
  | float x =>
    have none : pyInt x.text = none := by
      cases x with
      | finite q =>
        apply pyInt_point
        simp [Floating.text]
      | infinite negative =>
        cases negative
        · decide
        · decide
      | nan => decide
    simp [Value.text, Text.toInt, Text.string, none] at read
  | list items =>
    have chars : (Value.list items).repr.toList = '[' :: (Value.reprItems items ++ "]").toList := by
      simp [Value.repr]
    exact absurd read (refused _ (pyInt_none chars ⟨by decide, by decide⟩ (by decide) (by decide)))
  | dict entries =>
    have chars : (Value.dict entries).repr.toList = '\x7b' :: (Value.reprEntries entries ++ "\x7d").toList := by
      simp [Value.repr]
    exact absurd read (refused _ (pyInt_none chars ⟨by decide, by decide⟩ (by decide) (by decide)))

/-- What is stored for a value is read as the value, if `int` accepts the text. -/
theorem toInt_of_text {value : Value} {n : Int} (read : value.text.toInt = .ok n) : value.toInt = .ok n := by
  obtain rfl | ⟨text, rfl, parsed⟩ := text_parses_cases read
  · rfl
  · exact parsed

/-- What is stored for a value and decodes again is a value that `int` accepts. -/
theorem TextParses.parses {value : Value} (parses : TextParses value) : Parses value :=
  parses.imp fun _ read => toInt_of_text read

/-! ## What makes a row decode -/

/-- The fields of a row that `row` reads as integers when they are there. -/
def numberFields : List String := ["retention_days", "events_retention_days", "priority", "revision"]

theorem parses_getD {it : Dict Value} {field : String} {default : Int} :
    Parses (it.getD field (.int default)) ↔ ∀ value, it.get? field = some value → Parses value := by
  rw [Dict.getD]
  cases it.get? field with
  | none => simp [Parses]
  | some value => simp

theorem row_ok_iff {it : Dict Value} : (∃ r, row it = .ok r) ↔
    (∃ id, it.get? "id" = some id ∧ Parses id) ∧
      (∀ field ∈ numberFields, ∀ value, it.get? field = some value → Parses value) ∧
      ∃ labels, (it.getD "labels" (.str (.plain ""))).splitCommas = .ok labels := by
  have numbers : (∀ field ∈ numberFields, ∀ value, it.get? field = some value → Parses value) ↔
      Parses (it.getD "retention_days" (.int 30)) ∧ Parses (it.getD "events_retention_days" (.int 365)) ∧
        Parses (it.getD "priority" (.int 100)) ∧ Parses (it.getD "revision" (.int 1)) := by
    simp [parses_getD, numberFields]
  have id : (∃ id, it.get? "id" = some id ∧ Parses id) ↔ ∃ id, Dict.item it "id" = .ok id ∧ Parses id := by
    rw [Dict.item]
    cases it.get? "id" with
    | none => simp
    | some value => simp
  rw [numbers, id]
  simp only [row, bind_eq_ok]
  constructor
  · rintro ⟨r, id, found, n, parsed, retention, first, events, second, priority, third, revision, fourth,
      labels, split, -⟩
    exact ⟨⟨id, found, n, parsed⟩, ⟨⟨_, first⟩, ⟨_, second⟩, ⟨_, third⟩, ⟨_, fourth⟩⟩, labels, split⟩
  · rintro ⟨⟨id, found, n, parsed⟩, ⟨⟨retention, first⟩, ⟨events, second⟩, ⟨priority, third⟩, ⟨revision, fourth⟩⟩,
      labels, split⟩
    exact ⟨_, id, found, n, parsed, retention, first, events, second, priority, third, revision, fourth,
      labels, split, rfl⟩

/-- The stored texts are a camera row. -/
def Decodes (texts : Items) : Prop := ∃ r, row (rowValues (some texts)) = .ok r

theorem decodes_stored_iff {it : Dict Value} : Decodes (stored it) ↔
    (∃ id, it.get? "id" = some id ∧ TextParses id) ∧
      ∀ field ∈ numberFields, ∀ value, it.get? field = some value → TextParses value := by
  have split : ∃ labels, (Dict.getD (rowValues (some (stored it))) "labels" (.str (.plain ""))).splitCommas =
      .ok labels := by
    rw [Dict.getD, get?_rowValues]
    cases Dict.get? ((some (stored it)).getD []) "labels" with
    | none => exact ⟨_, rfl⟩
    | some text => exact ⟨_, rfl⟩
  rw [Decodes, row_ok_iff]
  simp [get?_rowValues, split, Parses, TextParses, Value.toInt]

/-! ## What an update writes -/

/-- The fields an operator sets that `row` reads as integers. -/
def operatorNumbers : List String := ["retention_days", "events_retention_days", "priority"]

/-- The labels that are given as a list are texts. -/
def LabelsJoin (fields : Dict Value) : Prop :=
  ∀ labels, fields.get? "labels" = some (.list labels) → ∀ label ∈ labels, ∃ text, label = .str text

theorem joinCommas_ok_iff {values : List Value} :
    (∃ text, Value.joinCommas values = .ok text) ↔ ∀ value ∈ values, ∃ text, value = .str text := by
  have joined : ∀ x : Except Error (List String), (∃ text, (join ',' ·) <$> x = .ok text) ↔
      ∃ texts, x = .ok texts := by
    intro x
    cases x with
    | error error => simp [Functor.map, Except.map]
    | ok texts => simp [Functor.map, Except.map]
  rw [Value.joinCommas, joined, mapM_ok_iff]
  refine forall₂_congr fun value _ => ?_
  cases value with
  | str text => simp
  | _ => simp

theorem get?_merge {fields r : Dict Value} (distinct : (fields.map Prod.fst).Nodup) (key : String) :
    Dict.get? (fields.foldl (fun r field => r.set field.1 field.2) r) key =
      (fields.get? key).or (r.get? key) := by
  induction fields generalizing r with
  | nil => rfl
  | cons field rest ih =>
    obtain ⟨first, value⟩ := field
    rw [List.map_cons, List.nodup_cons] at distinct
    rw [List.foldl_cons, ih distinct.2, Dict.get?_cons]
    by_cases same : first = key
    · subst same
      have absent : Dict.get? rest first = none := by
        cases found : Dict.get? rest first with
        | none => rfl
        | some value => exact absurd (List.mem_map_of_mem (Dict.mem_of_get? found)) distinct.1
      simp [absent]
    · rw [if_neg same, Dict.get?_set_other _ _ fun there => same there.symm]

/-- A merged field is the given one, or else the decoded one. -/
theorem get?_merge_some {fields r : Dict Value} (distinct : (fields.map Prod.fst).Nodup) (key : String)
    {value : Value} (found : r.get? key = some value) :
    Dict.get? (fields.foldl (fun r field => r.set field.1 field.2) r) key =
      some ((fields.get? key).getD value) := by
  rw [get?_merge distinct, found]
  cases fields.get? key <;> rfl

/-- A decoded row has every field that `items` takes. -/
theorem row_shape {it r : Dict Value} (decoded : row it = .ok r) :
    ∃ id name source enabled retention events priority revision, ∃ labels : List String,
      r = [("id", .int id), ("name", name), ("source", source), ("enabled", .bool enabled),
        ("retention_days", .int retention), ("events_retention_days", .int events), ("priority", .int priority),
        ("revision", .int revision), ("labels", .list (labels.map fun label => .str (.plain label)))] := by
  simp only [row, bind_eq_ok] at decoded
  obtain ⟨_, _, id, _, retention, _, events, _, priority, _, revision, _, labels, _, ends⟩ := decoded
  cases ends
  exact ⟨id, _, _, _, retention, events, priority, revision, _, rfl⟩

/-- What the operator may not set stays as it was in the merged row. -/
theorem get?_of_refuse {fields : Dict Value} (accepted : refuse fields = .ok ()) {key : String}
    (other : key ∉ operatorFields) : fields.get? key = none := by
  unfold refuse at accepted
  dsimp only at accepted
  split at accepted
  · cases accepted
  · split at accepted
    · cases accepted
    next known =>
      simp only [Bool.not_eq_true, Bool.not_eq_false', List.isEmpty_iff, List.filter_eq_nil_iff,
        decide_eq_true_eq, not_not] at known
      cases found : fields.get? key with
      | none => rfl
      | some value =>
        exact absurd (known key (List.mem_map_of_mem (Dict.mem_of_get? found))) other

/-- The camera is there, and not deleted. -/
def Present (it : Dict Value) : Prop := it.isEmpty = false ∧ (it.getD "deleted" .none).equals "true" = false

/-- What an update writes: the operator's values as they were given, all else as decoded. -/
structure Updated (fields new : Dict Value) : Prop where
  id : ∃ id, new.get? "id" = some (.int id)
  given : ∀ field ∈ operatorNumbers, ∀ value, fields.get? field = some value → new.get? field = some value
  kept : ∀ field ∈ operatorNumbers, fields.get? field = none → ∃ n, new.get? field = some (.int n)
  revision : ∃ n, new.get? "revision" = some (.int n)
  labels : ∃ text, new.get? "labels" = some (.str (.plain text))

theorem labelParts_join_iff {labels : Value} : (∃ text, Value.joinCommas (labelParts labels) = .ok text) ↔
    ∀ values, labels = .list values → ∀ value ∈ values, ∃ text, value = .str text := by
  rw [joinCommas_ok_iff]
  cases labels with
  | list values => simp [labelParts]
  | _ => simp [labelParts]

/-- The row `items` takes apart: a decoded row with the operator's fields set over it. -/
structure Merged (fields r : Dict Value) : Prop where
  id : ∃ id, r.get? "id" = some (.int id)
  name : ∃ name, r.get? "name" = some name
  source : ∃ source, r.get? "source" = some source
  enabled : ∃ enabled, r.get? "enabled" = some enabled
  numbers : ∀ field ∈ operatorNumbers, ∃ n, r.get? field = some ((fields.get? field).getD (.int n))
  revision : ∃ n, r.get? "revision" = some (.int n)
  labels : ∃ labels : List String, r.get? "labels" =
    some ((fields.get? "labels").getD (.list (labels.map fun label => .str (.plain label))))

theorem merged_of_row {fields it r : Dict Value} (accepted : refuse fields = .ok ())
    (distinct : (fields.map Prod.fst).Nodup) (decoded : row it = .ok r) :
    Merged fields (fields.foldl (fun r field => r.set field.1 field.2) r) := by
  obtain ⟨id, name, source, enabled, retention, events, priority, revision, labels, rfl⟩ := row_shape decoded
  constructor
  · refine ⟨id, ?_⟩
    rw [get?_merge_some distinct "id" rfl, get?_of_refuse accepted (by decide)]
    rfl
  · exact ⟨_, get?_merge_some distinct "name" rfl⟩
  · exact ⟨_, get?_merge_some distinct "source" rfl⟩
  · exact ⟨_, get?_merge_some distinct "enabled" rfl⟩
  · simp only [operatorNumbers, List.forall_mem_cons]
    exact ⟨⟨_, get?_merge_some distinct "retention_days" rfl⟩,
      ⟨_, get?_merge_some distinct "events_retention_days" rfl⟩,
      ⟨_, get?_merge_some distinct "priority" rfl⟩, by simp⟩
  · refine ⟨revision, ?_⟩
    rw [get?_merge_some distinct "revision" rfl, get?_of_refuse accepted (by decide)]
    rfl
  · exact ⟨labels, get?_merge_some distinct "labels" rfl⟩

theorem Merged.bump {fields r : Dict Value} (merged : Merged fields r) (n : Int) :
    Merged fields (r.set "revision" (.int n)) := by
  have other : ∀ key, key ≠ "revision" → Dict.get? (r.set "revision" (.int n)) key = r.get? key :=
    fun key differs => Dict.get?_set_other _ _ differs
  constructor
  · rw [other "id" (by decide)]
    exact merged.id
  · rw [other "name" (by decide)]
    exact merged.name
  · rw [other "source" (by decide)]
    exact merged.source
  · rw [other "enabled" (by decide)]
    exact merged.enabled
  · intro field member
    have differs : field ≠ "revision" := by
      rintro rfl
      exact absurd member (by decide)
    rw [other field differs]
    exact merged.numbers field member
  · exact ⟨n, Dict.get?_set_self _ _ _⟩
  · rw [other "labels" (by decide)]
    exact merged.labels

theorem Merged.labels_join {fields r : Dict Value} (merged : Merged fields r) :
    (∃ text, Value.joinCommas (labelParts (r.getD "labels" (.list []))) = .ok text) ↔ LabelsJoin fields := by
  obtain ⟨labels, found⟩ := merged.labels
  rw [labelParts_join_iff, Dict.getD, found, LabelsJoin, Option.getD_some]
  cases fields.get? "labels" with
  | none => simp
  | some given => simp

theorem Merged.items {fields r : Dict Value} (merged : Merged fields r) :
    (¬ LabelsJoin fields ∧ ∃ error, Vms.items r = .error error) ∨
      (LabelsJoin fields ∧ ∃ new, Vms.items r = .ok new ∧ Updated fields new) := by
  obtain ⟨id, hasId⟩ := merged.id
  obtain ⟨name, hasName⟩ := merged.name
  obtain ⟨source, hasSource⟩ := merged.source
  obtain ⟨enabled, hasEnabled⟩ := merged.enabled
  obtain ⟨revision, hasRevision⟩ := merged.revision
  obtain ⟨retention, hasRetention⟩ := merged.numbers "retention_days" (by decide)
  obtain ⟨events, hasEvents⟩ := merged.numbers "events_retention_days" (by decide)
  obtain ⟨priority, hasPriority⟩ := merged.numbers "priority" (by decide)
  have joins := merged.labels_join
  cases joined : Value.joinCommas (labelParts (r.getD "labels" (.list []))) with
  | error error =>
    refine .inl ⟨fun join => ?_, error, ?_⟩
    · obtain ⟨text, same⟩ := joins.mpr join
      rw [joined] at same
      cases same
    · simp [Vms.items, Dict.item, hasId, hasName, hasSource, hasEnabled, hasRetention, hasRevision, joined,
        Bind.bind, Except.bind]
  | ok text =>
    refine .inr ⟨joins.mp ⟨text, joined⟩, [("id", .int id), ("name", name), ("source", source),
      ("enabled", .str (.plain (if enabled.truthy then "true" else "false"))),
      ("retention_days", (fields.get? "retention_days").getD (.int retention)),
      ("events_retention_days", (fields.get? "events_retention_days").getD (.int events)),
      ("priority", (fields.get? "priority").getD (.int priority)), ("revision", .int revision),
      ("labels", .str (.plain text))], ?_, ?_⟩
    · simp only [Vms.items, Dict.item, hasId, hasName, hasSource, hasEnabled, hasRetention, hasRevision, joined,
        Bind.bind, Except.bind, Pure.pure, Except.pure]
      rw [Dict.getD, Dict.getD, hasEvents, hasPriority]
      rfl
    · constructor
      · exact ⟨id, rfl⟩
      · intro field member value given
        simp only [operatorNumbers, List.mem_cons, List.not_mem_nil, or_false] at member
        obtain rfl | rfl | rfl := member
        · simp [Dict.get?_cons, given]
        · simp [Dict.get?_cons, given]
        · simp [Dict.get?_cons, given]
      · intro field member given
        simp only [operatorNumbers, List.mem_cons, List.not_mem_nil, or_false] at member
        obtain rfl | rfl | rfl := member
        · exact ⟨retention, by simp [Dict.get?_cons, given]⟩
        · exact ⟨events, by simp [Dict.get?_cons, given]⟩
        · exact ⟨priority, by simp [Dict.get?_cons, given]⟩
      · exact ⟨revision, rfl⟩
      · exact ⟨text, rfl⟩

theorem updated_cases {cid : Int} {fields it : Dict Value} (accepted : refuse fields = .ok ())
    (distinct : (fields.map Prod.fst).Nodup) (decodes : ∃ r, row it = .ok r) (present : Present it) :
    (¬ LabelsJoin fields ∧ ∃ error, updated cid fields it = .error error) ∨
      (LabelsJoin fields ∧ ∃ new, updated cid fields it = .ok new ∧ Updated fields new) := by
  obtain ⟨r, decoded⟩ := decodes
  have merged := merged_of_row accepted distinct decoded
  obtain ⟨revision, found⟩ := merged.revision
  have reached : updated cid fields it =
      Vms.items ((fields.foldl (fun r field => r.set field.1 field.2) r).set "revision" (.int (revision + 1))) := by
    simp [updated, present.1, present.2, decoded, Dict.item, found, Bind.bind, Except.bind]
  rw [reached]
  exact (merged.bump (revision + 1)).items

/-- The numbers the operator gives decode again from their texts. -/
def NumbersDecode (fields : Dict Value) : Prop :=
  ∀ field ∈ operatorNumbers, ∀ value, fields.get? field = some value → TextParses value

theorem Updated.decodes_iff {fields new : Dict Value} (updated : Updated fields new) :
    Decodes (stored new) ↔ NumbersDecode fields := by
  have int : ∀ n : Int, TextParses (.int n) := fun n => ⟨n, by simp⟩
  rw [decodes_stored_iff]
  constructor
  · rintro ⟨-, numbers⟩ field member value given
    have counted : field ∈ numberFields := List.mem_append_left ["revision"] member
    exact numbers field counted value (updated.given field member value given)
  · intro parse
    obtain ⟨id, hasId⟩ := updated.id
    refine ⟨⟨_, hasId, int id⟩, fun field member value found => ?_⟩
    have operator : field ∈ operatorNumbers ∨ field = "revision" := by
      simpa [numberFields, operatorNumbers, or_assoc] using member
    obtain operator | rfl := operator
    · cases given : fields.get? field with
      | none =>
        obtain ⟨n, kept⟩ := updated.kept field operator given
        rw [kept] at found
        cases found
        exact int n
      | some value' =>
        rw [updated.given field operator value' given] at found
        cases found
        exact parse field operator value given
    · obtain ⟨n, kept⟩ := updated.revision
      rw [kept] at found
      cases found
      exact int n

/-- The row that comes back from such an update decodes as it is. -/
theorem Updated.row_ok {fields new : Dict Value} (updated : Updated fields new) (decode : NumbersDecode fields) :
    ∃ r, row new = .ok r := by
  obtain ⟨⟨id, hasId, parse⟩, numbers⟩ := decodes_stored_iff.mp (updated.decodes_iff.mpr decode)
  obtain ⟨text, labels⟩ := updated.labels
  refine row_ok_iff.mpr ⟨⟨id, hasId, parse.parses⟩, fun field member value found => ?_, ?_⟩
  · exact (numbers field member value found).parses
  · exact ⟨_, by rw [Dict.getD, labels]; rfl⟩

end EdgeVms.Verified
