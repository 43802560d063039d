import EdgeVms.Platform.VarFiles
import Mathlib.Data.List.Induction
import Mathlib.Data.String.Basic

/-! # Paths and files of the config store

Two paths have two files as long as neither holds the text `%2F`, which in a file name
stands for a slash.  A path that does hold it shares the file of another path, and is
listed under that other one.
-/

namespace EdgeVms.Verified.VarFileKeys

open Process Python Platform VarFiles

/-! ## The names of the files -/

/-- The text of a slash in a file name. -/
def slashText : List Char := ['%', '2', 'F']

theorem unescape_cons {c : Char} {rest : List Char} (plain : ¬ slashText <+: c :: rest) :
    unescape (c :: rest) = c :: unescape rest := by
  rw [unescape]
  rintro rest' rfl rfl
  exact plain ⟨rest', rfl⟩

/-- Where an escaped text does not begin with a percent sign, the text begins alike. -/
theorem escape_begins {chars rest : List Char} {c : Char} (begins : escape chars = c :: rest) (other : c ≠ '%') :
    ∃ rest', chars = c :: rest' ∧ escape rest' = rest := by
  cases chars with
  | nil => cases begins
  | cons first rest' =>
    by_cases slash : first = '/'
    · subst slash
      cases begins
      exact absurd rfl other
    · have kept : escape (first :: rest') = first :: escape rest' := by simp [escape, slash]
      obtain ⟨rfl, same⟩ := List.cons.inj (kept.symm.trans begins)
      exact ⟨rest', rfl, same⟩

/-- The texts of slashes that were there before are read as slashes, like those that were written. -/
theorem unescape_escape (chars : List Char) : unescape (escape chars) = unescape chars := by
  fun_induction unescape chars with
  | case1 rest ih =>
    have kept : escape ('%' :: '2' :: 'F' :: rest) = '%' :: '2' :: 'F' :: escape rest := rfl
    rw [kept, unescape, ih]
  | case2 c rest plain ih =>
    by_cases slash : c = '/'
    · subst slash
      have written : escape ('/' :: rest) = '%' :: '2' :: 'F' :: escape rest := rfl
      rw [written, unescape, ih]
    · have kept : escape (c :: rest) = c :: escape rest := by simp [escape, slash]
      rw [kept, unescape_cons, ih]
      rintro ⟨last, begins⟩
      obtain ⟨percent, tail⟩ := List.cons.inj begins
      have second : escape rest = '2' :: 'F' :: last := tail.symm
      obtain ⟨rest', rfl, third⟩ := escape_begins second (by decide)
      obtain ⟨rest', rfl, -⟩ := escape_begins third (by decide)
      exact plain rest' percent.symm rfl
  | case3 => rfl

/-- What reads back as itself has no text of a slash. -/
theorem unescape_eq_self (chars : List Char) : unescape chars = chars ↔ ¬ slashText <:+: chars := by
  fun_induction unescape chars with
  | case1 rest ih =>
    have there : slashText <:+: '%' :: '2' :: 'F' :: rest := ⟨[], rest, rfl⟩
    exact ⟨fun same => absurd (List.cons.inj same).1 (by decide), fun absent => absurd there absent⟩
  | case2 c rest plain ih =>
    have later : ¬ slashText <+: c :: rest := by
      rintro ⟨last, begins⟩
      obtain ⟨percent, tail⟩ := List.cons.inj begins
      exact plain last percent.symm tail.symm
    rw [List.cons.injEq, List.infix_cons_iff, not_or, ih]
    exact ⟨fun same => ⟨later, same.2⟩, fun absent => ⟨rfl, absent.2⟩⟩
  | case3 => simp [slashText]

/-- A path without the text of a slash. -/
def Plain (path : String) : Prop := ¬ slashText <:+: path.toList

theorem toList_fileName (path : String) : (fileName path).toList = escape path.toList ++ ".json".toList := by
  rw [fileName, String.toList_append, String.toList_ofList]

/-- How a file is listed. -/
theorem pathOf_fileName (path : String) : pathOf (fileName path) = some (String.ofList (unescape path.toList)) := by
  have ends : ".json".toList <:+ (fileName path).toList := ⟨_, (toList_fileName path).symm⟩
  have five : (".json".toList).length = 5 := by decide
  rw [pathOf, if_pos ends, toList_fileName, List.length_append, five, Nat.add_sub_cancel, List.take_left,
    unescape_escape]

theorem pathOf_plain {path : String} (plain : Plain path) : pathOf (fileName path) = some path := by
  rw [pathOf_fileName, (unescape_eq_self _).mpr plain, String.ofList_toList]

theorem fileName_inj {path path' : String} (plain : Plain path) (plain' : Plain path')
    (same : fileName path = fileName path') : path = path' := by
  have listed := pathOf_plain plain
  rw [same, pathOf_plain plain'] at listed
  exact (Option.some.inj listed).symm

/-- The file that is written first is nobody's. -/
theorem fileName_ne_tmp (path path' : String) : fileName path ≠ fileName path' ++ ".tmp" := by
  intro same
  have chars := congrArg String.toList same
  rw [String.toList_append, toList_fileName] at chars
  have last := congrArg List.getLast? chars
  rw [List.getLast?_append_of_ne_nil _ (by decide), List.getLast?_append_of_ne_nil _ (by decide)] at last
  exact absurd last (by decide)

/-! ## The calls -/

inductive Op where
  | put (view : View) (path : String) (items : Dict Value) (cas : Option Nat)
  | delete (path : String) (cas : Option Nat)

def Op.path : Op → String
  | put _ path _ _ => path
  | delete path _ => path

/-- The store, and the paths that were put and not deleted since. -/
structure Noted where
  store : VarFiles
  kept : List String

namespace Noted

def after (noted : Noted) : Op → Noted
  | .put view path items cas =>
    match noted.store.put view path items cas with
    | (.ok _, store) => ⟨store, path :: noted.kept⟩
    | (.error _, store) => ⟨store, noted.kept⟩
  | .delete path cas =>
    match noted.store.delete path cas with
    | (.ok _, store) => ⟨store, noted.kept.filter (· ≠ path)⟩
    | (.error _, store) => ⟨store, noted.kept⟩

end Noted

def run (ops : List Op) : Noted := ops.foldl Noted.after ⟨empty, []⟩

/-- What any of the calls may do to the files: nothing, a write of its own file, or its removal. -/
inductive Does (path : String) (noted : Noted) : Noted → Prop where
  | nothing (index : Option Nat) : Does path noted ⟨⟨noted.store.dir, index⟩, noted.kept⟩
  | write (d : Content) (index : Option Nat) :
    Does path noted ⟨⟨((noted.store.dir.set (fileName path ++ ".tmp") d).pop (fileName path ++ ".tmp")).set
      (fileName path) d, index⟩, path :: noted.kept⟩
  | remove (index : Option Nat) :
    Does path noted ⟨⟨noted.store.dir.pop (fileName path), index⟩, noted.kept.filter (· ≠ path)⟩

theorem put_cases (view : View) (store : VarFiles) (path : String) (items : Dict Value) (cas : Option Nat) :
    (∃ error index, store.put view path items cas = (.error error, ⟨store.dir, index⟩)) ∨
      ∃ idx d, store.put view path items cas = (.ok idx, ⟨((store.dir.set (fileName path ++ ".tmp") d).pop
        (fileName path ++ ".tmp")).set (fileName path) d, some idx⟩) := by
  unfold VarFiles.put
  cases view.forbids path with
  | some message => exact .inl ⟨_, _, rfl⟩
  | none =>
    cases store.current path cas with
    | error error => exact .inl ⟨_, _, rfl⟩
    | ok _ =>
      dsimp only [nextIndex, VarFiles.replace]
      cases opens (fileName path ++ ".tmp") with
      | error error => exact .inl ⟨_, _, rfl⟩
      | ok _ => exact .inr ⟨_, _, rfl⟩

theorem delete_cases (store : VarFiles) (path : String) (cas : Option Nat) :
    (∃ error, store.delete path cas = (.error error, store)) ∨
      ∃ index, store.delete path cas = (.ok (), ⟨store.dir.pop (fileName path), index⟩) := by
  unfold VarFiles.delete
  cases store.current path cas with
  | error error => exact .inl ⟨_, rfl⟩
  | ok _ => exact .inr ⟨_, rfl⟩

theorem after_does (noted : Noted) (op : Op) : Does op.path noted (noted.after op) := by
  cases op with
  | put view path items cas =>
    obtain ⟨error, index, done⟩ | ⟨idx, d, done⟩ := put_cases view noted.store path items cas
    · rw [Noted.after, done]
      exact .nothing index
    · rw [Noted.after, done]
      exact .write d (some idx)
  | delete path cas =>
    obtain ⟨error, done⟩ | ⟨index, done⟩ := delete_cases noted.store path cas
    · rw [Noted.after, done]
      exact .nothing _
    · rw [Noted.after, done]
      exact .remove index

theorem file_cases (path : String) : (∃ error, file path = .error error) ∨ file path = .ok (fileName path) := by
  rw [file, safe]
  split
  · exact .inl ⟨_, rfl⟩
  · exact .inr rfl

/-- A read depends on the file of its path alone. -/
theorem get_congr {store store' : VarFiles} {path : String}
    (same : store'.dir.get? (fileName path) = store.dir.get? (fileName path)) : store'.get path = store.get path := by
  unfold VarFiles.get
  obtain ⟨error, refused⟩ | named := file_cases path
  · rw [refused]
    rfl
  · rw [named]
    simp only [Bind.bind, Except.bind, same]

/-- Another file stays as it was. -/
theorem Does.other {path : String} {noted noted' : Noted} (does : Does path noted noted') {name : String}
    (other : name ≠ fileName path) (tmp : name ≠ fileName path ++ ".tmp") :
    noted'.store.dir.get? name = noted.store.dir.get? name := by
  cases does with
  | nothing => rfl
  | write d =>
    rw [Dict.get?_set_other _ _ other, Dict.get?_pop_other _ tmp, Dict.get?_set_other _ _ tmp]
  | remove => exact Dict.get?_pop_other _ other

/-! ## The files in use -/

/-- The files are those of the paths that are kept. -/
structure Sound (used : Set String) (noted : Noted) : Prop where
  distinct : (noted.store.dir.map Prod.fst).Nodup
  named : ∀ name, (noted.store.dir.get? name).isSome ↔ ∃ path ∈ noted.kept, name = fileName path
  used : ∀ path ∈ noted.kept, path ∈ used

variable {used : Set String}

theorem sound_empty : Sound used ⟨empty, []⟩ where
  distinct := List.nodup_nil
  named name := by simp [empty]
  used := nofun

theorem Sound.does {noted noted' : Noted} (plain : ∀ path ∈ used, Plain path) (sound : Sound used noted) {path : String}
    (member : path ∈ used) (does : Does path noted noted') : Sound used noted' := by
  cases does with
  | nothing => exact ⟨sound.distinct, sound.named, sound.used⟩
  | write d index =>
    have fresh : fileName path ++ ".tmp" ≠ fileName path := (fileName_ne_tmp path path).symm
    refine ⟨?_, fun name => ?_, ?_⟩
    · exact Dict.nodup_keys_set (Dict.nodup_keys_pop (Dict.nodup_keys_set sound.distinct _ _) _) _ _
    · by_cases own : name = fileName path
      · subst own
        rw [Dict.get?_set_self]
        exact ⟨fun _ => ⟨path, .head _, rfl⟩, fun _ => rfl⟩
      · rw [Dict.get?_set_other _ _ own]
        by_cases tmp : name = fileName path ++ ".tmp"
        · subst tmp
          rw [Dict.get?_pop_self]
          refine ⟨nofun, ?_⟩
          rintro ⟨path', -, same⟩
          exact absurd same.symm (fileName_ne_tmp path' path)
        · rw [Dict.get?_pop_other _ tmp, Dict.get?_set_other _ _ tmp, sound.named]
          constructor
          · rintro ⟨path', kept, same⟩
            exact ⟨path', .tail _ kept, same⟩
          · rintro ⟨path', kept, rfl⟩
            obtain rfl | kept := List.mem_cons.mp kept
            · exact absurd rfl own
            · exact ⟨path', kept, rfl⟩
    · intro path' kept
      obtain rfl | kept := List.mem_cons.mp kept
      · exact member
      · exact sound.used path' kept
  | remove index =>
    refine ⟨Dict.nodup_keys_pop sound.distinct _, fun name => ?_, fun path' kept =>
      sound.used path' (List.mem_of_mem_filter kept)⟩
    by_cases own : name = fileName path
    · subst own
      rw [Dict.get?_pop_self]
      refine ⟨nofun, ?_⟩
      rintro ⟨path', kept, same⟩
      obtain ⟨kept, other⟩ := List.mem_filter.mp kept
      have equal := fileName_inj (plain path member) (plain path' (sound.used path' kept)) same
      exact absurd equal.symm (of_decide_eq_true other)
    · rw [Dict.get?_pop_other _ own, sound.named]
      constructor
      · rintro ⟨path', kept, rfl⟩
        refine ⟨path', List.mem_filter.mpr ⟨kept, decide_eq_true ?_⟩, rfl⟩
        rintro rfl
        exact own rfl
      · rintro ⟨path', kept, same⟩
        exact ⟨path', List.mem_of_mem_filter kept, same⟩

theorem sound_run (plain : ∀ path ∈ used, Plain path) (ops : List Op) (uses : ∀ op ∈ ops, op.path ∈ used) :
    Sound used (run ops) := by
  induction ops using List.reverseRecOn with
  | nil => exact sound_empty
  | append_singleton ops op ih =>
    have before : Sound used (run ops) := ih fun op' there => uses op' (List.mem_append_left _ there)
    rw [run, List.foldl_append]
    exact before.does plain (uses op (List.mem_append_right _ (.head _))) (after_does _ op)

/-! ## What a listing has -/

theorem mem_list {store : VarFiles} {above path : String} : path ∈ store.list above ↔
    (∃ name, (store.dir.get? name).isSome ∧ pathOf name = some path) ∧ above.toList <+: path.toList := by
  simp only [VarFiles.list, List.mem_insertionSort, List.mem_filter, List.mem_filterMap, Dict.mem_keys,
    List.isPrefixOf_iff_prefix]

/-- Exactly the paths that were put and not deleted since and that begin with the prefix, each once. -/
def Lists (noted : Noted) : Prop :=
  ∀ above, (noted.store.list above).Nodup ∧
    ∀ path, path ∈ noted.store.list above ↔ path ∈ noted.kept ∧ above.toList <+: path.toList

/-- No call on a path changes what is read at another one. -/
def Independent (used : Set String) (noted : Noted) : Prop :=
  ∀ op : Op, op.path ∈ used → ∀ path ∈ used, path ≠ op.path → (noted.after op).store.get path = noted.store.get path

theorem Sound.lists {noted : Noted} (plain : ∀ path ∈ used, Plain path) (sound : Sound used noted) : Lists noted := by
  intro above
  have paths : ∀ name ∈ noted.store.dir.map Prod.fst, ∃ path ∈ noted.kept, name = fileName path ∧
      pathOf name = some path := by
    intro name there
    obtain ⟨path, kept, rfl⟩ := (sound.named name).mp (Dict.mem_keys.mp there)
    exact ⟨path, kept, rfl, pathOf_plain (plain path (sound.used path kept))⟩
  constructor
  · have once : ((noted.store.dir.map Prod.fst).filterMap pathOf).Nodup := by
      have apart : (noted.store.dir.map Prod.fst).Pairwise fun name name' =>
          ∀ path ∈ pathOf name, ∀ path' ∈ pathOf name', path ≠ path' := by
        refine sound.distinct.imp_of_mem fun {name name'} there there' differ => ?_
        obtain ⟨first, -, rfl, read⟩ := paths name there
        obtain ⟨second, -, rfl, read'⟩ := paths name' there'
        rw [read, read']
        rintro _ ⟨⟩ _ ⟨⟩ rfl
        exact differ rfl
      exact List.Pairwise.filterMap pathOf (fun _ _ differ => differ) apart
    exact (List.perm_insertionSort _ _).nodup_iff.mpr (once.filter _)
  · intro path
    rw [mem_list]
    refine and_congr_left fun _ => ?_
    constructor
    · rintro ⟨name, there, read⟩
      obtain ⟨path', kept, -, read'⟩ := paths name (Dict.mem_keys.mpr there)
      rw [read] at read'
      cases read'
      exact kept
    · intro kept
      exact ⟨fileName path, (sound.named _).mpr ⟨path, kept, rfl⟩, pathOf_plain (plain path (sound.used path kept))⟩

theorem independent (plain : ∀ path ∈ used, Plain path) (noted : Noted) : Independent used noted := by
  intro op uses path member differ
  have apart : fileName path ≠ fileName op.path := fun same =>
    differ (fileName_inj (plain path member) (plain op.path uses) same)
  exact get_congr ((after_does noted op).other apart (fileName_ne_tmp path op.path))

/-- The paths that a call takes. -/
structure Accepted (path : String) : Prop where
  safe : safe path = .ok path
  named : opens (fileName path) = .ok ()
  beside : opens (fileName path ++ ".tmp") = .ok ()

theorem Accepted.file {path : String} (accepted : Accepted path) : file path = .ok (fileName path) := by
  rw [VarFiles.file, accepted.safe]
  rfl

/-- A put on an accepted path, by a client that may write anywhere, that names no index. -/
theorem put_accepted {path : String} (accepted : Accepted path) (store : VarFiles) (items : Dict Value) :
    ∃ idx d, store.put {} path items none = (.ok idx, ⟨((store.dir.set (fileName path ++ ".tmp") d).pop
      (fileName path ++ ".tmp")).set (fileName path) d, some idx⟩) := by
  obtain ⟨error, index, failed⟩ | done := put_cases {} store path items none
  · have stands : store.current path none = .ok () := by
      rw [VarFiles.current, VarFiles.get, accepted.file]
      simp only [Bind.bind, Except.bind, accepted.named]
      cases store.dir.get? (fileName path) <;> rfl
    have allowed : View.forbids {} path = none := rfl
    simp only [VarFiles.put, allowed, stands, VarFiles.replace, accepted.beside] at failed
    cases failed
  · exact done

/-- However the calls follow one another: they are independent and the listings exact if and only if no path in use
holds the text of a slash. -/
theorem keys_independent_iff (used : Set String) (accepted : ∀ path ∈ used, Accepted path) :
    (∀ ops : List Op, (∀ op ∈ ops, op.path ∈ used) → Independent used (run ops) ∧ Lists (run ops)) ↔
      ∀ path ∈ used, ¬ "%2F".toList <:+: path.toList := by
  constructor
  · intro claim path member there
    -- put it: what is listed is another path
    have listed := ((claim [.put {} path [] none] (by simpa [Op.path] using member)).2 "").2 path
    obtain ⟨idx, d, done⟩ := put_accepted (accepted path member) empty []
    have state : run [.put {} path [] none] = ⟨⟨[(fileName path, d)], some idx⟩, [path]⟩ := by
      show Noted.after ⟨empty, []⟩ (.put {} path [] none) = _
      rw [Noted.after, done]
      simp [empty, Dict.set, Dict.pop]
    rw [state, mem_list] at listed
    obtain ⟨⟨name, there', read⟩, -⟩ := listed.mpr ⟨.head _, List.nil_prefix⟩
    rw [Dict.get?_cons] at there'
    split at there'
    next same =>
      rw [← same, pathOf_fileName, Option.some.injEq] at read
      have back := congrArg String.toList read
      rw [String.toList_ofList, unescape_eq_self] at back
      exact back there
    next => cases there'
  · intro plain ops uses
    exact ⟨independent plain _, (sound_run plain ops uses).lists plain⟩

/-! ## The rows that the files show -/

/-- The paths of these keys may be told apart by their files. -/
structure Usable (keys : Set Key) : Prop where
  accepted : ∀ key ∈ keys, Accepted key.path
  plain : ∀ key ∈ keys, Plain key.path
  differ : ∀ key ∈ keys, ∀ key' ∈ keys, key.path = key'.path → key = key'

/-- The files are those of the rows. -/
structure Shows (keys : Set Key) (store : VarFiles) (rows : Rows) : Prop where
  row : ∀ key ∈ keys, (store.dir.get? (fileName key.path)).map (fun d => (d.items, d.index)) = rows.row key
  index : store.index.getD 1000 = rows.index

variable {keys : Set Key} {store : VarFiles} {rows : Rows} {key : Key}

theorem Accepted.refuses (accepted : Accepted key.path) : FileVariables.refuses key = false := by
  have passes := accepted.safe
  unfold VarFiles.safe at passes
  split at passes
  · cases passes
  next allowed => simpa [FileVariables.refuses] using allowed

theorem Shows.get (usable : Usable keys) (shows_ : Shows keys store rows) (member : key ∈ keys) :
    store.get key.path = (FileVariables.get rows key).mapError Fault.exn := by
  have row := shows_.row key member
  rw [VarFiles.get, (usable.accepted key member).file, FileVariables.get, (usable.accepted key member).refuses]
  simp only [Bind.bind, Except.bind, (usable.accepted key member).named]
  cases there : store.dir.get? (fileName key.path) with
  | none =>
    rw [there] at row
    simp only [Versioned.read, Versioned.version, ← row]
    rfl
  | some d =>
    rw [there] at row
    simp only [Versioned.read, Versioned.version, ← row]
    rfl

theorem Shows.current (usable : Usable keys) (shows_ : Shows keys store rows) (member : key ∈ keys) (cas : Option Nat) :
    store.current key.path cas =
      if rows.Matches key cas then .ok () else .error (conflict key.path (cas.getD 0) (rows.version key)) := by
  have answered : store.get key.path = .ok (rows.read key, rows.version key) := by
    rw [shows_.get usable member, FileVariables.get, (usable.accepted key member).refuses]
    rfl
  rw [VarFiles.current, answered]
  simp only [Bind.bind, Except.bind]
  cases cas with
  | none =>
    rw [if_pos (by simp [Versioned.Matches])]
    rfl
  | some expected =>
    dsimp only
    by_cases same : expected = rows.version key
    · rw [if_neg (not_not.mpr same), if_pos (by simpa [Versioned.Matches] using same)]
      rfl
    · rw [if_pos same, if_neg (by simpa [Versioned.Matches] using same)]
      rfl

theorem Shows.write (usable : Usable keys) (shows_ : Shows keys store rows) (member : key ∈ keys) (items : Items) :
    Shows keys ⟨((store.dir.set (fileName key.path ++ ".tmp") ⟨items, rows.index + 1⟩).pop
      (fileName key.path ++ ".tmp")).set (fileName key.path) ⟨items, rows.index + 1⟩, some (rows.index + 1)⟩
      (rows.write key items) where
  index := rfl
  row other there := by
    by_cases same : other = key
    · subst same
      simp [Versioned.write]
    · have apart : fileName other.path ≠ fileName key.path := fun equal =>
        same (usable.differ other there key member (fileName_inj (usable.plain other there) (usable.plain key member) equal))
      have tmp := fileName_ne_tmp other.path key.path
      rw [Dict.get?_set_other _ _ apart, Dict.get?_pop_other _ tmp, Dict.get?_set_other _ _ tmp,
        shows_.row other there]
      simp [Versioned.write, same]

theorem Shows.remove (usable : Usable keys) (shows_ : Shows keys store rows) (member : key ∈ keys) :
    Shows keys ⟨store.dir.pop (fileName key.path), some (rows.index + 1)⟩ (rows.remove key) where
  index := rfl
  row other there := by
    by_cases same : other = key
    · subst same
      simp [Versioned.remove]
    · have apart : fileName other.path ≠ fileName key.path := fun equal =>
        same (usable.differ other there key member (fileName_inj (usable.plain other there) (usable.plain key member) equal))
      rw [Dict.get?_pop_other _ apart, shows_.row other there]
      simp [Versioned.remove, same]

/-- A put does to the files what the store of rows does to its rows. -/
theorem Shows.put (usable : Usable keys) (shows_ : Shows keys store rows) (member : key ∈ keys) (view : View)
    (items : Dict Value) (cas : Option Nat) :
    (store.put view key.path items cas).1 = (FileVariables.put view rows key items cas).1.mapError Fault.exn ∧
      Shows keys (store.put view key.path items cas).2 (FileVariables.put view rows key items cas).2 := by
  unfold VarFiles.put FileVariables.put
  cases view.forbids key.path with
  | some message => exact ⟨rfl, shows_⟩
  | none =>
    have allowed := (usable.accepted key member).refuses
    simp only [shows_.current usable member, FileVariables.get, allowed, Bool.false_eq_true, if_false]
    have written := shows_.write usable member (stored items)
    by_cases stands : rows.Matches key cas
    · rw [if_pos stands]
      simp only [nextIndex, shows_.index, VarFiles.replace, (usable.accepted key member).beside]
      cases cas with
      | none => exact ⟨rfl, written⟩
      | some expected =>
        have same : expected = rows.version key := stands expected rfl
        simp only [same, ne_eq, not_true_eq_false, if_false]
        exact ⟨rfl, written⟩
    · rw [if_neg stands]
      cases cas with
      | none => exact absurd (by simp [Versioned.Matches]) stands
      | some expected =>
        have other : expected ≠ rows.version key := fun same => stands (by simpa [Versioned.Matches] using same)
        simp only [other, ne_eq, not_false_eq_true, if_true]
        exact ⟨rfl, shows_⟩

theorem Shows.delete (usable : Usable keys) (shows_ : Shows keys store rows) (member : key ∈ keys) (cas : Option Nat) :
    (store.delete key.path cas).1 = (FileVariables.delete rows key cas).1.mapError Fault.exn ∧
      Shows keys (store.delete key.path cas).2 (FileVariables.delete rows key cas).2 := by
  unfold VarFiles.delete FileVariables.delete
  have allowed := (usable.accepted key member).refuses
  simp only [shows_.current usable member, FileVariables.get, allowed, Bool.false_eq_true, if_false]
  have removed := shows_.remove usable member
  by_cases stands : rows.Matches key cas
  · rw [if_pos stands]
    simp only [nextIndex, shows_.index]
    cases cas with
    | none => exact ⟨rfl, removed⟩
    | some expected =>
      have same : expected = rows.version key := stands expected rfl
      simp only [same, ne_eq, not_true_eq_false, if_false]
      exact ⟨rfl, removed⟩
  · rw [if_neg stands]
    cases cas with
    | none => exact absurd (by simp [Versioned.Matches]) stands
    | some expected =>
      have other : expected ≠ rows.version key := fun same => stands (by simpa [Versioned.Matches] using same)
      simp only [other, ne_eq, not_false_eq_true, if_true]
      exact ⟨rfl, shows_⟩

/-! ## Two paths and one file -/

instance (path : String) : Decidable (Accepted path) :=
  decidable_of_iff (((safe path).toOption = some path ∧ (opens (fileName path)).toOption.isSome) ∧
    (opens (fileName path ++ ".tmp")).toOption.isSome) <| by
    constructor
    · rintro ⟨⟨safe_, named⟩, beside⟩
      refine ⟨?_, ?_, ?_⟩
      · cases done : safe path <;> simp_all [Except.toOption]
      · cases done : opens (fileName path) <;> simp_all [Except.toOption]
      · cases done : opens (fileName path ++ ".tmp") <;> simp_all [Except.toOption]
    · intro accepted
      simp [accepted.safe, accepted.named, accepted.beside, Except.toOption]

/-- The counter, which a client may also call `vms%2Fnext_id`. -/
def putCounter : Op := .put {} "vms/next_id" [("n", .int 1)] none

theorem keys_independent_plain :
    Independent {"vms/next_id", "vms/cameras/1"} (run [putCounter]) ∧ Lists (run [putCounter]) :=
  (keys_independent_iff {"vms/next_id", "vms/cameras/1"} (by
    rintro path (rfl | rfl)
    · decide +kernel
    · decide +kernel)).mpr (by
    rintro path (rfl | rfl)
    · decide
    · decide) [putCounter] (by simp [putCounter, Op.path])

/-- A put of one path makes a row appear at another. -/
theorem keys_share_a_file : ¬ ∀ ops : List Op, (∀ op ∈ ops, Accepted op.path) →
    (∀ op : Op, Accepted op.path → ∀ path, Accepted path → path ≠ op.path →
      ((run ops).after op).store.get path = (run ops).store.get path) ∧ Lists (run ops) := by
  intro claim
  have kept := (claim [] nofun).1 putCounter (by decide +kernel) "vms%2Fnext_id" (by decide +kernel) (by decide)
  have first : ((run []).store.get "vms%2Fnext_id").toOption.map Prod.snd = some 0 := by decide +kernel
  have second : (((run []).after putCounter).store.get "vms%2Fnext_id").toOption.map Prod.snd = some 1001 := by
    decide +kernel
  rw [kept, first] at second
  cases second

end EdgeVms.Verified.VarFileKeys
