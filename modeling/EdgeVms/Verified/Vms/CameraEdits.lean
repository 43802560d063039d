import EdgeVms.Verified.Platform.Alone
import EdgeVms.Verified.Vms.CameraRow
import EdgeVms.Verified.Vms.Calls

/-! # Editing cameras

`create_camera` and `update_camera`, alone with the store.  A creation never
leaves a row that does not decode; an update does when it is given a number
whose text `int` refuses, and then raises with the row already written.
-/

namespace EdgeVms.Verified

open Process Python Platform Vms VmsController

variable {ι M : Type} [DecidableEq ι] {view : View} {i : ι} {world world' : World ι M}

/-- A row of a camera. -/
def OfCamera (key : Key) : Prop := camerasKey <+: key ∧ key ≠ camerasKey

/-- Every camera row decodes. -/
def CamerasDecode (rows : Rows) : Prop := ∀ key, OfCamera key → ∀ texts, rows.read key = some texts → Decodes texts

/-- Every camera row is exactly as it was. -/
def CamerasKept (rows rows' : Rows) : Prop := ∀ key, OfCamera key → rows'.row key = rows.row key

/-- The rows decode after a call, and a call that raises has left them as they were. -/
def Sound (rows : Rows) (result : Except Exn (Dict Value)) (rows' : Rows) : Prop :=
  CamerasDecode rows' ∧ ∀ error, result = .error error → CamerasKept rows rows'

/-- The client may write every row of the subsystem. -/
def Controls (view : View) : Prop := ∀ parts, parts ≠ [] → view.forbids (vms.config parts).path = none

/-- The ACL that the platform gives a controller. -/
theorem controls_acl (writer : String) : Controls ⟨some writer, [(writer, ["vms/*"])]⟩ := by
  intro parts more
  have under : "vms/".toList <+: (vms.config parts).path.toList := by
    rw [Key.path, Subsystem.config, toList_join_cons more]
    exact ⟨(join '/' parts).toList, rfl⟩
  have covered : View.covers "vms/*" (vms.config parts).path = true := by
    have star : "vms/*".toList.getLast? = some '*' ∧ "vms/*".toList.dropLast = "vms/".toList := by decide
    simp only [View.covers, star.1, star.2, List.isPrefixOf_iff_prefix.mpr under, decide_true, Bool.and_self,
      Bool.or_true]
  simp [View.forbids, Dict.getD, Dict.get?_cons, covered]

theorem config_clear {parts : List String} (plain : ∀ part ∈ parts, '.' ∉ part.toList) :
    FileVariables.refuses (vms.config parts) = false := by
  have dotless : '.' ∉ (vms.config parts).path.toList := by
    intro member
    obtain separator | ⟨part, inside, there⟩ := mem_join member
    · exact absurd separator (by decide)
    · obtain rfl | inside := List.mem_cons.mp inside
      · exact absurd there (by decide)
      · exact plain part inside there
  have relative : (vms.config parts).path.toList.head? ≠ some '/' := by
    rw [Key.path, Subsystem.config]
    cases parts with
    | nil => decide
    | cons part rest =>
      rw [toList_join_cons (by simp)]
      simp [vms]
  have updots : ¬ "..".toList <:+: (vms.config parts).path.toList := fun inside =>
    dotless (inside.subset (by decide))
  simp only [FileVariables.refuses, updots, relative, decide_false, Bool.or_self]

theorem cameraKey_clear (cid : Int) : FileVariables.refuses (cameraKey (toString cid)) = false := by
  apply config_clear
  simp only [List.forall_mem_cons]
  exact ⟨by decide, not_mem_toString (by decide) (by decide) cid, by simp⟩

theorem retentionKey_clear (cid : Int) : FileVariables.refuses (retentionKey cid) = false := by
  apply config_clear
  simp only [List.forall_mem_cons]
  exact ⟨by decide, not_mem_toString (by decide) (by decide) cid, by simp⟩

theorem not_ofCamera_retention (cid : Int) : ¬ OfCamera (retentionKey cid) := by
  simp [OfCamera, camerasKey, retentionKey, Subsystem.config]

theorem not_ofCamera_nextId : ¬ OfCamera (vms.config ["next_id"]) := by
  simp [OfCamera, camerasKey, Subsystem.config]

theorem ofCamera_cameraKey (unit : String) : OfCamera (cameraKey unit) := by
  simp [OfCamera, camerasKey, cameraKey, Subsystem.config]

theorem CamerasKept.refl (rows : Rows) : CamerasKept rows rows := fun _ _ => rfl

theorem CamerasKept.decode_iff {rows rows' : Rows} (kept : CamerasKept rows rows') :
    CamerasDecode rows' ↔ CamerasDecode rows := by
  have same : ∀ key, OfCamera key → rows'.read key = rows.read key := by
    intro key camera
    rw [Versioned.read, Versioned.read, kept key camera]
  constructor
  · intro decode key camera texts found
    exact decode key camera texts ((same key camera).trans found)
  · intro decode key camera texts found
    exact decode key camera texts ((same key camera).symm.trans found)

theorem CamerasKept.sound {rows rows' : Rows} {result : Except Exn (Dict Value)} (kept : CamerasKept rows rows')
    (decode : CamerasDecode rows) : Sound rows result rows' := ⟨kept.decode_iff.mpr decode, fun _ _ => kept⟩

theorem CamerasKept.write (rows : Rows) {path : Key} (other : ¬ OfCamera path) (texts : Items) :
    CamerasKept rows (rows.write path texts) := by
  intro key camera
  apply Function.update_of_ne
  rintro rfl
  exact other camera

/-- A camera row that is written anew: the rows decode if and only if that one does. -/
theorem camerasDecode_write {rows : Rows} {unit : String} {texts : Items} (decode : CamerasDecode rows) :
    CamerasDecode (rows.write (cameraKey unit) texts) ↔ Decodes texts := by
  constructor
  · intro after
    exact after _ (ofCamera_cameraKey unit) texts (Versioned.read_write_self _ _ _)
  · intro new key camera texts' found
    by_cases same : key = cameraKey unit
    · subst same
      rw [Versioned.read_write_self] at found
      cases found
      exact new
    · rw [Versioned.read_write_other _ _ same] at found
      exact decode key camera texts' found

/-- Writing another row, to its end or not, keeps the cameras. -/
theorem write_keeps {path : Key} {mutate : Dict Value → Program M (Option (Dict Value))}
    {result : Except Exn (Dict Value)} (other : ¬ OfCamera path) (reads : ∀ items, ReadsOnly (mutate items))
    (outcome : Outcome view i (Controller.write path mutate) world result world') :
    CamerasKept world.vars world'.vars := by
  cases result with
  | error error =>
    rw [outcome.write_error reads]
    exact CamerasKept.refl _
  | ok value =>
    obtain ⟨new, middle, waits, -, rest⟩ := Ends.write_inv reads outcome
    cases new with
    | none =>
      obtain ⟨-, rfl⟩ := rest
      rw [waits.1]
      exact CamerasKept.refl _
    | some new =>
      obtain ⟨-, rfl⟩ := rest
      exact CamerasKept.write _ other _

theorem retention_ends (controls : Controls view) (cid days : Int) (world : World ι M) :
    ∃ world', Ends view i (retention cid (some days)) world () world' ∧ CamerasKept world.vars world'.vars := by
  let news (it : Dict Value) : Program M (Option (Dict Value)) :=
    Proc.ret (if (it.getD "days" .none).equals (toString days) then none else some [("days", .int days)])
  obtain ⟨world', ends, -⟩ := @Ends.write_ret ι M _ view i world (retentionKey cid) news _ rfl
    (retentionKey_clear cid) (controls ["retention", toString cid] (by simp))
  have whole : Ends view i (retention cid (some days)) world () world' := Ends.bind ends rfl
  have reads : ∀ it, ReadsOnly (news it) := fun _ => trivial
  exact ⟨world', whole, write_keeps (not_ofCamera_retention cid) reads ends⟩

/-! ## Creating -/

theorem newRow_ok {cid : Int} {source : Value} {fields r : Dict Value} (made : newRow cid source fields = .ok r) :
    (∃ days, eventsRetention r = .ok days) ∧ ∀ new, items r = .ok new → Decodes (stored new) := by
  simp only [newRow, bind_eq_ok] at made
  obtain ⟨retention, -, events, -, priority, -, labels, -, ends⟩ := made
  cases ends
  refine ⟨⟨events, rfl⟩, fun new texts => ?_⟩
  simp only [items, Dict.item, bind_eq_ok] at texts
  obtain ⟨_, first, _, second, _, third, _, fourth, _, fifth, _, sixth, joined, _, ends⟩ := texts
  cases ends
  cases first
  cases fifth
  cases sixth
  have int : ∀ n : Int, TextParses (.int n) := fun n => ⟨n, by simp⟩
  apply decodes_stored_iff.mpr
  simp only [numberFields, List.forall_mem_cons]
  simp [Dict.get?_cons, Dict.getD, int]

theorem nextId_keeps {result : Except Exn Int} (outcome : Outcome view i nextId world result world') :
    CamerasKept world.vars world'.vars := by
  let counted (it : Dict Value) : Program M (Option (Dict Value)) := do
    let n ← Program.value (it.getD "n" (.int 0)).toInt
    return some [("n", .int (n + 1))]
  have reads : ∀ it, ReadsOnly (counted it) := fun it => ReadsOnly.bind (ReadsOnly.value _) fun _ => trivial
  obtain ⟨error, -, raised⟩ | ⟨new, middle, ends, later⟩ := Outcome.bind_inv outcome
  · exact write_keeps not_ofCamera_nextId reads raised
  · have kept := write_keeps not_ofCamera_nextId reads ends
    rw [later.waited (ReadsOnly.value _)]
    exact kept

/-- Whatever is asked, a creation leaves rows that decode, and leaves them alone when it raises. -/
theorem createCamera_sound (controls : Controls view) {fields : Dict Value} {result : Except Exn (Dict Value)}
    (decode : CamerasDecode world.vars) (outcome : Outcome view i (createCamera fields) world result world') :
    Sound world.vars result world'.vars := by
  obtain ⟨_, -, -, rfl⟩ | ⟨_, -, outcome⟩ := Outcome.ofExcept_inv outcome
  · exact (CamerasKept.refl _).sound decode
  dsimp only at outcome
  split at outcome
  · obtain ⟨-, rfl⟩ := Outcome.raise_inv outcome
    exact (CamerasKept.refl _).sound decode
  obtain ⟨_, -, raised⟩ | ⟨cid, counted, ends, outcome⟩ := Outcome.bind_inv outcome
  · exact (nextId_keeps raised).sound decode
  have kept := nextId_keeps ends
  obtain ⟨_, -, -, rfl⟩ | ⟨r, made, outcome⟩ := Outcome.value_inv outcome
  · exact kept.sound decode
  obtain ⟨_, -, -, rfl⟩ | ⟨texts, joined, outcome⟩ := Outcome.value_inv outcome
  · exact kept.sound decode
  obtain ⟨⟨days, read⟩, decodes⟩ := newRow_ok made
  obtain ⟨-, same⟩ | ⟨index, put, written, outcome⟩ := Outcome.put_inv outcome
  · -- the id is taken, or the store refuses
    apply CamerasKept.sound _ decode
    rw [same]
    exact kept
  · obtain ⟨after, ends, kept'⟩ := retention_ends (i := i) controls cid days put
    obtain ⟨_, fails, -⟩ | ⟨days', same, outcome⟩ := Outcome.value_inv outcome
    · rw [read] at fails
      cases fails
    · rw [read] at same
      cases same
      have returned := ends.rest outcome
      obtain ⟨rfl, rfl⟩ := Outcome.ret_inv returned
      have decode' : CamerasDecode put.vars := by
        rw [written]
        exact (camerasDecode_write (kept.decode_iff.mpr decode)).mpr (decodes texts joined)
      exact ⟨kept'.decode_iff.mpr decode', by simp⟩

/-! ## Updating -/

/-- What comes after the write of an update: a raise, exactly when the new items do not decode. -/
theorem updateCamera_rest (controls : Controls view) {cid : Int} {fields new : Dict Value}
    {result : Except Exn (Dict Value)}
    (outcome : Outcome view i (do
      let r ← Program.value (row new)
      if (fields.get? "events_retention_days").isSome then
        retention cid (some (← Program.value (eventsRetention r)))
      return r) world result world') :
    CamerasKept world.vars world'.vars ∧ ((∃ r, row new = .ok r) → ∃ r, result = .ok r) := by
  obtain ⟨error, fails, -, rfl⟩ | ⟨r, decoded, outcome⟩ := Outcome.value_inv outcome
  · refine ⟨CamerasKept.refl _, ?_⟩
    rintro ⟨r, decoded⟩
    rw [fails] at decoded
    cases decoded
  obtain ⟨id, name, source, enabled, retention, events, priority, revision, labels, rfl⟩ := row_shape decoded
  split at outcome
  · obtain ⟨after, ends, kept⟩ := retention_ends (i := i) controls cid events world
    have returned := ends.rest outcome
    obtain ⟨rfl, rfl⟩ := Outcome.ret_inv returned
    exact ⟨kept, fun _ => ⟨_, rfl⟩⟩
  · obtain ⟨rfl, rfl⟩ := Outcome.ret_inv outcome
    exact ⟨CamerasKept.refl _, fun _ => ⟨_, rfl⟩⟩

/-- An update that raises before its write leaves the rows alone. -/
theorem updateCamera_unwritten {cid : Int} {fields : Dict Value} {result : Except Exn (Dict Value)} {error : Error}
    (raises : updated cid fields (rowValues (world.vars.read (cameraKey (toString cid)))) = .error error)
    (outcome : Outcome view i (updateCamera cid fields) world result world') : world'.vars = world.vars := by
  obtain ⟨_, -, -, rfl⟩ | ⟨_, -, outcome⟩ := Outcome.ofExcept_inv outcome
  · rfl
  let mutate (it : Dict Value) : Program M (Option (Dict Value)) := some <$> Program.value (updated cid fields it)
  have reads : ∀ it, ReadsOnly (mutate it) := fun it => ReadsOnly.map (ReadsOnly.value _)
  obtain ⟨_, -, raised⟩ | ⟨new, middle, ends, -⟩ := Outcome.bind_inv outcome
  · exact raised.write_error reads
  · obtain ⟨new, _, -, mutated, -⟩ := Ends.write_inv reads ends
    obtain ⟨_, _, made, -⟩ := Ends.bind_inv mutated
    obtain ⟨same, -⟩ := Ends.value_inv made
    rw [raises] at same
    cases same

theorem updated_absent {cid : Int} {fields it : Dict Value} (absent : ¬ Present it) :
    updated cid fields it = .error (.keyError (toString cid)) := by
  have gone : (it.isEmpty || (it.getD "deleted" .none).equals "true") = true := by
    by_contra there
    rw [Bool.not_eq_true, Bool.or_eq_false_iff] at there
    exact absent there
  simp only [updated, gone, if_true]
  rfl

theorem decodes_of_present {rows : Rows} {cid : Int} (decode : CamerasDecode rows)
    (present : Present (rowValues (rows.read (cameraKey (toString cid))))) :
    ∃ r, row (rowValues (rows.read (cameraKey (toString cid)))) = .ok r := by
  cases found : rows.read (cameraKey (toString cid)) with
  | none =>
    rw [found] at present
    exact absurd present.1 (by decide)
  | some texts => exact decode _ (ofCamera_cameraKey _) texts found

/-- An update that reaches its write is sound exactly when the numbers it is given decode again. -/
theorem updateCamera_written (controls : Controls view) {cid : Int} {fields new : Dict Value}
    {result : Except Exn (Dict Value)} (accepted : refuse fields = .ok ()) (decode : CamerasDecode world.vars)
    (writes : updated cid fields (rowValues (world.vars.read (cameraKey (toString cid)))) = .ok new)
    (written : Updated fields new) (outcome : Outcome view i (updateCamera cid fields) world result world') :
    Sound world.vars result world'.vars ↔ NumbersDecode fields := by
  let mutate (it : Dict Value) : Program M (Option (Dict Value)) := some <$> Program.value (updated cid fields it)
  have mutated : mutate (rowValues (world.vars.read (cameraKey (toString cid)))) = Proc.ret (some new) := by
    simp only [mutate, writes]
    rfl
  obtain ⟨put, ends, rows⟩ := @Ends.write_ret ι M _ view i world (cameraKey (toString cid)) mutate (some new) mutated
    (cameraKey_clear cid) (controls ["cameras", toString cid] (by simp))
  unfold updateCamera at outcome
  rw [accepted] at outcome
  have after := ends.rest outcome
  obtain ⟨kept, returns⟩ := updateCamera_rest controls after
  have decodes : CamerasDecode world'.vars ↔ NumbersDecode fields := by
    rw [kept.decode_iff, rows, camerasDecode_write decode, written.decodes_iff]
  constructor
  · intro sound
    exact decodes.mp sound.1
  · intro numbers
    refine ⟨decodes.mpr numbers, fun error raised => ?_⟩
    obtain ⟨r, returned⟩ := returns (written.row_ok numbers)
    rw [raised] at returned
    cases returned

/-- Is every camera row still decodable, and untouched if the update raised?  Unless the update is
refused before it writes, exactly when `int` accepts the text of every number it is given. -/
theorem updateCamera_sound_iff (controls : Controls view) {cid : Int} {fields : Dict Value}
    {result : Except Exn (Dict Value)} (distinct : (fields.map Prod.fst).Nodup) (decode : CamerasDecode world.vars)
    (outcome : Outcome view i (updateCamera cid fields) world result world') :
    Sound world.vars result world'.vars ↔
      refuse fields ≠ .ok () ∨ ¬ Present (rowValues (world.vars.read (cameraKey (toString cid)))) ∨
        ¬ LabelsJoin fields ∨ NumbersDecode fields := by
  have unwritten : world'.vars = world.vars → Sound world.vars result world'.vars := by
    intro same
    rw [same]
    exact (CamerasKept.refl _).sound decode
  by_cases accepted : refuse fields = .ok ()
  case neg =>
    refine iff_of_true (unwritten ?_) (.inl accepted)
    obtain ⟨_, -, -, rfl⟩ | ⟨value, same, -⟩ := Outcome.ofExcept_inv outcome
    · rfl
    · exact absurd same accepted
  by_cases present : Present (rowValues (world.vars.read (cameraKey (toString cid))))
  case neg =>
    exact iff_of_true (unwritten (updateCamera_unwritten (updated_absent present) outcome)) (.inr (.inl present))
  obtain ⟨scattered, error, raises⟩ | ⟨join, new, writes, written⟩ :=
    @updated_cases cid fields _ accepted distinct (decodes_of_present decode present) present
  · exact iff_of_true (unwritten (updateCamera_unwritten raises outcome)) (.inr (.inr (.inl scattered)))
  · rw [updateCamera_written controls accepted decode writes written outcome]
    constructor
    · exact fun numbers => .inr (.inr (.inr numbers))
    · rintro (refused | absent | scattered | numbers)
      · exact absurd accepted refused
      · exact absurd present absent
      · exact absurd join scattered
      · exact numbers

/-! ## Both calls -/

/-- An edit of the camera rows. -/
inductive Edit where
  | create (fields : Dict Value)
  | update (cid : Int) (fields : Dict Value)

namespace Edit

def fields : Edit → Dict Value
  | create fields | update _ fields => fields

def program : Edit → Program M (Dict Value)
  | create fields => createCamera fields
  | update cid fields => updateCamera cid fields

/-- A creation; or an update that stops before its write, or whose numbers decode again. -/
def Harmless (rows : Rows) : Edit → Prop
  | create _ => True
  | update cid fields => refuse fields ≠ .ok () ∨ ¬ Present (rowValues (rows.read (cameraKey (toString cid)))) ∨
      ¬ LabelsJoin fields ∨ NumbersDecode fields

end Edit

/-- The controller's client. -/
def controllerView : View := ⟨some "vmscontroller", [("vmscontroller", ["vms/*"])]⟩

def edited (edit : Edit) (world : World Unit Unit) : Except Exn (Dict Value) × World Unit Unit :=
  edit.program.run (handler FileVariables controllerView ()) world

theorem edited_outcome (edit : Edit) (world : World Unit Unit) :
    Outcome controllerView () edit.program world (edited edit world).1 (edited edit world).2 := rfl

def gateCamera : Edit := .create [("source", .str (.plain "driverpack://file/gate"))]

def oneCamera : World Unit Unit := (edited gateCamera (freshWorld Unit)).2

theorem oneCamera_decodes : CamerasDecode oneCamera.vars := by
  have empty : CamerasDecode (freshWorld Unit).vars := by
    intro key _ texts found
    cases found
  have sound := createCamera_sound (controls_acl "vmscontroller") empty (edited_outcome gateCamera (freshWorld Unit))
  unfold oneCamera
  exact sound.1

def keepDays (days : String) : Edit := .update 1 [("retention_days", .str (.plain days))]

theorem keepDays_harmless_iff (days : String) : (keepDays days).Harmless oneCamera.vars ↔ (pyInt days).isSome := by
  have present : Present (rowValues (oneCamera.vars.read (cameraKey (toString (1 : Int))))) :=
    ⟨by decide +kernel, by decide +kernel⟩
  have join : LabelsJoin [("retention_days", .str (.plain days))] := by
    intro labels given
    simp [Dict.get?_cons] at given
  have text : TextParses (.str (.plain days)) ↔ (pyInt days).isSome := by
    cases read : pyInt days <;> simp [TextParses, Text.toInt, read]
  have numbers : NumbersDecode [("retention_days", .str (.plain days))] ↔ (pyInt days).isSome := by
    rw [← text]
    simp [NumbersDecode, operatorNumbers, Dict.get?_cons]
  rw [← numbers]
  constructor
  · rintro (refused | absent | scattered | numbers)
    · exact absurd rfl refused
    · exact absurd present absent
    · exact absurd join scattered
    · exact numbers
  · exact fun numbers => .inr (.inr (.inr numbers))

end EdgeVms.Verified
