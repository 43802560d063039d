import EdgeVms.Verified.Platform.Commits
import EdgeVms.Verified.Vms.CameraEdits
import EdgeVms.Verified.Vms.EnsurePlaced
import EdgeVms.Verified.Vms.RetentionRows

/-! # Deleted cameras, and the ids of new ones

An update that read a camera before it was deleted names a version that no longer
stands, and reads the tombstone when it tries again.  A creation writes over nothing,
so the log has one creator for each id.
-/

namespace EdgeVms.Verified.Tombstones

open Process Python Platform Vms VmsController RetentionRows

variable {ι M α : Type}

/-- There is a tombstone under the key. -/
def Gone (rows : Rows) (key : Key) : Prop := isDeleted (rowValues (rows.read key)) = true

instance (rows : Rows) (key : Key) : Decidable (Gone rows key) := inferInstanceAs (Decidable (_ = true))

/-- A row that is not deleted is under its own id. -/
def Own (rows : Rows) : Prop :=
  ∀ key id, OfCamera key → liveId (rows.read key) = some id → key = cameraKey (toString id)

theorem Gone.dead {rows : Rows} {key : Key} (gone : Gone rows key) : liveId (rows.read key) = none := by
  unfold Gone at gone
  simp [liveId, gone]

/-- What every step does, whoever takes it. -/
structure Advances (state state' : Logged ι M) : Prop where
  rows : state.rows.Later state'.rows
  log : state.log <+: state'.log
  gone : ∀ key, OfCamera key → Gone state.rows key → Gone state'.rows key
  own : Own state.rows → Own state'.rows

namespace Advances

variable {state state' state'' : Logged ι M}

theorem refl (state : Logged ι M) : Advances state state := ⟨.refl _, List.prefix_rfl, fun _ _ => id, id⟩

theorem tick (state : Logged ι M) : Advances state state.tick := ⟨.refl _, List.prefix_rfl, fun _ _ => id, id⟩

theorem trans (first : Advances state state') (second : Advances state' state'') : Advances state state'' where
  rows := first.rows.trans second.rows
  log := first.log.trans second.log
  gone key camera there := second.gone key camera (first.gone key camera there)
  own holds := second.own (first.own holds)

/-- A write that keeps a tombstone a tombstone, and a row under its own id. -/
theorem commit {i : ι} {key : Key} {new : Dict Value}
    (gone : OfCamera key → Gone state.rows key → isDeleted (rowValues (some (stored new))) = true)
    (own : OfCamera key → Own state.rows → ∀ id, liveId (some (stored new)) = some id → key = cameraKey (toString id)) :
    Advances state (state.commit i key new) where
  rows := .write ..
  log := List.prefix_append ..
  gone key' camera there := by
    unfold Gone
    rw [Logged.rows_commit]
    by_cases same : key' = key
    · subst same
      rw [Versioned.read_write_self]
      exact gone camera there
    · rw [Versioned.read_write_other _ _ same]
      exact there
  own holds key' id camera live := by
    rw [Logged.rows_commit] at live
    by_cases same : key' = key
    · subst same
      rw [Versioned.read_write_self] at live
      exact own camera holds id live
    · rw [Versioned.read_write_other _ _ same] at live
      exact holds key' id camera live

/-- A write of another kind of row. -/
theorem aside {i : ι} {key : Key} {new : Dict Value} (other : ¬ OfCamera key) :
    Advances state (state.commit i key new) := commit (fun camera => absurd camera other)
      (fun camera => absurd camera other)

end Advances

/-! ## A call among others -/

variable [DecidableEq ι] {view : ι → View} {i : ι}

abbrev Safely (view : ι → View) (i : ι) (post : α → Logged ι M → Prop) (p : Program M α) (state : Logged ι M) : Prop :=
  Guarded view i Advances Advances post p state

theorem Safely.since {p : Program M α} {base state : Logged ι M} (reached : Advances base state)
    (safe : Safely view i (fun _ _ => True) p state) : Safely view i (fun _ state => Advances base state) p state := by
  have transitive (s s' s'' : Logged ι M) (first : Advances s s') (second : Advances s' s'') : Advances s s'' :=
    first.trans second
  refine Safe.mono (fun result state' ends => ?_) (Safe.since transitive reached safe)
  cases result with
  | error error => trivial
  | ok value => exact ends.2

theorem not_ofCamera_of_away {key : Key} (away : Away key) : ¬ OfCamera key := by
  intro camera
  have is := away.1
  simp only [isCameraKey, List.isPrefixOf_iff_prefix.mpr camera.1, camera.2, ne_eq, not_false_eq_true, decide_true,
    Bool.and_self, Bool.true_eq_false] at is

theorem elsewhere_safe {p : Program M α} (elsewhere : Elsewhere p) (state : Logged ι M) :
    Safely view i (fun _ _ => True) p state := by
  induction p generalizing state with
  | ret value | raise error => trivial
  | call label request next ih =>
    intro state' moved
    cases request with
    | get key => exact ⟨.tick state', ih _ (elsewhere.2 _) _⟩
    | put key items cas =>
      obtain ⟨error, answered⟩ | ⟨index, allowed, answered⟩ :=
        FileVariables.honest.put_cases (view i) state'.world.vars key items cas
      · simp only [logged, handler, answered, noteCommit]
        exact ⟨.tick state', ih _ (elsewhere.2 _) _⟩
      · simp only [logged, handler, answered, noteCommit]
        exact ⟨.aside (not_ofCamera_of_away elsewhere.1), ih _ (elsewhere.2 _) _⟩
    | remember change => exact ⟨⟨.refl _, List.prefix_rfl, fun _ _ => id, id⟩, ih _ (elsewhere _) _⟩
    | _ => exact ⟨.tick state', ih _ (elsewhere _) _⟩

/-- Read-modify-write, by a function of what is read. -/
theorem write_safe {path : Key} {mutate : Dict Value → Program M (Option (Dict Value))}
    {f : Dict Value → Except Exn (Option (Dict Value))} (pure : ∀ it, mutate it = Proc.ofExcept (f it))
    (writes : ∀ (state : Logged ι M) new, f (rowValues (state.rows.read path)) = .ok (some new) →
      Advances state (state.commit i path new)) (state : Logged ι M) :
    Safely view i (fun _ _ => True) (Controller.write path mutate) state := by
  have rounds : ∀ left state, Safely view i (fun _ _ => True) (Controller.writeRounds path mutate 10 left) state := by
    intro left
    induction left with
    | zero => exact fun _ => trivial
    | succ left ih =>
      intro state
      refine Guarded.get .tick fun read _ => ?_
      dsimp only
      rw [pure]
      cases made : f (rowValues (read.rows.read path)) with
      | error error => trivial
      | ok new =>
        cases new with
        | none => trivial
        | some new =>
          refine @Guarded.tryPut _ _ _ _ _ _ _ _ _ _ .tick _ _ _ (fun _ => new) _ (fun now index moved allowed => ?_)
            fun now error _ => ?_
          · have same : now.rows.read path = read.rows.read path := moved.rows.read_of_matches allowed
            exact ⟨writes now new (by rw [same, made]), trivial⟩
          · cases error with
            | conflict package message =>
              cases package with
              | vmsplatform => exact ih _
              | cluster => trivial
            | python error => trivial
            | forbidden package message => trivial
            | refused message => trivial
  exact rounds 10 state

theorem retention_safe (cid : Int) (days : Option Int) (state : Logged ι M) :
    Safely view i (fun _ _ => True) (retention cid days) state := by
  have writes (news : Dict Value → Option (Dict Value)) : Safely view i (fun _ _ => True)
      (Controller.write (retentionKey cid) fun it => Proc.ofExcept (.ok (news it))) state :=
    write_safe (fun _ => rfl) (fun _ _ _ => .aside (not_ofCamera_retention cid)) state
  cases days with
  | none =>
    have cleared := writes fun it => if it.isEmpty then none else some [("days", .int 0)]
    exact Guarded.bind cleared fun _ _ _ => trivial
  | some days =>
    have kept := writes fun it =>
      if (it.getD "days" .none).equals (toString days) then none else some [("days", .int days)]
    exact Guarded.bind kept fun _ _ _ => trivial

/-! ## The calls -/

theorem items_id {r new : Dict Value} {n : Int} (texts : items r = .ok new) (own : r.get? "id" = some (.int n)) :
    new.get? "id" = some (.int n) := by
  simp only [Vms.items, bind_eq_ok] at texts
  obtain ⟨first, found, _, -, _, -, _, -, _, -, _, -, _, -, ends⟩ := texts
  cases ends
  have same : first = .int n := by simpa [Dict.item, own] using found.symm
  rw [same]
  rfl

theorem liveId_stored {new : Dict Value} {n id : Int} (own : new.get? "id" = some (.int n))
    (live : liveId (some (stored new)) = some id) : id = n := by
  unfold liveId at live
  split at live
  · cases live
  · simpa [Dict.item, get?_rowValues, stored, own, Bind.bind, Except.bind, Value.toInt, eq_comm] using live

theorem newRow_id {cid : Int} {source : Value} {fields r : Dict Value} (made : newRow cid source fields = .ok r) :
    r.get? "id" = some (.int cid) := by
  simp only [newRow, bind_eq_ok] at made
  obtain ⟨_, -, _, -, _, -, _, -, ends⟩ := made
  cases ends
  rfl

/-- An operator names no id. -/
theorem refuse_id {fields : Dict Value} (allowed : refuse fields = .ok ()) : fields.get? "id" = none := by
  rw [← Option.not_isSome_iff_eq_none, ← Dict.mem_keys]
  intro named
  have bad : "id" ∈ (fields.map Prod.fst).filter (· ∈ forbiddenFields) :=
    List.mem_filter.mpr ⟨named, by decide⟩
  unfold refuse at allowed
  rw [if_pos] at allowed
  · cases allowed
  · cases found : (fields.map Prod.fst).filter (· ∈ forbiddenFields) with
    | nil => simp [found] at bad
    | cons first rest => rfl

/-- An update finds a live row, and leaves its id. -/
theorem updated_id {cid : Int} {fields it new : Dict Value} (named : fields.get? "id" = none)
    (made : updated cid fields it = .ok new) :
    ∃ n, (Dict.item it "id" >>= Value.toInt) = .ok n ∧ new.get? "id" = some (.int n) := by
  unfold updated at made
  split at made
  · cases made
  · simp only [bind_eq_ok] at made
    obtain ⟨r, decoded, _, -, revision, -, made⟩ := made
    simp only [row, bind_eq_ok] at decoded
    obtain ⟨value, found, n, parsed, _, -, _, -, _, -, _, -, _, -, ends⟩ := decoded
    cases ends
    refine ⟨n, by rw [found]; exact parsed, items_id made ?_⟩
    rw [Dict.get?_set_other _ _ (by decide), get?_merge_absent named]
    rfl

theorem updateCamera_safe (cid : Int) (fields : Dict Value) (state : Logged ι M) :
    Safely view i (fun _ _ => True) (updateCamera cid fields) state := by
  refine Guarded.ofExcept_bind fun _ allowed => ?_
  have pure (it : Dict Value) : (some <$> Program.value (updated cid fields it) : Program M _) =
      Proc.ofExcept ((some <$> updated cid fields it).mapError .python) := by
    cases updated cid fields it <;> rfl
  refine Guarded.bind (write_safe pure (fun state new made => ?_) state) fun written state' _ => ?_
  · have made' : updated cid fields (rowValues (state.rows.read (cameraKey (toString cid)))) = .ok new := by
      cases found : updated cid fields (rowValues (state.rows.read (cameraKey (toString cid)))) with
      | error error =>
        rw [found] at made
        cases made
      | ok new' =>
        rw [found] at made
        cases made
        rfl
    have rewrites := rewrites_of_updated made'
    obtain ⟨n, found, own⟩ := updated_id (refuse_id allowed) made'
    refine .commit (fun _ gone => ?_) fun camera holds id live => ?_
    · unfold Gone at gone
      rw [rewrites.stands] at gone
      cases gone
    · rw [liveId_stored own live]
      apply holds _ n camera
      unfold liveId
      rw [rewrites.there, rewrites.stands, found]
      rfl
  · refine Guarded.value_bind fun r _ => ?_
    split
    · exact Guarded.value_bind fun days _ => Guarded.bind (retention_safe cid (some days) _) fun _ _ _ => trivial
    · trivial

theorem deleteCamera_safe (cid : Int) (state : Logged ι M) :
    Safely view i (fun _ _ => True) (deleteCamera cid) state := by
  let news (it : Dict Value) : Option (Dict Value) :=
    if it.isEmpty then none else some (it.set "deleted" (.str (.plain "true")))
  have pure (it : Dict Value) : (return if it.isEmpty then none else some (it.set "deleted" (.str (.plain "true"))) :
      Program M _) = Proc.ofExcept (.ok (news it)) := rfl
  refine Guarded.bind (write_safe pure (fun state new made => ?_) state) fun _ state' _ => ?_
  · have dead : isDeleted (rowValues (some (stored new))) = true := by
      simp only [news, Except.ok.injEq] at made
      split at made
      · cases made
      · cases made
        simp [isDeleted, Dict.getD, get?_rowValues, stored, Value.equals]
    refine .commit (fun _ _ => dead) fun _ _ id live => ?_
    simp [liveId, dead] at live
  · refine Guarded.bind (retention_safe cid none state') fun _ state'' _ => ?_
    refine Guarded.bind (elsewhere_safe (Elsewhere.placement cid) _) fun placed _ _ => ?_
    cases placed with
    | none => trivial
    | some pl => exact elsewhere_safe (Elsewhere.unplace cid pl.worker.string) _

/-- Call `i` has created the camera. -/
def Created (log : List (Commit ι)) (i : ι) (cid : Int) : Prop := ∃ new, ⟨i, cameraKey (toString cid), none, new⟩ ∈ log

/-- What a creation returns, it has created. -/
def Creates (i : ι) (r : Dict Value) (state : Logged ι M) : Prop :=
  ∃ cid, r.get? "id" = some (.int cid) ∧ Created state.log i cid

omit [DecidableEq ι] in
theorem Creates.later {r : Dict Value} {state state' : Logged ι M} (creates : Creates i r state)
    (advances : Advances state state') : Creates i r state' := by
  obtain ⟨cid, own, new, member⟩ := creates
  exact ⟨cid, own, new, advances.log.subset member⟩

theorem createCamera_safe (fields : Dict Value) (state : Logged ι M) :
    Safely view i (Creates i) (createCamera fields) state := by
  refine Guarded.ofExcept_bind fun _ _ => ?_
  dsimp only
  split
  · trivial
  refine Guarded.bind (elsewhere_safe Elsewhere.nextId state) fun cid state₁ _ => ?_
  refine Guarded.value_bind fun r made => ?_
  refine Guarded.value_bind fun new texts => ?_
  have own := newRow_id made
  intro now moved
  obtain ⟨error, answered⟩ | ⟨index, allowed, answered⟩ :=
    FileVariables.honest.put_cases (view i) now.world.vars (cameraKey (toString cid)) new (some 0)
  · simp only [logged, handler, answered, noteCommit]
    exact ⟨.tick now, trivial⟩
  · simp only [logged, handler, answered, noteCommit]
    have free : now.rows.read (cameraKey (toString cid)) = none := by
      have zero := allowed 0 rfl
      show (now.world.vars.row _).map Prod.fst = none
      rw [Versioned.row_none_of_version _ zero.symm]
      rfl
    have wrote : Advances now (now.commit i (cameraKey (toString cid)) new) := by
      refine .commit (fun _ gone => ?_) fun _ _ id live => by rw [liveId_stored (items_id texts own) live]
      rw [Gone, free] at gone
      cases gone
    have creates : Creates i r (now.commit i (cameraKey (toString cid)) new) := by
      refine ⟨cid, own, new, ?_⟩
      rw [Logged.log_commit, free]
      exact List.mem_append_right _ (List.mem_singleton.mpr rfl)
    refine ⟨wrote, Guarded.value_bind fun days _ => ?_⟩
    refine Guarded.bind (Safely.since (.refl _) (retention_safe cid (some days) _)) fun _ state' later => ?_
    exact creates.later later

/-! ## All of them -/

omit [DecidableEq ι] in
/-- Once a row is there, nobody creates it. -/
theorem not_creates {map : Key → Option Items} {log : List (Commit ι)} (chained : Chained map log) {key : Key}
    (there : map key ≠ none) {i : ι} {new : Dict Value} : ⟨i, key, none, new⟩ ∉ log := by
  induction log generalizing map with
  | nil => exact List.not_mem_nil
  | cons commit rest ih =>
    obtain ⟨before, chained⟩ := chained
    intro member
    obtain here | later := List.mem_cons.mp member
    · subst here
      exact there before.symm
    · refine ih chained ?_ later
      by_cases same : key = commit.key
      · simp [Commit.apply, same]
      · simpa [Commit.apply, Function.update_of_ne same] using there

omit [DecidableEq ι] in
theorem Created.unique {map : Key → Option Items} {log : List (Commit ι)} (chained : Chained map log) {i j : ι}
    {cid : Int} (first : Created log i cid) (second : Created log j cid) : i = j := by
  obtain ⟨new, first⟩ := first
  obtain ⟨new', second⟩ := second
  induction log generalizing map with
  | nil => cases first
  | cons commit rest ih =>
    obtain ⟨-, chained⟩ := chained
    have after {k : ι} {items : Dict Value} (head : commit = ⟨k, cameraKey (toString cid), none, items⟩) :
        commit.apply map (cameraKey (toString cid)) ≠ none := by simp [Commit.apply, head]
    obtain here | later := List.mem_cons.mp first
    · obtain here' | later' := List.mem_cons.mp second
      · rw [← here] at here'
        cases here'
        rfl
      · exact absurd later' (not_creates chained (after here.symm))
    · obtain here' | later' := List.mem_cons.mp second
      · exact absurd later (not_creates chained (after here'.symm))
      · exact ih chained later later'

/-- A call of a controller, with what `create_camera` returns. -/
def program : RetentionRows.Call → Program M (Dict Value)
  | .create fields => createCamera fields
  | .update cid fields => updateCamera cid fields
  | .delete cid => do
    deleteCamera cid
    return []

abbrev Office (ι M : Type) := Pool (interface M) Phase Exn (Dict Value) (Logged ι M) ι

def begun (calls : ι → RetentionRows.Call) (world : World ι M) : Office ι M := ⟨fun i => program (calls i), ⟨world, []⟩⟩

def run (view : ι → View) (schedule : List ι) (pool : Office ι M) : Office ι M := pool.exec (logged view) schedule

/-- What a call that returned may say of itself. -/
def Tells (call : RetentionRows.Call) (i : ι) (r : Dict Value) (state : Logged ι M) : Prop :=
  ∀ fields, call = .create fields → Creates i r state

theorem program_safe (call : RetentionRows.Call) (state : Logged ι M) :
    Safely view i (Tells call i) (program call) state := by
  cases call with
  | create fields =>
    refine Guarded.mono (fun r state' creates fields' same => ?_) (createCamera_safe fields state)
    cases same
    exact creates
  | update cid fields => exact Guarded.mono (fun _ _ _ _ same => by cases same) (updateCamera_safe cid fields state)
  | delete cid =>
    refine Guarded.bind (deleteCamera_safe cid state) fun _ _ _ _ same => ?_
    cases same

def Going (view : ι → View) (calls : ι → RetentionRows.Call) (pool : Office ι M) : Prop :=
  ∀ i, Safely view i (Tells (calls i) i) (pool.procs i) pool.state

theorem going_run {calls : ι → RetentionRows.Call} {pool : Office ι M} (going : Going view calls pool)
    (schedule : List ι) :
    Advances pool.state (run view schedule pool).state ∧ Going view calls (run view schedule pool) := by
  have along : Along (Pool.step (logged view)) (fun _ _ => True) schedule pool := .always (fun _ _ => trivial) _ _
  refine Pool.safe_exec_post (fun _ _ => Advances) (fun _ => Advances) (fun i => Yields (Tells (calls i) i))
    (Advances pool.state) ?still ?transitive ?keeps ?compatible ?stable along going (.refl _)
  case still => exact fun _ _ state _ => .refl state
  case transitive => exact fun _ _ _ _ _ first second => first.trans second
  case keeps => exact fun _ _ _ moved before => before.trans moved
  case compatible => exact fun _ _ _ _ _ _ _ moved _ _ => moved
  case stable =>
    intro pool i j _ _ moved result told
    cases result with
    | error error => trivial
    | ok r => exact fun fields same => (told fields same).later moved

/-- `camera(id)` is `None` over a tombstone. -/
theorem camera_gone {world : World ι M} {cid : Int} (gone : Gone world.vars (cameraKey (toString cid))) :
    ((camera cid : Program M _).run (handler FileVariables (view i) i) world).1 = .ok none := by
  have got : Ends (view i) i (Program.get (cameraKey (toString cid))) world
      (world.vars.read (cameraKey (toString cid)), world.vars.version (cameraKey (toString cid))) world.tick :=
    Ends.get (cameraKey_clear cid)
  have ends : Ends (view i) i (camera cid) world none world.tick := by
    refine Ends.bind got ?_
    dsimp only
    unfold Gone at gone
    rw [if_pos (by rw [gone, Bool.or_true])]
    rfl
  exact congrArg Prod.fst ends

/-- `cameras()` omits it. -/
theorem cameras_gone {world : World ι M} (own : Own world.vars) {cid : Int}
    (gone : Gone world.vars (cameraKey (toString cid))) {out : List (Int × Dict Value)}
    (listed : ((cameras : Program M _).run (handler FileVariables (view i) i) world).1 = .ok out) :
    ∀ entry ∈ out, entry.1 ≠ cid := by
  rintro entry member rfl
  have ends : Ends (view i) i cameras world out
      ((cameras : Program M _).run (handler FileVariables (view i) i) world).2 := Prod.ext listed rfl
  have inIds := (cameras_ends ends).2.subset (List.mem_map_of_mem member)
  obtain ⟨key, there, live⟩ := List.mem_filterMap.mp inIds
  obtain ⟨-, under, other⟩ := mem_listing.mp there
  obtain rfl := own key entry.1 ⟨under, other⟩ live
  rw [gone.dead] at live
  cases live

/-- Ids are not used again, and deleted cameras stay deleted. -/
theorem deleted_stay_deleted (view : ι → View) (calls : ι → RetentionRows.Call) (world : World ι M)
    (own : Own world.vars)
    (first rest : List ι) :
    let before := run view first (begun calls world)
    let after := run view rest before
    (∀ i j fields fields' r r', i ≠ j → calls i = .create fields → calls j = .create fields' →
      after.procs i = .ret r → after.procs j = .ret r' → r.get? "id" ≠ r'.get? "id") ∧
    ∀ cid, Gone before.state.rows (cameraKey (toString cid)) → ∀ i,
      ((camera cid : Program M _).run (handler FileVariables (view i) i) after.state.world).1 = .ok none ∧
      ∀ out, ((cameras : Program M _).run (handler FileVariables (view i) i) after.state.world).1 = .ok out →
        ∀ entry ∈ out, entry.1 ≠ cid := by
  have going : Going view calls (begun calls world) := fun i => program_safe (calls i) _
  obtain ⟨until_, going⟩ := going_run going first
  obtain ⟨since, going⟩ := going_run going rest
  have explains : Explains world.vars.read (run view rest (run view first (begun calls world))).state :=
    explains_exec rest (explains_exec first ⟨trivial, rfl⟩)
  refine ⟨fun i j fields fields' r r' other create create' returned returned' same => ?_, fun cid gone i => ?_⟩
  · have told := going i
    have told' := going j
    rw [returned] at told
    rw [returned'] at told'
    obtain ⟨cid, id, created⟩ := told fields create
    obtain ⟨cid', id', created'⟩ := told' fields' create'
    rw [id, id'] at same
    cases same
    exact other (created.unique explains.chained created')
  · have still := since.gone _ (ofCamera_cameraKey _) gone
    exact ⟨camera_gone still, fun out listed => cameras_gone (since.own (until_.own own)) still listed⟩

/-! ## A deletion inside an update -/

theorem own_freshWorld (ι : Type) : Own (freshWorld ι).vars := by
  intro key id _ live
  cases live

def fourCalls : Fin 4 → RetentionRows.Call
  | 0 => .create [("source", .str (.plain "driverpack://file/gate"))]
  | 1 => .update 1 [("name", .str (.plain "gate"))]
  | 2 => .delete 1
  | 3 => .create [("source", .str (.plain "driverpack://file/yard"))]

-- The literals of the schedules take their instance by name.
local instance fourCallers : NeZero 4 := ⟨by decide⟩

/-- The update has read the camera, and the second creation the counter. -/
def untilDeleted : List (Fin 4) := List.replicate 5 0 ++ [1, 3] ++ List.replicate 2 2

def afterwards : List (Fin 4) := List.replicate 4 1 ++ List.replicate 4 3 ++ List.replicate 4 2

theorem deleted_stay_deleted_inside :
    let before := run (fun _ => {}) untilDeleted (begun fourCalls (freshWorld (Fin 4)))
    let after := run (fun _ => {}) afterwards before
    Gone before.state.rows (cameraKey (toString (1 : Int))) ∧
    (∀ i j fields fields' r r', i ≠ j → fourCalls i = .create fields → fourCalls j = .create fields' →
      after.procs i = .ret r → after.procs j = .ret r' → r.get? "id" ≠ r'.get? "id") ∧
    ∀ cid, Gone before.state.rows (cameraKey (toString cid)) → ∀ i,
      ((camera cid : Program Unit _).run (handler FileVariables {} i) after.state.world).1 = .ok none ∧
      ∀ out, ((cameras : Program Unit _).run (handler FileVariables {} i) after.state.world).1 = .ok out →
        ∀ entry ∈ out, entry.1 ≠ cid :=
  ⟨by decide +kernel,
    deleted_stay_deleted (fun _ => {}) fourCalls (freshWorld (Fin 4)) (own_freshWorld _) untilDeleted afterwards⟩

end EdgeVms.Verified.Tombstones
