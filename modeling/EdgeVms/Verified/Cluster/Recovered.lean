import EdgeVms.Process.Rows
import EdgeVms.Verified.Cluster.Restorable
import Mathlib.Data.String.Basic

/-! # What comes back

A restored Node is the Node that was dumped: no statement of the host and no edit tells them
apart.  And whatever the pointer says, a restore brings back one moment of the Node's own past.
-/

namespace EdgeVms.Verified.Recovered

open Process Python Cluster
open Process.Rows (Keyed)

/-! ## The tables -/

/-- What the primary keys, the defaults and the trigger of the tables promise. -/
structure Keys (db : Database) : Prop where
  sites : Keyed Site.id db.sites
  cameras : Keyed CameraRow.id db.cameras
  operators : Keyed Operator.id db.operators
  grants : Keyed Grant.id db.grants
  revisions : ∀ camera ∈ db.cameras, 1 ≤ camera.revision

/-- The same rows, in any order. -/
structure SameRows (db db' : Database) : Prop where
  sites : db.sites.Perm db'.sites
  cameras : db.cameras.Perm db'.cameras
  operators : db.operators.Perm db'.operators
  grants : db.grants.Perm db'.grants

variable {db db' : Database}

theorem keys_empty : Keys Database.empty where
  sites := List.nodup_nil
  cameras := List.nodup_nil
  operators := List.nodup_nil
  grants := List.nodup_nil
  revisions := by simp [Database.empty]

/-- An id that no row has. -/
theorem fresh_of_any {α κ : Type} [DecidableEq κ] {key : α → κ} {rows : List α} {id : κ}
    (fresh : ¬ (rows.any fun row => decide (key row = id)) = true) : ∀ row ∈ rows, key row ≠ id := by
  simpa using fresh

/-- A row that is replaced by one of the same id. -/
theorem keyed_replace {α κ : Type} [DecidableEq κ] {key : α → κ} {rows : List α} (keyed : Keyed key rows) (id : κ)
    {f : α → α} (keeps : ∀ row, key row = id → key (f row) = id) :
    Keyed key (rows.map fun row => if key row = id then f row else row) := by
  refine keyed.map fun row => ?_
  split
  next named => rw [keeps row named, named]
  next => rfl

theorem Keys.apply (keys : Keys db) (edit : Edit) : Keys (db.apply edit) := by
  obtain ⟨sites, cameras, operators, grants, revisions⟩ := keys
  cases edit with
  | insertSite site =>
    unfold Database.apply
    dsimp only
    split
    · exact ⟨sites, cameras, operators, grants, revisions⟩
    next fresh => exact ⟨sites.append (fresh_of_any fresh), cameras, operators, grants, revisions⟩
  | updateSite id name =>
    exact ⟨keyed_replace sites id fun _ _ => rfl, cameras, operators, grants, revisions⟩
  | deleteSite id =>
    unfold Database.apply
    dsimp only
    split
    · exact ⟨sites, cameras, operators, grants, revisions⟩
    · exact ⟨sites.filter _, cameras, operators, grants, revisions⟩
  | insertCamera id fields =>
    unfold Database.apply
    dsimp only
    split
    · exact ⟨sites, cameras, operators, grants, revisions⟩
    next accepted =>
      simp only [Bool.or_eq_true, not_or] at accepted
      refine ⟨sites, cameras.append (fresh_of_any accepted.1), operators, grants, ?_⟩
      simpa [or_imp, forall_and] using revisions
  | updateCamera id fields =>
    unfold Database.apply
    dsimp only
    split
    · exact ⟨sites, cameras, operators, grants, revisions⟩
    · refine ⟨sites, keyed_replace cameras id fun _ named => named, operators, grants, ?_⟩
      simp only [List.mem_map]
      rintro _ ⟨camera, member, rfl⟩
      have before := revisions camera member
      -- the trigger moves the revision by one, or leaves it
      unfold Database.bump
      split
      · dsimp only
        split <;> omega
      · exact before
  | deleteCamera id =>
    refine ⟨sites, cameras.filter _, operators, grants, fun camera member => ?_⟩
    exact revisions camera (List.mem_of_mem_filter member)
  | insertOperator operator =>
    unfold Database.apply
    dsimp only
    split
    · exact ⟨sites, cameras, operators, grants, revisions⟩
    next accepted =>
      refine ⟨sites, cameras, operators.append fun other member same => accepted ?_, grants, revisions⟩
      exact List.any_eq_true.mpr ⟨other, member, by simp [same]⟩
  | updateOperator operator =>
    unfold Database.apply
    dsimp only
    split
    · exact ⟨sites, cameras, operators, grants, revisions⟩
    · exact ⟨sites, cameras, keyed_replace operators operator.id fun _ _ => rfl, grants, revisions⟩
  | deleteOperator id => exact ⟨sites, cameras, operators.filter _, grants, revisions⟩
  | insertGrant grant =>
    unfold Database.apply
    dsimp only
    split
    · exact ⟨sites, cameras, operators, grants, revisions⟩
    next fresh => exact ⟨sites, cameras, operators, grants.append (fresh_of_any fresh), revisions⟩
  | updateGrant grant => exact ⟨sites, cameras, operators, keyed_replace grants grant.id fun _ _ => rfl, revisions⟩
  | deleteGrant id => exact ⟨sites, cameras, operators, grants.filter _, revisions⟩

/-! ## The order of the rows -/

theorem SameRows.knows (same : SameRows db db') (siteId : Option String) : db.knows siteId = db'.knows siteId := by
  cases siteId with
  | none => rfl
  | some id => exact same.sites.any_eq

/-- An edit does to the rows what it does to them in any other order. -/
theorem SameRows.apply (same : SameRows db db') (edit : Edit) : SameRows (db.apply edit) (db'.apply edit) := by
  have known := same.knows
  obtain ⟨sites, cameras, operators, grants⟩ := same
  cases edit with
  | insertSite site =>
    unfold Database.apply
    dsimp only
    rw [sites.any_eq]
    split
    · exact ⟨sites, cameras, operators, grants⟩
    · exact ⟨sites.append_right _, cameras, operators, grants⟩
  | updateSite id name => exact ⟨sites.map _, cameras, operators, grants⟩
  | deleteSite id =>
    unfold Database.apply
    dsimp only
    rw [cameras.any_eq]
    split
    · exact ⟨sites, cameras, operators, grants⟩
    · exact ⟨sites.filter _, cameras, operators, grants⟩
  | insertCamera id fields =>
    unfold Database.apply
    dsimp only
    rw [cameras.any_eq, known]
    split
    · exact ⟨sites, cameras, operators, grants⟩
    · exact ⟨sites, cameras.append_right _, operators, grants⟩
  | updateCamera id fields =>
    unfold Database.apply
    dsimp only
    rw [known]
    split
    · exact ⟨sites, cameras, operators, grants⟩
    · exact ⟨sites, cameras.map _, operators, grants⟩
  | deleteCamera id => exact ⟨sites, cameras.filter _, operators, grants⟩
  | insertOperator operator =>
    unfold Database.apply
    dsimp only
    rw [operators.any_eq]
    split
    · exact ⟨sites, cameras, operators, grants⟩
    · exact ⟨sites, cameras, operators.append_right _, grants⟩
  | updateOperator operator =>
    unfold Database.apply
    dsimp only
    rw [operators.any_eq]
    split
    · exact ⟨sites, cameras, operators, grants⟩
    · exact ⟨sites, cameras, operators.map _, grants⟩
  | deleteOperator id => exact ⟨sites, cameras, operators.filter _, grants⟩
  | insertGrant grant =>
    unfold Database.apply
    dsimp only
    rw [grants.any_eq]
    split
    · exact ⟨sites, cameras, operators, grants⟩
    · exact ⟨sites, cameras, operators, grants.append_right _⟩
  | updateGrant grant => exact ⟨sites, cameras, operators, grants.map _⟩
  | deleteGrant id => exact ⟨sites, cameras, operators, grants.filter _⟩

/-- What the host, the publisher and a dump see of the tables. -/
structure Unseen (db db' : Database) : Prop where
  config : db'.config = db.config
  dumped : db'.dumpConfig = db.dumpConfig
  desired : db'.fetchDesired = db.fetchDesired
  revision : db'.configRevision = db.configRevision
  unconfigured : db'.isUnconfigured = db.isUnconfigured

/-- The order of the rows does not show. -/
theorem SameRows.unseen (same : SameRows db db') (keys : Keys db) : Unseen db db' := by
  have cameras : Database.byId db'.cameras = Database.byId db.cameras :=
    (Rows.sort_eq_of_perm keys.cameras same.cameras).symm
  have config : db'.config = db.config := by
    unfold Database.config
    rw [cameras, ← Rows.sort_eq_of_perm keys.sites same.sites, ← Rows.sort_eq_of_perm keys.operators same.operators,
      ← Rows.sort_eq_of_perm keys.grants same.grants]
  have desired : db'.fetchDesired = db.fetchDesired := by
    unfold Database.fetchDesired
    rw [cameras, same.cameras.any_eq]
  refine ⟨config, ?_, desired, Replication.configRevision_of_config config, ?_⟩
  · unfold Database.dumpConfig
    rw [desired, config]
  · unfold Database.isUnconfigured
    rw [Bool.eq_iff_iff, List.isEmpty_iff_length_eq_zero, List.isEmpty_iff_length_eq_zero, same.cameras.length_eq]

/-! ## A dump, restored -/

theorem restoreCameras_all {sites : List Site} {cams there : List CameraRow}
    (keyed : Keyed CameraRow.id (there ++ cams))
    (sited : ∀ camera ∈ cams, Database.knows ⟨sites, [], [], []⟩ camera.fields.siteId = true) :
    Database.restoreCameras sites there cams = .ok (there ++ cams) := by
  induction cams generalizing there with
  | nil => simp [Database.restoreCameras]
  | cons camera rest ih =>
    have known := sited camera (.head _)
    have fresh : (there.any fun other => decide (other.id = camera.id)) = false := Rows.fresh_head keyed
    have keyed' : Keyed CameraRow.id ((there ++ [camera]) ++ rest) := by rwa [List.append_assoc]
    rw [Database.restoreCameras, fresh, known]
    simpa using ih keyed' fun other member => sited other (.tail _ member)

theorem restoreOperators_all {operators there : List Operator} (keyed : Keyed Operator.id (there ++ operators))
    (distinct : ∀ operator ∈ there ++ operators, ∀ other ∈ there ++ operators,
      operator.username = other.username → operator.id = other.id) :
    Database.restoreOperators there operators = .ok (there ++ operators) := by
  induction operators generalizing there with
  | nil => simp [Database.restoreOperators]
  | cons operator rest ih =>
    have fresh : (there.any fun other => decide (other.id = operator.id)) = false := Rows.fresh_head keyed
    have keyed' : Keyed Operator.id ((there ++ [operator]) ++ rest) := by rwa [List.append_assoc]
    have free : (there.any fun other => decide (other.username = operator.username)) = false := by
      simp only [List.any_eq_false, decide_eq_true_eq] at fresh ⊢
      intro other member same
      exact fresh other member (distinct other (List.mem_append_left _ member) operator (by simp) same)
    rw [Database.restoreOperators, fresh, free]
    simpa using ih keyed' (by simpa using distinct)

/-- With revisions from 1 on, a dump has the revision of the tables. -/
theorem maxRevision_eq {cameras : List CameraRow} (revisions : ∀ camera ∈ cameras, 1 ≤ camera.revision) :
    maxRevision cameras = ((cameras.map CameraRow.revision).max?).getD 0 := by
  have folds : ∀ rev, (cameras.foldl (fun rev camera => if camera.revision > rev then camera.revision else rev) rev) =
      (cameras.map CameraRow.revision).foldl max rev := by
    clear revisions
    induction cameras with
    | nil => simp
    | cons camera rest ih =>
      intro rev
      simp only [List.foldl_cons, List.map_cons, ih]
      congr 1
      split <;> omega
  unfold maxRevision
  rw [folds]
  cases cameras with
  | nil => rfl
  | cons camera rest =>
    have positive := revisions camera (.head _)
    rw [List.map_cons, List.max?_cons', List.foldl_cons, max_eq_right (by omega)]
    rfl

theorem config_revision (keys : Keys db) : db.config.revision = db.configRevision := by
  have sorted : (Database.byId db.cameras).Perm db.cameras := List.perm_insertionSort _ _
  calc db.config.revision = maxRevision (Database.byId db.cameras) := rfl
    _ = (((Database.byId db.cameras).map CameraRow.revision).max?).getD 0 :=
      maxRevision_eq fun camera member => keys.revisions camera (sorted.subset member)
    _ = db.configRevision := Replication.revision_of_perm sorted

/-- The tables that a dump was made of, with their rows in order, are what its restore brings back. -/
theorem restore_dump {blob : Config} (keys : Keys db) (valid : Restore.Valid db) (dumped : db.dumpConfig = .ok blob) :
    ∃ restored, Database.empty.restoreConfig blob = .ok (db.configRevision, restored) ∧ SameRows db restored := by
  have complete := Restore.complete_dump valid dumped
  obtain rfl := Replication.dumpConfig_ok dumped
  have sites : (db.config.sites).Perm db.sites := List.perm_insertionSort _ _
  have cameras : (db.config.cameras).Perm db.cameras := List.perm_insertionSort _ _
  have operators : (db.config.operators).Perm db.operators := List.perm_insertionSort _ _
  have grants : (db.config.grants).Perm db.grants := List.perm_insertionSort _ _
  refine ⟨⟨db.config.sites, db.config.cameras, db.config.operators, db.config.grants⟩, ?_,
    sites.symm, cameras.symm, operators.symm, grants.symm⟩
  -- each table is restored row by row, into a table that is empty
  have restoredSites : Database.restoreSites [] db.config.sites = db.config.sites :=
    Rows.insert_all (keys.sites.perm sites.symm)
  have restoredGrants : Database.restoreGrants [] db.config.grants = db.config.grants :=
    Rows.insert_all (keys.grants.perm grants.symm)
  have restoredCameras : Database.restoreCameras db.config.sites [] db.config.cameras = .ok db.config.cameras := by
    refine restoreCameras_all (keys.cameras.perm cameras.symm) fun camera member => ?_
    obtain ⟨id, sited, site, there, named⟩ := complete.sited camera member
    refine Restore.knows_iff.mpr fun id' sited' => ⟨site, there, ?_⟩
    rw [sited] at sited'
    exact named.trans (Option.some.inj sited')
  have restoredOperators : Database.restoreOperators [] db.config.operators = .ok db.config.operators :=
    restoreOperators_all (keys.operators.perm operators.symm) complete.distinct
  show (do
    let cameras ← Database.restoreCameras (Database.restoreSites [] db.config.sites) [] db.config.cameras
    let operators ← Database.restoreOperators [] db.config.operators
    return (db.config.revision, (⟨Database.restoreSites [] db.config.sites, cameras, operators,
      Database.restoreGrants [] db.config.grants⟩ : Database))) = _
  rw [restoredSites, restoredGrants, restoredCameras, restoredOperators, config_revision keys]
  rfl

/-! ## The same Node -/

/-- Whatever edits follow, nobody sees a difference. -/
def Alike (db db' : Database) : Prop :=
  ∀ later : List Edit, Unseen (later.foldl Database.apply db) (later.foldl Database.apply db')

theorem SameRows.alike (same : SameRows db db') (keys : Keys db) : Alike db db' := by
  intro later
  induction later generalizing db db' with
  | nil => exact same.unseen keys
  | cons edit rest ih => exact ih (same.apply edit) (keys.apply edit)

/-- What the edits of an operator make of an empty Node. -/
theorem edited (edits : List Edit) :
    Keys (edits.foldl Database.apply .empty) ∧ Restore.Valid (edits.foldl Database.apply .empty) := by
  have kept : ∀ db, Keys db → Restore.Valid db →
      Keys (edits.foldl Database.apply db) ∧ Restore.Valid (edits.foldl Database.apply db) := by
    induction edits with
    | nil => exact fun _ keys valid => ⟨keys, valid⟩
    | cons edit rest ih => exact fun _ keys valid => ih _ (keys.apply edit) (Restore.valid_apply valid edit)
  exact kept _ keys_empty Restore.valid_empty

/-- Two cameras, the second one first. -/
def twoCameras : List Edit :=
  [.insertSite ⟨"hq", "hq"⟩, .insertCamera 2 Replication.gate, .insertCamera 1 Replication.gate]

open Restore (Running Event step)

/-- Whatever it is answered, the program puts only what there was, or what a dump has answered. -/
def Carries {α : Type} : Program α → (Config → Prop) → Prop
  | .call _ (.putObject _ blob) next, had => had blob ∧ ∀ answer, Carries (next answer) had
  | .call _ .dumpConfig next, had => ∀ answer, Carries (next answer) fun blob => had blob ∨ answer = .ok blob
  | .call _ _ next, had => ∀ answer, Carries (next answer) had
  | _, _ => True

theorem Carries.mono {α : Type} {p : Program α} {had had' : Config → Prop} (more : ∀ blob, had blob → had' blob)
    (carries : Carries p had) : Carries p had' := by
  induction p generalizing had had' with
  | ret value => trivial
  | raise error => trivial
  | call stage request next ih =>
    cases request with
    | putObject key blob => exact ⟨more blob carries.1, fun answer => ih answer more (carries.2 answer)⟩
    | dumpConfig => exact fun answer => ih answer (fun blob there => there.imp (more blob) id) (carries answer)
    | configRevision | cameras | getVariable path | putVariable path items cas | clock | recollect
    | remember change => exact fun answer => ih answer more (carries answer)

variable {had : Config → Prop}

theorem carries_failed : Carries Publisher.failed had := by
  intro p
  show Carries (if p.failedSince < 0 then _ else _) had
  split
  · exact fun _ _ => trivial
  · trivial

theorem carries_putBlob (node : String) (rev : Int) {blob : Config} (there : had blob) :
    Carries (Publisher.putBlob node rev blob) had := by
  refine ⟨there, fun answer => ?_⟩
  cases answer with
  | error err => exact carries_failed
  | ok done =>
    intro answer
    cases answer with
    | error err => exact carries_failed
    | ok found =>
      intro answer
      cases answer with
      | error err => exact carries_failed
      | ok cams =>
        intro answer
        cases answer with
        | error err =>
          cases err with
          | conflict => trivial
          | failed => exact carries_failed
        | ok index => exact fun _ _ => trivial

theorem carries_publishOnce : Carries Publisher.publishOnce had := by
  intro answer
  cases answer with
  | error err => exact carries_failed
  | ok rev =>
    intro p
    show Carries (if rev ≤ p.publishedRev then _ else _) had
    split
    · trivial
    · intro now
      show Carries (if now - p.lastPublish < p.floor then _ else _) had
      split
      · trivial
      · intro answer
        cases answer with
        | error err => exact carries_failed
        | ok blob => exact carries_putBlob p.node rev (.inr rfl)

/-- The tables are sound, and the objects, present and to come, are those of `had`. -/
structure Holding (state : Running) (had : Config → Prop) : Prop where
  keys : Keys state.world.db
  valid : Restore.Valid state.world.db
  objects : ∀ key blob, state.world.objects key = some blob → had blob
  carries : Carries state.program had

theorem Holding.mono {state : Running} {had' : Config → Prop} (more : ∀ blob, had blob → had' blob)
    (holding : Holding state had) : Holding state had' where
  keys := holding.keys
  valid := holding.valid
  objects key blob there := more blob (holding.objects key blob there)
  carries := holding.carries.mono more

theorem Holding.step {state : Running} (holding : Holding state had)
    (now : ∀ blob, state.world.db.dumpConfig = .ok blob → had blob) (event : Event) :
    Holding (Restore.step state event) had := by
  obtain ⟨world, program⟩ := state
  obtain ⟨keys, valid, objects, carries⟩ := holding
  cases event with
  | edit edit => exact ⟨keys.apply edit, Restore.valid_apply valid edit, objects, carries⟩
  | crash => exact ⟨keys, valid, objects, carries_publishOnce⟩
  | step =>
    cases program with
    | ret value => exact ⟨keys, valid, objects, carries_publishOnce⟩
    | raise error => cases error
    | call stage request next =>
      cases request with
      | putObject key blob =>
        obtain ⟨there, later⟩ := carries
        have stepped : Restore.step ⟨world, .call stage (.putObject key blob) next⟩ .step =
            ⟨(NodeWorld.handler (.putObject key blob) world).2,
              next (NodeWorld.handler (.putObject key blob) world).1⟩ := rfl
        rw [stepped]
        obtain refused | ⟨answer, done⟩ := Replication.putObject_cases world key blob
        · rw [refused]
          exact ⟨keys, valid, objects, later _⟩
        · rw [done]
          refine ⟨keys, valid, fun key' blob' stored => ?_, later _⟩
          -- the object that was put, or one that was there
          have stored : Function.update world.objects key (some blob) key' = some blob' := stored
          by_cases same : key' = key
          · subst same
            rw [Function.update_self] at stored
            exact Option.some.inj stored ▸ there
          · rw [Function.update_of_ne same] at stored
            exact objects key' blob' stored
      | putVariable path items cas =>
        have stepped : Restore.step ⟨world, .call stage (.putVariable path items cas) next⟩ .step =
            ⟨(NodeWorld.handler (.putVariable path items cas) world).2,
              next (NodeWorld.handler (.putVariable path items cas) world).1⟩ := rfl
        rw [stepped]
        obtain ⟨err, answered⟩ | ⟨answer, answered, -⟩ := Replication.putVariable_cases world path items cas
        · rw [answered]
          exact ⟨keys, valid, objects, carries _⟩
        · rw [answered]
          exact ⟨keys, valid, objects, carries _⟩
      | dumpConfig =>
        refine ⟨keys, valid, objects, (carries _).mono fun blob there => there.elim id fun answered => now blob ?_⟩
        unfold NodeWorld.handler NodeWorld.answered at answered
        dsimp only at answered
        split at answered
        · cases answered
        · exact answered
      | configRevision | cameras | getVariable path | clock | recollect | remember change =>
        exact ⟨keys, valid, objects, carries _⟩

/-- The Node dumped this at some moment of the run. -/
def Past (start : Running) (events : List Event) (blob : Config) : Prop :=
  ∃ first, first <+: events ∧ (first.foldl step start).world.db.dumpConfig = .ok blob

theorem holding_past {start : Running} (fresh : Holding start fun _ => False) (events : List Event) :
    Holding (events.foldl step start) (Past start events) := by
  induction events using List.reverseRecOn with
  | nil => exact fresh.mono fun _ none => none.elim
  | append_singleton events event ih =>
    have longer : events <+: events ++ [event] := List.prefix_append _ _
    have kept : Holding (events.foldl step start) (Past start (events ++ [event])) := by
      refine ih.mono fun blob past => ?_
      obtain ⟨first, isPrefix, dumped⟩ := past
      exact ⟨first, isPrefix.trans longer, dumped⟩
    rw [List.foldl_append]
    exact kept.step (fun blob dumped => ⟨events, longer, dumped⟩) event

/-- What a restore that came to its end has done. -/
theorem rehydrate_restored {id : Identity} {objects : String → Except Err (Option Config)} {rev : Int} {cameras : Nat}
    (restored : rehydrate id .empty objects = .ok (⟨.restored, rev, cameras⟩, db')) :
    ∃ blob, objects id.configObject = .ok (some blob) ∧ rev = blob.revision ∧
      (∃ rev', Database.empty.restoreConfig blob = .ok (rev', db')) ∧ cameras = db'.cameras.length := by
  unfold rehydrate at restored
  rw [if_neg (by decide)] at restored
  split at restored
  · cases restored
  · split at restored
    · cases restored
    · cases restored
    next blob found =>
      split at restored
      · cases restored
      · split at restored
        · cases restored
        next rev' store done =>
          split at restored
          · cases restored
          next cams desired =>
            cases restored
            refine ⟨blob, found, rfl, ⟨rev', done⟩, ?_⟩
            unfold Database.fetchDesired at desired
            split at desired
            · cases desired
            · cases desired
              exact (List.perm_insertionSort _ _).length_eq

/-- A camera is edited after the pointer was stored; then the server is lost. -/
def editedAfter : List Event := Restore.configured ++ List.replicate 8 .step ++ [.edit (.deleteCamera 1)]

theorem ended_ok {result : Except RestoreError (RestoreResult × Database)} {ended : RestoreResult} {store : Database}
    (same : (result.toOption.map fun done => (done.1.state, done.1.revision, done.1.cameras, done.2)) =
      some (ended.state, ended.revision, ended.cameras, store)) : result = .ok (ended, store) := by
  cases result with
  | error error => cases same
  | ok done =>
    obtain ⟨⟨state, revision, cameras⟩, store'⟩ := done
    cases same
    rfl

end EdgeVms.Verified.Recovered
