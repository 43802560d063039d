import EdgeVms.Node.PgStore
import EdgeVms.Process.Rows
import EdgeVms.Process.Asks
import EdgeVms.Process.History
import EdgeVms.Verified.Node.StopRecording
import EdgeVms.Verified.Vms.Converges

/-! # What a camera that is converged has behind it

The console never asks a pipeline: it compares two integers of a row.  A revision stands for
the columns that it was read with, no report carries one that no pass has applied, and no
operator can write either of them.
-/

namespace EdgeVms.Verified.Observed

open Process Python Vms Node PgStore
open Process.Rows (Keyed)
open Cluster (CameraFields)

/-! ## The rows of `cameras` -/

/-- The trigger misses no column of the operator. -/
theorem eq_of_distinct {old new : CameraFields} (same : distinct old new = false) : new = old := by
  obtain ⟨⟩ := old
  obtain ⟨⟩ := new
  simp only [distinct, Bool.or_eq_false_iff, decide_eq_false_iff_not, ne_eq, Decidable.not_not] at same
  simp [same]

/-- What the key, the sequence and the trigger promise. -/
structure Numbered (tables : Tables) : Prop where
  keyed : Keyed Row.id tables.cameras
  drawn : ∀ row ∈ tables.cameras, row.id < tables.nextId
  revisions : ∀ row ∈ tables.cameras, 1 ≤ row.revision

theorem numbered_empty : Numbered PgStore.empty where
  keyed := List.nodup_nil
  drawn := by simp [PgStore.empty]
  revisions := by simp [PgStore.empty]

/-- What was read once of a row: if the row still has that revision, it has those columns. -/
structure Fits (tables : Tables) (cam : Cluster.CameraRow) : Prop where
  drawn : cam.id < tables.nextId
  current : ∀ row ∈ tables.cameras, row.id = cam.id →
    cam.revision ≤ row.revision ∧ (cam.revision = row.revision → cam = row.desired)

/-- How a statement leaves a row: at its revision with its columns, or at a later revision. -/
structure Moved (written : Int → Prop) (row row' : Row) : Prop where
  id : row'.id = row.id
  revision : row'.desired = row.desired ∨ row.revision < row'.revision
  observed : row'.observedRevision = row.observedRevision ∨ written row'.observedRevision

/-- A row that was not there. -/
structure Fresh (written : Int → Prop) (tables tables' : Tables) (row : Row) : Prop where
  undrawn : tables.nextId ≤ row.id
  drawn : row.id < tables'.nextId
  revision : 1 ≤ row.revision
  observed : row.observedRevision = 0 ∨ written row.observedRevision

/-- What statements can do to the table; they write no observed revision but those that are `written`. -/
structure Follows (written : Int → Int → Prop) (tables tables' : Tables) : Prop where
  nextId : tables.nextId ≤ tables'.nextId
  keyed : Numbered tables → Keyed Row.id tables'.cameras
  rows : ∀ row' ∈ tables'.cameras,
    Fresh (written row'.id) tables tables' row' ∨ ∃ row ∈ tables.cameras, Moved (written row.id) row row'

section Follows

variable {written : Int → Int → Prop} {tables tables' : Tables}

theorem revision_eq {row row' : Row} (same : row'.desired = row.desired) : row'.revision = row.revision :=
  congrArg Cluster.CameraRow.revision same

theorem Moved.refl {written : Int → Prop} (row : Row) : Moved written row row := ⟨rfl, .inl rfl, .inl rfl⟩

theorem Moved.le {written : Int → Prop} {row row' : Row} (moved : Moved written row row') :
    row.revision ≤ row'.revision := by
  obtain same | later := moved.revision
  · exact (revision_eq same).ge
  · exact later.le

theorem Follows.of_cameras (cameras : tables'.cameras = tables.cameras) (nextId : tables.nextId ≤ tables'.nextId) :
    Follows written tables tables' where
  nextId := nextId
  keyed numbered := cameras ▸ numbered.keyed
  rows row' member := .inr ⟨row', cameras ▸ member, .refl row'⟩

theorem Follows.refl (tables : Tables) : Follows written tables tables := .of_cameras rfl (le_refl _)

theorem Follows.numbered (follows : Follows written tables tables') (numbered : Numbered tables) :
    Numbered tables' where
  keyed := follows.keyed numbered
  drawn row' member := by
    obtain fresh | ⟨row, before, moved⟩ := follows.rows row' member
    · exact fresh.drawn
    · have drawn := numbered.drawn row before
      have later := follows.nextId
      rw [moved.id]
      omega
  revisions row' member := by
    obtain fresh | ⟨row, before, moved⟩ := follows.rows row' member
    · exact fresh.revision
    · exact (numbered.revisions row before).trans moved.le

theorem Follows.fits {cam : Cluster.CameraRow} (follows : Follows written tables tables') (fits : Fits tables cam) :
    Fits tables' cam where
  drawn := by
    have drawn := fits.drawn
    have later := follows.nextId
    omega
  current row' member named := by
    obtain fresh | ⟨row, before, moved⟩ := follows.rows row' member
    · -- the id was drawn before
      have drawn := fits.drawn
      have undrawn := fresh.undrawn
      omega
    · obtain ⟨least, same⟩ := fits.current row before (moved.id ▸ named)
      obtain unmoved | later := moved.revision
      · rw [revision_eq unmoved, unmoved]
        exact ⟨least, same⟩
      · -- the row has gone past what was read
        exact ⟨by omega, by omega⟩

theorem Moved.trans {written : Int → Prop} {row row' row'' : Row} (first : Moved written row row')
    (second : Moved written row' row'') : Moved written row row'' where
  id := second.id.trans first.id
  revision := by
    obtain same | later := first.revision
    · rw [← same, ← revision_eq same]
      exact second.revision
    · exact .inr (later.trans_le second.le)
  observed := by
    obtain same | wrote := second.observed
    · rw [same]
      exact first.observed
    · exact .inr wrote

theorem Follows.trans {tables'' : Tables} (first : Follows written tables tables')
    (second : Follows written tables' tables'') : Follows written tables tables'' where
  nextId := first.nextId.trans second.nextId
  keyed numbered := second.keyed (first.numbered numbered)
  rows row'' member := by
    obtain fresh | ⟨row', there, moved'⟩ := second.rows row'' member
    · exact .inl { fresh with undrawn := first.nextId.trans fresh.undrawn }
    · obtain fresh | ⟨row, before, moved⟩ := first.rows row' there
      · left
        refine ⟨moved'.id ▸ fresh.undrawn, ?_, ?_, ?_⟩
        · have drawn := fresh.drawn
          have later := second.nextId
          have named := moved'.id
          omega
        · exact fresh.revision.trans moved'.le
        · rw [moved'.id]
          obtain same | wrote := moved'.observed
          · rw [same]
            exact fresh.observed
          · exact .inr wrote
      · -- the row was there before both
        rw [moved.id] at moved'
        exact .inr ⟨row, before, moved.trans moved'⟩

/-! ## The statements -/

/-- An `UPDATE`: the trigger sees to it that no column moves at one revision. -/
theorem moved_bumpRevision {written : Int → Prop} (row : Row) {set : Row → Row} (id : (set row).id = row.id)
    (revision : (set row).revision = row.revision)
    (observed : (set row).observedRevision = row.observedRevision ∨ written (set row).observedRevision) :
    Moved written row (bumpRevision row (set row)) := by
  unfold bumpRevision
  cases moves : distinct row.fields (set row).fields with
  | true =>
    -- `OLD.revision + 1`
    refine ⟨id, .inr ?_, observed⟩
    simp
  | false =>
    -- no column of the operator differs: this is what makes the revision stand for the columns
    refine ⟨id, .inl ?_, observed⟩
    simp [Row.desired, id, revision, eq_of_distinct moves]

theorem follows_update (cid : Int) {set : Row → Row} (id : ∀ row, (set row).id = row.id)
    (revision : ∀ row, (set row).revision = row.revision)
    (observed : ∀ row, row.id = cid →
      (set row).observedRevision = row.observedRevision ∨ written cid (set row).observedRevision) :
    Follows written tables (tables.update cid set) := by
  have moved (row : Row) (named : row.id = cid) : Moved (written row.id) row (bumpRevision row (set row)) :=
    moved_bumpRevision row (id row) (revision row) (named ▸ observed row named)
  refine ⟨le_refl _, fun numbered => numbered.keyed.map fun row => ?_, ?_⟩
  · split
    next named => exact (moved row named).id
    next => rfl
  · simp only [Tables.update, List.mem_map]
    rintro _ ⟨row, member, rfl⟩
    right
    refine ⟨row, member, ?_⟩
    split
    next named => exact moved row named
    next => exact .refl row

theorem follows_createCamera (fields : Dict Cell) (encrypt : Encrypt) :
    Follows written tables (PgStore.createCamera fields encrypt tables).2 := by
  have drawn : Follows written tables { tables with nextId := tables.nextId + 1 } :=
    .of_cameras rfl (by simp)
  have stored (row : CameraFields) : Follows written tables
      { tables with
        nextId := tables.nextId + 1
        cameras := tables.cameras ++ [⟨tables.nextId, row, 1, 0, "pending", none⟩] } := by
    refine ⟨by simp, fun numbered => numbered.keyed.append fun other member => ?_, ?_⟩
    · exact ne_of_lt (numbered.drawn other member)
    · intro row' member
      obtain before | here := List.mem_append.mp member
      · exact .inr ⟨row', before, .refl row'⟩
      · obtain rfl := List.mem_singleton.mp here
        exact .inl ⟨le_refl _, by simp, le_refl _, .inl rfl⟩
  unfold PgStore.createCamera
  dsimp only
  split
  · -- nothing that can be sent: no id is drawn
    exact .refl tables
  · split
    · -- a column is `NOT NULL`
      exact drawn
    · split
      · -- an unknown site
        exact drawn
      · split
        · exact stored _
        · split
          · -- without a key the transaction is rolled back, and the id stays drawn
            exact drawn
          · exact (stored _).trans (follows_update _ (fun _ => rfl) (fun _ => rfl) fun _ _ => .inl rfl)

theorem follows_updateCamera (cid : Int) (fields : Dict Cell) (encrypt : Encrypt) :
    Follows written tables (PgStore.updateCamera cid fields encrypt tables).2 := by
  unfold PgStore.updateCamera
  dsimp only
  split
  · -- a secret, and no key for it
    exact .refl tables
  · split
    · -- nothing to set
      exact .refl tables
    · split
      · exact .refl tables
      · split
        · -- no such camera
          exact .refl tables
        · split
          · -- a column is `NOT NULL`
            exact .refl tables
          · split
            · -- an unknown site
              exact .refl tables
            · exact follows_update cid (fun _ => rfl) (fun _ => rfl) fun _ _ => .inl rfl

theorem follows_deleteCamera (cid : Int) : Follows written tables (PgStore.deleteCamera cid tables).2 where
  nextId := le_refl _
  keyed numbered := numbered.keyed.filter _
  rows row' member := .inr ⟨row', List.mem_of_mem_filter member, .refl row'⟩

theorem follows_upsertSite (siteId name : String) : Follows written tables (PgStore.upsertSite siteId name tables) := by
  unfold PgStore.upsertSite
  split
  · exact .of_cameras rfl (le_refl _)
  · exact .of_cameras rfl (le_refl _)

theorem follows_report (rows : List (Int × Int × String)) (now : ℚ)
    (allowed : ∀ entry ∈ rows, written entry.1 entry.2.1) :
    Follows written tables (PgStore.report rows now tables) := by
  induction rows generalizing tables with
  | nil => exact .refl tables
  | cons entry rest ih =>
    have first : Follows written tables (tables.update entry.1 fun row =>
        { row with observedRevision := entry.2.1, phase := entry.2.2, lastSeen := some now }) :=
      follows_update entry.1 (fun _ => rfl) (fun _ => rfl) fun _ _ => .inr (allowed entry (.head _))
    exact first.trans (ih fun later member => allowed later (.tail _ member))

end Follows

/-! ## A pass -/

/-- The pass starts the camera anew, at the revision of its row. -/
structure Started (before after : AppHost) (cam : Camera) : Prop where
  behind : ∀ revision, before.reconciler.actual.get? cam.id = some revision → revision < cam.revision
  taken : after.reconciler.actual.get? cam.id = some cam.revision
  runs : after.pipelines.get? cam.id = some ⟨.starting, none⟩

/-- Nothing that the two know of the camera differs. -/
structure Alike (cid : Int) (before after : AppHost) : Prop where
  actual : after.reconciler.actual.get? cid = before.reconciler.actual.get? cid
  pipelines : after.pipelines.get? cid = before.pipelines.get? cid

section Pass

variable {starts : AppHost.Starts} {jitter : Int → ℚ} {now : ℚ} {before mid after : AppHost}

theorem Alike.refl (cid : Int) (host : AppHost) : Alike cid host host := ⟨rfl, rfl⟩

theorem Alike.trans {cid : Int} (first : Alike cid before mid) (second : Alike cid mid after) :
    Alike cid before after := ⟨second.actual.trans first.actual, second.pipelines.trans first.pipelines⟩

theorem Started.after_alike {cam : Camera} (alike : Alike cam.id before mid) (started : Started mid after cam) :
    Started before after cam := ⟨fun revision has => started.behind revision (alike.actual ▸ has), started.taken,
      started.runs⟩

theorem Started.before_alike {cam : Camera} (started : Started before mid cam) (alike : Alike cam.id mid after) :
    Started before after cam := ⟨started.behind, alike.actual.trans started.taken, alike.pipelines.trans started.runs⟩

theorem get?_release (verb : String) (pipelines : Table Pipeline) {cid other : Int} (differ : cid ≠ other) :
    (AppHost.release verb cid pipelines).get? other = pipelines.get? other := by
  unfold AppHost.release
  split
  · simp [differ]
  · rfl

/-- What a call of the actuator touches. -/
theorem actuate_touches {verb : String} {cid : Int} {host host' : AppHost} {answer : Except Node.Fault Bool}
    (acted : AppHost.actuate starts verb cid host = (answer, host')) :
    host'.reconciler = host.reconciler ∧ (∀ other, cid ≠ other → Alike other host host') ∧
      (verb ≠ "stop" → answer = .ok true → host'.pipelines.get? cid = some ⟨.starting, none⟩) := by
  unfold AppHost.actuate AppHost.actuator at acted
  dsimp only at acted
  split at acted
  · cases acted
    exact ⟨rfl, fun other _ => .refl other host, fun _ failed => by cases failed⟩
  · split at acted
    next stops =>
      cases acted
      exact ⟨rfl, fun other differ => ⟨rfl, get?_release verb _ differ⟩, fun starts => absurd stops starts⟩
    next =>
      split at acted
      · cases acted
        refine ⟨rfl, fun other differ => ⟨rfl, ?_⟩, fun _ _ => by simp⟩
        simp [differ, get?_release verb _ differ]
      · cases acted
        exact ⟨rfl, fun other differ => ⟨rfl, get?_release verb _ differ⟩, fun _ failed => by cases failed⟩
      · cases acted
        exact ⟨rfl, fun other differ => ⟨rfl, get?_release verb _ differ⟩, fun _ failed => by cases failed⟩

variable (starts jitter now) in
/-- The loop leaves what is no entry of its table alone; of the others it takes as running what it has started,
and what it took as running before. -/
theorem startRounds_starts (entries : List (Int × Camera)) (ids : ∀ entry ∈ entries, entry.2.id = entry.1)
    (nodup : (Table.keys entries).Nodup) (host : AppHost) :
    (∀ cid ∉ Table.keys entries, Alike cid host (AppHost.startRounds starts jitter now entries host).2) ∧
      ∀ entry ∈ entries,
        (AppHost.startRounds starts jitter now entries host).2.reconciler.actual.get? entry.1 =
            host.reconciler.actual.get? entry.1 ∨
          Started host (AppHost.startRounds starts jitter now entries host).2 entry.2 := by
  induction entries generalizing host with
  | nil => exact ⟨fun cid _ => .refl cid host, fun entry member => (List.not_mem_nil member).elim⟩
  | cons entry rest ih =>
    obtain ⟨cid, cam⟩ := entry
    obtain ⟨named, ids⟩ := List.forall_mem_cons.mp ids
    obtain ⟨once, nodup⟩ := List.nodup_cons.mp nodup
    have named : cam.id = cid := named
    -- the rounds that follow, from any host that differs at this camera alone
    have later (host' : AppHost) (others : ∀ other, cid ≠ other → Alike other host host')
        (here : host'.reconciler.actual.get? cid = host.reconciler.actual.get? cid ∨ Started host host' cam) :
        (∀ other ∉ Table.keys ((cid, cam) :: rest),
            Alike other host (AppHost.startRounds starts jitter now rest host').2) ∧
          ∀ entry ∈ (cid, cam) :: rest,
            (AppHost.startRounds starts jitter now rest host').2.reconciler.actual.get? entry.1 =
                host.reconciler.actual.get? entry.1 ∨
              Started host (AppHost.startRounds starts jitter now rest host').2 entry.2 := by
      obtain ⟨untouched, entered⟩ := ih ids nodup host'
      refine ⟨fun other absent => ?_, fun entry member => ?_⟩
      · rw [Table.keys, List.map_cons, List.mem_cons, not_or] at absent
        obtain ⟨differ, absent⟩ := absent
        exact (others other (Ne.symm differ)).trans (untouched other absent)
      · obtain rfl | member := List.mem_cons.mp member
        · have kept := untouched cid once
          obtain same | started := here
          · exact .inl (kept.actual.trans same)
          · exact .inr (started.before_alike (named.symm ▸ kept))
        · have differ : cid ≠ entry.1 := fun same => once (List.mem_map.mpr ⟨entry, member, same.symm⟩)
          have alike := others entry.1 differ
          obtain same | started := entered entry member
          · exact .inl (same.trans alike.actual)
          · exact .inr (started.after_alike ((ids entry member).symm ▸ alike))
    rw [AppHost.startRounds]
    split
    · -- already applied, or in backoff
      exact later host (fun other _ => .refl other host) (.inl rfl)
    next due =>
      have verb : (if host.reconciler.actual.has cid = true then "restart" else "start") ≠ "stop" := by
        split <;> decide
      dsimp only
      split
      next acted =>
        -- the actuator raised: nothing follows
        obtain ⟨same, others, -⟩ := actuate_touches acted
        refine ⟨fun other absent => ?_, fun entry member => .inl (by rw [same])⟩
        rw [Table.keys, List.map_cons, List.mem_cons, not_or] at absent
        exact others other (Ne.symm absent.1)
      next acted =>
        -- started: it was not at this revision, or the round would have rested
        obtain ⟨same, others, up⟩ := actuate_touches acted
        refine later _ (fun other differ => ⟨?_, (others other differ).pipelines⟩) (.inr ⟨?_, ?_, ?_⟩)
        · simp [Reconciler.succeed, same, differ]
        · intro revision has
          rw [named] at has
          simp only [Reconciler.rests, has, Option.any_some, Bool.or_eq_true, decide_eq_true_eq, not_or] at due
          exact not_le.mp due.1
        · simp [Reconciler.succeed, named]
        · rw [named]
          exact up verb rfl
      next acted =>
        -- refused: the old revision stays known, and the failure is counted
        obtain ⟨same, others, -⟩ := actuate_touches acted
        refine later _ (fun other differ => ⟨?_, (others other differ).pipelines⟩) (.inl ?_)
        · simp [Reconciler.fail, same]
        · simp [Reconciler.fail, same]

theorem actuate_stop (cid : Int) (host : AppHost) :
    AppHost.actuate starts "stop" cid host = (.ok true, { host with pipelines := host.pipelines.pop cid }) := by
  simp [AppHost.actuate, AppHost.actuator, AppHost.release]

variable (starts) in
/-- The stop loop forgets cameras, and none that is desired. -/
theorem stopRounds_forgets (desired : Table Camera) (cids : List Int) (host : AppHost) (cid : Int) :
    ((AppHost.stopRounds starts desired cids host).2.reconciler.actual.get? cid = none ∨
        (AppHost.stopRounds starts desired cids host).2.reconciler.actual.get? cid = host.reconciler.actual.get? cid) ∧
      (desired.has cid = true → Alike cid host (AppHost.stopRounds starts desired cids host).2) := by
  induction cids generalizing host with
  | nil => exact ⟨.inr rfl, fun _ => .refl cid host⟩
  | cons first rest ih =>
    rw [AppHost.stopRounds]
    split
    · exact ih host
    next unwanted =>
      rw [actuate_stop]
      obtain ⟨forgets, keeps⟩ :=
        ih { host with pipelines := host.pipelines.pop first, reconciler := host.reconciler.forget first }
      dsimp only at forgets keeps ⊢
      constructor
      · obtain gone | same := forgets
        · exact .inl gone
        · rw [same]
          simp only [Reconciler.forget, Table.get?_pop]
          split
          · exact .inl rfl
          · exact .inr rfl
      · intro wanted
        have differ : first ≠ cid := fun here => unwanted (here ▸ wanted)
        have alike : Alike cid host
            { host with pipelines := host.pipelines.pop first, reconciler := host.reconciler.forget first } :=
          ⟨by simp [Reconciler.forget, differ], by simp [differ]⟩
        exact alike.trans (keeps wanted)

/-- Of a camera that is desired, a pass knows in the end what its start loop knew. -/
theorem actual_reconcileOnce {rows : List Camera} {clock : ℚ} (host : AppHost) {cid : Int}
    (wanted : (Reconciler.desired rows).has cid = true) :
    (host.reconcileOnce rows starts jitter clock).2.reconciler.actual.get? cid =
      (AppHost.startRounds starts jitter (clock - host.startedAt) (Reconciler.desired rows)
        { host with desired := rows }).2.reconciler.actual.get? cid := by
  obtain ⟨passes, same⟩ := reconcileOnce_eq starts jitter rows clock host
  rw [same]
  unfold AppHost.reconcile
  dsimp only
  split
  next broken => rw [broken]
  next mid began =>
    rw [began]
    exact ((stopRounds_forgets starts (Reconciler.desired rows) (Table.keys mid.reconciler.actual) mid cid).2
      wanted).actual

/-- What a pass takes as running, it has started from its rows or took as running before. -/
theorem reconcile_knows (host : AppHost) (keyed : Keyed Camera.id host.desired) {cid revision : Int}
    (has : (host.reconcile starts jitter now).2.reconciler.actual.get? cid = some revision) :
    host.reconciler.actual.get? cid = some revision ∨ ∃ cam ∈ host.desired, cam.enabled = true ∧ cam.id = cid ∧
      cam.revision = revision ∧ Started host (host.reconcile starts jitter now).2 cam := by
  obtain ⟨untouched, entered⟩ := startRounds_starts starts jitter now
    (Reconciler.desired host.desired) (fun entry member => ((Convergence.mem_desired keyed).mp member).2.2)
    (Convergence.nodup_desired keyed) host
  -- what the start loop leaves is said of every host that agrees with it at this camera
  have started (after : AppHost)
      (alike : (Reconciler.desired host.desired).has cid = true →
        Alike cid (AppHost.startRounds starts jitter now (Reconciler.desired host.desired) host).2 after)
      (has : (AppHost.startRounds starts jitter now (Reconciler.desired host.desired) host).2.reconciler.actual.get?
        cid = some revision) :
      host.reconciler.actual.get? cid = some revision ∨ ∃ cam ∈ host.desired, cam.enabled = true ∧ cam.id = cid ∧
        cam.revision = revision ∧ Started host after cam := by
    by_cases wanted : cid ∈ Table.keys (Reconciler.desired host.desired)
    · obtain ⟨entry, member, rfl⟩ := List.mem_map.mp wanted
      obtain ⟨inside, enabled, named⟩ := (Convergence.mem_desired keyed).mp member
      obtain same | began := entered entry member
      · exact .inl (same ▸ has)
      · right
        refine ⟨entry.2, inside, enabled, named, ?_, ?_⟩
        · have taken := began.taken
          rw [named, has] at taken
          exact (Option.some.inj taken).symm
        · exact began.before_alike (named.symm ▸ alike (Table.has_iff_mem.mpr wanted))
    · exact .inl ((untouched cid wanted).actual ▸ has)
  unfold AppHost.reconcile at has ⊢
  dsimp only at has ⊢
  split at has
  next broken =>
    -- the start loop raised: the stop loop is not reached
    rw [broken] at started
    exact started _ (fun _ => .refl cid _) has
  next mid began =>
    rw [began] at started
    dsimp only at started has ⊢
    obtain ⟨forgets, keeps⟩ := stopRounds_forgets starts (Reconciler.desired host.desired)
      (Table.keys mid.reconciler.actual) mid cid
    -- a camera that is still known after the stop loop was known before it
    obtain gone | same := forgets
    · rw [gone] at has
      cases has
    · exact started _ keeps (same ▸ has)

/-- A pass that returned has stopped what is not desired. -/
theorem reconcile_stops {host after : AppHost} {actions : List Node.Action}
    (returned : host.reconcile starts jitter now = (.ok actions, after)) {cid : Int}
    (unwanted : (Reconciler.desired host.desired).has cid = false) : after.reconciler.actual.has cid = false := by
  unfold AppHost.reconcile at returned
  dsimp only at returned
  split at returned
  · cases returned
  next mid began =>
    obtain ⟨-, rfl⟩ := Prod.mk.inj returned
    rw [((stopRounds_ends _ _ _ _).2 cid).2, unwanted]
    cases runs : mid.reconciler.actual.has cid with
    | false => rfl
    | true => simp [Table.has_iff_mem.mp runs]

end Pass

/-! ## What is vouched for -/

/-- What a pass has made of a row that it read. -/
structure Applied (rows : List Cluster.CameraRow) (before : AppHost)
    (pass : Except Node.Fault (List Node.Action) × AppHost) (cam : Cluster.CameraRow) : Prop where
  read : cam ∈ rows
  started : cam.fields.enabled = true → Started before pass.2 (asDict cam)
  stopped : cam.fields.enabled = false → ∀ actions, pass.1 = .ok actions →
    pass.2.reconciler.actual.has cam.id = false ∧ pass.2.pipelines.has cam.id = false

/-- The step is a pass, and it applies the row. -/
def Applies (node : NodeVms) : NodeVms.Event → Cluster.CameraRow → Prop
  | .reconcile starts jitter clock, cam => ∃ rows, node.fetched = some rows ∧
    Applied rows node.host (node.host.reconcileOnce (rows.map asDict) starts jitter clock) cam
  | _, _ => False

variable {applied : Cluster.CameraRow → Prop}

/-- The revision of a row that was applied; or that of no row. -/
def Vouched (applied : Cluster.CameraRow → Prop) (cid revision : Int) : Prop :=
  revision ≤ 0 ∨ ∃ cam, applied cam ∧ cam.id = cid ∧ cam.revision = revision

theorem Vouched.of_applied (cam : Cluster.CameraRow) (done : applied cam) : Vouched applied cam.id cam.revision :=
  .inr ⟨cam, done, rfl, rfl⟩

theorem Vouched.mono {applied' : Cluster.CameraRow → Prop} (more : ∀ cam, applied cam → applied' cam)
    {cid revision : Int}
    (vouched : Vouched applied cid revision) : Vouched applied' cid revision := by
  obtain none | ⟨cam, done, named⟩ := vouched
  · exact .inl none
  · exact .inr ⟨cam, more cam done, named⟩

/-- What the host remembers has been applied. -/
structure Honest (applied : Cluster.CameraRow → Prop) (host : AppHost) : Prop where
  actual : ∀ cid revision, host.reconciler.actual.get? cid = some revision → Vouched applied cid revision
  disabled : ∀ cam ∈ host.desired, cam.enabled = false → Vouched applied cam.id cam.revision

theorem Honest.mono {applied' : Cluster.CameraRow → Prop} (more : ∀ cam, applied cam → applied' cam) {host : AppHost}
    (honest : Honest applied host) : Honest applied' host where
  actual cid revision has := (honest.actual cid revision has).mono more
  disabled cam member off := (honest.disabled cam member off).mono more

/-- A host that has forgotten is as honest. -/
theorem Honest.forgetting {host host' : AppHost} (honest : Honest applied host) (desired : host'.desired = host.desired)
    (actual : ∀ cid, host'.reconciler.actual.get? cid = none ∨
      host'.reconciler.actual.get? cid = host.reconciler.actual.get? cid) : Honest applied host' where
  actual cid revision has := by
    obtain gone | same := actual cid
    · rw [gone] at has
      cases has
    · exact honest.actual cid revision (same ▸ has)
  disabled cam member off := honest.disabled cam (desired ▸ member) off

theorem honest_new (epoch : Int) (startedAt : ℚ) : Honest applied (.new epoch startedAt) where
  actual _ _ none := by cases none
  disabled _ none := (List.not_mem_nil none).elim

/-- What `phases` says of one camera: its revision, and a text. -/
theorem phases_eq (host : AppHost) : ∃ say : Table (Int × String) → Camera → Table (Int × String),
    host.phases = host.desired.foldl say [] ∧ ∀ out cam, ∃ phase, say out cam = out.set cam.id
      (if cam.enabled then (host.reconciler.actual.get? cam.id).getD 0 else cam.revision, phase) := by
  refine ⟨_, rfl, fun out cam => ?_⟩
  by_cases enabled : cam.enabled = true
  · exact ⟨_, (if_neg (by simp [enabled])).trans (by rw [if_pos enabled])⟩
  · exact ⟨"pending", (if_pos (by simp [enabled])).trans (by rw [if_neg enabled])⟩

/-- Each entry is that of a desired camera. -/
theorem mem_phases {host : AppHost} : ∀ entry ∈ host.phases, ∃ cam ∈ host.desired, entry.1 = cam.id ∧
    entry.2.1 = if cam.enabled then (host.reconciler.actual.get? cam.id).getD 0 else cam.revision := by
  obtain ⟨say, same, sets⟩ := phases_eq host
  rw [same]
  refine List.foldlRecOn host.desired _ (motive := fun out : Table (Int × String) => ∀ entry ∈ out,
    ∃ cam ∈ host.desired, entry.1 = cam.id ∧
      entry.2.1 = if cam.enabled then (host.reconciler.actual.get? cam.id).getD 0 else cam.revision) ?_ ?_
  · exact fun _ none => (List.not_mem_nil none).elim
  · intro out all cam inside entry member
    obtain ⟨phase, stored⟩ := sets out cam
    rw [stored] at member
    obtain rfl | before := Table.mem_set member
    · exact ⟨cam, inside, rfl, rfl⟩
    · exact all entry before

theorem Honest.phases {host : AppHost} (honest : Honest applied host) :
    ∀ entry ∈ host.phases, Vouched applied entry.1 entry.2.1 := by
  intro entry member
  obtain ⟨cam, inside, named, revision⟩ := mem_phases entry member
  rw [named, revision]
  split
  · cases has : host.reconciler.actual.get? cam.id with
    | none => exact .inl (le_refl _)
    | some revision => exact honest.actual cam.id revision has
  next off => exact honest.disabled cam inside (by simpa using off)

/-! ## A report on its way -/

/-- The requests after the first two. -/
def Silent : Report.Request → Prop
  | .report _ => False
  | _ => True

theorem silent_conditionRounds (cams : List Camera) : (Report.conditionRounds cams).Asks Silent := by
  induction cams with
  | nil => exact .ret ()
  | cons cam rest ih =>
    unfold Report.conditionRounds
    have ask (request : Report.Request) (silent : Silent request) : (Report.ask request).Asks Silent :=
      .perform _ silent
    refine .bind (ask _ trivial) fun _ => .bind (ask _ trivial) fun reached => .bind (.ofExcept reached) fun _ => ?_
    refine .bind (ask _ trivial) fun _ => .bind (ask _ trivial) fun stored => .bind (.ofExcept stored) fun _ => ?_
    exact .bind (ask _ trivial) fun licensed => .bind (.ofExcept licensed) fun _ => ih

theorem silent_indexRounds (rows : List SegmentRow) : (Report.indexRounds rows).Asks Silent := by
  induction rows with
  | nil => exact .ret ()
  | cons row rest ih => exact .bind (.perform _ trivial) fun indexed => .bind (.ofExcept indexed) fun _ => ih

/-- What is still to come of a report that has begun writes no revision but those that are `written`. -/
inductive Writes (written : Int → Int → Prop) : Report.Program Unit → Prop where
  | begins : Writes written Report.reportOnce
  | writing {label rows next} (allowed : ∀ entry ∈ rows, written entry.1 entry.2.1)
      (silent : ∀ answer, (next answer).Asks Silent) : Writes written (.call label (.report rows) next)
  | silent {p} (silent : p.Asks Silent) : Writes written p

variable {written : Int → Int → Prop}

theorem Writes.mono {written' : Int → Int → Prop} (more : ∀ cid revision, written cid revision → written' cid revision)
    {p : Report.Program Unit} (writes : Writes written p) : Writes written' p := by
  cases writes with
  | begins => exact .begins
  | writing allowed silent => exact .writing (fun entry member => more _ _ (allowed entry member)) silent
  | silent silent => exact .silent silent

/-- The revisions that the report takes down are those of the host at that moment. -/
theorem writes_reportOnce {host : AppHost} (phases : ∀ entry ∈ host.phases, written entry.1 entry.2.1)
    {outcome : Report.Outcome} {now : ℚ} {tables : Tables} :
    Writes written (Proc.advance (NodeVms.handler outcome now) (Report.reportOnce, host, tables)).1 := by
  refine .writing ?_ fun reported => ?_
  · simp only [List.mem_map]
    rintro _ ⟨entry, member, rfl⟩
    exact phases entry member
  · show Proc.Asks Silent (Proc.ofExcept reported >>= fun _ => Report.ask .recollect >>= fun host =>
      Report.conditionRounds host.desired >>= fun _ => Report.ask .take >>= Report.indexRounds)
    refine .bind (.ofExcept reported) fun _ => .bind (.perform _ trivial) fun _ => ?_
    exact .bind (silent_conditionRounds _) fun _ => .bind (.perform _ trivial) silent_indexRounds

theorem distinct_self (fields : Cluster.CameraFields) : distinct fields fields = false := by simp [distinct]

/-- What a call of the report can do to the tables. -/
theorem handler_follows (outcome : Report.Outcome) (now : ℚ) (request : Report.Request) (host : AppHost)
    (tables : Tables)
    (allowed : ∀ rows, request = .report rows → ∀ entry ∈ rows, written entry.1 entry.2.1) :
    Follows written tables (NodeVms.handler outcome now request (host, tables)).2.2 := by
  cases request with
  | recollect | take => exact .refl tables
  | report rows =>
    cases outcome with
    | refused => exact .refl tables
    | done | unanswered => exact follows_report rows now (allowed rows rfl)
  | setCondition camera condition status reason =>
    cases outcome with
    | refused => exact .refl tables
    | done | unanswered => exact .of_cameras rfl (le_refl _)
  | indexSegment row =>
    obtain ⟨segments, same⟩ := NodeVms.handler_indexSegment outcome now row host tables
    rw [same]
    exact .of_cameras rfl (le_refl _)

/-- A report moves no revision. -/
theorem desired_report (rows : List (Int × Int × String)) (now : ℚ) (tables : Tables) :
    (PgStore.report rows now tables).cameras.map Row.desired = tables.cameras.map Row.desired := by
  unfold PgStore.report
  induction rows generalizing tables with
  | nil => rfl
  | cons entry rest ih =>
    rw [List.foldl_cons, ih]
    simp only [Tables.update, List.map_map]
    refine List.map_congr_left fun row _ => ?_
    simp only [Function.comp_apply]
    split
    · simp [bumpRevision, distinct_self, Row.desired]
    · rfl

/-- A report moves nothing that a fetch reads. -/
theorem fetchDesired_handler (outcome : Report.Outcome) (now : ℚ) (request : Report.Request) (host : AppHost)
    (tables : Tables) :
    fetchDesired (NodeVms.handler outcome now request (host, tables)).2.2 = fetchDesired tables := by
  cases request with
  | recollect | take => rfl
  | report rows =>
    cases outcome with
    | refused => rfl
    | done | unanswered =>
      show fetchDesired (PgStore.report rows now tables) = _
      rw [fetchDesired, desired_report]
      rfl
  | setCondition camera condition status reason => cases outcome <;> rfl
  | indexSegment row =>
    obtain ⟨segments, same⟩ := NodeVms.handler_indexSegment outcome now row host tables
    rw [same]
    rfl

/-- A report takes one step, or another begins. -/
theorem reports_follows {node : NodeVms} (writes : Writes written node.report)
    (phases : ∀ entry ∈ node.host.phases, written entry.1 entry.2.1) (outcome : Report.Outcome) (now : ℚ) :
    ∃ pendingIndex tables report,
      node.reports outcome now = { node with host := { node.host with pendingIndex }, tables, report } ∧
        Follows written node.tables tables ∧ fetchDesired tables = fetchDesired node.tables ∧
        Writes written report := by
  obtain ⟨host, tables, fetched, report, stopping⟩ := node
  -- a call that writes what may be written, and leaves a report that does
  have calls {label request next} (called : report = .call label request next)
      (allowed : ∀ rows, request = .report rows → ∀ entry ∈ rows, written entry.1 entry.2.1)
      (later : Writes written (Proc.advance (NodeVms.handler outcome now) (report, host, tables)).1) :
      ∃ pendingIndex tables' report', NodeVms.reports ⟨host, tables, fetched, report, stopping⟩ outcome now =
          ⟨{ host with pendingIndex }, tables', fetched, report', stopping⟩ ∧
        Follows written tables tables' ∧ fetchDesired tables' = fetchDesired tables ∧ Writes written report' := by
    subst called
    obtain ⟨pendingIndex, same⟩ := NodeVms.handler_host outcome now request host tables
    refine ⟨pendingIndex, _, _, ?_, handler_follows outcome now request host tables allowed,
      fetchDesired_handler outcome now request host tables, later⟩
    rw [← same]
    rfl
  cases writes with
  | begins =>
    -- the phases are taken now
    exact calls rfl (fun _ none => by cases none) (writes_reportOnce phases)
  | writing allowed silent =>
    -- the rows were taken down before; they may still be written
    refine calls rfl (fun _ same => ?_) (.silent (silent _))
    cases same
    exact allowed
  | silent silent =>
    cases report with
    | ret value | raise error =>
      unfold NodeVms.reports NodeVms.loops
      dsimp only
      split
      · exact ⟨host.pendingIndex, tables, _, rfl, .refl tables, rfl, .silent silent⟩
      · exact ⟨host.pendingIndex, tables, _, rfl, .refl tables, rfl, .begins⟩
    | call label request next =>
      -- conditions and segments: no revision is written
      refine calls rfl (fun _ same => ?_) (.silent (silent.2 _))
      cases same
      exact silent.1.elim

/-! ## The Node -/

/-- What holds of a Node in every run, where `applied` are the rows that a pass has applied. -/
structure Kept (applied : Cluster.CameraRow → Prop) (node : NodeVms) : Prop where
  numbered : Numbered node.tables
  fits : ∀ cam, applied cam → Fits node.tables cam
  observed : ∀ row ∈ node.tables.cameras, Vouched applied row.id row.observedRevision
  keyed : ∀ rows, node.fetched = some rows → Keyed Cluster.CameraRow.id rows
  fetched : ∀ rows, node.fetched = some rows → ∀ cam ∈ rows, Fits node.tables cam
  honest : Honest applied node.host
  tracked : Tracked node.host
  report : Writes (Vouched applied) node.report

theorem fits_desired {tables : Tables} (numbered : Numbered tables) {row : Row} (member : row ∈ tables.cameras) :
    Fits tables row.desired where
  drawn := numbered.drawn row member
  current other inside named := by
    obtain rfl : other = row := numbered.keyed.eq_of_key inside member named
    exact ⟨le_refl _, fun _ => rfl⟩

theorem keyed_fetchDesired {tables : Tables} (numbered : Numbered tables) :
    Keyed Cluster.CameraRow.id (fetchDesired tables) := by
  have mapped : Keyed Cluster.CameraRow.id (tables.cameras.map Row.desired) := by
    unfold Keyed
    rw [List.map_map]
    exact numbered.keyed
  exact mapped.perm (List.perm_insertionSort _ _).symm

theorem fits_fetchDesired {tables : Tables} (numbered : Numbered tables) :
    ∀ cam ∈ fetchDesired tables, Fits tables cam := by
  intro cam member
  obtain ⟨row, inside, rfl⟩ := List.mem_map.mp ((List.mem_insertionSort _).mp member)
  exact fits_desired numbered inside

variable {node : NodeVms}

theorem Kept.tables {tables : Tables} (kept : Kept applied node)
    (follows : Follows (Vouched applied) node.tables tables) : Kept applied { node with tables := tables } where
  numbered := follows.numbered kept.numbered
  fits cam done := follows.fits (kept.fits cam done)
  observed row' member := by
    obtain fresh | ⟨row, before, moved⟩ := follows.rows row' member
    · obtain none | wrote := fresh.observed
      · exact .inl (le_of_eq none)
      · exact wrote
    · rw [moved.id]
      obtain same | wrote := moved.observed
      · rw [same]
        exact kept.observed row before
      · exact wrote
  keyed := kept.keyed
  fetched rows fetched cam member := follows.fits (kept.fetched rows fetched cam member)
  honest := kept.honest
  tracked := kept.tracked
  report := kept.report

theorem Kept.host (kept : Kept applied node) (host : AppHost) (honest : Honest applied host) (tracked : Tracked host) :
    Kept applied { node with host := host } := { kept with honest := honest, tracked := tracked }

/-! ### A pass -/

section Pass

variable {starts : AppHost.Starts} {jitter : Int → ℚ} {clock : ℚ} {rows : List Cluster.CameraRow} {host : AppHost}

theorem keyed_asDict (keyed : Keyed Cluster.CameraRow.id rows) : Keyed Camera.id (rows.map asDict) := by
  unfold Keyed
  rw [List.map_map]
  exact keyed

theorem started_applied (keyed : Keyed Cluster.CameraRow.id rows) {cid revision : Int}
    (has : (host.reconcileOnce (rows.map asDict) starts jitter clock).2.reconciler.actual.get? cid = some revision) :
    host.reconciler.actual.get? cid = some revision ∨
      Vouched (Applied rows host (host.reconcileOnce (rows.map asDict) starts jitter clock)) cid revision := by
  obtain ⟨passes, same⟩ := reconcileOnce_eq starts jitter (rows.map asDict) clock host
  rw [same] at has
  have knows := reconcile_knows { host with desired := rows.map asDict } (keyed_asDict keyed) has
  obtain before | ⟨_, member, enabled, rfl, rfl, started⟩ := knows
  · exact .inl before
  · obtain ⟨cam, inside, rfl⟩ := List.mem_map.mp member
    right
    refine .of_applied cam ⟨inside, fun _ => ?_, fun off => ?_⟩
    · rw [same]
      exact ⟨started.behind, started.taken, started.runs⟩
    · have on : cam.fields.enabled = true := enabled
      rw [on] at off
      cases off

theorem disabled_stops (keyed : Keyed Cluster.CameraRow.id rows) {cam : Cluster.CameraRow} (inside : cam ∈ rows)
    (off : cam.fields.enabled = false) {actions : List Node.Action} {after : AppHost}
    (returned : host.reconcileOnce (rows.map asDict) starts jitter clock = (.ok actions, after)) :
    after.reconciler.actual.has cam.id = false := by
  have unwanted : (Reconciler.desired (rows.map asDict)).has cam.id = false := by
    rw [Bool.eq_false_iff]
    intro wanted
    obtain ⟨_, member, enabled, named⟩ := (Reconciler.has_desired _ _).mp wanted
    obtain ⟨other, there, rfl⟩ := List.mem_map.mp member
    obtain rfl : other = cam := keyed.eq_of_key there inside named
    have on : other.fields.enabled = true := enabled
    rw [off] at on
    cases on
  unfold AppHost.reconcileOnce at returned
  split at returned
  next ended =>
    cases returned
    exact reconcile_stops ended unwanted
  next failed =>
    exact (failed _ _ returned).elim

theorem Kept.reconcile (kept : Kept applied node) (fetched : node.fetched = some rows) :
    Kept (fun cam => applied cam ∨
        Applied rows node.host (node.host.reconcileOnce (rows.map asDict) starts jitter clock) cam)
      { node with
        host := (node.host.reconcileOnce (rows.map asDict) starts jitter clock).2
        fetched := none } := by
  have keyed := kept.keyed rows fetched
  have tracked : Tracked (node.host.reconcileOnce (rows.map asDict) starts jitter clock).2 :=
    kept.tracked.step (.reconcile (rows.map asDict) starts jitter clock)
  refine
    { numbered := kept.numbered
      fits := fun cam done => done.elim (kept.fits cam) fun now => kept.fetched rows fetched cam now.read
      observed := fun row member => (kept.observed row member).mono fun _ => .inl
      keyed := fun _ none => by cases none
      fetched := fun _ none => by cases none
      honest := ⟨fun cid revision has => ?_, fun cam member off => ?_⟩
      tracked := tracked
      report := kept.report.mono fun _ _ vouched => vouched.mono fun _ => .inl }
  · obtain before | vouched := started_applied keyed has
    · exact (kept.honest.actual cid revision before).mono fun _ => .inl
    · exact vouched.mono fun _ => .inr
  · rw [desired_reconcileOnce] at member
    obtain ⟨row, inside, rfl⟩ := List.mem_map.mp member
    -- what the stop loop has let go of has no pipeline
    refine Vouched.of_applied row (.inr ⟨inside, fun on => ?_, fun _ actions returned => ?_⟩)
    · have off : row.fields.enabled = false := off
      rw [on] at off
      cases off
    · have gone := disabled_stops keyed inside off (Prod.ext returned rfl)
      refine ⟨gone, Bool.eq_false_iff.mpr fun runs => ?_⟩
      rw [tracked _ runs] at gone
      cases gone

theorem get?_lost (dead : List Int) (loop : Reconciler) (cid : Int) :
    (dead.foldl (fun loop cid => loop.lost cid clock (jitter cid)) loop).actual.get? cid = none ∨
      (dead.foldl (fun loop cid => loop.lost cid clock (jitter cid)) loop).actual.get? cid = loop.actual.get? cid := by
  induction dead generalizing loop with
  | nil => exact .inr rfl
  | cons first rest ih =>
    rw [List.foldl_cons]
    obtain gone | same := ih (loop.lost first clock (jitter first))
    · exact .inl gone
    · rw [same]
      simp only [Reconciler.lost, Reconciler.forget, Reconciler.fail, Table.get?_pop]
      split
      · exact .inl rfl
      · exact .inr rfl

end Pass

/-! ### A report -/

theorem Kept.loops {does : NodeVms} (kept : Kept applied node) (kept' : Kept applied does) :
    Kept applied (node.loops does) := by
  unfold NodeVms.loops
  split
  · exact kept
  · exact kept'

theorem Kept.reports (kept : Kept applied node) (outcome : Report.Outcome) (now : ℚ) :
    Kept applied (node.reports outcome now) := by
  obtain ⟨pendingIndex, tables, report, same, follows, -, writes⟩ :=
    reports_follows kept.report kept.honest.phases outcome now
  rw [same]
  have moved := (kept.tables follows).host { node.host with pendingIndex := pendingIndex }
    ⟨kept.honest.actual, kept.honest.disabled⟩ kept.tracked
  exact { moved with report := writes }

/-! ### Runs -/

theorem Kept.step (kept : Kept applied node) (event : NodeVms.Event) :
    Kept (fun cam => applied cam ∨ Applies node event cam) (node.step event) := by
  have others {node' : NodeVms} (kept' : Kept applied node') (none : ∀ cam, ¬ Applies node event cam) :
      Kept (fun cam => applied cam ∨ Applies node event cam) node' := by
    simpa only [none, or_false] using kept'
  cases event with
  | createCamera fields encrypt => exact others (kept.tables (follows_createCamera fields encrypt)) fun _ => id
  | updateCamera cid fields encrypt => exact others (kept.tables (follows_updateCamera cid fields encrypt)) fun _ => id
  | deleteCamera cid => exact others (kept.tables (follows_deleteCamera cid)) fun _ => id
  | upsertSite siteId name => exact others (kept.tables (follows_upsertSite siteId name)) fun _ => id
  | fetch =>
    refine others (kept.loops ?_) fun _ => id
    exact
      { kept with
        keyed := fun rows same => by
          cases same
          exact keyed_fetchDesired kept.numbered
        fetched := fun rows same => by
          cases same
          exact fits_fetchDesired kept.numbered }
  | reconcile starts jitter clock =>
    cases fetched : node.fetched with
    | none =>
      have idle : node.step (.reconcile starts jitter clock) = node := by simp [NodeVms.step, fetched]
      rw [idle]
      refine others kept fun cam => ?_
      rintro ⟨rows, same, -⟩
      rw [fetched] at same
      cases same
    | some rows =>
      have passed : node.step (.reconcile starts jitter clock) =
          { node with
            host := (node.host.reconcileOnce (rows.map asDict) starts jitter clock).2
            fetched := none } := by
        simp [NodeVms.step, fetched]
      have same : (fun cam => applied cam ∨ Applies node (.reconcile starts jitter clock) cam) =
          fun cam => applied cam ∨
            Applied rows node.host (node.host.reconcileOnce (rows.map asDict) starts jitter clock) cam := by
        simp [Applies, fetched]
      rw [passed, same]
      exact kept.reconcile fetched
  | report outcome now => exact others (kept.reports outcome now) fun _ => id
  | pump bus jitter clock =>
    refine others (kept.loops (kept.host _ ?_ ?_)) fun _ => id
    · -- what is lost is forgotten, and nothing else becomes known
      exact kept.honest.forgetting rfl fun cid => get?_lost _ _ cid
    · exact kept.tracked.step (.pump bus jitter clock)
  | retention allowed =>
    refine others (kept.loops (kept.host _ ?_ ?_)) fun _ => id
    · unfold AppHost.retained
      split
      · exact ⟨kept.honest.actual, kept.honest.disabled⟩
      · exact kept.honest
    · exact kept.tracked.step (.retention allowed)
  | segmentClosed cid start end_ path bytes =>
    exact others (kept.host _ ⟨kept.honest.actual, kept.honest.disabled⟩ kept.tracked) fun _ => id
  | stop =>
    -- the loops are cancelled, the pass on its way among them; a last report begins
    refine others ?_ fun _ => id
    exact
      { kept with
        keyed := fun _ none => by cases none
        fetched := fun _ none => by cases none
        honest := ⟨kept.honest.actual, kept.honest.disabled⟩
        tracked := fun _ runs => by cases runs
        report := .begins }
  | boot epoch startedAt =>
    -- the tables are all that is left of the process before
    refine others ?_ fun _ => id
    exact
      { kept with
        keyed := fun _ none => by cases none
        fetched := fun _ none => by cases none
        honest := honest_new epoch startedAt
        tracked := fun _ runs => by cases runs
        report := .silent trivial }

theorem kept_new (epoch : Int) (startedAt : ℚ) : Kept (fun _ => False) (.new epoch startedAt PgStore.empty) where
  numbered := numbered_empty
  fits _ none := none.elim
  observed _ none := (List.not_mem_nil none).elim
  keyed _ none := by cases none
  fetched _ none := by cases none
  honest := honest_new epoch startedAt
  tracked _ runs := by cases runs
  report := .silent trivial

theorem kept_run (epoch : Int) (startedAt : ℚ) (events : List NodeVms.Event) :
    Kept (fun cam => Past NodeVms.step (.new epoch startedAt PgStore.empty)
        (fun node event => Applies node event cam) events)
      (events.foldl NodeVms.step (.new epoch startedAt PgStore.empty)) := by
  induction events using List.reverseRecOn with
  | nil =>
    have nothing : (fun cam => Past NodeVms.step (.new epoch startedAt PgStore.empty)
        (fun node event => Applies node event cam) []) = fun _ => False := by
      simp [past_nil]
    rw [nothing]
    exact kept_new epoch startedAt
  | append_singleton events event ih =>
    simp only [past_concat, List.foldl_append, List.foldl_cons, List.foldl_nil]
    exact ih.step event

/-! ## The console -/

/-- Where the console says a camera is converged, the row is one that a pass has applied. -/
theorem Kept.converged (kept : Kept applied node) {row : Row} (member : row ∈ node.tables.cameras)
    (behind : row.revision - row.observedRevision ≤ 0) : applied row.desired := by
  have positive := kept.numbered.revisions row member
  obtain none | ⟨cam, done, named, revision⟩ := kept.observed row member
  · omega
  · obtain ⟨least, same⟩ := (kept.fits cam done).current row member named.symm
    rw [← same (by omega)]
    exact done

/-- No report runs ahead of its row. -/
theorem Kept.lag (kept : Kept applied node) {row : Row} (member : row ∈ node.tables.cameras) :
    0 ≤ row.revision - row.observedRevision := by
  have positive := kept.numbered.revisions row member
  obtain none | ⟨cam, done, named, revision⟩ := kept.observed row member
  · omega
  · have least := ((kept.fits cam done).current row member named.symm).1
    omega

theorem lag_of_converged {reportInterval now : ℚ} {conditions : List ConditionRow} {row : StatusRow}
    (converged : (Console.cameraStatus reportInterval now conditions row).position = .converged) : row.lag ≤ 0 := by
  unfold Console.cameraStatus at converged
  dsimp only at converged
  split at converged
  · cases converged
  · split at converged
    next none => exact none
    · split at converged <;> cases converged

/-- A pass of the run has applied the row. -/
def AppliedBefore (start : NodeVms) (events : List NodeVms.Event) (cam : Cluster.CameraRow) : Prop :=
  ∃ first starts jitter clock rest rows, events = first ++ .reconcile starts jitter clock :: rest ∧
    (first.foldl NodeVms.step start).fetched = some rows ∧
    Applied rows (first.foldl NodeVms.step start).host
      ((first.foldl NodeVms.step start).host.reconcileOnce (rows.map asDict) starts jitter clock) cam

/-- In every run of a Node, however its edits, passes, reports and crashes come: the console never shows a camera
ahead of its row, and where it says that a camera is converged, an earlier pass has read that very row, with the
columns that it has now, and started its pipeline from it, or let go of it if it is disabled. -/
theorem converged_was_applied (epoch : Int) (startedAt : ℚ) (events : List NodeVms.Event) (asked : ℚ)
    (reportInterval now : ℚ) (conditions : List ConditionRow) :
    ∀ camera ∈ (Console.buildStatus reportInterval now
        (PgStore.status asked (events.foldl NodeVms.step (.new epoch startedAt PgStore.empty)).tables) conditions).2,
      0 ≤ camera.lag ∧ (camera.position = .converged →
        ∃ row ∈ (events.foldl NodeVms.step (.new epoch startedAt PgStore.empty)).tables.cameras, row.id = camera.id ∧
          AppliedBefore (.new epoch startedAt PgStore.empty) events row.desired) := by
  have kept := kept_run epoch startedAt events
  intro camera member
  obtain ⟨_, inside, rfl⟩ := List.mem_map.mp member
  obtain ⟨row, sorted, rfl⟩ := List.mem_map.mp inside
  have there := (List.mem_insertionSort _).mp sorted
  refine ⟨kept.lag there, fun converged => ⟨row, there, rfl, ?_⟩⟩
  obtain ⟨first, event, rest, split, applies⟩ := kept.converged there (lag_of_converged converged)
  cases event with
  | reconcile starts jitter clock =>
    obtain ⟨rows, fetched, done⟩ := applies
    exact ⟨first, starts, jitter, clock, rest, rows, split, fetched, done⟩
  | _ => exact applies.elim

/-- A camera that is added, started and reported. -/
def watched : List NodeVms.Event :=
  [.createCamera [("name", .text "gate"), ("rtsp_url", .text "rtsp://gate/1")] fun _ _ => .error .actuator, .fetch,
    .reconcile (fun _ => .ok true) (fun _ => 0) 1, .report .done 2, .report .done 2, .report .done 2]

theorem converged_was_applied_watched :
    ∃ camera ∈ (Console.buildStatus 5 3
        (PgStore.status 3 (watched.foldl NodeVms.step (.new 1 0 PgStore.empty)).tables) []).2,
      camera.position = .converged ∧
        ∃ row ∈ (watched.foldl NodeVms.step (.new 1 0 PgStore.empty)).tables.cameras, row.id = camera.id ∧
          AppliedBefore (.new 1 0 PgStore.empty) watched row.desired := by
  have positions : (Console.buildStatus 5 3
      (PgStore.status 3 (watched.foldl NodeVms.step (.new 1 0 PgStore.empty)).tables) []).2.map (·.position) =
        [.converged] := by decide +kernel
  obtain ⟨camera, member, converged⟩ := List.mem_map.mp (positions.symm ▸ List.mem_cons_self)
  exact ⟨camera, member, converged, (converged_was_applied 1 0 watched 3 5 3 [] camera member).2 converged⟩

end EdgeVms.Verified.Observed
