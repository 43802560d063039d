import EdgeVms.Verified.Node.Observed

/-! # When the edits stop

Whatever has happened to a Node before: one fetch, one pass in which every start is accepted, and
one report bring each camera to where the console says that it is converged.
-/

namespace EdgeVms.Verified.Settles

open Process Python Vms Node PgStore
open Process.Rows (Keyed)

/-! ## A pass that is accepted -/

section Pass

variable {starts : AppHost.Starts} {jitter : Int → ℚ} {now : ℚ}

/-- No camera waits to be tried again. -/
def Rested (now : ℚ) (host : AppHost) : Prop :=
  ∀ cid failure, host.reconciler.failures.get? cid = some failure → failure.retryAt ≤ now

variable (jitter) in
/-- Each camera of the table runs in the end, at its revision or a later one. -/
theorem startRounds_accepted (entries : List (Int × Camera)) (nodup : (Table.keys entries).Nodup)
    (accepts : ∀ entry ∈ entries, starts entry.1 = .ok true) {host : AppHost} (rested : Rested now host)
    (recording : host.recordingAllowed = true) :
    (∀ cid ∉ Table.keys entries, (AppHost.startRounds starts jitter now entries host).2.reconciler.actual.get? cid =
        host.reconciler.actual.get? cid) ∧
      ∀ entry ∈ entries, Convergence.Applied (AppHost.startRounds starts jitter now entries host).2.reconciler entry.1
        entry.2 := by
  induction entries generalizing host with
  | nil => exact ⟨fun _ _ => rfl, fun _ none => (List.not_mem_nil none).elim⟩
  | cons entry rest ih =>
    obtain ⟨cid, cam⟩ := entry
    obtain ⟨accepted, accepts⟩ := List.forall_mem_cons.mp accepts
    obtain ⟨once, nodup⟩ := List.nodup_cons.mp nodup
    have accepted : starts cid = .ok true := accepted
    rw [AppHost.startRounds]
    split
    next rests =>
      -- no backoff is left, so what rests is applied
      obtain ⟨others, applied⟩ := ih nodup accepts rested recording
      refine ⟨fun other absent => others other fun inside => absent (.tail _ inside), fun entry member => ?_⟩
      obtain rfl | later := List.mem_cons.mp member
      · obtain ⟨revision, has, least⟩ := (Convergence.rests_iff (rested cid)).mp rests
        exact ⟨revision, (others cid once).trans has, least⟩
      · exact applied entry later
    next =>
      have starting : (if host.reconciler.actual.has cid = true then "restart" else "start") ≠ "stop" := by
        split <;> decide
      dsimp only
      generalize (if host.reconciler.actual.has cid = true then "restart" else "start") = verb at starting ⊢
      have acted : AppHost.actuate starts verb cid host =
          (.ok true,
            { host with pipelines := (AppHost.release verb cid host.pipelines).set cid ⟨.starting, none⟩ }) := by
        simp [AppHost.actuate, AppHost.actuator, recording, starting, accepted]
      rw [acted]
      dsimp only
      -- a start that is accepted forgets a failure and adds none
      have rested' : Rested now { host with
          pipelines := (AppHost.release verb cid host.pipelines).set cid ⟨.starting, none⟩
          reconciler := host.reconciler.succeed cid cam.revision } := by
        intro other failure waits
        simp only [Reconciler.succeed, Table.get?_pop] at waits
        split at waits
        · cases waits
        · exact rested other failure waits
      obtain ⟨others, applied⟩ := ih nodup accepts rested' recording
      refine ⟨fun other absent => ?_, fun entry member => ?_⟩
      · rw [others other fun inside => absent (.tail _ inside)]
        have differ : cid ≠ other := by
          rintro rfl
          exact absent (.head _)
        simp [Reconciler.succeed, differ]
      · obtain rfl | later := List.mem_cons.mp member
        · refine ⟨cam.revision, (others cid once).trans ?_, le_refl _⟩
          simp [Reconciler.succeed]
        · exact applied entry later

theorem reconcileOnce_accepted {rows : List Camera} {clock : ℚ} {host : AppHost} (keyed : Keyed Camera.id rows)
    (accepts : ∀ cam ∈ rows, starts cam.id = .ok true) (recording : host.recordingAllowed = true)
    (rested : Rested (clock - host.startedAt) host) {cam : Camera} (inside : cam ∈ rows)
    (enabled : cam.enabled = true) :
    Convergence.Applied (host.reconcileOnce rows starts jitter clock).2.reconciler cam.id cam := by
  have accepts' : ∀ entry ∈ Reconciler.desired rows, starts entry.1 = .ok true := by
    intro entry member
    obtain ⟨there, -, named⟩ := (Convergence.mem_desired keyed).mp member
    exact named ▸ accepts entry.2 there
  have member : (cam.id, cam) ∈ Reconciler.desired rows := (Convergence.mem_desired keyed).mpr ⟨inside, enabled, rfl⟩
  have wanted : (Reconciler.desired rows).has cam.id = true :=
    Table.has_iff_mem.mpr (List.mem_map_of_mem member)
  have rested' : Rested (clock - host.startedAt) { host with desired := rows } := rested
  obtain ⟨revision, has, least⟩ := (startRounds_accepted jitter (Reconciler.desired rows)
    (Convergence.nodup_desired keyed) accepts' rested' recording).2 _ member
  exact ⟨revision, (Observed.actual_reconcileOnce host wanted).trans has, least⟩

end Pass

/-! ## A report of what is applied -/

section Report

/-- The row is reported at its revision. -/
structure Reported (now : ℚ) (row : Row) : Prop where
  revision : row.observedRevision = row.revision
  seen : row.lastSeen = some now

/-- A row for which the report has an entry, and none with another revision, is reported at its revision. -/
theorem reported_report {rows : List (Int × Int × String)} {now : ℚ} {tables : Tables} (done : Int → Prop)
    (right : ∀ entry ∈ rows, ∀ row ∈ tables.cameras, row.id = entry.1 → row.revision = entry.2.1)
    (already : ∀ row ∈ tables.cameras, done row.id → Reported now row) :
    ∀ row ∈ (PgStore.report rows now tables).cameras, done row.id ∨ row.id ∈ rows.map Prod.fst → Reported now row := by
  induction rows generalizing tables done with
  | nil =>
    intro row member
    simpa using already row member
  | cons entry rest ih =>
    obtain ⟨here, right⟩ := List.forall_mem_cons.mp right
    intro row member named
    have named : (done row.id ∨ row.id = entry.1) ∨ row.id ∈ rest.map Prod.fst := by
      simpa [or_assoc] using named
    -- once the first entry is written, its camera is one of those that are done
    refine @ih (tables.update entry.1 fun row =>
        { row with observedRevision := entry.2.1, phase := entry.2.2, lastSeen := some now })
      (fun cid => done cid ∨ cid = entry.1) ?_ ?_ row member named
    · intro later member row inside named
      simp only [Tables.update, List.mem_map] at inside
      obtain ⟨row, inside, rfl⟩ := inside
      split at named
      · rw [if_pos ‹_›]
        simp only [bumpRevision, Observed.distinct_self, Bool.false_eq_true, if_false] at named ⊢
        exact right later member row inside named
      · rw [if_neg ‹_›]
        exact right later member row inside named
    · intro row inside named
      simp only [Tables.update, List.mem_map] at inside
      obtain ⟨row, inside, rfl⟩ := inside
      split at named
      next same =>
        rw [if_pos same]
        simp only [bumpRevision, Observed.distinct_self, Bool.false_eq_true, if_false]
        exact ⟨(here row inside same).symm, rfl⟩
      next other =>
        rw [if_neg other]
        exact already row inside (named.resolve_right other)

theorem has_foldl {say : Table (Int × String) → Camera → Table (Int × String)}
    (sets : ∀ out cam, ∃ entry, say out cam = out.set cam.id entry) (cams : List Camera)
    (out : Table (Int × String)) (cid : Int) :
    (cams.foldl say out).has cid = true ↔ out.has cid = true ∨ ∃ cam ∈ cams, cam.id = cid := by
  induction cams generalizing out with
  | nil => simp
  | cons cam rest ih =>
    obtain ⟨entry, same⟩ := sets out cam
    rw [List.foldl_cons, ih, same, Table.has_set, Bool.or_eq_true, decide_eq_true_eq]
    simp only [List.mem_cons, exists_eq_or_imp]
    tauto

/-- Every desired camera is reported, and at the revision of its row. -/
theorem phases_applied {host : AppHost} (applied : ∀ cam ∈ host.desired, cam.enabled = true →
      host.reconciler.actual.get? cam.id = some cam.revision) :
    (∀ entry ∈ host.phases, ∃ cam ∈ host.desired, cam.id = entry.1 ∧ cam.revision = entry.2.1) ∧
      ∀ cam ∈ host.desired, cam.id ∈ Table.keys host.phases := by
  constructor
  · intro entry member
    obtain ⟨cam, inside, named, revision⟩ := Observed.mem_phases entry member
    refine ⟨cam, inside, named.symm, ?_⟩
    rw [revision]
    split
    next enabled => rw [applied cam inside enabled, Option.getD_some]
    next => rfl
  · intro cam inside
    obtain ⟨say, same, sets⟩ := Observed.phases_eq host
    rw [← Table.has_iff_mem, same, has_foldl fun out cam => ⟨_, (sets out cam).choose_spec⟩]
    exact .inr ⟨cam, inside, rfl⟩

end Report

/-! ## The quiet Node -/

/-- The host has read the rows that there are, and applied them. -/
structure Ready (node : NodeVms) : Prop where
  running : node.stopping = false
  fetched : node.fetched = none
  desired : node.host.desired = (fetchDesired node.tables).map asDict
  applied : ∀ cam ∈ node.host.desired, cam.enabled = true →
    node.host.reconciler.actual.get? cam.id = some cam.revision

theorem Ready.reports {node : NodeVms} (ready : Ready node) (outcome : Report.Outcome) (now : ℚ) :
    Ready (node.step (.report outcome now)) := by
  obtain ⟨host, tables, fetched, report, stopping⟩ := node
  obtain rfl : stopping = false := ready.running
  cases report with
  | ret value | raise error => exact ⟨rfl, ready.fetched, ready.desired, ready.applied⟩
  | call label request next =>
    obtain ⟨pendingIndex, same⟩ := NodeVms.handler_host outcome now request host tables
    have fetches := Observed.fetchDesired_handler outcome now request host tables
    refine ⟨rfl, ready.fetched, ?_, ?_⟩
    · show (NodeVms.handler outcome now request (host, tables)).2.1.desired = _
      rw [same]
      refine ready.desired.trans ?_
      exact congrArg (List.map asDict) fetches.symm
    · show ∀ cam ∈ (NodeVms.handler outcome now request (host, tables)).2.1.desired, _
      intro cam inside enabled
      show (NodeVms.handler outcome now request (host, tables)).2.1.reconciler.actual.get? cam.id = _
      rw [same] at inside ⊢
      exact ready.applied cam inside enabled

theorem Ready.run {node : NodeVms} (ready : Ready node) (calls : List (Report.Outcome × ℚ)) :
    Ready ((calls.map fun call => NodeVms.Event.report call.1 call.2).foldl NodeVms.step node) := by
  induction calls generalizing node with
  | nil => exact ready
  | cons call rest ih => exact ih (ready.reports call.1 call.2)

/-- A report that begins and is answered twice has written the phases of the host. -/
theorem reports_thrice {node : NodeVms} (running : node.stopping = false) (ended : node.report.Finished) (written : ℚ) :
    ([.report .done written, .report .done written, .report .done written].foldl NodeVms.step node).tables =
      PgStore.report (node.host.phases.map fun entry => (entry.1, entry.2.1, entry.2.2)) written node.tables := by
  obtain ⟨host, tables, fetched, report, stopping⟩ := node
  obtain rfl : stopping = false := running
  cases report with
  | ret value | raise error => rfl
  | call label request next => exact ended.elim

theorem Ready.report {node : NodeVms} (ready : Ready node) (numbered : Observed.Numbered node.tables)
    (ended : node.report.Finished) (written : ℚ) :
    ∀ row ∈ ([.report .done written, .report .done written, .report .done written].foldl NodeVms.step
      node).tables.cameras, Reported written row := by
  rw [reports_thrice ready.running ended]
  intro row member
  obtain ⟨entries, all⟩ := phases_applied ready.applied
  have known (row : Row) (inside : row.desired ∈ node.tables.cameras.map Row.desired) :
      asDict row.desired ∈ node.host.desired := by
    rw [ready.desired]
    exact List.mem_map_of_mem ((List.mem_insertionSort _).mpr inside)
  refine reported_report (fun _ => False) ?_ (fun _ _ none => none.elim) row member (.inr ?_)
  · simp only [List.mem_map]
    rintro _ ⟨entry, listed, rfl⟩ row inside named
    obtain ⟨cam, desired, id, revision⟩ := entries entry listed
    rw [ready.desired] at desired
    obtain ⟨_, sorted, rfl⟩ := List.mem_map.mp desired
    obtain ⟨other, there, rfl⟩ := List.mem_map.mp ((List.mem_insertionSort _).mp sorted)
    obtain rfl : other = row := numbered.keyed.eq_of_key there inside (id.trans named.symm)
    exact revision
  · have inside : row.desired ∈ node.tables.cameras.map Row.desired := by
      rw [← Observed.desired_report]
      exact List.mem_map_of_mem member
    obtain ⟨entry, listed, same⟩ := List.mem_map.mp (all _ (known row inside))
    exact List.mem_map.mpr ⟨_, List.mem_map.mpr ⟨entry, listed, rfl⟩, same⟩

theorem ready_pass {applied : Cluster.CameraRow → Prop} {node : NodeVms} {starts : AppHost.Starts}
    (jitter : Int → ℚ) {clock : ℚ} (kept : Observed.Kept applied node) (running : node.stopping = false)
    (recording : node.host.recordingAllowed = true) (rested : Rested (clock - node.host.startedAt) node.host)
    (accepts : ∀ row ∈ node.tables.cameras, starts row.id = .ok true) :
    Ready ((node.step .fetch).step (.reconcile starts jitter clock)) := by
  have after := (kept.step .fetch).step (.reconcile starts jitter clock)
  have stepped : (node.step .fetch).step (.reconcile starts jitter clock) =
      { node with
        host := (node.host.reconcileOnce ((fetchDesired node.tables).map asDict) starts jitter clock).2
        fetched := none } := by
    simp [NodeVms.step, NodeVms.loops, running]
  rw [stepped] at after ⊢
  have keyed := Observed.keyed_asDict (Observed.keyed_fetchDesired kept.numbered)
  have desired := desired_reconcileOnce starts jitter ((fetchDesired node.tables).map asDict) clock node.host
  have read (cam : Camera) (inside : cam ∈ (fetchDesired node.tables).map asDict) :
      ∃ row ∈ node.tables.cameras, cam = asDict row.desired := by
    obtain ⟨_, sorted, rfl⟩ := List.mem_map.mp inside
    obtain ⟨row, there, rfl⟩ := List.mem_map.mp ((List.mem_insertionSort _).mp sorted)
    exact ⟨row, there, rfl⟩
  refine ⟨running, rfl, desired, fun cam inside enabled => ?_⟩
  have inside : cam ∈ (fetchDesired node.tables).map asDict := desired ▸ inside
  have accepted : ∀ cam ∈ (fetchDesired node.tables).map asDict, starts cam.id = .ok true := by
    intro cam inside
    obtain ⟨row, there, rfl⟩ := read cam inside
    exact accepts row there
  obtain ⟨revision, has, least⟩ := reconcileOnce_accepted keyed accepted recording rested inside enabled
  obtain ⟨row, there, rfl⟩ := read cam inside
  -- what it takes as running is no later than the row
  have most : revision ≤ row.revision := by
    have positive := kept.numbered.revisions row there
    obtain none | ⟨cam, done, named, rfl⟩ := after.honest.actual _ revision has
    · omega
    · exact ((after.fits cam done).current row there named.symm).1
  obtain rfl : revision = row.revision := le_antisymm most least
  exact has

/-- A fetch, the pass after it, and what is still to come of a report that was on its way. -/
def pass (starts : AppHost.Starts) (jitter : Int → ℚ) (clock : ℚ) (calls : List (Report.Outcome × ℚ)) :
    List NodeVms.Event :=
  [.fetch, .reconcile starts jitter clock] ++ calls.map fun call => .report call.1 call.2

/-- A report, up to its `UPDATE`. -/
def report (written : ℚ) : List NodeVms.Event := [.report .done written, .report .done written, .report .done written]

theorem ready_run (epoch : Int) (startedAt : ℚ) (events : List NodeVms.Event) {starts : AppHost.Starts}
    (jitter : Int → ℚ) {clock : ℚ} (calls : List (Report.Outcome × ℚ))
    (running : (events.foldl NodeVms.step (.new epoch startedAt PgStore.empty)).stopping = false)
    (recording : (events.foldl NodeVms.step (.new epoch startedAt PgStore.empty)).host.recordingAllowed = true)
    (rested : Rested (clock - (events.foldl NodeVms.step (.new epoch startedAt PgStore.empty)).host.startedAt)
      (events.foldl NodeVms.step (.new epoch startedAt PgStore.empty)).host)
    (accepts : ∀ row ∈ (events.foldl NodeVms.step (.new epoch startedAt PgStore.empty)).tables.cameras,
      starts row.id = .ok true) :
    Ready ((events ++ pass starts jitter clock calls).foldl NodeVms.step (.new epoch startedAt PgStore.empty)) := by
  rw [List.foldl_append]
  exact (ready_pass jitter (Observed.kept_run epoch startedAt events) running recording rested accepts).run calls

/-- After any run: if no edit comes between, one fetch, one pass whose starts are accepted and the next report are
enough, and the console says of every camera that it is converged. -/
theorem shows_converged (epoch : Int) (startedAt : ℚ) (events : List NodeVms.Event) {starts : AppHost.Starts}
    {jitter : Int → ℚ} {clock : ℚ} {calls : List (Report.Outcome × ℚ)} {written : ℚ}
    (running : (events.foldl NodeVms.step (.new epoch startedAt PgStore.empty)).stopping = false)
    (recording : (events.foldl NodeVms.step (.new epoch startedAt PgStore.empty)).host.recordingAllowed = true)
    (rested : Rested (clock - (events.foldl NodeVms.step (.new epoch startedAt PgStore.empty)).host.startedAt)
      (events.foldl NodeVms.step (.new epoch startedAt PgStore.empty)).host)
    (accepts : ∀ row ∈ (events.foldl NodeVms.step (.new epoch startedAt PgStore.empty)).tables.cameras,
      starts row.id = .ok true)
    (ended : ((events ++ pass starts jitter clock calls).foldl NodeVms.step
      (.new epoch startedAt PgStore.empty)).report.Finished)
    {reportInterval now : ℚ} (soon : now - written < 3 * reportInterval) (asked : ℚ)
    (conditions : List ConditionRow) :
    ∀ camera ∈ (Console.buildStatus reportInterval now (PgStore.status asked
        ((events ++ pass starts jitter clock calls ++ report written).foldl NodeVms.step
          (.new epoch startedAt PgStore.empty)).tables) conditions).2,
      camera.position = .converged := by
  -- what was left of the earlier report wrote old phases, and this one writes over them
  have ready := ready_run epoch startedAt events jitter calls running recording rested accepts
  have kept := Observed.kept_run epoch startedAt (events ++ pass starts jitter clock calls)
  rw [List.foldl_append]
  intro camera member
  obtain ⟨_, inside, rfl⟩ := List.mem_map.mp member
  obtain ⟨row, sorted, rfl⟩ := List.mem_map.mp inside
  have reported := ready.report kept.numbered ended written row ((List.mem_insertionSort _).mp sorted)
  simp [Console.cameraStatus, Row.status, reported.seen, reported.revision, soon]

/-! ## A Node with a camera that failed -/

/-- A camera that failed to start is edited, and the report before is still on its way. -/
def edited : List NodeVms.Event :=
  [.createCamera [("name", .text "gate"), ("rtsp_url", .text "rtsp://gate/1")] fun _ _ => .error .actuator, .fetch,
    .reconcile (fun _ => .ok false) (fun _ => 0) 1, .report .done 2, .report .done 2,
    .updateCamera 1 [("rtsp_url", .text "rtsp://gate/2")] fun _ _ => .error .actuator]

theorem shows_converged_edited :
    (edited.foldl NodeVms.step (.new 1 0 PgStore.empty)).tables.cameras.map Row.revision = [2] ∧
      ∀ camera ∈ (Console.buildStatus 5 71 (PgStore.status 71
        ((edited ++ pass (fun _ => .ok true) (fun _ => 0) 61 [(.refused, 62)] ++ report 70).foldl
          NodeVms.step (.new 1 0 PgStore.empty)).tables) []).2,
        camera.position = .converged := by
  have late : ((edited.foldl NodeVms.step (.new 1 0 PgStore.empty)).host.reconciler.failures.all fun entry =>
      entry.2.retryAt ≤ 61 - (edited.foldl NodeVms.step (.new 1 0 PgStore.empty)).host.startedAt) = true := by
    decide +kernel
  refine ⟨by decide +kernel, shows_converged 1 0 edited (by decide +kernel) (by decide +kernel) ?_ (fun _ _ => rfl)
    (by decide +kernel) (by norm_num) 71 []⟩
  intro cid failure waits
  exact of_decide_eq_true (List.all_eq_true.mp late _ (Table.mem_of_get? waits))

end EdgeVms.Verified.Settles
