import EdgeVms.Verified.Node.Settles

/-! # Until the next edit

A camera that is converged stays so: no pass and no report undoes it, as long as nobody edits a row, no
pipeline is lost and the process lives.
-/

namespace EdgeVms.Verified.StaysConverged

open Process Python Vms Node PgStore
open Process.Rows (Keyed)

/-- The event edits no camera, loses no pipeline and is no reboot. -/
def Quiet : NodeVms.Event → Prop
  | .createCamera _ _ => False
  | .updateCamera _ _ _ => False
  | .deleteCamera _ => False
  | .boot _ _ => False
  | .pump bus _ _ => ∀ cid, bus cid ≠ .died
  | _ => True

/-- The revision is that of the row, if there is one. -/
def Current (rows : List Cluster.CameraRow) (cid revision : Int) :
    Prop := ∀ cam ∈ rows, cam.id = cid → cam.revision = revision

/-- A Node between two edits, where `rows` is what a fetch answers: all that it knows or may still write is of these
rows. -/
structure Level (rows : List Cluster.CameraRow) (node : NodeVms) : Prop where
  numbered : Observed.Numbered node.tables
  fetches : fetchDesired node.tables = rows
  fetched : ∀ rows', node.fetched = some rows' → rows' = rows
  desired : node.host.desired = rows.map asDict
  applied : ∀ cam ∈ node.host.desired, cam.enabled = true →
    node.host.reconciler.actual.get? cam.id = some cam.revision
  report : Observed.Writes (Current rows) node.report

/-- The console sees every row at its revision. -/
def Told (node : NodeVms) : Prop := ∀ row ∈ node.tables.cameras, row.observedRevision = row.revision

/-- What a step may not undo. -/
def Keeps (rows : List Cluster.CameraRow) (node node' : NodeVms) : Prop := Level rows node' ∧ (Told node → Told node')

variable {rows : List Cluster.CameraRow} {node : NodeVms}

theorem level_of_ready (ready : Settles.Ready node) (numbered : Observed.Numbered node.tables)
    (ended : node.report.Finished) : Level (fetchDesired node.tables) node where
  numbered := numbered
  fetches := rfl
  fetched rows none := by
    rw [ready.fetched] at none
    cases none
  desired := ready.desired
  applied := ready.applied
  report := by
    cases progress : node.report with
    | ret value | raise error => exact .silent trivial
    | call label request next =>
      rw [progress] at ended
      exact ended.elim

/-! ## A step -/

/-- A pass keeps what it knows of a row that is applied. -/
theorem reconcileOnce_keeps {cams : List Camera} {starts : AppHost.Starts} {jitter : Int → ℚ} {clock : ℚ}
    {host : AppHost} (keyed : Keyed Camera.id cams) {cam : Camera} (inside : cam ∈ cams) (enabled : cam.enabled = true)
    (applied : host.reconciler.actual.get? cam.id = some cam.revision) :
    (host.reconcileOnce cams starts jitter clock).2.reconciler.actual.get? cam.id = some cam.revision := by
  have member : (cam.id, cam) ∈ Reconciler.desired cams := (Convergence.mem_desired keyed).mpr ⟨inside, enabled, rfl⟩
  have wanted : (Reconciler.desired cams).has cam.id = true := Table.has_iff_mem.mpr (List.mem_map_of_mem member)
  rw [Observed.actual_reconcileOnce host wanted]
  obtain ⟨-, entered⟩ := Observed.startRounds_starts starts jitter (clock - host.startedAt) (Reconciler.desired cams)
    (fun entry member => ((Convergence.mem_desired keyed).mp member).2.2) (Convergence.nodup_desired keyed)
    { host with desired := cams }
  -- it rests, or a failed restart leaves it; and where it is started anew, then at this revision
  obtain same | started := entered _ member
  · exact same.trans applied
  · exact started.taken

/-- The phases are those of the rows. -/
theorem Level.phases (level : Level rows node) : ∀ entry ∈ node.host.phases, Current rows entry.1 entry.2.1 := by
  intro entry member cam inside named
  obtain ⟨other, desired, id, revision⟩ := (Settles.phases_applied level.applied).1 entry member
  rw [level.desired] at desired
  obtain ⟨row, there, rfl⟩ := List.mem_map.mp desired
  have keyed := Observed.keyed_fetchDesired level.numbered
  rw [level.fetches] at keyed
  obtain rfl : row = cam := keyed.eq_of_key there inside (id.trans named.symm)
  exact revision

theorem Level.host (level : Level rows node) {host : AppHost} (desired : host.desired = node.host.desired)
    (actual : host.reconciler.actual = node.host.reconciler.actual) : Level rows { node with host := host } :=
  { level with
    desired := desired.trans level.desired
    applied := fun cam inside enabled => by
      show host.reconciler.actual.get? cam.id = _
      rw [actual]
      exact level.applied cam (desired ▸ inside) enabled }

theorem Level.loops {does : NodeVms} (level : Level rows node) (keeps : Keeps rows node does) :
    Keeps rows node (node.loops does) := by
  unfold NodeVms.loops
  split
  · exact ⟨level, id⟩
  · exact keeps

theorem Level.reports (level : Level rows node) (outcome : Report.Outcome) (now : ℚ) :
    Keeps rows node (node.reports outcome now) := by
  obtain ⟨pendingIndex, tables, report, same, follows, fetches, writes⟩ :=
    Observed.reports_follows level.report level.phases outcome now
  rw [same]
  refine ⟨{ level with
    numbered := follows.numbered level.numbered
    fetches := fetches.trans level.fetches
    report := writes }, fun told row' member => ?_⟩
  -- the row was there before, at the same revision
  have inside : row'.desired ∈ fetchDesired node.tables := by
    rw [← fetches]
    exact (List.mem_insertionSort _).mpr (List.mem_map_of_mem member)
  obtain ⟨row, there, unmoved⟩ := List.mem_map.mp ((List.mem_insertionSort _).mp inside)
  have named : row.id = row'.id := congrArg Cluster.CameraRow.id unmoved
  have revision : row'.revision = row.revision := Observed.revision_eq unmoved.symm
  obtain fresh | ⟨before, was, moved⟩ := follows.rows row' member
  · -- no id is drawn twice
    have drawn := level.numbered.drawn row there
    have undrawn := fresh.undrawn
    omega
  · obtain rfl : before = row := level.numbered.keyed.eq_of_key was there (moved.id.symm.trans named.symm)
    rw [revision]
    obtain kept | wrote := moved.observed
    · rw [kept]
      exact told before was
    · have read : before.desired ∈ rows := by
        rw [← level.fetches]
        exact (List.mem_insertionSort _).mpr (List.mem_map_of_mem was)
      exact (wrote before.desired read rfl).symm

theorem pump_alive {bus : Int → AppHost.Heard} (alive : ∀ cid, bus cid ≠ .died) (pipelines : Table Pipeline) :
    (AppHost.pump bus pipelines).2 = [] := by
  unfold AppHost.pump
  dsimp only
  rw [List.filter_eq_nil_iff.mpr]
  · rfl
  · intro entry _
    cases heard : bus entry.1 with
    | died => exact absurd heard (alive entry.1)
    | nothing | playing => simp

theorem Level.step (level : Level rows node) {event : NodeVms.Event} (quiet : Quiet event) :
    Keeps rows node (node.step event) := by
  cases event with
  | createCamera fields encrypt => exact quiet.elim
  | updateCamera cid fields encrypt => exact quiet.elim
  | deleteCamera cid => exact quiet.elim
  | boot epoch startedAt => exact quiet.elim
  | upsertSite siteId name =>
    have cameras : (PgStore.upsertSite siteId name node.tables).cameras = node.tables.cameras := by
      unfold PgStore.upsertSite
      split <;> rfl
    have follows : Observed.Follows (Current rows) node.tables (PgStore.upsertSite siteId name node.tables) :=
      Observed.follows_upsertSite siteId name
    refine ⟨{ level with numbered := follows.numbered level.numbered, fetches := ?_ }, fun told row member => ?_⟩
    · show fetchDesired (PgStore.upsertSite siteId name node.tables) = rows
      rw [fetchDesired, cameras]
      exact level.fetches
    · exact told row (cameras ▸ member)
  | fetch =>
    refine level.loops ⟨{ level with fetched := fun rows' same => ?_ }, id⟩
    cases same
    exact level.fetches
  | reconcile starts jitter clock =>
    cases fetched : node.fetched with
    | none =>
      have idle : node.step (.reconcile starts jitter clock) = node := by simp [NodeVms.step, fetched]
      rw [idle]
      exact ⟨level, id⟩
    | some rows' =>
      -- nobody has edited since the fetch
      obtain rfl := level.fetched rows' fetched
      have passed : node.step (.reconcile starts jitter clock) =
          { node with
            host := (node.host.reconcileOnce (rows'.map asDict) starts jitter clock).2
            fetched := none } := by
        simp [NodeVms.step, fetched]
      rw [passed]
      have desired := desired_reconcileOnce starts jitter (rows'.map asDict) clock node.host
      have keyed := Observed.keyed_fetchDesired level.numbered
      rw [level.fetches] at keyed
      refine ⟨{ level with
        fetched := fun _ none => by cases none
        desired := desired
        applied := fun cam inside enabled => ?_ }, id⟩
      have inside : cam ∈ rows'.map asDict := desired ▸ inside
      exact reconcileOnce_keeps (Observed.keyed_asDict keyed) inside enabled
        (level.applied cam (level.desired ▸ inside) enabled)
  | report outcome now => exact level.reports outcome now
  | pump bus jitter clock =>
    refine level.loops ⟨level.host rfl ?_, id⟩
    -- nobody died
    unfold AppHost.pumpBuses
    dsimp only
    rw [pump_alive quiet]
    rfl
  | retention allowed =>
    refine level.loops ⟨level.host ?_ ?_, id⟩
    · unfold AppHost.retained
      split <;> rfl
    · unfold AppHost.retained
      split <;> rfl
  | segmentClosed cid start end_ path bytes => exact ⟨level.host rfl rfl, id⟩
  | stop =>
    -- the pipelines are gone, but what was applied is remembered, and the last report says so
    have stopped : Level rows { node with host := { node.host with pipelines := [] } } := level.host rfl rfl
    exact ⟨{ stopped with fetched := fun _ none => (by cases none), report := .begins }, id⟩

theorem Level.run (level : Level rows node) {events : List NodeVms.Event} (quiet : ∀ event ∈ events, Quiet event) :
    Keeps rows node (events.foldl NodeVms.step node) := by
  induction events generalizing node with
  | nil => exact ⟨level, id⟩
  | cons event rest ih =>
    obtain ⟨here, later⟩ := List.forall_mem_cons.mp quiet
    obtain ⟨level', told⟩ := level.step here
    obtain ⟨ends, tells⟩ := ih level' later
    exact ⟨ends, tells ∘ told⟩

/-! ## The console -/

/-- Once the console has come to say that every camera is converged: whatever else happens, as long as there is no edit,
no lost pipeline and no reboot, it says so or that the Node does not report. -/
theorem stays_converged (epoch : Int) (startedAt : ℚ) (events : List NodeVms.Event) {starts : AppHost.Starts}
    {jitter : Int → ℚ} {clock : ℚ} {calls : List (Report.Outcome × ℚ)} {written : ℚ}
    (running : (events.foldl NodeVms.step (.new epoch startedAt PgStore.empty)).stopping = false)
    (recording : (events.foldl NodeVms.step (.new epoch startedAt PgStore.empty)).host.recordingAllowed = true)
    (rested : Settles.Rested (clock - (events.foldl NodeVms.step (.new epoch startedAt PgStore.empty)).host.startedAt)
      (events.foldl NodeVms.step (.new epoch startedAt PgStore.empty)).host)
    (accepts : ∀ row ∈ (events.foldl NodeVms.step (.new epoch startedAt PgStore.empty)).tables.cameras,
      starts row.id = .ok true)
    (ended : ((events ++ Settles.pass starts jitter clock calls).foldl NodeVms.step
      (.new epoch startedAt PgStore.empty)).report.Finished)
    {after : List NodeVms.Event} (quiet : ∀ event ∈ after, Quiet event)
    (reportInterval now asked : ℚ) (conditions : List ConditionRow) :
    ∀ camera ∈ (Console.buildStatus reportInterval now (PgStore.status asked
        ((events ++ Settles.pass starts jitter clock calls ++ Settles.report written ++ after).foldl NodeVms.step
          (.new epoch startedAt PgStore.empty)).tables) conditions).2,
      camera.lag = 0 ∧ (camera.position = .converged ∨ camera.position = .unreachable) := by
  have ready := Settles.ready_run epoch startedAt events jitter calls running recording rested accepts
  have kept := Observed.kept_run epoch startedAt (events ++ Settles.pass starts jitter clock calls)
  rw [List.foldl_append, List.foldl_append]
  generalize (events ++ Settles.pass starts jitter clock calls).foldl NodeVms.step
    (.new epoch startedAt PgStore.empty) = node at *
  -- the report that tells of the pass, and what comes after it
  have level := level_of_ready ready kept.numbered ended
  have told : Told ((Settles.report written).foldl NodeVms.step node) := fun row member =>
    (ready.report kept.numbered ended written row member).revision
  have reported : Keeps (fetchDesired node.tables) node ((Settles.report written).foldl NodeVms.step node) := by
    refine level.run fun event member => ?_
    simp only [Settles.report, List.mem_cons, List.not_mem_nil, or_false, or_self] at member
    rw [member]
    trivial
  have tells := (reported.1.run quiet).2 told
  intro camera member
  obtain ⟨_, inside, rfl⟩ := List.mem_map.mp member
  obtain ⟨row, sorted, rfl⟩ := List.mem_map.mp inside
  have same := tells row ((List.mem_insertionSort _).mp sorted)
  refine ⟨by simp [Console.cameraStatus, Row.status, same], ?_⟩
  simp only [Console.cameraStatus, Row.status, same, sub_self, le_refl, if_true]
  split
  · exact .inr rfl
  · exact .inl rfl

/-! ## A Node that is stopped -/

/-- A pass in which no start would be accepted, a pipeline that plays, and SIGTERM with its last report refused. -/
def goingDown : List NodeVms.Event :=
  [.upsertSite "s" "Site", .fetch, .reconcile (fun _ => .error .actuator) (fun _ => 0) 75,
    .pump (fun _ => .playing) (fun _ => 0) 76, .stop, .report .refused 80]

def stopped : NodeVms :=
  (Settles.edited ++ Settles.pass (fun _ => .ok true) (fun _ => 0) 61 [(.refused, 62)] ++ Settles.report 70 ++
    goingDown).foldl NodeVms.step (.new 1 0 PgStore.empty)

theorem stays_converged_stopped :
    (Console.buildStatus 5 90 (PgStore.status 90 stopped.tables) []).2.map (·.position) = [.unreachable] ∧
      ∀ camera ∈ (Console.buildStatus 5 90 (PgStore.status 90 stopped.tables) []).2,
        camera.lag = 0 ∧ (camera.position = .converged ∨ camera.position = .unreachable) := by
  have late : ((Settles.edited.foldl NodeVms.step (.new 1 0 PgStore.empty)).host.reconciler.failures.all fun entry =>
      entry.2.retryAt ≤ 61 - (Settles.edited.foldl NodeVms.step (.new 1 0 PgStore.empty)).host.startedAt) = true := by
    decide +kernel
  refine ⟨by decide +kernel, stays_converged 1 0 Settles.edited (by decide +kernel) (by decide +kernel) ?_
    (fun _ _ => rfl) (by decide +kernel) ?_ 5 90 90 []⟩
  · intro cid failure waits
    exact of_decide_eq_true (List.all_eq_true.mp late _ (Table.mem_of_get? waits))
  · intro event member
    simp only [goingDown, List.mem_cons, List.not_mem_nil, or_false] at member
    obtain rfl | rfl | rfl | rfl | rfl | rfl := member
    · trivial
    · trivial
    · trivial
    · intro cid heard
      cases heard
    · trivial
    · trivial

end EdgeVms.Verified.StaysConverged
