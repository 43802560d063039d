import EdgeVms.Node.AppHost
import EdgeVms.Process.Run

/-! # What stops when recording is not allowed

The policy clears a flag, and a pass consults it before it starts a pipeline.  What
runs already is stopped by the stop loop alone, when its camera is no longer desired.
-/

namespace EdgeVms.Verified

open Process Python Vms Node AppHost

/-! ## A pass changes its reconciler and its pipelines -/

/-- `host'` is `host` but for its reconciler and its pipelines. -/
def Worked (host host' : AppHost) : Prop :=
  ∃ reconciler pipelines, host' = { host with reconciler := reconciler, pipelines := pipelines }

theorem Worked.refl (host : AppHost) : Worked host host := ⟨host.reconciler, host.pipelines, rfl⟩

theorem Worked.trans {host host' host'' : AppHost} (first : Worked host host') (second : Worked host' host'') :
    Worked host host'' := by
  obtain ⟨_, _, rfl⟩ := first
  obtain ⟨reconciler, pipelines, rfl⟩ := second
  exact ⟨reconciler, pipelines, rfl⟩

variable (starts : Starts) (jitter : Int → ℚ) (now : ℚ)

theorem worked_actuate (verb : String) (cid : Int) (host : AppHost) : Worked host (actuate starts verb cid host).2 := by
  unfold actuate actuator
  split
  · exact .refl host
  · dsimp only
    split
    · exact ⟨_, _, rfl⟩
    · split <;> exact ⟨_, _, rfl⟩

theorem worked_startRounds (cams : List (Int × Camera)) (host : AppHost) :
    Worked host (startRounds starts jitter now cams host).2 := by
  induction cams generalizing host with
  | nil => exact .refl host
  | cons entry rest ih =>
    obtain ⟨cid, cam⟩ := entry
    rw [startRounds]
    split
    · exact ih host
    · have acted := worked_actuate starts (if host.reconciler.actual.has cid then "restart" else "start")
        cid host
      dsimp only
      split
      next answered =>
        rw [answered] at acted
        exact acted
      next answered =>
        rw [answered] at acted
        exact acted.trans (.trans ⟨_, _, rfl⟩ (ih _))
      next answered =>
        rw [answered] at acted
        exact acted.trans (.trans ⟨_, _, rfl⟩ (ih _))

theorem worked_stopRounds (desired : Table Camera) (cids : List Int) (host : AppHost) :
    Worked host (stopRounds starts desired cids host).2 := by
  induction cids generalizing host with
  | nil => exact .refl host
  | cons cid rest ih =>
    rw [stopRounds]
    split
    · exact ih host
    · have acted := worked_actuate starts "stop" cid host
      split
      next answered =>
        rw [answered] at acted
        exact acted
      next answered =>
        rw [answered] at acted
        exact acted.trans (.trans ⟨_, _, rfl⟩ (ih _))

theorem worked_reconcile (host : AppHost) : Worked host (host.reconcile starts jitter now).2 := by
  have first := worked_startRounds starts jitter now
    (Reconciler.desired host.desired) host
  unfold AppHost.reconcile
  dsimp only
  split
  next answered =>
    rw [answered] at first
    exact first
  next answered =>
    rw [answered] at first
    exact first.trans (worked_stopRounds _ _ _ _)

/-! ## What runs is taken to run -/

/-- Every pipeline belongs to a camera that the reconciler takes to run. -/
def Tracked (host : AppHost) : Prop := ∀ cid, host.pipelines.has cid = true → host.reconciler.actual.has cid = true

theorem has_of_release {verb : String} {cid other : Int} {pipelines : Table Pipeline}
    (runs : (release verb cid pipelines).has other = true) : pipelines.has other = true := by
  unfold release at runs
  split at runs
  · simp only [Table.has_pop, Bool.and_eq_true] at runs
    exact runs.2
  · exact runs

variable {starts} in
/-- A start keeps old pipelines at most, unless it adds the one that the reconciler is going to count. -/
theorem actuate_pipelines {host host' : AppHost} {verb : String} {cid : Int} {answer : Except Node.Fault Bool}
    (acted : actuate starts verb cid host = (answer, host')) :
    host'.reconciler = host.reconciler ∧
      ∀ other, host'.pipelines.has other = true →
        host.pipelines.has other = true ∨ (answer = .ok true ∧ other = cid) := by
  unfold actuate actuator at acted
  split at acted
  · cases acted
    exact ⟨rfl, fun other => .inl⟩
  · dsimp only at acted
    split at acted
    · cases acted
      exact ⟨rfl, fun other runs => .inl (has_of_release runs)⟩
    · split at acted
      · cases acted
        refine ⟨rfl, fun other runs => ?_⟩
        simp only [Table.has_set, Bool.or_eq_true, decide_eq_true_eq] at runs
        obtain rfl | old := runs
        · exact .inr ⟨rfl, rfl⟩
        · exact .inl (has_of_release old)
      · cases acted
        exact ⟨rfl, fun other runs => .inl (has_of_release runs)⟩
      · cases acted
        exact ⟨rfl, fun other runs => .inl (has_of_release runs)⟩

variable {starts} in
theorem Tracked.actuate {host host' : AppHost} (tracked : Tracked host) {verb : String} {cid : Int}
    {answer : Except Node.Fault Bool} (acted : actuate starts verb cid host = (answer, host'))
    (failed : answer ≠ .ok true) : Tracked host' := by
  obtain ⟨same, from_⟩ := actuate_pipelines acted
  intro other runs
  rw [same]
  obtain old | ⟨up, -⟩ := from_ other runs
  · exact tracked other old
  · exact absurd up failed

variable {starts} in
theorem Tracked.succeeds {host host' : AppHost} (tracked : Tracked host) {verb : String} {cid : Int}
    {answer : Except Node.Fault Bool}
    (acted : AppHost.actuate starts verb cid host = (answer, host')) (revision : Int) :
    Tracked { host' with reconciler := host'.reconciler.succeed cid revision } := by
  obtain ⟨same, from_⟩ := actuate_pipelines acted
  intro other runs
  rw [same]
  simp only [Reconciler.succeed, Table.has_set, Bool.or_eq_true, decide_eq_true_eq]
  obtain old | ⟨-, rfl⟩ := from_ other runs
  · exact .inr (tracked other old)
  · exact .inl rfl

theorem Tracked.startRounds {host : AppHost} (tracked : Tracked host) (cams : List (Int × Camera)) :
    Tracked (AppHost.startRounds starts jitter now cams host).2 := by
  induction cams generalizing host with
  | nil => exact tracked
  | cons entry rest ih =>
    obtain ⟨cid, cam⟩ := entry
    rw [AppHost.startRounds]
    split
    · exact ih tracked
    · dsimp only
      split
      next acted => exact tracked.actuate acted nofun
      next acted => exact ih (tracked.succeeds acted _)
      next acted =>
        have kept := tracked.actuate acted nofun
        exact ih fun other runs => kept other runs

/-- The stop loop lets go of the cameras that are not desired, and of no other. -/
theorem stopRounds_ends (desired : Table Camera) (cids : List Int) (host : AppHost) :
    (∃ actions, (stopRounds starts desired cids host).1 = .ok actions) ∧ ∀ other,
      ((stopRounds starts desired cids host).2.pipelines.has other =
        (host.pipelines.has other && !(decide (other ∈ cids) && !desired.has other))) ∧
      ((stopRounds starts desired cids host).2.reconciler.actual.has other =
        (host.reconciler.actual.has other && !(decide (other ∈ cids) && !desired.has other))) := by
  induction cids generalizing host with
  | nil => exact ⟨⟨[], rfl⟩, by simp [stopRounds]⟩
  | cons cid rest ih =>
    rw [stopRounds]
    split
    next wanted =>
      obtain ⟨ok, others⟩ := ih host
      refine ⟨ok, fun other => ?_⟩
      rw [(others other).1, (others other).2]
      by_cases same : other = cid
      · subst same
        simp [wanted]
      · simp [same]
    next unwanted =>
      have stopped : AppHost.actuate starts "stop" cid host =
          (.ok true, { host with pipelines := host.pipelines.pop cid }) := by
        simp [AppHost.actuate, actuator, release]
      rw [stopped]
      obtain ⟨⟨actions, ok⟩, others⟩ := ih
        { host with pipelines := host.pipelines.pop cid, reconciler := host.reconciler.forget cid }
      refine ⟨⟨("stop", cid) :: actions, by dsimp only; rw [ok]; rfl⟩, fun other => ?_⟩
      dsimp only
      rw [(others other).1, (others other).2]
      by_cases same : cid = other
      · subst same
        simp [Reconciler.forget, unwanted]
      · simp [Reconciler.forget, same, Ne.symm same]

theorem Tracked.stopRounds {host : AppHost} (tracked : Tracked host) (desired : Table Camera) (cids : List Int) :
    Tracked (AppHost.stopRounds starts desired cids host).2 := by
  intro other runs
  obtain ⟨-, others⟩ := stopRounds_ends starts desired cids host
  rw [(others other).1, Bool.and_eq_true] at runs
  rw [(others other).2, Bool.and_eq_true]
  exact ⟨tracked other runs.1, runs.2⟩

/-- Counting the pass apart, a pass leaves what `reconcile` leaves. -/
theorem reconcileOnce_eq (rows : List Camera) (clock : ℚ) (host : AppHost) :
    ∃ passes, (host.reconcileOnce rows starts jitter clock).2 =
      { (AppHost.reconcile starts jitter (clock - host.startedAt) { host with desired := rows }).2 with passes := passes } := by
  unfold AppHost.reconcileOnce
  split
  next ended =>
    rw [ended]
    exact ⟨_, rfl⟩
  next => exact ⟨_, rfl⟩

theorem worked_reconcileOnce (rows : List Camera) (clock : ℚ) (host : AppHost) :
    ∃ passes, Worked { host with desired := rows, passes := passes }
      (host.reconcileOnce rows starts jitter clock).2 := by
  obtain ⟨passes, same⟩ := reconcileOnce_eq starts jitter rows clock host
  obtain ⟨reconciler, pipelines, worked⟩ :=
    worked_reconcile starts jitter (clock - host.startedAt) { host with desired := rows }
  refine ⟨passes, reconciler, pipelines, ?_⟩
  rw [same, worked]

theorem desired_reconcileOnce (rows : List Camera) (clock : ℚ) (host : AppHost) :
    (host.reconcileOnce rows starts jitter clock).2.desired = rows := by
  obtain ⟨passes, reconciler, pipelines, worked⟩ := worked_reconcileOnce starts jitter rows clock host
  rw [worked]

theorem Tracked.reconcile {host : AppHost} (tracked : Tracked host) :
    Tracked (AppHost.reconcile starts jitter now host).2 := by
  have started := tracked.startRounds starts jitter now (Reconciler.desired host.desired)
  unfold AppHost.reconcile
  dsimp only
  split
  next answered =>
    rw [answered] at started
    exact started
  next answered =>
    rw [answered] at started
    exact started.stopRounds _ _ _

variable {jitter} in
theorem has_lost (dead : List Int) (loop : Reconciler) (clock : ℚ) (other : Int) :
    (dead.foldl (fun loop cid => loop.lost cid clock (jitter cid)) loop).actual.has other =
      (loop.actual.has other && !decide (other ∈ dead)) := by
  induction dead generalizing loop with
  | nil => simp
  | cons cid rest ih =>
    rw [List.foldl_cons, ih]
    by_cases same : cid = other
    · simp [Reconciler.lost, Reconciler.forget, Reconciler.fail, same]
    · simp [Reconciler.lost, Reconciler.forget, Reconciler.fail, same, Ne.symm same]

/-- Only pipelines that were there live on, and none of them is forgotten. -/
theorem pump_ends {bus : Int → Heard} {pipelines : Table Pipeline} {cid : Int}
    (lives : (pump bus pipelines).1.has cid = true) :
    pipelines.has cid = true ∧ cid ∉ (pump bus pipelines).2 := by
  rw [Table.has_iff_mem] at lives ⊢
  obtain ⟨⟨_, p'⟩, member, rfl⟩ := List.mem_map.mp lives
  obtain ⟨⟨cid', p⟩, inside, kept⟩ := List.mem_filterMap.mp member
  cases heard : bus cid' with
  | died => simp [heard] at kept
  | nothing | playing =>
    simp only [heard, Option.some.injEq, Prod.mk.injEq] at kept
    obtain ⟨rfl, -⟩ := kept
    refine ⟨List.mem_map.mpr ⟨_, inside, rfl⟩, fun dead => ?_⟩
    obtain ⟨⟨_, q⟩, gone, rfl⟩ := List.mem_map.mp dead
    have died := (List.mem_filter.mp gone).2
    simp [heard] at died

theorem Tracked.step {host : AppHost} (tracked : Tracked host) (event : Event) : Tracked (host.step event) := by
  cases event with
  | reconcile rows starts jitter clock =>
    have first : Tracked { host with desired := rows } := tracked
    have ended := first.reconcile starts jitter (clock - host.startedAt)
    obtain ⟨passes, same⟩ := reconcileOnce_eq starts jitter rows clock host
    show Tracked (host.reconcileOnce rows starts jitter clock).2
    rw [same]
    exact ended
  | pump bus jitter clock =>
    intro cid runs
    obtain ⟨old, lives⟩ := pump_ends runs
    show Table.has (List.foldl _ host.reconciler _).actual cid = true
    rw [has_lost, tracked cid old, Bool.true_and, Bool.not_eq_true', decide_eq_false_iff_not]
    exact lives
  | retention allowed =>
    show Tracked (host.retained allowed)
    unfold AppHost.retained
    split
    · exact tracked
    · exact tracked
  | segmentClosed cid start end_ path bytes => exact tracked

/-! ## While recording is not allowed -/

/-- The gate refuses every start: the pass changes the failures alone. -/
theorem startRounds_refused {host : AppHost} (stopped : host.recordingAllowed = false) (cams : List (Int × Camera)) :
    ∃ actions failures, startRounds starts jitter now cams host =
      (.ok actions, { host with reconciler := { host.reconciler with failures := failures } }) := by
  induction cams generalizing host with
  | nil => exact ⟨[], host.reconciler.failures, rfl⟩
  | cons entry rest ih =>
    obtain ⟨cid, cam⟩ := entry
    rw [startRounds]
    split
    · exact ih stopped
    · have refused : ∀ verb, verb = "start" ∨ verb = "restart" →
          AppHost.actuate starts verb cid host = (.ok false, host) := by
        intro verb starting
        simp [AppHost.actuate, starting, stopped]
      dsimp only
      rw [refused _ (by split <;> simp)]
      have stopped' : AppHost.recordingAllowed { host with reconciler := host.reconciler.fail cid now (jitter cid) } =
          false :=
        stopped
      obtain ⟨actions, failures, same⟩ := ih stopped'
      refine ⟨("failed", cid) :: actions, failures, ?_⟩
      dsimp only
      rw [same]
      rfl

theorem reconcile_refused {host : AppHost} (stopped : host.recordingAllowed = false) (tracked : Tracked host)
    (cid : Int) :
    (AppHost.reconcile starts jitter now host).2.pipelines.has cid =
      (host.pipelines.has cid && (Reconciler.desired host.desired).has cid) := by
  obtain ⟨actions, failures, same⟩ := startRounds_refused starts jitter now stopped
    (Reconciler.desired host.desired)
  unfold AppHost.reconcile
  dsimp only
  rw [same]
  dsimp only
  rw [((stopRounds_ends _ _ _ _).2 cid).1]
  dsimp only
  cases runs : host.pipelines.has cid with
  | false => rfl
  | true =>
    have member : cid ∈ host.reconciler.actual.keys := Table.has_iff_mem.mp (tracked cid runs)
    simp [member]

theorem nil_of_has {table : Table Pipeline} (nothing : ∀ cid, table.has cid = false) : table = [] := by
  cases table with
  | nil => rfl
  | cons entry rest =>
    have there : Table.has (entry :: rest) entry.1 = true := Table.has_iff_mem.mpr (.head _)
    rw [nothing] at there
    cases there

/-- No retention pass allows recording. -/
def Event.Forbids : Event → Prop
  | .retention allowed => allowed = false
  | _ => True

theorem recordingAllowed_step {host : AppHost} (stopped : host.recordingAllowed = false) {event : Event}
    (forbids : Event.Forbids event) : (host.step event).recordingAllowed = false := by
  cases event with
  | reconcile rows starts jitter clock =>
    obtain ⟨passes, reconciler, pipelines, worked⟩ :=
      worked_reconcileOnce starts jitter rows clock host
    show (host.reconcileOnce rows starts jitter clock).2.recordingAllowed = false
    rw [worked]
    exact stopped
  | pump bus jitter clock => exact stopped
  | retention allowed =>
    show (host.retained allowed).recordingAllowed = false
    unfold AppHost.retained
    split
    · exact forbids
    · exact stopped
  | segmentClosed cid start end_ path bytes => exact stopped

theorem recordingAllowed_run {host : AppHost} (stopped : host.recordingAllowed = false) {events : List Event}
    (forbid : ∀ event ∈ events, Event.Forbids event) : (events.foldl step host).recordingAllowed = false := by
  induction events generalizing host with
  | nil => exact stopped
  | cons event rest ih =>
    obtain ⟨here, later⟩ := List.forall_mem_cons.mp forbid
    exact ih (recordingAllowed_step stopped here) later

theorem tracked_run {host : AppHost} (tracked : Tracked host) (events : List Event) :
    Tracked (events.foldl step host) := by
  induction events generalizing host with
  | nil => exact tracked
  | cons event rest ih => exact ih (tracked.step event)

/-- Without a start no pipeline comes back. -/
theorem idle_step {host : AppHost} (stopped : host.recordingAllowed = false) (tracked : Tracked host)
    (idle : host.pipelines = []) {event : Event} (forbids : Event.Forbids event) :
    (host.step event).pipelines = [] := by
  cases event with
  | reconcile rows starts jitter clock =>
    obtain ⟨passes, same⟩ := reconcileOnce_eq starts jitter rows clock host
    show (host.reconcileOnce rows starts jitter clock).2.pipelines = []
    rw [same]
    refine nil_of_has fun cid => ?_
    have before : Tracked { host with desired := rows } := tracked
    have stopped' : AppHost.recordingAllowed { host with desired := rows } = false := stopped
    have ended := reconcile_refused starts jitter (clock - host.startedAt) stopped' before cid
    dsimp only at ended ⊢
    rw [ended, idle]
    rfl
  | pump bus jitter clock =>
    show (pump bus host.pipelines).1 = []
    rw [idle]
    rfl
  | retention allowed =>
    show (host.retained allowed).pipelines = []
    unfold AppHost.retained
    split
    · exact idle
    · exact idle
  | segmentClosed cid start end_ path bytes => exact idle

theorem idle_run {host : AppHost} (stopped : host.recordingAllowed = false) (tracked : Tracked host)
    (idle : host.pipelines = []) {events : List Event} (forbid : ∀ event ∈ events, Event.Forbids event) :
    (events.foldl step host).pipelines = [] := by
  induction events generalizing host with
  | nil => exact idle
  | cons event rest ih =>
    obtain ⟨here, later⟩ := List.forall_mem_cons.mp forbid
    exact ih (recordingAllowed_step stopped here) (tracked.step event) (idle_step stopped tracked idle here) later

variable {starts jitter} in
theorem idle_reconcile_iff {host : AppHost} (stopped : host.recordingAllowed = false) (tracked : Tracked host)
    (rows : List Camera) (clock : ℚ) :
    (host.step (.reconcile rows starts jitter clock)).pipelines = [] ↔
      ∀ cid ∈ host.pipelines.keys, ∀ cam ∈ rows, cam.enabled = true → cam.id ≠ cid := by
  obtain ⟨passes, same⟩ := reconcileOnce_eq starts jitter rows clock host
  have before : Tracked { host with desired := rows } := tracked
  have stopped' : AppHost.recordingAllowed { host with desired := rows } = false := stopped
  have left : ∀ cid, (host.step (.reconcile rows starts jitter clock)).pipelines.has cid =
      (host.pipelines.has cid && (Reconciler.desired rows).has cid) := by
    intro cid
    show (host.reconcileOnce rows starts jitter clock).2.pipelines.has cid = _
    rw [same]
    exact reconcile_refused starts jitter _ stopped' before cid
  constructor
  · intro idle cid runs cam listed enabled wanted
    have gone := left cid
    rw [idle, Table.has_iff_mem.mpr runs, (Reconciler.has_desired rows cid).mpr ⟨cam, listed, enabled, wanted⟩] at gone
    cases gone
  · intro unwanted
    refine nil_of_has fun cid => ?_
    rw [left, Bool.and_eq_false_iff]
    by_contra both
    rw [not_or, Bool.not_eq_false, Bool.not_eq_false] at both
    obtain ⟨cam, listed, enabled, wanted⟩ := (Reconciler.has_desired rows cid).mp both.2
    exact unwanted cid (Table.has_iff_mem.mp both.1) cam listed enabled wanted

variable {starts jitter} in
/-- A retention pass forbids recording and the next pass has run: no pipeline runs from then on, until
recording is allowed, just in case every pipeline that ran belonged to a camera that is no longer desired. -/
theorem stop_recording_iff {epoch : Int} {startedAt clock : ℚ} {before between after : List Event} {rows : List Camera}
    (waits : ∀ event ∈ between, Event.Forbids event) (forbid : ∀ event ∈ after, Event.Forbids event) :
    let host := (before ++ .retention false :: between).foldl step (.new epoch startedAt)
    (∀ later, later <+: after →
      (later.foldl step (host.step (.reconcile rows starts jitter clock))).pipelines = []) ↔
        ∀ cid ∈ host.pipelines.keys, ∀ cam ∈ rows, cam.enabled = true → cam.id ≠ cid := by
  intro host
  have tracked : Tracked host := tracked_run (fun _ runs => by cases runs) _
  have stopped : host.recordingAllowed = false := by
    show (List.foldl step _ (before ++ .retention false :: between)).recordingAllowed = false
    rw [List.foldl_append, List.foldl_cons]
    refine recordingAllowed_run ?_ waits
    show (AppHost.retained false _).recordingAllowed = false
    unfold AppHost.retained
    split
    next => rfl
    next same => exact (not_not.mp same).symm
  rw [← idle_reconcile_iff stopped tracked rows clock]
  constructor
  · exact fun idle => idle [] List.nil_prefix
  · intro idle later isPrefix
    have forbids : Event.Forbids (.reconcile rows starts jitter clock) := trivial
    exact idle_run (recordingAllowed_step stopped forbids) (tracked.step _) idle
      fun event member => forbid event (isPrefix.subset member)

/-- A camera at its revision. -/
def recorded : List Camera := [⟨1, true, 1, []⟩]

/-- It starts. -/
def recording : List Event := [.reconcile recorded (fun _ => .ok true) (fun _ => 0) 1]

/-- The disk is full; the next pass has nothing to do for the camera that records. -/
theorem camera_records_on :
    let host := (recording ++ [Event.retention false]).foldl step (.new 1 0)
    (host.step (.reconcile recorded (fun _ => .ok true) (fun _ => 0) 2)).pipelines.keys = [1] := by
  decide +kernel

theorem stop_recording_iff_deleted :
    let host := (recording ++ [Event.retention false]).foldl step (.new 1 0)
    ∀ later, later <+: [Event.retention false] →
      (later.foldl step (host.step (.reconcile [] (fun _ => .ok true) (fun _ => 0) 2))).pipelines = [] :=
  (stop_recording_iff (by simp) (by simp [Event.Forbids])).mpr (by simp)

end EdgeVms.Verified
