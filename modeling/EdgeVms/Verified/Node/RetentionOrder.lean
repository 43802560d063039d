import EdgeVms.Node.Retention
import EdgeVms.Process.Throughout
import Mathlib.Data.List.Flatten

/-! # Rows first, files after

`Recorded` remembers beside the disk which paths the pass has unlinked and which rows
it has removed.  At every moment of a pass no row names an unlinked file, and until
the policy runs every row that is gone was older than the window of its camera.
-/

namespace EdgeVms.Verified.RetentionOrder

open Process Python Node Retention

structure Recorded where
  disk : Disk
  unlinked : List String
  removed : List SegmentRow

def Recorded.rows (recorded : Recorded) : List SegmentRow := recorded.disk.rows

/-- The disk's answers, and what becomes of the record. -/
def recording (usage : Nat → ℚ) : Handler interface Recorded := fun request recorded =>
  let answered := handler usage request recorded.disk
  (answered.1,
    { disk := answered.2
      unlinked := recorded.unlinked ++ match request with | .unlink path => [path] | _ => []
      removed := recorded.removed ++ recorded.rows.filter (· ∉ answered.2.rows) })

/-- No row names a file that the pass has unlinked. -/
def Unnamed (recorded : Recorded) : Prop := ∀ row ∈ recorded.rows, row.path ∉ recorded.unlinked

/-- What was removed of a camera with a row was older than the camera's window. -/
def Outdated (now : ℚ) (days : Table Int) (recorded : Recorded) : Prop :=
  ∀ row ∈ recorded.removed, ∀ own, days.get? row.camera = some own → row.start < now - own * 86400

/-- A database as the pass may find it: no two rows with one path, and every row in the month of its
start.  Two tables never have one name. -/
structure Sound (disk : Disk) : Prop where
  unique : (disk.rows.map SegmentRow.path).Nodup
  placed : ∀ part ∈ disk.segments, ∀ row ∈ part.rows,
    part.month.lo.midnight ≤ row.start ∧ row.start < part.month.hi.midnight
  named : (disk.segments.map fun part => part.month.name).Nodup

/-! ## What a request does -/

/-- The index, the cameras and the record are as they were. -/
structure Same (recorded recorded' : Recorded) : Prop where
  segments : recorded'.disk.segments = recorded.disk.segments
  cameras : recorded'.disk.cameras = recorded.disk.cameras
  unlinked : recorded'.unlinked = recorded.unlinked
  removed : recorded'.removed = recorded.removed

def Quiet : Request → Prop
  | .partitions _ | .pathsInPartition _ | .dropTable _ | .oldestSegments _ _ | .retentionDays | .indexedPathsUnder _
  | .logEvent _ | .usage | .walkFiles _ | .detachPartition .events _ => True
  | _ => False

theorem filter_gone (rows : List SegmentRow) : rows.filter (· ∉ rows) = [] := by
  simp

theorem same_of_segments {recorded : Recorded} {disk : Disk} (segments : disk.segments = recorded.disk.segments)
    (cameras : disk.cameras = recorded.disk.cameras) :
    Same recorded ⟨disk, recorded.unlinked ++ [], recorded.removed ++ recorded.rows.filter (· ∉ disk.rows)⟩ := by
  have rows : disk.rows = recorded.rows := congrArg (List.flatMap Partition.rows) segments
  refine ⟨segments, cameras, List.append_nil _, ?_⟩
  show recorded.removed ++ recorded.rows.filter (· ∉ disk.rows) = recorded.removed
  rw [rows, filter_gone, List.append_nil]

theorem same_of_quiet (usage : Nat → ℚ) (request : Request) (quiet : Quiet request) (recorded : Recorded) :
    Same recorded (recording usage request recorded).2 := by
  cases request with
  | detachPartition parent part =>
    cases parent with
    | segments => exact quiet.elim
    | events => exact same_of_segments rfl rfl
  | ensurePartition parent month | expireRows camera olderThan | deleteSegment path | unlink path => exact quiet.elim
  | _ => exact same_of_segments rfl rfl

/-! ## The windows -/

/-- What holds before the policy runs; `listed` are months that the partitions of their names have. -/
structure Windowed (now : ℚ) (days : Table Int) (listed : List Month) (recorded : Recorded) : Prop where
  unnamed : Unnamed recorded
  outdated : Outdated now days recorded
  retention : recorded.disk.retentionDays = days
  unique : (recorded.rows.map SegmentRow.path).Nodup
  before : ∀ part ∈ recorded.disk.segments, ∀ row ∈ part.rows, row.start < part.month.hi.midnight
  named : (recorded.disk.segments.map fun part => part.month.name).Nodup
  listed : ∀ month ∈ listed, ∀ part ∈ recorded.disk.segments, part.month.name = month.name → part.month = month

variable {now : ℚ} {days : Table Int} {listed : List Month} {recorded recorded' : Recorded} {usage : Nat → ℚ}

theorem Same.rows (same : Same recorded recorded') : recorded'.rows = recorded.rows :=
  congrArg (List.flatMap Partition.rows) same.segments

theorem Unnamed.same (unnamed : Unnamed recorded) (same : Same recorded recorded') : Unnamed recorded' := by
  unfold Unnamed
  rw [same.rows, same.unlinked]
  exact unnamed

theorem Outdated.same (outdated : Outdated now days recorded) (same : Same recorded recorded') :
    Outdated now days recorded' := by
  unfold Outdated
  rw [same.removed]
  exact outdated

theorem Windowed.same (windowed : Windowed now days listed recorded) (same : Same recorded recorded') :
    Windowed now days listed recorded' where
  unnamed := windowed.unnamed.same same
  outdated := windowed.outdated.same same
  retention := by
    unfold Disk.retentionDays
    rw [same.cameras]
    exact windowed.retention
  unique := by
    rw [same.rows]
    exact windowed.unique
  before := by
    rw [same.segments]
    exact windowed.before
  named := by
    rw [same.segments]
    exact windowed.named
  listed := by
    rw [same.segments]
    exact windowed.listed

/-- Rows go, and with them perhaps their partitions. -/
theorem Windowed.remove (windowed : Windowed now days listed recorded) {disk : Disk}
    (cameras : disk.cameras = recorded.disk.cameras) (rows : disk.rows.Sublist recorded.rows)
    (parts : ∀ part' ∈ disk.segments, ∃ part ∈ recorded.disk.segments, part'.month = part.month ∧
      ∀ row ∈ part'.rows, row ∈ part.rows)
    (names : (disk.segments.map fun part => part.month.name).Sublist
      (recorded.disk.segments.map fun part => part.month.name))
    (old : ∀ row ∈ recorded.rows, row ∉ disk.rows → ∀ own, days.get? row.camera = some own →
      row.start < now - own * 86400) :
    Windowed now days listed
      ⟨disk, recorded.unlinked ++ [], recorded.removed ++ recorded.rows.filter (· ∉ disk.rows)⟩ where
  unnamed row inside := by
    rw [List.append_nil]
    exact windowed.unnamed row (rows.subset inside)
  outdated row inside own has := by
    obtain earlier | gone := List.mem_append.mp inside
    · exact windowed.outdated row earlier own has
    · obtain ⟨there, absent⟩ := List.mem_filter.mp gone
      exact old row there (of_decide_eq_true absent) own has
  retention := by
    unfold Disk.retentionDays
    rw [cameras]
    exact windowed.retention
  unique := windowed.unique.sublist (rows.map _)
  before part' inside row there := by
    obtain ⟨part, inside', same, fewer⟩ := parts part' inside
    rw [same]
    exact windowed.before part inside' row (fewer row there)
  named := windowed.named.sublist names
  listed month asked part' inside same := by
    obtain ⟨part, inside', months, -⟩ := parts part' inside
    rw [months] at same ⊢
    exact windowed.listed month asked part inside' same

/-- A file is unlinked once no row names it. -/
theorem Windowed.unlink (windowed : Windowed now days listed recorded) {path : String}
    (absent : ∀ row ∈ recorded.rows, row.path ≠ path) :
    Windowed now days listed (recording usage (.unlink path) recorded).2 := by
  have removed : recorded.removed ++ recorded.rows.filter (· ∉ recorded.disk.rows) = recorded.removed := by
    show recorded.removed ++ recorded.rows.filter (· ∉ recorded.rows) = recorded.removed
    rw [filter_gone, List.append_nil]
  exact
    { unnamed := fun row inside named => by
        obtain earlier | here := List.mem_append.mp named
        · exact windowed.unnamed row inside earlier
        · exact absent row inside (List.mem_singleton.mp here)
      outdated := fun row inside => by
        have earlier : row ∈ recorded.removed := removed ▸ inside
        exact windowed.outdated row earlier
      retention := windowed.retention
      unique := windowed.unique
      before := windowed.before
      named := windowed.named
      listed := windowed.listed }

/-! ## What is deleted -/

@[simp] theorem rows_delete (gone : SegmentRow → Bool) (disk : Disk) :
    (disk.delete gone).rows = disk.rows.filter fun row => !gone row := by
  simp only [Disk.rows, Disk.delete, List.filter_flatMap, List.flatMap_map]

theorem Windowed.delete (windowed : Windowed now days listed recorded) {gone : SegmentRow → Bool}
    (old : ∀ row, gone row = true → ∀ own, days.get? row.camera = some own → row.start < now - own * 86400) :
    Windowed now days listed
      ⟨recorded.disk.delete gone, recorded.unlinked ++ [],
        recorded.removed ++ recorded.rows.filter (· ∉ (recorded.disk.delete gone).rows)⟩ := by
  refine windowed.remove rfl ?_ ?_ ?_ ?_
  · rw [rows_delete]
    exact List.filter_sublist
  · intro part' inside
    obtain ⟨part, there, rfl⟩ := List.mem_map.mp inside
    exact ⟨part, there, rfl, fun row kept => (List.mem_filter.mp kept).1⟩
  · simp only [Disk.delete, List.map_map]
    exact List.Sublist.refl _
  · intro row inside absent
    refine old row ?_
    rw [rows_delete] at absent
    by_contra kept
    exact absent (List.mem_filter.mpr ⟨inside, by simpa using kept⟩)

/-- No row that is left has the path of one that was deleted. -/
theorem absent_of_deleted
    (unique : (recorded.rows.map SegmentRow.path).Nodup) {gone : SegmentRow → Bool} {path : String}
    (deleted : path ∈ (recorded.rows.filter gone).map SegmentRow.path) :
    ∀ row ∈ (recorded.disk.delete gone).rows, row.path ≠ path := by
  intro row inside same
  rw [rows_delete] at inside
  obtain ⟨inside, kept⟩ := List.mem_filter.mp inside
  obtain ⟨row', member, rfl⟩ := List.mem_map.mp deleted
  obtain ⟨there, went⟩ := List.mem_filter.mp member
  obtain rfl := List.inj_on_of_nodup_map unique inside there same
  rw [went] at kept
  cases kept

theorem Windowed.detach (usage : Nat → ℚ) (windowed : Windowed now days listed recorded) {month : Month}
    (asked : month ∈ listed)
    {longest : Int} (longest_ : ∀ cid own, days.get? cid = some own → own ≤ longest)
    (expired : month.hi.midnight ≤ now - longest * 86400) :
    Windowed now days listed (recording usage (.detachPartition .segments month.name) recorded).2 := by
  refine windowed.remove rfl ?_ ?_ ?_ ?_
  · exact List.filter_sublist.flatMap _
  · exact fun part inside => ⟨part, (List.mem_filter.mp inside).1, rfl, fun _ there => there⟩
  · exact List.filter_sublist.map _
  · intro row inside absent own has
    obtain ⟨part, there, held⟩ := List.mem_flatMap.mp inside
    -- the row was in the partition that went
    have name : part.month.name = month.name := by
      by_contra other
      exact absent (List.mem_flatMap.mpr ⟨part, List.mem_filter.mpr ⟨there, by simpa using other⟩, held⟩)
    have early := windowed.before part there row held
    rw [windowed.listed month asked part there name] at early
    have within : (own : ℚ) ≤ longest := by exact_mod_cast longest_ row.camera own has
    linarith

/-- Nor has one the path of a row in a partition that was detached. -/
theorem absent_of_detached (unique : (recorded.rows.map SegmentRow.path).Nodup) {part path : String}
    (remembered : path ∈ (recording usage (.pathsInPartition part) recorded).1) :
    ∀ row ∈ (recorded.disk.detachPartition .segments part).rows, row.path ≠ path := by
  intro row inside same
  have whole := ((List.filter_append_perm (fun other : Partition => decide (other.month.name = part))
    recorded.disk.segments).flatMap_right Partition.rows).map SegmentRow.path
  rw [List.flatMap_append, List.map_append] at whole
  have apart := (List.nodup_append.mp (whole.nodup_iff.mpr unique)).2.2
  refine apart path ?_ path ?_ rfl
  · obtain ⟨other, there, named⟩ := List.mem_flatMap.mp remembered
    obtain ⟨row', held, rfl⟩ := List.mem_map.mp named
    exact List.mem_map_of_mem (List.mem_flatMap.mpr ⟨other, there, held⟩)
  · rw [← same]
    refine List.mem_map_of_mem ?_
    simpa only [Disk.rows, Disk.detachPartition, ne_eq, decide_not] using inside

/-! ## A new month -/

theorem rows_create (disk : Disk) (month : Month) :
    ({ disk with segments := disk.segments ++ [⟨month, []⟩] } : Disk).rows = disk.rows := by
  simp [Disk.rows]

theorem Windowed.create (windowed : Windowed now days [] recorded) {month : Month}
    (new : month.name ∉ recorded.disk.segments.map fun part => part.month.name) :
    Windowed now days []
      ⟨{ recorded.disk with segments := recorded.disk.segments ++ [⟨month, []⟩] }, recorded.unlinked ++ [],
        recorded.removed ++ recorded.rows.filter
          (· ∉ ({ recorded.disk with segments := recorded.disk.segments ++ [⟨month, []⟩] } : Disk).rows)⟩ where
  unnamed row inside := by
    rw [List.append_nil]
    have there : row ∈ recorded.disk.rows := by
      rw [← rows_create recorded.disk month]
      exact inside
    exact windowed.unnamed row there
  outdated := by
    unfold Outdated
    simp only [rows_create]
    have nothing : recorded.rows.filter (· ∉ recorded.disk.rows) = [] := filter_gone _
    rw [nothing, List.append_nil]
    exact windowed.outdated
  retention := windowed.retention
  unique := by
    show ((Disk.rows _).map SegmentRow.path).Nodup
    rw [rows_create]
    exact windowed.unique
  before part inside := by
    obtain old | here := List.mem_append.mp inside
    · exact windowed.before part old
    · rw [List.mem_singleton.mp here]
      exact fun _ none => (List.not_mem_nil none).elim
  named := by
    show ((recorded.disk.segments ++ [_]).map _).Nodup
    rw [List.map_append, List.nodup_append]
    refine ⟨windowed.named, List.nodup_singleton _, fun name old other here same => new ?_⟩
    rw [List.map_singleton, List.mem_singleton] at here
    rw [← here, ← same]
    exact old
  listed _ none := (List.not_mem_nil none).elim

/-- A month that is created is empty. -/
theorem Windowed.ensure (windowed : Windowed now days [] recorded) (parent : Parent) (month : Date) :
    Windowed now days [] (recording usage (.ensurePartition parent month) recorded).2 := by
  simp only [recording, handler, Disk.ensurePartition]
  split
  next => exact windowed.same (same_of_segments rfl rfl)
  next new =>
    split
    next => exact windowed.same (same_of_segments rfl rfl)
    next =>
      cases parent with
      | events => exact windowed.same (same_of_segments rfl rfl)
      | segments =>
        refine windowed.create fun old => new ?_
        simp only [Disk.months, List.map_append, List.map_map, List.mem_append]
        exact .inl (.inl old)

/-! ## The pass -/

section Pass

variable {within : Phase → Prop}

/-- Every moment of `p` meets `kept`, and so does its end. -/
abbrev Keeps {α : Type} (usage : Nat → ℚ) (within : Phase → Prop) (kept : Recorded → Prop) (p : Program α)
    (recorded : Recorded) : Prop :=
  Throughout (recording usage) within kept (fun _ _ => True) p recorded

theorem keeps_quiet {α : Type} {kept : Recorded → Prop} {phase : Phase} {request : Request}
    {f : request.Answer → Program α}
    (stable : ∀ {recorded recorded'}, kept recorded → Same recorded recorded' → kept recorded')
    (quiet : Quiet request) (here : kept recorded)
    (next : ∀ recorded', kept recorded' → Same recorded recorded' → 
      Keeps usage within kept (f (recording usage request recorded).1) recorded') :
    Keeps usage within kept (ask phase request >>= f) recorded :=
  .ask here fun _ =>
    next _ (stable here (same_of_quiet usage request quiet recorded)) (same_of_quiet usage request quiet recorded)

theorem keeps_value {α β : Type} {kept : Recorded → Prop} {answer : Except Error β} {f : β → Program α}
    (here : kept recorded) (next : ∀ made, answer = .ok made → Keeps usage within kept (f made) recorded) :
    Keeps usage within kept (value answer >>= f) recorded := by
  cases answer with
  | error error => exact here
  | ok made => exact next made rfl

theorem keeps_unlinkAll (paths : List String) :
    ∀ (report : RetentionReport) {recorded : Recorded}, Windowed now days listed recorded →
      (∀ path ∈ paths, ∀ row ∈ recorded.rows, row.path ≠ path) →
      Keeps usage within (Windowed now days listed) (unlinkAll paths report) recorded := by
  induction paths with
  | nil => exact fun report _ windowed _ => ⟨windowed, trivial⟩
  | cons path rest ih =>
    intro report recorded windowed absent
    refine .ask windowed fun _ => ih _ (windowed.unlink (absent path (.head _))) ?_
    exact fun path' later => absent path' (.tail _ later)

theorem keeps_ensureRounds (parent : Parent) (existing : List String) (wanted : List Date) :
    ∀ (report : RetentionReport) {recorded : Recorded}, Windowed now days [] recorded →
      Keeps usage within (Windowed now days []) (ensureRounds parent existing wanted report) recorded := by
  induction wanted with
  | nil => exact fun report _ windowed => ⟨windowed, trivial⟩
  | cons month rest ih =>
    intro report recorded windowed
    unfold ensureRounds
    simp only
    split
    next => exact ih report windowed
    next => 
      refine .ask windowed fun _ => ?_
      exact keeps_value (windowed.ensure parent month) fun _ _ => ih _ (windowed.ensure parent month)

theorem keeps_ensurePartitions {recorded : Recorded} (ahead : Int) (report : RetentionReport)
    (windowed : Windowed now days [] recorded) :
    Keeps usage within (Windowed now days []) (ensurePartitions now ahead report) recorded := by
  refine keeps_quiet Windowed.same trivial windowed fun _ windowed _ => ?_
  refine keeps_quiet Windowed.same trivial windowed fun _ windowed _ => ?_
  refine keeps_value windowed fun today _ => ?_
  refine .bind (keeps_ensureRounds _ _ _ _ windowed) fun report _ windowed _ => ?_
  exact keeps_ensureRounds _ _ _ _ windowed

theorem keeps_dropRounds {longest : Int} (longest_ : ∀ cid own, days.get? cid = some own → own ≤ longest)
    (months : List Month) (asked : ∀ month ∈ months, month ∈ listed) :
    ∀ (report : RetentionReport) {recorded : Recorded}, Windowed now days listed recorded →
      Keeps usage within (Windowed now days listed) (dropRounds (now - longest * 86400) months report) recorded := by
  induction months with
  | nil => exact fun report _ windowed => ⟨windowed, trivial⟩
  | cons month rest ih =>
    intro report recorded windowed
    have later := ih fun month' inside => asked month' (.tail _ inside)
    unfold dropRounds
    split
    next expired =>
      -- the paths are remembered, then the rows go, and only then the files
      have remembered := windowed.same (same_of_quiet usage (.pathsInPartition month.name) trivial recorded)
      have detached := remembered.detach usage (asked month (.head _)) longest_ expired
      have dropped := same_of_quiet usage (.dropTable month.name) trivial
        (recording usage (.detachPartition .segments month.name)
          (recording usage (.pathsInPartition month.name) recorded).2).2
      refine .ask windowed fun _ => ⟨remembered, fun _ => ⟨detached, fun _ => ?_⟩⟩
      show Keeps _ _ _ (unlinkAll _ _ >>= fun _ => dropRounds _ _ _) _
      refine .bind (keeps_unlinkAll _ _ (detached.same dropped) fun path inside => ?_) fun report _ windowed _ => ?_
      · rw [dropped.rows]
        exact absent_of_detached windowed.unique inside
      · exact later report windowed
    next => exact later report windowed

theorem keeps_dropEventRounds (cutoff : ℚ) (months : List Month) :
    ∀ (report : RetentionReport) {recorded : Recorded}, Windowed now days listed recorded →
      Keeps usage within (Windowed now days listed) (dropEventRounds cutoff months report) recorded := by
  induction months with
  | nil => exact fun report _ windowed => ⟨windowed, trivial⟩
  | cons month rest ih =>
    intro report recorded windowed
    unfold dropEventRounds
    split
    next =>
      have detached := windowed.same
        (same_of_quiet usage (.detachPartition .events month.name) trivial recorded)
      have dropped := detached.same (same_of_quiet usage (.dropTable month.name) trivial _)
      exact ⟨windowed, fun _ => ⟨detached, fun _ => ih _ dropped⟩⟩
    next => exact ih report windowed

theorem minusDays_ok {longest : Int} {then_ : ℚ} (made : minusDays now longest = .ok then_) :
    then_ = now - longest * 86400 := by
  unfold minusDays at made
  dsimp only at made
  split at made
  next => exact (Except.ok.inj made).symm
  next => cases made

theorem keeps_expireRounds (longest : Int) (retention : Table Int)
    (own : ∀ cid own, (cid, own) ∈ retention → days.get? cid = some own) :
    ∀ (report : RetentionReport) {recorded : Recorded}, Windowed now days listed recorded →
      Keeps usage within (Windowed now days listed) (expireRounds now longest retention report) recorded := by
  induction retention with
  | nil => exact fun report _ windowed => ⟨windowed, trivial⟩
  | cons entry rest ih =>
    obtain ⟨cid, window⟩ := entry
    have later := ih fun cid' own' inside => own cid' own' (.tail _ inside)
    intro report recorded windowed
    unfold expireRounds
    split
    next =>
      refine keeps_value windowed fun olderThan made => ?_
      obtain rfl := minusDays_ok made
      have old (row : SegmentRow) (gone : decide (row.camera = cid ∧ row.start < now - window * 86400) = true)
          (own' : Int) (has : days.get? row.camera = some own') : row.start < now - own' * 86400 := by
        obtain ⟨rfl, early⟩ := of_decide_eq_true gone
        rw [own _ window (.head _)] at has
        obtain rfl := Option.some.inj has
        exact early
      have deleted := windowed.delete old
      refine .ask windowed fun _ =>
        .bind (keeps_unlinkAll _ _ deleted fun path inside => ?_) fun report _ windowed _ => ?_
      · exact absent_of_deleted windowed.unique inside
      · exact later report windowed
    next => exact later report windowed

/-! ## The policy and the sweep -/

theorem Unnamed.delete (usage : Nat → ℚ) (unnamed : Unnamed recorded) (path : String) :
    Unnamed (recording usage (.deleteSegment path) recorded).2 := by
  intro row inside
  show row.path ∉ recorded.unlinked ++ []
  rw [List.append_nil]
  have left : row ∈ (recorded.disk.delete fun row => row.path = path).rows := inside
  rw [rows_delete] at left
  exact unnamed row (List.mem_filter.mp left).1

theorem Unnamed.unlink (unnamed : Unnamed recorded) {path : String} (absent : ∀ row ∈ recorded.rows, row.path ≠ path) :
    Unnamed (recording usage (.unlink path) recorded).2 := by
  intro row inside named
  obtain earlier | here := List.mem_append.mp named
  · exact unnamed row inside earlier
  · exact absent row inside (List.mem_singleton.mp here)

theorem keeps_giveUpRounds (target : ℚ) (batch : List SegmentRow) :
    ∀ (freed : Nat) (report : RetentionReport) {recorded : Recorded}, Unnamed recorded →
      Keeps usage within Unnamed (giveUpRounds target batch freed report) recorded := by
  induction batch with
  | nil => exact fun freed report _ unnamed => ⟨unnamed, trivial⟩
  | cons seg rest ih =>
    intro freed report recorded unnamed
    refine keeps_quiet Unnamed.same trivial unnamed fun recorded' unnamed _ => ?_
    split
    next => exact ⟨unnamed, trivial⟩
    next =>
      have deleted := unnamed.delete usage seg.path
      refine .ask unnamed fun _ => .ask deleted fun _ => ih _ _ (deleted.unlink fun row inside same => ?_)
      have left : row ∈ (recorded'.disk.delete fun row => row.path = seg.path).rows := inside
      rw [rows_delete] at left
      simpa [same] using (List.mem_filter.mp left).2

theorem keeps_degradeRounds (policy : DiskFullPolicy) (target : ℚ) (rounds : Nat) :
    ∀ (freed : Nat) (report : RetentionReport) {recorded : Recorded}, Unnamed recorded →
      Keeps usage within Unnamed (degradeRounds policy target rounds freed report) recorded := by
  induction rounds with
  | zero => exact fun freed report _ unnamed => unnamed
  | succ rounds ih =>
    intro freed report recorded unnamed
    refine keeps_quiet Unnamed.same trivial unnamed fun _ unnamed _ => ?_
    split
    next => exact ⟨unnamed, trivial⟩
    next =>
      refine keeps_quiet Unnamed.same trivial unnamed fun _ unnamed _ => ?_
      split
      next => exact ⟨unnamed, trivial⟩
      next => exact .bind (keeps_giveUpRounds _ _ _ _ unnamed) fun answer _ unnamed _ => ih _ _ unnamed

theorem keeps_applyPolicy (settings : RetentionSettings) (double : ℚ → ℚ) (rounds : Nat) (report : RetentionReport)
    (unnamed : Unnamed recorded) : Keeps usage within Unnamed (applyPolicy settings double rounds report) recorded := by
  unfold applyPolicy
  simp only
  split
  next => exact keeps_quiet Unnamed.same trivial unnamed fun _ unnamed _ => ⟨unnamed, trivial⟩
  next => exact .bind (keeps_degradeRounds _ _ _ _ _ unnamed) fun _ _ unnamed _ => ⟨unnamed, trivial⟩

theorem keeps_sweep {kept : Recorded → Prop}
    (stable : ∀ {recorded recorded'}, kept recorded → Same recorded recorded' → kept recorded')
    (settings : RetentionSettings) (report : RetentionReport) (here : kept recorded) :
    Keeps usage within kept (sweep settings now report) recorded := by
  have logs (events : List RetentionEvent) :
      ∀ {recorded : Recorded}, kept recorded → Keeps usage within kept (logRounds events) recorded := by
    induction events with
    | nil => exact fun here => ⟨here, trivial⟩
    | cons event rest ih => exact fun here => keeps_quiet stable trivial here fun _ here _ => ih here
  refine keeps_quiet stable trivial here fun _ here _ => ?_
  refine keeps_quiet stable trivial here fun _ here _ => ?_
  exact .bind (logs _ here) fun _ _ here _ => ⟨here, trivial⟩

/-! ## The whole pass -/

theorem Windowed.list (windowed : Windowed now days [] recorded) {months : List Month}
    (there : ∀ month ∈ months, ∃ part ∈ recorded.disk.segments, part.month = month) :
    Windowed now days months recorded :=
  { windowed with
    listed := fun month asked part inside same => by
      obtain ⟨part', inside', rfl⟩ := there month asked
      rw [List.inj_on_of_nodup_map windowed.named inside inside' same] }

theorem nodup_retentionDays (disk : Disk) : disk.retentionDays.keys.Nodup := by
  have rounds (cams : List CameraPolicy) : ∀ days : Table Int, days.keys.Nodup →
      (cams.foldl (fun (days : Table Int) cam => days.set cam.id cam.retentionDays) days).keys.Nodup := by
    induction cams with
    | nil => exact fun _ nodup => nodup
    | cons cam rest ih => exact fun days nodup => ih _ (Table.nodup_set nodup _ _)
  exact rounds disk.cameras [] List.nodup_nil

theorem keeps_enforceRetention {kept : Recorded → Prop} (settings : RetentionSettings) (double : ℚ → ℚ) (rounds : Nat)
    (weaken : ∀ listed recorded, Windowed now days listed recorded → kept recorded)
    (stable : ∀ {recorded recorded'}, kept recorded → Same recorded recorded' → kept recorded')
    (policy : ∀ report recorded, kept recorded →
      Keeps usage within kept (applyPolicy settings double rounds report) recorded)
    (windowed : Windowed now days [] recorded) :
    Keeps usage within kept (enforceRetention settings double rounds now) recorded := by
  have settle {α : Type} {listed : List Month} {p : Program α} {recorded : Recorded}
      (holds : Keeps usage within (Windowed now days listed) p recorded) :
      Throughout (recording usage) within kept (fun _ => Windowed now days listed) p recorded :=
    holds.mono (weaken listed) fun _ _ windowed _ => windowed
  unfold enforceRetention
  refine .bind (settle (keeps_ensurePartitions _ _ windowed)) fun report recorded' _ windowed => ?_
  refine .ask (weaken _ _ windowed) fun _ => ?_
  have windowed := windowed.same (same_of_quiet usage .retentionDays trivial recorded')
  have distinct := nodup_retentionDays recorded'.disk
  have answer : (recording usage .retentionDays recorded').1 = days := windowed.retention
  rw [show recorded'.disk.retentionDays = days from answer] at distinct
  rw [answer]
  cases most : (days.map Prod.snd).max? with
  | none => exact ⟨weaken _ _ windowed, trivial⟩
  | some longest =>
    have longest_ (cid own : Int) (has : days.get? cid = some own) : own ≤ longest :=
      (List.max?_eq_some_iff.mp most).2 own (List.mem_map_of_mem (f := Prod.snd) (Table.mem_of_get? has))
    have own (cid own : Int) (inside : (cid, own) ∈ days) : days.get? cid = some own :=
      Table.get?_of_mem distinct inside
    refine keeps_value (weaken _ _ windowed) fun cutoff made => ?_
    obtain rfl := minusDays_ok made
    refine .ask (weaken _ _ windowed) fun _ => ?_
    have listing := windowed.same (same_of_quiet usage (.partitions .segments) trivial _)
    have windowed := listing.list fun month (asked : month ∈ (recording usage (.partitions .segments) _).1) =>
      List.mem_map.mp ((List.mem_insertionSort _).mp asked)
    refine .bind (settle (keeps_dropRounds longest_ _ (fun _ asked => asked) report windowed)) fun report _ _ windowed => ?_
    refine .ask (weaken _ _ windowed) fun _ => ?_
    have windowed := windowed.same (same_of_quiet usage (.partitions .events) trivial _)
    refine .bind (settle (keeps_dropEventRounds _ _ report windowed)) fun report _ _ windowed => ?_
    refine .bind (settle (keeps_expireRounds longest days own report windowed)) fun report _ here _ => ?_
    refine keeps_quiet stable trivial here fun _ here _ => ?_
    split
    next => exact .bind (policy report _ here) fun report _ here _ => keeps_sweep stable settings report here
    next => exact keeps_sweep stable settings report here

end Pass

/-! ## Crashes -/

/-- Before a pass. -/
def start (disk : Disk) : Recorded := ⟨disk, [], []⟩

theorem windowed_start {disk : Disk} (sound : Sound disk) (now : ℚ) :
    Windowed now disk.retentionDays [] (start disk) where
  unnamed _ _ := List.not_mem_nil
  outdated _ none := (List.not_mem_nil none).elim
  retention := rfl
  unique := sound.unique
  before part inside row held := (sound.placed part inside row held).2
  named := sound.named
  listed _ none := (List.not_mem_nil none).elim

/-- The policy's requests are not looked at. -/
theorem keeps_policy_out (settings : RetentionSettings) (double : ℚ → ℚ) (rounds : Nat) {kept : Recorded → Prop}
    (report : RetentionReport) (here : kept recorded) :
    Keeps usage (· ≠ Phase.policy) kept (applyPolicy settings double rounds report) recorded := by
  unfold applyPolicy
  simp only
  split
  next => exact .ask here fun looked => absurd rfl looked
  next =>
    cases rounds with
    | zero => exact here
    | succ rounds => exact ⟨here, fun looked => absurd rfl looked⟩

/-- A pass that is cut off after any number of its requests has left no row that names a file which it
unlinked; and as long as the policy has not run, what it removed of a camera started before the
camera's own cutoff. -/
theorem retention_crash_ordered (settings : RetentionSettings) (double : ℚ → ℚ) (rounds : Nat) (now : ℚ)
    (usage : Nat → ℚ) {disk : Disk} (sound : Sound disk) (n : Nat) :
    let moment (m : Nat) := Proc.after (recording usage) m (enforceRetention settings double rounds now, start disk)
    Unnamed (moment n).2 ∧
      ((∀ m < n, (moment m).1.label? ≠ some .policy) → Outdated now disk.retentionDays (moment n).2) := by
  intro moment
  have windowed := windowed_start sound now
  constructor
  · have throughout : Keeps usage (fun _ => True) Unnamed (enforceRetention settings double rounds now) (start disk) :=
      keeps_enforceRetention settings double rounds (fun _ _ windowed => windowed.unnamed) Unnamed.same
        (fun report _ unnamed => keeps_applyPolicy settings double rounds report unnamed) windowed
    exact throughout.after n fun _ _ _ _ => trivial
  · intro before
    have throughout : Keeps usage (· ≠ Phase.policy) (Outdated now disk.retentionDays)
        (enforceRetention settings double rounds now) (start disk) :=
      keeps_enforceRetention settings double rounds (fun _ _ windowed => windowed.outdated) Outdated.same
        (fun report _ outdated => keeps_policy_out settings double rounds report outdated) windowed
    refine throughout.after n fun m earlier label at_ here => before m earlier ?_
    rw [at_, here]

/-- Camera 1 keeps thirty days and camera 2 seven; one month is past both windows, one row past its own. -/
def twoMonths : Disk where
  segments :=
    [⟨⟨"segments_2026_06", ⟨2026, 6, 1⟩, ⟨2026, 7, 1⟩⟩, [⟨1, 1782000000, 1782000600, "/archive/1/a.mp4", 10, 1⟩]⟩,
      ⟨⟨"segments_2026_09", ⟨2026, 9, 1⟩, ⟨2026, 10, 1⟩⟩,
        [⟨2, 1788300000, 1788300600, "/archive/2/b.mp4", 10, 1⟩,
          ⟨2, 1789400000, 1789400600, "/archive/2/c.mp4", 10, 1⟩]⟩]
  events := []
  detached := []
  cameras := [⟨1, 30, 100⟩, ⟨2, 7, 10⟩]
  logged := []
  files := [("/archive/1/a.mp4", 1782000600), ("/archive/2/b.mp4", 1788300600), ("/archive/2/c.mp4", 1789400600)]
  asked := 0

def atNoon : RetentionSettings := ⟨"/archive", 1, 95 / 100, .degradeRetention, 600⟩

/-- The fifteenth of September, cut off after two files are unlinked. -/
theorem retention_crash_ordered_september :
    Sound twoMonths ∧
      let moment (m : Nat) :=
        Proc.after (recording fun _ => 1 / 2) m (enforceRetention atNoon id 10 1789473600, start twoMonths)
      (moment 17).2.unlinked.length = 2 ∧ Unnamed (moment 17).2 ∧
        ((∀ m < 17, (moment m).1.label? ≠ some .policy) →
          Outdated 1789473600 twoMonths.retentionDays (moment 17).2) := by
  have sound : Sound twoMonths := ⟨by decide, by decide +kernel, by decide⟩
  exact ⟨sound, by decide +kernel, retention_crash_ordered atNoon id 10 1789473600 (fun _ => 1 / 2) sound 17⟩

end EdgeVms.Verified.RetentionOrder
