import EdgeVms.Node.Retention

/-! # What the disk policy gives up

The usage of a `Room` is that of its files, and its database breaks ties between
segments as it likes.  The loop asks for a batch again and again; what it has given
up and what it has not is at every moment a division of one order of the segments.
-/

namespace EdgeVms.Verified.GivenUp

open Process Python Node Retention

/-! ## The room -/

/-- What comes first in `ORDER BY`: each segment is joined with the priority of its camera. -/
def before (priorityFirst : Bool) (first second : Int × SegmentRow) : Bool :=
  if priorityFirst ∧ first.1 ≠ second.1 then first.1 < second.1 else first.2.start ≤ second.2.start

/-- A file system on which each file has its share, and a database that sorts. -/
structure Room where
  other : ℚ
  share : String → ℚ
  nonneg : ∀ path, 0 ≤ share path
  arrange : Disk → Bool → List (Int × SegmentRow) → List (Int × SegmentRow)
  perm : ∀ disk priorityFirst rows, (arrange disk priorityFirst rows).Perm rows
  sorted : ∀ disk priorityFirst rows,
    (arrange disk priorityFirst rows).Pairwise fun first second => before priorityFirst first second

/-- `segments s JOIN cameras c ON c.id = s.camera_id` -/
def joined (disk : Disk) : List (Int × SegmentRow) :=
  disk.rows.filterMap fun row =>
    (disk.cameras.find? fun cam => cam.id = row.camera).map fun cam => (cam.priority, row)

namespace Room

def oldestSegments (room : Room) (limit : Nat) (priorityFirst : Bool) (disk : Disk) : List SegmentRow :=
  ((room.arrange disk priorityFirst (joined disk)).take limit).map Prod.snd

/-- A file that is unlinked takes its share away. -/
def usage (room : Room) (disk : Disk) : ℚ := room.other + (disk.files.map fun file => room.share file.1).sum

def handler (room : Room) : Handler interface Disk
  | .usage, disk => (room.usage disk, disk)
  | .oldestSegments limit priorityFirst, disk => (room.oldestSegments limit priorityFirst disk, disk)
  | request, disk => Retention.handler (fun _ => 0) request disk

end Room

/-- `delete_segment`, then `unlink`. -/
def giveUp (disk : Disk) (seg : SegmentRow) : Disk :=
  { disk.delete fun row => row.path = seg.path with files := disk.files.filter fun file => file.1 ≠ seg.path }

/-- The disk without these segments. -/
def without (gone : List SegmentRow) (disk : Disk) : Disk := gone.foldl giveUp disk

def rank (disk : Disk) (row : SegmentRow) : Int × SegmentRow :=
  (((disk.cameras.find? fun cam => cam.id = row.camera).map CameraPolicy.priority).getD 0, row)

/-- The order in which segments are given up: the priority of the camera if it counts, then the start. -/
def InOrder (disk : Disk) (priorityFirst : Bool) (rows : List SegmentRow) : Prop :=
  rows.Pairwise fun first second => before priorityFirst (rank disk first) (rank disk second)

/-- The shortest beginning of `order` that is enough; all of it if nothing is. -/
structure Shortest (enough : List SegmentRow → Prop) (order gone : List SegmentRow) : Prop where
  isPrefix : gone <+: order
  needed : ∀ first, first <+: gone → first ≠ gone → ¬ enough first
  reached : enough gone ∨ gone = order

/-! ## Disks without segments -/

section Without

variable (disk : Disk) (gone more : List SegmentRow)

theorem rows_delete (drops : SegmentRow → Bool) : (disk.delete drops).rows = disk.rows.filter fun row => !drops row := by
  simp [Disk.rows, Disk.delete, List.flatMap_map, List.filter_flatMap]

theorem without_append : without (gone ++ more) disk = without more (without gone disk) := List.foldl_append

@[simp] theorem cameras_without : (without gone disk).cameras = disk.cameras := by
  induction gone generalizing disk with
  | nil => rfl
  | cons seg rest ih => exact ih (giveUp disk seg)

theorem rows_without : (without gone disk).rows = disk.rows.filter fun row => row.path ∉ gone.map SegmentRow.path := by
  induction gone generalizing disk with
  | nil => simp [without]
  | cons seg rest ih =>
    have rows : (giveUp disk seg).rows = disk.rows.filter fun row => !decide (row.path = seg.path) :=
      rows_delete disk fun row => row.path = seg.path
    show (without rest (giveUp disk seg)).rows = _
    rw [ih, rows, List.filter_filter]
    refine List.filter_congr fun row _ => ?_
    by_cases same : row.path = seg.path <;> simp [same]

theorem sum_filter_le {α : Type} (share : α → ℚ) (nonneg : ∀ value, 0 ≤ share value) (keep : α → Bool)
    (values : List α) : ((values.filter keep).map share).sum ≤ (values.map share).sum := by
  induction values with
  | nil => exact le_refl _
  | cons value rest ih =>
    have here := nonneg value
    rw [List.filter_cons]
    split
    · simp only [List.map_cons, List.sum_cons]
      linarith
    · simp only [List.map_cons, List.sum_cons]
      linarith

variable (room : Room)

theorem usage_without_le : room.usage (without gone disk) ≤ room.usage disk := by
  induction gone generalizing disk with
  | nil => exact le_refl _
  | cons seg rest ih =>
    refine (ih (giveUp disk seg)).trans ?_
    have less := sum_filter_le (fun file : String × ℚ => room.share file.1) (fun file => room.nonneg file.1)
      (fun file => file.1 ≠ seg.path) disk.files
    exact add_le_add (le_refl room.other) less

theorem joined_without (configured : ∀ row ∈ disk.rows, ∃ cam ∈ disk.cameras, cam.id = row.camera) :
    joined (without gone disk) = (without gone disk).rows.map (rank disk) := by
  unfold joined
  rw [cameras_without]
  have known : ∀ row ∈ (without gone disk).rows, ∃ cam ∈ disk.cameras, cam.id = row.camera := by
    intro row inside
    rw [rows_without] at inside
    exact configured row (List.mem_filter.mp inside).1
  generalize (without gone disk).rows = rows at known
  induction rows with
  | nil => rfl
  | cons row rest ih =>
    obtain ⟨here, later⟩ := List.forall_mem_cons.mp known
    obtain ⟨cam, inside, same⟩ := here
    have found : (disk.cameras.find? fun cam => cam.id = row.camera).isSome := by
      rw [List.find?_isSome]
      exact ⟨cam, inside, by simpa using same⟩
    obtain ⟨cam', found⟩ := Option.isSome_iff_exists.mp found
    rw [List.filterMap_cons, List.map_cons, ih later]
    simp only [rank, found, Option.map_some, Option.getD_some]

/-- What the database answers is one order of the segments that are there. -/
theorem arranged {disk : Disk} (priorityFirst : Bool)
    (configured : ∀ row ∈ disk.rows, ∃ cam ∈ disk.cameras, cam.id = row.camera) (gone : List SegmentRow) :
    ((room.arrange (without gone disk) priorityFirst (joined (without gone disk))).map Prod.snd).Perm
        (without gone disk).rows ∧
      InOrder disk priorityFirst
        ((room.arrange (without gone disk) priorityFirst (joined (without gone disk))).map Prod.snd) := by
  have sorted := room.sorted (without gone disk) priorityFirst (joined (without gone disk))
  have perm := room.perm (without gone disk) priorityFirst (joined (without gone disk))
  generalize room.arrange (without gone disk) priorityFirst (joined (without gone disk)) = entries at sorted perm
  rw [joined_without disk gone configured] at perm
  constructor
  · have back := perm.map Prod.snd
    rw [List.map_map] at back
    have same : (Prod.snd ∘ rank disk : SegmentRow → SegmentRow) = id := rfl
    rwa [same, List.map_id] at back
  · unfold InOrder
    rw [List.pairwise_map]
    have ranked : ∀ entry ∈ entries, rank disk entry.2 = entry := by
      intro entry inside
      obtain ⟨row, -, rfl⟩ := List.mem_map.mp (perm.mem_iff.mp inside)
      rfl
    refine sorted.imp_of_mem fun here there before => ?_
    rw [ranked _ here, ranked _ there]
    exact before

end Without

/-! ## What the loop keeps -/

section Loop

variable {room : Room} {disk : Disk} {priorityFirst : Bool} {target : ℚ} {begun : RetentionReport}

/-- What is gone and what is left make up one order of the segments, and every one of those that are gone
was needed. -/
structure Giving (room : Room) (disk : Disk) (priorityFirst : Bool) (target : ℚ) (begun : RetentionReport)
    (gone left : List SegmentRow) (freed : Nat) (report : RetentionReport) : Prop where
  perm : (gone ++ left).Perm disk.rows
  order : InOrder disk priorityFirst (gone ++ left)
  needed : ∀ first, first <+: gone → first ≠ gone → target < room.usage (without first disk)
  freed : freed = (gone.map SegmentRow.bytes).sum
  unlinked : report.filesUnlinked = begun.filesUnlinked + gone.length
  allowed : report.recordingAllowed = begun.recordingAllowed

variable {gone left : List SegmentRow} {freed : Nat} {report : RetentionReport}

/-- One more segment is given up. -/
theorem Giving.give {seg : SegmentRow}
    (giving : Giving room disk priorityFirst target begun gone (seg :: left) freed report)
    (full : target < room.usage (without gone disk)) :
    Giving room disk priorityFirst target begun (gone ++ [seg]) left (freed + seg.bytes)
      { report with
        filesUnlinked := report.filesUnlinked + 1
        degradedCameras := report.degradedCameras.set seg.camera seg.start } where
  perm := by simpa using giving.perm
  order := by simpa using giving.order
  needed first isPrefix other := by
    rw [List.prefix_concat_iff] at isPrefix
    have before := isPrefix.resolve_left other
    by_cases all : first = gone
    · rw [all]
      exact full
    · exact giving.needed first before all
  freed := by simp [giving.freed]
  unlinked := by
    simp only [giving.unlinked, List.length_append, List.length_singleton]
    omega
  allowed := giving.allowed

/-- What is left is in the index. -/
theorem Giving.rows (giving : Giving room disk priorityFirst target begun gone left freed report)
    (distinct : (disk.rows.map SegmentRow.path).Nodup) : (without gone disk).rows.Perm left := by
  have paths : ((gone ++ left).map SegmentRow.path).Nodup := (giving.perm.map _).nodup_iff.mpr distinct
  rw [List.map_append, List.nodup_append] at paths
  obtain ⟨-, -, apart⟩ := paths
  rw [rows_without]
  refine (giving.perm.filter _).symm.trans ?_
  rw [List.filter_append]
  have nothing : gone.filter (fun row => row.path ∉ gone.map SegmentRow.path) = [] := by
    refine List.filter_eq_nil_iff.mpr fun row inside => ?_
    simpa using ⟨row, inside, rfl⟩
  have everything : left.filter (fun row => row.path ∉ gone.map SegmentRow.path) = left := by
    refine List.filter_eq_self.mpr fun row inside => decide_eq_true fun there => ?_
    exact apart row.path there row.path (List.mem_map_of_mem inside) rfl
  rw [nothing, everything, List.nil_append]

/-- The next batch continues the order. -/
theorem Giving.batch (giving : Giving room disk priorityFirst target begun gone left freed report)
    (configured : ∀ row ∈ disk.rows, ∃ cam ∈ disk.cameras, cam.id = row.camera)
    (distinct : (disk.rows.map SegmentRow.path).Nodup) {limit : Nat} (positive : 0 < limit) :
    ∃ later, (room.oldestSegments limit priorityFirst (without gone disk) ++ later).Perm left ∧
      (room.oldestSegments limit priorityFirst (without gone disk) = [] → later = []) ∧
      Giving room disk priorityFirst target begun gone
        (room.oldestSegments limit priorityFirst (without gone disk) ++ later) freed report := by
  obtain ⟨perm, sorted⟩ := arranged room priorityFirst configured gone
  have rows := perm.trans (giving.rows distinct)
  unfold Room.oldestSegments
  generalize room.arrange (without gone disk) priorityFirst (joined (without gone disk)) = entries at rows sorted
  have whole : (entries.take limit).map Prod.snd ++ (entries.drop limit).map Prod.snd = entries.map Prod.snd := by
    rw [← List.map_append, List.take_append_drop]
  refine ⟨(entries.drop limit).map Prod.snd, ?_, fun empty => ?_, ?_⟩
  · rw [whole]
    exact rows
  · have nothing := (List.take_eq_nil_iff.mp (List.map_eq_nil_iff.mp empty)).resolve_left (by omega)
    rw [nothing, List.drop_nil, List.map_nil]
  · rw [whole]
    obtain ⟨first, rest, across⟩ := List.pairwise_append.mp giving.order
    exact
      { perm := (rows.append_left gone).trans giving.perm
        order := List.pairwise_append.mpr ⟨first, sorted, fun row before row' inside =>
          across row before row' (rows.mem_iff.mp inside)⟩
        needed := giving.needed
        freed := giving.freed
        unlinked := giving.unlinked
        allowed := giving.allowed }

/-! ## The loop -/

theorem run_ask {α : Type} (phase : Phase) (request : Request) (next : request.Answer → Program α) (disk : Disk) :
    Proc.run room.handler (ask phase request >>= next) disk =
      Proc.run room.handler (next (room.handler request disk).1) (room.handler request disk).2 := rfl

/-- One batch: no more of it is given up than needed. -/
theorem Giving.giveUpRounds (batch : List SegmentRow) {later : List SegmentRow}
    (giving : Giving room disk priorityFirst target begun gone (batch ++ later) freed report) :
    ∃ more rest freed' report', batch = more ++ rest ∧
      Proc.run room.handler (Retention.giveUpRounds target batch freed report) (without gone disk) =
        (.ok (freed', report'), without (gone ++ more) disk) ∧
      Giving room disk priorityFirst target begun (gone ++ more) (rest ++ later) freed' report' ∧
      (rest ≠ [] → room.usage (without (gone ++ more) disk) ≤ target) := by
  induction batch generalizing gone freed report with
  | nil =>
    refine ⟨[], [], freed, report, rfl, ?_, ?_, absurd rfl⟩
    · rw [List.append_nil]
      rfl
    · rwa [List.append_nil]
  | cons seg batch ih =>
    have asked : room.handler .usage (without gone disk) = (room.usage (without gone disk), without gone disk) := rfl
    unfold Retention.giveUpRounds
    rw [run_ask, asked]
    by_cases full : room.usage (without gone disk) ≤ target
    · rw [if_pos full]
      refine ⟨[], seg :: batch, freed, report, rfl, ?_, ?_, fun _ => ?_⟩
      · rw [List.append_nil]
        rfl
      · rwa [List.append_nil]
      · rwa [List.append_nil]
    · rw [if_neg full, run_ask, run_ask]
      obtain ⟨more, rest, freed', report', split, ran, given, reached⟩ := ih (giving.give (not_le.mp full))
      rw [List.append_assoc, List.singleton_append] at ran given reached
      refine ⟨seg :: more, rest, freed', report', by rw [split, List.cons_append], ?_, given, reached⟩
      rw [← ran, without_append]
      rfl

/-- The loop ends: each batch of a full disk takes something away. -/
theorem Giving.degradeRounds {policy : DiskFullPolicy} (rounds : Nat)
    (configured : ∀ row ∈ disk.rows, ∃ cam ∈ disk.cameras, cam.id = row.camera)
    (distinct : (disk.rows.map SegmentRow.path).Nodup)
    (giving : Giving room disk (policy = .byPriority) target begun gone left freed report)
    (enough : left.length < rounds) :
    ∃ gone' left' freed' given answer,
      Proc.run room.handler (Retention.degradeRounds policy target rounds freed report) (without gone disk) =
        (.ok (freed', answer), without gone' disk) ∧
      Giving room disk (policy = .byPriority) target begun gone' left' freed' given ∧
      (room.usage (without gone' disk) ≤ target ∧ answer = given ∨
        left' = [] ∧ target < room.usage (without gone' disk) ∧ answer = { given with recordingAllowed := false }) := by
  induction rounds generalizing gone left freed report with
  | zero => omega
  | succ rounds ih =>
    have asked : room.handler .usage (without gone disk) = (room.usage (without gone disk), without gone disk) := rfl
    unfold Retention.degradeRounds
    rw [run_ask, asked]
    by_cases full : room.usage (without gone disk) ≤ target
    · rw [if_pos full]
      exact ⟨gone, left, freed, report, report, rfl, giving, .inl ⟨full, rfl⟩⟩
    · rw [if_neg full, run_ask]
      obtain ⟨later, perm, last, sorted⟩ := giving.batch configured distinct (Nat.succ_pos 49)
      have answer : room.handler (.oldestSegments 50 (policy = .byPriority)) (without gone disk) =
        (room.oldestSegments 50 (policy = .byPriority) (without gone disk), without gone disk) := rfl
      rw [answer]
      generalize room.oldestSegments 50 (policy = .byPriority) (without gone disk) = batch at perm last sorted
      cases batch with
      | nil =>
        have nothing : left = [] := by
          rw [last rfl, List.append_nil] at perm
          exact List.nil_perm.mp perm
        subst nothing
        exact ⟨gone, [], freed, report, _, rfl, giving, .inr ⟨rfl, not_le.mp full, rfl⟩⟩
      | cons seg batch =>
        obtain ⟨more, rest, freed', report', split, ran, given, reached⟩ := sorted.giveUpRounds
        -- the first of the batch is gone, or the disk would not have been full
        have shrunk : (rest ++ later).length < left.length := by
          have length := perm.length_eq
          rw [split] at length
          cases more with
          | nil =>
            rw [List.nil_append] at split
            refine absurd (reached (by rw [← split]; exact List.cons_ne_nil _ _)) ?_
            rwa [List.append_nil]
          | cons first more =>
            simp only [List.length_append, List.length_cons] at length ⊢
            omega
        obtain ⟨gone', left', freed', given', answer', ran', still, ended⟩ := ih given (by omega)
        refine ⟨gone', left', freed', given', answer', ?_, still, ended⟩
        rw [← ran']
        show Proc.run room.handler ((Retention.giveUpRounds target (seg :: batch) freed report).bind _) _ = _
        rw [Proc.run_bind, ran]

/-- The report says how much was freed, and the event says it too. -/
theorem run_applyPolicy {settings : RetentionSettings} {double : ℚ → ℚ} {rounds : Nat} {disk disk' : Disk}
    {answer : RetentionReport} (degrades : settings.diskFullPolicy ≠ .stopRecording)
    (ran : Proc.run room.handler (Retention.degradeRounds settings.diskFullPolicy
      (double (settings.diskHighWater - 5 / 100)) rounds 0
      { report with policyApplied := some settings.diskFullPolicy }) disk = (.ok (freed, answer), disk')) :
    Proc.run room.handler (applyPolicy settings double rounds report) disk =
      (.ok { answer with
        bytesFreedByPolicy := freed
        events := answer.events ++
          [("retention.degraded", none, .degraded settings.diskFullPolicy freed answer.degradedCameras)] }, disk') := by
  unfold applyPolicy
  rw [if_neg degrades]
  show Proc.run room.handler ((Retention.degradeRounds _ _ rounds 0 _).bind _) disk = _
  rw [Proc.run_bind, ran]
  rfl

end Loop

/-- The policy ends, and has given up the shortest beginning of the order that brings the usage down; it
forbids recording exactly when giving up everything does not. -/
theorem gives_up_shortest (room : Room) (settings : RetentionSettings) (double : ℚ → ℚ) (report : RetentionReport)
    (disk : Disk) (degrades : settings.diskFullPolicy ≠ .stopRecording)
    (configured : ∀ row ∈ disk.rows, ∃ cam ∈ disk.cameras, cam.id = row.camera)
    (distinct : (disk.rows.map SegmentRow.path).Nodup) {rounds : Nat} (enough : disk.rows.length < rounds) :
    ∃ order gone report',
      order.Perm disk.rows ∧ InOrder disk (settings.diskFullPolicy = .byPriority) order ∧
      Proc.run room.handler (applyPolicy settings double rounds report) disk = (.ok report', without gone disk) ∧
      Shortest (fun gone => room.usage (without gone disk) ≤ double (settings.diskHighWater - 5 / 100)) order gone ∧
      report'.recordingAllowed = (report.recordingAllowed &&
        decide (room.usage (without order disk) ≤ double (settings.diskHighWater - 5 / 100))) ∧
      report'.filesUnlinked = report.filesUnlinked + gone.length ∧
      report'.bytesFreedByPolicy = (gone.map SegmentRow.bytes).sum := by
  obtain ⟨perm, sorted⟩ := arranged room (settings.diskFullPolicy = .byPriority) configured []
  generalize (room.arrange (without [] disk) (settings.diskFullPolicy = .byPriority) (joined (without [] disk))).map
    Prod.snd = order at perm sorted
  have perm : order.Perm disk.rows := perm
  have giving : Giving room disk (settings.diskFullPolicy = .byPriority) (double (settings.diskHighWater - 5 / 100))
      { report with policyApplied := some settings.diskFullPolicy } [] order 0
      { report with policyApplied := some settings.diskFullPolicy } :=
    { perm := perm
      order := sorted
      needed := fun first isPrefix other => absurd (List.prefix_nil.mp isPrefix) other
      freed := rfl
      unlinked := rfl
      allowed := rfl }
  obtain ⟨gone, left, freed, given, answer, ran, still, ended⟩ :=
    giving.degradeRounds rounds configured distinct (by rwa [perm.length_eq])
  have all : room.usage (without (gone ++ left) disk) ≤ room.usage (without gone disk) := by
    rw [without_append]
    exact usage_without_le _ left room
  refine ⟨gone ++ left, gone, _, still.perm, still.order, run_applyPolicy degrades ran,
    ⟨List.prefix_append gone left, fun first isPrefix other => not_le.mpr (still.needed first isPrefix other), ?_⟩,
    ?_, ?_, still.freed⟩
  · obtain ⟨reached, -⟩ | ⟨rfl, -, -⟩ := ended
    · exact .inl reached
    · exact .inr (List.append_nil gone).symm
  · obtain ⟨reached, rfl⟩ | ⟨rfl, full, rfl⟩ := ended
    · rw [decide_eq_true (all.trans reached), Bool.and_true]
      exact still.allowed
    · rw [List.append_nil, decide_eq_false (not_le.mpr full), Bool.and_false]
  · obtain ⟨-, rfl⟩ | ⟨-, -, rfl⟩ := ended
    · exact still.unlinked
    · exact still.unlinked

/-- A database that keeps the segments of one start in the order of the index. -/
def stable (share : String → ℚ) (nonneg : ∀ path, 0 ≤ share path) : Room where
  other := 0
  share := share
  nonneg := nonneg
  arrange _ priorityFirst rows := rows.insertionSort fun first second => before priorityFirst first second
  perm _ _ rows := List.perm_insertionSort _ rows
  sorted _ priorityFirst rows := by
    have total : Std.Total fun first second => before priorityFirst first second = true := ⟨fun first second => by
      unfold before
      grind⟩
    have trans : IsTrans _ fun first second => before priorityFirst first second = true := ⟨fun first second third => by
      unfold before
      grind⟩
    exact List.pairwise_insertionSort _ rows

/-- It is the one that the passes of retention run over. -/
theorem oldestSegments_stable (share : String → ℚ) (nonneg : ∀ path, 0 ≤ share path) (limit : Nat)
    (priorityFirst : Bool) (disk : Disk) :
    (stable share nonneg).oldestSegments limit priorityFirst disk = disk.oldestSegments limit priorityFirst := rfl

/-- Each file takes a tenth of the disk. -/
def tenths : Room := stable (fun _ => 1 / 10) fun _ => by norm_num

def pressed : RetentionSettings := ⟨"/archive", 1, 2 / 10, .byPriority, 60⟩

/-- The older segment is of the camera that counts for more. -/
def crowded : Disk where
  segments := [⟨⟨"segments_2026_03", ⟨2026, 3, 1⟩, ⟨2026, 4, 1⟩⟩,
    [⟨1, 100, 160, "1/a.mp4", 5, 1⟩, ⟨2, 200, 260, "2/a.mp4", 7, 1⟩, ⟨2, 260, 320, "2/b.mp4", 7, 1⟩]⟩]
  events := []
  detached := []
  cameras := [⟨1, 30, 9⟩, ⟨2, 30, 1⟩]
  logged := []
  files := [("1/a.mp4", 160), ("2/a.mp4", 260), ("2/b.mp4", 320)]
  asked := 0

theorem gives_up_shortest_crowded :
    ∃ order gone report',
      order.Perm crowded.rows ∧ InOrder crowded (pressed.diskFullPolicy = .byPriority) order ∧
      Proc.run tenths.handler (applyPolicy pressed id 4 {}) crowded = (.ok report', without gone crowded) ∧
      Shortest (fun gone => tenths.usage (without gone crowded) ≤ id (pressed.diskHighWater - 5 / 100)) order gone ∧
      report'.recordingAllowed = (({} : RetentionReport).recordingAllowed &&
        decide (tenths.usage (without order crowded) ≤ id (pressed.diskHighWater - 5 / 100))) ∧
      report'.filesUnlinked = ({} : RetentionReport).filesUnlinked + gone.length ∧
      report'.bytesFreedByPolicy = (gone.map SegmentRow.bytes).sum :=
  gives_up_shortest tenths pressed id {} crowded (by decide) (by decide +kernel) (by decide +kernel) (by decide +kernel)

end EdgeVms.Verified.GivenUp
