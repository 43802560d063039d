import EdgeVms.Node.Pipeline
import EdgeVms.Process.Run

/-! # The start of a segment

The pipeline keeps one opening time, that of the file named last.  A file that is
closed after the next one was opened is recorded with the start of the next one.
`Recorded` remembers beside the pipeline which files were named, and which of them
were closed.
-/

namespace EdgeVms.Verified.OwnStarts

open Process Python Node CameraPipeline

structure Recorded where
  camera : CameraPipeline
  /-- What was handed to `on_segment_closed`. -/
  rows : List ClosedSegment
  /-- The files that were named, with the time of it. -/
  named : List (String × ℚ)
  /-- Those that are not closed yet. -/
  writing : List String
  /-- Those that were closed with a readable size. -/
  finished : List String

def start (id : Int) (archiveDir : String) (epoch : Int) : Recorded := ⟨.started id archiveDir epoch, [], [], [], []⟩

/-- The file whose closing a message tells. -/
def closes : Message → Option (Option String)
  | .element name location => if name = "splitmuxsink-fragment-closed" then some location else none
  | _ => none

def opens (recorded : Recorded) (now : ℚ) : Recorded :=
  match recorded.camera.formatLocation now with
  | (.error _, camera) => { recorded with camera }
  | (.ok path, camera) =>
    { recorded with
      camera
      named := recorded.named ++ [(path, now)]
      writing := recorded.writing ++ [path] }

def hears (recorded : Recorded) (message : Message) (now : ℚ) (getsize : String → Option Nat) : Recorded :=
  let handled := recorded.camera.handle message now getsize
  let told := { recorded with camera := handled.2, rows := recorded.rows ++ handled.1.2.toList }
  match closes message with
  | some (some path) =>
    { told with
      writing := recorded.writing.erase path
      finished := recorded.finished ++ if (getsize path).isSome then [path] else [] }
  | _ => told

def step (recorded : Recorded) : CameraPipeline.Event → Recorded
  | .formatLocation now => opens recorded now
  | .handle message now getsize => hears recorded message now getsize

/-- What GStreamer may do: a file is closed once it is open. -/
def Allowed (recorded : Recorded) : CameraPipeline.Event → Prop
  | .formatLocation _ => True
  | .handle message _ _ => ∀ location ∈ closes message, ∃ path ∈ recorded.writing, location = some path

/-- Of the files that can be read, only the one named last is closed. -/
def Latest (recorded : Recorded) : CameraPipeline.Event → Prop
  | .formatLocation _ => True
  | .handle message _ getsize =>
    ∀ location ∈ closes message, ∀ path ∈ location, (getsize path).isSome → recorded.camera.openPath = some path

instance (recorded : Recorded) : (event : CameraPipeline.Event) → Decidable (Allowed recorded event)
  | .formatLocation _ => .isTrue trivial
  | .handle message _ _ =>
    inferInstanceAs (Decidable (∀ location ∈ closes message, ∃ path ∈ recorded.writing, location = some path))

/-- Every row starts when its file was named, and the rows are those of the closed files, one for each. -/
structure Describes (recorded : Recorded) : Prop where
  starts : ∀ row ∈ recorded.rows, (row.path, row.start) ∈ recorded.named
  once : recorded.rows.map ClosedSegment.path = recorded.finished

/-! ## One step -/

theorem location_ne_empty (camera : CameraPipeline) (since : DateTime) : camera.location since ≠ "" := by
  intro empty
  have chars := congrArg String.toList empty
  have relative : (since.stamp ++ ".mp4").toList.head? ≠ some '/' := by
    have whole := since.slash_not_mem_stamp
    intro absolute
    rw [String.toList_append] at absolute
    have member := List.mem_of_mem_head? absolute
    rw [List.mem_append] at member
    exact member.elim whole (by decide)
  simp only [location, Path.join_cons, Path.join_nil, Path.joinTwo, if_neg relative] at chars
  split at chars <;> simp at chars

/-- The two pipelines name their files alike, and have the same one open. -/
structure SameFile (p p' : CameraPipeline) : Prop where
  id : p'.id = p.id
  archiveDir : p'.archiveDir = p.archiveDir
  epoch : p'.epoch = p.epoch
  openSince : p'.openSince = p.openSince
  openPath : p'.openPath = p.openPath

/-- A file that the pipeline opens at `since` is named `path`. -/
def Names (p : CameraPipeline) (path : String) (since : ℚ) : Prop :=
  ∃ time, DateTime.fromTimestamp since = .ok time ∧ p.location time = path

theorem Names.unique {p : CameraPipeline} {path path' : String} {since : ℚ} (names : Names p path since)
    (names' : Names p path' since) : path = path' := by
  obtain ⟨time, read, rfl⟩ := names
  obtain ⟨time', read', rfl⟩ := names'
  rw [Except.ok.inj (read.symm.trans read')]

theorem Names.ne_empty {p : CameraPipeline} {path : String} {since : ℚ} (names : Names p path since) : path ≠ "" := by
  obtain ⟨time, -, rfl⟩ := names
  exact location_ne_empty p time

theorem SameFile.names {p p' : CameraPipeline} (same : SameFile p p') {path : String} {since : ℚ}
    (names : Names p path since) : Names p' path since := by
  obtain ⟨time, read, rfl⟩ := names
  refine ⟨time, read, ?_⟩
  unfold location segmentDir
  rw [same.id, same.archiveDir, same.epoch]

/-- A message that closes no file hands nothing over. -/
theorem handle_closes_none {message : Message} (other : closes message = none) (now : ℚ)
    (getsize : String → Option Nat) (p : CameraPipeline) :
    (p.handle message now getsize).1.2 = none ∧ SameFile p (p.handle message now getsize).2 := by
  cases message with
  | stateChanged ours playing =>
    refine ⟨rfl, ?_⟩
    simp only [handle]
    split <;> constructor <;> rfl
  | element name location =>
    have unlike : name ≠ "splitmuxsink-fragment-closed" := by
      rintro rfl
      cases other
    have quiet : p.handle (.element name location) now getsize = ((true, none), p) := if_neg unlike
    rw [quiet]
    exact ⟨rfl, rfl, rfl, rfl, rfl, rfl⟩
  | error redacted | eos => exact ⟨rfl, rfl, rfl, rfl, rfl, rfl⟩

/-- A file that is closed while one is open is handed over if it can be read, with the start of the open one. -/
theorem handle_closes {message : Message} {path : String} (closing : closes message = some (some path))
    (given : path ≠ "") {p : CameraPipeline} {since : ℚ} (opened : p.openSince = some since) (now : ℚ)
    (getsize : String → Option Nat) :
    (p.handle message now getsize).1.2 = (getsize path).map (⟨p.id, since, now, path, ·⟩) ∧
      SameFile p (p.handle message now getsize).2 := by
  cases message with
  | stateChanged ours playing | error redacted | eos => cases closing
  | element name location =>
    simp only [closes, Option.ite_none_right_eq_some, Option.some.injEq] at closing
    obtain ⟨named, rfl⟩ := closing
    have told : (some path).filter (· ≠ "") = some path := by simp [given]
    simp only [handle, if_pos named, CameraPipeline.closed, told, Option.some_or, opened]
    cases getsize path with
    | none => exact ⟨rfl, rfl, rfl, rfl, rfl, rfl⟩
    | some size => exact ⟨rfl, rfl, rfl, rfl, opened.symm ▸ rfl, rfl⟩

/-! ## Runs -/

/-- What is being written was named, the pipeline has open what it named last, and no row starts at
another time than one of these. -/
structure Kept (recorded : Recorded) : Prop where
  named : ∀ path since, (path, since) ∈ recorded.named → Names recorded.camera path since
  writing : ∀ path ∈ recorded.writing, ∃ since, (path, since) ∈ recorded.named
  latest : recorded.named = [] ∨ ∃ latest since, (latest, since) ∈ recorded.named ∧
    recorded.camera.openPath = some latest ∧ recorded.camera.openSince = some since
  rows : ∀ row ∈ recorded.rows, ∃ path, (path, row.start) ∈ recorded.named

theorem kept_start (id : Int) (archiveDir : String) (epoch : Int) : Kept (start id archiveDir epoch) where
  named _ _ inside := (List.not_mem_nil inside).elim
  writing _ inside := (List.not_mem_nil inside).elim
  latest := .inl rfl
  rows _ inside := (List.not_mem_nil inside).elim

/-- While a file is open, some file was named last. -/
theorem Kept.opened {recorded : Recorded} (kept : Kept recorded) {path : String} (inside : path ∈ recorded.writing) :
    ∃ latest since, (latest, since) ∈ recorded.named ∧
      recorded.camera.openPath = some latest ∧ recorded.camera.openSince = some since := by
  obtain none | latest := kept.latest
  · obtain ⟨since, named⟩ := kept.writing path inside
    rw [none] at named
    exact (List.not_mem_nil named).elim
  · exact latest

theorem Kept.given {recorded : Recorded} (kept : Kept recorded) {path : String} (inside : path ∈ recorded.writing) :
    path ≠ "" := by
  obtain ⟨since, named⟩ := kept.writing path inside
  exact (kept.named path since named).ne_empty

/-- All that an allowed step can do. -/
inductive Does (recorded : Recorded) : CameraPipeline.Event → Recorded → Prop
  /-- The file of no row is touched: the clock failed, or the message tells something else. -/
  | nothing {event camera} (same : SameFile recorded.camera camera)
      (closesNone : ∀ message now getsize, event = .handle message now getsize → closes message = none) :
      Does recorded event { recorded with camera }
  | names {now path} (names : Names recorded.camera path now) :
      Does recorded (.formatLocation now)
        { recorded with
          camera := { recorded.camera with openSince := some now, openPath := some path }
          named := recorded.named ++ [(path, now)]
          writing := recorded.writing ++ [path] }
  | closes {message path now getsize latest since camera} (closing : closes message = some (some path))
      (inside : path ∈ recorded.writing) (named : (latest, since) ∈ recorded.named)
      (opened : recorded.camera.openPath = some latest) (same : SameFile recorded.camera camera)
      (at_ : recorded.camera.openSince = some since) :
      Does recorded (.handle message now getsize)
        { camera
          rows := recorded.rows ++ ((getsize path).map (⟨recorded.camera.id, since, now, path, ·⟩)).toList
          named := recorded.named
          writing := recorded.writing.erase path
          finished := recorded.finished ++ if (getsize path).isSome then [path] else [] }

theorem does_opens (recorded : Recorded) (now : ℚ) : Does recorded (.formatLocation now) (opens recorded now) := by
  unfold opens formatLocation
  cases read : DateTime.fromTimestamp now with
  | error error => exact .nothing ⟨rfl, rfl, rfl, rfl, rfl⟩ fun _ _ _ other => by cases other
  | ok since => exact .names ⟨since, read, rfl⟩

theorem Kept.does {recorded : Recorded} {event : CameraPipeline.Event} (allowed : Allowed recorded event)
    (kept : Kept recorded) : Does recorded event (step recorded event) := by
  cases event with
  | formatLocation now => exact does_opens recorded now
  | handle message now getsize =>
    show Does recorded _ (hears recorded message now getsize)
    cases closing : closes message with
    | none =>
      obtain ⟨quiet, same⟩ := handle_closes_none closing now getsize recorded.camera
      simp only [hears, closing, quiet, Option.toList_none, List.append_nil]
      refine .nothing same fun message' _ _ asked => ?_
      cases asked
      exact closing
    | some location =>
      obtain ⟨path, inside, rfl⟩ := allowed location closing
      obtain ⟨latest, since, named, opened, at_⟩ := kept.opened inside
      obtain ⟨handed, same⟩ := handle_closes closing (kept.given inside) at_ now getsize
      simp only [hears, closing, handed]
      exact .closes closing inside named opened same at_

theorem Kept.step {recorded after : Recorded} {event : CameraPipeline.Event} (kept : Kept recorded)
    (does : Does recorded event after) : Kept after := by
  cases does with
  | nothing same =>
    exact
      { named := fun path since inside => same.names (kept.named path since inside)
        writing := kept.writing
        latest := by
          rw [same.openPath, same.openSince]
          exact kept.latest
        rows := kept.rows }
  | @names now path names =>
    have renamed {path since} (before : Names recorded.camera path since) :
        Names { recorded.camera with openSince := some now, openPath := some path } path since := before
    exact
      { named := fun path' since inside => by
          obtain before | here := List.mem_append.mp inside
          · exact kept.named path' since before
          · obtain ⟨rfl, rfl⟩ := Prod.mk.inj (List.mem_singleton.mp here)
            exact names
        writing := fun path' inside => by
          obtain before | here := List.mem_append.mp inside
          · obtain ⟨since, named⟩ := kept.writing path' before
            exact ⟨since, List.mem_append_left _ named⟩
          · rw [List.mem_singleton.mp here]
            exact ⟨now, by simp⟩
        latest := .inr ⟨path, now, by simp, rfl, rfl⟩
        rows := fun row inside => by
          obtain ⟨path', named⟩ := kept.rows row inside
          exact ⟨path', List.mem_append_left _ named⟩ }
  | @closes message path now getsize latest since camera closing inside named opened same at_ =>
    exact
      { named := fun path since inside => same.names (kept.named path since inside)
        writing := fun path inside => kept.writing path (List.mem_of_mem_erase inside)
        latest := by
          rw [same.openPath, same.openSince]
          exact kept.latest
        rows := fun row inside => by
          obtain before | here := List.mem_append.mp inside
          · exact kept.rows row before
          · obtain ⟨size, -, rfl⟩ := Option.map_eq_some_iff.mp (Option.mem_toList.mp here)
            exact ⟨latest, named⟩ }

/-- A row is in step with its file exactly when the file has the name that was given at its start. -/
theorem Kept.starts_iff {recorded : Recorded} (kept : Kept recorded) {latest path : String} {since : ℚ}
    (named : (latest, since) ∈ recorded.named) : (path, since) ∈ recorded.named ↔ path = latest := by
  constructor
  · intro inside
    exact (kept.named path since inside).unique (kept.named latest since named)
  · rintro rfl
    exact named

theorem describes_step {recorded after : Recorded} {event : CameraPipeline.Event} (kept : Kept recorded)
    (does : Does recorded event after) : Describes after ↔ Describes recorded ∧ Latest recorded event := by
  cases does with
  | nothing same closesNone =>
    have latest : Latest recorded event := by
      cases event with
      | formatLocation now => trivial
      | handle message now getsize =>
        intro location closing
        rw [closesNone message now getsize rfl] at closing
        cases closing
    exact ⟨fun holds => ⟨⟨holds.starts, holds.once⟩, latest⟩, fun holds => ⟨holds.1.starts, holds.1.once⟩⟩
  | @names now path names =>
    have kept' := kept.step (.names names)
    refine ⟨fun holds => ⟨⟨fun row inside => ?_, holds.once⟩, trivial⟩,
      fun holds => ⟨fun row inside => ?_, holds.1.once⟩⟩
    · -- a start that was given before tells the same name after
      obtain ⟨path', named⟩ := kept.rows row inside
      have same := (kept'.starts_iff (List.mem_append_left _ named)).mp (holds.starts row inside)
      rw [same]
      exact named
    · exact List.mem_append_left _ (holds.1.starts row inside)
  | @closes message path now getsize latest since camera closing inside named opened same at_ =>
    have allows : Latest recorded (.handle message now getsize) ↔ ((getsize path).isSome → path = latest) := by
      constructor
      · intro all readable
        have last := all _ closing path rfl readable
        rw [opened] at last
        exact (Option.some.inj last).symm
      · rintro all location closing' path' inLocation readable
        obtain rfl := Option.some.inj (closing.symm.trans closing')
        obtain rfl := Option.some.inj inLocation
        rw [opened, all readable]
    rw [allows]
    cases size : getsize path with
    | none =>
      simp only [Option.map_none, Option.toList_none, List.append_nil, Option.isSome_none, Bool.false_eq_true,
        if_false, false_implies, and_true]
      exact ⟨fun holds => ⟨holds.starts, holds.once⟩, fun holds => ⟨holds.starts, holds.once⟩⟩
    | some bytes =>
      simp only [Option.map_some, Option.toList_some, Option.isSome_some, if_true, true_implies]
      constructor
      · intro holds
        refine ⟨⟨fun row before => holds.starts row (List.mem_append_left _ before), ?_⟩, ?_⟩
        · have once := holds.once
          rw [List.map_append] at once
          exact List.append_inj_left' once rfl
        · exact (kept.starts_iff named).mp (holds.starts _ (List.mem_append_right _ (.head _)))
      · rintro ⟨holds, rfl⟩
        refine ⟨fun row inside => ?_, ?_⟩
        · obtain before | here := List.mem_append.mp inside
          · exact holds.starts row before
          · rw [List.mem_singleton.mp here]
            exact named
        · rw [List.map_append, holds.once]
          rfl

/-- Whatever the order in which files are opened and closed, the rows describe their own files
exactly when every readable file is closed before the next one is named. -/
theorem own_starts_iff (id : Int) (archiveDir : String) (epoch : Int) (events : List CameraPipeline.Event)
    (along : Along step Allowed events (start id archiveDir epoch)) :
    Describes (events.foldl step (start id archiveDir epoch)) ↔ Along step Latest events
      (start id archiveDir epoch) := by
  have fresh : Describes (start id archiveDir epoch) := ⟨fun _ inside => (List.not_mem_nil inside).elim, rfl⟩
  rw [along.iff_along (fun _ _ allowed kept => kept.step (kept.does allowed))
    (fun _ _ allowed kept => describes_step kept (kept.does allowed)) (kept_start id archiveDir epoch)]
  exact and_iff_right fresh

/-- Two files of a minute each; the first is closed after the second was opened. -/
def overlapping : List CameraPipeline.Event :=
  let closed (path : String) := Message.element "splitmuxsink-fragment-closed" (some path)
  [.formatLocation 1709210040, .formatLocation 1709210100,
    .handle (closed "/archive/7/e1/20240229T123400Z.mp4") 1709210101 fun _ => some 4096,
    .handle (closed "/archive/7/e1/20240229T123500Z.mp4") 1709210160 fun _ => some 2048]

theorem own_starts_iff_overlapping :
    Along step Allowed overlapping (start 7 "/archive" 1) ∧
      (Describes (overlapping.foldl step (start 7 "/archive" 1)) ↔
        Along step Latest overlapping (start 7 "/archive" 1)) :=
  have along : Along step Allowed overlapping (start 7 "/archive" 1) := by decide +kernel
  ⟨along, own_starts_iff 7 "/archive" 1 overlapping along⟩

/-- The first of them is recorded with the start of the second. -/
theorem first_row_starts_late :
    ∃ events, Along step Allowed events (start 7 "/archive" 1) ∧
      ¬ Describes (events.foldl step (start 7 "/archive" 1)) := by
  refine ⟨overlapping, by decide +kernel, fun describes => ?_⟩
  have starts := describes.starts ⟨7, 1709210100, 1709210101, "/archive/7/e1/20240229T123400Z.mp4", 4096⟩
    (by decide +kernel)
  exact absurd starts (by decide +kernel)

end EdgeVms.Verified.OwnStarts
