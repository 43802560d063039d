import EdgeVms.Verified.Node.StopRecording
import Mathlib.Data.List.Count

/-! # What becomes of the queued segments

A report pass takes the queue away and writes its rows one by one.  `Running`
remembers beside the box what has been queued, so that a run can be held against it.
-/

namespace EdgeVms.Verified.Indexing

open Process Python Node Report

structure Running where
  box : Box
  reporting : Program Unit
  /-- Every segment that has closed. -/
  queued : List SegmentRow
  /-- Those that had when the last report pass began. -/
  waited : List SegmentRow

inductive Event where
  | host (event : AppHost.Event)
  /-- The next report pass begins, if the last one is over. -/
  | begins
  /-- The request of the report pass is answered. -/
  | answers (outcome : Report.Outcome)

/-- The row that an event puts in the queue. -/
def queues (host : AppHost) : AppHost.Event → List SegmentRow
  | .segmentClosed cid start end_ path bytes => [⟨cid, start, end_, path, bytes, host.epoch⟩]
  | _ => []

def step (running : Running) : Event → Running
  | .host event =>
    { running with
      box := { running.box with host := running.box.host.step event }
      queued := running.queued ++ queues running.box.host event }
  | .begins =>
    if running.reporting.Finished then { running with reporting := reportOnce, waited := running.queued } else running
  | .answers outcome =>
    let (reporting, box) := Proc.advance (handler outcome) (running.reporting, running.box)
    { running with reporting, box }

def start (epoch : Int) (startedAt : ℚ) : Running := ⟨⟨.new epoch startedAt, []⟩, .ret (), [], []⟩

/-! ## The shape of a report pass -/

/-- The rows that the pass has taken and not yet written. -/
def batch : Program Unit → List SegmentRow
  | .call (.indexing rest) (.indexSegment row) _ => row :: rest
  | _ => []

/-- Up to the queue: no row is written before it is taken, and all that is taken is to be written. -/
def Reports : Program Unit → Prop
  | .call _ .take next => ∀ rows, next rows = indexRounds rows
  | .call .idle .recollect next => ∀ host, Reports (next host)
  | .call .idle (.report _) next | .call .idle (.setCondition _ _ _ _) next => ∀ answer, Reports (next answer)
  | .raise _ => True
  | _ => False

theorem Reports.ofExcept {answer : Except Fault Unit} {p : Program Unit} (later : Reports p) :
    Reports (Proc.ofExcept answer >>= fun _ => p) := by
  cases answer with
  | error fault => trivial
  | ok value => exact later

theorem Reports.conditionRounds (cams : List Vms.Camera) {p : Program Unit} (later : Reports p) :
    Reports (Report.conditionRounds cams >>= fun _ => p) := by
  induction cams with
  | nil => exact later
  | cons cam rest ih =>
    intro host reached
    cases reached with
    | error fault => trivial
    | ok value =>
      intro host' available
      cases available with
      | error fault => trivial
      | ok value =>
        intro licensed
        cases licensed with
        | error fault => trivial
        | ok value => exact ih

theorem reports_reportOnce : Reports reportOnce := by
  intro host reported
  apply Reports.ofExcept
  intro host'
  apply Reports.conditionRounds
  exact fun rows => rfl

theorem Reports.batch_eq {p : Program Unit} (reports : Reports p) : batch p = [] := by
  cases p with
  | ret value | raise error => rfl
  | call label request next =>
    cases label with
    | idle => rfl
    | indexing rest =>
      cases request with
      | indexSegment row => exact reports.elim
      | _ => rfl

@[simp] theorem batch_indexRounds (rows : List SegmentRow) : batch (indexRounds rows) = rows := by
  cases rows <;> rfl

/-- A pass is over, on its way to the queue, or writing what it took. -/
inductive Stands : Program Unit → Prop where
  | past {p} : p.Finished → Stands p
  | reporting {p} : Reports p → Stands p
  | indexing {rows} : Stands (indexRounds rows)

theorem indexRounds_injective {rows rows' : List SegmentRow} (same : indexRounds rows = indexRounds rows') :
    rows = rows' := by
  rw [← batch_indexRounds rows, same, batch_indexRounds]

/-- The call, should it fail, loses no row: it has written its own, and it was the last. -/
def Spares : Program Unit → Report.Outcome → Prop
  | .call (.indexing _) (.indexSegment _) _, .done => True
  | .call (.indexing rest) (.indexSegment _) _, .unanswered => rest = []
  | .call (.indexing _) (.indexSegment _) _, .refused => False
  | _, _ => True

instance : (p : Program Unit) → (outcome : Report.Outcome) → Decidable (Spares p outcome)
  | .call (.indexing _) (.indexSegment _) _, .done => .isTrue trivial
  | .call (.indexing rest) (.indexSegment _) _, .unanswered => inferInstanceAs (Decidable (rest = []))
  | .call (.indexing _) (.indexSegment _) _, .refused => .isFalse id
  | .ret _, outcome | .raise _, outcome | .call .idle _ _, outcome => .isTrue (by cases outcome <;> trivial)
  | .call (.indexing _) .recollect _, outcome | .call (.indexing _) .take _, outcome
  | .call (.indexing _) (.report _) _, outcome | .call (.indexing _) (.setCondition _ _ _ _) _, outcome =>
    .isTrue (by cases outcome <;> trivial)

/-- The rows that are written, taken, or queued. -/
def held (p : Program Unit) (box : Box) : List SegmentRow := box.segments ++ batch p ++ box.host.pendingIndex

theorem Reports.spares {p : Program Unit} (reports : Reports p) (outcome : Report.Outcome) : Spares p outcome := by
  cases p with
  | ret value | raise error => cases outcome <;> trivial
  | call label request next =>
    cases label with
    | idle => cases outcome <;> trivial
    | indexing rest =>
      cases request with
      | indexSegment row => exact reports.elim
      | _ => cases outcome <;> trivial

theorem Reports.ne_indexRounds {p : Program Unit} (reports : Reports p) (rows : List SegmentRow) :
    p ≠ indexRounds rows := by
  rintro rfl
  cases rows with
  | nil => exact reports.elim
  | cons row rest => exact reports.elim

/-- What was waiting when the pass began is written before the pass is over. -/
def Due (waited : List SegmentRow) (p : Program Unit) (box : Box) : Prop :=
  ∀ rows, p = indexRounds rows → waited <+: box.segments ++ rows

/-- What an answered request leaves of a pass that held `rows`. -/
structure Advances (p p' : Program Unit) (box box' : Box) : Prop where
  stands : Stands p'
  held : held p' box' = held p box
  due : ∀ waited, waited <+: Indexing.held p box → Due waited p box → Due waited p' box'

/-- The request changed nothing, and the queue is yet to be taken. -/
theorem Reports.advances {p p' : Program Unit} {box : Box} (reports : Reports p) (later : Reports p') :
    Advances p p' box box where
  stands := .reporting later
  held := by rw [held, held, reports.batch_eq, later.batch_eq]
  due _ _ _ rows same := absurd same (later.ne_indexRounds rows)

/-- What one answered request of a report pass does. -/
theorem Reports.advance {p : Program Unit} (reports : Reports p) (outcome : Report.Outcome) (box : Box) :
    Advances p (Proc.advance (handler outcome) (p, box)).1 box (Proc.advance (handler outcome) (p, box)).2 := by
  cases p with
  | ret value => exact reports.elim
  | raise error => exact reports.advances reports
  | call label request next =>
    cases request with
    | indexSegment row => cases label <;> exact reports.elim
    | take =>
      have rows := reports box.host.pendingIndex
      have kept : box.segments ++ box.host.pendingIndex = held (.call label .take next) box := by
        rw [held, reports.batch_eq, List.append_nil]
      show Advances _ (next box.host.pendingIndex) box _
      rw [rows]
      refine ⟨.indexing, ?_, fun waited all _ rows' same => ?_⟩
      · rw [held, batch_indexRounds, ← kept]
        exact List.append_nil _
      · obtain rfl := indexRounds_injective same
        rw [← kept] at all
        exact all
    | recollect =>
      cases label with
      | indexing rest => exact reports.elim
      | idle => exact reports.advances (reports box.host)
    | report rows =>
      cases label with
      | indexing rest => exact reports.elim
      | idle => exact reports.advances (reports outcome.answer)
    | setCondition camera condition status reason =>
      cases label with
      | indexing rest => exact reports.elim
      | idle => exact reports.advances (reports outcome.answer)

/-- The row is written. -/
theorem indexRounds_written (row : SegmentRow) (rest : List SegmentRow) (box : Box) :
    Advances (indexRounds (row :: rest)) (indexRounds rest) box { box with segments := box.segments ++ [row] } where
  stands := .indexing
  held := by simp [held]
  due waited _ due rows same := by
    obtain rfl := indexRounds_injective same
    have before := due (row :: rest) rfl
    rw [List.append_assoc]
    exact before

/-- The pass is over, and what it had taken is gone with it. -/
theorem held_raise (fault : Fault) (box : Box) : held (.raise fault) box = box.segments ++ box.host.pendingIndex := by
  simp [held, batch]

theorem Stands.advance {p : Program Unit} (stands : Stands p) (outcome : Report.Outcome) (box : Box) :
    let after := Proc.advance (handler outcome) (p, box)
    (Spares p outcome → Advances p after.1 box after.2) ∧
      (¬ Spares p outcome → Stands after.1 ∧ (held after.1 after.2).length < (held p box).length) := by
  intro after
  cases stands with
  | past finished =>
    have spares : Spares p outcome := by
      cases p with
      | ret value | raise error => cases outcome <;> trivial
      | call label request next => exact finished.elim
    have stays : after = (p, box) := Proc.advance_finished (handler outcome) finished box
    rw [stays]
    exact ⟨fun _ => ⟨.past finished, rfl, fun _ _ due => due⟩, fun lost => absurd spares lost⟩
  | reporting reports => exact ⟨fun _ => reports.advance outcome box, fun lost => absurd (reports.spares outcome) lost⟩
  | @indexing rows =>
    cases rows with
    | nil => exact ⟨fun _ => ⟨.past trivial, rfl, fun _ _ due => due⟩, fun lost => absurd (by cases outcome <;> trivial) lost⟩
    | cons row rest =>
      cases outcome with
      | done => exact ⟨fun _ => indexRounds_written row rest box, fun lost => absurd trivial lost⟩
      | refused =>
        refine ⟨fun spares => spares.elim, fun _ => ⟨.past trivial, ?_⟩⟩
        show (held (.raise .database) box).length < _
        rw [held_raise, held, batch_indexRounds]
        simp only [List.length_append, List.length_cons]
        omega
      | unanswered =>
        refine ⟨fun last => ?_, fun more => ⟨.past trivial, ?_⟩⟩
        · obtain rfl : rest = [] := last
          show Advances _ (.raise .database) box { box with segments := box.segments ++ [row] }
          refine ⟨.past trivial, ?_, fun waited _ _ rows same => ?_⟩
          · rw [held_raise, held, batch_indexRounds]
          · cases rows <;> cases same
        · have positive : 0 < rest.length := List.length_pos_of_ne_nil more
          show (held (.raise .database) { box with segments := box.segments ++ [row] }).length < _
          rw [held_raise, held, batch_indexRounds]
          simp only [List.length_append, List.length_cons, List.length_nil]
          omega

/-! ## Runs -/

/-- Nothing has been lost: every queued segment is written, taken, or still queued. -/
structure Accounted (running : Running) : Prop where
  stands : Stands running.reporting
  all : running.queued = held running.reporting running.box
  waited : running.waited <+: running.queued
  due : Due running.waited running.reporting running.box

/-- Segments have been lost. -/
structure Short (running : Running) : Prop where
  stands : Stands running.reporting
  fewer : (held running.reporting running.box).length < running.queued.length

/-- No call of the database fails with rows still to be written. -/
def Sparing (running : Running) : Event → Prop
  | .answers outcome => Spares running.reporting outcome
  | _ => True

instance : (running : Running) → (event : Event) → Decidable (Sparing running event)
  | running, .answers outcome => inferInstanceAs (Decidable (Spares running.reporting outcome))
  | _, .host _ | _, .begins => .isTrue trivial

theorem pendingIndex_step (host : AppHost) (event : AppHost.Event) :
    (host.step event).pendingIndex = host.pendingIndex ++ queues host event := by
  cases event with
  | reconcile rows starts jitter clock =>
    obtain ⟨passes, reconciler, pipelines, worked⟩ := worked_reconcileOnce starts jitter rows clock host
    show (host.reconcileOnce rows starts jitter clock).2.pendingIndex = host.pendingIndex ++ []
    rw [worked, List.append_nil]
  | pump bus jitter clock => exact (List.append_nil _).symm
  | retention allowed =>
    show (host.retained allowed).pendingIndex = host.pendingIndex ++ []
    unfold AppHost.retained
    split <;> exact (List.append_nil _).symm
  | segmentClosed cid start end_ path bytes => rfl

theorem held_host (p : Program Unit) (box : Box) (event : AppHost.Event) :
    held p { box with host := box.host.step event } = held p box ++ queues box.host event := by
  rw [held, held, pendingIndex_step, List.append_assoc _ box.host.pendingIndex]

theorem held_begins {p : Program Unit} (past : p.Finished) (box : Box) : held reportOnce box = held p box := by
  have empty : batch p = [] := by
    cases p with
    | ret value | raise error => rfl
    | call label request next => exact past.elim
  rw [held, held, empty, reports_reportOnce.batch_eq]

theorem Accounted.steps {running : Running} (accounted : Accounted running) (event : Event) :
    (Sparing running event → Accounted (step running event)) ∧
      (¬ Sparing running event → Short (step running event)) := by
  obtain ⟨stands, all, waited, due⟩ := accounted
  cases event with
  | host event =>
    refine ⟨fun _ => ⟨stands, ?_, waited.trans (List.prefix_append _ _), due⟩, fun lost => absurd trivial lost⟩
    show running.queued ++ _ = held running.reporting { running.box with host := _ }
    rw [held_host, all]
  | begins =>
    refine ⟨fun _ => ?_, fun lost => absurd trivial lost⟩
    dsimp only [Indexing.step]
    split
    next past =>
      refine ⟨.reporting reports_reportOnce, ?_, List.prefix_rfl, fun rows same => ?_⟩
      · rw [held_begins past, all]
      · exact absurd same (reports_reportOnce.ne_indexRounds rows)
    next => exact ⟨stands, all, waited, due⟩
  | answers outcome =>
    obtain ⟨spared, lost⟩ := stands.advance outcome running.box
    constructor
    · intro spares
      obtain ⟨stands', kept, due'⟩ := spared spares
      exact ⟨stands', all.trans kept.symm, waited, due' running.waited (all ▸ waited) due⟩
    · intro dropped
      obtain ⟨stands', fewer⟩ := lost dropped
      exact ⟨stands', all ▸ fewer⟩

/-- What is lost stays lost. -/
theorem Short.steps {running : Running} (short : Short running) (event : Event) : Short (step running event) := by
  obtain ⟨stands, fewer⟩ := short
  cases event with
  | host event =>
    refine ⟨stands, ?_⟩
    show (held running.reporting { running.box with host := _ }).length < (running.queued ++ _).length
    rw [held_host, List.length_append, List.length_append]
    omega
  | begins =>
    dsimp only [Indexing.step]
    split
    next past =>
      refine ⟨.reporting reports_reportOnce, ?_⟩
      rw [held_begins past]
      exact fewer
    next => exact ⟨stands, fewer⟩
  | answers outcome =>
    obtain ⟨spared, lost⟩ := stands.advance outcome running.box
    by_cases spares : Spares running.reporting outcome
    · obtain ⟨stands', kept, -⟩ := spared spares
      exact ⟨stands', kept ▸ fewer⟩
    · obtain ⟨stands', fewer'⟩ := lost spares
      exact ⟨stands', fewer'.trans fewer⟩

theorem Short.run {running : Running} (short : Short running) (events : List Event) :
    Short (events.foldl step running) := by
  induction events generalizing running with
  | nil => exact short
  | cons event rest ih => exact ih (short.steps event)

theorem Accounted.run {running : Running} (accounted : Accounted running) (events : List Event) :
    (Along step Sparing events running → Accounted (events.foldl step running)) ∧
      (¬ Along step Sparing events running → Short (events.foldl step running)) := by
  induction events generalizing running with
  | nil => exact ⟨fun _ => accounted, fun lost => absurd .nil lost⟩
  | cons event rest ih =>
    obtain ⟨spared, lost⟩ := accounted.steps event
    rw [along_cons, List.foldl_cons]
    by_cases spares : Sparing running event
    · obtain ⟨kept, short⟩ := ih (spared spares)
      exact ⟨fun along => kept along.2, fun broken => short fun along => broken ⟨spares, along⟩⟩
    · exact ⟨fun along => absurd along.1 spares, fun _ => (lost spares).run rest⟩

theorem accounted_start (epoch : Int) (startedAt : ℚ) : Accounted (start epoch startedAt) where
  stands := .past trivial
  all := rfl
  waited := List.prefix_rfl
  due _ _ := List.nil_prefix

/-! ## Once a pass completes -/

/-- Every segment that is not queued any more has its row once, and those that were queued when the pass began are
among them. -/
structure Indexed (running : Running) : Prop where
  once : ∀ row, running.box.segments.count row + running.box.host.pendingIndex.count row = running.queued.count row
  waited : ∀ row, running.waited.count row ≤ running.box.segments.count row

theorem Accounted.indexed {running : Running} (accounted : Accounted running)
    (completes : running.reporting = .ret ()) :
    Indexed running where
  once row := by
    have all := accounted.all
    rw [completes] at all
    rw [all, held, List.count_append, List.count_append]
    rfl
  waited row := by
    have written := accounted.due [] completes
    rw [List.append_nil] at written
    exact written.sublist.count_le row

theorem Short.not_indexed {running : Running} (short : Short running) (completes : running.reporting = .ret ()) :
    ¬ Indexed running := by
  intro indexed
  have fewer := short.fewer
  have same : (running.box.segments ++ running.box.host.pendingIndex).Perm running.queued := by
    rw [List.perm_iff_count]
    intro row
    rw [List.count_append]
    exact indexed.once row
  rw [completes, ← same.length_eq] at fewer
  simp [held, batch] at fewer

/-- A pass completes, and every segment that it found in the queue has its row once: so it is as long as no call that
writes a row has failed with a row to be written, its own or one taken with it. -/
theorem indexed_iff {epoch : Int} {startedAt : ℚ} {events : List Event}
    (completes : (events.foldl step (start epoch startedAt)).reporting = .ret ()) :
    Indexed (events.foldl step (start epoch startedAt)) ↔ Along step Sparing events (start epoch startedAt) := by
  obtain ⟨kept, short⟩ := (accounted_start epoch startedAt).run events
  constructor
  · intro indexed
    by_contra lost
    exact (short lost).not_indexed completes indexed
  · intro along
    exact (kept along).indexed completes

/-- A segment of a minute closes. -/
def closed (camera : Int) : AppHost.Event := .segmentClosed camera 0 60 "/data/segments/1.mp4" 1000

/-- The pass of a host without cameras takes the queue. -/
def takes : List Event := .begins :: List.replicate 4 (.answers .done)

/-- Two segments wait, and the row of the first is refused.  The next pass completes; neither has a row. -/
theorem segments_lost :
    let events := [Event.host (closed 1), .host (closed 2)] ++ takes ++ [.answers .refused] ++ takes
    let run := events.foldl step (start 1 0)
    run.reporting.value? = some () ∧ ¬ Indexed run := by
  refine ⟨by decide +kernel, fun indexed => ?_⟩
  have once := indexed.once ⟨2, 0, 60, "/data/segments/1.mp4", 1000, 1⟩
  revert once
  decide +kernel

/-- Two segments, and a row each. -/
def indexing : List Event := [.host (closed 1), .host (closed 2)] ++ takes ++ [.answers .done, .answers .done]

theorem indexed_iff_two : Indexed (indexing.foldl step (start 1 0)) := by
  refine (indexed_iff rfl).mpr ?_
  decide +kernel

end EdgeVms.Verified.Indexing
