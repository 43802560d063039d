import EdgeVms.Vms.Timeline
import Mathlib.Algebra.BigOperators.Group.List.Basic

/-! # The timeline conserves events and footage

Each media line of the window is on the timeline once.  A bucket either counts on a
segment or stands for itself, so that no event is lost and none is counted twice.
-/

namespace EdgeVms.Verified.Timeline

open Process Python Platform Vms Archive

/-! ## By start and epoch -/

section Sorted

variable {α : Type} (start : α → ℚ) (epoch : α → Int)

/-- The order of the manifest and of the timeline. -/
abbrev Before (left right : α) : Prop :=
  start left < start right ∨ (start left = start right ∧ epoch left ≤ epoch right)

instance : Std.Total (Before start epoch) where
  total left right := by
    obtain below | same | above := lt_trichotomy (start left) (start right)
    · exact .inl (.inl below)
    · exact (le_total (epoch left) (epoch right)).imp (fun le => .inr ⟨same, le⟩) fun le => .inr ⟨same.symm, le⟩
    · exact .inr (.inl above)

instance : IsTrans α (Before start epoch) where
  trans first second third := by
    rintro (below | ⟨same, le⟩) (below' | ⟨same', le'⟩)
    · exact .inl (below.trans below')
    · exact .inl (same' ▸ below)
    · exact .inl (same ▸ below')
    · exact .inr ⟨same.trans same', le.trans le'⟩

end Sorted

theorem sortSpans_sorted (spans : List Span) : (sortSpans spans).Pairwise (Before Span.start Span.epoch) :=
  List.pairwise_insertionSort (Before Span.start Span.epoch) spans

theorem sortSpans_perm (spans : List Span) : (sortSpans spans).Perm spans := List.perm_insertionSort _ spans

/-! ## The lines in the window -/

section Window

variable (t0 t1 : ℚ) (current : Option Int)

def mediaIn (lines : List Vms.Entry) : List Segment :=
  (lines.filterMap Vms.Entry.media?).filter fun s => t0 < s.end_ ∧ s.start < t1

def bucketsIn (lines : List Vms.Entry) : List Bucket :=
  (lines.filterMap Vms.Entry.events?).filter fun b => t0 < b.end_ ∧ b.start < t1

/-- The footage of an entry. -/
def footage (o : Span) : Option (ℚ × ℚ × String × Int) := o.media.map fun path => (o.start, o.end_, path, o.epoch)

/-- What the timeline of a manifest is to be. -/
structure Conserves (lines : List Vms.Entry) (spans : List Span) : Prop where
  media : (spans.filterMap footage).Perm ((mediaIn t0 t1 lines).map fun s => (s.start, s.end_, s.path, s.epoch))
  events : (spans.map Span.events).sum = ((bucketsIn t0 t1 lines).map Bucket.events).sum
  bare : ∀ o ∈ spans, o.media = none →
    (∃ b ∈ bucketsIn t0 t1 lines, (o.start, o.end_, o.epoch, o.events) = (b.start, b.end_, b.epoch, b.events)) ∧
    ∀ s ∈ mediaIn t0 t1 lines, s.epoch = o.epoch → ¬ (s.start < o.end_ ∧ o.start < s.end_)
  fenced : ∀ o ∈ spans, o.fenced = true ↔ ∃ epoch, current = some epoch ∧ o.epoch < epoch
  sorted : spans.Pairwise (Before Span.start Span.epoch)

/-- The entries, with these segments on the timeline and these buckets counted. -/
structure Counted (segs : List Segment) (past : List Bucket) (out : List Span) : Prop where
  media : out.filterMap footage = segs.map fun s => (s.start, s.end_, s.path, s.epoch)
  events : (out.map Span.events).sum = (past.map Bucket.events).sum
  bare : ∀ o ∈ out, o.media = none →
    (∃ b ∈ past, (o.start, o.end_, o.epoch, o.events) = (b.start, b.end_, b.epoch, b.events)) ∧
    ∀ s ∈ segs, s.epoch = o.epoch → ¬ (s.start < o.end_ ∧ o.start < s.end_)
  fenced : ∀ o ∈ out, o.fenced = Archive.fenced current o.epoch

variable {t0 t1 current} {segs : List Segment} {past : List Bucket} {out : List Span}

theorem Counted.empty : Counted current [] [] [] where
  media := rfl
  events := rfl
  bare := nofun
  fenced := nofun

theorem Counted.segment (counted : Counted current segs [] out) (s : Segment) :
    Counted current (segs ++ [s]) []
      (out ++ [⟨s.start, s.end_, some s.path, s.epoch, 0, Archive.fenced current s.epoch⟩]) where
  media := by rw [List.filterMap_append, counted.media, List.map_append]; rfl
  events := by rw [List.map_append, List.sum_append, counted.events]; rfl
  bare o there none_ := by
    obtain earlier | last := List.mem_append.mp there
    · obtain ⟨⟨b, never, -⟩, -⟩ := counted.bare o earlier none_
      cases never
    · cases List.mem_singleton.mp last
      cases none_
  fenced o there := by
    obtain earlier | last := List.mem_append.mp there
    · exact counted.fenced o earlier
    · rw [List.mem_singleton.mp last]

theorem mediaRounds_counted (more : List Segment) (counted : Counted current segs [] out) :
    Counted current (segs ++ more.filter fun s => t0 < s.end_ ∧ s.start < t1) []
      (mediaRounds t0 t1 current more out) := by
  induction more generalizing segs out with
  | nil =>
    rw [List.filter_nil, List.append_nil]
    exact counted
  | cons s rest ih =>
    unfold mediaRounds
    split
    next inside =>
      rw [List.filter_cons_of_pos (by simpa using inside), List.append_cons]
      exact ih (counted.segment s)
    next outside =>
      rw [List.filter_cons_of_neg (by simpa using outside)]
      exact ih counted

/-- The bucket counts on the first entry that it hits. -/
theorem Counted.count (counted : Counted current segs past out) {b : Bucket} {hit : Nat}
    (found : out.findIdx? (hits b) = some hit) :
    Counted current segs (past ++ [b]) (out.modify hit fun o => { o with events := o.events + b.events }) := by
  obtain ⟨inside, hitting, -⟩ := List.findIdx?_eq_some_iff_getElem.mp found
  have recorded : out[hit].media ≠ none := by
    intro none_
    simp [hits, none_] at hitting
  have whole : out.take hit ++ out[hit] :: out.drop (hit + 1) = out := by
    rw [List.getElem_cons_drop, List.take_append_drop]
  rw [List.modify_eq_take_cons_drop inside]
  refine ⟨?_, ?_, ?_, ?_⟩
  · rw [← counted.media]
    conv_rhs => rw [← whole]
    simp only [List.filterMap_append, List.filterMap_cons, footage]
  · have sum : (out.map Span.events).sum = _ := congrArg (fun out => (out.map Span.events).sum) whole.symm
    rw [counted.events] at sum
    simp only [List.map_append, List.sum_append, List.map_cons, List.sum_cons, List.map_nil, List.sum_nil] at sum ⊢
    omega
  · intro o there none_
    have before : o ∈ out := by
      rw [← whole]
      obtain earlier | later := List.mem_append.mp there
      · exact List.mem_append_left _ earlier
      · obtain rfl | later := List.mem_cons.mp later
        · exact absurd none_ recorded
        · exact List.mem_append_right _ (.tail _ later)
    obtain ⟨⟨b', listed, same⟩, apart⟩ := counted.bare o before none_
    exact ⟨⟨b', List.mem_append_left _ listed, same⟩, apart⟩
  · intro o there
    obtain earlier | later := List.mem_append.mp there
    · exact counted.fenced o (List.mem_of_mem_take earlier)
    · obtain rfl | later := List.mem_cons.mp later
      · exact counted.fenced out[hit] (List.getElem_mem inside)
      · exact counted.fenced o (List.mem_of_mem_drop later)

/-- The bucket hits no entry, and gets one of its own. -/
theorem Counted.alone (named : ∀ s ∈ segs, s.path ≠ "") (counted : Counted current segs past out) {b : Bucket}
    (missed : out.findIdx? (hits b) = none) :
    Counted current segs (past ++ [b])
      (out ++ [⟨b.start, b.end_, none, b.epoch, b.events, Archive.fenced current b.epoch⟩]) where
  media := by rw [List.filterMap_append, counted.media]; simp [footage]
  events := by simp only [List.map_append, List.sum_append, counted.events, List.map_cons, List.map_nil]
  bare o there none_ := by
    obtain earlier | last := List.mem_append.mp there
    · obtain ⟨⟨b', listed, same⟩, apart⟩ := counted.bare o earlier none_
      exact ⟨⟨b', List.mem_append_left _ listed, same⟩, apart⟩
    · rw [List.mem_singleton.mp last]
      refine ⟨⟨b, List.mem_append_right _ (.head _), rfl⟩, fun s listed same meets => ?_⟩
      have shown : (s.start, s.end_, s.path, s.epoch) ∈ out.filterMap footage := by
        rw [counted.media]
        exact List.mem_map_of_mem listed
      obtain ⟨o', there', same'⟩ := List.mem_filterMap.mp shown
      obtain ⟨path, media, same'⟩ := Option.map_eq_some_iff.mp same'
      simp only [Prod.mk.injEq] at same'
      obtain ⟨start, end_, rfl, epoch⟩ := same'
      have hitting : hits b o' = true := by
        simp [hits, media, named s listed, start, end_, epoch, same, meets]
      exact absurd hitting (by simpa using List.findIdx?_eq_none_iff.mp missed o' there')
  fenced o there := by
    obtain earlier | last := List.mem_append.mp there
    · exact counted.fenced o earlier
    · rw [List.mem_singleton.mp last]

theorem bucketRounds_counted (named : ∀ s ∈ segs, s.path ≠ "") (more : List Bucket)
    (counted : Counted current segs past out) :
    Counted current segs (past ++ more.filter fun b => t0 < b.end_ ∧ b.start < t1)
      (bucketRounds t0 t1 current more out) := by
  induction more generalizing past out with
  | nil =>
    rw [List.filter_nil, List.append_nil]
    exact counted
  | cons b rest ih =>
    unfold bucketRounds
    split
    next inside =>
      rw [List.filter_cons_of_pos (by simpa using inside), List.append_cons]
      split
      next hit found => exact ih (counted.count found)
      next missed => exact ih (counted.alone named missed)
    next outside =>
      rw [List.filter_cons_of_neg (by simpa using outside)]
      exact ih counted

/-- Whatever well-formed lines a manifest has. -/
theorem timeline_conserves (sameDevice : Bool) (disk : Disk) (unit : String) (t0 t1 : ℚ) (current : Option Int)
    (named : ∀ s ∈ (disk.linesOf unit).filterMap Vms.Entry.media?, s.path ≠ "") :
    ∃ spans, ((timeline t0 t1 current unit).run (Disk.handler sameDevice) disk).1 = .ok spans ∧
      Conserves t0 t1 current (disk.linesOf unit) spans := by
  let first := mediaRounds t0 t1 current ((disk.linesOf unit).filterMap Vms.Entry.media?) []
  let both := bucketRounds t0 t1 current ((disk.linesOf unit).filterMap Vms.Entry.events?) first
  refine ⟨sortSpans both, rfl, ?_⟩
  have media : Counted current (mediaIn t0 t1 (disk.linesOf unit)) [] first := mediaRounds_counted _ .empty
  have named' : ∀ s ∈ mediaIn t0 t1 (disk.linesOf unit), s.path ≠ "" := fun s listed =>
    named s (List.mem_of_mem_filter listed)
  have counted : Counted current (mediaIn t0 t1 (disk.linesOf unit)) (bucketsIn t0 t1 (disk.linesOf unit)) both :=
    bucketRounds_counted named' _ media
  have perm := sortSpans_perm both
  refine ⟨?_, ?_, ?_, ?_, sortSpans_sorted both⟩
  · rw [← counted.media]
    exact perm.filterMap _
  · rw [(perm.map _).sum_eq, counted.events]
  · exact fun o there => counted.bare o (perm.mem_iff.mp there)
  · intro o there
    rw [counted.fenced o (perm.mem_iff.mp there), Archive.fenced, Option.any_eq_true]
    simp only [decide_eq_true_eq]

end Window

/-! ## A segment and two buckets -/

def twoBuckets : Disk where
  spool := Versioned.empty 0
  archive := Versioned.empty 0
  units := ["1"]
  manifest unit := if unit = "1" then some 0 else none
  inodes _ := [.media ⟨1, 1, 0, 600, "vms/1/e1/19700101T000000Z.mp4", 9000⟩,
    .events ⟨"vms", "1", 1, 0, 600, "vms/1/e1/19700101T000000Z.events.jsonl", 4⟩,
    .events ⟨"vms", "1", 1, 600, 1200, "vms/1/e1/19700101T001000Z.events.jsonl", 2⟩]
  fresh := 1
  around _ := ⟨0, fun _ => [], fun _ => 0, fun _ => 30⟩
  served := 0

theorem timeline_conserves_two_buckets :
    ∃ spans, ((timeline 300 900 (some 2) "1").run (Disk.handler true) twoBuckets).1 = .ok spans ∧
      Conserves 300 900 (some 2) (twoBuckets.linesOf "1") spans :=
  timeline_conserves true twoBuckets "1" 300 900 (some 2) (by decide)

end EdgeVms.Verified.Timeline
