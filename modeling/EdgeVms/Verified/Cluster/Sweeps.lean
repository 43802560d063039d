import EdgeVms.Cluster.Reindex
import Mathlib.Data.List.Nodup

/-! # What repeated sweeps come to

A file that is due is one whose row is to be in the index.  The sweep finds the rows
that are there by the beginning of their paths, and takes an epoch that is out of
range for the largest one.
-/

namespace EdgeVms.Verified.Sweeps

open Process Python Cluster.Reindex

/-! ## What is to be in the index -/

/-- The camera, the epoch and the start that a path names. -/
def named (path archiveDir : String) : Option (Int × Int × Int) :=
  match rel archiveDir path with
  | some [cam, dir, file] => do
    let digits ← epochDigits dir
    let cam ← parseInt cam
    let stamp ← stampOf file
    let start ← parseTime stamp
    return (cam, DateTime.number digits, start.timestamp * 10 ^ 9)
  | _ => none

/-- The row of a file that is closed, and was modified after its start. -/
def due (given : Given) (f : FileInfo) : Option Segment :=
  match named f.path given.archiveDir with
  | none => none
  | some (cam, epoch, start) =>
    if given.isOpen f ∨ f.mtime ≤ start then none
    else some ⟨cam, start, f.mtime, f.path, given.fsys.size f.path, epoch⟩

/-- The rows that are due and not there. -/
def missing (given : Given) (segments : List Segment) : List Segment :=
  given.fsys.walkFiles.filterMap fun f => if f.path ∈ segments.map Segment.path then none else due given f

/-- A sweep over an index, and how its store calls go. -/
def swept (given : Given) (fates : List Fate) (segments : List Segment) :
    Except Empty (ReindexReport × Option StoreError) × Store :=
  Proc.run handler (sweep given) ⟨segments, [], fates⟩

/-- The index after a sweep. -/
def after (given : Given) (fates : List Fate) (segments : List Segment) : List Segment :=
  (swept given fates segments).2.segments

structure Exact (given : Given) (segments : List Segment) : Prop where
  adds : after given [] segments = segments ++ missing given segments
  reports : ∃ rep, (swept given [] segments).1 = .ok (rep, none) ∧ rep.reindexed = (missing given segments).length ∧
    rep.fenced = ((missing given segments).filter fun seg => seg.epoch < given.currentEpoch).length
  again : after given [] (after given [] segments) = after given [] segments
  /-- After any sweeps, which may fail anywhere, one that succeeds. -/
  recovers : ∀ attempts : List (List Fate),
    after given [] (attempts.foldl (fun segments fates => after given fates segments) segments) =
      segments ++ missing given segments

/-- The path begins as the archive directory does, in the eyes of `LIKE`. -/
def Found (given : Given) (path : String) : Prop :=
  Node.Retention.Disk.like (given.archiveDir ++ "%").toList path.toList = true

/-- What is due is found where it was indexed, and its epoch is in range, or it is there already. -/
def Fine (given : Given) (segments : List Segment) : Prop :=
  ∀ f ∈ given.fsys.walkFiles, ∀ seg, due given f = some seg →
    Found given f.path ∧ (f.path ∈ segments.map Segment.path ∨ seg.epoch ≤ maxInt64)

/-! ## What a sweep makes -/

/-- The epoch as the sweep has it. -/
def clipped (seg : Segment) : Segment := { seg with epoch := min seg.epoch maxInt64 }

theorem parse_eq (path archiveDir : String) :
    parse path archiveDir = (named path archiveDir).map fun read => (read.1, min read.2.1 maxInt64, read.2.2) := by
  unfold parse named
  obtain _ | parts := rel archiveDir path
  · rfl
  -- three components, or it is no segment
  obtain _ | ⟨cam, _ | ⟨dir, _ | ⟨file, _ | ⟨more, rest⟩⟩⟩⟩ := parts
  · rfl
  · rfl
  · rfl
  · simp only
    cases epochDigits dir with
    | none => rfl
    | some digits =>
      cases parseInt cam with
      | none => rfl
      | some cam =>
        cases stampOf file with
        | none => rfl
        | some stamp =>
          show (parseTime stamp >>= _) = Option.map _ (parseTime stamp >>= _)
          cases parseTime stamp <;> rfl
  · rfl

variable {given : Given} {indexed : List String} {f : FileInfo} {rest : List FileInfo} {rep : ReindexReport}

theorem path_due {seg : Segment} (made : due given f = some seg) : seg.path = f.path := by
  unfold due at made
  split at made
  next => cases made
  next =>
    split at made
    next => cases made
    next =>
      cases made
      rfl

/-- A file for which there is nothing to do is passed over. -/
theorem sweepRounds_skip (nothing : f.path ∈ indexed ∨ due given f = none) :
    ∃ rep', sweepRounds given indexed (f :: rest) rep = sweepRounds given indexed rest rep' ∧
      rep'.reindexed = rep.reindexed ∧ rep'.fenced = rep.fenced := by
  rw [sweepRounds]
  by_cases there : f.path ∈ indexed
  · rw [if_pos there]
    exact ⟨rep, rfl, rfl, rfl⟩
  · have none_ := nothing.resolve_left there
    rw [if_neg there, parse_eq]
    unfold due at none_
    cases read : named f.path given.archiveDir with
    | none => exact ⟨_, rfl, rfl, rfl⟩
    | some entry =>
      obtain ⟨cam, epoch, start⟩ := entry
      simp only [read, ite_eq_left_iff, reduceCtorEq, imp_false, not_not] at none_
      simp only [Option.map_some]
      by_cases open_ : given.isOpen f
      · rw [if_pos open_]
        exact ⟨_, rfl, rfl, rfl⟩
      · rw [if_neg open_, if_pos (none_.resolve_left open_)]
        exact ⟨_, rfl, rfl, rfl⟩

/-- The report with one row more. -/
def counted (given : Given) (f : FileInfo) (seg : Segment) (rep : ReindexReport) : ReindexReport :=
  { rep with
    reindexed := rep.reindexed + 1
    paths := rep.paths ++ [f.path]
    fenced := if (clipped seg).epoch < given.currentEpoch then rep.fenced + 1 else rep.fenced }

/-- A file that is due and not indexed: the call decides whether the sweep goes on. -/
theorem run_make {seg : Segment} (new : f.path ∉ indexed) (made : due given f = some seg) (store : Store) :
    (store.fate = .succeeds → Proc.run handler (sweepRounds given indexed (f :: rest) rep) store =
      Proc.run handler (sweepRounds given indexed rest (counted given f seg rep))
        { store with segments := store.segments ++ [clipped seg], fates := store.fates.tail }) ∧
      ∀ applied, store.fate = .fails applied → Proc.run handler (sweepRounds given indexed (f :: rest) rep) store =
        (.ok (rep, some .failed),
          { store with
            segments := if applied then store.segments ++ [clipped seg] else store.segments
            fates := store.fates.tail }) := by
  rw [sweepRounds, if_neg new, parse_eq]
  unfold due at made
  cases read : named f.path given.archiveDir with
  | none =>
    rw [read] at made
    cases made
  | some entry =>
    obtain ⟨cam, epoch, start⟩ := entry
    rw [read] at made
    dsimp only at made
    split at made
    next => cases made
    next closed =>
      obtain ⟨notOpen, later⟩ := not_or.mp closed
      cases made
      simp only [Option.map_some, if_neg notOpen, if_neg later]
      constructor
      · intro fate
        simp only [ask, Proc.perform, Proc.bind_eq, Proc.call_bind, Proc.ret_bind, Proc.run_call, handler, fate]
        rfl
      · intro applied fate
        simp only [ask, Proc.perform, Proc.bind_eq, Proc.call_bind, Proc.ret_bind, Proc.run_call, handler, fate]
        rfl

/-- The rows that a sweep makes of the files that it has not found. -/
def todo (given : Given) (indexed : List String) (files : List FileInfo) : List Segment :=
  (files.filterMap fun f => if f.path ∈ indexed then none else due given f).map clipped

theorem todo_skip (nothing : f.path ∈ indexed ∨ due given f = none) :
    todo given indexed (f :: rest) = todo given indexed rest := by
  unfold todo
  rw [List.filterMap_cons]
  obtain there | none_ := nothing
  · rw [if_pos there]
  · rw [none_, ite_self]

theorem todo_make {seg : Segment} (new : f.path ∉ indexed) (made : due given f = some seg) :
    todo given indexed (f :: rest) = clipped seg :: todo given indexed rest := by
  unfold todo
  rw [List.filterMap_cons, if_neg new, made, List.map_cons]

/-- However the calls go, the rows that are added are the first of those. -/
theorem segments_sweepRounds (files : List FileInfo) (rep : ReindexReport) (store : Store) :
    ∃ k, (Proc.run handler (sweepRounds given indexed files rep) store).2.segments =
      store.segments ++ (todo given indexed files).take k := by
  induction files generalizing rep store with
  | nil =>
    refine ⟨0, ?_⟩
    rw [List.take_zero, List.append_nil, sweepRounds]
    split
    next =>
      cases fate : store.fate with
      | succeeds =>
        simp only [ask, Proc.perform, Proc.bind_eq, Proc.call_bind, Proc.ret_bind, Proc.run_call, handler, fate]
        rfl
      | fails applied =>
        simp only [ask, Proc.perform, Proc.bind_eq, Proc.call_bind, Proc.ret_bind, Proc.run_call, handler, fate]
        rfl
    next => rfl
  | cons f rest ih =>
    by_cases nothing : f.path ∈ indexed ∨ due given f = none
    · obtain ⟨rep', same, -⟩ := @sweepRounds_skip given indexed f rest rep nothing
      rw [same, todo_skip nothing]
      exact ih rep' store
    · obtain ⟨new, some_⟩ := not_or.mp nothing
      obtain ⟨seg, made⟩ := Option.ne_none_iff_exists'.mp some_
      obtain ⟨goes, stops⟩ := @run_make given indexed f rest rep seg new made store
      rw [todo_make new made]
      cases fate : store.fate with
      | succeeds =>
        rw [goes fate]
        obtain ⟨k, added⟩ := ih (counted given f seg rep)
          { store with segments := store.segments ++ [clipped seg], fates := store.fates.tail }
        refine ⟨k + 1, ?_⟩
        rw [added, List.take_succ_cons, List.append_assoc, List.singleton_append]
      | fails applied =>
        rw [stops applied fate]
        cases applied with
        | false => exact ⟨0, by rw [List.take_zero, List.append_nil]; rfl⟩
        | true => exact ⟨1, by rw [List.take_succ_cons, List.take_zero]; rfl⟩

/-- If all calls succeed it is all of them, and the report counts them. -/
theorem sweepRounds_succeeds (files : List FileInfo) (rep : ReindexReport) (segments : List Segment)
    (events : List ReindexedEvent) :
    (Proc.run handler (sweepRounds given indexed files rep) ⟨segments, events, []⟩).2.segments =
        segments ++ todo given indexed files ∧
      ∃ rep', (Proc.run handler (sweepRounds given indexed files rep) ⟨segments, events, []⟩).1 = .ok (rep', none) ∧
        rep'.reindexed = rep.reindexed + (todo given indexed files).length ∧
        rep'.fenced = rep.fenced +
          ((todo given indexed files).filter fun seg => seg.epoch < given.currentEpoch).length := by
  induction files generalizing rep segments with
  | nil =>
    rw [sweepRounds]
    have nothing : todo given indexed [] = [] := rfl
    rw [nothing, List.append_nil]
    split
    next => exact ⟨rfl, rep, rfl, rfl, rfl⟩
    next => exact ⟨rfl, rep, rfl, rfl, rfl⟩
  | cons f rest ih =>
    by_cases nothing : f.path ∈ indexed ∨ due given f = none
    · obtain ⟨rep', same, reindexed, fenced⟩ := @sweepRounds_skip given indexed f rest rep nothing
      rw [same, todo_skip nothing, ← reindexed, ← fenced]
      exact ih rep' segments
    · obtain ⟨new, some_⟩ := not_or.mp nothing
      obtain ⟨seg, made⟩ := Option.ne_none_iff_exists'.mp some_
      have goes := (@run_make given indexed f rest rep seg new made ⟨segments, events, []⟩).1 rfl
      obtain ⟨added, rep', returned, reindexed, fenced⟩ := ih (counted given f seg rep) (segments ++ [clipped seg])
      rw [goes, todo_make new made]
      refine ⟨?_, rep', returned, ?_, ?_⟩
      · refine added.trans ?_
        rw [List.append_assoc, List.singleton_append]
      · rw [reindexed, List.length_cons]
        show rep.reindexed + 1 + _ = _
        omega
      · rw [fenced, List.filter_cons]
        show (if (clipped seg).epoch < given.currentEpoch then rep.fenced + 1 else rep.fenced) + _ = _
        by_cases older : (clipped seg).epoch < given.currentEpoch
        · rw [if_pos older, if_pos (decide_eq_true older), List.length_cons]
          omega
        · rw [if_neg older, if_neg (by simpa using older)]

/-! ## One sweep -/

/-- The rows that a sweep over this index makes. -/
def pending (given : Given) (segments : List Segment) : List Segment :=
  todo given (Store.pathsUnder given.archiveDir segments) given.fsys.walkFiles

variable {segments : List Segment}

theorem after_take (fates : List Fate) :
    ∃ k, after given fates segments = segments ++ (pending given segments).take k := by
  unfold after swept sweep
  cases fate : (⟨segments, [], fates⟩ : Store).fate with
  | succeeds =>
    obtain ⟨k, added⟩ := @segments_sweepRounds given (Store.pathsUnder given.archiveDir segments)
      given.fsys.walkFiles {} ⟨segments, [], fates.tail⟩
    refine ⟨k, ?_⟩
    simp only [ask, Proc.perform, Proc.bind_eq, Proc.call_bind, Proc.ret_bind, Proc.run_call, handler, fate]
    exact added
  | fails applied =>
    refine ⟨0, ?_⟩
    rw [List.take_zero, List.append_nil]
    simp only [ask, Proc.perform, Proc.bind_eq, Proc.call_bind, Proc.ret_bind, Proc.run_call, handler, fate]
    rfl

theorem swept_succeeds :
    after given [] segments = segments ++ pending given segments ∧
      ∃ rep, (swept given [] segments).1 = .ok (rep, none) ∧ rep.reindexed = (pending given segments).length ∧
        rep.fenced = ((pending given segments).filter fun seg => seg.epoch < given.currentEpoch).length := by
  obtain ⟨added, rep, returned, reindexed, fenced⟩ := @sweepRounds_succeeds given
    (Store.pathsUnder given.archiveDir segments) given.fsys.walkFiles {} segments []
  exact ⟨added, rep, returned, reindexed.trans (Nat.zero_add _), fenced.trans (Nat.zero_add _)⟩

/-! ## Where every row is found -/

theorem mem_pathsUnder {path : String} :
    path ∈ Store.pathsUnder given.archiveDir segments ↔ path ∈ segments.map Segment.path ∧ Found given path :=
  List.mem_filter

theorem pending_eq_missing (fine : Fine given segments) : pending given segments = missing given segments := by
  unfold pending todo missing
  rw [List.map_filterMap]
  refine List.filterMap_congr fun f inside => ?_
  cases made : due given f with
  | none => rw [ite_self, ite_self, Option.map_none]
  | some seg =>
    obtain ⟨found, range⟩ := fine f inside seg made
    by_cases there : f.path ∈ segments.map Segment.path
    · rw [if_pos there, if_pos (mem_pathsUnder.mpr ⟨there, found⟩), Option.map_none]
    · have same : clipped seg = seg := by
        rw [clipped, min_eq_left (range.resolve_left there)]
      rw [if_neg there, if_neg fun under => there (mem_pathsUnder.mp under).1, Option.map_some, same]

theorem Fine.append (fine : Fine given segments) (extra : List Segment) : Fine given (segments ++ extra) := by
  intro f inside seg made
  obtain ⟨found, range⟩ := fine f inside seg made
  refine ⟨found, range.imp_left fun there => ?_⟩
  rw [List.map_append]
  exact List.mem_append_left _ there

/-- More rows, and less is missing. -/
theorem missing_append (extra : List Segment) :
    missing given (segments ++ extra) =
      (missing given segments).filter fun seg => seg.path ∉ extra.map Segment.path := by
  unfold missing
  rw [List.filter_filterMap]
  refine List.filterMap_congr fun f _ => ?_
  rw [List.map_append]
  by_cases there : f.path ∈ segments.map Segment.path
  · rw [if_pos there, if_pos (List.mem_append_left _ there)]
    rfl
  · rw [if_neg there]
    cases made : due given f with
    | none => rw [ite_self, Option.filter_none]
    | some seg =>
      rw [Option.filter_some, path_due made]
      by_cases new : f.path ∈ extra.map Segment.path
      · rw [if_pos (List.mem_append_right _ new), if_neg (by simpa using new)]
      · rw [if_neg fun either => (List.mem_append.mp either).elim there new, if_pos (decide_eq_true new)]

theorem map_filterMap_sublist {α β γ : Type} {make : α → Option β} {name : β → γ} {key : α → γ}
    (same : ∀ a b, make a = some b → name b = key a) (list : List α) :
    ((list.filterMap make).map name).Sublist (list.map key) := by
  induction list with
  | nil => exact .slnil
  | cons a rest ih =>
    rw [List.filterMap_cons]
    split
    next => exact ih.cons _
    next b made =>
      rw [List.map_cons, List.map_cons, same a b made]
      exact ih.cons_cons _

theorem nodup_missing (distinct : (given.fsys.walkFiles.map FileInfo.path).Nodup) :
    ((missing given segments).map Segment.path).Nodup := by
  refine distinct.sublist (map_filterMap_sublist (fun f seg made => ?_) _)
  split at made
  next => cases made
  next => exact path_due made

/-- What is left of a list without its first elements. -/
theorem filter_take_eq_drop {α β : Type} [DecidableEq β] {name : α → β} {list : List α}
    (distinct : (list.map name).Nodup) (k : Nat) :
    (list.filter fun a => name a ∉ (list.take k).map name) = list.drop k := by
  have split := List.take_append_drop k list
  generalize list.take k = front at split
  generalize list.drop k = back at split
  subst split
  rw [List.map_append, List.nodup_append] at distinct
  obtain ⟨-, -, apart⟩ := distinct
  rw [List.filter_append]
  have gone : front.filter (fun a => name a ∉ front.map name) = [] := by
    refine List.filter_eq_nil_iff.mpr fun a inside => ?_
    simpa using ⟨a, inside, rfl⟩
  have stays : back.filter (fun a => name a ∉ front.map name) = back := by
    refine List.filter_eq_self.mpr fun a inside => decide_eq_true fun there => ?_
    exact apart (name a) there (name a) (List.mem_map_of_mem inside) rfl
  rw [gone, stays, List.nil_append]

/-- After any number of the missing rows, the others are missing. -/
theorem pending_take (distinct : (given.fsys.walkFiles.map FileInfo.path).Nodup) (fine : Fine given segments)
    (k : Nat) :
    pending given (segments ++ (missing given segments).take k) = (missing given segments).drop k := by
  rw [pending_eq_missing (fine.append _), missing_append, filter_take_eq_drop (nodup_missing distinct)]

theorem after_of_take (distinct : (given.fsys.walkFiles.map FileInfo.path).Nodup) (fine : Fine given segments)
    (k : Nat) :
    after given [] (segments ++ (missing given segments).take k) = segments ++ missing given segments := by
  rw [swept_succeeds.1, pending_take distinct fine, List.append_assoc, List.take_append_drop]

/-- Failing sweeps add some of what is missing, the first ones first. -/
theorem attempts_take (distinct : (given.fsys.walkFiles.map FileInfo.path).Nodup) (fine : Fine given segments)
    (attempts : List (List Fate)) (k : Nat) :
    ∃ n, attempts.foldl (fun segments fates => after given fates segments)
      (segments ++ (missing given segments).take k) = segments ++ (missing given segments).take n := by
  induction attempts generalizing k with
  | nil => exact ⟨k, rfl⟩
  | cons fates rest ih =>
    obtain ⟨j, added⟩ := @after_take given (segments ++ (missing given segments).take k) fates
    rw [List.foldl_cons, added, pending_take distinct fine, List.append_assoc, ← List.take_add]
    exact ih (k + j)

theorem exact_of_fine (distinct : (given.fsys.walkFiles.map FileInfo.path).Nodup) (fine : Fine given segments) :
    Exact given segments := by
  have start : segments ++ (missing given segments).take 0 = segments := by rw [List.take_zero, List.append_nil]
  have adds := after_of_take distinct fine 0
  rw [start] at adds
  refine ⟨adds, ?_, ?_, fun attempts => ?_⟩
  · obtain ⟨rep, returned, reindexed, fenced⟩ := (@swept_succeeds given segments).2
    rw [pending_eq_missing fine] at reindexed fenced
    exact ⟨rep, returned, reindexed, fenced⟩
  · have all := after_of_take distinct fine (missing given segments).length
    rw [List.take_length] at all
    rw [adds]
    exact all
  · obtain ⟨n, reached⟩ := attempts_take distinct fine attempts 0
    rw [start] at reached
    rw [reached]
    exact after_of_take distinct fine n

/-! ## Where one is not -/

theorem fine_of_exact (distinct : (given.fsys.walkFiles.map FileInfo.path).Nodup) (exact_ : Exact given segments) :
    Fine given segments := by
  intro f inside seg made
  have found : Found given f.path := by
    by_contra lost
    -- it is made again by the second sweep
    have again := exact_.again
    rw [swept_succeeds.1] at again
    have nothing := List.append_right_eq_self.mp again
    have makes : clipped seg ∈ pending given (after given [] segments) := by
      refine List.mem_map_of_mem (List.mem_filterMap.mpr ⟨f, inside, ?_⟩)
      rw [if_neg fun under => lost (mem_pathsUnder.mp under).2, made]
    rw [nothing] at makes
    cases makes
  refine ⟨found, ?_⟩
  by_cases there : f.path ∈ segments.map Segment.path
  · exact .inl there
  · refine .inr ?_
    have adds := exact_.adds
    rw [swept_succeeds.1, List.append_cancel_left_eq] at adds
    have makes : clipped seg ∈ missing given segments := by
      rw [← adds]
      refine List.mem_map_of_mem (List.mem_filterMap.mpr ⟨f, inside, ?_⟩)
      rw [if_neg fun under => there (mem_pathsUnder.mp under).1, made]
    have is_ : seg ∈ missing given segments := by
      refine List.mem_filterMap.mpr ⟨f, inside, ?_⟩
      rw [if_neg there, made]
    have same := List.inj_on_of_nodup_map (nodup_missing distinct) makes is_ rfl
    have epoch : min seg.epoch maxInt64 = seg.epoch := congrArg Segment.epoch same
    rw [← epoch]
    exact min_le_right _ _

/-- The sweep is exact and idempotent, and comes to the same after failures, exactly when every file that is
due is found where it was indexed, and those that are new have an epoch in range. -/
theorem exact_iff_fine (given : Given) (distinct : (given.fsys.walkFiles.map FileInfo.path).Nodup)
    (segments : List Segment) : Exact given segments ↔ Fine given segments :=
  ⟨fine_of_exact distinct, exact_of_fine distinct⟩

/-- One closed segment of ten minutes, in an archive below `./archive`: the walk leaves the dot out. -/
def dotted : Given where
  fsys := ⟨[⟨"archive/7/e5/20260908T091000Z.mp4", 1788859200 * 10 ^ 9⟩], fun _ => 1000⟩
  archiveDir := "./archive"
  currentEpoch := 6
  segmentSeconds := 600
  now := 1788900000

theorem exact_iff_fine_dotted :
    (dotted.fsys.walkFiles.map FileInfo.path).Nodup ∧ (Exact dotted [] ↔ Fine dotted []) :=
  ⟨by decide, exact_iff_fine dotted (by decide) []⟩

/-- Its row is inserted again and again. -/
theorem dotted_never_indexed :
    ¬ ∀ (given : Given) (segments : List Segment), (given.fsys.walkFiles.map FileInfo.path).Nodup →
      Exact given segments := by
  intro all
  have fine := fine_of_exact (by decide) (all dotted [] (by decide))
  have found := (fine _ List.mem_cons_self
    ⟨7, 1788858600 * 10 ^ 9, 1788859200 * 10 ^ 9, "archive/7/e5/20260908T091000Z.mp4", 1000, 5⟩
    (by decide +kernel)).1
  revert found
  unfold Found
  decide +kernel

end EdgeVms.Verified.Sweeps
