import EdgeVms.Verified.Vms.ExactRepair
import EdgeVms.Vms.Manifest

/-! # When the manifest is rebuilt from the files

A repair reads the manifest that it is to rebuild.  It makes the lines agree with
the files exactly if the readers can read every line that is there already.
-/

namespace EdgeVms.Verified.Rebuildable

open Process Python Platform Vms Manifest ExactRepair
open Archive (unitIn)

variable {now : ℚ} {bucketSeconds : Int} {shelf shelf' : Shelf} {unit : String}

/-! ## What can be read -/

theorem lift_eq_ok {α : Type} {result : Except Error α} {value : α} : lift result = .ok value ↔ result = .ok value := by
  cases result with
  | ok value' => simp [lift]
  | error error => simp [lift]

/-- The readers read the line: it is an object with the fields of its kind, or of another kind. -/
structure LegibleLine (line : List Char) : Prop where
  media : ∃ found, media? line = .ok found
  events : ∃ found, events? line = .ok found

/-- Every line of the manifest and of the buckets can be read. -/
structure Legible (shelf : Shelf) (unit : String) : Prop where
  manifest : ∃ lines, linesOf shelf unit = .ok lines ∧ ∀ line ∈ lines, LegibleLine line
  buckets : ∀ path ∈ walk shelf unit, ∀ found, parseBucket path = .ok (some found) →
    ∃ values, readBucket shelf path = .ok values

theorem read_ok_iff : (∃ found, Manifest.read shelf unit = .ok found) ↔
    ∃ lines, linesOf shelf unit = .ok lines ∧ ∀ line ∈ lines, ∃ found, media? line = .ok found := by
  simp only [Manifest.read, bind_eq_ok]
  constructor
  · rintro ⟨_, lines, stands, found, each, -⟩
    exact ⟨lines, stands, mapM_ok_iff.mp ⟨found, each⟩⟩
  · rintro ⟨lines, stands, each⟩
    obtain ⟨found, each⟩ := mapM_ok_iff.mpr each
    exact ⟨_, lines, stands, found, each, rfl⟩

theorem buckets_ok_iff : (∃ found, buckets shelf unit = .ok found) ↔
    ∃ lines, linesOf shelf unit = .ok lines ∧ ∀ line ∈ lines, ∃ found, events? line = .ok found := by
  simp only [buckets, bind_eq_ok]
  constructor
  · rintro ⟨_, lines, stands, found, each, -⟩
    exact ⟨lines, stands, mapM_ok_iff.mp ⟨found, each⟩⟩
  · rintro ⟨lines, stands, each⟩
    obtain ⟨found, each⟩ := mapM_ok_iff.mpr each
    exact ⟨_, lines, stands, found, each, rfl⟩

theorem legible_iff : Legible shelf unit ↔ (∃ found, Manifest.read shelf unit = .ok found) ∧
    (∃ found, buckets shelf unit = .ok found) ∧ ∀ path ∈ walk shelf unit, ∀ found, parseBucket path = .ok (some found) →
      ∃ values, readBucket shelf path = .ok values := by
  rw [read_ok_iff, buckets_ok_iff]
  constructor
  · rintro ⟨⟨lines, stands, each⟩, files⟩
    exact ⟨⟨lines, stands, fun line member => (each line member).media⟩,
      ⟨lines, stands, fun line member => (each line member).events⟩, files⟩
  · rintro ⟨⟨lines, stands, media⟩, ⟨lines', stands', events⟩, files⟩
    rw [stands] at stands'
    cases stands'
    exact ⟨⟨lines, stands, fun line member => ⟨media line member, events line member⟩⟩, files⟩

/-! ## Event buckets -/

/-- The file is a bucket whose span is over. -/
def isOver (now : ℚ) (bucketSeconds : Int) (path : String) : Bool :=
  match parseBucket path with
  | .ok (some (_, _, _, start)) => start.timestamp + bucketSeconds ≤ now
  | .ok none | .error _ => false

def isClosed (now : ℚ) (bucket : Events) : Bool := !(Floating.lt (.finite now) bucket.end_)

theorem bucketRounds_ok_iff {paths : List String} (named : ∀ path ∈ paths, ∃ found, parseBucket path = .ok found) :
    (∃ out, bucketRounds bucketSeconds shelf paths = .ok out) ↔
      ∀ path ∈ paths, ∀ found, parseBucket path = .ok (some found) → ∃ values, readBucket shelf path = .ok values := by
  induction paths with
  | nil => exact ⟨fun _ => nofun, fun _ => ⟨[], rfl⟩⟩
  | cons path rest ih =>
    obtain ⟨⟨found, parsed⟩, named⟩ := List.forall_mem_cons.mp named
    rw [List.forall_mem_cons, ← ih named, bucketRounds, parsed]
    cases found with
    | none =>
      refine ⟨fun rounds => ⟨?_, rounds⟩, fun ⟨_, rounds⟩ => rounds⟩
      intro found same
      cases same
    | some found =>
      obtain ⟨subsystem, unit, epoch, start⟩ := found
      simp only [bind_eq_ok]
      constructor
      · rintro ⟨_, _, same, rounds⟩
        cases same
        simp only [bind_eq_ok] at rounds
        obtain ⟨events, stands, later, rounds, -⟩ := rounds
        exact ⟨fun _ _ => ⟨events, stands⟩, later, rounds⟩
      · rintro ⟨mine, later, rounds⟩
        obtain ⟨events, stands⟩ := mine _ rfl
        exact ⟨_, _, rfl, bind_eq_ok.mpr ⟨events, stands, bind_eq_ok.mpr ⟨later, rounds, rfl⟩⟩⟩

theorem bucketRounds_closed {paths : List String} {out : List Events}
    (rounds : bucketRounds bucketSeconds shelf paths = .ok out) :
    (out.filter (isClosed now)).map Events.path = paths.filter (isOver now bucketSeconds) := by
  induction paths generalizing out with
  | nil =>
    cases rounds
    rfl
  | cons path rest ih =>
    rw [bucketRounds, bind_eq_ok] at rounds
    obtain ⟨found, parsed, rounds⟩ := rounds
    cases found with
    | none =>
      rw [List.filter_cons_of_neg (by simp [isOver, parsed])]
      exact ih rounds
    | some found =>
      obtain ⟨subsystem, unit, epoch, start⟩ := found
      simp only [bind_eq_ok] at rounds
      obtain ⟨events, -, later, rounds, ends⟩ := rounds
      cases ends
      have same : isClosed now ⟨.str subsystem, unit, epoch, .finite start.timestamp,
          .finite (start.timestamp + bucketSeconds), path, events.length⟩ = isOver now bucketSeconds path := by
        rw [isOver, parsed]
        show (!decide (now < (start.timestamp + bucketSeconds : ℚ))) = _
        rw [← decide_not]
        exact decide_eq_decide.mpr not_lt
      rw [List.filter_cons, List.filter_cons, same]
      split
      · rw [List.map_cons, ih rounds]
      · exact ih rounds

/-! ## One camera -/

/-- The parsers answer for every file, and the cameras' directories are named by their numbers. -/
structure WellNamed (shelf : Shelf) : Prop where
  numbered : ∀ unit ∈ shelf.units, isDigits unit = true → ∃ cam : Int, unit = toString cam
  segments : ∀ path ∈ shelf.files.keys, Named path
  buckets : ∀ path ∈ shelf.files.keys, ∃ found, parseBucket path = .ok found

theorem mem_walk {path : String} :
    path ∈ walk shelf unit ↔ path ∈ shelf.files.keys ∧ (above unit).toList <+: path.toList := by
  rw [walk, List.mem_filter, List.isPrefixOf_iff_prefix]
  rfl

def mediaFiles (shelf : Shelf) (unit : String) : List String := (walk shelf unit).filter fun path => Canonical path

def closedBuckets (now : ℚ) (bucketSeconds : Int) (shelf : Shelf) (unit : String) : List String :=
  (walk shelf unit).filter (isOver now bucketSeconds)

/-- One line for each media file, and one for each closed bucket. -/
def Rebuilt (now : ℚ) (bucketSeconds : Int) (shelf shelf' : Shelf) (unit : String) : Prop :=
  ∃ lines file, shelf'.files.read (manifestPath unit) = some file ∧ file.bytes = content lines ∧
    ((lines.filterMap Line.media?).map Media.path).Perm (mediaFiles shelf unit) ∧
    ((lines.filterMap Line.events?).map Events.path).Perm (closedBuckets now bucketSeconds shelf unit)

/-- The line that `add` makes. -/
def newLine (shelf : Shelf) (path : String) (parsed : Archive.Parsed) : Option Media :=
  (shelf.files.read path).map fun file =>
    ⟨parsed.1, parsed.2.1, .finite parsed.2.2.timestamp, .finite file.mtime, path, file.bytes.length⟩

theorem add_eq {here : Dict Archive.Parsed} {lines : Dict Media}
    (there : ∀ path ∈ here.map Prod.fst, (shelf.files.read path).isSome) :
    add shelf here lines = .ok (fill (newLine shelf) here lines) := by
  induction here generalizing lines with
  | nil => rfl
  | cons entry rest ih =>
    obtain ⟨path, cam, epoch, start⟩ := entry
    obtain ⟨stored, there⟩ := List.forall_mem_cons.mp there
    obtain ⟨file, stored⟩ := Option.isSome_iff_exists.mp stored
    rw [add, fill, newLine, stored]
    split
    · exact ih there
    · exact ih there

/-- The segments that are there, and the lines that they keep. -/
theorem kept_media (wellNamed : WellNamed shelf) (cam : Int) (found : List (Media ⊕ Stray)) :
    ∃ here, Archive.present (walk shelf (toString cam)) [] = .ok here ∧ ∃ lines,
      add shelf here (Archive.byPath Media.path (Manifest.named found)) = .ok lines ∧
      (((lines.filter fun entry => (here.get? entry.1).isSome).map Prod.snd).map Media.path).Perm
        (mediaFiles shelf (toString cam)) := by
  have named' : ∀ path ∈ walk shelf (toString cam), Named path := fun path member =>
    wellNamed.segments path (mem_walk.mp member).1
  obtain ⟨here, ok, keys⟩ := present_ok named' []
  obtain ⟨nodup, -⟩ := present_inv ok List.nodup_nil nofun
  have inside (path : String) : path ∈ here.map Prod.fst ↔ path ∈ mediaFiles shelf (toString cam) := by
    rw [keys, mediaFiles, List.mem_filter, decide_eq_true_iff]
    exact or_iff_right nofun
  have there : ∀ path ∈ here.map Prod.fst, (shelf.files.read path).isSome := by
    intro path member
    have listed := (mem_walk.mp (List.mem_of_mem_filter ((inside path).mp member))).1
    exact Option.isSome_iff_ne_none.mpr ((Versioned.mem_keys _).mp listed)
  refine ⟨here, ok, _, add_eq there, ?_⟩
  have owned : OwnPath Media.path (fill (newLine shelf) here (Archive.byPath Media.path (Manifest.named found))) := by
    refine fill_owned (fun key parsed item made => ?_) (ownPath_byPath _ _)
    obtain ⟨file, -, rfl⟩ := Option.map_eq_some_iff.mp made
    rfl
  rw [kept_paths owned]
  refine (List.perm_ext_iff_of_nodup (owned.nodup.filter _) ((shelf.files.nodup.filter _).filter _)).mpr fun path => ?_
  rw [List.mem_filter, ← Dict.mem_keys, inside]
  refine and_iff_right_of_imp fun media => ?_
  -- a media file has a line, its old one or a new one
  obtain ⟨parsed, stands⟩ := Option.isSome_iff_exists.mp (Dict.mem_keys.mp ((inside path).mpr media))
  obtain ⟨file, stored⟩ := Option.isSome_iff_exists.mp (there path ((inside path).mpr media))
  rw [Dict.mem_keys, fill_get? nodup, stands, Option.bind_some, newLine, stored]
  cases (Archive.byPath Media.path (Manifest.named found)).get? path <;> rfl

theorem sortLines_perm (lines : List Line) : (sortLines lines).Perm lines := List.perm_insertionSort _ lines

theorem sortLines_media (segs : List Media) (past : List Events) :
    ((sortLines (segs.map .media ++ past.map .events)).filterMap Line.media?).Perm segs := by
  have media : (segs.map Line.media ++ past.map Line.events).filterMap Line.media? = segs := by
    rw [List.filterMap_append, List.filterMap_map, List.filterMap_map]
    have first : Line.media? ∘ Line.media = some := rfl
    have second : Line.media? ∘ Line.events = fun _ => none := rfl
    rw [first, second]
    simp
  have sorted := (sortLines_perm (segs.map Line.media ++ past.map Line.events)).filterMap Line.media?
  rwa [media] at sorted

theorem sortLines_events (segs : List Media) (past : List Events) :
    ((sortLines (segs.map .media ++ past.map .events)).filterMap Line.events?).Perm past := by
  have events : (segs.map Line.media ++ past.map Line.events).filterMap Line.events? = past := by
    rw [List.filterMap_append, List.filterMap_map, List.filterMap_map]
    have first : Line.events? ∘ Line.media = fun _ => none := rfl
    have second : Line.events? ∘ Line.events = some := rfl
    rw [first, second]
    simp
  have sorted := (sortLines_perm (segs.map Line.media ++ past.map Line.events)).filterMap Line.events?
  rwa [events] at sorted

/-- The buckets that are over. -/
theorem closed_events {under : List Events}
    (found : bucketsUnder bucketSeconds shelf unit = .ok under) :
    (((Archive.byPath Events.path (under.filter (isClosed now))).map Prod.snd).map Events.path).Perm
      (closedBuckets now bucketSeconds shelf unit) := by
  rw [bucketsUnder, bind_eq_ok] at found
  obtain ⟨out, rounds, ends⟩ := found
  cases ends
  have paths : (out.filter (isClosed now)).map Events.path = _ := bucketRounds_closed rounds
  have perm := ((List.perm_insertionSort (fun left right : Events =>
    Before (left.start, left.epoch) (right.start, right.epoch)) out).filter (isClosed now)).map Events.path
  rw [paths] at perm
  have nodup := perm.nodup_iff.mpr ((shelf.files.nodup.filter _).filter _)
  rw [byPath_of_nodup _ nodup, List.map_map]
  refine List.Perm.trans ?_ perm
  rw [List.map_map]
  exact .rfl

theorem bucketsUnder_ok_iff (wellNamed : WellNamed shelf) :
    (∃ under, bucketsUnder bucketSeconds shelf unit = .ok under) ↔
    ∀ path ∈ walk shelf unit, ∀ found, parseBucket path = .ok (some found) →
      ∃ values, readBucket shelf path = .ok values := by
  have named' : ∀ path ∈ walk shelf unit, ∃ found, parseBucket path = .ok found := fun path member =>
    wellNamed.buckets path (mem_walk.mp member).1
  have each : (∃ out, bucketRounds bucketSeconds shelf (walk shelf unit) = .ok out) ↔ _ := bucketRounds_ok_iff named'
  rw [← each]
  simp only [bucketsUnder, bind_eq_ok]
  constructor
  · rintro ⟨_, out, rounds, -⟩
    exact ⟨out, rounds⟩
  · rintro ⟨out, rounds⟩
    exact ⟨_, out, rounds, rfl⟩

/-- Only the manifest of the unit has been written. -/
structure Rewritten (shelf shelf' : Shelf) (unit : String) : Prop where
  units : shelf'.units = shelf.units
  files : ∃ file, shelf'.files = (shelf.files.remove (manifestPath unit ++ ".tmp")).write (manifestPath unit) file

theorem repairCamera_ok (wellNamed : WellNamed shelf) {cam : Int} {counts : Nat × Nat}
    (ok : repairCamera now bucketSeconds shelf cam = .ok (counts, shelf')) :
    Legible shelf (toString cam) ∧ Rebuilt now bucketSeconds shelf shelf' (toString cam) ∧
      Rewritten shelf shelf' (toString cam) := by
  simp only [repairCamera, bind_eq_ok, lift_eq_ok] at ok
  obtain ⟨found, media, here, walked, lines, filled, listed, events, under, files, ends⟩ := ok
  cases ends
  obtain ⟨here', walked', lines', filled', kept⟩ := kept_media wellNamed cam found
  rw [walked] at walked'
  cases walked'
  rw [filled] at filled'
  cases filled'
  refine ⟨legible_iff.mpr ⟨⟨found, media⟩, ⟨listed, events⟩, ?_⟩, ?_, ⟨rfl, _, rfl⟩⟩
  · exact (bucketsUnder_ok_iff wellNamed).mp ⟨under, files⟩
  · refine ⟨_, _, Versioned.read_write_self _ _ _, rfl, ?_, ?_⟩
    · exact ((sortLines_media _ _).map _).trans kept
    · exact ((sortLines_events _ _).map _).trans (closed_events files)

theorem repairCamera_of_legible (wellNamed : WellNamed shelf) {cam : Int} (legible : Legible shelf (toString cam)) :
    ∃ counts shelf', repairCamera now bucketSeconds shelf cam = .ok (counts, shelf') := by
  obtain ⟨⟨found, media⟩, ⟨listed, events⟩, files⟩ := legible_iff.mp legible
  obtain ⟨here, walked, lines, filled, -⟩ := kept_media wellNamed cam found
  obtain ⟨under, files⟩ : ∃ under, bucketsUnder bucketSeconds shelf (toString cam) = .ok under :=
    (bucketsUnder_ok_iff wellNamed).mpr files
  simp only [repairCamera, bind_eq_ok, lift_eq_ok]
  exact ⟨_, _, found, media, here, walked, lines, filled, listed, events, under, files, rfl⟩

/-! ## Other cameras -/

theorem manifestPath_eq (unit : String) : manifestPath unit = above unit ++ "manifest.jsonl" := by
  have parts : "/manifest.jsonl" = "/" ++ "manifest.jsonl" := by decide
  rw [manifestPath, parts, ← String.append_assoc]
  rfl

theorem unitIn_above (whole : '/' ∉ unit.toList) (file : String) : unitIn (above unit ++ file) = unit := by
  apply unitIn_of_above whole
  rw [String.toList_append]
  exact List.prefix_append _ _

theorem unitIn_manifest (whole : '/' ∉ unit.toList) : unitIn (manifestPath unit) = unit := by
  rw [manifestPath_eq]
  exact unitIn_above whole _

theorem unitIn_temporary (whole : '/' ∉ unit.toList) : unitIn (manifestPath unit ++ ".tmp") = unit := by
  rw [manifestPath_eq, String.append_assoc]
  exact unitIn_above whole _

theorem split_manifest (whole : '/' ∉ unit.toList) :
    split '/' (manifestPath unit) = ["vms", unit, "manifest.jsonl"] := by
  have joined : manifestPath unit = join '/' ["vms", unit, "manifest.jsonl"] := by
    apply String.toList_injective
    rw [manifestPath_eq, String.toList_append, toList_above, toList_join_cons (by simp), toList_join_cons (by simp)]
    simp [join]
  rw [joined]
  apply split_join (by simp)
  intro part member
  simp only [List.mem_cons, List.not_mem_nil, or_false] at member
  obtain rfl | rfl | rfl := member
  · decide
  · exact whole
  · decide

theorem parse_manifest (whole : '/' ∉ unit.toList) : parse (manifestPath unit) = .ok none := by
  rw [parse, split_manifest whole]

theorem parseBucket_manifest (whole : '/' ∉ unit.toList) : parseBucket (manifestPath unit) = .ok none := by
  rw [parseBucket, split_manifest whole]

theorem Rewritten.wellNamed (rewritten : Rewritten shelf shelf' unit) (whole : '/' ∉ unit.toList)
    (wellNamed : WellNamed shelf) : WellNamed shelf' := by
  obtain ⟨units, file, files⟩ := rewritten
  have old (path : String) (member : path ∈ shelf'.files.keys) :
      path = manifestPath unit ∨ path ∈ shelf.files.keys := by
    rw [files, Versioned.mem_keys, Versioned.read_write, Versioned.read_remove] at member
    by_cases same : path = manifestPath unit
    · exact .inl same
    · rw [Function.update_of_ne same] at member
      by_cases temporary : path = manifestPath unit ++ ".tmp"
      · rw [temporary, Function.update_self] at member
        cases member rfl
      · rw [Function.update_of_ne temporary] at member
        exact .inr ((Versioned.mem_keys _).mpr member)
  refine ⟨fun unit inside => wellNamed.numbered unit (units ▸ inside), fun path member => ?_, fun path member => ?_⟩
  · obtain rfl | before := old path member
    · exact .inl (parse_manifest whole)
    · exact wellNamed.segments path before
  · obtain rfl | before := old path member
    · exact ⟨_, parseBucket_manifest whole⟩
    · exact wellNamed.buckets path before

/-- Nothing of the unit has changed. -/
structure Same (shelf shelf' : Shelf) (unit : String) : Prop where
  walked : walk shelf' unit = walk shelf unit
  reads : ∀ path, unitIn path = unit → shelf'.files.read path = shelf.files.read path

theorem Same.trans {shelf'' : Shelf} (first : Same shelf shelf' unit) (second : Same shelf' shelf'' unit) :
    Same shelf shelf'' unit :=
  ⟨second.walked.trans first.walked, fun path inside => (second.reads path inside).trans (first.reads path inside)⟩

theorem unitIn_of_walk (whole : '/' ∉ unit.toList) {path : String} (member : path ∈ walk shelf unit) :
    unitIn path = unit := unitIn_of_above whole (mem_walk.mp member).2

theorem Rewritten.same (rewritten : Rewritten shelf shelf' unit) (whole : '/' ∉ unit.toList) {other : String}
    (differs : other ≠ unit) (whole' : '/' ∉ other.toList) : Same shelf shelf' other := by
  obtain ⟨-, file, files⟩ := rewritten
  have reads (path : String) (inside : unitIn path = other) : shelf'.files.read path = shelf.files.read path := by
    have first : path ≠ manifestPath unit := by
      rintro rfl
      exact differs (inside.symm.trans (unitIn_manifest whole))
    have second : path ≠ manifestPath unit ++ ".tmp" := by
      rintro rfl
      exact differs (inside.symm.trans (unitIn_temporary whole))
    rw [files, Versioned.read_write, Function.update_of_ne first, Versioned.read_remove, Function.update_of_ne second]
  refine ⟨?_, reads⟩
  have outside {path : String} (inside : unitIn path = unit) :
      ("vms/" ++ other ++ "/").toList.isPrefixOf path.toList = false := by
    by_contra under
    rw [Bool.not_eq_false, List.isPrefixOf_iff_prefix] at under
    exact differs ((unitIn_of_above whole' under).symm.trans inside)
  have kept : (shelf.files.remove (manifestPath unit ++ ".tmp")).keys.filter
      (fun path => ("vms/" ++ other ++ "/").toList.isPrefixOf path.toList) = walk shelf other := by
    show (shelf.files.keys.filter (· ≠ manifestPath unit ++ ".tmp")).filter _ = _
    rw [List.filter_filter, walk]
    refine List.filter_congr fun path _ => ?_
    by_cases temporary : path = manifestPath unit ++ ".tmp"
    · rw [temporary, outside (unitIn_temporary whole)]
      rfl
    · simp [temporary]
  rw [walk, files]
  show List.filter _ (if _ then _ else _) = _
  split
  · exact kept
  · rw [List.filter_cons_of_neg (by rw [outside (unitIn_manifest whole)]; exact Bool.false_ne_true)]
    exact kept

theorem Same.legible (same : Same shelf shelf' unit) (whole : '/' ∉ unit.toList) :
    Legible shelf' unit ↔ Legible shelf unit := by
  have lines : linesOf shelf' unit = linesOf shelf unit := by
    rw [linesOf, linesOf, same.reads _ (unitIn_manifest whole)]
  have buckets : ∀ path ∈ walk shelf unit, readBucket shelf' path = readBucket shelf path := by
    intro path member
    rw [readBucket, readBucket, same.reads _ (unitIn_of_walk whole member)]
  constructor
  · rintro ⟨manifest, files⟩
    rw [lines] at manifest
    refine ⟨manifest, fun path member found parsed => ?_⟩
    rw [← buckets path member]
    exact files path (same.walked ▸ member) found parsed
  · rintro ⟨manifest, files⟩
    refine ⟨lines ▸ manifest, fun path member found parsed => ?_⟩
    rw [same.walked] at member
    rw [buckets path member]
    exact files path member found parsed

theorem Rebuilt.before {final : Shelf} (same : Same shelf shelf' unit)
    (rebuilt : Rebuilt now bucketSeconds shelf' final unit) : Rebuilt now bucketSeconds shelf final unit := by
  rw [Rebuilt, mediaFiles, closedBuckets, ← same.walked]
  exact rebuilt

theorem Rebuilt.after {final : Shelf} (same : Same shelf' final unit) (whole : '/' ∉ unit.toList)
    (rebuilt : Rebuilt now bucketSeconds shelf shelf' unit) : Rebuilt now bucketSeconds shelf final unit := by
  rw [Rebuilt, same.reads _ (unitIn_manifest whole)]
  exact rebuilt

/-! ## The whole repair -/

theorem whole_cam (cam : Int) : '/' ∉ (toString cam).toList := not_mem_toString (by decide) (by decide) cam

theorem repairRounds_ok {cams : List Int} {counts counts' : Nat × Nat} (wellNamed : WellNamed shelf)
    (distinct : (cams.map toString).Nodup)
    (ok : repairRounds now bucketSeconds cams counts shelf = .ok (counts', shelf')) :
    (∀ cam ∈ cams, Legible shelf (toString cam) ∧ Rebuilt now bucketSeconds shelf shelf' (toString cam)) ∧
      ∀ unit, '/' ∉ unit.toList → unit ∉ cams.map toString → Same shelf shelf' unit := by
  induction cams generalizing shelf counts with
  | nil =>
    cases ok
    exact ⟨nofun, fun _ _ _ => ⟨rfl, fun _ _ => rfl⟩⟩
  | cons cam rest ih =>
    obtain ⟨added, dropped⟩ := counts
    rw [List.map_cons, List.nodup_cons] at distinct
    rw [repairRounds, bind_eq_ok] at ok
    obtain ⟨⟨⟨added', dropped'⟩, middle⟩, first, later⟩ := ok
    obtain ⟨legible, rebuilt, rewritten⟩ := repairCamera_ok wellNamed first
    have wellNamed' := rewritten.wellNamed (whole_cam cam) wellNamed
    obtain ⟨others, same⟩ := ih wellNamed' distinct.2 later
    refine ⟨fun cam' member => ?_, fun unit whole outside => ?_⟩
    · obtain rfl | inside := List.mem_cons.mp member
      · exact ⟨legible, rebuilt.after (same _ (whole_cam _) distinct.1) (whole_cam _)⟩
      · obtain ⟨legible', rebuilt'⟩ := others cam' inside
        have differs : toString cam' ≠ toString cam := fun same =>
          distinct.1 (same ▸ List.mem_map_of_mem inside)
        have before := rewritten.same (whole_cam cam) differs (whole_cam cam')
        exact ⟨(before.legible (whole_cam cam')).mp legible', rebuilt'.before before⟩
    · rw [List.map_cons, List.mem_cons, not_or] at outside
      exact (rewritten.same (whole_cam cam) outside.1 whole).trans (same unit whole outside.2)

theorem repairRounds_of_legible {cams : List Int} {counts : Nat × Nat} (wellNamed : WellNamed shelf)
    (distinct : (cams.map toString).Nodup) (legible : ∀ cam ∈ cams, Legible shelf (toString cam)) :
    ∃ counts' shelf', repairRounds now bucketSeconds cams counts shelf = .ok (counts', shelf') := by
  induction cams generalizing shelf counts with
  | nil => exact ⟨counts, shelf, rfl⟩
  | cons cam rest ih =>
    obtain ⟨added, dropped⟩ := counts
    rw [List.map_cons, List.nodup_cons] at distinct
    obtain ⟨mine, others⟩ := List.forall_mem_cons.mp legible
    obtain ⟨⟨added', dropped'⟩, middle, first⟩ : ∃ counts middle, repairCamera now bucketSeconds shelf cam =
      .ok (counts, middle) := repairCamera_of_legible wellNamed mine
    obtain ⟨-, -, rewritten⟩ := repairCamera_ok wellNamed first
    have legible' : ∀ cam' ∈ rest, Legible middle (toString cam') := by
      intro cam' member
      have differs : toString cam' ≠ toString cam := fun same => distinct.1 (same ▸ List.mem_map_of_mem member)
      exact ((rewritten.same (whole_cam cam) differs (whole_cam cam')).legible (whole_cam cam')).mpr (others cam' member)
    obtain ⟨counts', shelf', later⟩ := ih (rewritten.wellNamed (whole_cam cam) wellNamed) distinct.2 legible'
    exact ⟨counts', shelf', by rw [repairRounds, first]; exact later⟩

theorem cameras_ok (wellNamed : WellNamed shelf) : ∃ cams, cameras shelf = .ok cams ∧
    (cams.map toString).Perm (shelf.units.filter isDigits) := by
  have each : ∀ units : List String, (∀ unit ∈ units, ∃ cam : Int, unit = toString cam) →
      ∃ cams, units.mapM (fun unit => (Text.plain unit).toInt) = .ok cams ∧ cams.map toString = units := by
    intro units numbered
    induction units with
    | nil => exact ⟨[], rfl, rfl⟩
    | cons unit rest ih =>
      obtain ⟨⟨cam, rfl⟩, others⟩ := List.forall_mem_cons.mp numbered
      obtain ⟨cams, made, back⟩ := ih others
      have first : (Text.plain (toString cam)).toInt = .ok cam := by rw [Text.toInt, Text.string_plain, pyInt_toString]
      refine ⟨cam :: cams, ?_, by rw [List.map_cons, back]⟩
      rw [List.mapM_cons, first, made]
      rfl
  obtain ⟨cams, made, back⟩ := each (shelf.units.filter isDigits) fun unit member =>
    wellNamed.numbered unit (List.mem_filter.mp member).1 (List.mem_filter.mp member).2
  refine ⟨cams.insertionSort (· ≤ ·), by rw [cameras, made]; rfl, ?_⟩
  rw [← back]
  exact (List.perm_insertionSort _ cams).map _

theorem legible_of_repair (wellNamed : WellNamed shelf) {counts : Nat × Nat}
    (ok : repair now bucketSeconds shelf = .ok (counts, shelf')) :
    ∀ unit ∈ shelf.units, isDigits unit = true →
      Legible shelf unit ∧ Rebuilt now bucketSeconds shelf shelf' unit := by
  obtain ⟨cams, listed, perm⟩ := cameras_ok wellNamed
  have distinct : (cams.map toString).Nodup := perm.nodup_iff.mpr (shelf.nodup.filter _)
  have rounds : repairRounds now bucketSeconds cams (0, 0) shelf = .ok (counts, shelf') := by
    rw [← ok, repair, listed]
    rfl
  intro unit inside digits
  have named : unit ∈ cams.map toString := perm.mem_iff.mpr (List.mem_filter.mpr ⟨inside, digits⟩)
  obtain ⟨cam, member, rfl⟩ := List.mem_map.mp named
  exact (repairRounds_ok wellNamed distinct rounds).1 cam member

theorem repair_of_legible (wellNamed : WellNamed shelf)
    (legible : ∀ unit ∈ shelf.units, isDigits unit = true → Legible shelf unit) :
    ∃ counts shelf', repair now bucketSeconds shelf = .ok (counts, shelf') := by
  obtain ⟨cams, listed, perm⟩ := cameras_ok wellNamed
  have distinct : (cams.map toString).Nodup := perm.nodup_iff.mpr (shelf.nodup.filter _)
  have each : ∀ cam ∈ cams, Legible shelf (toString cam) := fun cam member =>
    have inside := List.mem_filter.mp (perm.mem_iff.mp (List.mem_map_of_mem member))
    legible _ inside.1 inside.2
  obtain ⟨counts, shelf', rounds⟩ := repairRounds_of_legible wellNamed distinct each
  refine ⟨counts, shelf', ?_⟩
  rw [← rounds, repair, listed]
  rfl

def night : String := "vms/7/e3/19700101T000000Z.mp4"

def morning : String := "vms/7/e3/19700101T001000Z.mp4"

def firstLine : Line := .media ⟨7, 3, .finite 0, .finite 600, night, 3⟩

def secondLine : Line := .media ⟨7, 3, .finite 600, .finite 1190, morning, 1⟩

/-- Two segments, and a manifest whose second line was cut after forty bytes. -/
def cutShelf : Shelf where
  files := (((Versioned.empty 0).write night ⟨[1, 2, 3], 600⟩).write morning ⟨[4], 1190⟩).write "vms/7/manifest.jsonl"
    ⟨content [firstLine] ++ (Json.encode secondLine.text).take 40, 1190⟩
  units := ["7"]
  nodup := List.nodup_singleton _

theorem cutShelf_wellNamed : WellNamed cutShelf where
  numbered unit member _ := by
    obtain rfl | nothing := List.mem_cons.mp member
    · exact ⟨7, by decide +kernel⟩
    · cases nothing
  segments := by decide +kernel
  buckets path member := by
    have none_ : ∀ path ∈ cutShelf.files.keys, parseBucket path = .ok none := by decide +kernel
    exact ⟨none, none_ path member⟩

/-- What of the second line came to the disk. -/
def cutLine : List Char := secondLine.text.take 40

theorem linesOf_cutShelf :
    linesOf cutShelf "7" = .ok ((Json.splitLines (firstLine.text ++ '\n' :: cutLine)).filter fun line =>
      !line.all Json.isBlank) := by
  have bytes : content [firstLine] ++ (Json.encode secondLine.text).take 40 =
      Json.encode (firstLine.text ++ '\n' :: cutLine) := by
    simp only [content, Json.encode_eq]
    decide +kernel
  have file : cutShelf.files.read (manifestPath "7") =
      some ⟨content [firstLine] ++ (Json.encode secondLine.text).take 40, 1190⟩ := by rfl
  rw [linesOf, file, bytes]
  dsimp only
  rw [Json.linesOf, Json.decode_encode]
  rfl

theorem not_legible_cutShelf : ¬Legible cutShelf "7" := by
  intro legible
  obtain ⟨lines, read, each⟩ := legible.manifest
  have these := Except.ok.inj (linesOf_cutShelf.symm.trans read)
  have last : cutLine ∈ (Json.splitLines (firstLine.text ++ '\n' :: cutLine)).filter fun line =>
      !line.all Json.isBlank := by decide +kernel
  obtain ⟨found, media⟩ := (each cutLine (these ▸ last)).media
  have cut : (media? cutLine).toOption.isSome = false := by decide +kernel
  rw [media] at cut
  cases cut

end EdgeVms.Verified.Rebuildable
