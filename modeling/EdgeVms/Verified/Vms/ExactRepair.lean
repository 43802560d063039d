import EdgeVms.Process.Stable
import EdgeVms.Verified.Vms.Repair
import EdgeVms.Verified.Vms.Timeline
import Mathlib.Data.List.Induction

/-! # Repair and retention are exact

At one moment, nobody else being there.  `rebuilt` is the manifest that a repair
writes, as a function of the disk; a manifest that a repair leaves as it is is
`Settled`, and retention keeps it so.
-/

namespace EdgeVms.Verified.ExactRepair

open Process Python Platform Vms Archive Timeline

/-! ## Dictionaries by path -/

section ByPath

variable {α : Type} (path : α → String)

theorem set_of_absent {dict : Dict α} {key : String} (value : α) (absent : dict.get? key = none) :
    dict.set key value = dict ++ [(key, value)] := by
  induction dict with
  | nil => rfl
  | cons entry rest ih =>
    obtain ⟨key', value'⟩ := entry
    rw [Dict.get?_cons] at absent
    split at absent
    · cases absent
    next other => rw [Dict.set, if_neg other, ih absent, List.cons_append]

theorem byPath_concat (items : List α) (item : α) :
    byPath path (items ++ [item]) = (byPath path items).set (path item) item := by
  rw [byPath, List.foldl_append]
  rfl

/-- The last item with a path is the one that stays. -/
theorem get?_byPath (items : List α) (key : String) :
    (byPath path items).get? key = (items.filter fun item => path item = key).getLast? := by
  induction items using List.reverseRecOn with
  | nil => rfl
  | append_singleton items item ih =>
    rw [byPath_concat, List.filter_append]
    by_cases same : path item = key
    · subst same
      rw [Dict.get?_set_self, List.filter_cons_of_pos (by simp), List.filter_nil, List.getLast?_concat]
    · rw [Dict.get?_set_other _ _ (Ne.symm same), List.filter_cons_of_neg (by simpa using same), List.filter_nil,
        List.append_nil, ih]

theorem mem_byPath {items : List α} {key : String} :
    key ∈ (byPath path items).map Prod.fst ↔ key ∈ items.map path := by
  rw [Dict.mem_keys, get?_byPath, List.getLast?_isSome, List.mem_map]
  constructor
  · intro some_
    obtain ⟨item, member⟩ := List.exists_mem_of_ne_nil _ some_
    obtain ⟨inside, same⟩ := List.mem_filter.mp member
    exact ⟨item, inside, by simpa using same⟩
  · rintro ⟨item, inside, same⟩
    exact List.ne_nil_of_mem (List.mem_filter.mpr ⟨inside, by simpa using same⟩)

/-- A dictionary of items with different paths. -/
theorem byPath_of_nodup {items : List α} (nodup : (items.map path).Nodup) :
    byPath path items = items.map fun item => (path item, item) := by
  induction items using List.reverseRecOn with
  | nil => rfl
  | append_singleton items item ih =>
    rw [List.map_append, List.nodup_append] at nodup
    obtain ⟨nodup, -, apart⟩ := nodup
    have absent : Dict.get? (byPath path items) (path item) = none := by
      rw [get?_byPath, List.filter_eq_nil_iff.mpr, List.getLast?_nil]
      intro other member
      simpa using apart (path other) (List.mem_map_of_mem member) (path item) (by simp)
    rw [byPath_concat, set_of_absent _ absent, ih nodup, List.map_append]
    rfl

end ByPath

/-! ## Lines for files that have none -/

section Fill

variable {α : Type} {line : String → Parsed → Option α} {here : Dict Parsed} {lines : Dict α}

/-- Each file without a line gets the one that `line` makes, if it makes one. -/
def fill (line : String → Parsed → Option α) : Dict Parsed → Dict α → Dict α
  | [], lines => lines
  | (path, parsed) :: rest, lines =>
    if (lines.get? path).isSome then fill line rest lines
    else
      match line path parsed with
      | some made => fill line rest (lines.set path made)
      | none => fill line rest lines

theorem fill_get? (nodup : (here.map Prod.fst).Nodup) (lines : Dict α) (path : String) :
    (fill line here lines).get? path = (lines.get? path).or ((here.get? path).bind (line path)) := by
  induction here generalizing lines with
  | nil => simp [fill]
  | cons entry rest ih =>
    obtain ⟨first, parsed⟩ := entry
    obtain ⟨fresh, nodup⟩ := List.nodup_cons.mp nodup
    have absent : Dict.get? rest first = none := by
      by_contra there
      exact fresh (Dict.mem_keys.mpr (Option.isSome_iff_ne_none.mpr there))
    rw [Dict.get?_cons, fill]
    by_cases same : first = path
    · subst same
      rw [if_pos rfl, Option.bind_some]
      split
      next known =>
        obtain ⟨old, there⟩ := Option.isSome_iff_exists.mp known
        rw [ih nodup, there]
        rfl
      next unknown =>
        have empty : lines.get? first = none := by simpa using unknown
        rw [empty, Option.none_or]
        cases made : line first parsed with
        | some item => rw [ih nodup, Dict.get?_set_self, Option.some_or]
        | none => rw [ih nodup, empty, absent]; rfl
    · rw [if_neg same]
      split
      · exact ih nodup _
      · cases made : line first parsed with
        | some item =>
          dsimp only
          rw [ih nodup, Dict.get?_set_other _ _ (Ne.symm same)]
        | none => exact ih nodup _

theorem fill_owned {path : α → String} (own : ∀ key parsed item, line key parsed = some item → path item = key)
    (owned : OwnPath path lines) : OwnPath path (fill line here lines) := by
  induction here generalizing lines with
  | nil => exact owned
  | cons entry rest ih =>
    obtain ⟨first, parsed⟩ := entry
    rw [fill]
    split
    · exact ih owned
    · cases made : line first parsed with
      | some item => exact ih (own first parsed item made ▸ owned.set item)
      | none => exact ih owned

/-- Where every file has a line, none is added. -/
theorem fill_of_covered (covered : ∀ path ∈ here.map Prod.fst, (lines.get? path).isSome) :
    fill line here lines = lines := by
  induction here with
  | nil => rfl
  | cons entry rest ih =>
    obtain ⟨first, parsed⟩ := entry
    obtain ⟨known, covered⟩ := List.forall_mem_cons.mp covered
    rw [fill, if_pos known]
    exact ih covered

end Fill

/-! ## The manifest that a repair writes -/

/-- Nothing but the processes' own steps changes the disk, and time stands. -/
def Stands (around : Around) (disk : Disk) : Prop := disk.around = fun _ => around

section Pure

variable (around : Around) (disk : Disk) (unit : String)

def mediaOf : List Segment := (disk.linesOf unit).filterMap Vms.Entry.media?

def eventsOf : List Bucket := (disk.linesOf unit).filterMap Vms.Entry.events?

/-- The segments in the unit's directory. -/
def hereOf : Dict Parsed := (present (filesOf disk unit) []).toOption.getD []

/-- The line for a file that has none. -/
def lineFor (path : String) (parsed : Parsed) : Option Segment :=
  (disk.archive.read path).map fun file =>
    ⟨parsed.1, parsed.2.1, parsed.2.2.timestamp, file.mtime, path, file.bytes.length⟩

/-- The media lines after a repair. -/
def filled : Dict Segment := fill (lineFor disk) (hereOf disk unit) (byPath Segment.path (mediaOf disk unit))

def kept : Dict Segment := (filled disk unit).filter fun entry => ((hereOf disk unit).get? entry.1).isSome

/-- The buckets whose span is over. -/
def over_ : Dict Bucket := byPath Bucket.path ((around.buckets unit).filter fun bucket => bucket.end_ ≤ around.wall)

def rebuilt : List Vms.Entry :=
  sortEntries (((kept disk unit).map Prod.snd).map .media ++ ((over_ around unit).map Prod.snd).map .events)

end Pure

section Walk

variable {disk : Disk} {unit : String}

theorem lineFor_path {path : String} {parsed : Parsed} {segment : Segment}
    (made : lineFor disk path parsed = some segment) : segment.path = path := by
  obtain ⟨file, -, rfl⟩ := Option.map_eq_some_iff.mp made
  rfl

theorem lineFor_of_same {disk' : Disk} (same : disk'.archive = disk.archive) : lineFor disk' = lineFor disk := by
  funext path parsed
  rw [lineFor, lineFor, same]

/-- The entries of `present` are read off their paths. -/
theorem present_inv {files : List String} {out here : Dict Parsed} (found : present files out = .ok here)
    (nodup : (out.map Prod.fst).Nodup) (read : ∀ entry ∈ out, parse entry.1 = .ok (some entry.2)) :
    (here.map Prod.fst).Nodup ∧ ∀ entry ∈ here, parse entry.1 = .ok (some entry.2) := by
  induction files generalizing out with
  | nil =>
    cases found
    exact ⟨nodup, read⟩
  | cons path rest ih =>
    rw [present, bind_eq_ok] at found
    obtain ⟨parsed, made, found⟩ := found
    cases parsed with
    | none => exact ih found nodup read
    | some parsed =>
      refine ih found (Dict.nodup_keys_set nodup _ _) fun entry member => ?_
      obtain rfl | old := Dict.mem_set member
      · exact made
      · exact read entry old

/-- The segments in the directory of a camera, as a repair finds them. -/
structure Walked (disk : Disk) (unit : String) : Prop where
  found : present (filesOf disk unit) [] = .ok (hereOf disk unit)
  inside : ∀ path, path ∈ (hereOf disk unit).map Prod.fst ↔ Archived disk unit path
  nodup : ((hereOf disk unit).map Prod.fst).Nodup
  read : ∀ entry ∈ hereOf disk unit, parse entry.1 = .ok (some entry.2)

theorem walked (named : ∀ path file, disk.archive.read path = some file → Named path) (cam : Int) :
    Walked disk (toString cam) := by
  obtain ⟨here, found, inside⟩ := present_files named cam
  obtain rfl : hereOf disk (toString cam) = here := by
    rw [hereOf, found]
    rfl
  obtain ⟨nodup, read⟩ := present_inv found List.nodup_nil nofun
  exact ⟨found, inside, nodup, read⟩

end Walk

/-! ## The steps of a repair, exactly -/

section Steps

variable {sameDevice : Bool} {around : Around} {disk now : Disk} {unit : String}

/-- A part that finds `value` on the disk, and then the rest. -/
theorem Alone.after {α β : Type} {post : Except Fault β → Disk → Prop} {p : Program α} {f : α → Program β} {value : α}
    (first : Alone sameDevice (fun result disk' => result = .ok value ∧ Looked disk disk') p now)
    (later : ∀ disk', Looked disk disk' → Alone sameDevice post (f value) disk') :
    Alone sameDevice post (p >>= f) now := by
  apply Safe.bind
  refine Safe.mono ?_ first
  rintro _ disk' ⟨rfl, looked⟩
  exact later disk' looked

theorem read_finds (looked : Looked disk now) :
    Alone sameDevice (fun result disk' => result = .ok (mediaOf disk unit) ∧ Looked disk disk')
      (Archive.read unit) now := by
  apply Alone.call
  obtain ⟨served, rfl⟩ := looked
  exact ⟨rfl, _, rfl⟩

theorem buckets_finds (looked : Looked disk now) :
    Alone sameDevice (fun result disk' => result = .ok (eventsOf disk unit) ∧ Looked disk disk') (Archive.buckets unit)
      now := by
  apply Alone.call
  obtain ⟨served, rfl⟩ := looked
  exact ⟨rfl, _, rfl⟩

theorem walk_finds (looked : Looked disk now) :
    Alone sameDevice (fun result disk' => result = .ok (filesOf disk unit) ∧ Looked disk disk')
      (ask (.walk .archive (above unit))) now := by
  apply Alone.call
  obtain ⟨served, rfl⟩ := looked
  exact ⟨rfl, _, rfl⟩

theorem bucketFiles_finds (stands : Stands around disk) (looked : Looked disk now) :
    Alone sameDevice (fun result disk' => result = .ok (around.buckets unit) ∧ Looked disk disk')
      (ask (.buckets unit)) now := by
  apply Alone.call
  obtain ⟨served, rfl⟩ := looked
  refine ⟨congrArg Except.ok ?_, _, rfl⟩
  show (disk.around served).buckets unit = around.buckets unit
  rw [stands]

theorem addRounds_fills {here : Dict Parsed} {lines : Dict Segment}
    (there : ∀ path ∈ here.map Prod.fst, (disk.archive.read path).isSome) (looked : Looked disk now) :
    Alone sameDevice (fun result disk' => result = .ok (fill (lineFor disk) here lines) ∧ Looked disk disk')
      (addRounds here lines) now := by
  induction here generalizing lines now with
  | nil => exact ⟨rfl, looked⟩
  | cons entry rest ih =>
    obtain ⟨path, cam, epoch, start⟩ := entry
    obtain ⟨stored, there⟩ := List.forall_mem_cons.mp there
    rw [addRounds, fill]
    split
    · exact ih there looked
    · apply Alone.call
      obtain ⟨file, stored⟩ := Option.isSome_iff_exists.mp stored
      have answered : now.stat .archive path = .ok ⟨file.bytes.length, file.mtime⟩ := by
        obtain ⟨served, rfl⟩ := looked
        simp [Disk.stat, Disk.folder, stored]
      have line : lineFor disk path (cam, epoch, start) =
          some ⟨cam, epoch, start.timestamp, file.mtime, path, file.bytes.length⟩ := by rw [lineFor, stored]; rfl
      show Alone sameDevice _ ((Proc.ofExcept (now.stat .archive path)).bind _) now.tick
      rw [answered, line]
      exact ih there (looked.trans (.tick now))

theorem overRounds_stands (stands : Stands around disk) (past : List Bucket) (out : Dict Bucket)
    (looked : Looked disk now) :
    Alone sameDevice (fun result disk' => result = .ok ((past.filter fun bucket => bucket.end_ ≤ around.wall).foldl
      (fun dict bucket => dict.set bucket.path bucket) out) ∧ Looked disk disk') (overRounds past out) now := by
  induction past generalizing out now with
  | nil => exact ⟨rfl, looked⟩
  | cons bucket rest ih =>
    apply Alone.call
    have wall : (Disk.handler sameDevice .wall now).1 = around.wall := by
      obtain ⟨served, rfl⟩ := looked
      show (disk.around served).wall = around.wall
      rw [stands]
    rw [wall]
    refine Safe.mono ?_ (ih _ (looked.trans (.tick now)))
    rintro _ disk' ⟨rfl, looked⟩
    refine ⟨?_, looked⟩
    by_cases past : bucket.end_ ≤ around.wall
    · rw [if_pos past, List.filter_cons_of_pos (by simpa using past), List.foldl_cons]
    · rw [if_neg past, List.filter_cons_of_neg (by simpa using past)]

/-- How many lines a repair adds and drops. -/
def countsOf (around : Around) (disk : Disk) (unit : String) : Nat × Nat :=
  (missing (hereOf disk unit) (byPath Segment.path (mediaOf disk unit)) +
      missing (over_ around unit) (byPath Bucket.path (eventsOf disk unit)),
    missing (filled disk unit) (hereOf disk unit) +
      missing (byPath Bucket.path (eventsOf disk unit)) (over_ around unit))

/-- The steps of a repair, put together. -/
theorem repairCamera_rebuilds (stands : Stands around disk) {cam : Int} (walked : Walked disk (toString cam)) :
    Alone sameDevice (fun result disk' => result = .ok (countsOf around disk (toString cam)) ∧
      ∃ served, disk' = Disk.withManifest { disk with served := served } (toString cam)
        (rebuilt around disk (toString cam))) (repairCamera cam) disk := by
  refine Alone.after (read_finds (.refl disk)) fun _ looked => ?_
  refine Alone.after (walk_finds looked) fun _ looked => ?_
  apply Alone.value_bind walked.found
  have there : ∀ path ∈ (hereOf disk (toString cam)).map Prod.fst, (disk.archive.read path).isSome :=
    fun path member => ((walked.inside path).mp member).1
  refine Alone.after (addRounds_fills there looked) fun _ looked => ?_
  refine Alone.after (buckets_finds looked) fun _ looked => ?_
  refine Alone.after (bucketFiles_finds stands looked) fun _ looked => ?_
  refine Alone.after (overRounds_stands stands _ _ looked) fun _ looked => ?_
  apply Alone.call
  obtain ⟨served, rfl⟩ := looked
  exact ⟨rfl, _, rfl⟩

end Steps

/-! ## Sorted entries -/

def isMedia : Vms.Entry → Bool
  | .media _ => true
  | .events _ => false

theorem media_filter (lines : List Vms.Entry) :
    (lines.filterMap Vms.Entry.media?).map .media = lines.filter isMedia := by
  induction lines with
  | nil => rfl
  | cons entry rest ih =>
    cases entry with
    | media segment =>
      rw [List.filter_cons_of_pos rfl, ← ih]
      rfl
    | events bucket =>
      rw [List.filter_cons_of_neg Bool.false_ne_true, ← ih]
      rfl

theorem events_filter (lines : List Vms.Entry) :
    (lines.filterMap Vms.Entry.events?).map .events = lines.filter fun entry => !isMedia entry := by
  induction lines with
  | nil => rfl
  | cons entry rest ih =>
    cases entry with
    | media segment =>
      rw [List.filter_cons_of_neg Bool.false_ne_true, ← ih]
      rfl
    | events bucket =>
      rw [List.filter_cons_of_pos rfl, ← ih]
      rfl

theorem filter_media (segs : List Segment) : (segs.map Vms.Entry.media).filter isMedia = segs.map .media := by
  refine List.filter_eq_self.mpr fun entry member => ?_
  obtain ⟨segment, -, rfl⟩ := List.mem_map.mp member
  rfl

theorem filter_events (past : List Bucket) : (past.map Vms.Entry.events).filter isMedia = [] := by
  refine List.filter_eq_nil_iff.mpr fun entry member => ?_
  obtain ⟨bucket, -, rfl⟩ := List.mem_map.mp member
  exact Bool.false_ne_true

theorem sortEntries_sorted (entries : List Vms.Entry) :
    (sortEntries entries).Pairwise (Before Vms.Entry.start Vms.Entry.epoch) :=
  List.pairwise_insertionSort (Before Vms.Entry.start Vms.Entry.epoch) entries

theorem sortEntries_filter (keep : Vms.Entry → Bool) (entries : List Vms.Entry) :
    (sortEntries entries).filter keep = sortEntries (entries.filter keep) :=
  Stable.filter_insertionSort (Before Vms.Entry.start Vms.Entry.epoch) keep entries

theorem sortEntries_sorted_append (first second : List Vms.Entry) :
    sortEntries (sortEntries first ++ second) = sortEntries (first ++ second) :=
  Stable.insertionSort_sorted_append (Before Vms.Entry.start Vms.Entry.epoch) first second

theorem sortEntries_append_sorted (first second : List Vms.Entry) :
    sortEntries (first ++ sortEntries second) = sortEntries (first ++ second) :=
  Stable.insertionSort_append_sorted (Before Vms.Entry.start Vms.Entry.epoch) first second

/-! ## Manifests that a repair leaves as they are -/

section Settled

variable {around : Around} {disk disk' : Disk} {unit : String}

def overEntries (around : Around) (unit : String) : List Vms.Entry := ((over_ around unit).map Prod.snd).map .events

/-- One media line for each segment, one line for each bucket that is over, in their order. -/
structure Settled (around : Around) (disk : Disk) (unit : String) : Prop where
  nodup : (mediaPaths disk unit).Nodup
  inside : ∀ path, path ∈ mediaPaths disk unit ↔ Archived disk unit path
  lines : disk.linesOf unit = sortEntries ((disk.linesOf unit).filter isMedia ++ overEntries around unit)

theorem filled_owned : OwnPath Segment.path (filled disk unit) :=
  fill_owned (fun _ _ _ made => lineFor_path made) (ownPath_byPath _ _)

theorem filled_covers (walked : Walked disk unit) {path : String} (archived : Archived disk unit path) :
    path ∈ (filled disk unit).map Prod.fst := by
  have inside := (walked.inside path).mpr archived
  obtain ⟨parsed, there⟩ := Option.isSome_iff_exists.mp (Dict.mem_keys.mp inside)
  obtain ⟨file, stored⟩ := Option.isSome_iff_exists.mp archived.1
  rw [Dict.mem_keys, filled, fill_get? walked.nodup, there, Option.bind_some, lineFor, stored]
  cases (byPath Segment.path (mediaOf disk unit)).get? path <;> rfl

theorem mem_kept (walked : Walked disk unit) {path : String} :
    path ∈ ((kept disk unit).map Prod.snd).map Segment.path ↔ Archived disk unit path := by
  rw [kept, kept_paths filled_owned, List.mem_filter, ← Dict.mem_keys, walked.inside]
  exact ⟨And.right, fun archived => ⟨filled_covers walked archived, archived⟩⟩

/-- A manifest that a repair has written. -/
theorem settled_of_rebuilt (walked : Walked disk unit) (archive : disk'.archive = disk.archive)
    (lines : disk'.linesOf unit = rebuilt around disk unit) : Settled around disk' unit := by
  have paths : (mediaPaths disk' unit).Perm (((kept disk unit).map Prod.snd).map Segment.path) := by
    rw [mediaPaths, lines]
    exact (media_sortEntries _ _).map _
  refine ⟨?_, fun path => ?_, ?_⟩
  · rw [paths.nodup_iff, kept, kept_paths filled_owned]
    exact filled_owned.nodup.filter _
  · rw [paths.mem_iff, mem_kept walked, Archived.of_same archive]
  · rw [lines, rebuilt, sortEntries_filter, List.filter_append, filter_media, filter_events, List.append_nil,
      sortEntries_sorted_append]
    rfl

theorem missing_eq_zero {α β : Type} {first : Dict α} {second : Dict β}
    (inside : ∀ key ∈ first.map Prod.fst, key ∈ second.map Prod.fst) : missing first second = 0 := by
  rw [missing, List.length_eq_zero_iff, List.filter_eq_nil_iff]
  intro entry member
  have there := Dict.mem_keys.mp (inside entry.1 (List.mem_map_of_mem member))
  rw [Option.isNone_iff_eq_none]
  exact Option.isSome_iff_ne_none.mp there

theorem Settled.byPath_media (settled : Settled around disk unit) :
    byPath Segment.path (mediaOf disk unit) = (mediaOf disk unit).map fun segment => (segment.path, segment) :=
  byPath_of_nodup _ settled.nodup

theorem Settled.keys_byPath (settled : Settled around disk unit) :
    (byPath Segment.path (mediaOf disk unit)).map Prod.fst = mediaPaths disk unit := by
  rw [settled.byPath_media, List.map_map]
  rfl

theorem Settled.filled (settled : Settled around disk unit) (walked : Walked disk unit) :
    filled disk unit = byPath Segment.path (mediaOf disk unit) := by
  refine fill_of_covered fun path inside => ?_
  rw [← Dict.mem_keys, settled.keys_byPath, settled.inside]
  exact (walked.inside path).mp inside

theorem Settled.kept (settled : Settled around disk unit) (walked : Walked disk unit) :
    kept disk unit = byPath Segment.path (mediaOf disk unit) := by
  rw [ExactRepair.kept, settled.filled walked]
  refine List.filter_eq_self.mpr fun entry member => ?_
  rw [← Dict.mem_keys, walked.inside, ← settled.inside, ← settled.keys_byPath]
  exact List.mem_map_of_mem member

theorem Settled.rebuilt (settled : Settled around disk unit) (walked : Walked disk unit) :
    rebuilt around disk unit = disk.linesOf unit := by
  have values : (byPath Segment.path (mediaOf disk unit)).map Prod.snd = mediaOf disk unit := by
    rw [settled.byPath_media, List.map_map]
    exact List.map_id _
  rw [ExactRepair.rebuilt, settled.kept walked, values, mediaOf, media_filter]
  exact settled.lines.symm

theorem events_sortEntries (segs : List Segment) (past : List Bucket) :
    ((sortEntries (segs.map .media ++ past.map .events)).filterMap Vms.Entry.events?).Perm past := by
  have events : (segs.map Vms.Entry.media ++ past.map Vms.Entry.events).filterMap Vms.Entry.events? = past := by
    rw [List.filterMap_append, List.filterMap_map, List.filterMap_map]
    have first : Vms.Entry.events? ∘ Vms.Entry.media = fun _ => none := rfl
    have second : Vms.Entry.events? ∘ Vms.Entry.events = some := rfl
    rw [first, second]
    simp
  have sorted := (List.perm_insertionSort (Before Vms.Entry.start Vms.Entry.epoch)
    (segs.map Vms.Entry.media ++ past.map Vms.Entry.events)).filterMap Vms.Entry.events?
  rwa [events] at sorted

/-- The bucket lines are those of the buckets that are over. -/
theorem Settled.events (settled : Settled around disk unit) :
    (eventsOf disk unit).Perm ((over_ around unit).map Prod.snd) := by
  rw [eventsOf, settled.lines, ← media_filter]
  exact events_sortEntries _ _

theorem over_owned : OwnPath Bucket.path (over_ around unit) := ownPath_byPath _ _

theorem Settled.keys_over (settled : Settled around disk unit) {key : String} :
    key ∈ (byPath Bucket.path (eventsOf disk unit)).map Prod.fst ↔ key ∈ (over_ around unit).map Prod.fst := by
  rw [mem_byPath, ← over_owned.keys]
  exact (settled.events.map Bucket.path).mem_iff

theorem Settled.counts (settled : Settled around disk unit) (walked : Walked disk unit) :
    countsOf around disk unit = (0, 0) := by
  have here (path : String) : path ∈ (hereOf disk unit).map Prod.fst ↔
      path ∈ (byPath Segment.path (mediaOf disk unit)).map Prod.fst := by
    rw [walked.inside, settled.keys_byPath, settled.inside]
  rw [countsOf, settled.filled walked, missing_eq_zero fun path => (here path).mp,
    missing_eq_zero fun path => settled.keys_over.mpr, missing_eq_zero fun path => (here path).mpr,
    missing_eq_zero fun path => settled.keys_over.mp]

end Settled

/-! ## A whole repair -/

section Repair

variable {sameDevice : Bool} {around : Around} {disk disk' disk'' : Disk} {unit : String}

/-- Only manifests have changed, and time has passed. -/
structure Frame (disk disk' : Disk) : Prop where
  spool : disk'.spool = disk.spool
  archive : disk'.archive = disk.archive
  units : disk'.units = disk.units
  around : disk'.around = disk.around

theorem Frame.trans (first : Frame disk disk') (second : Frame disk' disk'') : Frame disk disk'' :=
  ⟨second.spool.trans first.spool, second.archive.trans first.archive, second.units.trans first.units,
    second.around.trans first.around⟩

theorem Frame.named (frame : Frame disk disk') (named : ∀ path file, disk.archive.read path = some file → Named path) :
    ∀ path file, disk'.archive.read path = some file → Named path := by
  intro path file stored
  rw [frame.archive] at stored
  exact named path file stored

theorem rebuilt_congr (archive : disk'.archive = disk.archive) (lines : disk'.linesOf unit = disk.linesOf unit) :
    rebuilt around disk' unit = rebuilt around disk unit := by
  have here : hereOf disk' unit = hereOf disk unit := by rw [hereOf, filesOf, archive]; rfl
  have media : mediaOf disk' unit = mediaOf disk unit := by rw [mediaOf, lines]; rfl
  rw [rebuilt, kept, filled, here, media, lineFor_of_same archive]
  rfl

theorem Settled.congr (settled : Settled around disk unit) (archive : disk'.archive = disk.archive)
    (lines : disk'.linesOf unit = disk.linesOf unit) : Settled around disk' unit := by
  have paths : mediaPaths disk' unit = mediaPaths disk unit := by rw [mediaPaths, lines]; rfl
  refine ⟨paths ▸ settled.nodup, fun path => ?_, ?_⟩
  · rw [paths, settled.inside, Archived.of_same archive]
  · rw [lines]
    exact settled.lines

/-- What a repair of these cameras does. -/
structure Rebuilds (around : Around) (disk disk' : Disk) (cams : List Int) : Prop where
  frame : Frame disk disk'
  fresh : FreshInodes disk'
  lines : ∀ cam ∈ cams, disk'.linesOf (toString cam) = rebuilt around disk (toString cam)
  others : ∀ unit, unit ∉ cams.map toString → disk'.linesOf unit = disk.linesOf unit

theorem repairRounds_rebuilds (stands : Stands around disk) (fresh : FreshInodes disk)
    (named : ∀ path file, disk.archive.read path = some file → Named path) (cams : List Int) (counts : Nat × Nat) :
    Alone sameDevice (fun result disk' => (∃ counts', result = .ok counts' ∧
      ((∀ cam ∈ cams, Settled around disk (toString cam)) → counts' = counts)) ∧ Rebuilds around disk disk' cams)
      (repairRounds cams counts) disk := by
  induction cams generalizing counts disk with
  | nil => exact ⟨⟨counts, rfl, fun _ => rfl⟩, ⟨⟨rfl, rfl, rfl, rfl⟩, fresh, nofun, fun _ _ => rfl⟩⟩
  | cons cam rest ih =>
    obtain ⟨added, dropped⟩ := counts
    have here := walked named cam
    apply Safe.bind
    refine Safe.mono ?_ (repairCamera_rebuilds stands here)
    rintro _ middle ⟨rfl, served, written⟩
    have frame : Frame disk middle := by
      rw [written]
      exact ⟨rfl, rfl, rfl, rfl⟩
    have fresh' : FreshInodes ({ disk with served := served } : Disk) := fresh
    have mine : middle.linesOf (toString cam) = rebuilt around disk (toString cam) := by
      rw [written]
      exact linesOf_withManifest_self _ _ _
    have others (unit : String) (differs : unit ≠ toString cam) : middle.linesOf unit = disk.linesOf unit := by
      rw [written]
      exact linesOf_withManifest_other fresh' _ differs
    have settled := settled_of_rebuilt here frame.archive mine
    have stands' : Stands around middle := frame.around.trans stands
    refine Safe.mono ?_ (ih stands' (written ▸ fresh'.withManifest _ _) (frame.named named) _)
    rintro _ disk' ⟨⟨counts', rfl, still⟩, later⟩
    refine ⟨⟨counts', rfl, fun all => ?_⟩,
      ⟨frame.trans later.frame, later.fresh, fun cam' member => ?_, fun unit outside => ?_⟩⟩
    · -- every later camera is settled in the middle too, and this one adds nothing
      have zero := (all cam (.head _)).counts here
      have unchanged (unit : String) : middle.linesOf unit = disk.linesOf unit := by
        by_cases same : unit = toString cam
        · rw [same, mine, (all cam (.head _)).rebuilt here]
        · exact others _ same
      rw [still fun cam' member => (all cam' (.tail _ member)).congr frame.archive (unchanged _)]
      show (added + (countsOf around disk (toString cam)).1, dropped + (countsOf around disk (toString cam)).2) = _
      rw [zero]
      rfl
    · by_cases again : toString cam' ∈ rest.map toString
      · obtain ⟨cam'', inside, same⟩ := List.mem_map.mp again
        rw [← same, later.lines cam'' inside]
        by_cases first : toString cam'' = toString cam
        · rw [first, settled.rebuilt (walked (frame.named named) cam), mine]
        · exact rebuilt_congr frame.archive (others _ first)
      · obtain rfl | inside := List.mem_cons.mp member
        · rw [later.others _ again, mine]
        · exact absurd (List.mem_map_of_mem inside) again
    · rw [List.map_cons, List.mem_cons, not_or] at outside
      rw [later.others unit outside.2, others unit outside.1]

/-- The directories of the cameras. -/
def Camera (disk : Disk) (unit : String) : Prop := unit ∈ disk.units ∧ isDigits unit = true

/-- An archive tree of well-named files at one moment. -/
structure Tree (around : Around) (disk : Disk) : Prop where
  stands : Stands around disk
  fresh : FreshInodes disk
  numbered : Numbered disk
  named : ∀ path file, disk.archive.read path = some file → Named path
  placed : ∀ path, (disk.archive.read path).isSome → Canonical path → unitIn path ∈ disk.units

theorem Tree.frame (tree : Tree around disk) (frame : Frame disk disk') (fresh : FreshInodes disk') :
    Tree around disk' where
  stands := frame.around.trans tree.stands
  fresh := fresh
  numbered unit inside := tree.numbered unit (frame.units ▸ inside)
  named := frame.named tree.named
  placed path there := by
    rw [frame.archive] at there
    rw [frame.units]
    exact tree.placed path there

/-- The directory of a segment is a camera's. -/
theorem Tree.camera (tree : Tree around disk) {path : String} (there : (disk.archive.read path).isSome)
    (segment : Canonical path) : Camera disk (unitIn path) := by
  obtain ⟨_, _, _, parsed, -⟩ := id segment
  obtain ⟨_, _, _, -, digits, -⟩ := parse_inv parsed
  exact ⟨tree.placed path there segment, digits⟩

theorem Tree.walked (tree : Tree around disk) (camera : Camera disk unit) : Walked disk unit := by
  obtain ⟨cam, rfl⟩ := tree.numbered unit camera.1 camera.2
  exact ExactRepair.walked tree.named cam

theorem repair_rebuilds (tree : Tree around disk) :
    Alone sameDevice (fun result disk' => (∃ counts, result = .ok counts ∧
      ((∀ unit, Camera disk unit → Settled around disk unit) → counts = (0, 0))) ∧ Frame disk disk' ∧
      Tree around disk' ∧
      (∀ unit, Camera disk unit → disk'.linesOf unit = rebuilt around disk unit) ∧
      ∀ unit, ¬ Camera disk unit → disk'.linesOf unit = disk.linesOf unit) repair disk := by
  refine Alone.bind (cameras_alone tree.numbered) ?_
  rintro cams _ ⟨⟨served, rfl⟩, all⟩
  have stands : Stands around ({ disk with served := served } : Disk) := tree.stands
  refine Safe.mono ?_ (repairRounds_rebuilds stands tree.fresh tree.named cams (0, 0))
  rintro _ disk' ⟨⟨counts, rfl, still⟩, rebuilds⟩
  have frame : Frame disk disk' :=
    ⟨rebuilds.frame.spool, rebuilds.frame.archive, rebuilds.frame.units, rebuilds.frame.around⟩
  refine ⟨⟨counts, rfl, fun settled => still fun cam member => ?_⟩, frame, tree.frame frame rebuilds.fresh,
    fun unit camera => ?_, fun unit outside => ?_⟩
  · exact (settled _ ((all _).mp ⟨cam, member, rfl⟩)).congr rfl rfl
  · obtain ⟨cam, member, rfl⟩ := (all unit).mpr camera
    rw [rebuilds.lines cam member]
    exact rebuilt_congr rfl rfl
  · refine rebuilds.others unit fun listed => outside ?_
    obtain ⟨cam, member, rfl⟩ := List.mem_map.mp listed
    exact (all _).mp ⟨cam, member, rfl⟩

/-- The same files, and the same lines in every manifest. -/
structure Unchanged (disk disk' : Disk) : Prop where
  spool : disk'.spool = disk.spool
  archive : disk'.archive = disk.archive
  units : disk'.units = disk.units
  lines : ∀ unit, disk'.linesOf unit = disk.linesOf unit

/-- A repair changes nothing in manifests that are as it writes them. -/
theorem repair_settled (tree : Tree around disk) (settled : ∀ unit, Camera disk unit → Settled around disk unit) :
    Alone sameDevice (fun result disk' => result = .ok (0, 0) ∧ Unchanged disk disk') repair disk := by
  refine Safe.mono ?_ (repair_rebuilds tree)
  rintro _ disk' ⟨⟨counts, rfl, still⟩, frame, -, lines, others⟩
  rw [still settled]
  refine ⟨rfl, frame.spool, frame.archive, frame.units, fun unit => ?_⟩
  by_cases camera : Camera disk unit
  · rw [lines unit camera, (settled unit camera).rebuilt (tree.walked camera)]
  · exact others unit camera

end Repair

/-! ## What a repair leaves -/

section Exact

variable {around : Around} {disk disk' : Disk} {unit : String}

/-- The line of a file: the one it had, of several the last, or one read off the file. -/
def lineOf (disk : Disk) (path : String) : Option Segment :=
  (((mediaOf disk (unitIn path)).filter fun segment => segment.path = path).getLast?).or
    (match parse path with
      | .ok (some parsed) => lineFor disk path parsed
      | .ok none | .error _ => none)

/-- The manifests that a repair leaves. -/
structure Exact (around : Around) (disk disk' : Disk) : Prop where
  sorted : ∀ unit, Camera disk unit → (disk'.linesOf unit).Pairwise (Before Vms.Entry.start Vms.Entry.epoch)
  media : ∀ path, (disk.archive.read path).isSome → Canonical path → ∃ segment, lineOf disk path = some segment ∧
    (mediaOf disk' (unitIn path)).filter (fun line => line.path = path) = [segment]
  gone : ∀ unit, Camera disk unit → ∀ line ∈ mediaOf disk' unit, Archived disk unit line.path
  events : ∀ unit, Camera disk unit → ∀ path, (eventsOf disk' unit).filter (fun line => line.path = path) =
    (((around.buckets unit).filter fun bucket => bucket.end_ ≤ around.wall).filter
      fun bucket => bucket.path = path).getLast?.toList

theorem kept_owned : OwnPath Segment.path (kept disk unit) :=
  ⟨fun entry member => filled_owned.own entry (List.mem_of_mem_filter member),
    (List.filter_sublist.map Prod.fst).nodup filled_owned.nodup⟩

/-- The media lines of a rebuilt manifest. -/
theorem media_rebuilt (lines : disk'.linesOf unit = rebuilt around disk unit) :
    (mediaOf disk' unit).Perm ((kept disk unit).map Prod.snd) := by
  rw [mediaOf, lines]
  exact media_sortEntries _ _

theorem events_rebuilt (lines : disk'.linesOf unit = rebuilt around disk unit) :
    (eventsOf disk' unit).Perm ((over_ around unit).map Prod.snd) := by
  rw [eventsOf, lines]
  exact events_sortEntries _ _

/-- What stands under a path is the only line with that path. -/
theorem filter_of_owned {α : Type} {path : α → String} {dict : Dict α} (owned : OwnPath path dict) {lines : List α}
    (same : lines.Perm (dict.map Prod.snd)) (key : String) :
    lines.filter (fun line => path line = key) = (dict.get? key).toList := by
  have perm := same.filter fun line => path line = key
  rw [owned.filter_values] at perm
  cases found : dict.get? key with
  | none =>
    rw [found] at perm
    exact List.perm_nil.mp perm
  | some item =>
    rw [found] at perm
    exact List.perm_singleton.mp perm

theorem kept_get? (walked : Walked disk unit) {path : String} (archived : Archived disk unit path) :
    ∃ segment, lineOf disk path = some segment ∧ (kept disk unit).get? path = some segment := by
  have inside := (walked.inside path).mpr archived
  obtain ⟨parsed, there⟩ := Option.isSome_iff_exists.mp (Dict.mem_keys.mp inside)
  have read : parse path = .ok (some parsed) := walked.read (path, parsed) (Dict.mem_of_get? there)
  have line : (filled disk unit).get? path = lineOf disk path := by
    rw [filled, fill_get? walked.nodup, there, Option.bind_some, get?_byPath, lineOf, archived.2.2, read]
  obtain ⟨segment, stands⟩ := Option.isSome_iff_exists.mp (Dict.mem_keys.mp (filled_covers walked archived))
  refine ⟨segment, line ▸ stands, ?_⟩
  rw [kept, Dict.get?_filter fun key => ((hereOf disk unit).get? key).isSome, there, stands]
  rfl

theorem exact_of_rebuilt (tree : Tree around disk)
    (lines : ∀ unit, Camera disk unit → disk'.linesOf unit = rebuilt around disk unit) : Exact around disk disk' := by
  refine ⟨fun unit camera => ?_, fun path there segment => ?_, fun unit camera line member => ?_,
    fun unit camera path => ?_⟩
  · rw [lines unit camera]
    exact sortEntries_sorted _
  · have camera := tree.camera there segment
    obtain ⟨line, same, stands⟩ := kept_get? (tree.walked camera) ⟨there, segment, rfl⟩
    refine ⟨line, same, ?_⟩
    rw [filter_of_owned kept_owned (media_rebuilt (lines _ camera)), stands]
    rfl
  · have kept := (media_rebuilt (lines unit camera)).mem_iff.mp member
    exact (mem_kept (tree.walked camera)).mp (List.mem_map_of_mem kept)
  · rw [filter_of_owned over_owned (events_rebuilt (lines unit camera)), over_, get?_byPath]

end Exact

end EdgeVms.Verified.ExactRepair
