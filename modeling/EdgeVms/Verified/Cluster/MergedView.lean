import EdgeVms.Cluster.Timeline
import EdgeVms.Python.Reread

/-! # The timeline over HTTP and the timeline of the archive

The console and the archive read the same manifests.  The archive passes over the
lines of the kind that it does not want; the console reads each line as a segment, and
a manifest with an event bucket in it cannot be read that way.
-/

namespace EdgeVms.Verified.MergedView

open Python Cluster Timeline
open Vms.Manifest (Media Events Line Shelf manifestPath object content linesOf)

/-! ## The text of a manifest -/

section Cut

variable {isEnd : Char → Bool} {kept : List Char}

theorem cut_line (ends : isEnd '\n' = true) {line : List Char} (clear : ∀ c ∈ line, isEnd c = false ∧ c ≠ '\r')
    (rest : List Char) : cut isEnd kept (line ++ '\n' :: rest) = (line ++ kept) :: cut isEnd kept rest := by
  induction line with
  | nil =>
    show cut isEnd kept ('\n' :: rest) = _
    rw [cut, if_pos ends]
    · rfl
    · nofun
  | cons c line ih =>
    obtain ⟨⟨inside, carriage⟩, clear⟩ := List.forall_mem_cons.mp clear
    rw [List.cons_append, cut, if_neg (Bool.eq_false_iff.mp inside), ih clear]
    · rfl
    · exact fun _ same => absurd same carriage

theorem cut_lines (ends : isEnd '\n' = true) {lines : List (List Char)}
    (clear : ∀ line ∈ lines, ∀ c ∈ line, isEnd c = false ∧ c ≠ '\r') :
    cut isEnd kept (lines.flatMap (· ++ ['\n'])) = lines.map (· ++ kept) := by
  induction lines with
  | nil => rw [List.flatMap_nil, cut, List.map_nil]
  | cons line lines ih =>
    obtain ⟨first, clear⟩ := List.forall_mem_cons.mp clear
    rw [List.flatMap_cons, List.append_assoc, List.singleton_append, cut_line ends first, ih clear, List.map_cons]

theorem splitLines_line {line : List Char} (clear : ∀ c ∈ line, c ≠ '\n' ∧ c ≠ '\r') (rest : List Char) :
    Json.splitLines (line ++ '\n' :: rest) = line :: Json.splitLines rest := by
  induction line with
  | nil =>
    show Json.splitLines ('\n' :: rest) = _
    rw [Json.splitLines, if_pos (.inl rfl)]
    nofun
  | cons c line ih =>
    obtain ⟨⟨newline, carriage⟩, clear⟩ := List.forall_mem_cons.mp clear
    rw [List.cons_append, Json.splitLines, if_neg (not_or.mpr ⟨newline, carriage⟩), ih clear]
    exact fun _ same => absurd same carriage

theorem splitLines_lines {lines : List (List Char)} (clear : ∀ line ∈ lines, ∀ c ∈ line, c ≠ '\n' ∧ c ≠ '\r') :
    Json.splitLines (lines.flatMap (· ++ ['\n'])) = lines ++ [[]] := by
  induction lines with
  | nil => rw [List.flatMap_nil, Json.splitLines, List.nil_append]
  | cons line lines ih =>
    obtain ⟨first, clear⟩ := List.forall_mem_cons.mp clear
    rw [List.flatMap_cons, List.append_assoc, List.singleton_append, splitLines_line first, ih clear, List.cons_append]

end Cut

/-- The text of a line is an object. -/
theorem text_eq (line : Line) : ∃ entries, line.text = Json.dumps (.dict entries) := by
  cases line with
  | media line => exact ⟨_, rfl⟩
  | events line => exact ⟨_, rfl⟩

theorem printable_text (line : Line) : ∀ c ∈ line.text, Json.Printable c := by
  obtain ⟨entries, same⟩ := text_eq line
  rw [same]
  exact Json.printable_dumps _

theorem printable_clear {c : Char} (printable : Json.Printable c) : isLineEnd c = false ∧ c ≠ '\n' ∧ c ≠ '\r' := by
  obtain ⟨above, below⟩ := printable
  refine ⟨?_, ?_, ?_⟩
  · simp [isLineEnd]
    omega
  · rintro rfl
    exact absurd above (by decide)
  · rintro rfl
    exact absurd above (by decide)

theorem full_text (line : Line) (more : List Char) : full (line.text ++ more) = true := by
  obtain ⟨entries, same⟩ := text_eq line
  rw [same, Json.dumps]
  rfl

/-! ## A line, read -/

def segmentIn (line : Media) : Segment :=
  ⟨line.cam, line.epoch, Json.shownFloat line.start, Json.shownFloat line.end_, .str (.plain line.path), line.bytes⟩

def bucketIn (line : Events) : Bucket :=
  ⟨Json.shown line.subsystem, .plain line.unit.string, line.epoch, Json.shownFloat line.start,
    Json.shownFloat line.end_, .str (.plain line.path), line.events⟩

def mediaFields (line : Media) : Dict Value :=
  [("kind", .str (.plain "media")), ("cam", .int line.cam), ("epoch", .int line.epoch),
    ("start", .float (Json.shownFloat line.start)), ("end", .float (Json.shownFloat line.end_)),
    ("path", .str (.plain line.path)), ("bytes", .int line.bytes)]

def eventsFields (line : Events) : Dict Value :=
  [("kind", .str (.plain "events")), ("subsystem", Json.shown line.subsystem), ("unit", .str (.plain line.unit.string)),
    ("epoch", .int line.epoch), ("start", .float (Json.shownFloat line.start)),
    ("end", .float (Json.shownFloat line.end_)), ("path", .str (.plain line.path)), ("events", .int line.events)]

theorem loads_media (line : Media) : Json.loads (Line.media line).text = .ok (.dict (mediaFields line)) := by
  rw [Line.text, Json.loads_dumps]
  simp [Json.shown, Json.shownEntries, Dict.set, mediaFields, Text.string]

theorem loads_events (line : Events) :
    Json.loads (Line.events line).text = .ok (.dict (eventsFields line)) := by
  rw [Line.text, Json.loads_dumps]
  simp [Json.shown, Json.shownEntries, Dict.set, eventsFields, Text.string]

theorem segmentOf_media (line : Media) : segmentOf (mediaFields line) = .ok (segmentIn line) := by
  rfl

theorem segmentOf_events (line : Events) : segmentOf (eventsFields line) = .error (.keyError "cam") := by
  rfl

theorem bucketOf_events (line : Events) : bucketOf (eventsFields line) = .ok (bucketIn line) := by
  rfl

theorem fromLine_media (line : Media) : Segment.fromLine (Line.media line).text = .ok (segmentIn line) := by
  rw [Segment.fromLine, loads_media]
  exact segmentOf_media line

/-- A bucket has no camera. -/
theorem fromLine_events (line : Events) : Segment.fromLine (Line.events line).text = .error (.keyError "cam") := by
  rw [Segment.fromLine, loads_events]
  exact segmentOf_events line

def segmentAt : Line → Option Segment
  | .media line => some (segmentIn line)
  | .events _ => none

def bucketAt : Line → Option Bucket
  | .media _ => none
  | .events line => some (bucketIn line)

theorem media?_text (line : Line) : media? line.text = .ok (segmentAt line) := by
  cases line with
  | media line =>
    rw [media?, object, loads_media]
    rfl
  | events line =>
    rw [media?, object, loads_events]
    rfl

theorem events?_text (line : Line) : events? line.text = .ok (bucketAt line) := by
  cases line with
  | media line =>
    rw [events?, object, loads_media]
    rfl
  | events line =>
    rw [events?, object, loads_events]
    rfl

/-! ## An archive -/

/-- An archive whose manifests have the lines that have been written there. -/
structure Tree extends Shelf where
  lines : Int → List Line
  written : ∀ cam, ((files.read (manifestPath (toString cam))).map Vms.File.bytes).getD [] = content (lines cam)

variable (tree : Tree) (cam : Int)

def texts : List (List Char) := (tree.lines cam).map Line.text

theorem content_texts : content (tree.lines cam) = Json.encode ((texts tree cam).flatMap (· ++ ['\n'])) := by
  rw [content, texts, List.flatMap_map]

theorem clear_texts : ∀ line ∈ texts tree cam, ∀ c ∈ line, isLineEnd c = false ∧ c ≠ '\n' ∧ c ≠ '\r' := by
  intro line member c inside
  obtain ⟨line, -, rfl⟩ := List.mem_map.mp member
  exact printable_clear (printable_text line c inside)

theorem full_texts (more : List Char) : ∀ line ∈ texts tree cam, full (line ++ more) = true := by
  intro line member
  obtain ⟨line, -, rfl⟩ := List.mem_map.mp member
  exact full_text line more

/-- A file that is not there has no lines. -/
theorem texts_of_absent (absent : tree.files.read (manifestPath (toString cam)) = none) : texts tree cam = [] := by
  have empty := tree.written cam
  rw [absent, content_texts] at empty
  have read := Json.decode_encode ((texts tree cam).flatMap (· ++ ['\n']))
  rw [← empty] at read
  have none_ : (texts tree cam).flatMap (· ++ ['\n']) = [] := (Except.ok.inj read).symm
  rw [List.flatMap_eq_nil_iff] at none_
  refine List.eq_nil_iff_forall_not_mem.mpr fun line member => ?_
  simpa using none_ line member

/-- The bytes of a manifest that is there. -/
theorem bytes_of_stored {file : Vms.File} (stored : tree.files.read (manifestPath (toString cam)) = some file) :
    Json.decode file.bytes = .ok ((texts tree cam).flatMap (· ++ ['\n'])) := by
  have written := tree.written cam
  rw [stored, content_texts] at written
  have bytes : file.bytes = Json.encode ((texts tree cam).flatMap (· ++ ['\n'])) := written
  rw [bytes, Json.decode_encode]

theorem filter_full (more : List Char) :
    ((texts tree cam).map (· ++ more)).filter full = (texts tree cam).map (· ++ more) := by
  refine List.filter_eq_self.mpr fun line member => ?_
  obtain ⟨text, inside, rfl⟩ := List.mem_map.mp member
  exact full_texts tree cam more text inside

theorem linesOf_tree : linesOf tree.toShelf (toString cam) = .ok (texts tree cam) := by
  rw [linesOf]
  cases stored : tree.files.read (manifestPath (toString cam)) with
  | none => exact congrArg Except.ok (texts_of_absent tree cam stored).symm
  | some file =>
    show Json.linesOf file.bytes = _
    rw [Json.linesOf, bytes_of_stored tree cam stored]
    show Except.ok ((Json.splitLines _).filter full) = _
    have all := filter_full tree cam []
    simp only [List.append_nil, List.map_id'] at all
    rw [splitLines_lines fun line member c inside => (clear_texts tree cam line member c inside).2,
      List.filter_append, all, List.filter_cons_of_neg (by decide), List.filter_nil, List.append_nil]

theorem keptLines_tree : keptLines tree.toShelf cam = .ok ((texts tree cam).map (· ++ ['\n'])) := by
  rw [keptLines]
  cases stored : tree.files.read (manifestPath (toString cam)) with
  | none =>
    rw [texts_of_absent tree cam stored]
    rfl
  | some file =>
    show (fun text => (fileLines text).filter full) <$> Json.decode file.bytes = _
    rw [bytes_of_stored tree cam stored]
    show Except.ok ((fileLines _).filter full) = _
    rw [fileLines, cut_lines (by decide), filter_full]
    intro line member c inside
    obtain ⟨-, newline, carriage⟩ := clear_texts tree cam line member c inside
    exact ⟨by simp [newline, carriage], carriage⟩

theorem mapM_texts {β : Type} {f : List Char → Except Error β} {g : Line → β}
    (each : ∀ line : Line, f line.text = .ok (g line)) :
    (texts tree cam).mapM f = .ok ((tree.lines cam).map g) := by
  rw [texts]
  induction tree.lines cam with
  | nil => rfl
  | cons line lines ih =>
    rw [List.map_cons, List.mapM_cons, each, ih]
    rfl

theorem read_tree : Timeline.read tree.toShelf cam = .ok ((tree.lines cam).filterMap segmentAt) := by
  rw [Timeline.read, linesOf_tree]
  show (do
    let found ← (texts tree cam).mapM media?
    return found.filterMap id) = _
  rw [mapM_texts tree cam media?_text]
  show Except.ok (((tree.lines cam).map segmentAt).filterMap id) = _
  rw [List.filterMap_map]
  rfl

theorem buckets_tree : buckets tree.toShelf cam = .ok ((tree.lines cam).filterMap bucketAt) := by
  rw [buckets, linesOf_tree]
  show (do
    let found ← (texts tree cam).mapM events?
    return found.filterMap id) = _
  rw [mapM_texts tree cam events?_text]
  show Except.ok (((tree.lines cam).map bucketAt).filterMap id) = _
  rw [List.filterMap_map]
  rfl

/-! ## Over HTTP -/

theorem lastPart_cam : lastPart ("/manifest/" ++ toString cam) = toString cam := by
  have whole : '/' ∉ (toString cam).toList := not_mem_toString (by decide) (by decide) cam
  have joined : "/manifest/" ++ toString cam = join '/' ["", "manifest", toString cam] := by
    apply String.toList_injective
    rw [String.toList_append, toList_join_cons (by simp), toList_join_cons (by simp)]
    simp [join]
  rw [lastPart, joined, split_join (by simp)]
  · rfl
  · intro part member
    simp only [List.mem_cons, List.not_mem_nil, or_false] at member
    obtain rfl | rfl | rfl := member
    · decide
    · decide
    · exact whole

theorem manifestRoute_tree : manifestRoute tree.toShelf ("/manifest/" ++ toString cam) =
    .ok (some (200, Json.encode ((texts tree cam).flatMap (· ++ ['\n'])))) := by
  have cams : (Text.plain (toString cam)).toInt = .ok cam := Text.toInt_repr cam
  rw [manifestRoute, if_pos, lastPart_cam, cams]
  · show (do
      let lines ← keptLines tree.toShelf cam
      return some (200, Json.encode lines.flatten)) = _
    rw [keptLines_tree, List.flatMap_def]
    rfl
  · rw [String.toList_append, List.isPrefixOf_iff_prefix]
    exact List.prefix_append _ _

/-- What the console makes of the answer: each line is to be a segment. -/
theorem readManifest_tree {net : Network} {url : String} (up : net url = some tree.toShelf) :
    readManifest net url cam = ((texts tree cam).mapM Segment.fromLine).toOption := by
  have all := filter_full tree cam []
  simp only [List.append_nil, List.map_id'] at all
  have lines : splitlines ((texts tree cam).flatMap (· ++ ['\n'])) = texts tree cam := by
    rw [splitlines, cut_lines (by decide)]
    · simp
    · intro line member c inside
      obtain ⟨plain, -, carriage⟩ := clear_texts tree cam line member c inside
      exact ⟨plain, carriage⟩
  rw [readManifest, up]
  show (do
    let answer ← (← (manifestRoute tree.toShelf ("/manifest/" ++ toString cam)).toOption)
    (do
      ((splitlines (← Json.decode answer.2)).filter full).mapM Segment.fromLine : Except Error (List Segment)).toOption) = _
  rw [manifestRoute_tree]
  show (do
    ((splitlines (← Json.decode _)).filter full).mapM Segment.fromLine : Except Error (List Segment)).toOption = _
  rw [Json.decode_encode]
  show (((splitlines _).filter full).mapM Segment.fromLine).toOption = _
  rw [lines, all]

/-- No event bucket has been closed into the manifest. -/
def Bare : Prop := (tree.lines cam).filterMap Line.events? = []

theorem readManifest_bare {net : Network} {url : String} (up : net url = some tree.toShelf) (bare : Bare tree cam) :
    readManifest net url cam = some ((tree.lines cam).filterMap segmentAt) := by
  have each : ∀ lines : List Line, lines.filterMap Line.events? = [] →
      (lines.map Line.text).mapM Segment.fromLine = .ok (lines.filterMap segmentAt) := by
    intro lines
    induction lines with
    | nil => exact fun _ => rfl
    | cons line lines ih =>
      intro bare
      cases line with
      | media line =>
        rw [List.map_cons, List.mapM_cons, fromLine_media, ih bare]
        rfl
      | events line => cases bare
  rw [readManifest_tree tree cam up, texts, each _ bare]
  rfl

theorem readManifest_events {net : Network} {url : String} (up : net url = some tree.toShelf)
    (events : ¬Bare tree cam) : readManifest net url cam = none := by
  rw [readManifest_tree tree cam up]
  cases read : (texts tree cam).mapM Segment.fromLine with
  | error error => rfl
  | ok segments =>
    refine absurd (List.filterMap_eq_nil_iff.mpr fun line member => ?_) events
    cases line with
    | media line => rfl
    | events line =>
      obtain ⟨segment, decoded⟩ := mapM_ok_iff.mp ⟨segments, read⟩ _ (List.mem_map_of_mem member)
      rw [fromLine_events] at decoded
      cases decoded

/-! ## What each view lists -/

/-- A media segment of a timeline: its span, its path, its epoch, and whether it is fenced. -/
abbrev Footage := Floating × Floating × Value × Int × Bool

def spanFootage (o : Span) : Option Footage :=
  match o.media with
  | .none => none
  | path => some (o.start, o.end_, path, o.epoch, o.fenced)

def rowFootage (row : Row) : Footage := (row.start, row.end_, row.path, row.epoch, row.fenced)

section Window

variable (t0 t1 : Floating) (current : Option Int)

theorem filterMap_modify {α β : Type} {f : α → α} {g : α → Option β} (kept : ∀ a, g (f a) = g a) (xs : List α)
    (i : Nat) : (xs.modify i f).filterMap g = xs.filterMap g := by
  induction xs generalizing i with
  | nil => rw [List.modify_nil]
  | cons x rest ih =>
    cases i with
    | zero => rw [List.modify_zero_cons, List.filterMap_cons, List.filterMap_cons, kept]
    | succ i => rw [List.modify_succ_cons, List.filterMap_cons, List.filterMap_cons, ih]

/-- Buckets count on segments, and add none. -/
theorem bucketRounds_footage (past : List Bucket) (out : List Span) :
    (bucketRounds t0 t1 current past out).filterMap spanFootage = out.filterMap spanFootage := by
  induction past generalizing out with
  | nil => rfl
  | cons b rest ih =>
    unfold bucketRounds
    split
    next =>
      split
      next hit found =>
        refine (ih _).trans (filterMap_modify (fun o => ?_) out hit)
        rfl
      next =>
        rw [ih, List.filterMap_append]
        exact List.append_nil _
    next => exact ih out

theorem sortSpans_perm (spans : List Span) : (sortSpans spans).Perm spans := List.perm_insertionSort _ spans

theorem sortRows_perm (rows : List Row) : (sortRows rows).Perm rows := List.perm_insertionSort _ rows

def footageOf (segments : List Segment) : List Footage :=
  (segments.filter fun s => inside t0 t1 s.start s.end_).map fun s =>
    (s.start, s.end_, s.path, s.epoch, fenced current s.epoch)

theorem mediaSpans_footage (lines : List Line) :
    (mediaSpans t0 t1 current (lines.filterMap segmentAt)).filterMap spanFootage =
      footageOf t0 t1 current (lines.filterMap segmentAt) := by
  rw [mediaSpans, footageOf, List.filterMap_map, ← List.filterMap_eq_map]
  refine List.filterMap_congr fun s member => ?_
  obtain ⟨line, -, at_⟩ := List.mem_filterMap.mp (List.mem_of_mem_filter member)
  cases line with
  | media line =>
    cases at_
    rfl
  | events line => cases at_

/-- The media segments of the archive's own timeline. -/
theorem timeline_tree : ∃ spans, timeline t0 t1 current tree.toShelf cam = .ok spans ∧
    (spans.filterMap spanFootage).Perm (footageOf t0 t1 current ((tree.lines cam).filterMap segmentAt)) := by
  refine ⟨sortSpans (bucketRounds t0 t1 current ((tree.lines cam).filterMap bucketAt)
    (mediaSpans t0 t1 current ((tree.lines cam).filterMap segmentAt))), ?_, ?_⟩
  · rw [timeline, read_tree, buckets_tree]
    rfl
  · refine ((sortSpans_perm _).filterMap spanFootage).trans (.of_eq ?_)
    rw [bucketRounds_footage, mediaSpans_footage]

theorem rowsOf_footage (server : String) (segments : List Segment) :
    (rowsOf t0 t1 current server segments).map rowFootage = footageOf t0 t1 current segments := by
  rw [rowsOf, footageOf, List.map_map]
  rfl

end Window

/-! ## The merge -/

section Merge

variable (net : Network) (t0 t1 : Floating) (current : Option Int) (now lostAfter : ℚ)

/-- The resource is not passed over, and its heartbeat is not too old. -/
structure Asked (cam : Int) (now lostAfter : ℚ) (hb : Heartbeat) : Prop where
  listed : toString cam ∈ hb.units.getD "vms" []
  fresh : now - hb.ts ≤ lostAfter

instance (cam : Int) (now lostAfter : ℚ) (hb : Heartbeat) : Decidable (Asked cam now lostAfter hb) :=
  decidable_of_iff (toString cam ∈ hb.units.getD "vms" [] ∧ now - hb.ts ≤ lostAfter)
    ⟨fun both => ⟨both.1, both.2⟩, fun asked => ⟨asked.listed, asked.fresh⟩⟩

/-- The rows of one resource. -/
def rowsAt (entry : String × Heartbeat) : List Row :=
  if Asked cam now lostAfter entry.2 then
    ((readManifest net entry.2.url cam).map (rowsOf t0 t1 current entry.1)).getD []
  else []

/-- The resource, if it is marked unreachable. -/
def lostAt (entry : String × Heartbeat) : List String :=
  if toString cam ∈ entry.2.units.getD "vms" [] ∧
      (lostAfter < now - entry.2.ts ∨ readManifest net entry.2.url cam = none) then [entry.1]
  else []

theorem mergeRounds_eq (servers : Dict Heartbeat) (segs : List Row) (unreachable : List String) :
    mergeRounds net cam t0 t1 current now lostAfter servers segs unreachable =
      (segs ++ servers.flatMap (rowsAt cam net t0 t1 current now lostAfter),
        unreachable ++ servers.flatMap (lostAt cam net now lostAfter)) := by
  induction servers generalizing segs unreachable with
  | nil => simp [mergeRounds]
  | cons entry rest ih =>
    obtain ⟨server, hb⟩ := entry
    rw [mergeRounds, List.flatMap_cons, List.flatMap_cons, ← List.append_assoc, ← List.append_assoc]
    by_cases listed : toString cam ∈ hb.units.getD "vms" []
    · rw [if_neg (not_not.mpr listed)]
      by_cases stale : lostAfter < now - hb.ts
      · have passed : ¬Asked cam now lostAfter hb := fun asked => absurd stale (not_lt.mpr asked.fresh)
        rw [if_pos stale, ih, rowsAt, if_neg passed, lostAt, if_pos ⟨listed, .inl stale⟩, List.append_nil]
      · have asked : Asked cam now lostAfter hb := ⟨listed, not_lt.mp stale⟩
        rw [if_neg stale]
        cases answer : readManifest net hb.url cam with
        | none =>
          rw [rowsAt, if_pos asked, answer, lostAt, if_pos ⟨listed, .inr answer⟩]
          exact (ih _ _).trans (by simp)
        | some segments =>
          have kept : ¬(lostAfter < now - hb.ts ∨ readManifest net hb.url cam = none) := by simp [answer, asked.fresh]
          rw [rowsAt, if_pos asked, answer, lostAt, if_neg (fun both => kept both.2)]
          exact (ih _ _).trans (by simp)
    · have passed : ¬Asked cam now lostAfter hb := fun asked => listed asked.listed
      rw [if_pos listed, ih, rowsAt, if_neg passed, lostAt, if_neg (fun both => listed both.1), List.append_nil,
        List.append_nil]

/-- All rows of a resource bear its name. -/
theorem server_rowsAt {entry : String × Heartbeat} {row : Row}
    (member : row ∈ rowsAt cam net t0 t1 current now lostAfter entry) : row.server = entry.1 := by
  unfold rowsAt at member
  split at member
  next =>
    cases answer : readManifest net entry.2.url cam with
    | none =>
      rw [answer] at member
      cases member
    | some segments =>
      rw [answer] at member
      obtain ⟨segment, -, rfl⟩ := List.mem_map.mp member
      rfl
  next => cases member

theorem filter_rowsAt_other {entry : String × Heartbeat} {server : String} (apart : entry.1 ≠ server) :
    (rowsAt cam net t0 t1 current now lostAfter entry).filter (fun row => row.server = server) = [] := by
  refine List.filter_eq_nil_iff.mpr fun row member => ?_
  rw [server_rowsAt cam net t0 t1 current now lostAfter member]
  simpa using apart

theorem filter_rowsAt {servers : Dict Heartbeat} (distinct : (servers.map Prod.fst).Nodup) {entry : String × Heartbeat}
    (member : entry ∈ servers) :
    (servers.flatMap (rowsAt cam net t0 t1 current now lostAfter)).filter (fun row => row.server = entry.1) =
      rowsAt cam net t0 t1 current now lostAfter entry := by
  rw [List.filter_flatMap]
  induction servers with
  | nil => cases member
  | cons first rest ih =>
    rw [List.map_cons, List.nodup_cons] at distinct
    rw [List.flatMap_cons]
    obtain rfl | later := List.mem_cons.mp member
    · have own : (rowsAt cam net t0 t1 current now lostAfter entry).filter (fun row => row.server = entry.1) =
          rowsAt cam net t0 t1 current now lostAfter entry :=
        List.filter_eq_self.mpr fun row member =>
          decide_eq_true (server_rowsAt cam net t0 t1 current now lostAfter member)
      have others : rest.flatMap (fun other => (rowsAt cam net t0 t1 current now lostAfter other).filter fun row =>
          row.server = entry.1) = [] := by
        refine List.flatMap_eq_nil_iff.mpr fun other inside => ?_
        refine filter_rowsAt_other cam net t0 t1 current now lostAfter fun same => distinct.1 ?_
        exact same ▸ List.mem_map_of_mem inside
      rw [own, others, List.append_nil]
    · have apart : first.1 ≠ entry.1 := fun same => distinct.1 (same ▸ List.mem_map_of_mem later)
      rw [filter_rowsAt_other cam net t0 t1 current now lostAfter apart, List.nil_append, ih distinct.2 later]

theorem mergedTimeline_segments (resources : Dict Heartbeat) :
    ((mergedTimeline net cam t0 t1 current now lostAfter resources).segments).Perm
      (resources.flatMap (rowsAt cam net t0 t1 current now lostAfter)) := by
  rw [mergedTimeline, mergeRounds_eq]
  have names : (resources.insertionSort fun left right => left.1 ≤ right.1).Perm resources :=
    List.perm_insertionSort _ _
  rw [List.nil_append]
  exact (sortRows_perm _).trans (names.flatMap_right _)

theorem mergedTimeline_unreachable {resources : Dict Heartbeat} {server : String} :
    server ∈ (mergedTimeline net cam t0 t1 current now lostAfter resources).unreachable ↔
      ∃ hb, (server, hb) ∈ resources ∧ toString cam ∈ hb.units.getD "vms" [] ∧
        (lostAfter < now - hb.ts ∨ readManifest net hb.url cam = none) := by
  rw [mergedTimeline, mergeRounds_eq]
  show server ∈ [] ++ List.flatMap _ _ ↔ _
  simp only [List.nil_append, List.mem_flatMap, List.mem_insertionSort]
  constructor
  · rintro ⟨⟨name, hb⟩, inside, lost⟩
    unfold lostAt at lost
    split at lost
    next both =>
      cases List.mem_singleton.mp lost
      exact ⟨hb, inside, both⟩
    next => cases lost
  · rintro ⟨hb, inside, both⟩
    refine ⟨(server, hb), inside, ?_⟩
    rw [lostAt, if_pos both]
    exact List.mem_singleton_self _

end Merge

/-! ## The two views -/

section Views

variable (holds : String → Option Tree) (t0 t1 : Floating) (current : Option Int) (now lostAfter : ℚ)
  (resources : Dict Heartbeat)

/-- The archives that answer at their URLs. -/
def network : Network := fun url => (holds url).map Tree.toShelf

/-- The resource is asked for the manifest, and gives it. -/
structure Answers (cam : Int) (now lostAfter : ℚ) (hb : Heartbeat) (tree : Tree) : Prop where
  asked : Asked cam now lostAfter hb
  up : holds hb.url = some tree

/-- The console lists what each resource that answers would list itself, and misses none of these. -/
structure SameView (merged : MergedTimeline) : Prop where
  listed : ∀ server hb tree, (server, hb) ∈ resources → Answers holds cam now lostAfter hb tree →
    ∃ spans, timeline t0 t1 current tree.toShelf cam = .ok spans ∧
      ((merged.segments.filter fun row => row.server = server).map rowFootage).Perm (spans.filterMap spanFootage)
  only : ∀ row ∈ merged.segments, ∃ hb tree, (row.server, hb) ∈ resources ∧ Answers holds cam now lostAfter hb tree
  unreachable : ∀ server ∈ merged.unreachable, ∀ hb tree, (server, hb) ∈ resources →
    ¬Answers holds cam now lostAfter hb tree

variable {holds t0 t1 current now lostAfter resources cam}

theorem Answers.served {hb : Heartbeat} {tree : Tree} (answers : Answers holds cam now lostAfter hb tree) :
    network holds hb.url = some tree.toShelf := by
  rw [network, answers.up, Option.map_some]

/-- A resource whose manifest has an event bucket is unreachable, though it answers. -/
theorem lost_of_events {server : String} {hb : Heartbeat} {tree : Tree} (member : (server, hb) ∈ resources)
    (answers : Answers holds cam now lostAfter hb tree) (events : ¬Bare tree cam) :
    server ∈ (mergedTimeline (network holds) cam t0 t1 current now lostAfter resources).unreachable :=
  (mergedTimeline_unreachable ..).mpr
    ⟨hb, member, answers.asked.listed, .inr (readManifest_events tree cam answers.served events)⟩

theorem answers_of_rowsAt {entry : String × Heartbeat} {row : Row}
    (member : row ∈ rowsAt cam (network holds) t0 t1 current now lostAfter entry) :
    Asked cam now lostAfter entry.2 ∧ ∃ tree, holds entry.2.url = some tree := by
  unfold rowsAt at member
  split at member
  next asked =>
    refine ⟨asked, ?_⟩
    cases up : holds entry.2.url with
    | some tree => exact ⟨tree, rfl⟩
    | none =>
      rw [readManifest, network, up] at member
      cases member
  next => cases member

theorem sameView_iff_bare (distinct : (resources.map Prod.fst).Nodup) :
    SameView cam holds t0 t1 current now lostAfter resources
      (mergedTimeline (network holds) cam t0 t1 current now lostAfter resources) ↔
    ∀ server hb tree, (server, hb) ∈ resources → Answers holds cam now lostAfter hb tree → Bare tree cam := by
  constructor
  · intro same server hb tree member answers
    by_contra events
    exact same.unreachable server (lost_of_events member answers events) hb tree member answers
  · intro bare
    refine ⟨?_, ?_, ?_⟩
    · intro server hb tree member answers
      obtain ⟨spans, made, footage⟩ := timeline_tree tree cam t0 t1 current
      refine ⟨spans, made, .trans ?_ footage.symm⟩
      have rows := (mergedTimeline_segments cam (network holds) t0 t1 current now lostAfter resources).filter
        fun row => row.server = server
      rw [filter_rowsAt cam (network holds) t0 t1 current now lostAfter distinct member, rowsAt, if_pos answers.asked,
        readManifest_bare tree cam answers.served (bare server hb tree member answers)] at rows
      have mapped := rows.map rowFootage
      rwa [Option.map_some, Option.getD_some, rowsOf_footage] at mapped
    · intro row member
      have rows := mergedTimeline_segments cam (network holds) t0 t1 current now lostAfter resources
      obtain ⟨entry, listed, inside⟩ := List.mem_flatMap.mp (rows.mem_iff.mp member)
      rw [server_rowsAt cam (network holds) t0 t1 current now lostAfter inside]
      obtain ⟨asked, tree, up⟩ := answers_of_rowsAt inside
      exact ⟨entry.2, tree, listed, asked, up⟩
    · intro server lost hb tree member answers
      obtain ⟨hb', member', -, silent⟩ := (mergedTimeline_unreachable ..).mp lost
      have same : hb' = hb := Option.some.inj ((Dict.get?_of_mem distinct member').symm.trans
        (Dict.get?_of_mem distinct member))
      rw [same, readManifest_bare tree cam answers.served (bare server hb tree member answers)] at silent
      obtain stale | none_ := silent
      · exact absurd stale (not_lt.mpr answers.asked.fresh)
      · cases none_

end Views

/-! ## An hour with an event in it -/

/-- An archive with one manifest. -/
def Tree.single (cam : Int) (lines : List Line) : Tree where
  files := (Process.Versioned.empty 0).write (manifestPath (toString cam)) ⟨content lines, 0⟩
  units := [toString cam]
  nodup := List.nodup_singleton _
  lines other := if other = cam then lines else []
  written other := by
    by_cases same : other = cam
    · rw [same, Process.Versioned.read_write_self, if_pos rfl]
      rfl
    · have apart : manifestPath (toString other) ≠ manifestPath (toString cam) := by
        intro equal
        rw [manifestPath, manifestPath, ← String.toList_inj, String.toList_append, String.toList_append,
          String.toList_append, String.toList_append] at equal
        have names := List.append_cancel_left (List.append_cancel_right equal)
        exact same (toString_inj (String.toList_injective names))
      rw [if_neg same, Process.Versioned.read_write_other _ _ apart, content, Json.encode_eq]
      rfl

theorem lines_single (cam : Int) (lines : List Line) : (Tree.single cam lines).lines cam = lines := if_pos rfl

def recorded : Line := .media ⟨7, 3, .finite 0, .finite 600, "vms/7/e3/19700101T000000Z.mp4", 1000⟩

def watched : Line := .events ⟨.str "vms", "7", 3, .finite 0, .finite 600, "vms/7/e3/19700101T000000Z.events.jsonl", 2⟩

def beat : Heartbeat := ⟨0, "http://srv-a:8090", [("vms", ["7"])]⟩

/-- One resource, with these lines for the seventh camera. -/
def holding (lines : List Line) : String → Option Tree := fun _ => some (.single 7 lines)

theorem answers_holding (lines : List Line) : Answers (holding lines) 7 10 45 beat (.single 7 lines) where
  asked := ⟨by decide, by decide +kernel⟩
  up := rfl

theorem answering_marked_unreachable : ¬ ∀ (holds : String → Option Tree) (cam : Int) (t0 t1 : Floating)
    (current : Option Int) (now lostAfter : ℚ) (resources : Dict Heartbeat), (resources.map Prod.fst).Nodup →
    SameView cam holds t0 t1 current now lostAfter resources
      (mergedTimeline (network holds) cam t0 t1 current now lostAfter resources) := by
  intro claim
  have same := claim (holding [recorded, watched]) 7 (.finite 0) (.finite 600) none 10 45 [("srv-a", beat)] (by decide)
  have there : ("srv-a", beat) ∈ [("srv-a", beat)] := List.mem_singleton_self _
  have answers := answers_holding [recorded, watched]
  have events : ¬Bare (.single 7 [recorded, watched]) 7 := by
    rw [Bare, lines_single]
    exact List.cons_ne_nil _ _
  exact same.unreachable "srv-a" (lost_of_events there answers events) beat _ there answers

theorem sameView_iff_bare_recorded :
    SameView 7 (holding [recorded]) (.finite 0) (.finite 600) none 10 45 [("srv-a", beat)]
      (mergedTimeline (network (holding [recorded])) 7 (.finite 0) (.finite 600) none 10 45 [("srv-a", beat)]) ↔
    ∀ server hb tree, (server, hb) ∈ [("srv-a", beat)] → Answers (holding [recorded]) 7 10 45 hb tree → Bare tree 7 :=
  sameView_iff_bare (by decide)

end EdgeVms.Verified.MergedView
