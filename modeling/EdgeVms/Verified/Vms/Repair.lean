import EdgeVms.Process.Pool
import EdgeVms.Vms.Archive
import Mathlib.Data.List.Count

/-! # One undisturbed repair

Whatever lines a manifest has, a repair that nobody disturbs leaves one media line
for each segment of the camera that lies in the archive, and no other.
-/

namespace EdgeVms.Verified

open Process Python Platform Vms Archive

/-! ## Paths -/

/-- The four parts of the path of a segment. -/
theorem parse_inv {path : String} {cam epoch : Int} {start : DateTime}
    (parsed : parse path = .ok (some (cam, epoch, start))) :
    ∃ dir file stamp, split '/' path = ["vms", unitIn path, dir, file] ∧ isDigits (unitIn path) = true ∧
      isEpochDir dir = true ∧ segmentStamp file = some stamp ∧ (Text.plain (unitIn path)).toInt = .ok cam := by
  unfold parse at parsed
  split at parsed
  next sub unit dir file parts =>
    have unit_eq : unitIn path = unit := by simp [unitIn, parts]
    split at parsed
    · cases parsed
    next accepted =>
      simp only [Bool.or_eq_true, decide_eq_true_eq, Bool.not_eq_true', not_or, not_not, Bool.not_eq_false] at accepted
      obtain ⟨⟨rfl, digits⟩, epochs⟩ := accepted
      cases stamped : segmentStamp file with
      | none =>
        rw [stamped] at parsed
        cases parsed
      | some stamp =>
        rw [stamped] at parsed
        simp only [bind_eq_ok] at parsed
        obtain ⟨cam', number, _, _, _, _, ends⟩ := parsed
        cases ends
        exact ⟨dir, file, stamp, by rw [parts, unit_eq], by rw [unit_eq, digits], epochs, stamped,
          by rw [unit_eq, number]⟩
  next => cases parsed

theorem toList_four (a b c d : String) :
    (join '/' [a, b, c, d]).toList = a.toList ++ '/' :: (b.toList ++ '/' :: (c.toList ++ '/' :: d.toList)) := by
  rw [toList_join_cons (by simp), toList_join_cons (by simp), toList_join_cons (by simp)]
  simp [join]

theorem slash_free {path part : String} (member : part ∈ split '/' path) : '/' ∉ part.toList := by
  obtain ⟨piece, inside, rfl⟩ := List.mem_map.mp member
  rw [String.toList_ofList]
  exact not_mem_splitOn inside

/-- The directory that a repair of this camera walks. -/
def above (unit : String) : String := "vms/" ++ unit ++ "/"

theorem toList_above (unit : String) : (above unit).toList = "vms".toList ++ '/' :: (unit.toList ++ ['/']) := by
  simp [above]

theorem above_unitIn {path : String} {cam epoch : Int} {start : DateTime}
    (parsed : parse path = .ok (some (cam, epoch, start))) : (above (unitIn path)).toList <+: path.toList := by
  obtain ⟨dir, file, stamp, parts, -⟩ := parse_inv parsed
  have whole := join_split '/' path
  rw [parts] at whole
  rw [← whole, toList_four, toList_above, whole]
  exact ⟨dir.toList ++ '/' :: file.toList, by simp⟩

/-- A path lies in the directory of no other unit. -/
theorem unitIn_of_above {path unit : String} (whole : '/' ∉ unit.toList)
    (inside : (above unit).toList <+: path.toList) : unitIn path = unit := by
  obtain ⟨rest, same⟩ := inside
  have pieces : path.toList.splitOn '/' = "vms".toList :: unit.toList :: rest.splitOn '/' := by
    rw [← same, toList_above]
    simp only [List.append_assoc, List.cons_append, List.nil_append]
    rw [List.splitOn_append_cons_self_of_not_mem, List.splitOn_append_cons_self_of_not_mem]
    · exact whole
    · decide
  simp [unitIn, split, pieces]

/-- A copy under way is no segment. -/
theorem parse_temporary {path : String} {cam epoch : Int} {start : DateTime}
    (parsed : parse path = .ok (some (cam, epoch, start))) : parse (path ++ ".tmp") = .ok none := by
  obtain ⟨dir, file, stamp, parts, digits, epochs, stamped, -⟩ := parse_inv parsed
  have joined : path ++ ".tmp" = join '/' ["vms", unitIn path, dir, file ++ ".tmp"] := by
    have whole := join_split '/' path
    rw [parts] at whole
    apply String.toList_injective
    rw [String.toList_append, toList_four]
    conv_lhs => rw [← whole]
    rw [toList_four]
    simp
  have free : ∀ part ∈ ["vms", unitIn path, dir, file], '/' ∉ part.toList := by
    intro part member
    exact slash_free (parts ▸ member)
  have pieces : split '/' (path ++ ".tmp") = ["vms", unitIn path, dir, file ++ ".tmp"] := by
    rw [joined]
    apply split_join (by simp)
    intro part member
    simp only [List.mem_cons, List.not_mem_nil, or_false] at member
    obtain rfl | rfl | rfl | rfl := member
    · decide
    · exact free _ (by simp)
    · exact free _ (by simp)
    · rw [String.toList_append, List.mem_append, not_or]
      exact ⟨free file (by simp), by decide⟩
  have long : 20 ≤ file.toList.length := by
    obtain ⟨⟨length, -⟩, -⟩ := Option.ite_none_right_eq_some.mp stamped
    split at length
    · rw [List.length_dropLast] at length
      omega
    · omega
  have unstamped : segmentStamp (file ++ ".tmp") = none := by
    have last : (file ++ ".tmp").toList.getLast? ≠ some '\n' := by
      rw [String.toList_append, List.getLast?_append_of_ne_nil _ (by decide)]
      decide
    unfold segmentStamp
    dsimp only
    rw [if_neg last, if_neg]
    rintro ⟨length, -⟩
    rw [String.toList_append, List.length_append] at length
    have four : ".tmp".toList.length = 4 := by decide
    omega
  unfold parse
  rw [pieces]
  dsimp only
  rw [unstamped]
  simp [digits, epochs]

/-- The path of a segment, under the number of its camera. -/
def Canonical (path : String) : Prop :=
  ∃ cam epoch start, parse path = .ok (some (cam, epoch, start)) ∧ unitIn path = toString cam

instance (path : String) : Decidable (Canonical path) :=
  match parsed : parse path with
  | .ok (some (cam, epoch, start)) =>
    decidable_of_iff (unitIn path = toString cam)
      ⟨fun unit => ⟨cam, epoch, start, parsed, unit⟩, fun ⟨_, _, _, parsed', unit⟩ => by
        rw [parsed] at parsed'
        cases parsed'
        exact unit⟩
  | .ok none | .error _ => .isFalse fun ⟨_, _, _, parsed', _⟩ => by
    rw [parsed] at parsed'
    cases parsed'

/-- A path that is no segment's, or is the one the system gives to a segment. -/
def Named (path : String) : Prop := parse path = .ok none ∨ Canonical path

instance (path : String) : Decidable (Named path) :=
  have : Decidable (parse path = .ok none) :=
    match parse path with
    | .ok none => .isTrue rfl
    | .ok (some _) | .error _ => .isFalse nofun
  inferInstanceAs (Decidable (_ ∨ _))

theorem named_of_keys {table : Versioned String fun _ => File} (named : ∀ path ∈ table.keys, Named path)
    (path : String) (file : File) (stored : table.read path = some file) : Named path :=
  named path (by simp [Versioned.mem_keys, stored])

/-! ## Alone with the disk -/

variable {sameDevice : Bool}

/-- The program runs undisturbed. -/
abbrev Alone {α : Type} (sameDevice : Bool) (post : Except Fault α → Disk → Prop) (p : Program α) (disk : Disk) :
    Prop :=
  Safe (Disk.handler sameDevice) (fun _ disk disk' => disk' = disk) (fun _ _ => True) post p disk

namespace Alone

variable {α β : Type} {disk : Disk}

theorem call {post : Except Fault α → Disk → Prop} {label : Archive.Stage} {request : Request}
    {next : request.Answer → Program α}
    (later : Alone sameDevice post (next (Disk.handler sameDevice request disk).1) (Disk.handler sameDevice request disk).2) :
    Alone sameDevice post (.call label request next) disk := by
  rintro _ rfl
  exact ⟨trivial, later⟩

theorem ask {post : Except Fault β → Disk → Prop} {request : Request} {f : request.Answer → Program β}
    (later : Alone sameDevice post (f (Disk.handler sameDevice request disk).1) (Disk.handler sameDevice request disk).2) :
    Alone sameDevice post (Archive.ask request >>= f) disk := call later

theorem bind {post : Except Fault β → Disk → Prop} {middle : α → Disk → Prop} {p : Program α} {f : α → Program β}
    (first : Alone sameDevice (fun result disk => ∃ value, result = .ok value ∧ middle value disk) p disk)
    (later : ∀ value disk, middle value disk → Alone sameDevice post (f value) disk) :
    Alone sameDevice post (p >>= f) disk := by
  apply Safe.bind
  refine Safe.mono ?_ first
  rintro _ disk ⟨value, rfl, holds⟩
  exact later value disk holds

theorem value_bind {post : Except Fault β → Disk → Prop} {answer : Except Error α} {value : α}
    {f : α → Program β} (ok : answer = .ok value) (later : Alone sameDevice post (f value) disk) :
    Alone sameDevice post (Archive.value answer >>= f) disk := by
  rw [ok]
  exact later

theorem run {post : Except Fault α → Disk → Prop} {p : Program α} (alone : Alone sameDevice post p disk) :
    post (p.run (Disk.handler sameDevice) disk).1 (p.run (Disk.handler sameDevice) disk).2 := by
  refine Safe.run (fun _ => True) ?still (fun _ _ _ => id) alone trivial
  case still => exact fun _ _ _ => rfl

end Alone

/-- Only time has passed. -/
def Looked (disk disk' : Disk) : Prop := ∃ served, disk' = { disk with served := served }

theorem Looked.refl (disk : Disk) : Looked disk disk := ⟨disk.served, rfl⟩

theorem Looked.tick (disk : Disk) : Looked disk disk.tick := ⟨_, rfl⟩

theorem Looked.trans {disk disk' disk'' : Disk} (first : Looked disk disk') (second : Looked disk' disk'') :
    Looked disk disk'' := by
  obtain ⟨served, rfl⟩ := first
  obtain ⟨served', rfl⟩ := second
  exact ⟨served', rfl⟩

/-! ## Dictionaries by path -/

/-- Each entry stands under its own path, once. -/
structure OwnPath {α : Type} (path : α → String) (dict : Dict α) : Prop where
  own : ∀ entry ∈ dict, path entry.2 = entry.1
  nodup : (dict.map Prod.fst).Nodup

theorem OwnPath.set {α : Type} {path : α → String} {dict : Dict α} (owned : OwnPath path dict) (item : α) :
    OwnPath path (dict.set (path item) item) := by
  refine ⟨fun entry member => ?_, Dict.nodup_keys_set owned.nodup _ _⟩
  obtain rfl | old := Dict.mem_set member
  · rfl
  · exact owned.own entry old

theorem ownPath_byPath {α : Type} (path : α → String) (items : List α) : OwnPath path (byPath path items) := by
  have rounds : ∀ dict : Dict α, OwnPath path dict →
      OwnPath path (items.foldl (fun dict item => dict.set (path item) item) dict) := by
    induction items with
    | nil => exact fun dict owned => owned
    | cons item rest ih => exact fun dict owned => ih _ (owned.set item)
  exact rounds [] ⟨nofun, List.nodup_nil⟩

theorem OwnPath.keys {α : Type} {path : α → String} {dict : Dict α} (owned : OwnPath path dict) :
    (dict.map Prod.snd).map path = dict.map Prod.fst := by
  rw [List.map_map]
  exact List.map_congr_left owned.own

/-- The items of such a dictionary with a given path. -/
theorem OwnPath.filter_values {α : Type} {path : α → String} {dict : Dict α} (owned : OwnPath path dict)
    (key : String) :
    (dict.map Prod.snd).filter (fun item => path item = key) = (dict.get? key).toList := by
  obtain ⟨own, nodup⟩ := owned
  induction dict with
  | nil => rfl
  | cons entry rest ih =>
    obtain ⟨first, value⟩ := entry
    obtain ⟨fresh, nodup⟩ := List.nodup_cons.mp nodup
    have mine : path value = first := own (first, value) (.head _)
    have later := ih (fun entry member => own entry (.tail _ member)) nodup
    rw [List.map_cons, Dict.get?_cons]
    by_cases same : first = key
    · subst same
      have absent : Dict.get? rest first = none := by
        by_contra there
        exact fresh (Dict.mem_keys.mpr (Option.isSome_iff_ne_none.mpr there))
      rw [List.filter_cons_of_pos (by simpa using mine), later, absent, if_pos rfl]
      rfl
    · rw [List.filter_cons_of_neg (by rw [mine]; simpa using same), later, if_neg same]

/-! ## The steps of a repair -/

theorem present_ok {files : List String} (named : ∀ path ∈ files, Named path) (out : Dict Parsed) :
    ∃ here, present files out = .ok here ∧ ∀ path, path ∈ here.map Prod.fst ↔
      path ∈ out.map Prod.fst ∨ (path ∈ files ∧ Canonical path) := by
  induction files generalizing out with
  | nil => exact ⟨out, rfl, by simp⟩
  | cons path rest ih =>
    have named' : ∀ path ∈ rest, Named path := fun path member => named path (.tail _ member)
    rw [present]
    obtain none_ | canonical := named path (.head _)
    · obtain ⟨here, found, keys⟩ := ih named' out
      refine ⟨here, by rw [none_]; exact found, fun other => ?_⟩
      rw [keys, List.mem_cons]
      apply or_congr_right
      refine ⟨fun later => ⟨.inr later.1, later.2⟩, fun ⟨either, segment⟩ => ⟨?_, segment⟩⟩
      obtain rfl | later := either
      · obtain ⟨_, _, _, parsed, -⟩ := segment
        rw [none_] at parsed
        cases parsed
      · exact later
    · obtain ⟨cam, epoch, start, parsed, unit⟩ := canonical
      obtain ⟨here, found, keys⟩ := ih named' (out.set path (cam, epoch, start))
      refine ⟨here, by rw [parsed]; exact found, fun other => ?_⟩
      rw [keys, List.mem_cons, Dict.keys_set]
      have segment : Canonical path := ⟨cam, epoch, start, parsed, unit⟩
      by_cases same : other = path
      · subst same
        refine iff_of_true (.inl ?_) (.inr ⟨.inl rfl, segment⟩)
        split
        next there => exact there
        next => simp
      · split
        · simp [same]
        · simp [same]

theorem addRounds_alone {disk : Disk} {here : Dict Parsed} {lines : Dict Segment}
    (there : ∀ path ∈ here.map Prod.fst, (disk.archive.read path).isSome) (owned : OwnPath Segment.path lines) :
    Alone sameDevice (fun result disk' => ∃ lines', result = .ok lines' ∧ Looked disk disk' ∧
      OwnPath Segment.path lines' ∧ (∀ path ∈ lines.map Prod.fst, path ∈ lines'.map Prod.fst) ∧
        ∀ path ∈ here.map Prod.fst, path ∈ lines'.map Prod.fst) (addRounds here lines) disk := by
  induction here generalizing lines disk with
  | nil => exact ⟨lines, rfl, .refl _, owned, fun _ member => member, nofun⟩
  | cons entry rest ih =>
    obtain ⟨rel, cam, epoch, start⟩ := entry
    rw [addRounds]
    split
    next known =>
      refine Safe.mono ?_ (ih (fun path member => there path (.tail _ member)) owned)
      rintro _ disk' ⟨lines', rfl, looked, owned', old, new⟩
      refine ⟨lines', rfl, looked, owned', old, fun path member => ?_⟩
      obtain rfl | later := List.mem_cons.mp member
      · exact old _ (Dict.mem_keys.mpr known)
      · exact new path later
    next unknown =>
      apply Alone.call
      obtain ⟨file, stored⟩ := Option.isSome_iff_exists.mp (there rel (.head _))
      have answered : disk.stat .archive rel = .ok ⟨file.bytes.length, file.mtime⟩ := by
        simp [Disk.stat, Disk.folder, stored]
      show Alone sameDevice _ ((Proc.ofExcept (disk.stat .archive rel)).bind _) disk.tick
      rw [answered]
      have owned' := owned.set ⟨cam, epoch, start.timestamp, file.mtime, rel, file.bytes.length⟩
      refine Safe.mono ?_ (ih (fun path member => there path (.tail _ member)) owned')
      rintro _ disk' ⟨lines', rfl, looked, owned'', old, new⟩
      have kept : ∀ path, path ∈ lines.map Prod.fst ∨ path = rel → path ∈ lines'.map Prod.fst := by
        intro path member
        apply old
        rw [Dict.keys_set]
        split
        next inside => exact member.elim id fun same => same ▸ inside
        next => simpa using member
      refine ⟨lines', rfl, (Looked.tick disk).trans looked, owned'', fun path member => kept path (.inl member), ?_⟩
      intro path member
      obtain rfl | later := List.mem_cons.mp member
      · exact kept _ (.inr rfl)
      · exact new path later

theorem overRounds_alone {disk : Disk} (past : List Bucket) (out : Dict Bucket) :
    Alone sameDevice (fun result disk' => ∃ onDisk, result = .ok onDisk ∧ Looked disk disk')
      (overRounds past out) disk := by
  induction past generalizing out disk with
  | nil => exact ⟨out, rfl, .refl _⟩
  | cons bucket rest ih =>
    apply Alone.call
    refine Safe.mono ?_ (ih _)
    rintro _ disk' ⟨onDisk, rfl, looked⟩
    exact ⟨onDisk, rfl, (Looked.tick disk).trans looked⟩

/-! ## One camera -/

/-- The paths of the media lines of a camera's manifest. -/
def mediaPaths (disk : Disk) (unit : String) : List String :=
  ((disk.linesOf unit).filterMap Vms.Entry.media?).map Segment.path

/-- No manifest is a file that is yet to come. -/
def FreshInodes (disk : Disk) : Prop := ∀ unit inode, disk.manifest unit = some inode → inode < disk.fresh

theorem linesOf_withManifest_self (disk : Disk) (unit : String) (entries : List Vms.Entry) :
    (disk.withManifest unit entries).linesOf unit = entries := by
  simp [Disk.linesOf, Disk.withManifest]

theorem linesOf_withManifest_other {disk : Disk} (fresh : FreshInodes disk) {unit other : String}
    (entries : List Vms.Entry) (differs : other ≠ unit) :
    (disk.withManifest unit entries).linesOf other = disk.linesOf other := by
  unfold Disk.linesOf Disk.withManifest
  dsimp only
  rw [Function.update_of_ne differs]
  cases stands : disk.manifest other with
  | none => rfl
  | some inode =>
    have old := fresh other inode stands
    rw [Option.map_some, Option.map_some, Function.update_of_ne (by omega)]

theorem FreshInodes.withManifest {disk : Disk} (fresh : FreshInodes disk) (unit : String) (entries : List Vms.Entry) :
    FreshInodes (disk.withManifest unit entries) := by
  intro other inode stands
  show inode < disk.fresh + 1
  by_cases same : other = unit
  · subst same
    have new : inode = disk.fresh := by
      simpa [Disk.withManifest, eq_comm] using stands
    omega
  · have old := fresh other inode (by simpa [Disk.withManifest, Function.update_of_ne same] using stands)
    omega

/-- The media lines of what `rewrite` writes. -/
theorem media_sortEntries (segs : List Segment) (past : List Bucket) :
    ((sortEntries (segs.map .media ++ past.map .events)).filterMap Vms.Entry.media?).Perm segs := by
  have media : (segs.map Vms.Entry.media ++ past.map Vms.Entry.events).filterMap Vms.Entry.media? = segs := by
    rw [List.filterMap_append, List.filterMap_map, List.filterMap_map]
    have first : Vms.Entry.media? ∘ Vms.Entry.media = some := rfl
    have second : Vms.Entry.media? ∘ Vms.Entry.events = fun _ => none := rfl
    rw [first, second]
    simp
  have sorted := (List.perm_insertionSort (fun left right : Vms.Entry =>
    left.start < right.start ∨ (left.start = right.start ∧ left.epoch ≤ right.epoch))
    (segs.map Vms.Entry.media ++ past.map Vms.Entry.events)).filterMap Vms.Entry.media?
  rwa [media] at sorted

/-- A segment in the directory of the camera. -/
def Archived (disk : Disk) (unit path : String) : Prop :=
  (disk.archive.read path).isSome ∧ Canonical path ∧ unitIn path = unit

/-- The files below the directory of a unit. -/
def filesOf (disk : Disk) (unit : String) : List String :=
  disk.archive.keys.filter fun path => (above unit).toList.isPrefixOf path.toList

/-- The files of the walk are segments of this camera, or nothing. -/
theorem present_files {disk : Disk} (named : ∀ path file, disk.archive.read path = some file → Named path) (cam : Int) :
    ∃ here, present (filesOf disk (toString cam)) [] = .ok here ∧
      ∀ path, path ∈ here.map Prod.fst ↔ Archived disk (toString cam) path := by
  have walked : ∀ path, path ∈ filesOf disk (toString cam) ↔
      (disk.archive.read path).isSome ∧ (above (toString cam)).toList <+: path.toList := by
    intro path
    rw [filesOf, List.mem_filter, List.isPrefixOf_iff_prefix, Versioned.mem_keys, Option.isSome_iff_ne_none]
  have named' : ∀ path ∈ filesOf disk (toString cam), Named path := by
    intro path member
    obtain ⟨file, stored⟩ := Option.isSome_iff_exists.mp ((walked path).mp member).1
    exact named path file stored
  obtain ⟨here, found, keys⟩ := present_ok named' []
  refine ⟨here, found, fun path => ?_⟩
  rw [keys, walked]
  constructor
  · rintro (nothing | ⟨⟨stored, under⟩, segment⟩)
    · cases nothing
    · exact ⟨stored, segment, unitIn_of_above (not_mem_toString (by decide) (by decide) cam) under⟩
  · rintro ⟨stored, segment, unit⟩
    obtain ⟨_, _, _, parsed, -⟩ := id segment
    exact .inr ⟨⟨stored, unit ▸ above_unitIn parsed⟩, segment⟩

/-- `disk'` is `disk` after a repair of the camera's manifest: one line for each segment in its directory. -/
structure Repaired (disk disk' : Disk) (unit : String) : Prop where
  spool : disk'.spool = disk.spool
  archive : disk'.archive = disk.archive
  units : disk'.units = disk.units
  fresh : FreshInodes disk'
  once : ∀ path, Archived disk unit path → (mediaPaths disk' unit).count path = 1
  nothing : ∀ path, ¬ Archived disk unit path → path ∉ mediaPaths disk' unit
  others : ∀ other, other ≠ unit → disk'.linesOf other = disk.linesOf other

/-- The lines that stay are those of the files that are there. -/
theorem kept_paths {α : Type} {path : α → String} {here : Dict Parsed} {lines : Dict α} (owned : OwnPath path lines) :
    ((lines.filter fun entry => (here.get? entry.1).isSome).map Prod.snd).map path =
      (lines.map Prod.fst).filter fun key => (here.get? key).isSome := by
  rw [List.map_map, List.filter_map]
  apply List.map_congr_left
  intro entry member
  exact owned.own entry (List.mem_of_mem_filter member)

theorem repaired_withManifest {disk disk' : Disk} {unit : String} {here : Dict Parsed} {lines : Dict Segment}
    {entries : List Vms.Entry} (looked : Looked disk disk') (fresh : FreshInodes disk)
    (owned : OwnPath Segment.path lines) (covers : ∀ path ∈ here.map Prod.fst, path ∈ lines.map Prod.fst)
    (inside : ∀ path, path ∈ here.map Prod.fst ↔ Archived disk unit path)
    (media : (entries.filterMap Vms.Entry.media?).Perm
      ((lines.filter fun entry => (here.get? entry.1).isSome).map Prod.snd)) :
    Repaired disk (disk'.withManifest unit entries) unit := by
  obtain ⟨served, rfl⟩ := looked
  have fresh' : FreshInodes { disk with served := served } := fresh
  have paths : (mediaPaths (Disk.withManifest { disk with served := served } unit entries) unit).Perm
      ((lines.map Prod.fst).filter fun key => (here.get? key).isSome) := by
    rw [← kept_paths owned, mediaPaths, linesOf_withManifest_self]
    exact media.map _
  refine ⟨rfl, rfl, rfl, fresh'.withManifest unit entries, ?_, ?_, ?_⟩
  · intro path archived
    rw [paths.count_eq]
    apply List.count_eq_one_of_mem (owned.nodup.filter _)
    have member := (inside path).mpr archived
    exact List.mem_filter.mpr ⟨covers path member, Dict.mem_keys.mp member⟩
  · intro path absent member
    obtain ⟨-, there⟩ := List.mem_filter.mp (paths.mem_iff.mp member)
    exact absent ((inside path).mp (Dict.mem_keys.mpr there))
  · intro other differs
    exact linesOf_withManifest_other fresh' entries differs

theorem repairCamera_alone {disk : Disk} {cam : Int} (fresh : FreshInodes disk)
    (named : ∀ path file, disk.archive.read path = some file → Named path) :
    Alone sameDevice (fun result disk' => (∃ counts, result = .ok counts) ∧ Repaired disk disk' (toString cam))
      (repairCamera cam) disk := by
  apply Alone.call
  apply Alone.call
  obtain ⟨here, found, inside⟩ := present_files named cam
  apply Alone.value_bind found
  refine Alone.bind (addRounds_alone (fun path member => ((inside path).mp member).1) (ownPath_byPath _ _)) ?_
  rintro lines _ ⟨⟨served, rfl⟩, owned, -, covers⟩
  apply Alone.call
  apply Alone.ask
  refine Alone.bind (overRounds_alone _ _) ?_
  rintro onDisk _ ⟨served', rfl⟩
  apply Alone.call
  refine And.intro ⟨_, rfl⟩ ?_
  exact repaired_withManifest ⟨_, rfl⟩ fresh owned covers inside (media_sortEntries _ _)

/-! ## All cameras -/

/-- The manifest has one media line for each segment in the directory, and no other. -/
structure Indexed (disk : Disk) (unit : String) : Prop where
  once : ∀ path, Archived disk unit path → (mediaPaths disk unit).count path = 1
  nothing : ∀ path, ¬ Archived disk unit path → path ∉ mediaPaths disk unit

theorem Archived.of_same {disk disk' : Disk} (same : disk'.archive = disk.archive) {unit path : String} :
    Archived disk' unit path ↔ Archived disk unit path := by
  rw [Archived, Archived, same]

theorem Repaired.indexed {disk disk' : Disk} {unit : String} (repaired : Repaired disk disk' unit) :
    Indexed disk' unit := by
  refine ⟨fun path archived => ?_, fun path absent => ?_⟩
  · exact repaired.once path ((Archived.of_same repaired.archive).mp archived)
  · exact repaired.nothing path fun archived => absent ((Archived.of_same repaired.archive).mpr archived)

theorem Indexed.of_same {disk disk' : Disk} {unit : String} (indexed : Indexed disk unit)
    (archive : disk'.archive = disk.archive) (lines : disk'.linesOf unit = disk.linesOf unit) :
    Indexed disk' unit := by
  have paths : mediaPaths disk' unit = mediaPaths disk unit := by rw [mediaPaths, mediaPaths, lines]
  refine ⟨fun path archived => ?_, fun path absent => ?_⟩
  · rw [paths]
    exact indexed.once path ((Archived.of_same archive).mp archived)
  · rw [paths]
    exact indexed.nothing path fun archived => absent ((Archived.of_same archive).mpr archived)

theorem repairRounds_alone {disk : Disk} {cams : List Int} {counts : Nat × Nat} (fresh : FreshInodes disk)
    (named : ∀ path file, disk.archive.read path = some file → Named path) :
    Alone sameDevice (fun result disk' => (∃ counts, result = .ok counts) ∧ disk'.spool = disk.spool ∧
      disk'.archive = disk.archive ∧ disk'.units = disk.units ∧ (∀ cam ∈ cams, Indexed disk' (toString cam)) ∧
        ∀ unit, unit ∉ cams.map toString → disk'.linesOf unit = disk.linesOf unit) (repairRounds cams counts) disk := by
  induction cams generalizing counts disk with
  | nil => exact ⟨⟨counts, rfl⟩, rfl, rfl, rfl, nofun, fun _ _ => rfl⟩
  | cons cam rest ih =>
    obtain ⟨added, dropped⟩ := counts
    apply Safe.bind
    refine Safe.mono ?_ (repairCamera_alone fresh named)
    rintro _ middle ⟨⟨_, rfl⟩, repaired⟩
    have named' : ∀ path file, middle.archive.read path = some file → Named path := by
      intro path file stored
      rw [repaired.archive] at stored
      exact named path file stored
    refine Safe.mono ?_ (ih repaired.fresh named')
    rintro _ disk' ⟨ok, spool, archive, units, indexed, others⟩
    refine ⟨ok, spool.trans repaired.spool, archive.trans repaired.archive, units.trans repaired.units, ?_, ?_⟩
    · intro cam' member
      by_cases later : toString cam' ∈ rest.map toString
      · obtain ⟨again, inside, same⟩ := List.mem_map.mp later
        rw [← same]
        exact indexed again inside
      · obtain rfl | inside := List.mem_cons.mp member
        · exact repaired.indexed.of_same archive (others _ later)
        · exact absurd (List.mem_map_of_mem inside) later
    · intro unit outside
      rw [List.map_cons, List.mem_cons, not_or] at outside
      rw [others unit outside.2, repaired.others unit outside.1]

/-- The directories that stand for cameras are named as the system names them. -/
def Numbered (disk : Disk) : Prop := ∀ unit ∈ disk.units, isDigits unit = true → ∃ cam : Int, unit = toString cam

theorem cameras_alone {disk : Disk} (numbered : Numbered disk) :
    Alone sameDevice (fun result disk' => ∃ cams, result = .ok cams ∧ Looked disk disk' ∧
      ∀ unit, (∃ cam ∈ cams, toString cam = unit) ↔ unit ∈ disk.units ∧ isDigits unit = true) Archive.cameras disk := by
  apply Alone.ask
  have read : ∀ unit ∈ disk.units.filter isDigits, ∃ cam : Int, unit = toString cam := by
    intro unit member
    obtain ⟨inside, digits⟩ := List.mem_filter.mp member
    exact numbered unit inside digits
  obtain ⟨cams, parsed⟩ := mapM_ok_iff.mpr (fun unit member => by
    obtain ⟨cam, same⟩ := read unit member
    exact (⟨cam, by rw [Text.toInt, Text.string_plain, same, pyInt_toString]⟩ :
      ∃ cam, (Text.plain unit).toInt = .ok cam))
  apply Alone.value_bind parsed
  refine ⟨_, rfl, .tick disk, fun unit => ⟨?_, ?_⟩⟩
  · rintro ⟨cam, member, rfl⟩
    obtain ⟨unit, listed, made⟩ := of_mem_mapM_ok parsed ((List.perm_insertionSort _ _).mem_iff.mp member)
    obtain ⟨cam', rfl⟩ := read unit listed
    rw [Text.toInt, Text.string_plain, pyInt_toString] at made
    cases made
    exact List.mem_filter.mp listed
  · rintro ⟨inside, digits⟩
    obtain ⟨cam, member, made⟩ := mem_of_mapM_ok parsed (List.mem_filter.mpr ⟨inside, digits⟩)
    obtain ⟨cam', rfl⟩ := numbered unit inside digits
    rw [Text.toInt, Text.string_plain, pyInt_toString] at made
    cases made
    exact ⟨cam, (List.perm_insertionSort _ _).mem_iff.mpr member, rfl⟩

/-- Undisturbed, a repair leaves every camera's manifest with one line for each segment. -/
theorem repair_alone {disk : Disk} (fresh : FreshInodes disk) (numbered : Numbered disk)
    (named : ∀ path file, disk.archive.read path = some file → Named path) :
    Alone sameDevice (fun result disk' => (∃ counts, result = .ok counts) ∧ disk'.spool = disk.spool ∧
      disk'.archive = disk.archive ∧ ∀ unit ∈ disk.units, isDigits unit = true → Indexed disk' unit) repair disk := by
  refine Alone.bind (cameras_alone numbered) ?_
  rintro cams _ ⟨⟨served, rfl⟩, all⟩
  refine Safe.mono ?_ (repairRounds_alone fresh named)
  rintro _ disk' ⟨ok, spool, archive, -, indexed, -⟩
  refine ⟨ok, spool, archive, fun unit inside digits => ?_⟩
  obtain ⟨cam, member, rfl⟩ := (all unit).mpr ⟨inside, digits⟩
  exact indexed cam member

end EdgeVms.Verified
