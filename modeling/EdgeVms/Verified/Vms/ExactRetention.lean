import EdgeVms.Verified.Vms.ExactRepair

/-! # Retention is exact

After a repair, retention takes away the media that ended too long ago, file and
line, and nothing else.  The manifests stay as a repair writes them.
-/

namespace EdgeVms.Verified.ExactRetention

open Process Python Platform Vms Archive Timeline ExactRepair

variable {sameDevice : Bool} {around : Around} {cutoff : ℚ} {disk disk' now : Disk} {unit : String}

/-! ## The files -/

/-- These files are gone from the archive, and time has passed. -/
structure Removed (paths : List String) (disk disk' : Disk) : Prop where
  rest : ∃ archive served, disk' = { disk with archive := archive, served := served }
  reads : ∀ path, disk'.archive.read path = if path ∈ paths then none else disk.archive.read path

theorem Removed.none (looked : Looked disk disk') : Removed [] disk disk' := by
  obtain ⟨served, rfl⟩ := looked
  exact ⟨⟨disk.archive, served, rfl⟩, fun path => rfl⟩

theorem Removed.trans {first second : List String} {disk'' : Disk} (removed : Removed first disk disk')
    (later : Removed second disk' disk'') : Removed (first ++ second) disk disk'' := by
  obtain ⟨archive, served, rfl⟩ := removed.rest
  obtain ⟨archive', served', rfl⟩ := later.rest
  refine ⟨⟨archive', served', rfl⟩, fun path => ?_⟩
  have reads := later.reads path
  rw [removed.reads] at reads
  rw [reads]
  by_cases before : path ∈ first <;> by_cases after : path ∈ second <;> simp [before, after]

/-- One file, if it is there. -/
theorem removed_one (sameDevice : Bool) (disk : Disk) (path : String) :
    Removed [path] disk (Disk.handler sameDevice (.remove .archive path) disk).2 := by
  show Removed [path] disk (if (disk.archive.read path).isSome then _ else _ : Except Fault Unit × Disk).2
  split
  next there =>
    refine ⟨⟨_, _, rfl⟩, fun other => ?_⟩
    show (disk.archive.remove path).read other = _
    rw [Versioned.read_remove]
    by_cases same : other = path
    · subst same
      rw [Function.update_self, if_pos (.head _)]
    · rw [Function.update_of_ne same, if_neg (by simpa using same)]
  next absent =>
    refine ⟨⟨_, _, rfl⟩, fun other => ?_⟩
    show disk.archive.read other = _
    by_cases same : other = path
    · subst same
      rw [if_pos (.head _)]
      simpa using absent
    · rw [if_neg (by simpa using same)]

theorem remove_answers (sameDevice : Bool) (disk : Disk) (path : String) :
    (Disk.handler sameDevice (.remove .archive path) disk).1 = .ok () ∨
      (Disk.handler sameDevice (.remove .archive path) disk).1 = .error .fileNotFound := by
  show (if (disk.archive.read path).isSome then _ else _ : Except Fault Unit × Disk).1 = _ ∨
    (if (disk.archive.read path).isSome then _ else _ : Except Fault Unit × Disk).1 = _
  split
  · exact .inl rfl
  · exact .inr rfl

def expired (cutoff : ℚ) (segs : List Segment) : List Segment := segs.filter fun segment => segment.end_ < cutoff

def recent (cutoff : ℚ) (segs : List Segment) : List Segment := segs.filter fun segment => ¬ segment.end_ < cutoff

theorem retainRounds_removes (segs keep : List Segment) (removed : Nat) :
    Alone sameDevice
      (fun result disk' => result = .ok (keep ++ recent cutoff segs, removed + (expired cutoff segs).length) ∧
      Removed ((expired cutoff segs).map Segment.path) now disk') (retainRounds cutoff segs keep removed) now := by
  induction segs generalizing keep removed now with
  | nil => exact ⟨by rw [recent, List.filter_nil, List.append_nil]; rfl, .none (.refl now)⟩
  | cons segment rest ih =>
    rw [retainRounds]
    split
    next old =>
      have goes : expired cutoff (segment :: rest) = segment :: expired cutoff rest :=
        List.filter_cons_of_pos (by simpa using old)
      have stay : recent cutoff (segment :: rest) = recent cutoff rest := List.filter_cons_of_neg (by simpa using old)
      rw [goes, stay]
      apply Safe.bind
      apply Safe.tryCatch
      apply Alone.call
      have one := removed_one sameDevice now segment.path
      have answers := remove_answers sameDevice now segment.path
      generalize Disk.handler sameDevice (.remove .archive segment.path) now = answered at one answers ⊢
      obtain ⟨answer, next⟩ := answered
      have later : Alone sameDevice (fun result disk' =>
          result = .ok (keep ++ recent cutoff rest, removed + (segment :: expired cutoff rest).length) ∧
            Removed ((segment :: expired cutoff rest).map Segment.path) now disk')
          (retainRounds cutoff rest keep (removed + 1)) next := by
        refine Safe.mono ?_ (ih keep (removed + 1))
        rintro _ disk' ⟨rfl, after⟩
        exact ⟨by rw [List.length_cons, Nat.add_assoc, Nat.add_comm 1], one.trans after⟩
      -- a file that is gone already counts like one that is removed now
      obtain rfl | rfl := answers
      · exact later
      · exact later
    next young =>
      have goes : expired cutoff (segment :: rest) = expired cutoff rest :=
        List.filter_cons_of_neg (by simpa using young)
      have stay : recent cutoff (segment :: rest) = segment :: recent cutoff rest :=
        List.filter_cons_of_pos (by simpa using young)
      rw [goes, stay, List.append_cons]
      exact ih _ _

/-! ## The lines -/

/-- The line of media that ended before the cutoff. -/
def dead (cutoff : ℚ) : Vms.Entry → Bool
  | .media segment => segment.end_ < cutoff
  | .events _ => false

def live (cutoff : ℚ) (lines : List Vms.Entry) : List Vms.Entry := lines.filter fun entry => !dead cutoff entry

theorem recent_media (lines : List Vms.Entry) :
    (recent cutoff (lines.filterMap Vms.Entry.media?)).map .media = live cutoff (lines.filter isMedia) := by
  rw [live, ← media_filter, List.filter_map, recent]
  congr 1
  refine List.filter_congr fun segment _ => ?_
  show decide (¬ segment.end_ < cutoff) = !decide (segment.end_ < cutoff)
  exact decide_not

theorem live_events (past : List Bucket) : live cutoff (past.map Vms.Entry.events) = past.map .events := by
  refine List.filter_eq_self.mpr fun entry member => ?_
  obtain ⟨bucket, -, rfl⟩ := List.mem_map.mp member
  rfl

theorem live_sortEntries (entries : List Vms.Entry) :
    live cutoff (sortEntries entries) = sortEntries (live cutoff entries) := sortEntries_filter _ _

theorem live_lines (settled : Settled around disk unit) : live cutoff (disk.linesOf unit) =
    sortEntries (live cutoff ((disk.linesOf unit).filter isMedia) ++ overEntries around unit) := by
  conv_lhs => rw [settled.lines, live_sortEntries, live, List.filter_append]
  exact congrArg (fun entries => sortEntries (_ ++ entries)) (live_events _)

/-- The lines that `retain` writes are those that are not dead. -/
theorem written_eq (settled : Settled around disk unit) :
    sortEntries ((recent cutoff (mediaOf disk unit)).map .media ++ (eventsOf disk unit).map .events) =
      live cutoff (disk.linesOf unit) := by
  have events : (eventsOf disk unit).map .events = sortEntries (overEntries around unit) := by
    have none_ : ((disk.linesOf unit).filter isMedia).filter (fun entry => !isMedia entry) = [] := by
      refine List.filter_eq_nil_iff.mpr fun entry member => ?_
      simp [(List.mem_filter.mp member).2]
    have all : (overEntries around unit).filter (fun entry => !isMedia entry) = overEntries around unit := by
      refine List.filter_eq_self.mpr fun entry member => ?_
      obtain ⟨bucket, -, rfl⟩ := List.mem_map.mp member
      rfl
    rw [eventsOf, events_filter, settled.lines, sortEntries_filter, List.filter_append, none_, all, List.nil_append]
  rw [live_lines settled, mediaOf, recent_media, events, sortEntries_append_sorted]

theorem media_live (lines : List Vms.Entry) :
    (live cutoff lines).filterMap Vms.Entry.media? = recent cutoff (lines.filterMap Vms.Entry.media?) := by
  induction lines with
  | nil => rfl
  | cons entry rest ih =>
    cases entry with
    | events bucket => exact ih
    | media segment =>
      show _ = recent cutoff (segment :: rest.filterMap Vms.Entry.media?)
      rw [live, recent]
      by_cases old : segment.end_ < cutoff
      · rw [List.filter_cons_of_neg (by simp [dead, old]), List.filter_cons_of_neg (by simp [old])]
        exact ih
      · rw [List.filter_cons_of_pos (by simp [dead, old]), List.filter_cons_of_pos (by simp [old])]
        exact congrArg _ ih

theorem live_self {lines : List Vms.Entry} (none_ : expired cutoff (lines.filterMap Vms.Entry.media?) = []) :
    live cutoff lines = lines := by
  refine List.filter_eq_self.mpr fun entry member => ?_
  cases entry with
  | events bucket => rfl
  | media segment =>
    have young := List.filter_eq_nil_iff.mp none_ segment (List.mem_filterMap.mpr ⟨_, member, rfl⟩)
    simpa [dead] using young

/-- What retention leaves of the archive and of one camera's manifest. -/
structure Retained (cutoff : ℚ) (unit : String) (disk disk' : Disk) : Prop where
  spool : disk'.spool = disk.spool
  units : disk'.units = disk.units
  files : ∀ path, disk'.archive.read path =
    if ∃ segment ∈ mediaOf disk unit, segment.path = path ∧ segment.end_ < cutoff then none else disk.archive.read path
  lines : disk'.linesOf unit = live cutoff (disk.linesOf unit)
  others : ∀ other, other ≠ unit → disk'.linesOf other = disk.linesOf other

theorem mem_expired {segs : List Segment} {path : String} : path ∈ (expired cutoff segs).map Segment.path ↔
    ∃ segment ∈ segs, segment.path = path ∧ segment.end_ < cutoff := by
  simp only [expired, List.mem_map, List.mem_filter, decide_eq_true_eq]
  exact ⟨fun ⟨segment, ⟨inside, old⟩, same⟩ => ⟨segment, inside, same, old⟩,
    fun ⟨segment, inside, same, old⟩ => ⟨segment, ⟨inside, old⟩, same⟩⟩

/-- A rewrite that leaves the bucket lines. -/
theorem rewrite_keeps (segs : List Segment) :
    Alone sameDevice (fun result disk' => result = .ok () ∧ ∃ served, disk' = Disk.withManifest
      { disk with served := served } unit (sortEntries (segs.map .media ++ (eventsOf disk unit).map .events)))
      (rewrite unit segs none) disk := by
  apply Alone.call
  apply Alone.call
  exact ⟨rfl, _, rfl⟩

theorem retain_alone (tree : Tree around disk) {cam : Int}
    (settled : Settled around disk (toString cam)) (days now : ℚ) :
    Alone sameDevice (fun result disk' =>
      result = .ok (expired (now - days * 86400) (mediaOf disk (toString cam))).length ∧
        Retained (now - days * 86400) (toString cam) disk disk' ∧ Tree around disk')
      (Archive.retain cam days now) disk := by
  have tree' {archive : Versioned String fun _ => File} {served : Nat}
      (reads : ∀ path, (archive.read path).isSome → archive.read path = disk.archive.read path) :
      Tree around { disk with archive := archive, served := served } := by
    refine ⟨tree.stands, tree.fresh, tree.numbered, fun path file stored => ?_, fun path there segment => ?_⟩
    · have same := reads path (by rw [stored]; rfl)
      exact tree.named path file (same ▸ stored)
    · exact tree.placed path (reads path there ▸ there) segment
  apply Alone.call
  show Alone sameDevice _ (retainRounds (now - days * 86400) (mediaOf disk (toString cam)) [] 0 >>= _) disk.tick
  apply Safe.bind
  refine Safe.mono ?_ (retainRounds_removes _ _ _)
  rintro _ middle ⟨rfl, removed⟩
  obtain ⟨⟨archive, served, rfl⟩, reads⟩ := removed
  have files (path : String) : archive.read path = if ∃ segment ∈ mediaOf disk (toString cam), segment.path = path ∧
      segment.end_ < now - days * 86400 then none else disk.archive.read path := by
    rw [← if_congr mem_expired rfl rfl]
    exact reads path
  have fewer (path : String) (there : (archive.read path).isSome) : archive.read path = disk.archive.read path := by
    rw [files] at there ⊢
    split at there
    · cases there
    next stays => rw [if_neg stays]
  rw [Nat.zero_add]
  by_cases none_ : (expired (now - days * 86400) (mediaOf disk (toString cam))).length = 0
  · -- nothing was removed, and no line is written
    rw [none_]
    have same := live_self (List.length_eq_zero_iff.mp none_)
    exact ⟨rfl, ⟨rfl, rfl, files, same.symm, fun _ _ => rfl⟩, tree' fewer⟩
  · dsimp only
    rw [if_pos none_]
    apply Safe.bind
    refine Safe.mono ?_ (rewrite_keeps _)
    rintro _ _ ⟨rfl, served', rfl⟩
    have fresh : FreshInodes ({ disk with archive := archive, served := served' } : Disk) := tree.fresh
    refine ⟨rfl, ⟨rfl, rfl, files, ?_, fun other differs => linesOf_withManifest_other fresh _ differs⟩, ?_⟩
    · rw [linesOf_withManifest_self]
      exact written_eq settled
    · have kept : Tree around ({ disk with archive := archive, served := served' } : Disk) := tree' fewer
      exact kept.frame ⟨rfl, rfl, rfl, rfl⟩ (fresh.withManifest _ _)

/-! ## The manifests afterwards -/

/-- The camera's manifest is still as a repair writes it. -/
theorem Retained.settled (retained : Retained cutoff unit disk disk') (settled : Settled around disk unit) :
    Settled around disk' unit := by
  have media : mediaOf disk' unit = recent cutoff (mediaOf disk unit) := by
    rw [mediaOf, retained.lines]
    exact media_live _
  refine ⟨?_, fun path => ?_, ?_⟩
  · show ((mediaOf disk' unit).map Segment.path).Nodup
    rw [media]
    exact (List.filter_sublist.map Segment.path).nodup settled.nodup
  · show path ∈ (mediaOf disk' unit).map Segment.path ↔ _
    rw [media, Archived, retained.files]
    constructor
    · intro member
      obtain ⟨segment, inside, rfl⟩ := List.mem_map.mp member
      obtain ⟨listed, young⟩ := List.mem_filter.mp inside
      have stays : ¬ ∃ other ∈ mediaOf disk unit, other.path = segment.path ∧ other.end_ < cutoff := by
        rintro ⟨other, listed', same, old⟩
        rw [List.inj_on_of_nodup_map settled.nodup listed' listed same] at old
        simp [old] at young
      rw [if_neg stays]
      exact (settled.inside _).mp (List.mem_map_of_mem listed)
    · rintro ⟨there, segment⟩
      split at there
      · cases there
      next stays =>
        obtain ⟨line, listed, rfl⟩ := List.mem_map.mp ((settled.inside path).mpr ⟨there, segment⟩)
        refine List.mem_map_of_mem (List.mem_filter.mpr ⟨listed, ?_⟩)
        simpa using fun old => stays ⟨line, listed, rfl, old⟩
  · have all : (live cutoff ((disk.linesOf unit).filter isMedia)).filter isMedia =
        live cutoff ((disk.linesOf unit).filter isMedia) := by
      refine List.filter_eq_self.mpr fun entry member => ?_
      exact (List.mem_filter.mp (List.mem_of_mem_filter member)).2
    have none_ : (overEntries around unit).filter isMedia = [] := filter_events _
    rw [retained.lines, live_lines settled, sortEntries_filter, List.filter_append, all, none_, List.append_nil,
      sortEntries_sorted_append]

/-- Another camera's manifest too: its files are where they were. -/
theorem Retained.settled_other (retained : Retained cutoff unit disk disk') (mine : Settled around disk unit)
    {other : String} (differs : other ≠ unit) (settled : Settled around disk other) : Settled around disk' other := by
  have lines := retained.others other differs
  have media : mediaPaths disk' other = mediaPaths disk other := by rw [mediaPaths, lines]; rfl
  refine ⟨media ▸ settled.nodup, fun path => ?_, ?_⟩
  · rw [media, settled.inside, Archived, Archived, retained.files]
    refine and_congr_left fun filed => ?_
    have stays : ¬ ∃ line ∈ mediaOf disk unit, line.path = path ∧ line.end_ < cutoff := by
      rintro ⟨line, listed, rfl, -⟩
      have placed := ((mine.inside _).mp (List.mem_map_of_mem listed)).2.2
      exact differs (filed.2.symm.trans placed)
    rw [if_neg stays]
  · rw [lines]
    exact settled.lines

def evening : Around :=
  ⟨1200, fun _ => [⟨"vms", "7", 3, 0, 600, "vms/7/e3/19700101T000000Z.events.jsonl", 4⟩], fun _ => 0, fun _ => 30⟩

def staleLines : Disk where
  spool := Versioned.empty 0
  archive := ((Versioned.empty 0).write "vms/7/e3/19700101T000000Z.mp4" ⟨[1, 2, 3], 600⟩).write
    "vms/7/e3/19700101T001000Z.mp4" ⟨[4], 1190⟩
  units := ["7"]
  manifest unit := if unit = "7" then some 0 else none
  inodes _ := [.media ⟨7, 3, 0, 590, "vms/7/e3/19700101T000000Z.mp4", 3⟩,
    .media ⟨7, 2, 0, 300, "vms/7/e2/19691231T230000Z.mp4", 8⟩,
    .media ⟨7, 3, 0, 600, "vms/7/e3/19700101T000000Z.mp4", 3⟩]
  fresh := 1
  around _ := evening
  served := 0

theorem staleLines_tree : Tree evening staleLines where
  stands := rfl
  fresh unit inode stands := by
    obtain ⟨-, same⟩ := Option.ite_none_right_eq_some.mp stands
    cases same
    exact Nat.one_pos
  numbered unit member _ := by
    obtain rfl | nothing := List.mem_cons.mp member
    · exact ⟨7, by decide +kernel⟩
    · cases nothing
  named := named_of_keys (by decide +kernel)
  placed path there _ := by
    have member : path ∈ staleLines.archive.keys := by
      rw [Versioned.mem_keys]
      exact Option.isSome_iff_ne_none.mp there
    have place : ∀ path ∈ staleLines.archive.keys, unitIn path ∈ staleLines.units := by decide +kernel
    exact place path member

end EdgeVms.Verified.ExactRetention
