import EdgeVms.Verified.Vms.Repair

/-! # Promotion loses nothing

The worker moves closed segments into the archive, step by step, and may crash at
every step; the resource job rewrites the manifests meanwhile.  `Kept` is what
holds between any two steps: each closed segment lies whole in the spool or in
the archive.
-/

namespace EdgeVms.Verified

open Process Python Platform Vms Archive

variable {sameDevice : Bool} {closed : String → Option File} {disk : Disk}

/-- Each closed segment is whole in the spool or in the archive, and every file is where it belongs. -/
structure Kept (closed : String → Option File) (disk : Disk) : Prop where
  numbered : Numbered disk
  fresh : FreshInodes disk
  named : ∀ path file, disk.archive.read path = some file → Named path
  placed : ∀ path file, disk.archive.read path = some file → Canonical path → unitIn path ∈ disk.units
  spooled : ∀ path file, disk.spool.read path = some file → closed path = some file ∧ Named path
  whole : ∀ path file, closed path = some file → Canonical path →
    disk.spool.read path = some file ∨ disk.archive.read path = some file

/-- The media are the same, and no directory has gone. -/
structure SameMedia (disk disk' : Disk) : Prop where
  spool : disk'.spool = disk.spool
  archive : disk'.archive = disk.archive
  units : ∀ unit ∈ disk.units, unit ∈ disk'.units

theorem SameMedia.refl (disk : Disk) : SameMedia disk disk := ⟨rfl, rfl, fun _ inside => inside⟩

theorem SameMedia.trans {disk disk' disk'' : Disk} (first : SameMedia disk disk') (second : SameMedia disk' disk'') :
    SameMedia disk disk'' :=
  ⟨second.spool.trans first.spool, second.archive.trans first.archive,
    fun unit inside => second.units unit (first.units unit inside)⟩

theorem Kept.of_sameMedia {disk' : Disk} (kept : Kept closed disk) (same : SameMedia disk disk')
    (numbered : Numbered disk') (fresh : FreshInodes disk') : Kept closed disk' := by
  obtain ⟨spool, archive, units⟩ := same
  refine ⟨numbered, fresh, ?_, ?_, ?_, ?_⟩
  · rw [archive]
    exact kept.named
  · rw [archive]
    exact fun path file stored segment => units _ (kept.placed path file stored segment)
  · rw [spool]
    exact kept.spooled
  · rw [spool, archive]
    exact kept.whole

theorem Kept.tick (kept : Kept closed disk) : Kept closed disk.tick :=
  kept.of_sameMedia ⟨rfl, rfl, fun _ inside => inside⟩ kept.numbered kept.fresh

theorem temporary_not_canonical {path : String} (segment : Canonical path) : ¬ Canonical (path ++ ".tmp") := by
  rintro ⟨_, _, _, parsed, -⟩
  obtain ⟨_, _, _, parsed', -⟩ := segment
  rw [parse_temporary parsed'] at parsed
  cases parsed

theorem canonical_ne_temporary {path other : String} (segment : Canonical path) (segment' : Canonical other) :
    other ≠ path ++ ".tmp" := by
  rintro rfl
  exact temporary_not_canonical segment segment'

/-- A copy under way changes nothing about the segments. -/
theorem Kept.temporary {path : String} (kept : Kept closed disk) (segment : Canonical path) (file : File) :
    Kept closed { disk.tick with archive := disk.archive.write (path ++ ".tmp") file } := by
  have read : ∀ other, other ≠ path ++ ".tmp" →
      (disk.archive.write (path ++ ".tmp") file).read other = disk.archive.read other :=
    fun other differs => Versioned.read_write_other _ _ differs
  refine ⟨kept.numbered, kept.fresh, ?_, ?_, kept.spooled, ?_⟩
  · intro other file' stored
    by_cases same : other = path ++ ".tmp"
    · obtain ⟨_, _, _, parsed, -⟩ := segment
      rw [same]
      exact .inl (parse_temporary parsed)
    · exact kept.named other file' ((read other same).symm.trans stored)
  · intro other file' stored segment'
    exact kept.placed other file' ((read other (canonical_ne_temporary segment segment')).symm.trans stored) segment'
  · intro other file' was segment'
    rw [read other (canonical_ne_temporary segment segment')]
    exact kept.whole other file' was segment'

/-- A closed segment arrives in the archive, or leaves the spool when it is there. -/
theorem Kept.arrive {disk' : Disk} {path : String} {file : File} (kept : Kept closed disk) (segment : Canonical path)
    (was : closed path = some file) (place : unitIn path ∈ disk.units) (units : disk'.units = disk.units)
    (manifest : disk'.manifest = disk.manifest) (fresh : disk'.fresh = disk.fresh)
    (there : disk'.archive.read path = some file)
    (old : ∀ other file', other ≠ path → disk'.archive.read other = some file' → disk.archive.read other = some file')
    (still : ∀ other, other ≠ path → Canonical other → disk'.archive.read other = disk.archive.read other)
    (spool : ∀ other file', disk'.spool.read other = some file' → disk.spool.read other = some file')
    (waiting : ∀ other, other ≠ path → disk'.spool.read other = disk.spool.read other) : Kept closed disk' := by
  refine ⟨?_, ?_, ?_, ?_, fun other file' stored => kept.spooled other file' (spool other file' stored), ?_⟩
  · rw [Numbered, units]
    exact kept.numbered
  · rw [FreshInodes, manifest, fresh]
    exact kept.fresh
  · intro other file' stored
    by_cases same : other = path
    · rw [same]
      exact .inr segment
    · exact kept.named other file' (old other file' same stored)
  · intro other file' stored segment'
    rw [units]
    by_cases same : other = path
    · rw [same]
      exact place
    · exact kept.placed other file' (old other file' same stored) segment'
  · intro other file' was' segment'
    by_cases same : other = path
    · subst same
      rw [was] at was'
      cases was'
      exact .inr there
    · rw [waiting other same, still other same segment']
      exact kept.whole other file' was' segment'

theorem Kept.makeUnit (kept : Kept closed disk) (sameDevice : Bool) (cam : Int) :
    Kept closed (Disk.handler sameDevice (.makeUnit (toString cam)) disk).2 ∧
      SameMedia disk (Disk.handler sameDevice (.makeUnit (toString cam)) disk).2 ∧
      toString cam ∈ (Disk.handler sameDevice (.makeUnit (toString cam)) disk).2.units := by
  dsimp only [Disk.handler]
  split
  next there => exact ⟨kept.tick, ⟨rfl, rfl, fun _ inside => inside⟩, there⟩
  next absent =>
    have same : SameMedia disk { disk.tick with units := toString cam :: disk.units } :=
      ⟨rfl, rfl, fun _ inside => .tail _ inside⟩
    refine ⟨kept.of_sameMedia same ?_ kept.fresh, same, .head _⟩
    intro unit inside digits
    obtain rfl | old := List.mem_cons.mp inside
    · exact ⟨cam, rfl⟩
    · exact kept.numbered unit old digits

theorem Kept.withManifest (kept : Kept closed disk) (unit : String) (entries : List Vms.Entry) :
    Kept closed (disk.tick.withManifest unit entries) := by
  have fresh : FreshInodes disk.tick := kept.fresh
  refine kept.of_sameMedia ⟨rfl, rfl, fun _ inside => inside⟩ kept.numbered ?_
  exact fresh.withManifest unit entries

theorem Kept.open_ (kept : Kept closed disk) (sameDevice : Bool) (unit : String) :
    Kept closed (Disk.handler sameDevice (.open_ unit) disk).2 ∧
      SameMedia disk (Disk.handler sameDevice (.open_ unit) disk).2 := by
  dsimp only [Disk.handler]
  split
  · exact ⟨kept.tick, ⟨rfl, rfl, fun _ inside => inside⟩⟩
  · exact ⟨kept.withManifest unit [], ⟨rfl, rfl, fun _ inside => inside⟩⟩

/-! ## The worker, while the manifests change -/

/-- The program keeps what was closed, whatever happens to the manifests meanwhile. -/
abbrev Keeping {α : Type} (sameDevice : Bool) (closed : String → Option File) (post : Except Fault α → Disk → Prop)
    (p : Program α) (disk : Disk) : Prop :=
  Safe (Disk.handler sameDevice) (fun _ disk disk' => SameMedia disk disk' ∧ Kept closed disk')
    (fun _ disk' => Kept closed disk') post p disk

theorem keeping_ask {β : Type} {post : Except Fault β → Disk → Prop} {request : Request}
    {f : request.Answer → Program β}
    (step : ∀ disk', SameMedia disk disk' → Kept closed disk' →
      Kept closed (Disk.handler sameDevice request disk').2 ∧
        Keeping sameDevice closed post (f (Disk.handler sameDevice request disk').1)
          (Disk.handler sameDevice request disk').2) :
    Keeping sameDevice closed post (ask request >>= f) disk := fun disk' moved => step disk' moved.1 moved.2

/-- What stays of a disk while one segment is copied. -/
structure Copying (disk disk' : Disk) : Prop where
  spool : disk'.spool = disk.spool
  units : ∀ unit ∈ disk.units, unit ∈ disk'.units

theorem Copying.refl (disk : Disk) : Copying disk disk := ⟨rfl, fun _ inside => inside⟩

theorem Copying.trans {disk disk' disk'' : Disk} (first : Copying disk disk') (second : Copying disk' disk'') :
    Copying disk disk'' :=
  ⟨second.spool.trans first.spool, fun unit inside => second.units unit (first.units unit inside)⟩

theorem SameMedia.copying {disk' : Disk} (same : SameMedia disk disk') : Copying disk disk' := ⟨same.spool, same.units⟩

theorem extendRounds_keeping {path : String} (segment : Canonical path) {bytes done : List UInt8} {mtime : ℚ}
    (there : disk.archive.read (path ++ ".tmp") = some ⟨done, mtime⟩) :
    Keeping sameDevice closed (fun result disk' => result = .ok () ∧ Copying disk disk' ∧
      ∃ mtime, disk'.archive.read (path ++ ".tmp") = some ⟨done ++ bytes, mtime⟩)
      (extendRounds (path ++ ".tmp") bytes) disk := by
  induction bytes generalizing disk done mtime with
  | nil => exact ⟨rfl, .refl _, mtime, by rw [List.append_nil]; exact there⟩
  | cons byte rest ih =>
    apply keeping_ask
    intro disk' same kept
    have stored : disk'.tick.archive.read (path ++ ".tmp") = some ⟨done, mtime⟩ := by
      rw [← there, ← same.archive]
      rfl
    have edited : Disk.handler sameDevice (.extend (path ++ ".tmp") byte) disk' = (.ok (),
        { disk'.tick with archive := disk'.archive.write (path ++ ".tmp") ⟨done ++ [byte], disk'.now.wall⟩ }) := by
      show Disk.edit disk'.tick (path ++ ".tmp") _ = _
      rw [Disk.edit, stored]
      rfl
    rw [edited]
    refine ⟨kept.temporary segment _, ?_⟩
    refine Safe.mono ?_ (ih (Versioned.read_write_self _ _ _))
    rintro _ disk'' ⟨rfl, copying, mtime', copied⟩
    refine ⟨rfl, same.copying.trans ⟨copying.spool, copying.units⟩, mtime', ?_⟩
    rw [copied, List.append_assoc]
    rfl

theorem copy2_keeping {path : String} {file : File} (segment : Canonical path)
    (waits : disk.spool.read path = some file) :
    Keeping sameDevice closed (fun result disk' => result = .ok () ∧ Copying disk disk' ∧
      disk'.archive.read (path ++ ".tmp") = some file) (copy2 path (path ++ ".tmp")) disk := by
  apply keeping_ask
  intro first same kept
  have waits₁ : first.spool.read path = some file := by rw [same.spool, waits]
  have answered : (Disk.handler sameDevice (.read path) first).1 = .ok file.bytes := by
    simp only [Disk.handler, waits₁]
  refine ⟨kept.tick, ?_⟩
  rw [answered]
  apply keeping_ask
  intro second same' kept'
  refine ⟨kept'.temporary segment _, ?_⟩
  apply Safe.bind
  refine Safe.mono ?_ (extendRounds_keeping segment (Versioned.read_write_self _ _ _))
  rintro _ third ⟨rfl, copying, mtime, copied⟩
  have spool₃ : third.spool = disk.spool := copying.spool.trans (same'.spool.trans same.spool)
  have units₃ : ∀ unit ∈ disk.units, unit ∈ third.units :=
    fun unit inside => copying.units unit (same'.units unit (same.units unit inside))
  apply keeping_ask
  intro fourth same₄ kept₄
  have waits₄ : fourth.spool.read path = some file := by rw [same₄.spool, spool₃, waits]
  have answered₄ : (Disk.handler sameDevice (.stat .spool path) fourth).1 = .ok ⟨file.bytes.length, file.mtime⟩ := by
    simp [Disk.handler, Disk.stat, Disk.folder, waits₄]
  refine ⟨kept₄.tick, ?_⟩
  rw [answered₄]
  apply keeping_ask
  intro fifth same₅ kept₅
  have stored : fifth.tick.archive.read (path ++ ".tmp") = some ⟨file.bytes, mtime⟩ := by
    show fifth.archive.read _ = _
    rw [same₅.archive]
    show fourth.archive.read _ = _
    rw [same₄.archive, copied]
    rfl
  have edited : Disk.handler sameDevice (.setTime (path ++ ".tmp") file.mtime) fifth = (.ok (),
      { fifth.tick with archive := fifth.archive.write (path ++ ".tmp") file }) := by
    show Disk.edit fifth.tick (path ++ ".tmp") _ = _
    rw [Disk.edit, stored]
    rfl
  rw [edited]
  refine ⟨kept₅.temporary segment file, rfl, ⟨?_, ?_⟩, Versioned.read_write_self _ _ _⟩
  · exact same₅.spool.trans (same₄.spool.trans spool₃)
  · exact fun unit inside => same₅.units unit (same₄.units unit (units₃ unit inside))

/-- The segment has left the spool. -/
structure Promoted (disk disk' : Disk) (path : String) : Prop where
  spool : disk'.spool = disk.spool.remove path
  units : ∀ unit ∈ disk.units, unit ∈ disk'.units

/-- By renaming or by copying, the segment reaches the archive before it leaves the spool. -/
theorem move_keeping {path : String} {file : File} (segment : Canonical path) (place : unitIn path ∈ disk.units)
    (waits : disk.spool.read path = some file) :
    Keeping sameDevice closed (fun result disk' => result = .ok () ∧ Promoted disk disk' path) (move path) disk := by
  apply Safe.tryCatch
  apply keeping_ask
  intro first same kept
  have waits₁ : first.spool.read path = some file := by rw [same.spool, waits]
  have was : closed path = some file := (kept.spooled path file waits₁).1
  have place₁ : unitIn path ∈ first.units := same.units _ place
  cases sameDevice with
  | true =>
    have renamed : Disk.handler true (.rename path) first = (.ok (),
        { first.tick with spool := first.spool.remove path, archive := first.archive.write path file }) := by
      simp [Disk.handler, waits₁]
    rw [renamed]
    refine ⟨?_, rfl, ⟨?_, same.units⟩⟩
    · refine kept.arrive segment was place₁ rfl rfl rfl (Versioned.read_write_self _ _ _) ?_ ?_ ?_ ?_
      · intro other file' differs stored
        rwa [Versioned.read_write_other _ _ differs] at stored
      · intro other differs segment'
        exact Versioned.read_write_other _ _ differs
      · intro other file' stored
        exact Versioned.read_of_read_remove stored
      · intro other differs
        exact Versioned.read_remove_other _ differs
    · show first.spool.remove path = _
      rw [same.spool]
  | false =>
    have refused : Disk.handler false (.rename path) first = (.error .crossDevice, first.tick) := by
      simp [Disk.handler, waits₁]
    rw [refused]
    refine ⟨kept.tick, ?_⟩
    apply Safe.bind
    refine Safe.mono ?_ (copy2_keeping segment waits₁)
    rintro _ second ⟨rfl, copying, copied⟩
    apply keeping_ask
    intro third same₃ kept₃
    have copied₃ : third.archive.read (path ++ ".tmp") = some file := by rw [same₃.archive, copied]
    have replaced : Disk.handler false (.replace (path ++ ".tmp") path) third = (.ok (),
        { third.tick with archive := (third.archive.remove (path ++ ".tmp")).write path file }) := by
      simp only [Disk.handler, copied₃]
    rw [replaced]
    have place₃ : unitIn path ∈ third.units := same₃.units _ (copying.units _ place₁)
    refine ⟨?_, ?_⟩
    · refine kept₃.arrive segment was place₃ rfl rfl rfl (Versioned.read_write_self _ _ _) ?_ ?_ ?_ ?_
      · intro other file' differs stored
        rw [Versioned.read_write_other _ _ differs] at stored
        exact Versioned.read_of_read_remove stored
      · intro other differs segment'
        show ((third.archive.remove (path ++ ".tmp")).write path file).read other = _
        rw [Versioned.read_write_other _ _ differs]
        exact Versioned.read_remove_other _ (canonical_ne_temporary segment segment')
      · exact fun _ _ stored => stored
      · exact fun _ _ => rfl
    · apply keeping_ask
      intro fourth same₄ kept₄
      have spool₄ : fourth.spool = disk.spool :=
        same₄.spool.trans (same₃.spool.trans (copying.spool.trans same.spool))
      have there : fourth.archive.read path = some file := by
        rw [same₄.archive]
        exact Versioned.read_write_self _ _ _
      have place₄ : unitIn path ∈ fourth.units := same₄.units _ place₃
      have removed : Disk.handler false (.remove .spool path) fourth = (.ok (),
          { fourth.tick with spool := fourth.spool.remove path }) := by
        simp [Disk.handler, spool₄, waits]
      rw [removed]
      refine ⟨?_, rfl, ⟨?_, ?_⟩⟩
      · refine kept₄.arrive segment was place₄ rfl rfl rfl there ?_ ?_ ?_ ?_
        · exact fun _ _ _ stored => stored
        · exact fun _ _ _ => rfl
        · exact fun _ _ stored => Versioned.read_of_read_remove stored
        · exact fun _ differs => Versioned.read_remove_other _ differs
      · show fourth.spool.remove path = _
        rw [spool₄]
      · intro unit inside
        exact same₄.units unit (same₃.units unit (copying.units unit (same.units unit inside)))

theorem append_keeping (cam : Int) (entry : Vms.Entry) :
    Keeping sameDevice closed (fun result disk' => result = .ok () ∧ Copying disk disk')
      (append (toString cam) entry) disk := by
  apply keeping_ask
  intro first same kept
  obtain ⟨kept', made, -⟩ := kept.makeUnit sameDevice cam
  refine ⟨kept', ?_⟩
  apply keeping_ask
  intro second same₂ kept₂
  obtain ⟨kept₂', opened⟩ := kept₂.open_ sameDevice (toString cam)
  refine ⟨kept₂', ?_⟩
  intro third ⟨same₃, kept₃⟩
  have same' : SameMedia disk third := same.trans (made.trans (same₂.trans (opened.trans same₃)))
  refine ⟨?_, rfl, ⟨same'.spool, same'.units⟩⟩
  exact kept₃.of_sameMedia ⟨rfl, rfl, fun _ inside => inside⟩ kept₃.numbered kept₃.fresh

/-- A promotion of a segment that is in the spool succeeds. -/
theorem promote_keeping (path : String) (end_ : Option ℚ) :
    Keeping sameDevice closed (fun result disk' => ∀ file, disk.spool.read path = some file → Canonical path →
      (∃ seg, result = .ok seg) ∧ Promoted disk disk' path) (promote path end_) disk := by
  unfold promote
  cases parsed : parse path with
  | error error =>
    rintro file waits ⟨cam, epoch, start, parsed', -⟩
    rw [parsed] at parsed'
    cases parsed'
  | ok found =>
    cases found with
    | none =>
      rintro file waits ⟨cam, epoch, start, parsed', -⟩
      rw [parsed] at parsed'
      cases parsed'
    | some three =>
      obtain ⟨cam, epoch, start⟩ := three
      apply keeping_ask
      intro first same kept
      refine ⟨kept.tick, ?_⟩
      cases waits : first.spool.read path with
      | none =>
        have answered : (Disk.handler sameDevice (.stat .spool path) first).1 = .error .fileNotFound := by
          simp [Disk.handler, Disk.stat, Disk.folder, waits]
        rw [answered]
        intro file stored
        rw [same.spool, stored] at waits
        cases waits
      | some file =>
        have answered : (Disk.handler sameDevice (.stat .spool path) first).1 =
            .ok ⟨file.bytes.length, file.mtime⟩ := by
          simp [Disk.handler, Disk.stat, Disk.folder, waits]
        rw [answered]
        have segment : Canonical path := by
          refine (kept.spooled path file waits).2.resolve_left fun nothing => ?_
          rw [parsed] at nothing
          cases nothing
        obtain ⟨cam', epoch', start', parsed', unit⟩ := id segment
        rw [parsed] at parsed'
        cases parsed'
        apply keeping_ask
        intro second same₂ kept₂
        rw [unit]
        obtain ⟨kept₂', made, place⟩ := kept₂.makeUnit sameDevice cam
        refine ⟨kept₂', ?_⟩
        have spool₂ := made.spool.trans (same₂.spool.trans same.spool)
        apply Safe.bind
        refine Safe.mono ?_ (move_keeping segment (unit ▸ place) (by rw [made.spool, same₂.spool]; exact waits))
        rintro _ third ⟨rfl, promoted⟩
        apply Safe.bind
        refine Safe.mono ?_ (append_keeping cam _)
        rintro _ fourth ⟨rfl, copying⟩ file' stored -
        refine ⟨⟨_, rfl⟩, ⟨?_, ?_⟩⟩
        · rw [copying.spool, promoted.spool, spool₂]
        · intro unit' inside
          exact copying.units _ (promoted.units _ (made.units _ (same₂.units _ (same.units _ inside))))

/-! ## The restart -/

theorem closedRounds_keeping {graceSeconds now : ℚ} {paths out : List String}
    (waiting : ∀ path ∈ paths, Named path ∧ ∃ file, disk.spool.read path = some file) :
    Keeping sameDevice closed (fun result disk' => ∃ due, result = .ok (out ++ due) ∧ SameMedia disk disk' ∧
      due.Sublist paths ∧ (∀ path ∈ due, Canonical path) ∧ ∀ path ∈ paths, ∀ file,
        disk.spool.read path = some file → Canonical path → path ∉ due → now - file.mtime < graceSeconds)
      (closedRounds graceSeconds now paths out) disk := by
  induction paths generalizing out disk with
  | nil => exact ⟨[], by rw [List.append_nil], .refl _, .refl _, nofun, nofun⟩
  | cons path rest ih =>
    obtain ⟨named, file, waits⟩ := waiting path (.head _)
    rw [closedRounds]
    obtain nothing | segment := named
    · rw [nothing]
      refine Safe.mono ?_ (ih fun other member => waiting other (.tail _ member))
      rintro _ disk' ⟨due, rfl, same, sub, segments, young⟩
      refine ⟨due, rfl, same, .cons _ sub, segments, fun other member file' stored segment => ?_⟩
      obtain rfl | later := List.mem_cons.mp member
      · obtain ⟨_, _, _, parsed, -⟩ := segment
        rw [nothing] at parsed
        cases parsed
      · exact young other later file' stored segment
    · obtain ⟨_, _, _, parsed, -⟩ := id segment
      rw [parsed]
      apply keeping_ask
      intro first same kept
      refine ⟨kept.tick, ?_⟩
      have answered : (Disk.handler sameDevice (.stat .spool path) first).1 = .ok ⟨file.bytes.length, file.mtime⟩ := by
        simp [Disk.handler, Disk.stat, Disk.folder, same.spool, waits]
      rw [answered]
      have waiting' : ∀ other ∈ rest, Named other ∧ ∃ file, first.tick.spool.read other = some file := by
        intro other member
        show Named other ∧ ∃ file, first.spool.read other = some file
        rw [same.spool]
        exact waiting other (.tail _ member)
      refine Safe.mono ?_ (ih waiting')
      rintro _ disk' ⟨due, rfl, same', sub, segments, young⟩
      have still : SameMedia disk disk' := same.trans ⟨same'.spool, same'.archive, same'.units⟩
      have young' : ∀ other ∈ rest, ∀ file, disk.spool.read other = some file → Canonical other → other ∉ due →
          now - file.mtime < graceSeconds := by
        intro other member file' stored
        rw [← same.spool] at stored
        exact young other member file' stored
      split
      next overdue =>
        refine ⟨path :: due, by simp, still, .cons_cons _ sub, ?_, ?_⟩
        · exact List.forall_mem_cons.mpr ⟨segment, segments⟩
        · intro other member file' stored segment' absent
          rw [List.mem_cons, not_or] at absent
          exact young' other ((List.mem_cons.mp member).resolve_left absent.1) file' stored segment' absent.2
      next early =>
        refine ⟨due, rfl, still, .cons _ sub, segments, fun other member file' stored segment' absent => ?_⟩
        obtain rfl | later := List.mem_cons.mp member
        · rw [waits] at stored
          cases stored
          exact not_le.mp early
        · exact young' other later file' stored segment' absent

theorem promoteRounds_keeping {paths : List String} (nodup : paths.Nodup)
    (waiting : ∀ path ∈ paths, Canonical path ∧ ∃ file, disk.spool.read path = some file) :
    Keeping sameDevice closed (fun result disk' => result = .ok () ∧ (∀ path ∈ paths, disk'.spool.read path = none) ∧
      ∀ path file, disk'.spool.read path = some file → disk.spool.read path = some file)
      (promoteRounds paths) disk := by
  induction paths generalizing disk with
  | nil => exact ⟨rfl, nofun, fun _ _ stored => stored⟩
  | cons path rest ih =>
    obtain ⟨outside, nodup'⟩ := List.nodup_cons.mp nodup
    obtain ⟨segment, file, waits⟩ := waiting path (.head _)
    apply Safe.bind
    refine Safe.mono ?_ (promote_keeping path none)
    intro result middle promotes
    obtain ⟨⟨seg, rfl⟩, promoted⟩ := promotes file waits segment
    have waiting' : ∀ other ∈ rest, Canonical other ∧ ∃ file, middle.spool.read other = some file := by
      intro other member
      rw [promoted.spool, Versioned.read_remove_other _ (ne_of_mem_of_not_mem member outside)]
      exact waiting other (.tail _ member)
    refine Safe.mono ?_ (ih nodup' waiting')
    rintro _ disk' ⟨rfl, left, still⟩
    have still' : ∀ other file, disk'.spool.read other = some file → disk.spool.read other = some file := by
      intro other file' stored
      have stored' := still other file' stored
      rw [promoted.spool] at stored'
      exact Versioned.read_of_read_remove stored'
    refine ⟨rfl, List.forall_mem_cons.mpr ⟨?_, left⟩, still'⟩
    cases there : disk'.spool.read path with
    | none => rfl
    | some file' =>
      have there' := still path file' there
      rw [promoted.spool, Versioned.read_remove, Function.update_self] at there'
      cases there'

/-- After the restart the spool holds no closed segment older than the grace. -/
def Emptied (now : ℚ) (disk : Disk) : Prop :=
  ∀ path file, disk.spool.read path = some file → Canonical path → now - file.mtime < 30

theorem startup_keeping (now : ℚ) :
    Keeping sameDevice closed (fun result disk' => result = .ok () ∧ Emptied now disk') (startup now) disk := by
  apply Safe.bind
  apply Safe.bind
  intro first ⟨same, kept⟩
  refine ⟨kept.tick, ?_⟩
  have walked : (Disk.handler sameDevice (.walk .spool "") first).1 = first.spool.keys := by
    simp [Disk.handler, Disk.folder]
  rw [walked]
  have waiting : ∀ path ∈ first.spool.keys, Named path ∧ ∃ file, first.tick.spool.read path = some file := by
    intro path member
    obtain ⟨file, stored⟩ := Option.ne_none_iff_exists'.mp ((Versioned.mem_keys _).mp member)
    exact ⟨(kept.spooled path file stored).2, file, stored⟩
  apply Safe.bind
  refine Safe.mono ?_ (closedRounds_keeping waiting)
  rintro _ second ⟨due, rfl, same₂, sub, segments, young⟩
  have spool₂ : second.spool = first.spool := same₂.spool
  have perm : (sorted ([] ++ due)).Perm due := List.perm_insertionSort _ _
  have waiting' : ∀ path ∈ sorted ([] ++ due), Canonical path ∧ ∃ file, second.spool.read path = some file := by
    intro path member
    have member' := perm.mem_iff.mp member
    rw [spool₂]
    exact ⟨segments path member', (waiting path (sub.subset member')).2⟩
  show Keeping sameDevice closed _ (promoteRounds (sorted ([] ++ due))) second
  refine Safe.mono ?_ (promoteRounds_keeping (perm.nodup_iff.mpr (sub.nodup first.spool.nodup)) waiting')
  rintro _ third ⟨rfl, left, still⟩
  refine ⟨rfl, fun path file stored segment => ?_⟩
  have stored' : first.spool.read path = some file := by
    rw [← spool₂]
    exact still path file stored
  have member : path ∈ first.spool.keys := by simp [Versioned.mem_keys, stored']
  refine young path member file stored' segment fun overdue => ?_
  rw [left path (perm.mem_iff.mpr overdue)] at stored
  cases stored

/-! ## The resource job, while segments are promoted -/

/-- The request changes manifests at most. -/
def Spares : Request → Prop
  | .makeUnit unit => ∃ cam : Int, unit = toString cam
  | .stat _ _ | .read _ | .walk _ _ | .units | .lines _ | .open_ _ | .append _ _ | .rewrite _ _ | .buckets _
  | .touched _ | .days _ | .wall => True
  | .rename _ | .create _ | .extend _ _ | .setTime _ _ | .replace _ _ | .remove _ _ => False

/-- A program that spares the media, if the retention finds nothing that ended before its cutoff. -/
def Harmless {α : Type} : Program α → Prop
  | .call (.retaining cutoff) (.lines _) next =>
    ∀ entries, (∀ segment ∈ entries.filterMap Vms.Entry.media?, cutoff ≤ segment.end_) → Harmless (next entries)
  | .call .idle request next => Spares request ∧ ∀ answer, Harmless (next answer)
  | .call (.retaining _) _ _ => False
  | _ => True

namespace Harmless

variable {α β : Type}

theorem bind {p : Program α} {f : α → Program β} (first : Harmless p) (later : ∀ value, Harmless (f value)) :
    Harmless (p >>= f) := by
  induction p with
  | ret value => exact later value
  | raise error => trivial
  | call label request next ih =>
    cases label with
    | idle => exact ⟨first.1, fun answer => ih answer (first.2 answer)⟩
    | retaining cutoff =>
      cases request with
      | lines unit => exact fun entries unexpired => ih entries (first entries unexpired)
      | _ => exact first.elim

theorem ask {request : Request} {f : request.Answer → Program β} (spares : Spares request)
    (later : ∀ answer, Harmless (f answer)) : Harmless (Archive.ask request >>= f) := ⟨spares, later⟩

theorem value (answer : Except Error α) : Harmless (Archive.value answer) := by
  cases answer <;> trivial

theorem ofExcept (answer : Except Fault α) : Harmless (Proc.ofExcept answer : Program α) := by
  cases answer <;> trivial

theorem cameras : Harmless Archive.cameras :=
  ask trivial fun _ => bind (value _) fun _ => trivial

theorem append (cam : Int) (entry : Vms.Entry) : Harmless (Archive.append (toString cam) entry) :=
  ask ⟨cam, rfl⟩ fun _ => ask trivial fun _ => ⟨trivial, fun _ => trivial⟩

theorem buckets (unit : String) : Harmless (Archive.buckets unit) := ask trivial fun _ => trivial

theorem rewrite (unit : String) (segs : List Segment) (given : List Bucket) :
    Harmless (Archive.rewrite unit segs (some given)) := ⟨trivial, fun _ => trivial⟩

theorem addRounds (here : Dict Parsed) (lines : Dict Segment) : Harmless (Archive.addRounds here lines) := by
  induction here generalizing lines with
  | nil => trivial
  | cons entry rest ih =>
    rw [Archive.addRounds]
    split
    · exact ih lines
    · exact ask trivial fun _ => bind (ofExcept _) fun _ => ih _

theorem overRounds (past : List Bucket) (out : Dict Bucket) : Harmless (Archive.overRounds past out) := by
  induction past generalizing out with
  | nil => trivial
  | cons bucket rest ih => exact ask trivial fun _ => ih _

theorem repairCamera (cam : Int) : Harmless (Archive.repairCamera cam) := by
  refine bind (ask trivial fun _ => trivial) fun _ => ?_
  refine ask trivial fun _ => ?_
  refine bind (value _) fun _ => ?_
  refine bind (addRounds _ _) fun _ => ?_
  refine bind (buckets _) fun _ => ?_
  refine ask trivial fun _ => ?_
  refine bind (overRounds _ _) fun _ => ?_
  exact bind (rewrite _ _ _) fun _ => trivial

theorem repairRounds (cams : List Int) (counts : Nat × Nat) : Harmless (Archive.repairRounds cams counts) := by
  induction cams generalizing counts with
  | nil => trivial
  | cons cam rest ih => exact bind (repairCamera cam) fun _ => ih _

theorem repair : Harmless Archive.repair := bind cameras fun _ => repairRounds _ _

theorem closeRounds (cam : Int) (now graceSeconds : ℚ) (known : List String) (past : List Bucket) (closed : Nat) :
    Harmless (Archive.closeRounds (toString cam) now graceSeconds known past closed) := by
  induction past generalizing closed with
  | nil => trivial
  | cons bucket rest ih =>
    rw [Archive.closeRounds]
    split
    · exact ih closed
    · refine ask trivial fun touched => ?_
      split
      · exact ih closed
      · exact bind (append cam _) fun _ => ih _

theorem closeBucketsRounds (now graceSeconds : ℚ) (cams : List Int) (closed : Nat) :
    Harmless (Archive.closeBucketsRounds now graceSeconds cams closed) := by
  induction cams generalizing closed with
  | nil => trivial
  | cons cam rest ih =>
    refine bind (buckets _) fun _ => ask trivial fun _ => ?_
    exact bind (closeRounds cam now graceSeconds _ _ _) fun _ => ih _

theorem closeBuckets (now graceSeconds : ℚ) : Harmless (Archive.closeBuckets now graceSeconds) :=
  bind cameras fun _ => closeBucketsRounds _ _ _ _

theorem retainRounds_unexpired {cutoff : ℚ} {segs keep : List Segment} {removed : Nat}
    (unexpired : ∀ segment ∈ segs, cutoff ≤ segment.end_) :
    Archive.retainRounds cutoff segs keep removed = .ret (keep ++ segs, removed) := by
  induction segs generalizing keep with
  | nil => rw [List.append_nil]; rfl
  | cons segment rest ih =>
    obtain ⟨stays, others⟩ := List.forall_mem_cons.mp unexpired
    rw [Archive.retainRounds, if_neg (not_lt.mpr stays), ih others, List.append_assoc]
    rfl

theorem retain (cam : Int) (days now : ℚ) : Harmless (Archive.retain cam days now) := by
  intro entries unexpired
  show Harmless (Archive.retainRounds (now - days * 86400) (entries.filterMap Vms.Entry.media?) [] 0 >>= _)
  rw [retainRounds_unexpired unexpired]
  trivial

theorem retainAll (now : ℚ) (cams : List Int) (removed : Nat) : Harmless (Archive.retainAll now cams removed) := by
  induction cams generalizing removed with
  | nil => trivial
  | cons cam rest ih =>
    refine ask trivial fun days => ?_
    exact bind (retain cam _ now) fun _ => ih _

theorem pass_ (now : ℚ) : Harmless (Archive.pass_ now) := by
  refine bind repair fun _ => ?_
  refine bind (closeBuckets now 30) fun _ => ?_
  refine bind cameras fun _ => ?_
  exact bind (retainAll now _ 0) fun _ => trivial

end Harmless

theorem Spares.keeps {request : Request} (spares : Spares request) (kept : Kept closed disk) :
    Kept closed (Disk.handler sameDevice request disk).2 ∧ SameMedia disk (Disk.handler sameDevice request disk).2 := by
  have ticked : Kept closed disk.tick ∧ SameMedia disk disk.tick := ⟨kept.tick, ⟨rfl, rfl, fun _ inside => inside⟩⟩
  cases request with
  | makeUnit unit =>
    obtain ⟨cam, rfl⟩ := spares
    obtain ⟨kept', same, -⟩ := kept.makeUnit sameDevice cam
    exact ⟨kept', same⟩
  | open_ unit => exact kept.open_ sameDevice unit
  | append inode entry =>
    have same : SameMedia disk (Disk.handler sameDevice (.append inode entry) disk).2 :=
      ⟨rfl, rfl, fun _ inside => inside⟩
    exact ⟨kept.of_sameMedia same kept.numbered kept.fresh, same⟩
  | rewrite unit entries => exact ⟨kept.withManifest unit entries, ⟨rfl, rfl, fun _ inside => inside⟩⟩
  | stat folder path => exact ticked
  | read path => exact ticked
  | walk folder above => exact ticked
  | units => exact ticked
  | lines unit => exact ticked
  | buckets unit => exact ticked
  | touched path => exact ticked
  | days cam => exact ticked
  | wall => exact ticked
  | rename | create | extend | setTime | replace | remove => exact spares.elim

/-! ## Runs -/

/-- The cutoff of a retention that is about to read a manifest, and the camera. -/
def retaining? {α : Type} : Program α → Option (ℚ × String)
  | .call (.retaining cutoff) (.lines unit) _ => some (cutoff, unit)
  | _ => none

/-- The retention, should it look now, finds no media line that ended before its cutoff. -/
def Spared {α : Type} (p : Program α) (disk : Disk) : Prop :=
  ∀ look ∈ retaining? p, ∀ segment ∈ (disk.linesOf look.2).filterMap Vms.Entry.media?, look.1 ≤ segment.end_

instance {α : Type} (p : Program α) (disk : Disk) : Decidable (Spared p disk) :=
  inferInstanceAs (Decidable (∀ look ∈ retaining? p, ∀ segment ∈ (disk.linesOf look.2).filterMap Vms.Entry.media?, _))

theorem Harmless.advance {α : Type} {p : Program α} (harmless : Harmless p) (spared : Spared p disk)
    (kept : Kept closed disk) (sameDevice : Bool) :
    Harmless (Proc.advance (Disk.handler sameDevice) (p, disk)).1 ∧
      Kept closed (Proc.advance (Disk.handler sameDevice) (p, disk)).2 ∧
        SameMedia disk (Proc.advance (Disk.handler sameDevice) (p, disk)).2 := by
  cases p with
  | ret value | raise error => exact ⟨trivial, kept, .refl _⟩
  | call label request next =>
    cases label with
    | idle => exact ⟨harmless.2 _, harmless.1.keeps kept⟩
    | retaining cutoff =>
      cases request with
      | lines unit => exact ⟨harmless _ (spared _ rfl), kept.tick, ⟨rfl, rfl, fun _ inside => inside⟩⟩
      | _ => exact harmless.elim

namespace Promotion

inductive Event where
  | worker
  | resource
  /-- A pipeline of the worker has closed a segment. -/
  | promote (path : String) (end_ : Option ℚ)
  /-- The worker dies where it stands and starts again. -/
  | restart (now : ℚ)
  /-- The resource job begins a pass, whatever became of the last one. -/
  | pass (now : ℚ)

structure Running where
  disk : Disk
  worker : Program Unit
  resource : Program Unit

/-- The worker has promoted all it had to. -/
structure Running.Promoted (running : Running) : Prop where
  worker : running.worker.Finished

instance (running : Running) : Decidable running.Promoted :=
  decidable_of_iff running.worker.Finished ⟨.mk, Running.Promoted.worker⟩

def start (disk : Disk) : Running := ⟨disk, .ret (), .ret ()⟩

def step (sameDevice : Bool) (running : Running) : Event → Running
  | .worker =>
    let (worker, disk) := Proc.advance (Disk.handler sameDevice) (running.worker, running.disk)
    { running with worker, disk }
  | .resource =>
    let (resource, disk) := Proc.advance (Disk.handler sameDevice) (running.resource, running.disk)
    { running with resource, disk }
  | .promote path end_ =>
    if running.worker.Finished then { running with worker := discard (promote path end_) } else running
  | .restart now => { running with worker := startup now }
  | .pass now => { running with resource := discard (pass_ now) }

/-- No retention finds anything that ended before its cutoff. -/
def Unexpired (running : Running) : Event → Prop
  | .resource => Spared running.resource running.disk
  | _ => True

instance (running : Running) : DecidablePred (Unexpired running)
  | .resource => inferInstanceAs (Decidable (Spared _ _))
  | .worker | .promote _ _ | .restart _ | .pass _ => .isTrue trivial

/-- The steps that two processes take, one promoting and one repairing. -/
def Event.Steps : Event → Prop
  | .worker | .resource | .pass _ => True
  | .promote _ _ | .restart _ => False

instance : DecidablePred Event.Steps
  | .worker | .resource | .pass _ => .isTrue trivial
  | .promote _ _ | .restart _ => .isFalse id

structure Going (sameDevice : Bool) (closed : String → Option File) (post : Except Fault Unit → Disk → Prop)
    (running : Running) : Prop where
  kept : Kept closed running.disk
  worker : Keeping sameDevice closed post running.worker running.disk
  resource : Harmless running.resource

variable {post : Except Fault Unit → Disk → Prop} {running : Running}

theorem Going.step_of_steps (stable : ∀ result disk disk', SameMedia disk disk' → post result disk → post result disk')
    {event : Event} (steps : event.Steps) (unexpired : Unexpired running event)
    (going : Going sameDevice closed post running) : Going sameDevice closed post (step sameDevice running event) := by
  obtain ⟨kept, worker, resource⟩ := going
  cases event with
  | worker =>
    obtain ⟨disk, program, resource'⟩ := running
    cases program with
    | ret value | raise error => exact ⟨kept, worker, resource⟩
    | call label request next =>
      obtain ⟨kept', later⟩ := worker disk ⟨.refl _, kept⟩
      exact ⟨kept', later, resource⟩
  | resource =>
    obtain ⟨resource', kept', same⟩ := resource.advance unexpired kept sameDevice
    refine ⟨kept', ?_, resource'⟩
    refine worker.moved_post ?_ ?_ ?_
    · exact fun _ _ _ _ first second => ⟨first.1.trans second.1, second.2⟩
    · exact fun result holds => stable result _ _ same holds
    · exact fun _ _ => ⟨same, kept'⟩
  | pass now => exact ⟨kept, worker, Harmless.bind (.pass_ now) fun _ => trivial⟩
  | promote | restart => exact steps.elim

theorem Going.step (event : Event) (unexpired : Unexpired running event)
    (going : Going sameDevice closed (fun _ _ => True) running) :
    Going sameDevice closed (fun _ _ => True) (step sameDevice running event) := by
  have anything : ∀ (result : Except Fault Unit) (disk disk' : Disk), SameMedia disk disk' → True → True :=
    fun _ _ _ _ _ => trivial
  cases event with
  | worker => exact going.step_of_steps anything trivial unexpired
  | resource => exact going.step_of_steps anything trivial unexpired
  | pass now => exact going.step_of_steps anything (show Event.Steps (.pass now) from trivial) unexpired
  | promote path end_ =>
    dsimp only [Promotion.step]
    split
    · refine ⟨going.kept, ?_, going.resource⟩
      apply Safe.bind
      refine Safe.mono ?_ (promote_keeping path end_)
      intro result disk _
      cases result <;> trivial
    · exact going
  | restart now =>
    exact ⟨going.kept, Safe.mono (fun _ _ _ => trivial) (startup_keeping now), going.resource⟩

/-- The disk before anything happens: every file is where the system puts it. -/
structure Tidy (disk : Disk) : Prop where
  numbered : Numbered disk
  fresh : FreshInodes disk
  spooled : ∀ path file, disk.spool.read path = some file → Named path
  named : ∀ path file, disk.archive.read path = some file → Named path
  placed : ∀ path file, disk.archive.read path = some file → Canonical path → unitIn path ∈ disk.units

/-- The segments that were closed before the run. -/
def closedIn (disk : Disk) (path : String) : Option File := (disk.spool.read path).or (disk.archive.read path)

theorem Tidy.kept (tidy : Tidy disk) : Kept (closedIn disk) disk := by
  refine ⟨tidy.numbered, tidy.fresh, tidy.named, tidy.placed, ?_, ?_⟩
  · intro path file stored
    exact ⟨by rw [closedIn, stored, Option.some_or], tidy.spooled path file stored⟩
  · intro path file was _
    unfold closedIn at was
    cases stored : disk.spool.read path with
    | some file' =>
      rw [stored, Option.some_or] at was
      exact .inl was
    | none =>
      rw [stored, Option.none_or] at was
      exact .inr was

theorem keeps_steps (stable : ∀ result disk disk', SameMedia disk disk' → post result disk → post result disk')
    {events : List Event} (steps : ∀ event ∈ events, event.Steps)
    (along : Along (step sameDevice) Unexpired events running) (going : Going sameDevice closed post running) :
    Going sameDevice closed post (events.foldl (step sameDevice) running) := by
  induction along with
  | nil => exact going
  | cons unexpired _ ih =>
    obtain ⟨here, later⟩ := List.forall_mem_cons.mp steps
    exact ih later (going.step_of_steps stable here unexpired)

def late : String := "vms/7/e3/20260912T100000Z.mp4"

def young : String := "vms/7/e3/20260912T101000Z.mp4"

def footage : File := ⟨[1, 2, 3], 600⟩

def twoClosed : Disk where
  spool := ((Versioned.empty 0).write late footage).write young ⟨[4], 1190⟩
  archive := (Versioned.empty 0).write "vms/7/e3/20260912T095000Z.mp4" ⟨[0], 0⟩
  units := ["7"]
  manifest := fun _ => none
  inodes := fun _ => []
  fresh := 0
  around := fun served => ⟨1200 + served, fun _ => [], fun _ => 0, fun _ => 30⟩
  served := 0

/-- The worker dies with a byte copied, while the resource job is at work. -/
def untilCrash : List Event :=
  .promote late none :: List.replicate 6 .worker ++ [.pass 1200, .resource, .resource]

def afterRestart : List Event :=
  List.replicate 4 .worker ++ List.replicate 20 .resource ++ List.replicate 20 .worker

theorem twoClosed_tidy : Tidy twoClosed where
  numbered := by
    intro unit member _
    obtain rfl | nothing := List.mem_cons.mp member
    · exact ⟨7, by decide +kernel⟩
    · cases nothing
  fresh := nofun
  spooled := named_of_keys (by decide +kernel)
  named := named_of_keys (by decide +kernel)
  placed := by
    intro path file stored _
    have member : path ∈ twoClosed.archive.keys := by simp [Versioned.mem_keys, stored]
    have place : ∀ path ∈ twoClosed.archive.keys, unitIn path ∈ twoClosed.units := by decide +kernel
    exact place path member

end Promotion

end EdgeVms.Verified
