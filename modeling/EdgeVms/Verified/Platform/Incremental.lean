import EdgeVms.Process.Alongside
import EdgeVms.Verified.Platform.EventHonesty

/-! # A tail pass completes a rebuild

Beside each other, a rebuild from nothing and a tail pass over tables that are there: as long as
the rebuild is answered, the tail pass is, and what it adds is what the rebuild finds.
-/

namespace EdgeVms.Verified.Incremental

open Process Python Platform EventIndex
open EventRows (Filed filed_of_mapM rowsOf_append)
open EventHonesty (taken insert_taken withRows withReading)

/-! ## What one bucket adds -/

/-- The rows that a bucket is indexed with, where it is read and taken. -/
def Readable (site : Site) (server : String) (source : Source) (b : Bucket) (rows : List EventRow) : Prop :=
  ∃ lines, site.lines source.origin server b.path = .ok lines ∧
    lines.val.mapM (rowOf server (source.filed b).1 (source.filed b).2 b.epoch b.path) = .ok rows ∧
      taken site server source b lines.val = true

/-- The rows of a bucket have been added, and nothing else. -/
structure Added (server path : String) (rows : List EventRow) (box box' : Box) : Prop where
  site : box'.site = box.site
  tables : box'.tables = ⟨box.tables.seen ++ [(server, path)], box.tables.events ++ rows⟩

variable {site : Site} {server : String} {source : Source} {b : Bucket} {rows : List EventRow} {box : Box}

/-- The rows that were made of a bucket are inserted. -/
def insertRounds (server : String) (source : Source) (b : Bucket) (rest : List Bucket) (rows : List EventRow) :
    Program Unit := do
  Proc.ofExcept (← EventIndex.ask (.insert server b.path rows))
  EventIndex.ask (.count (source.count rows.length))
  bucketRounds server source rest

/-- What is done with a bucket that is not in `seen`. -/
def readRounds (server : String) (source : Source) (b : Bucket) (rest : List Bucket) : Program Unit := do
  let lines ← Proc.ofExcept (← EventIndex.ask (.events source.origin server b.path))
  let rows ← Proc.ofExcept
    ((lines.mapM (rowOf server (source.filed b).1 (source.filed b).2 b.epoch b.path)).mapError Fault.python)
  insertRounds server source b rest rows

theorem run_bucketRounds (some : b.events ≠ 0) (unseen : (server, b.path) ∉ box.tables.seen) (rest : List Bucket) :
    (bucketRounds server source (b :: rest)).run EventIndex.handler box =
      (readRounds server source b rest).run EventIndex.handler box.tick := by
  have looked : (EventIndex.handler (.seen server b.path) box).1 = false := decide_eq_false unseen
  rw [bucketRounds, if_neg some]
  show (if (EventIndex.handler (.seen server b.path) box).1 = true then _ else readRounds server source b rest).run
    EventIndex.handler box.tick = _
  rw [looked, if_neg Bool.false_ne_true]

theorem run_ask {α : Type} (request : Request) (f : request.Answer → Program α) (box : Box) :
    (EventIndex.ask request >>= f).run EventIndex.handler box =
      (f (EventIndex.handler request box).1).run EventIndex.handler (EventIndex.handler request box).2 := rfl

theorem run_insertRounds (steady : box.site = fun _ => site) (unseen : (server, b.path) ∉ box.tables.seen)
    {lines : List Line}
    (made : lines.mapM (rowOf server (source.filed b).1 (source.filed b).2 b.epoch b.path) = .ok rows)
    (rest : List Bucket) :
    if taken site server source b lines then
      ∃ box', Added server b.path rows box box' ∧
        (insertRounds server source b rest rows).run EventIndex.handler box =
          (bucketRounds server source rest).run EventIndex.handler box'
    else ∃ fault box', (insertRounds server source b rest rows).run EventIndex.handler box = (.error fault, box') := by
  have inserts := insert_taken steady unseen made
  unfold insertRounds
  rw [run_ask]
  split at inserts
  next took =>
    rw [if_pos took, inserts]
    exact ⟨(EventIndex.handler (.count (source.count rows.length)) (withRows box server b.path rows)).2, ⟨rfl, rfl⟩,
      rfl⟩
  next untook =>
    obtain ⟨fault, fails⟩ := inserts
    rw [if_neg untook, fails]
    exact ⟨fault, box.tick, rfl⟩

/-- Either the rows of the bucket are added, or the program fails there. -/
theorem run_readRounds (source : Source) (steady : box.site = fun _ => site)
    (unseen : (server, b.path) ∉ box.tables.seen)
    (rest : List Bucket) :
    (∃ rows box', Readable site server source b rows ∧ Added server b.path rows box box' ∧
        (readRounds server source b rest).run EventIndex.handler box =
          (bucketRounds server source rest).run EventIndex.handler box') ∨
      ((∀ rows, ¬ Readable site server source b rows) ∧
        ∃ fault box', (readRounds server source b rest).run EventIndex.handler box = (.error fault, box')) := by
  have now : box.now = site := by rw [Box.now, steady]
  unfold readRounds
  rw [run_ask]
  cases answered : site.lines source.origin server b.path with
  | error fault =>
    have handled : EventIndex.handler (.events source.origin server b.path) box = (.error fault, box.tick) := by
      simp only [EventIndex.handler, now, answered]
    rw [handled]
    refine .inr ⟨?_, fault, box.tick, rfl⟩
    rintro rows ⟨lines, read, -⟩
    rw [answered] at read
    cases read
  | ok lines =>
    have handled : EventIndex.handler (.events source.origin server b.path) box =
        (.ok lines.val, withReading box ⟨source.origin, server, b.path, lines⟩) := by
      simp only [EventIndex.handler, now, answered]
      rfl
    rw [handled]
    generalize reads : withReading box ⟨source.origin, server, b.path, lines⟩ = box₁
    have tables₁ : box₁.tables = box.tables := by rw [← reads]; rfl
    have site₁ : box₁.site = box.site := by rw [← reads]; rfl
    -- what the bucket could be indexed with is made of these lines
    have only : ∀ rows, Readable site server source b rows →
        lines.val.mapM (rowOf server (source.filed b).1 (source.filed b).2 b.epoch b.path) = .ok rows ∧
          taken site server source b lines.val = true := by
      rintro rows ⟨lines', read, made, took⟩
      rw [answered] at read
      cases read
      exact ⟨made, took⟩
    show _ ∨ _ ∧ ∃ fault box', (Proc.bind (Proc.ofExcept (Except.mapError Fault.python (List.mapM _ lines.val))) _).run
      _ box₁ = _
    cases made : lines.val.mapM (rowOf server (source.filed b).1 (source.filed b).2 b.epoch b.path) with
    | error error =>
      refine .inr ⟨fun rows readable => ?_, .python error, box₁, rfl⟩
      rw [made] at only
      cases (only rows readable).1
    | ok rows =>
      have inserts := run_insertRounds (site₁.trans steady) (by rw [tables₁]; exact unseen) made rest
      split at inserts
      next took =>
        obtain ⟨box', added, ran⟩ := inserts
        refine .inl ⟨rows, box', ⟨lines, answered, made, took⟩, ⟨added.site.trans site₁, ?_⟩, ?_⟩
        · rw [added.tables, tables₁]
        · show (Proc.bind (Proc.ofExcept (Except.mapError Fault.python (List.mapM _ lines.val))) _).run _ box₁ = _
          rw [made]
          exact ran
      next untook =>
        obtain ⟨fault, box', fails⟩ := inserts
        exact .inr ⟨fun rows readable => untook (only rows readable).2, fault, box', fails⟩

/-! ## Side by side -/

/-- Beside a rebuild, a pass over tables that knew some buckets before: of those it has what they had, of all others what
the rebuild has. -/
structure Completes (site : Site) (before : Tables) (full tail : Box) : Prop where
  fullSite : full.site = fun _ => site
  tailSite : tail.site = fun _ => site
  kept : ∀ server path, (server, path) ∈ before.seen →
    (server, path) ∈ tail.tables.seen ∧ tail.tables.rowsOf server path = before.rowsOf server path
  new : ∀ server path, (server, path) ∉ before.seen →
    ((server, path) ∈ tail.tables.seen ↔ (server, path) ∈ full.tables.seen) ∧
      tail.tables.rowsOf server path = full.tables.rowsOf server path

abbrev Beside {α : Type} (site : Site) (before : Tables) (p : Program α) (full tail : Box) : Prop :=
  Alongside EventIndex.handler EventIndex.handler (Completes site before) p full tail

variable {before : Tables} {full full' tail tail' : Box} {path : String}

theorem Completes.moved (completes : Completes site before full tail) (fullSite : full'.site = full.site)
    (tailSite : tail'.site = tail.site) (fullTables : full'.tables = full.tables)
    (tailTables : tail'.tables = tail.tables) :
    Completes site before full' tail' := by
  obtain ⟨siteF, siteT, kept, new⟩ := completes
  refine ⟨fullSite.trans siteF, tailSite.trans siteT, ?_, ?_⟩
  · rw [tailTables]
    exact kept
  · rw [fullTables, tailTables]
    exact new

theorem Readable.filed (readable : Readable site server source b rows) :
    ∀ row ∈ rows, row.server = server ∧ row.path = b.path := by
  obtain ⟨lines, -, made, -⟩ := readable
  exact filed_of_mapM made

theorem Readable.unique {rows' : List EventRow} (readable : Readable site server source b rows)
    (readable' : Readable site server source b rows') : rows = rows' := by
  obtain ⟨lines, read, made, -⟩ := readable
  obtain ⟨lines', read', made', -⟩ := readable'
  rw [read] at read'
  cases read'
  rw [made] at made'
  exact Except.ok.inj made'

theorem Added.seen {box' : Box} (added : Added server path rows box box') (server' path' : String) :
    (server', path') ∈ box'.tables.seen ↔ (server', path') ∈ box.tables.seen ∨ (server', path') = (server, path) := by
  rw [added.tables, List.mem_append, List.mem_singleton]

theorem Added.rowsOf {box' : Box} (added : Added server path rows box box')
    (filed : ∀ row ∈ rows, row.server = server ∧ row.path = path) (server' path' : String) :
    box'.tables.rowsOf server' path' =
      box.tables.rowsOf server' path' ++ if (server', path') = (server, path) then rows else [] := by
  rw [added.tables, rowsOf_append box.tables.seen]
  refine congrArg _ ?_
  split
  next same =>
    obtain ⟨rfl, rfl⟩ := Prod.mk.inj same
    exact List.filter_eq_self.mpr fun row member => decide_eq_true (filed row member)
  next other =>
    refine List.filter_eq_nil_iff.mpr fun row member same => other ?_
    obtain ⟨server_eq, path_eq⟩ := filed row member
    rw [decide_eq_true_eq] at same
    rw [← same.1, ← same.2, server_eq, path_eq]

/-- Both add a bucket that was not known before. -/
theorem Completes.added (completes : Completes site before full tail) (fresh : (server, path) ∉ before.seen)
    (filed : ∀ row ∈ rows, row.server = server ∧ row.path = path) (adds : Added server path rows full full')
    (adds' : Added server path rows tail tail') : Completes site before full' tail' where
  fullSite := adds.site.trans completes.fullSite
  tailSite := adds'.site.trans completes.tailSite
  kept server' path' known := by
    have other : ¬ (server', path') = (server, path) := fun same => fresh (same ▸ known)
    obtain ⟨seen, same⟩ := completes.kept server' path' known
    rw [adds'.seen, adds'.rowsOf filed, if_neg other, List.append_nil]
    exact ⟨.inl seen, same⟩
  new server' path' unknown := by
    obtain ⟨seen, same⟩ := completes.new server' path' unknown
    rw [adds.seen, adds'.seen, adds.rowsOf filed, adds'.rowsOf filed, seen, same]
    exact ⟨Iff.rfl, rfl⟩

/-- The rebuild adds a bucket that was known before. -/
theorem Completes.known (completes : Completes site before full tail) (known : (server, path) ∈ before.seen)
    (filed : ∀ row ∈ rows, row.server = server ∧ row.path = path) (adds : Added server path rows full full') :
    Completes site before full' tail where
  fullSite := adds.site.trans completes.fullSite
  tailSite := completes.tailSite
  kept := completes.kept
  new server' path' unknown := by
    have other : ¬ (server', path') = (server, path) := fun same => unknown (same ▸ known)
    obtain ⟨seen, same⟩ := completes.new server' path' unknown
    rw [adds.seen, adds.rowsOf filed, if_neg other, List.append_nil]
    exact ⟨seen.trans ⟨.inl, fun either => either.resolve_right other⟩, same⟩

theorem run_skip (some : b.events ≠ 0) (seen : (server, b.path) ∈ box.tables.seen) (rest : List Bucket) :
    (bucketRounds server source (b :: rest)).run EventIndex.handler box =
      (bucketRounds server source rest).run EventIndex.handler box.tick := by
  have looked : (EventIndex.handler (.seen server b.path) box).1 = true := decide_eq_true seen
  rw [bucketRounds, if_neg some]
  show (if (EventIndex.handler (.seen server b.path) box).1 = true then bucketRounds server source rest else _).run
    EventIndex.handler box.tick = _
  rw [looked, if_pos rfl]

theorem beside_bucketRounds (server : String) (source : Source) (bs : List Bucket)
    (completes : Completes site before full tail) : Beside site before (bucketRounds server source bs) full tail := by
  induction bs generalizing full tail with
  | nil => exact .ret completes
  | cons b rest ih =>
    by_cases some : b.events = 0
    · rw [bucketRounds, if_pos some]
      exact ih completes
    · have ticked : Completes site before full.tick tail.tick := completes.moved rfl rfl rfl rfl
      intro value full' ran
      by_cases known : (server, b.path) ∈ before.seen
      · -- the tail pass has it; the rebuild may have to read it
        rw [run_skip some (completes.kept _ _ known).1]
        by_cases seen : (server, b.path) ∈ full.tables.seen
        · rw [run_skip some seen] at ran
          exact ih ticked value full' ran
        · rw [run_bucketRounds some seen] at ran
          obtain ⟨rows, full₁, readable, added, ran₁⟩ | ⟨-, fault, full₁, fails⟩ :=
            run_readRounds source ticked.fullSite seen rest
          · rw [ran₁] at ran
            exact ih (ticked.known known readable.filed added) value full' ran
          · rw [fails] at ran
            cases ran
      · -- neither has had it before the pass
        have both := (completes.new _ _ known).1
        by_cases seen : (server, b.path) ∈ full.tables.seen
        · rw [run_skip some seen] at ran
          rw [run_skip some (both.mpr seen)]
          exact ih ticked value full' ran
        · have seen' : (server, b.path) ∉ tail.tables.seen := fun there => seen (both.mp there)
          rw [run_bucketRounds some seen] at ran
          rw [run_bucketRounds some seen']
          obtain ⟨rows, full₁, readable, added, ran₁⟩ | ⟨-, fault, full₁, fails⟩ :=
            run_readRounds source ticked.fullSite seen rest
          · obtain ⟨rows', tail₁, readable', added', ran'⟩ | ⟨unreadable, -⟩ :=
              run_readRounds source ticked.tailSite seen' rest
            · -- one bucket, read twice at one moment
              obtain rfl := readable.unique readable'
              rw [ran₁] at ran
              rw [ran']
              exact ih (ticked.added known readable.filed added added') value full' ran
            · exact absurd readable (unreadable rows)
          · rw [fails] at ran
            cases ran

theorem beside_unitRounds (server url subsystem : String) (units : List String)
    (completes : Completes site before full tail) :
    Beside site before (unitRounds server url subsystem units) full tail := by
  induction units generalizing full tail with
  | nil => exact .ret completes
  | cons unit rest ih =>
    have here : full.now = site := by rw [Box.now, completes.fullSite]
    have here' : tail.now = site := by rw [Box.now, completes.tailSite]
    refine .call ?_ ?_
    · show tail.now.buckets url subsystem unit = full.now.buckets url subsystem unit
      rw [here, here']
    · show Beside site before (Proc.bind (Proc.ofExcept (full.now.buckets url subsystem unit)) _) full.tick tail.tick
      rw [here]
      cases site.buckets url subsystem unit with
      | error fault => exact .raise
      | ok bs =>
        have ticked : Completes site before full.tick tail.tick := completes.moved rfl rfl rfl rfl
        show Beside site before (Proc.bind (bucketRounds server (.own url subsystem unit) bs) fun _ =>
          unitRounds server url subsystem rest) full.tick tail.tick
        exact .bind (beside_bucketRounds server _ bs ticked) fun _ _ _ completes' => ih completes'

theorem beside_subsystemRounds (server url : String) (units : List (String × List String))
    (completes : Completes site before full tail) :
    Beside site before (subsystemRounds server url units) full tail := by
  induction units generalizing full tail with
  | nil => exact .ret completes
  | cons entry rest ih =>
    exact .bind (beside_unitRounds server url entry.1 entry.2 completes) fun _ _ _ completes' => ih completes'

/-! ## A pass -/

/-- How many servers have been named, for whichever reason. -/
def count (named : Named) : Nat := named.1.length + named.2.length

theorem run_tried (p : Program Unit) (box : Box) :
    (tryCatch (do p; return true) fun _ => return false).run EventIndex.handler box =
      (.ok (p.run EventIndex.handler box).1.isOk, (p.run EventIndex.handler box).2) := by
  show ((p.bind fun _ => .ret true).tryCatch fun _ => .ret false).run EventIndex.handler box = _
  induction p generalizing box with
  | ret value | raise error => rfl
  | call label request next ih => exact ih _ _

theorem run_live {live : Dict ResourceBeat} {server : String} {hb : ResourceBeat} {rest : List (String × ResourceBeat)}
    (here : (live.get? server).isNone = false) (named : Named) {box' : Box}
    (ran : (subsystemRounds server hb.url hb.units).run EventIndex.handler box = (.ok (), box')) :
    (serverRounds live ((server, hb) :: rest) named).run EventIndex.handler box =
      (serverRounds live rest named).run EventIndex.handler box' := by
  rw [serverRounds, here, if_neg Bool.false_ne_true, Proc.bind_eq, Proc.run_bind, run_tried, ran]
  rfl

/-- A server either answers everything, or is named. -/
theorem run_server {live : Dict ResourceBeat} {server : String} {hb : ResourceBeat}
    {rest : List (String × ResourceBeat)}
    {named ends : Named} {box' : Box}
    (ran : (serverRounds live ((server, hb) :: rest) named).run EventIndex.handler box = (.ok ends, box')) :
    ∃ named₁ box₁, (serverRounds live rest named₁).run EventIndex.handler box₁ = (.ok ends, box') ∧
      (((live.get? server).isNone = false ∧ named₁ = named ∧
          (subsystemRounds server hb.url hb.units).run EventIndex.handler box = (.ok (), box₁)) ∨
        count named < count named₁) := by
  cases here : (live.get? server).isNone with
  | true =>
    -- no live server: its mirror is asked, and it is named either way
    rw [serverRounds, here, if_pos rfl, Proc.bind_eq, Proc.run_bind] at ran
    split at ran
    next copied box₁ ran₁ =>
      cases copied with
      | true => exact ⟨_, _, ran, .inr (by simp [count])⟩
      | false => exact ⟨_, _, ran, .inr (by simp [count])⟩
    next => cases ran
  | false =>
    rw [serverRounds, here, if_neg Bool.false_ne_true, Proc.bind_eq, Proc.run_bind, run_tried] at ran
    cases answered : (subsystemRounds server hb.url hb.units).run EventIndex.handler box with
    | mk result box₁ =>
      rw [answered] at ran
      cases result with
      | ok value => exact ⟨_, _, ran, .inl ⟨rfl, rfl, rfl⟩⟩
      | error fault => exact ⟨_, _, ran, .inr (by simp [count, Except.isOk, Except.toBool])⟩

/-- Who is named stays named. -/
theorem count_le {live : Dict ResourceBeat} {entries : List (String × ResourceBeat)} {named ends : Named} {box' : Box}
    (ran : (serverRounds live entries named).run EventIndex.handler box = (.ok ends, box')) :
    count named ≤ count ends := by
  induction entries generalizing named box with
  | nil =>
    cases ran
    exact le_rfl
  | cons entry rest ih =>
    obtain ⟨named₁, box₁, ran₁, ⟨-, rfl, -⟩ | more⟩ := run_server ran
    · exact ih ran₁
    · exact more.le.trans (ih ran₁)

/-- If nobody is named in the end, both passes come to the same end. -/
theorem beside_serverRounds {live : Dict ResourceBeat} {entries : List (String × ResourceBeat)}
    (completes : Completes site before full tail)
    (ran : (serverRounds live entries ([], [])).run EventIndex.handler full = (.ok ([], []), full')) :
    ∃ tail', (serverRounds live entries ([], [])).run EventIndex.handler tail = (.ok ([], []), tail') ∧
      Completes site before full' tail' := by
  induction entries generalizing full tail with
  | nil =>
    cases ran
    exact ⟨tail, rfl, completes⟩
  | cons entry rest ih =>
    obtain ⟨server, hb⟩ := entry
    obtain ⟨named₁, full₁, ran₁, ⟨here, rfl, answered⟩ | more⟩ := run_server ran
    · -- the rebuild got every answer, so the tail pass gets each that it asks for
      obtain ⟨tail₁, answered', completes'⟩ :=
        beside_subsystemRounds server hb.url hb.units completes () full₁ answered
      rw [run_live here _ answered']
      exact ih completes' ran₁
    · -- a server that is named once is named in the end
      have none := count_le ran₁
      simp only [count, List.length_nil] at more none
      omega

/-- The pass after its rounds. -/
def concludes (named : Named) : Program TailReport := do
  EventIndex.ask (.count fun counters => { counters with state := stateText named })
  let counters ← EventIndex.ask .recollect
  return ⟨counters.added, named.1, named.2, counters.indexedSegments⟩

theorem concludes_run (named : Named) (box : Box) :
    ∃ report box', (concludes named).run EventIndex.handler box = (.ok report, box') ∧
      report.unreachable = named.1 ∧ report.fromMirror = named.2 ∧ box'.tables = box.tables :=
  ⟨_, _, rfl, rfl, rfl, rfl⟩

/-- Nobody was named. -/
def Whole (report : TailReport) : Prop := report.unreachable = [] ∧ report.fromMirror = []

open EventRows (runs)

theorem filed_runs (lostAfter : ℚ) (passes : List (EventRows.Pass × Nat)) {box : Box} (filed : Filed box) :
    Filed (runs lostAfter passes box) := by
  induction passes generalizing box with
  | nil => exact filed
  | cons entry rest ih =>
    have tends : EventRows.Tends Filed (entry.1.program lostAfter) box := by
      cases entry.1 with
      | tail resources => exact EventRows.tends_tail EventRows.filed_kept _ _ _ box
      | rebuild resources => exact EventRows.tends_rebuild EventRows.filed_kept _ _ box
    exact ih (Safe.after_keeps Filed (fun _ _ _ => rfl) (fun _ _ kept filed => kept filed) entry.2 tends filed)

/-- An index at work, of which the passes so far may have been cut off anywhere, while `now` answers it. -/
def atWork (lostAfter : ℚ) (site : Nat → Site) (passes : List (EventRows.Pass × Nat)) (now : Site) : Box :=
  { runs lostAfter passes (.new site) with site := fun _ => now }

theorem run_concludes {rounds : Program Named} {box box' : Box} {report : TailReport}
    (ran : (rounds.bind concludes).run EventIndex.handler box = (.ok report, box')) :
    ∃ named box₁, rounds.run EventIndex.handler box = (.ok named, box₁) ∧ report.unreachable = named.1 ∧
      report.fromMirror = named.2 ∧ box'.tables = box₁.tables := by
  rw [Proc.run_bind] at ran
  split at ran
  next named box₁ ran₁ =>
    cases ran
    exact ⟨named, box₁, ran₁, rfl, rfl, rfl⟩
  next => cases ran

/-- A tail pass over the tables of `box` names nobody, keeps the rows that it had, and of every other bucket brings home
what is in the tables of `rebuilt`.  So the two agree just in case nothing that was seen has changed. -/
def TailCompletes (lostAfter : ℚ) (resources : Dict ResourceBeat) (box rebuilt : Box) : Prop :=
  ∃ report tailed, Whole report ∧
    (EventIndex.tail lostAfter resources false).run EventIndex.handler box = (.ok report, tailed) ∧
    (∀ server path, (server, path) ∈ box.tables.seen →
      tailed.tables.rowsOf server path = box.tables.rowsOf server path) ∧
    (∀ server path, (server, path) ∉ box.tables.seen →
      tailed.tables.rowsOf server path = rebuilt.tables.rowsOf server path) ∧
    ((∀ server path, tailed.tables.rowsOf server path = rebuilt.tables.rowsOf server path) ↔
      ∀ entry ∈ box.tables.seen,
        box.tables.rowsOf entry.1 entry.2 = rebuilt.tables.rowsOf entry.1 entry.2)

/-- After any passes, wherever they were cut off and whatever answered them: where a rebuild from nothing would name
nobody, a tail pass completes it. -/
theorem tail_completes (lostAfter : ℚ) (site : Nat → Site) (passes : List (EventRows.Pass × Nat)) (now : Site)
    (resources : Dict ResourceBeat) {report : TailReport} {rebuilt : Box} (whole : Whole report)
    (ran : (rebuild lostAfter resources).run EventIndex.handler (atWork lostAfter site passes now) =
      (.ok report, rebuilt)) :
    TailCompletes lostAfter resources (atWork lostAfter site passes now) rebuilt := by
  have filed : Filed (atWork lostAfter site passes now) :=
    (filed_runs lostAfter passes (EventRows.filed_clear (.new site))).moved rfl
  have steady : (atWork lostAfter site passes now).site = fun _ => now := rfl
  generalize atWork lostAfter site passes now = box at ran filed steady ⊢
  let live := liveAt now.wall lostAfter resources
  let rounds := serverRounds live (inOrder resources) ([], [])
  let cleared : Box := { box.tick.tick.tick.tick with
    tables := ⟨[], []⟩, counters := { box.counters with indexedSegments := 0, state := "catching up", added := 0 } }
  let started : Box := { box.tick.tick with counters := { box.counters with added := 0 } }
  have wall : (box.site (box.served + 2 + 1)).wall = now.wall ∧ (box.site (box.served + 1)).wall = now.wall := by
    rw [steady]
    exact ⟨rfl, rfl⟩
  have rebuilds : (rebuild lostAfter resources).run EventIndex.handler box =
      (rounds.bind concludes).run EventIndex.handler cleared := by
    show ((serverRounds (liveAt (box.site (box.served + 2 + 1)).wall lostAfter resources) _ _).bind concludes).run _ _ = _
    rw [wall.1]
    rfl
  have tails : (EventIndex.tail lostAfter resources false).run EventIndex.handler box =
      (rounds.bind concludes).run EventIndex.handler started := by
    show ((serverRounds (liveAt (box.site (box.served + 1)).wall lostAfter resources) _ _).bind concludes).run _ _ = _
    rw [wall.2]
    rfl
  -- a rebuild begins with nothing, the tail pass with what the index has
  have begins : Completes now box.tables cleared started := by
    refine ⟨steady, steady, fun server path seen => ⟨seen, rfl⟩, fun server path unseen => ⟨?_, ?_⟩⟩
    · exact iff_of_false unseen List.not_mem_nil
    · show box.tables.rowsOf server path = []
      by_contra some
      exact unseen ((filed.seen server path).mpr some)
  rw [rebuilds] at ran
  obtain ⟨named, rebuilt₁, ran₁, unreachable, mirror, tables⟩ := run_concludes ran
  obtain ⟨unreachable', mirror'⟩ := whole
  have nobody : named = ([], []) := Prod.ext (unreachable.symm.trans unreachable') (mirror.symm.trans mirror')
  rw [nobody] at ran₁
  obtain ⟨tailed₁, ran₁', completes⟩ := beside_serverRounds begins ran₁
  obtain ⟨report', tailed, ended, none, none', tables'⟩ := concludes_run ([], []) tailed₁
  have kept : ∀ server path, (server, path) ∈ box.tables.seen →
      tailed.tables.rowsOf server path = box.tables.rowsOf server path := by
    intro server path seen
    rw [tables']
    exact (completes.kept server path seen).2
  have new : ∀ server path, (server, path) ∉ box.tables.seen →
      tailed.tables.rowsOf server path = rebuilt.tables.rowsOf server path := by
    intro server path unseen
    rw [tables, tables']
    exact (completes.new server path unseen).2
  refine ⟨report', tailed, ⟨none, none'⟩, ?_, kept, new, ?_⟩
  · rw [tails, Proc.run_bind, ran₁']
    exact ended
  · constructor
    · intro same entry seen
      rw [← same, kept _ _ seen]
    · intro current server path
      by_cases seen : (server, path) ∈ box.tables.seen
      · rw [kept _ _ seen]
        exact current (server, path) seen
      · exact new _ _ seen

/-! ## A bucket that grows -/

def line (t : ℚ) : Line := [("t", .float (.finite t)), ("kind", .str "motion")]

def bucket (name : String) : Bucket := ⟨"vms", "7", 3, 0, 600, name, 1⟩

/-- A server with these buckets, of which the first has so many lines. -/
def answering (names : List String) (lines : Lines) : Site where
  wall := 100
  database _ _ := .ok ()
  buckets _ _ _ := .ok (names.map bucket)
  mirrored _ _ := .error .unreachable
  lines _ _ path := if path = "first" then .ok lines else .ok ⟨[line 30], by simp⟩

def beats : Dict ResourceBeat := [("srv-a", ⟨"srv-a", 90, "http://srv-a", [("vms", ["7"])], []⟩)]

def early : Site := answering ["first"] ⟨[line 10], by simp⟩

/-- The first bucket has grown since the index read it, and there is a second one. -/
def grown : Site := answering ["first", "second"] ⟨[line 10, line 20], by simp⟩

theorem tail_completes_grown :
    TailCompletes 45 beats (atWork 45 (fun _ => early) [(.tail beats, 20)] grown)
      ((rebuild 45 beats).run EventIndex.handler (atWork 45 (fun _ => early) [(.tail beats, 20)] grown)).2 := by
  obtain ⟨report, ended⟩ : ∃ report, ((rebuild 45 beats).run EventIndex.handler
      (atWork 45 (fun _ => early) [(.tail beats, 20)] grown)).1.toOption = some report :=
    Option.isSome_iff_exists.mp (by decide +kernel)
  have nobody : (((rebuild 45 beats).run EventIndex.handler
      (atWork 45 (fun _ => early) [(.tail beats, 20)] grown)).1.toOption.map fun report =>
        (report.unreachable, report.fromMirror)) = some ([], []) := by decide +kernel
  rw [ended] at nobody
  cases ran : (rebuild 45 beats).run EventIndex.handler (atWork 45 (fun _ => early) [(.tail beats, 20)] grown) with
  | mk result rebuilt =>
    rw [ran] at ended
    cases result with
    | error fault => cases ended
    | ok report' =>
      cases ended
      have whole := Prod.mk.inj (Option.some.inj nobody)
      exact tail_completes 45 (fun _ => early) [(.tail beats, 20)] grown beats whole ran

end EdgeVms.Verified.Incremental
