import EdgeVms.Verified.Platform.EventRows
import EdgeVms.Process.Run

/-! # What the index does not have, and what it says of it

A pass asks every source once, so a pass has one `Site`: what each resource and each
peer would answer.  What it brings home of a server is then a function of what the
index knew of that server before.
-/

namespace EdgeVms.Verified.EventHonesty

open Process Python Platform EventIndex EventRows

/-! ## What a source brings home -/

/-- The buckets of one server: those in `seen`, and those whose lines a peer has answered in this pass. -/
structure Progress where
  known : List String
  delivered : List String

/-- The rows of the bucket are made and taken. -/
def taken (site : Site) (server : String) (source : Source) (b : Bucket) (lines : List Line) : Bool :=
  match lines.mapM (rowOf server (source.filed b).1 (source.filed b).2 b.epoch b.path), site.database server b.path with
  | .ok rows, .ok _ => rows.all fun row => bindable row.cam && bindable (.int row.epoch) && bindable row.kind
  | _, _ => false

def Progress.answered (p : Progress) (source : Source) (path : String) : Progress :=
  match source.origin with
  | .own _ => p
  | .copy _ => { p with delivered := p.delivered ++ [path] }

/-- One bucket after the other, up to the first that is not read or not taken. -/
def absorb (site : Site) (server : String) (source : Source) : List Bucket → Progress → Bool × Progress
  | [], p => (true, p)
  | b :: rest, p =>
    if b.events = 0 ∨ b.path ∈ p.known then absorb site server source rest p
    else
      match site.lines source.origin server b.path with
      | .error _ => (false, p)
      | .ok lines =>
        let p := p.answered source b.path
        if taken site server source b lines.val then
          absorb site server source rest { p with known := p.known ++ [b.path] }
        else (false, p)

/-- A resource's own buckets, by subsystem and unit, up to the first answer that fails. -/
def absorbUnits (site : Site) (server url : String) : List (String × String) → Progress → Bool × Progress
  | [], p => (true, p)
  | (subsystem, unit) :: rest, p =>
    match site.buckets url subsystem unit with
    | .error _ => (false, p)
    | .ok bs =>
      match absorb site server (.own url subsystem unit) bs p with
      | (true, p) => absorbUnits site server url rest p
      | failed => failed

/-- The copies on the peers, one peer after the other. -/
def absorbPeers (site : Site) (server : String) : List (String × ResourceBeat) → Progress → Progress
  | [], p => p
  | (_, hb) :: rest, p =>
    match site.mirrored hb.url server with
    | .error _ => absorbPeers site server rest p
    | .ok bs => absorbPeers site server rest (absorb site server (.copy hb.url) bs p).2

/-- The units that a heartbeat lists. -/
def unitsOf (hb : ResourceBeat) : List (String × String) :=
  hb.units.flatMap fun (subsystem, units) => units.map (subsystem, ·)

/-! ## What the index keeps of a server -/

def isCopy : Origin → Bool
  | .own _ => false
  | .copy _ => true

def progressOf (server : String) (box : Box) : Progress where
  known := (box.tables.seen.filter fun entry => entry.1 = server).map Prod.snd
  delivered := (box.readings.filter fun reading => reading.server = server && isCopy reading.origin).map Reading.path

theorem mem_known {server path : String} {box : Box} :
    path ∈ (progressOf server box).known ↔ (server, path) ∈ box.tables.seen := by
  simp only [progressOf, List.mem_map, List.mem_filter, decide_eq_true_eq]
  constructor
  · rintro ⟨⟨server', path'⟩, ⟨member, rfl⟩, rfl⟩
    exact member
  · exact fun member => ⟨(server, path), ⟨member, rfl⟩, rfl⟩

variable {α β : Type} {site : Site} {server : String}

/-- Run to its end, the program leaves of the server what `ends` says, and of the others what was there. -/
structure Goes (site : Site) (server : String) (p : Program α) (box : Box) (ends : Bool × Progress) : Prop where
  whole : (p.run EventIndex.handler box).1.isOk = ends.1
  progress : progressOf server (p.run EventIndex.handler box).2 = ends.2
  site : (p.run EventIndex.handler box).2.site = fun _ => site
  apart : ∀ other ≠ server, progressOf other (p.run EventIndex.handler box).2 = progressOf other box

namespace Goes

variable {box : Box} {ends : Bool × Progress}

theorem ret {value : α} (steady : box.site = fun _ => site) :
    Goes site server (Proc.ret value : Program α) box (true, progressOf server box) :=
  ⟨rfl, rfl, steady, fun _ _ => rfl⟩

theorem raise {fault : Fault} (steady : box.site = fun _ => site) :
    Goes site server (Proc.raise fault : Program α) box (false, progressOf server box) :=
  ⟨rfl, rfl, steady, fun _ _ => rfl⟩

/-- The first part fails, and with it the whole. -/
theorem bind_fails {p : Program α} {f : α → Program β} {progress : Progress}
    (first : Goes site server p box (false, progress)) :
    Goes site server (p >>= f) box (false, progress) := by
  obtain ⟨whole, progress_eq, steady, apart⟩ := first
  cases ran : p.run EventIndex.handler box with
  | mk result box' =>
    rw [ran] at whole progress_eq steady apart
    cases result with
    | ok value => cases whole
    | error fault =>
      have same : (p >>= f).run EventIndex.handler box = (.error fault, box') := by
        rw [Proc.bind_eq, Proc.run_bind, ran]
      exact ⟨by rw [same]; rfl, by rw [same]; exact progress_eq, by rw [same]; exact steady, by rw [same]; exact apart⟩

theorem bind {p : Program α} {f : α → Program β} {progress : Progress} (first : Goes site server p box (true, progress))
    (later : ∀ value box', (box'.site = fun _ => site) → progressOf server box' = progress →
      Goes site server (f value) box' ends) :
    Goes site server (p >>= f) box ends := by
  obtain ⟨whole, progress_eq, steady, apart⟩ := first
  cases ran : p.run EventIndex.handler box with
  | mk result box' =>
    rw [ran] at whole progress_eq steady apart
    cases result with
    | error fault => cases whole
    | ok value =>
      have same : (p >>= f).run EventIndex.handler box = (f value).run EventIndex.handler box' := by
        rw [Proc.bind_eq, Proc.run_bind, ran]
      obtain ⟨whole', progress', steady', apart'⟩ := later value box' steady progress_eq
      refine ⟨by rw [same]; exact whole', by rw [same]; exact progress', by rw [same]; exact steady', ?_⟩
      intro other different
      rw [same, apart' other different]
      exact apart other different

/-- A failure that is caught leaves what it left. -/
theorem caught {p : Program Unit} (body : Goes site server p box ends) :
    Goes site server (tryCatch p fun _ => return ()) box (true, ends.2) := by
  obtain ⟨-, progress, steady, apart⟩ := body
  have same : (p.tryCatch fun _ => .ret ()).run EventIndex.handler box =
      (.ok (), (p.run EventIndex.handler box).2) := by
    clear progress steady apart
    induction p generalizing box with
    | ret value | raise error => rfl
    | call label request next ih => exact ih _
  have same' : (tryCatch p fun _ => return ()).run EventIndex.handler box =
      (.ok (), (p.run EventIndex.handler box).2) := same
  exact ⟨by rw [same']; rfl, by rw [same']; exact progress, by rw [same']; exact steady, by rw [same']; exact apart⟩

/-- Whether it failed is what the caller is told. -/
theorem tried {p : Program Unit} (body : Goes site server p box ends) :
    (tryCatch (do p; return true) fun _ => return false).run EventIndex.handler box =
      (.ok ends.1, (p.run EventIndex.handler box).2) := by
  have same : ((p.bind fun _ => .ret true).tryCatch fun _ => .ret false).run EventIndex.handler box =
      (.ok (p.run EventIndex.handler box).1.isOk, (p.run EventIndex.handler box).2) := by
    clear body
    induction p generalizing box with
    | ret value | raise error => rfl
    | call label request next ih => exact ih _
  rw [← body.whole]
  exact same

/-- A request, answered; then the rest. -/
theorem asked {request : Request} {f : request.Answer → Program β}
    (later : Goes site server (f (EventIndex.handler request box).1) (EventIndex.handler request box).2 ends)
    (apart : ∀ other ≠ server, progressOf other (EventIndex.handler request box).2 = progressOf other box) :
    Goes site server (EventIndex.ask request >>= f) box ends :=
  ⟨later.whole, later.progress, later.site, fun other different =>
    (later.apart other different).trans (apart other different)⟩

end Goes

/-- A read is answered. -/
def withReading (box : Box) (reading : Reading) : Box := { box.tick with readings := box.readings ++ [reading] }

/-- The rows of a bucket are taken. -/
def withRows (box : Box) (server path : String) (rows : List EventRow) : Box :=
  { box.tick with tables := ⟨box.tables.seen ++ [(server, path)], box.tables.events ++ rows⟩ }

theorem progressOf_withReading (box : Box) (source : Source) (server path : String) (lines : Lines) :
    progressOf server (withReading box ⟨source.origin, server, path, lines⟩) =
      (progressOf server box).answered source path := by
  simp only [withReading, Box.tick, progressOf, Progress.answered, List.filter_append, List.map_append]
  cases source.origin with
  | own url => simp [isCopy]
  | copy url => simp [isCopy]

theorem progressOf_withReading_other {box : Box} {reading : Reading} {other : String}
    (different : other ≠ reading.server) :
    progressOf other (withReading box reading) = progressOf other box := by
  simp [withReading, Box.tick, progressOf, List.filter_append, different.symm]

theorem progressOf_withRows (box : Box) (server path : String) (rows : List EventRow) :
    progressOf server (withRows box server path rows) =
      { progressOf server box with known := (progressOf server box).known ++ [path] } := by
  simp [withRows, Box.tick, progressOf, List.filter_append]

theorem progressOf_withRows_other {box : Box} {server path other : String} {rows : List EventRow}
    (different : other ≠ server) : progressOf other (withRows box server path rows) = progressOf other box := by
  simp [withRows, Box.tick, progressOf, List.filter_append, different.symm]

/-- What the database makes of the rows of a bucket that is not in `seen`. -/
theorem insert_taken {source : Source} {b : Bucket} {lines : List Line} {rows : List EventRow} {box : Box}
    (steady : box.site = fun _ => site) (unseen : (server, b.path) ∉ box.tables.seen)
    (made : lines.mapM (rowOf server (source.filed b).1 (source.filed b).2 b.epoch b.path) = .ok rows) :
    if taken site server source b lines then
      EventIndex.handler (.insert server b.path rows) box = (.ok (), withRows box server b.path rows)
    else ∃ fault, EventIndex.handler (.insert server b.path rows) box = (.error fault, box.tick) := by
  have now : box.now = site := by rw [Box.now, steady]
  simp only [taken, made, EventIndex.handler, now, Tables.insert, unseen, if_false]
  cases site.database server b.path with
  | error fault => exact ⟨fault, rfl⟩
  | ok done =>
    by_cases bound : rows.all fun row => bindable row.cam && bindable (.int row.epoch) && bindable row.kind
    · have none : (rows.any fun row => !(bindable row.cam && bindable (.int row.epoch) && bindable row.kind)) =
          false := by
        rw [List.any_eq_not_all_not]
        simpa using bound
      simp only [bound, none, if_true]
      rfl
    · have some : (rows.any fun row => !(bindable row.cam && bindable (.int row.epoch) && bindable row.kind)) =
          true := by
        rw [List.any_eq_not_all_not]
        simpa using bound
      simp only [bound, some, if_true]
      exact ⟨.database, rfl⟩

/-- A bucket that is not in `seen` is read, and its rows are inserted. -/
theorem read_goes {source : Source} {b : Bucket} {rest : Program Unit} {after : Progress → Bool × Progress} {box : Box}
    (steady : box.site = fun _ => site) (unseen : (server, b.path) ∉ box.tables.seen)
    (later : ∀ {box}, (box.site = fun _ => site) → Goes site server rest box (after (progressOf server box))) :
    Goes site server (do
        let lines ← Proc.ofExcept (← EventIndex.ask (.events source.origin server b.path))
        let (subsystem, unit) := source.filed b
        let rows ← Proc.ofExcept ((lines.mapM (rowOf server subsystem unit b.epoch b.path)).mapError .python)
        Proc.ofExcept (← EventIndex.ask (.insert server b.path rows))
        EventIndex.ask (.count (source.count rows.length))
        rest) box
      (match site.lines source.origin server b.path with
        | .error _ => (false, progressOf server box)
        | .ok lines =>
          let p := (progressOf server box).answered source b.path
          if taken site server source b lines.val then after { p with known := p.known ++ [b.path] }
          else (false, p)) := by
  have now : box.now = site := by rw [Box.now, steady]
  cases answered : site.lines source.origin server b.path with
  | error fault =>
    have handled : EventIndex.handler (.events source.origin server b.path) box = (.error fault, box.tick) := by
      simp only [EventIndex.handler, now, answered]
    refine .asked ?_ ?_
    · rw [handled]
      exact .bind_fails (.raise steady)
    · rw [handled]
      exact fun _ _ => rfl
  | ok lines =>
    have handled : EventIndex.handler (.events source.origin server b.path) box =
        (.ok lines.val, withReading box ⟨source.origin, server, b.path, lines⟩) := by
      simp only [EventIndex.handler, now, answered]
      rfl
    refine .asked ?_ ?_
    · rw [handled]
      dsimp only
      rw [← progressOf_withReading box source server b.path lines]
      generalize reads : withReading box ⟨source.origin, server, b.path, lines⟩ = box'
      have steady' : box'.site = fun _ => site := by rw [← reads]; exact steady
      have unseen' : (server, b.path) ∉ box'.tables.seen := by rw [← reads]; exact unseen
      show Goes site server (Proc.ofExcept (Except.mapError Fault.python (List.mapM _ lines.val)) >>= _) box' _
      cases made : lines.val.mapM (rowOf server (source.filed b).1 (source.filed b).2 b.epoch b.path) with
      | error error =>
        have untaken : taken site server source b lines.val = false := by simp only [taken, made]
        rw [untaken]
        exact .bind_fails (.raise steady')
      | ok rows =>
        have inserts := insert_taken steady' unseen' made
        refine .asked ?_ ?_
        · split
          next taken =>
            rw [if_pos taken] at inserts
            rw [inserts, ← progressOf_withRows box' server b.path rows]
            exact .asked (later steady') fun _ _ => rfl
          next untaken =>
            rw [if_neg untaken] at inserts
            obtain ⟨fault, fails⟩ := inserts
            rw [fails]
            exact .bind_fails (.raise steady')
        · intro other different
          split at inserts
          · rw [inserts]
            exact progressOf_withRows_other different
          · obtain ⟨fault, fails⟩ := inserts
            rw [fails]
            rfl
    · rw [handled]
      exact fun other different => progressOf_withReading_other different

/-- One bucket after the other. -/
theorem bucketRounds_goes (server : String) (source : Source) (bs : List Bucket) {box : Box}
    (steady : box.site = fun _ => site) :
    Goes site server (bucketRounds server source bs) box (absorb site server source bs (progressOf server box)) := by
  induction bs generalizing box with
  | nil => exact .ret steady
  | cons b rest ih =>
    unfold bucketRounds absorb
    by_cases empty : b.events = 0
    · simp only [empty, if_true, true_or]
      exact ih steady
    · simp only [empty, if_false, false_or]
      refine .asked ?_ fun _ _ => rfl
      by_cases seen : (server, b.path) ∈ box.tables.seen
      · have looked : (EventIndex.handler (.seen server b.path) box).1 = true := decide_eq_true seen
        rw [looked, if_pos rfl, if_pos (mem_known.mpr seen)]
        exact ih steady
      · have looked : (EventIndex.handler (.seen server b.path) box).1 = false := decide_eq_false seen
        have unknown : b.path ∉ (progressOf server box).known := fun member => seen (mem_known.mp member)
        rw [looked, if_neg Bool.false_ne_true, if_neg unknown]
        exact read_goes steady seen ih

theorem absorbUnits_append (url : String) (first rest : List (String × String)) (p : Progress) :
    absorbUnits site server url (first ++ rest) p =
      match absorbUnits site server url first p with
      | (true, p) => absorbUnits site server url rest p
      | failed => failed := by
  induction first generalizing p with
  | nil => rfl
  | cons entry first ih =>
    obtain ⟨subsystem, unit⟩ := entry
    rw [List.cons_append, absorbUnits, absorbUnits]
    cases site.buckets url subsystem unit with
    | error fault => rfl
    | ok bs =>
      dsimp only
      cases absorb site server (.own url subsystem unit) bs p with
      | mk whole p =>
        cases whole with
        | false => rfl
        | true => exact ih p

theorem unitRounds_goes (server : String) (url subsystem : String) (units : List String) {box : Box}
    (steady : box.site = fun _ => site) :
    Goes site server (unitRounds server url subsystem units) box
      (absorbUnits site server url (units.map (subsystem, ·)) (progressOf server box)) := by
  induction units generalizing box with
  | nil => exact .ret steady
  | cons unit rest ih =>
    have now : box.now = site := by rw [Box.now, steady]
    rw [List.map_cons, absorbUnits]
    refine .asked ?_ fun _ _ => rfl
    show Goes site server (Proc.ofExcept (box.now.buckets url subsystem unit) >>= _) box.tick _
    rw [now]
    cases site.buckets url subsystem unit with
    | error fault => exact .bind_fails (.raise steady)
    | ok bs =>
      have rounds : Goes site server (bucketRounds server (.own url subsystem unit) bs) box.tick
          (absorb site server (.own url subsystem unit) bs (progressOf server box)) :=
            bucketRounds_goes server _ bs steady
      show Goes site server (bucketRounds server _ bs >>= fun _ => unitRounds server url subsystem rest) box.tick _
      dsimp only
      cases ends : absorb site server (.own url subsystem unit) bs (progressOf server box) with
      | mk whole p =>
        rw [ends] at rounds
        cases whole with
        | false => exact .bind_fails rounds
        | true =>
          refine .bind rounds fun _ box' steady' progress => ?_
          rw [← progress]
          exact ih steady'

theorem subsystemRounds_goes (server : String) (hb : ResourceBeat) {box : Box} (steady : box.site = fun _ => site) :
    Goes site server (subsystemRounds server hb.url hb.units) box
      (absorbUnits site server hb.url (unitsOf hb) (progressOf server box)) := by
  unfold unitsOf
  induction hb.units generalizing box with
  | nil => exact .ret steady
  | cons entry rest ih =>
    obtain ⟨subsystem, units⟩ := entry
    have rounds := unitRounds_goes server hb.url subsystem units steady
    rw [List.flatMap_cons, absorbUnits_append]
    cases ends : absorbUnits site server hb.url (units.map (subsystem, ·)) (progressOf server box) with
    | mk whole p =>
      rw [ends] at rounds
      cases whole with
      | false => exact .bind_fails rounds
      | true =>
        refine .bind rounds fun _ box' steady' progress => ?_
        rw [← progress]
        exact ih steady'

theorem holderRounds_goes (server : String)
    (peers : List (String × ResourceBeat)) {box : Box} (steady : box.site = fun _ => site) :
    Goes site server (holderRounds server peers) box (true, absorbPeers site server peers (progressOf server box)) := by
  induction peers generalizing box with
  | nil => exact .ret steady
  | cons peer rest ih =>
    obtain ⟨name, hb⟩ := peer
    have now : box.now = site := by rw [Box.now, steady]
    have body : Goes site server (do
        let bs ← Proc.ofExcept (← EventIndex.ask (.mirrored hb.url server))
        bucketRounds server (.copy hb.url) bs) box
          (match site.mirrored hb.url server with
            | .error _ => (false, progressOf server box)
            | .ok bs => absorb site server (.copy hb.url) bs (progressOf server box)) := by
      refine .asked ?_ fun _ _ => rfl
      show Goes site server (Proc.ofExcept (box.now.mirrored hb.url server) >>= _) box.tick _
      rw [now]
      cases site.mirrored hb.url server with
      | error fault => exact .bind_fails (.raise steady)
      | ok bs =>
        have rounds : Goes site server (bucketRounds server (.copy hb.url) bs) box.tick
            (absorb site server (.copy hb.url) bs (progressOf server box)) := bucketRounds_goes server _ bs steady
        exact rounds
    refine .bind body.caught fun _ box' steady' progress => ?_
    rw [absorbPeers]
    cases listed : site.mirrored hb.url server with
    | error fault =>
      rw [listed] at progress
      dsimp only at progress ⊢
      rw [← progress]
      exact ih steady'
    | ok bs =>
      rw [listed] at progress
      dsimp only at progress ⊢
      rw [← progress]
      exact ih steady'

/-! ## A pass -/

/-- What the visit of a server brings home of it; `false` if it is to be named. -/
def visit (site : Site) (live : Dict ResourceBeat) (server : String) (hb : ResourceBeat) (p : Progress) :
    Bool × Progress :=
  if (live.get? server).isNone then
    if (holders server live).isEmpty then (false, p) else (true, absorbPeers site server (holders server live) p)
  else absorbUnits site server hb.url (unitsOf hb) p

/-- Between two boxes of a pass, `server` has been visited. -/
structure Visited (site : Site) (server : String) (box box' : Box) (p : Progress) : Prop where
  progress : progressOf server box' = p
  site : box'.site = fun _ => site
  apart : ∀ other ≠ server, progressOf other box' = progressOf other box

theorem Goes.visited {p : Program α} {box : Box} {ends : Bool × Progress} (goes : Goes site server p box ends) :
    Visited site server box (p.run EventIndex.handler box).2 ends.2 :=
  ⟨goes.progress, goes.site, goes.apart⟩

theorem fromMirror_run (server : String) (live : Dict ResourceBeat) {box : Box} (steady : box.site = fun _ => site) :
    ∃ box', (fromMirror server live).run EventIndex.handler box = (.ok (!(holders server live).isEmpty), box') ∧
      Visited site server box box' (absorbPeers site server (holders server live) (progressOf server box)) := by
  unfold fromMirror
  cases none : (holders server live).isEmpty with
  | true =>
    rw [List.isEmpty_iff.mp none]
    exact ⟨_, rfl, rfl, steady, fun _ _ => rfl⟩
  | false =>
    obtain ⟨box', zeroed⟩ : ∃ box', (EventIndex.handler
      (.count fun counters => { counters with lastMirrorAdded := 0 }) box).2 = box' := ⟨_, rfl⟩
    have steady' : box'.site = fun _ => site := by rw [← zeroed]; exact steady
    have same : ∀ server, progressOf server box' = progressOf server box := by rw [← zeroed]; exact fun _ => rfl
    have goes := holderRounds_goes server (holders server live) steady'
    cases ran : (holderRounds server (holders server live)).run EventIndex.handler box' with
    | mk result box'' =>
      have visited := goes.visited
      rw [ran] at visited
      have whole := goes.whole
      rw [ran] at whole
      cases result with
      | error fault => cases whole
      | ok value =>
        refine ⟨box'', ?_, ?_, visited.site, ?_⟩
        · show ((holderRounds server (holders server live)).bind fun _ => .ret true).run EventIndex.handler
            (EventIndex.handler (.count fun counters => { counters with lastMirrorAdded := 0 }) box).2 = _
          rw [zeroed, Proc.run_bind, ran]
          rfl
        · rw [visited.progress, same]
        · exact fun other different => (visited.apart other different).trans (same other)

/-- One visit, then the others. -/
theorem visit_run (live : Dict ResourceBeat) (server : String) (hb : ResourceBeat) (rest : List (String × ResourceBeat))
    (named : Named) {box : Box} (steady : box.site = fun _ => site) :
    ∃ named' box', (serverRounds live ((server, hb) :: rest) named).run EventIndex.handler box =
        (serverRounds live rest named').run EventIndex.handler box' ∧
      Visited site server box box' (visit site live server hb (progressOf server box)).2 ∧
        ∀ other, other ∈ named'.1 ↔ other ∈ named.1 ∨
          other = server ∧ (visit site live server hb (progressOf server box)).1 = false := by
  obtain ⟨unreachable, mirror⟩ := named
  rw [serverRounds, visit]
  cases silent : (live.get? server).isNone with
  | true =>
    obtain ⟨box', ran, visited⟩ := fromMirror_run server live steady
    cases none : (holders server live).isEmpty with
    | true =>
      rw [none] at ran
      rw [List.isEmpty_iff.mp none] at visited
      refine ⟨(unreachable ++ [server], mirror), box', ?_, visited, fun other => ?_⟩
      · rw [if_pos rfl, Proc.bind_eq, Proc.run_bind, ran]
        rfl
      · simp
    | false =>
      rw [none] at ran
      refine ⟨(unreachable, mirror ++ [server]), (EventIndex.handler
        (.count fun counters => { counters with added := counters.added + counters.lastMirrorAdded }) box').2, ?_,
        ⟨visited.progress, visited.site, visited.apart⟩, fun other => ?_⟩
      · rw [if_pos rfl, Proc.bind_eq, Proc.run_bind, ran]
        rfl
      · simp
  | false =>
    have goes := subsystemRounds_goes server hb steady
    refine ⟨(if (absorbUnits site server hb.url (unitsOf hb) (progressOf server box)).1 then unreachable
      else unreachable ++ [server], mirror), _, ?_, goes.visited, fun other => ?_⟩
    · rw [if_neg Bool.false_ne_true, Proc.bind_eq, Proc.run_bind, goes.tried]
    · cases ends : (absorbUnits site server hb.url (unitsOf hb) (progressOf server box)).1 with
      | true => simp [ends]
      | false => simp [ends]

/-- All servers, one after the other: each is visited once. -/
theorem serverRounds_run (live : Dict ResourceBeat) {entries : List (String × ResourceBeat)}
    (nodup : (entries.map Prod.fst).Nodup) (named : Named) {box : Box} (steady : box.site = fun _ => site) :
    ∃ named' box', (serverRounds live entries named).run EventIndex.handler box = (.ok named', box') ∧
      (∀ server hb, (server, hb) ∈ entries →
        progressOf server box' = (visit site live server hb (progressOf server box)).2) ∧
      (∀ server, server ∈ named'.1 ↔ server ∈ named.1 ∨
        ∃ hb, (server, hb) ∈ entries ∧ (visit site live server hb (progressOf server box)).1 = false) ∧
      ∀ server ∉ entries.map Prod.fst, progressOf server box' = progressOf server box := by
  induction entries generalizing named box with
  | nil => exact ⟨named, box, rfl, nofun, by simp, fun _ _ => rfl⟩
  | cons entry rest ih =>
    obtain ⟨server, hb⟩ := entry
    rw [List.map_cons, List.nodup_cons] at nodup
    obtain ⟨fresh, nodup⟩ := nodup
    obtain ⟨named₁, box₁, first, visited, names₁⟩ := visit_run live server hb rest named steady
    obtain ⟨named₂, box₂, ran, progress₂, names₂, apart₂⟩ := ih nodup named₁ visited.site
    have other_of_mem : ∀ {other hb'}, (other, hb') ∈ rest → other ≠ server := by
      rintro other hb' member rfl
      exact fresh (List.mem_map.mpr ⟨_, member, rfl⟩)
    refine ⟨named₂, box₂, first.trans ran, ?_, ?_, ?_⟩
    · intro other hb' member
      obtain same | later := List.mem_cons.mp member
      · obtain ⟨rfl, rfl⟩ := Prod.mk.inj same
        rw [apart₂ other fresh, visited.progress]
      · rw [progress₂ other hb' later, visited.apart other (other_of_mem later)]
    · intro other
      rw [names₂, names₁, or_assoc]
      refine or_congr_right ⟨?_, ?_⟩
      · rintro (⟨rfl, missed⟩ | ⟨hb', later, missed⟩)
        · exact ⟨hb, .head _, missed⟩
        · rw [visited.apart other (other_of_mem later)] at missed
          exact ⟨hb', .tail _ later, missed⟩
      · rintro ⟨hb', member, missed⟩
        obtain same | later := List.mem_cons.mp member
        · obtain ⟨rfl, rfl⟩ := Prod.mk.inj same
          exact .inl ⟨rfl, missed⟩
        · refine .inr ⟨hb', later, ?_⟩
          rw [visited.apart other (other_of_mem later)]
          exact missed
    · intro other absent
      rw [List.map_cons, List.mem_cons, not_or] at absent
      rw [apart₂ other absent.2, visited.apart other absent.1]

/-! ## What a whole source brings home -/

theorem mem_absorb {source : Source} {bs : List Bucket} {p p' : Progress}
    (whole : absorb site server source bs p = (true, p')) (path : String) :
    path ∈ p'.known ↔ path ∈ p.known ∨ ∃ b ∈ bs, b.events ≠ 0 ∧ b.path = path := by
  induction bs generalizing p with
  | nil =>
    cases whole
    simp
  | cons b rest ih =>
    rw [absorb] at whole
    split at whole
    next skipped =>
      rw [ih whole, List.exists_mem_cons_iff]
      constructor
      · rintro (known | listed)
        · exact .inl known
        · exact .inr (.inr listed)
      · rintro (known | ⟨some, rfl⟩ | listed)
        · exact .inl known
        · exact .inl (skipped.resolve_left some)
        · exact .inr listed
    next needed =>
      rw [not_or] at needed
      split at whole
      · cases whole
      · dsimp only at whole
        split at whole
        · have same : ((p.answered source b.path).known) = p.known := by
            unfold Progress.answered
            split <;> rfl
          rw [ih whole, List.exists_mem_cons_iff]
          dsimp only
          rw [same, List.mem_append, List.mem_singleton, or_assoc]
          refine or_congr_right (or_congr_left ⟨?_, ?_⟩)
          · rintro rfl
            exact ⟨needed.1, rfl⟩
          · exact fun listed => listed.2.symm
        · cases whole

theorem mem_absorbUnits {url : String} {units : List (String × String)} {p p' : Progress}
    (whole : absorbUnits site server url units p = (true, p')) (path : String) :
    path ∈ p'.known ↔ path ∈ p.known ∨
      ∃ unit ∈ units, ∃ bs, site.buckets url unit.1 unit.2 = .ok bs ∧ ∃ b ∈ bs, b.events ≠ 0 ∧ b.path = path := by
  induction units generalizing p with
  | nil =>
    cases whole
    simp
  | cons unit rest ih =>
    obtain ⟨subsystem, unit⟩ := unit
    rw [absorbUnits] at whole
    cases listed : site.buckets url subsystem unit with
    | error fault =>
      rw [listed] at whole
      cases whole
    | ok bs =>
      rw [listed] at whole
      dsimp only at whole
      cases ends : absorb site server (.own url subsystem unit) bs p with
      | mk ok p₁ =>
        rw [ends] at whole
        cases ok with
        | false => cases whole
        | true =>
          rw [ih whole, mem_absorb ends, or_assoc, List.exists_mem_cons_iff]
          refine or_congr_right (or_congr_left ?_)
          constructor
          · exact fun found => ⟨bs, listed, found⟩
          · rintro ⟨bs', listed', found⟩
            rw [listed] at listed'
            cases listed'
            exact found

theorem absorb_delivered (site : Site) (server url subsystem unit : String) (bs : List Bucket) (p : Progress) :
    (absorb site server (.own url subsystem unit) bs p).2.delivered = p.delivered := by
  induction bs generalizing p with
  | nil => rfl
  | cons b rest ih =>
    rw [absorb]
    split
    · exact ih p
    · split
      · rfl
      · dsimp only
        split
        · rw [ih]
          rfl
        · rfl

theorem absorbUnits_delivered (site : Site) (server url : String) (units : List (String × String)) (p : Progress) :
    (absorbUnits site server url units p).2.delivered = p.delivered := by
  induction units generalizing p with
  | nil => rfl
  | cons unit rest ih =>
    obtain ⟨subsystem, unit⟩ := unit
    rw [absorbUnits]
    split
    · rfl
    next bs listed =>
      have kept := absorb_delivered site server url subsystem unit bs p
      split
      next ends =>
        rw [ends] at kept
        rw [ih, kept]
      next => exact kept

/-! ## The passes -/

/-- One tail pass: the heartbeats that it goes by, what would answer it, and what there is to be had, by server the
paths of its closed buckets that hold events. -/
structure Pass where
  resources : {resources : Dict ResourceBeat // (resources.map Prod.fst).Nodup}
  site : Site
  closed : String → List String

/-- The pass begins; its readings are told apart from those before. -/
def begins (box : Box) (pass : Pass) : Box := { box with site := fun _ => pass.site, readings := [] }

def result (lostAfter : ℚ) (box : Box) (pass : Pass) : Except Fault TailReport × Box :=
  (tail lostAfter pass.resources.val false).run EventIndex.handler (begins box pass)

def step (lostAfter : ℚ) (box : Box) (pass : Pass) : Box := (result lostAfter box pass).2

/-- A holder that answered in this pass has delivered the bucket. -/
def Delivered (box : Box) (server path : String) : Prop :=
  ∃ reading ∈ box.readings, reading.server = server ∧ isCopy reading.origin = true ∧ reading.path = path

/-- The text names the server. -/
def Names (text server : String) : Prop := ∃ first last, text = first ++ server ++ last

/-- Every server with a closed bucket of which nothing is in the table, nor delivered, is named. -/
def Honest (lostAfter : ℚ) (box : Box) (pass : Pass) : Prop :=
  let after := step lostAfter box pass
  ∃ report, (result lostAfter box pass).1 = .ok report ∧
    ∀ server ∈ pass.resources.val.map Prod.fst, ∀ path ∈ pass.closed server,
      after.tables.rowsOf server path = [] → ¬ Delivered after server path →
        server ∈ report.unreachable ∧ Names after.counters.state server

/-- What the pass finds is all there is, wherever the server is not named: of a silent server with holders, the holders
bring home every closed bucket that is not in the table; a server that answers everything lists every such bucket. -/
def Covered (lostAfter : ℚ) (box : Box) (pass : Pass) : Prop :=
  ∀ server hb, (server, hb) ∈ pass.resources.val →
    let live := liveAt pass.site.wall lostAfter pass.resources.val
    let before : Progress := ⟨(progressOf server box).known, []⟩
    if (live.get? server).isNone then
      (holders server live).isEmpty = true ∨ ∀ path ∈ pass.closed server,
        let after := absorbPeers pass.site server (holders server live) before
        path ∈ after.known ∨ path ∈ after.delivered
    else
      (absorbUnits pass.site server hb.url (unitsOf hb) before).1 = true → ∀ path ∈ pass.closed server,
        path ∈ before.known ∨ ∃ unit ∈ unitsOf hb, ∃ bs, pass.site.buckets hb.url unit.1 unit.2 = .ok bs ∧
          ∃ b ∈ bs, b.events ≠ 0 ∧ b.path = path

/-- The visit of a server in the pass. -/
def visitOf (lostAfter : ℚ) (box : Box) (pass : Pass) (server : String) (hb : ResourceBeat) : Bool × Progress :=
  visit pass.site (liveAt pass.site.wall lostAfter pass.resources.val) server hb ⟨(progressOf server box).known, []⟩

theorem mem_delivered {server path : String} {box : Box} :
    path ∈ (progressOf server box).delivered ↔ Delivered box server path := by
  simp only [progressOf, List.mem_map, List.mem_filter, Bool.and_eq_true, decide_eq_true_eq, Delivered, and_assoc]

theorem names_intercalate (separator : String) {names : List String} {name : String} (member : name ∈ names) :
    Names (separator.intercalate names) name := by
  induction names with
  | nil => cases member
  | cons first rest ih =>
    cases rest with
    | nil =>
      obtain rfl := List.mem_singleton.mp member
      exact ⟨"", "", by simp⟩
    | cons second rest =>
      rw [String.intercalate_cons_cons]
      obtain rfl | later := List.mem_cons.mp member
      · exact ⟨"", separator ++ separator.intercalate (second :: rest), by simp [String.append_assoc]⟩
      · obtain ⟨before, after, same⟩ := ih later
        exact ⟨first ++ separator ++ before, after, by rw [same]; simp [String.append_assoc]⟩

theorem names_stateText {named : Named} {server : String} (unreachable : server ∈ named.1) :
    Names (stateText named) server := by
  obtain ⟨before, after, same⟩ := names_intercalate ", " unreachable
  have some : named.1.isEmpty = false := by
    rw [List.isEmpty_eq_false_iff]
    exact List.ne_nil_of_mem unreachable
  unfold stateText
  simp only [some, same, Bool.false_eq_true, if_false]
  exact ⟨"live" ++ ("; " ++ before), after ++ " unreachable" ++
    (if named.2.isEmpty then "" else "; " ++ ", ".intercalate named.2 ++ " from mirror"), by simp [String.append_assoc]⟩

theorem tail_run (lostAfter : ℚ) (box : Box) (pass : Pass) :
    ∃ report, (result lostAfter box pass).1 = .ok report ∧
      (∃ named : Named, report.unreachable = named.1 ∧ (step lostAfter box pass).counters.state = stateText named) ∧
      (∀ server hb, (server, hb) ∈ pass.resources.val →
        progressOf server (step lostAfter box pass) = (visitOf lostAfter box pass server hb).2 ∧
          (server ∈ report.unreachable ↔ (visitOf lostAfter box pass server hb).1 = false)) ∧
      ∀ server ∉ pass.resources.val.map Prod.fst,
        (progressOf server (step lostAfter box pass)).known = (progressOf server box).known := by
  let live := liveAt pass.site.wall lostAfter pass.resources.val
  have order : (inOrder pass.resources.val).Perm pass.resources.val := List.perm_insertionSort _ _
  have nodup : ((inOrder pass.resources.val).map Prod.fst).Nodup :=
    ((order.map Prod.fst).nodup_iff).mpr pass.resources.property
  let started : Box := { (begins box pass).tick.tick with counters := { box.counters with added := 0 } }
  have steady : started.site = fun _ => pass.site := rfl
  obtain ⟨named, box', ran, progress, names, apart⟩ := serverRounds_run live nodup ([], []) steady
  have ends : result lostAfter box pass =
      (.ok ⟨box'.counters.added, named.1, named.2, box'.counters.indexedSegments⟩,
        { box'.tick.tick with counters := { box'.counters with state := stateText named } }) := by
    let concludes (named : Named) : Program TailReport := do
      EventIndex.ask (.count fun counters => { counters with state := stateText named })
      let counters ← EventIndex.ask .recollect
      return ⟨counters.added, named.1, named.2, counters.indexedSegments⟩
    have shape : result lostAfter box pass =
        ((serverRounds live (inOrder pass.resources.val) ([], [])).bind concludes).run EventIndex.handler started := rfl
    rw [shape, Proc.run_bind, ran]
    rfl
  have before : ∀ server, progressOf server started = ⟨(progressOf server box).known, []⟩ := fun _ => rfl
  have others : ∀ server ∉ pass.resources.val.map Prod.fst,
      (progressOf server (step lostAfter box pass)).known = (progressOf server box).known := by
    intro server absent
    have unlisted : server ∉ (inOrder pass.resources.val).map Prod.fst :=
      fun listed => absent ((order.map Prod.fst).mem_iff.mp listed)
    have unvisited := (apart server unlisted).trans (before server)
    rw [step, ends]
    show (progressOf server box').known = _
    rw [unvisited]
  refine ⟨_, by rw [ends], ⟨named, rfl, by rw [step, ends]⟩, fun server hb member => ?_, others⟩
  have listed := order.mem_iff.mpr member
  have visited := progress server hb listed
  rw [before] at visited
  refine ⟨?_, ?_⟩
  · show progressOf server (result lostAfter box pass).2 = (visit pass.site live server hb _).2
    rw [← visited, ends]
    rfl
  · rw [names]
    constructor
    · rintro (unnamed | ⟨hb', listed', missed⟩)
      · cases unnamed
      · rw [before] at missed
        -- a server has one heartbeat
        have same : hb' = hb := by
          have pairs := List.inj_on_of_nodup_map nodup listed' listed rfl
          exact (Prod.mk.inj pairs).2
        rw [← same]
        exact missed
    · intro missed
      refine .inr ⟨hb, listed, ?_⟩
      rw [before]
      exact missed

/-! ## The claimed honesty, and when it holds -/

theorem honest_pass_iff {lostAfter : ℚ} {box : Box} {pass : Pass} (filed : Filed (step lostAfter box pass)) :
    Honest lostAfter box pass ↔ Covered lostAfter box pass := by
  obtain ⟨report, reported, ⟨named, named_eq, state⟩, visits, -⟩ := tail_run lostAfter box pass
  have absent : ∀ server path, (step lostAfter box pass).tables.rowsOf server path = [] ↔
      path ∉ (progressOf server (step lostAfter box pass)).known := by
    intro server path
    rw [mem_known, filed.seen, not_not]
  have honest : Honest lostAfter box pass ↔ ∀ server hb, (server, hb) ∈ pass.resources.val →
      (visitOf lostAfter box pass server hb).1 = false ∨ ∀ path ∈ pass.closed server,
        path ∈ (visitOf lostAfter box pass server hb).2.known ∨
          path ∈ (visitOf lostAfter box pass server hb).2.delivered := by
    constructor
    · rintro ⟨report', reported', told⟩ server hb member
      rw [reported] at reported'
      cases reported'
      obtain ⟨progress, missed⟩ := visits server hb member
      rw [← missed, ← progress, or_iff_not_imp_left]
      intro unnamed path closed
      by_contra missing
      rw [not_or, ← absent, mem_delivered] at missing
      exact unnamed (told server (List.mem_map.mpr ⟨_, member, rfl⟩) path closed missing.1 missing.2).1
    · intro found
      refine ⟨report, reported, fun server known path closed empty undelivered => ?_⟩
      obtain ⟨⟨server', hb⟩, member, same⟩ := List.mem_map.mp known
      subst same
      obtain ⟨progress, missed⟩ := visits _ hb member
      have unreachable : server' ∈ report.unreachable := by
        obtain named | all := found _ hb member
        · exact missed.mpr named
        · have has := all path closed
          rw [← progress, mem_delivered] at has
          exact absurd has (not_or.mpr ⟨(absent _ path).mp empty, undelivered⟩)
      refine ⟨unreachable, ?_⟩
      rw [state]
      exact names_stateText (named_eq ▸ unreachable)
  rw [honest, Covered]
  refine forall_congr' fun server => forall_congr' fun hb => forall_congr' fun member => ?_
  dsimp only
  rw [visitOf, visit]
  split
  · split
    next none => simp [none]
    next some => simp [some]
  · cases ends : absorbUnits pass.site server hb.url (unitsOf hb) ⟨(progressOf server box).known, []⟩ with
    | mk whole p =>
      cases whole with
      | false => simp
      | true =>
        have nothing : p.delivered = [] := by
          have kept := absorbUnits_delivered pass.site server hb.url (unitsOf hb) ⟨(progressOf server box).known, []⟩
          rw [ends] at kept
          exact kept
        have found := mem_absorbUnits ends
        simp only [nothing, List.not_mem_nil, or_false, Bool.true_eq_false, false_or, forall_const, found]

theorem filed_step (lostAfter : ℚ) {box : Box} (filed : Filed box) (pass : Pass) : Filed (step lostAfter box pass) := by
  have begun : Filed (begins box pass) := filed.moved rfl
  exact (tends_tail filed_kept lostAfter pass.resources.val false (begins box pass)).run begun

theorem filed_steps (lostAfter : ℚ) {box : Box} (filed : Filed box) (passes : List Pass) :
    Filed (passes.foldl (step lostAfter) box) := by
  induction passes generalizing box with
  | nil => exact filed
  | cons pass rest ih => exact ih (filed_step lostAfter filed pass)

/-- After every pass of a run each server with a closed bucket that the index lacks is named, just in case every pass
found all there was of those it does not name. -/
theorem honest_iff_covered (lostAfter : ℚ) (site : Nat → Site) (passes : List Pass) :
    (∀ first pass, first ++ [pass] <+: passes → Honest lostAfter (first.foldl (step lostAfter) (.new site)) pass) ↔
      Along (step lostAfter) (Covered lostAfter) passes (.new site) := by
  have new : Filed (.new site) := filed_clear (.new site)
  rw [along_iff_prefixes]
  refine forall_congr' fun first => forall_congr' fun pass => forall_congr' fun isPrefix => ?_
  exact honest_pass_iff (filed_step lostAfter (filed_steps lostAfter new first) pass)

/-- Nobody answers. -/
def silence : Site where
  wall := 100
  database _ _ := .ok ()
  buckets _ _ _ := .error .unreachable
  mirrored _ _ := .error .unreachable
  lines _ _ _ := .error .unreachable

/-- `srv-a` has been silent for 100 seconds; `srv-b` says that it holds a copy of its one bucket, but does not answer. -/
def silentHolder : Pass where
  resources :=
    ⟨[("srv-a", ⟨"srv-a", 0, "http://srv-a", [], []⟩), ("srv-b", ⟨"srv-b", 90, "http://srv-b", [], [("srv-a", 1)]⟩)],
    by decide⟩
  site := silence
  closed server := if server = "srv-a" then ["vms/7/e3/20260101T000000Z.events.jsonl"] else []

/-- Nothing of `srv-a` is there, and it is not named. -/
theorem silent_not_named : ¬ Honest 45 (.new fun _ => silence) silentHolder := by
  rintro ⟨report, reported, named⟩
  have nothing : (step 45 (.new fun _ => silence) silentHolder).tables.events.length = 0 ∧
      (step 45 (.new fun _ => silence) silentHolder).readings.length = 0 := by decide +kernel
  have unnamed :
      ((result 45 (.new fun _ => silence) silentHolder).1.toOption.map TailReport.unreachable) = some [] := by
    decide +kernel
  have missing :=
    named "srv-a" (by simp [silentHolder]) "vms/7/e3/20260101T000000Z.events.jsonl" (by simp [silentHolder])
    (by simp [Tables.rowsOf, List.length_eq_zero_iff.mp nothing.1])
    (by simp [Delivered, List.length_eq_zero_iff.mp nothing.2])
  rw [reported] at unnamed
  rw [Option.some.inj unnamed] at missing
  exact absurd missing.1 List.not_mem_nil

end EdgeVms.Verified.EventHonesty
