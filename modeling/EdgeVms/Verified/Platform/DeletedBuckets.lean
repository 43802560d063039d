import EdgeVms.Platform.IndexedFleet
import EdgeVms.Verified.Platform.CopyRetention
import EdgeVms.Verified.Platform.EventHonesty

/-! # Rows of deleted buckets

A tail pass adds the buckets that it has not seen and takes none away: `forget` would,
and nothing calls it.  So every row names a bucket that is there exactly until a retain
pass removes one that the index has.
-/

namespace EdgeVms.Verified.DeletedBuckets

open Process Python Platform Platform.IndexedFleet
open EventHonesty (Progress absorb absorbUnits absorbPeers visit unitsOf progressOf mem_known tail_run)
open EventRows (Filed filed_kept tends_tail)
open Passes (original copy disks_setDisk twoServers)
open CopyRetention (Looks pruned_remove)

/-! ## What a pass adds -/

/-- Nothing known is lost, and what is new is a bucket that is there. -/
structure Adds (there : String → Prop) (before after : Progress) : Prop where
  kept : ∀ path ∈ before.known, path ∈ after.known
  new : ∀ path ∈ after.known, path ∈ before.known ∨ there path

variable {there : String → Prop} {replies : EventIndex.Site} {server : String}

theorem Adds.refl (p : Progress) : Adds there p p := ⟨fun _ known => known, fun _ known => .inl known⟩

theorem Adds.trans {p p' p'' : Progress} (first : Adds there p p') (second : Adds there p' p'') : Adds there p p'' := by
  refine ⟨fun path known => second.kept path (first.kept path known), fun path known => ?_⟩
  obtain before | there := second.new path known
  · exact first.new path before
  · exact .inr there

theorem absorb_adds {source : EventIndex.Source} {bs : List Bucket} (listed : ∀ b ∈ bs, there b.path) (p : Progress) :
    Adds there p (absorb replies server source bs p).2 := by
  induction bs generalizing p with
  | nil => exact .refl p
  | cons b rest ih =>
    obtain ⟨first, others⟩ := List.forall_mem_cons.mp listed
    have answered : (p.answered source b.path).known = p.known := by
      unfold Progress.answered
      split <;> rfl
    have reads : Adds there p (p.answered source b.path) := by
      constructor
      · rw [answered]
        exact fun _ known => known
      · rw [answered]
        exact fun _ known => .inl known
    rw [absorb]
    split
    next => exact ih others p
    next =>
      split
      next => exact .refl p
      next lines _ =>
        dsimp only
        split
        next =>
          refine reads.trans (.trans ⟨?_, ?_⟩ (ih others _))
          · exact fun path known => List.mem_append_left _ known
          · intro path known
            obtain before | new := List.mem_append.mp known
            · exact .inl before
            · rw [List.mem_singleton.mp new]
              exact .inr first
        next => exact reads

theorem absorbUnits_adds {url : String} {units : List (String × String)}
    (listed : ∀ unit ∈ units, ∀ bs, replies.buckets url unit.1 unit.2 = .ok bs → ∀ b ∈ bs, there b.path)
    (p : Progress) :
    Adds there p (absorbUnits replies server url units p).2 := by
  induction units generalizing p with
  | nil => exact .refl p
  | cons unit rest ih =>
    obtain ⟨first, others⟩ := List.forall_mem_cons.mp listed
    obtain ⟨subsystem, unit⟩ := unit
    rw [absorbUnits]
    split
    next => exact .refl p
    next bs found =>
      have adds : Adds there p (absorb replies server (.own url subsystem unit) bs p).2 :=
        absorb_adds (first bs found) p
      split
      next p' ends =>
        rw [ends] at adds
        exact adds.trans (ih others p')
      next => exact adds

theorem absorbPeers_adds {peers : List (String × ResourceBeat)}
    (listed : ∀ peer ∈ peers, ∀ bs, replies.mirrored peer.2.url server = .ok bs → ∀ b ∈ bs, there b.path)
    (p : Progress) :
    Adds there p (absorbPeers replies server peers p) := by
  induction peers generalizing p with
  | nil => exact .refl p
  | cons peer rest ih =>
    obtain ⟨first, others⟩ := List.forall_mem_cons.mp listed
    obtain ⟨name, hb⟩ := peer
    rw [absorbPeers]
    split
    next => exact ih others p
    next bs found => exact (absorb_adds (first bs found) p).trans (ih others _)

theorem visit_adds {live : Dict ResourceBeat} {hb : ResourceBeat}
    (own : ∀ subsystem unit bs, replies.buckets hb.url subsystem unit = .ok bs → ∀ b ∈ bs, there b.path)
    (copied : ∀ url bs, replies.mirrored url server = .ok bs → ∀ b ∈ bs, there b.path) (p : Progress) :
    Adds there p (visit replies live server hb p).2 := by
  rw [visit]
  split
  next =>
    split
    next => exact .refl p
    next => exact absorbPeers_adds (fun peer _ => copied peer.2.url) p
  next => exact absorbUnits_adds (fun unit _ => own unit.1 unit.2) p

/-! ## A pass beside the resources -/

variable {site : Resource.Site} {parse : Bytes → Except Error (List EventIndex.Line)} {lostAfter : ℚ}

/-- The pass, by what the resources answer. -/
def heard (site : Resource.Site) (parse : Bytes → Except Error (List EventIndex.Line)) (fleet : Resource.Fleet)
    (pass : Pass site) : EventHonesty.Pass where
  resources := ⟨pass.beats, pass.keyed⟩
  site := answers site parse fleet pass
  closed _ := []

theorem tailed_adds {state : Indexed} {pass : Pass site}
    (own : ∀ subsystem unit bs,
    (answers site parse state.running.fleet pass).buckets (site.url server) subsystem unit = .ok bs →
      ∀ b ∈ bs, there b.path)
    (copied : ∀ url bs, (answers site parse state.running.fleet pass).mirrored url server = .ok bs →
      ∀ b ∈ bs, there b.path) :
    Adds there (progressOf server state.box) (progressOf server (tailed site parse lostAfter state pass)) := by
  obtain ⟨report, -, -, visits, others⟩ := tail_run lostAfter state.box (heard site parse state.running.fleet pass)
  by_cases listed : server ∈ pass.beats.map Prod.fst
  · obtain ⟨⟨server, hb⟩, member, rfl⟩ := List.mem_map.mp listed
    have visited := (visits server hb member).1
    have adds : Adds there ⟨(progressOf server state.box).known, []⟩
        (visit (answers site parse state.running.fleet pass)
          (EventIndex.liveAt pass.wall lostAfter pass.beats) server hb
          ⟨(progressOf server state.box).known, []⟩).2 := by
      refine visit_adds ?_ copied _
      rw [pass.own _ member]
      exact own
    have same : progressOf server (tailed site parse lostAfter state pass) = _ := visited
    rw [same]
    exact ⟨adds.kept, adds.new⟩
  · have same : (progressOf server (tailed site parse lostAfter state pass)).known =
        (progressOf server state.box).known :=
      others server listed
    constructor
    · rw [same]
      exact fun _ known => known
    · rw [same]
      exact fun _ known => .inl known

/-- What was in `seen` stays there. -/
theorem seen_tailed {state : Indexed} {pass : Pass site} {path : String}
    (seen : (server, path) ∈ state.box.tables.seen) :
    (server, path) ∈ (tailed site parse lostAfter state pass).tables.seen := by
  have adds : Adds (fun _ => True) (progressOf server state.box)
      (progressOf server (tailed site parse lostAfter state pass)) :=
    tailed_adds (fun _ _ _ _ _ _ => trivial) fun _ _ _ _ _ => trivial
  exact mem_known.mp (adds.kept path (mem_known.mpr seen))

/-- Where there are no copies, what is new in `seen` is on its server. -/
theorem new_tailed {state : Indexed} {pass : Pass site} {path : String}
    (uncopied : ∀ holder server path, copy state.running.fleet holder server path = none)
    (seen : (server, path) ∈ (tailed site parse lostAfter state pass).tables.seen) :
    (server, path) ∈ state.box.tables.seen ∨ original state.running.fleet server path ≠ none := by
  have adds : Adds (fun path => original state.running.fleet server path ≠ none) (progressOf server state.box)
      (progressOf server (tailed site parse lostAfter state pass)) := by
    refine tailed_adds ?_ ?_
    · intro subsystem unit bs listed b member
      dsimp only [answers] at listed
      split at listed
      next =>
        rw [site.reaches] at listed
        have files := ((Passes.bucketsAmong_inv (mapError_eq_ok.mp listed)).1 b member).1
        exact (Versioned.mem_keys _).mp (List.mem_filter.mp files).1
      next => cases listed
    · intro url bs listed b member
      dsimp only [answers] at listed
      split at listed
      next =>
        have held := Passes.mirrored_kept (mapError_eq_ok.mp listed) member
        rw [uncopied] at held
        cases held
      next => cases listed
  obtain before | there := adds.new path (mem_known.mpr seen)
  · exact .inl (mem_known.mp before)
  · exact .inr there

theorem filed_tailed {state : Indexed} {pass : Pass site} (filed : Filed state.box) :
    Filed (tailed site parse lostAfter state pass) := by
  have begun : Filed { state.box with site := fun _ => answers site parse state.running.fleet pass, readings := [] } :=
    filed.moved rfl
  exact (tends_tail filed_kept _ _ _ _).run begun

theorem seen_of_row {box : EventIndex.Box} (filed : Filed box) {row : EventIndex.EventRow}
    (member : row ∈ box.tables.events) :
    (row.server, row.path) ∈ box.tables.seen := by
  rw [filed.seen]
  exact List.ne_nil_of_mem (List.mem_filter.mpr ⟨member, by simp⟩)

theorem row_of_seen {box : EventIndex.Box} (filed : Filed box) {path : String}
    (seen : (server, path) ∈ box.tables.seen) :
    ∃ row ∈ box.tables.events, row.server = server ∧ row.path = path := by
  obtain ⟨row, member⟩ := List.exists_mem_of_ne_nil _ ((filed.seen server path).mp seen)
  obtain ⟨member, names⟩ := List.mem_filter.mp member
  exact ⟨row, member, by simpa using names⟩

/-! ## A retain pass only removes -/

/-- The job looks and removes; it brings nothing. -/
def Prunes {α : Type} : Resource.Program α → Prop
  | .call _ (.place _ _) _ => False
  | .call _ (.put _ _ _ _) _ => False
  | .call _ _ next => ∀ answer, Prunes (next answer)
  | _ => True

namespace Prunes

variable {α β : Type}

theorem bind {p : Resource.Program α} {f : α → Resource.Program β} (first : Prunes p)
    (later : ∀ value, Prunes (f value)) :
    Prunes (p >>= f) := by
  induction p with
  | ret value => exact later value
  | raise error => trivial
  | call stage request next ih =>
    cases request with
    | place path bytes | put url server path bytes => exact first.elim
    | _ => exact fun answer => ih answer (first answer)

theorem ofExcept (result : Except Resource.Fault α) : Prunes (Proc.ofExcept result : Resource.Program α) := by
  cases result <;> trivial

theorem looks {p : Resource.Program α} (looks : Looks p) : Prunes p := by
  induction p with
  | ret value | raise error => trivial
  | call stage request next ih =>
    cases request with
    | remove path | place path bytes | put url server path bytes => exact looks.elim
    | _ => exact fun answer => ih answer (looks answer)

theorem removeRounds (days : Floating) (bs : List Bucket) (removed : Nat) :
    Prunes (Resource.removeRounds days bs removed) := by
  induction bs generalizing removed with
  | nil => trivial
  | cons b rest ih =>
    refine bind (fun _ => trivial) fun now => ?_
    split
    next => exact bind (fun _ => trivial) fun answer => bind (ofExcept answer) fun _ => ih _
    next => exact ih removed

theorem retainUnits (subsystem : String) (units : List String) (removed : Nat) :
    Prunes (Resource.retainUnits subsystem units removed) := by
  induction units generalizing removed with
  | nil => trivial
  | cons unit rest ih =>
    refine bind (looks (Looks.daysRounds _ _)) fun days => bind (fun _ => trivial) fun answer => ?_
    exact bind (ofExcept answer) fun bs => bind (removeRounds days bs removed) fun _ => ih _

theorem retain : Prunes Resource.retain := by
  have rounds : ∀ (entries : List (String × List String)) (removed : Nat),
      Prunes (Resource.retainRounds entries removed) := by
    intro entries
    induction entries with
    | nil => exact fun _ => trivial
    | cons entry rest ih => exact fun removed => bind (retainUnits _ _ removed) fun _ => ih _
  exact bind (fun _ => trivial) fun _ => rounds _ 0

theorem program (server : String) : Prunes (Resource.Job.program site server .retain) := by
  rw [Resource.Job.program, map_eq_pure_bind]
  exact bind retain fun _ => trivial

/-- The answer to a request, and what is left of the disks. -/
theorem request (site : Resource.Site) (server : String) {p : Resource.Program α} (prunes : Prunes p)
    (fleet : Resource.Fleet) :
    Prunes (Proc.advance (Resource.handler site server) (p, fleet)).1 ∧
      ((Proc.advance (Resource.handler site server) (p, fleet)).2 = fleet ∨
        ∃ stage path next, p = .call stage (.remove path) next ∧ (original fleet server path).isSome ∧
          (Proc.advance (Resource.handler site server) (p, fleet)).2 =
            fleet.setDisk server ((fleet.disks server).remove path)) := by
  cases p with
  | ret value | raise error => exact ⟨trivial, .inl rfl⟩
  | call stage request next =>
    cases request with
    | place path bytes | put url server path bytes => exact prunes.elim
    | remove path =>
      refine ⟨prunes _, ?_⟩
      by_cases there : (original fleet server path).isSome
      · have served : Resource.handler site server (.remove path) fleet =
            (.ok (), fleet.setDisk server ((fleet.disks server).remove path)) := if_pos there
        refine .inr ⟨stage, path, next, rfl, there, ?_⟩
        rw [Proc.advance, served]
      · have served : Resource.handler site server (.remove path) fleet = (.error .fileNotFound, fleet) := if_neg there
        refine .inl ?_
        rw [Proc.advance, served]
    | _ => exact ⟨prunes _, .inl rfl⟩

end Prunes

/-! ## Runs -/

/-- Every server that the pass goes by has a recent heartbeat and answers, and those of which the index has rows are
among them. -/
def AllLive (lostAfter : ℚ) (state : Indexed) (pass : Pass site) : Prop :=
  (∀ entry ∈ pass.beats, pass.wall - entry.2.ts ≤ lostAfter ∧ pass.up entry.1 = true) ∧
    ∀ row ∈ state.box.tables.events, row.server ∈ pass.beats.map Prod.fst

/-- After a tail pass with all servers live no row names a bucket whose file is gone, and no query returns such an
event. -/
def DeletedLeave (site : Resource.Site) (parse : Bytes → Except Error (List EventIndex.Line)) (lostAfter : ℚ)
    (state : Indexed) : Prop :=
  ∀ pass : Pass site, AllLive lostAfter state pass →
    let after := step site parse lostAfter state (.tail pass)
    (∀ row ∈ after.box.tables.events, original after.running.fleet row.server row.path ≠ none) ∧
      ∀ query : EventIndex.Query, ∀ row ∈ query.rows after.box.tables,
        original after.running.fleet row.server row.path ≠ none

/-- The job of a server is about to remove a bucket that the index has. -/
def RemovesIndexed (state : Indexed) (event : Event site) : Prop :=
  ∃ server stage path next, event = .request server ∧
    state.running.jobs server = .call stage (.remove path) next ∧ (server, path) ∈ state.box.tables.seen

structure Tracked (state : Indexed) : Prop where
  filed : Filed state.box
  uncopied : ∀ holder server path, copy state.running.fleet holder server path = none
  jobs : ∀ server, Prunes (state.running.jobs server)
  present : ∀ server path, (server, path) ∈ state.box.tables.seen → original state.running.fleet server path ≠ none

variable {state : Indexed}

theorem mem_rows {query : EventIndex.Query} {tables : EventIndex.Tables} {row : EventIndex.EventRow}
    (found : row ∈ query.rows tables) : row ∈ tables.events := by
  have sorted : ∀ row ∈ (tables.events.filter query.selects).insertionSort (fun left right => ¬ right.t.lt left.t),
      row ∈ tables.events := fun row member => (List.mem_filter.mp ((List.mem_insertionSort _).mp member)).1
  unfold EventIndex.Query.rows at found
  dsimp only at found
  split at found
  next => exact sorted row (List.mem_of_mem_take found)
  next => exact sorted row found

theorem Tracked.tail (tracked : Tracked state) (pass : Pass site) :
    Tracked (step site parse lostAfter state (.tail pass)) where
  filed := filed_tailed tracked.filed
  uncopied := tracked.uncopied
  jobs := tracked.jobs
  present server path seen := by
    obtain before | there := new_tailed tracked.uncopied seen
    · exact tracked.present server path before
    · exact there

theorem Tracked.leave (tracked : Tracked state) : DeletedLeave site parse lostAfter state := by
  intro pass _
  have later : Tracked (step site parse lostAfter state (.tail pass)) := tracked.tail pass
  have rows : ∀ row ∈ (step site parse lostAfter state (.tail pass)).box.tables.events,
      original state.running.fleet row.server row.path ≠ none :=
    fun row member => later.present row.server row.path (seen_of_row later.filed member)
  exact ⟨rows, fun query row found => rows row (mem_rows found)⟩

/-- The resources go on, and no bucket of the index goes. -/
theorem Tracked.moved {running : Resource.Running} (tracked : Tracked state)
    (present : ∀ server path, (server, path) ∈ state.box.tables.seen → original state.running.fleet server path ≠ none →
      original running.fleet server path ≠ none)
    (copies : ∀ holder server path, copy running.fleet holder server path = copy state.running.fleet holder server path)
    (jobs : ∀ server, Prunes (running.jobs server)) : Tracked { state with running := running } where
  filed := tracked.filed
  uncopied holder server path := (copies holder server path).trans (tracked.uncopied holder server path)
  jobs := jobs
  present server path seen := present server path seen (tracked.present server path seen)

/-- What is recorded is added to one bucket. -/
theorem append_keeps (fleet : Resource.Fleet) (server : String) (log : EventLog) (t : ℚ) (line : Bytes) :
    (∀ server' path, original fleet server' path ≠ none →
      original (fleet.append server log t line) server' path ≠ none) ∧
      ∀ holder owner path, copy (fleet.append server log t line) holder owner path = copy fleet holder owner path := by
  unfold Resource.Fleet.append
  split
  next => exact ⟨fun _ _ there => there, fun _ _ _ => rfl⟩
  next found _ =>
    dsimp only
    constructor
    · intro server' path there
      rw [original, disks_setDisk]
      split
      next here =>
        subst here
        show ((fleet.disks server').files.write found _).read path ≠ none
        by_cases same : path = found
        · rw [same, Versioned.read_write_self]
          simp
        · rw [Versioned.read_write_other _ _ same]
          exact there
      next => exact there
    · intro holder owner path
      rw [copy, disks_setDisk]
      split
      next here =>
        subst here
        rfl
      next => rfl

theorem jobs_update {jobs : String → Resource.Program Resource.Outcome} (prunes : ∀ server, Prunes (jobs server))
    {server : String} {p : Resource.Program Resource.Outcome} (new : Prunes p) (server' : String) :
    Prunes (Function.update jobs server p server') := by
  by_cases same : server' = server
  · rw [same, Function.update_self]
    exact new
  · rw [Function.update_of_ne same]
    exact prunes server'

theorem Tracked.step (tracked : Tracked state) {event : Event site} (allowed : ¬RemovesIndexed state event) :
    Tracked (step site parse lostAfter state event) := by
  cases event with
  | append server log t line =>
    obtain ⟨originals, copies⟩ := append_keeps state.running.fleet server log t line
    exact tracked.moved (fun server' path _ there => originals server' path there) copies tracked.jobs
  | retain server =>
    refine tracked.moved (fun _ _ _ there => there) (fun _ _ _ => rfl) fun server' => ?_
    exact jobs_update tracked.jobs (Prunes.program server) server'
  | request server =>
    have requested := Prunes.request site server (tracked.jobs server) state.running.fleet
    refine tracked.moved ?_ ?_ fun server' => jobs_update tracked.jobs requested.1 server'
    · intro server' path' seen there
      show original (Proc.advance _ _).2 server' path' ≠ none
      obtain still | ⟨stage, path, next, removes, -, removed⟩ := requested.2
      · rw [still]
        exact there
      · rw [removed, original, disks_setDisk]
        split
        next here =>
          subst here
          have other : path' ≠ path := by
            rintro rfl
            exact allowed ⟨server', stage, path', next, rfl, removes, seen⟩
          show ((state.running.fleet.disks server').files.remove path).read path' ≠ none
          rw [Versioned.read_remove_other _ other]
          exact there
        next => exact there
    · intro holder owner path'
      show copy (Proc.advance _ _).2 holder owner path' = _
      obtain still | ⟨stage, path, next, -, -, removed⟩ := requested.2
      · rw [still]
      · rw [removed]
        exact (pruned_remove server path state.running.fleet).1.copies holder owner path'
  | clock | store | policy => exact tracked.moved (fun _ _ _ there => there) (fun _ _ _ => rfl) tracked.jobs
  | tail pass => exact tracked.tail pass

/-- A pass that goes by fresh heartbeats of all servers with rows. -/
def freshPass (site : Resource.Site) (lostAfter : ℚ) (state : Indexed) : Pass site where
  wall := 0
  beats := (state.box.tables.seen.map Prod.fst).dedup.map fun server =>
    (server, ⟨server, -lostAfter, site.url server, (state.running.fleet.disks server).subsystemsUnder, []⟩)
  up _ := true
  database _ _ := .ok ()
  keyed := by
    rw [List.map_map]
    exact (List.map_id _).symm ▸ List.nodup_dedup _
  own entry member := by
    obtain ⟨server, -, rfl⟩ := List.mem_map.mp member
    rfl

theorem freshPass_live (filed : Filed state.box) : AllLive lostAfter state (freshPass site lostAfter state) := by
  constructor
  · intro entry member
    obtain ⟨server, -, rfl⟩ := List.mem_map.mp member
    exact ⟨by simp [freshPass], rfl⟩
  · intro row member
    have seen := seen_of_row filed member
    refine List.mem_map.mpr ⟨_, List.mem_map.mpr ⟨row.server, ?_, rfl⟩, rfl⟩
    exact List.mem_dedup.mpr (List.mem_map_of_mem seen)

/-- A row of a bucket that is gone outlives every pass. -/
theorem not_leave_of_gone (filed : Filed state.box) {path : String} (seen : (server, path) ∈ state.box.tables.seen)
    (gone : original state.running.fleet server path = none) : ¬DeletedLeave site parse lostAfter state := by
  intro leave
  obtain ⟨rows, -⟩ := leave (freshPass site lostAfter state) (freshPass_live filed)
  have after : (server, path) ∈ (tailed site parse lostAfter state (freshPass site lostAfter state)).tables.seen :=
    seen_tailed seen
  obtain ⟨row, member, whose, which⟩ := row_of_seen (filed_tailed filed) after
  refine rows row member ?_
  rw [whose, which]
  exact gone

theorem Tracked.breaks (tracked : Tracked state) {event : Event site} (removes : RemovesIndexed state event) :
    ¬DeletedLeave site parse lostAfter (IndexedFleet.step site parse lostAfter state event) := by
  obtain ⟨server, stage, path, next, rfl, program, seen⟩ := removes
  have there := Option.isSome_iff_ne_none.mpr (tracked.present server path seen)
  have served : Resource.handler site server (.remove path) state.running.fleet =
      (.ok (), state.running.fleet.setDisk server ((state.running.fleet.disks server).remove path)) := if_pos there
  refine not_leave_of_gone tracked.filed seen ?_
  show original (Proc.advance _ _).2 server path = none
  rw [program, Proc.advance, served]
  exact (pruned_remove server path state.running.fleet).2

/-- Each bucket holds one event. -/
def oneEvent (_ : Bytes) : Except Error (List EventIndex.Line) := .ok [[("t", .int 0), ("kind", .str "motion")]]

def passAt (wall : ℚ) : Pass twoServers where
  wall
  beats := [("a", ⟨"a", wall, "a", [("vms", ["7"])], []⟩)]
  up _ := true
  database _ _ := .ok ()
  keyed := List.nodup_singleton _
  own entry member := by
    rw [List.mem_singleton.mp member]
    rfl

def years : ℚ := 100000000

/-- The requests: the units, two rows, the buckets, the clock and the removal. -/
def retained : List (Event twoServers) :=
  [.append "a" ⟨"", "vms", "7", 1, 600⟩ 0 [97, 10], .tail (passAt 0), .clock "a" years, .retain "a",
    .request "a", .request "a", .request "a", .request "a", .request "a", .request "a"]

def emptySite : Indexed := start (fun _ => Versioned.empty 0) (fun _ => 0) (Versioned.empty 0)

def afterRetain : Indexed := retained.foldl (step twoServers oneEvent 45) emptySite

end EdgeVms.Verified.DeletedBuckets
