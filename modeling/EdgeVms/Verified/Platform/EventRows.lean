import EdgeVms.Platform.EventIndex
import EdgeVms.Process.Pool

/-! # The rows of the event index

Between the look at `seen` and the insert nobody else writes the tables, and what is
inserted is what the one read in between answered.
-/

namespace EdgeVms.Verified.EventRows

open Process Python Platform EventIndex

/-! ## The tables -/

/-- `seen` lists the buckets that have rows, each once. -/
structure Filed (box : Box) : Prop where
  seen : ∀ server path, (server, path) ∈ box.tables.seen ↔ box.tables.rowsOf server path ≠ []
  once : box.tables.seen.Nodup

/-- A bucket has no rows, or exactly those of the lines that one read answered. -/
structure Exact (box : Box) : Prop extends Filed box where
  rows : ∀ server path, box.tables.rowsOf server path = [] ∨
    ∃ reading ∈ box.readings, reading.server = server ∧ reading.path = path ∧ ∃ subsystem unit epoch,
      reading.lines.val.mapM (rowOf server subsystem unit epoch path) = .ok (box.tables.rowsOf server path)

theorem rowOf_filed {server subsystem unit path : String} {epoch : Int} {e : Line} {row : EventRow}
    (made : rowOf server subsystem unit epoch path e = .ok row) : row.server = server ∧ row.path = path := by
  simp only [rowOf, bind_eq_ok] at made
  obtain ⟨cam, -, value, -, t, -, kind, -, ends⟩ := made
  cases ends
  exact ⟨rfl, rfl⟩

theorem filed_of_mapM {server subsystem unit path : String} {epoch : Int} {lines : List Line} {rows : List EventRow}
    (made : lines.mapM (rowOf server subsystem unit epoch path) = .ok rows) :
    ∀ row ∈ rows, row.server = server ∧ row.path = path := by
  induction lines generalizing rows with
  | nil =>
    cases made
    simp
  | cons e rest ih =>
    simp only [List.mapM_cons, bind_eq_ok] at made
    obtain ⟨row, first, others, later, ends⟩ := made
    cases ends
    rw [List.forall_mem_cons]
    exact ⟨rowOf_filed first, ih later⟩

theorem insert_ok {tables tables' : Tables} {server path : String} {rows : List EventRow}
    (done : tables.insert server path rows = .ok tables') :
    (server, path) ∉ tables.seen ∧ tables' = ⟨tables.seen ++ [(server, path)], tables.events ++ rows⟩ := by
  unfold Tables.insert at done
  split at done
  · cases done
  · split at done
    · cases done
    next unseen =>
      cases done
      exact ⟨unseen, rfl⟩

theorem rowsOf_append (seen seen' : List (String × String)) (events rows : List EventRow) (server path : String) :
    Tables.rowsOf ⟨seen', events ++ rows⟩ server path =
      Tables.rowsOf ⟨seen, events⟩ server path ++ rows.filter fun row => row.server = server ∧ row.path = path :=
  List.filter_append _ _

/-- A transaction files the rows of one bucket, and leaves the others alone. -/
theorem rowsOf_insert {box : Box} (filed : Filed box) {reading : Reading} {subsystem unit : String} {epoch : Int}
    {rows : List EventRow}
    (made : reading.lines.val.mapM (rowOf reading.server subsystem unit epoch reading.path) = .ok rows)
    (unseen : (reading.server, reading.path) ∉ box.tables.seen) (server path : String) :
    Tables.rowsOf ⟨box.tables.seen ++ [(reading.server, reading.path)], box.tables.events ++ rows⟩ server path =
      if (server, path) = (reading.server, reading.path) then rows else box.tables.rowsOf server path := by
  have ofReading := filed_of_mapM made
  rw [rowsOf_append box.tables.seen]
  split
  next same =>
    obtain ⟨rfl, rfl⟩ := Prod.mk.inj same
    have here : rows.filter (fun row => row.server = reading.server ∧ row.path = reading.path) = rows :=
      List.filter_eq_self.mpr fun row member => decide_eq_true (ofReading row member)
    have before : box.tables.rowsOf reading.server reading.path = [] := by
      by_contra some
      exact unseen ((filed.seen _ _).mpr some)
    rw [here]
    exact congrArg (· ++ rows) before
  next other =>
    have elsewhere : rows.filter (fun row => row.server = server ∧ row.path = path) = [] := by
      refine List.filter_eq_nil_iff.mpr fun row member same => other ?_
      obtain ⟨server_eq, path_eq⟩ := ofReading row member
      rw [decide_eq_true_eq] at same
      rw [← same.1, ← same.2, server_eq, path_eq]
    rw [elsewhere]
    exact List.append_nil _

theorem rows_ne_nil {reading : Reading} {subsystem unit : String} {epoch : Int} {rows : List EventRow}
    (made : reading.lines.val.mapM (rowOf reading.server subsystem unit epoch reading.path) = .ok rows) :
    rows ≠ [] := by
  intro none
  have length := length_of_mapM made
  rw [none] at length
  exact reading.lines.property (List.length_eq_zero_iff.mp length.symm)

/-- One transaction, of the rows that a read answered. -/
theorem Filed.insert {box : Box} (filed : Filed box) {reading : Reading} {subsystem unit : String} {epoch : Int}
    {rows : List EventRow}
    (made : reading.lines.val.mapM (rowOf reading.server subsystem unit epoch reading.path) = .ok rows)
    {tables : Tables} (done : box.tables.insert reading.server reading.path rows = .ok tables) :
    Filed { box.tick with tables := tables } := by
  obtain ⟨unseen, rfl⟩ := insert_ok done
  refine ⟨fun server path => ?_, ?_⟩
  · dsimp only
    rw [rowsOf_insert filed made unseen, List.mem_append, List.mem_singleton]
    split
    next same => exact iff_of_true (.inr same) (rows_ne_nil made)
    next other =>
      rw [← filed.seen]
      exact ⟨fun member => member.resolve_right other, .inl⟩
  · dsimp only
    rw [List.nodup_append]
    refine ⟨filed.once, List.nodup_singleton _, fun entry old entry' new => ?_⟩
    rw [List.mem_singleton.mp new]
    rintro rfl
    exact unseen old

theorem Exact.insert {box : Box} (exact_ : Exact box) {reading : Reading} (answered : reading ∈ box.readings)
    {subsystem unit : String} {epoch : Int} {rows : List EventRow}
    (made : reading.lines.val.mapM (rowOf reading.server subsystem unit epoch reading.path) = .ok rows)
    {tables : Tables} (done : box.tables.insert reading.server reading.path rows = .ok tables) :
    Exact { box.tick with tables := tables } := by
  refine ⟨exact_.toFiled.insert made done, fun server path => ?_⟩
  obtain ⟨unseen, rfl⟩ := insert_ok done
  dsimp only
  rw [rowsOf_insert exact_.toFiled made unseen]
  split
  next same =>
    obtain ⟨rfl, rfl⟩ := Prod.mk.inj same
    exact .inr ⟨reading, answered, rfl, rfl, subsystem, unit, epoch, made⟩
  next => exact exact_.rows server path

/-- An invariant of the tables that the programs of the index keep. -/
structure Kept (invariant : Box → Prop) : Prop where
  moved : ∀ {box box' : Box}, invariant box → box'.tables = box.tables → box.readings ⊆ box'.readings → invariant box'
  insert : ∀ {box : Box} {reading : Reading} {subsystem unit : String} {epoch : Int} {rows : List EventRow}
    {tables : Tables}, invariant box → reading ∈ box.readings →
    reading.lines.val.mapM (rowOf reading.server subsystem unit epoch reading.path) = .ok rows →
      box.tables.insert reading.server reading.path rows = .ok tables → invariant { box.tick with tables := tables }
  clear : ∀ {box : Box}, invariant { box.tick with tables := ⟨[], []⟩ }

theorem filed_clear (box : Box) : Filed { box with tables := ⟨[], []⟩ } where
  seen _ _ := by simp [Tables.rowsOf]
  once := .nil

theorem Filed.moved {box box' : Box} (filed : Filed box) (tables : box'.tables = box.tables) : Filed box' := by
  refine ⟨fun server path => ?_, ?_⟩
  · rw [tables]
    exact filed.seen server path
  · rw [tables]
    exact filed.once

theorem filed_kept : Kept Filed where
  moved filed tables _ := filed.moved tables
  insert filed _ made done := filed.insert made done
  clear := filed_clear _

theorem exact_clear (box : Box) : Exact { box with tables := ⟨[], []⟩ } := ⟨filed_clear box, fun _ _ => .inl rfl⟩

theorem exact_kept : Kept Exact where
  moved exact_ tables readings := by
    refine ⟨exact_.toFiled.moved tables, fun server path => ?_⟩
    rw [tables]
    obtain none | ⟨reading, answered, made⟩ := exact_.rows server path
    · exact .inl none
    · exact .inr ⟨reading, readings answered, made⟩
  insert exact_ answered made done := exact_.insert answered made done
  clear := exact_clear _

/-! ## The programs -/

/-- Every request of the program keeps the invariant. -/
def Tends {α : Type} (invariant : Box → Prop) (p : Program α) (box : Box) : Prop :=
  Safe EventIndex.handler (fun _ box box' => box = box') (fun box box' => invariant box → invariant box')
    (fun _ _ => True) p box

variable {invariant : Box → Prop}

namespace Tends

variable {α β : Type} {box : Box}

theorem bind {p : Program α} {f : α → Program β} (first : Tends invariant p box)
    (later : ∀ value box, Tends invariant (f value) box) :
    Tends invariant (p >>= f) box := by
  refine Safe.bind (Safe.mono (fun result box' _ => ?_) first)
  cases result with
  | error fault => trivial
  | ok value => exact later value box'

theorem caught {p : Program α} {handle : Fault → Program α} (body : Tends invariant p box)
    (handled : ∀ fault box, Tends invariant (handle fault) box) : Tends invariant (tryCatch p handle) box := by
  refine Safe.tryCatch (Safe.mono (fun result box' _ => ?_) body)
  cases result with
  | error fault => exact handled fault box'
  | ok value => trivial

theorem ofExcept (result : Except Fault α) : Tends invariant (Proc.ofExcept result) box := by
  cases result <;> trivial

theorem ofExcept_bind {result : Except Fault α} {f : α → Program β}
    (later : ∀ value, result = .ok value → Tends invariant (f value) box) :
    Tends invariant (Proc.ofExcept result >>= f) box := by
  cases result with
  | error fault => trivial
  | ok value => exact later value rfl

/-- Run to its end, the program leaves what the invariant says. -/
theorem run {p : Program α} (tends : Tends invariant p box) (holds : invariant box) :
    invariant (p.run EventIndex.handler box).2 := by
  induction p generalizing box with
  | ret value | raise fault => exact holds
  | call label request next ih =>
    obtain ⟨keeps, rest⟩ := tends box rfl
    exact ih _ rest (keeps holds)

/-- A request that leaves the tables and the readings alone. -/
theorem ask (kept : Kept invariant) {request : Request}
    (tables : ∀ box, (EventIndex.handler request box).2.tables = box.tables)
    (readings : ∀ box, (EventIndex.handler request box).2.readings = box.readings) :
    Tends invariant (EventIndex.ask request) box := by
  rintro _ rfl
  refine ⟨fun holds => kept.moved holds (tables box) ?_, trivial⟩
  rw [readings]
  exact List.Subset.refl _

end Tends

theorem events_cases (origin : Origin) (server path : String) (box : Box) :
    (∃ fault, EventIndex.handler (.events origin server path) box = (.error fault, box.tick)) ∨
      ∃ lines : Lines, EventIndex.handler (.events origin server path) box =
        (.ok lines.val, { box.tick with readings := box.readings ++ [⟨origin, server, path, lines⟩] }) := by
  cases answered : box.now.lines origin server path with
  | error fault => exact .inl ⟨fault, by simp only [EventIndex.handler, answered]⟩
  | ok lines => exact .inr ⟨lines, by simp only [EventIndex.handler, answered]⟩

theorem insert_cases (server path : String) (rows : List EventRow) (box : Box) :
    (∃ fault, EventIndex.handler (.insert server path rows) box = (.error fault, box.tick)) ∨
      ∃ tables, box.tables.insert server path rows = .ok tables ∧
        EventIndex.handler (.insert server path rows) box = (.ok (), { box.tick with tables := tables }) := by
  cases takes : box.now.database server path with
  | error fault => exact .inl ⟨fault, by simp only [EventIndex.handler, takes]⟩
  | ok taken =>
    cases done : box.tables.insert server path rows with
    | error fault => exact .inl ⟨fault, by simp only [EventIndex.handler, takes, done]⟩
    | ok tables => exact .inr ⟨tables, rfl, by simp only [EventIndex.handler, takes, done]⟩

section Programs

variable (kept : Kept invariant)
include kept

/-- The rows that a read has made are inserted. -/
theorem tends_insert {box : Box} {reading : Reading} (answered : reading ∈ box.readings) {subsystem unit : String}
    {epoch : Int} {rows : List EventRow}
    (made : reading.lines.val.mapM (rowOf reading.server subsystem unit epoch reading.path) = .ok rows) :
    Tends invariant (EventIndex.ask (.insert reading.server reading.path rows)) box := by
  rintro _ rfl
  obtain ⟨fault, same⟩ | ⟨tables, done, same⟩ := insert_cases reading.server reading.path rows box
  · rw [same]
    exact ⟨fun holds => kept.moved holds rfl (List.Subset.refl _), trivial⟩
  · rw [same]
    exact ⟨fun holds => kept.insert holds answered made done, trivial⟩

/-- A bucket is read, and its rows are inserted. -/
theorem tends_read {box : Box} (server : String) (source : Source) (b : Bucket) {rest : Program Unit}
    (later : ∀ box, Tends invariant rest box) :
    Tends invariant (do
      let lines ← Proc.ofExcept (← EventIndex.ask (.events source.origin server b.path))
      let (subsystem, unit) := source.filed b
      let rows ← Proc.ofExcept ((lines.mapM (rowOf server subsystem unit b.epoch b.path)).mapError .python)
      Proc.ofExcept (← EventIndex.ask (.insert server b.path rows))
      EventIndex.ask (.count (source.count rows.length))
      rest) box := by
  rintro _ rfl
  obtain ⟨fault, same⟩ | ⟨lines, same⟩ := events_cases source.origin server b.path box
  · rw [same]
    exact ⟨fun holds => kept.moved holds rfl (List.Subset.refl _), trivial⟩
  · rw [same]
    refine ⟨fun holds => kept.moved holds rfl (List.subset_append_left _ _), ?_⟩
    let reading : Reading := ⟨source.origin, server, b.path, lines⟩
    have answered : reading ∈ box.readings ++ [reading] := List.mem_append_right _ (.head _)
    show Tends invariant (Proc.ofExcept (Except.mapError Fault.python (List.mapM _ lines.val)) >>= _) _
    refine .ofExcept_bind fun rows worked => ?_
    have made : lines.val.mapM (rowOf server (source.filed b).1 (source.filed b).2 b.epoch b.path) = .ok rows :=
      mapError_eq_ok.mp worked
    have inserts : Tends invariant (EventIndex.ask (.insert reading.server reading.path rows))
        { box.tick with readings := box.readings ++ [reading] } := tends_insert kept answered made
    exact .bind inserts fun result box' => .bind (.ofExcept result) fun _ box' =>
      .bind (.ask kept (fun _ => rfl) fun _ => rfl) fun _ box' => later box'

/-- One bucket after the other. -/
theorem tends_bucketRounds (server : String) (source : Source) (bs : List Bucket) (box : Box) :
    Tends invariant (bucketRounds server source bs) box := by
  induction bs generalizing box with
  | nil => trivial
  | cons b rest ih =>
    unfold bucketRounds
    split
    · exact ih box
    · refine .bind (.ask kept (fun _ => rfl) fun _ => rfl) fun seen box' => ?_
      split
      · exact ih box'
      · exact tends_read kept server source b ih

theorem tends_subsystemRounds (server url : String) (units : List (String × List String)) (box : Box) :
    Tends invariant (subsystemRounds server url units) box := by
  have tends_unitRounds : ∀ subsystem units box, Tends invariant (unitRounds server url subsystem units) box := by
    intro subsystem units
    induction units with
    | nil => exact fun box => trivial
    | cons unit rest ih =>
      exact fun box => .bind (.ask kept (fun _ => rfl) fun _ => rfl) fun bs box => .bind (.ofExcept bs) fun bs box =>
        .bind (tends_bucketRounds kept server _ bs box) fun _ box => ih box
  induction units generalizing box with
  | nil => trivial
  | cons entry rest ih => exact .bind (tends_unitRounds entry.1 entry.2 box) fun _ box => ih box

theorem tends_fromMirror (server : String) (live : Dict ResourceBeat) (box : Box) :
    Tends invariant (fromMirror server live) box := by
  have tends_holderRounds : ∀ peers box, Tends invariant (holderRounds server peers) box := by
    intro peers
    induction peers with
    | nil => exact fun box => trivial
    | cons peer rest ih =>
      intro box
      refine .bind (.caught ?_ fun _ _ => trivial) fun _ box => ih box
      exact .bind (.ask kept (fun _ => rfl) fun _ => rfl) fun bs box => .bind (.ofExcept bs) fun bs box =>
        tends_bucketRounds kept server _ bs box
  refine .bind (.ask kept (fun _ => rfl) fun _ => rfl) fun _ box => ?_
  split
  · trivial
  · exact .bind (tends_holderRounds _ box) fun _ box => trivial

theorem tends_serverRounds (live : Dict ResourceBeat)
    (servers : List (String × ResourceBeat)) (named : Named) (box : Box) :
    Tends invariant (serverRounds live servers named) box := by
  induction servers generalizing named box with
  | nil => trivial
  | cons entry rest ih =>
    obtain ⟨server, hb⟩ := entry
    unfold serverRounds
    split
    · refine .bind (tends_fromMirror kept server live box) fun read box => ?_
      split
      · exact .bind (.ask kept (fun _ => rfl) fun _ => rfl) fun _ box => ih _ box
      · exact ih _ box
    · refine .bind (.caught ?_ fun _ _ => trivial) fun answered box => ih _ box
      exact .bind (tends_subsystemRounds kept server hb.url hb.units box) fun _ box => trivial

theorem tends_tail (lostAfter : ℚ) (resources : Dict ResourceBeat) (rebuild : Bool) (box : Box) :
    Tends invariant (tail lostAfter resources rebuild) box := by
  refine .bind (.ask kept (fun _ => rfl) fun _ => rfl) fun _ box =>
    .bind (.ask kept (fun _ => rfl) fun _ => rfl) fun now box => ?_
  refine .bind (tends_serverRounds kept _ _ _ box) fun named box => ?_
  exact .bind (.ask kept (fun _ => rfl) fun _ => rfl) fun _ box =>
    .bind (.ask kept (fun _ => rfl) fun _ => rfl) fun _ box => trivial

theorem tends_rebuild (lostAfter : ℚ) (resources : Dict ResourceBeat) (box : Box) :
    Tends invariant (EventIndex.rebuild lostAfter resources) box := by
  have clears : Tends invariant (EventIndex.ask .clear) box := by
    rintro _ rfl
    exact ⟨fun _ => kept.clear, trivial⟩
  exact .bind clears fun _ box => .bind (.ask kept (fun _ => rfl) fun _ => rfl) fun _ box => tends_tail kept _ _ _ box

end Programs

/-! ## Runs -/

/-- A pass of the index, over the resources as they are seen when it begins. -/
inductive Pass where
  | tail (resources : Dict ResourceBeat)
  | rebuild (resources : Dict ResourceBeat)

def Pass.program (lostAfter : ℚ) : Pass → Program TailReport
  | .tail resources => EventIndex.tail lostAfter resources false
  | .rebuild resources => EventIndex.rebuild lostAfter resources

/-- One pass after the other, each as far as its `n`-th request. -/
def runs (lostAfter : ℚ) (passes : List (Pass × Nat)) (box : Box) : Box :=
  passes.foldl (fun box (pass, n) => (Proc.after EventIndex.handler n (pass.program lostAfter, box)).2) box

/-- In every state of every sequence of passes, whatever the resources and their peers answer: no row is there twice,
and none that was not read. -/
theorem index_exact (lostAfter : ℚ) (site : Nat → Site) (passes : List (Pass × Nat)) :
    Exact (runs lostAfter passes (.new site)) := by
  have keeps : ∀ passes box, Exact box → Exact (runs lostAfter passes box) := by
    intro passes
    induction passes with
    | nil => exact fun box exact_ => exact_
    | cons entry rest ih =>
      intro box exact_
      refine ih _ ?_
      have tends : Tends Exact (entry.1.program lostAfter) box := by
        cases entry.1 with
        | tail resources => exact tends_tail exact_kept _ _ _ box
        | rebuild resources => exact tends_rebuild exact_kept _ _ box
      exact Safe.after_keeps Exact (fun _ _ _ => rfl) (fun _ _ kept exact_ => kept exact_) entry.2 tends exact_
  exact keeps passes _ (exact_clear (.new site))

end EdgeVms.Verified.EventRows
