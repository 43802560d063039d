import EdgeVms.Python.Path
import EdgeVms.Verified.Vms.CrashHealing

/-! # One controller at a time

A camera's placement is stored twice, in its row and in a worker's list.  Calls
that run one after the other keep the two in agreement (`Listed`), and a call
that chooses a worker leaves it within what it reports.
-/

namespace EdgeVms.Verified

open Process Python Platform Vms VmsController

variable {ι M : Type} [DecidableEq ι] {view : View} {i : ι} {world world' : World ι M}

/-- The worker whose list has the camera is the one that its row names. -/
def Listed (rows : Rows) : Prop :=
  ∀ (cid : Int) worker, toString cid ∈ unitsOf rows worker ↔ workerOf rows (toString cid) = some worker

/-- The rows agree about placement. -/
structure SamePlacement (rows rows' : Rows) : Prop where
  units : ∀ worker, unitsOf rows' worker = unitsOf rows worker
  worker : ∀ unit, workerOf rows' unit = workerOf rows unit

/-- `rows'` is `rows` with one unit brought to a worker, or to nobody. -/
structure Brought (rows rows' : Rows) (unit : String) (dest : Option String) : Prop where
  worker : workerOf rows' unit = dest
  stands : ∀ name, unit ∈ unitsOf rows' name ↔ dest = some name
  other_workers : ∀ other, other ≠ unit → workerOf rows' other = workerOf rows other
  other_units : ∀ other name, other ≠ unit → (other ∈ unitsOf rows' name ↔ other ∈ unitsOf rows name)
  shorter : ∀ name, dest ≠ some name → (unitsOf rows' name).length ≤ (unitsOf rows name).length
  longer : ∀ name, (unitsOf rows' name).length ≤ (unitsOf rows name).length + 1

theorem SamePlacement.refl (rows : Rows) : SamePlacement rows rows := ⟨fun _ => rfl, fun _ => rfl⟩

theorem SamePlacement.trans {rows rows' rows'' : Rows} (first : SamePlacement rows rows')
    (second : SamePlacement rows' rows'') : SamePlacement rows rows'' :=
  ⟨fun worker => (second.units worker).trans (first.units worker),
    fun unit => (second.worker unit).trans (first.worker unit)⟩

theorem SamePlacement.of_eq {rows rows' : Rows} (same : rows' = rows) : SamePlacement rows rows' := by
  rw [same]
  exact .refl rows

theorem SamePlacement.write {key : Key} (aside : Aside key) (rows : Rows) (items : Items) :
    SamePlacement rows (rows.write key items) := ⟨aside.unitsOf rows items, aside.workerOf rows items⟩

theorem SamePlacement.listed {rows rows' : Rows} (same : SamePlacement rows rows') (listed : Listed rows) :
    Listed rows' := by
  intro cid worker
  rw [same.units, same.worker]
  exact listed cid worker

theorem Brought.listed {rows rows' : Rows} {cid : Int} {dest : Option String}
    (brought : Brought rows rows' (toString cid) dest) (listed : Listed rows) : Listed rows' := by
  intro cid' name
  by_cases same : toString cid' = toString cid
  · rw [same, brought.stands, brought.worker]
  · rw [brought.other_units _ _ same, brought.other_workers _ same]
    exact listed cid' name

/-! ## Taking a unit off the lists -/

/-- Time passed, and rows may have changed. -/
def Passed (world world' : World ι M) : Prop := world'.outside = world.outside ∧ world.served ≤ world'.served

omit [DecidableEq ι] in
theorem Passed.refl (world : World ι M) : Passed world world := ⟨rfl, Nat.le_refl _⟩

omit [DecidableEq ι] in
theorem Passed.trans {world world' world'' : World ι M} (first : Passed world world')
    (second : Passed world' world'') : Passed world world'' :=
  ⟨second.1.trans first.1, Nat.le_trans first.2 second.2⟩

omit [DecidableEq ι] in
theorem Waited.passed (waited : Waited world world') : Passed world world' := waited.2

theorem Ends.passed {α : Type} {p : Program M α} {result : α} (ends : Ends view i p world result world') :
    Passed world world' := by
  induction p generalizing world with
  | ret value =>
    cases ends
    exact .refl _
  | raise error => cases ends
  | call label request next ih =>
    unfold Ends at ends
    rw [Proc.run_call] at ends
    have first : Passed world (handler FileVariables view i request world).2 := by
      cases request <;> exact ⟨rfl, Nat.le_succ _⟩
    exact first.trans (ih _ ends)

/-- A read-modify-write alone, with what was written. -/
theorem write_ends {path : Key} {mutate : Dict Value → Program M (Option (Dict Value))} {result : Dict Value}
    (reads : ∀ items, ReadsOnly (mutate items))
    (ends : Ends view i (Controller.write path mutate) world result world') :
    ∃ new middle, Ends view i (mutate (rowValues (world.vars.read path))) world.tick new middle ∧
      match new with
      | none => world'.vars = world.vars
      | some new => result = new ∧ world'.vars = world.vars.write path (stored new) := by
  obtain ⟨new, middle, waits, mutated, rest⟩ := Ends.write_inv reads ends
  cases new with
  | none =>
    obtain ⟨-, rfl⟩ := rest
    exact ⟨none, _, mutated, waits.1⟩
  | some new =>
    obtain ⟨same, rfl⟩ := rest
    exact ⟨some new, _, mutated, same, rfl⟩

/-- `rows'` is `rows` with the unit off the lists of these workers. -/
structure Unlisted (rows rows' : Rows) (unit : String) (off : String → Prop) : Prop where
  workers : ∀ other, workerOf rows' other = workerOf rows other
  taken : ∀ name, off name → unitsOf rows' name = (unitsOf rows name).filter (· ≠ unit)
  kept : ∀ name, ¬ off name → unitsOf rows' name = unitsOf rows name

theorem assignRemove_ends {worker unit : String} {a : Assignment}
    (ends : Ends view i (Controller.assignRemove vms worker unit) world a world') :
    Unlisted world.vars world'.vars unit (· = worker) := by
  obtain ⟨written, middle, wrote, ends⟩ := Ends.bind_inv ends
  obtain ⟨-, rfl⟩ := Ends.value_inv ends
  have reads : ∀ items, ReadsOnly (M := M) (do
      let a ← Program.value (Assignment.fromItems worker items)
      if unit ∉ a.units then return none
      return some (Assignment.toItems ⟨worker, a.units.filter (· ≠ unit), a.rev + 1⟩)) := by
    intro items
    apply ReadsOnly.bind (ReadsOnly.value _)
    intro a
    split <;> trivial
  obtain ⟨new, middle, mutated, rest⟩ := write_ends reads wrote
  obtain ⟨a, _, made, mutated⟩ := Ends.bind_inv mutated
  obtain ⟨read, rfl⟩ := Ends.value_inv made
  obtain ⟨units, atomic⟩ := units_fromItems read
  split at mutated
  next missing =>
    obtain ⟨rfl, rfl⟩ := Ends.ret_inv mutated
    have absent : (unitsOf world.vars worker).filter (· ≠ unit) = unitsOf world.vars worker := by
      rw [← units]
      apply List.filter_eq_self.mpr
      intro other member
      apply decide_eq_true
      rintro rfl
      exact missing member
    refine ⟨?_, ?_, ?_⟩
    · intro other
      rw [rest]
    · rintro name rfl
      rw [rest, absent]
    · intro name _
      rw [rest]
  next =>
    obtain ⟨rfl, rfl⟩ := Ends.ret_inv mutated
    have left : unitsIn (stored (Assignment.toItems ⟨worker, a.units.filter (· ≠ unit), a.rev + 1⟩)) =
        a.units.filter (· ≠ unit) := by
      apply unitsIn_toItems
      intro other member
      exact atomic other (List.mem_filter.mp member).1
    refine ⟨?_, ?_, ?_⟩
    · intro other
      rw [rest.2, workerOf_write_other _ _ (assignment_ne_placementRow _ _)]
    · rintro name rfl
      rw [rest.2, unitsOf_write_self, left, units]
    · intro name differs
      rw [rest.2, unitsOf_write_other]
      simpa using fun same => differs same.symm

theorem unlistRounds_ends {unit to_ : String} {listed : Dict Assignment} {result : Unit}
    (pending : ∀ name, name ≠ to_ → unit ∈ unitsOf world.vars name → ∃ a, (name, a) ∈ listed ∧ unit ∈ a.units)
    (ends : Ends view i (unlistRounds unit to_ listed) world result world') :
    Unlisted world.vars world'.vars unit (· ≠ to_) := by
  induction listed generalizing world with
  | nil =>
    obtain ⟨-, rfl⟩ := Ends.ret_inv ends
    refine ⟨fun _ => rfl, fun name off => ?_, fun _ _ => rfl⟩
    symm
    apply List.filter_eq_self.mpr
    intro other member
    apply decide_eq_true
    rintro rfl
    obtain ⟨_, nothing, -⟩ := pending name off member
    cases nothing
  | cons entry rest ih =>
    obtain ⟨worker, a⟩ := entry
    unfold unlistRounds at ends
    split at ends
    next leaves =>
      obtain ⟨_, middle, removed, ends⟩ := Ends.bind_inv ends
      have off := assignRemove_ends removed
      have pending' : ∀ name, name ≠ to_ → unit ∈ unitsOf middle.vars name →
          ∃ a, (name, a) ∈ rest ∧ unit ∈ a.units := by
        intro name differs stands
        by_cases same : name = worker
        · rw [off.taken name same] at stands
          simp at stands
        · rw [off.kept name same] at stands
          obtain ⟨a', member, there⟩ := pending name differs stands
          obtain here | later := List.mem_cons.mp member
          · exact absurd (congrArg Prod.fst here) same
          · exact ⟨a', later, there⟩
      have off' := ih pending' ends
      refine ⟨fun other => (off'.workers other).trans (off.workers other), ?_, ?_⟩
      · intro name differs
        rw [off'.taken name differs]
        by_cases same : name = worker
        · rw [off.taken name same, List.filter_filter]
          simp
        · rw [off.kept name same]
      · intro name here
        rw [off'.kept name here, off.kept]
        rintro rfl
        exact here leaves.2
    next stays =>
      apply ih _ ends
      intro name differs stands
      obtain ⟨a', member, there⟩ := pending name differs stands
      obtain here | later := List.mem_cons.mp member
      · cases here
        exact absurd ⟨there, differs⟩ stays
      · exact ⟨a', later, there⟩

/-- Reading all lists finds every list that has the unit. -/
theorem assignmentsRounds_ends {unit : String} {paths : List Key} {out found : Dict Assignment}
    (sought : ∀ name, unit ∈ unitsOf world.vars name →
      vms.assignment name ∈ paths ∨ ∃ a, out.get? name = some a ∧ unit ∈ a.units)
    (ends : Ends view i (Controller.assignmentsRounds vms paths out) world found world') :
    Waited world world' ∧ ∀ name, unit ∈ unitsOf world.vars name → ∃ a, found.get? name = some a ∧ unit ∈ a.units := by
  induction paths generalizing out world with
  | nil =>
    obtain ⟨rfl, rfl⟩ := Ends.ret_inv ends
    refine ⟨.refl _, fun name stands => ?_⟩
    obtain nothing | seen := sought name stands
    · cases nothing
    · exact seen
  | cons path rest ih =>
    obtain ⟨a, middle, assigned, ends⟩ := Ends.bind_inv ends
    obtain ⟨answer, _, got, assigned⟩ := Ends.bind_inv assigned
    obtain ⟨rfl, rfl⟩ := Ends.get_inv got
    obtain ⟨read, rfl⟩ := Ends.value_inv assigned
    obtain ⟨units, -⟩ := units_fromItems read
    have sought' : ∀ name, unit ∈ unitsOf world.tick.vars name → vms.assignment name ∈ rest ∨
        ∃ a', (out.set (lastSegment path) a).get? name = some a' ∧ unit ∈ a'.units := by
      intro name stands
      by_cases here : name = lastSegment path
      · subst here
        exact .inr ⟨a, Dict.get?_set_self _ _ _, units ▸ stands⟩
      · rw [Dict.get?_set_other _ _ here]
        obtain member | known := sought name stands
        · obtain rfl | later := List.mem_cons.mp member
          · exact absurd rfl here
          · exact .inl later
        · exact .inr known
    obtain ⟨waits, seen⟩ := ih sought' ends
    exact ⟨(Waited.tick world).trans waits, seen⟩

/-! ## The calls that bring one camera somewhere -/

/-- First off every other list, then row and list. -/
theorem PlacedOn.brought {rows middle rows' : Rows} {unit best : String}
    (off : Unlisted rows middle unit (· ≠ best)) (placed : PlacedOn middle rows' unit best) (nonempty : best ≠ "") :
    Brought rows rows' unit (some best) := by
  have there : unitsOf middle best = unitsOf rows best := off.kept best fun differs => differs rfl
  have elsewhere : ∀ name, name ≠ best → unitsOf rows' name = (unitsOf rows name).filter (· ≠ unit) := by
    intro name differs
    rw [placed.other_lists name differs, off.taken name differs]
  have fewer : ∀ name, name ≠ best → (unitsOf rows' name).length ≤ (unitsOf rows name).length := by
    intro name differs
    rw [elsewhere name differs]
    exact List.length_filter_le _ _
  refine ⟨?_, ?_, ?_, ?_, ?_, ?_⟩
  · rw [placed.worker, named, if_neg nonempty]
  · intro name
    by_cases same : name = best
    · rw [same]
      exact iff_of_true placed.stands rfl
    · rw [elsewhere name same]
      simpa using fun same' => same same'.symm
  · intro other differs
    rw [placed.other_workers other differs, off.workers]
  · intro other name differs
    by_cases same : name = best
    · rw [same, placed.other_units other differs, there]
    · rw [elsewhere name same]
      simp [differs]
  · intro name differs
    apply fewer
    rintro rfl
    exact differs rfl
  · intro name
    by_cases same : name = best
    · rw [same, ← there]
      exact placed.length
    · exact Nat.le_succ_of_le (fewer name same)

/-- A camera that nobody has stands in no list. -/
theorem Listed.unlisted {rows : Rows} (listed : Listed rows) {cid : Int}
    (vacant : workerOf rows (toString cid) = none) (off : String → Prop) :
    Unlisted rows rows (toString cid) off := by
  refine ⟨fun _ => rfl, fun name _ => ?_, fun _ _ => rfl⟩
  symm
  apply List.filter_eq_self.mpr
  intro unit member
  apply decide_eq_true
  rintro rfl
  have placed := (listed cid name).mp member
  rw [vacant] at placed
  cases placed

/-- A move takes the camera off the other lists, then gives it to the destination. -/
theorem move_gives {cid : Int} {to_ reason : String} {result : Placement}
    (ends : Ends view i (move cid to_ reason) world result world') :
    ∃ cleared, Unlisted world.vars cleared (toString cid) (· ≠ to_) ∧ Gave cleared world'.vars (toString cid) to_ := by
  unfold Ends move at ends
  rw [Proc.run_settling] at ends
  obtain ⟨found, read, assigned, ends⟩ := Ends.bind_inv ends
  obtain ⟨paths, _, listing_, assigned⟩ := Ends.bind_inv assigned
  obtain ⟨rfl, rfl⟩ := Ends.list_inv listing_
  have sought : ∀ name, toString cid ∈ unitsOf world.tick.vars name →
      vms.assignment name ∈ listing world.vars vms.workers ∨
        ∃ a, Dict.get? ([] : Dict Assignment) name = some a ∧ toString cid ∈ a.units := by
    intro name stands
    refine .inl (mem_listing.mpr ⟨?_, ⟨[name], rfl⟩, ?_⟩)
    · intro absent
      rw [World.tick_vars, unitsOf, absent] at stands
      cases stands
    · simp [Subsystem.assignment, Subsystem.workers]
  obtain ⟨waits, everywhere⟩ := assignmentsRounds_ends sought assigned
  obtain ⟨_, cleared, unlisted, ends⟩ := Ends.bind_inv ends
  have pending : ∀ name, name ≠ to_ → toString cid ∈ unitsOf read.vars name →
      ∃ a, (name, a) ∈ found ∧ toString cid ∈ a.units := by
    intro name _ stands
    rw [waits.1] at stands
    obtain ⟨a, there, has⟩ := everywhere name stands
    exact ⟨a, Dict.mem_of_get? there, has⟩
  have off := unlistRounds_ends pending unlisted
  obtain ⟨written, rowed, wrote, ends⟩ := Ends.bind_inv ends
  obtain ⟨a, _, added, ends⟩ := Ends.bind_inv ends
  obtain ⟨-, rfl⟩ := Ends.value_inv ends
  have reads : ∀ it, ReadsOnly (M := M) (do
      let now ← Program.wall
      return some (placementItems (.plain to_) (.plain reason) now (← Program.value (nextRev it)))) := by
    intro it
    refine ReadsOnly.bind (fun _ => trivial) fun now => ?_
    exact ReadsOnly.bind (ReadsOnly.value _) fun _ => trivial
  obtain ⟨new, middle, mutated, rest⟩ := write_ends reads wrote
  obtain ⟨now, _, clock, mutated⟩ := Ends.bind_inv mutated
  obtain ⟨rev, _, made, mutated⟩ := Ends.bind_inv mutated
  obtain ⟨rfl, rfl⟩ := Ends.ret_inv mutated
  obtain ⟨-, -, lists⟩ := assignAdd_ends added
  rw [rest.2] at lists
  rw [waits.1] at off
  exact ⟨cleared.vars, off, _, workerIn_placementItems _ _ _ _, lists⟩

theorem move_ends {cid : Int} {to_ reason : String} {result : Placement} (nonempty : to_ ≠ "")
    (ends : Ends view i (move cid to_ reason) world result world') :
    Brought world.vars world'.vars (toString cid) (some to_) := by
  obtain ⟨cleared, off, gave⟩ := move_gives ends
  exact gave.placedOn.brought off nonempty

/-! ## Capacity -/

/-- What the worker's heartbeat said it can carry at some moment in between. -/
def Reported (view : View) (i : ι) (capacity : Int) (world world' : World ι M) (worker : String) (n : Int) : Prop :=
  ∃ now now', Passed world now ∧ Passed now' world' ∧ Ends view i (capacityOf capacity worker) now n now'

/-- No worker's list has grown beyond what the worker reported. -/
def Bounded (view : View) (i : ι) (capacity : Int) (world world' : World ι M) : Prop :=
  ∀ worker, (unitsOf world'.vars worker).length ≤ (unitsOf world.vars worker).length ∨
    ∃ n, Reported view i capacity world world' worker n ∧ ((unitsOf world'.vars worker).length : Int) ≤ n

theorem Reported.weaken {capacity : Int} {first last : World ι M} {worker : String} {n : Int}
    (reported : Reported view i capacity world world' worker n) (before : Passed first world)
    (after : Passed world' last) : Reported view i capacity first last worker n := by
  obtain ⟨now, now', since, until_, ends⟩ := reported
  exact ⟨now, now', before.trans since, until_.trans after, ends⟩

theorem Bounded.of_same {capacity : Int} (same : SamePlacement world.vars world'.vars) :
    Bounded view i capacity world world' := by
  intro worker
  rw [same.units]
  exact .inl (Nat.le_refl _)

theorem Bounded.trans {capacity : Int} {middle : World ι M} (before : Passed world middle)
    (first : Bounded view i capacity world middle) (after : Passed middle world')
    (second : Bounded view i capacity middle world') : Bounded view i capacity world world' := by
  intro worker
  obtain fewer | ⟨n, reported, within⟩ := second worker
  · obtain fewer' | ⟨n, reported, within⟩ := first worker
    · exact .inl (Nat.le_trans fewer fewer')
    · exact .inr ⟨n, reported.weaken (.refl _) after, by omega⟩
  · exact .inr ⟨n, reported.weaken before (.refl _), within⟩

/-- A camera goes to a worker with room for it. -/
theorem Brought.bounded {capacity : Int} {unit best : String} {n : Int}
    (brought : Brought world.vars world'.vars unit (some best))
    (reported : Reported view i capacity world world' best n)
    (room : ((unitsOf world.vars best).length : Int) < n) : Bounded view i capacity world world' := by
  intro worker
  by_cases same : worker = best
  · subst same
    have longer := brought.longer worker
    exact .inr ⟨n, reported, by omega⟩
  · left
    apply brought.shorter
    rintro ⟨⟩
    exact same rfl

theorem load_ends {worker : String} {n : Int} (ends : Ends view i (load worker) world n world') :
    Waited world world' ∧ n = (unitsOf world.vars worker).length := by
  refine ⟨ends.waited (ReadsOnly.load worker), ?_⟩
  obtain ⟨a, _, assigned, ends⟩ := Ends.bind_inv ends
  obtain ⟨rfl, -⟩ := Ends.ret_inv ends
  obtain ⟨answer, _, got, assigned⟩ := Ends.bind_inv assigned
  obtain ⟨rfl, rfl⟩ := Ends.get_inv got
  obtain ⟨read, -⟩ := Ends.value_inv assigned
  rw [(units_fromItems read).1]

theorem free_reports {capacity : Int} {worker : String} {f : Int}
    (ends : Ends view i (free capacity worker) world f world') :
    Waited world world' ∧
      ∃ n, Reported view i capacity world world' worker n ∧ f = n - (unitsOf world.vars worker).length := by
  refine ⟨ends.waited (ReadsOnly.free capacity worker), ?_⟩
  obtain ⟨n, middle, carried, ends⟩ := Ends.bind_inv ends
  have waits := carried.waited (ReadsOnly.capacityOf capacity worker)
  obtain ⟨l, _, loaded, ends⟩ := Ends.bind_inv ends
  obtain ⟨rfl, rfl⟩ := Ends.ret_inv ends
  obtain ⟨waits', rfl⟩ := load_ends loaded
  exact ⟨n, ⟨world, middle, .refl _, waits'.passed, carried⟩, by rw [waits.1]⟩

theorem bestRounds_reports {capacity : Int} {names : List String} {best : Option String} {most : Int}
    {result : Option String × Int} (positive : 0 ≤ most)
    (ends : Ends view i (bestRounds capacity names best most) world result world') :
    Waited world world' ∧ (result.1 = best ∨ ∃ name ∈ names, result.1 = some name ∧
      ∃ n, Reported view i capacity world world' name n ∧ ((unitsOf world.vars name).length : Int) < n) := by
  refine ⟨ends.waited (ReadsOnly.bestRounds capacity names best most), ?_⟩
  induction names generalizing best most world with
  | nil =>
    obtain ⟨rfl, rfl⟩ := Ends.ret_inv ends
    exact .inl rfl
  | cons worker rest ih =>
    obtain ⟨f, middle, freed, ends⟩ := Ends.bind_inv ends
    obtain ⟨waits, n, reported, rfl⟩ := free_reports freed
    have later : ∀ {best : Option String} {most : Int}, 0 ≤ most →
        Ends view i (bestRounds capacity rest best most) middle result world' →
        result.1 = best ∨ ∃ name ∈ worker :: rest, result.1 = some name ∧
          ∃ n, Reported view i capacity world world' name n ∧ ((unitsOf world.vars name).length : Int) < n := by
      intro best most positive ends
      obtain same | ⟨name, member, chose, n, reported, room⟩ := ih positive ends
      · exact .inl same
      · rw [waits.1] at room
        exact .inr ⟨name, .tail _ member, chose, n, reported.weaken waits.passed (.refl _), room⟩
    split at ends
    next more =>
      have until_ := (ends.waited (ReadsOnly.bestRounds capacity rest _ _)).passed
      obtain same | found := later (by omega) ends
      · exact .inr ⟨worker, .head _, same, n, reported.weaken (.refl _) until_, by omega⟩
      · exact .inr found
    next => exact later positive ends

/-! ## The calls that choose a worker -/

/-- A call, or a part of one, that keeps rows and lists in agreement and every list within bounds. -/
structure Orderly (view : View) (i : ι) (capacity : Int) (world world' : World ι M) : Prop where
  passed : Passed world world'
  listed : Listed world'.vars
  bounded : Bounded view i capacity world world'

theorem Orderly.of_waited {capacity : Int} (listed : Listed world.vars) (waited : Waited world world') :
    Orderly view i capacity world world' :=
  ⟨waited.passed, (SamePlacement.of_eq waited.1).listed listed, .of_same (.of_eq waited.1)⟩

theorem Orderly.trans {capacity : Int} {middle : World ι M} (first : Orderly view i capacity world middle)
    (second : Orderly view i capacity middle world') : Orderly view i capacity world world' :=
  ⟨first.passed.trans second.passed, second.listed, .trans first.passed first.bounded second.passed second.bounded⟩

/-- The names that heartbeats give to their workers are path components. -/
def PlainBeats (world : World ι M) : Prop :=
  ∀ moment name beat, (world.outside moment).heartbeat vms.name name = .ok (some beat) → Path.Component beat.worker

omit [DecidableEq ι] in
theorem PlainBeats.later (plain : PlainBeats world) (passed : Passed world world') : PlainBeats world' := by
  intro moment
  rw [passed.1]
  exact plain moment

theorem seenRounds_plain {now maxAge : ℚ} {names : List String} {out seen : Dict Heartbeat} (beats : PlainBeats world)
    (plain : ∀ entry ∈ out, Path.Component entry.1)
    (ends : Ends view i (Controller.seenRounds vms now maxAge names out) world seen world') :
    ∀ entry ∈ seen, Path.Component entry.1 := by
  induction names generalizing out world with
  | nil =>
    obtain ⟨rfl, -⟩ := Ends.ret_inv ends
    exact plain
  | cons name rest ih =>
    obtain ⟨answer, middle, asked, ends⟩ := Ends.bind_inv ends
    change Proc.run _ (Proc.ofExcept (world.now.heartbeat vms.name name)) world.tick = _ at asked
    cases said : world.now.heartbeat vms.name name with
    | error error =>
      rw [said] at asked
      cases asked
    | ok beat =>
      rw [said] at asked
      cases asked
      have beats' : PlainBeats world.tick := beats
      cases answer with
      | none => exact ih beats' plain ends
      | some beat =>
        apply ih beats' _ ends
        intro entry member
        split at member
        · obtain rfl | old := Dict.mem_set member
          · exact beats world.served name beat said
          · exact plain entry old
        · exact plain entry member

theorem candidates_plain {workers : Option (List String)} {names : List String} (beats : PlainBeats world)
    (given : ∀ names, workers = some names → ∀ name ∈ names, Path.Component name)
    (ends : Ends view i (candidates workers) world names world') : ∀ name ∈ names, Path.Component name := by
  cases workers with
  | some workers =>
    obtain ⟨rfl, -⟩ := Ends.ret_inv ends
    exact given _ rfl
  | none =>
    obtain ⟨seen, middle, found, ends⟩ := Ends.bind_inv ends
    obtain ⟨rfl, -⟩ := Ends.ret_inv ends
    obtain ⟨now, _, clock, found⟩ := Ends.bind_inv found
    cases clock
    obtain ⟨keys, _, asked, found⟩ := Ends.bind_inv found
    cases asked
    have beats' : PlainBeats world.tick.tick := beats
    have plain := seenRounds_plain beats' (by simp) found
    intro name member
    obtain ⟨entry, inside, rfl⟩ := List.mem_map.mp member
    exact plain entry inside

theorem place_orderly {capacity : Int} {workers : Option (List String)} {cid : Int} {result : Option Placement}
    (listed : Listed world.vars) (beats : PlainBeats world)
    (given : ∀ names, workers = some names → ∀ name ∈ names, Path.Component name)
    (ends : Ends view i (place capacity cid workers) world result world') :
    Orderly view i capacity world world' := by
  obtain ⟨outside, served, ⟨-, same⟩ | ⟨vacant, placed, names, seen, best, compared, waits, found, chosen, later,
    placing⟩⟩ := place_cases ends
  · exact ⟨⟨outside, served⟩, (SamePlacement.of_eq same).listed listed, .of_same (.of_eq same)⟩
  · have plain := candidates_plain (beats.later waits.passed) given found
    have seeing := waits.trans (found.waited (ReadsOnly.candidates workers))
    obtain ⟨comparing, choice⟩ := bestRounds_reports (Int.le_refl 0) chosen
    obtain nobody | ⟨name, member, chose, n, reported, room⟩ := choice
    · rw [nobody] at placing
      have same : SamePlacement world.vars world'.vars := .of_eq placing
      exact ⟨⟨outside, served⟩, same.listed listed, .of_same same⟩
    · rw [chose] at placing
      have nonempty : name ≠ "" := (plain name ((List.perm_insertionSort _ names).mem_iff.mp member)).nonempty
      have brought := placing.placedOn.brought (listed.unlisted vacant _) nonempty
      have after : Passed compared world' := ⟨outside.trans (seeing.trans comparing).2.1.symm, later⟩
      rw [seeing.1] at room
      exact ⟨⟨outside, served⟩, brought.listed listed, brought.bounded (reported.weaken seeing.passed after) room⟩

theorem ensureRounds_orderly {capacity : Int} {workers : Option (List String)} {cams : List (Int × Dict Value)}
    {out result : List Placement} (listed : Listed world.vars) (beats : PlainBeats world)
    (given : ∀ names, workers = some names → ∀ name ∈ names, Path.Component name)
    (ends : Ends view i (ensureRounds capacity workers cams out) world result world') :
    Orderly view i capacity world world' := by
  induction cams generalizing out world with
  | nil =>
    obtain ⟨-, rfl⟩ := Ends.ret_inv ends
    exact .of_waited listed (.refl _)
  | cons cam rest ih =>
    obtain ⟨pl, middle, placed, ends⟩ := Ends.bind_inv ends
    have first := place_orderly listed beats given placed
    cases pl with
    | some pl => exact first.trans (ih first.listed (beats.later first.passed) ends)
    | none => exact first.trans (ih first.listed (beats.later first.passed) ends)

/-- A move to a worker that still has room. -/
theorem move_orderly {capacity : Int} {cid : Int} {to_ reason : String} {n : Int} {result : Placement}
    {start : World ι M} (listed : Listed world.vars) (nonempty : to_ ≠ "") (before : Waited start world)
    (reported : Reported view i capacity start world to_ n) (room : ((unitsOf world.vars to_).length : Int) < n)
    (ends : Ends view i (move cid to_ reason) world result world') : Orderly view i capacity start world' := by
  have passed := ends.passed
  have brought := move_ends nonempty ends
  have brought' : Brought start.vars world'.vars (toString cid) (some to_) := before.1 ▸ brought
  refine ⟨before.passed.trans passed, brought.listed listed, ?_⟩
  apply brought'.bounded (reported.weaken (.refl _) passed)
  rw [← before.1]
  exact room

theorem mostFreeRounds_mem {capacity : Int} {names : List String} {best : Option (String × Int)}
    {result : Option String} (ends : Ends view i (mostFreeRounds capacity names best) world result world') :
    ∀ name ∈ result, name ∈ names ∨ name ∈ best.map Prod.fst := by
  induction names generalizing best world with
  | nil =>
    obtain ⟨rfl, -⟩ := Ends.ret_inv ends
    exact fun name chosen => .inr chosen
  | cons worker rest ih =>
    obtain ⟨f, middle, -, ends⟩ := Ends.bind_inv ends
    intro name chosen
    cases best with
    | none =>
      obtain later | here := ih ends name chosen
      · exact .inl (.tail _ later)
      · cases here
        exact .inl (.head _)
    | some best =>
      obtain later | here := ih ends name chosen
      · exact .inl (.tail _ later)
      · split at here
        · cases here
          exact .inl (.head _)
        · exact .inr here

theorem redistributeUnits_orderly {capacity : Int} {gone : String} {live units : List String}
    {moves result : List Moved} (listed : Listed world.vars) (plain : ∀ name ∈ live, Path.Component name)
    (ends : Ends view i (redistributeUnits capacity gone live units moves) world result world') :
    Orderly view i capacity world world' := by
  induction units generalizing moves world with
  | nil =>
    obtain ⟨-, rfl⟩ := Ends.ret_inv ends
    exact .of_waited listed (.refl _)
  | cons unit rest ih =>
    obtain ⟨cid, world, parsed, afterParse⟩ := Ends.bind_inv ends
    obtain ⟨-, rfl⟩ := Ends.value_inv parsed
    obtain ⟨best, compared, chosen, ends⟩ := Ends.bind_inv afterParse
    have comparing := chosen.waited (ReadsOnly.mostFreeRounds capacity live none)
    cases best with
    | none =>
      obtain ⟨-, rfl⟩ := Ends.ret_inv ends
      exact .of_waited listed comparing
    | some best =>
      have nonempty : best ≠ "" := by
        obtain member | nobody := mostFreeRounds_mem chosen best rfl
        · exact (plain best member).nonempty
        · cases nobody
      obtain ⟨carried, weighed, loaded, ends⟩ := Ends.bind_inv ends
      obtain ⟨weighing, rfl⟩ := load_ends loaded
      obtain ⟨carries, asked, capable, ends⟩ := Ends.bind_inv ends
      have asking := capable.waited (ReadsOnly.capacityOf capacity best)
      have waits := (comparing.trans weighing).trans asking
      split at ends
      next full =>
        obtain ⟨-, rfl⟩ := Ends.ret_inv ends
        exact .of_waited listed waits
      next room =>
        obtain ⟨left, freed, measured, ends⟩ := Ends.bind_inv ends
        have waits' := waits.trans (measured.waited (ReadsOnly.free capacity best))
        obtain ⟨_, moved, moves', ends⟩ := Ends.bind_inv ends
        have reported : Reported view i capacity world freed best carries :=
          ⟨weighed, asked, (comparing.trans weighing).passed,
            (measured.waited (ReadsOnly.free capacity best)).passed, capable⟩
        have first : Orderly view i capacity world moved := by
          apply move_orderly _ nonempty waits' reported _ moves'
          · exact (SamePlacement.of_eq waits'.1).listed listed
          · rw [waits'.1, ← comparing.1]
            omega
        exact first.trans (ih first.listed ends)

theorem redistributeRounds_orderly {capacity : Int} {workers : Option (List String)} {released : List String}
    {moves result : List Moved} (listed : Listed world.vars) (beats : PlainBeats world)
    (given : ∀ names, workers = some names → ∀ name ∈ names, Path.Component name)
    (ends : Ends view i (redistributeRounds capacity workers released moves) world result world') :
    Orderly view i capacity world world' := by
  induction released generalizing moves world with
  | nil =>
    obtain ⟨-, rfl⟩ := Ends.ret_inv ends
    exact .of_waited listed (.refl _)
  | cons gone rest ih =>
    obtain ⟨names, seen, found, ends⟩ := Ends.bind_inv ends
    have plain := candidates_plain beats given found
    obtain ⟨a, looked, assigned, ends⟩ := Ends.bind_inv ends
    have waits := (found.waited (ReadsOnly.candidates workers)).trans
      (assigned.waited (ReadsOnly.assignment vms gone))
    obtain ⟨units, _, made, afterSort⟩ := Ends.bind_inv ends
    obtain ⟨-, rfl⟩ := Ends.value_inv made
    obtain ⟨moves', middle, redistributed, ends⟩ := Ends.bind_inv afterSort
    have live : ∀ name ∈ sorted (names.filter (· ≠ gone)), Path.Component name := by
      intro name member
      have inside := (List.perm_insertionSort _ _).mem_iff.mp member
      exact plain name (List.mem_of_mem_filter inside)
    have first : Orderly view i capacity world _ := .of_waited listed waits
    have second := first.trans (redistributeUnits_orderly first.listed live redistributed)
    exact second.trans (ih second.listed (beats.later second.passed) ends)

theorem ReadsOnly.loadsRounds (double : ℚ → ℚ) (capacity : Int) (workers : List String) (loads : Dict ℚ) :
    ReadsOnly (VmsController.loadsRounds double capacity workers loads : Program M _) := by
  induction workers generalizing loads with
  | nil => trivial
  | cons worker rest ih =>
    refine bind (load _) fun carried => bind (capacityOf _ _) fun carries => ?_
    split
    · trivial
    · exact ih _

theorem extreme_mem (beyond : ℚ → ℚ → Bool) (loads : Dict ℚ) (best : String) (workers : List String) :
    extreme beyond loads best workers ∈ best :: workers := by
  induction workers generalizing best with
  | nil => exact .head _
  | cons worker rest ih =>
    rw [extreme]
    split
    · exact .tail _ (ih worker)
    · obtain here | later := List.mem_cons.mp (ih best)
      · rw [here]
        exact .head _
      · exact .tail _ (.tail _ later)

theorem rebalanceRounds_orderly {double : ℚ → ℚ} {capacity : Int} {deadBand : ℚ} {workers : List String} {left : Nat}
    {moves result : List Moved} (listed : Listed world.vars) (plain : ∀ name ∈ workers, Path.Component name)
    (ends : Ends view i (rebalanceRounds double capacity deadBand workers left moves) world result world') :
    Orderly view i capacity world world' := by
  induction left generalizing moves world with
  | zero =>
    obtain ⟨-, rfl⟩ := Ends.ret_inv ends
    exact .of_waited listed (.refl _)
  | succ left ih =>
    obtain _ | ⟨first, _ | ⟨second, rest⟩⟩ := workers
    · obtain ⟨-, rfl⟩ := Ends.ret_inv ends
      exact .of_waited listed (.refl _)
    · obtain ⟨-, rfl⟩ := Ends.ret_inv ends
      exact .of_waited listed (.refl _)
    · obtain ⟨loads, measured, measuring, ends⟩ := Ends.bind_inv ends
      have waits := measuring.waited (ReadsOnly.loadsRounds double capacity _ _)
      dsimp only at ends
      split at ends
      next even =>
        obtain ⟨-, rfl⟩ := Ends.ret_inv ends
        exact .of_waited listed waits
      next uneven =>
        obtain ⟨a, looked, assigned, ends⟩ := Ends.bind_inv ends
        have waits := waits.trans (assigned.waited (ReadsOnly.assignment vms _))
        obtain ⟨cands, _, made, afterCands⟩ := Ends.bind_inv ends
        obtain ⟨-, rfl⟩ := Ends.value_inv made
        split at afterCands
        next nobody =>
          obtain ⟨-, rfl⟩ := Ends.ret_inv afterCands
          exact .of_waited listed waits
        next cid _ _ =>
          obtain ⟨carried, weighed, loaded, ends⟩ := Ends.bind_inv afterCands
          obtain ⟨weighing, rfl⟩ := load_ends loaded
          obtain ⟨carries, asked, capable, ends⟩ := Ends.bind_inv ends
          have asking := capable.waited (ReadsOnly.capacityOf capacity _)
          split at ends
          next full =>
            obtain ⟨-, rfl⟩ := Ends.ret_inv ends
            exact .of_waited listed ((waits.trans weighing).trans asking)
          next room =>
            obtain ⟨_, moved, moves', ends⟩ := Ends.bind_inv ends
            have waits' := (waits.trans weighing).trans asking
            have first : Orderly view i capacity world moved := by
              apply move_orderly _ _ waits' ⟨weighed, asked, (waits.trans weighing).passed, .refl _, capable⟩ _ moves'
              · exact (SamePlacement.of_eq waits'.1).listed listed
              · exact (plain _ (extreme_mem _ _ _ _)).nonempty
              · rw [waits'.1, ← waits.1]
                omega
            exact first.trans (ih first.listed ends)

/-! ## The other calls -/

theorem write_same {path : Key} {mutate : Dict Value → Program M (Option (Dict Value))} {result : Dict Value}
    (aside : Aside path) (reads : ∀ items, ReadsOnly (mutate items))
    (ends : Ends view i (Controller.write path mutate) world result world') :
    SamePlacement world.vars world'.vars := by
  obtain ⟨new, middle, -, rest⟩ := write_ends reads ends
  cases new with
  | none => exact .of_eq rest
  | some new =>
    rw [rest.2]
    exact .write aside _ _

theorem retention_same {cid : Int} {days : Option Int} {result : Unit}
    (ends : Ends view i (retention cid days) world result world') : SamePlacement world.vars world'.vars := by
  obtain ⟨_, middle, wrote, ends⟩ := Ends.bind_inv ends
  obtain ⟨-, rfl⟩ := Ends.ret_inv ends
  apply write_same (aside_retention cid) _ wrote
  intro it
  cases days <;> trivial

theorem put_ends {key : Key} {items : Dict Value} {cas : Option Nat} {index : Nat}
    (ends : Ends view i (Program.put key items cas) world index world') :
    world'.vars = world.vars.write key (stored items) := by
  have outcome : Outcome view i (Program.put key items cas >>= Proc.ret) world (.ok index) world' := by
    rw [Proc.bind_eq, Proc.bind_ret]
    exact ends
  obtain ⟨⟨error, raised⟩, -⟩ | ⟨index, middle, written, later⟩ := outcome.put_inv
  · cases raised
  · rw [(Outcome.ret_inv later).2, written]

theorem createCamera_same {fields result : Dict Value}
    (ends : Ends view i (createCamera fields) world result world') : SamePlacement world.vars world'.vars := by
  obtain ⟨_, _, accepted, ends⟩ := Ends.bind_inv ends
  cases refused : refuse fields with
  | error error =>
    rw [refused] at accepted
    cases accepted
  | ok _ =>
    rw [refused] at accepted
    cases accepted
    dsimp only at ends
    split at ends
    next => cases ends
    next =>
      obtain ⟨cid, counted, numbered, ends⟩ := Ends.bind_inv ends
      obtain ⟨_, _, wrote, numbered⟩ := Ends.bind_inv numbered
      obtain ⟨-, rfl⟩ := Ends.value_inv numbered
      have first : SamePlacement world.vars counted.vars := by
        apply write_same aside_nextId _ wrote
        exact fun it => ReadsOnly.bind (ReadsOnly.value _) fun _ => trivial
      obtain ⟨r, _, made, afterRow⟩ := Ends.bind_inv ends
      obtain ⟨-, rfl⟩ := Ends.value_inv made
      obtain ⟨texts, _, made, afterItems⟩ := Ends.bind_inv afterRow
      obtain ⟨-, rfl⟩ := Ends.value_inv made
      obtain ⟨index, stored_, put_, afterPut⟩ := Ends.bind_inv afterItems
      obtain ⟨days, _, made, afterDays⟩ := Ends.bind_inv afterPut
      obtain ⟨-, rfl⟩ := Ends.value_inv made
      obtain ⟨_, retained, kept, afterRetention⟩ := Ends.bind_inv afterDays
      obtain ⟨-, rfl⟩ := Ends.ret_inv afterRetention
      refine (first.trans ?_).trans (retention_same kept)
      rw [put_ends put_]
      exact .write (aside_cameras _) _ _

theorem placement_names {cid : Int} {pl : Placement} (ends : Ends view i (placement cid) world (some pl) world') :
    workerOf world.vars (toString cid) = some pl.worker.string := by
  have there := (placement_ends ends).2.mp rfl
  obtain ⟨answer, _, got, ends⟩ := Ends.bind_inv ends
  obtain ⟨rfl, rfl⟩ := Ends.get_inv got
  dsimp only at ends
  split at ends
  next =>
    obtain ⟨pl', _, made, ends⟩ := Ends.bind_inv ends
    obtain ⟨same, -⟩ := Ends.ret_inv ends
    cases same
    have names := workerOf_placementOf (Ends.value_inv made).1
    obtain ⟨worker, row⟩ := Option.isSome_iff_exists.mp there
    rw [names] at row ⊢
    rw [row, (named_eq_some.mp row).1]
  next =>
    obtain ⟨none_, -⟩ := Ends.ret_inv ends
    cases none_

/-- Off the one list that has it, then the row. -/
theorem Unlisted.brought {rows middle : Rows} {cid : Int} {worker : String} {items : Items} (listed : Listed rows)
    (placed : workerOf rows (toString cid) = some worker) (off : Unlisted rows middle (toString cid) (· = worker))
    (nobody : workerIn items = none) :
    Brought rows (middle.write (placementRow (toString cid)) items) (toString cid) none := by
  have units : ∀ name, unitsOf (middle.write (placementRow (toString cid)) items) name =
      if name = worker then (unitsOf rows name).filter (· ≠ toString cid) else unitsOf rows name := by
    intro name
    rw [unitsOf_write_other _ _ (placementRow_ne_assignment _ _)]
    split
    next same => exact off.taken name same
    next differs => exact off.kept name differs
  have fewer : ∀ name, (unitsOf (middle.write (placementRow (toString cid)) items) name).length ≤
      (unitsOf rows name).length := by
    intro name
    rw [units]
    split
    · exact List.length_filter_le _ _
    · exact Nat.le_refl _
  refine ⟨?_, ?_, ?_, ?_, ?_, ?_⟩
  · rw [workerOf_write_self, nobody]
  · intro name
    rw [units]
    split
    next => simp
    next differs =>
      apply iff_of_false _ nofun
      intro stands
      rw [listed, placed] at stands
      exact differs (Option.some.inj stands).symm
  · intro other differs
    rw [workerOf_write_other _ _ (by simpa using fun same => differs same.symm), off.workers]
  · intro other name differs
    rw [units]
    split
    · exact ⟨List.mem_of_mem_filter, fun member => List.mem_filter.mpr ⟨member, decide_eq_true differs⟩⟩
    · rfl
  · exact fun name _ => fewer name
  · exact fun name => Nat.le_succ_of_le (fewer name)

theorem deleteCamera_listed {cid : Int} {result : Unit} (listed : Listed world.vars)
    (ends : Ends view i (deleteCamera cid) world result world') : Listed world'.vars := by
  obtain ⟨_, marked, wrote, ends⟩ := Ends.bind_inv ends
  have first : SamePlacement world.vars marked.vars := by
    apply write_same (aside_cameras _) _ wrote
    exact fun it => trivial
  obtain ⟨_, retained, kept, ends⟩ := Ends.bind_inv ends
  have second := (first.trans (retention_same kept)).listed listed
  obtain ⟨have_, looked, found, ends⟩ := Ends.bind_inv ends
  have waits := found.waited (ReadsOnly.placement cid)
  cases have_ with
  | none =>
    obtain ⟨-, rfl⟩ := Ends.ret_inv ends
    exact (SamePlacement.of_eq waits.1).listed second
  | some pl =>
    unfold Ends at ends
    dsimp only at ends
    rw [Proc.run_within] at ends
    obtain ⟨_, middle, removed, ends⟩ := Ends.bind_inv ends
    obtain ⟨_, last, wrote', ends⟩ := Ends.bind_inv ends
    obtain ⟨-, rfl⟩ := Ends.ret_inv ends
    have reads : ∀ it : Dict Value, ReadsOnly (M := M) (do
        let now ← Program.wall
        let rev ← Program.value (it.getD "rev" (.int 0)).toInt
        return some (placementItems (.plain "") (.plain "deleted") now (rev + 1))) := by
      intro it
      refine ReadsOnly.bind (fun _ => trivial) fun now => ?_
      exact ReadsOnly.bind (ReadsOnly.value _) fun _ => trivial
    obtain ⟨new, _, mutated, rest⟩ := write_ends reads wrote'
    obtain ⟨now, _, clock, mutated⟩ := Ends.bind_inv mutated
    obtain ⟨rev, _, made, mutated⟩ := Ends.bind_inv mutated
    obtain ⟨rfl, rfl⟩ := Ends.ret_inv mutated
    have off := assignRemove_ends removed
    rw [waits.1] at off
    rw [rest.2]
    exact (off.brought second (placement_names found) (workerIn_placementItems _ _ _ _)).listed second

/-! ## Runs -/

inductive Task where
  | call (call : Call)
  | rebalance (budget : Int) (deadBand : ℚ) (workers : Option (List String))

namespace Task

def program (double : ℚ → ℚ) (capacity : Int) : Task → Program M Unit
  | call asked => asked.program capacity
  | rebalance budget deadBand workers => do
    let _ ← VmsController.rebalance double capacity budget deadBand workers
    return ()

/-- The workers that the task itself names are path components. -/
def Plain : Task → Prop
  | call (.place _ workers) | call (.ensurePlaced workers) | call (.redistribute workers) | rebalance _ _ workers =>
    ∀ names, workers = some names → ∀ name ∈ names, Path.Component name
  | call (.move _ to_ _) => Path.Component to_
  | call (.create _) | call (.delete _) => True

/-- The tasks that choose a worker by its capacity. -/
def Chooses : Task → Prop
  | call (.place _ _) | call (.ensurePlaced _) | call (.redistribute _) | rebalance _ _ _ => True
  | call (.move _ _ _) | call (.create _) | call (.delete _) => False

end Task

/-- A store in which nobody is placed. -/
def Unplaced (rows : Rows) : Prop :=
  (∀ worker, rows.read (vms.assignment worker) = none) ∧ ∀ unit, rows.read (placementRow unit) = none

/-- Tasks one after the other, each to its end; in between, others write what says nothing about placement, and
whatever is outside the store changes. -/
inductive Reached (view : View) (i : ι) (double : ℚ → ℚ) (capacity : Int) (allowed : Task → World ι M → Prop)
    (start : World ι M) : World ι M → Prop
  | start : Reached view i double capacity allowed start start
  | task {before after : World ι M} (task : Task) (reached : Reached view i double capacity allowed start before)
      (may : allowed task before) (ends : Ends view i (task.program double capacity) before () after) :
      Reached view i double capacity allowed start after
  | others {before after : World ι M} (reached : Reached view i double capacity allowed start before)
      (same : ∀ key, ¬ Aside key → after.vars.read key = before.vars.read key) :
      Reached view i double capacity allowed start after

theorem Unplaced.listed {rows : Rows} (unplaced : Unplaced rows) : Listed rows := by
  intro cid worker
  rw [unitsOf, workerOf, unplaced.1, unplaced.2]
  simp

theorem chooses_orderly {double : ℚ → ℚ} {capacity : Int} {task : Task} (listed : Listed world.vars)
    (plain : task.Plain) (beats : PlainBeats world) (chooses : task.Chooses)
    (ends : Ends view i (task.program double capacity) world () world') : Orderly view i capacity world world' := by
  cases task with
  | call call =>
    cases call with
    | place cid workers =>
      obtain ⟨_, middle, placed, ends⟩ := Ends.bind_inv ends
      obtain ⟨-, rfl⟩ := Ends.ret_inv ends
      exact place_orderly listed beats plain placed
    | ensurePlaced workers =>
      obtain ⟨_, middle, placed, ends⟩ := Ends.bind_inv ends
      obtain ⟨-, rfl⟩ := Ends.ret_inv ends
      obtain ⟨cams, seen, found, ensured⟩ := Ends.bind_inv placed
      have first : Orderly view i capacity world seen := .of_waited listed (found.waited ReadsOnly.cameras)
      exact first.trans (ensureRounds_orderly first.listed (beats.later first.passed) plain ensured)
    | redistribute workers =>
      obtain ⟨_, middle, moved, ends⟩ := Ends.bind_inv ends
      obtain ⟨-, rfl⟩ := Ends.ret_inv ends
      obtain ⟨released, seen, found, moved⟩ := Ends.bind_inv moved
      have first : Orderly view i capacity world seen :=
        .of_waited listed (found.waited (ReadsOnly.releasedSlots vms))
      exact first.trans (redistributeRounds_orderly first.listed (beats.later first.passed) plain moved)
    | create fields | move cid to_ reason | delete cid => exact chooses.elim
  | rebalance budget deadBand workers =>
    obtain ⟨_, middle, moved, ends⟩ := Ends.bind_inv ends
    obtain ⟨-, rfl⟩ := Ends.ret_inv ends
    obtain ⟨names, seen, found, moved⟩ := Ends.bind_inv moved
    have first : Orderly view i capacity world seen := .of_waited listed (found.waited (ReadsOnly.candidates workers))
    refine first.trans (rebalanceRounds_orderly first.listed ?_ moved)
    intro name member
    exact candidates_plain beats plain found name ((List.perm_insertionSort _ _).mem_iff.mp member)

theorem task_listed {double : ℚ → ℚ} {capacity : Int} {task : Task} (listed : Listed world.vars)
    (plain : task.Plain) (beats : PlainBeats world)
    (ends : Ends view i (task.program double capacity) world () world') : Listed world'.vars := by
  by_cases chooses : task.Chooses
  · exact (chooses_orderly listed plain beats chooses ends).listed
  · cases task with
    | call call =>
      cases call with
      | create fields =>
        obtain ⟨_, middle, created, ends⟩ := Ends.bind_inv ends
        obtain ⟨-, rfl⟩ := Ends.ret_inv ends
        exact (createCamera_same created).listed listed
      | move cid to_ reason =>
        obtain ⟨_, middle, moved, ends⟩ := Ends.bind_inv ends
        obtain ⟨-, rfl⟩ := Ends.ret_inv ends
        exact (move_ends plain.nonempty moved).listed listed
      | delete cid => exact deleteCamera_listed listed ends
      | place cid workers | ensurePlaced workers | redistribute workers => exact absurd trivial chooses
    | rebalance budget deadBand workers => exact absurd trivial chooses

theorem run_outside {α : Type} (p : Program M α) (world : World ι M) :
    (p.run (handler FileVariables view i) world).2.outside = world.outside := by
  induction p generalizing world with
  | ret value | raise error => rfl
  | call label request next ih =>
    rw [Proc.run_call]
    exact (ih _ _).trans (handler_outside request world)

/-- A task in a world of its own. -/
def ran (task : Task) (world : World Unit Unit) : Except Exn Unit × World Unit Unit :=
  (task.program id 50).run (handler FileVariables {} ()) world

theorem reached_ran {allowed : Task → World Unit Unit → Prop} {start world : World Unit Unit} (task : Task)
    (reached : Reached {} () id 50 allowed start world) (may : allowed task world)
    (returns : (ran task world).1.toBool = true) : Reached {} () id 50 allowed start (ran task world).2 := by
  obtain ⟨_, ends⟩ := ends_of_isOk {} () (task.program id 50) world returns
  exact .task task reached may ends

omit [DecidableEq ι] in
theorem plainBeats_quiet {world : World ι M} (quiet : world.outside = fun _ => quietOutside) : PlainBeats world := by
  intro moment name beat said
  rw [quiet] at said
  cases said

def createGate : Task := .call (.create newCamera)

def placeGate : Task := .call (.place 1 (some ["w-1"]))

def gateCreated : World Unit Unit := (ran createGate (freshWorld Unit)).2

theorem gateCreated_outside : gateCreated.outside = fun _ => quietOutside := by
  unfold gateCreated ran
  rw [run_outside]
  rfl

theorem reached_gateCreated {allowed : Task → World Unit Unit → Prop} (may : allowed createGate (freshWorld Unit)) :
    Reached {} () id 50 allowed (freshWorld Unit) gateCreated := by
  unfold gateCreated
  apply reached_ran createGate .start may
  decide +kernel

/-- A move to the worker without a name. -/
def moveNowhere : Task := .call (.move 1 "" "operator")

end EdgeVms.Verified
