import EdgeVms.Verified.Platform.Alone
import EdgeVms.Verified.Vms.Calls

/-! # `ensure_placed` alone

What one undisturbed run of `ensure_placed` does to the rows: a camera whose
placement row names a worker is left as it is, every other one goes to a worker
with room while there is room.
-/

namespace EdgeVms.Verified

open Process Python Platform Vms VmsController

variable {ι M : Type} [DecidableEq ι] {view : View} {i : ι} {world world' : World ι M}

/-- The id in a camera row that is there and not deleted. -/
def liveId (items : Option Items) : Option Int :=
  if (rowValues items).isEmpty || isDeleted (rowValues items) then none
  else match Dict.item (rowValues items) "id" >>= Value.toInt with
    | .ok id => some id
    | .error _ => none

/-- The cameras that are not deleted. -/
def cameraIds (rows : Rows) : List Int :=
  (listing rows camerasKey).filterMap fun key => liveId (rows.read key)

theorem row_id {it r : Dict Value} {id : Int} (decoded : row it = .ok r)
    (read : (Dict.item r "id" >>= Value.toInt) = .ok id) : (Dict.item it "id" >>= Value.toInt) = .ok id := by
  simp only [row, bind_eq_ok] at decoded
  obtain ⟨value, found, n, parsed, _, _, _, _, _, _, _, _, _, _, ends⟩ := decoded
  cases ends
  have same : n = id := by simpa [Dict.item, Dict.get?_cons, Bind.bind, Except.bind] using read
  rw [found, ← same]
  exact parsed

theorem camerasRounds_ends {paths : List Key} {out result : List (Int × Dict Value)}
    (ends : Ends view i (camerasRounds paths out) world result world') :
    Waited world world' ∧
      result.map Prod.fst = out.map Prod.fst ++ paths.filterMap fun key => liveId (world.vars.read key) := by
  refine ⟨ends.waited (ReadsOnly.camerasRounds paths out), ?_⟩
  induction paths generalizing out world with
  | nil =>
    obtain ⟨rfl, rfl⟩ := Ends.ret_inv ends
    simp
  | cons path rest ih =>
    obtain ⟨answer, _, got, ends⟩ := Ends.bind_inv ends
    obtain ⟨rfl, rfl⟩ := Ends.get_inv got
    dsimp only at ends
    split at ends
    next skipped =>
      have dead : liveId (world.vars.read path) = none := by rw [liveId, if_pos skipped]
      rw [ih ends, @List.filterMap_cons_none _ _ (fun key => liveId (world.vars.read key)) _ _ dead]
      rfl
    next taken =>
      obtain ⟨r, _, made, ends⟩ := Ends.bind_inv ends
      obtain ⟨decoded, rfl⟩ := Ends.value_inv made
      obtain ⟨id, _, made, ends⟩ := Ends.bind_inv ends
      obtain ⟨read, rfl⟩ := Ends.value_inv made
      have live : liveId (world.vars.read path) = some id := by
        rw [liveId, if_neg taken, row_id decoded read]
      rw [ih ends, @List.filterMap_cons_some _ _ (fun key => liveId (world.vars.read key)) _ _ _ live]
      simp

theorem cameras_ends {cams : List (Int × Dict Value)} (ends : Ends view i cameras world cams world') :
    Waited world world' ∧ (cams.map Prod.fst).Perm (cameraIds world.vars) := by
  obtain ⟨paths, _, listed, ends⟩ := Ends.bind_inv ends
  obtain ⟨rfl, rfl⟩ := Ends.list_inv listed
  obtain ⟨rows, _, found, ends⟩ := Ends.bind_inv ends
  obtain ⟨rfl, rfl⟩ := Ends.ret_inv ends
  obtain ⟨waits, ids⟩ := camerasRounds_ends found
  refine ⟨(Waited.tick world).trans waits, ?_⟩
  have sorted := (List.perm_insertionSort (fun left right : Int × Dict Value => left.1 ≤ right.1) rows).map Prod.fst
  rw [ids] at sorted
  simpa [cameraIds] using sorted

/-! ## One placement -/

/-- `rows'` is `rows` with `unit` placed on `best`. -/
structure PlacedOn (rows rows' : Rows) (unit best : String) : Prop where
  worker : workerOf rows' unit = named best
  stands : unit ∈ unitsOf rows' best
  other_workers : ∀ other, other ≠ unit → workerOf rows' other = workerOf rows other
  other_lists : ∀ name, name ≠ best → unitsOf rows' name = unitsOf rows name
  other_units : ∀ other, other ≠ unit → (other ∈ unitsOf rows' best ↔ other ∈ unitsOf rows best)
  length : (unitsOf rows' best).length ≤ (unitsOf rows best).length + 1
  cameras : cameraIds rows' = cameraIds rows

theorem listing_write {rows : Rows} {above key : Key} {items : Items} (outside : ¬ above <+: key) :
    listing (rows.write key items) above = listing rows above := by
  have dropped : (above.isPrefixOf key && decide (key ≠ above)) = false := by
    simp [List.isPrefixOf_iff_prefix, Bool.eq_false_iff, outside]
  unfold listing Versioned.write
  dsimp only
  split
  · rfl
  · rw [List.filter_cons_of_neg (by simpa using dropped)]

theorem cameraIds_write {rows : Rows} {key : Key} {items : Items} (outside : ¬ camerasKey <+: key) :
    cameraIds (rows.write key items) = cameraIds rows := by
  unfold cameraIds
  rw [listing_write outside]
  refine List.filterMap_congr fun path member => ?_
  have under : camerasKey <+: path := (mem_listing.mp member).2.1
  have differs : path ≠ key := by
    rintro rfl
    exact outside under
  rw [Versioned.read_write_other _ _ differs]

theorem not_camera_placementRow (unit : String) : ¬ camerasKey <+: placementRow unit := by
  simp [camerasKey, placementRow, Subsystem.config]

theorem not_camera_assignment (worker : String) : ¬ camerasKey <+: vms.assignment worker := by
  simp [camerasKey, Subsystem.config, Subsystem.assignment]

/-- `rows'` is `rows` with the unit in the worker's list. -/
def Added (rows rows' : Rows) (unit worker : String) : Prop :=
  (unit ∈ unitsOf rows worker ∧ rows' = rows) ∨
    (unit ∉ unitsOf rows worker ∧ ∃ texts, rows' = rows.write (vms.assignment worker) texts ∧
      unitsIn texts = Controller.withUnit (unitsOf rows worker) unit)

/-- `rows'` is `rows` with a placement row that names the worker, and the unit in its list. -/
def Gave (rows rows' : Rows) (unit worker : String) : Prop :=
  ∃ items, workerIn items = named worker ∧ Added (rows.write (placementRow unit) items) rows' unit worker

theorem assignAdd_ends {cid : Int} {worker : String} {a : Assignment}
    (ends : Ends view i (Controller.assignAdd vms worker (toString cid)) world a world') :
    world'.outside = world.outside ∧ world.served ≤ world'.served ∧
      Added world.vars world'.vars (toString cid) worker := by
  obtain ⟨written, middle, wrote, ends⟩ := Ends.bind_inv ends
  obtain ⟨-, rfl⟩ := Ends.value_inv ends
  have reads : ∀ items, ReadsOnly (M := M) (do
      let a ← Program.value (Assignment.fromItems worker items)
      if toString cid ∈ a.units then return none
      return some (Assignment.toItems ⟨worker, Controller.withUnit a.units (toString cid), a.rev + 1⟩)) := by
    intro items
    refine ReadsOnly.bind (ReadsOnly.value _) fun a => ?_
    split
    · trivial
    · trivial
  obtain ⟨new, middle, waits, mutated, rest⟩ := Ends.write_inv reads wrote
  obtain ⟨a, _, made, mutated⟩ := Ends.bind_inv mutated
  obtain ⟨read, rfl⟩ := Ends.value_inv made
  obtain ⟨units, atomic⟩ := units_fromItems read
  split at mutated
  next there =>
    obtain ⟨rfl, rfl⟩ := Ends.ret_inv mutated
    obtain ⟨-, rfl⟩ := rest
    exact ⟨waits.2.1, waits.2.2, .inl ⟨units ▸ there, waits.1⟩⟩
  next missing =>
    obtain ⟨rfl, rfl⟩ := Ends.ret_inv mutated
    obtain ⟨-, rfl⟩ := rest
    refine ⟨waits.2.1, Nat.le_succ_of_le waits.2.2, .inr ⟨units ▸ missing, _, rfl, ?_⟩⟩
    rw [unitsIn_toItems, units]
    intro unit member
    obtain old | rfl := mem_withUnit.mp member
    · exact atomic unit old
    · exact atomic_toString cid

/-- Row first, list second: the camera is placed. -/
theorem Gave.placedOn {rows rows' : Rows} {unit best : String} (gave : Gave rows rows' unit best) :
    PlacedOn rows rows' unit best := by
  obtain ⟨items, row, list⟩ := gave
  have kept : ∀ name, unitsOf (rows.write (placementRow unit) items) name = unitsOf rows name :=
    fun name => unitsOf_write_other _ _ (placementRow_ne_assignment _ _)
  obtain ⟨there, rfl⟩ | ⟨-, texts, rfl, units⟩ := list
  · refine ⟨by rw [workerOf_write_self, row], there, fun other differs => ?_, fun name _ => kept name,
      fun other _ => by rw [kept], by rw [kept]; omega, cameraIds_write (not_camera_placementRow _)⟩
    exact workerOf_write_other _ _ (by simpa using fun same => differs same.symm)
  · rw [kept] at units
    refine ⟨?_, ?_, fun other differs => ?_, fun name differs => ?_, fun other differs => ?_, ?_, ?_⟩
    · rw [workerOf_write_other _ _ (assignment_ne_placementRow _ _), workerOf_write_self, row]
    · rw [unitsOf_write_self, units]
      exact mem_withUnit.mpr (.inr rfl)
    · rw [workerOf_write_other _ _ (assignment_ne_placementRow _ _),
        workerOf_write_other _ _ (by simpa using fun same => differs same.symm)]
    · rw [unitsOf_write_other _ _ (by simpa using fun same => differs same.symm), kept]
    · rw [unitsOf_write_self, units, mem_withUnit]
      exact ⟨fun either => either.resolve_right differs, .inl⟩
    · rw [unitsOf_write_self, units, Controller.withUnit, sorted, List.length_insertionSort]
      calc ((unitsOf rows best ++ [unit]).dedup).length
          ≤ (unitsOf rows best ++ [unit]).length := (List.dedup_sublist _).length_le
        _ = (unitsOf rows best).length + 1 := by simp
    · rw [cameraIds_write (not_camera_assignment _), cameraIds_write (not_camera_placementRow _)]

/-- While the calls run, the same workers are seen, with the same capacities. -/
structure Steady (view : View) (i : ι) (capacity : Int) (workers : Option (List String)) (world : World ι M)
    (live : List String) (carries : String → Int) : Prop where
  seen : ∀ now now' : World ι M, ∀ names, now.outside = world.outside → world.served ≤ now.served →
    Ends view i (candidates workers) now names now' → names = live
  carried : ∀ now now' : World ι M, ∀ worker n, worker ∈ live → now.outside = world.outside →
    world.served ≤ now.served → Ends view i (capacityOf capacity worker) now n now' → n = carries worker

theorem Steady.later {capacity : Int} {workers : Option (List String)} {live : List String}
    {carries : String → Int} (steady : Steady view i capacity workers world live carries)
    (outside : world'.outside = world.outside) (served : world.served ≤ world'.served) :
    Steady view i capacity workers world' live carries :=
  ⟨fun now now' names same after => steady.seen now now' names (same.trans outside) (Nat.le_trans served after),
    fun now now' worker n member same after =>
      steady.carried now now' worker n member (same.trans outside) (Nat.le_trans served after)⟩

/-- The room a worker has left. -/
def room (carries : String → Int) (rows : Rows) (worker : String) : Int :=
  carries worker - (unitsOf rows worker).length

theorem free_ends {capacity : Int} {workers : Option (List String)} {live : List String}
    {carries : String → Int} {worker : String} {f : Int} (member : worker ∈ live)
    (steady : Steady view i capacity workers world live carries)
    (ends : Ends view i (free capacity worker) world f world') :
    Waited world world' ∧ f = room carries world.vars worker := by
  refine ⟨ends.waited (ReadsOnly.free capacity worker), ?_⟩
  obtain ⟨n, middle, carried, ends⟩ := Ends.bind_inv ends
  have waits := carried.waited (ReadsOnly.capacityOf capacity worker)
  obtain ⟨l, _, loaded, ends⟩ := Ends.bind_inv ends
  obtain ⟨rfl, -⟩ := Ends.ret_inv ends
  obtain ⟨a, _, assigned, loaded⟩ := Ends.bind_inv loaded
  obtain ⟨rfl, -⟩ := Ends.ret_inv loaded
  obtain ⟨answer, _, got, assigned⟩ := Ends.bind_inv assigned
  obtain ⟨rfl, rfl⟩ := Ends.get_inv got
  obtain ⟨read, -⟩ := Ends.value_inv assigned
  rw [steady.carried world middle worker n member rfl (Nat.le_refl _) carried, room,
    (units_fromItems read).1, waits.1]

theorem bestRounds_ends {capacity : Int} {workers : Option (List String)} {live names : List String}
    {carries : String → Int} {best : Option String} {most : Int} {result : Option String × Int}
    (members : ∀ name ∈ names, name ∈ live) (steady : Steady view i capacity workers world live carries)
    (ends : Ends view i (bestRounds capacity names best most) world result world') :
    Waited world world' ∧ most ≤ result.2 ∧ (∀ name ∈ names, room carries world.vars name ≤ result.2) ∧
      (result = (best, most) ∨ ∃ name ∈ names, result.1 = some name ∧ result.2 = room carries world.vars name ∧
        most < result.2) := by
  refine ⟨ends.waited (ReadsOnly.bestRounds capacity names best most), ?_⟩
  induction names generalizing best most world with
  | nil =>
    obtain ⟨rfl, rfl⟩ := Ends.ret_inv ends
    simp
  | cons worker rest ih =>
    obtain ⟨f, middle, freed, ends⟩ := Ends.bind_inv ends
    obtain ⟨waits, rfl⟩ := free_ends (members worker List.mem_cons_self) steady freed
    have members' : ∀ name ∈ rest, name ∈ live := fun name member => members name (List.mem_cons_of_mem _ member)
    have steady' := steady.later waits.2.1 waits.2.2
    have rooms : ∀ name, room carries middle.vars name = room carries world.vars name := by
      intro name
      rw [room, room, waits.1]
    split at ends
    next more =>
      obtain ⟨above, others, outcome⟩ := ih members' steady' ends
      refine ⟨by omega, ?_, .inr ?_⟩
      · intro name member
        obtain rfl | later := List.mem_cons.mp member
        · exact above
        · rw [← rooms]
          exact others name later
      · obtain rfl | ⟨name, member, first, second, larger⟩ := outcome
        · exact ⟨worker, List.mem_cons_self, rfl, rfl, more⟩
        · exact ⟨name, List.mem_cons_of_mem _ member, first, by rw [second, rooms], by omega⟩
    next fewer =>
      obtain ⟨above, others, outcome⟩ := ih members' steady' ends
      refine ⟨above, ?_, ?_⟩
      · intro name member
        obtain rfl | later := List.mem_cons.mp member
        · omega
        · rw [← rooms]
          exact others name later
      · obtain rfl | ⟨name, member, first, second, larger⟩ := outcome
        · exact .inl rfl
        · exact .inr ⟨name, List.mem_cons_of_mem _ member, first, by rw [second, rooms], larger⟩

theorem placement_ends {cid : Int} {result : Option Placement}
    (ends : Ends view i (placement cid) world result world') :
    Waited world world' ∧ (result.isSome ↔ (workerOf world.vars (toString cid)).isSome) := by
  refine ⟨ends.waited (ReadsOnly.placement cid), ?_⟩
  obtain ⟨answer, _, got, ends⟩ := Ends.bind_inv ends
  obtain ⟨rfl, rfl⟩ := Ends.get_inv got
  have row : hasWorker (rowValues (world.vars.read (placementKey cid))) = true ↔
      (workerOf world.vars (toString cid)).isSome := hasWorker_iff
  dsimp only at ends
  split at ends
  next placed =>
    obtain ⟨pl, _, made, ends⟩ := Ends.bind_inv ends
    obtain ⟨rfl, -⟩ := Ends.ret_inv ends
    simpa using row.mp placed
  next vacant =>
    obtain ⟨rfl, -⟩ := Ends.ret_inv ends
    rw [← row]
    simpa using vacant

/-- `place` looks at the row, compares the workers, and places on the best. -/
theorem place_cases {capacity : Int} {workers : Option (List String)} {cid : Int} {result : Option Placement}
    (ends : Ends view i (place capacity cid workers) world result world') :
    world'.outside = world.outside ∧ world.served ≤ world'.served ∧
      (((∃ worker, workerOf world.vars (toString cid) = some worker) ∧ world'.vars = world.vars) ∨
        (workerOf world.vars (toString cid) = none ∧ ∃ placed names seen best compared,
          Waited world placed ∧ Ends view i (candidates workers) placed names seen ∧
            Ends view i (bestRounds capacity (sorted names) none 0) seen best compared ∧
            compared.served ≤ world'.served ∧
            match best.1 with
            | none => world'.vars = world.vars
            | some name => Gave world.vars world'.vars (toString cid) name)) := by
  obtain ⟨have_, placed, looked, ends⟩ := Ends.bind_inv ends
  obtain ⟨waits, row⟩ := placement_ends looked
  cases have_ with
  | some have_ =>
    obtain ⟨-, rfl⟩ := Ends.ret_inv ends
    exact ⟨waits.2.1, waits.2.2, .inl ⟨Option.isSome_iff_exists.mp (row.mp rfl), waits.1⟩⟩
  | none =>
    have vacant : workerOf world.vars (toString cid) = none := by
      cases worker : workerOf world.vars (toString cid) with
      | none => rfl
      | some name => exact absurd (row.mpr (by rw [worker]; rfl)) (by simp)
    obtain ⟨names, seen, found, ends⟩ := Ends.bind_inv ends
    obtain ⟨⟨best, most⟩, compared, chosen, ends⟩ := Ends.bind_inv ends
    have waits := (waits.trans (found.waited (ReadsOnly.candidates workers))).trans
      (chosen.waited (ReadsOnly.bestRounds capacity (sorted names) none 0))
    cases best with
    | none =>
      obtain ⟨-, rfl⟩ := Ends.ret_inv ends
      exact ⟨waits.2.1, waits.2.2, .inr ⟨vacant, _, _, _, _, _, ‹_›, found, chosen, Nat.le_refl _, waits.1⟩⟩
    | some name =>
      obtain ⟨now, _, clock, afterClock⟩ := Ends.bind_inv ends
      cases clock
      obtain ⟨written, rowed, wrote, afterWrite⟩ := Ends.bind_inv afterClock
      obtain ⟨pl, _, made, afterRead⟩ := Ends.bind_inv afterWrite
      obtain ⟨read, rfl⟩ := Ends.value_inv made
      obtain ⟨a, _, added, afterAdd⟩ := Ends.bind_inv afterRead
      obtain ⟨-, rfl⟩ := Ends.ret_inv afterAdd
      unfold Ends at added
      rw [Proc.run_within] at added
      obtain ⟨outside', served', lists⟩ := assignAdd_ends added
      have reads : ∀ it, ReadsOnly (M := M) (do
          if hasWorker it then return none
          return some (placementItems (.plain name) (.plain ("most free capacity (" ++ toString most ++
            ") among " ++ toString (sorted names).length ++ " worker(s)")) compared.now.wall
              (← Program.value (nextRev it)))) := by
        intro it
        split
        · trivial
        · exact ReadsOnly.bind (ReadsOnly.value _) fun _ => trivial
      obtain ⟨new, middle, waited, mutated, rest⟩ := Ends.write_inv reads wrote
      have free_row : ¬ hasWorker (rowValues (compared.tick.vars.read (placementKey cid))) = true := by
        rw [hasWorker_iff, World.tick_vars, waits.1]
        change ¬ (workerOf world.vars (toString cid)).isSome = true
        rw [vacant]
        simp
      rw [if_neg free_row] at mutated
      obtain ⟨rev, _, made, afterRev⟩ := Ends.bind_inv mutated
      obtain ⟨-, rfl⟩ := Ends.value_inv made
      obtain ⟨rfl, rfl⟩ := Ends.ret_inv afterRev
      obtain ⟨rfl, rfl⟩ := rest
      rw [placement_new read] at lists
      dsimp only [World.tick_vars, Text.string] at lists
      rw [waits.1] at lists
      have after : compared.served ≤ world'.served := by
        simp only [World.tick] at served'
        omega
      exact ⟨outside'.trans waits.2.1, Nat.le_trans waits.2.2 after, .inr ⟨vacant, _, _, _, _, _, ‹_›, found, chosen,
        after, _, workerIn_placementItems _ _ _ _, lists⟩⟩

/-- The three ways `place` can end. -/
theorem place_ends {capacity : Int} {workers : Option (List String)} {live : List String}
    {carries : String → Int} {cid : Int} {result : Option Placement}
    (steady : Steady view i capacity workers world live carries)
    (ends : Ends view i (place capacity cid workers) world result world') :
    world'.outside = world.outside ∧ world.served ≤ world'.served ∧
      (((∃ worker, workerOf world.vars (toString cid) = some worker) ∧ world'.vars = world.vars) ∨
        (workerOf world.vars (toString cid) = none ∧ world'.vars = world.vars ∧
          ∀ name ∈ live, room carries world.vars name ≤ 0) ∨
        (workerOf world.vars (toString cid) = none ∧ ∃ best ∈ live, 0 < room carries world.vars best ∧
          PlacedOn world.vars world'.vars (toString cid) best)) := by
  obtain ⟨outside, served, there | ⟨vacant, placed, names, seen, best, compared, waits, found, chosen, -, placing⟩⟩ :=
    place_cases ends
  · exact ⟨outside, served, .inl there⟩
  · have seeing := waits.trans (found.waited (ReadsOnly.candidates workers))
    obtain rfl := steady.seen placed seen names waits.2.1 waits.2.2 found
    have members : ∀ name ∈ sorted names, name ∈ names := fun name member =>
      (List.perm_insertionSort _ names).mem_iff.mp member
    obtain ⟨-, -, others, outcome⟩ := bestRounds_ends members (steady.later seeing.2.1 seeing.2.2) chosen
    have rooms : ∀ name, room carries seen.vars name = room carries world.vars name := by
      intro name
      rw [room, room, seeing.1]
    obtain rfl | ⟨name, member, chose, free, positive⟩ := outcome
    · -- nobody has room
      refine ⟨outside, served, .inr (.inl ⟨vacant, placing, fun name member => ?_⟩)⟩
      rw [← rooms]
      exact others name ((List.perm_insertionSort _ names).mem_iff.mpr member)
    · rw [chose] at placing
      refine ⟨outside, served, .inr (.inr ⟨vacant, name, members name member, ?_, placing.placedOn⟩)⟩
      rw [← rooms, ← free]
      exact positive

end EdgeVms.Verified
