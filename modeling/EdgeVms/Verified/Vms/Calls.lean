import EdgeVms.Verified.Vms.Placement
import Mathlib.Data.List.Dedup

/-! # The calls of the controller, one write at a time

Every call keeps `Consistent`, as long as nobody else brings a camera towards
another worker while the call is settling it (`Toward`).  The rely of a settled
phase is exactly that; `call_careful` goes through the calls.
-/

namespace EdgeVms.Verified

open Process Python Platform Vms VmsController

variable {ι M α : Type} [DecidableEq ι] {store : Variables} {view : View} {i : ι}

/-- The placement row of a camera stays or comes to name `worker`, and no other list gains the camera. -/
def Toward (camera : String) (worker : Option String) (rows rows' : Rows) : Prop :=
  (workerOf rows' camera = workerOf rows camera ∨ workerOf rows' camera = worker) ∧
    ∀ other, camera ∈ unitsOf rows' other → camera ∈ unitsOf rows other ∨ some other = worker

/-- Nothing but writes, by others, that leave the rows consistent. -/
def Moves (rows rows' : Rows) : Prop := Consistent rows' ∧ Versioned.Later rows rows'

def Settles (camera : String) (worker : Option String) (rows rows' : Rows) : Prop :=
  Moves rows rows' ∧ Toward camera worker rows rows'

/-- What the others may do in each phase of a call. -/
def overlapRely : Phase → Rows → Rows → Prop
  | .settled camera worker => Settles camera worker
  | _ => Moves

/-- What a call promises of each of its writes. -/
def Promise (rows rows' : Rows) : Prop := Consistent rows → Consistent rows'

theorem promise_refl (rows : Rows) : Promise rows rows := id

theorem Moves.trans {rows rows' rows'' : Rows} (first : Moves rows rows') (second : Moves rows' rows'') :
    Moves rows rows'' := ⟨second.1, first.2.trans second.2⟩

theorem Toward.refl (camera : String) (worker : Option String) (rows : Rows) :
    Toward camera worker rows rows := ⟨.inl rfl, fun _ stands => .inl stands⟩

theorem Toward.trans {camera : String} {worker : Option String} {rows rows' rows'' : Rows}
    (first : Toward camera worker rows rows') (second : Toward camera worker rows' rows'') :
    Toward camera worker rows rows'' := by
  constructor
  · obtain kept | came := second.1
    · rw [kept]
      exact first.1
    · exact .inr came
  · intro other stands
    obtain stood | dest := second.2 other stands
    · exact first.2 other stood
    · exact .inr dest

theorem Settles.trans {camera : String} {worker : Option String} {rows rows' rows'' : Rows}
    (first : Settles camera worker rows rows') (second : Settles camera worker rows' rows'') :
    Settles camera worker rows rows'' := ⟨first.1.trans second.1, first.2.trans second.2⟩

theorem promise_aside {key : Key} (aside : Aside key) (rows : Rows) (items : Items) :
    Promise rows (rows.write key items) := by
  intro consistent cid worker nonempty stands
  rw [aside.unitsOf] at stands
  rw [aside.workerOf]
  exact consistent cid worker nonempty stands

theorem overlapRely_moves (phase : Phase) (rows rows' : Rows) (moved : overlapRely phase rows rows') :
    Moves rows rows' := by
  cases phase with
  | settled camera worker => exact moved.1
  | idle | renewing | starting _ _ => exact moved

theorem overlapRely_refl (phase : Phase) {rows : Rows} (consistent : Consistent rows) :
    overlapRely phase rows rows := by
  have moves : Moves rows rows := ⟨consistent, Versioned.Later.refl _⟩
  cases phase with
  | settled camera dest => exact ⟨moves, Toward.refl camera dest _⟩
  | idle | renewing | starting _ _ => exact moves

abbrev Careful (store : Variables) (view : View) (i : ι) (post : α → Rows → Prop) (p : Program M α)
    (world : World ι M) : Prop :=
  Keeps store view i overlapRely Promise post p world

/-- Read-modify-write of a row that says nothing about placement. -/
theorem write_aside (honest : Honest store) {key : Key} (aside : Aside key)
    {mutate : Dict Value → Program M (Option (Dict Value))} (reads : ∀ items, ReadsOnly (mutate items))
    (world : World ι M) : Careful store view i (fun _ _ => True) (Controller.write key mutate) world := by
  refine Keeps.write promise_refl honest (fun _ _ _ => Moves.trans) fun world' moved => ?_
  refine Keeps.mono (fun new rows since => ⟨since, ?_⟩)
    (Keeps.readsOnly_since promise_refl (reads _) overlapRely_moves (fun _ _ _ => Moves.trans) moved)
  cases new with
  | none => trivial
  | some new => exact fun rows' _ _ => ⟨promise_aside aside rows' _, trivial⟩

theorem mem_withUnit {units : List String} {unit other : String} :
    other ∈ Controller.withUnit units unit ↔ other ∈ units ∨ other = unit := by
  rw [Controller.withUnit, sorted, List.mem_insertionSort, List.mem_dedup]
  simp

/-- A list may gain what is placed on its worker. -/
theorem promise_list {rows : Rows} {worker : String} {items : Items}
    (gains : ∀ cid : Int, toString cid ∈ unitsIn items → toString cid ∈ unitsOf rows worker ∨
      (worker ≠ "" → workerOf rows (toString cid) = some worker)) :
    Promise rows (rows.write (vms.assignment worker) items) := by
  intro consistent cid other nonempty stands
  rw [workerOf_write_other rows items (assignment_ne_placementRow worker _)]
  by_cases same : other = worker
  · subst same
    rw [unitsOf_write_self] at stands
    obtain stood | placed := gains cid stands
    · exact consistent cid other nonempty stood
    · exact placed nonempty
  · rw [unitsOf_write_other rows items (by simpa using fun h => same h.symm)] at stands
    exact consistent cid other nonempty stands

/-- A placement row may be written when no other list has the camera. -/
theorem promise_row {rows : Rows} {unit : String} {items : Items}
    (others : ∀ worker, worker ≠ "" → unit ∈ unitsOf rows worker → workerOf rows unit = some worker →
      workerIn items = some worker) :
    Promise rows (rows.write (placementRow unit) items) := by
  intro consistent cid worker nonempty stands
  rw [unitsOf_write_other rows items (placementRow_ne_assignment _ _)] at stands
  by_cases same : toString cid = unit
  · subst same
    rw [workerOf_write_self]
    exact others worker nonempty stands (consistent cid worker nonempty stands)
  · rw [workerOf_write_other rows items (by simpa using fun h => same h.symm)]
    exact consistent cid worker nonempty stands

/-- A camera already placed on the worker goes into its list. -/
theorem assignAdd_settled (honest : Honest store) {cid : Int} {worker : String} {world : World ι M}
    (placed : workerOf world.vars (toString cid) = named worker) :
    Keeps store view i (fun _ => Settles (toString cid) (some worker)) Promise (fun _ _ => True)
      (Controller.assignAdd vms worker (toString cid)) world := by
  have stays : ∀ rows, Settles (toString cid) (some worker) world.vars rows → worker ≠ "" →
      workerOf rows (toString cid) = some worker := by
    intro rows settles nonempty
    obtain kept | came := settles.2.1
    · rw [kept, placed]
      exact named_eq_some.mpr ⟨rfl, nonempty⟩
    · exact came
  refine Keeps.cut (fun _ _ => True) (Keeps.write promise_refl honest (fun _ _ _ => Settles.trans)
    fun world' moved => ?_) fun written world' _ => Keeps.value fun _ _ => trivial
  refine Keeps.value_bind fun a read => ?_
  split
  next stands => exact ⟨moved, trivial⟩
  next missing =>
    refine ⟨moved, fun rows later matched => ⟨promise_list fun other stands => ?_, trivial⟩⟩
    obtain ⟨units, atomic⟩ := units_fromItems read
    have same : rows.read (vms.assignment worker) = world'.vars.read (vms.assignment worker) :=
      later.1.2.read_of_matches matched
    have atomic' : ∀ u ∈ Controller.withUnit a.units (toString cid), Atomic ',' u := by
      intro u member
      obtain old | rfl := mem_withUnit.mp member
      · exact atomic u old
      · exact atomic_toString cid
    rw [unitsIn_toItems atomic'] at stands
    obtain old | new := mem_withUnit.mp stands
    · left
      rw [units] at old
      simpa [unitsOf, same] using old
    · right
      rw [new]
      exact stays rows (moved.trans later)

/-- The workers that list a camera, other than the destination, are among `names`. -/
def OnlyIn (unit : String) (dest : Option String) (names : List String) (rows : Rows) : Prop :=
  ∀ other, other ≠ "" → unit ∈ unitsOf rows other → some other = dest ∨ other ∈ names

theorem OnlyIn.settles {unit : String} {dest : Option String} {names : List String} {rows rows' : Rows}
    (only : OnlyIn unit dest names rows) (settles : Settles unit dest rows rows') :
    OnlyIn unit dest names rows' := by
  intro other nonempty stands
  obtain stood | there := settles.2.2 other stands
  · exact only other nonempty stood
  · exact .inl there

/-- A camera leaves a list, and does not come back while it is settled elsewhere. -/
theorem assignRemove_settled (honest : Honest store) {unit worker : String} {dest : Option String}
    {names : List String} {world : World ι M} (only : OnlyIn unit dest names world.vars) :
    Keeps store view i (fun _ => Settles unit dest) Promise
      (fun _ rows => OnlyIn unit dest (names.filter (· ≠ worker)) rows)
      (Controller.assignRemove vms worker unit) world := by
  refine Keeps.cut (fun _ rows => OnlyIn unit dest (names.filter (· ≠ worker)) rows)
    (Keeps.write promise_refl honest (fun _ _ _ => Settles.trans) fun world' moved => ?_)
    fun written world' gone => Keeps.value fun _ _ => gone
  refine Keeps.value_bind fun a read => ?_
  obtain ⟨units, atomic⟩ := units_fromItems read
  split
  next missing =>
    refine ⟨moved, fun other nonempty stands => ?_⟩
    obtain there | member := only.settles moved other nonempty stands
    · exact .inl there
    · refine .inr (List.mem_filter.mpr ⟨member, ?_⟩)
      have differs : other ≠ worker := by
        rintro rfl
        exact missing (units ▸ stands)
      simpa using differs
  next =>
    refine ⟨moved, fun rows later matched => ?_⟩
    have same : rows.read (vms.assignment worker) = world'.vars.read (vms.assignment worker) :=
      later.1.2.read_of_matches matched
    have still : unitsOf rows worker = a.units := by rw [units, unitsOf, unitsOf, same]
    have left : unitsIn (stored (Assignment.toItems ⟨worker, a.units.filter (· ≠ unit), a.rev + 1⟩)) =
        a.units.filter (· ≠ unit) :=
      unitsIn_toItems fun u member => atomic u (List.mem_filter.mp member).1
    constructor
    · refine promise_list fun cid stands => .inl ?_
      rw [left] at stands
      rw [still]
      exact (List.mem_filter.mp stands).1
    · intro other nonempty stands
      by_cases same : other = worker
      · subst same
        rw [unitsOf_write_self, left] at stands
        simp at stands
      · rw [unitsOf_write_other rows _ (by simpa using fun h => same h.symm)] at stands
        obtain there | member := only.settles (moved.trans later) other nonempty stands
        · exact .inl there
        · exact .inr (List.mem_filter.mpr ⟨member, by simpa using same⟩)

/-- Reading all lists finds every list that has the camera. -/
theorem assignmentsRounds_settled (honest : Honest store) {unit : String} {dest : Option String}
    (paths : List Key) (out : Dict Assignment) {world : World ι M}
    (found : ∀ other, unit ∈ unitsOf world.vars other → some other = dest ∨ vms.assignment other ∈ paths ∨
      ∃ a, out.get? other = some a ∧ unit ∈ a.units) :
    Keeps store view i (fun _ => Settles unit dest) Promise
      (fun out rows => ∀ other, unit ∈ unitsOf rows other → some other = dest ∨
        ∃ a, out.get? other = some a ∧ unit ∈ a.units)
      (Controller.assignmentsRounds vms paths out) world := by
  induction paths generalizing out world with
  | nil =>
    intro other stands
    obtain there | member | seen := found other stands
    · exact .inl there
    · cases member
    · exact .inr seen
  | cons path rest ih =>
    unfold Controller.assignmentsRounds Controller.assignment
    simp only [bind_assoc]
    refine Keeps.get promise_refl honest fun world' moved => Keeps.value_bind fun a read => ih _ ?_
    intro other stands
    by_cases name : other = lastSegment path
    · -- the list that was just read
      subst name
      obtain ⟨units, -⟩ := units_fromItems read
      exact .inr (.inr ⟨a, by simp, units ▸ stands⟩)
    · rw [Dict.get?_set_other _ _ name]
      obtain stood | there := moved.2.2 other stands
      · obtain there | member | seen := found other stood
        · exact .inl there
        · obtain rfl | later := List.mem_cons.mp member
          · exact absurd rfl name
          · exact .inr (.inl later)
        · exact .inr (.inr seen)
      · exact .inl there

theorem unlistRounds_settled (honest : Honest store) {unit to_ : String} (listed : Dict Assignment)
    {world : World ι M}
    (only : OnlyIn unit (some to_) ((listed.filter fun entry => unit ∈ entry.2.units).map Prod.fst) world.vars) :
    Keeps store view i (fun _ => Settles unit (some to_)) Promise
      (fun _ rows => OnlyIn unit (some to_) [] rows) (unlistRounds unit to_ listed) world := by
  induction listed generalizing world with
  | nil => exact only
  | cons entry rest ih =>
    obtain ⟨worker, a⟩ := entry
    unfold unlistRounds
    split
    next listed =>
      refine Keeps.bind (assignRemove_settled honest only) fun _ world' gone => ih fun other nonempty stands => ?_
      obtain there | member := gone other nonempty stands
      · exact .inl there
      · obtain ⟨member, differs⟩ := List.mem_filter.mp member
        simp only [List.filter_cons, listed.1, decide_true, if_true, List.map_cons, List.mem_cons] at member
        obtain rfl | member := member
        · simp at differs
        · exact .inr member
    next kept =>
      refine ih fun other nonempty stands => ?_
      obtain there | member := only other nonempty stands
      · exact .inl there
      · by_cases has : unit ∈ a.units
        · simp only [List.filter_cons, has, decide_true, if_true, List.map_cons, List.mem_cons] at member
          obtain rfl | member := member
          · left
            by_contra differs
            exact kept ⟨has, fun same => differs (by rw [same])⟩
          · exact .inr member
        · right
          simpa [List.filter_cons, has] using member

/-! ## The calls -/

namespace ReadsOnly

theorem capacityOf (capacity : Int) (worker : String) :
    ReadsOnly (VmsController.capacityOf capacity worker : Program M _) := by
  refine bind (workersSeen _ _) fun seen => ?_
  split
  · exact value _
  · trivial

theorem load (worker : String) : ReadsOnly (VmsController.load worker : Program M _) :=
  bind (assignment _ _) fun _ => trivial

theorem free (capacity : Int) (worker : String) : ReadsOnly (VmsController.free capacity worker : Program M _) :=
  bind (capacityOf _ _) fun _ => bind (load _) fun _ => trivial

theorem candidates (workers : Option (List String)) :
    ReadsOnly (VmsController.candidates workers : Program M _) := by
  cases workers with
  | none => exact bind (workersSeen _ _) fun _ => trivial
  | some workers => trivial

theorem bestRounds (capacity : Int) (workers : List String) (best : Option String) (most : Int) :
    ReadsOnly (VmsController.bestRounds capacity workers best most : Program M _) := by
  induction workers generalizing best most with
  | nil => trivial
  | cons worker rest ih =>
    refine bind (free _ _) fun f => ?_
    split
    · exact ih _ _
    · exact ih _ _

theorem mostFreeRounds (capacity : Int) (workers : List String) (best : Option (String × Int)) :
    ReadsOnly (VmsController.mostFreeRounds capacity workers best : Program M _) := by
  induction workers generalizing best with
  | nil => trivial
  | cons worker rest ih =>
    refine bind (free _ _) fun f => ?_
    split
    · exact ih _
    · exact ih _

theorem placement (cid : Int) : ReadsOnly (VmsController.placement cid : Program M _) := by
  refine bind (get _) fun answer => ?_
  dsimp only
  split
  · exact map (value _)
  · trivial

theorem camerasRounds (paths : List Key) (out : List (Int × Dict Value)) :
    ReadsOnly (VmsController.camerasRounds paths out : Program M _) := by
  induction paths generalizing out with
  | nil => trivial
  | cons path rest ih =>
    refine bind (get _) fun answer => ?_
    dsimp only
    split
    · exact ih _
    · exact bind (value _) fun _ => bind (value _) fun _ => ih _

theorem cameras : ReadsOnly (VmsController.cameras : Program M _) :=
  bind (fun _ => trivial) fun _ => bind (camerasRounds _ _) fun _ => trivial

end ReadsOnly

theorem hasWorker_iff {items : Option Items} :
    hasWorker (rowValues items) = true ↔ (items.bind workerIn).isSome := by
  cases items with
  | none => simp [hasWorker, rowValues, Dict.getD, Dict.mapValues, Value.truthy]
  | some items =>
    cases there : items.get? "worker" with
    | none => simp [hasWorker, Dict.getD, there, Value.truthy, workerIn]
    | some text => simp [hasWorker, Dict.getD, there, Value.truthy, workerIn, named]

theorem workerOf_eq {rows : Rows} {unit : String} :
    workerOf rows unit = (rows.read (placementRow unit)).bind workerIn := rfl

/-- The placement that was read names the worker of the row. -/
theorem workerOf_placementOf {rows : Rows} {cid : Int} {pl : Placement}
    (read : placementOf cid (rowValues (rows.read (placementKey cid))) = .ok pl) :
    workerOf rows (toString cid) = named pl.worker.string := by
  simp only [placementOf, bind_eq_ok, Dict.item, get?_rowValues] at read
  obtain ⟨worker, found, _, _, _, _, _, _, _, _, _, _, ends⟩ := read
  cases ends
  cases there : rows.read (placementRow (toString cid)) with
  | none =>
    rw [show placementKey cid = placementRow (toString cid) from rfl, there] at found
    cases found
  | some items =>
    rw [show placementKey cid = placementRow (toString cid) from rfl, there] at found
    cases text : items.get? "worker" with
    | none => simp [text] at found
    | some text' =>
      simp only [Option.getD_some, text, Option.map_some, Except.ok.injEq] at found
      subst found
      rw [workerOf_eq, there, Option.bind_some, workerIn, text]
      rfl

theorem placement_new {cid : Int} {worker : String} {reason : Text} {at_ : ℚ} {rev : Int} {pl : Placement}
    (made : placementOf cid (placementItems (.plain worker) reason at_ rev) = .ok pl) :
    pl.worker = .plain worker := by
  simp only [placementOf, bind_eq_ok, Dict.item, placementItems, Dict.get?_cons] at made
  obtain ⟨_, found, _, _, _, _, _, _, _, _, _, _, ends⟩ := made
  cases ends
  cases found
  rfl

theorem place_careful (honest : Honest store) (capacity : Int) (cid : Int) (workers : Option (List String))
    (world : World ι M) :
    Careful store view i (fun _ _ => True) (place capacity cid workers) world := by
  unfold place
  refine Keeps.bind (Keeps.readsOnly promise_refl (ReadsOnly.placement cid)) fun have_ world _ => ?_
  cases have_ with
  | some have_ => trivial
  | none =>
    refine Keeps.bind (Keeps.readsOnly promise_refl (ReadsOnly.candidates workers)) fun names world _ => ?_
    refine Keeps.bind (Keeps.readsOnly promise_refl (ReadsOnly.bestRounds capacity _ _ _)) fun best world _ => ?_
    obtain ⟨best, most⟩ := best
    cases best with
    | none => trivial
    | some best =>
      refine Keeps.wall promise_refl fun now world _ => ?_
      refine Keeps.cut (fun written rows => ∀ pl, placementOf cid written = .ok pl →
          workerOf rows (toString cid) = named pl.worker.string)
        (Keeps.write promise_refl honest (fun _ _ _ => Moves.trans) fun world' moved => ?_)
        fun written world' placed => ?_
      · split
        next taken => exact ⟨moved, fun pl read => workerOf_placementOf read⟩
        next vacant =>
          refine Keeps.value_bind fun rev _ => ⟨moved, fun rows later matched => ⟨promise_row ?_, ?_⟩⟩
          · -- the row that is replaced names nobody, so no list has the camera
            intro worker _ _ names
            have same : rows.read (placementKey cid) = world'.vars.read (placementKey cid) :=
              later.2.read_of_matches matched
            rw [workerOf_eq, show placementRow (toString cid) = placementKey cid from rfl, same] at names
            exact absurd (hasWorker_iff.mpr (by rw [names]; rfl)) vacant
          · intro pl made
            rw [placement_new made, show placementKey cid = placementRow (toString cid) from rfl,
              workerOf_write_self, workerIn_placementItems]
            rfl
      · refine Keeps.value_bind fun pl read => ?_
        exact Keeps.bind (Keeps.within _ (assignAdd_settled honest (placed pl read))) fun _ _ _ => trivial

theorem ensurePlaced_careful (honest : Honest store) (capacity : Int) (workers : Option (List String))
    (world : World ι M) :
    Careful store view i (fun _ _ => True) (ensurePlaced capacity workers) world := by
  have rounds : ∀ (cams : List (Int × Dict Value)) out (world : World ι M),
      Careful store view i (fun _ _ => True) (ensureRounds capacity workers cams out) world := by
    intro cams
    induction cams with
    | nil => exact fun _ _ => trivial
    | cons cam rest ih =>
      intro out world
      refine Keeps.bind (place_careful honest capacity cam.1 workers world) fun pl world' _ => ?_
      cases pl with
      | some pl => exact ih _ world'
      | none => exact ih _ world'
  exact Keeps.bind (Keeps.readsOnly promise_refl ReadsOnly.cameras) fun cams world' _ => rounds cams [] world'

theorem move_careful (honest : Honest store) (cid : Int) (to_ reason : String) (world : World ι M) :
    Careful store view i (fun _ _ => True) (move cid to_ reason) world := by
  intro world moved
  refine ⟨promise_refl _, Keeps.within (.settled (toString cid) (some to_)) ?_⟩
  simp only [handler, honest.list_eq]
  have listed : ∀ other, toString cid ∈ unitsOf world.tick.vars other → some other = some to_ ∨
      vms.assignment other ∈ listing world.vars vms.workers ∨
      ∃ a, Dict.get? ([] : Dict Assignment) other = some a ∧ toString cid ∈ a.units := by
    intro other stands
    refine .inr (.inl (mem_listing.mpr ⟨?_, ?_, ?_⟩))
    · intro absent
      rw [unitsOf, show world.tick.vars = world.vars from rfl, absent] at stands
      cases stands
    · exact ⟨[other], rfl⟩
    · simp [Subsystem.assignment, Subsystem.workers]
  refine Keeps.bind (assignmentsRounds_settled honest _ _ listed) fun out world' found => ?_
  have only : OnlyIn (toString cid) (some to_)
      ((out.filter fun entry => toString cid ∈ entry.2.units).map Prod.fst) world'.vars := by
    intro other _ stands
    obtain there | ⟨a, seen, has⟩ := found other stands
    · exact .inl there
    · exact .inr (List.mem_map.mpr ⟨(other, a), List.mem_filter.mpr ⟨Dict.mem_of_get? seen, by simpa using has⟩, rfl⟩)
  refine Keeps.bind (unlistRounds_settled honest out only) fun _ world' only => ?_
  refine Keeps.cut (fun _ rows => workerOf rows (toString cid) = named to_)
    (Keeps.write promise_refl honest (fun _ _ _ => Settles.trans) fun world'' moved => ?_)
    fun new world'' placed => ?_
  · refine Keeps.wall promise_refl fun now later moved' => Keeps.value_bind fun rev _ => ?_
    refine ⟨moved.trans moved', fun rows after matched => ⟨promise_row fun worker nonempty stands _ => ?_, ?_⟩⟩
    · obtain same | member := (only.settles ((moved.trans moved').trans after)) worker nonempty stands
      · cases same
        rw [workerIn_placementItems]
        exact named_eq_some.mpr ⟨rfl, nonempty⟩
      · cases member
    · rw [show placementKey cid = placementRow (toString cid) from rfl, workerOf_write_self,
        workerIn_placementItems]
  · exact Keeps.bind (assignAdd_settled honest placed) fun _ _ _ => Keeps.value fun _ _ => trivial

theorem retention_careful (honest : Honest store) (cid : Int) (days : Option Int) (world : World ι M) :
    Careful store view i (fun _ _ => True) (retention cid days) world := by
  refine Keeps.bind (write_aside honest (aside_retention cid) (fun items => ?_) world) fun _ _ _ => trivial
  cases days with
  | none => trivial
  | some days => trivial

theorem deleteCamera_careful (honest : Honest store) (cid : Int) (world : World ι M) :
    Careful store view i (fun _ _ => True) (deleteCamera cid) world := by
  refine Keeps.bind (write_aside honest (aside_cameras _) (fun items => ReadsOnly.ret _) world) fun _ world _ => ?_
  refine Keeps.bind (retention_careful honest cid none world) fun _ world _ => ?_
  unfold placement
  simp only [bind_assoc]
  refine Keeps.get promise_refl honest fun world' moved => ?_
  dsimp only
  split
  next placed =>
    simp only [map_eq_pure_bind, bind_assoc, pure_bind]
    refine Keeps.value_bind fun pl read => ?_
    have only : OnlyIn (toString cid) none [pl.worker.string] world'.vars := by
      intro other nonempty stands
      have names := moved.1 cid other nonempty stands
      rw [workerOf_placementOf read, named_eq_some] at names
      simp [names.1]
    refine Keeps.within (.settled (toString cid) none) ?_
    refine Keeps.bind (assignRemove_settled honest only) fun _ world'' gone => ?_
    refine Keeps.cut (fun _ _ => True)
      (Keeps.write promise_refl honest (fun _ _ _ => Settles.trans) fun world'' moved => ?_) fun _ _ _ => trivial
    refine Keeps.wall promise_refl fun now later moved' => Keeps.value_bind fun rev _ => ?_
    refine ⟨moved.trans moved', fun rows after matched => ⟨promise_row fun worker nonempty stands _ => ?_, trivial⟩⟩
    obtain same | member := (gone.settles ((moved.trans moved').trans after)) worker nonempty stands
    · cases same
    · simp at member
  next => trivial

theorem nextId_careful (honest : Honest store) (world : World ι M) :
    Careful store view i (fun _ _ => True) (nextId : Program M Int) world := by
  refine Keeps.bind (write_aside honest aside_nextId (fun items => ?_) world) fun _ _ _ =>
    Keeps.value fun _ _ => trivial
  exact ReadsOnly.bind (ReadsOnly.value _) fun _ => trivial

theorem createCamera_careful (honest : Honest store) (fields : Dict Value) (world : World ι M) :
    Careful store view i (fun _ _ => True) (createCamera fields) world := by
  unfold createCamera
  refine Keeps.bind (Keeps.readsOnly promise_refl (ReadsOnly.ofExcept _)) fun _ world _ => ?_
  dsimp only
  split
  · trivial
  · refine Keeps.bind (nextId_careful honest world) fun cid world _ => Keeps.value_bind fun r _ => ?_
    refine Keeps.value_bind fun texts _ => ?_
    refine Keeps.put promise_refl honest (fun rows _ _ => promise_aside (aside_cameras _) rows _) fun world _ => ?_
    refine Keeps.value_bind fun days _ => ?_
    exact Keeps.bind (retention_careful honest cid _ world) fun _ _ _ => trivial

theorem redistributeUnits_careful (honest : Honest store) (capacity : Int) (gone : String) (live units : List String)
    (moves : List Moved) (world : World ι M) :
    Careful store view i (fun _ _ => True) (redistributeUnits capacity gone live units moves) world := by
  induction units generalizing moves world with
  | nil => trivial
  | cons unit rest ih =>
    refine Keeps.value_bind fun cid _ => ?_
    refine Keeps.bind (Keeps.readsOnly promise_refl (ReadsOnly.mostFreeRounds capacity live none)) fun best world _ =>
        ?_
    cases best with
    | none => trivial
    | some best =>
      refine Keeps.bind (Keeps.readsOnly promise_refl (ReadsOnly.load best)) fun carried world _ => ?_
      refine Keeps.bind (Keeps.readsOnly promise_refl (ReadsOnly.capacityOf capacity best)) fun carries world _ => ?_
      split
      · trivial
      · refine Keeps.bind (Keeps.readsOnly promise_refl (ReadsOnly.free capacity best)) fun left world _ => ?_
        exact Keeps.bind (move_careful honest cid best _ world) fun _ world _ => ih _ world

theorem redistribute_careful (honest : Honest store) (capacity : Int) (workers : Option (List String))
    (world : World ι M) :
    Careful store view i (fun _ _ => True) (redistribute capacity workers) world := by
  have rounds : ∀ (released : List String) moves (world : World ι M),
      Careful store view i (fun _ _ => True) (redistributeRounds capacity workers released moves) world := by
    intro released
    induction released with
    | nil => exact fun _ _ => trivial
    | cons gone rest ih =>
      intro moves world
      refine Keeps.bind (Keeps.readsOnly promise_refl (ReadsOnly.candidates workers)) fun names world _ => ?_
      refine Keeps.bind (Keeps.readsOnly promise_refl (ReadsOnly.assignment vms gone)) fun a world _ => ?_
      refine Keeps.value_bind fun units _ => ?_
      exact Keeps.bind (redistributeUnits_careful honest capacity gone _ units moves world) fun moves world _ =>
        ih moves world
  exact Keeps.bind (Keeps.readsOnly promise_refl (ReadsOnly.releasedSlots vms)) fun released world _ =>
    rounds released [] world

/-- What is asked of a controller. -/
inductive Call where
  | create (fields : Dict Value)
  | place (cid : Int) (workers : Option (List String))
  | ensurePlaced (workers : Option (List String))
  | move (cid : Int) (to_ reason : String)
  | redistribute (workers : Option (List String))
  | delete (cid : Int)

/-- A call, without its result. -/
def Call.program (capacity : Int) : Call → Program M Unit
  | .create fields => do let _ ← createCamera fields; return ()
  | .place cid workers => do let _ ← VmsController.place capacity cid workers; return ()
  | .ensurePlaced workers => do let _ ← VmsController.ensurePlaced capacity workers; return ()
  | .move cid to_ reason => do let _ ← VmsController.move cid to_ reason; return ()
  | .redistribute workers => do let _ ← VmsController.redistribute capacity workers; return ()
  | .delete cid => deleteCamera cid

/-- One call after the other; an exception ends its own call only. -/
def Call.all (capacity : Int) : List Call → Program M Unit
  | [] => return ()
  | call :: rest => do
    tryCatch (call.program capacity) fun _ => return ()
    Call.all capacity rest

theorem call_careful (honest : Honest store) (capacity : Int) (call : Call) (world : World ι M) :
    Careful store view i (fun _ _ => True) (call.program capacity) world := by
  cases call with
  | create fields => exact Keeps.bind (createCamera_careful honest fields world) fun _ _ _ => trivial
  | place cid workers => exact Keeps.bind (place_careful honest capacity cid workers world) fun _ _ _ => trivial
  | ensurePlaced workers =>
    exact Keeps.bind (ensurePlaced_careful honest capacity workers world) fun _ _ _ => trivial
  | move cid to_ reason => exact Keeps.bind (move_careful honest cid to_ reason world) fun _ _ _ => trivial
  | redistribute workers =>
    exact Keeps.bind (redistribute_careful honest capacity workers world) fun _ _ _ => trivial
  | delete cid => exact deleteCamera_careful honest cid world

theorem calls_careful (honest : Honest store) (capacity : Int) (calls : List Call) (world : World ι M) :
    Careful store view i (fun _ _ => True) (Call.all capacity calls) world := by
  induction calls generalizing world with
  | nil => trivial
  | cons call rest ih =>
    exact Keeps.bind (Keeps.caught (call_careful honest capacity call world)) fun _ world _ => ih world

end EdgeVms.Verified
