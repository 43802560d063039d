import EdgeVms.Verified.Vms.EnsurePlaced
import Mathlib.Algebra.BigOperators.Group.Finset.Basic
import Mathlib.Algebra.Order.BigOperators.Group.Finset

/-! # Crashes and the run that heals them

A history is a sequence of calls, each cut off after some number of requests.
Every history leaves the rows `Consistent`, so `ensure_placed` finds each camera
in one of three situations: placed and listed, not placed at all, or placed by a
row whose list write never came.  It heals the second and leaves the third.
-/

namespace EdgeVms.Verified

open Process Python Platform Vms VmsController

variable {ι M : Type} [DecidableEq ι] {view : View} {i : ι} {world world' : World ι M}

/-- The placement row names a worker, whose list has the camera, and no other list has it. -/
def PlacedOnce (rows : Rows) (unit : String) : Prop :=
  ∃ worker, workerOf rows unit = some worker ∧ unit ∈ unitsOf rows worker ∧
    ∀ other, unit ∈ unitsOf rows other → other = worker

/-- Every camera that is not deleted is placed once. -/
def Healed (rows : Rows) : Prop := ∀ cid ∈ cameraIds rows, PlacedOnce rows (toString cid)

/-- Placed once, or not at all. -/
def Tidy (rows : Rows) (unit : String) : Prop :=
  PlacedOnce rows unit ∨ (workerOf rows unit = none ∧ ∀ other, unit ∉ unitsOf rows other)

/-- How many cameras the workers could still take. -/
def spare (carries : String → Int) (live : List String) (rows : Rows) : Nat :=
  ∑ name ∈ live.toFinset, (room carries rows name).toNat

/-- How many of the cameras have no worker. -/
def unplaced (rows : Rows) (ids : List Int) : Nat :=
  (ids.filter fun cid => workerOf rows (toString cid) = none).length

namespace PlacedOn

variable {rows rows' : Rows} {unit best : String}

theorem lists (placed : PlacedOn rows rows' unit best) {other : String} (differs : other ≠ unit) (name : String) :
    other ∈ unitsOf rows' name ↔ other ∈ unitsOf rows name := by
  by_cases same : name = best
  · subst same
    exact placed.other_units other differs
  · rw [placed.other_lists name same]

theorem tidy (placed : PlacedOn rows rows' unit best) (named' : best ≠ "") (vacant : workerOf rows unit = none)
    {other : String} (before : Tidy rows other) : Tidy rows' other := by
  by_cases same : other = unit
  · subst same
    obtain ⟨worker, row, -⟩ | ⟨-, unlisted⟩ := before
    · rw [vacant] at row
      cases row
    · refine .inl ⟨best, ?_, placed.stands, fun name stands => ?_⟩
      · rw [placed.worker]
        exact named_eq_some.mpr ⟨rfl, named'⟩
      · by_contra differs
        rw [placed.other_lists name differs] at stands
        exact unlisted name stands
  · obtain ⟨worker, row, stands, only⟩ | ⟨none, unlisted⟩ := before
    · refine .inl ⟨worker, ?_, (placed.lists same worker).mpr stands, fun name also => ?_⟩
      · rw [placed.other_workers other same, row]
      · exact only name ((placed.lists same name).mp also)
    · refine .inr ⟨?_, fun name also => unlisted name ((placed.lists same name).mp also)⟩
      rw [placed.other_workers other same, none]

/-- One placement takes room for one camera. -/
theorem spare_le {carries : String → Int} {live : List String} (placed : PlacedOn rows rows' unit best)
    (member : best ∈ live) : spare carries live rows ≤ spare carries live rows' + 1 := by
  have mem : best ∈ live.toFinset := List.mem_toFinset.mpr member
  have others : ∑ name ∈ live.toFinset.erase best, (room carries rows' name).toNat =
      ∑ name ∈ live.toFinset.erase best, (room carries rows name).toNat := by
    refine Finset.sum_congr rfl fun name inside => ?_
    rw [room, room, placed.other_lists name (Finset.ne_of_mem_erase inside)]
  have own : (room carries rows best).toNat ≤ (room carries rows' best).toNat + 1 := by
    have length := placed.length
    simp only [room]
    omega
  unfold spare
  rw [← Finset.add_sum_erase _ _ mem, ← Finset.add_sum_erase _ (fun name => (room carries rows' name).toNat) mem,
    others]
  omega

end PlacedOn

theorem spare_eq_zero {carries : String → Int} {live : List String} {rows : Rows}
    (full : ∀ name ∈ live, room carries rows name ≤ 0) : spare carries live rows = 0 := by
  refine Finset.sum_eq_zero fun name member => ?_
  have least := full name (List.mem_toFinset.mp member)
  omega

theorem unplaced_cons {rows : Rows} {cid : Int} {rest : List Int} :
    unplaced rows (cid :: rest) = (if workerOf rows (toString cid) = none then 1 else 0) + unplaced rows rest := by
  unfold unplaced
  by_cases vacant : workerOf rows (toString cid) = none
  · rw [List.filter_cons_of_pos (by simpa using vacant), if_pos vacant, List.length_cons]
    omega
  · rw [List.filter_cons_of_neg (by simpa using vacant), if_neg vacant]
    omega

/-- Fewer cameras are without a worker in rows that keep every worker that was named. -/
theorem unplaced_mono {rows rows' : Rows} (ids : List Int)
    (kept : ∀ unit, workerOf rows unit ≠ none → workerOf rows' unit ≠ none) :
    unplaced rows' ids ≤ unplaced rows ids := by
  induction ids with
  | nil => exact Nat.le_refl _
  | cons cid rest ih =>
    rw [unplaced_cons, unplaced_cons]
    by_cases vacant : workerOf rows (toString cid) = none
    · rw [if_pos vacant]
      split <;> omega
    · rw [if_neg vacant, if_neg (kept _ vacant)]
      omega

/-- What a run of `ensure_placed` leaves as it was. -/
structure Keep (rows rows' : Rows) : Prop where
  workers : ∀ unit worker, workerOf rows unit = some worker → workerOf rows' unit = some worker
  lists : ∀ unit worker, workerOf rows unit = some worker →
    ∀ name, unit ∈ unitsOf rows' name ↔ unit ∈ unitsOf rows name
  tidy : ∀ unit, Tidy rows unit → Tidy rows' unit
  nameless : unitsOf rows' "" = unitsOf rows ""
  cameras : cameraIds rows' = cameraIds rows

theorem Keep.refl (rows : Rows) : Keep rows rows :=
  ⟨fun _ _ row => row, fun _ _ _ _ => Iff.rfl, fun _ tidy => tidy, rfl, rfl⟩

theorem Keep.trans {rows rows' rows'' : Rows} (first : Keep rows rows') (second : Keep rows' rows'') :
    Keep rows rows'' where
  workers unit worker row := second.workers unit worker (first.workers unit worker row)
  lists unit worker row name :=
    (second.lists unit worker (first.workers unit worker row) name).trans (first.lists unit worker row name)
  tidy unit before := second.tidy unit (first.tidy unit before)
  nameless := second.nameless.trans first.nameless
  cameras := second.cameras.trans first.cameras

theorem Keep.workers_ne_none {rows rows' : Rows} (keep : Keep rows rows') {unit : String}
    (there : workerOf rows unit ≠ none) : workerOf rows' unit ≠ none := by
  cases row : workerOf rows unit with
  | none => exact absurd row there
  | some worker =>
    rw [keep.workers unit worker row]
    simp

theorem PlacedOn.keep {rows rows' : Rows} {unit best : String} (placed : PlacedOn rows rows' unit best)
    (named' : best ≠ "") (vacant : workerOf rows unit = none) : Keep rows rows' := by
  have differs : ∀ other worker, workerOf rows other = some worker → other ≠ unit := by
    rintro other worker row rfl
    rw [vacant] at row
    cases row
  constructor
  · intro other worker row
    rw [placed.other_workers other (differs other worker row), row]
  · exact fun other worker row name => placed.lists (differs other worker row) name
  · exact fun other before => placed.tidy named' vacant before
  · exact placed.other_lists "" named'.symm
  · exact placed.cameras

theorem ensureRounds_ends {capacity : Int} {workers : Option (List String)} {live : List String}
    {carries : String → Int} {cams : List (Int × Dict Value)} {out result : List Placement}
    (nameless : "" ∉ live) (steady : Steady view i capacity workers world live carries)
    (enough : unplaced world.vars (cams.map Prod.fst) ≤ spare carries live world.vars)
    (ends : Ends view i (ensureRounds capacity workers cams out) world result world') :
    Keep world.vars world'.vars ∧ ∀ cid ∈ cams.map Prod.fst, workerOf world'.vars (toString cid) ≠ none := by
  induction cams generalizing out world with
  | nil =>
    obtain ⟨-, rfl⟩ := Ends.ret_inv ends
    exact ⟨Keep.refl _, by simp⟩
  | cons cam rest ih =>
    obtain ⟨cid, r⟩ := cam
    obtain ⟨pl, middle, placed, afterPlace⟩ := Ends.bind_inv ends
    obtain ⟨outside, served, outcome⟩ := place_ends steady placed
    have later : ∃ out', Ends view i (ensureRounds capacity workers rest out') middle result world' := by
      cases pl with
      | some pl => exact ⟨_, afterPlace⟩
      | none => exact ⟨_, afterPlace⟩
    obtain ⟨out', later⟩ := later
    rw [List.map_cons, unplaced_cons] at enough
    -- the head has a worker after `place`, and the rest still fits
    have step : Keep world.vars middle.vars ∧ workerOf middle.vars (toString cid) ≠ none ∧
        unplaced middle.vars (rest.map Prod.fst) ≤ spare carries live middle.vars := by
      obtain ⟨⟨worker, row⟩, same⟩ | ⟨vacant, same, full⟩ | ⟨vacant, best, member, positive, placed⟩ := outcome
      · rw [same]
        refine ⟨Keep.refl _, by rw [row]; simp, by omega⟩
      · rw [if_pos vacant, spare_eq_zero full] at enough
        omega
      · have named' : best ≠ "" := fun empty => nameless (empty ▸ member)
        have keep := placed.keep named' vacant
        have fewer := unplaced_mono (rest.map Prod.fst) fun unit => keep.workers_ne_none
        have less : spare carries live world.vars ≤ spare carries live middle.vars + 1 := placed.spare_le member
        rw [if_pos vacant] at enough
        refine ⟨keep, ?_, by omega⟩
        rw [placed.worker, named_eq_some.mpr ⟨rfl, named'⟩]
        simp
    obtain ⟨keep, row, enough'⟩ := step
    obtain ⟨keep', rows⟩ := ih (steady.later outside served) enough' later
    refine ⟨keep.trans keep', fun id member => ?_⟩
    obtain rfl | member := List.mem_cons.mp member
    · exact keep'.workers_ne_none row
    · exact rows id member

/-- What a crash may have left behind, and `ensure_placed` does not see: a camera whose placement row
names a worker that does not list it, or that stands in the list of the worker without a name. -/
def HalfPlaced (rows : Rows) (unit : String) : Prop :=
  unit ∈ unitsOf rows "" ∨ ∃ worker ∈ workerOf rows unit, unit ∉ unitsOf rows worker

instance (rows : Rows) (unit : String) : Decidable (HalfPlaced rows unit) :=
  inferInstanceAs (Decidable (_ ∨ _))

theorem tidy_of_not_halfPlaced {rows : Rows} (consistent : Consistent rows) {cid : Int}
    (whole : ¬ HalfPlaced rows (toString cid)) : Tidy rows (toString cid) := by
  have nonempty : ∀ name, toString cid ∈ unitsOf rows name → name ≠ "" := by
    rintro name stands rfl
    exact whole (.inl stands)
  cases row : workerOf rows (toString cid) with
  | none =>
    refine .inr ⟨row, fun other stands => ?_⟩
    rw [consistent cid other (nonempty other stands) stands] at row
    cases row
  | some worker =>
    have stands : toString cid ∈ unitsOf rows worker := by
      by_contra missing
      exact whole (.inr ⟨worker, row, missing⟩)
    refine .inl ⟨worker, row, stands, fun other also => ?_⟩
    have same := consistent cid other (nonempty other also) also
    rw [row] at same
    exact (Option.some.inj same).symm

theorem ensurePlaced_ends {capacity : Int} {workers : Option (List String)} {live : List String}
    {carries : String → Int} {result : List Placement} (nameless : "" ∉ live)
    (steady : Steady view i capacity workers world live carries)
    (enough : unplaced world.vars (cameraIds world.vars) ≤ spare carries live world.vars)
    (ends : Ends view i (ensurePlaced capacity workers) world result world') :
    Keep world.vars world'.vars ∧ ∀ cid ∈ cameraIds world.vars, workerOf world'.vars (toString cid) ≠ none := by
  obtain ⟨cams, middle, found, rounds⟩ := Ends.bind_inv ends
  obtain ⟨waits, ids⟩ := cameras_ends found
  have same : unplaced middle.vars (cams.map Prod.fst) = unplaced world.vars (cameraIds world.vars) := by
    rw [waits.1]
    exact (ids.filter _).length_eq
  obtain ⟨keep, rows⟩ := ensureRounds_ends nameless (steady.later waits.2.1 waits.2.2)
    (by rw [same, waits.1]; exact enough) rounds
  rw [waits.1] at keep
  exact ⟨keep, fun cid member => rows cid (ids.mem_iff.mpr member)⟩

theorem healed_iff {capacity : Int} {workers : Option (List String)} {live : List String}
    {carries : String → Int} {result : List Placement} (consistent : Consistent world.vars)
    (nameless : "" ∉ live) (steady : Steady view i capacity workers world live carries)
    (enough : unplaced world.vars (cameraIds world.vars) ≤ spare carries live world.vars)
    (ends : Ends view i (ensurePlaced capacity workers) world result world') :
    Healed world'.vars ↔ ∀ cid ∈ cameraIds world.vars, ¬ HalfPlaced world.vars (toString cid) := by
  obtain ⟨keep, rows⟩ := ensurePlaced_ends nameless steady enough ends
  unfold Healed
  rw [keep.cameras]
  constructor
  · intro healed cid member half
    obtain ⟨worker, row, stands, only⟩ := healed cid member
    obtain listed | ⟨name, named', missing⟩ := half
    · have also : toString cid ∈ unitsOf world'.vars "" := by rwa [keep.nameless]
      rw [← only "" also] at row
      exact workerOf_ne_empty _ _ row
    · have kept := keep.workers _ name named'
      rw [row] at kept
      cases kept
      exact missing ((keep.lists _ worker named' worker).mp stands)
  · intro whole cid member
    obtain placed | ⟨vacant, -⟩ := keep.tidy _ (tidy_of_not_halfPlaced consistent (whole cid member))
    · exact placed
    · exact absurd vacant (rows cid member)

/-! ## Histories of calls that crash -/

/-- A call of some controller, which dies after so many requests. -/
structure Episode where
  capacity : Int
  call : Call
  requests : Nat

def history (view : View) (i : ι) : List Episode → World ι M → World ι M
  | [], world => world
  | episode :: rest, world =>
    history view i rest (Proc.after (handler FileVariables view i) episode.requests
      (episode.call.program episode.capacity, world)).2

theorem history_consistent (episodes : List Episode) (consistent : Consistent world.vars) :
    Consistent (history view i episodes world).vars := by
  induction episodes generalizing world with
  | nil => exact consistent
  | cons episode rest ih =>
    have careful : Careful FileVariables view i (fun _ _ => True) (episode.call.program episode.capacity) world :=
      call_careful FileVariables.honest episode.capacity episode.call world
    refine ih ?_
    refine Safe.after_keeps (fun world : World ι M => Consistent world.vars) ?still ?keeps episode.requests
      careful consistent
    case still => exact fun phase _ holds => overlapRely_refl phase holds
    case keeps => exact fun _ _ promise => promise

theorem empty_consistent : Consistent (Versioned.empty 1000) := by
  intro cid worker _ stands
  cases stands

theorem workersSeen_quiet {maxAge : ℚ} {seen : Dict Heartbeat} (quiet : world.outside = fun _ => quietOutside)
    (ends : Ends view i (Controller.workersSeen vms maxAge) world seen world') : seen = [] := by
  obtain ⟨now, _, clock, ends⟩ := Ends.bind_inv ends
  cases clock
  obtain ⟨names, _, listed, ends⟩ := Ends.bind_inv ends
  cases listed
  have nobody : world.tick.now.heartbeats vms.name = [] := by
    rw [World.now, World.tick_outside, quiet]
    rfl
  rw [nobody] at ends
  exact (Ends.ret_inv ends).1

/-- Nobody reports a capacity, and the workers are given. -/
theorem steady_quiet {capacity : Int} {live : List String} (quiet : world.outside = fun _ => quietOutside) :
    Steady view i capacity (some live) world live fun _ => capacity := by
  constructor
  · intro now now' names _ _ ends
    exact (Ends.ret_inv ends).1
  · intro now now' worker n _ outside _ ends
    obtain ⟨seen, _, looked, ends⟩ := Ends.bind_inv ends
    rw [workersSeen_quiet (outside.trans quiet) looked] at ends
    exact (Ends.ret_inv ends).1

theorem ends_of_isOk {α : Type} (view : View) (i : ι) (p : Program M α) (world : World ι M)
    (returns : (p.run (handler FileVariables view i) world).1.toBool = true) :
    ∃ value, Ends view i p world value (p.run (handler FileVariables view i) world).2 := by
  unfold Ends
  cases outcome : p.run (handler FileVariables view i) world with
  | mk result world' =>
    cases result with
    | error error => simp [outcome, Except.toBool] at returns
    | ok value => exact ⟨value, rfl⟩

theorem handler_outside (request : Request M) (world : World ι M) :
    (handler FileVariables view i request world).2.outside = world.outside := by
  cases request <;> rfl

theorem after_outside {α : Type} (requests : Nat) (p : Program M α) (world : World ι M) :
    (Proc.after (handler FileVariables view i) requests (p, world)).2.outside = world.outside := by
  induction requests generalizing p world with
  | zero => rfl
  | succ requests ih =>
    cases p with
    | ret value | raise error => exact ih _ world
    | call label request next => exact (ih _ _).trans (handler_outside request world)

theorem history_outside (episodes : List Episode) (world : World ι M) :
    (history view i episodes world).outside = world.outside := by
  induction episodes generalizing world with
  | nil => rfl
  | cons episode rest ih => exact (ih _).trans (after_outside _ _ world)

def newCamera : Dict Value := [("source", .str (.plain "driverpack://file/gate"))]

/-- A camera is created; placing it crashes after so many requests. -/
def crashedPlace (requests : Nat) : List Episode :=
  [⟨50, .create newCamera, 100⟩, ⟨50, .place 1 (some ["w-1"]), requests⟩]

def crashed (episodes : List Episode) : World Unit Unit := history {} () episodes (freshWorld Unit)

def ensured (episodes : List Episode) : World Unit Unit :=
  ((ensurePlaced 50 (some ["w-1"])).run (handler FileVariables {} ()) (crashed episodes)).2

end EdgeVms.Verified
