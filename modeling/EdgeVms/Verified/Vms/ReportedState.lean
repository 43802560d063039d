import EdgeVms.Verified.Vms.Deaths
import EdgeVms.Verified.Vms.Moves

/-! # What is reported as running

The reconciler's `actual` is what the heartbeat reports, and the actuator's
pipelines are what runs.  Two things set them apart: a restart that fails, since
it lets go of the old pipeline first, and a death that is drained and not
handled.
-/

namespace EdgeVms.Verified

open Process Python Platform Vms

/-- What is taken to run is what runs. -/
def Agree (me : VmsWorker) : Prop := ∀ cid, cid ∈ me.pipelines ↔ me.reconciler.actual.has cid = true

/-- Every restart that is asked for succeeds. -/
def Restarts (answers : Surroundings VmsWorker) : Prop := ∀ n row, answers n (.actuator "restart" row) = .ok true

variable {answers : Surroundings VmsWorker} {me : VmsWorker}

def Core.Agrees (core : Core) : Prop := ∀ cid, cid ∈ core.pipelines ↔ core.actual.has cid = true

theorem fenced_agrees : Core.fenced.Agrees := by
  intro cid
  show cid ∈ ([] : List Int) ↔ Table.has ([] : Table Int) cid = true
  simp [Table.has, Table.get?]

theorem move_agrees {core core' : Core} (agrees : core.Agrees) (move : Core.Move False core core') : core'.Agrees := by
  intro cid'
  cases move with
  | @starts cid revision allowed =>
    show cid' ∈ core.pipelines.filter (· ≠ cid) ++ [cid] ↔ (core.actual.set cid revision).has cid' = true
    rw [Table.has_set]
    by_cases same : cid = cid'
    · simp [same]
    · simp [same, Ne.symm same, agrees cid']
  | breaks fails => exact fails.elim
  | @stops cid =>
    show cid' ∈ core.pipelines.filter (· ≠ cid) ↔ (core.actual.pop cid).has cid' = true
    rw [Table.has_pop]
    by_cases same : cid = cid'
    · simp [same]
    · simp [same, Ne.symm same, agrees cid']
  | fences => exact fenced_agrees cid'

theorem moves_agree {core core' : Core} (moves : Core.Moves False core core') (agrees : core.Agrees) :
    core'.Agrees := by
  induction moves with
  | refl => exact agrees
  | tail _ move ih => exact move_agrees ih move

/-- A pump, where each death of a camera that is taken to run is handled. -/
theorem pumpOnce_agrees (deaths : ∀ cid ∈ (answers 0 .bus).1, me.reconciler.actual.has cid = true →
    cid ∈ handled answers (recorderOf me) 2 (answers 0 .bus)) (agrees : Agree me) :
    Agree (VmsWorker.pumpOnce.run (within answers) (me, 0)).2.1 := by
  obtain ⟨losses, handled_eq, reconciler, pipelines, -⟩ := @run_pumpOnce answers me 0
  intro cid
  rw [reconciler, pipelines, has_losses, handled_eq, List.mem_filter, decide_eq_true_iff, agrees cid]
  constructor
  · rintro ⟨taken, alive⟩
    exact ⟨fun member => alive (handled_subset _ _ _ member), taken⟩
  · rintro ⟨unhandled, taken⟩
    exact ⟨taken, fun dead => unhandled (deaths cid dead taken)⟩

/-! ## Every run -/

/-- What sets the two apart does not happen in the pass: every restart that is asked for succeeds, and each
drained death of a camera that is taken to run is handled. -/
def Faithful (me : VmsWorker) (event : Surroundings VmsWorker × Pass) : Prop :=
  match event.2 with
  | .reconcile => Restarts event.1
  | .pump => ∀ cid ∈ (event.1 0 .bus).1, me.reconciler.actual.has cid = true →
      cid ∈ handled event.1 (recorderOf me) 2 (event.1 0 .bus)
  | .lease | .fence _ => True

theorem pass_agrees (me : VmsWorker) (event : Surroundings VmsWorker × Pass) (faithful : Faithful me event)
    (agrees : Agree me) : Agree (pass me event) := by
  obtain ⟨answers, kind⟩ := event
  cases kind with
  | reconcile =>
    have moves : Moving answers (RestartFails answers) (Pass.program .reconcile) me :=
      Moving.sequel (reconcileOnce_moves me) fun _ _ => Moving.ret _
    have never : RestartFails answers = False := by
      rw [eq_iff_iff, iff_false]
      rintro ⟨n, row, fails⟩
      exact fails (faithful n row)
    rw [never] at moves
    exact moves_agree (moves 0) agrees
  | lease =>
    have moves : Moving answers False (Pass.program .lease) me :=
      Moving.sequel (leasePass_moves me) fun _ _ => Moving.ret _
    exact moves_agree (moves 0) agrees
  | pump => exact pumpOnce_agrees faithful agrees
  | fence why => exact moves_agree (fence_moves why me 0) agrees

/-- In every run of such passes, from the worker's start on, what is reported is what runs. -/
theorem reported_is_real (base : Worker) (archiveRoot : String) (startedAt : ℚ)
    (passes : List (Surroundings VmsWorker × Pass))
    (along : Along pass Faithful passes (.new base archiveRoot startedAt)) :
    Agree (passes.foldl pass (.new base archiveRoot startedAt)) := by
  apply Along.keeps pass_agrees along
  exact fenced_agrees

/-! ## Camera 7 at two revisions -/

/-- The worker that has just become `w-1`. -/
def freshWorker : Worker := { Worker.new "a" with name := some "w-1", slot := some ⟨"w-1", "a", .finite 45, false, 1⟩ }

/-- Camera 7 is assigned to `w-1`. -/
def storedSeven (revision : String) (key : Key) : Option Items :=
  if key = ["vms", "workers", "w-1"] then some [("units", .plain "7"), ("rev", .plain "1")]
  else if key = ["vms", "cameras", "7"] then
    some [("id", .plain "7"), ("source", .plain "driverpack://file/gate"), ("enabled", .plain "true"),
      ("revision", .plain revision)]
  else none

theorem reported_is_real_seven :
    Agree ([(standing (storedSeven "1") quietOutside, .reconcile),
      (standing (storedSeven "2") quietOutside, .reconcile),
      (standing (storedSeven "2") { quietOutside with bus := ([7], []) }, Pass.pump)].foldl pass
      (.new freshWorker "/data/archive" 0)) := by
  apply reported_is_real
  apply Along.cons (fun _ _ => rfl)
  apply Along.cons (fun _ _ => rfl)
  refine Along.cons ?_ .nil
  show ∀ cid ∈ [7], _
  decide +kernel

/-- An actuator that cannot restart. -/
def restartFails : Outside := { quietOutside with actuator := fun verb _ => .ok (verb ≠ "restart") }

theorem failed_restart_misreported : ¬ ∀ (base : Worker) (archiveRoot : String) (startedAt : ℚ)
    (passes : List (Surroundings VmsWorker × Pass)), Agree (passes.foldl pass (.new base archiveRoot startedAt)) := by
  intro claim
  have taken : ([(standing (storedSeven "1") restartFails, Pass.reconcile),
      (standing (storedSeven "2") restartFails, Pass.reconcile)].foldl pass
      (.new freshWorker "/data/archive" 0)).reconciler.actual.has 7 = true := by decide +kernel
  have runs := (claim freshWorker "/data/archive" 0 _ 7).mpr taken
  have stopped : 7 ∉ ([(standing (storedSeven "1") restartFails, Pass.reconcile),
      (standing (storedSeven "2") restartFails, Pass.reconcile)].foldl pass
      (.new freshWorker "/data/archive" 0)).pipelines := by decide +kernel
  exact stopped runs

end EdgeVms.Verified
