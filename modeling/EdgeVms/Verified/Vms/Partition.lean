import EdgeVms.Verified.Vms.ReportedState

/-! # A worker cut off from its store

Whatever a lease pass asks of an unreachable store raises, and nothing catches
it: the pass ends before it has looked at a single lease.  A pipeline ends when
it dies by itself.
-/

namespace EdgeVms.Verified

open Process Python Platform Vms

/-- Every operation of the store raises. -/
structure Unreachable (answers : Surroundings VmsWorker) : Prop where
  get : ∀ n key, ∃ error, answers n (.get key) = .error error
  put : ∀ n key items cas, ∃ error, answers n (.put key items cas) = .error error

/-- Every lease is past its last renewal by more than its time to live less the margin. -/
def Late (answers : Surroundings VmsWorker) (me : VmsWorker) : Prop :=
  ∀ n, ∀ entry ∈ me.leases, entry.2.ttl - entry.2.margin < answers n .clock - entry.2.lastRenewal

variable {answers : Surroundings VmsWorker} {me : VmsWorker} {α : Type}

/-! ## A fenced worker runs nothing -/

def Core.Quiet (core : Core) : Prop := core.allowed = false → core.pipelines = []

theorem move_quiet {restartFails : Prop} {core core' : Core} (quiet : core.Quiet)
    (move : Core.Move restartFails core core') : core'.Quiet := by
  intro refused
  cases move with
  | starts allowed => exact absurd (allowed.symm.trans refused) (by decide)
  | @breaks cid fails => exact (congrArg (List.filter (· ≠ cid)) (quiet refused)).trans rfl
  | @stops cid => exact (congrArg (List.filter (· ≠ cid)) (quiet refused)).trans rfl
  | fences => rfl

theorem moves_quiet {restartFails : Prop} {core core' : Core} (moves : Core.Moves restartFails core core')
    (quiet : core.Quiet) : core'.Quiet := by
  induction moves with
  | refl => exact quiet
  | tail _ move ih => exact move_quiet ih move

theorem pass_quiet (me : VmsWorker) (event : Surroundings VmsWorker × Pass) (quiet : (coreOf me).Quiet) :
    (coreOf (pass me event)).Quiet := by
  obtain ⟨answers, kind⟩ := event
  cases kind with
  | reconcile =>
    have moves : Moving answers (RestartFails answers) (Pass.program .reconcile) me :=
      Moving.sequel (reconcileOnce_moves me) fun _ _ => Moving.ret _
    exact moves_quiet (moves 0) quiet
  | lease =>
    have moves : Moving answers False (Pass.program .lease) me :=
      Moving.sequel (leasePass_moves me) fun _ _ => Moving.ret _
    exact moves_quiet (moves 0) quiet
  | pump =>
    obtain ⟨deaths, -, -, pipelines, recorder⟩ := @run_pumpOnce answers me 0
    intro refused
    have same : (recorderOf (pass me (answers, .pump))).allowed = me.recordingAllowed :=
      congrArg Recorder.allowed recorder
    have none : me.pipelines = [] := quiet (same.symm.trans refused)
    exact pipelines.trans (by rw [none]; rfl)
  | fence why =>
    have moves : Moving answers False (Pass.program (.fence why)) me := fence_moves why me
    exact moves_quiet (moves 0) quiet

/-- Once it has fenced, no pipeline of a worker runs. -/
theorem fenced_runs_nothing (base : Worker) (archiveRoot : String) (startedAt : ℚ)
    (passes : List (Surroundings VmsWorker × Pass)) :
    (coreOf (passes.foldl pass (.new base archiveRoot startedAt))).Quiet := by
  apply Along.keeps (fun me event _ quiet => pass_quiet me event quiet) (Along.always (fun _ _ => trivial) passes _)
  exact fun _ => rfl

/-! ## Passes without a store -/

theorem unreachable_get (unreachable : Unreachable answers) {key : Key} {f : Option Items × Nat → Program VmsWorker α}
    {last : Except Exn α → VmsWorker → Prop} (raises : ∀ error, last (.error error) me) :
    Leaves answers last (Program.get key >>= f) me := by
  intro n
  obtain ⟨error, answered⟩ := unreachable.get n key
  have run_get : (Program.get key >>= f).run (within answers) (me, n) =
      ((Proc.ofExcept (answers n (.get key)) : Program VmsWorker _) >>= f).run (within answers) (me, n + 1) := rfl
  rw [run_get, answered]
  exact raises error

theorem refresh_unreachable (unreachable : Unreachable answers) :
    Leaves answers (fun result me' => (∃ error, result = .error error) ∧ me' = me) VmsWorker.refresh me := by
  unfold VmsWorker.refresh Worker.assignment
  apply Leaves.recollect
  rw [bind_assoc]
  exact unreachable_get unreachable fun error => ⟨⟨error, rfl⟩, rfl⟩

theorem reconcileOnce_unreachable (unreachable : Unreachable answers) :
    Leaves answers (fun _ me' => me' = me) VmsWorker.reconcileOnce me := by
  unfold VmsWorker.reconcileOnce
  refine Leaves.sequel (refresh_unreachable unreachable) ?_ ?_
  · intro error me' ends
    exact ends.2
  · rintro _ me' ⟨⟨error, returned⟩, -⟩
    cases returned

theorem leasePass_unreachable (unreachable : Unreachable answers) :
    Leaves answers (fun _ me' => me'.pipelines = me.pipelines) VmsWorker.leasePass me := by
  unfold VmsWorker.leasePass
  apply Leaves.recollect
  unfold Worker.renewSlot
  split
  · -- the slot is released: every lease runs out by itself
    apply Leaves.remember
    refine Leaves.keeps_bind (KeepsMemory.renewLeases _) (fun _ => rfl) ?_
    rintro ⟨lost, base⟩
    apply Leaves.remember
    split
    · exact Leaves.ret rfl
    · unfold Worker.assignment
      rw [bind_assoc]
      exact unreachable_get unreachable fun _ => rfl
  · rw [bind_assoc]
    exact unreachable_get unreachable fun _ => rfl

/-- What takes a camera's pipeline away from a worker in a partition: its death, or an order to fence. -/
def Ceases (event : Surroundings VmsWorker × Pass) (cid : Int) : Prop :=
  match event.2 with
  | .pump => cid ∈ (event.1 0 .bus).1
  | .fence _ => True
  | .reconcile | .lease => False

theorem pass_unreachable {event : Surroundings VmsWorker × Pass} (unreachable : Unreachable event.1)
    (quiet : (coreOf me).Quiet) (cid : Int) :
    cid ∈ (pass me event).pipelines ↔ cid ∈ me.pipelines ∧ ¬ Ceases event cid := by
  obtain ⟨answers, kind⟩ := event
  cases kind with
  | reconcile =>
    have leaves : Leaves answers (fun _ me' => me' = me) (Pass.program .reconcile) me :=
      Leaves.sequel (reconcileOnce_unreachable unreachable) (fun _ _ same => same) fun _ _ same => Leaves.ret same
    have same : pass me (answers, .reconcile) = me := leaves 0
    rw [same]
    simp [Ceases]
  | lease =>
    have leaves : Leaves answers (fun _ me' => me'.pipelines = me.pipelines) (Pass.program .lease) me :=
      Leaves.sequel (leasePass_unreachable unreachable) (fun _ _ same => same) fun _ _ same => Leaves.ret same
    have same : (pass me (answers, .lease)).pipelines = me.pipelines := leaves 0
    rw [same]
    simp [Ceases]
  | pump =>
    obtain ⟨deaths, -, -, pipelines, -⟩ := @run_pumpOnce answers me 0
    have left : (pass me (answers, .pump)).pipelines = me.pipelines.filter (· ∉ (answers 0 .bus).1) := pipelines
    rw [left]
    simp [Ceases]
  | fence why =>
    have nothing : (pass me (answers, .fence why)).pipelines = [] := by
      cases allowed : me.recordingAllowed with
      | false =>
        have same : pass me (answers, .fence why) = me := by
          simp only [pass, Pass.program, VmsWorker.fence, run_recall, allowed]
          rfl
        rw [same]
        exact quiet allowed
      | true =>
        simp only [pass, Pass.program, VmsWorker.fence, run_recall, allowed]
        rfl
    rw [nothing]
    simp [Ceases]

theorem cut_off_runs (cut : List (Surroundings VmsWorker × Pass)) (unreachable : ∀ event ∈ cut, Unreachable event.1)
    (quiet : (coreOf me).Quiet) (cid : Int) :
    cid ∈ (cut.foldl pass me).pipelines ↔ cid ∈ me.pipelines ∧ ∀ event ∈ cut, ¬ Ceases event cid := by
  induction cut generalizing me with
  | nil => simp
  | cons event rest ih =>
    rw [List.foldl_cons, ih (fun later member => unreachable later (.tail _ member)) (pass_quiet me event quiet),
      pass_unreachable (unreachable event (.head _)) quiet, and_assoc, List.forall_mem_cons]

/-- After any run, and then any passes without a store, a lease pass without a store leaves no pipeline running
exactly when each one that ran when the store was lost has ended by itself. -/
theorem partitioned_stops_iff (base : Worker) (archiveRoot : String) (startedAt : ℚ)
    (passes cut : List (Surroundings VmsWorker × Pass)) (answers : Surroundings VmsWorker)
    (lost : ∀ event ∈ cut, Unreachable event.1) (unreachable : Unreachable answers) :
    (pass ((passes ++ cut).foldl pass (.new base archiveRoot startedAt)) (answers, .lease)).pipelines = [] ↔
      ∀ cid ∈ (passes.foldl pass (.new base archiveRoot startedAt)).pipelines, ∃ event ∈ cut, Ceases event cid := by
  have quiet := fenced_runs_nothing base archiveRoot startedAt passes
  have quiet' := fenced_runs_nothing base archiveRoot startedAt (passes ++ cut)
  rw [List.eq_nil_iff_forall_not_mem]
  apply forall_congr'
  intro cid
  rw [pass_unreachable unreachable quiet', List.foldl_append, cut_off_runs cut lost quiet]
  have never : ¬ Ceases (answers, .lease) cid := id
  simp [never]

/-! ## Camera 7 in a partition -/

/-- No store; what is outside is as given. -/
def cutOff (outside : Outside) : Surroundings VmsWorker := fun n request =>
  match request with
  | .get _ => .error (.python (.runtimeError "unreachable"))
  | .put _ _ _ => .error (.python (.runtimeError "unreachable"))
  | request => standing (fun _ => none) outside n request

theorem cutOff_unreachable (outside : Outside) : Unreachable (cutOff outside) :=
  ⟨fun _ _ => ⟨_, rfl⟩, fun _ _ _ _ => ⟨_, rfl⟩⟩

/-- A thousand seconds after the last renewal. -/
def muchLater : Outside := { quietOutside with clock := 1000 }

theorem partitioned_stops_iff_seven :
    (pass (([(standing (storedSeven "1") quietOutside, Pass.reconcile)] ++
      [(cutOff { muchLater with bus := ([7], []) }, Pass.pump)]).foldl pass (.new freshWorker "/data/archive" 0))
      (cutOff muchLater, .lease)).pipelines = [] := by
  apply (partitioned_stops_iff freshWorker "/data/archive" 0 _ _ (cutOff muchLater) ?_ (cutOff_unreachable _)).mpr
  · intro cid running
    have runs : ([(standing (storedSeven "1") quietOutside, Pass.reconcile)].foldl pass
        (.new freshWorker "/data/archive" 0)).pipelines = [7] := by decide +kernel
    rw [runs] at running
    exact ⟨_, .head _, running⟩
  · intro event member
    obtain rfl := List.mem_singleton.mp member
    exact cutOff_unreachable _

theorem partitioned_keeps_running : ¬ ∀ (base : Worker) (archiveRoot : String) (startedAt : ℚ)
    (passes cut : List (Surroundings VmsWorker × Pass)) (answers : Surroundings VmsWorker),
    (∀ event ∈ cut, Unreachable event.1) → Unreachable answers →
      Late answers ((passes ++ cut).foldl pass (.new base archiveRoot startedAt)) →
      (pass ((passes ++ cut).foldl pass (.new base archiveRoot startedAt)) (answers, .lease)).pipelines = [] := by
  intro claim
  have stops := claim freshWorker "/data/archive" 0 [(standing (storedSeven "1") quietOutside, .reconcile)] []
    (cutOff muchLater) (by simp) (cutOff_unreachable _)
  have late : Late (cutOff muchLater) ([(standing (storedSeven "1") quietOutside, Pass.reconcile)].foldl pass
      (.new freshWorker "/data/archive" 0)) := by
    intro n
    show ∀ entry ∈ _, _ < (1000 : ℚ) - _
    decide +kernel
  have runs : (pass ([(standing (storedSeven "1") quietOutside, Pass.reconcile)].foldl pass
      (.new freshWorker "/data/archive" 0)) (cutOff muchLater, .lease)).pipelines = [7] := by decide +kernel
  cases runs.symm.trans (stops late)

end EdgeVms.Verified
