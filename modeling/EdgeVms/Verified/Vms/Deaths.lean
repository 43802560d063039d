import EdgeVms.Verified.Vms.WorkerRuns

/-! # What becomes of the dead

`pump_once` drains the bus and then handles what it drained: the observations
first, then the deaths, one after the other.  An observation that raises ends the
pass, and whatever death was still to be handled is forgotten.
-/

namespace EdgeVms.Verified

open Process Python Platform Vms

/-- What of the memory decides about an observation. -/
structure Recorder where
  epochs : Dict Int
  allowed : Bool
  archiveRoot : String
  bucketSeconds : Int

def recorderOf (me : VmsWorker) : Recorder := ⟨me.epochs, me.recordingAllowed, me.archiveRoot, me.bucketSeconds⟩

/-- The line is appended: no field has the name of an argument, the bucket's path computes, its file takes a
line, and every value has a text in JSON. -/
def appends (answers : Surroundings VmsWorker) (n : Nat) (log : EventLog) (t : ℚ) (fields : Dict Field) : Bool :=
  !(fields.any fun field => field.1 ∈ ["self", "t", "kind"]) &&
    (match log.pathFor t with
    | .error _ => false
    | .ok path => (answers n (.append path)).isOk) &&
    !fields.any fun field => field.2.isOther

/-- The number of the next request after an observation made at request `n`; `none` if it raises.  Where no
epoch is held or nothing may be recorded, only the names of the fields matter. -/
def afterObserve (answers : Surroundings VmsWorker) (recorder : Recorder) (n : Nat) (cid : Int) (fields : Dict Field) :
    Option Nat :=
  if fields.any fun field => field.1 ∈ ["self", "cid", "kind"] then none
  else
    match recorder.epochs.get? (toString cid), recorder.allowed with
    | some epoch, true =>
      if appends answers (n + 3)
        ⟨recorder.archiveRoot, vms.name, toString cid, epoch, recorder.bucketSeconds⟩ (answers (n + 1) .wall) fields
      then some (n + 4) else none
    | _, _ => some (n + 1)

/-- The next request after all the observations, unless one raises. -/
def afterPosted (answers : Surroundings VmsWorker) (recorder : Recorder) : Nat → List Posted → Option Nat
  | n, [] => some n
  | n, event :: rest =>
    match afterObserve answers recorder n event.camera event.fields with
    | some n => afterPosted answers recorder n rest
    | none => none

/-- The deaths that are handled: all up to the first whose own event raises. -/
def handledFrom (answers : Surroundings VmsWorker) (recorder : Recorder) : Nat → List Int → List Int
  | _, [] => []
  | n, cid :: rest => cid ::
    match afterObserve answers recorder (n + 4) cid [] with
    | some n => handledFrom answers recorder n rest
    | none => []

/-- What a run of an observation leaves as it was. -/
structure Unmoved (me me' : VmsWorker) : Prop where
  recorder : recorderOf me' = recorderOf me
  reconciler : me'.reconciler = me.reconciler
  pipelines : me'.pipelines = me.pipelines

variable {answers : Surroundings VmsWorker} {me : VmsWorker}

theorem run_append (log : EventLog) (t : ℚ) (fields : Dict Field) (n : Nat) :
    (appends answers n log t fields = true ∧
        ∃ path, (VmsWorker.append log t fields).run (within answers) (me, n) = (.ok path, (me, n + 1))) ∨
      appends answers n log t fields = false ∧
        ∃ error n', (VmsWorker.append log t fields).run (within answers) (me, n) = (.error error, (me, n')) := by
  unfold VmsWorker.append appends
  by_cases names : (fields.any fun field => field.1 ∈ ["self", "t", "kind"]) = true
  · rw [if_pos names, names]
    exact .inr ⟨rfl, _, n, rfl⟩
  · rw [if_neg names, Bool.eq_false_iff.mpr names]
    cases path_eq : log.pathFor t with
    | error error => exact .inr ⟨rfl, _, n, rfl⟩
    | ok path =>
      have value_eq : (Program.value (.ok path) : Program VmsWorker String) = Proc.ret path := rfl
      rw [value_eq, Proc.bind_eq, Proc.ret_bind, run_append_file]
      cases answered : answers n (.append path) with
      | error error => exact .inr ⟨by simp [answered, Except.isOk, Except.toBool], _, n + 1, rfl⟩
      | ok done =>
        by_cases others : (fields.any fun field => field.2.isOther) = true
        · refine .inr ⟨by simp [others], .python .typeError, n + 1, ?_⟩
          simp only [others]
          rfl
        · refine .inl ⟨by simp [answered, others, Except.isOk, Except.toBool], path, ?_⟩
          simp only [Bool.eq_false_iff.mpr others]
          rfl

/-- A run of an observation, and whether it raises. -/
theorem run_observe (cid : Int) (kind : String) (fields : Dict Field) (me : VmsWorker) (n : Nat) :
    (∃ next path me', afterObserve answers (recorderOf me) n cid fields = some next ∧ Unmoved me me' ∧
        (VmsWorker.observe cid kind fields).run (within answers) (me, n) = (.ok path, (me', next))) ∨
      ∃ error me' n', afterObserve answers (recorderOf me) n cid fields = none ∧ Unmoved me me' ∧
        (VmsWorker.observe cid kind fields).run (within answers) (me, n) = (.error error, (me', n')) := by
  have still : Unmoved me me := ⟨rfl, rfl, rfl⟩
  unfold VmsWorker.observe afterObserve
  by_cases names : (fields.any fun field => field.1 ∈ ["self", "cid", "kind"]) = true
  · rw [if_pos names, if_pos names]
    exact .inr ⟨_, me, n, rfl, still, rfl⟩
  · rw [if_neg names, if_neg names]
    rw [run_recall]
    simp only [recorderOf]
    cases held : me.epochs.get? (toString cid) with
    | none => exact .inl ⟨n + 1, none, me, rfl, still, rfl⟩
    | some epoch =>
      cases allowed : me.recordingAllowed with
      | false => exact .inl ⟨n + 1, none, me, rfl, still, rfl⟩
      | true =>
        simp only [run_wall, run_remember, map_eq_pure_bind]
        simp only [Proc.bind_eq, Proc.run_bind]
        obtain ⟨appended, path, run_eq⟩ | ⟨refused, error, n', run_eq⟩ := @run_append answers
          { me with observed := me.observed ++ [(cid, answers (n + 1) .wall, kind)] }
          ⟨me.archiveRoot, vms.name, toString cid, epoch, me.bucketSeconds⟩ (answers (n + 1) .wall) fields (n + 3)
        · rw [run_eq]
          refine .inl ⟨_, _, _, if_pos appended, ?_, rfl⟩
          exact ⟨rfl, rfl, rfl⟩
        · rw [run_eq]
          refine .inr ⟨_, _, _, if_neg (by rw [refused]; exact Bool.false_ne_true), ?_, rfl⟩
          exact ⟨rfl, rfl, rfl⟩

/-! ## The two loops -/

theorem Unmoved.trans {me' me'' : VmsWorker} (first : Unmoved me me') (second : Unmoved me' me'') : Unmoved me me'' :=
  ⟨second.recorder.trans first.recorder, second.reconciler.trans first.reconciler,
    second.pipelines.trans first.pipelines⟩

theorem run_postedRounds (posted : List Posted) (me : VmsWorker) (n : Nat) :
    (∃ next me', afterPosted answers (recorderOf me) n posted = some next ∧ Unmoved me me' ∧
        (VmsWorker.postedRounds posted).run (within answers) (me, n) = (.ok (), (me', next))) ∨
      ∃ error me' n', afterPosted answers (recorderOf me) n posted = none ∧ Unmoved me me' ∧
        (VmsWorker.postedRounds posted).run (within answers) (me, n) = (.error error, (me', n')) := by
  induction posted generalizing me n with
  | nil => exact .inl ⟨n, me, rfl, ⟨rfl, rfl, rfl⟩, rfl⟩
  | cons event rest ih =>
    rw [VmsWorker.postedRounds, afterPosted, Proc.bind_eq, Proc.run_bind]
    obtain ⟨next, path, me', after, unmoved, run_eq⟩ | ⟨error, me', n', after, unmoved, run_eq⟩ :=
      run_observe event.camera event.kind event.fields me n
    · rw [after, run_eq]
      obtain ⟨next', me'', after', unmoved', run_eq'⟩ | ⟨error, me'', n', after', unmoved', run_eq'⟩ := ih me' next
      · exact .inl ⟨next', me'', by rw [← unmoved.recorder]; exact after', unmoved.trans unmoved', run_eq'⟩
      · exact .inr ⟨error, me'', n', by rw [← unmoved.recorder]; exact after', unmoved.trans unmoved', run_eq'⟩
    · rw [after, run_eq]
      exact .inr ⟨error, me', n', rfl, unmoved, rfl⟩

/-- Out of `actual`, with a time to be tried again. -/
def Gone (loop : Reconciler) (cid : Int) : Prop := loop.actual.has cid = false ∧ loop.failures.has cid = true

theorem gone_lost (loop : Reconciler) (cid cid' : Int) (now random : ℚ) :
    Gone (loop.lost cid now random) cid' ↔ cid = cid' ∨ Gone loop cid' := by
  by_cases same : cid = cid' <;> simp [Gone, Reconciler.lost, Reconciler.forget, Reconciler.fail, same]

/-- One death after the other: the camera, the time, and what `random()` answered. -/
def losses (loop : Reconciler) (deaths : List (Int × ℚ × ℚ)) : Reconciler :=
  deaths.foldl (fun loop death => loop.lost death.1 death.2.1 death.2.2) loop

theorem gone_losses (loop : Reconciler) (deaths : List (Int × ℚ × ℚ)) (cid : Int) :
    Gone (losses loop deaths) cid ↔ cid ∈ deaths.map Prod.fst ∨ Gone loop cid := by
  induction deaths generalizing loop with
  | nil => simp [losses]
  | cons death rest ih =>
    show Gone (losses (loop.lost death.1 death.2.1 death.2.2) rest) cid ↔ _
    rw [ih, gone_lost, List.map_cons, List.mem_cons, eq_comm]
    tauto

theorem has_losses (loop : Reconciler) (deaths : List (Int × ℚ × ℚ)) (cid : Int) :
    (losses loop deaths).actual.has cid = true ↔ cid ∉ deaths.map Prod.fst ∧ loop.actual.has cid = true := by
  induction deaths generalizing loop with
  | nil => simp [losses]
  | cons death rest ih =>
    show (losses (loop.lost death.1 death.2.1 death.2.2) rest).actual.has cid = true ↔ _
    have popped : (loop.lost death.1 death.2.1 death.2.2).actual = loop.actual.pop death.1 := rfl
    rw [ih, popped, List.map_cons, List.mem_cons, @eq_comm _ cid]
    simp only [Table.has_pop, Bool.and_eq_true, Bool.not_eq_true', decide_eq_false_iff_not, not_or]
    tauto

/-- The deaths that are handled are losses, and nothing else becomes of the reconciler. -/
theorem run_deadRounds (dead : List Int) (me : VmsWorker) (n : Nat) :
    ∃ deaths, deaths.map Prod.fst = handledFrom answers (recorderOf me) n dead ∧
      ((VmsWorker.deadRounds dead).run (within answers) (me, n)).2.1.reconciler = losses me.reconciler deaths ∧
      ((VmsWorker.deadRounds dead).run (within answers) (me, n)).2.1.pipelines = me.pipelines ∧
      recorderOf ((VmsWorker.deadRounds dead).run (within answers) (me, n)).2.1 = recorderOf me := by
  induction dead generalizing me n with
  | nil => exact ⟨[], rfl, rfl, rfl, rfl⟩
  | cons first rest ih =>
    have run_now : ∀ f : ℚ → Program VmsWorker Unit, (VmsWorker.now >>= f).run (within answers) (me, n) =
        (f (answers (n + 1) .clock - me.startedAt)).run (within answers) (me, n + 2) := fun _ => rfl
    rw [VmsWorker.deadRounds, run_now, run_random, run_remember, Proc.bind_eq, Proc.run_bind, handledFrom]
    let lost : VmsWorker := { me with
      reconciler := (me.reconciler.lost first (answers (n + 1) .clock - me.startedAt) (answers (n + 2) .random)) }
    obtain ⟨next, path, me', after, unmoved, run_eq⟩ | ⟨error, me', n', after, unmoved, run_eq⟩ :=
      run_observe first "silent" [] lost (n + 4)
    · have after' : afterObserve answers (recorderOf me) (n + 4) first [] = some next := after
      rw [run_eq, after']
      obtain ⟨deaths, handled, reconciler, pipelines, recorder⟩ := ih me' next
      refine ⟨(first, answers (n + 1) .clock - me.startedAt, answers (n + 2) .random) :: deaths, ?_, ?_, ?_, ?_⟩
      · rw [List.map_cons, handled, unmoved.recorder]
        rfl
      · rw [unmoved.reconciler] at reconciler
        exact reconciler
      · exact pipelines.trans unmoved.pipelines
      · exact recorder.trans unmoved.recorder
    · have after' : afterObserve answers (recorderOf me) (n + 4) first [] = none := after
      rw [run_eq, after']
      exact ⟨[(first, answers (n + 1) .clock - me.startedAt, answers (n + 2) .random)], rfl, unmoved.reconciler,
        unmoved.pipelines, unmoved.recorder⟩

/-- The deaths of a drained bus that are handled: none, if an observation raises. -/
def handled (answers : Surroundings VmsWorker) (recorder : Recorder) (n : Nat) (bus : List Int × List Posted) :
    List Int :=
  match afterPosted answers recorder n bus.2 with
  | some next => handledFrom answers recorder next bus.1
  | none => []

theorem handledFrom_subset (recorder : Recorder) (n : Nat) (dead : List Int) :
    handledFrom answers recorder n dead ⊆ dead := by
  induction dead generalizing n with
  | nil => simp [handledFrom]
  | cons cid rest ih =>
    rw [handledFrom]
    apply List.cons_subset_cons
    split
    · exact ih _
    · exact List.nil_subset _

theorem handled_subset (recorder : Recorder) (n : Nat) (bus : List Int × List Posted) :
    handled answers recorder n bus ⊆ bus.1 := by
  unfold handled
  split
  · exact handledFrom_subset _ _ _
  · exact List.nil_subset _

/-- A pump stops the pipelines of the dead, and the deaths that are handled are losses. -/
theorem run_pumpOnce (me : VmsWorker) (n : Nat) :
    ∃ deaths, deaths.map Prod.fst = handled answers (recorderOf me) (n + 2) (answers n .bus) ∧
      (VmsWorker.pumpOnce.run (within answers) (me, n)).2.1.reconciler = losses me.reconciler deaths ∧
      (VmsWorker.pumpOnce.run (within answers) (me, n)).2.1.pipelines =
        me.pipelines.filter (· ∉ (answers n .bus).1) ∧
      recorderOf (VmsWorker.pumpOnce.run (within answers) (me, n)).2.1 = recorderOf me := by
  let drained : VmsWorker := { me with pipelines := me.pipelines.filter (· ∉ (answers n .bus).1) }
  have run_pump : VmsWorker.pumpOnce.run (within answers) (me, n) =
      (VmsWorker.postedRounds (answers n .bus).2 >>= fun _ => VmsWorker.deadRounds (answers n .bus).1).run
        (within answers) (drained, n + 2) := rfl
  rw [run_pump, Proc.bind_eq, Proc.run_bind, handled]
  obtain ⟨next, me', after, unmoved, run_eq⟩ | ⟨error, me', n', after, unmoved, run_eq⟩ :=
    run_postedRounds (answers n .bus).2 drained (n + 2)
  · have after' : afterPosted answers (recorderOf me) (n + 2) (answers n .bus).2 = some next := after
    rw [run_eq, after']
    obtain ⟨deaths, handled, reconciler, pipelines, recorder⟩ := @run_deadRounds answers (answers n .bus).1 me' next
    rw [unmoved.recorder] at handled
    rw [unmoved.reconciler] at reconciler
    exact ⟨deaths, handled, reconciler, pipelines.trans unmoved.pipelines, recorder.trans unmoved.recorder⟩
  · have after' : afterPosted answers (recorderOf me) (n + 2) (answers n .bus).2 = none := after
    rw [run_eq, after']
    exact ⟨[], rfl, unmoved.reconciler, unmoved.pipelines, unmoved.recorder⟩

/-- No death is lost exactly when each one that is drained is handled, or its camera was gone already. -/
theorem no_death_lost_iff (answers : Surroundings VmsWorker) (me : VmsWorker) :
    (∀ cid ∈ (answers 0 .bus).1, Gone (VmsWorker.pumpOnce.run (within answers) (me, 0)).2.1.reconciler cid) ↔
      ∀ cid ∈ (answers 0 .bus).1,
        cid ∈ handled answers (recorderOf me) 2 (answers 0 .bus) ∨ Gone me.reconciler cid := by
  obtain ⟨deaths, handled, reconciler, -⟩ := @run_pumpOnce answers me 0
  apply forall₂_congr
  intro cid member
  rw [reconciler, gone_losses, handled]

/-! ## An observation with a field of its own -/

/-- Surroundings that stand still: the stored rows, and what is outside. -/
def standing (stored : Key → Option Items) (outside : Outside) : Surroundings VmsWorker := fun _ request =>
  match request with
  | .get key => .ok (stored key, 0)
  | .put _ _ _ => .ok 1
  | .list _ => []
  | .wall => outside.wall
  | .clock => outside.clock
  | .random => outside.random
  | .heartbeats subsystem => outside.heartbeats subsystem
  | .heartbeat subsystem name => outside.heartbeat subsystem name
  | .actuator verb row => outside.actuator verb row
  | .bus => outside.bus
  | .append path => outside.append path
  | .recollect => .new (.new "a") "/data/archive" 0
  | .remember _ => ()

/-- A worker that runs camera 7 under epoch 1. -/
def runsSeven : VmsWorker :=
  { VmsWorker.new { Worker.new "a" with epochs := [("7", 1)] } "/data/archive" 0 with
    reconciler := { Reconciler.new with actual := [(7, 1)] }, pipelines := [7] }

/-- Camera 7 died, and before that one of its elements saw a person. -/
def seenThenDead : Outside :=
  { quietOutside with bus := ([7], [⟨7, "seen", [("kind", .json (.str (.plain "person")))]⟩]) }

theorem death_lost_to_a_field : ¬ ∀ (answers : Surroundings VmsWorker) (me : VmsWorker),
    ∀ cid ∈ (answers 0 .bus).1, Gone (VmsWorker.pumpOnce.run (within answers) (me, 0)).2.1.reconciler cid := by
  intro claim
  have runs :
      ((VmsWorker.pumpOnce.run (within (standing (fun _ => none) seenThenDead))
        (runsSeven, 0)).2.1.reconciler.actual.has 7) =
      true := by decide +kernel
  have gone := (claim (standing (fun _ => none) seenThenDead) runsSeven 7 (by decide)).1
  rw [gone] at runs
  cases runs

end EdgeVms.Verified
