import EdgeVms.Verified.Vms.WorkerRuns
import Mathlib.Logic.Relation

/-! # What a pass can do

A pass changes what runs, what is taken to run and whether recording is allowed
by few kinds of moves.  An invariant of these three is shown for the moves, and
not for the passes.
-/

namespace EdgeVms.Verified

open Process Python Platform Vms Relation

/-- What runs, what is taken to run, and whether recording is allowed. -/
structure Core where
  pipelines : List Int
  actual : Table Int
  allowed : Bool

def coreOf (me : VmsWorker) : Core := ⟨me.pipelines, me.reconciler.actual, me.recordingAllowed⟩

namespace Core

def start (core : Core) (cid : Int) : Core := { core with pipelines := core.pipelines.filter (· ≠ cid) ++ [cid] }

def stop (core : Core) (cid : Int) : Core := { core with pipelines := core.pipelines.filter (· ≠ cid) }

def take (core : Core) (cid revision : Int) : Core := { core with actual := core.actual.set cid revision }

def forget (core : Core) (cid : Int) : Core := { core with actual := core.actual.pop cid }

/-- Nothing runs any more. -/
def fenced : Core := ⟨[], [], false⟩

theorem stop_start (core : Core) (cid : Int) : (core.stop cid).start cid = core.start cid := by
  simp [start, stop, List.filter_filter]

end Core

/-- Some restart does not succeed in these surroundings. -/
def RestartFails (answers : Surroundings VmsWorker) : Prop := ∃ n row, answers n (.actuator "restart" row) ≠ .ok true

/-- The moves of a pass, of one whose restarts may fail or of another. -/
inductive Core.Move (restartFails : Prop) : Core → Core → Prop
  | starts {core cid revision} (allowed : core.allowed = true) :
      Core.Move restartFails core ((core.start cid).take cid revision)
  | breaks {core cid} (fails : restartFails) : Core.Move restartFails core (core.stop cid)
  | stops {core cid} : Core.Move restartFails core ((core.stop cid).forget cid)
  | fences {core} : Core.Move restartFails core .fenced

/-- What a pass comes to, move after move. -/
abbrev Core.Moves (restartFails : Prop) : Core → Core → Prop := ReflTransGen (Core.Move restartFails)

variable {answers : Surroundings VmsWorker} {restartFails : Prop} {me : VmsWorker} {α β : Type}

/-- In these surroundings the program only moves. -/
def Moving (answers : Surroundings VmsWorker) (restartFails : Prop) (p : Program VmsWorker α) (me : VmsWorker) : Prop :=
  Leaves answers (fun _ me' => Core.Moves restartFails (coreOf me) (coreOf me')) p me

namespace Moving

theorem ret (value : α) : Moving answers restartFails (Proc.ret value) me := Leaves.ret .refl

theorem sequel {p : Program VmsWorker α} {f : α → Program VmsWorker β} (first : Moving answers restartFails p me)
    (next : ∀ value me', Moving answers restartFails (f value) me') : Moving answers restartFails (p >>= f) me := by
  refine Leaves.sequel first (fun _ _ moves => moves) ?_
  intro value me' moves
  exact Leaves.mono (fun _ _ more => moves.trans more) (next value me')

theorem keeps_bind {p : Program VmsWorker α} {f : α → Program VmsWorker β} (kept : KeepsMemory p)
    (later : ∀ value, Moving answers restartFails (f value) me) : Moving answers restartFails (p >>= f) me :=
  Leaves.keeps_bind kept (fun _ => .refl) later

theorem recollect {f : VmsWorker → Program VmsWorker α} (next : Moving answers restartFails (f me) me) :
    Moving answers restartFails (Program.recollect >>= f) me := Leaves.recollect next

/-- The rest of a pass, after the moves that led there. -/
theorem later {p : Program VmsWorker α} {first : Core} {me' : VmsWorker}
    (moves : Core.Moves restartFails first (coreOf me'))
    (next : Moving answers restartFails p me') :
    Leaves answers (fun _ me'' => Core.Moves restartFails first (coreOf me'')) p me' :=
  Leaves.mono (fun _ _ more => moves.trans more) next

/-- A change of the memory that is a move, or none. -/
theorem remember {change : VmsWorker → VmsWorker} {f : Unit → Program VmsWorker α}
    (moves : Core.Moves restartFails (coreOf me) (coreOf (change me))) (next : Moving answers restartFails (f ()) (change me)) :
    Moving answers restartFails (Program.remember change >>= f) me :=
  Leaves.remember (later moves next)

end Moving

/-! ## The actuator -/

/-- After a start or a restart: the pipeline runs where it succeeded. -/
def Started (answers : Surroundings VmsWorker) (me : VmsWorker) (cid : Int) (result : Except Exn Bool)
    (me' : VmsWorker) : Prop :=
  me.recordingAllowed = true ∧ result = .ok true ∧ coreOf me' = (coreOf me).start cid ∨
    result ≠ .ok true ∧ Core.Moves (RestartFails answers) (coreOf me) (coreOf me')

theorem started_nothing {cid : Int} {result : Except Exn Bool} (fails : result ≠ .ok true) :
    Started answers me cid result me := .inr ⟨fails, .refl⟩

theorem actuator_starts {verb : String} (starts : verb = "start" ∨ verb = "restart") (cid : Int) (row : Dict Value)
    (allowed : me.recordingAllowed = true) :
    Leaves answers (Started answers me cid) (VmsWorker.actuator verb cid row) me := by
  unfold VmsWorker.actuator
  apply Leaves.remember
  obtain rfl | rfl := starts
  · rw [if_neg (by decide), if_neg (by decide)]
    apply Leaves.actuator
    · intro n error answered
      exact started_nothing (by simp)
    · intro n up answered
      apply Leaves.remember
      apply Leaves.ret
      cases up with
      | false => exact started_nothing (by simp)
      | true => exact .inl ⟨allowed, rfl, rfl⟩
  · rw [if_neg (by decide), if_pos (by decide)]
    -- the old pipeline is gone by now, whatever becomes of the new one
    have broken (n : Nat) (fails : answers n (.actuator "restart" row) ≠ .ok true) :
        Core.Moves (RestartFails answers) (coreOf me) ((coreOf me).stop cid) := .single (.breaks ⟨n, row, fails⟩)
    apply Leaves.actuator
    · intro n error answered
      exact .inr ⟨by simp, broken n (by simp [answered])⟩
    · intro n up answered
      apply Leaves.remember
      apply Leaves.ret
      cases up with
      | false => exact .inr ⟨by simp, broken n (by simp [answered])⟩
      | true => exact .inl ⟨allowed, rfl, Core.stop_start (coreOf me) cid⟩

theorem actuator_stops (cid : Int) (row : Dict Value) :
    Leaves answers (fun result me' => result = .ok true ∧ coreOf me' = (coreOf me).stop cid)
      (VmsWorker.actuator "stop" cid row) me := by
  unfold VmsWorker.actuator
  apply Leaves.remember
  rw [if_pos (Or.inl rfl)]
  exact Leaves.ret ⟨rfl, rfl⟩

/-! ## The gate -/

/-- The last look at the lease before the actuator. -/
theorem gated_starts {verb : String} (starts : verb = "start" ∨ verb = "restart") (cid : Int) (row : Dict Value)
    (base : Worker) (allowed : me.recordingAllowed = true) :
    Leaves answers (Started answers me cid) (do
      let me ← Program.recollect
      let may ← Worker.mayWrite me.toWorker (toString cid)
      if !may then return false
      VmsWorker.actuator verb cid row) (me.withBase base) := by
  apply Leaves.recollect
  refine Leaves.keeps_bind (KeepsMemory.mayWrite _ _) ?_ ?_
  · intro error
    exact .inr ⟨by simp, .refl⟩
  · intro may
    split
    · exact Leaves.ret (.inr ⟨by simp, .refl⟩)
    · show Leaves answers (Started answers (me.withBase base) cid) _ (me.withBase base)
      exact actuator_starts starts cid row allowed

theorem actuate_starts {verb : String} (starts : verb = "start" ∨ verb = "restart") (cid : Int) (row : Dict Value) :
    Leaves answers (Started answers me cid) (VmsWorker.actuate verb cid row) me := by
  have other : verb ≠ "stop" := by
    obtain rfl | rfl := starts <;> decide
  unfold VmsWorker.actuate
  rw [if_neg other]
  apply Leaves.recollect
  cases allowed : me.recordingAllowed with
  | false => exact Leaves.ret (started_nothing (by simp))
  | true =>
    rw [if_neg (by decide)]
    unfold VmsWorker.epochFor
    split
    · exact gated_starts starts cid _ me.toWorker allowed
    · rw [bind_assoc]
      refine Leaves.keeps_bind (KeepsMemory.takeEpoch _ _ _) ?_ ?_
      · intro error
        exact started_nothing (by simp)
      · intro taken
        apply Leaves.remember
        exact gated_starts starts cid _ taken.2 allowed

theorem actuate_stops (cid : Int) (row : Dict Value) :
    Leaves answers (fun result me' => result = .ok true ∧ coreOf me' = (coreOf me).stop cid)
      (VmsWorker.actuate "stop" cid row) me := by
  unfold VmsWorker.actuate
  rw [if_pos rfl]
  refine Leaves.sequel (actuator_stops cid row) ?_ ?_
  · rintro error me' ⟨returned, -⟩
    cases returned
  · rintro up me' ⟨returned, stopped⟩
    apply Leaves.remember
    cases returned
    exact Leaves.ret ⟨rfl, stopped⟩

/-! ## The passes -/

theorem startRounds_moves (now : ℚ) (desired : List (Int × Camera)) (me : VmsWorker) :
    Moving answers (RestartFails answers) (VmsWorker.startRounds now desired) me := by
  induction desired generalizing me with
  | nil => exact Moving.ret _
  | cons entry rest ih =>
    obtain ⟨cid, cam⟩ := entry
    rw [VmsWorker.startRounds]
    apply Moving.recollect
    split
    · exact ih me
    · have starts : (if me.reconciler.actual.has cid then "restart" else "start") = "start" ∨
          (if me.reconciler.actual.has cid then "restart" else "start") = "restart" := by
        split
        · exact .inr rfl
        · exact .inl rfl
      refine Leaves.sequel (actuate_starts starts cid cam.row) ?_ ?_
      · rintro error me' (⟨-, returned, -⟩ | ⟨-, moves⟩)
        · cases returned
        · exact moves
      · rintro up me' (⟨allowed, returned, started⟩ | ⟨fails, moves⟩)
        · cases returned
          apply Leaves.remember
          have moves : Core.Move (RestartFails answers) (coreOf me) (((coreOf me).start cid).take cid cam.revision) :=
            .starts allowed
          rw [← started] at moves
          exact Moving.later (.single moves) <| Moving.sequel (ih _) fun actions _ => Moving.ret _
        · cases up with
          | true => exact (fails rfl).elim
          | false =>
            apply Leaves.random
            intro random
            apply Leaves.remember
            exact Moving.later moves <| Moving.sequel (ih _) fun actions _ => Moving.ret _

theorem stopRounds_moves (desired : Table Camera) (cids : List Int) (me : VmsWorker) :
    Moving answers (RestartFails answers) (VmsWorker.stopRounds desired cids) me := by
  induction cids generalizing me with
  | nil => exact Moving.ret _
  | cons cid rest ih =>
    rw [VmsWorker.stopRounds]
    split
    · exact ih me
    · refine Leaves.sequel (actuate_stops cid _) ?_ ?_
      · rintro error me' ⟨returned, -⟩
        cases returned
      · rintro up me' ⟨-, stopped⟩
        apply Leaves.remember
        have moves : Core.Move (RestartFails answers) (coreOf me) (((coreOf me).stop cid).forget cid) := .stops
        rw [← stopped] at moves
        exact Moving.later (.single moves) <| Moving.sequel (ih _) fun actions _ => Moving.ret _

theorem refresh_moves (me : VmsWorker) : Moving answers (RestartFails answers) VmsWorker.refresh me := by
  unfold VmsWorker.refresh
  apply Moving.recollect
  apply Moving.keeps_bind (KeepsMemory.assignment _ _)
  intro a
  apply Moving.remember .refl
  apply Moving.keeps_bind (KeepsMemory.refreshRounds _ _)
  intro rows
  exact Moving.remember .refl (Moving.ret _)

theorem reconcileOnce_moves (me : VmsWorker) : Moving answers (RestartFails answers) VmsWorker.reconcileOnce me := by
  unfold VmsWorker.reconcileOnce
  apply Moving.sequel (refresh_moves me)
  intro _ me
  refine Moving.keeps_bind (fun _ _ => trivial) ?_
  intro now
  have reconciles : Moving answers (RestartFails answers) (VmsWorker.reconcile now) me := by
    unfold VmsWorker.reconcile
    apply Moving.recollect
    apply Moving.sequel (startRounds_moves now _ me)
    intro started me'
    apply Moving.recollect
    exact Moving.sequel (stopRounds_moves _ _ me') fun _ _ => Moving.ret _
  apply Moving.sequel reconciles
  intro actions me'
  exact Moving.remember .refl (Moving.ret _)

theorem fence_moves (why : String) (me : VmsWorker) : Moving answers restartFails (VmsWorker.fence why) me := by
  unfold VmsWorker.fence
  apply Moving.recollect
  split
  · exact Moving.ret _
  · exact Moving.remember (.single .fences) (Moving.ret _)

theorem lostRounds_moves (assigned lost : List String) (me : VmsWorker) :
    Moving answers restartFails (VmsWorker.lostRounds assigned lost) me := by
  induction lost generalizing me with
  | nil => exact Moving.ret _
  | cons unit rest ih =>
    rw [VmsWorker.lostRounds]
    split
    · apply Moving.keeps_bind (KeepsMemory.value _)
      intro cid
      refine Leaves.sequel (actuator_stops cid _) ?_ ?_
      · rintro error me' ⟨returned, -⟩
        cases returned
      · rintro up me' ⟨-, stopped⟩
        apply Leaves.remember
        have moves : Core.Move restartFails (coreOf me) (((coreOf me).stop cid).forget cid) := .stops
        rw [← stopped] at moves
        exact Moving.later (.single moves) (ih _)
    · apply Moving.recollect
      exact fence_moves _ me

theorem leasePass_moves (me : VmsWorker) : Moving answers restartFails VmsWorker.leasePass me := by
  unfold VmsWorker.leasePass
  apply Moving.recollect
  apply Moving.keeps_bind (KeepsMemory.renewSlot _ _)
  rintro ⟨mine, base⟩
  apply Moving.remember .refl
  split
  · exact Moving.sequel (fence_moves _ _) fun _ _ => Moving.ret _
  · apply Moving.keeps_bind (KeepsMemory.renewLeases _)
    rintro ⟨lost, base⟩
    apply Moving.remember .refl
    split
    · exact Moving.ret _
    · apply Moving.keeps_bind (KeepsMemory.assignment _ _)
      intro a
      exact Moving.sequel (lostRounds_moves _ _ _) fun _ _ => Moving.ret _

end EdgeVms.Verified
