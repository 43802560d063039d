import EdgeVms.Vms.Reconciler

/-! # Does one pass do it?

A pass in which nothing waits and every call succeeds, from whatever the loop
remembers.
-/

namespace EdgeVms.Verified

open Python Vms

namespace Convergence

open Reconciler

variable {loop : Reconciler} {rows : List Camera} {now : ℚ} {random : Int → ℚ}

/-! ## What is desired -/

theorem desired_eq (distinct : (rows.map Camera.id).Nodup) :
    desired rows = (rows.filter Camera.enabled).map fun cam => (cam.id, cam) := by
  unfold desired
  rw [← List.foldl_filter]
  exact Table.foldl_set Camera.id _ (distinct.sublist (List.filter_sublist.map _))

theorem mem_desired (distinct : (rows.map Camera.id).Nodup) {cid : Int} {cam : Camera} :
    (cid, cam) ∈ desired rows ↔ cam ∈ rows ∧ cam.enabled = true ∧ cam.id = cid := by
  rw [desired_eq distinct, List.mem_map]
  constructor
  · rintro ⟨cam', member, same⟩
    cases same
    exact ⟨(List.mem_filter.mp member).1, (List.mem_filter.mp member).2, rfl⟩
  · rintro ⟨member, enabled, rfl⟩
    exact ⟨cam, List.mem_filter.mpr ⟨member, enabled⟩, rfl⟩

theorem nodup_desired (distinct : (rows.map Camera.id).Nodup) : (desired rows).keys.Nodup := by
  rw [desired_eq distinct, Table.keys, List.map_map]
  exact distinct.sublist (List.filter_sublist.map Camera.id)

/-! ## The loop over the desired cameras -/

/-- The camera runs, at the revision of its row or a later one. -/
def Applied (loop : Reconciler) (cid : Int) (cam : Camera) : Prop :=
  ∃ revision, loop.actual.get? cid = some revision ∧ cam.revision ≤ revision

/-- What waits no longer rests only where it is applied. -/
theorem rests_iff {cid : Int} {cam : Camera}
    (late : ∀ failure, loop.failures.get? cid = some failure → failure.retryAt ≤ now) :
    loop.rests cid cam now = true ↔ Applied loop cid cam := by
  unfold rests Applied
  have tried : ((loop.failures.get? cid).any fun failure => decide (now < failure.retryAt)) = false := by
    cases waiting : loop.failures.get? cid with
    | none => rfl
    | some failure => exact decide_eq_false (not_lt.mpr (late failure waiting))
  rw [tried, Bool.or_false]
  cases loop.actual.get? cid with
  | none => simp
  | some revision => simp

/-- What the loop over the desired cameras leaves, when every call succeeds. -/
structure Started (loop : Reconciler) (entries : List (Int × Camera)) (pass : Pass Reconciler) : Prop where
  applied : ∀ entry ∈ entries, Applied pass.loop entry.1 entry.2
  others : ∀ cid ∉ entries.map Prod.fst, pass.loop.actual.get? cid = loop.actual.get? cid
  calls : ∀ call ∈ pass.calls, ∃ cam, (call.2, cam) ∈ entries ∧ ¬ Applied loop call.2 cam

theorem startRounds_started (entries : List (Int × Camera)) :
    ∀ {loop : Reconciler}, (entries.map Prod.fst).Nodup →
      (∀ cid ∈ entries.map Prod.fst, ∀ failure, loop.failures.get? cid = some failure → failure.retryAt ≤ now) →
      Started loop entries (startRounds (fun _ _ => true) random now entries loop) := by
  induction entries with
  | nil => exact fun _ _ => ⟨fun _ member => (nomatch member), fun _ _ => rfl, fun _ member => (nomatch member)⟩
  | cons entry rest ih =>
    obtain ⟨cid, cam⟩ := entry
    intro loop distinct late
    obtain ⟨fresh, distinct⟩ := List.nodup_cons.mp distinct
    obtain ⟨lateHere, lateRest⟩ := List.forall_mem_cons.mp late
    unfold startRounds
    split
    next resting =>
      have applied := (rests_iff lateHere).mp resting
      have later : Started loop rest _ := ih distinct lateRest
      refine ⟨List.forall_mem_cons.mpr ⟨?_, later.applied⟩, fun cid' other => ?_, fun call member => ?_⟩
      · unfold Applied
        rw [later.others cid fresh]
        exact applied
      · exact later.others cid' fun inside => other (.tail _ inside)
      · obtain ⟨cam', inside, behind⟩ := later.calls call member
        exact ⟨cam', .tail _ inside, behind⟩
    next moving =>
      have behind : ¬ Applied loop cid cam := fun applied => moving ((rests_iff lateHere).mpr applied)
      have stillLate : ∀ cid' ∈ rest.map Prod.fst, ∀ failure,
          (loop.succeed cid cam.revision).failures.get? cid' = some failure → failure.retryAt ≤ now := by
        intro cid' inside failure waiting
        have waits : (loop.failures.pop cid).get? cid' = some failure := waiting
        rw [Table.get?_pop] at waits
        split at waits
        next => cases waits
        next => exact lateRest cid' inside failure waits
      have later : Started (loop.succeed cid cam.revision) rest _ := ih distinct stillLate
      have there (cid' : Int) : (loop.succeed cid cam.revision).actual.get? cid' =
          if cid = cid' then some cam.revision else loop.actual.get? cid' := Table.get?_set _ _ _ _
      dsimp only
      rw [if_pos rfl]
      refine ⟨List.forall_mem_cons.mpr ⟨?_, later.applied⟩, fun cid' other => ?_,
        List.forall_mem_cons.mpr ⟨⟨cam, .head _, behind⟩, fun call member => ?_⟩⟩
      · refine ⟨cam.revision, ?_, le_refl _⟩
        have kept := later.others cid fresh
        rw [there, if_pos rfl] at kept
        exact kept
      · have apart : cid ≠ cid' := fun same => other (same ▸ .head _)
        have kept := later.others cid' fun inside => other (.tail _ inside)
        rw [there, if_neg apart] at kept
        exact kept
      · obtain ⟨cam', inside, behind'⟩ := later.calls call member
        have apart : cid ≠ call.2 := fun same => fresh (same ▸ List.mem_map.mpr ⟨_, inside, rfl⟩)
        refine ⟨cam', .tail _ inside, fun applied => behind' ?_⟩
        unfold Applied
        rw [there, if_neg apart]
        exact applied

/-- Where every camera is applied, there is nothing to do. -/
theorem startRounds_rests (actuator : String → Int → Bool) (random : Int → ℚ) (now : ℚ) (entries : List (Int × Camera))
    (applied : ∀ entry ∈ entries, Applied loop entry.1 entry.2) :
    startRounds actuator random now entries loop = ⟨[], [], loop⟩ := by
  induction entries with
  | nil => rfl
  | cons entry rest ih =>
    obtain ⟨cid, cam⟩ := entry
    obtain ⟨⟨revision, there, enough⟩, later⟩ := List.forall_mem_cons.mp applied
    have resting : loop.rests cid cam now = true := by
      unfold rests
      rw [there]
      simp [enough]
    unfold startRounds
    rw [if_pos resting]
    exact ih later

/-! ## The stop loop -/

/-- What the stop loop leaves. -/
structure Stopped (loop : Reconciler) (desired : Table Camera) (cids : List Int) (pass : Pass Reconciler) : Prop where
  kept : ∀ cid, desired.has cid = true → pass.loop.actual.get? cid = loop.actual.get? cid
  stopped : ∀ cid ∈ cids, desired.has cid = false → pass.loop.actual.get? cid = none
  absent : ∀ cid, loop.actual.get? cid = none → pass.loop.actual.get? cid = none
  calls : ∀ call ∈ pass.calls, call.2 ∈ cids ∧ desired.has call.2 = false

theorem stopRounds_stopped (desired : Table Camera) (cids : List Int) :
    ∀ {loop : Reconciler}, Stopped loop desired cids (stopRounds desired cids loop) := by
  induction cids with
  | nil => exact ⟨fun _ _ => rfl, fun _ member => (nomatch member), fun _ absent => absent, fun _ member => (nomatch member)⟩
  | cons cid rest ih =>
    intro loop
    unfold stopRounds
    split
    next wanted =>
      have later : Stopped loop desired rest _ := ih
      refine ⟨later.kept, List.forall_mem_cons.mpr ⟨fun unwanted => ?_, later.stopped⟩, later.absent,
        fun call member => ?_⟩
      · rw [wanted] at unwanted
        cases unwanted
      · exact ⟨.tail _ (later.calls call member).1, (later.calls call member).2⟩
    next unwanted =>
      have later : Stopped (loop.forget cid) desired rest _ := ih
      have there (cid' : Int) :
          (loop.forget cid).actual.get? cid' = if cid = cid' then none else loop.actual.get? cid' :=
        Table.get?_pop _ _ _
      refine ⟨fun cid' wanted => ?_, List.forall_mem_cons.mpr ⟨fun _ => later.absent cid ?_, later.stopped⟩,
        fun cid' absent => later.absent cid' ?_, List.forall_mem_cons.mpr ⟨?_, fun call member => ?_⟩⟩
      · have apart : cid ≠ cid' := fun same => unwanted (same ▸ wanted)
        have kept := later.kept cid' wanted
        rw [there, if_neg apart] at kept
        exact kept
      · rw [there, if_pos rfl]
      · rw [there]
        split
        · rfl
        · exact absent
      · exact ⟨.head _, Bool.not_eq_true _ ▸ unwanted⟩
      · exact ⟨.tail _ (later.calls call member).1, (later.calls call member).2⟩

theorem stopRounds_rests (desired : Table Camera) (cids : List Int) (wanted : ∀ cid ∈ cids, desired.has cid = true) :
    stopRounds desired cids loop = ⟨[], [], loop⟩ := by
  induction cids with
  | nil => rfl
  | cons cid rest ih =>
    obtain ⟨here, later⟩ := List.forall_mem_cons.mp wanted
    unfold stopRounds
    rw [if_pos here]
    exact ih later

/-! ## The pass -/

/-- The camera is wanted and not applied, or runs and is not wanted. -/
def Differs (loop : Reconciler) (rows : List Camera) (cid : Int) : Prop :=
  (∃ cam ∈ rows, cam.enabled = true ∧ cam.id = cid ∧ ¬ Applied loop cid cam) ∨
    loop.actual.has cid = true ∧ ∀ cam ∈ rows, cam.enabled = true → cam.id ≠ cid

/-- A loop that has just been made, with its settings. -/
def fresh (maxBackoff : ℚ) (stallFailures : Nat) : Reconciler := ⟨[], [], maxBackoff, stallFailures⟩

/-- After any run, one pass in which nothing waits and every call succeeds leaves exactly the enabled cameras, none
behind its row; it asks for nothing but what differed; and the next pass does nothing. -/
theorem converges (maxBackoff : ℚ) (stallFailures : Nat) (events : List Event) (rows : List Camera)
    (distinct : (rows.map Camera.id).Nodup) (now : ℚ) (random : Int → ℚ)
    (late : ∀ cid failure,
      (events.foldl step (fresh maxBackoff stallFailures)).failures.get? cid = some failure → failure.retryAt ≤ now) :
    let loop := events.foldl step (fresh maxBackoff stallFailures)
    let pass := loop.reconcile rows now (fun _ _ => true) random
    (∀ cid, pass.loop.actual.has cid = true ↔ ∃ cam ∈ rows, cam.enabled = true ∧ cam.id = cid) ∧
      (∀ cam ∈ rows, cam.enabled = true → Applied pass.loop cam.id cam) ∧
      (∀ call ∈ pass.calls, Differs loop rows call.2) ∧
      ∀ now' actuator random', pass.loop.reconcile rows now' actuator random' = ⟨[], [], pass.loop⟩ := by
  intro loop pass
  let started := startRounds (fun _ _ => true) random now (desired rows) loop
  have start : Started loop (desired rows) started :=
    startRounds_started (desired rows) (nodup_desired distinct) fun cid _ => late cid
  have stop : Stopped started.loop (desired rows) started.loop.actual.keys
      (stopRounds (desired rows) started.loop.actual.keys started.loop) := stopRounds_stopped _ _
  have applied : ∀ cam ∈ rows, cam.enabled = true → Applied pass.loop cam.id cam := by
    intro cam member enabled
    obtain ⟨revision, there, enough⟩ := start.applied _ ((mem_desired distinct).mpr ⟨member, enabled, rfl⟩)
    have kept := stop.kept cam.id ((has_desired rows _).mpr ⟨cam, member, enabled, rfl⟩)
    exact ⟨revision, kept.trans there, enough⟩
  have exactly : ∀ cid, pass.loop.actual.has cid = true ↔ ∃ cam ∈ rows, cam.enabled = true ∧ cam.id = cid := by
    intro cid
    constructor
    · intro running
      by_contra unwanted
      have undesired : (desired rows).has cid = false := by
        rw [← Bool.not_eq_true, has_desired]
        exact unwanted
      have gone : pass.loop.actual.get? cid = none := by
        by_cases before : cid ∈ started.loop.actual.keys
        · exact stop.stopped cid before undesired
        · exact stop.absent cid (Table.get?_eq_none.mpr before)
      rw [Table.has, gone] at running
      cases running
    · rintro ⟨cam, member, enabled, rfl⟩
      obtain ⟨revision, there, _⟩ := applied cam member enabled
      rw [Table.has, there]
      rfl
  refine ⟨exactly, applied, fun call member => ?_, fun now' actuator random' => ?_⟩
  · obtain asked | asked := List.mem_append.mp member
    · obtain ⟨cam, inside, behind⟩ := start.calls call asked
      obtain ⟨there, enabled, same⟩ := (mem_desired distinct).mp inside
      exact .inl ⟨cam, there, enabled, same, behind⟩
    · obtain ⟨running, undesired⟩ := stop.calls call asked
      have unwanted : ∀ cam ∈ rows, cam.enabled = true → cam.id ≠ call.2 := by
        intro cam there enabled same
        rw [(has_desired rows _).mpr ⟨cam, there, enabled, same⟩] at undesired
        cases undesired
      refine .inr ⟨?_, unwanted⟩
      rw [Table.has, ← start.others call.2 fun inside => ?_]
      · exact Table.has_iff_mem.mpr running
      · rw [Table.has_iff_mem.mpr inside] at undesired
        cases undesired
  · have starts : startRounds actuator random' now' (desired rows) pass.loop = ⟨[], [], pass.loop⟩ :=
      startRounds_rests actuator random' now' (desired rows) fun entry member => by
        obtain ⟨there, enabled, same⟩ := (mem_desired distinct).mp member
        exact same ▸ applied entry.2 there enabled
    have stops : stopRounds (desired rows) pass.loop.actual.keys pass.loop = ⟨[], [], pass.loop⟩ :=
      stopRounds_rests (desired rows) pass.loop.actual.keys fun cid running =>
        (has_desired rows _).mpr ((exactly cid).mp (Table.has_iff_mem.mpr running))
    unfold reconcile
    rw [starts]
    dsimp only
    rw [stops]
    rfl

/-- Camera 1 failed to start, camera 2 ran and was lost, camera 3 runs and is disabled now. -/
def stormy : List Event :=
  [.reconcile [⟨1, true, 4, []⟩, ⟨2, true, 1, []⟩, ⟨3, true, 1, []⟩] 0 (fun _ cid => cid ≠ 1) fun _ => 1 / 2,
    .lost 2 5 0]

theorem converges_stormy :
    let loop := stormy.foldl step (fresh 60 3)
    let pass := loop.reconcile [⟨1, true, 4, []⟩, ⟨2, true, 2, []⟩, ⟨3, false, 2, []⟩] 10 (fun _ _ => true) fun _ => 0
    (∀ cid, pass.loop.actual.has cid = true ↔
        ∃ cam ∈ [⟨1, true, 4, []⟩, ⟨2, true, 2, []⟩, ⟨3, false, 2, []⟩], Camera.enabled cam = true ∧ cam.id = cid) ∧
      (∀ cam ∈ [⟨1, true, 4, []⟩, ⟨2, true, 2, []⟩, ⟨3, false, 2, []⟩], Camera.enabled cam = true →
        Applied pass.loop cam.id cam) ∧
      (∀ call ∈ pass.calls, Differs loop [⟨1, true, 4, []⟩, ⟨2, true, 2, []⟩, ⟨3, false, 2, []⟩] call.2) ∧
      ∀ now' actuator random',
        pass.loop.reconcile [⟨1, true, 4, []⟩, ⟨2, true, 2, []⟩, ⟨3, false, 2, []⟩] now' actuator random' =
          ⟨[], [], pass.loop⟩ :=
  converges 60 3 stormy _ (by decide) 10 _ fun cid failure waiting => by
    have entries : ∀ entry ∈ (stormy.foldl step (fresh 60 3)).failures, entry.2.retryAt ≤ 10 := by decide +kernel
    exact entries _ (Table.mem_of_get? waiting)

end Convergence

end EdgeVms.Verified
