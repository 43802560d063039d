import EdgeVms.Node.GoReconciler
import EdgeVms.Verified.Vms.Converges

/-! # One loop in two languages

The loop and its port, side by side: what they remember agrees key by key, and
only the order of the stops of one pass may differ.
-/

namespace EdgeVms.Verified

open Python Vms Node

namespace Port

open Convergence (desired_eq nodup_desired)
open Reconciler (Pass Event)

variable {py : Reconciler} {go : GoReconciler} {rows : List Camera} {now : ℚ} {actuator : String → Int → Bool}
  {random : Int → ℚ}

/-- The two remember the same. -/
structure Same (py : Reconciler) (go : GoReconciler) : Prop where
  actual : ∀ cid, py.actual.get? cid = go.actual.get? cid
  failures : ∀ cid, py.failures.get? cid = go.failures.get? cid
  maxBackoff : py.maxBackoff = go.maxBackoff
  stallFailures : py.stallFailures = go.stallFailures
  distinct : py.actual.keys.Nodup
  distinctGo : go.actual.keys.Nodup

/-- Rows in the order of their ids. -/
def Ascending (rows : List Camera) : Prop := (rows.map Camera.id).Pairwise (· < ·)

theorem Ascending.distinct (ascending : Ascending rows) : (rows.map Camera.id).Nodup :=
  List.Pairwise.imp ne_of_lt ascending

/-! ## What is desired -/

theorem desiredGo_eq (distinct : (rows.map Camera.id).Nodup) :
    GoReconciler.desired (rows.map GoCamera.ofRow) =
      (Reconciler.desired rows).map fun entry => (entry.1, GoCamera.ofRow entry.2) := by
  have ids : ((rows.map GoCamera.ofRow).map GoCamera.id) = rows.map Camera.id := by
    rw [List.map_map]
    rfl
  unfold GoReconciler.desired
  rw [← List.foldl_filter, Table.foldl_set GoCamera.id _ ((ids ▸ distinct).sublist (List.filter_sublist.map _)),
    desired_eq distinct, List.map_map, List.filter_map, List.map_map]
  rfl

theorem order_eq (ascending : Ascending rows) :
    GoReconciler.order (rows.map GoCamera.ofRow) = (Reconciler.desired rows).keys := by
  have ids : ((rows.map GoCamera.ofRow).filter GoCamera.enabled).map GoCamera.id =
      (rows.filter Camera.enabled).map Camera.id := by
    rw [List.filter_map, List.map_map]
    rfl
  have sorted : ((rows.filter Camera.enabled).map Camera.id).Pairwise (· ≤ ·) :=
    (List.Pairwise.imp le_of_lt ascending).sublist (List.filter_sublist.map _)
  unfold GoReconciler.order
  rw [ids, sorted.insertionSort_eq, desired_eq ascending.distinct, Table.keys, List.map_map]
  rfl

theorem hasGo_eq (distinct : (rows.map Camera.id).Nodup) (cid : Int) :
    (GoReconciler.desired (rows.map GoCamera.ofRow)).has cid = (Reconciler.desired rows).has cid := by
  rw [Bool.eq_iff_iff, Table.has_iff_mem, Table.has_iff_mem, desiredGo_eq distinct, Table.keys, List.map_map]
  rfl

/-! ## The same steps -/

theorem Same.fail (same : Same py go) (cid : Int) (now random : ℚ) :
    Same (py.fail cid now random) (go.fail cid now random) where
  actual := same.actual
  failures cid' := by
    unfold Reconciler.fail GoReconciler.fail
    rw [same.failures cid, same.maxBackoff]
    dsimp only
    rw [Table.get?_set, Table.get?_set, same.failures cid']
  maxBackoff := same.maxBackoff
  stallFailures := same.stallFailures
  distinct := same.distinct
  distinctGo := same.distinctGo

theorem Same.succeed (same : Same py go) (cid revision : Int) :
    Same (py.succeed cid revision)
      { go with actual := go.actual.set cid revision, failures := go.failures.pop cid } where
  actual cid' := by
    show (py.actual.set cid revision).get? cid' = (go.actual.set cid revision).get? cid'
    rw [Table.get?_set, Table.get?_set, same.actual]
  failures cid' := by
    show (py.failures.pop cid).get? cid' = (go.failures.pop cid).get? cid'
    rw [Table.get?_pop, Table.get?_pop, same.failures]
  maxBackoff := same.maxBackoff
  stallFailures := same.stallFailures
  distinct := Table.nodup_set same.distinct cid revision
  distinctGo := Table.nodup_set same.distinctGo cid revision

theorem Same.forget (same : Same py go) (cid : Int) : Same (py.forget cid) { go with actual := go.actual.pop cid } where
  actual cid' := by
    show (py.actual.pop cid).get? cid' = (go.actual.pop cid).get? cid'
    rw [Table.get?_pop, Table.get?_pop, same.actual]
  failures := same.failures
  maxBackoff := same.maxBackoff
  stallFailures := same.stallFailures
  distinct := Table.nodup_pop same.distinct cid
  distinctGo := Table.nodup_pop same.distinctGo cid

/-- Over the desired cameras in one order, the loops do the same. -/
theorem startRounds_same (now : ℚ) (actuator : String → Int → Bool) (random : Int → ℚ) (desired : Table GoCamera)
    (entries : List (Int × Camera)) :
    ∀ {py : Reconciler} {go : GoReconciler}, Same py go →
      (∀ entry ∈ entries, desired.get? entry.1 = some (GoCamera.ofRow entry.2)) →
      let pass := Reconciler.startRounds actuator random now entries py
      let passGo := GoReconciler.startRounds actuator random now desired (entries.map Prod.fst) go
      passGo.actions = pass.actions ∧ Same pass.loop passGo.loop := by
  induction entries with
  | nil => exact fun same _ => ⟨rfl, same⟩
  | cons entry rest ih =>
    obtain ⟨cid, cam⟩ := entry
    intro py go same wanted
    obtain ⟨here, later⟩ := List.forall_mem_cons.mp wanted
    dsimp only at here ⊢
    rw [List.map_cons]
    unfold Reconciler.startRounds GoReconciler.startRounds
    rw [here, ← same.actual, ← same.failures]
    dsimp only [Option.getD_some]
    have enough : ((py.actual.get? cid).any fun revision => decide (revision ≥ (GoCamera.ofRow cam).revision)) =
        (py.actual.get? cid).any fun have_ => decide (cam.revision ≤ have_) := rfl
    have revision : (GoCamera.ofRow cam).revision = cam.revision := rfl
    have running : (py.actual.get? cid).isSome = py.actual.has cid := rfl
    rw [enough, revision, running]
    unfold Reconciler.rests
    cases applied : (py.actual.get? cid).any fun have_ => decide (cam.revision ≤ have_) with
    | true => exact ih same later
    | false =>
      cases waiting : (py.failures.get? cid).any fun failure => decide (now < failure.retryAt) with
      | true => exact ih same later
      | false =>
        simp only [Bool.or_false, Bool.false_eq_true, if_false]
        generalize (if py.actual.has cid = true then "restart" else "start") = verb
        cases actuator verb cid with
        | true =>
          obtain ⟨actions, same'⟩ := ih (same.succeed cid cam.revision) later
          exact ⟨congrArg (List.cons _) actions, same'⟩
        | false =>
          obtain ⟨actions, same'⟩ := ih (same.fail cid now (random cid)) later
          exact ⟨congrArg (List.cons _) actions, same'⟩

/-! ## The stop loops -/

/-- The stops of a list of cameras. -/
def stopsOf (cids : List Int) : List (String × Int) := cids.map fun cid => ("stop", cid)

theorem stopRounds_eq (desired : Table Camera) (cids : List Int) :
    ∀ py : Reconciler, let pass := Reconciler.stopRounds desired cids py
      pass.actions = stopsOf (cids.filter fun cid => !desired.has cid) ∧
        pass.loop = (cids.filter fun cid => !desired.has cid).foldl Reconciler.forget py := by
  induction cids with
  | nil => exact fun _ => ⟨rfl, rfl⟩
  | cons cid rest ih =>
    intro py
    dsimp only
    unfold Reconciler.stopRounds
    cases wanted : desired.has cid with
    | true =>
      rw [List.filter_cons_of_neg (by simp [wanted])]
      exact ih py
    | false =>
      rw [List.filter_cons_of_pos (by simp [wanted])]
      obtain ⟨actions, loop⟩ := ih (py.forget cid)
      exact ⟨congrArg (List.cons _) actions, loop⟩

theorem stopRoundsGo_eq (cids : List Int) :
    ∀ go : GoReconciler, let pass := GoReconciler.stopRounds cids go
      pass.actions = stopsOf cids ∧
        pass.loop = cids.foldl (fun go cid => { go with actual := go.actual.pop cid }) go := by
  induction cids with
  | nil => exact fun _ => ⟨rfl, rfl⟩
  | cons cid rest ih =>
    intro go
    obtain ⟨actions, loop⟩ := ih { go with actual := go.actual.pop cid }
    exact ⟨congrArg (List.cons _) actions, loop⟩

theorem foldl_forget (cids : List Int) :
    ∀ {py : Reconciler}, cids.foldl Reconciler.forget py = { py with actual := cids.foldl Table.pop py.actual } := by
  induction cids with
  | nil => exact rfl
  | cons cid rest ih => exact ih

theorem foldl_forgetGo (cids : List Int) :
    ∀ {go : GoReconciler}, cids.foldl (fun go cid => { go with actual := go.actual.pop cid }) go =
      { go with actual := cids.foldl Table.pop go.actual } := by
  induction cids with
  | nil => exact rfl
  | cons cid rest ih => exact ih

theorem get?_foldl_pop (cids : List Int) (cid : Int) :
    ∀ {table : Table Int}, (cids.foldl Table.pop table).get? cid = if cid ∈ cids then none else table.get? cid := by
  induction cids with
  | nil => exact (if_neg List.not_mem_nil).symm
  | cons first rest ih =>
    intro table
    rw [List.foldl_cons, ih, Table.get?_pop]
    by_cases inside : cid ∈ rest
    · rw [if_pos inside, if_pos (.tail _ inside)]
    · rw [if_neg inside]
      by_cases same : first = cid
      · rw [if_pos same, if_pos (same ▸ .head _)]
      · rw [if_neg same, if_neg fun member => ?_]
        obtain rfl | later := List.mem_cons.mp member
        · exact same rfl
        · exact inside later

theorem nodup_foldl_pop (cids : List Int) :
    ∀ {table : Table Int}, table.keys.Nodup → (Table.keys (cids.foldl Table.pop table)).Nodup := by
  induction cids with
  | nil => exact fun distinct => distinct
  | cons cid rest ih => exact fun distinct => ih (Table.nodup_pop distinct cid)

/-- Forgetting the same cameras in another order leaves the two alike. -/
theorem Same.forgets (same : Same py go) {cids cids' : List Int} (perm : cids.Perm cids') :
    Same (cids.foldl Reconciler.forget py)
      (cids'.foldl (fun go cid => { go with actual := go.actual.pop cid }) go) := by
  rw [foldl_forget, foldl_forgetGo]
  exact {
    actual := fun cid => by
      rw [get?_foldl_pop, get?_foldl_pop, same.actual]
      simp only [perm.mem_iff]
    failures := same.failures
    maxBackoff := same.maxBackoff
    stallFailures := same.stallFailures
    distinct := nodup_foldl_pop cids same.distinct
    distinctGo := nodup_foldl_pop cids' same.distinctGo }

/-- What two passes did, up to the order of their stops. -/
def SameActions (actions actions' : List (String × Int)) : Prop :=
  ∃ started stopped stopped', actions = started ++ stopsOf stopped ∧ actions' = started ++ stopsOf stopped' ∧
    stopped.Perm stopped'

theorem reconcile_same (same : Same py go) (ascending : Ascending rows) :
    SameActions (py.reconcile rows now actuator random).actions
        (go.reconcile (rows.map GoCamera.ofRow) now actuator random).actions ∧
      Same (py.reconcile rows now actuator random).loop
        (go.reconcile (rows.map GoCamera.ofRow) now actuator random).loop := by
  have distinct := ascending.distinct
  have wanted : ∀ entry ∈ Reconciler.desired rows,
      (GoReconciler.desired (rows.map GoCamera.ofRow)).get? entry.1 = some (GoCamera.ofRow entry.2) := by
    intro entry member
    apply Table.get?_of_mem
    · rw [desiredGo_eq distinct, Table.keys, List.map_map]
      exact nodup_desired distinct
    · rw [desiredGo_eq distinct]
      exact List.mem_map.mpr ⟨entry, member, rfl⟩
  obtain ⟨actions, started⟩ := startRounds_same now actuator random _ _ same wanted
  unfold Reconciler.reconcile GoReconciler.reconcile
  rw [order_eq ascending]
  dsimp only
  generalize Reconciler.startRounds actuator random now (Reconciler.desired rows) py = pass at *
  have keys : (Reconciler.desired rows).keys = (Reconciler.desired rows).map Prod.fst := rfl
  rw [keys]
  generalize GoReconciler.startRounds actuator random now (GoReconciler.desired (rows.map GoCamera.ofRow))
    ((Reconciler.desired rows).map Prod.fst) go = passGo at *
  obtain ⟨stops, left⟩ := stopRounds_eq (Reconciler.desired rows) pass.loop.actual.keys pass.loop
  obtain ⟨stopsGo, leftGo⟩ := stopRoundsGo_eq (passGo.loop.stops (GoReconciler.desired (rows.map GoCamera.ofRow)))
    passGo.loop
  have perm : (pass.loop.actual.keys.filter fun cid => !(Reconciler.desired rows).has cid).Perm
      (passGo.loop.stops (GoReconciler.desired (rows.map GoCamera.ofRow))) := by
    unfold GoReconciler.stops
    simp only [hasGo_eq distinct]
    refine (List.Perm.filter _ ?_).trans (List.perm_insertionSort _ _).symm
    rw [List.perm_ext_iff_of_nodup started.distinct started.distinctGo]
    intro cid
    rw [← Table.has_iff_mem, ← Table.has_iff_mem, Table.has, Table.has, started.actual]
  rw [stops, stopsGo, left, leftGo, actions]
  exact ⟨⟨_, _, _, rfl, rfl, perm⟩, started.forgets perm⟩

theorem status_same (same : Same py go) (rows : List Camera) :
    go.status (rows.map GoCamera.ofRow) = py.statusLag rows := by
  unfold GoReconciler.status Reconciler.statusLag
  rw [List.foldl_map]
  congr 1
  funext out cam
  have enabled : (GoCamera.ofRow cam).enabled = cam.enabled := rfl
  have id : (GoCamera.ofRow cam).id = cam.id := rfl
  have revision : (GoCamera.ofRow cam).revision = cam.revision := rfl
  rw [enabled, id, revision, same.actual, same.failures, same.stallFailures]
  generalize (go.actual.get? cam.id).getD 0 = have_
  have lag : (if cam.revision - have_ < 0 then 0 else cam.revision - have_) = max (cam.revision - have_) 0 := by
    split <;> omega
  cases cam.enabled with
  | true =>
    dsimp only
    rw [lag]
    rfl
  | false => rfl

/-! ## Runs -/

/-- The rows of a pass come in the order of their ids. -/
def InOrder : Event → Prop
  | .reconcile rows _ _ _ => Ascending rows
  | _ => True

theorem step_same (same : Same py go) {event : Event} (inOrder : InOrder event) :
    Same (py.step event) (go.step event) := by
  cases event with
  | reconcile rows now actuator random => exact (reconcile_same same inOrder).2
  | lost cid now random => exact (same.forget cid).fail cid now random
  | clear => exact { same with actual := fun _ => rfl, distinct := List.nodup_nil, distinctGo := List.nodup_nil }

theorem run_same (same : Same py go) {events : List Event} (inOrder : ∀ event ∈ events, InOrder event) :
    Same (events.foldl Reconciler.step py) (events.foldl GoReconciler.step go) := by
  induction events generalizing py go with
  | nil => exact same
  | cons event rest ih =>
    obtain ⟨here, later⟩ := List.forall_mem_cons.mp inOrder
    exact ih (step_same same here) later

/-- Camera 2 fails, camera 3 is lost and forgotten, and the row of camera 1 is gone. -/
def shuffled : List Event :=
  [.reconcile [⟨1, true, 4, []⟩, ⟨2, true, 1, []⟩, ⟨3, true, 1, []⟩] 0 (fun _ cid => cid ≠ 2) fun _ => 1 / 2,
    .lost 3 5 0, .reconcile [⟨2, true, 1, []⟩, ⟨3, false, 2, []⟩, ⟨7, true, 1, []⟩] 6 (fun _ _ => true) fun _ => 0]

end Port

end EdgeVms.Verified
