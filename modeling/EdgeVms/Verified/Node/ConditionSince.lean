import EdgeVms.Node.PgStore
import EdgeVms.Process.History
import EdgeVms.Process.Rows

/-! # Since when

`since` of a condition is what an operator is told: "storage unavailable since 14:02".  It is the
time at which the status of today was written for the first time; a report that writes it again
moves the reason and not the time.
-/

namespace EdgeVms.Verified.ConditionSince

open Process Python Node PgStore
open Process.Rows (Keyed)

/-! ## The table -/

def key (row : ConditionRow) : Int × String := (row.camera, row.condition)

variable {conditions : List ConditionRow} {cid : Int} {condition : String} {status : Bool} {reason : Option String}
  {now : ℚ}

theorem keyed_setCondition (keyed : Keyed key conditions) :
    Keyed key (setCondition cid condition status reason now conditions) := by
  unfold setCondition
  split
  · refine keyed.map fun row => ?_
    split <;> rfl
  next absent =>
    refine keyed.append fun other member same => absent ?_
    obtain ⟨camera, name⟩ := Prod.mk.inj same
    exact List.any_eq_true.mpr ⟨other, member, by simp [camera, name]⟩

/-- What a row of the table is, once a condition is set. -/
theorem mem_setCondition {row : ConditionRow} (member : row ∈ setCondition cid condition status reason now conditions) :
    row ∈ conditions ∨
      (∃ old ∈ conditions, key old = (cid, condition) ∧
        row = { old with status, reason, since := if old.status = status then old.since else now }) ∨
      ((∀ old ∈ conditions, key old ≠ (cid, condition)) ∧ row = ⟨cid, condition, status, reason, now⟩) := by
  unfold setCondition at member
  split at member
  · obtain ⟨old, inside, rfl⟩ := List.mem_map.mp member
    split
    next named => exact .inr (.inl ⟨old, inside, Prod.ext named.1 named.2, rfl⟩)
    next => exact .inl inside
  next absent =>
    obtain before | here := List.mem_append.mp member
    · exact .inl before
    · refine .inr (.inr ⟨fun old inside same => absent ?_, List.mem_singleton.mp here⟩)
      obtain ⟨camera, name⟩ := Prod.mk.inj same
      exact List.any_eq_true.mpr ⟨old, inside, by simp [camera, name]⟩

/-! ## Runs -/

/-- The step is a call of the report that writes the status, at the time that the row tells. -/
def Writes (row : ConditionRow) (node : NodeVms) : NodeVms.Event → Prop
  | .report outcome now => outcome ≠ .refused ∧ now = row.since ∧
    ∃ reason, node.report.request? = some (.setCondition row.camera row.condition row.status reason)
  | _ => False

/-- The condition has that status. -/
def Has (row : ConditionRow) (node : NodeVms) : Prop :=
  ∃ row' ∈ node.tables.conditions, key row' = key row ∧ row'.status = row.status

/-- The condition has that status, since the same time. -/
def Shows (row : ConditionRow) (node : NodeVms) : Prop :=
  ∃ row' ∈ node.tables.conditions, key row' = key row ∧ row'.status = row.status ∧ row'.since = row.since

/-- The step brings the status about: the condition had the other one, or none. -/
def Began (row : ConditionRow) (node : NodeVms) (event : NodeVms.Event) : Prop := Writes row node event ∧ ¬ Has row node

theorem conditions_createCamera (fields : Dict Cell) (encrypt : Encrypt) (tables : Tables) :
    (PgStore.createCamera fields encrypt tables).2.conditions = tables.conditions := by
  unfold PgStore.createCamera
  dsimp only
  split
  · rfl
  · split
    · rfl
    · split
      · rfl
      · split
        · rfl
        · split <;> rfl

theorem conditions_updateCamera (cid : Int) (fields : Dict Cell) (encrypt : Encrypt) (tables : Tables) :
    (PgStore.updateCamera cid fields encrypt tables).2.conditions = tables.conditions := by
  unfold PgStore.updateCamera
  split
  · rfl
  · split
    · rfl
    · split
      · rfl
      · split
        · rfl
        · split
          · rfl
          · split <;> rfl

theorem conditions_report (rows : List (Int × Int × String)) (now : ℚ) (tables : Tables) :
    (PgStore.report rows now tables).conditions = tables.conditions := by
  unfold PgStore.report
  induction rows generalizing tables with
  | nil => rfl
  | cons entry rest ih => exact ih _

/-- A call of the report leaves the table alone, or sets the condition that it was made for. -/
theorem conditions_handler (outcome : Report.Outcome) (now : ℚ) (request : Report.Request) (host : AppHost)
    (tables : Tables) :
    (NodeVms.handler outcome now request (host, tables)).2.2.conditions = tables.conditions ∨
      ∃ cid condition status reason, request = .setCondition cid condition status reason ∧ outcome ≠ .refused ∧
        (NodeVms.handler outcome now request (host, tables)).2.2.conditions =
          setCondition cid condition status reason now tables.conditions := by
  cases request with
  | recollect | take => exact .inl rfl
  | report rows =>
    cases outcome with
    | refused => exact .inl rfl
    | done | unanswered => exact .inl (conditions_report rows now tables)
  | setCondition camera condition status reason =>
    cases outcome with
    | refused => exact .inl rfl
    | done | unanswered => exact .inr ⟨camera, condition, status, reason, rfl, nofun, rfl⟩
  | indexSegment row =>
    obtain ⟨segments, same⟩ := NodeVms.handler_indexSegment outcome now row host tables
    rw [same]
    exact .inl rfl

theorem conditions_loops {node does : NodeVms} (same : does.tables.conditions = node.tables.conditions) :
    (node.loops does).tables.conditions = node.tables.conditions := by
  unfold NodeVms.loops
  split
  · rfl
  · exact same

/-- A step leaves the table alone, or is the call that sets a condition. -/
theorem conditions_step (node : NodeVms) (event : NodeVms.Event) :
    (node.step event).tables.conditions = node.tables.conditions ∨
      ∃ outcome now cid condition status reason, event = .report outcome now ∧ outcome ≠ .refused ∧
        node.report.request? = some (.setCondition cid condition status reason) ∧
        (node.step event).tables.conditions = setCondition cid condition status reason now node.tables.conditions := by
  cases event with
  | createCamera fields encrypt => exact .inl (conditions_createCamera fields encrypt node.tables)
  | updateCamera cid fields encrypt => exact .inl (conditions_updateCamera cid fields encrypt node.tables)
  | upsertSite siteId name =>
    left
    show (PgStore.upsertSite siteId name node.tables).conditions = _
    unfold PgStore.upsertSite
    split <;> rfl
  | reconcile starts jitter clock =>
    left
    unfold NodeVms.step
    dsimp only
    split <;> rfl
  | report outcome now =>
    obtain ⟨host, tables, fetched, report, stopping⟩ := node
    cases report with
    | ret value | raise error => exact .inl (conditions_loops rfl)
    | call label request next =>
      obtain same | ⟨cid, condition, status, reason, rfl, done, set⟩ :=
        conditions_handler outcome now request host tables
      · exact .inl same
      · exact .inr ⟨outcome, now, cid, condition, status, reason, rfl, done, rfl, set⟩
  | fetch | pump bus jitter clock | retention allowed => exact .inl (conditions_loops rfl)
  | deleteCamera cid | segmentClosed cid start end_ path bytes | stop | boot epoch startedAt => exact .inl rfl

theorem keyed_run (epoch : Int) (startedAt : ℚ) (events : List NodeVms.Event) :
    Keyed key (events.foldl NodeVms.step (.new epoch startedAt PgStore.empty)).tables.conditions := by
  induction events using List.reverseRecOn with
  | nil => exact List.nodup_nil
  | append_singleton events event ih =>
    rw [List.foldl_append, List.foldl_cons, List.foldl_nil]
    obtain same | ⟨_, _, _, _, _, _, -, -, -, set⟩ :=
      conditions_step (events.foldl NodeVms.step (.new epoch startedAt PgStore.empty)) event
    · rw [same]
      exact ih
    · rw [set]
      exact keyed_setCondition ih

/-- Over all runs of a Node, with its crashes and the calls that fail or are not answered: each condition got its
status from a call made at its `since`, before which it had another or none, and has had it ever since. -/
theorem since_first_written (epoch : Int) (startedAt : ℚ) (events : List NodeVms.Event) :
    ∀ row ∈ (events.foldl NodeVms.step (.new epoch startedAt PgStore.empty)).tables.conditions,
      Since NodeVms.step (.new epoch startedAt PgStore.empty) (Began row) (Shows row) events := by
  induction events using List.reverseRecOn with
  | nil => exact fun _ none => (List.not_mem_nil none).elim
  | append_singleton events event ih =>
    intro row member
    have still : Shows row ((events ++ [event]).foldl NodeVms.step (.new epoch startedAt PgStore.empty)) :=
      ⟨row, member, rfl, rfl, rfl⟩
    have keyed := keyed_run epoch startedAt events
    refine since_concat ?_ still
    rw [List.foldl_append, List.foldl_cons, List.foldl_nil] at member
    generalize events.foldl NodeVms.step (.new epoch startedAt PgStore.empty) = node at ih member keyed ⊢
    obtain same | ⟨outcome, now, cid, condition, status, reason, rfl, done, asked, set⟩ := conditions_step node event
    · exact .inl (ih row (same ▸ member))
    · rw [set] at member
      obtain before | ⟨old, inside, named, rfl⟩ | ⟨absent, rfl⟩ := mem_setCondition member
      · -- another condition
        exact .inl (ih row before)
      · obtain ⟨rfl, rfl⟩ := Prod.mk.inj named
        by_cases unmoved : old.status = status
        · -- the same status again
          subst unmoved
          rw [if_pos rfl]
          exact .inl (ih old inside)
        · -- the status flips here, so the condition did not have the new one
          rw [if_neg unmoved]
          refine .inr ⟨⟨done, rfl, reason, asked⟩, ?_⟩
          rintro ⟨other, there, same, flipped⟩
          obtain rfl : other = old := keyed.eq_of_key there inside same
          exact unmoved flipped
      · -- there was no row of it
        refine .inr ⟨⟨done, rfl, reason, asked⟩, ?_⟩
        rintro ⟨other, there, same, -⟩
        exact absent other there same

/-! ## A camera that does not start -/

/-- A pass that fails, and nearly two reports, one call at each second. -/
def failing : List NodeVms.Event :=
  [.createCamera [("name", .text "gate"), ("rtsp_url", .text "rtsp://gate/1")] fun _ _ => .error .actuator, .fetch,
    .reconcile (fun _ => .ok false) (fun _ => 0) 1] ++
  (List.range 16).map fun n => .report .done n

/-- The second report says again that the camera cannot be reached, and the time is that of the first. -/
theorem since_first_written_failing :
    ∃ row ∈ (failing.foldl NodeVms.step (.new 1 0 PgStore.empty)).tables.conditions,
      row.status = false ∧ row.since = 5 ∧
        Since NodeVms.step (.new 1 0 PgStore.empty) (Began row) (Shows row) failing := by
  have table : ((failing.foldl NodeVms.step (.new 1 0 PgStore.empty)).tables.conditions.map fun row =>
      (row.status, row.since)) = [(false, 5), (true, 7), (true, 8)] := by decide +kernel
  obtain ⟨row, member, shown⟩ := List.mem_map.mp (table.symm ▸ List.mem_cons_self)
  obtain ⟨status, since⟩ := Prod.mk.inj shown
  exact ⟨row, member, status, since, since_first_written 1 0 failing row member⟩

end EdgeVms.Verified.ConditionSince
