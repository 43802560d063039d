import EdgeVms.Verified.Platform.Rules
import EdgeVms.Vms.Controller

/-! # Placement rows and assignment lists

What the store says about a camera, in two places that no single write covers:
the worker its placement row names, and the lists it stands in.  `Consistent`
ties the two together; the lemmas say what each write does to either.
-/

namespace EdgeVms.Verified

open Process Python Platform Vms

/-- The placement row of a unit. -/
def placementRow (unit : String) : Key := vms.config ["placement", unit]

def unitsIn (items : Items) : List String :=
  fields ',' (((items.get? "units").map Text.string).getD "")

/-- The units that stand in a worker's list. -/
def unitsOf (rows : Rows) (worker : String) : List String :=
  ((rows.read (vms.assignment worker)).map unitsIn).getD []

/-- A worker's name; the empty text names nobody. -/
def named (worker : String) : Option String := if worker = "" then none else some worker

def workerIn (items : Items) : Option String :=
  ((items.get? "worker").map Text.string).bind named

/-- The worker that the placement row of a unit names. -/
def workerOf (rows : Rows) (unit : String) : Option String :=
  (rows.read (placementRow unit)).bind workerIn

/-- A camera stands in no worker's list but that of the worker its placement row names. -/
def Consistent (rows : Rows) : Prop :=
  ∀ (cid : Int) worker, worker ≠ "" → toString cid ∈ unitsOf rows worker →
    workerOf rows (toString cid) = some worker

theorem named_eq_some {worker name : String} : named worker = some name ↔ worker = name ∧ worker ≠ "" := by
  unfold named
  split
  next empty => simp [empty]
  next nonempty => simp [nonempty]

theorem workerOf_ne_empty (rows : Rows) (unit : String) : workerOf rows unit ≠ some "" := by
  intro claimed
  simp only [workerOf, workerIn, Option.bind_eq_some_iff, named_eq_some] at claimed
  obtain ⟨_, _, text, _, same, nonempty⟩ := claimed
  exact nonempty same

/-! ## What a write changes -/

theorem unitsOf_write_self (rows : Rows) (worker : String) (items : Items) :
    unitsOf (rows.write (vms.assignment worker) items) worker = unitsIn items := by
  simp [unitsOf]

theorem unitsOf_write_other (rows : Rows) {key : Key} (items : Items) {worker : String}
    (other : key ≠ vms.assignment worker) : unitsOf (rows.write key items) worker = unitsOf rows worker := by
  simp [unitsOf, other.symm]

theorem workerOf_write_self (rows : Rows) (unit : String) (items : Items) :
    workerOf (rows.write (placementRow unit) items) unit = workerIn items := by
  simp [workerOf]

theorem workerOf_write_other (rows : Rows) {key : Key} (items : Items) {unit : String}
    (other : key ≠ placementRow unit) : workerOf (rows.write key items) unit = workerOf rows unit := by
  simp [workerOf, other.symm]

@[simp] theorem assignment_inj {worker name : String} :
    vms.assignment worker = vms.assignment name ↔ worker = name := by
  simp [Subsystem.assignment]

@[simp] theorem placementRow_inj {unit name : String} : placementRow unit = placementRow name ↔ unit = name := by
  simp [placementRow, Subsystem.config]

@[simp] theorem assignment_ne_placementRow (worker unit : String) :
    vms.assignment worker ≠ placementRow unit := by
  simp [Subsystem.assignment, placementRow, Subsystem.config]

@[simp] theorem placementRow_ne_assignment (worker unit : String) :
    placementRow unit ≠ vms.assignment worker := (assignment_ne_placementRow worker unit).symm

/-- The keys that say nothing about placement. -/
def Aside (key : Key) : Prop := (∀ worker, key ≠ vms.assignment worker) ∧ ∀ unit, key ≠ placementRow unit

theorem aside_cameras (unit : String) : Aside (VmsController.cameraKey unit) := by
  simp [Aside, VmsController.cameraKey, placementRow, Subsystem.assignment, Subsystem.config]

theorem aside_retention (cid : Int) : Aside (VmsController.retentionKey cid) := by
  simp [Aside, VmsController.retentionKey, placementRow, Subsystem.assignment, Subsystem.config]

theorem aside_nextId : Aside (vms.config ["next_id"]) := by
  simp [Aside, placementRow, Subsystem.assignment, Subsystem.config]

theorem Aside.unitsOf {key : Key} (aside : Aside key) (rows : Rows) (items : Items) (worker : String) :
    unitsOf (rows.write key items) worker = unitsOf rows worker := unitsOf_write_other _ _ (aside.1 worker)

theorem Aside.workerOf {key : Key} (aside : Aside key) (rows : Rows) (items : Items) (unit : String) :
    workerOf (rows.write key items) unit = workerOf rows unit := workerOf_write_other _ _ (aside.2 unit)

/-! ## Rows as the controller writes and reads them -/

@[simp] theorem get?_stored (items : Dict Value) (key : String) :
    Dict.get? (stored items) key = (items.get? key).map Value.text := Dict.get?_mapValues _ _ _

@[simp] theorem get?_rowValues (items : Option Items) (key : String) :
    Dict.get? (rowValues items) key = ((items.getD []).get? key).map Value.str := Dict.get?_mapValues _ _ _

theorem unitsIn_toItems {a : Assignment} (atomic : ∀ unit ∈ a.units, Atomic ',' unit) :
    unitsIn (stored a.toItems) = a.units := by
  simp [unitsIn, Assignment.toItems, Dict.get?_cons, fields_join atomic]

theorem workerIn_placementItems (worker : String) (reason : Text) (at_ : ℚ) (rev : Int) :
    workerIn (stored (VmsController.placementItems (.plain worker) reason at_ rev)) = named worker := by
  simp [workerIn, VmsController.placementItems, Dict.get?_cons]

/-- A list that was read is the list that stands in the row. -/
theorem units_fromItems {rows : Rows} {worker name : String} {a : Assignment}
    (read : Assignment.fromItems name (rowValues (rows.read (vms.assignment worker))) = .ok a) :
    a.units = unitsOf rows worker ∧ ∀ unit ∈ a.units, Atomic ',' unit := by
  cases there : rows.read (vms.assignment worker) with
  | none =>
    rw [there] at read
    cases read
    simp [unitsOf, there]
  | some items =>
    rw [there] at read
    have units : a.units = unitsIn items := by
      unfold Assignment.fromItems at read
      split at read
      next empty =>
        cases read
        have nothing : items = [] := by simpa [rowValues, Dict.mapValues] using empty
        simp [unitsIn, nothing, fields, split]
      next =>
        simp only [bind_eq_ok] at read
        obtain ⟨parts, texts, rev, _, ends⟩ := read
        cases ends
        cases stands : items.get? "units" with
        | none =>
          simp only [Dict.getD, get?_rowValues, Option.getD_some, stands, Option.map_none,
            Option.getD_none, Value.splitCommas, Except.ok.injEq] at texts
          simp [unitsIn, stands, fields, ← texts]
        | some text =>
          simp only [Dict.getD, get?_rowValues, Option.getD_some, stands, Option.map_some,
            Value.splitCommas, Except.ok.injEq] at texts
          simp [unitsIn, stands, fields, ← texts]
    refine ⟨by simp [unitsOf, there, units], fun unit member => ?_⟩
    rw [units] at member
    exact atomic_fields member

end EdgeVms.Verified
