import Mathlib.Logic.Function.Basic
import Mathlib.Data.List.Nodup

/-! # Versioned rows and check-and-set

A table of rows in which every write gets the next number of one counter.  A
writer that names the version it read succeeds only if nobody wrote in between:
`Later.row_of_version` is that promise, for any number of writes by anybody.
-/

namespace EdgeVms.Process

/-- Rows of type `R k` under keys `k`, each with the counter value of its last write.
`keys` is what a listing sees. -/
structure Versioned (K : Type) (R : K → Type) where
  row : (k : K) → Option (R k × Nat)
  keys : List K
  index : Nat
  listed : ∀ k, k ∈ keys ↔ (row k).isSome
  nodup : keys.Nodup
  bounded : ∀ k r i, row k = some (r, i) → 0 < i ∧ i ≤ index

namespace Versioned

variable {K : Type} {R : K → Type}

/-- No rows; the counter starts at `index`. -/
def empty (index : Nat) : Versioned K R where
  row := fun _ => none
  keys := []
  index := index
  listed := by simp
  nodup := List.nodup_nil
  bounded := by simp

/-- The row under a key, without its version. -/
def read (table : Versioned K R) (k : K) : Option (R k) := (table.row k).map Prod.fst

/-- The version of a key: 0 when there is no row. -/
def version (table : Versioned K R) (k : K) : Nat := ((table.row k).map Prod.snd).getD 0

/-- Does the version the writer names, if it names one, still stand? -/
def Matches (table : Versioned K R) (k : K) (cas : Option Nat) : Prop :=
  ∀ expected, cas = some expected → expected = table.version k

instance (table : Versioned K R) (k : K) (cas : Option Nat) : Decidable (table.Matches k cas) :=
  match cas with
  | none => .isTrue (by simp [Matches])
  | some expected => decidable_of_iff (expected = table.version k) (by simp [Matches])

@[simp] theorem matches_version (table : Versioned K R) (k : K) :
    table.Matches k (some (table.version k)) := by simp [Matches]

theorem version_le (table : Versioned K R) (k : K) : table.version k ≤ table.index := by
  unfold version
  cases stored : table.row k with
  | none => simp
  | some entry => exact (table.bounded k entry.1 entry.2 stored).2

theorem row_none_of_version (table : Versioned K R) {k : K} (zero : table.version k = 0) :
    table.row k = none := by
  cases stored : table.row k with
  | none => rfl
  | some entry =>
    have positive := (table.bounded k entry.1 entry.2 stored).1
    simp only [version, stored, Option.map_some, Option.getD_some] at zero
    omega

theorem mem_keys (table : Versioned K R) {k : K} : k ∈ table.keys ↔ table.read k ≠ none := by
  rw [table.listed, read]
  cases table.row k <;> simp

section Writes

variable [DecidableEq K]

def write (table : Versioned K R) (k : K) (r : R k) : Versioned K R where
  row := Function.update table.row k (some (r, table.index + 1))
  keys := if (table.row k).isSome then table.keys else k :: table.keys
  index := table.index + 1
  listed := by
    intro k'
    by_cases same : k' = k
    · subst same
      rw [Function.update_self]
      split
      next present => simp [(table.listed k').mpr present]
      next absent => simp
    · rw [Function.update_of_ne same]
      split
      next present => exact table.listed k'
      next absent => simp [table.listed k', same]
  nodup := by
    split
    next present => exact table.nodup
    next absent => exact List.nodup_cons.mpr ⟨fun member => absent ((table.listed k).mp member), table.nodup⟩
  bounded := by
    intro k' r' i stored
    by_cases same : k' = k
    · subst same
      rw [Function.update_self] at stored
      cases stored
      omega
    · rw [Function.update_of_ne same] at stored
      have := table.bounded k' r' i stored
      omega

def remove (table : Versioned K R) (k : K) : Versioned K R where
  row := Function.update table.row k none
  keys := table.keys.filter (· ≠ k)
  index := table.index + 1
  listed := by
    intro k'
    by_cases same : k' = k
    · subst same; simp
    · rw [Function.update_of_ne same]
      simp [same, table.listed k']
  nodup := table.nodup.filter _
  bounded := by
    intro k' r' i stored
    by_cases same : k' = k
    · subst same; simp at stored
    · rw [Function.update_of_ne same] at stored
      have := table.bounded k' r' i stored
      omega

@[simp] theorem read_write_self (table : Versioned K R) (k : K) (r : R k) :
    (table.write k r).read k = some r := by simp [read, write]

@[simp] theorem read_write_other (table : Versioned K R) {k k' : K} (r : R k) (other : k' ≠ k) :
    (table.write k r).read k' = table.read k' := by
  simp [read, write, Function.update_of_ne other]

@[simp] theorem version_write_self (table : Versioned K R) (k : K) (r : R k) :
    (table.write k r).version k = table.index + 1 := by simp [version, write]

@[simp] theorem version_write_other (table : Versioned K R) {k k' : K} (r : R k) (other : k' ≠ k) :
    (table.write k r).version k' = table.version k' := by
  simp [version, write, Function.update_of_ne other]

theorem read_write (table : Versioned K R) (k : K) (r : R k) :
    (table.write k r).read = Function.update table.read k (some r) := by
  funext k'
  by_cases same : k' = k
  · subst same
    rw [read_write_self, Function.update_self]
  · rw [read_write_other _ _ same, Function.update_of_ne same]

theorem read_remove (table : Versioned K R) (k : K) :
    (table.remove k).read = Function.update table.read k none := by
  funext k'
  by_cases same : k' = k
  · subst same; simp [read, remove]
  · simp [read, remove, Function.update_of_ne same]

theorem read_remove_other (table : Versioned K R) {k k' : K} (other : k' ≠ k) :
    (table.remove k).read k' = table.read k' := by
  rw [read_remove, Function.update_of_ne other]

theorem read_of_read_remove {table : Versioned K R} {k k' : K} {r : R k'}
    (stored : (table.remove k).read k' = some r) : table.read k' = some r := by
  by_cases same : k' = k
  · subst same
    rw [read_remove, Function.update_self] at stored
    cases stored
  · rwa [read_remove_other table same] at stored

end Writes

/-! ## What any number of writes leave in place -/

/-- `table'` comes after `table`: rows differ from the old ones only by writes with newer versions,
or by removal. -/
structure Later (table table' : Versioned K R) : Prop where
  index : table.index ≤ table'.index
  rows : ∀ k, table'.row k = table.row k ∨ table.index < table'.version k ∨ table'.row k = none

namespace Later

variable {table table' table'' : Versioned K R}

theorem refl (table : Versioned K R) : Later table table :=
  ⟨Nat.le_refl _, fun _ => .inl rfl⟩

theorem trans (first : Later table table') (second : Later table' table'') : Later table table'' := by
  refine ⟨Nat.le_trans first.index second.index, fun k => ?_⟩
  obtain kept | newer | gone := second.rows k
  · obtain kept' | newer | gone := first.rows k
    · exact .inl (kept.trans kept')
    · exact .inr (.inl (by rwa [version, kept]))
    · exact .inr (.inr (kept.trans gone))
  · exact .inr (.inl (Nat.lt_of_le_of_lt first.index newer))
  · exact .inr (.inr gone)

/-- A version that still stands means a row nobody touched. -/
theorem row_of_version (later : Later table table') {k : K}
    (same : table'.version k = table.version k) : table'.row k = table.row k := by
  obtain kept | newer | gone := later.rows k
  · exact kept
  · have bound := table.version_le k
    omega
  · have zero : table.version k = 0 := by rw [← same]; simp [version, gone]
    rw [gone, table.row_none_of_version zero]

/-- A check-and-set that names the version read at `table` and goes through at `table'` replaces the
row read at `table`. -/
theorem read_of_matches (later : Later table table') {k : K}
    (goes : table'.Matches k (some (table.version k))) : table'.read k = table.read k := by
  have same := goes _ rfl
  rw [read, later.row_of_version same.symm, read]

theorem write [DecidableEq K] (table : Versioned K R) (k : K) (r : R k) :
    Later table (table.write k r) := by
  refine ⟨Nat.le_succ _, fun k' => ?_⟩
  by_cases same : k' = k
  · subst same; exact .inr (.inl (by simp))
  · exact .inl (Function.update_of_ne same _ _)

theorem remove [DecidableEq K] (table : Versioned K R) (k : K) : Later table (table.remove k) := by
  refine ⟨Nat.le_succ _, fun k' => ?_⟩
  by_cases same : k' = k
  · subst same; exact .inr (.inr (Function.update_self _ _ _))
  · exact .inl (Function.update_of_ne same _ _)

end Later

end Versioned

end EdgeVms.Process
