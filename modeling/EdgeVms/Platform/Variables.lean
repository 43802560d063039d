import EdgeVms.Platform.World
import Mathlib.Data.List.Infix

/-! # The config store on one box

`FileVariables` keeps one JSON file per path and one counter.  A call holds the
lock from its read of the index to its rename, so each call is one step here.
`Honest` is what the platform's programs rely on, whichever store they run over.
-/

namespace EdgeVms.Platform

open Process Python

/-- The texts that a written row holds. -/
def stored (items : Dict Value) : Items := items.mapValues Value.text

namespace FileVariables

/-- `_safe` refuses the path. -/
def refuses (key : Key) : Bool := "..".toList <:+: key.path.toList || key.path.toList.head? = some '/'

def get (rows : Rows) (key : Key) : Except Exn (Option Items × Nat) :=
  if refuses key then .error (.python .valueError)
  else .ok (rows.read key, rows.version key)

def put (view : View) (rows : Rows) (key : Key) (items : Dict Value) (cas : Option Nat) :
    Except Exn Nat × Rows :=
  match view.forbids key.path with
  | some message => (.error (.forbidden .vmsplatform message), rows)
  | none =>
    match get rows key with
    | .error error => (.error error, rows)
    | .ok (_, current) =>
      match cas with
      | some expected =>
        if expected ≠ current then
          (.error (.conflict .vmsplatform
            (key.path ++ ": cas=" ++ toString expected ++ " but ModifyIndex=" ++ toString current)), rows)
        else (.ok (rows.index + 1), rows.write key (stored items))
      | none => (.ok (rows.index + 1), rows.write key (stored items))

def delete (rows : Rows) (key : Key) (cas : Option Nat) : Except Exn Unit × Rows :=
  match get rows key with
  | .error error => (.error error, rows)
  | .ok (_, current) =>
    match cas with
    | some expected =>
      if expected ≠ current then
        (.error (.conflict .vmsplatform
          (key.path ++ ": cas=" ++ toString expected ++ " but ModifyIndex=" ++ toString current)), rows)
      -- the counter moves even when there was no file to remove
      else (.ok (), rows.remove key)
    | none => (.ok (), rows.remove key)

end FileVariables

def FileVariables : Variables := ⟨FileVariables.get, FileVariables.put, listing⟩

/-- A store whose reads are the rows, whose writes are check-and-set, and whose refusals change
nothing. -/
structure Honest (store : Variables) : Prop where
  get_ok : ∀ {rows key items index}, store.get rows key = .ok (items, index) →
    items = rows.read key ∧ index = rows.version key
  put_ok : ∀ {view rows key items cas index rows'}, store.put view rows key items cas = (.ok index, rows') →
    rows.Matches key cas ∧ rows' = rows.write key (stored items)
  put_error : ∀ {view rows key items cas error rows'},
    store.put view rows key items cas = (.error error, rows') → rows' = rows
  list_eq : store.list = listing

theorem mem_listing {rows : Rows} {above key : Key} :
    key ∈ listing rows above ↔ rows.read key ≠ none ∧ above <+: key ∧ key ≠ above := by
  simp only [listing, List.mem_insertionSort, List.mem_filter, Versioned.mem_keys, Bool.and_eq_true,
    List.isPrefixOf_iff_prefix, decide_eq_true_eq]

theorem FileVariables.honest : Honest FileVariables where
  get_ok := by
    intro rows key items index answered
    simp only [FileVariables, FileVariables.get] at answered
    split at answered
    · cases answered
    · cases answered
      exact ⟨rfl, rfl⟩
  put_ok := by
    intro view rows key items cas index rows' answered
    simp only [FileVariables, FileVariables.put, FileVariables.get] at answered
    split at answered
    · cases answered
    · split at answered
      next refused => cases answered
      next readable =>
        split at readable
        · cases readable
        · cases readable
          split at answered
          next expected =>
            split at answered
            · cases answered
            next same =>
              cases answered
              exact ⟨by simpa [Versioned.Matches] using same, rfl⟩
          next =>
            cases answered
            exact ⟨by simp [Versioned.Matches], rfl⟩
  put_error := by
    intro view rows key items cas error rows' answered
    simp only [FileVariables, FileVariables.put] at answered
    repeat' split at answered
    all_goals cases answered
    all_goals rfl
  list_eq := rfl

/-- What a `delete` does to the rows: nothing, or one removal. -/
theorem FileVariables.delete_cases (rows : Rows) (key : Key) (cas : Option Nat) :
    (∃ error, FileVariables.delete rows key cas = (.error error, rows)) ∨
      FileVariables.delete rows key cas = (.ok (), rows.remove key) := by
  unfold FileVariables.delete
  cases FileVariables.get rows key with
  | error error => exact .inl ⟨error, rfl⟩
  | ok answer =>
    cases cas with
    | none => exact .inr rfl
    | some expected =>
      dsimp only
      split
      · exact .inl ⟨_, rfl⟩
      · exact .inr rfl

/-- A check-and-set that names the version that stands is never in conflict. -/
theorem FileVariables.put_current (view : View) (rows : Rows) (key : Key) (items : Dict Value) :
    (∃ index, FileVariables.put view rows key items (some (rows.version key)) =
        (.ok index, rows.write key (stored items))) ∨
      ∃ error, FileVariables.put view rows key items (some (rows.version key)) = (.error error, rows) ∧
        ∀ package message, error ≠ .conflict package message := by
  unfold FileVariables.put FileVariables.get
  cases view.forbids key.path with
  | some message => exact .inr ⟨_, rfl, by simp⟩
  | none =>
    by_cases refused : FileVariables.refuses key
    · exact .inr ⟨_, by simp only [refused, if_true]; rfl, by simp⟩
    · exact .inl ⟨rows.index + 1, by simp [refused]⟩

/-- What a `put` does to the rows: nothing, or one write that its `cas` allows. -/
theorem Honest.put_cases {store : Variables} (honest : Honest store) (view : View) (rows : Rows)
    (key : Key) (items : Dict Value) (cas : Option Nat) :
    (∃ error, store.put view rows key items cas = (.error error, rows)) ∨
      ∃ index, rows.Matches key cas ∧
        store.put view rows key items cas = (.ok index, rows.write key (stored items)) := by
  cases answered : store.put view rows key items cas with
  | mk answer rows' =>
    cases answer with
    | error error =>
      have kept := honest.put_error answered
      subst kept
      exact .inl ⟨error, rfl⟩
    | ok index =>
      obtain ⟨allowed, rfl⟩ := honest.put_ok answered
      exact .inr ⟨index, allowed, rfl⟩

/-- The rows after a request are the rows before it, or those with one more write. -/
theorem Honest.step_cases {store : Variables} (honest : Honest store) {ι M : Type} [DecidableEq ι]
    (view : View) (i : ι) (request : Request M) (world : World ι M) :
    (handler store view i request world).2.vars = world.vars ∨
      ∃ key items cas, request = .put key items cas ∧ world.vars.Matches key cas ∧
        (handler store view i request world).2.vars = world.vars.write key (stored items) := by
  cases request with
  | put key items cas =>
    obtain ⟨error, answered⟩ | ⟨index, allowed, answered⟩ :=
      honest.put_cases view world.vars key items cas
    · left
      simp [handler, answered]
    · right
      exact ⟨key, items, cas, rfl, allowed, by simp [handler, answered]⟩
  | _ => exact .inl rfl

end EdgeVms.Platform
