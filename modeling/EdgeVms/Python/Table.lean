import EdgeVms.Python.Value

/-! # Dictionaries with integer keys -/

namespace EdgeVms.Python

/-- A dictionary keyed by integers, in insertion order. -/
abbrev Table (α : Type) := List (Int × α)

namespace Table

variable {α : Type}

def get? (table : Table α) (key : Int) : Option α := (table.find? fun entry => entry.1 = key).map Prod.snd

/-- `key in table` -/
def has (table : Table α) (key : Int) : Bool := (table.get? key).isSome

/-- `table[key] = value`: a key that is there keeps its place. -/
def set : Table α → Int → α → Table α
  | [], key, value => [(key, value)]
  | (key', value') :: rest, key, value =>
    if key' = key then (key', value) :: rest else (key', value') :: set rest key value

/-- `table.pop(key, None)` -/
def pop (table : Table α) (key : Int) : Table α := table.filter fun entry => entry.1 ≠ key

def keys (table : Table α) : List Int := table.map Prod.fst

theorem get?_cons (key key' : Int) (value : α) (rest : Table α) :
    get? ((key', value) :: rest) key = if key' = key then some value else get? rest key := by
  by_cases same : key' = key <;> simp [get?, same]

@[simp] theorem get?_set (table : Table α) (key key' : Int) (value : α) :
    (table.set key value).get? key' = if key = key' then some value else table.get? key' := by
  induction table with
  | nil => rw [set, get?_cons]
  | cons entry rest ih =>
    obtain ⟨first, value'⟩ := entry
    by_cases same : first = key
    · subst same
      rw [set, if_pos rfl, get?_cons, get?_cons]
      split <;> rfl
    · rw [set, if_neg same, get?_cons, get?_cons, ih]
      by_cases here : first = key'
      · subst here
        rw [if_pos rfl, if_pos rfl, if_neg fun other => same other.symm]
      · rw [if_neg here, if_neg here]

@[simp] theorem get?_pop (table : Table α) (key key' : Int) :
    (table.pop key).get? key' = if key = key' then none else table.get? key' := by
  induction table with
  | nil => simp [pop, get?]
  | cons entry rest ih =>
    obtain ⟨first, value⟩ := entry
    by_cases same : first = key
    · subst same
      have gone : pop ((first, value) :: rest) first = pop rest first := by simp [pop]
      rw [gone, ih, get?_cons]
      split <;> rfl
    · have kept : pop ((first, value) :: rest) key = (first, value) :: pop rest key := by simp [pop, same]
      rw [kept, get?_cons, ih, get?_cons]
      by_cases here : first = key'
      · subst here
        rw [if_pos rfl, if_pos rfl, if_neg fun other => same other.symm]
      · rw [if_neg here, if_neg here]

@[simp] theorem has_set (table : Table α) (key key' : Int) (value : α) :
    (table.set key value).has key' = (decide (key = key') || table.has key') := by
  by_cases same : key = key' <;> simp [has, same]

@[simp] theorem has_pop (table : Table α) (key key' : Int) :
    (table.pop key).has key' = (!decide (key = key') && table.has key') := by
  by_cases same : key = key' <;> simp [has, same]

theorem has_iff_mem {table : Table α} {key : Int} : table.has key = true ↔ key ∈ table.keys := by
  induction table with
  | nil => simp [has, get?, keys]
  | cons entry rest ih =>
    obtain ⟨first, value⟩ := entry
    rw [has, get?_cons, keys, List.map_cons, List.mem_cons]
    by_cases same : first = key
    · simp [same]
    · rw [if_neg same]
      exact ih.trans ⟨.inr, fun either => either.resolve_left fun here => same here.symm⟩

theorem mem_of_get? {table : Table α} {key : Int} {value : α} (found : table.get? key = some value) :
    (key, value) ∈ table := by
  induction table with
  | nil => cases found
  | cons entry rest ih =>
    obtain ⟨first, value'⟩ := entry
    rw [get?_cons] at found
    split at found
    next same =>
      subst same
      cases found
      exact .head _
    next => exact .tail _ (ih found)

theorem get?_of_mem {table : Table α} (nodup : table.keys.Nodup) {key : Int} {value : α}
    (member : (key, value) ∈ table) :
    table.get? key = some value := by
  induction table with
  | nil => cases member
  | cons entry rest ih =>
    obtain ⟨first, value'⟩ := entry
    obtain ⟨fresh, nodup⟩ := List.nodup_cons.mp nodup
    rw [get?_cons]
    cases member with
    | head => exact if_pos rfl
    | tail _ later =>
      have other : first ≠ key := by
        rintro rfl
        exact fresh (List.mem_map.mpr ⟨_, later, rfl⟩)
      rw [if_neg other]
      exact ih nodup later

theorem mem_set {table : Table α} {key : Int} {value : α} {entry : Int × α} (member : entry ∈ table.set key value) :
    entry = (key, value) ∨ entry ∈ table := by
  induction table with
  | nil => exact .inl (List.mem_singleton.mp member)
  | cons first rest ih =>
    obtain ⟨key', value'⟩ := first
    rw [set] at member
    split at member
    next same =>
      subst same
      obtain here | later := List.mem_cons.mp member
      · exact .inl here
      · exact .inr (.tail _ later)
    next =>
      obtain here | later := List.mem_cons.mp member
      · exact .inr (here ▸ .head _)
      · exact (ih later).imp id (.tail _)

/-- A new key comes last. -/
theorem set_of_absent {table : Table α} {key : Int} (value : α) (absent : table.get? key = none) :
    table.set key value = table ++ [(key, value)] := by
  induction table with
  | nil => rfl
  | cons entry rest ih =>
    obtain ⟨first, value'⟩ := entry
    rw [get?_cons] at absent
    rw [set]
    split at absent
    next => cases absent
    next other => rw [if_neg other, ih absent, List.cons_append]

theorem get?_eq_none {table : Table α} {key : Int} : table.get? key = none ↔ key ∉ table.keys := by
  rw [← has_iff_mem, has, Bool.not_eq_true, Option.isSome_eq_false_iff, Option.isNone_iff_eq_none]

/-- A dictionary made of a list with distinct keys. -/
theorem foldl_set {β : Type} (key : β → Int) (xs : List β) (distinct : (xs.map key).Nodup) :
    xs.foldl (fun (table : Table β) x => table.set (key x) x) [] = xs.map fun x => (key x, x) := by
  have grows (xs : List β) (distinct : (xs.map key).Nodup) (table : Table β) (fresh : ∀ x ∈ xs, key x ∉ table.keys) :
      xs.foldl (fun (table : Table β) x => table.set (key x) x) table = table ++ xs.map fun x => (key x, x) := by
    induction xs generalizing table with
    | nil => rw [List.foldl_nil, List.map_nil, List.append_nil]
    | cons x rest ih =>
      obtain ⟨others, distinct⟩ := List.nodup_cons.mp distinct
      obtain ⟨here, fresh⟩ := List.forall_mem_cons.mp fresh
      rw [List.foldl_cons, set_of_absent x (get?_eq_none.mpr here), ih distinct]
      · rw [List.append_assoc, List.map_cons, List.singleton_append]
      · intro later member inside
        rw [keys, List.map_append, List.mem_append] at inside
        obtain before | same := inside
        · exact fresh later member before
        · rw [List.map_singleton, List.mem_singleton] at same
          exact others (List.mem_map.mpr ⟨later, member, same⟩)
  exact grows xs distinct [] fun _ _ inside => nomatch inside

/-- A key that is set to what it has changes nothing. -/
theorem set_of_get? {table : Table α} {key : Int} {value : α} (found : table.get? key = some value) :
    table.set key value = table := by
  induction table with
  | nil => cases found
  | cons entry rest ih =>
    obtain ⟨first, value'⟩ := entry
    rw [get?_cons] at found
    rw [set]
    split at found
    next same =>
      cases found
      rw [if_pos same]
    next other => rw [if_neg other, ih found]

theorem keys_set (table : Table α) (key : Int) (value : α) :
    (table.set key value).keys = if key ∈ table.keys then table.keys else table.keys ++ [key] := by
  induction table with
  | nil => simp [set, keys]
  | cons entry rest ih =>
    obtain ⟨first, value'⟩ := entry
    have split : keys ((first, value') :: rest) = first :: keys rest := rfl
    by_cases same : first = key
    · subst same
      rw [set, if_pos rfl, split, if_pos List.mem_cons_self]
      rfl
    · rw [set, if_neg same]
      show first :: keys (set rest key value) = _
      rw [ih, split]
      by_cases later : key ∈ keys rest
      · rw [if_pos later, if_pos (.tail _ later)]
      · rw [if_neg later, if_neg (by simpa [Ne.symm same] using later), List.cons_append]

theorem keys_pop (table : Table α) (key : Int) : (table.pop key).keys = table.keys.filter (· ≠ key) := by
  simp only [pop, keys, List.filter_map]
  rfl

theorem nodup_pop {table : Table α} (nodup : table.keys.Nodup) (key : Int) : (table.pop key).keys.Nodup :=
  nodup.sublist (List.filter_sublist.map Prod.fst)

/-- A key that is set moves no other entry. -/
theorem set_perm {table : Table α} (nodup : table.keys.Nodup) (key : Int) (value : α) :
    (table.set key value).Perm ((key, value) :: table.pop key) := by
  induction table with
  | nil => exact .refl _
  | cons entry rest ih =>
    obtain ⟨first, value'⟩ := entry
    obtain ⟨fresh, nodup⟩ := List.nodup_cons.mp nodup
    by_cases same : first = key
    · subst same
      have gone : pop ((first, value') :: rest) first = rest := by
        have others : ∀ entry ∈ rest, decide (entry.1 ≠ first) = true := by
          intro entry member
          have other : entry.1 ≠ first := fun here => fresh (List.mem_map.mpr ⟨entry, member, here⟩)
          exact decide_eq_true other
        simp only [pop, List.filter_cons, ne_eq, not_true_eq_false, decide_false, Bool.false_eq_true, if_false]
        exact List.filter_eq_self.mpr others
      rw [set, if_pos rfl, gone]
    · have kept : pop ((first, value') :: rest) key = (first, value') :: pop rest key := by simp [pop, same]
      rw [set, if_neg same, kept]
      exact ((ih nodup).cons _).trans (.swap ..)

theorem nodup_set {table : Table α} (nodup : table.keys.Nodup) (key : Int) (value : α) :
    (table.set key value).keys.Nodup := by
  have perm : (table.set key value).keys.Perm (key :: (table.pop key).keys) := (set_perm nodup key value).map Prod.fst
  rw [perm.nodup_iff, List.nodup_cons]
  refine ⟨fun member => ?_, nodup_pop nodup key⟩
  have there := has_iff_mem.mpr member
  rw [has_pop] at there
  simp at there

end Table

end EdgeVms.Python
