import Mathlib.Data.List.Basic
import Mathlib.Data.List.Induction
import Mathlib.Data.List.Nodup
import Mathlib.Data.List.Perm.Basic

/-! # Grouping by a key

The groups of a list in the order in which their keys come up.  Each group is a
selection of the list, and together they have every element once.
-/

namespace EdgeVms.Process.Grouping

variable {α κ : Type} [DecidableEq κ] (key : α → κ)

/-- `groups.setdefault(key(x), []).append(x)` -/
def add : List (κ × List α) → α → List (κ × List α)
  | [], x => [(key x, [x])]
  | (k, group) :: rest, x => if k = key x then (k, group ++ [x]) :: rest else (k, group) :: add rest x

def groups (xs : List α) : List (κ × List α) := xs.foldl (add key) []

theorem add_map (keys : List κ) (nodup : keys.Nodup) (group : κ → List α) (x : α) :
    add key (keys.map fun k => (k, group k)) x =
      if key x ∈ keys then keys.map fun k => (k, if k = key x then group k ++ [x] else group k)
      else (keys.map fun k => (k, group k)) ++ [(key x, [x])] := by
  induction keys with
  | nil => rfl
  | cons k rest ih =>
    obtain ⟨fresh, nodup⟩ := List.nodup_cons.mp nodup
    rw [List.map_cons, add]
    by_cases same : k = key x
    · -- no later group has the key
      have others : ∀ k' ∈ rest, k' ≠ key x := fun k' member same' => fresh (same.trans same'.symm ▸ member)
      have kept : (rest.map fun k' => (k', if k' = key x then group k' ++ [x] else group k')) =
          rest.map fun k' => (k', group k') :=
        List.map_congr_left fun k' member => by rw [if_neg (others k' member)]
      simp [same, kept]
    · rw [if_neg same, ih nodup]
      have either : key x ∈ k :: rest ↔ key x ∈ rest := by simp [Ne.symm same]
      by_cases there : key x ∈ rest
      · simp [either, there, same]
      · simp [either, there]

/-- The groups are the selections of the list by the keys that come up in it. -/
theorem groups_eq (xs : List α) : ∃ keys : List κ, keys.Nodup ∧ (∀ k, k ∈ keys ↔ ∃ x ∈ xs, key x = k) ∧
    groups key xs = keys.map fun k => (k, xs.filter fun x => key x = k) := by
  induction xs using List.reverseRecOn with
  | nil => exact ⟨[], List.nodup_nil, by simp, rfl⟩
  | append_singleton xs x ih =>
    obtain ⟨keys, nodup, members, same⟩ := ih
    have grown : groups key (xs ++ [x]) = add key (groups key xs) x := by simp [groups]
    rw [grown, same, add_map key keys nodup]
    by_cases there : key x ∈ keys
    · refine ⟨keys, nodup, fun k => ?_, ?_⟩
      · rw [members]
        constructor
        · rintro ⟨y, member, here⟩
          exact ⟨y, List.mem_append_left _ member, here⟩
        · rintro ⟨y, member, here⟩
          obtain old | new := List.mem_append.mp member
          · exact ⟨y, old, here⟩
          · obtain rfl := List.mem_singleton.mp new
            exact here ▸ (members _).mp there
      · rw [if_pos there]
        refine List.map_congr_left fun k _ => ?_
        by_cases here : k = key x
        · simp [List.filter_append, here]
        · simp [List.filter_append, here, Ne.symm here]
    · refine ⟨keys ++ [key x], ?_, fun k => ?_, ?_⟩
      · exact List.nodup_append.mpr ⟨nodup, List.nodup_singleton _, fun k member k' member' same => there (by
          rw [← List.mem_singleton.mp member', ← same]
          exact member)⟩
      · rw [List.mem_append, members, List.mem_singleton]
        simp [or_and_right, exists_or, eq_comm]
      · rw [if_neg there, List.map_append, List.map_singleton]
        have fresh : xs.filter (fun y => key y = key x) = [] := by
          rw [List.filter_eq_nil_iff]
          intro y member here
          exact there ((members _).mpr ⟨y, member, of_decide_eq_true here⟩)
        have kept : (keys.map fun k => (k, (xs ++ [x]).filter fun y => key y = k)) =
            keys.map fun k => (k, xs.filter fun y => key y = k) := by
          refine List.map_congr_left fun k member => ?_
          have other : key x ≠ k := fun here => there (here ▸ member)
          simp [List.filter_append, other]
        rw [kept]
        simp [List.filter_append, fresh]

/-- Selections by distinct keys have every element whose key is among them, once. -/
theorem flatMap_filter_perm {keys : List κ} (nodup : keys.Nodup) (xs : List α) :
    (keys.flatMap fun k => xs.filter fun x => key x = k).Perm (xs.filter fun x => key x ∈ keys) := by
  induction keys with
  | nil => simp
  | cons k rest ih =>
    obtain ⟨fresh, nodup⟩ := List.nodup_cons.mp nodup
    have first : (xs.filter fun x => key x = k) = (xs.filter fun x => key x ∈ k :: rest).filter fun x => key x = k := by
      rw [List.filter_filter]
      refine List.filter_congr fun x _ => ?_
      by_cases same : key x = k <;> simp [same]
    have later : (xs.filter fun x => key x ∈ rest) =
        (xs.filter fun x => key x ∈ k :: rest).filter fun x => !decide (key x = k) := by
      rw [List.filter_filter]
      refine List.filter_congr fun x _ => ?_
      by_cases same : key x = k <;> simp [same, fresh]
    rw [List.flatMap_cons]
    refine ((ih nodup).append_left _).trans ?_
    rw [first, later]
    exact List.filter_append_perm _ _

/-- Every element is in one group. -/
theorem flatMap_groups_perm (xs : List α) : ((groups key xs).flatMap Prod.snd).Perm xs := by
  obtain ⟨keys, nodup, members, same⟩ := groups_eq key xs
  rw [same, List.flatMap_map]
  refine (flatMap_filter_perm key nodup xs).trans (.of_eq (List.filter_eq_self.mpr fun x member => ?_))
  exact decide_eq_true ((members _).mpr ⟨x, member, rfl⟩)

end EdgeVms.Process.Grouping
