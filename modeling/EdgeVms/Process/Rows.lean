import Mathlib.Data.List.Sort

/-! # Rows with a primary key

A table is a list of rows with one row for a key, in any order.  What is read from it
`ORDER BY` the key is then the same for every order of its rows.
-/

namespace EdgeVms.Process.Rows

variable {α κ : Type} {key : α → κ} {rows rows' : List α}

/-- No two rows have one key. -/
def Keyed (key : α → κ) (rows : List α) : Prop := (rows.map key).Nodup

theorem Keyed.append (keyed : Keyed key rows) {row : α} (fresh : ∀ other ∈ rows, key other ≠ key row) :
    Keyed key (rows ++ [row]) := by
  unfold Keyed
  rw [List.map_append, List.nodup_append]
  refine ⟨keyed, List.nodup_singleton _, ?_⟩
  simp only [List.mem_map, List.map_cons, List.map_nil, List.mem_singleton]
  rintro _ ⟨other, member, rfl⟩ _ rfl
  exact fresh other member

theorem Keyed.map (keyed : Keyed key rows) {f : α → α} (keeps : ∀ row, key (f row) = key row) :
    Keyed key (rows.map f) := by
  unfold Keyed
  rw [List.map_map, show key ∘ f = key from funext keeps]
  exact keyed

theorem Keyed.filter (keyed : Keyed key rows) (p : α → Bool) : Keyed key (rows.filter p) :=
  keyed.sublist (List.filter_sublist.map key)

theorem Keyed.perm (keyed : Keyed key rows) (perm : rows.Perm rows') : Keyed key rows' :=
  (perm.map key).nodup keyed

theorem Keyed.eq_of_key (keyed : Keyed key rows) {row other : α} (here : row ∈ rows) (there : other ∈ rows)
    (same : key row = key other) : row = other := List.inj_on_of_nodup_map keyed here there same

theorem fresh_head [DecidableEq κ] {there rest : List α} {row : α} (keyed : Keyed key (there ++ row :: rest)) :
    (there.any fun other => decide (key other = key row)) = false := by
  simp only [Keyed, List.map_append, List.map_cons, List.nodup_append] at keyed
  simp only [List.any_eq_false, decide_eq_true_eq]
  intro other member same
  exact keyed.2.2 _ (List.mem_map_of_mem member) _ (.head _) same

/-- Rows that are inserted one by one, each unless its key is there. -/
theorem insert_all [DecidableEq κ] {there : List α} (keyed : Keyed key (there ++ rows)) :
    (rows.foldl (fun there row => if there.any fun other => decide (key other = key row) then there else there ++ [row])
      there) = there ++ rows := by
  induction rows generalizing there with
  | nil => simp
  | cons row rest ih =>
    have keyed' : Keyed key ((there ++ [row]) ++ rest) := by rwa [List.append_assoc]
    rw [List.foldl_cons, fresh_head keyed, if_neg Bool.false_ne_true, ih keyed', List.append_assoc]
    rfl

variable [LinearOrder κ] [DecidableRel fun left right : α => key left ≤ key right]

/-- The order in which the rows are kept does not show. -/
theorem sort_eq_of_perm (keyed : Keyed key rows) (perm : rows.Perm rows') :
    (rows.insertionSort fun left right => key left ≤ key right) =
      rows'.insertionSort fun left right => key left ≤ key right := by
  have total : Std.Total fun left right : α => key left ≤ key right := ⟨fun left right => le_total _ _⟩
  have trans : IsTrans α fun left right => key left ≤ key right := ⟨fun _ _ _ => le_trans⟩
  refine List.Perm.eq_of_pairwise ?_ (List.pairwise_insertionSort (fun left right => key left ≤ key right) rows)
    (List.pairwise_insertionSort _ rows') ?_
  · intro row other here there before after
    -- two rows that come before each other have one key
    have here' : row ∈ rows := (List.mem_insertionSort _).mp here
    have there' : other ∈ rows := perm.symm.subset ((List.mem_insertionSort _).mp there)
    exact keyed.eq_of_key here' there' (le_antisymm before after)
  · exact (List.perm_insertionSort _ _).trans (perm.trans (List.perm_insertionSort _ _).symm)

end EdgeVms.Process.Rows
