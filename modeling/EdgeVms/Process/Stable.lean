import Mathlib.Data.List.Sort

/-! # Stable sorting

`insertionSort` keeps the order of what compares equal.  So a selection of the sorted
list is the selection, sorted; and to sort again what was sorted in parts is to sort
it once.
-/

namespace EdgeVms.Process.Stable

variable {α : Type} (r : α → α → Prop) [DecidableRel r]

theorem insertionSort_append (first second : List α) :
    (first ++ second).insertionSort r = first.foldr (List.orderedInsert r) (second.insertionSort r) := by
  induction first with
  | nil => rfl
  | cons a rest ih => rw [List.cons_append, List.insertionSort_cons, ih, List.foldr_cons]

variable [Std.Total r] [IsTrans α r]

/-- Two elements of which one comes strictly before the other are inserted in any order. -/
theorem orderedInsert_comm {a b : α} (strict : ¬ r a b) (list : List α) :
    (list.orderedInsert r a).orderedInsert r b = (list.orderedInsert r b).orderedInsert r a := by
  have before : r b a := (Std.Total.total a b).resolve_left strict
  induction list with
  | nil =>
    rw [List.orderedInsert_nil, List.orderedInsert_nil, List.orderedInsert_cons_of_le r _ before,
      List.orderedInsert_of_not_le r _ strict, List.orderedInsert_nil]
  | cons c rest ih =>
    by_cases first : r a c
    · have also : r b c := IsTrans.trans b a c before first
      rw [List.orderedInsert_cons_of_le r _ first, List.orderedInsert_cons_of_le r _ before,
        List.orderedInsert_cons_of_le r _ also, List.orderedInsert_of_not_le r _ strict,
        List.orderedInsert_cons_of_le r _ first]
    · rw [List.orderedInsert_of_not_le r _ first]
      by_cases second : r b c
      · rw [List.orderedInsert_cons_of_le r _ second, List.orderedInsert_cons_of_le r _ second,
          List.orderedInsert_of_not_le r _ strict, List.orderedInsert_of_not_le r _ first]
      · rw [List.orderedInsert_of_not_le r _ second, List.orderedInsert_of_not_le r _ second,
          List.orderedInsert_of_not_le r _ first, ih]

theorem foldr_orderedInsert (a : α) (list out : List α) :
    (list.orderedInsert r a).foldr (List.orderedInsert r) out =
      (list.foldr (List.orderedInsert r) out).orderedInsert r a := by
  induction list with
  | nil => rfl
  | cons b rest ih =>
    by_cases before : r a b
    · rw [List.orderedInsert_cons_of_le r _ before]
      rfl
    · rw [List.orderedInsert_of_not_le r _ before, List.foldr_cons, ih, List.foldr_cons, orderedInsert_comm r before]

theorem insertionSort_sorted_append (first second : List α) :
    (first.insertionSort r ++ second).insertionSort r = (first ++ second).insertionSort r := by
  rw [insertionSort_append, insertionSort_append]
  induction first with
  | nil => rfl
  | cons a rest ih => rw [List.insertionSort_cons, foldr_orderedInsert, ih, List.foldr_cons]

theorem insertionSort_append_sorted (first second : List α) :
    (first ++ second.insertionSort r).insertionSort r = (first ++ second).insertionSort r := by
  rw [insertionSort_append, insertionSort_append, (List.pairwise_insertionSort r second).insertionSort_eq]

omit [Std.Total r] in
theorem filter_orderedInsert (keep : α → Bool) (a : α) {list : List α} (sorted : list.Pairwise r) :
    (list.orderedInsert r a).filter keep =
      if keep a then (list.filter keep).orderedInsert r a else list.filter keep := by
  induction list with
  | nil => by_cases kept : keep a <;> simp [kept]
  | cons b rest ih =>
    obtain ⟨least, sorted⟩ := List.pairwise_cons.mp sorted
    by_cases before : r a b
    · rw [List.orderedInsert_cons_of_le r _ before, List.filter_cons]
      split
      · -- the element stays in front of what is left
        have front : ∀ c ∈ (b :: rest).filter keep, r a c := by
          intro c member
          obtain rfl | later := List.mem_cons.mp (List.mem_of_mem_filter member)
          · exact before
          · exact IsTrans.trans a b c before (least c later)
        cases left : (b :: rest).filter keep with
        | nil => rfl
        | cons c others =>
          rw [left] at front
          rw [List.orderedInsert_cons_of_le r _ (front c (.head _))]
      · rfl
    · rw [List.orderedInsert_of_not_le r _ before, List.filter_cons, List.filter_cons, ih sorted]
      by_cases kept : keep b
      · rw [if_pos kept, if_pos kept]
        split
        · rw [List.orderedInsert_of_not_le r _ before]
        · rfl
      · rw [if_neg kept, if_neg kept]

theorem filter_insertionSort (keep : α → Bool) (list : List α) :
    (list.insertionSort r).filter keep = (list.filter keep).insertionSort r := by
  induction list with
  | nil => rfl
  | cons a rest ih =>
    rw [List.insertionSort_cons, filter_orderedInsert r keep a (List.pairwise_insertionSort r rest), ih,
      List.filter_cons]
    split <;> rfl

end EdgeVms.Process.Stable
