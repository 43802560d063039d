import Mathlib.Data.List.MinMax
import Mathlib.Order.Interval.Set.Basic

/-! # The greedy choice

Of the names in order, the first one with the most room, if it has any.  `Led`
says without naming it when it is not a bad one: every bad name with room is
outdone by another.
-/

namespace EdgeVms.Process

variable {α : Type}

/-- The order of the integers by which names are compared. -/
local instance (priority := high) preorderInt : Preorder Int := Int.instLinearOrder.toPreorder

/-- The first of the names with the most room, if it has room. -/
def choice (room : α → Int) (names : List α) : Option α := (names.argmax room).filter fun name => 0 < room name

variable {room : α → Int} {names : List α} {best : α}

theorem mem_choice : best ∈ choice room names ↔ best ∈ names.argmax room ∧ 0 < room best := by
  simp [choice, Option.filter_eq_some_iff]

theorem choice_eq_none : choice room names = none ↔ ∀ name ∈ names, room name ≤ 0 := by
  cases most : names.argmax room with
  | none =>
    rw [List.argmax_eq_none] at most
    simp [choice, most]
  | some best =>
    have above : ∀ name ∈ names, room name ≤ room best := fun name member => List.le_of_mem_argmax member most
    rw [choice, most, Option.filter_some]
    constructor
    · intro full name member
      have least := above name member
      split at full
      · cases full
      next bounded =>
        rw [decide_eq_true_eq] at bounded
        omega
    · intro full
      have least := full best (List.argmax_mem most)
      rw [if_neg]
      rw [decide_eq_true_eq]
      omega

theorem choice_mem (chosen : best ∈ choice room names) : best ∈ names := List.argmax_mem (mem_choice.mp chosen).1

theorem choice_pos (chosen : best ∈ choice room names) : 0 < room best := (mem_choice.mp chosen).2

/-- One more name is compared with the choice so far. -/
theorem choice_concat (room : α → Int) (names : List α) (name : α) : choice room (names ++ [name]) =
    if ((choice room names).map room).getD 0 < room name then some name else choice room names := by
  rw [choice, List.argmax_concat]
  cases most : names.argmax room with
  | none => simp [choice, most, Option.filter]
  | some best =>
    simp only [choice, most, Option.filter]
    by_cases positive : 0 < room best
    · by_cases more : room best < room name
      · have positive' : 0 < room name := by omega
        simp [positive, more, positive']
      · simp [positive, more]
    · by_cases positive' : 0 < room name
      · have more : room best < room name := by omega
        simp [positive, more, positive']
      · by_cases more : room best < room name
        · simp [positive, more, positive']
        · simp [positive, more, positive']

section Ordered

variable [LinearOrder α]

/-- `kept` comes before `gone`: it has more room, or as much and the smaller name. -/
def Outdoes (room : α → Int) (kept gone : α) : Prop := room gone < room kept ∨ (room gone = room kept ∧ kept < gone)

/-- Every bad name with room is outdone by one that is not bad. -/
def Led (bad : α → Prop) (room : α → Int) (names : List α) : Prop :=
  ∀ gone ∈ names, bad gone → 0 < room gone → ∃ kept ∈ names, ¬ bad kept ∧ Outdoes room kept gone

instance (bad : α → Prop) [DecidablePred bad] (room : α → Int) (names : List α) : Decidable (Led bad room names) :=
  inferInstanceAs (Decidable (∀ gone ∈ names, bad gone → 0 < room gone →
    ∃ kept ∈ names, ¬ bad kept ∧ (room gone < room kept ∨ (room gone = room kept ∧ kept < gone))))

/-- The choice among names in order outdoes every other name. -/
theorem choice_outdoes (ordered : names.Pairwise (· ≤ ·)) (chosen : best ∈ choice room names) {name : α}
    (member : name ∈ names) (differs : name ≠ best) : Outdoes room best name := by
  obtain ⟨most, -⟩ := mem_choice.mp chosen
  obtain ⟨inside, above, first⟩ := List.mem_argmax_iff.mp most
  obtain less | same := lt_or_eq_of_le (above name member)
  · exact .inl less
  · refine .inr ⟨same, lt_of_le_of_ne ?_ differs.symm⟩
    have index := first name member same.ge
    have bound : names.idxOf name < names.length := List.idxOf_lt_length_iff.mpr member
    have bound' : names.idxOf best < names.length := List.idxOf_lt_length_iff.mpr inside
    obtain before | here := lt_or_eq_of_le index
    · have le := List.pairwise_iff_getElem.mp ordered _ _ bound' bound before
      rwa [List.getElem_idxOf, List.getElem_idxOf] at le
    · have same' : names[names.idxOf best] = names[names.idxOf name] := by simp only [here]
      rw [List.getElem_idxOf, List.getElem_idxOf] at same'
      exact absurd same'.symm differs

theorem Outdoes.asymm {kept gone : α} (outdoes : Outdoes room kept gone) : ¬ Outdoes room gone kept := by
  rintro (less' | ⟨same', before'⟩)
  · obtain less | ⟨same, -⟩ := outdoes
    · omega
    · omega
  · obtain less | ⟨-, before⟩ := outdoes
    · omega
    · exact absurd before (lt_asymm before')

/-- The choice is not a bad one exactly when every bad name with room is outdone. -/
theorem led_iff (ordered : names.Pairwise (· ≤ ·)) (bad : α → Prop) :
    Led bad room names ↔ ∀ best ∈ choice room names, ¬ bad best := by
  constructor
  · intro led best chosen wrong
    obtain ⟨kept, member, fine, outdoes⟩ := led best (choice_mem chosen) wrong (choice_pos chosen)
    have differs : kept ≠ best := by
      rintro rfl
      exact fine wrong
    exact outdoes.asymm (choice_outdoes ordered chosen member differs)
  · intro spared gone member wrong positive
    cases chosen : choice room names with
    | none =>
      have full := choice_eq_none.mp chosen gone member
      omega
    | some best =>
      have fine := spared best chosen
      refine ⟨best, choice_mem chosen, fine, choice_outdoes ordered chosen member ?_⟩
      rintro rfl
      exact fine wrong

end Ordered

end EdgeVms.Process
