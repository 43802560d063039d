import Mathlib.Data.Finset.Card
import Mathlib.Data.Finset.Range
import Mathlib.Order.Defs.LinearOrder

/-! # A ring of names

The members of a finite ordered set stand in a circle: each before the next greater
one, the greatest before the least.  `gap` counts those one passes on the way up from
one member to another; from every member, and to every member, the gaps are
`0, 1, 2, …` in some order.
-/

namespace EdgeVms.Process.Ring

variable {α : Type} [LinearOrder α]

/-- On the way up from the first to the last one passes `x`. -/
def Passes (first last x : α) : Prop := if first < last then first < x ∧ x < last else first < x ∨ x < last

instance (first last x : α) : Decidable (Passes first last x) :=
  inferInstanceAs (Decidable (if first < last then first < x ∧ x < last else first < x ∨ x < last))

/-- How many one passes. -/
def gap (ring : Finset α) (first last : α) : ℕ := (ring.filter (Passes first last)).card

variable {first first' last x : α} {ring : Finset α}

theorem not_passes_first : ¬ Passes first last first := by
  unfold Passes
  split
  · exact fun passed => lt_irrefl _ passed.1
  next behind => exact fun passed => passed.elim (lt_irrefl _) behind

theorem not_passes_last : ¬ Passes first last last := by
  unfold Passes
  split
  · exact fun passed => lt_irrefl _ passed.2
  next behind => exact fun passed => passed.elim behind (lt_irrefl _)

/-- The way from one that is passed is the end of the way. -/
theorem Passes.from (passed : Passes first last first') (later : Passes first' last x) : Passes first last x := by
  unfold Passes at *
  split_ifs at * with up up'
  · exact ⟨passed.1.trans later.1, later.2⟩
  · exact absurd passed.2 up'
  · obtain beyond | before := passed
    · exact .inl (beyond.trans later.1)
    · exact .inr later.2
  · obtain beyond | before := passed
    · exact later.imp beyond.trans id
    · exact absurd before ‹_›

/-- Of two others, one is passed on the way from the other one. -/
theorem passes_from_total (differ : first ≠ first') : Passes first last first' ∨ Passes first' last first := by
  unfold Passes
  obtain lower | higher := lt_or_gt_of_ne differ
  · split_ifs <;> grind
  · split_ifs <;> grind

theorem gap_lt_of_from (member : first' ∈ ring) (passed : Passes first last first') :
    gap ring first' last < gap ring first last := by
  apply Finset.card_lt_card
  refine ⟨Finset.monotone_filter_right ring fun x _ later => passed.from later, fun all => ?_⟩
  have itself := all (Finset.mem_filter.mpr ⟨member, passed⟩)
  exact not_passes_first (Finset.mem_filter.mp itself).2

/-- One passes neither of the two. -/
theorem gap_lt_card (member : first ∈ ring) (member' : last ∈ ring) (differ : first ≠ last) :
    gap ring first last < ring.card - 1 := by
  have inside : insert last (ring.filter (Passes first last)) ⊆ ring.erase first := by
    intro x there
    obtain rfl | passed := Finset.mem_insert.mp there
    · exact Finset.mem_erase.mpr ⟨differ.symm, member'⟩
    · obtain ⟨listed, passed⟩ := Finset.mem_filter.mp passed
      refine Finset.mem_erase.mpr ⟨?_, listed⟩
      rintro rfl
      exact not_passes_first passed
  have fewer := Finset.card_le_card inside
  rw [Finset.card_insert_of_notMem fun there => not_passes_last (Finset.mem_filter.mp there).2,
    Finset.card_erase_of_mem member] at fewer
  exact fewer

/-- Ranks that differ and stay below the number of members are all there. -/
theorem card_rank_lt {β : Type} {members : Finset β} {rank : β → ℕ} (differ : Set.InjOn rank members)
    (bounded : ∀ x ∈ members, rank x < members.card) (count : ℕ) :
    (members.filter fun x => rank x < count).card = min count members.card := by
  have whole : members.image rank = Finset.range members.card := by
    apply Finset.eq_of_subset_of_card_le
    · intro n there
      obtain ⟨x, member, rfl⟩ := Finset.mem_image.mp there
      exact Finset.mem_range.mpr (bounded x member)
    · rw [Finset.card_range, Finset.card_image_of_injOn differ]
  have part : (members.filter fun x => rank x < count).image rank = Finset.range (min count members.card) := by
    rw [← Finset.filter_image (p := (· < count)), whole]
    ext n
    rw [Finset.mem_filter, Finset.mem_range, Finset.mem_range]
    omega
  have kept : Set.InjOn rank (members.filter fun x => rank x < count) :=
    differ.mono (Finset.coe_subset.mpr (Finset.filter_subset _ _))
  rw [← Finset.card_image_of_injOn kept, part, Finset.card_range]

/-- Of the others, so many are nearly before a member. -/
theorem card_near (member : last ∈ ring) (count : ℕ) :
    ((ring.erase last).filter fun first => gap ring first last < count).card = min count (ring.card - 1) := by
  have differ : Set.InjOn (gap ring · last) (ring.erase last) := by
    intro first there first' there' same
    obtain ⟨other, listed⟩ := Finset.mem_erase.mp there
    obtain ⟨other', listed'⟩ := Finset.mem_erase.mp there'
    by_contra distinct
    have either : Passes first last first' ∨ Passes first' last first := passes_from_total distinct
    obtain passed | passed := either
    · exact (gap_lt_of_from listed' passed).ne' same
    · exact (gap_lt_of_from listed passed).ne same
  have bounded : ∀ first ∈ ring.erase last, gap ring first last < (ring.erase last).card := by
    intro first there
    obtain ⟨other, listed⟩ := Finset.mem_erase.mp there
    rw [Finset.card_erase_of_mem member]
    exact gap_lt_card listed member other
  rw [card_rank_lt differ bounded, Finset.card_erase_of_mem member]

end EdgeVms.Process.Ring
