import EdgeVms.Kvs.Fragments
import Mathlib.Tactic.Linarith

/-! # Are the runs the coverage?

A run ends where the fragment that joined it last ends.  The fragments are sorted by their
starts, so that one may have ended earlier than another that joined before it: what was
covered by that other one and by nothing later falls out of the run.
-/

namespace EdgeVms.Verified.Runs

open Kvs

/-! ## The purpose -/

def Fragment.Covers (f : Fragment) (x : ℚ) : Prop := f.start ≤ x ∧ x ≤ f.end_

def Run.Covers (r : Run) (x : ℚ) : Prop := r.start ≤ x ∧ x ≤ r.end_

/-- The runs cover what the fragments cover, and between them all the gaps of more than a second. -/
structure Coverage (fragments : List Fragment) (runs : List Run) : Prop where
  sorted : runs.Pairwise fun r later => r.start ≤ later.start
  covered : ∀ f ∈ fragments, ∀ x, Fragment.Covers f x → ∃ r ∈ runs, Run.Covers r x
  tight : ∀ a b, 1 < b - a → (∀ x, a < x → x < b → ∃ r ∈ runs, Run.Covers r x) →
    ∃ x, a < x ∧ x < b ∧ ∃ f ∈ fragments, Fragment.Covers f x
  apart : runs.IsChain fun r next => 1 < next.start - r.end_

structure Recorded (fragments : List Fragment) : Prop where
  sorted : fragments.Pairwise fun f later => f.start ≤ later.start
  long : ∀ f ∈ fragments, 0 ≤ f.duration

/-- Where a fragment is the last one, or the next one starts more than a second after its end, none before it
ends later. -/
def NoneOutlasts (fragments : List Fragment) : Prop :=
  ∀ before last after, fragments = before ++ last :: after → (∀ next ∈ after.head?, 1 < next.start - last.end_) →
    ∀ f ∈ before, f.end_ ≤ last.end_

/-! ## The rounds from the last run on -/

def Run.of (f : Fragment) : Run := ⟨f.start, f.end_⟩

/-- What becomes of the last run and what follows it. -/
def mergeFrom : Run → List Fragment → List Run
  | last, [] => [last]
  | last, f :: rest =>
    if f.start - last.end_ ≤ 1 then mergeFrom { last with end_ := f.end_ } rest
    else last :: mergeFrom (Run.of f) rest

theorem mergeRounds_concat (done : List Run) (last : Run) (rest : List Fragment) :
    mergeRounds (done ++ [last]) rest = done ++ mergeFrom last rest := by
  induction rest generalizing done last with
  | nil => rfl
  | cons f rest ih =>
    rw [mergeRounds, List.getLast?_concat, mergeFrom]
    dsimp only
    by_cases joins : f.start - last.end_ ≤ 1
    · rw [if_pos (show f.start - last.end_ ≤ gapSeconds from joins), if_pos joins, List.dropLast_concat, ih]
    · rw [if_neg (show ¬f.start - last.end_ ≤ gapSeconds from joins), if_neg joins, ih, List.append_assoc]
      rfl

theorem merge_cons (f : Fragment) (rest : List Fragment) :
    mergeFragmentsIntoRuns (f :: rest) = mergeFrom (Run.of f) rest := mergeRounds_concat [] (Run.of f) rest

/-! ## What holds of all fragments -/

def Sorted (fragments : List Fragment) : Prop := fragments.Pairwise fun f later => f.start ≤ later.start

theorem mergeFrom_head (last : Run) (rest : List Fragment) :
    ∃ end_ later, mergeFrom last rest = ⟨last.start, end_⟩ :: later := by
  induction rest generalizing last with
  | nil => exact ⟨last.end_, [], rfl⟩
  | cons f rest ih =>
    rw [mergeFrom]
    split
    · exact ih { last with end_ := f.end_ }
    · exact ⟨last.end_, _, rfl⟩

theorem start_le {last : Run} {rest : List Fragment} (sorted : Sorted rest)
    (later : ∀ f ∈ rest, last.start ≤ f.start) : ∀ r ∈ mergeFrom last rest, last.start ≤ r.start := by
  induction rest generalizing last with
  | nil => simp [mergeFrom]
  | cons f rest ih =>
    obtain ⟨after, sorted⟩ := List.pairwise_cons.mp sorted
    have first : last.start ≤ f.start := later f (by simp)
    have others : ∀ g ∈ rest, last.start ≤ g.start := fun g member => later g (by simp [member])
    rw [mergeFrom]
    split
    · exact @ih { last with end_ := f.end_ } sorted others
    · intro r member
      rcases List.mem_cons.mp member with rfl | member
      · exact le_refl _
      · exact first.trans (@ih (Run.of f) sorted after r member)

theorem sorted_from {last : Run} {rest : List Fragment} (sorted : Sorted rest)
    (later : ∀ f ∈ rest, last.start ≤ f.start) :
    (mergeFrom last rest).Pairwise fun r next => r.start ≤ next.start := by
  induction rest generalizing last with
  | nil => simp [mergeFrom]
  | cons f rest ih =>
    obtain ⟨after, sorted⟩ := List.pairwise_cons.mp sorted
    have first : last.start ≤ f.start := later f (by simp)
    have others : ∀ g ∈ rest, last.start ≤ g.start := fun g member => later g (by simp [member])
    rw [mergeFrom]
    split
    · exact @ih { last with end_ := f.end_ } sorted others
    · refine List.pairwise_cons.mpr ⟨fun r member => ?_, @ih (Run.of f) sorted after⟩
      exact first.trans (@start_le (Run.of f) rest sorted after r member)

theorem apart_from (last : Run) (rest : List Fragment) :
    (mergeFrom last rest).IsChain fun r next => 1 < next.start - r.end_ := by
  induction rest generalizing last with
  | nil => simp [mergeFrom]
  | cons f rest ih =>
    rw [mergeFrom]
    split
    · exact ih { last with end_ := f.end_ }
    next breaks =>
      have chain := ih (Run.of f)
      obtain ⟨end_, later, runs⟩ := mergeFrom_head (Run.of f) rest
      rw [runs] at chain ⊢
      exact List.isChain_cons_cons.mpr ⟨not_le.mp breaks, chain⟩

/-! ## Gaps -/

/-- A fragment is met within every second around a point of the run. -/
def Near (fragments : List Fragment) (r : Run) : Prop :=
  ∀ m, Run.Covers r m → ∀ a b, a < m → m < b → 1 < b - a →
    ∃ x, a < x ∧ x < b ∧ ∃ f ∈ fragments, Fragment.Covers f x

theorem near_of {fragments : List Fragment} {f : Fragment} (member : f ∈ fragments) : Near fragments (Run.of f) :=
  fun m inside _ _ before after _ => ⟨m, before, after, f, member, inside⟩

theorem Near.join {fragments : List Fragment} {last : Run} {f g : Fragment} (near : Near fragments last)
    (there : g ∈ fragments) (ends : Fragment.Covers g last.end_) (member : f ∈ fragments) (long : 0 ≤ f.duration)
    (joins : f.start - last.end_ ≤ 1) : Near fragments { last with end_ := f.end_ } := by
  intro m inside a b before after wide
  by_cases early : m ≤ last.end_
  · exact near m ⟨inside.1, early⟩ a b before after wide
  by_cases late : f.start ≤ m
  · exact ⟨m, before, after, f, member, late, inside.2⟩
  -- The point lies between the two fragments, which are too near for the whole gap.
  rw [not_le] at early late
  by_cases left : a < last.end_
  · exact ⟨last.end_, left, early.trans after, g, there, ends⟩
  · have right : f.start < b := by linarith
    have nonempty : f.start ≤ f.end_ := by
      rw [Fragment.end_]
      linarith
    exact ⟨f.start, before.trans late, right, f, member, le_refl _, nonempty⟩

theorem near_from {fragments : List Fragment} {last : Run} {rest : List Fragment} {g : Fragment}
    (near : Near fragments last) (there : g ∈ fragments) (ends : Fragment.Covers g last.end_)
    (members : ∀ f ∈ rest, f ∈ fragments ∧ 0 ≤ f.duration) : ∀ r ∈ mergeFrom last rest, Near fragments r := by
  induction rest generalizing last g with
  | nil => simpa [mergeFrom] using near
  | cons f rest ih =>
    obtain ⟨⟨member, long⟩, others⟩ := List.forall_mem_cons.mp members
    have own : Fragment.Covers f f.end_ := ⟨by rw [Fragment.end_]; linarith, le_refl _⟩
    rw [mergeFrom]
    split
    next joins => exact ih (near.join there ends member long joins) member own others
    next =>
      intro r which
      rcases List.mem_cons.mp which with rfl | which
      · exact near
      · exact ih (near_of member) member own others r which

/-! ## Coverage -/

/-- `last` is the run of the fragments `chain`, the last of which is `l`. -/
structure Holds (front chain : List Fragment) (l : Fragment) (last : Run) : Prop where
  ends : last.end_ = l.end_
  among : ∀ g ∈ chain, g ∈ front ∨ g = l
  starts : ∀ g ∈ chain, last.start ≤ g.start

theorem Holds.of (front : List Fragment) (f : Fragment) : Holds front [f] f (Run.of f) where
  ends := rfl
  among g member := .inr (List.mem_singleton.mp member)
  starts g member := by rw [List.mem_singleton.mp member, Run.of]

theorem Holds.join {front chain : List Fragment} {l f : Fragment} {last : Run} (holds : Holds front chain l last)
    (after : last.start ≤ f.start) : Holds (front ++ [l]) (chain ++ [f]) f { last with end_ := f.end_ } where
  ends := rfl
  among g member := by
    rcases List.mem_append.mp member with held | new
    · exact .inl (by simpa using holds.among g held)
    · exact .inr (List.mem_singleton.mp new)
  starts g member := by
    rcases List.mem_append.mp member with held | new
    · exact holds.starts g held
    · rw [List.mem_singleton.mp new]
      exact after

theorem Holds.closes {front rest chain : List Fragment} {l : Fragment} {last : Run}
    (holds : Holds front chain l last) (fine : NoneOutlasts (front ++ l :: rest))
    (breaks : ∀ next ∈ rest.head?, 1 < next.start - l.end_) :
    ∀ g ∈ chain, last.start ≤ g.start ∧ g.end_ ≤ last.end_ := by
  intro g member
  refine ⟨holds.starts g member, ?_⟩
  rw [holds.ends]
  rcases holds.among g member with earlier | rfl
  · exact fine front l rest rfl breaks g earlier
  · exact le_refl _

/-- The fragments of the last run, and those that are still to come, each lie in one run. -/
theorem covered_from {front rest chain : List Fragment} {l : Fragment} {last : Run}
    (holds : Holds front chain l last) (fine : NoneOutlasts (front ++ l :: rest)) (sorted : Sorted rest)
    (later : ∀ f ∈ rest, last.start ≤ f.start) :
    ∀ g ∈ chain ++ rest, ∃ r ∈ mergeFrom last rest, r.start ≤ g.start ∧ g.end_ ≤ r.end_ := by
  induction rest generalizing front l last chain with
  | nil =>
    intro g member
    rw [List.append_nil] at member
    exact ⟨last, by simp [mergeFrom], holds.closes fine (by simp) g member⟩
  | cons f rest ih =>
    have fine' : NoneOutlasts ((front ++ [l]) ++ f :: rest) := by
      rw [List.append_assoc]
      exact fine
    obtain ⟨after, sorted⟩ := List.pairwise_cons.mp sorted
    have first : last.start ≤ f.start := later f (by simp)
    have others : ∀ g ∈ rest, last.start ≤ g.start := fun g member => later g (by simp [member])
    intro g member
    rw [mergeFrom]
    split
    next joins =>
      have moved : g ∈ chain ++ [f] ++ rest := by
        rw [List.append_assoc]
        exact member
      exact @ih (front ++ [l]) (chain ++ [f]) f { last with end_ := f.end_ } (holds.join first) fine' sorted others g
        moved
    next breaks =>
      have gap : ∀ next ∈ (f :: rest).head?, 1 < next.start - l.end_ := by
        rintro next ⟨⟩
        rw [← holds.ends]
        exact not_le.mp breaks
      rcases List.mem_append.mp member with held | new
      · exact ⟨last, by simp, holds.closes fine gap g held⟩
      · obtain ⟨r, which, inside⟩ := @ih (front ++ [l]) [f] f (Run.of f) (Holds.of _ f) fine' sorted after g new
        exact ⟨r, List.mem_cons_of_mem _ which, inside⟩

/-! ## What falls out -/

theorem end_le {last : Run} {rest : List Fragment} {l : Fragment} (sorted : Sorted (rest ++ [l]))
    (long : ∀ f ∈ rest ++ [l], 0 ≤ f.duration) : ∀ r ∈ mergeFrom last (rest ++ [l]), r.end_ ≤ l.end_ := by
  have own : l.start ≤ l.end_ := by
    have nonneg := long l (by simp)
    rw [Fragment.end_]
    linarith
  induction rest generalizing last with
  | nil =>
    rw [List.nil_append, mergeFrom]
    split
    · simp [mergeFrom]
    next breaks =>
      have before : last.end_ ≤ l.end_ := by linarith
      simp [mergeFrom, Run.of, before]
  | cons f rest ih =>
    obtain ⟨after, sorted⟩ := List.pairwise_cons.mp sorted
    have others : ∀ g ∈ rest ++ [l], 0 ≤ g.duration := fun g member => long g (List.mem_cons_of_mem _ member)
    rw [List.cons_append, mergeFrom]
    split
    · exact ih sorted others
    next breaks =>
      have before : last.end_ ≤ l.end_ := by
        have follows := after l (by simp)
        linarith
      exact List.forall_mem_cons.mpr ⟨before, ih sorted others⟩

/-- A break in the fragments is a break in the runs. -/
theorem mergeFrom_break (last : Run) (front : List Fragment) {l next : Fragment} (rest : List Fragment)
    (breaks : 1 < next.start - l.end_) :
    mergeFrom last (front ++ l :: next :: rest) = mergeFrom last (front ++ [l]) ++ mergeFrom (Run.of next) rest := by
  have new : ¬next.start - l.end_ ≤ 1 := not_le.mpr breaks
  induction front generalizing last with
  | nil =>
    simp only [List.nil_append, mergeFrom]
    split <;> simp [Run.of, new]
  | cons f front ih =>
    simp only [List.cons_append, mergeFrom]
    split
    · exact ih _
    · rw [ih, List.cons_append]

theorem outlasts_of_covered {fragments : List Fragment} (recorded : Recorded fragments)
    (covered : ∀ f ∈ fragments, ∀ x, Fragment.Covers f x → ∃ r ∈ mergeFragmentsIntoRuns fragments, Run.Covers r x) :
    NoneOutlasts fragments := by
  rintro before l after rfl breaks f member
  by_contra outlasted
  rw [not_le] at outlasted
  have follows : f.start ≤ l.start :=
    (List.pairwise_append.mp recorded.sorted).2.2 f member l List.mem_cons_self
  have own : l.start ≤ l.end_ := by
    have nonneg := recorded.long l (by simp)
    rw [Fragment.end_]
    linarith
  -- A moment that only the fragment `f` covers: after the end of `l`, before the next run.
  obtain ⟨x, late, inside, soon⟩ : ∃ x, l.end_ < x ∧ x ≤ f.end_ ∧ x ≤ l.end_ + 1 :=
    ⟨min f.end_ (l.end_ + 1), lt_min outlasted (by linarith), min_le_left _ _, min_le_right _ _⟩
  obtain ⟨r, which, starts, ends⟩ := covered f (List.mem_append_left _ member) x ⟨by linarith, inside⟩
  obtain ⟨first, front, rfl⟩ := List.exists_cons_of_ne_nil (List.ne_nil_of_mem member)
  have part : (front ++ [l]).Sublist (first :: front ++ l :: after) :=
    (((List.nil_sublist after).cons_cons l).append_left front).cons first
  have bounded : ∀ r ∈ mergeFrom (Run.of first) (front ++ [l]), r.end_ ≤ l.end_ :=
    end_le (recorded.sorted.sublist part) fun f member => recorded.long f (part.subset member)
  rw [List.cons_append, merge_cons] at which
  cases after with
  | nil => exact absurd (ends.trans (bounded r which)) (not_le.mpr late)
  | cons next rest =>
    have gap : 1 < next.start - l.end_ := breaks next rfl
    have sorted : Sorted (l :: next :: rest) := (List.pairwise_append.mp recorded.sorted).2.1
    obtain ⟨after, sorted⟩ := List.pairwise_cons.mp (List.pairwise_cons.mp sorted).2
    rw [mergeFrom_break _ _ _ gap, List.mem_append] at which
    rcases which with earlier | later
    · exact absurd (ends.trans (bounded r earlier)) (not_le.mpr late)
    · have begins := @start_le (Run.of next) rest sorted after r later
      rw [Run.of] at begins
      dsimp only at begins
      linarith

theorem covered_of_outlasts {fragments : List Fragment} (recorded : Recorded fragments)
    (fine : NoneOutlasts fragments) :
    ∀ f ∈ fragments, ∀ x, Fragment.Covers f x → ∃ r ∈ mergeFragmentsIntoRuns fragments, Run.Covers r x := by
  intro f member x inside
  cases fragments with
  | nil => cases member
  | cons first rest =>
    obtain ⟨after, sorted⟩ := List.pairwise_cons.mp recorded.sorted
    obtain ⟨r, which, starts, ends⟩ := covered_from (Holds.of [] first) fine sorted after f member
    rw [merge_cons]
    exact ⟨r, which, starts.trans inside.1, inside.2.trans ends⟩

/-- Whatever ends when, the runs are sorted and apart, and hold no gap of more than a second. -/
theorem coverage_of_covered {fragments : List Fragment} (recorded : Recorded fragments)
    (covered : ∀ f ∈ fragments, ∀ x, Fragment.Covers f x → ∃ r ∈ mergeFragmentsIntoRuns fragments, Run.Covers r x) :
    Coverage fragments (mergeFragmentsIntoRuns fragments) := by
  have tight (near : ∀ r ∈ mergeFragmentsIntoRuns fragments, Near fragments r) : ∀ a b, 1 < b - a →
      (∀ x, a < x → x < b → ∃ r ∈ mergeFragmentsIntoRuns fragments, Run.Covers r x) →
      ∃ x, a < x ∧ x < b ∧ ∃ f ∈ fragments, Fragment.Covers f x := by
    intro a b wide inside
    have before : a < (a + b) / 2 := by linarith
    have after : (a + b) / 2 < b := by linarith
    obtain ⟨r, which, there⟩ := inside _ before after
    exact near r which _ there a b before after wide
  cases fragments with
  | nil => exact ⟨List.Pairwise.nil, covered, tight (by intro r which; cases which), List.IsChain.nil⟩
  | cons first rest =>
    obtain ⟨after, sorted⟩ := List.pairwise_cons.mp recorded.sorted
    obtain ⟨long, others⟩ := List.forall_mem_cons.mp recorded.long
    have own : Fragment.Covers first first.end_ := ⟨by rw [Fragment.end_]; linarith, le_refl _⟩
    have near := near_from (near_of (List.mem_cons_self (a := first) (l := rest))) List.mem_cons_self own
      fun f member => ⟨List.mem_cons_of_mem _ member, others f member⟩
    rw [merge_cons] at covered tight ⊢
    exact ⟨sorted_from sorted after, covered, tight near, apart_from _ _⟩

/-- The runs are the coverage exactly if no fragment before a break, or before the end, is outlasted. -/
theorem coverage_iff {fragments : List Fragment} (recorded : Recorded fragments) :
    Coverage fragments (mergeFragmentsIntoRuns fragments) ↔ NoneOutlasts fragments :=
  ⟨fun coverage => outlasts_of_covered recorded coverage.covered,
    fun fine => coverage_of_covered recorded (covered_of_outlasts recorded fine)⟩

theorem coverage_iff_overlapping :
    Coverage [⟨0, 10⟩, ⟨2, 1⟩, ⟨3, 9⟩] (mergeFragmentsIntoRuns [⟨0, 10⟩, ⟨2, 1⟩, ⟨3, 9⟩]) ↔
      NoneOutlasts [⟨0, 10⟩, ⟨2, 1⟩, ⟨3, 9⟩] :=
  coverage_iff ⟨by decide +kernel, by decide +kernel⟩

/-- A fragment that lies inside the one before it takes the end of the run back. -/
theorem nested_falls_out : Recorded [⟨0, 10⟩, ⟨2, 1⟩] ∧
    ¬Coverage [⟨0, 10⟩, ⟨2, 1⟩] (mergeFragmentsIntoRuns [⟨0, 10⟩, ⟨2, 1⟩]) := by
  refine ⟨⟨by decide +kernel, by decide +kernel⟩, fun coverage => ?_⟩
  have runs : mergeFragmentsIntoRuns [⟨0, 10⟩, ⟨2, 1⟩] = [⟨0, 3⟩] := by decide +kernel
  have inside : Fragment.Covers ⟨0, 10⟩ 5 := by
    unfold Fragment.Covers
    decide +kernel
  obtain ⟨r, which, -, ends⟩ := coverage.covered ⟨0, 10⟩ (by simp) 5 inside
  rw [runs, List.mem_singleton] at which
  rw [which] at ends
  exact absurd ends (by decide +kernel)

/-! ## What the route answers -/

/-- The pages are read to the one without a token. -/
theorem listAllFragments_exhausts (full : List Page) (last : Page) (later : List Page)
    (more : ∀ page ∈ full, page.nextToken.any (· ≠ "")) (ends : last.nextToken.any (· ≠ "") = false) :
    listAllFragments (full ++ last :: later) = some ((full ++ [last]).flatMap Page.fragments) := by
  induction full with
  | nil =>
    rw [List.nil_append, listAllFragments, if_neg (ends ▸ Bool.false_ne_true)]
    simp
  | cons page full ih =>
    obtain ⟨token, others⟩ := List.forall_mem_cons.mp more
    rw [List.cons_append, listAllFragments, if_pos token, ih others]
    simp

theorem mem_of_listed {pages : List Page} {raw : List Listed} (listed : listAllFragments pages = some raw) :
    ∀ f ∈ raw, ∃ page ∈ pages, f ∈ page.fragments := by
  induction pages generalizing raw with
  | nil => cases listed
  | cons page pages ih =>
    rw [listAllFragments] at listed
    intro f member
    split at listed
    · obtain ⟨rest, later, rfl⟩ := Option.map_eq_some_iff.mp listed
      rcases List.mem_append.mp member with here | there
      · exact ⟨page, by simp, here⟩
      · obtain ⟨other, among, inside⟩ := ih later f there
        exact ⟨other, List.mem_cons_of_mem _ among, inside⟩
    · cases listed
      exact ⟨page, by simp, member⟩

theorem recorded_fragmentsOf {raw : List Listed} (long : ∀ f ∈ raw, 0 ≤ f.lengthInMilliseconds) :
    Recorded (fragmentsOf raw) where
  sorted := List.pairwise_insertionSort _ _
  long f member := by
    obtain ⟨listed, among, rfl⟩ := List.mem_map.mp ((List.mem_insertionSort _).mp member)
    have nonneg : (0 : ℚ) ≤ listed.lengthInMilliseconds := by exact_mod_cast long listed among
    exact div_nonneg nonneg (by decide +kernel)

/-- The runs that the browser is told are the coverage under the same condition. -/
theorem getFragments_coverage {pages : List Page} {start end_ : ℚ} {response : FragmentsResponse}
    (answered : getFragments false pages start end_ = some response)
    (long : ∀ page ∈ pages, ∀ f ∈ page.fragments, 0 ≤ f.lengthInMilliseconds) :
    ∃ raw, listAllFragments pages = some raw ∧
      (Coverage (fragmentsOf raw) response.runs ↔ NoneOutlasts (fragmentsOf raw)) := by
  rw [getFragments, if_neg (by decide)] at answered
  obtain ⟨raw, listed, rfl⟩ := Option.map_eq_some_iff.mp answered
  have recorded : Recorded (fragmentsOf raw) := recorded_fragmentsOf fun f member =>
    have ⟨page, among, inside⟩ := mem_of_listed listed f member
    long page among f inside
  exact ⟨raw, listed, fun coverage => outlasts_of_covered recorded coverage.covered,
    fun fine => coverage_of_covered recorded (covered_of_outlasts recorded fine)⟩

end EdgeVms.Verified.Runs
