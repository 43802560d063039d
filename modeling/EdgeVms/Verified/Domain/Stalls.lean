import EdgeVms.Domain.Shadow
import EdgeVms.Verified.Domain.CleanShadow
import Mathlib.Data.List.Induction
import Mathlib.Data.List.Pairwise
import Mathlib.Data.List.TakeWhile

/-! # Slow or stuck

A Node that is behind is told to be stalled by the time for which it has observed one
revision, and not by the time for which it has been behind: a Node that was up to date
for longer than the grace is stalled with the next edit.
-/

namespace EdgeVms.Verified.Stalls

open Python Domain Shadow CleanShadow

/-- One call of `compare`. -/
structure Comparison where
  placed : Table String
  epochs : Dict Int
  revision : Int
  reports : List NodeReport
  now : ℚ

/-- A report that counts: what a Node was seen to observe, and where the directory was. -/
structure Sighting where
  now : ℚ
  revision : Int
  observed : Int
  deriving DecidableEq

/-- The directory has a newer revision. -/
def Sighting.Behind (s : Sighting) : Prop := s.observed < s.revision

instance (s : Sighting) : Decidable s.Behind := inferInstanceAs (Decidable (s.observed < s.revision))

namespace Comparison

def apply (c : Comparison) (shadow : Shadow) : DivergenceReport × Shadow :=
  shadow.compare c.placed c.epochs c.revision c.now c.reports

def sighting (c : Comparison) (r : NodeReport) : Sighting := ⟨c.now, c.revision, r.observedRevision⟩

/-- The reports of the Node that are not fenced. -/
def sightings (c : Comparison) (n : String) (reports : List NodeReport) : List Sighting :=
  (reports.filter fun r => r.node = n ∧ c.epochs.getD r.node r.epoch = r.epoch).map c.sighting

end Comparison

def run (grace : ℚ) (calls : List Comparison) : Shadow :=
  calls.foldl (fun shadow c => (c.apply shadow).2) (.new grace)

/-- What was seen of the Node, newest first. -/
def history (n : String) (calls : List Comparison) : List Sighting :=
  (calls.flatMap fun c => c.sightings n c.reports).reverse

/-- The sightings since the Node came to the revision at which it is now, newest first. -/
def stretch (seen : List Sighting) (s : Sighting) : List Sighting :=
  s :: seen.takeWhile fun e => e.observed = s.observed

/-- The Node has observed one revision for longer than the grace. -/
def Unmoved (grace : ℚ) (seen : List Sighting) (s : Sighting) : Prop := ∃ e ∈ stretch seen s, s.now - e.now > grace

/-- It has been behind for longer than the grace, and did not move. -/
def Stuck (grace : ℚ) (seen : List Sighting) (s : Sighting) : Prop :=
  ∃ e ∈ stretch seen s, e.Behind ∧ s.now - e.now > grace

instance (grace : ℚ) (seen : List Sighting) (s : Sighting) : Decidable (Unmoved grace seen s) :=
  inferInstanceAs (Decidable (∃ e ∈ stretch seen s, s.now - e.now > grace))

instance (grace : ℚ) (seen : List Sighting) (s : Sighting) : Decidable (Stuck grace seen s) :=
  inferInstanceAs (Decidable (∃ e ∈ stretch seen s, e.Behind ∧ s.now - e.now > grace))

/-- Some report of the Node in the call, with what was seen before it, is such. -/
def Sees (kind : List Sighting → Sighting → Prop) (calls : List Comparison) (c : Comparison) (n : String) : Prop :=
  ∃ before s after, c.sightings n c.reports = before ++ s :: after ∧ kind (before.reverse ++ history n calls) s

/-- The call reports the Node as stalled. -/
def Stalled (found : List Finding) (n : String) : Prop := ∃ f ∈ found, f.kind = .stalled ∧ f.node = some n

instance (found : List Finding) (n : String) : Decidable (Stalled found n) :=
  inferInstanceAs (Decidable (∃ f ∈ found, f.kind = .stalled ∧ f.node = some n))

/-- Only a Node that is stuck is stalled; one that was up to date within the grace is not. -/
def Honest (grace : ℚ) (calls : List Comparison) (c : Comparison) : Prop :=
  let found := (c.apply (run grace calls)).1.findings
  ∀ n, (Stalled found n → Sees (Stuck grace) calls c n) ∧
    ((∃ e ∈ history n calls, ¬ e.Behind ∧ c.now - e.now ≤ grace) → ¬ Stalled found n)

/-- Every Node that is behind, and has been at one revision for longer than the grace, has been behind
for longer than the grace: no edit came in between. -/
def NoEditBetween (grace : ℚ) (calls : List Comparison) (c : Comparison) : Prop :=
  ∀ n, Sees (fun seen s => s.Behind ∧ Unmoved grace seen s) calls c n → Sees (Stuck grace) calls c n

/-- Time and the revisions of the directory do not go back. -/
def Ordered (calls : List Comparison) : Prop :=
  calls.Pairwise fun c c' => c.now ≤ c'.now ∧ c.revision ≤ c'.revision

/-! ## Since when -/

/-- Of the sightings, newest first: the revision the Node is at, and since when. -/
def mark : List Sighting → Option (Int × ℚ)
  | [] => none
  | s :: older =>
    match mark older with
    | some (last, since) => if last ≠ s.observed then some (s.observed, s.now) else some (last, since)
    | none => some (s.observed, s.now)

/-- The sighting with which the stretch began. -/
def oldest (seen : List Sighting) (s : Sighting) : Sighting :=
  (seen.takeWhile fun e => e.observed = s.observed).getLastD s

theorem mark_cons (s : Sighting) (older : List Sighting) :
    mark (s :: older) = some (s.observed, (oldest older s).now) := by
  induction older generalizing s with
  | nil => rfl
  | cons x rest ih =>
    rw [mark, ih x]
    by_cases same : x.observed = s.observed
    · -- the stretch of `x` goes on
      have longer : oldest (x :: rest) s = oldest rest x := by
        simp only [oldest, List.takeWhile_cons, same, decide_true, if_true, List.getLastD_cons]
      simp [same, longer]
    · have alone : oldest (x :: rest) s = s := by
        simp only [oldest, List.takeWhile_cons, same, decide_false, Bool.false_eq_true, if_false, List.getLastD_nil]
      simp [same, alone]

/-- The round of a report leaves in `progress` what was seen of its Node, and of no other. -/
theorem progressed_mark {progress : Dict (Int × ℚ)} {r : NodeReport} {seen : List Sighting} {s : Sighting}
    (tracks : progress.get? r.node = mark seen) (observed : s.observed = r.observedRevision) :
    mark (s :: seen) = some (r.observedRevision, (progressed s.now r progress).1) ∧
      (progressed s.now r progress).2.get? r.node = mark (s :: seen) ∧
      ∀ n ≠ r.node, (progressed s.now r progress).2.get? n = progress.get? n := by
  rw [progressed, mark, ← observed]
  cases marked : mark seen with
  | none =>
    rw [marked] at tracks
    simp only [tracks]
    exact ⟨trivial, Dict.get?_set_self _ _ _, fun n other => Dict.get?_set_other _ _ other⟩
  | some moved =>
    obtain ⟨last, since⟩ := moved
    rw [marked] at tracks
    simp only [tracks]
    by_cases same : last = s.observed
    · simp only [same, ne_eq, not_true_eq_false, if_false]
      exact ⟨trivial, by rw [tracks, same], fun n _ => trivial⟩
    · simp only [ne_eq, same, not_false_eq_true, if_true]
      exact ⟨trivial, Dict.get?_set_self _ _ _, fun n other => Dict.get?_set_other _ _ other⟩

/-! ## One call -/

/-- By `mark`, the Node is behind and has been at one revision for longer than the grace. -/
def Overdue (grace : ℚ) (seen : List Sighting) (s : Sighting) : Prop :=
  s.Behind ∧ ∃ moved, mark (s :: seen) = some moved ∧ s.now - moved.2 > grace

/-- The findings of a pass after a list of reports, with what had been seen of the Node before. -/
def SeesIn (grace : ℚ) (seen : List Sighting) (found : List Sighting) : Prop :=
  ∃ before s after, found = before ++ s :: after ∧ Overdue grace (before.reverse ++ seen) s

theorem seesIn_cons {grace : ℚ} {seen rest : List Sighting} {s : Sighting} :
    SeesIn grace seen (s :: rest) ↔ Overdue grace seen s ∨ SeesIn grace (s :: seen) rest := by
  constructor
  · rintro ⟨before, s', after, split, overdue⟩
    cases before with
    | nil =>
      obtain ⟨rfl, -⟩ := List.cons.inj split
      exact .inl overdue
    | cons first before =>
      obtain ⟨rfl, later⟩ := List.cons.inj split
      rw [List.reverse_cons, List.append_assoc] at overdue
      exact .inr ⟨before, s', after, later, overdue⟩
  · rintro (overdue | ⟨before, s', after, split, overdue⟩)
    · exact ⟨[], s, rest, rfl, overdue⟩
    · refine ⟨s :: before, s', after, by rw [split, List.cons_append], ?_⟩
      rw [List.reverse_cons, List.append_assoc]
      exact overdue

theorem stalled_append {first later : List Finding} {n : String} :
    Stalled (first ++ later) n ↔ Stalled first n ∨ Stalled later n := by
  constructor
  · rintro ⟨f, member, is⟩
    exact (List.mem_append.mp member).imp (fun here => ⟨f, here, is⟩) fun here => ⟨f, here, is⟩
  · rintro (⟨f, member, is⟩ | ⟨f, member, is⟩)
    · exact ⟨f, List.mem_append_left _ member, is⟩
    · exact ⟨f, List.mem_append_right _ member, is⟩

theorem stalled_behind {grace now since : ℚ} {revision : Int} {r : NodeReport} {n : String} :
    Stalled (behindFinding grace revision now since r).toList n ↔
      r.node = n ∧ r.observedRevision < revision ∧ now - since > grace := by
  rw [Stalled, behindFinding]
  by_cases behind : revision - r.observedRevision > 0
  · have less : r.observedRevision < revision := by omega
    by_cases late : now - since > grace
    · simp [less, late]
    · simp [late]
  · have level : ¬ r.observedRevision < revision := by omega
    simp [level]

/-- The loop over the reports: what is seen of each Node, and whether it is found to be stalled. -/
theorem reports_stalled (grace : ℚ) (c : Comparison) (reports : List NodeReport) {pass : Pass}
    {seen : String → List Sighting} (tracks : ∀ n, pass.progress.get? n = mark (seen n)) (n : String) :
    let after := reports.foldl (report grace c.epochs c.revision c.now) pass
    after.progress.get? n = mark ((c.sightings n reports).reverse ++ seen n) ∧
      (Stalled after.findings n ↔ Stalled pass.findings n ∨ SeesIn grace (seen n) (c.sightings n reports)) := by
  induction reports generalizing pass seen with
  | nil =>
    refine ⟨tracks n, ⟨.inl, ?_⟩⟩
    rintro (found | ⟨before, s, after, split, -⟩)
    · exact found
    · exact absurd split (by simp [Comparison.sightings])
  | cons r rest ih =>
    rw [List.foldl_cons]
    by_cases current : c.epochs.getD r.node r.epoch = r.epoch
    · rw [report_current current]
      obtain ⟨marked, moved, others⟩ := progressed_mark (tracks r.node) (show (c.sighting r).observed = _ from rfl)
      -- what is seen of every Node after this round
      have tracks' (m : String) : (progressed c.now r pass.progress).2.get? m =
          mark (if m = r.node then c.sighting r :: seen m else seen m) := by
        by_cases same : m = r.node
        · rw [if_pos same, same]
          exact moved
        · rw [if_neg same]
          exact (others m same).trans (tracks m)
      obtain ⟨progress, stalled⟩ := @ih ⟨pass.findings ++
        (behindFinding grace c.revision c.now (progressed c.now r pass.progress).1 r).toList,
        r.cameras.foldl (claim r.node) pass.claims, (progressed c.now r pass.progress).2⟩ _ tracks'
      refine (and_congr (Eq.congr_left progress) (iff_congr stalled Iff.rfl)).mpr ?_
      rw [stalled_append, stalled_behind]
      by_cases same : r.node = n
      · subst same
        have here : c.sightings r.node (r :: rest) = c.sighting r :: c.sightings r.node rest := by
          simp [Comparison.sightings, current]
        have overdue : Overdue grace (seen r.node) (c.sighting r) ↔
            r.observedRevision < c.revision ∧ c.now - (progressed c.now r pass.progress).1 > grace := by
          rw [Overdue, show mark (c.sighting r :: seen r.node) = _ from marked]
          simp [Sighting.Behind, Comparison.sighting]
        rw [here, seesIn_cons, overdue, if_pos rfl, List.reverse_cons, List.append_assoc]
        exact ⟨rfl, by rw [or_assoc]; simp⟩
      · have here : c.sightings n (r :: rest) = c.sightings n rest := by simp [Comparison.sightings, same]
        rw [here, if_neg fun there => same there.symm]
        exact ⟨rfl, by simp [same]⟩
    · -- a fenced report is no sighting, and is not found to be behind
      have here : c.sightings n (r :: rest) = c.sightings n rest := by simp [Comparison.sightings, current]
      obtain ⟨f, stale, stepped⟩ := @report_fenced grace c.now c.epochs c.revision pass r current
      rw [stepped, here]
      obtain ⟨progress, stalled⟩ := @ih { pass with findings := pass.findings ++ [f] } seen tracks
      refine ⟨progress, stalled.trans ?_⟩
      rw [stalled_append]
      simp [Stalled, ← stale]

/-! ## The whole run -/

theorem history_append (n : String) (calls : List Comparison) (c : Comparison) :
    history n (calls ++ [c]) = (c.sightings n c.reports).reverse ++ history n calls := by
  simp [history]

/-- What the calls leave in `progress`. -/
theorem run_tracks (grace : ℚ) (calls : List Comparison) :
    ∀ n, (run grace calls).progress.get? n = mark (history n calls) := by
  induction calls using List.reverseRecOn with
  | nil => exact fun n => rfl
  | append_singleton calls c ih =>
    intro n
    have stepped : run grace (calls ++ [c]) = (c.apply (run grace calls)).2 := by simp [run]
    rw [stepped, history_append]
    exact (@reports_stalled (run grace calls).grace c c.reports ⟨[], [], (run grace calls).progress⟩ _ ih n).1

theorem run_grace (grace : ℚ) (calls : List Comparison) : (run grace calls).grace = grace := by
  induction calls using List.reverseRecOn with
  | nil => rfl
  | append_singleton calls c ih =>
    have stepped : run grace (calls ++ [c]) = (c.apply (run grace calls)).2 := by simp [run]
    rw [stepped]
    exact ih

/-- `a` was seen no earlier than `b`, and so was the directory. -/
def Later (a b : Sighting) : Prop := b.now ≤ a.now ∧ b.revision ≤ a.revision

theorem mem_sightings {c : Comparison} {n : String} {reports : List NodeReport} {s : Sighting}
    (member : s ∈ c.sightings n reports) : s.now = c.now ∧ s.revision = c.revision := by
  obtain ⟨r, -, rfl⟩ := List.mem_map.mp member
  exact ⟨rfl, rfl⟩

theorem history_later {calls : List Comparison} {c : Comparison} (ordered : Ordered (calls ++ [c])) (n : String) :
    (history n calls).Pairwise Later ∧ ∀ e ∈ history n calls, e.now ≤ c.now ∧ e.revision ≤ c.revision := by
  obtain ⟨earlier, -, last⟩ := List.pairwise_append.mp ordered
  constructor
  · rw [history, List.pairwise_reverse, List.pairwise_flatMap]
    constructor
    · intro c' _
      refine List.pairwise_of_forall_mem_list fun a member b member' => ?_
      obtain ⟨now, revision⟩ := mem_sightings member
      obtain ⟨now', revision'⟩ := mem_sightings member'
      exact ⟨by rw [now, now'], by rw [revision, revision']⟩
    · refine earlier.imp fun {c₁ c₂} before a member b member' => ?_
      obtain ⟨now, revision⟩ := mem_sightings member
      obtain ⟨now', revision'⟩ := mem_sightings member'
      rw [Later, now, revision, now', revision']
      exact before
  · intro e member
    obtain ⟨c', inside, member⟩ := List.mem_flatMap.mp (List.mem_reverse.mp member)
    obtain ⟨now, revision⟩ := mem_sightings member
    rw [now, revision]
    exact last c' inside c (List.mem_singleton_self c)

/-- What was seen up to a report of the call is in order, newest first. -/
theorem seen_later {calls : List Comparison} {c : Comparison} (ordered : Ordered (calls ++ [c])) {n : String}
    {before after : List Sighting} {s : Sighting} (split : c.sightings n c.reports = before ++ s :: after) :
    s.now = c.now ∧ (s :: (before.reverse ++ history n calls)).Pairwise Later := by
  obtain ⟨sorted_, earlier⟩ := history_later ordered n
  have same (e : Sighting) (member : e ∈ before ++ s :: after) : e.now = c.now ∧ e.revision = c.revision :=
    mem_sightings (split ▸ member)
  obtain ⟨now, revision⟩ := same s (by simp)
  refine ⟨now, List.pairwise_cons.mpr ⟨fun e member => ?_, List.pairwise_append.mpr ⟨?_, sorted_, ?_⟩⟩⟩
  · rw [Later, now, revision]
    obtain here | old := List.mem_append.mp member
    · obtain ⟨now', revision'⟩ := same e (List.mem_append_left _ (List.mem_reverse.mp here))
      exact ⟨now'.le, revision'.le⟩
    · exact earlier e old
  · refine List.pairwise_of_forall_mem_list fun a member b member' => ?_
    obtain ⟨now₁, revision₁⟩ := same a (List.mem_append_left _ (List.mem_reverse.mp member))
    obtain ⟨now₂, revision₂⟩ := same b (List.mem_append_left _ (List.mem_reverse.mp member'))
    exact ⟨by rw [now₁, now₂], by rw [revision₁, revision₂]⟩
  · intro a member b old
    obtain ⟨now₁, revision₁⟩ := same a (List.mem_append_left _ (List.mem_reverse.mp member))
    rw [Later, now₁, revision₁]
    exact earlier b old

/-- The last one of a list that goes back in time is the oldest. -/
theorem oldest_spec {s : Sighting} {older : List Sighting} (later : (s :: older).Pairwise Later) :
    older.getLastD s ∈ s :: older ∧ ∀ e ∈ s :: older, (older.getLastD s).now ≤ e.now := by
  induction older generalizing s with
  | nil => simp
  | cons x rest ih =>
    obtain ⟨first, later⟩ := List.pairwise_cons.mp later
    obtain ⟨member, least⟩ := ih later
    rw [List.getLastD_cons]
    refine ⟨.tail _ member, List.forall_mem_cons.mpr ⟨?_, least⟩⟩
    exact (least x (.head _)).trans (first x (.head _)).1

theorem unmoved_iff {grace : ℚ} {seen : List Sighting} {s : Sighting} (later : (s :: seen).Pairwise Later) :
    Unmoved grace seen s ↔ s.now - (oldest seen s).now > grace := by
  have within : (stretch seen s).Pairwise Later := later.sublist ((List.takeWhile_sublist _).cons_cons s)
  obtain ⟨member, least⟩ := oldest_spec within
  constructor
  · rintro ⟨e, inside, late⟩
    exact late.trans_le (sub_le_sub_left (least e inside) _)
  · exact fun late => ⟨_, member, late⟩

/-- `compare` finds a Node stalled exactly when it is behind, and has been at its revision for longer than
the grace. -/
theorem stalled_iff (grace : ℚ) {calls : List Comparison} {c : Comparison} (ordered : Ordered (calls ++ [c])) (n : String) :
    Stalled (c.apply (run grace calls)).1.findings n ↔
      Sees (fun seen s => s.Behind ∧ Unmoved grace seen s) calls c n := by
  have quiet (found : List Finding) (other : ∀ f ∈ found, ¬ FindingKind.IsBehind f.kind) : ¬ Stalled found n := by
    rintro ⟨f, member, stalled, -⟩
    exact other f member (.inr stalled)
  have loop := (@reports_stalled grace c c.reports ⟨[], [], (run grace calls).progress⟩ _ (run_tracks grace calls) n).2
  rw [Comparison.apply, Shadow.compare, run_grace, stalled_append, stalled_append, loop]
  constructor
  · rintro (((nothing | ⟨before, s, after, split, behind, moved, marked, late⟩) | claim) | orphan)
    · exact absurd nothing (quiet [] (List.forall_mem_nil _))
    · rw [mark_cons] at marked
      cases marked
      exact ⟨before, s, after, split, behind, (unmoved_iff (seen_later ordered split).2).mpr late⟩
    · refine absurd claim (quiet _ fun f member => ?_)
      obtain ⟨entry, -, found⟩ := List.mem_filterMap.mp member
      exact claimFinding_kind found
    · refine absurd orphan (quiet _ fun f member => ?_)
      obtain ⟨entry, -, found⟩ := List.mem_filterMap.mp member
      exact orphanFinding_kind found
  · rintro ⟨before, s, after, split, behind, unmoved⟩
    refine .inl (.inl (.inr ⟨before, s, after, split, behind, _, mark_cons s _, ?_⟩))
    exact (unmoved_iff (seen_later ordered split).2).mp unmoved

/-- A Node that was up to date within the grace is not stuck. -/
theorem not_stuck_of_level {grace : ℚ} {seen : List Sighting} {s e : Sighting} (later : (s :: seen).Pairwise Later)
    (member : e ∈ seen) (level : ¬ e.Behind) (recent : s.now - e.now ≤ grace) : ¬ Stuck grace seen s := by
  rintro ⟨e₀, inside, behind, late⟩
  have newer : e₀.now < e.now := by linarith
  have same : ∀ x ∈ stretch seen s, x.observed = s.observed := by
    refine List.forall_mem_cons.mpr ⟨rfl, fun x there => ?_⟩
    simpa using List.mem_takeWhile_imp there
  -- a later sighting is in the stretch, too, since the earlier one is
  have apart : s :: seen = stretch seen s ++ seen.dropWhile fun x => x.observed = s.observed := by
    rw [stretch, List.cons_append, List.takeWhile_append_dropWhile]
  rw [apart] at later
  obtain ⟨within, -, across⟩ := List.pairwise_append.mp later
  have there : e ∈ stretch seen s ++ seen.dropWhile fun x => x.observed = s.observed := apart ▸ List.mem_cons_of_mem s member
  obtain here | gone := List.mem_append.mp there
  · have onward : (stretch seen s).Pairwise fun a b => a.now < b.now → a.revision ≤ b.revision :=
      within.imp fun {a b} after less => absurd less (not_lt.mpr after.1)
    have backward : (stretch seen s).Pairwise fun a b => b.now < a.now → b.revision ≤ a.revision :=
      within.imp fun {a b} after _ => after.2
    have newer' := onward.forall_of_forall_of_flip (fun x _ _ => le_refl x.revision) backward inside here newer
    refine level ?_
    rw [Sighting.Behind] at behind ⊢
    rw [same e here, ← same e₀ inside]
    omega
  · exact absurd newer (not_lt.mpr (across e₀ inside e gone).1)

theorem honest_iff (grace : ℚ) {calls : List Comparison} {c : Comparison} (ordered : Ordered (calls ++ [c])) :
    Honest grace calls c ↔ NoEditBetween grace calls c := by
  constructor
  · intro honest n sees
    exact (honest n).1 ((stalled_iff grace ordered n).mpr sees)
  · intro timely n
    refine ⟨fun stalled => timely n ((stalled_iff grace ordered n).mp stalled), ?_⟩
    rintro ⟨e, member, level, recent⟩ stalled
    obtain ⟨before, s, after, split, stuck⟩ := timely n ((stalled_iff grace ordered n).mp stalled)
    obtain ⟨now, later⟩ := seen_later ordered split
    exact not_stuck_of_level later (List.mem_append_right _ member) level (now ▸ recent) stuck

/-- Along a run, only what is stuck is stalled exactly when no edit comes to a Node that has been up to date at
one revision for longer than the grace. -/
theorem stalled_only_if_stuck_iff (grace : ℚ) (calls : List Comparison) (ordered : Ordered calls) :
    (∀ first c, first ++ [c] <+: calls → Honest grace first c) ↔
      ∀ first c, first ++ [c] <+: calls → NoEditBetween grace first c := by
  refine forall_congr' fun first => forall_congr' fun c => imp_congr_right fun part => ?_
  exact honest_iff grace (ordered.sublist part.sublist)

/-- A Node at the revision 5, and the directory that goes from 5 to 6 ten seconds before the last call. -/
def upToDateThenEdited : List Comparison :=
  [⟨[(1, "node-1")], [("node-1", 1)], 5, [⟨"node-1", 1, [1], 5⟩], 0⟩,
    ⟨[(1, "node-1")], [("node-1", 1)], 5, [⟨"node-1", 1, [1], 5⟩], 90⟩,
    ⟨[(1, "node-1")], [("node-1", 1)], 6, [⟨"node-1", 1, [1], 5⟩], 100⟩]

/-- The edit is ten seconds old, and the Node is stalled. -/
theorem edit_stalls_at_once : ¬ ∀ (grace : ℚ) (calls : List Comparison), Ordered calls →
    ∀ first c, first ++ [c] <+: calls → Honest grace first c := by
  intro claimed
  have honest := claimed 60 upToDateThenEdited (by unfold Ordered upToDateThenEdited; decide +kernel)
    (upToDateThenEdited.take 2) (upToDateThenEdited.getLast (by decide)) (List.prefix_refl _)
  have recent : ∃ e ∈ history "node-1" (upToDateThenEdited.take 2), ¬ e.Behind ∧ 100 - e.now ≤ 60 := by decide +kernel
  exact (honest "node-1").2 recent (by decide +kernel)

/-- Behind from the start: slow first, then stuck, then slow again. -/
def slowThenStuck : List Comparison :=
  [⟨[(1, "node-1")], [("node-1", 1)], 7, [⟨"node-1", 1, [1], 5⟩], 100⟩,
    ⟨[(1, "node-1")], [("node-1", 1)], 7, [⟨"node-1", 1, [1], 5⟩], 200⟩,
    ⟨[(1, "node-1")], [("node-1", 1)], 7, [⟨"node-1", 1, [1], 6⟩], 210⟩]

theorem stalled_only_if_stuck_slow :
    (∀ first c, first ++ [c] <+: slowThenStuck → Honest 60 first c) ↔
      ∀ first c, first ++ [c] <+: slowThenStuck → NoEditBetween 60 first c :=
  stalled_only_if_stuck_iff 60 slowThenStuck (by unfold Ordered slowThenStuck; decide +kernel)

end EdgeVms.Verified.Stalls
