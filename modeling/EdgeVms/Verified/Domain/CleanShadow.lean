import EdgeVms.Domain.Shadow

/-! # A clean shadow report

The gate for the domain's writes: no finding but a Node that is behind, exactly when
the Nodes run what is placed, each camera once and under the current epoch.
-/

namespace EdgeVms.Verified.CleanShadow

open Python Domain Shadow

/-- Every Node's claim to a camera. -/
def claimsOf (reports : List NodeReport) : List (Int × String) :=
  reports.flatMap fun r => r.cameras.map fun c => (c, r.node)

/-- The Nodes that claim the camera. -/
def claimants (pairs : List (Int × String)) (c : Int) : List String :=
  (pairs.filter fun pair => pair.1 = c).map Prod.snd

/-- The report is under its Node's current epoch, when one is known. -/
def Current (epochs : Dict Int) (r : NodeReport) : Prop := ∀ epoch, epochs.get? r.node = some epoch → r.epoch = epoch

/-- Behind the directory: slow or stuck, but nothing else is wrong with it. -/
def FindingKind.IsBehind (kind : FindingKind) : Prop := kind = .lagging ∨ kind = .stalled

/-- No finding is unmanaged, orphaned, a conflict or a stale epoch. -/
def Clean (rep : DivergenceReport) : Prop := ∀ f ∈ rep.findings, FindingKind.IsBehind f.kind

section

variable {pairs : List (Int × String)} {placed : Table String}

/-! ## Claims as a multiset -/

theorem claimants_append (first later : List (Int × String)) (c : Int) :
    claimants (first ++ later) c = claimants first c ++ claimants later c := by
  rw [claimants, List.filter_append, List.map_append]
  rfl

theorem count_claimants (c : Int) (node : String) : (claimants pairs c).count node = pairs.count (c, node) := by
  induction pairs with
  | nil => rfl
  | cons pair rest ih =>
    obtain ⟨c', node'⟩ := pair
    rw [claimants, List.filter_cons]
    by_cases same : c' = c
    · subst same
      rw [if_pos (by simp), List.map_cons, List.count_cons, List.count_cons]
      have tail : ((rest.filter fun pair => pair.1 = c').map Prod.snd).count node = rest.count (c', node) := ih
      simp [tail]
    · rw [if_neg (by simpa using same), List.count_cons_of_ne fun here => same (congrArg Prod.fst here)]
      exact ih

theorem claimants_table (nodup : placed.keys.Nodup) (c : Int) : claimants placed c = (placed.get? c).toList := by
  induction placed with
  | nil => rfl
  | cons entry rest ih =>
    obtain ⟨c', node⟩ := entry
    obtain ⟨fresh, nodup⟩ := List.nodup_cons.mp nodup
    have tail : claimants rest c = (Table.get? rest c).toList := ih nodup
    rw [claimants, List.filter_cons, Table.get?_cons]
    by_cases same : c' = c
    · subst same
      have absent : Table.get? rest c' = none := Table.get?_eq_none.mpr fresh
      rw [absent] at tail
      rw [if_pos (by simp), if_pos rfl, List.map_cons]
      exact congrArg (node :: ·) tail
    · rw [if_neg (by simpa using same), if_neg same]
      exact tail

/-- The claims are the placed pairs, each once, when every camera has its placed claimant and no other. -/
theorem perm_iff_claimants (nodup : placed.keys.Nodup) :
    pairs.Perm placed ↔ ∀ c, claimants pairs c = (placed.get? c).toList := by
  constructor
  · intro perm c
    have same : (claimants pairs c).Perm (claimants placed c) := (perm.filter _).map _
    rw [claimants_table nodup] at same
    cases found : placed.get? c with
    | none =>
      rw [found] at same
      exact same.eq_nil
    | some node =>
      rw [found] at same
      exact List.perm_singleton.mp same
  · intro each
    refine List.perm_iff_count.mpr fun pair => ?_
    obtain ⟨c, node⟩ := pair
    rw [← count_claimants, each, ← claimants_table nodup, count_claimants]

end

/-! ## What the loop over the reports tallies -/

/-- `claims` has the claimants of each camera that is claimed. -/
structure Tallies (claims : Table (List String)) (pairs : List (Int × String)) : Prop where
  nodup : claims.keys.Nodup
  nodes : ∀ c, (claims.get? c).getD [] = claimants pairs c
  claimed : ∀ c, claims.get? c ≠ some []

section

variable {claims : Table (List String)} {pairs : List (Int × String)}

theorem Tallies.claim (tallies : Tallies claims pairs) (node : String) (c : Int) :
    Tallies (Shadow.claim node claims c) (pairs ++ [(c, node)]) where
  nodup := Table.nodup_set tallies.nodup c _
  nodes c' := by
    rw [Shadow.claim, Table.get?_set, claimants_append]
    by_cases same : c = c'
    · subst same
      rw [if_pos rfl, Option.getD_some, tallies.nodes]
      simp [claimants]
    · rw [if_neg same, tallies.nodes]
      simp [claimants, same]
  claimed c' := by
    rw [Shadow.claim, Table.get?_set]
    split
    · simp
    · exact tallies.claimed c'

theorem Tallies.claimAll (tallies : Tallies claims pairs) (node : String) (cameras : List Int) :
    Tallies (cameras.foldl (Shadow.claim node) claims) (pairs ++ cameras.map fun c => (c, node)) := by
  induction cameras generalizing claims pairs with
  | nil => simpa using tallies
  | cons c rest ih =>
    rw [List.foldl_cons, List.map_cons, List.append_cons]
    exact ih (tallies.claim node c)

end

section

variable {pairs : List (Int × String)} {grace now : ℚ} {epochs : Dict Int} {revision : Int} {pass : Pass}

theorem current_iff {r : NodeReport} : Current epochs r ↔ epochs.getD r.node r.epoch = r.epoch := by
  rw [Current, Dict.getD]
  cases epochs.get? r.node with
  | none => simp
  | some epoch => simp [eq_comm]

theorem behindFinding_kind {since : ℚ} {r : NodeReport} {f : Finding}
    (found : behindFinding grace revision now since r = some f) : FindingKind.IsBehind f.kind := by
  rw [behindFinding] at found
  split at found
  · cases found
    show FindingKind.IsBehind (if _ then _ else _)
    split
    · exact .inr rfl
    · exact .inl rfl
  · cases found

/-- The round of a report that counts. -/
theorem report_current {r : NodeReport} (current : epochs.getD r.node r.epoch = r.epoch) :
    report grace epochs revision now pass r =
      { findings := pass.findings ++
          (behindFinding grace revision now (progressed now r pass.progress).1 r).toList
        claims := r.cameras.foldl (claim r.node) pass.claims
        progress := (progressed now r pass.progress).2 } :=
  if_neg (not_not.mpr current)

theorem report_fenced {r : NodeReport} (fenced : epochs.getD r.node r.epoch ≠ r.epoch) :
    ∃ f, FindingKind.staleEpoch = f.kind ∧
      report grace epochs revision now pass r = { pass with findings := pass.findings ++ [f] } :=
  ⟨_, rfl, if_pos fenced⟩

/-- A round either finds the report fenced, or takes its claims and finds at most that it is behind. -/
theorem report_cases (r : NodeReport) :
    (¬ Current epochs r ∧ ∃ f, FindingKind.staleEpoch = f.kind ∧
      report grace epochs revision now pass r = { pass with findings := pass.findings ++ [f] }) ∨
    (Current epochs r ∧ ∃ found, (∀ f ∈ found, FindingKind.IsBehind f.kind) ∧
      (report grace epochs revision now pass r).findings = pass.findings ++ found ∧
      (report grace epochs revision now pass r).claims = r.cameras.foldl (claim r.node) pass.claims) := by
  rw [current_iff]
  by_cases current : epochs.getD r.node r.epoch = r.epoch
  · rw [report_current current]
    exact .inr ⟨current, _, fun f member => behindFinding_kind (Option.mem_toList.mp member), rfl, rfl⟩
  · exact .inl ⟨current, report_fenced current⟩

/-- After the loop: no report was fenced exactly when nothing worse than behind is found, and then all
claims are tallied. -/
theorem reports_tally (reports : List NodeReport) (tallies : Tallies pass.claims pairs) :
    let after := reports.foldl (report grace epochs revision now) pass
    ((∀ f ∈ after.findings, FindingKind.IsBehind f.kind) ↔
      (∀ f ∈ pass.findings, FindingKind.IsBehind f.kind) ∧ ∀ r ∈ reports, Current epochs r) ∧
    ((∀ r ∈ reports, Current epochs r) → Tallies after.claims (pairs ++ claimsOf reports)) := by
  induction reports generalizing pass pairs with
  | nil => exact ⟨by simp, fun _ => by simpa [claimsOf] using tallies⟩
  | cons r rest ih =>
    rw [List.foldl_cons, List.forall_mem_cons]
    obtain ⟨fenced, f, stale, stepped⟩ | ⟨current, found, behind, findings, claimed⟩ :=
      @report_cases grace now epochs revision pass r
    · -- the finding of a fenced report stays
      rw [stepped]
      obtain ⟨later, -⟩ := @ih _ { pass with findings := pass.findings ++ [f] } tallies
      refine ⟨?_, fun all => absurd all.1 fenced⟩
      rw [later]
      constructor
      · rintro ⟨clean, -⟩
        have here := clean f (List.mem_append_right _ (List.mem_singleton_self f))
        rw [FindingKind.IsBehind, ← stale] at here
        obtain same | same := here <;> cases same
      · rintro ⟨-, all, -⟩
        exact absurd all fenced
    · have tallied : Tallies (report grace epochs revision now pass r).claims (pairs ++ r.cameras.map fun c => (c, r.node)) := by
        rw [claimed]
        exact tallies.claimAll r.node r.cameras
      obtain ⟨clean, counts⟩ := ih tallied
      refine ⟨?_, fun all => ?_⟩
      · rw [clean, findings, List.forall_mem_append]
        exact ⟨fun both => ⟨both.1.1, current, both.2⟩, fun both => ⟨⟨both.1, behind⟩, both.2.2⟩⟩
      · have whole : claimsOf (r :: rest) = (r.cameras.map fun c => (c, r.node)) ++ claimsOf rest := List.flatMap_cons
        rw [whole, ← List.append_assoc]
        exact counts all.2

end

/-! ## What is found of the claims -/

section

variable {claims : Table (List String)} {pairs : List (Int × String)} {placed : Table String}

/-- A camera's claims give no finding exactly when it is claimed once, where it is placed. -/
theorem claimFinding_none_iff {cam : Int} {nodes : List String} (claimed : nodes ≠ []) :
    claimFinding placed cam nodes = none ↔ nodes = (placed.get? cam).toList := by
  cases nodes with
  | nil => exact absurd rfl claimed
  | cons node rest =>
    cases rest with
    | nil =>
      rw [claimFinding]
      cases found : placed.get? cam with
      | none => simp
      | some there => simp [eq_comm]
    | cons other rest =>
      have several : claimFinding placed cam (node :: other :: rest) =
          some ⟨.conflict, some cam, none, "claimed by " ++ listed (DomainDirectory.sorted (node :: other :: rest))⟩ := rfl
      rw [several]
      cases placed.get? cam with
      | none => simp
      | some there => simp

theorem claimFinding_kind {cam : Int} {nodes : List String} {f : Finding} (found : claimFinding placed cam nodes = some f) :
    ¬ FindingKind.IsBehind f.kind := by
  rw [claimFinding.eq_def] at found
  rw [FindingKind.IsBehind]
  split at found
  · cases found
  · split at found
    · cases found
      simp
    · split at found
      · cases found
        simp
      · cases found
  · cases found
    simp

theorem orphanFinding_kind {cam : Int} {node : String} {f : Finding} (found : orphanFinding claims cam node = some f) :
    ¬ FindingKind.IsBehind f.kind := by
  rw [orphanFinding] at found
  rw [FindingKind.IsBehind]
  split at found
  · cases found
  · cases found
    simp

/-- Both loops over the claims find nothing exactly when the claims are the placed pairs. -/
theorem findings_nil_iff (tallies : Tallies claims pairs) (nodup : placed.keys.Nodup) :
    ((∀ entry ∈ claims, claimFinding placed entry.1 entry.2 = none) ∧
      ∀ entry ∈ placed, orphanFinding claims entry.1 entry.2 = none) ↔ pairs.Perm placed := by
  rw [perm_iff_claimants nodup]
  constructor
  · rintro ⟨each, covered⟩ c
    rw [← tallies.nodes]
    cases found : claims.get? c with
    | none =>
      cases placed_ : placed.get? c with
      | none => rfl
      | some node =>
        have orphan := covered (c, node) (Table.mem_of_get? placed_)
        rw [orphanFinding, Table.has, found] at orphan
        cases orphan
    | some nodes =>
      have claimed : nodes ≠ [] := by
        rintro rfl
        exact tallies.claimed c found
      exact (claimFinding_none_iff claimed).mp (each (c, nodes) (Table.mem_of_get? found))
  · intro each
    constructor
    · intro entry member
      have found := Table.get?_of_mem tallies.nodup member
      have claimed : entry.2 ≠ [] := by
        intro nothing
        rw [nothing] at found
        exact tallies.claimed entry.1 found
      rw [claimFinding_none_iff claimed, ← each, ← tallies.nodes, found]
      rfl
    · intro entry member
      have one : claimants pairs entry.1 = [entry.2] := by rw [each, Table.get?_of_mem nodup member]; rfl
      rw [← tallies.nodes] at one
      rw [orphanFinding, if_pos]
      rw [Table.has]
      cases found : claims.get? entry.1 with
      | none =>
        rw [found] at one
        cases one
      | some nodes => rfl

end

/-- The report is clean exactly when the model is exact. -/
theorem clean_iff_exact (shadow : Shadow) (placed : Table String) (distinct : placed.keys.Nodup) (epochs : Dict Int)
    (revision : Int) (now : ℚ) (reports : List NodeReport) :
    Clean (shadow.compare placed epochs revision now reports).1 ↔
      (∀ r ∈ reports, Current epochs r) ∧ (claimsOf reports).Perm placed := by
  have start : Tallies (⟨[], [], shadow.progress⟩ : Pass).claims [] :=
    ⟨List.nodup_nil, fun _ => rfl, fun _ => nofun⟩
  obtain ⟨behind, tallied⟩ := @reports_tally [] shadow.grace now epochs revision _ reports start
  have silent {α : Type} (make : α → Option Finding) (entries : List α)
      (worse : ∀ entry f, make entry = some f → ¬ FindingKind.IsBehind f.kind) :
      (∀ f ∈ entries.filterMap make, FindingKind.IsBehind f.kind) ↔ ∀ entry ∈ entries, make entry = none := by
    constructor
    · intro clean entry member
      cases found : make entry with
      | none => rfl
      | some f => exact absurd (clean f (List.mem_filterMap.mpr ⟨entry, member, found⟩)) (worse entry f found)
    · intro nothing f member
      obtain ⟨entry, inside, found⟩ := List.mem_filterMap.mp member
      rw [nothing entry inside] at found
      cases found
  rw [Clean, Shadow.compare, List.forall_mem_append, List.forall_mem_append, behind,
    silent _ _ fun _ _ => claimFinding_kind, silent _ _ fun _ _ => orphanFinding_kind, and_assoc]
  constructor
  · rintro ⟨⟨-, all⟩, each⟩
    exact ⟨all, (findings_nil_iff (tallied all) distinct).mp each⟩
  · rintro ⟨all, perm⟩
    exact ⟨⟨List.forall_mem_nil _, all⟩, (findings_nil_iff (tallied all) distinct).mpr perm⟩

/-- Two Nodes that run what is placed on them; the epoch of the second is not known. -/
theorem clean_iff_exact_two :
    Clean ((Shadow.new 60).compare [(1, "node-1"), (2, "node-2")] [("node-1", 3)] 5 100
      [⟨"node-2", 8, [2], 5⟩, ⟨"node-1", 3, [1], 4⟩]).1 := by
  refine (clean_iff_exact _ _ (by decide) _ _ _ _).mpr ⟨?_, by decide⟩
  simp [current_iff, Dict.getD, Dict.get?]

end EdgeVms.Verified.CleanShadow
