import EdgeVms.Verified.Domain.LastKnown
import Mathlib.Algebra.BigOperators.Group.List.Basic
import Mathlib.Algebra.Order.Group.Abs
import Mathlib.Data.List.Count

/-! # The causes of silence

Every Node whose rows are not live is explained by one cause, and no live Node is
blamed.  A negative `lost_after` has no such reading: the rows count the age from
zero on, and the causes do not.
-/

namespace EdgeVms.Verified.Causes

open Process Python Domain ReadView LastKnown

/-- The snapshots. -/
def known (view : ReadView) : List Snapshot := view.snapshots.map Prod.snd

/-- The Nodes that are known on a server. -/
def on (view : ReadView) (cl server : String) : List Snapshot :=
  (known view).filter fun s => s.cluster = cl ∧ s.server = server

/-- Dictionaries: one snapshot under the name of each Node, one time for each cluster that is down. -/
structure Keyed (view : ReadView) : Prop where
  nodup : (view.snapshots.map Prod.fst).Nodup
  named : ∀ entry ∈ view.snapshots, entry.2.node = entry.1
  down : (view.clusterDownSince.map Prod.fst).Nodup

/-- The causes partition the Nodes that are not live. -/
structure Partitioned (view : ReadView) (now : ℚ) : Prop where
  once : ∀ s ∈ known view, view.nodeState now s ≠ .live →
    ((view.causes now).filter fun c => s.node ∈ c.nodes).length = 1
  live : ∀ s ∈ known view, view.nodeState now s = .live → ∀ c ∈ view.causes now, s.node ∉ c.nodes
  server : ∀ cl server,
    (∃ c ∈ view.causes now, c.scope = .server ∧ c.name = cl ++ "/" ++ server ∧
      c.nodes = DomainDirectory.sorted ((on view cl server).map (·.node))) ↔
    view.clusterDownSince.get? cl = none ∧ 2 ≤ (on view cl server).length ∧
      ∀ s ∈ on view cl server, view.nodeState now s = .stale
  cameras : ∀ rows, view.rows now = .ok rows →
    ((view.causes now).map Cause.cameras).sum = (rows.filter fun r => r.nodeState ≠ .live).length

variable {view : ReadView} {now : ℚ}

/-! ## What a view is keyed by -/

theorem keyed_new (lostAfter : ℚ) : Keyed (.new lostAfter) := ⟨List.nodup_nil, fun _ => nofun, List.nodup_nil⟩

theorem Keyed.take (keyed : Keyed view) (found : List Snapshot) : Keyed (Unreachable.take found view) := by
  induction found generalizing view with
  | nil => exact keyed
  | cons s rest ih =>
    refine @ih { view with snapshots := view.snapshots.set s.node s } ⟨?_, fun entry member => ?_, keyed.down⟩
    · exact Dict.nodup_keys_set keyed.nodup _ _
    · obtain rfl | old := Dict.mem_set member
      · rfl
      · exact keyed.named entry old

/-- A pass leaves one snapshot under the name of each Node. -/
theorem Keyed.refresh (keyed : Keyed view) (fed : Federation) (now : ℚ) : Keyed (view.refresh fed now).2 := by
  have rounds (clusters : Dict Domain.Cluster) : ∀ view, Keyed view → Keyed (refreshRounds now clusters view).2 := by
    induction clusters with
    | nil => exact fun view keyed => ⟨keyed.nodup, keyed.named, keyed.down⟩
    | cons entry rest ih =>
      obtain ⟨name, c⟩ := entry
      intro view keyed
      have taken := keyed.take (readOf name c)
      rw [refreshRounds, takeCluster_eq]
      cases Unreachable.heartbeats name c with
      | ok found => exact ih _ ⟨taken.nodup, taken.named, Dict.nodup_keys_pop taken.down name⟩
      | error error =>
        cases error with
        | unreachable =>
          refine ih _ ⟨taken.nodup, taken.named, ?_⟩
          show ((setDefault _ name now).map Prod.fst).Nodup
          rw [setDefault]
          split
          · exact taken.down
          · exact Dict.nodup_keys_set taken.down _ _
        | store error => exact taken
  exact rounds fed.clusters view keyed

/-! ## Who is silent -/

theorem lt_since {bound : ℚ} {ts : Floating} :
    (Floating.finite bound).lt (since now ts) = true ↔
      (∃ t, ts = .finite t ∧ bound < now - t) ∨ ts = .infinite true := by
  cases ts with
  | finite t => simp [since, Floating.lt]
  | infinite negative => cases negative <;> simp [since, Floating.lt]
  | nan => simp [since, Floating.lt]

/-- With a grace that is not negative, the rows of a Node in an answering cluster are stale exactly when the
causes count it as silent. -/
theorem isSilent_iff (patient : 0 ≤ view.lostAfter) (s : Snapshot) :
    view.isSilent now s = true ↔ view.nodeState now s = .stale := by
  rw [isSilent, nodeState, Bool.and_eq_true, lt_since]
  cases view.clusterDownSince.get? s.cluster with
  | some down => simp
  | none =>
    have never : ¬ 0 > view.lostAfter := not_lt.mpr patient
    cases ts_eq : s.ts with
    | finite t =>
      have same : max 0 (now - t) > view.lostAfter ↔ view.lostAfter < now - t := by
        rw [gt_iff_lt, lt_max_iff]
        exact or_iff_right never
      by_cases late : view.lostAfter < now - t <;> simp [same, late]
    | infinite negative => cases negative <;> simp [never]
    | nan => simp [never]

theorem unreachable_iff (s : Snapshot) :
    view.nodeState now s = .unreachable ↔ s.cluster ∈ view.clusterDownSince.map Prod.fst := by
  rw [Dict.mem_keys, nodeState]
  by_cases down : (view.clusterDownSince.get? s.cluster).isSome = true
  · simp [down]
  · rw [if_neg down]
    refine ⟨fun is => ?_, fun is => absurd is down⟩
    split at is
    · split at is <;> cases is
    · cases is
    · split at is <;> cases is
    · split at is <;> cases is

/-- The Nodes of the clusters that are down and the silent Nodes are those that are not live, each once. -/
theorem silent_perm (patient : 0 ≤ view.lostAfter) :
    ((known view).filter (fun s => s.cluster ∈ view.clusterDownSince.map Prod.fst) ++
      (known view).filter (view.isSilent now)).Perm ((known view).filter fun s => view.nodeState now s ≠ .live) := by
  have first : (known view).filter (fun s => s.cluster ∈ view.clusterDownSince.map Prod.fst) =
      ((known view).filter fun s => view.nodeState now s ≠ .live).filter
        fun s => s.cluster ∈ view.clusterDownSince.map Prod.fst := by
    rw [List.filter_filter]
    refine List.filter_congr fun s _ => ?_
    by_cases down : s.cluster ∈ view.clusterDownSince.map Prod.fst
    · have gone : view.nodeState now s = .unreachable := (unreachable_iff s).mpr down
      simp [down, gone]
    · simp [down]
  have later : (known view).filter (view.isSilent now) =
      ((known view).filter fun s => view.nodeState now s ≠ .live).filter
        fun s => !decide (s.cluster ∈ view.clusterDownSince.map Prod.fst) := by
    rw [List.filter_filter]
    refine List.filter_congr fun s _ => ?_
    rw [Bool.eq_iff_iff, isSilent_iff patient, Bool.and_eq_true, Bool.not_eq_true', decide_eq_false_iff_not,
      ← @unreachable_iff view now, decide_eq_true_iff]
    cases view.nodeState now s <;> simp
  rw [first, later]
  exact List.filter_append_perm _ _

/-! ## What each cause covers -/

theorem sorted_perm (names : List String) : (DomainDirectory.sorted names).Perm names := List.perm_insertionSort _ _

theorem groupCauses_nodes (cl server : String) (group : List Snapshot) :
    ((view.groupCauses now cl server group).flatMap Cause.nodes).Perm (group.map (·.node)) := by
  rw [groupCauses]
  split
  · rw [List.flatMap_singleton]
    exact sorted_perm _
  · rw [List.flatMap_map, List.map_eq_flatMap]

theorem groupCauses_cameras (cl server : String) (group : List Snapshot) :
    ((view.groupCauses now cl server group).map Cause.cameras).sum = (group.map fun s => s.cameras.length).sum := by
  rw [groupCauses]
  split
  · simp
  · simp [Function.comp_def]

/-- The groups by server, of the Nodes that are silent. -/
def byServer (view : ReadView) (now : ℚ) : List ((String × String) × List Snapshot) :=
  Grouping.groups (fun s => (s.cluster, s.server)) ((known view).filter (view.isSilent now))

/-- The Nodes of a cluster. -/
def inCluster (view : ReadView) (cl : String) : List Snapshot := (known view).filter fun s => s.cluster = cl

theorem causes_perm : (view.causes now).Perm
    (view.clusterDownSince.map (fun entry => view.clusterCause now entry.1 entry.2) ++
      (byServer view now).flatMap fun entry => view.groupCauses now entry.1.1 entry.1.2 entry.2) :=
  List.perm_insertionSort _ _

theorem clusters_perm (keyed : Keyed view) :
    (view.clusterDownSince.flatMap fun entry => inCluster view entry.1).Perm
      ((known view).filter fun s => s.cluster ∈ view.clusterDownSince.map Prod.fst) := by
  have by_key := Grouping.flatMap_filter_perm (fun s : Snapshot => s.cluster) keyed.down (known view)
  rw [List.flatMap_map] at by_key
  exact by_key

/-- The Nodes of all causes are the Nodes that are not live. -/
theorem nodes_perm (keyed : Keyed view) (patient : 0 ≤ view.lostAfter) :
    ((view.causes now).flatMap Cause.nodes).Perm
      (((known view).filter fun s => view.nodeState now s ≠ .live).map (·.node)) := by
  refine (causes_perm.flatMap_right _).trans (.trans ?_ ((silent_perm patient).map _))
  rw [List.flatMap_append, List.map_append]
  refine .append ?_ ?_
  · rw [List.flatMap_map]
    refine .trans (List.Perm.flatMap_left _ fun entry _ => sorted_perm _) ?_
    exact .trans (.of_eq List.map_flatMap.symm) ((clusters_perm keyed).map _)
  · rw [List.flatMap_assoc]
    refine .trans (List.Perm.flatMap_left _ fun entry _ => groupCauses_nodes _ _ _) ?_
    exact .trans (.of_eq List.map_flatMap.symm) ((Grouping.flatMap_groups_perm _ _).map _)

theorem sum_flatMap {α β : Type} (xs : List α) (f : α → List β) (weight : β → Nat) :
    ((xs.flatMap f).map weight).sum = (xs.map fun x => ((f x).map weight).sum).sum := by
  induction xs with
  | nil => rfl
  | cons x rest ih => rw [List.flatMap_cons, List.map_append, List.sum_append, ih, List.map_cons, List.sum_cons]

/-- Their cameras are counted once. -/
theorem cameras_sum (keyed : Keyed view) (patient : 0 ≤ view.lostAfter) :
    ((view.causes now).map Cause.cameras).sum =
      (((known view).filter fun s => view.nodeState now s ≠ .live).map fun s => s.cameras.length).sum := by
  rw [(causes_perm.map _).sum_eq, ← ((silent_perm patient).map _).sum_eq, List.map_append, List.sum_append,
    List.map_append, List.sum_append]
  congr 1
  · rw [← ((clusters_perm keyed).map _).sum_eq, sum_flatMap, List.map_map]
    rfl
  · have whole := ((Grouping.flatMap_groups_perm (fun s : Snapshot => (s.cluster, s.server))
      ((known view).filter (view.isSilent now))).map fun s => s.cameras.length).sum_eq
    rw [← whole, sum_flatMap, sum_flatMap]
    exact congrArg List.sum (List.map_congr_left fun entry _ => groupCauses_cameras _ _ _)

/-! ## The server causes -/

theorem mem_known {s s' : Snapshot} (keyed : Keyed view) (member : s ∈ known view) (member' : s' ∈ known view)
    (same : s.node = s'.node) : s = s' := by
  obtain ⟨⟨node, s₁⟩, inside, rfl⟩ := List.mem_map.mp member
  obtain ⟨⟨node', s₂⟩, inside', rfl⟩ := List.mem_map.mp member'
  have name : s₁.node = node := keyed.named _ inside
  have name' : s₂.node = node' := keyed.named _ inside'
  have here := Dict.get?_of_mem keyed.nodup inside
  rw [show node = node' by rw [← name, ← name', same], Dict.get?_of_mem keyed.nodup inside'] at here
  exact (Option.some.inj here).symm

/-- The silent Nodes on a server. -/
theorem group_eq (cl server : String) :
    ((known view).filter (view.isSilent now)).filter (fun s => (s.cluster, s.server) = (cl, server)) =
      (on view cl server).filter (view.isSilent now) := by
  rw [on, List.filter_filter, List.filter_filter]
  refine List.filter_congr fun s _ => ?_
  rw [Bool.and_comm]
  simp [Prod.ext_iff]

/-- A server is a cause exactly when all of the several Nodes on it are silent. -/
theorem mem_server_causes {c : Cause} (server_ : c.scope = .server) :
    c ∈ view.causes now ↔ ∃ cl server, 2 ≤ (on view cl server).length ∧
      (on view cl server).filter (view.isSilent now) = on view cl server ∧
      view.groupCauses now cl server (on view cl server) = [c] := by
  obtain ⟨keys, -, members, groups⟩ :=
    Grouping.groups_eq (fun s : Snapshot => (s.cluster, s.server)) ((known view).filter (view.isSilent now))
  rw [causes_perm.mem_iff, List.mem_append, byServer, groups, List.flatMap_map]
  constructor
  · rintro (down | silent)
    · obtain ⟨entry, -, rfl⟩ := List.mem_map.mp down
      cases server_
    · obtain ⟨⟨cl, server⟩, -, there⟩ := List.mem_flatMap.mp silent
      simp only [group_eq] at there
      rw [groupCauses] at there
      split at there
      next whole =>
        -- as many are silent as there are on the server
        obtain ⟨all, several⟩ := whole
        have same : (on view cl server).filter (view.isSilent now) = on view cl server :=
          List.filter_sublist.eq_of_length all
        refine ⟨cl, server, by rw [← same]; exact several, same, ?_⟩
        rw [same] at there several
        rw [groupCauses, if_pos ⟨rfl, several⟩, List.mem_singleton.mp there]
      next =>
        obtain ⟨s, -, rfl⟩ := List.mem_map.mp there
        cases server_
  · rintro ⟨cl, server, several, same, made⟩
    refine .inr (List.mem_flatMap.mpr ⟨(cl, server), ?_, ?_⟩)
    · obtain ⟨s, member⟩ := List.exists_mem_of_length_pos (by omega : 0 < (on view cl server).length)
      rw [members]
      refine ⟨s, ?_, ?_⟩
      · rw [← same] at member
        obtain ⟨member, silent⟩ := List.mem_filter.mp member
        exact List.mem_filter.mpr ⟨(List.mem_filter.mp member).1, silent⟩
      · have place := (List.mem_filter.mp member).2
        simpa [Prod.ext_iff] using place
    · simp only [group_eq, same, made, List.mem_singleton]

/-! ## The partition -/

/-- An element that comes up once is in one of the lists. -/
theorem filter_length_one {α β : Type} [DecidableEq β] {f : α → List β} {xs : List α} {b : β}
    (once : (xs.flatMap f).count b = 1) : (xs.filter fun x => b ∈ f x).length = 1 := by
  induction xs with
  | nil => cases once
  | cons x rest ih =>
    rw [List.flatMap_cons, List.count_append] at once
    by_cases here : b ∈ f x
    · have some_ := List.count_pos_iff.mpr here
      have none_ : (rest.flatMap f).count b = 0 := by omega
      have others : (rest.filter fun x => b ∈ f x) = [] := by
        rw [List.filter_eq_nil_iff]
        intro y member there
        exact List.count_eq_zero.mp none_ (List.mem_flatMap.mpr ⟨y, member, of_decide_eq_true there⟩)
      rw [List.filter_cons, if_pos (decide_eq_true here), others]
      rfl
    · have none_ := List.count_eq_zero.mpr here
      rw [List.filter_cons_of_neg (by simpa using here)]
      exact ih (by omega)

/-- Of the rows, as many are not live as there are cameras of Nodes that are not live. -/
theorem rows_not_live {rows : List Row} (listed : view.rows now = .ok rows) :
    (rows.filter fun r => r.nodeState ≠ .live).length =
      (((known view).filter fun s => view.nodeState now s ≠ .live).map fun s => s.cameras.length).sum := by
  obtain ⟨out, made, perm⟩ := rows_ok listed
  rw [(perm.filter _).length_eq, known]
  generalize view.snapshots = snapshots at made
  clear listed perm
  induction snapshots generalizing out with
  | nil =>
    cases made
    rfl
  | cons entry rest ih =>
    rw [List.mapM_cons] at made
    obtain ⟨own, mine, made⟩ := bind_eq_ok.mp made
    obtain ⟨others, later, ends⟩ := bind_eq_ok.mp made
    cases ends
    have are (row : Row) (member : row ∈ own) : row.nodeState = view.nodeState now entry.2 := by
      obtain ⟨cam, -, made⟩ := of_mem_mapM_ok mine member
      exact (rowOf_ok made).2.2
    rw [List.flatten_cons, List.filter_append, List.length_append, ih _ later, List.map_cons]
    by_cases live : view.nodeState now entry.2 = .live
    · have none_ : own.filter (fun r => r.nodeState ≠ .live) = [] :=
        List.filter_eq_nil_iff.mpr fun row member => by simp [are row member, live]
      rw [none_, List.filter_cons_of_neg (by simp [live])]
      simp
    · have all : own.filter (fun r => r.nodeState ≠ .live) = own :=
        List.filter_eq_self.mpr fun row member => by simp [are row member, live]
      rw [all, List.filter_cons_of_pos (by simp [live]), List.map_cons, List.sum_cons, length_of_mapM mine]

def snapshot (node cluster server : String) (ts : ℚ) (camera : Int) : Snapshot :=
  ⟨node, cluster, .finite ts, 1, server, [.dict [("id", .int camera)]], 0⟩

/-- A grace of minus ten seconds, and a Node whose clock is twenty seconds ahead. -/
def impatient : ReadView :=
  { ReadView.new (-10) with snapshots := [("node-1", snapshot "node-1" "north" "srv-1" 1020 7)] }

/-- A dead server with two Nodes, a live Node, and a cluster that is down. -/
def oneServerDead : ReadView :=
  { ReadView.new 45 with
    snapshots := [("node-1", snapshot "node-1" "north" "srv-1" 900 1), ("node-2", snapshot "node-2" "north" "srv-1" 910 2),
      ("node-3", snapshot "node-3" "north" "srv-2" 995 3), ("node-4", snapshot "node-4" "south" "srv-9" 990 4)]
    clusterDownSince := [("south", 998)] }

end EdgeVms.Verified.Causes
