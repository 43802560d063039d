import EdgeVms.Process.Run
import EdgeVms.Verified.Domain.Unreachable

/-! # The last known cameras

The read model keeps one snapshot for each name of a Node, whatever its cluster.  It
lists the last heartbeat of every Node of every cluster while no two clusters have a
Node of one name, and no cluster fails after some of its heartbeats were read.
-/

namespace EdgeVms.Verified.LastKnown

open Process Python EdgeVms.Cluster Domain Unreachable

/-- One pass: the clusters as they answer, and the time. -/
abbrev Pass := Federation × ℚ

/-- By cluster and Node: the last heartbeat that was read in a pass in which the cluster answered. -/
abbrev Known := String → String → Option Snapshot

def hear (known : Known) (s : Snapshot) : Known :=
  Function.update known s.cluster (Function.update (known s.cluster) s.node (some s))

/-- What the loop over the clusters reads of those that answer, until an exception ends it. -/
def heardRounds : Dict Domain.Cluster → Known → Known
  | [], known => known
  | (name, c) :: rest, known =>
    match heartbeats name c with
    | .ok found => heardRounds rest (found.foldl hear known)
    | .error .unreachable => heardRounds rest known
    | .error _ => known

structure State where
  view : ReadView
  known : Known

def start (lostAfter : ℚ) : State := ⟨.new lostAfter, fun _ _ => none⟩

def step (state : State) (pass : Pass) : State :=
  ⟨(state.view.refresh pass.1 pass.2).2, heardRounds pass.1.clusters state.known⟩

/-- The rows of a cluster's Node are those of the last heartbeat that is known of it. -/
def RowsOf (view : ReadView) (now : ℚ) (rows : List ReadView.Row) (cl node : String) (s : Option Snapshot) : Prop :=
  let listed := rows.filter fun r => r.cluster = cl ∧ r.node = node
  s.elim (listed = []) fun s => ∃ own, s.cameras.mapM (view.rowOf now s) = .ok own ∧ listed.Perm own

def Complete (state : State) (now : ℚ) : Prop :=
  ∀ rows, state.view.rows now = .ok rows → ∀ cl node, RowsOf state.view now rows cl node (state.known cl node)

/-- What is read of a list of Nodes, until one of them cannot be read. -/
def readNodes (name : String) (objects : ObjectStore) : List String → List Snapshot
  | [] => []
  | node :: rest =>
    match heartbeat name objects node with
    | .ok (some s) => s :: readNodes name objects rest
    | .ok none => readNodes name objects rest
    | .error _ => []

def readOf (name : String) (c : Domain.Cluster) : List Snapshot :=
  match NodeDirectory.scan c.vars with
  | .ok nodes => readNodes name c.objects (nodes.map Prod.fst)
  | .error _ => []

/-- A cluster that fails fails at once, and no Node whose heartbeat is read has the name of one that is
known from another cluster or read from one in this pass. -/
def Apart (state : State) (pass : Pass) : Prop :=
  ∀ name c, (name, c) ∈ pass.1.clusters →
    ((∃ found, heartbeats name c = .ok found) ∨ readOf name c = []) ∧
    ∀ s ∈ readOf name c,
      (∀ s', state.view.snapshots.get? s.node = some s' → s'.cluster = name) ∧
      ∀ name' c', (name', c') ∈ pass.1.clusters → ∀ s' ∈ readOf name' c', s'.node = s.node → name' = name

/-! ## What a pass takes over -/

theorem takeNodes_eq (name : String) (objects : ObjectStore) (nodes : List String) (view : ReadView) :
    ReadView.takeNodes name objects nodes view =
      ((nodes.mapM (heartbeat name objects)).map fun _ => (), take (readNodes name objects nodes) view) := by
  induction nodes generalizing view with
  | nil => rfl
  | cons node rest ih =>
    cases answered : objects (node ++ "/heartbeat") with
    | error error =>
      have here : heartbeat name objects node = .error error := by rw [heartbeat, answered]; rfl
      simp only [ReadView.takeNodes, readNodes, List.mapM_cons, answered, here]
      rfl
    | ok object =>
      cases object with
      | none =>
        have here : heartbeat name objects node = .ok none := by rw [heartbeat, answered]; rfl
        simp only [ReadView.takeNodes, readNodes, List.mapM_cons, answered, here, ih]
        cases rest.mapM (heartbeat name objects) <;> rfl
      | some hb =>
        cases read : Snapshot.ofHeartbeat node name hb with
        | error error =>
          have here : heartbeat name objects node = .error (.store (.python error)) := by
            rw [heartbeat, answered]
            exact congrArg (fun made => some <$> made.mapError fun error => Raised.store (.python error)) read
          simp only [ReadView.takeNodes, readNodes, List.mapM_cons, answered, read, here]
          rfl
        | ok s =>
          have here : heartbeat name objects node = .ok (some s) := by
            rw [heartbeat, answered]
            exact congrArg (fun made => some <$> made.mapError fun error => Raised.store (.python error)) read
          have node_eq := (heartbeat_node here).1
          simp only [ReadView.takeNodes, readNodes, List.mapM_cons, answered, read, here, ih]
          rw [take, take, List.foldl_cons, node_eq]
          cases rest.mapM (heartbeat name objects) <;> rfl

theorem takeCluster_eq (name : String) (c : Domain.Cluster) (view : ReadView) :
    ReadView.takeCluster name c view = ((heartbeats name c).map fun _ => (), take (readOf name c) view) := by
  rw [ReadView.takeCluster, heartbeats, readOf]
  cases NodeDirectory.scan c.vars with
  | error error => rfl
  | ok nodes =>
    change ReadView.takeNodes name c.objects (nodes.map Prod.fst) view =
      (((nodes.map Prod.fst).mapM (heartbeat name c.objects) >>= fun all => pure all.reduceOption).map fun _ => (), _)
    rw [takeNodes_eq]
    cases (nodes.map Prod.fst).mapM (heartbeat name c.objects) <;> rfl

theorem readNodes_ok {name : String} {objects : ObjectStore} {nodes : List String} {all : List (Option Snapshot)}
    (made : nodes.mapM (heartbeat name objects) = .ok all) : readNodes name objects nodes = all.reduceOption := by
  induction nodes generalizing all with
  | nil =>
    cases made
    rfl
  | cons node rest ih =>
    rw [List.mapM_cons] at made
    obtain ⟨first, here, made⟩ := bind_eq_ok.mp made
    obtain ⟨others, later, ends⟩ := bind_eq_ok.mp made
    cases ends
    rw [readNodes, here]
    cases first with
    | none => exact (ih later).trans (List.reduceOption_cons_of_none _).symm
    | some s => exact (congrArg (s :: ·) (ih later)).trans (List.reduceOption_cons_of_some _ _).symm

/-- Everything is read of a cluster that answers. -/
theorem readOf_ok {name : String} {c : Domain.Cluster} {found : List Snapshot} (read : heartbeats name c = .ok found) :
    readOf name c = found := by
  rw [heartbeats] at read
  obtain ⟨nodes, scanned, read⟩ := bind_eq_ok.mp read
  obtain ⟨all, made, ends⟩ := bind_eq_ok.mp read
  cases ends
  rw [readOf, scanned]
  exact readNodes_ok made

theorem readNodes_cluster {name : String} {objects : ObjectStore} {nodes : List String} {s : Snapshot}
    (member : s ∈ readNodes name objects nodes) : s.cluster = name := by
  induction nodes with
  | nil => cases member
  | cons node rest ih =>
    rw [readNodes] at member
    split at member
    next s' made =>
      obtain rfl | later := List.mem_cons.mp member
      · exact (heartbeat_node made).2
      · exact ih later
    next => exact ih member
    next => cases member

theorem readOf_cluster {name : String} {c : Domain.Cluster} {s : Snapshot} (member : s ∈ readOf name c) :
    s.cluster = name := by
  rw [readOf] at member
  split at member
  · exact readNodes_cluster member
  · cases member

/-! ## The view has what is known -/

/-- A snapshot is kept exactly when it is the last known of its Node and cluster. -/
structure Agrees (view : ReadView) (known : Known) : Prop where
  nodup : (view.snapshots.map Prod.fst).Nodup
  named : ∀ node s, view.snapshots.get? node = some s → s.node = node
  same : ∀ cl node s, known cl node = some s ↔ view.snapshots.get? node = some s ∧ s.cluster = cl

variable {view : ReadView} {known : Known}

theorem Agrees.hear (agrees : Agrees view known) {s : Snapshot}
    (alone : ∀ s', view.snapshots.get? s.node = some s' → s'.cluster = s.cluster) :
    Agrees { view with snapshots := view.snapshots.set s.node s } (hear known s) where
  nodup := Dict.nodup_keys_set agrees.nodup _ _
  named node s' found := by
    by_cases same : node = s.node
    · subst same
      rw [Dict.get?_set_self] at found
      cases found
      rfl
    · rw [Dict.get?_set_other _ _ same] at found
      exact agrees.named node s' found
  same cl node s' := by
    rw [LastKnown.hear]
    by_cases here : node = s.node
    · subst here
      rw [Dict.get?_set_self]
      by_cases own : cl = s.cluster
      · subst own
        rw [Function.update_self, Function.update_self, Option.some.injEq]
        exact ⟨fun is => ⟨is, is ▸ rfl⟩, And.left⟩
      · rw [Function.update_of_ne own, agrees.same]
        constructor
        · rintro ⟨found, rfl⟩
          exact absurd (alone s' found) own
        · rintro ⟨is, rfl⟩
          cases is
          exact absurd rfl own
    · rw [Dict.get?_set_other _ _ here]
      by_cases own : cl = s.cluster
      · subst own
        rw [Function.update_self, Function.update_of_ne here, agrees.same]
      · rw [Function.update_of_ne own, agrees.same]

theorem Agrees.hears (agrees : Agrees view known) {name : String} {found : List Snapshot}
    (own : ∀ s ∈ found, s.cluster = name)
    (alone : ∀ s ∈ found, ∀ s', view.snapshots.get? s.node = some s' → s'.cluster = name) :
    Agrees (take found view) (found.foldl LastKnown.hear known) := by
  induction found generalizing view known with
  | nil => exact agrees
  | cons s rest ih =>
    obtain ⟨mine, own⟩ := List.forall_mem_cons.mp own
    obtain ⟨here, later⟩ := List.forall_mem_cons.mp alone
    refine ih (agrees.hear fun s' found => (here s' found).trans mine.symm) own fun x member s' found => ?_
    by_cases same : x.node = s.node
    · rw [same, Dict.get?_set_self] at found
      cases found
      exact mine
    · rw [Dict.get?_set_other _ _ same] at found
      exact later x member s' found

/-- What is in the view after some heartbeats were taken over. -/
theorem get?_of_take {found : List Snapshot} {node : String} {s : Snapshot}
    (there : (take found view).snapshots.get? node = some s) :
    (s ∈ found ∧ s.node = node) ∨ view.snapshots.get? node = some s := by
  induction found generalizing view with
  | nil => exact .inr there
  | cons x rest ih =>
    have grown : take (x :: rest) view = take rest { view with snapshots := view.snapshots.set x.node x } := rfl
    rw [grown] at there
    obtain ⟨member, is⟩ | before := ih there
    · exact .inl ⟨.tail _ member, is⟩
    · by_cases same : node = x.node
      · subst same
        rw [Dict.get?_set_self] at before
        cases before
        exact .inl ⟨.head _, rfl⟩
      · rw [Dict.get?_set_other _ _ same] at before
        exact .inr before

/-- The loop over the clusters keeps the view in step with what is heard. -/
theorem refreshRounds_agrees {clusters : Dict Domain.Cluster} (now : ℚ) (agrees : Agrees view known)
    (whole : ∀ name c, (name, c) ∈ clusters → (∃ found, heartbeats name c = .ok found) ∨ readOf name c = [])
    (alone : ∀ name c, (name, c) ∈ clusters → ∀ s ∈ readOf name c,
      ∀ s', view.snapshots.get? s.node = some s' → s'.cluster = name)
    (apart : ∀ name c, (name, c) ∈ clusters → ∀ s ∈ readOf name c,
      ∀ name' c', (name', c') ∈ clusters → ∀ s' ∈ readOf name' c', s'.node = s.node → name' = name) :
    Agrees (ReadView.refreshRounds now clusters view).2 (heardRounds clusters known) := by
  induction clusters generalizing view known with
  | nil => exact ⟨agrees.nodup, agrees.named, agrees.same⟩
  | cons entry rest ih =>
    obtain ⟨name, c⟩ := entry
    rw [ReadView.refreshRounds, heardRounds, takeCluster_eq]
    have whole' : ∀ name c, (name, c) ∈ rest → (∃ found, heartbeats name c = .ok found) ∨ readOf name c = [] :=
      fun name' c' member => whole name' c' (.tail _ member)
    have apart' : ∀ name c, (name, c) ∈ rest → ∀ s ∈ readOf name c,
        ∀ name' c', (name', c') ∈ rest → ∀ s' ∈ readOf name' c', s'.node = s.node → name' = name :=
      fun name' c' member s inside name'' c'' member' => apart name' c' (.tail _ member) s inside name'' c'' (.tail _ member')
    cases read : heartbeats name c with
    | ok found =>
      -- the names that were just taken over are those of no later cluster
      refine ih ?_ whole' (fun name' c' member s inside s' there => ?_) apart'
      · have taken : Agrees (take (readOf name c) view) ((readOf name c).foldl LastKnown.hear known) :=
          agrees.hears (fun s member => readOf_cluster member) (alone name c (.head _))
        rw [readOf_ok read] at taken ⊢
        exact ⟨taken.nodup, taken.named, taken.same⟩
      · obtain ⟨mine, node⟩ | before := get?_of_take there
        · rw [readOf_cluster mine]
          exact apart name' c' (.tail _ member) s inside name c (.head _) s' mine node
        · exact alone name' c' (.tail _ member) s inside s' before
    | error error =>
      have nothing : readOf name c = [] := by
        obtain ⟨found, read'⟩ | nothing := whole name c (.head _)
        · rw [read] at read'
          cases read'
        · exact nothing
      rw [nothing]
      cases error with
      | unreachable =>
        refine ih ⟨agrees.nodup, agrees.named, agrees.same⟩ whole' (fun name' c' member => ?_) apart'
        exact alone name' c' (.tail _ member)
      | store error => exact ⟨agrees.nodup, agrees.named, agrees.same⟩

/-! ## The rows -/

theorem rowOf_ok {now : ℚ} {s : Snapshot} {cam : Value} {row : ReadView.Row} (made : view.rowOf now s cam = .ok row) :
    row.cluster = s.cluster ∧ row.node = s.node ∧ row.nodeState = view.nodeState now s := by
  cases cam with
  | dict cam =>
    rw [ReadView.rowOf] at made
    obtain ⟨id, -, made⟩ := bind_eq_ok.mp made
    obtain ⟨camera, -, made⟩ := bind_eq_ok.mp made
    obtain ⟨revision, -, made⟩ := bind_eq_ok.mp made
    cases made
    exact ⟨rfl, rfl, rfl⟩
  | none | bool | int | float | str | list => cases made

/-- The rows are those of the snapshots, one snapshot after the other, and then sorted. -/
theorem rows_ok {now : ℚ} {rows : List ReadView.Row} (listed : view.rows now = .ok rows) :
    ∃ out, view.snapshots.mapM (fun entry => entry.2.cameras.mapM (view.rowOf now entry.2)) = .ok out ∧
      rows.Perm out.flatten := by
  rw [ReadView.rows] at listed
  obtain ⟨out, made, ends⟩ := bind_eq_ok.mp listed
  cases ends
  exact ⟨out, made, List.perm_insertionSort _ _⟩

/-- Of the rows of some snapshots, those of one Node of a cluster are the rows of its snapshot. -/
theorem rows_of_snapshot {now : ℚ} {snapshots : Dict Snapshot} {out : List (List ReadView.Row)}
    (made : snapshots.mapM (fun entry => entry.2.cameras.mapM (view.rowOf now entry.2)) = .ok out)
    (nodup : (snapshots.map Prod.fst).Nodup) (named : ∀ entry ∈ snapshots, entry.2.node = entry.1) (cl node : String) :
    let listed := out.flatten.filter fun r => r.cluster = cl ∧ r.node = node
    ((snapshots.get? node).filter fun s => s.cluster = cl).elim (listed = []) fun s =>
      s.cameras.mapM (view.rowOf now s) = .ok listed := by
  induction snapshots generalizing out with
  | nil =>
    cases made
    rfl
  | cons entry rest ih =>
    obtain ⟨key, s⟩ := entry
    obtain ⟨fresh, nodup⟩ := List.nodup_cons.mp nodup
    obtain ⟨name, named⟩ := List.forall_mem_cons.mp named
    rw [List.mapM_cons] at made
    obtain ⟨own, mine, made⟩ := bind_eq_ok.mp made
    obtain ⟨others, later, ends⟩ := bind_eq_ok.mp made
    cases ends
    have are (row : ReadView.Row) (member : row ∈ own) : row.cluster = s.cluster ∧ row.node = key := by
      obtain ⟨cam, -, made⟩ := of_mem_mapM_ok mine member
      obtain ⟨cluster, node, -⟩ := rowOf_ok made
      exact ⟨cluster, node.trans name⟩
    have tail := ih later nodup named
    rw [List.flatten_cons, List.filter_append, Dict.get?_cons]
    by_cases same : key = node
    · subst same
      -- the later snapshots are of other Nodes
      have absent : Dict.get? rest key = none := by
        rw [← Option.not_isSome_iff_eq_none, ← Dict.mem_keys]
        exact fresh
      rw [absent] at tail
      rw [if_pos rfl, show others.flatten.filter (fun r => r.cluster = cl ∧ r.node = key) = [] from tail, List.append_nil]
      by_cases mine' : s.cluster = cl
      · have all : own.filter (fun r => r.cluster = cl ∧ r.node = key) = own :=
          List.filter_eq_self.mpr fun row member => by
            obtain ⟨cluster, node⟩ := are row member
            simp [cluster, node, mine']
        rw [all, @Option.filter_some_pos _ (fun s => decide (s.cluster = cl)) s (decide_eq_true mine')]
        exact mine
      · have none_ : own.filter (fun r => r.cluster = cl ∧ r.node = key) = [] :=
          List.filter_eq_nil_iff.mpr fun row member => by
            obtain ⟨cluster, -⟩ := are row member
            simp [cluster, mine']
        rw [@Option.filter_some_neg _ (fun s => decide (s.cluster = cl)) s (by simpa using mine')]
        exact none_
    · have none_ : own.filter (fun r => r.cluster = cl ∧ r.node = node) = [] :=
        List.filter_eq_nil_iff.mpr fun row member => by
          obtain ⟨-, other⟩ := are row member
          simp [other, same]
      rw [if_neg same, none_, List.nil_append]
      exact tail

/-- A view in step with what is heard lists it. -/
theorem Agrees.complete (agrees : Agrees view known) (now : ℚ) : Complete ⟨view, known⟩ now := by
  intro rows listed cl node
  obtain ⟨out, made, perm⟩ := rows_ok listed
  have named : ∀ entry ∈ view.snapshots, entry.2.node = entry.1 := fun entry member =>
    agrees.named entry.1 entry.2 (Dict.get?_of_mem agrees.nodup member)
  have own := rows_of_snapshot made agrees.nodup named cl node
  have filtered := perm.filter fun r => r.cluster = cl ∧ r.node = node
  have there : known cl node = (view.snapshots.get? node).filter fun s => s.cluster = cl := by
    ext s
    rw [agrees.same, Option.filter_eq_some_iff]
    simp
  change RowsOf view now rows cl node (known cl node)
  rw [RowsOf, there]
  cases found : (view.snapshots.get? node).filter fun s => s.cluster = cl with
  | none =>
    rw [found] at own
    exact (own ▸ filtered).eq_nil
  | some s =>
    rw [found] at own
    exact ⟨_, own, filtered⟩

/-- A cluster with one Node, which records one camera. -/
def oneNode (name node : String) (camera : Int) : Domain.Cluster where
  name := name
  vars := ⟨fun _ => .ok (some [("node", .str (.plain node))], 1), fun _ => .ok ["nodes/" ++ node]⟩
  objects _ := .ok (some (.dict [("ts", .int 1000), ("cameras", .list [.dict [("id", .int camera)]])]))

def twoClusters (southern : String) : Federation :=
  (Federation.empty.add (oneNode "north" "node-1" 1)).add (oneNode "south" southern 2)

end EdgeVms.Verified.LastKnown
