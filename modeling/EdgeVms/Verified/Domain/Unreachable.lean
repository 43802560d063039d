import EdgeVms.Domain.ReadView
import Mathlib.Data.List.Induction
import Mathlib.Data.List.ReduceOption

/-! # A cluster that does not answer

The loops over the clusters catch `Unreachable` only, and the stores that are
shipped never raise it: their HTTP client's exceptions pass through.  So one
cluster that does not answer ends the whole pass, wherever it stands in the order.
-/

namespace EdgeVms.Verified.Unreachable

open Python EdgeVms.Cluster Domain

/-- What the environment says of each cluster. -/
abbrev Entries := List (String × NomadVariables × (String → Except StoreError (Option Value)))

/-- The cluster's directory is answered. -/
def Answers (c : Domain.Cluster) : Prop := ∃ nodes, NodeDirectory.scan c.vars = .ok nodes

/-- The heartbeat of a Node of the cluster, if there is one. -/
def heartbeat (name : String) (objects : ObjectStore) (node : String) : Except Raised (Option Snapshot) := do
  match ← objects (node ++ "/heartbeat") with
  | none => return none
  | some hb => some <$> (Snapshot.ofHeartbeat node name hb).mapError fun error => .store (.python error)

/-- The heartbeats of a cluster's Nodes. -/
def heartbeats (name : String) (c : Domain.Cluster) : Except Raised (List Snapshot) := do
  let nodes ← NodeDirectory.scan c.vars
  return (← (nodes.map Prod.fst).mapM (heartbeat name c.objects)).reduceOption

/-- Every answering cluster's holdings, and every other cluster as down. -/
def ScanHonest (fed : Federation) : Prop :=
  ∃ out down, DomainDirectory.scan fed = .ok (out, down) ∧ ∀ name c, (name, c) ∈ fed.clusters →
    (∀ nodes, NodeDirectory.scan c.vars = .ok nodes → Dict.get? out name = some nodes ∧ name ∉ down) ∧
    (¬Answers c → name ∈ down)

/-- The view after a pass has every answering cluster's heartbeats, and every other cluster as down. -/
def RefreshHonest (fed : Federation) (now : ℚ) (view : ReadView) : Prop :=
  let after := (view.refresh fed now).2
  ∀ name c, (name, c) ∈ fed.clusters →
    (∀ found, heartbeats name c = .ok found →
      (∀ s ∈ found, after.snapshots.get? s.node = some s) ∧ after.clusterDownSince.get? name = none) ∧
    ((¬∃ found, heartbeats name c = .ok found) →
      (after.clusterDownSince.get? name).isSome ∧ after.complete = false)

/-- No Node has a heartbeat in two clusters. -/
def Apart (fed : Federation) : Prop :=
  ∀ name c name' c' found found', (name, c) ∈ fed.clusters → (name', c') ∈ fed.clusters →
    heartbeats name c = .ok found → heartbeats name' c' = .ok found' →
    ∀ s ∈ found, ∀ s' ∈ found', s.node = s'.node → name = name'

/-! ## What the shipped stores raise -/

/-- It does not raise what the loops of the domain catch. -/
def Uncaught {α : Type} (x : Except Raised α) : Prop := x ≠ .error .unreachable

theorem uncaught_store {α : Type} (x : Except StoreError α) : Uncaught (x.mapError Raised.store) := by
  cases x with
  | ok value => nofun
  | error error => nofun

theorem uncaught_python {α : Type} (x : Except Error α) :
    Uncaught (x.mapError fun error => Raised.store (.python error)) := by
  cases x with
  | ok value => nofun
  | error error => nofun

theorem uncaught_bind {α β : Type} {x : Except Raised α} {f : α → Except Raised β} (first : Uncaught x)
    (later : ∀ value, Uncaught (f value)) : Uncaught (x >>= f) := by
  cases x with
  | ok value => exact later value
  | error error =>
    intro raised
    exact first (congrArg Except.error (Except.error.inj raised))

theorem scanPaths_uncaught (nomad : NomadVariables) (paths : List String) (out : Dict Holding) :
    Uncaught (NodeDirectory.scanPaths nomad.asVariables paths out) := by
  induction paths generalizing out with
  | nil => nofun
  | cons path rest ih =>
    rw [NodeDirectory.scanPaths]
    split
    next =>
      refine uncaught_bind (uncaught_store _) fun answer => ?_
      split
      next => exact ih out
      next items =>
        split
        next => exact ih out
        next node => exact uncaught_bind (uncaught_python _) fun holding => ih _
    next => exact ih out

theorem scan_uncaught (nomad : NomadVariables) : Uncaught (NodeDirectory.scan nomad.asVariables) :=
  uncaught_bind (uncaught_store _) fun paths => scanPaths_uncaught nomad paths []

/-- A cluster as the environment names it. -/
structure Shipped (c : Domain.Cluster) : Prop where
  vars : ∃ nomad : NomadVariables, c.vars = nomad.asVariables
  objects : ∀ key, Uncaught (c.objects key)

theorem shipped_of_mem {entries : Entries} {name : String} {c : Domain.Cluster}
    (member : (name, c) ∈ (Federation.fromEnv entries).clusters) : Shipped c := by
  have all : ∀ (entries : Entries) (fed : Federation), (∀ entry ∈ fed.clusters, Shipped entry.2) →
      ∀ entry ∈ (entries.foldl (fun fed (entry : String × NomadVariables × _) =>
        fed.add ⟨entry.1, entry.2.1.asVariables, fun key => (entry.2.2 key).mapError .store⟩) fed).clusters,
        Shipped entry.2 := by
    intro entries
    induction entries with
    | nil => exact fun fed shipped => shipped
    | cons first rest ih =>
      intro fed shipped
      refine ih _ fun entry member => ?_
      obtain rfl | earlier := Dict.mem_set member
      · exact ⟨⟨first.2.1, rfl⟩, fun key => uncaught_store _⟩
      · exact shipped entry earlier
  exact all entries Federation.empty (by simp [Federation.empty]) (name, c) member

/-- A client that never gets through answers no scan. -/
theorem not_answers_of_silent {nomad : NomadVariables} (silent : nomad.Silent) {c : Domain.Cluster}
    (vars : c.vars = nomad.asVariables) : ¬Answers c := by
  rintro ⟨nodes, answered⟩
  have refused : ∃ error, nomad.list "nodes/" = .error error := by
    rw [NomadVariables.list, NomadVariables.req]
    obtain failure | failure := silent "GET" (nomad.varsUrl "nodes/") <;> rw [failure]
    · exact ⟨_, rfl⟩
    · exact ⟨_, rfl⟩
  obtain ⟨error, refused⟩ := refused
  rw [vars, NodeDirectory.scan, NomadVariables.asVariables] at answered
  simp only [refused] at answered
  cases answered

/-! ## One pass of the directory -/

/-- While every cluster answers, the loop goes on with what it holds. -/
theorem scanRounds_ok {clusters : Dict Domain.Cluster} (all : ∀ entry ∈ clusters, Answers entry.2) (out : Scan)
    (down : List String) :
    ∃ held : Scan, DomainDirectory.scanRounds clusters out down = .ok (out ++ held, down) ∧
      held.map Prod.fst = clusters.map Prod.fst ∧
      ∀ name c nodes, (name, c) ∈ clusters → NodeDirectory.scan c.vars = .ok nodes → (name, nodes) ∈ held := by
  induction clusters generalizing out with
  | nil => exact ⟨[], by simp [DomainDirectory.scanRounds], rfl, by simp⟩
  | cons entry rest ih =>
    obtain ⟨name, c⟩ := entry
    obtain ⟨⟨nodes, answered⟩, later⟩ := List.forall_mem_cons.mp all
    obtain ⟨held, scanned, names, members⟩ := ih later (out ++ [(name, nodes)])
    refine ⟨(name, nodes) :: held, ?_, ?_, ?_⟩
    · rw [DomainDirectory.scanRounds, answered]
      simpa using scanned
    · simp [names]
    · intro name' c' nodes' member answered'
      obtain same | inside := List.mem_cons.mp member
      · cases same
        rw [answered] at answered'
        cases answered'
        exact .head _
      · exact .tail _ (members name' c' nodes' inside answered')

/-- One cluster that does not answer ends it. -/
theorem scanRounds_error {clusters : Dict Domain.Cluster} {name : String} {c : Domain.Cluster}
    (shipped : ∀ entry ∈ clusters, Uncaught (NodeDirectory.scan entry.2.vars)) (member : (name, c) ∈ clusters)
    (silent : ¬Answers c) (out : Scan) (down : List String) :
    ∃ error, DomainDirectory.scanRounds clusters out down = .error error := by
  induction clusters generalizing out with
  | nil => cases member
  | cons entry rest ih =>
    obtain ⟨name', c'⟩ := entry
    obtain ⟨uncaught, later⟩ := List.forall_mem_cons.mp shipped
    rw [DomainDirectory.scanRounds]
    cases answered : NodeDirectory.scan c'.vars with
    | ok nodes =>
      obtain same | inside := List.mem_cons.mp member
      · cases same
        exact absurd ⟨nodes, answered⟩ silent
      · exact ih later inside _
    | error error =>
      cases error with
      | unreachable => exact absurd answered uncaught
      | store error => exact ⟨_, rfl⟩

theorem scanHonest_iff {fed : Federation} (shipped : ∀ entry ∈ fed.clusters, Shipped entry.2) :
    ScanHonest fed ↔ ∀ name c, (name, c) ∈ fed.clusters → Answers c := by
  constructor
  · rintro ⟨out, down, scanned, honest⟩ name c member
    by_contra silent
    have uncaught : ∀ entry ∈ fed.clusters, Uncaught (NodeDirectory.scan entry.2.vars) := by
      intro entry inside
      obtain ⟨nomad, vars⟩ := (shipped entry inside).vars
      rw [vars]
      exact scan_uncaught nomad
    obtain ⟨error, raised⟩ := scanRounds_error uncaught member silent [] []
    rw [DomainDirectory.scan, raised] at scanned
    cases scanned
  · intro all
    have answers : ∀ entry ∈ fed.clusters, Answers entry.2 := fun entry member => all entry.1 entry.2 member
    obtain ⟨held, scanned, names, members⟩ := scanRounds_ok answers [] []
    refine ⟨held, [], scanned, fun name c member => ⟨fun nodes answered => ⟨?_, by simp⟩, fun silent => ?_⟩⟩
    · exact Dict.get?_of_mem (names ▸ fed.distinct) (members name c nodes member answered)
    · exact absurd (all name c member) silent

/-! ## One pass of the read model -/

/-- The view with these heartbeats taken over, one after the other. -/
def take (found : List Snapshot) (view : ReadView) : ReadView :=
  { view with snapshots := found.foldl (fun snapshots s => snapshots.set s.node s) view.snapshots }

theorem heartbeat_node {name node : String} {objects : ObjectStore} {s : Snapshot}
    (found : heartbeat name objects node = .ok (some s)) : s.node = node ∧ s.cluster = name := by
  rw [heartbeat] at found
  obtain ⟨object, -, made⟩ := bind_eq_ok.mp found
  cases object with
  | none => cases made
  | some hb =>
    obtain ⟨s', made, same⟩ := map_eq_ok.mp made
    cases same
    cases hb with
    | dict entries =>
      cases read : Snapshot.ofHeartbeat node name (.dict entries) with
      | error error => rw [read] at made; cases made
      | ok s' =>
        rw [read] at made
        cases made
        rw [Snapshot.ofHeartbeat] at read
        obtain ⟨ts, -, read⟩ := bind_eq_ok.mp read
        obtain ⟨epoch, -, read⟩ := bind_eq_ok.mp read
        obtain ⟨cameras, -, read⟩ := bind_eq_ok.mp read
        obtain ⟨revision, -, read⟩ := bind_eq_ok.mp read
        cases read
        exact ⟨rfl, rfl⟩
    | none | bool | int | float | str | list => cases made

/-- The loop over the Nodes takes over the heartbeats, if all can be read. -/
theorem takeNodes_ok {name : String} {objects : ObjectStore} {nodes : List String} {found : List (Option Snapshot)}
    (read : nodes.mapM (heartbeat name objects) = .ok found) (view : ReadView) :
    ReadView.takeNodes name objects nodes view = (.ok (), take found.reduceOption view) := by
  induction nodes generalizing found view with
  | nil =>
    cases read
    rfl
  | cons node rest ih =>
    simp only [List.mapM_cons] at read
    obtain ⟨first, here, read⟩ := bind_eq_ok.mp read
    obtain ⟨others, later, same⟩ := bind_eq_ok.mp read
    cases same
    rw [heartbeat] at here
    obtain ⟨object, answered, here⟩ := bind_eq_ok.mp here
    cases object with
    | none =>
      cases here
      simp only [ReadView.takeNodes, answered]
      exact ih later view
    | some hb =>
      obtain ⟨s, made, same⟩ := map_eq_ok.mp here
      cases same
      cases read' : Snapshot.ofHeartbeat node name hb with
      | error error => rw [read'] at made; cases made
      | ok s' =>
        rw [read'] at made
        cases made
        simp only [ReadView.takeNodes, answered, read']
        have here' : heartbeat name objects node = .ok (some s) := by
          rw [heartbeat, answered]
          exact map_eq_ok.mpr ⟨s, by rw [read']; rfl, rfl⟩
        have node_eq : s.node = node := (heartbeat_node here').1
        rw [ih later, List.reduceOption_cons_of_some, take, take, List.foldl_cons, node_eq]

/-! ## Whose heartbeat is kept -/

theorem get?_take {found : List Snapshot} {view : ReadView} {s : Snapshot} (member : s ∈ found)
    (only : ∀ s' ∈ found, s'.node = s.node → s' = s) : (take found view).snapshots.get? s.node = some s := by
  induction found using List.reverseRecOn with
  | nil => cases member
  | append_singleton earlier last ih =>
    rw [take, List.foldl_append, List.foldl_cons, List.foldl_nil]
    by_cases same : last.node = s.node
    · rw [same, Dict.get?_set_self, only last (by simp) same]
    · rw [Dict.get?_set_other _ _ (Ne.symm same)]
      refine ih ?_ fun s' inside => only s' (List.mem_append_left _ inside)
      obtain inside | here := List.mem_append.mp member
      · exact inside
      · exact absurd (congrArg Snapshot.node (List.mem_singleton.mp here).symm) same

theorem mem_heartbeats {name : String} {c : Domain.Cluster} {found : List Snapshot} {s : Snapshot}
    (read : heartbeats name c = .ok found) (member : s ∈ found) :
    s.cluster = name ∧ heartbeat name c.objects s.node = .ok (some s) := by
  rw [heartbeats] at read
  obtain ⟨nodes, -, read⟩ := bind_eq_ok.mp read
  obtain ⟨all, made, same⟩ := bind_eq_ok.mp read
  cases same
  obtain ⟨node, -, here⟩ := of_mem_mapM_ok made (List.reduceOption_mem_iff.mp member)
  obtain ⟨node_eq, cluster_eq⟩ := heartbeat_node here
  exact ⟨cluster_eq, node_eq ▸ here⟩

theorem takeCluster_ok {name : String} {c : Domain.Cluster} {found : List Snapshot}
    (read : heartbeats name c = .ok found) (view : ReadView) :
    ReadView.takeCluster name c view = (.ok (), take found view) := by
  rw [heartbeats] at read
  obtain ⟨nodes, answered, read⟩ := bind_eq_ok.mp read
  obtain ⟨all, made, same⟩ := bind_eq_ok.mp read
  cases same
  rw [ReadView.takeCluster, answered]
  exact takeNodes_ok made view

/-- A pass over clusters that all can be read. -/
theorem refreshRounds_ok {clusters : Dict Domain.Cluster}
    (all : ∀ entry ∈ clusters, ∃ found, heartbeats entry.1 entry.2 = .ok found) (now : ℚ) (view : ReadView) :
    ∃ taken : List Snapshot,
      (ReadView.refreshRounds now clusters view).2.snapshots = (take taken view).snapshots ∧
      ∀ s, s ∈ taken ↔ ∃ name c found, (name, c) ∈ clusters ∧ heartbeats name c = .ok found ∧ s ∈ found := by
  induction clusters generalizing view with
  | nil => exact ⟨[], rfl, by simp⟩
  | cons entry rest ih =>
    obtain ⟨name, c⟩ := entry
    obtain ⟨⟨found, read⟩, later⟩ := List.forall_mem_cons.mp all
    rw [ReadView.refreshRounds, takeCluster_ok read]
    obtain ⟨taken, snapshots, members⟩ := ih later
      { take found view with
        clusterOk := (take found view).clusterOk.set name now
        clusterDownSince := (take found view).clusterDownSince.pop name }
    refine ⟨found ++ taken, ?_, fun s => ?_⟩
    · rw [snapshots, take, take, take, List.foldl_append]
    · rw [List.mem_append, members]
      constructor
      · rintro (here | ⟨name', c', found', inside, read', there⟩)
        · exact ⟨name, c, found, .head _, read, here⟩
        · exact ⟨name', c', found', .tail _ inside, read', there⟩
      · rintro ⟨name', c', found', member, read', there⟩
        obtain same | inside := List.mem_cons.mp member
        · cases same
          rw [read] at read'
          cases read'
          exact .inl there
        · exact .inr ⟨name', c', found', inside, read', there⟩

/-! ## No cluster is ever down -/

theorem takeNodes_keeps (name : String) (objects : ObjectStore) (nodes : List String) (view : ReadView) :
    (ReadView.takeNodes name objects nodes view).2.clusterDownSince = view.clusterDownSince := by
  induction nodes generalizing view with
  | nil => rfl
  | cons node rest ih =>
    rw [ReadView.takeNodes]
    split
    next => rfl
    next => exact ih view
    next =>
      split
      next => rfl
      next => exact ih _

theorem takeNodes_uncaught {objects : ObjectStore} (shipped : ∀ key, Uncaught (objects key)) (name : String)
    (nodes : List String) (view : ReadView) : Uncaught (ReadView.takeNodes name objects nodes view).1 := by
  induction nodes generalizing view with
  | nil => nofun
  | cons node rest ih =>
    rw [ReadView.takeNodes]
    split
    next error answered =>
      intro raised
      cases raised
      exact shipped _ answered
    next => exact ih view
    next =>
      split
      next => nofun
      next => exact ih _

theorem takeCluster_uncaught {c : Domain.Cluster} (shipped : Shipped c) (name : String) (view : ReadView) :
    Uncaught (ReadView.takeCluster name c view).1 ∧
      (ReadView.takeCluster name c view).2.clusterDownSince = view.clusterDownSince := by
  obtain ⟨nomad, vars⟩ := shipped.vars
  rw [ReadView.takeCluster]
  split
  next error answered =>
    refine ⟨fun raised => ?_, rfl⟩
    cases raised
    rw [vars] at answered
    exact scan_uncaught nomad answered
  next nodes answered => exact ⟨takeNodes_uncaught shipped.objects name _ view, takeNodes_keeps name _ _ view⟩

theorem refreshRounds_nothing_down {clusters : Dict Domain.Cluster} (shipped : ∀ entry ∈ clusters, Shipped entry.2)
    (now : ℚ) {view : ReadView} (up : view.clusterDownSince = []) :
    (ReadView.refreshRounds now clusters view).2.clusterDownSince = [] := by
  induction clusters generalizing view with
  | nil => exact up
  | cons entry rest ih =>
    obtain ⟨name, c⟩ := entry
    obtain ⟨here, later⟩ := List.forall_mem_cons.mp shipped
    obtain ⟨uncaught, kept⟩ := takeCluster_uncaught here name view
    rw [up] at kept
    rw [ReadView.refreshRounds]
    split
    next view' taken =>
      rw [taken] at kept
      exact ih later (by rw [show view'.clusterDownSince = [] from kept]; rfl)
    next view' taken =>
      rw [taken] at uncaught
      exact absurd rfl uncaught
    next error view' taken =>
      rw [taken] at kept
      exact kept

theorem shipped_fromEnv (entries : Entries) : ∀ entry ∈ (Federation.fromEnv entries).clusters, Shipped entry.2 :=
  fun _ member => shipped_of_mem member

/-- The passes of a read model over what the environment named at each of them. -/
def passes (lostAfter : ℚ) (past : List (Entries × ℚ)) : ReadView :=
  past.foldl (fun view (entries, now) => (view.refresh (.fromEnv entries) now).2) (.new lostAfter)

theorem passes_nothing_down (lostAfter : ℚ) (past : List (Entries × ℚ)) :
    (passes lostAfter past).clusterDownSince = [] := by
  induction past using List.reverseRecOn with
  | nil => rfl
  | append_singleton past last ih =>
    rw [passes, List.foldl_append]
    exact refreshRounds_nothing_down (shipped_fromEnv last.1) last.2 ih

theorem refreshHonest_iff {fed : Federation} (shipped : ∀ entry ∈ fed.clusters, Shipped entry.2) (now : ℚ)
    {view : ReadView} (up : view.clusterDownSince = []) :
    RefreshHonest fed now view ↔
      (∀ name c, (name, c) ∈ fed.clusters → ∃ found, heartbeats name c = .ok found) ∧ Apart fed := by
  have after_up : (view.refresh fed now).2.clusterDownSince = [] := refreshRounds_nothing_down shipped now up
  constructor
  · intro honest
    have all : ∀ name c, (name, c) ∈ fed.clusters → ∃ found, heartbeats name c = .ok found := by
      intro name c member
      by_contra silent
      have marked := ((honest name c member).2 silent).1
      rw [after_up] at marked
      cases marked
    refine ⟨all, ?_⟩
    intro name c name' c' found found' member member' read read' s inside s' inside' same
    have here := ((honest name c member).1 found read).1 s inside
    have there := ((honest name' c' member').1 found' read').1 s' inside'
    rw [same, there] at here
    cases here
    exact (mem_heartbeats read inside).1.symm.trans (mem_heartbeats read' inside').1
  · rintro ⟨all, apart⟩ name c member
    refine ⟨fun found read => ⟨fun s inside => ?_, by rw [after_up]; rfl⟩,
      fun silent => absurd (all name c member) silent⟩
    obtain ⟨taken, snapshots, members⟩ := refreshRounds_ok (fun entry inside => all entry.1 entry.2 inside) now view
    rw [ReadView.refresh, snapshots]
    refine get?_take ((members s).mpr ⟨name, c, found, member, read, inside⟩) fun s' inside' same => ?_
    obtain ⟨name', c', found', member', read', there⟩ := (members s').mp inside'
    obtain rfl := apart name' c' name c found' found member' member read' read s' there s inside same
    have one : some c' = some c :=
      (Dict.get?_of_mem fed.distinct member').symm.trans (Dict.get?_of_mem fed.distinct member)
    cases one
    have first := (mem_heartbeats read' there).2
    rw [same, (mem_heartbeats read inside).2] at first
    cases first
    rfl

/-! ## The pass as a whole -/

/-- The directory and the read model are honest about the clusters that do not answer exactly when
there is none: every directory, and for the read model every heartbeat, must be readable, and no
Node may have a heartbeat in two clusters. -/
theorem unreachable_hides_the_others (lostAfter : ℚ) (past : List (Entries × ℚ)) (entries : Entries) (now : ℚ) :
    let fed := Federation.fromEnv entries
    (ScanHonest fed ↔ ∀ name c, (name, c) ∈ fed.clusters → Answers c) ∧
      (RefreshHonest fed now (passes lostAfter past) ↔
        (∀ name c, (name, c) ∈ fed.clusters → ∃ found, heartbeats name c = .ok found) ∧ Apart fed) :=
  ⟨scanHonest_iff (shipped_fromEnv entries),
    refreshHonest_iff (shipped_fromEnv entries) now (passes_nothing_down lostAfter past)⟩

/-- A store that refuses every connection. -/
def refusing : NomadVariables := ⟨"http://nomad.north:4646", "default", fun _ _ => .error .urlError⟩

/-- A store with one Node, which holds camera 7. -/
def answering : NomadVariables where
  addr := "http://nomad.south:4646"
  namespace_ := "default"
  urlopen _ url :=
    if url = "http://nomad.south:4646/v1/vars?prefix=nodes/&namespace=default" then
      .ok (200, some (.list [.dict [("Path", .str (.plain "nodes/node-4"))]]))
    else if url = "http://nomad.south:4646/v1/var/nodes/node-4?namespace=default" then
      .ok (200, some (.dict [
        ("Items", .dict [("node", .str (.plain "node-4")), ("cameras", .str (.plain "7"))]), ("ModifyIndex", .int 12)]))
    else .error (.httpError 404)

def northDown : Entries :=
  [("north", refusing, fun _ => .ok none), ("south", answering, fun _ => .ok none)]

/-- One refused connection, and the directory says nothing of the cluster that answers. -/
theorem north_hides_south :
    refusing.Silent ∧
      (NodeDirectory.scan answering.asVariables).toOption.map (·.map fun node => (node.1, node.2.cameras)) =
        some [("node-4", [7])] ∧
      DomainDirectory.scan (.fromEnv northDown) = .error (.store (.http .urlError)) ∧
      ¬ScanHonest (.fromEnv northDown) ∧ ¬RefreshHonest (.fromEnv northDown) 100 (passes 45 []) := by
  have silent : refusing.Silent := fun _ _ => .inl rfl
  have member :
      ("north", ⟨"north", refusing.asVariables, fun _ => .ok none⟩) ∈ (Federation.fromEnv northDown).clusters :=
    .head _
  have unanswered := not_answers_of_silent silent (c := ⟨"north", refusing.asVariables, fun _ => .ok none⟩) rfl
  refine ⟨silent, by decide +kernel, rfl, fun honest => ?_, fun honest => ?_⟩
  · exact unanswered ((scanHonest_iff (shipped_fromEnv northDown)).mp honest _ _ member)
  · obtain ⟨found, read⟩ :=
      ((refreshHonest_iff (shipped_fromEnv northDown) 100 (passes_nothing_down 45 [])).mp honest).1 _ _ member
    rw [heartbeats] at read
    obtain ⟨nodes, answered, -⟩ := bind_eq_ok.mp read
    exact unanswered ⟨nodes, answered⟩

end EdgeVms.Verified.Unreachable
