import EdgeVms.Domain.Federation
import EdgeVms.Process.Run

/-! # What a complete answer covers

A directory asks the clusters that the federation had when it was built, and an
answer is complete when none of *these* stayed silent.  A cluster that has joined
since, or has taken the place of another of its name, is neither asked nor missed.
-/

namespace EdgeVms.Verified.Coverage

open Python EdgeVms.Cluster Domain Process
open Domain.DomainDirectory (Built Event)

variable {Region : Type}

/-- The query has read this cluster, and says so. -/
def Searched (directory : Built Region) (name : String) (c : Handle Region) (ans : Answer) : Prop :=
  (name, c) ∈ directory.dirs.clusters ∧ name ∈ ans.searched

/-- Some Node of the region holds the camera. -/
def Holds (moment : Moment Region) (region : Region) (camera : Int) : Prop :=
  ∃ nodes node h, NodeDirectory.scan (moment region).1 = .ok nodes ∧ (node, h) ∈ nodes ∧ camera ∈ h.cameras

/-- A complete answer has every cluster of the federation, and a camera that it has on no Node is
held by none of them: whatever is asked, and whichever regions answer. -/
def Honest (directory : Built Region) : Prop :=
  ∀ moment camera ans, directory.where_ moment camera = .ok ans → ans.complete = true →
    (∀ name c, (name, c) ∈ directory.fed.clusters → Searched directory name c ans) ∧
    (ans.node = none → ∀ name c, (name, c) ∈ directory.fed.clusters → ¬Holds moment c.region camera)

/-- Every cluster of the federation is one that the directory was built with. -/
def Covers (directory : Built Region) : Prop := directory.fed.clusters ⊆ directory.dirs.clusters

/-! ## One pass -/

/-- Every cluster that the loop passes is in what it holds, or among those that are down. -/
theorem scanRounds_covers {clusters : Dict Domain.Cluster} {out out' : Scan} {down down' : List String}
    (scanned : DomainDirectory.scanRounds clusters out down = .ok (out', down')) :
    (out ⊆ out' ∧ down ⊆ down') ∧ ∀ name c, (name, c) ∈ clusters →
      name ∈ down' ∨ ∃ nodes, NodeDirectory.scan c.vars = .ok nodes ∧ (name, nodes) ∈ out' := by
  induction clusters generalizing out down with
  | nil =>
    cases scanned
    simp
  | cons entry rest ih =>
    obtain ⟨name, c⟩ := entry
    rw [DomainDirectory.scanRounds] at scanned
    cases answered : NodeDirectory.scan c.vars with
    | ok nodes =>
      rw [answered] at scanned
      obtain ⟨⟨held, missed⟩, later⟩ := ih scanned
      have here : (name, nodes) ∈ out' := held (by simp)
      refine ⟨⟨fun entry member => held (by simp [member]), missed⟩, ?_⟩
      intro name' c' member
      obtain same | inside := List.mem_cons.mp member
      · cases same
        exact .inr ⟨nodes, answered, here⟩
      · exact later name' c' inside
    | error error =>
      rw [answered] at scanned
      cases error with
      | store error => cases scanned
      | unreachable =>
        obtain ⟨⟨held, missed⟩, later⟩ := ih scanned
        have here : name ∈ down' := missed (by simp)
        refine ⟨⟨held, fun name member => missed (by simp [member])⟩, ?_⟩
        intro name' c' member
        obtain same | inside := List.mem_cons.mp member
        · cases same
          exact .inl here
        · exact later name' c' inside

theorem mem_sorted {name : String} {names : List String} : name ∈ DomainDirectory.sorted names ↔ name ∈ names :=
  List.mem_insertionSort _

/-- What an answer is made of. -/
theorem where_ok {fed : Federation} {camera : Int} {ans : Answer}
    (answered : DomainDirectory.where_ fed camera = .ok ans) :
    ∃ out down, DomainDirectory.scan fed = .ok (out, down) ∧
      ans.searched = DomainDirectory.sorted (out.map Prod.fst) ∧ ans.unreachable = DomainDirectory.sorted down ∧
      (ans.node = none → DomainDirectory.hits camera out = []) := by
  rw [DomainDirectory.where_] at answered
  obtain ⟨⟨out, down⟩, scanned, made⟩ := bind_eq_ok.mp answered
  refine ⟨out, down, scanned, ?_⟩
  dsimp only at made
  split at made
  next none_ =>
    cases made
    exact ⟨rfl, rfl, fun _ => none_⟩
  next =>
    cases made
    exact ⟨rfl, rfl, fun absent => by cases absent⟩
  next => cases made

/-- No hit: the camera is held nowhere in the scan. -/
theorem not_mem_of_hits {camera : Int} {out : Scan} (nothing : DomainDirectory.hits camera out = []) {name : String}
    {nodes : Dict Holding} (held : (name, nodes) ∈ out) {node : String} {h : Holding} (member : (node, h) ∈ nodes) :
    camera ∉ h.cameras := by
  intro holds
  have hit : (name, node) ∈ DomainDirectory.hits camera out := by
    simp only [DomainDirectory.hits, List.mem_flatMap, List.mem_map, List.mem_filter]
    exact ⟨(name, nodes), held, (node, h), ⟨member, by simpa using holds⟩, rfl⟩
  rw [nothing] at hit
  cases hit

/-! ## A directory that covers the federation -/

theorem mem_now {members : Members Region} {moment : Moment Region} {name : String} {c : Handle Region}
    (member : (name, c) ∈ members.clusters) :
    (name, ⟨c.name, (moment c.region).1, (moment c.region).2⟩) ∈ (members.now moment).clusters :=
  List.mem_map.mpr ⟨(name, c), member, rfl⟩

/-- A complete answer has read every directory. -/
theorem reads_of_complete {directory : Built Region} {moment : Moment Region} {camera : Int} {ans : Answer}
    (answered : directory.where_ moment camera = .ok ans) (complete : ans.complete = true) {name : String}
    {c : Handle Region} (member : (name, c) ∈ directory.dirs.clusters) :
    name ∈ ans.searched ∧ (ans.node = none → ¬Holds moment c.region camera) := by
  obtain ⟨out, down, scanned, searched, unreachable, nowhere⟩ := where_ok answered
  obtain missed | ⟨nodes, read, held⟩ := (scanRounds_covers scanned).2 name _ (mem_now member)
  · -- a directory that did not answer would be in the answer
    have named : name ∈ ans.unreachable := by rw [unreachable, mem_sorted]; exact missed
    rw [Answer.complete, List.isEmpty_iff] at complete
    simp [complete] at named
  · constructor
    · rw [searched, mem_sorted]
      exact List.mem_map.mpr ⟨_, held, rfl⟩
    · rintro absent ⟨nodes', node, h, read', inside, holds⟩
      have same : nodes' = nodes := Except.ok.inj (read'.symm.trans read)
      subst same
      exact not_mem_of_hits (nowhere absent) held inside holds

theorem honest_of_covers {directory : Built Region} (covers : Covers directory) : Honest directory := by
  intro moment camera ans answered complete
  constructor
  · intro name c member
    exact ⟨covers member, (reads_of_complete answered complete (covers member)).1⟩
  · intro absent name c member
    exact (reads_of_complete answered complete (covers member)).2 absent

/-! ## A directory that does not -/

/-- Every region answers, and has no Node. -/
def idle : Moment Region := fun _ => (⟨fun _ => .ok (none, 0), fun _ => .ok []⟩, fun _ => .ok none)

theorem scanRounds_idle {clusters : Dict Domain.Cluster}
    (empty : ∀ entry ∈ clusters, NodeDirectory.scan entry.2.vars = .ok [])
    (out : Scan) (down : List String) :
    DomainDirectory.scanRounds clusters out down = .ok (out ++ clusters.map fun entry => (entry.1, []), down) := by
  induction clusters generalizing out with
  | nil => simp [DomainDirectory.scanRounds]
  | cons entry rest ih =>
    obtain ⟨name, c⟩ := entry
    obtain ⟨here, later⟩ := List.forall_mem_cons.mp empty
    rw [DomainDirectory.scanRounds, here]
    dsimp only
    rw [ih later]
    simp

theorem hits_idle (camera : Int) (names : List String) :
    DomainDirectory.hits camera (names.map fun name => (name, [])) = [] := by
  simp [DomainDirectory.hits]

/-- A quiet domain: the answer is complete, whatever the directory was built with. -/
theorem where_idle (directory : Built Region) (camera : Int) :
    ∃ ans, directory.where_ idle camera = .ok ans ∧ ans.complete = true := by
  have empty : ∀ entry ∈ (directory.dirs.now idle).clusters, NodeDirectory.scan entry.2.vars = .ok [] := by
    intro entry member
    obtain ⟨⟨name, c⟩, -, rfl⟩ := List.mem_map.mp member
    rfl
  have names : (directory.dirs.now idle).clusters.map (fun entry => (entry.1, ([] : Dict Holding))) =
      ((directory.dirs.now idle).clusters.map Prod.fst).map fun name => (name, []) := by simp
  have scanned := scanRounds_idle empty [] []
  rw [List.nil_append, names] at scanned
  let searched := (directory.dirs.now idle).clusters.map Prod.fst
  refine ⟨⟨camera, none, none, DomainDirectory.sorted searched, []⟩, bind_eq_ok.mpr ⟨_, scanned, ?_⟩, rfl⟩
  dsimp only
  rw [hits_idle]
  simp [searched, Function.comp_def, DomainDirectory.sorted]
  rfl

theorem honest_iff_covers (directory : Built Region) : Honest directory ↔ Covers directory := by
  constructor
  · intro honest entry member
    obtain ⟨ans, answered, complete⟩ := where_idle directory 0
    exact ((honest _ _ ans answered complete).1 entry.1 entry.2 member).1
  · exact honest_of_covers

/-! ## Runs -/

/-- Every query of the run is answered honestly. -/
def AlwaysHonest (fed : Members Region) (events : List (Event Region)) : Prop :=
  Along Built.step (fun directory event => event = .where_ → Honest directory) events (DomainDirectory.init fed)

/-- The answers of a run are honest exactly when at each query every cluster of the federation is one
that the directory was built with. -/
theorem complete_answers_iff (fed : Members Region) (events : List (Event Region)) :
    AlwaysHonest fed events ↔
      Along Built.step (fun directory event => event = .where_ → Covers directory) events
        (DomainDirectory.init fed) := by
  refine along_congr (fun directory event => ?_) events _
  rw [honest_iff_covers]

/-! ## A cluster that joins -/

/-- The two regions: the south has a Node, and the Node has camera 7. -/
def joined : Moment Bool := fun south =>
  (⟨fun _ => .ok (some [("node", .str (.plain "s1")), ("cameras", .str (.plain "7"))], 1),
    fun _ => .ok (if south then ["nodes/s1"] else [])⟩, fun _ => .ok none)

def north : Members Bool := ⟨[("north", ⟨"north", false⟩)], by simp⟩

theorem joined_south : Holds joined true 7 :=
  ⟨_, "s1", ⟨[7], .str (.plain ""), 0⟩, rfl, .head _, .head _⟩

/-- The directory was built before the south was added: camera 7 is on no Node in the domain. -/
theorem south_unseen : ¬AlwaysHonest north [.add ⟨"south", true⟩, .where_] := by
  intro always
  obtain ⟨-, later⟩ := along_cons.mp always
  have honest := (along_cons.mp later).1 rfl
  have answered : ((DomainDirectory.init north).step (.add ⟨"south", true⟩)).where_ joined 7 =
      .ok ⟨7, none, none, ["north"], []⟩ := rfl
  exact (honest joined 7 _ answered rfl).2 rfl "south" ⟨"south", true⟩ (.tail _ (.head _)) joined_south

end EdgeVms.Verified.Coverage
