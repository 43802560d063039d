import EdgeVms.Cluster.Publisher
import EdgeVms.Process.Run
import Mathlib.Data.List.Induction

/-! # Is the edit replicated?

One number stands for the whole configuration: the greatest revision of a
camera.  The publisher compares it with the number it published last, so its
answer is true as long as every edit moves that number.
-/

namespace EdgeVms.Verified

open Process Python Cluster

namespace Replication

/-- What happens to a Node: an edit of the operator, or a `PublishOnce` that no edit interrupts. -/
inductive Event where
  | edit (edit : Edit)
  | publish

def step (world : NodeWorld) : Event → NodeWorld
  | .edit edit => { world with db := world.db.apply edit }
  | .publish => (Publisher.publishOnce.run NodeWorld.handler world).2

/-- The object that the stored pointer names. -/
def pointed (world : NodeWorld) : Option Config := do
  let items ← world.vars.read (Publisher.variable_ world.publisher.node)
  let key ← items.get? "config"
  world.objects key

/-- That object decodes to `config`. -/
def Holds (world : NodeWorld) (config : Config) : Prop :=
  ∃ blob, pointed world = some blob ∧ decode blob = .ok config

variable {world : NodeWorld}

theorem run_ask {α : Type} (request : Request) (f : request.Answer → Program α) :
    (Publisher.ask request >>= f).run NodeWorld.handler world =
      (f (NodeWorld.handler request world).1).run NodeWorld.handler (NodeWorld.handler request world).2 := rfl

theorem run_pointing {α : Type} (stage : Stage) (request : Request) (f : request.Answer → Program α) :
    (Proc.within stage (Publisher.ask request) >>= f).run NodeWorld.handler world =
      (f (NodeWorld.handler request world).1).run NodeWorld.handler (NodeWorld.handler request world).2 := rfl

/-- A write that fails has changed nothing, or all of it. -/
theorem putObject_cases (world : NodeWorld) (key : String) (blob : Config) :
    NodeWorld.handler (.putObject key blob) world = (.error .failed, world.tick) ∨
      ∃ answer, NodeWorld.handler (.putObject key blob) world =
        (answer, { world.tick with objects := Function.update world.objects key (some blob) }) := by
  unfold NodeWorld.handler
  dsimp only
  split
  · exact .inl rfl
  · exact .inr ⟨_, rfl⟩

theorem putVariable_cases (world : NodeWorld) (path : String) (items : Items) (cas : Nat) :
    (∃ err, NodeWorld.handler (.putVariable path items cas) world = (.error err, world.tick)) ∨
      ∃ answer, NodeWorld.handler (.putVariable path items cas) world =
          (answer, { world.tick with vars := world.vars.write path items }) ∧
        answer ≠ .error .conflict := by
  unfold NodeWorld.handler
  dsimp only
  split
  · exact .inl ⟨_, rfl⟩
  · split
    · exact .inl ⟨_, rfl⟩
    · refine .inr ⟨_, rfl, ?_⟩
      unfold NodeWorld.acknowledged
      split <;> simp

/-- Nothing but the publisher's memory of a failure differs. -/
structure Unpublished (world world' : NodeWorld) : Prop where
  db : world'.db = world.db
  objects : world'.objects = world.objects
  vars : world'.vars = world.vars
  node : world'.publisher.node = world.publisher.node
  publishedRev : world'.publisher.publishedRev = world.publisher.publishedRev

theorem failed_unpublished (world : NodeWorld) :
    Unpublished world (Publisher.failed.run NodeWorld.handler world).2 := by
  unfold Publisher.failed
  rw [run_ask]
  split
  · exact ⟨rfl, rfl, rfl, rfl, rfl⟩
  · exact ⟨rfl, rfl, rfl, rfl, rfl⟩

/-- After an attempt: the configuration is published, or the publisher does not claim more than before. -/
structure Attempted (world world' : NodeWorld) : Prop where
  db : world'.db = world.db
  node : world'.publisher.node = world.publisher.node
  outcome : world'.publisher.publishedRev = world.publisher.publishedRev ∨
    world'.publisher.publishedRev = world.db.configRevision ∧ Holds world' world.db.config

/-- What has become of a world since an attempt began, while nothing is claimed yet. -/
structure Attempting (base world : NodeWorld) : Prop where
  db : world.db = base.db
  node : world.publisher.node = base.publisher.node
  publishedRev : world.publisher.publishedRev = base.publisher.publishedRev

theorem Attempting.failed {base : NodeWorld} (attempting : Attempting base world) :
    Attempted base (Publisher.failed.run NodeWorld.handler world).2 := by
  have unpublished := failed_unpublished world
  exact ⟨unpublished.db.trans attempting.db, unpublished.node.trans attempting.node,
    .inl (unpublished.publishedRev.trans attempting.publishedRev)⟩

theorem get?_pointer_config (node key : String) (rev : Int) (cams : List CameraRow) (items : Items) :
    (Publisher.pointer node key rev cams items).get? "config" = some key := by
  unfold Publisher.pointer
  rw [Dict.get?_set_other _ _ (by decide), Dict.get?_set_other _ _ (by decide), Dict.get?_set_self]

theorem putPointer_attempted {base : NodeWorld} {rev : Int} {blob : Config} (cams : List CameraRow)
    (items : Option Items) (idx : Nat) (attempting : Attempting base world) (current : rev = base.db.configRevision)
    (there : world.objects (Publisher.objectKey base.publisher.node rev) = some blob)
    (decodes : decode blob = .ok base.db.config) :
    Attempted base
      ((Publisher.putPointer base.publisher.node rev blob cams items idx).run NodeWorld.handler world).2 := by
  unfold Publisher.putPointer
  rw [run_pointing]
  have ticked : Attempting base world.tick := ⟨attempting.db, attempting.node, attempting.publishedRev⟩
  obtain ⟨err, answered⟩ | ⟨answer, answered, other⟩ := putVariable_cases world
    (Publisher.variable_ base.publisher.node)
    (Publisher.pointer base.publisher.node (Publisher.objectKey base.publisher.node rev) rev cams (items.getD [])) idx
  · rw [answered]
    cases err with
    | conflict => exact ⟨ticked.db, ticked.node, .inl ticked.publishedRev⟩
    | failed => exact ticked.failed
  · rw [answered]
    cases answer with
    | error err =>
      cases err with
      | conflict => exact (other rfl).elim
      | failed => exact Attempting.failed ⟨attempting.db, attempting.node, attempting.publishedRev⟩
    | ok index =>
      refine ⟨attempting.db, attempting.node, .inr ⟨current, blob, ?_, decodes⟩⟩
      show (do
        let items ← (world.vars.write (Publisher.variable_ base.publisher.node) _).read
          (Publisher.variable_ world.publisher.node)
        let key ← items.get? "config"
        world.objects key) = some blob
      rw [attempting.node, Versioned.read_write_self]
      show (do
        let key ← (Publisher.pointer base.publisher.node _ rev cams (items.getD [])).get? "config"
        world.objects key) = some blob
      rw [get?_pointer_config]
      exact there

theorem putBlob_attempted {base : NodeWorld} {rev : Int} {blob : Config} (attempting : Attempting base world)
    (current : rev = base.db.configRevision) (decodes : decode blob = .ok base.db.config) :
    Attempted base ((Publisher.putBlob base.publisher.node rev blob).run NodeWorld.handler world).2 := by
  unfold Publisher.putBlob
  rw [run_ask]
  obtain answered | ⟨answer, answered⟩ := putObject_cases world (Publisher.objectKey base.publisher.node rev) blob
  · rw [answered]
    exact Attempting.failed ⟨attempting.db, attempting.node, attempting.publishedRev⟩
  · rw [answered]
    cases answer with
    | error err => exact Attempting.failed ⟨attempting.db, attempting.node, attempting.publishedRev⟩
    | ok done =>
      dsimp only
      rw [run_ask]
      generalize (NodeWorld.handler (.getVariable (Publisher.variable_ base.publisher.node)) _).1 = answer
      cases answer with
      | error err => exact Attempting.failed ⟨attempting.db, attempting.node, attempting.publishedRev⟩
      | ok found =>
        dsimp only
        rw [run_ask]
        generalize (NodeWorld.handler .cameras _).1 = answer
        cases answer with
        | error err => exact Attempting.failed ⟨attempting.db, attempting.node, attempting.publishedRev⟩
        | ok cams =>
          dsimp only
          refine putPointer_attempted cams found.1 found.2 ?_ current ?_ decodes
          · exact ⟨attempting.db, attempting.node, attempting.publishedRev⟩
          · exact Function.update_self _ _ _

theorem decode_config (db : Database) : decode db.config = .ok db.config := rfl

theorem dumpConfig_ok {db : Database} {blob : Config} (dumped : db.dumpConfig = .ok blob) : blob = db.config := by
  unfold Database.dumpConfig Database.fetchDesired at dumped
  split at dumped
  · cases dumped
  · cases dumped
    rfl

/-- A `PublishOnce` that no edit interrupts: where the revision has not moved nothing happens, and elsewhere
the publisher claims no more than before, or it has published the configuration. -/
theorem publishOnce_cases (world : NodeWorld) :
    Unpublished world (Publisher.publishOnce.run NodeWorld.handler world).2 ∨
      world.publisher.publishedRev < world.db.configRevision ∧
        Attempted world (Publisher.publishOnce.run NodeWorld.handler world).2 := by
  unfold Publisher.publishOnce
  rw [run_ask]
  cases refused : world.now.refused with
  | true =>
    have answered : NodeWorld.handler .configRevision world = (.error .failed, world.tick) := by
      simp [NodeWorld.handler, NodeWorld.answered, refused]
    rw [answered]
    have unpublished := failed_unpublished world.tick
    exact .inl ⟨unpublished.db, unpublished.objects, unpublished.vars, unpublished.node, unpublished.publishedRev⟩
  | false =>
    have answered : NodeWorld.handler .configRevision world = (.ok world.db.configRevision, world.tick) := by
      simp [NodeWorld.handler, NodeWorld.answered, refused]
    rw [answered]
    dsimp only
    rw [run_ask]
    have recalled : NodeWorld.handler .recollect world.tick = (world.publisher, world.tick.tick) := rfl
    rw [recalled]
    dsimp only
    by_cases moved : world.db.configRevision ≤ world.publisher.publishedRev
    · rw [if_pos moved]
      exact .inl ⟨rfl, rfl, rfl, rfl, rfl⟩
    · rw [if_neg moved, run_ask]
      refine .inr ⟨not_le.mp moved, ?_⟩
      split
      · exact ⟨rfl, rfl, .inl rfl⟩
      · rw [run_ask]
        have dumps : ∀ blob, (NodeWorld.handler .dumpConfig
            (NodeWorld.handler .clock world.tick.tick).2).1 = .ok blob → blob = world.db.config := by
          intro blob dumped
          unfold NodeWorld.handler NodeWorld.answered at dumped
          dsimp only at dumped
          split at dumped
          · cases dumped
          · exact dumpConfig_ok dumped
        generalize (NodeWorld.handler .dumpConfig _).1 = answer at dumps
        cases answer with
        | error err => exact Attempting.failed ⟨rfl, rfl, rfl⟩
        | ok blob =>
          rw [dumps blob rfl]
          exact putBlob_attempted ⟨rfl, rfl, rfl⟩ rfl (decode_config _)

/-! ## What the console is told -/

/-- In the whole history the tables were empty. -/
def NeverConfigured (start : NodeWorld) (events : List Event) : Prop :=
  ∀ earlier, earlier <+: events → (earlier.foldl step start).db = Database.empty

/-- When the publisher says that the configuration is replicated, it is, or there never was one. -/
def Truthful (start : NodeWorld) (events : List Event) : Prop :=
  Publisher.replicated (events.foldl step start).publisher (events.foldl step start).db.configRevision = true →
    NeverConfigured start events ∨ Holds (events.foldl step start) (events.foldl step start).db.config

/-- An edit leaves the configuration as it was, or leaves a revision above the one published last, or puts back
what the stored pointer's object holds already. -/
def Moving (world : NodeWorld) : Event → Prop
  | .edit edit =>
    (world.db.apply edit).config = world.db.config ∨
      world.publisher.publishedRev < (world.db.apply edit).configRevision ∨
      Holds world (world.db.apply edit).config
  | .publish => True

/-! ## The configuration and its number -/

theorem revision_of_perm {left right : List CameraRow} (perm : left.Perm right) :
    ((left.map CameraRow.revision).max?).getD 0 = ((right.map CameraRow.revision).max?).getD 0 := by
  have same : (left.map CameraRow.revision).max? = (right.map CameraRow.revision).max? := by
    cases found : (right.map CameraRow.revision).max? with
    | none =>
      have nothing : right = [] := by simpa using found
      rw [nothing] at perm
      rw [perm.eq_nil]
      rfl
    | some greatest =>
      rw [List.max?_eq_some_iff] at found ⊢
      have members : ∀ rev, rev ∈ left.map CameraRow.revision ↔ rev ∈ right.map CameraRow.revision :=
        fun rev => (perm.map CameraRow.revision).mem_iff
      exact ⟨(members _).mpr found.1, fun rev member => found.2 rev ((members rev).mp member)⟩
  rw [same]

theorem configRevision_of_config {db db' : Database} (same : db.config = db'.config) :
    db.configRevision = db'.configRevision := by
  have cameras : Database.byId db.cameras = Database.byId db'.cameras := congrArg Config.cameras same
  have perm : db.cameras.Perm db'.cameras := by
    calc db.cameras.Perm (Database.byId db.cameras) := (List.perm_insertionSort _ _).symm
      _ = Database.byId db'.cameras := cameras
      (Database.byId db'.cameras).Perm db'.cameras := List.perm_insertionSort _ _
  exact revision_of_perm perm

theorem nil_of_sorted {α : Type} {r : α → α → Prop} [DecidableRel r] {rows : List α}
    (nothing : rows.insertionSort r = []) : rows = [] := by
  have perm := List.perm_insertionSort r rows
  rw [nothing] at perm
  exact perm.symm.eq_nil

theorem empty_of_config {db : Database} (same : db.config = Database.empty.config) : db = Database.empty := by
  have sites := nil_of_sorted (congrArg Config.sites same)
  have cameras := nil_of_sorted (congrArg Config.cameras same)
  have operators := nil_of_sorted (congrArg Config.operators same)
  have grants := nil_of_sorted (congrArg Config.grants same)
  cases db
  cases sites
  cases cameras
  cases operators
  cases grants
  rfl

/-! ## Every history -/

theorem neverConfigured_concat {start : NodeWorld} {events : List Event} {event : Event} :
    NeverConfigured start (events ++ [event]) ↔
      NeverConfigured start events ∧ (step (events.foldl step start) event).db = Database.empty := by
  constructor
  · intro never
    refine ⟨fun earlier begins => never earlier (begins.trans (List.prefix_append _ _)), ?_⟩
    have last := never (events ++ [event]) (List.prefix_refl _)
    rw [List.foldl_concat] at last
    exact last
  · rintro ⟨never, last⟩ earlier begins
    obtain rfl | begins := List.prefix_concat_iff.mp begins
    · rw [List.foldl_concat]
      exact last
    · exact never earlier begins

theorem truthful_edit {start : NodeWorld} {events : List Event} {edit : Edit} (truthful : Truthful start events)
    (moving : Moving (events.foldl step start) (.edit edit)) : Truthful start (events ++ [.edit edit]) := by
  intro claimed
  rw [List.foldl_concat] at claimed ⊢
  have behind : ((events.foldl step start).db.apply edit).configRevision ≤
      (events.foldl step start).publisher.publishedRev := of_decide_eq_true claimed
  obtain same | above | holds := moving
  · -- nothing has changed, so nothing is claimed anew
    rw [configRevision_of_config same] at behind
    obtain never | holds := truthful (decide_eq_true behind)
    · left
      rw [neverConfigured_concat]
      refine ⟨never, empty_of_config ?_⟩
      show ((events.foldl step start).db.apply edit).config = Database.empty.config
      rw [same, never events (List.prefix_refl _)]
    · right
      show Holds _ ((events.foldl step start).db.apply edit).config
      rw [same]
      exact holds
  · exact absurd behind (not_le.mpr above)
  · exact .inr holds

theorem truthful_publish {start : NodeWorld} {events : List Event} (truthful : Truthful start events) :
    Truthful start (events ++ [.publish]) := by
  intro claimed
  rw [neverConfigured_concat]
  rw [List.foldl_concat] at claimed ⊢
  have behind := of_decide_eq_true claimed
  have outcome : Unpublished (events.foldl step start) (step (events.foldl step start) .publish) ∨ _ ∧
      Attempted (events.foldl step start) (step (events.foldl step start) .publish) :=
    publishOnce_cases (events.foldl step start)
  obtain unpublished | ⟨moved, attempted⟩ := outcome
  · rw [unpublished.db, unpublished.publishedRev] at behind
    obtain never | ⟨blob, named, decodes⟩ := truthful (decide_eq_true behind)
    · left
      rw [unpublished.db]
      exact ⟨never, never events (List.prefix_refl _)⟩
    · right
      refine ⟨blob, ?_, by rw [unpublished.db]; exact decodes⟩
      unfold pointed
      rw [unpublished.vars, unpublished.objects, unpublished.node]
      exact named
  · obtain same | ⟨-, holds⟩ := attempted.outcome
    · rw [attempted.db, same] at behind
      exact absurd behind (not_le.mpr moved)
    · right
      rw [attempted.db]
      exact holds

def fair : Nat → Weather := fun _ => ⟨false, false, 0⟩

def gate : CameraFields := ⟨some "hq", "gate", "rtsp://10.0.0.1/s", none, none, true, 30, 100⟩

/-- One camera is published, and then there are two. -/
def secondCamera : List Event :=
  [.edit (.insertSite ⟨"hq", "hq"⟩), .edit (.insertCamera 1 gate), .publish, .edit (.insertCamera 2 gate)]

end Replication

end EdgeVms.Verified
