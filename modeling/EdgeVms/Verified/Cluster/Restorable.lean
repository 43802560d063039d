import EdgeVms.Cluster.Rehydrate
import EdgeVms.Verified.Cluster.Replicated

/-! # Is the pointer restorable?

The publisher reads the revision, the dump and the cameras in three calls, and an
edit may fall between any two.  `Sound` is what a publisher under way promises:
the object of the pointer it would still store is there, and is whole.
-/

namespace EdgeVms.Verified

open Process Python Cluster

namespace Restore

open Replication (putObject_cases putVariable_cases)

/-! ## A dump is whole -/

/-- What the constraints of the tables promise. -/
structure Valid (db : Database) : Prop where
  sited : ∀ camera ∈ db.cameras, db.knows camera.fields.siteId = true
  distinct : ∀ operator ∈ db.operators, ∀ other ∈ db.operators,
    operator.username = other.username → operator.id = other.id

/-- A blob that restores on a fresh Node. -/
structure Complete (blob : Config) : Prop where
  format : blob.format = 1
  sited : ∀ camera ∈ blob.cameras, ∃ id, camera.fields.siteId = some id ∧ ∃ site ∈ blob.sites, site.id = id
  distinct : ∀ operator ∈ blob.operators, ∀ other ∈ blob.operators,
    operator.username = other.username → operator.id = other.id

theorem valid_empty : Valid Database.empty := ⟨by simp [Database.empty], by simp [Database.empty]⟩

theorem knows_iff {db : Database} {siteId : Option String} :
    db.knows siteId = true ↔ ∀ id, siteId = some id → ∃ site ∈ db.sites, site.id = id := by
  cases siteId with
  | none => simp [Database.knows]
  | some id => simp [Database.knows]

/-- Other sites, of which the cameras know theirs. -/
theorem Valid.withSites {db : Database} (valid : Valid db) {sites : List Site}
    (kept : ∀ camera ∈ db.cameras, ∀ id, camera.fields.siteId = some id → (∃ site ∈ db.sites, site.id = id) →
      ∃ site ∈ sites, site.id = id) : Valid { db with sites := sites } := by
  refine ⟨fun camera member => knows_iff.mpr fun id sited => ?_, valid.distinct⟩
  exact kept camera member id sited (knows_iff.mp (valid.sited camera member) id sited)

/-- Other cameras, each an old one or one whose site is known. -/
theorem Valid.withCameras {db : Database} (valid : Valid db) {cameras : List CameraRow}
    (known : ∀ camera ∈ cameras, camera ∈ db.cameras ∨ db.knows camera.fields.siteId = true) :
    Valid { db with cameras := cameras } := by
  refine ⟨fun camera member => ?_, valid.distinct⟩
  obtain old | new := known camera member
  · exact valid.sited camera old
  · exact new

theorem valid_apply {db : Database} (valid : Valid db) (edit : Edit) : Valid (db.apply edit) := by
  cases edit with
  | insertSite site =>
    unfold Database.apply
    dsimp only
    split
    · exact valid
    · apply valid.withSites
      intro camera _ id _ ⟨there, member, same⟩
      exact ⟨there, List.mem_append_left _ member, same⟩
  | updateSite id name =>
    apply valid.withSites
    intro camera _ id' _ ⟨there, member, same⟩
    refine ⟨_, List.mem_map_of_mem member, ?_⟩
    split
    next renamed => exact renamed.symm.trans same
    next => exact same
  | deleteSite id =>
    unfold Database.apply
    dsimp only
    split
    · exact valid
    next unused =>
      apply valid.withSites
      intro camera inside id' sited ⟨there, member, same⟩
      refine ⟨there, List.mem_filter.mpr ⟨member, ?_⟩, same⟩
      apply decide_eq_true
      intro deleted
      apply absurd _ unused
      exact List.any_eq_true.mpr ⟨camera, inside, decide_eq_true (by rw [sited, ← same, deleted])⟩
  | insertCamera id fields =>
    unfold Database.apply
    dsimp only
    split
    · exact valid
    next accepted =>
      apply valid.withCameras
      intro camera member
      obtain old | new := List.mem_append.mp member
      · exact .inl old
      · obtain rfl := List.mem_singleton.mp new
        right
        simp only [Bool.or_eq_true, Bool.not_eq_true', not_or, Bool.not_eq_false] at accepted
        exact accepted.2
  | updateCamera id fields =>
    unfold Database.apply
    dsimp only
    split
    · exact valid
    next accepted =>
      apply valid.withCameras
      intro camera member
      obtain ⟨old, inside, rfl⟩ := List.mem_map.mp member
      split
      · right
        show db.knows fields.siteId = true
        simpa using accepted
      · exact .inl inside
  | deleteCamera id => exact valid.withCameras fun camera member => .inl (List.mem_of_mem_filter member)
  | insertOperator operator =>
    unfold Database.apply
    dsimp only
    split
    · exact valid
    next accepted =>
      refine ⟨valid.sited, ?_⟩
      simp only [List.any_eq_true, Bool.or_eq_true, decide_eq_true_eq, not_exists, not_and, not_or] at accepted
      intro left member right member' same
      obtain old | new := List.mem_append.mp member
      · obtain old' | new' := List.mem_append.mp member'
        · exact valid.distinct left old right old' same
        · obtain rfl := List.mem_singleton.mp new'
          exact absurd same (accepted left old).2
      · obtain rfl := List.mem_singleton.mp new
        obtain old' | new' := List.mem_append.mp member'
        · exact absurd same.symm (accepted right old').2
        · obtain rfl := List.mem_singleton.mp new'
          rfl
  | updateOperator operator =>
    unfold Database.apply
    dsimp only
    split
    · exact valid
    next accepted =>
      refine ⟨valid.sited, ?_⟩
      simp only [List.any_eq_true, Bool.and_eq_true, decide_eq_true_eq, not_exists, not_and] at accepted
      have taken : ∀ other ∈ db.operators, other.username = operator.username → other.id = operator.id := by
        intro other member same
        by_contra differs
        exact accepted other member differs same
      intro left member right member' same
      obtain ⟨left, old, rfl⟩ := List.mem_map.mp member
      obtain ⟨right, old', rfl⟩ := List.mem_map.mp member'
      by_cases here : left.id = operator.id
      · by_cases here' : right.id = operator.id
        · rw [if_pos here, if_pos here']
        · rw [if_pos here, if_neg here'] at same ⊢
          exact (taken right old' same.symm).symm
      · by_cases here' : right.id = operator.id
        · rw [if_neg here, if_pos here'] at same ⊢
          exact taken left old same
        · rw [if_neg here, if_neg here'] at same ⊢
          exact valid.distinct left old right old' same
  | deleteOperator id =>
    refine ⟨valid.sited, fun left member right member' => ?_⟩
    exact valid.distinct left (List.mem_of_mem_filter member) right (List.mem_of_mem_filter member')
  | insertGrant grant =>
    unfold Database.apply
    dsimp only
    split
    · exact valid
    · exact ⟨valid.sited, valid.distinct⟩
  | updateGrant grant => exact ⟨valid.sited, valid.distinct⟩
  | deleteGrant id => exact ⟨valid.sited, valid.distinct⟩

theorem complete_dump {db : Database} {blob : Config} (valid : Valid db) (dumped : db.dumpConfig = .ok blob) :
    Complete blob := by
  unfold Database.dumpConfig Database.fetchDesired at dumped
  split at dumped
  · cases dumped
  next placed =>
    cases dumped
    refine ⟨rfl, ?_, ?_⟩
    · intro camera member
      have inside : camera ∈ db.cameras := (List.perm_insertionSort _ _).mem_iff.mp member
      cases site : camera.fields.siteId with
      | none =>
        apply absurd _ placed
        exact List.any_eq_true.mpr ⟨camera, inside, by rw [site]; rfl⟩
      | some id =>
        obtain ⟨site', there, same⟩ := knows_iff.mp (valid.sited camera inside) id site
        exact ⟨id, rfl, site', (List.perm_insertionSort _ _).mem_iff.mpr there, same⟩
    · intro operator member other member'
      exact valid.distinct operator ((List.perm_insertionSort _ _).mem_iff.mp member) other
        ((List.perm_insertionSort _ _).mem_iff.mp member')

/-! ## What is whole restores -/

theorem restoreCameras_ok {sites : List Site} (cams there : List CameraRow)
    (sited : ∀ camera ∈ cams, Database.knows ⟨sites, [], [], []⟩ camera.fields.siteId = true) :
    ∃ restored, Database.restoreCameras sites there cams = .ok restored ∧
      ∀ camera ∈ restored, camera ∈ there ∨ camera ∈ cams := by
  induction cams generalizing there with
  | nil => exact ⟨there, rfl, fun camera member => .inl member⟩
  | cons camera rest ih =>
    have sited' : ∀ camera ∈ rest, Database.knows ⟨sites, [], [], []⟩ camera.fields.siteId = true :=
      fun camera member => sited camera (.tail _ member)
    rw [Database.restoreCameras]
    split
    · obtain ⟨restored, ok, members⟩ := ih there sited'
      exact ⟨restored, ok, fun camera member => (members camera member).imp id (List.mem_cons_of_mem _)⟩
    · rw [sited camera (.head _)]
      obtain ⟨restored, ok, members⟩ := ih (there ++ [camera]) sited'
      refine ⟨restored, ok, fun camera' member => ?_⟩
      obtain old | new := members camera' member
      · obtain old | same := List.mem_append.mp old
        · exact .inl old
        · exact .inr (List.mem_singleton.mp same ▸ .head _)
      · exact .inr (.tail _ new)

theorem restoreOperators_ok (operators there : List Operator)
    (distinct : ∀ operator ∈ there ++ operators, ∀ other ∈ there ++ operators,
      operator.username = other.username → operator.id = other.id) :
    ∃ restored, Database.restoreOperators there operators = .ok restored := by
  induction operators generalizing there with
  | nil => exact ⟨there, rfl⟩
  | cons operator rest ih =>
    rw [Database.restoreOperators]
    split
    · apply ih there
      intro left member right member' same
      have kept : ∀ operator' ∈ there ++ rest, operator' ∈ there ++ operator :: rest := by
        intro operator' member
        exact (List.mem_append.mp member).elim (List.mem_append_left _)
          fun later => List.mem_append_right _ (.tail _ later)
      exact distinct left (kept left member) right (kept right member') same
    next fresh =>
      split
      next taken =>
        -- a username that is taken belongs to the operator with that id, who is there
        obtain ⟨other, member, same⟩ := List.any_eq_true.mp taken
        apply absurd _ fresh
        refine List.any_eq_true.mpr ⟨other, member, decide_eq_true ?_⟩
        exact distinct other (List.mem_append_left _ member) operator (List.mem_append_right _ (.head _))
          (of_decide_eq_true same)
      next =>
        apply ih (there ++ [operator])
        rw [List.append_assoc]
        exact distinct

theorem restoreSites_mem {rows there : List Site} {id : String}
    (member : (∃ site ∈ there, site.id = id) ∨ ∃ site ∈ rows, site.id = id) :
    ∃ site ∈ Database.restoreSites there rows, site.id = id := by
  induction rows generalizing there with
  | nil => simpa [Database.restoreSites] using member
  | cons row rest ih =>
    rw [Database.restoreSites, List.foldl_cons]
    apply ih
    obtain ⟨site, inside, same⟩ | ⟨site, inside, same⟩ := member
    · left
      split
      · exact ⟨site, inside, same⟩
      · exact ⟨site, List.mem_append_left _ inside, same⟩
    · obtain rfl | later := List.mem_cons.mp inside
      · left
        split
        next known =>
          obtain ⟨site', inside', same'⟩ := List.any_eq_true.mp known
          exact ⟨site', inside', (of_decide_eq_true same').trans same⟩
        next => exact ⟨site, List.mem_append_right _ (.head _), same⟩
      · exact .inr ⟨site, later, same⟩

/-- A Node that starts empty restores a whole blob. -/
theorem rehydrate_complete {blob : Config} (complete : Complete blob) {id : Identity}
    {objects : String → Except Err (Option Config)} (seen : id.seenBefore = true)
    (there : objects id.configObject = .ok (some blob)) (same : revisionOf blob = id.configRevision) :
    ∃ cameras store, rehydrate id Database.empty objects =
      .ok (⟨.restored, blob.revision, cameras⟩, store) := by
  have sited : ∀ camera ∈ blob.cameras,
      Database.knows ⟨Database.restoreSites [] blob.sites, [], [], []⟩ camera.fields.siteId = true := by
    intro camera member
    obtain ⟨siteId, some_, site⟩ := complete.sited camera member
    rw [knows_iff]
    intro id' sited
    rw [some_] at sited
    cases sited
    exact restoreSites_mem (.inr site)
  obtain ⟨cameras, restored, members⟩ := restoreCameras_ok blob.cameras [] sited
  obtain ⟨operators, restored'⟩ := restoreOperators_ok blob.operators [] complete.distinct
  have restores : Database.empty.restoreConfig blob = .ok (blob.revision,
      ⟨Database.restoreSites [] blob.sites, cameras, operators, Database.restoreGrants [] blob.grants⟩) := by
    unfold Database.restoreConfig decode
    rw [if_neg (not_not.mpr complete.format)]
    show (do
      let cameras ← Database.restoreCameras (Database.restoreSites [] blob.sites) [] blob.cameras
      let operators ← Database.restoreOperators [] blob.operators
      return (blob.revision, (⟨Database.restoreSites [] blob.sites, cameras, operators,
        Database.restoreGrants [] blob.grants⟩ : Database))) = _
    rw [restored, restored']
    rfl
  have placed : ¬ (cameras.any fun camera => camera.fields.siteId.isNone) = true := by
    intro some_
    obtain ⟨camera, member, siteless⟩ := List.any_eq_true.mp some_
    obtain old | new := members camera member
    · cases old
    · obtain ⟨siteId, sited, -⟩ := complete.sited camera new
      rw [sited] at siteless
      cases siteless
  refine ⟨(Database.byId cameras).length,
    ⟨Database.restoreSites [] blob.sites, cameras, operators, Database.restoreGrants [] blob.grants⟩, ?_⟩
  unfold rehydrate
  rw [if_neg (by decide), if_neg (by rw [seen]; decide), there]
  dsimp only
  rw [if_neg (not_not.mpr same), restores]
  dsimp only [Database.fetchDesired]
  rw [if_neg placed]
  rfl

/-! ## The publisher under way -/

abbrev Objects := String → Option Config

/-- A pointer that was made for this dump, whose object is there. -/
def Fits (objects : Objects) (items : Items) : Stage → Prop
  | .idle => False
  | .pointing rev blob cams => ∃ key, objects key = some blob ∧ Complete blob ∧ key ≠ "" ∧
      items.get? "config" = some key ∧ items.get? "revision" = some (toString rev) ∧
      items.get? "cameras" = some (join ',' (Publisher.idsOf cams))

/-- Whatever it is answered, the program puts only whole objects, stores only pointers that fit, and stays the
publisher of its Node. -/
def Sound {α : Type} : Program α → Objects → Prop
  | .call stage (.putVariable _ items _) next, objects =>
    Fits objects items stage ∧ ∀ answer, Sound (next answer) objects
  | .call _ (.putObject key blob) next, objects =>
    Complete blob ∧ Sound (next (.error .failed)) objects ∧
      ∀ answer, Sound (next answer) (Function.update objects key (some blob))
  | .call _ .dumpConfig next, objects =>
    ∀ answer, (∀ blob, answer = .ok blob → Complete blob) → Sound (next answer) objects
  | .call _ (.remember change) next, objects =>
    (∀ p, (change p).node = p.node) ∧ ∀ answer, Sound (next answer) objects
  | .call _ _ next, objects => ∀ answer, Sound (next answer) objects
  | _, _ => True

theorem sound_failed (objects : Objects) : Sound Publisher.failed objects := by
  intro p
  show Sound (if p.failedSince < 0 then _ else _) objects
  split
  · exact fun now => ⟨fun _ => rfl, fun _ => trivial⟩
  · trivial

theorem get?_pointer (node key : String) (rev : Int) (cams : List CameraRow) (items : Items) :
    (Publisher.pointer node key rev cams items).get? "config" = some key ∧
      (Publisher.pointer node key rev cams items).get? "revision" = some (toString rev) ∧
      (Publisher.pointer node key rev cams items).get? "cameras" = some (join ',' (Publisher.idsOf cams)) := by
  unfold Publisher.pointer
  refine ⟨?_, ?_, ?_⟩
  · rw [Dict.get?_set_other _ _ (by decide), Dict.get?_set_other _ _ (by decide), Dict.get?_set_self]
  · rw [Dict.get?_set_other _ _ (by decide), Dict.get?_set_self]
  · rw [Dict.get?_set_self]

theorem objectKey_ne_empty (node : String) (rev : Int) : Publisher.objectKey node rev ≠ "" := by
  simp [Publisher.objectKey]

theorem sound_putBlob (node : String) (rev : Int) {blob : Config} (complete : Complete blob) (objects : Objects) :
    Sound (Publisher.putBlob node rev blob) objects := by
  refine ⟨complete, sound_failed objects, ?_⟩
  intro answer
  cases answer with
  | error err => exact sound_failed _
  | ok done =>
    intro answer
    cases answer with
    | error err => exact sound_failed _
    | ok found =>
      intro answer
      cases answer with
      | error err => exact sound_failed _
      | ok cams =>
        obtain ⟨config, revision, cameras⟩ :=
          get?_pointer node (Publisher.objectKey node rev) rev cams (found.1.getD [])
        refine ⟨⟨_, Function.update_self _ _ _, complete, objectKey_ne_empty node rev, config, revision, cameras⟩, ?_⟩
        intro answer
        cases answer with
        | error err =>
          cases err with
          | conflict => trivial
          | failed => exact sound_failed _
        | ok index => exact fun now => ⟨fun _ => rfl, fun _ => trivial⟩

theorem sound_publishOnce (objects : Objects) : Sound Publisher.publishOnce objects := by
  intro answer
  cases answer with
  | error err => exact sound_failed _
  | ok rev =>
    intro p
    show Sound (if rev ≤ p.publishedRev then _ else _) objects
    split
    · trivial
    · intro now
      show Sound (if now - p.lastPublish < p.floor then _ else _) objects
      split
      · trivial
      · intro answer whole
        cases answer with
        | error err => exact sound_failed _
        | ok blob => exact sound_putBlob p.node rev (whole blob rfl) objects

/-! ## Edits, steps and crashes -/

inductive Event where
  | edit (edit : Edit)
  | step
  | crash

structure Running where
  world : NodeWorld
  program : Program Bool

/-- After a `PublishOnce` comes the next one, after a crash a new publisher. -/
def step (state : Running) : Event → Running
  | .edit edit => { state with world := { state.world with db := state.world.db.apply edit } }
  | .step =>
    if state.program.Finished then { state with program := Publisher.publishOnce }
    else
      let (program, world) := Proc.advance NodeWorld.handler (state.program, state.world)
      ⟨world, program⟩
  | .crash =>
    ⟨{ state.world with publisher := .new state.world.publisher.node state.world.publisher.floor },
      Publisher.publishOnce⟩

/-- The stored pointer. -/
def stored (world : NodeWorld) : Option Items := world.vars.read (Publisher.variable_ world.publisher.node)

/-- The pointer's revision and camera list are those of the blob. -/
def Describes (items : Items) (blob : Config) : Prop :=
  items.get? "revision" = some (toString blob.revision) ∧
    items.get? "cameras" = some (join ',' (Publisher.idsOf blob.cameras))

/-- Whenever a pointer is stored, it describes the object it names, and a fresh Node restores from it. -/
def Restorable (world : NodeWorld) : Prop :=
  ∀ items, stored world = some items → ∃ key blob, items.get? "config" = some key ∧
    world.objects key = some blob ∧ Describes items blob ∧
    ∃ cameras store, rehydrate (.fromVariable world.publisher.node (some items)) Database.empty
      (fun key => .ok (world.objects key)) = .ok (⟨.restored, blob.revision, cameras⟩, store)

/-- What a step stores is of one moment: a pointer is stored for a dump at the revision that was read first, with
the cameras of that dump; an object that replaces the one the pointer names has the pointer's revision and
cameras. -/
def Timely (state : Running) : Event → Prop
  | .step =>
    match state.program with
    | .call (.pointing rev blob cams) (.putVariable _ _ _) _ =>
      blob.revision = rev ∧ Publisher.idsOf cams = Publisher.idsOf blob.cameras
    | .call _ (.putObject key blob) _ =>
      ∀ items, stored state.world = some items → items.get? "config" = some key → Describes items blob
    | _ => True
  | .edit _ | .crash => True

instance (items : Items) (blob : Config) : Decidable (Describes items blob) := inferInstanceAs (Decidable (_ ∧ _))

instance (stored : Option Items) (condition : Items → Prop) [DecidablePred condition] :
    Decidable (∀ items, stored = some items → condition items) :=
  match stored with
  | none => isTrue nofun
  | some items => decidable_of_iff (condition items) ⟨fun holds _ same => Option.some.inj same ▸ holds, fun all => all _ rfl⟩

instance : ∀ (state : Running) (event : Event), Decidable (Timely state event)
  | _, .edit _ => isTrue trivial
  | _, .crash => isTrue trivial
  | ⟨_, .ret _⟩, .step => isTrue trivial
  | ⟨_, .call (.pointing _ _ _) (.putVariable _ _ _) _⟩, .step => inferInstanceAs (Decidable (_ ∧ _))
  | ⟨world, .call .idle (.putObject key blob) _⟩, .step =>
    inferInstanceAs
      (Decidable (∀ items, stored world = some items → items.get? "config" = some key → Describes items blob))
  | ⟨world, .call (.pointing _ _ _) (.putObject key blob) _⟩, .step =>
    inferInstanceAs
      (Decidable (∀ items, stored world = some items → items.get? "config" = some key → Describes items blob))
  | ⟨_, .call .idle (.putVariable _ _ _) _⟩, .step => isTrue trivial
  | ⟨_, .call stage .configRevision _⟩, .step => isTrue (by cases stage <;> trivial)
  | ⟨_, .call stage .dumpConfig _⟩, .step => isTrue (by cases stage <;> trivial)
  | ⟨_, .call stage .cameras _⟩, .step => isTrue (by cases stage <;> trivial)
  | ⟨_, .call stage (.getVariable _) _⟩, .step => isTrue (by cases stage <;> trivial)
  | ⟨_, .call stage .clock _⟩, .step => isTrue (by cases stage <;> trivial)
  | ⟨_, .call stage .recollect _⟩, .step => isTrue (by cases stage <;> trivial)
  | ⟨_, .call stage (.remember _) _⟩, .step => isTrue (by cases stage <;> trivial)

/-- The pointer's object is there, whole, and as described. -/
def Backed (world : NodeWorld) : Prop :=
  ∀ items, stored world = some items → ∃ key blob, items.get? "config" = some key ∧ key ≠ "" ∧
    world.objects key = some blob ∧ Complete blob ∧ Describes items blob

theorem parseInt_toString (n : Int) : parseInt (toString n) = n := by
  have numeral : (toString n).toList.all (fun c => c.isDigit || c = '-' || c = '+') = true := by
    rw [List.all_eq_true]
    intro c member
    by_contra other
    simp only [Bool.or_eq_true, decide_eq_true_eq, not_or, Bool.not_eq_true] at other
    exact not_mem_toString other.1.1 other.1.2 n member
  rw [parseInt, if_pos numeral, pyInt_toString]
  rfl

theorem Backed.restorable {world : NodeWorld} (backed : Backed world) : Restorable world := by
  intro items there
  obtain ⟨key, blob, config, nonempty, object, complete, describes⟩ := backed items there
  refine ⟨key, blob, config, object, describes, ?_⟩
  have named : (Identity.fromVariable world.publisher.node (some items)).configObject = key := by
    simp [Identity.fromVariable, Dict.getD, config]
  apply rehydrate_complete complete
  · exact decide_eq_true (by rw [named]; exact nonempty)
  · rw [named, object]
  · show blob.revision = ((items.get? "revision").map parseInt).getD 0
    rw [describes.1, Option.map_some, parseInt_toString]
    rfl

structure Invariant (state : Running) : Prop where
  valid : Valid state.world.db
  backed : Backed state.world
  sound : Sound state.program state.world.objects

theorem invariant_step {state : Running} {event : Event} (timely : Timely state event) (holds : Invariant state) :
    Invariant (step state event) := by
  obtain ⟨world, program⟩ := state
  cases event with
  | edit edit => exact ⟨valid_apply holds.valid edit, holds.backed, holds.sound⟩
  | crash => exact ⟨holds.valid, holds.backed, sound_publishOnce _⟩
  | step =>
    obtain ⟨valid, backed, sound⟩ := holds
    cases program with
    | ret value => exact ⟨valid, backed, sound_publishOnce _⟩
    | raise error => cases error
    | call stage request next =>
      cases request with
      | putObject key blob =>
        obtain ⟨complete, refused, done⟩ := sound
        have stepped : step ⟨world, .call stage (.putObject key blob) next⟩ .step =
            ⟨(NodeWorld.handler (.putObject key blob) world).2,
              next (NodeWorld.handler (.putObject key blob) world).1⟩ :=
          rfl
        rw [stepped]
        obtain answered | ⟨answer, answered⟩ := putObject_cases world key blob
        · rw [answered]
          exact ⟨valid, backed, refused⟩
        · rw [answered]
          refine ⟨valid, ?_, done answer⟩
          have timely' : ∀ items, stored world = some items → items.get? "config" = some key → Describes items blob := by
            cases stage <;> exact timely
          intro items there
          obtain ⟨key', blob', config, nonempty, object, complete', describes⟩ := backed items there
          by_cases same : key' = key
          · subst same
            exact ⟨key', blob, config, nonempty, Function.update_self _ _ _, complete, timely' items there config⟩
          · exact ⟨key', blob', config, nonempty, (Function.update_of_ne same _ _).trans object, complete', describes⟩
      | putVariable path items cas =>
        obtain ⟨fits, later⟩ := sound
        have stepped : step ⟨world, .call stage (.putVariable path items cas) next⟩ .step =
            ⟨(NodeWorld.handler (.putVariable path items cas) world).2,
              next (NodeWorld.handler (.putVariable path items cas) world).1⟩ := rfl
        rw [stepped]
        obtain ⟨err, answered⟩ | ⟨answer, answered, -⟩ := putVariable_cases world path items cas
        · rw [answered]
          exact ⟨valid, backed, later _⟩
        · rw [answered]
          refine ⟨valid, ?_, later answer⟩
          intro items' there
          by_cases here : Publisher.variable_ world.publisher.node = path
          · subst here
            have written : (world.vars.write (Publisher.variable_ world.publisher.node) items).read
                (Publisher.variable_ world.publisher.node) = some items' := there
            rw [Versioned.read_write_self] at written
            cases written
            cases stage with
            | idle => exact fits.elim
            | pointing rev blob cams =>
              obtain ⟨key, object, complete, nonempty, config, revision, cameras⟩ := fits
              obtain ⟨current, listed⟩ := timely
              refine ⟨key, blob, config, nonempty, object, complete, ?_, ?_⟩
              · rw [current]
                exact revision
              · rw [← listed]
                exact cameras
          · apply backed items'
            exact (Versioned.read_write_other _ _ here).symm.trans there
      | remember change =>
        obtain ⟨node, later⟩ := sound
        refine ⟨valid, ?_, later _⟩
        intro items there
        apply backed items
        have same : stored world = (world.vars.read (Publisher.variable_ (change world.publisher).node)) := by
          rw [node]
          rfl
        exact same.trans there
      | dumpConfig =>
        refine ⟨valid, backed, sound _ ?_⟩
        intro blob answered
        unfold NodeWorld.handler NodeWorld.answered at answered
        dsimp only at answered
        split at answered
        · cases answered
        · exact complete_dump valid answered
      | configRevision => exact ⟨valid, backed, sound _⟩
      | cameras => exact ⟨valid, backed, sound _⟩
      | getVariable path => exact ⟨valid, backed, sound _⟩
      | clock => exact ⟨valid, backed, sound _⟩
      | recollect => exact ⟨valid, backed, sound _⟩

open Replication (fair gate)

def newNode : Running := ⟨.fresh "node-3" 0 fair, Publisher.publishOnce⟩

def configured : List Event := [.edit (.insertSite ⟨"hq", "hq"⟩), .edit (.insertCamera 1 gate)]

/-- The camera is edited between the publisher's first read and its dump. -/
def editedBetween : List Event :=
  configured ++ List.replicate 3 Event.step ++ [.edit (.updateCamera 1 { gate with retentionDays := 14 })] ++
    List.replicate 5 Event.step

end Restore

end EdgeVms.Verified
