import EdgeVms.Domain.Identity
import EdgeVms.Process.Run

/-! # The published set of users

The revision is counted in memory and the object and its pointer are stored, so
a new process counts from the start again.  `Stage` follows one call of
`publish` through its requests; `Stable` is what the process, the store and the
call on its way keep between them.
-/

namespace EdgeVms.Verified.PublishedSet

open Process Python Domain

abbrev Objects := String → Option UserSet

variable {rows : IdentityRows} {objects : Objects} {state : IdentityService}

/-- `users`, over the rest of the listing. -/
def usersAmong (rows : IdentityRows) : List String → Except IdentityError (List User)
  | [] => .ok []
  | uid :: rest => do
    let found ← IdentityProgram.listed (rows.read (.user uid))
    let others ← usersAmong rows rest
    return found.toList ++ others

/-- `users`, when nothing is written while it reads. -/
def currentUsers (rows : IdentityRows) : Except IdentityError (List User) := usersAmong rows rows.uids

/-- The object that the pointer names decodes to the users; before the first pointer there are none. -/
def Current (rows : IdentityRows) (objects : Objects) : Prop :=
  ∃ users, currentUsers rows = .ok users ∧
    match rows.read .pointer with
    | none => users = []
    | some pointer => ∃ blob, objects pointer.object = some blob ∧ blob.decode = .ok users

/-- What the step promises. -/
structure Right (state : IdentityService) (event : IdentityService.Event) : Prop where
  /-- Every publish brings a higher revision. -/
  increases : (state.step event).world.rows.version .pointer ≠ state.world.rows.version .pointer →
    ∀ old ∈ state.world.rows.read .pointer, ∀ new ∈ (state.step event).world.rows.read .pointer,
      old.revision < new.revision
  /-- An object that the pointer has named is not rewritten. -/
  keeps : ∀ name ∈ state.named, (state.step event).world.objects name = state.world.objects name
  /-- A publish that looks at what is dirty and returns False has nothing to publish. -/
  current : event = .advance → ∀ p ∈ state.flight, p.request? = some .recollect →
    (Proc.advance (IdentityWorld.handler ()) (p, state.world)).1 = .ret false →
    Current state.world.rows state.world.objects

/-- The revision of a publish that is about to write its object is above the pointer's. -/
def Above (rows : IdentityRows) : Option IdentityPhase → Option IdentityRequest → Prop
  | some (.publishing rev), some (.putObject _ _) => ∀ pointer ∈ rows.read .pointer, pointer.revision < rev
  | _, _ => True

/-- The pointer is written, and the memory not yet told. -/
def Pointed : Option IdentityPhase → Option IdentityRequest → Prop
  | some (.publishing _), some .clock | some (.publishing _), some (.remember _) => True
  | _, _ => False

/-- No publish counts a revision again, none is on its way while a user is edited, and no process ends
before it has published its edits. -/
def Allowed (state : IdentityService) : IdentityService.Event → Prop
  | .advance => ∀ p ∈ state.flight, Above state.world.rows p.label? p.request?
  | .edit _ => ∀ p ∈ state.flight, p.label? = some .idle
  | .restart => (state.world.memory ()).dirty = false ∨ ∃ p ∈ state.flight, Pointed p.label? p.request?
  | _ => True

instance (rows : IdentityRows) (phase : Option IdentityPhase) (request : Option IdentityRequest) :
    Decidable (Above rows phase request) := by
  unfold Above
  split <;> infer_instance

instance (phase : Option IdentityPhase) (request : Option IdentityRequest) : Decidable (Pointed phase request) := by
  unfold Pointed
  split <;> infer_instance

instance (state : IdentityService) (event : IdentityService.Event) : Decidable (Allowed state event) := by
  unfold Allowed
  split <;> infer_instance

/-! ## Decoding -/

/-- A user that was read from a row is the one that its items give back. -/
theorem fromItems_toItems {row : Dict Text} {u : User} (read : User.fromItems row = .ok u) :
    User.fromItems (u.toItems.mapValues Value.text) = .ok u := by
  have whole : ∀ role ∈ u.roles, Atomic ',' role := by
    intro role member
    rw [User.fromItems] at read
    obtain ⟨id, _, read⟩ := bind_eq_ok.mp read
    obtain ⟨kind, _, read⟩ := bind_eq_ok.mp read
    obtain ⟨created, _, read⟩ := bind_eq_ok.mp read
    cases read
    exact atomic_fields member
  simp [User.fromItems, User.toItems, Dict.item, Dict.getD, Dict.get?_cons, Dict.mapValues, Value.text, Text.string,
    fields_join whole, bind, Except.bind, pure, Except.pure]

theorem read_of_listed {row : Option (Dict Text)} {u : User} (found : IdentityProgram.listed row = .ok (some u)) :
    ∃ items, User.fromItems items = .ok u := by
  unfold IdentityProgram.listed at found
  split at found
  next => cases found
  next items =>
    split at found
    next =>
      obtain ⟨u', parsed, same⟩ := map_eq_ok.mp found
      cases same
      cases read : User.fromItems items with
      | error error => rw [read] at parsed; cases parsed
      | ok u'' =>
        rw [read] at parsed
        cases parsed
        exact ⟨items, read⟩
    next => cases found

theorem read_of_among {uids : List String} {users : List User} (among : usersAmong rows uids = .ok users) :
    ∀ u ∈ users, ∃ items, User.fromItems items = .ok u := by
  induction uids generalizing users with
  | nil =>
    cases among
    simp
  | cons uid rest ih =>
    rw [usersAmong] at among
    obtain ⟨found, listed, among⟩ := bind_eq_ok.mp among
    obtain ⟨others, later, among⟩ := bind_eq_ok.mp among
    cases among
    intro u member
    obtain here | there := List.mem_append.mp member
    · rw [Option.mem_toList] at here
      cases here
      exact read_of_listed listed
    · exact ih later u there

/-- The object of a publish decodes to the users that it has read. -/
theorem decode_users {users : List User} (read : currentUsers rows = .ok users) (format revision : Int) :
    (UserSet.mk format revision (users.map User.toItems)).decode = .ok users := by
  have each := read_of_among read
  clear read
  rw [UserSet.decode]
  induction users with
  | nil => rfl
  | cons u rest ih =>
    obtain ⟨items, here⟩ := each u List.mem_cons_self
    rw [List.map_cons, List.mapM_cons, fromItems_toItems here, ih fun u' member => each u' (.tail _ member)]
    rfl

/-! ## One call of `publish` -/

def remembering (rev : Int) (now : ℚ) : IdentityProgram Bool :=
  .call (.publishing rev) (.remember fun me =>
    { me with
      publishedRev := rev, lastPublish := now, dirty := false,
      publishes := me.publishes + 1 }) fun _ => .ret true

def clocking (rev : Int) : IdentityProgram Bool := .call (.publishing rev) .clock (remembering rev)

def pointing (rev : Int) (idx : Nat) : IdentityProgram Bool :=
  .call (.publishing rev) (.putPointer ⟨IdentityProgram.objectName rev, rev⟩ idx) fun answer =>
    (Proc.ofExcept answer).bind fun _ => clocking rev

def looking (rev : Int) : IdentityProgram Bool :=
  .call (.publishing rev) .getPointer fun answer => pointing rev answer.2

def storing (rev : Int) (users : List User) : IdentityProgram Bool :=
  .call (.publishing rev) (.putObject (IdentityProgram.objectName rev) ⟨1, rev, users.map User.toItems⟩) fun _ =>
    looking rev

def reading (rev : Int) (rest : List String) (out : List User) : IdentityProgram Bool :=
  (IdentityProgram.usersRounds rev rest out).bind (storing rev)

def listing (rev : Int) : IdentityProgram Bool := .call (.publishing rev) .list fun uids => reading rev uids []

def timed (me : IdentityStore) (now : ℚ) : IdentityProgram Bool :=
  if now - me.lastPublish < me.floor then .ret false else listing (me.publishedRev + 1)

def timing (me : IdentityStore) : IdentityProgram Bool := .call .idle .clock (timed me)

def deciding (force : Bool) (me : IdentityStore) : IdentityProgram Bool :=
  match me.dirty, force with
  | false, false => .ret false
  | true, false => timing me
  | _, true => listing (me.publishedRev + 1)

theorem publish_eq (force : Bool) : IdentityProgram.publish force = .call .idle .recollect (deciding force) := by
  show Proc.call _ _ _ = Proc.call _ _ _
  congr 1
  funext ⟨floor, lastPublish, dirty, publishedRev, publishes⟩
  cases force with
  | true => cases dirty <;> rfl
  | false =>
    cases dirty with
    | false => rfl
    | true =>
      show Proc.call _ _ _ = Proc.call _ _ _
      congr 1
      funext now
      rw [timed]
      by_cases early : now - lastPublish < floor
      · simp [early]
      · simp only [Proc.bind_eq, Proc.pure_eq, Proc.ret_bind]
        rw [if_neg early, if_neg (by simpa using early)]
        rfl

theorem deciding_false {force : Bool} {me : IdentityStore} (returns : deciding force me = .ret false) :
    me.dirty = false := by
  unfold deciding at returns
  split at returns
  next clean => exact clean
  next => cases returns
  next => cases returns

theorem reading_nil (rev : Int) (out : List User) : reading rev [] out = storing rev out := rfl

theorem reading_cons (rev : Int) (uid : String) (rest : List String) (out : List User) :
    reading rev (uid :: rest) out = .call (.publishing rev) (.get uid) fun answer =>
      match IdentityProgram.listed answer.1 with
      | .error error => .raise error
      | .ok found => reading rev rest (out ++ found.toList) := by
  show Proc.call _ _ _ = Proc.call _ _ _
  congr 1
  funext answer
  show ((Proc.ofExcept (IdentityProgram.listed answer.1)).bind _).bind _ = _
  cases IdentityProgram.listed answer.1 with
  | error error => rfl
  | ok found =>
    cases found with
    | none => simp [reading, Proc.ofExcept]
    | some u => simp [reading, Proc.ofExcept]

/-- The object is stored and the pointer is behind it. -/
structure Stored (rows : IdentityRows) (objects : Objects) (rev : Int) : Prop where
  above : ∀ pointer ∈ rows.read .pointer, pointer.revision < rev
  whole : ∃ users, currentUsers rows = .ok users ∧
    objects (IdentityProgram.objectName rev) = some ⟨1, rev, users.map User.toItems⟩

/-- Where a call of `publish` may be. -/
inductive Stage (rows : IdentityRows) (objects : Objects) : IdentityProgram Bool → Prop
  | fresh (force) : Stage rows objects (IdentityProgram.publish force)
  | timing (me) : Stage rows objects (timing me)
  | listing (rev) : Stage rows objects (listing rev)
  | reading (rev rest out) (agrees : currentUsers rows = (out ++ ·) <$> usersAmong rows rest) :
    Stage rows objects (reading rev rest out)
  | looking (rev) (stored : Stored rows objects rev) : Stage rows objects (looking rev)
  | pointing (rev idx) (stored : Stored rows objects rev) : Stage rows objects (pointing rev idx)
  | clocking (rev) (current : Current rows objects) : Stage rows objects (clocking rev)
  | remembering (rev now) (current : Current rows objects) : Stage rows objects (remembering rev now)

namespace Stage

variable {p : IdentityProgram Bool}

/-- Before the listing nothing is read. -/
theorem idle (stage : Stage rows objects p) (label : p.label? = some .idle) (rows' : IdentityRows)
    (objects' : Objects) : Stage rows' objects' p := by
  cases stage with
  | fresh force => exact .fresh force
  | timing me => exact .timing me
  | listing rev => cases label
  | reading rev rest out agrees =>
    cases rest with
    | nil =>
      rw [reading_nil] at label
      cases label
    | cons uid rest =>
      rw [reading_cons] at label
      cases label
  | looking rev stored => cases label
  | pointing rev idx stored => cases label
  | clocking rev current => cases label
  | remembering rev now current => cases label

theorem decided (force : Bool) (me : IdentityStore) (unfinished : ¬(deciding force me).Finished) :
    Stage rows objects (deciding force me) := by
  unfold deciding at *
  split at unfinished
  next => exact absurd trivial unfinished
  next => exact .timing me
  next => exact .listing _

theorem timed (me : IdentityStore) (now : ℚ) (unfinished : ¬(PublishedSet.timed me now).Finished) :
    Stage rows objects (PublishedSet.timed me now) := by
  rw [PublishedSet.timed] at *
  split at unfinished
  next => exact absurd trivial unfinished
  next late =>
    rw [if_neg late]
    exact .listing _

theorem current (stage : Stage rows objects p) (pointed : Pointed p.label? p.request?) : Current rows objects := by
  cases stage with
  | fresh force => cases pointed
  | timing me => cases pointed
  | listing rev => cases pointed
  | reading rev rest out agrees =>
    cases rest with
    | nil =>
      rw [reading_nil] at pointed
      cases pointed
    | cons uid rest =>
      rw [reading_cons] at pointed
      cases pointed
  | looking rev stored => cases pointed
  | pointing rev idx stored => cases pointed
  | clocking rev current => exact current
  | remembering rev now current => exact current

end Stage

/-! ## What an edit does -/

/-- The edit raises before it writes, or it writes the record of one user and sets the flag. -/
inductive Edited (world : IdentityWorld Unit) : IdentityWorld Unit → Prop
  | unwritten : Edited world world
  | written (uid row) : Edited world
    { world with
      rows := world.rows.write (.user uid) row
      memory := Function.update world.memory () { world.memory () with dirty := true }
      committed := world.committed ++ [()] }

theorem edited_putUser (phase : IdentityPhase) (u : User) (world : IdentityWorld Unit) :
    Edited world ((IdentityProgram.putUser phase u).run (IdentityWorld.handler ()) world).2 := by
  have run : ((IdentityProgram.putUser phase u).run (IdentityWorld.handler ()) world).2 =
      { world with
        rows := world.rows.write (.user u.id) (u.toItems.mapValues Value.text)
        memory := Function.update world.memory () { world.memory () with dirty := true }
        committed := world.committed ++ [()] } := by
    simp [IdentityProgram.putUser, IdentityProgram.ask, Proc.perform, IdentityWorld.handler, Proc.ofExcept]
  rw [run]
  exact .written ..

theorem edited (edit : IdentityEdit) (world : IdentityWorld Unit) :
    Edited world (edit.program.run (IdentityWorld.handler ()) world).2 := by
  cases edit with
  | createFederated uid idpSubject roles created => exact edited_putUser ..
  | call c =>
    cases c with
    | createLocal uid pwhash roles created =>
      rw [IdentityEdit.program, IdentityCall.program, IdentityProgram.createLocal]
      simp only [IdentityProgram.ask, Proc.perform, Proc.bind_eq, Proc.call_bind, Proc.ret_bind, Proc.run_call,
        IdentityWorld.handler]
      cases IdentityProgram.userOf (world.rows.read (.user uid)) with
      | error error => exact .unwritten
      | ok found =>
        cases found with
        | some u => exact .unwritten
        | none => exact edited_putUser ..
    | setRoles uid roles =>
      rw [IdentityEdit.program, IdentityCall.program, IdentityProgram.setRoles]
      simp only [IdentityProgram.ask, Proc.perform, Proc.bind_eq, Proc.call_bind, Proc.ret_bind, Proc.run_call,
        IdentityWorld.handler]
      cases IdentityProgram.userOf (world.rows.read (.user uid)) with
      | error error => exact .unwritten
      | ok found =>
        cases found with
        | none => exact .unwritten
        | some u => exact edited_putUser ..
    | delete uid =>
      have run : ((IdentityProgram.delete uid).run (IdentityWorld.handler ()) world).2 =
          { world with
            rows := world.rows.write (.user uid) [("id", .plain uid), ("kind", .plain "deleted")]
            memory := Function.update world.memory () { world.memory () with dirty := true }
            committed := world.committed ++ [()] } := by
        simp [IdentityProgram.delete, IdentityProgram.ask, Proc.perform, IdentityWorld.handler, Proc.ofExcept,
          Dict.mapValues, Value.text]
      rw [IdentityEdit.program, IdentityCall.program, run]
      exact .written ..

/-! ## The invariant -/

theorem objectName_inj {rev rev' : Int} (same : IdentityProgram.objectName rev = IdentityProgram.objectName rev') :
    rev = rev' := by
  apply toString_inj
  simpa [IdentityProgram.objectName] using same

/-- The pointer is no record of a user. -/
theorem currentUsers_write_pointer (pointer : UserPointer) :
    currentUsers (rows.write .pointer pointer) = currentUsers rows := by
  have uids : IdentityRows.uids (rows.write .pointer pointer) = rows.uids := by
    rw [IdentityRows.uids, IdentityRows.uids, Versioned.write]
    dsimp only
    split
    · rfl
    · rw [List.filterMap_cons]
  have among : ∀ rest, usersAmong (rows.write .pointer pointer) rest = usersAmong rows rest := by
    intro rest
    induction rest with
    | nil => rfl
    | cons uid rest ih => rw [usersAmong, usersAmong, ih, Versioned.read_write_other _ _ (by simp)]
  rw [currentUsers, uids, among, currentUsers]

/-- What the store, the memory and the call on its way keep between them. -/
structure Stable (state : IdentityService) : Prop where
  named : ∀ name ∈ state.named, ∃ pointer, state.world.rows.read .pointer = some pointer ∧
    ∃ rev ≤ pointer.revision, name = IdentityProgram.objectName rev
  pointed : ∀ pointer ∈ state.world.rows.read .pointer,
    pointer.object = IdentityProgram.objectName pointer.revision ∧ pointer.object ∈ state.named
  current : (state.world.memory ()).dirty = false → Current state.world.rows state.world.objects
  flight : ∀ p ∈ state.flight, Stage state.world.rows state.world.objects p

theorem stable_start (floor : ℚ) : Stable (IdentityService.start floor) where
  named := by simp [IdentityService.start]
  pointed := by
    intro pointer there
    cases there
  current _ := ⟨[], rfl, rfl⟩
  flight := by
    intro p there
    cases there

namespace Stable

variable {state' : IdentityService}

theorem noteName (stable : Stable state) :
    IdentityService.noteName state.world.rows state.named = state.named := by
  rw [IdentityService.noteName]
  split
  next pointer there => exact if_pos (stable.pointed pointer there).2
  next => rfl

/-- Rows, objects and names stay as they are. -/
theorem quiet (stable : Stable state) (rows : state'.world.rows = state.world.rows)
    (objects : state'.world.objects = state.world.objects) (named : state'.named = state.named)
    (current : (state'.world.memory ()).dirty = false → Current state.world.rows state.world.objects)
    (flight : ∀ p ∈ state'.flight, Stage state.world.rows state.world.objects p) : Stable state' where
  named := by
    rw [named, rows]
    exact stable.named
  pointed := by
    rw [named, rows]
    exact stable.pointed
  current := by
    rw [rows, objects]
    exact current
  flight := by
    rw [rows, objects]
    exact flight

end Stable

/-- A step that writes neither the pointer nor an object. -/
theorem right_quiet {event : IdentityService.Event}
    (version : (state.step event).world.rows.version .pointer = state.world.rows.version .pointer)
    (objects : (state.step event).world.objects = state.world.objects)
    (current : event = .advance → ∀ p ∈ state.flight, p.request? = some .recollect →
      (Proc.advance (IdentityWorld.handler ()) (p, state.world)).1 = .ret false →
      Current state.world.rows state.world.objects) : Right state event where
  increases moved := absurd version moved
  keeps name _ := by rw [objects]
  current := current

theorem edit_step (stable : Stable state) (edit : IdentityEdit) (allowed : Allowed state (.edit edit)) :
    Stable (state.step (.edit edit)) ∧ Right state (.edit edit) := by
  have made := edited edit state.world
  have stepped : state.step (.edit edit) =
      { state with world := (edit.program.run (IdentityWorld.handler ()) state.world).2 } := rfl
  generalize (edit.program.run (IdentityWorld.handler ()) state.world).2 = world' at made stepped
  cases made with
  | unwritten =>
    refine ⟨by rw [stepped]; exact stable, right_quiet (by rw [stepped]) (by rw [stepped]) nofun⟩
  | written uid row =>
    have pointer : ∀ pointer, (state.world.rows.write (.user uid) row).read .pointer = some pointer ↔
        state.world.rows.read .pointer = some pointer := by
      intro pointer
      rw [Versioned.read_write_other _ _ (by simp)]
    constructor
    · rw [stepped]
      constructor
      case named =>
        intro name member
        obtain ⟨old, there, rest⟩ := stable.named name member
        exact ⟨old, (pointer old).mpr there, rest⟩
      case pointed => exact fun old there => stable.pointed old ((pointer old).mp there)
      case current =>
        intro clean
        simp at clean
      case flight => exact fun p there => (stable.flight p there).idle (allowed p there) _ _
    · have version : (state.step (.edit edit)).world.rows.version .pointer = state.world.rows.version .pointer := by
        rw [stepped]
        exact Versioned.version_write_other _ _ (by simp)
      exact right_quiet version (by rw [stepped]) nofun

section Advance

variable {phase : IdentityPhase} {request : IdentityRequest} {next : request.Answer → IdentityProgram Bool}

theorem advance_eq (flight : state.flight = some (.call phase request next)) :
    state.step .advance =
      ⟨(IdentityWorld.handler () request state.world).2,
        if (next (IdentityWorld.handler () request state.world).1).Finished then none
        else some (next (IdentityWorld.handler () request state.world).1),
        IdentityService.noteName (IdentityWorld.handler () request state.world).2.rows state.named⟩ := by
  rw [IdentityService.step, flight]
  rfl

/-- A request that leaves rows and objects as they are. -/
theorem advance_quiet (stable : Stable state) (flight : state.flight = some (.call phase request next))
    (rows : (IdentityWorld.handler () request state.world).2.rows = state.world.rows)
    (objects : (IdentityWorld.handler () request state.world).2.objects = state.world.objects)
    (clean : ((IdentityWorld.handler () request state.world).2.memory ()).dirty = false →
      Current state.world.rows state.world.objects)
    (stage : ¬(next (IdentityWorld.handler () request state.world).1).Finished →
      Stage state.world.rows state.world.objects (next (IdentityWorld.handler () request state.world).1))
    (current : request = .recollect → next (IdentityWorld.handler () request state.world).1 = .ret false →
      Current state.world.rows state.world.objects) :
    Stable (state.step .advance) ∧ Right state .advance := by
  have stepped := advance_eq flight
  rw [rows, stable.noteName] at stepped
  constructor
  · rw [stepped]
    refine stable.quiet rows objects rfl clean fun p there => ?_
    dsimp only at there
    split at there
    next => cases there
    next unfinished =>
      cases there
      exact stage unfinished
  · apply right_quiet (by rw [stepped, rows]) (by rw [stepped, objects])
    intro _ p there asks returns
    rw [flight] at there
    cases there
    exact current (Option.some.inj asks) returns

end Advance

/-- The name of an object above the pointer's is no name that the pointer has had. -/
theorem Stable.unnamed (stable : Stable state) {rev : Int}
    (above : ∀ pointer ∈ state.world.rows.read .pointer, pointer.revision < rev) {name : String}
    (member : name ∈ state.named) : name ≠ IdentityProgram.objectName rev := by
  obtain ⟨pointer, there, earlier, bound, rfl⟩ := stable.named name member
  intro same
  have := objectName_inj same
  have := above pointer there
  omega

theorem storing_step {rev : Int} {users : List User} (stable : Stable state)
    (flight : state.flight = some (storing rev users))
    (above : ∀ pointer ∈ state.world.rows.read .pointer, pointer.revision < rev)
    (read : currentUsers state.world.rows = .ok users) :
    Stable (state.step .advance) ∧ Right state .advance := by
  have stepped : state.step .advance = _ := advance_eq flight
  simp only [IdentityWorld.handler, stable.noteName] at stepped
  have others : ∀ name ∈ state.named, Function.update state.world.objects (IdentityProgram.objectName rev)
      (some ⟨1, rev, users.map User.toItems⟩) name = state.world.objects name :=
    fun name member => Function.update_of_ne (stable.unnamed above member) _ _
  rw [stepped]
  constructor
  · constructor
    case named => exact stable.named
    case pointed => exact stable.pointed
    case current =>
      intro clean
      obtain ⟨known, same, published⟩ := stable.current clean
      refine ⟨known, same, ?_⟩
      dsimp only
      cases there : state.world.rows.read .pointer with
      | none =>
        rw [there] at published
        exact published
      | some pointer =>
        rw [there] at published
        dsimp only
        rw [others _ (stable.pointed pointer there).2]
        exact published
    case flight =>
      intro p there
      cases there
      exact .looking rev ⟨above, users, read, Function.update_self ..⟩
  · constructor
    case increases =>
      intro moved
      rw [stepped] at moved
      exact absurd rfl moved
    case keeps =>
      intro name member
      rw [stepped]
      exact others name member
    case current =>
      intro _ p there asks
      rw [flight] at there
      cases there
      cases asks

theorem pointing_step {rev : Int} {idx : Nat} (stable : Stable state) (flight : state.flight = some (pointing rev idx))
    (stored : Stored state.world.rows state.world.objects rev) :
    Stable (state.step .advance) ∧ Right state .advance := by
  have stepped : state.step .advance = _ := advance_eq flight
  have unasked : ∀ p ∈ state.flight, p.request? ≠ some .recollect := by
    intro p there
    rw [flight] at there
    cases there
    nofun
  obtain ⟨users, read, object⟩ := stored.whole
  by_cases same : idx = state.world.rows.version .pointer
  · simp only [IdentityWorld.handler, if_pos same] at stepped
    have current :
        Current (state.world.rows.write .pointer ⟨IdentityProgram.objectName rev, rev⟩) state.world.objects := by
      refine ⟨users, by rw [currentUsers_write_pointer, read], ?_⟩
      rw [Versioned.read_write_self]
      exact ⟨_, object, decode_users read 1 rev⟩
    have names : ∀ name, name ∈ IdentityService.noteName
        (state.world.rows.write .pointer ⟨IdentityProgram.objectName rev, rev⟩) state.named ↔
        name ∈ state.named ∨ name = IdentityProgram.objectName rev := by
      intro name
      rw [IdentityService.noteName, Versioned.read_write_self]
      dsimp only
      split
      next known => exact ⟨.inl, fun either => either.elim id fun same => same ▸ known⟩
      next => rw [List.mem_append, List.mem_singleton]
    rw [stepped]
    constructor
    · constructor
      case named =>
        intro name member
        refine ⟨_, Versioned.read_write_self .., ?_⟩
        obtain before | rfl := (names name).mp member
        · obtain ⟨pointer, there, earlier, bound, rfl⟩ := stable.named name before
          have := stored.above pointer there
          exact ⟨earlier, by dsimp only; omega, rfl⟩
        · exact ⟨rev, le_refl _, rfl⟩
      case pointed =>
        intro pointer there
        dsimp only at there
        rw [Versioned.read_write_self] at there
        cases there
        exact ⟨rfl, (names _).mpr (.inr rfl)⟩
      case current => exact fun _ => current
      case flight =>
        intro p there
        cases there
        exact .clocking rev current
    · constructor
      case increases =>
        intro _ old before new after
        rw [stepped] at after
        dsimp only at after
        rw [Versioned.read_write_self] at after
        cases after
        exact stored.above old before
      case keeps =>
        intro name _
        rw [stepped]
      case current => exact fun _ p there asks => absurd asks (unasked p there)
  · have refused : IdentityWorld.handler () (.putPointer ⟨IdentityProgram.objectName rev, rev⟩ idx) state.world =
        (.error .conflict, state.world) := if_neg same
    apply advance_quiet stable flight (by rw [refused]) (by rw [refused]) (by rw [refused]; exact stable.current) _ nofun
    intro unfinished
    rw [refused] at unfinished
    exact absurd trivial unfinished

theorem advance_step (stable : Stable state) (allowed : Allowed state .advance) :
    Stable (state.step .advance) ∧ Right state .advance := by
  cases flight : state.flight with
  | none =>
    have stepped : state.step .advance = state := by
      rw [IdentityService.step, flight]
    refine ⟨by rw [stepped]; exact stable, right_quiet (by rw [stepped]) (by rw [stepped]) fun _ p there => ?_⟩
    rw [flight] at there
    cases there
  | some p =>
    have above := allowed p flight
    have stage := stable.flight p flight
    cases stage with
    | fresh force =>
      rw [publish_eq] at flight
      apply advance_quiet stable flight rfl rfl stable.current
      · exact fun unfinished => .decided force _ unfinished
      · exact fun _ returns => stable.current (deciding_false returns)
    | timing me =>
      apply advance_quiet stable flight rfl rfl stable.current _ nofun
      exact fun unfinished => .timed me _ unfinished
    | listing rev =>
      apply advance_quiet stable flight rfl rfl stable.current _ nofun
      intro _
      refine .reading rev _ [] ?_
      simp only [IdentityWorld.handler, List.nil_append, id_map']
      rfl
    | reading rev rest out agrees =>
      cases rest with
      | nil =>
        rw [reading_nil] at flight above
        exact storing_step stable flight above (by rw [agrees, usersAmong]; simp)
      | cons uid rest =>
        rw [reading_cons] at flight
        apply advance_quiet stable flight rfl rfl stable.current _ nofun
        intro unfinished
        simp only [IdentityWorld.handler] at unfinished ⊢
        rw [usersAmong] at agrees
        cases listed : IdentityProgram.listed (state.world.rows.read (.user uid)) with
        | error error =>
          rw [listed] at unfinished
          exact absurd trivial unfinished
        | ok found =>
          refine .reading rev rest _ ?_
          rw [agrees, listed]
          cases usersAmong state.world.rows rest with
          | error error => rfl
          | ok others => simp [bind, Except.bind, pure, Except.pure]
    | looking rev stored =>
      apply advance_quiet stable flight rfl rfl stable.current _ nofun
      exact fun _ => .pointing rev _ stored
    | pointing rev idx stored => exact pointing_step stable flight stored
    | clocking rev current =>
      apply advance_quiet stable flight rfl rfl stable.current _ nofun
      exact fun _ => .remembering rev _ current
    | remembering rev now current =>
      apply advance_quiet stable flight rfl rfl (fun _ => current) _ nofun
      exact fun unfinished => absurd trivial unfinished

theorem stable_step (stable : Stable state) {event : IdentityService.Event} (allowed : Allowed state event) :
    Stable (state.step event) ∧ Right state event := by
  cases event with
  | wait seconds =>
    exact ⟨stable.quiet rfl rfl rfl stable.current stable.flight, right_quiet rfl rfl nofun⟩
  | edit edit => exact edit_step stable edit allowed
  | publish force =>
    cases flight : state.flight with
    | some p =>
      have stepped : state.step (.publish force) = state := by
        rw [IdentityService.step, flight]
      exact ⟨by rw [stepped]; exact stable, right_quiet (by rw [stepped]) (by rw [stepped]) nofun⟩
    | none =>
      have stepped : state.step (.publish force) = { state with flight := some (IdentityProgram.publish force) } := by
        rw [IdentityService.step, flight]
      refine ⟨?_, right_quiet (by rw [stepped]) (by rw [stepped]) nofun⟩
      rw [stepped]
      refine stable.quiet rfl rfl rfl stable.current fun p there => ?_
      cases there
      exact .fresh force
  | advance => exact advance_step stable allowed
  | abort => exact ⟨stable.quiet rfl rfl rfl stable.current nofun, right_quiet rfl rfl nofun⟩
  | restart =>
    have current : Current state.world.rows state.world.objects := by
      obtain clean | ⟨p, there, pointed⟩ := allowed
      · exact stable.current clean
      · exact (stable.flight p there).current pointed
    exact ⟨stable.quiet rfl rfl rfl (fun _ => current) nofun, right_quiet rfl rfl nofun⟩

/-! ## Runs -/

def creates (uid : String) : IdentityService.Event :=
  .edit (.call (.createLocal uid "salt:hash" ["operator"] (.finite 0)))

/-- A user, a publish of the set, another user, and a publish that ends before the memory is told. -/
def publishedTwice : List IdentityService.Event :=
  [creates "alice", .publish false] ++ List.replicate 9 .advance ++
    [creates "bob", .wait 60, .publish false] ++ List.replicate 8 .advance ++ [.restart, .publish false, .advance]

/-- A publish, a new process, another user, and a publish up to its object. -/
def countedAgain : List IdentityService.Event :=
  [creates "alice", .publish false] ++ List.replicate 9 .advance ++
    [.restart, creates "bob", .publish false] ++ List.replicate 5 .advance

/-- A user, and a new process before the set is published. -/
def forgotten : List IdentityService.Event := [creates "alice", .restart, .publish false]

end EdgeVms.Verified.PublishedSet
