import EdgeVms.Domain.Identity

/-! # Edits of the user records side by side

`_put` reads the index that its write must match after the call has decided, so a
call is atomic only if its record stays as it was until then.  `apply` is what a
call does when nobody interferes, and in the runs of the theorem the calls take
effect one after the other, in the order of their writes.
-/

namespace EdgeVms.Verified.IdentityEdits

open Process Python Domain

variable {κ : Type}

abbrev Edits (κ : Type) := Pool identityInterface IdentityPhase IdentityError Unit (IdentityWorld κ) κ

def begun (calls : κ → IdentityCall) (rows : IdentityRows) : Edits κ :=
  ⟨fun c => (calls c).program, ⟨rows, fun _ => none, fun _ => .new 60, 0, []⟩⟩

/-- The records, by the ids of their users. -/
abbrev Records := String → Option (Dict Text)

def records (rows : IdentityRows) : Records := fun uid => rows.read (.user uid)

/-- Every record names the user whose it is. -/
def Named (map : Records) : Prop :=
  ∀ uid items u, map uid = some items → User.fromItems items = .ok u → u.id = uid

/-- When `_put` reads its index, the record is the one that the call has decided on. -/
def Allowed (pool : Edits κ) (c : κ) : Prop :=
  match (pool.procs c).label? with
  | some (.rereading uid decided) => records pool.state.rows uid = decided
  | _ => True

instance (pool : Edits κ) (c : κ) : Decidable (Allowed pool c) := by
  unfold Allowed
  split <;> infer_instance

/-! ## One call alone -/

/-- What the call makes of the record of its user. -/
def effect : IdentityCall → Option (Dict Text) → Except IdentityError (Dict Value)
  | .createLocal uid pwhash roles created, row =>
    match IdentityProgram.userOf row with
    | .error error => .error error
    | .ok (some _) => .error (.exists_ ("user " ++ uid ++ " exists"))
    | .ok none => .ok (User.mk uid "local" roles pwhash "" created).toItems
  | .setRoles uid roles, row =>
    match IdentityProgram.userOf row with
    | .error error => .error error
    | .ok none => .error (.keyError uid)
    | .ok (some u) => .ok { u with roles := roles }.toItems
  | .delete uid, _ => .ok [("id", .str (.plain uid)), ("kind", .str (.plain "deleted"))]

/-- The records after the call, if it returns. -/
def apply (call : IdentityCall) (map : Records) : Except IdentityError Records :=
  match effect call (map call.uid) with
  | .error error => .error error
  | .ok items => .ok (Function.update map call.uid (some (items.mapValues Value.text)))

/-- One call after the other; none of them raises. -/
def applyAll (calls : κ → IdentityCall) (order : List κ) (map : Records) : Except IdentityError Records :=
  order.foldlM (fun map c => apply (calls c) map) map

def noting : IdentityProgram Unit :=
  .call .idle (.remember fun me => { me with dirty := true }) .ret

def writing (uid : String) (items : Dict Value) (idx : Nat) : IdentityProgram Unit :=
  .call .idle (.put uid items idx) fun answer => (Proc.ofExcept answer).bind fun _ => noting

/-- The call has returned, or has only its own memory to change before it does. -/
def Landed (p : IdentityProgram Unit) : Prop := p = noting ∨ p = .ret ()

theorem putUser_eq (phase : IdentityPhase) (u : User) :
    IdentityProgram.putUser phase u = .call phase (.get u.id) fun answer => writing u.id u.toItems answer.2 := rfl

/-- What a call does once it has looked at the record of its user. -/
def decided (call : IdentityCall) (items : Option (Dict Text)) (idx : Nat) : IdentityProgram Unit :=
  match call with
  | .createLocal uid pwhash roles created =>
    match IdentityProgram.userOf items with
    | .error error => .raise error
    | .ok (some _) => .raise (.exists_ ("user " ++ uid ++ " exists"))
    | .ok none => IdentityProgram.putUser (.rereading uid items) ⟨uid, "local", roles, pwhash, "", created⟩
  | .setRoles uid roles =>
    match IdentityProgram.userOf items with
    | .error error => .raise error
    | .ok none => .raise (.keyError uid)
    | .ok (some u) => IdentityProgram.putUser (.rereading u.id items) { u with roles := roles }
  | .delete uid => writing uid [("id", .str (.plain uid)), ("kind", .str (.plain "deleted"))] idx

theorem program_eq (call : IdentityCall) :
    call.program = .call .idle (.get call.uid) fun answer => decided call answer.1 answer.2 := by
  cases call with
  | createLocal uid pwhash roles created =>
    show Proc.call _ _ _ = Proc.call _ _ _
    congr 1
    funext answer
    rw [decided]
    cases user : IdentityProgram.userOf answer.1 with
    | error error => simp [user, Proc.ofExcept]
    | ok found => cases found <;> simp [user, Proc.ofExcept]
  | setRoles uid roles =>
    show Proc.call _ _ _ = Proc.call _ _ _
    congr 1
    funext answer
    rw [decided]
    cases user : IdentityProgram.userOf answer.1 with
    | error error => simp [user, Proc.ofExcept]
    | ok found => cases found <;> simp [user, Proc.ofExcept]
  | delete uid => rfl

theorem records_write (rows : IdentityRows) (uid : String) (row : Dict Text) :
    records (rows.write (.user uid) row) = Function.update (records rows) uid (some row) := by
  funext uid'
  rw [records]
  by_cases same : uid' = uid
  · subst same
    rw [Versioned.read_write_self, Function.update_self]
  · rw [Versioned.read_write_other _ _ (by simpa using same), Function.update_of_ne same]
    rfl

theorem userOf_ok {row : Option (Dict Text)} {u : User} (user : IdentityProgram.userOf row = .ok (some u)) :
    ∃ items, row = some items ∧ User.fromItems items = .ok u := by
  unfold IdentityProgram.userOf at user
  split at user
  next => cases user
  next => cases user
  next items _ =>
    obtain ⟨u', parsed, same⟩ := map_eq_ok.mp user
    cases same
    cases read : User.fromItems items with
    | error error => rw [read] at parsed; cases parsed
    | ok u'' =>
      rw [read] at parsed
      cases parsed
      exact ⟨items, rfl, read⟩

theorem Named.user {map : Records} (named : Named map) {uid : String} {u : User}
    (user : IdentityProgram.userOf (map uid) = .ok (some u)) : u.id = uid := by
  obtain ⟨items, there, parsed⟩ := userOf_ok user
  exact named uid items u there parsed

/-- `apply` is what the call does when nothing comes between its requests. -/
theorem run_alone [DecidableEq κ] (call : IdentityCall) (c : κ) (world : IdentityWorld κ)
    (named : Named (records world.rows)) :
    match apply call (records world.rows) with
    | .error error => call.program.run (IdentityWorld.handler c) world = (.error error, world)
    | .ok map =>
      (call.program.run (IdentityWorld.handler c) world).1 = .ok () ∧
        records (call.program.run (IdentityWorld.handler c) world).2.rows = map := by
  have write : ∀ (uid : String) (items : Dict Value),
      ((writing uid items (world.rows.version (.user uid))).run (IdentityWorld.handler c) world).1 = .ok () ∧
        records ((writing uid items (world.rows.version (.user uid))).run (IdentityWorld.handler c) world).2.rows =
          Function.update (records world.rows) uid (some (items.mapValues Value.text)) := by
    intro uid items
    rw [writing, Proc.run_call]
    simp only [IdentityWorld.handler, if_true]
    exact ⟨rfl, records_write _ _ _⟩
  rw [program_eq, Proc.run_call, apply]
  cases call with
  | createLocal uid pwhash roles created =>
    simp only [effect, decided, IdentityWorld.handler, IdentityCall.uid, records]
    cases user : IdentityProgram.userOf (world.rows.read (.user uid)) with
    | error error => rfl
    | ok found =>
      cases found with
      | some u => rfl
      | none => exact write uid _
  | setRoles uid roles =>
    simp only [effect, decided, IdentityWorld.handler, IdentityCall.uid, records]
    cases user : IdentityProgram.userOf (world.rows.read (.user uid)) with
    | error error => rfl
    | ok found =>
      cases found with
      | none => rfl
      | some u =>
        have own : u.id = uid := named.user user
        subst own
        exact write u.id _
  | delete uid => exact write uid _

/-- An edit writes the record of its user, under its id. -/
theorem effect_id {call : IdentityCall} {row : Option (Dict Text)} {items : Dict Value}
    (named : ∀ u, IdentityProgram.userOf row = .ok (some u) → u.id = call.uid)
    (made : effect call row = .ok items) : Dict.get? items "id" = some (.str (.plain call.uid)) := by
  cases call with
  | createLocal uid pwhash roles created =>
    rw [effect] at made
    split at made
    next => cases made
    next => cases made
    next =>
      cases made
      rfl
  | setRoles uid roles =>
    rw [effect] at made
    split at made
    next => cases made
    next => cases made
    next u user =>
      cases made
      rw [← named u user]
      rfl
  | delete uid =>
    cases made
    rfl

theorem fromItems_id {items : Dict Text} {u : User} {uid : String} (id : items.get? "id" = some (.plain uid))
    (parsed : User.fromItems items = .ok u) : u.id = uid := by
  rw [User.fromItems, Dict.item, id] at parsed
  obtain ⟨id', here, parsed⟩ := bind_eq_ok.mp parsed
  obtain ⟨kind, -, parsed⟩ := bind_eq_ok.mp parsed
  obtain ⟨created, -, parsed⟩ := bind_eq_ok.mp parsed
  cases here
  cases parsed
  rfl

theorem Named.apply {map map' : Records} (named : Named map) {call : IdentityCall} (made : apply call map = .ok map') :
    Named map' := by
  rw [IdentityEdits.apply] at made
  split at made
  next => cases made
  next items effect =>
    cases made
    intro uid items' u there parsed
    by_cases same : uid = call.uid
    · subst same
      rw [Function.update_self] at there
      cases there
      refine fromItems_id ?_ parsed
      rw [Dict.get?_mapValues, effect_id (fun u user => named.user user) effect]
      rfl
    · rw [Function.update_of_ne same] at there
      exact named uid items' u there parsed

/-! ## One step -/

/-- Where a call may stand. -/
inductive Going (call : IdentityCall) (c : κ) (world : IdentityWorld κ) : IdentityProgram Unit → Prop
  | fresh (unwritten : c ∉ world.committed) : Going call c world call.program
  | rereading (u : User) (row) (unwritten : c ∉ world.committed) (own : u.id = call.uid)
    (makes : effect call row = .ok u.toItems) : Going call c world (IdentityProgram.putUser (.rereading u.id row) u)
  | writing (items) (base : IdentityRows) (unwritten : c ∉ world.committed) (later : base.Later world.rows)
    (makes : effect call (base.read (.user call.uid)) = .ok items) :
    Going call c world (writing call.uid items (base.version (.user call.uid)))
  | landed {p} (written : c ∈ world.committed) (through : Landed p) : Going call c world p
  | raised (error) (unwritten : c ∉ world.committed) : Going call c world (.raise error)

/-- The records are what the calls that have written made of them, one after the other. -/
structure Explained (calls : κ → IdentityCall) (map : Records) (pool : Edits κ) : Prop where
  going : ∀ c, Going (calls c) c pool.state (pool.procs c)
  once : pool.state.committed.Nodup
  applied : applyAll calls pool.state.committed map = .ok (records pool.state.rows)
  named : Named (records pool.state.rows)

/-- Another call's write. -/
theorem Going.later {call : IdentityCall} {c : κ} {world world' : IdentityWorld κ} {p : IdentityProgram Unit}
    (going : Going call c world p) (rows : world.rows.Later world'.rows)
    (same : c ∈ world'.committed ↔ c ∈ world.committed) : Going call c world' p := by
  cases going with
  | fresh unwritten => exact .fresh (mt same.mp unwritten)
  | rereading u row unwritten own makes => exact .rereading u row (mt same.mp unwritten) own makes
  | writing items base unwritten later makes => exact .writing items base (mt same.mp unwritten) (later.trans rows) makes
  | landed written through => exact .landed (same.mpr written) through
  | raised error unwritten => exact .raised error (mt same.mp unwritten)

theorem explained_begun (calls : κ → IdentityCall) {rows : IdentityRows} (named : Named (records rows)) :
    Explained calls (records rows) (begun calls rows) where
  going _ := .fresh List.not_mem_nil
  once := List.nodup_nil
  applied := rfl
  named := named

/-- What a call decides on the record that it reads. -/
theorem decided_going {call : IdentityCall} {c : κ} {world : IdentityWorld κ} (unwritten : c ∉ world.committed)
    (named : Named (records world.rows)) :
    Going call c world
      (decided call (world.rows.read (.user call.uid)) (world.rows.version (.user call.uid))) := by
  cases call with
  | createLocal uid pwhash roles created =>
    rw [decided]
    split
    next error _ => exact .raised error unwritten
    next => exact .raised _ unwritten
    next user =>
      have makes : effect (.createLocal uid pwhash roles created) (world.rows.read (.user uid)) =
          .ok (User.mk uid "local" roles pwhash "" created).toItems := by
        rw [IdentityCall.uid] at user
        rw [effect, user]
      exact .rereading _ _ unwritten rfl makes
  | setRoles uid roles =>
    rw [decided]
    split
    next error _ => exact .raised error unwritten
    next => exact .raised _ unwritten
    next u user =>
      have own : u.id = uid := named.user user
      have makes : effect (.setRoles uid roles) (world.rows.read (.user uid)) =
          .ok { u with roles := roles }.toItems := by
        rw [IdentityCall.uid] at user
        rw [effect, user]
      exact .rereading _ _ unwritten own makes
  | delete uid => exact .writing _ world.rows unwritten (.refl _) rfl

variable [DecidableEq κ]

def step (pool : Edits κ) (c : κ) : Edits κ := pool.step IdentityWorld.handler c

variable {calls : κ → IdentityCall} {map : Records} {pool : Edits κ} {c : κ}

/-- A step that only moves the call. -/
theorem Explained.quiet {p' : IdentityProgram Unit} (explained : Explained calls map pool)
    (own : Going (calls c) c pool.state p') :
    Explained calls map ⟨Function.update pool.procs c p', pool.state⟩ where
  going c' := by
    by_cases same : c' = c
    · subst same
      simpa only [Function.update_self] using own
    · simpa only [Function.update_of_ne same] using explained.going c'
  once := explained.once
  applied := explained.applied
  named := explained.named

theorem explained_step (explained : Explained calls map pool) (allowed : Allowed pool c) :
    Explained calls map (step pool c) := by
  unfold Allowed at allowed
  have going := explained.going c
  generalize here : pool.procs c = p at going
  cases going with
  | fresh unwritten =>
    rw [program_eq] at here
    rw [step, Pool.step_call here]
    exact explained.quiet (decided_going unwritten explained.named)
  | rereading u row unwritten own makes =>
    rw [putUser_eq] at here
    rw [step, Pool.step_call here]
    rw [here] at allowed
    have same : records pool.state.rows u.id = row := allowed
    rw [own] at same
    simp only [IdentityWorld.handler, own]
    exact explained.quiet (.writing _ pool.state.rows unwritten (.refl _) (by rw [← makes, ← same]; rfl))
  | writing items base unwritten later makes =>
    rw [step, Pool.step_call here]
    simp only [IdentityWorld.handler]
    split
    next matching =>
      -- nobody wrote since the index was read, so the record is the one decided on
      have same : pool.state.rows.read (.user (calls c).uid) = base.read (.user (calls c).uid) := by
        rw [Versioned.read, later.row_of_version matching.symm, Versioned.read]
      have written : apply (calls c) (records pool.state.rows) =
          .ok (records (pool.state.rows.write (.user (calls c).uid) (items.mapValues Value.text))) := by
        rw [apply, records_write]
        show (match effect (calls c) (pool.state.rows.read (.user (calls c).uid)) with | .error _ => _ | .ok _ => _) = _
        rw [same, makes]
      constructor
      · intro c'
        by_cases mine : c' = c
        · subst mine
          simp only [Function.update_self]
          exact .landed (by simp) (.inl rfl)
        · simp only [Function.update_of_ne mine]
          exact (explained.going c').later (.write _ _ _) (by simp [mine])
      · rw [List.nodup_append]
        refine ⟨explained.once, by simp, ?_⟩
        rintro c' earlier c'' last rfl
        exact unwritten (List.mem_singleton.mp last ▸ earlier)
      · rw [applyAll, List.foldlM_append]
        show ((applyAll calls pool.state.committed map) >>= _) = _
        rw [explained.applied]
        show (apply (calls c) (records pool.state.rows) >>= pure) = _
        rw [written]
        rfl
      · exact explained.named.apply written
    next lost => exact explained.quiet (.raised .conflict unwritten)
  | landed written through =>
    obtain rfl | rfl := through
    · rw [step, Pool.step_call here]
      constructor
      · intro c'
        by_cases mine : c' = c
        · subst mine
          simp only [Function.update_self]
          exact .landed written (.inr rfl)
        · simp only [Function.update_of_ne mine]
          exact (explained.going c').later (.refl _) Iff.rfl
      · exact explained.once
      · exact explained.applied
      · exact explained.named
    · rw [step, Pool.step_finished (by rw [here]; trivial)]
      exact explained
  | raised error unwritten =>
    rw [step, Pool.step_finished (by rw [here]; trivial)]
    exact explained

theorem explained_run (schedule : List κ) (explained : Explained calls map pool)
    (along : Along step Allowed schedule pool) : Explained calls map (schedule.foldl step pool) :=
  along.keeps (fun _ _ allowed explained => explained_step explained allowed) explained

/-! ## One call after the other -/

/-- There is a record with something in it. -/
def Taken (map : Records) (uid : String) : Prop := ∃ entry rest, map uid = some (entry :: rest)

def Deleted (map : Records) (uid : String) : Prop :=
  ∃ items, map uid = some items ∧ items.get? "kind" = some (.plain "deleted")

theorem apply_cases {call : IdentityCall} {map map' : Records} (made : apply call map = .ok map') :
    ∃ items, effect call (map call.uid) = .ok items ∧
      map' = Function.update map call.uid (some (items.mapValues Value.text)) := by
  rw [apply] at made
  split at made
  next => cases made
  next items effect =>
    cases made
    exact ⟨items, effect, rfl⟩

theorem Taken.apply {call : IdentityCall} {map map' : Records} {uid : String} (taken : Taken map uid)
    (made : apply call map = .ok map') : Taken map' uid := by
  obtain ⟨items, effect, rfl⟩ := apply_cases made
  by_cases same : uid = call.uid
  · subst same
    rw [Taken, Function.update_self]
    obtain ⟨entry, rest, there⟩ := taken
    cases items with
    | nil =>
      -- an edit never writes an empty record
      cases call with
      | createLocal uid pwhash roles created =>
        rw [IdentityEdits.effect] at effect
        split at effect <;> cases effect
      | setRoles uid roles =>
        rw [IdentityEdits.effect] at effect
        split at effect <;> cases effect
      | delete uid => cases effect
    | cons first others => exact ⟨_, _, rfl⟩
  · rw [Taken, Function.update_of_ne same]
    exact taken

theorem taken_create {map map' : Records} {uid pwhash : String} {roles : List String} {created : Floating}
    (made : apply (.createLocal uid pwhash roles created) map = .ok map') : ¬Taken map uid ∧ Taken map' uid := by
  obtain ⟨items, made', rfl⟩ := apply_cases made
  rw [effect] at made'
  split at made'
  next => cases made'
  next => cases made'
  next user =>
    cases made'
    refine ⟨?_, ?_⟩
    · rintro ⟨entry, rest, there⟩
      have user' : IdentityProgram.userOf (map uid) = .ok none := user
      rw [there] at user'
      obtain ⟨u, -, same⟩ := map_eq_ok.mp user'
      cases same
    · exact ⟨_, _, Function.update_self ..⟩

theorem Deleted.apply {call : IdentityCall} {map map' : Records} {uid : String} (deleted : Deleted map uid)
    (made : apply call map = .ok map') : Deleted map' uid := by
  obtain ⟨items, made', rfl⟩ := apply_cases made
  obtain ⟨row, there, kind⟩ := deleted
  by_cases same : uid = call.uid
  · subst same
    refine ⟨_, Function.update_self .., ?_⟩
    rw [Dict.get?_mapValues]
    cases call with
    | createLocal uid pwhash roles created =>
      -- nobody creates a user whose record is there
      refine absurd ?_ (taken_create made).1
      cases row with
      | nil => cases kind
      | cons entry rest => exact ⟨entry, rest, there⟩
    | setRoles uid roles =>
      rw [effect] at made'
      split at made'
      next => cases made'
      next => cases made'
      next u user =>
        obtain ⟨row', there', parsed⟩ := userOf_ok user
        rw [there] at there'
        cases there'
        rw [User.fromItems] at parsed
        obtain ⟨id, -, parsed⟩ := bind_eq_ok.mp parsed
        obtain ⟨kind', here, parsed⟩ := bind_eq_ok.mp parsed
        obtain ⟨created, -, parsed⟩ := bind_eq_ok.mp parsed
        rw [Dict.item, kind] at here
        cases here
        cases parsed
        cases made'
        rfl
    | delete uid =>
      cases made'
      rfl
  · refine ⟨row, ?_, kind⟩
    rw [Function.update_of_ne same]
    exact there

theorem deleted_delete {map map' : Records} {uid : String} (made : apply (.delete uid) map = .ok map') :
    Deleted map' uid := by
  obtain ⟨items, made', rfl⟩ := apply_cases made
  cases made'
  exact ⟨_, Function.update_self .., rfl⟩

omit [DecidableEq κ] in
theorem applyAll_cons {calls : κ → IdentityCall} {c : κ} {rest : List κ} {map final : Records}
    (made : applyAll calls (c :: rest) map = .ok final) :
    ∃ map', apply (calls c) map = .ok map' ∧ applyAll calls rest map' = .ok final := by
  rw [applyAll, List.foldlM_cons] at made
  exact bind_eq_ok.mp made

omit [DecidableEq κ] in
theorem deleted_applyAll {calls : κ → IdentityCall} {order : List κ} {map final : Records} {uid : String}
    (made : applyAll calls order map = .ok final)
    (deletes : Deleted map uid ∨ ∃ c ∈ order, calls c = .delete uid) : Deleted final uid := by
  induction order generalizing map with
  | nil =>
    cases made
    obtain deleted | ⟨c, member, -⟩ := deletes
    · exact deleted
    · cases member
  | cons first rest ih =>
    obtain ⟨map', here, later⟩ := applyAll_cons made
    refine ih later ?_
    obtain deleted | ⟨c, member, call⟩ := deletes
    · exact .inl (deleted.apply here)
    · obtain rfl | inside := List.mem_cons.mp member
      · rw [call] at here
        exact .inl (deleted_delete here)
      · exact .inr ⟨c, inside, call⟩

/-- The call creates this user. -/
def Creates (call : IdentityCall) (uid : String) : Prop :=
  ∃ pwhash roles created, call = .createLocal uid pwhash roles created

omit [DecidableEq κ] in
theorem no_create_of_taken {calls : κ → IdentityCall} {order : List κ} {map final : Records} {uid : String}
    (taken : Taken map uid) (made : applyAll calls order map = .ok final) {c : κ} (member : c ∈ order) :
    ¬Creates (calls c) uid := by
  induction order generalizing map with
  | nil => cases member
  | cons first rest ih =>
    obtain ⟨map', here, later⟩ := applyAll_cons made
    obtain rfl | inside := List.mem_cons.mp member
    · rintro ⟨pwhash, roles, created, call⟩
      rw [call] at here
      exact (taken_create here).1 taken
    · exact ih (taken.apply here) later inside

omit [DecidableEq κ] in
theorem created_once {calls : κ → IdentityCall} {order : List κ} {map final : Records} {uid : String}
    (made : applyAll calls order map = .ok final) {c c' : κ} (member : c ∈ order) (member' : c' ∈ order)
    (creates : Creates (calls c) uid) (creates' : Creates (calls c') uid) : c = c' := by
  induction order generalizing map with
  | nil => cases member
  | cons first rest ih =>
    obtain ⟨map', here, later⟩ := applyAll_cons made
    have others : Creates (calls first) uid → ∀ other ∈ rest, ¬Creates (calls other) uid := by
      rintro ⟨pwhash, roles, created, call⟩ other inside
      rw [call] at here
      exact no_create_of_taken (taken_create here).2 later inside
    obtain rfl | inside := List.mem_cons.mp member
    · obtain rfl | inside' := List.mem_cons.mp member'
      · rfl
      · exact absurd creates' (others creates c' inside')
    · obtain rfl | inside' := List.mem_cons.mp member'
      · exact absurd creates (others creates' c inside)
      · exact ih later inside inside'

/-! ## Runs -/

omit [DecidableEq κ] in
theorem Going.landed_iff {call : IdentityCall} {world : IdentityWorld κ} {p : IdentityProgram Unit}
    (going : Going call c world p) : c ∈ world.committed ↔ Landed p := by
  cases going with
  | fresh unwritten =>
    refine ⟨fun written => absurd written unwritten, ?_⟩
    rw [program_eq]
    rintro (same | same) <;> cases same
  | rereading u row unwritten own makes =>
    refine ⟨fun written => absurd written unwritten, ?_⟩
    rw [putUser_eq]
    rintro (same | same) <;> cases same
  | writing items base unwritten later makes =>
    refine ⟨fun written => absurd written unwritten, ?_⟩
    rintro (same | same) <;> cases same
  | landed written through => exact ⟨fun _ => through, fun _ => written⟩
  | raised error unwritten =>
    refine ⟨fun written => absurd written unwritten, ?_⟩
    rintro (same | same) <;> cases same

/-- The records are the result of the calls that went through, one after the other: what is deleted
stays deleted, and a user is created once. -/
theorem no_identity_edit_is_lost (calls : κ → IdentityCall) (rows : IdentityRows) (named : Named (records rows))
    (schedule : List κ) (along : Along step Allowed schedule (begun calls rows)) :
    let final := schedule.foldl step (begun calls rows)
    (∃ order : List κ, order.Nodup ∧ (∀ c, c ∈ order ↔ Landed (final.procs c)) ∧
      applyAll calls order (records rows) = .ok (records final.state.rows)) ∧
      (∀ c uid, calls c = .delete uid → Landed (final.procs c) → Deleted (records final.state.rows) uid) ∧
      ∀ c c' uid, Creates (calls c) uid → Creates (calls c') uid → Landed (final.procs c) →
        Landed (final.procs c') → c = c' := by
  intro final
  have explained : Explained calls (records rows) final := explained_run schedule (explained_begun calls named) along
  have through : ∀ c, c ∈ final.state.committed ↔ Landed (final.procs c) := fun c => (explained.going c).landed_iff
  refine ⟨⟨_, explained.once, through, explained.applied⟩, fun c uid call landed => ?_, ?_⟩
  · exact deleted_applyAll explained.applied (.inr ⟨c, (through c).mpr landed, call⟩)
  · intro c c' uid creates creates' landed landed'
    exact created_once explained.applied ((through c).mpr landed) ((through c').mpr landed') creates creates'

/-- A user is created, given roles and deleted; another call creates the user, too. -/
def fourCalls : Fin 4 → IdentityCall
  | 0 => .createLocal "bob" "salt:hash" ["viewer"] (.finite 10)
  | 1 => .setRoles "bob" ["admin"]
  | 2 => .delete "bob"
  | 3 => .createLocal "bob" "salt:other" [] (.finite 11)

def noUsers : IdentityRows := .empty 1000

/-- One after the other; the creation that comes last raises. -/
theorem edits_one_after_another :
    let final := [0, 0, 0, 0, 1, 1, 1, 1, 2, 2, 2, 3].foldl step (begun fourCalls noUsers)
    (∃ order : List (Fin 4), order.Nodup ∧ (∀ c, c ∈ order ↔ Landed (final.procs c)) ∧
      applyAll fourCalls order (records noUsers) = .ok (records final.state.rows)) ∧
      (∀ c uid, fourCalls c = .delete uid → Landed (final.procs c) → Deleted (records final.state.rows) uid) ∧
      ∀ c c' uid, Creates (fourCalls c) uid → Creates (fourCalls c') uid → Landed (final.procs c) →
        Landed (final.procs c') → c = c' := by
  have named : Named (records noUsers) := by
    intro uid items u there
    cases there
  exact no_identity_edit_is_lost fourCalls noUsers named _ (by decide +kernel)

/-- The roles are set by a call that began before the user was deleted, and the user is back; both
creations return when each looks before the other writes. -/
theorem deleted_user_returns :
    let final := [0, 0, 0, 0, 1, 2, 2, 2, 1, 1, 1].foldl step (begun fourCalls noUsers)
    let twice := [0, 3, 0, 0, 0, 3, 3, 3].foldl step (begun fourCalls noUsers)
    ((final.procs 1).value?.isSome ∧ (final.procs 2).value?.isSome ∧
      ((records final.state.rows "bob").bind fun row => row.get? "kind") = some (.plain "local")) ∧
      (twice.procs 0).value?.isSome ∧ (twice.procs 3).value?.isSome := by
  decide +kernel

end EdgeVms.Verified.IdentityEdits
