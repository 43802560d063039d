import EdgeVms.Verified.Platform.Rules

/-! # No update is lost

Any number of `Controller.write` calls and deletions over one `FileVariables`.
The log notes every answered read, every committed write and every deletion, in
the order in which they happen.  `History` is the store as it should be: a map
on which the entries act one after the other, each at once.
-/

namespace EdgeVms.Verified

open Process Python Platform

variable {ι M α : Type} [DecidableEq ι]

/-- One call of `write`, with what its caller makes of what was written. -/
structure Update (α : Type) where
  path : Key
  mutate : Dict Value → Except Exn (Option (Dict Value))
  finish : Dict Value → Except Exn α

namespace Update

def rounds (update : Update α) (left : Nat) : Program M (Dict Value) :=
  Controller.writeRounds update.path (fun items => Proc.ofExcept (update.mutate items)) 10 left

def program (update : Update α) : Program M α := do
  let written ← Controller.write update.path fun items => Proc.ofExcept (update.mutate items)
  Proc.ofExcept (update.finish written)

/-- A result of the built-in exceptions. -/
def python {β : Type} (result : Except Error β) : Except Exn β := result.mapError .python

def assignAdd (sub : Subsystem) (worker unit : String) : Update Assignment where
  path := sub.assignment worker
  mutate items := do
    let a ← python (Assignment.fromItems worker items)
    if unit ∈ a.units then return none
    return some (Assignment.toItems ⟨worker, Controller.withUnit a.units unit, a.rev + 1⟩)
  finish written := python (Assignment.fromItems worker written)

def assignRemove (sub : Subsystem) (worker unit : String) : Update Assignment where
  path := sub.assignment worker
  mutate items := do
    let a ← python (Assignment.fromItems worker items)
    if unit ∉ a.units then return none
    return some (Assignment.toItems ⟨worker, a.units.filter (· ≠ unit), a.rev + 1⟩)
  finish written := python (Assignment.fromItems worker written)

theorem ofExcept_python {β : Type} (result : Except Error β) :
    (Proc.ofExcept (python result) : Program M β) = Program.value result := by
  cases result <;> rfl

theorem ofExcept_bind {β γ : Type} (result : Except Exn β) (f : β → Except Exn γ) :
    (Proc.ofExcept (result >>= f) : Program M γ) = Proc.ofExcept result >>= fun value => Proc.ofExcept (f value) := by
  cases result <;> rfl

theorem ofExcept_ite {β : Type} (condition : Prop) [Decidable condition] (yes no : Except Exn β) :
    (Proc.ofExcept (if condition then yes else no) : Program M β) =
      if condition then Proc.ofExcept yes else Proc.ofExcept no := by
  split <;> rfl

/-- The updates are the controller's calls. -/
theorem program_assignAdd (sub : Subsystem) (worker unit : String) :
    (assignAdd sub worker unit).program = (Controller.assignAdd sub worker unit : Program M Assignment) := by
  simp only [program, assignAdd, Controller.assignAdd, ofExcept_bind, ofExcept_python, ofExcept_ite]
  rfl

theorem program_assignRemove (sub : Subsystem) (worker unit : String) :
    (assignRemove sub worker unit).program = (Controller.assignRemove sub worker unit : Program M Assignment) := by
  simp only [program, assignRemove, Controller.assignRemove, ofExcept_bind, ofExcept_python, ofExcept_ite]
  rfl

end Update

/-! ## The log and the map -/

/-- What is noted of a step. -/
inductive Entry (ι : Type) where
  | read (i : ι) (value : Option Items)
  | wrote (i : ι)
  | deleted (key : Key)
  deriving DecidableEq

/-- The store as it should be: each entry acts at once. -/
inductive Entry.Applies (updates : ι → Update α) :
    Entry ι → (Key → Option Items) → (Key → Option Items) → Prop
  | read {i map} : Applies updates (.read i (map (updates i).path)) map map
  | wrote {i map new} (made : (updates i).mutate (rowValues (map (updates i).path)) = .ok (some new)) :
      Applies updates (.wrote i) map (Function.update map (updates i).path (some (stored new)))
  | deleted {key map} : Applies updates (.deleted key) map (Function.update map key none)

/-- The entries of a log, one after the other. -/
inductive History (updates : ι → Update α) : List (Entry ι) → (Key → Option Items) → (Key → Option Items) → Prop
  | nil {map} : History updates [] map map
  | snoc {log entry map map' map''} (earlier : History updates log map map')
      (applies : Entry.Applies updates entry map' map'') : History updates (log ++ [entry]) map map''

/-- The clients and the store, with the log of what happened. -/
structure Observed (M α ι : Type) where
  pool : Pool (interface M) Phase Exn α (World ι M) ι
  log : List (Entry ι)

inductive StoreEvent (ι : Type) where
  | serve (i : ι)
  | delete (key : Key) (cas : Option Nat)

/-- What is noted of a request of client `i`. -/
def noted (view : View) (rows : Rows) (i : ι) : Request M → List (Entry ι)
  | .get key =>
    match FileVariables.get rows key with
    | .ok (items, _) => [.read i items]
    | .error _ => []
  | .put key items cas =>
    match (FileVariables.put view rows key items cas).1 with
    | .ok _ => [.wrote i]
    | .error _ => []
  | _ => []

/-- What is noted of the next step of a program. -/
def notedOf (view : View) (rows : Rows) (i : ι) : Program M α → List (Entry ι)
  | .call _ request _ => noted view rows i request
  | _ => []

namespace Observed

def serve (view : ι → View) (seen : Observed M α ι) (i : ι) : Observed M α ι where
  pool := Pool.step (fun i => handler FileVariables (view i) i) seen.pool i
  log := seen.log ++ notedOf (view i) seen.pool.state.vars i (seen.pool.procs i)

def step (view : ι → View) (seen : Observed M α ι) : StoreEvent ι → Observed M α ι
  | .serve i => seen.serve view i
  | .delete key cas =>
    match FileVariables.delete seen.pool.state.vars key cas with
    | (.ok (), rows) =>
      ⟨⟨seen.pool.procs, { seen.pool.state with vars := rows }⟩, seen.log ++ [.deleted key]⟩
    | (.error _, _) => seen

/-- Every client is about to make its call. -/
def start (updates : ι → Update α) (world : World ι M) : Observed M α ι :=
  ⟨⟨fun i => (updates i).program, world⟩, []⟩

end Observed

/-! ## Where a client stands -/

variable {updates : ι → Update α} {view : ι → View} {seen : Observed M α ι}

/-- The rest of a round after its read. -/
def Update.onRead (update : Update α) (left : Nat) (found : Option Items × Nat) : Program M (Dict Value) := do
  match ← Proc.ofExcept (update.mutate (rowValues found.1)) with
  | none => return rowValues found.1
  | some new => Controller.attempt update.path new found.2 (update.rounds left)

/-- The rest of a call whose read found `index` and whose `mutate` made `new`. -/
def Update.writing (update : Update α) (new : Dict Value) (index left : Nat) : Program M α := do
  let written ← Controller.attempt update.path new index (update.rounds left)
  Proc.ofExcept (update.finish written)

/-- The rest of a round after its check-and-set. -/
def Update.onPut (update : Update α) (new : Dict Value) (left : Nat) (answer : Except Exn Nat) :
    Program M (Dict Value) :=
  tryCatch (do let _ ← Proc.ofExcept answer; return new) fun error => match error with
    | .conflict .vmsplatform _ => update.rounds left
    | error => throw error

/-- A client of `update`, over these rows and with this log. -/
inductive Stage (update : Update α) (i : ι) (log : List (Entry ι)) (rows : Rows) : Program M α → Prop
  | reading (left : Nat) (unwritten : .wrote i ∉ log) :
      Stage update i log rows (update.rounds left >>= fun written => Proc.ofExcept (update.finish written))
  | writing (left : Nat) {base : Rows} {new : Dict Value} (later : base.Later rows)
      (made : update.mutate (rowValues (base.read update.path)) = .ok (some new)) (unwritten : .wrote i ∉ log) :
      Stage update i log rows (update.writing new (base.version update.path) left)
  | written {p : Program M α} (finished : p.Finished) (once : log.count (.wrote i) = 1) :
      Stage update i log rows p
  | unchanged {p : Program M α} {value : Option Items} (finished : p.Finished) (unwritten : .wrote i ∉ log)
      (read : .read i value ∈ log) (asks : update.mutate (rowValues value) = .ok none) :
      Stage update i log rows p
  | failed {error : Exn} (unwritten : .wrote i ∉ log) : Stage update i log rows (Proc.raise error)

theorem finished_ofExcept (result : Except Exn α) : (Proc.ofExcept result : Program M α).Finished := by
  cases result <;> trivial

omit [DecidableEq ι] in
theorem notedOf_finished (view : View) (rows : Rows) (i : ι) {p : Program M α} (finished : p.Finished) :
    notedOf view rows i p = [] := by
  cases p with
  | ret value | raise error => rfl
  | call label request next => exact finished.elim

namespace Stage

variable {update : Update α} {i : ι} {log : List (Entry ι)} {rows rows' : Rows} {p : Program M α}

/-- A step of somebody else leaves the client where it is. -/
theorem elsewhere {entries : List (Entry ι)} (others : .wrote i ∉ entries) (later : rows.Later rows')
    (stage : Stage update i log rows p) : Stage update i (log ++ entries) rows' p := by
  have still (unwritten : .wrote i ∉ log) : .wrote i ∉ log ++ entries := by
    simp [unwritten, others]
  cases stage with
  | reading left unwritten => exact .reading left (still unwritten)
  | writing left before made unwritten => exact .writing left (before.trans later) made (still unwritten)
  | written finished once =>
    apply written finished
    rw [List.count_append, once, List.count_eq_zero.mpr others]
  | unchanged finished unwritten read asks =>
    exact .unchanged finished (still unwritten) (List.mem_append_left _ read) asks
  | failed unwritten => exact .failed (still unwritten)

/-- The answer to a read: done, failed, or about to write over what was read. -/
theorem onRead (left : Nat) (unwritten : .wrote i ∉ log) :
    Stage update i (log ++ [.read i (rows.read update.path)]) rows
      ((update.onRead left (rows.read update.path, rows.version update.path) : Program M _) >>=
        fun written => Proc.ofExcept (update.finish written)) := by
  have unwritten' : .wrote i ∉ log ++ [.read i (rows.read update.path)] := by simp [unwritten]
  unfold Update.onRead
  cases made : update.mutate (rowValues (rows.read update.path)) with
  | error error => exact .failed unwritten'
  | ok new =>
    cases new with
    | none =>
      have read : Entry.read i (rows.read update.path) ∈ log ++ [.read i (rows.read update.path)] := by simp
      exact .unchanged (finished_ofExcept _) unwritten' read made
    | some new => exact .writing left (.refl rows) made unwritten'

/-- What one step of a client leaves behind. -/
structure Stepped (updates : ι → Update α) (i : ι) (log entries : List (Entry ι)) (rows rows' : Rows)
    (p : Program M α) : Prop where
  later : rows.Later rows'
  stage : Stage (updates i) i (log ++ entries) rows' p
  own : ∀ j, j ≠ i → .wrote j ∉ entries
  history : ∀ {map}, History updates log map rows.read → History updates (log ++ entries) map rows'.read

theorem Stepped.quiet {updates : ι → Update α} (stage : Stage (updates i) i log rows p) :
    Stepped updates i log [] rows rows p where
  later := .refl rows
  stage := by rwa [List.append_nil]
  own _ _ := List.not_mem_nil
  history earlier := by rwa [List.append_nil]

/-- The step lemma: a read or a failure changes nothing, and a write that its version allows replaces
the row that was read. -/
theorem stepped {updates : ι → Update α} (view : View) (world : World ι M)
    (stage : Stage (updates i) i log world.vars p) :
    Stepped updates i log (notedOf view world.vars i p) world.vars
      (Proc.advance (handler FileVariables view i) (p, world)).2.vars
      (Proc.advance (handler FileVariables view i) (p, world)).1 := by
  cases stage with
  | written finished once =>
    rw [notedOf_finished _ _ _ finished, Proc.advance_finished _ finished]
    exact .quiet (.written finished once)
  | unchanged finished unwritten read asks =>
    rw [notedOf_finished _ _ _ finished, Proc.advance_finished _ finished]
    exact .quiet (.unchanged finished unwritten read asks)
  | failed unwritten => exact .quiet (.failed unwritten)
  | reading left unwritten =>
    cases left with
    | zero => exact .quiet (.failed unwritten)
    | succ left =>
      have noted_eq : notedOf view world.vars i ((updates i).rounds (left + 1) >>= fun written =>
          (Proc.ofExcept ((updates i).finish written) : Program M α)) =
          noted (M := M) view world.vars i (.get (updates i).path) := rfl
      have next_eq : Proc.advance (handler FileVariables view i)
          ((updates i).rounds (left + 1) >>= fun written =>
            (Proc.ofExcept ((updates i).finish written) : Program M α), world) =
          ((Proc.ofExcept (FileVariables.get world.vars (updates i).path) >>= (updates i).onRead left) >>=
            fun written => Proc.ofExcept ((updates i).finish written), world.tick) := rfl
      rw [noted_eq, next_eq, noted]
      cases answer : FileVariables.get world.vars (updates i).path with
      | error error => exact .quiet (.failed unwritten)
      | ok found =>
        obtain ⟨items, index⟩ := found
        obtain ⟨rfl, rfl⟩ := FileVariables.honest.get_ok answer
        exact
          { later := .refl world.vars
            stage := .onRead left unwritten
            own := by simp
            history := fun earlier => .snoc earlier .read }
  | @writing left base new later made unwritten =>
    have noted_eq : notedOf view world.vars i
        ((updates i).writing (M := M) new (base.version (updates i).path) left) =
        noted (M := M) view world.vars i (.put (updates i).path new (some (base.version (updates i).path))) := rfl
    have next_eq : Proc.advance (handler FileVariables view i)
        ((updates i).writing new (base.version (updates i).path) left, world) =
        ((updates i).onPut new left (FileVariables.put view world.vars (updates i).path new
            (some (base.version (updates i).path))).1 >>=
              fun written => Proc.ofExcept ((updates i).finish written),
          { world.tick with vars := (FileVariables.put view world.vars (updates i).path new
              (some (base.version (updates i).path))).2 }) := rfl
    rw [noted_eq, next_eq, noted]
    have cases_put := FileVariables.honest.put_cases view world.vars (updates i).path new
      (some (base.version (updates i).path))
    simp only [FileVariables] at cases_put
    obtain ⟨error, answer⟩ | ⟨index, allowed, answer⟩ := cases_put
    · rw [answer]
      have failed : ∀ error, Stepped updates i log [] world.vars world.vars
          (Proc.raise error : Program M α) := fun error => .quiet (.failed unwritten)
      cases error with
      | conflict package message =>
        cases package with
        -- somebody wrote in between: read again
        | vmsplatform => exact .quiet (.reading left unwritten)
        | cluster => exact failed _
      | python error => exact failed _
      | forbidden package message => exact failed _
      | refused message => exact failed _
    · rw [answer]
      have same : world.vars.read (updates i).path = base.read (updates i).path :=
        later.read_of_matches allowed
      have once : (log ++ [Entry.wrote i]).count (.wrote i) = 1 := by
        simp [List.count_eq_zero.mpr unwritten]
      exact
        { later := .write world.vars _ _
          stage := .written (finished_ofExcept _) once
          own := fun j other => by simp [other]
          history := fun earlier => by
            rw [Versioned.read_write]
            exact .snoc earlier (.wrote (by rw [same]; exact made)) }

theorem at_most_once (stage : Stage update i log rows p) : log.count (.wrote i) ≤ 1 := by
  cases stage with
  | written finished once => exact once.le
  | reading left unwritten | writing left later made unwritten | unchanged finished unwritten read asks
    | failed unwritten =>
    rw [List.count_eq_zero.mpr unwritten]
    exact Nat.zero_le 1

/-- A client that returned was written, or read a value that it had nothing to change about. -/
theorem returned {result : α} (stage : Stage update i log rows (Proc.ret result : Program M α)) :
    log.count (.wrote i) = 1 ∨
      .wrote i ∉ log ∧ ∃ value, .read i value ∈ log ∧ update.mutate (rowValues value) = .ok none := by
  generalize here : (Proc.ret result : Program M α) = p at stage
  cases stage with
  | written finished once => exact .inl once
  | unchanged finished unwritten read asks => exact .inr ⟨unwritten, _, read, asks⟩
  -- the other stages make another request, or have raised
  | reading left unwritten => cases left <;> cases here
  | writing left later made unwritten => cases here
  | failed unwritten => cases here

end Stage

/-! ## Runs -/

/-- Every client is at one of its stages, and the log explains the rows. -/
structure Explained (updates : ι → Update α) (map : Key → Option Items) (seen : Observed M α ι) : Prop where
  stage : ∀ i, Stage (updates i) i seen.log seen.pool.state.vars (seen.pool.procs i)
  history : History updates seen.log map seen.pool.state.vars.read

namespace Explained

variable {map : Key → Option Items}

theorem start (updates : ι → Update α) (world : World ι M) :
    Explained updates world.vars.read (Observed.start updates world) where
  stage _ := .reading 10 List.not_mem_nil
  history := .nil

theorem serve (explained : Explained updates map seen) (i : ι) :
    Explained updates map (seen.serve view i) := by
  have stepped := (explained.stage i).stepped (view i) seen.pool.state
  unfold Observed.serve
  rw [Pool.step_eq_advance]
  constructor
  · intro j
    by_cases same : j = i
    · subst same
      simp only [Function.update_self]
      exact stepped.stage
    · simp only [Function.update_of_ne same]
      exact (explained.stage j).elsewhere (stepped.own j same) stepped.later
  · exact stepped.history explained.history

theorem delete (explained : Explained updates map seen) (key : Key) (cas : Option Nat) :
    Explained updates map (seen.step view (.delete key cas)) := by
  unfold Observed.step
  obtain ⟨error, answer⟩ | answer := FileVariables.delete_cases seen.pool.state.vars key cas
  · simp only [answer]
    exact explained
  · simp only [answer]
    constructor
    · intro i
      exact (explained.stage i).elsewhere (by simp) (.remove _ key)
    · show History updates _ map (seen.pool.state.vars.remove key).read
      rw [Versioned.read_remove]
      exact .snoc explained.history .deleted

theorem run (events : List (StoreEvent ι)) (explained : Explained updates map seen) :
    Explained updates map (events.foldl (Observed.step view) seen) := by
  induction events generalizing seen with
  | nil => exact explained
  | cons event rest ih =>
    cases event with
    | serve i => exact ih (explained.serve i)
    | delete key cas => exact ih (explained.delete key cas)

end Explained

/-- The store after any interleaving is the sequential application, in commit order, of the changes
that were written and of the deletions; no call is applied twice, and a call that returned was
applied, or read a value that it had nothing to change about. -/
theorem no_update_is_lost (view : ι → View) (updates : ι → Update α) (world : World ι M)
    (events : List (StoreEvent ι)) :
    let final := events.foldl (Observed.step view) (Observed.start updates world)
    History updates final.log world.vars.read final.pool.state.vars.read ∧
      (∀ i, final.log.count (.wrote i) ≤ 1) ∧
      ∀ i result, final.pool.procs i = .ret result →
        final.log.count (.wrote i) = 1 ∨
          .wrote i ∉ final.log ∧
            ∃ value, .read i value ∈ final.log ∧ (updates i).mutate (rowValues value) = .ok none := by
  intro final
  have explained : Explained updates world.vars.read final := (Explained.start updates world).run events
  refine ⟨explained.history, fun i => ?_, fun i result returned => ?_⟩
  · exact (explained.stage i).at_most_once
  · have stage := explained.stage i
    rw [returned] at stage
    exact stage.returned

end EdgeVms.Verified
