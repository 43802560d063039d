import EdgeVms.Verified.Platform.Rules

/-! # The log of committed writes

`FileVariables` with a log of the writes that went through, in commit order.
The log is beside the world: no program sees it.
-/

namespace EdgeVms.Verified

open Process Python Platform

variable {ι M α β : Type}

/-- A write that went through: whose it was, what it replaced, and what it wrote. -/
structure Commit (ι : Type) where
  client : ι
  key : Key
  before : Option Items
  new : Dict Value

/-- A world, with the writes committed so far. -/
structure Logged (ι M : Type) where
  world : World ι M
  log : List (Commit ι)

namespace Logged

def tick (state : Logged ι M) : Logged ι M := ⟨state.world.tick, state.log⟩

/-- The state after a write of client `i` went through. -/
def commit (state : Logged ι M) (i : ι) (key : Key) (new : Dict Value) : Logged ι M :=
  ⟨{ state.world.tick with vars := state.world.vars.write key (stored new) },
    state.log ++ [⟨i, key, state.world.vars.read key, new⟩]⟩

def rows (state : Logged ι M) : Rows := state.world.vars

/-- The state after client `i` changed its memory. -/
def remember [DecidableEq ι] (state : Logged ι M) (i : ι) (change : M → M) : Logged ι M :=
  ⟨{ state.world.tick with memory := Function.update state.world.memory i (change (state.world.memory i)) }, state.log⟩

@[simp] theorem rows_tick (state : Logged ι M) : state.tick.rows = state.rows := rfl

@[simp] theorem log_tick (state : Logged ι M) : state.tick.log = state.log := rfl

@[simp] theorem rows_commit (state : Logged ι M) (i : ι) (key : Key) (new : Dict Value) :
    (state.commit i key new).rows = state.rows.write key (stored new) := rfl

@[simp] theorem log_commit (state : Logged ι M) (i : ι) (key : Key) (new : Dict Value) :
    (state.commit i key new).log = state.log ++ [⟨i, key, state.rows.read key, new⟩] := rfl

end Logged

/-! ## The log explains the rows -/

/-- The rows after a write. -/
def Commit.apply (map : Key → Option Items) (commit : Commit ι) : Key → Option Items :=
  Function.update map commit.key (some (stored commit.new))

/-- Every write replaces what the writes before it left. -/
def Chained : (Key → Option Items) → List (Commit ι) → Prop
  | _, [] => True
  | map, commit :: rest => commit.before = map commit.key ∧ Chained (commit.apply map) rest

theorem chained_append {map : Key → Option Items} {first rest : List (Commit ι)} :
    Chained map (first ++ rest) ↔ Chained map first ∧ Chained (first.foldl Commit.apply map) rest := by
  induction first generalizing map with
  | nil => exact ⟨fun chained => ⟨trivial, chained⟩, fun both => both.2⟩
  | cons commit first ih => rw [List.cons_append, Chained, Chained, ih, List.foldl_cons, and_assoc]

/-- The log after an answered request. -/
def noteCommit (i : ι) (rows : Rows) (log : List (Commit ι)) :
    (request : Request M) → request.Answer → List (Commit ι)
  | .put key new _, .ok _ => log ++ [⟨i, key, rows.read key, new⟩]
  | _, _ => log

variable [DecidableEq ι]

/-- The store of the clients, each with its own view, and the log. -/
def logged (view : ι → View) (i : ι) : Handler (interface M) (Logged ι M) := fun request state =>
  ((handler FileVariables (view i) i request state.world).1,
    ⟨(handler FileVariables (view i) i request state.world).2,
      noteCommit i state.world.vars state.log request (handler FileVariables (view i) i request state.world).1⟩)

/-- The postcondition of a result that is not an exception. -/
def Yields (post : α → Logged ι M → Prop) : Except Exn α → Logged ι M → Prop
  | .ok value, state => post value state
  | .error _, _ => True

/-- Safe over the logged store, with one rely for all phases. -/
def Guarded (view : ι → View) (i : ι) (rely guarantee : Logged ι M → Logged ι M → Prop)
    (post : α → Logged ι M → Prop) (p : Program M α) (state : Logged ι M) : Prop :=
  Safe (logged view i) (fun _ => rely) guarantee (Yields post) p state

omit [DecidableEq ι] in
theorem log_prefix_noteCommit (i : ι) (rows : Rows) (log : List (Commit ι)) (request : Request M)
    (answer : request.Answer) : log <+: noteCommit i rows log request answer := by
  unfold noteCommit
  split
  · exact List.prefix_append _ _
  · exact List.prefix_rfl

/-- The log only grows. -/
theorem log_prefix_exec {view : ι → View} (schedule : List ι)
    (pool : Pool (interface M) Phase Exn α (Logged ι M) ι) :
    pool.state.log <+: (Pool.exec (logged view) schedule pool).state.log := by
  induction schedule generalizing pool with
  | nil => exact List.prefix_rfl
  | cons i rest ih =>
    apply List.IsPrefix.trans _ (ih _)
    cases here : pool.procs i with
    | ret value | raise error =>
      have still : Pool.step (logged view) pool i = pool := Pool.step_finished (by rw [here]; trivial)
      simp only [still, List.prefix_rfl]
    | call label request next =>
      rw [Pool.step_call here]
      exact log_prefix_noteCommit i _ _ request _

/-- The rows are what the log makes of the rows at the start. -/
structure Explains (map : Key → Option Items) (state : Logged ι M) : Prop where
  chained : Chained map state.log
  rows : state.rows.read = state.log.foldl Commit.apply map

theorem Explains.handle {map : Key → Option Items} {state : Logged ι M} (explains : Explains map state)
    (view : ι → View) (i : ι) (request : Request M) : Explains map (logged view i request state).2 := by
  cases request with
  | put key items cas =>
    obtain ⟨error, answered⟩ | ⟨index, allowed, answered⟩ :=
      FileVariables.honest.put_cases (view i) state.world.vars key items cas
    · simp only [logged, handler, answered, noteCommit]
      exact ⟨explains.chained, explains.rows⟩
    · simp only [logged, handler, answered, noteCommit]
      have now : state.world.vars.read = state.log.foldl Commit.apply map := explains.rows
      constructor
      · rw [chained_append]
        refine ⟨explains.chained, ?_, trivial⟩
        rw [← now]
      · show (state.world.vars.write key (stored items)).read = _
        rw [Versioned.read_write, List.foldl_append, ← now]
        rfl
  | _ => exact ⟨explains.chained, explains.rows⟩

theorem explains_exec {map : Key → Option Items} {view : ι → View} (schedule : List ι)
    {pool : Pool (interface M) Phase Exn α (Logged ι M) ι} (explains : Explains map pool.state) :
    Explains map (Pool.exec (logged view) schedule pool).state := by
  induction schedule generalizing pool with
  | nil => exact explains
  | cons i rest ih =>
    apply ih
    cases here : pool.procs i with
    | ret value | raise error =>
      rw [Pool.step_finished (by rw [here]; trivial)]
      exact explains
    | call label request next =>
      rw [Pool.step_call here]
      exact explains.handle view i request

namespace Guarded

variable {view : ι → View} {i : ι} {rely guarantee : Logged ι M → Logged ι M → Prop}
  {post : α → Logged ι M → Prop} {state : Logged ι M}

theorem ret {value : α} (holds : post value state) :
    Guarded view i rely guarantee post (Proc.ret value) state := holds

theorem raise {error : Exn} : Guarded view i rely guarantee post (Proc.raise error : Program M α) state :=
  trivial

theorem mono {weak : α → Logged ι M → Prop} {p : Program M α}
    (implies : ∀ value state, post value state → weak value state)
    (guarded : Guarded view i rely guarantee post p state) : Guarded view i rely guarantee weak p state := by
  apply Safe.mono _ guarded
  intro result state' ends
  cases result with
  | error error => trivial
  | ok value => exact implies value state' ends

theorem bind {middle : α → Logged ι M → Prop} {last : β → Logged ι M → Prop} {p : Program M α}
    {f : α → Program M β} (first : Guarded view i rely guarantee middle p state)
    (later : ∀ value state', middle value state' → Guarded view i rely guarantee last (f value) state') :
    Guarded view i rely guarantee last (p >>= f) state := by
  apply Safe.bind
  apply Safe.mono _ first
  intro result state' ends
  cases result with
  | error error => trivial
  | ok value => exact later value state' ends

/-- `bind`, with the fact that the two parts share. -/
theorem cut (middle : α → Logged ι M → Prop) {last : β → Logged ι M → Prop} {p : Program M α}
    {f : α → Program M β} (first : Guarded view i rely guarantee middle p state)
    (later : ∀ value state', middle value state' → Guarded view i rely guarantee last (f value) state') :
    Guarded view i rely guarantee last (p >>= f) state := bind first later

theorem value_bind {last : β → Logged ι M → Prop} {result : Except Error α} {f : α → Program M β}
    (later : ∀ value, result = .ok value → Guarded view i rely guarantee last (f value) state) :
    Guarded view i rely guarantee last (Program.value result >>= f) state := by
  cases result with
  | error error => trivial
  | ok value => exact later value rfl

theorem ofExcept_bind {last : β → Logged ι M → Prop} {result : Except Exn α} {f : α → Program M β}
    (later : ∀ value, result = .ok value → Guarded view i rely guarantee last (f value) state) :
    Guarded view i rely guarantee last (Proc.ofExcept result >>= f) state := by
  cases result with
  | error error => trivial
  | ok value => exact later value rfl

/-- `try p except: pass` -/
theorem caught {p : Program M Unit} (guarded : Guarded view i rely guarantee (fun _ _ => True) p state) :
    Guarded view i rely guarantee (fun _ _ => True) (tryCatch p fun _ => return ()) state := by
  apply Safe.tryCatch
  apply Safe.mono _ guarded
  intro result state' ends
  cases result with
  | error error => trivial
  | ok value => trivial

/-- A change of the client's own memory. -/
theorem remember {change : M → M} {post : Unit → Logged ι M → Prop}
    (next : ∀ state', rely state state' → guarantee state' (state'.remember i change) ∧
      post () (state'.remember i change)) :
    Guarded view i rely guarantee post (Program.remember change) state :=
  fun state' moved => next state' moved

section Requests

variable (quiet : ∀ state : Logged ι M, guarantee state state.tick)
include quiet

theorem get {key : Key} {f : Option Items × Nat → Program M α}
    (next : ∀ state', rely state state' →
      Guarded view i rely guarantee post (f (state'.rows.read key, state'.rows.version key)) state'.tick) :
    Guarded view i rely guarantee post (Program.get key >>= f) state := by
  intro state' moved
  refine ⟨quiet state', ?_⟩
  show Safe _ _ _ _ ((Proc.ofExcept (FileVariables.get state'.world.vars key)).bind f) state'.tick
  cases answered : FileVariables.get state'.world.vars key with
  | error error => trivial
  | ok answer =>
    obtain ⟨items, index⟩ := answer
    obtain ⟨rfl, rfl⟩ := FileVariables.honest.get_ok answered
    exact next state' moved

theorem wall {f : ℚ → Program M α}
    (next : ∀ state', rely state state' →
      Guarded view i rely guarantee post (f state'.world.now.wall) state'.tick) :
    Guarded view i rely guarantee post (Program.wall >>= f) state :=
  fun state' moved => ⟨quiet state', next state' moved⟩

theorem clock {f : ℚ → Program M α}
    (next : ∀ state' now, rely state state' → Guarded view i rely guarantee post (f now) state'.tick) :
    Guarded view i rely guarantee post (Program.clock >>= f) state :=
  fun state' moved => ⟨quiet state', next state' _ moved⟩

theorem list {above : Key} {f : List Key → Program M α}
    (next : ∀ state' keys, rely state state' → Guarded view i rely guarantee post (f keys) state'.tick) :
    Guarded view i rely guarantee post (Program.list above >>= f) state :=
  fun state' moved => ⟨quiet state', next state' _ moved⟩

theorem recollect {f : M → Program M α}
    (next : ∀ state', rely state state' →
      Guarded view i rely guarantee post (f (state'.world.memory i)) state'.tick) :
    Guarded view i rely guarantee post (Program.recollect >>= f) state :=
  fun state' moved => ⟨quiet state', next state' moved⟩

/-- A check-and-set whose exceptions are handled. -/
theorem tryPut {key : Key} {items : Dict Value} {cas : Option Nat} {result : Nat → α}
    {handle : Exn → Program M α}
    (wins : ∀ state' index, rely state state' → state'.rows.Matches key cas →
      guarantee state' (state'.commit i key items) ∧ post (result index) (state'.commit i key items))
    (loses : ∀ state' error, rely state state' → Guarded view i rely guarantee post (handle error) state'.tick) :
    Guarded view i rely guarantee post
      (tryCatch (do let index ← Program.put key items cas; return result index) handle) state := by
  intro state' moved
  obtain ⟨error, answered⟩ | ⟨index, allowed, answered⟩ :=
    FileVariables.honest.put_cases (view i) state'.world.vars key items cas
  · simp only [logged, handler, answered, noteCommit]
    exact ⟨quiet state', loses state' error moved⟩
  · simp only [logged, handler, answered, noteCommit]
    exact wins state' index moved allowed

theorem readsOnly {p : Program M α} (reads : ReadsOnly p) :
    Guarded view i rely guarantee (fun _ _ => True) p state := by
  induction p generalizing state with
  | ret value | raise error => trivial
  | call label request next ih =>
    intro state' moved
    cases request with
    | put key items cas => exact reads.elim
    | remember change => exact reads.elim
    | _ => exact ⟨quiet state', ih _ (reads _)⟩

end Requests

end Guarded

end EdgeVms.Verified
