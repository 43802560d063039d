import EdgeVms.Cluster.FakeVariables
import EdgeVms.Cluster.RaftVariables
import EdgeVms.Platform.Contract
import EdgeVms.Process.Escape

/-! # The platform over the store of a cluster

The programs of the platform run over either store.  They handle the conflicts of the one they
came with; those of the other are classes of their own, and escape.
-/

namespace EdgeVms.Verified.StorePort

open Process Python EdgeVms.Platform
open EdgeVms.Cluster (RaftVariables FakeVariables FakeView FakeError)
open Proc (LetsThrough)

theorem honest : Honest RaftVariables where
  get_ok := by
    intro rows key items index answered
    cases answered
    exact ⟨rfl, rfl⟩
  put_ok := by
    intro view rows key items cas index rows' answered
    simp only [RaftVariables, RaftVariables.put] at answered
    split at answered
    · cases answered
    · split at answered
      next expected =>
        split at answered
        · cases answered
        next same =>
          cases answered
          exact ⟨by simpa [Versioned.Matches] using same, rfl⟩
      next =>
        cases answered
        exact ⟨by simp [Versioned.Matches], rfl⟩
  put_error := by
    intro view rows key items cas error rows' answered
    simp only [RaftVariables, RaftVariables.put] at answered
    repeat' split at answered
    all_goals cases answered
    all_goals rfl
  list_eq := rfl

/-! ## What raft answers is what the store of the tests answers -/

/-- A path that is taken apart into these segments. -/
def Named (key : Key) : Prop := key ≠ [] ∧ ∀ part ∈ key, '/' ∉ part.toList

theorem path_inj {key key' : Key} (named : Named key) (named' : Named key') (same : key.path = key'.path) : key = key' := by
  rw [← split_join named.1 named.2, ← split_join named'.1 named'.2]
  exact congrArg (split '/') same

/-- `FakeVariables` has these rows, and hands out the next numbers of the log to its one identity. -/
structure Shows (rows : Rows) (store : FakeVariables) (identity : FakeView) : Prop where
  holds : ∀ key, Named key → store.items key.path = rows.row key
  counter : identity.raftIndex = rows.index
  alone : store.views = [identity]

def told : FakeError → Exn
  | .forbidden message => .forbidden .cluster message
  | .conflict message => .conflict .cluster message

variable {rows : Rows} {store : FakeVariables} {identity : FakeView} {key : Key}

theorem Shows.get (shown : Shows rows store identity) (named : Named key) :
    store.get key.path = (rows.read key, rows.version key) := by
  rw [FakeVariables.get, shown.holds key named, Versioned.read, Versioned.version]
  cases rows.row key <;> rfl

theorem Shows.commit (shown : Shows rows store identity) (named : Named key) (items : Items) :
    Shows (rows.write key items) (store.commit 0 identity key.path (some (items, identity.raftIndex + 1)))
      { identity with raftIndex := identity.raftIndex + 1 } where
  holds other named' := by
    show Function.update store.items key.path _ other.path = Function.update rows.row key _ other
    by_cases same : other = key
    · rw [same, Function.update_self, Function.update_self, shown.counter]
    · rw [Function.update_of_ne same, Function.update_of_ne fun same' => same (path_inj named' named same')]
      exact shown.holds other named'
  counter := congrArg (· + 1) shown.counter
  alone := by
    show store.views.set 0 _ = _
    rw [shown.alone]
    rfl

/-- A `put` of the one identity. -/
theorem Shows.put (shown : Shows rows store identity) (named : Named key) (items : Dict Value) (cas : Option Nat) :
    (RaftVariables.put ⟨identity.writer, store.acl⟩ rows key items cas).1 =
        (store.put 0 identity key.path items cas).1.mapError told ∧
      ∃ identity', Shows (RaftVariables.put ⟨identity.writer, store.acl⟩ rows key items cas).2
        (store.put 0 identity key.path items cas).2 identity' := by
  have version : (store.get key.path).2 = rows.version key := by rw [shown.get named]
  have written := shown.commit named (stored items)
  have counted : (.ok (rows.index + 1) : Except Exn Nat) = Except.mapError told (.ok (identity.raftIndex + 1)) := by
    rw [shown.counter]
    rfl
  unfold RaftVariables.put FakeVariables.put FakeVariables.forbids
  cases View.forbids ⟨identity.writer, store.acl⟩ key.path with
  | some message => exact ⟨rfl, identity, shown⟩
  | none =>
    cases cas with
    | none => exact ⟨counted, _, written⟩
    | some expected =>
      by_cases stands : expected = rows.version key
      · subst stands
        have accepts : store.refuses key.path (some (rows.version key)) = none := by
          simp [FakeVariables.refuses, version]
        simp only [accepts, ne_eq, not_true_eq_false, if_false]
        exact ⟨counted, _, written⟩
      · have refuses : store.refuses key.path (some expected) = some expected := by
          simp [FakeVariables.refuses, version, stands]
        simp only [refuses, stands, ne_eq, not_false_eq_true, if_true]
        refine ⟨?_, identity, shown⟩
        rw [FakeVariables.conflict, version]
        rfl

/-! ## What escapes -/

variable {M ι : Type}

/-- The exception that a request of the store is answered with. -/
def carries : (request : Request M) → request.Answer → Option Exn
  | .get _, .error error => some error
  | .put _ _ _, .error error => some error
  | _, _ => none

theorem carries_get {key : Key} {answer : Except Exn (Option Items × Nat)} {error : Exn} :
    carries (.get key : Request M) answer = some error ↔ answer = .error error := by
  cases answer <;> simp [carries]

theorem carries_put {key : Key} {items : Dict Value} {cas : Option Nat} {answer : Except Exn Nat} {error : Exn} :
    carries (.put key items cas : Request M) answer = some error ↔ answer = .error error := by
  cases answer <;> simp [carries]

/-- The conflict of the cluster's store. -/
def Foreign (error : Exn) : Prop := ∃ message, error = .conflict .cluster message

/-- The conflict that the platform came with. -/
def Own (error : Exn) : Prop := ∃ message, error = .conflict .vmsplatform message

/-- A store that has no conflicts where nothing is written. -/
def QuietReads (store : Variables) : Prop := ∀ {rows key error}, store.get rows key = .error error → ¬Own error

def Spares {α : Type} (result : Except Exn α) (_ : World ι M) : Prop := ∀ error, Own error → result ≠ .error error

/-- The program handles the conflicts of its own store, and neither handles nor raises the other. -/
structure Ports {α : Type} (p : Program M α) : Prop where
  lets : p.LetsThrough (carries (M := M)) Foreign
  handles : ∀ {ι : Type} [DecidableEq ι] {store : Variables}, QuietReads store → ∀ (view : View) (i : ι) (world : World ι M),
    Safe (handler store view i) (fun _ _ _ => True) (fun _ _ => True) Spares p world

variable {α β : Type}

theorem own_or_other {error : Exn} (other : ∀ message, error ≠ .conflict .vmsplatform message) : ¬Own error := by
  rintro ⟨message, same⟩
  exact other message same

theorem not_foreign_python (error : Error) : ¬Foreign (.python error) := by
  rintro ⟨message, same⟩
  cases same

theorem not_own_python (error : Error) : ¬Own (.python error) := by
  rintro ⟨message, same⟩
  cases same

theorem spares_ok (value : α) (world : World ι M) : Spares (.ok value : Except Exn α) world :=
  fun _ _ same => by cases same

theorem spares_error {error : Exn} (other : ¬Own error) (world : World ι M) : Spares (.error error : Except Exn α) world :=
  fun _ own same => by
    cases same
    exact other own

theorem safe_always [DecidableEq ι] (handler : Handler (interface M) (World ι M)) (p : Program M α) (world : World ι M) :
    Safe handler (fun _ _ _ => True) (fun _ _ => True) (fun _ _ => True) p world := by
  induction p generalizing world with
  | ret value | raise error => trivial
  | call label request next ih => exact fun world' _ => ⟨trivial, ih _ _⟩

namespace Ports

theorem ret (value : α) : Ports (Proc.ret value : Program M α) where
  lets := .ret value
  handles _ _ _ world := spares_ok value world

theorem python (error : Error) : Ports (Proc.raise (.python error) : Program M α) where
  lets := .raise (not_foreign_python error)
  handles _ _ _ world := spares_error (not_own_python error) world

theorem value (result : Except Error α) : Ports (Program.value result : Program M α) := by
  cases result with
  | ok value => exact .ret value
  | error error => exact .python error

theorem bind {p : Program M α} {f : α → Program M β} (ports : Ports p) (later : ∀ value, Ports (f value)) :
    Ports (p.bind f) where
  lets := ports.lets.bind fun value => (later value).lets
  handles quiet view i world := by
    refine Safe.bind ((ports.handles quiet view i world).mono fun result world spares => ?_)
    cases result with
    | ok value => exact (later value).handles quiet view i world
    | error error => exact spares_error (fun own => spares error own rfl) world

theorem ite {condition : Prop} [Decidable condition] {p q : Program M α} (first : Ports p) (second : Ports q) :
    Ports (if condition then p else q) := by
  split
  · exact first
  · exact second

theorem within {phase : Phase} {p : Program M α} (ports : Ports p) : Ports (p.within phase) where
  lets := ports.lets.within
  handles quiet view i world := Safe.within (ports.handles quiet view i world)

theorem get (key : Key) : Ports (Program.get key : Program M (Option Items × Nat)) where
  lets := LetsThrough.request .idle fun _ _ => carries_get
  handles {ι _ store} quiet view i world := by
    refine fun world' _ => ⟨trivial, ?_⟩
    show Safe (handler store view i) _ _ _ (Proc.ofExcept (store.get world'.vars key)) _
    cases answer : store.get world'.vars key with
    | ok row => exact spares_ok row _
    | error error => exact spares_error (quiet answer) _

/-- A request that the store has no part in. -/
theorem ask (request : Request M) (harmless : ∀ answer, carries request answer = none) : Ports (Program.ask request) where
  lets := LetsThrough.perform .idle harmless
  handles _ _ _ _ := fun _ _ => ⟨trivial, spares_ok _ _⟩

/-- `except Conflict`, of the platform's class. -/
theorem retry {p : Program M α} {handle : Exn → Program M α} (lets : p.LetsThrough (carries (M := M)) Foreign)
    (retries : ∀ message, Ports (handle (.conflict .vmsplatform message)))
    (rethrows : ∀ error, (∀ message, error ≠ .conflict .vmsplatform message) → handle error = .raise error) :
    Ports (tryCatch p handle) where
  lets := by
    refine LetsThrough.tryCatch lets ?_ fun error other => ?_
    · rintro error ⟨message, rfl⟩
      exact rethrows _ fun message' same => by cases same
    · by_cases mine : Own error
      · obtain ⟨message, rfl⟩ := mine
        exact (retries message).lets
      · rw [rethrows error fun message same => mine ⟨message, same⟩]
        exact other
  handles {ι _ store} quiet view i world := by
    refine Safe.tryCatch ((safe_always (handler store view i) p world).mono fun result world _ => ?_)
    cases result with
    | ok value => exact spares_ok value world
    | error error =>
      by_cases mine : Own error
      · obtain ⟨message, rfl⟩ := mine
        exact (retries message).handles quiet view i world
      · show Safe (handler store view i) _ _ _ (handle error) world
        rw [rethrows error fun message same => mine ⟨message, same⟩]
        exact spares_error mine world

end Ports

theorem lets_put (key : Key) (items : Dict Value) (cas : Option Nat) (value : Nat → α) :
    (Program.put key items cas >>= fun index => Proc.ret (value index) : Program M α).LetsThrough
      (carries (M := M)) Foreign :=
  LetsThrough.bind (LetsThrough.request .idle fun _ _ => carries_put) fun _ => .ret _

/-! ## The calls of the platform -/

theorem ports_nextEpochRounds (key : Key) (retries left : Nat) :
    Ports (nextEpochRounds key retries left : Program M (Int × Nat)) := by
  induction left with
  | zero => exact .python _
  | succ left ih =>
    refine (Ports.get key).bind fun row => (Ports.value _).bind fun current => ?_
    refine .retry (lets_put _ _ _ _) (fun _ => ih) fun error other => ?_
    split
    · exact absurd rfl (other _)
    · rfl

theorem ports_nextEpoch (key : Key) : Ports (nextEpoch key : Program M (Int × Nat)) := ports_nextEpochRounds key 200 200

theorem ports_writeRounds (path : Key) {mutate : Dict Value → Program M (Option (Dict Value))}
    (ports : ∀ items, Ports (mutate items)) (retries left : Nat) :
    Ports (Controller.writeRounds path mutate retries left) := by
  induction left with
  | zero => exact .python _
  | succ left ih =>
    refine (Ports.get path).bind fun row => (ports _).bind fun new => ?_
    cases new with
    | none => exact .ret _
    | some new =>
      refine .retry (lets_put _ _ _ _) (fun _ => ih) fun error other => ?_
      split
      · exact absurd rfl (other _)
      · rfl

theorem ports_write (path : Key) {mutate : Dict Value → Program M (Option (Dict Value))}
    (ports : ∀ items, Ports (mutate items)) : Ports (Controller.write path mutate) := ports_writeRounds path ports 10 10

variable (sub : Subsystem)

theorem ports_assignAdd (worker unit : String) : Ports (Controller.assignAdd sub worker unit : Program M Assignment) := by
  refine Ports.bind (ports_write _ fun items => ?_) fun written => .value _
  exact (Ports.value _).bind fun _ => .ite (.ret _) (.ret _)

theorem ports_assignRemove (worker unit : String) :
    Ports (Controller.assignRemove sub worker unit : Program M Assignment) := by
  refine Ports.bind (ports_write _ fun items => ?_) fun written => .value _
  exact (Ports.value _).bind fun _ => .ite (.ret _) (.ret _)

theorem ports_retire (worker : String) : Ports (Controller.retire sub worker : Program M Slot) := by
  refine Ports.bind (ports_write _ fun items => ?_) fun written => .value _
  exact (Ports.value _).bind fun _ => .ite (.ret _) (.ret _)

theorem ports_knownRounds (names : List String) (known : Dict Slot) :
    Ports (Worker.knownRounds sub names known : Program M (Dict Slot)) := by
  induction names generalizing known with
  | nil => exact .ret _
  | cons name rest ih => exact (Ports.get _).bind fun _ => (Ports.value _).bind fun _ => ih _

theorem ports_take (me : Worker) (cand : String) (cur : Slot) (now : ℚ) (index : Nat) :
    Ports (Worker.take sub me cand cur now index : Program M (Option Worker)) := by
  refine .retry (lets_put _ _ _ _) (fun _ => .ret _) fun error other => ?_
  split
  · exact absurd rfl (other _)
  · rfl

theorem ports_claimAmong (me : Worker) (prefer : Option String) (now : ℚ) (order : List String) :
    Ports (Worker.claimAmong sub me prefer now order : Program M (Option Worker)) := by
  induction order with
  | nil => exact .ret _
  | cons cand rest ih =>
    refine (Ports.get _).bind fun _ => (Ports.value _).bind fun cur => .ite ih ?_
    refine (ports_take sub me cand cur now _).bind fun taken => ?_
    cases taken with
    | none => exact ih
    | some me => exact .ret _

theorem ports_claimRounds (me : Worker) (prefer : Option String) (now : ℚ) (retries left : Nat) :
    Ports (Worker.claimRounds sub me prefer now retries left : Program M Worker) := by
  induction left with
  | zero => exact .python _
  | succ left ih =>
    refine (Ports.ask _ fun _ => rfl).bind fun keys => (ports_knownRounds sub _ _).bind fun known => ?_
    refine (Ports.value _).bind fun order => (ports_claimAmong sub me prefer now order).bind fun claimed => ?_
    cases claimed with
    | none => exact ih
    | some me => exact .ret _

theorem ports_claimSlot (me : Worker) (prefer : Option String) :
    Ports (Worker.claimSlot sub me prefer : Program M Worker) :=
  (Ports.ask .wall fun _ => rfl).bind fun now => ports_claimRounds sub me prefer now 50 50

theorem ports_renewSlot (me : Worker) : Ports (Worker.renewSlot sub me : Program M (Bool × Worker)) := by
  refine .ite (.ret _) ((Ports.get _).bind fun row => (Ports.value _).bind fun cur => .ite (.ret _) ?_)
  refine .within ((Ports.ask .wall fun _ => rfl).bind fun now => ?_)
  refine .retry (lets_put _ _ _ _) (fun _ => .ret _) fun error other => ?_
  split
  · exact absurd rfl (other _)
  · rfl

theorem ports_letGo (me : Worker) (cur : Slot) (index : Nat) : Ports (Worker.letGo sub me cur index : Program M Unit) := by
  refine (Ports.ask .wall fun _ => rfl).bind fun now => ?_
  refine .retry (lets_put _ _ _ _) (fun _ => .ret _) fun error other => ?_
  split
  · exact absurd rfl (other _)
  · rfl

theorem ports_releaseSlot (me : Worker) : Ports (Worker.releaseSlot sub me : Program M Worker) := by
  refine .ite (.ret _) ((Ports.get _).bind fun row => (Ports.value _).bind fun cur => ?_)
  exact (Ports.ite (ports_letGo sub me cur _) (.ret _)).bind fun _ => .ret _

theorem ports_takeEpoch (me : Worker) (unit : String) :
    Ports (Worker.takeEpoch sub me unit : Program M (Int × Worker)) :=
  (ports_nextEpoch _).bind fun _ => (Ports.within (.ask .clock fun _ => rfl)).bind fun _ => .ret _

/-- A call of the platform that writes. -/
inductive Operation where
  | nextEpoch (key : Key)
  | write (path : Key) (mutate : Dict Value → Except Error (Option (Dict Value)))
  | assignAdd (worker unit : String)
  | assignRemove (worker unit : String)
  | retire (worker : String)
  | claimSlot (me : Worker) (prefer : Option String)
  | renewSlot (me : Worker)
  | releaseSlot (me : Worker)
  | takeEpoch (me : Worker) (unit : String)

inductive Result where
  | epoch (number : Int) (index : Nat)
  | row (items : Dict Value)
  | assignment (a : Assignment)
  | slot (slot : Slot)
  | worker (me : Worker)
  | renewed (mine : Bool) (me : Worker)
  | taken (epoch : Int) (me : Worker)

def Operation.program : Operation → Program M Result
  | .nextEpoch key => do
    let issued ← Platform.nextEpoch key
    return .epoch issued.1 issued.2
  | .write path mutate => .row <$> Controller.write path fun items => Program.value (mutate items)
  | .assignAdd worker unit => .assignment <$> Controller.assignAdd sub worker unit
  | .assignRemove worker unit => .assignment <$> Controller.assignRemove sub worker unit
  | .retire worker => .slot <$> Controller.retire sub worker
  | .claimSlot me prefer => .worker <$> Worker.claimSlot sub me prefer
  | .renewSlot me => do
    let renewed ← Worker.renewSlot sub me
    return .renewed renewed.1 renewed.2
  | .releaseSlot me => .worker <$> Worker.releaseSlot sub me
  | .takeEpoch me unit => do
    let taken ← Worker.takeEpoch sub me unit
    return .taken taken.1 taken.2

theorem ports_program (operation : Operation) : Ports (operation.program sub : Program M Result) := by
  cases operation with
  | nextEpoch key => exact (ports_nextEpoch key).bind fun _ => .ret _
  | write path mutate => exact (ports_write path fun _ => .value _).bind fun _ => .ret _
  | assignAdd worker unit => exact (ports_assignAdd sub worker unit).bind fun _ => .ret _
  | assignRemove worker unit => exact (ports_assignRemove sub worker unit).bind fun _ => .ret _
  | retire worker => exact (ports_retire sub worker).bind fun _ => .ret _
  | claimSlot me prefer => exact (ports_claimSlot sub me prefer).bind fun _ => .ret _
  | renewSlot me => exact (ports_renewSlot sub me).bind fun _ => .ret _
  | releaseSlot me => exact (ports_releaseSlot sub me).bind fun _ => .ret _
  | takeEpoch me unit => exact (ports_takeEpoch sub me unit).bind fun _ => .ret _

/-! ## Any number of clients -/

variable [DecidableEq ι]

/-- Any number of clients, each with one call, over a store. -/
def calls (store : Variables) (view : ι → View) (operations : ι → Operation) (world : World ι M) (schedule : List ι) :
    Pool (interface M) Phase Exn Result (World ι M) ι :=
  Pool.exec (fun i => handler store (view i) i) schedule ⟨fun i => (operations i).program sub, world⟩

/-- The write that the client asks for comes too late. -/
def Loses (view : ι → View) (pool : Pool (interface M) Phase Exn α (World ι M) ι) (i : ι) : Prop :=
  ∃ key items expected, (pool.procs i).request? = some (.put key items (some expected)) ∧
    (view i).forbids key.path = none ∧ expected ≠ pool.state.vars.version key

theorem put_conflict_iff (view : View) (rows : Rows) (key : Key) (items : Dict Value) (cas : Option Nat) :
    (∃ error, Foreign error ∧ (RaftVariables.put view rows key items cas).1 = .error error) ↔
      ∃ expected, cas = some expected ∧ view.forbids key.path = none ∧ expected ≠ rows.version key := by
  unfold RaftVariables.put
  cases forbidden : view.forbids key.path with
  | some message =>
    constructor
    · rintro ⟨error, ⟨message', rfl⟩, same⟩
      cases same
    · rintro ⟨expected, -, wrong, -⟩
      cases wrong
  | none =>
    cases cas with
    | none =>
      constructor
      · rintro ⟨error, -, same⟩
        cases same
      · rintro ⟨expected, same, -⟩
        cases same
    | some expected =>
      dsimp only
      split
      next late => exact ⟨fun _ => ⟨expected, rfl, rfl, late⟩, fun _ => ⟨_, ⟨_, rfl⟩, rfl⟩⟩
      next stands =>
        constructor
        · rintro ⟨error, -, same⟩
          cases same
        · rintro ⟨expected', same, -, late⟩
          cases same
          exact absurd late stands

theorem struck_iff (view : ι → View) (pool : Pool (interface M) Phase Exn α (World ι M) ι) (i : ι) :
    (∃ error, Foreign error ∧ Pool.Struck carries (fun i => handler RaftVariables (view i) i) pool i error) ↔
      Loses view pool i := by
  constructor
  · rintro ⟨error, foreign, label, request, next, asked, carried⟩
    cases request with
    | put key items cas =>
      obtain ⟨expected, rfl, allowed, late⟩ := (put_conflict_iff (view i) pool.state.vars key items cas).mp
        ⟨error, foreign, carries_put.mp carried⟩
      exact ⟨key, items, expected, by rw [asked]; rfl, allowed, late⟩
    | _ => cases carried
  · rintro ⟨key, items, expected, asked, allowed, late⟩
    obtain ⟨error, foreign, answer⟩ := (put_conflict_iff (view i) pool.state.vars key items (some expected)).mpr
      ⟨expected, rfl, allowed, late⟩
    cases here : pool.procs i with
    | ret value | raise error => rw [here] at asked; cases asked
    | call label request next =>
      rw [here] at asked
      cases asked
      exact ⟨error, foreign, label, _, next, here, carries_put.mpr answer⟩

theorem quiet_files : QuietReads FileVariables := by
  intro rows key error answer
  simp only [FileVariables, FileVariables.get] at answer
  split at answer
  · cases answer
    exact not_own_python _
  · cases answer

/-- The store of one box has no conflict but its own. -/
theorem files_not_foreign (view : View) (rows : Rows) (key : Key) (items : Dict Value) (cas : Option Nat) {error : Exn}
    (answer : (FileVariables.put view rows key items cas).1 = .error error) : ¬Foreign error := by
  rintro ⟨message, rfl⟩
  unfold FileVariables.put at answer
  cases forbidden : view.forbids key.path with
  | some message' =>
    rw [forbidden] at answer
    cases answer
  | none =>
    rw [forbidden] at answer
    by_cases refused : FileVariables.refuses key = true
    · rw [FileVariables.get, if_pos refused] at answer
      cases answer
    · rw [FileVariables.get, if_neg refused] at answer
      cases cas with
      | none => cases answer
      | some expected =>
        dsimp only at answer
        split at answer <;> cases answer

theorem quiet_raft : QuietReads RaftVariables := by
  intro rows key error answer
  cases answer

/-- No call ends with a conflict of the platform's own class, over either store. -/
theorem calls_spare {store : Variables} (quiet : QuietReads store) (view : ι → View) (operations : ι → Operation)
    (world : World ι M) (schedule : List ι) (i : ι) {error : Exn} (own : Own error) :
    (calls sub store view operations world schedule).procs i ≠ .raise error := by
  have along : Along (Pool.step fun i => handler store (view i) i) (fun _ _ => True) schedule
      ⟨fun i => (operations i).program sub, world⟩ := .always (fun _ _ => trivial) _ _
  have safe := (Pool.safe_exec_post (fun _ _ _ _ => True) (fun _ _ _ => True) (fun _ => Spares) (fun _ => True)
    (fun _ _ _ _ => trivial) (fun _ _ _ _ _ _ _ => trivial) (fun _ _ _ _ _ => trivial)
    (fun _ _ _ _ _ _ _ _ _ _ => trivial) (fun _ _ _ _ _ _ _ spares => spares) along
    (fun i => (ports_program sub (operations i)).handles quiet (view i) i world) trivial).2 i
  intro raised
  rw [calls] at raised
  rw [raised] at safe
  exact safe error own rfl

/-- However many clients call the platform, and however they interleave: over the store of one box no call ends with a
conflict, and over the cluster's a call ends with one exactly if a write of it came too late. -/
theorem conflict_escapes_iff (view : ι → View) (operations : ι → Operation) (world : World ι M) (schedule : List ι)
    (i : ι) :
    (∀ package message, (calls sub FileVariables view operations world schedule).procs i ≠
        .raise (.conflict package message)) ∧
      ((∃ package message, (calls sub RaftVariables view operations world schedule).procs i =
          .raise (.conflict package message)) ↔
        ∃ first, first ++ [i] <+: schedule ∧ Loses view (calls sub RaftVariables view operations world first) i) := by
  have lets := (ports_program (M := M) sub (operations i)).lets
  constructor
  · intro package message
    cases package with
    | vmsplatform => exact calls_spare sub quiet_files view operations world schedule i ⟨message, rfl⟩
    | cluster =>
      intro raised
      obtain ⟨first, -, label, request, next, asked, carried⟩ := (Pool.raises_iff ⟨message, rfl⟩ schedule lets).mp raised
      cases request with
      | get key =>
        have answer := carries_get.mp carried
        simp only [handler, FileVariables, FileVariables.get] at answer
        split at answer <;> cases answer
      | put key items cas => exact files_not_foreign _ _ _ _ _ (carries_put.mp carried) ⟨message, rfl⟩
      | _ => cases carried
  · constructor
    · rintro ⟨package, message, raised⟩
      cases package with
      | vmsplatform => exact absurd raised (calls_spare sub quiet_raft view operations world schedule i ⟨message, rfl⟩)
      | cluster =>
        obtain ⟨first, isPrefix, struck⟩ := (Pool.raises_iff ⟨message, rfl⟩ schedule lets).mp raised
        exact ⟨first, isPrefix, (struck_iff view _ i).mp ⟨_, ⟨message, rfl⟩, struck⟩⟩
    · rintro ⟨first, isPrefix, loses⟩
      obtain ⟨error, ⟨message, rfl⟩, struck⟩ := (struck_iff view _ i).mpr loses
      exact ⟨.cluster, message, (Pool.raises_iff ⟨message, rfl⟩ schedule lets).mpr ⟨first, isPrefix, struck⟩⟩

/-- The request means the same to both stores. -/
def Plain (view : View) (rows : Rows) : Request M → Prop
  | .get key => FileVariables.refuses key = false
  | .put key _ cas => FileVariables.refuses key = false ∧ view.forbids key.path = none ∧ rows.Matches key cas
  | _ => True

instance (view : View) (rows : Rows) : (request : Request M) → Decidable (Plain view rows request)
  | .get key => inferInstanceAs (Decidable (FileVariables.refuses key = false))
  | .put key _ cas =>
    inferInstanceAs (Decidable (FileVariables.refuses key = false ∧ view.forbids key.path = none ∧ rows.Matches key cas))
  | .list _ | .wall | .clock | .random | .heartbeats _ | .heartbeat _ _ | .actuator _ _ | .bus | .append _ | .recollect
  | .remember _ => .isTrue trivial

end EdgeVms.Verified.StorePort
