import EdgeVms.Verified.Platform.Commits
import EdgeVms.Vms.Archive
import Mathlib.Data.List.Pairwise
import Mathlib.Order.CompletePartialOrder

/-! # The epoch issuer is a lock

Any number of clients of `next_epoch`, some of them workers that take epochs and
let go of them, request by request.  `IssuesNext` is what a step may do: leave the
rows alone, or write the number after the one it replaces.
-/

namespace EdgeVms.Verified

open Process Python Platform Vms

variable {ι : Type}

/-- What a worker does about epochs. -/
inductive Chore where
  | take (unit : String)
  | release (unit : String)

/-- A client: one call of `next_epoch`, or a worker at its chores. -/
inductive Client where
  | call (key : Key)
  | worker (chores : List Chore)

namespace Chore

variable (sub : Subsystem)

def program : Chore → Program Worker Unit
  | take unit => do
    let me ← Program.recollect
    let (_, me) ← Worker.takeEpoch sub me unit
    Program.remember fun _ => me
  | release unit => Program.remember fun me => me.release unit

/-- One chore after the other; the loop of a worker outlives an exception. -/
def all : List Chore → Program Worker Unit
  | [] => return ()
  | chore :: rest => do
    tryCatch (chore.program sub) fun _ => return ()
    all rest

end Chore

def Client.program (sub : Subsystem) : Client → Program Worker (Option (Int × Nat))
  | call key => do return some (← nextEpoch key)
  | worker chores => do
    Chore.all sub chores
    return none

/-- The clients, about to start. -/
def clientPool (sub : Subsystem) (clients : ι → Client) (world : World ι Worker) :
    Pool (interface Worker) Phase Exn (Option (Int × Nat)) (Logged ι Worker) ι :=
  ⟨fun i => (clients i).program sub, ⟨world, []⟩⟩

/-! ## The numbers of a log -/

/-- The row that issues a number. -/
def epochItems (number : Int) : Dict Value := [("epoch", .int number)]

/-- The number that a write issued. -/
def Commit.number? (commit : Commit ι) : Option Int :=
  match commit.new.get? "epoch" with
  | some (.int number) => some number
  | _ => none

/-- The numbers issued for a key, in commit order. -/
def numbers (log : List (Commit ι)) (key : Key) : List Int :=
  (log.filter fun commit => commit.key = key).filterMap Commit.number?

/-- Client `i` was issued this number. -/
def Issued (log : List (Commit ι)) (i : ι) (key : Key) (number : Int) : Prop :=
  ∃ before, ⟨i, key, before, epochItems number⟩ ∈ log

/-- `1, 2, …, n`. -/
def upTo (n : Nat) : List Int := (List.range n).map fun k : Nat => (k : Int) + 1

/-- The numbers of a key are those up to the one its row holds. -/
def Counted (log : List (Commit ι)) (rows : Rows) (key : Key) : Prop :=
  ∃ n : Nat, epochOf (rows.read key) = .ok n ∧ numbers log key = upTo n

/-- What a worker holds was issued to it. -/
def HoldsIssued (sub : Subsystem) (log : List (Commit ι)) (i : ι) (me : Worker) : Prop :=
  ∀ unit number, me.epochs.get? unit = some number → Issued log i (sub.epochKey unit) number

theorem Issued.mono {log log' : List (Commit ι)} {i : ι} {key : Key} {number : Int}
    (later : log <+: log') (issued : Issued log i key number) : Issued log' i key number := by
  obtain ⟨before, member⟩ := issued
  exact ⟨before, later.subset member⟩

theorem HoldsIssued.mono {sub : Subsystem} {log log' : List (Commit ι)} {i : ι} {me : Worker}
    (later : log <+: log') (holds : HoldsIssued sub log i me) : HoldsIssued sub log' i me :=
  fun unit number held => (holds unit number held).mono later

theorem epochOf_epochItems (number : Int) : epochOf (some (stored (epochItems number))) = .ok number := by
  have row : rowValues (some (stored (epochItems number))) = [("epoch", .str (.plain number.repr))] := by
    simp [rowValues, stored, epochItems, Dict.mapValues]
  have item : Dict.item [("epoch", Value.str (.plain number.repr))] "epoch" = .ok (.str (.plain number.repr)) := rfl
  rw [epochOf, row]
  simp only [List.isEmpty_cons, Bool.false_eq_true, if_false, item]
  exact Text.toInt_repr number

theorem upTo_succ (n : Nat) : upTo (n + 1) = upTo n ++ [(n : Int) + 1] := by
  simp [upTo, List.range_succ]

theorem nodup_upTo (n : Nat) : (upTo n).Nodup := by
  have injective : Function.Injective fun k : Nat => (k : Int) + 1 := fun a b same => by simpa using same
  exact List.nodup_range.map injective

theorem numbers_issue_self (log : List (Commit ι)) (i : ι) (key : Key) (before : Option Items) (number : Int) :
    numbers (log ++ [⟨i, key, before, epochItems number⟩]) key = numbers log key ++ [number] := by
  simp [numbers, Commit.number?, epochItems, Dict.get?_cons]

theorem numbers_issue_other (log : List (Commit ι)) (i : ι) {key key' : Key} (before : Option Items)
    (number : Int) (other : key' ≠ key) :
    numbers (log ++ [⟨i, key, before, epochItems number⟩]) key' = numbers log key' := by
  simp [numbers, other.symm]

/-! ## One step -/

/-- What client `i` may do in one step. -/
structure IssuesNext (sub : Subsystem) (i : ι) (state state' : Logged ι Worker) : Prop where
  rows : (state'.rows = state.rows ∧ state'.log = state.log) ∨
    ∃ key number, epochOf (state.rows.read key) = .ok number ∧
      state'.rows = state.rows.write key (stored (epochItems (number + 1))) ∧
      state'.log = state.log ++ [⟨i, key, state.rows.read key, epochItems (number + 1)⟩]
  others : ∀ j, j ≠ i → state'.world.memory j = state.world.memory j
  own : HoldsIssued sub state.log i (state.world.memory i) → HoldsIssued sub state'.log i (state'.world.memory i)

/-- What client `i` sees of the others. -/
structure Grows (i : ι) (state state' : Logged ι Worker) : Prop where
  rows : state.rows.Later state'.rows
  log : state.log <+: state'.log
  memory : state'.world.memory i = state.world.memory i

variable {sub : Subsystem} {i : ι} {state state' state'' : Logged ι Worker}

theorem Grows.refl (i : ι) (state : Logged ι Worker) : Grows i state state :=
  ⟨.refl _, List.prefix_rfl, rfl⟩

theorem Grows.trans (first : Grows i state state') (second : Grows i state' state'') : Grows i state state'' :=
  ⟨first.rows.trans second.rows, first.log.trans second.log, second.memory.trans first.memory⟩

/-- The clocks of the world tell the clients nothing about each other. -/
theorem Grows.tick (grows : Grows i state state') : Grows i state state'.tick :=
  ⟨grows.rows, grows.log, grows.memory⟩

theorem Grows.of_tick (grows : Grows i state.tick state') : Grows i state state' :=
  ⟨grows.rows, grows.log, grows.memory⟩

theorem issues_tick (sub : Subsystem) (i : ι) (state : Logged ι Worker) : IssuesNext sub i state state.tick where
  rows := .inl ⟨rfl, rfl⟩
  others _ _ := rfl
  own := id

/-- Somebody else's step. -/
theorem IssuesNext.grows {j : ι} (issues : IssuesNext sub i state state') (other : j ≠ i) : Grows j state state' := by
  obtain ⟨rows, log⟩ | ⟨key, number, -, rows, log⟩ := issues.rows
  · exact ⟨by rw [rows]; exact .refl _, by simp only [log, List.prefix_rfl], issues.others j other⟩
  · exact ⟨by rw [rows]; exact .write _ _ _, by rw [log]; exact List.prefix_append _ _, issues.others j other⟩

theorem IssuesNext.counted {key : Key} (issues : IssuesNext sub i state state')
    (counted : Counted state.log state.rows key) : Counted state'.log state'.rows key := by
  obtain ⟨rows, log⟩ | ⟨written, number, current, rows, log⟩ := issues.rows
  · rwa [rows, log]
  · obtain ⟨n, row, issued⟩ := counted
    by_cases same : key = written
    · subst same
      have number_eq : number = n := Except.ok.inj (current.symm.trans row)
      subst number_eq
      refine ⟨n + 1, ?_, ?_⟩
      · rw [rows, Versioned.read_write_self, epochOf_epochItems]
        rfl
      · rw [log, numbers_issue_self, issued, upTo_succ]
    · refine ⟨n, ?_, ?_⟩
      · rw [rows, Versioned.read_write_other _ _ same, row]
      · rw [log, numbers_issue_other _ _ _ _ same, issued]

/-! ## The programs -/

theorem HoldsIssued.set {log : List (Commit ι)} {me : Worker} {unit : String} {number : Int} {leases : Dict Lease}
    (holds : HoldsIssued sub log i me) (issued : Issued log i (sub.epochKey unit) number) :
    HoldsIssued sub log i { me with epochs := me.epochs.set unit number, leases := leases } := by
  intro unit' number' held
  by_cases same : unit' = unit
  · subst same
    rw [Dict.get?_set_self] at held
    cases held
    exact issued
  · rw [Dict.get?_set_other _ _ same] at held
    exact holds unit' number' held

theorem HoldsIssued.release {log : List (Commit ι)} {me : Worker} (unit : String)
    (holds : HoldsIssued sub log i me) : HoldsIssued sub log i (me.release unit) := by
  intro unit' number' held
  by_cases same : unit' = unit
  · subst same
    rw [Worker.release, Dict.get?_pop_self] at held
    cases held
  · rw [Worker.release, Dict.get?_pop_other _ same] at held
    exact holds unit' number' held

section Programs

variable [DecidableEq ι] {view : ι → View}

/-- A call of `next_epoch` ends with a number that was issued to it. -/
theorem nextEpoch_issues (key : Key) (retries left : Nat) {base : Logged ι Worker} {state : Logged ι Worker}
    (since : Grows i base state) :
    Guarded view i (Grows i) (IssuesNext sub i)
      (fun result state => Issued state.log i key result.1 ∧ Grows i base state)
      (nextEpochRounds key retries left) state := by
  induction left generalizing state with
  | zero => trivial
  | succ left ih =>
    apply Guarded.get (issues_tick sub i)
    intro read moved
    apply Guarded.value_bind
    intro number current
    apply Guarded.tryPut (issues_tick sub i)
    · intro now index moved' allowed
      have same : now.rows.read key = read.rows.read key := moved'.rows.read_of_matches allowed
      have writes : Grows i now (now.commit i key (epochItems (number + 1))) :=
        ⟨.write _ _ _, List.prefix_append _ _, rfl⟩
      refine ⟨⟨.inr ⟨key, number, ?_, rfl, rfl⟩, fun _ _ => rfl, fun holds => ?_⟩, ?_, ?_⟩
      · rw [same, current]
      · exact holds.mono writes.log
      · exact ⟨_, List.mem_append_right _ List.mem_cons_self⟩
      · exact ((since.trans moved).trans moved'.of_tick).trans writes
    · intro now error moved'
      -- a lost check-and-set goes round again; every other exception is the caller's
      cases error with
      | conflict package message =>
        cases package with
        | vmsplatform => exact ih ((since.trans moved).trans moved'.of_tick).tick
        | cluster => trivial
      | python error => trivial
      | forbidden package message => trivial
      | refused message => trivial

theorem chore_issues (chore : Chore) (state : Logged ι Worker) :
    Guarded view i (Grows i) (IssuesNext sub i) (fun _ _ => True) (chore.program sub) state := by
  cases chore with
  | release unit =>
    apply Guarded.remember
    intro now moved
    refine ⟨⟨.inl ⟨rfl, rfl⟩, fun j other => Function.update_of_ne other _ _, fun holds => ?_⟩, trivial⟩
    show HoldsIssued sub now.log i (Function.update now.world.memory i _ i)
    rw [Function.update_self]
    exact holds.release unit
  | take unit =>
    apply Guarded.recollect (issues_tick sub i)
    intro start moved
    apply Guarded.cut (fun result state => Grows i start.tick state ∧
      ∀ log, state.log <+: log → HoldsIssued sub log i (start.world.memory i) → HoldsIssued sub log i result.2)
    · apply Guarded.bind (nextEpoch_issues (sub.epochKey unit) 200 200 (Grows.refl i start.tick))
      intro issued state' ends now moved'
      refine ⟨issues_tick sub i now, (ends.2.trans moved').tick, fun log later holds => ?_⟩
      exact holds.set (ends.1.mono (moved'.log.trans later))
    · intro taken state' ends
      apply Guarded.remember
      intro now moved'
      refine ⟨⟨.inl ⟨rfl, rfl⟩, fun j other => Function.update_of_ne other _ _, fun holds => ?_⟩, trivial⟩
      show HoldsIssued sub now.log i (Function.update now.world.memory i taken.2 i)
      rw [Function.update_self]
      -- nobody else touches the memory that was recalled
      have same : now.world.memory i = start.world.memory i := moved'.memory.trans ends.1.memory
      apply ends.2 now.log moved'.log
      rwa [← same]

theorem chores_issue (chores : List Chore) (state : Logged ι Worker) :
    Guarded view i (Grows i) (IssuesNext sub i) (fun _ _ => True) (Chore.all sub chores) state := by
  induction chores generalizing state with
  | nil => trivial
  | cons chore rest ih =>
    apply Guarded.bind (Guarded.caught (chore_issues chore state))
    exact fun _ state' _ => ih state'

/-- What a client that returned may say of itself: the number it returned was issued to it. -/
def Tells (client : Client) (i : ι) (result : Option (Int × Nat)) (state : Logged ι Worker) : Prop :=
  ∀ key, client = .call key → ∃ number index, result = some (number, index) ∧ Issued state.log i key number

theorem client_issues (client : Client) (state : Logged ι Worker) :
    Guarded view i (Grows i) (IssuesNext sub i) (Tells client i) (client.program sub) state := by
  cases client with
  | call key =>
    apply Guarded.bind (nextEpoch_issues key 200 200 (Grows.refl i state))
    rintro ⟨number, index⟩ state' ⟨issued, -⟩ key' same
    cases same
    exact ⟨number, index, rfl, issued⟩
  | worker chores =>
    apply Guarded.bind (chores_issue chores state)
    intro _ state' _ key same
    cases same

end Programs

/-! ## Runs -/

/-- A number is issued once. -/
theorem Issued.client_unique {log : List (Commit ι)} {key : Key} {n : Nat} {j : ι} {number : Int}
    (counted : numbers log key = upTo n) (first : Issued log i key number) (second : Issued log j key number) :
    i = j := by
  obtain ⟨before, member⟩ := first
  obtain ⟨before', member'⟩ := second
  have distinct : (numbers log key).Nodup := by
    rw [counted]
    exact nodup_upTo n
  rw [numbers, List.Nodup, List.pairwise_filterMap] at distinct
  have : Std.Symm fun commit commit' : Commit ι => ∀ b, commit.number? = some b →
      ∀ b', commit'.number? = some b' → b ≠ b' :=
    ⟨fun _ _ differ b at_b b' at_b' => (differ b' at_b' b at_b).symm⟩
  by_contra other
  have differ := distinct.forall (a := ⟨i, key, before, epochItems number⟩) (by simpa using member)
    (b := ⟨j, key, before', epochItems number⟩) (by simpa using member')
    (fun same => other (congrArg Commit.client same))
  exact differ number rfl number rfl rfl

theorem Issued.mem_numbers {log : List (Commit ι)} {key : Key} {number : Int}
    (issued : Issued log i key number) : number ∈ numbers log key := by
  obtain ⟨before, member⟩ := issued
  have kept : (⟨i, key, before, epochItems number⟩ : Commit ι) ∈ log.filter fun commit => commit.key = key := by
    simpa using member
  exact List.mem_filterMap.mpr ⟨_, kept, rfl⟩

section Runs

variable [DecidableEq ι] {view : ι → View} {clients : ι → Client} {world : World ι Worker}

/-- The numbers of a key are counted, and what the workers hold was issued to them. -/
def Accounts (sub : Subsystem) (keys : Key → Prop) (state : Logged ι Worker) : Prop :=
  (∀ key, keys key → Counted state.log state.rows key) ∧
    ∀ i, HoldsIssued sub state.log i (state.world.memory i)

theorem IssuesNext.accounts {keys : Key → Prop} (issues : IssuesNext sub i state state')
    (accounts : Accounts sub keys state) : Accounts sub keys state' := by
  refine ⟨fun key counts => issues.counted (accounts.1 key counts), fun j => ?_⟩
  by_cases same : j = i
  · subst same
    exact issues.own (accounts.2 j)
  · rw [issues.others j same]
    exact (accounts.2 j).mono (issues.grows same).log

/-- The clients and the store after a schedule. -/
def clientRun (sub : Subsystem) (view : ι → View) (clients : ι → Client) (world : World ι Worker)
    (schedule : List ι) : Pool (interface Worker) Phase Exn (Option (Int × Nat)) (Logged ι Worker) ι :=
  Pool.exec (logged view) schedule (clientPool sub clients world)

theorem clientRun_accounts {keys : Key → Prop} (absent : ∀ key, keys key → world.vars.read key = none)
    (fresh : ∀ i, (world.memory i).epochs = []) (schedule : List ι) :
    Accounts sub keys (clientRun sub view clients world schedule).state ∧
      ∀ i, Safe (logged view i) (fun _ => Grows i) (IssuesNext sub i) (Yields (Tells (clients i) i))
        ((clientRun sub view clients world schedule).procs i) (clientRun sub view clients world schedule).state := by
  have start : Accounts sub keys (clientPool sub clients world).state := by
    refine ⟨fun key counts => ⟨0, ?_, rfl⟩, fun i unit number held => ?_⟩
    · show epochOf (world.vars.read key) = .ok 0
      rw [absent key counts]
      rfl
    · have none_held : (world.memory i).epochs.get? unit = some number := held
      rw [fresh i] at none_held
      cases none_held
  have along : Along (Pool.step (logged view)) (fun _ _ => True) schedule (clientPool sub clients world) :=
    .always (fun _ _ => trivial) _ _
  refine Pool.safe_exec_post (fun i _ => Grows i) (fun i => IssuesNext sub i)
    (fun i => Yields (Tells (clients i) i)) (Accounts sub keys)
    ?still ?transitive ?keeps ?compatible ?stable along ?safe start
  case still => exact fun i _ state _ => .refl i state
  case transitive => exact fun i _ _ _ _ first second => first.trans second
  case keeps => exact fun pool i _ issues accounts => issues.accounts accounts
  case compatible => exact fun pool i j other _ _ _ issues _ _ => issues.grows other
  case stable =>
    intro pool i j other _ issues result told
    cases result with
    | error error => trivial
    | ok result =>
      intro key called
      obtain ⟨number, index, same, issued⟩ := told key called
      exact ⟨number, index, same, issued.mono (issues.grows other).log⟩
  case safe => exact fun i => client_issues (clients i) _

/-- The numbers of a key that was absent. -/
theorem clientRun_counted {key : Key} (absent : world.vars.read key = none)
    (fresh : ∀ i, (world.memory i).epochs = []) (schedule : List ι) :
    ∃ n, numbers (clientRun sub view clients world schedule).state.log key = upTo n := by
  have only : ∀ key', key' = key → world.vars.read key' = none := by
    rintro _ rfl
    exact absent
  obtain ⟨n, -, counted⟩ := (clientRun_accounts only fresh schedule).1.1 key rfl
  exact ⟨n, counted⟩

/-- What a call returned was issued to it. -/
theorem clientRun_told {key : Key} {result : Option (Int × Nat)} (called : clients i = .call key)
    (fresh : ∀ i, (world.memory i).epochs = []) {schedule : List ι}
    (returned : (clientRun sub view clients world schedule).procs i = .ret result) :
    ∃ number index, result = some (number, index) ∧
      Issued (clientRun sub view clients world schedule).state.log i key number := by
  have none_counted : ∀ key, False → world.vars.read key = none := fun _ never => never.elim
  have runs : Accounts sub (fun _ => False) (clientRun sub view clients world schedule).state ∧ _ :=
    clientRun_accounts none_counted fresh schedule
  have tells := runs.2 i
  rw [returned] at tells
  exact tells key called

/-- A worker holds this epoch of the unit. -/
def Holds (state : Logged ι Worker) (i : ι) (unit : String) (epoch : Int) : Prop :=
  (state.world.memory i).epochs.get? unit = some epoch

/-- It does so at some moment of the run. -/
def EverHolds (sub : Subsystem) (view : ι → View) (clients : ι → Client) (world : World ι Worker)
    (schedule : List ι) (i : ι) (unit : String) (epoch : Int) : Prop :=
  ∃ done, done <+: schedule ∧ Holds (clientRun sub view clients world done).state i unit epoch

/-- The files that a worker writes about a unit under an epoch, on any server and at any time: event
buckets and segments. -/
inductive Writes (sub : Subsystem) (unit : String) (epoch : Int) : Set String
  | bucket {root : String} {bucketSeconds : Int} {t : ℚ} {path : String}
      (found : EventLog.pathFor ⟨root, sub.name, unit, epoch, bucketSeconds⟩ t = .ok path) :
      Writes sub unit epoch path
  | segment {root : String} {cam : Int} {start : DateTime} (names : toString cam = unit) :
      Writes sub unit epoch (segmentPath root cam epoch start)

/-- Where a file of an epoch lies. -/
theorem Writes.lies {unit : String} {epoch : Int} {path : String} (writes : Writes sub unit epoch path) :
    ∃ above file, path = Path.joinTwo (Path.joinTwo above (epochDir epoch)) file ∧ Path.Component file := by
  cases writes with
  | bucket found =>
    obtain ⟨start, path_eq⟩ := EventLog.pathFor_eq found
    exact ⟨_, _, path_eq, component_file start (by decide)⟩
  | @segment root cam start names =>
    have path_eq : segmentPath root cam epoch start = _ := segmentPath_eq root cam epoch start
    exact ⟨_, _, path_eq, component_file start (by decide)⟩

/-- The files of two epochs have no path in common. -/
theorem writes_disjoint {unit unit' : String} {epoch epoch' : Int} (differ : epoch ≠ epoch') :
    Disjoint (Writes sub unit epoch) (Writes sub unit' epoch') := by
  rw [Set.disjoint_left]
  intro path first second
  obtain ⟨above, file, path_eq, component⟩ := Writes.lies first
  obtain ⟨above', file', path_eq', component'⟩ := Writes.lies second
  have same := Path.joinTwo_inj (component_epochDir epoch) (component_epochDir epoch') component component'
    (path_eq.symm.trans path_eq')
  exact differ (epochDir_inj same.1)

/-- What was held at some moment was issued. -/
theorem EverHolds.issued {unit : String} {epoch : Int} {schedule : List ι}
    (fresh : ∀ i, (world.memory i).epochs = [])
    (held : EverHolds sub view clients world schedule i unit epoch) :
    Issued (clientRun sub view clients world schedule).state.log i (sub.epochKey unit) epoch := by
  obtain ⟨done, ⟨rest, rfl⟩, holds⟩ := held
  have none_counted : ∀ key, False → world.vars.read key = none := fun _ never => never.elim
  have issued := (clientRun_accounts none_counted fresh done).1.2 i unit epoch holds
  apply issued.mono
  rw [clientRun, clientRun, Pool.exec, Pool.exec, List.foldl_append]
  exact log_prefix_exec rest _

/-- However many clients, and however their requests interleave: the numbers of a key that was absent
are `1, 2, …, n` in commit order, two calls never return the same one, no two workers ever hold the
same epoch of a unit, and what they write lies in different files. -/
theorem epoch_issuer_is_a_lock (sub : Subsystem) (view : ι → View) (clients : ι → Client)
    (world : World ι Worker) (schedule : List ι) (fresh : ∀ i, (world.memory i).epochs = []) :
    (∀ key, world.vars.read key = none →
      (∃ n, numbers (clientRun sub view clients world schedule).state.log key = upTo n) ∧
      (∀ i result, clients i = .call key →
        (clientRun sub view clients world schedule).procs i = .ret result →
          ∃ number index, result = some (number, index) ∧
            number ∈ numbers (clientRun sub view clients world schedule).state.log key) ∧
      ∀ i j number index index', clients i = .call key → clients j = .call key →
        (clientRun sub view clients world schedule).procs i = .ret (some (number, index)) →
        (clientRun sub view clients world schedule).procs j = .ret (some (number, index')) → i = j) ∧
    ∀ unit, world.vars.read (sub.epochKey unit) = none →
      (∀ i j epoch, EverHolds sub view clients world schedule i unit epoch →
        EverHolds sub view clients world schedule j unit epoch → i = j) ∧
      ∀ i j epoch epoch', i ≠ j → EverHolds sub view clients world schedule i unit epoch →
        EverHolds sub view clients world schedule j unit epoch' →
          Disjoint (Writes sub unit epoch) (Writes sub unit epoch') := by
  constructor
  · intro key absent
    obtain ⟨n, counted⟩ := clientRun_counted absent fresh schedule
    refine ⟨⟨n, counted⟩, fun i result called returned => ?_, fun i j number index index' call call' first second => ?_⟩
    · obtain ⟨number, index, same, issued⟩ := clientRun_told called fresh returned
      exact ⟨number, index, same, issued.mem_numbers⟩
    · obtain ⟨_, _, same, issued⟩ := clientRun_told call fresh first
      obtain ⟨_, _, same', issued'⟩ := clientRun_told call' fresh second
      cases same
      cases same'
      exact issued.client_unique counted issued'
  · intro unit absent
    obtain ⟨n, counted⟩ := clientRun_counted absent fresh schedule
    have unique : ∀ i j epoch, EverHolds sub view clients world schedule i unit epoch →
        EverHolds sub view clients world schedule j unit epoch → i = j :=
      fun i j epoch first second => (first.issued fresh).client_unique counted (second.issued fresh)
    refine ⟨unique, fun i j epoch epoch' other first second => writes_disjoint ?_⟩
    rintro rfl
    exact other (unique i j epoch first second)

end Runs

/-! ## Two workers that start the same unit -/

def twoTakers (schedule : List Bool) :
    Pool (interface Worker) Phase Exn (Option (Int × Nat)) (Logged Bool Worker) Bool :=
  clientRun ⟨"vms"⟩ (fun _ => {}) (fun _ => .worker [.take "7"]) (workersWorld toString) schedule

/-- Turn by turn: both read before either writes, so one of them goes round again. -/
def takeTurns : List Bool := (List.replicate 7 [true, false]).flatten

theorem epoch_issuer_two_workers :
    Holds (twoTakers takeTurns).state true "7" 1 ∧ Holds (twoTakers takeTurns).state false "7" 2 ∧
      Disjoint (Writes ⟨"vms"⟩ "7" 1) (Writes ⟨"vms"⟩ "7" 2) := by
  have first : Holds (twoTakers takeTurns).state true "7" 1 := by
    unfold Holds
    decide +kernel
  have second : Holds (twoTakers takeTurns).state false "7" 2 := by
    unfold Holds
    decide +kernel
  have lock := @epoch_issuer_is_a_lock Bool _ ⟨"vms"⟩ (fun _ => {}) (fun _ => .worker [.take "7"])
    (workersWorld toString) takeTurns (fun _ => rfl)
  exact ⟨first, second, (lock.2 "7" rfl).2 true false 1 2 (by decide)
    ⟨takeTurns, List.prefix_rfl, first⟩ ⟨takeTurns, List.prefix_rfl, second⟩⟩

end EdgeVms.Verified
