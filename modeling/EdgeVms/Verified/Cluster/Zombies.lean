import EdgeVms.Cluster.NodeHost
import EdgeVms.Verified.Cluster.Restorable

/-! # Zombies

The processes of one Node, in any interleaving of their goroutines, with any outages of
the store.  What a step can do is said once; every invariant is read off it.
-/

namespace EdgeVms.Verified.Zombies

open Process Python EdgeVms.Cluster EdgeVms.Cluster.NodeHost
open Node (GoReconciler GoCamera)

variable {node : String} {state state' : Processes} {event : Event} {who : Nat}

def phase (state : Processes) (who : Nat) : Phase := (state.instances who).phase

@[simp] theorem phase_setPhase (state : Processes) (who : Nat) (p : Phase) (other : Nat) :
    phase (state.setPhase who p) other = if other = who then p else phase state other := by
  show (Function.update state.instances who { state.instances who with phase := p } other).phase = _
  rw [Function.update_apply]
  split <;> rfl

theorem phase_boot (state : Processes) (who : Nat) (settings : Settings) (other : Nat) :
    phase { state with instances := Function.update state.instances who ⟨settings, state.now, .reading 10⟩ } other =
      if other = who then .reading 10 else phase state other := by
  show (Function.update state.instances who ⟨settings, state.now, .reading 10⟩ other).phase = _
  rw [Function.update_apply]
  split <;> rfl

@[simp] theorem booted_setPhase (state : Processes) (who : Nat) (p : Phase) (other : Nat) :
    ((state.setPhase who p).instances other).booted = (state.instances other).booted := by
  show (Function.update state.instances who { state.instances who with phase := p } other).booted = _
  rw [Function.update_apply]
  split
  next same => rw [same]
  next => rfl

/-! ## What a step can do -/

/-- The phase that the step of a process leads to, where no epoch is written and no camera called. -/
inductive Turn (node : String) (state : Processes) (who : Nat) : Event → Phase → Phase → Prop
  | exit {event before} : Turn node state who event before .exited
  | read {left} : Turn node state who (.read who) (.reading (left + 1))
      (.writing left (currentEpoch (state.row node)) (state.vars.version (epochPath node)))
  | conflict {outcome left current index} :
      Turn node state who (.write who outcome) (.writing left current index) (.reading left)
  | newLease {epoch since} : Turn node state who (.newLease who) (.issued epoch since)
      (.running (.new (state.instances who).settings epoch (state.clock who)))
  | asked {host} (idle : host.tick = .idle) (fenced : host.lease.fenced = true) :
      Turn node state who (.lease who) (.running host)
        (.running { host with tick := .failed "a newer epoch was issued" })
  | answered {host} (idle : host.tick = .idle) (holds : host.lease.fenced = false) :
      Turn node state who (.lease who) (.running host) (.running { host with
        tick := .answered (if state.answers who then some (currentEpoch (state.row node)) else none) state.now })
  | renewed {host live since} (waiting : host.tick = .answered live since) :
      Turn node state who (.renew who) (.running host) (.running (host.renew live (state.clock who)))
  | fenced {host why} (failed : host.tick = .failed why) (free : host.pass = none) :
      Turn node state who (.fence who) (.running host) (.running { host.fence with tick := .idle })
  | begins {host rows} (free : host.pass = none) :
      Turn node state who (.reconcile who rows) (.running host) (.running (host.begin_ rows (state.clock who)))

/-- Everything that a step can do. -/
inductive Does (node : String) (state : Processes) (event : Event) : Processes → Prop
  /-- Time, the links and the other rows. -/
  | quiet {state' : Processes} (later : state.now ≤ state'.now) (instances : state'.instances = state.instances)
      (row : state'.row node = state.row node)
      (version : state'.vars.version (epochPath node) = state.vars.version (epochPath node))
      (index : state.vars.index ≤ state'.vars.index) (issues : state'.issues = state.issues)
      (starts : state'.starts = state.starts) : Does node state event state'
  | boot {who : Nat} {settings : Settings} (named : event = .boot who settings) (off : phase state who = .off) :
      Does node state event
      { state with instances := Function.update state.instances who ⟨settings, state.now, .reading 10⟩ }
  | turn {who : Nat} {before after : Phase} (here : phase state who = before)
      (turn : Turn node state who event before after) :
      Does node state event (state.setPhase who after)
  | issue {who left index : Nat} {current : Int} {outcome : Cluster.Outcome} {after : Phase}
      (here : phase state who = .writing left current index)
      (named : event = .write who outcome) (stands : index = state.vars.version (epochPath node))
      (after_eq : after = .exited ∨ after = .issued (int64 (current + 1)) state.now) :
      Does node state event (({ state with
        vars := state.vars.write (epochPath node) [("epoch", toString (int64 (current + 1)))]
        issues := state.issues ++ [⟨who, int64 (current + 1), state.now⟩] } : Processes).setPhase who after)
  | work {who : Nat} {host : Host} {fails : Bool} {random : ℚ} (named : event = .work who fails random)
      (here : phase state who = .running host) : Does node state event
        { state.setPhase who (.running (host.work (state.clock who) fails random)) with
          starts := state.starts ++ state.started who host (host.work (state.clock who) fails random) }

theorem Does.nothing (event : Event) : Does node state event state :=
  .quiet le_rfl rfl rfl rfl le_rfl rfl rfl

theorem does_write {left index : Nat} {current : Int} {outcome : Cluster.Outcome}
    (here : phase state who = .writing left current index) :
    Does node state (.write who outcome) (state.write node who left current index outcome) := by
  unfold Processes.write
  cases outcome with
  | failed => exact .turn here .exit
  | done =>
    dsimp only
    split
    · exact .turn here .conflict
    next stands => exact .issue here rfl (not_not.mp stands) (.inr rfl)
  | lost =>
    dsimp only
    split
    · exact .turn here .exit
    next stands => exact .issue here rfl (not_not.mp stands) (.inl rfl)

theorem does_step (node : String) (state : Processes) (event : Event) :
    Does node state event (state.step node event) := by
  cases event with
  | wait seconds => exact .quiet (le_add_of_nonneg_right (le_max_left _ _)) rfl rfl rfl le_rfl rfl rfl
  | links answers => exact .quiet le_rfl rfl rfl rfl le_rfl rfl rfl
  | put path items =>
    simp only [Processes.step]
    split
    · exact .nothing _
    next other =>
      have apart : epochPath node ≠ path := fun same => other same.symm
      exact .quiet le_rfl rfl (Versioned.read_write_other _ _ apart) (Versioned.version_write_other _ _ apart)
        (Nat.le_succ _) rfl rfl
  | boot who settings =>
    simp only [Processes.step]
    split
    next off => exact .boot rfl off
    next => exact .nothing _
  | exit who => exact .turn rfl .exit
  | read who =>
    simp only [Processes.step]
    split
    next left here =>
      split
      · exact .turn here .read
      · exact .turn here .exit
    next here => exact .turn here .exit
    next => exact .nothing _
  | write who outcome =>
    simp only [Processes.step]
    split
    next left current index here => exact does_write here
    next => exact .nothing _
  | newLease who =>
    simp only [Processes.step]
    split
    next epoch since here => exact .turn here .newLease
    next => exact .nothing _
  | lease who =>
    simp only [Processes.step]
    split
    next host here =>
      split
      next idle =>
        split
        next fenced => exact .turn here (.asked idle fenced)
        next holds => exact .turn here (.answered idle (Bool.not_eq_true _ ▸ holds))
      next => exact .nothing _
    next => exact .nothing _
  | renew who =>
    simp only [Processes.step]
    split
    next host here =>
      split
      next live since waiting => exact .turn here (.renewed waiting)
      next => exact .nothing _
    next => exact .nothing _
  | fence who =>
    simp only [Processes.step]
    split
    next host here =>
      split
      next why failed free => exact .turn here (.fenced failed free)
      next => exact .nothing _
    next => exact .nothing _
  | reconcile who rows =>
    simp only [Processes.step]
    split
    next host here =>
      split
      next free => exact .turn here (.begins free)
      next => exact .nothing _
    next => exact .nothing _
  | work who fails random =>
    simp only [Processes.step]
    split
    next host here => exact .work rfl here
    next => exact .nothing _

/-- What a step does to one process. -/
inductive Moves (node : String) (state : Processes) (event : Event) (state' : Processes) (who : Nat) : Prop
  | stays (same : phase state' who = phase state who)
  | turns (turn : Turn node state who event (phase state who) (phase state' who))
  /-- It starts, or writes its epoch. -/
  | begins (alive : phase state who ≠ .exited) (before : ∀ host, phase state who ≠ .running host)
      (after : ∀ host, phase state' who ≠ .running host)
  | works {host : Host} {fails : Bool} {random : ℚ} (named : event = .work who fails random)
      (here : phase state who = .running host)
      (there : phase state' who = .running (host.work (state.clock who) fails random))

theorem Does.moves (does : Does node state event state') (who : Nat) : Moves node state event state' who := by
  cases does with
  | quiet later instances row version index issues starts =>
    refine .stays ?_
    unfold phase
    rw [instances]
  | @boot booting settings named off =>
    by_cases same : who = booting
    · subst same
      refine .begins (by rw [off]; exact Phase.noConfusion) (fun host => ?_) fun host => ?_
      · rw [off]
        exact Phase.noConfusion
      · rw [phase_boot, if_pos rfl]
        exact Phase.noConfusion
    · exact .stays (by rw [phase_boot, if_neg same])
  | @turn other before after here turn =>
    by_cases same : who = other
    · subst same
      refine .turns ?_
      rw [phase_setPhase, if_pos rfl, here]
      exact turn
    · exact .stays (by rw [phase_setPhase, if_neg same])
  | @issue other left index current outcome after here named stands after_eq =>
    by_cases same : who = other
    · subst same
      refine .begins (by rw [here]; exact Phase.noConfusion) (fun host => ?_) fun host => ?_
      · rw [here]
        exact Phase.noConfusion
      · rw [phase_setPhase, if_pos rfl]
        obtain rfl | rfl := after_eq <;> exact Phase.noConfusion
    · exact .stays (by rw [phase_setPhase, if_neg same]; rfl)
  | @work other host fails random named here =>
    by_cases same : who = other
    · subst same
      refine .works named here ?_
      show phase (state.setPhase who _) who = _
      rw [phase_setPhase, if_pos rfl]
    · refine .stays ?_
      show phase (state.setPhase other _) who = _
      rw [phase_setPhase, if_neg same]

/-! ## The calls of a pass -/

/-- The host may start a pipeline. -/
def Open (host : Host) (clock : ℚ) : Prop := host.recordingAllowed = true ∧ host.lease.mayWrite clock = true

def Starts (call : String × Int) : Prop := call.1 = "start" ∨ call.1 = "restart"

/-- What a pass leaves alone, and what it adds. -/
structure Called (clock : ℚ) (before after : Host) : Prop where
  lease : after.lease = before.lease
  allowed : after.recordingAllowed = before.recordingAllowed
  tick : after.tick = before.tick
  running : ∀ id ∈ after.actuator.running, id ∈ before.actuator.running ∨ Open before clock
  calls : ∃ more, after.actuator.calls = before.actuator.calls ++ more ∧ ∀ call ∈ more, Starts call → Open before clock

variable {clock : ℚ} {before middle after host : Host}

theorem Open.congr (lease : after.lease = before.lease) (allowed : after.recordingAllowed = before.recordingAllowed) :
    Open after clock ↔ Open before clock := by
  unfold Open
  rw [lease, allowed]

namespace Called

/-- Whatever happens to the loop and the pass. -/
theorem same (lease : after.lease = before.lease) (allowed : after.recordingAllowed = before.recordingAllowed)
    (tick : after.tick = before.tick) (actuator : after.actuator = before.actuator) : Called clock before after where
  lease := lease
  allowed := allowed
  tick := tick
  running id member := .inl (actuator ▸ member)
  calls := ⟨[], by rw [actuator, List.append_nil], fun _ member => absurd member List.not_mem_nil⟩

theorem trans (first : Called clock before middle) (second : Called clock middle after) :
    Called clock before after where
  lease := second.lease.trans first.lease
  allowed := second.allowed.trans first.allowed
  tick := second.tick.trans first.tick
  running id member := by
    obtain old | opened := second.running id member
    · exact first.running id old
    · exact .inr ((Open.congr first.lease first.allowed).mp opened)
  calls := by
    obtain ⟨more, calls, opened⟩ := first.calls
    obtain ⟨more', calls', opened'⟩ := second.calls
    refine ⟨more ++ more', by rw [calls', calls, List.append_assoc], fun call member starts => ?_⟩
    obtain old | new := List.mem_append.mp member
    · exact opened call old starts
    · exact (Open.congr first.lease first.allowed).mp (opened' call new starts)

end Called

theorem gate_starts {call : String × Int} (starts : Starts call) (passes : host.gate clock call.1 = true) :
    Open host clock := by
  have verb : (decide (call.1 = "start") || decide (call.1 = "restart")) = true := by simpa [Starts] using starts
  rw [Host.gate, verb] at passes
  simpa [Open] using passes

/-- The verbs of the loop. -/
def Known (call : String × Int) : Prop := Starts call ∨ call.1 = "stop"

theorem actuate_called (host : Host) (clock : ℚ) (fails : Bool) {call : String × Int} (known : Known call) :
    Called clock host (host.actuate clock fails call.1 call.2).2 := by
  unfold Host.actuate
  split
  next passes =>
    have appended : (host.actuator.actuate fails call.1 call.2).2.calls = host.actuator.calls ++ [call] := by
      unfold FakeActuator.actuate
      split_ifs <;> rfl
    refine ⟨rfl, rfl, rfl, fun id member => ?_, [call], appended, fun call' member starts => ?_⟩
    · obtain starts | stop := known
      · exact .inr (gate_starts starts passes)
      · simp only [FakeActuator.actuate, stop, if_true, List.mem_filter] at member
        exact .inl member.1
    · rw [List.mem_singleton.mp member] at starts
      exact gate_starts starts passes
  next => exact .same rfl rfl rfl rfl

theorem calls_called (clock : ℚ) (fails : Bool) {calls : List (String × Int)} (known : ∀ call ∈ calls, Known call)
    (host : Host) :
    Called clock host (calls.foldl (fun host call => (host.actuate clock fails call.1 call.2).2) host) := by
  induction calls generalizing host with
  | nil => exact .same rfl rfl rfl rfl
  | cons call rest ih =>
    obtain ⟨here, later⟩ := List.forall_mem_cons.mp known
    exact (actuate_called host clock fails here).trans (ih later _)

theorem round_called (host : Host) (clock : ℚ) (fails : Bool) {pass : Vms.Reconciler.Pass GoReconciler}
    (known : ∀ call ∈ pass.calls, Known call) : Called clock host (host.round clock fails pass) :=
  (calls_called clock fails known host).trans (.same rfl rfl rfl rfl)

theorem known_start (answer : String → Int → Bool) (random : Int → ℚ) (now : ℚ) (desired : Table GoCamera) (id : Int)
    (loop : GoReconciler) :
    ∀ call ∈ (GoReconciler.startRounds answer random now desired [id] loop).calls, Known call := by
  intro call member
  simp only [GoReconciler.startRounds] at member
  split at member
  · cases member
  · split at member
    · cases member
    · have one : ∀ {outcome : Bool} {done failed : Vms.Reconciler.Pass GoReconciler} {verb : String},
          call ∈ (if outcome then done else failed).calls → done.calls = [(verb, id)] → failed.calls = [(verb, id)] →
            call = (verb, id) := by
        intro outcome done failed verb member done_eq failed_eq
        cases outcome with
        | false => exact List.mem_singleton.mp (failed_eq ▸ member)
        | true => exact List.mem_singleton.mp (done_eq ▸ member)
      split at member
      · rw [one member rfl rfl]
        exact .inl (.inr rfl)
      · rw [one member rfl rfl]
        exact .inl (.inl rfl)

theorem known_stop (id : Int) (loop : GoReconciler) :
    ∀ call ∈ (GoReconciler.stopRounds [id] loop).calls, Known call := by
  intro call member
  rw [List.mem_singleton.mp member]
  exact .inr rfl

theorem work_called (host : Host) (clock : ℚ) (fails : Bool) (random : ℚ) :
    Called clock host (host.work clock fails random) := by
  unfold Host.work
  split
  · exact .same rfl rfl rfl rfl
  · split
    · exact (round_called host clock fails (known_start _ _ _ _ _ _)).trans (.same rfl rfl rfl rfl)
    · exact .same rfl rfl rfl rfl
    · exact (round_called host clock fails (known_stop _ host.reconciler)).trans (.same rfl rfl rfl rfl)
    · exact .same rfl rfl rfl rfl

/-- A pipeline that a round has started was allowed to. -/
theorem mem_started (called : Called clock before after) {start : Start}
    (member : start ∈ state.started who before after) :
    start.who = who ∧ start.epoch = before.lease.epoch ∧ start.time = state.now ∧ Open before clock := by
  obtain ⟨more, calls, opened⟩ := called.calls
  rw [Processes.started, calls, List.drop_left, List.mem_filterMap] at member
  obtain ⟨call, made, some_⟩ := member
  split at some_
  next starts =>
    cases some_
    exact ⟨rfl, rfl, rfl, opened call made starts.1⟩
  next => cases some_

/-! ## A fence is for good -/

/-- What holds of a new host, and what every step of it keeps, holds of all hosts. -/
structure Stable (node : String) (holds : Host → Prop) : Prop where
  new : ∀ settings epoch clock, holds (.new settings epoch clock)
  turn : ∀ {state who event before after}, Turn node state who event (.running before) (.running after) →
    holds before → holds after
  work : ∀ {before clock after}, Called clock before after → holds before → holds after

def Hosts (state : Processes) (holds : Host → Prop) : Prop := ∀ who host, phase state who = .running host → holds host

theorem Stable.turned {holds : Host → Prop} (stable : Stable node holds) {before : Phase}
    (turn : Turn node state who event before (.running host)) (old : ∀ host, before = .running host → holds host) :
    holds host := by
  cases before with
  | running before => exact stable.turn turn (old before rfl)
  | issued epoch since =>
    cases turn
    exact stable.new _ _ _
  | off | reading | writing | exited => cases turn

theorem Stable.does {holds : Host → Prop} (stable : Stable node holds) (hosts : Hosts state holds)
    (does : Does node state event state') : Hosts state' holds := by
  intro who host runs
  cases does.moves who with
  | stays same => exact hosts who host (same ▸ runs)
  | turns turn =>
    rw [runs] at turn
    exact stable.turned turn (hosts who)
  | begins alive before after => exact absurd runs (after host)
  | works named here there =>
    cases runs.symm.trans there
    exact stable.work (work_called _ _ _ _) (hosts who _ here)

/-- Nothing runs on a fenced host. -/
def Quiet (host : Host) : Prop := host.recordingAllowed = false → host.actuator.running = []

theorem stable_quiet (node : String) : Stable node Quiet where
  new _ _ _ closed := Bool.noConfusion closed
  turn turn quiet := by
    cases turn with
    | asked | answered | begins => exact quiet
    | renewed => exact quiet
    | fenced failed free =>
      intro closed
      unfold Host.fence at closed ⊢
      split at closed
      next open_ => rw [if_pos open_]; rfl
      next closed' =>
        rw [if_neg closed']
        exact quiet closed
  work called quiet := by
    intro closed
    rw [called.allowed] at closed
    refine List.eq_nil_iff_forall_not_mem.mpr fun id member => ?_
    obtain old | opened := called.running id member
    · rw [quiet closed] at old
      cases old
    · rw [opened.1] at closed
      cases closed

theorem Stable.run {holds : Host → Prop} (stable : Stable node holds) (events : List Event)
    (hosts : Hosts state holds) : Hosts (events.foldl (Processes.step node) state) holds := by
  induction events generalizing state with
  | nil => exact hosts
  | cons event rest ih => exact ih (stable.does hosts (does_step node state event))

theorem hosts_start (now : ℚ) (index : Nat) (holds : Host → Prop) : Hosts (Processes.start now index) holds := by
  intro who host runs
  cases runs

/-- The process has ended, or this holds of its host. -/
def Lasts (holds : Host → Prop) (state : Processes) (who : Nat) : Prop :=
  phase state who = .exited ∨ ∃ host, phase state who = .running host ∧ holds host

/-- What every turn and every pass of a host keeps. -/
structure Lasting (node : String) (holds : Host → Prop) : Prop where
  turn : ∀ {state who event host after}, Turn node state who event (.running host) after → holds host →
    after = .exited ∨ ∃ host', after = .running host' ∧ holds host'
  work : ∀ {before clock after}, Called clock before after → holds before → holds after

theorem Does.lasts {holds : Host → Prop} (does : Does node state event state') (lasts : Lasts holds state who)
    (turn : ∀ {host after}, phase state who = .running host → Turn node state who event (.running host) after →
      holds host → after = .exited ∨ ∃ host', after = .running host' ∧ holds host')
    (work : ∀ {host fails random}, phase state who = .running host → event = .work who fails random →
      holds host → holds (host.work (state.clock who) fails random)) : Lasts holds state' who := by
  cases does.moves who with
  | stays same =>
    unfold Lasts
    rw [same]
    exact lasts
  | turns turns =>
    obtain exited | ⟨host, runs, held⟩ := lasts
    · rw [exited] at turns
      refine .inl ?_
      generalize phase state' who = after at turns
      cases turns
      rfl
    · rw [runs] at turns
      exact turn runs turns held
  | begins alive before after =>
    obtain exited | ⟨host, runs, -⟩ := lasts
    · exact absurd exited alive
    · exact absurd runs (before host)
  | works named here there =>
    obtain exited | ⟨host, runs, held⟩ := lasts
    · rw [here] at exited
      cases exited
    · cases runs.symm.trans here
      exact .inr ⟨_, there, work here named held⟩

theorem Lasting.does {holds : Host → Prop} (lasting : Lasting node holds) (lasts : Lasts holds state who)
    (does : Does node state event state') : Lasts holds state' who :=
  does.lasts lasts (fun _ turn held => lasting.turn turn held) fun _ _ held => lasting.work (work_called _ _ _ _) held

theorem Lasting.run {holds : Host → Prop} (lasting : Lasting node holds) (lasts : Lasts holds state who)
    (events : List Event) : Lasts holds (events.foldl (Processes.step node) state) who := by
  induction events generalizing state with
  | nil => exact lasts
  | cons event rest ih => exact ih (lasting.does lasts (does_step node state event))

def Closed (host : Host) : Prop := host.recordingAllowed = false

theorem fence_closed (closed : Closed host) : host.fence = host := by
  rw [Host.fence, if_neg (Bool.eq_false_iff.mp closed)]

theorem lasting_closed (node : String) : Lasting node Closed where
  turn turn closed := by
    cases turn with
    | exit => exact .inl rfl
    | asked | answered | renewed | begins => exact .inr ⟨_, rfl, closed⟩
    | fenced failed free =>
      refine .inr ⟨_, rfl, ?_⟩
      rw [fence_closed closed]
      exact closed
  work called closed := called.allowed.trans closed

def startsOf (state : Processes) (who : Nat) : List Start := state.starts.filter fun start => start.who = who

/-- A fenced host starts nothing. -/
theorem starts_does (out : Lasts Closed state who) (does : Does node state event state') :
    startsOf state' who = startsOf state who := by
  cases does with
  | quiet later instances row version index issues starts => rw [startsOf, starts, startsOf]
  | boot | turn | issue => rfl
  | @work other host fails random named here =>
    have called := work_called host (state.clock other) fails random
    have nothing : (state.started other host (host.work (state.clock other) fails random)).filter
        (fun start => start.who = who) = [] := by
      refine List.filter_eq_nil_iff.mpr fun start member mine => ?_
      obtain ⟨same, -, -, allowed, -⟩ := mem_started called member
      have mine : start.who = who := of_decide_eq_true mine
      rw [same] at mine
      subst mine
      obtain exited | ⟨host', runs, closed⟩ := out
      · rw [here] at exited
        cases exited
      · rw [here] at runs
        cases runs
        exact Bool.eq_false_iff.mp closed allowed
    show (state.starts ++ _).filter _ = _
    rw [List.filter_append, nothing, List.append_nil]
    rfl

theorem starts_run (node : String) (out : Lasts Closed state who) (events : List Event) :
    startsOf (events.foldl (Processes.step node) state) who = startsOf state who := by
  induction events generalizing state with
  | nil => rfl
  | cons event rest ih =>
    have does := does_step node state event
    exact (ih ((lasting_closed node).does out does)).trans (starts_does out does)

theorem host?_eq_some : state.host? who = some host ↔ phase state who = .running host := by
  unfold Processes.host? phase
  cases (state.instances who).phase with
  | running host' => simp only [Option.some.injEq, Phase.running.injEq]
  | off | reading | writing | issued | exited => simp

/-- From the fence on nothing runs on the host and it starts nothing, whatever happens: the lease may be renewed, passes
go on, the store comes back. -/
theorem fenced_for_good (node : String) (now : ℚ) (index : Nat) (first later : List Event) (who : Nat) {host : Host}
    (runs : (first.foldl (Processes.step node) (.start now index)).host? who = some host)
    (closed : host.recordingAllowed = false) :
    host.actuator.running = [] ∧
      startsOf ((first ++ later).foldl (Processes.step node) (.start now index)) who =
        startsOf (first.foldl (Processes.step node) (.start now index)) who ∧
      ∀ host', ((first ++ later).foldl (Processes.step node) (.start now index)).host? who = some host' →
        host'.recordingAllowed = false ∧ host'.actuator.running = [] := by
  have quiet (events : List Event) := (stable_quiet node).run events (hosts_start now index Quiet)
  rw [host?_eq_some] at runs
  rw [List.foldl_append]
  have out : Lasts Closed (first.foldl (Processes.step node) (.start now index)) who := .inr ⟨host, runs, closed⟩
  refine ⟨quiet first who host runs closed, starts_run node out later, fun host' runs' => ?_⟩
  rw [host?_eq_some] at runs'
  obtain exited | ⟨host'', same, closed'⟩ := (lasting_closed node).run out later
  · rw [runs'] at exited
    cases exited
  · rw [runs'] at same
    cases same
    refine ⟨closed', ?_⟩
    rw [← List.foldl_append] at runs'
    exact quiet (first ++ later) who host' runs' closed'

/-- The first process records a camera, then the second is issued the next epoch. -/
def takeover : List Event :=
  [.boot 0 ⟨30, 5, 60, 3⟩, .read 0, .write 0 .done, .newLease 0, .reconcile 0 [⟨7, true, 1⟩], .work 0 false 0,
    .work 0 false 0, .work 0 false 0, .wait 10, .boot 1 ⟨30, 5, 60, 3⟩, .read 1, .write 1 .done]

/-- The first process finds out. -/
def found : List Event := takeover ++ [.lease 0, .renew 0, .fence 0]

/-- It goes on with its loop. -/
def goesOn : List Event := [.reconcile 0 [⟨7, true, 1⟩], .work 0 false 0]

theorem fenced_for_good_takeover :
    startsOf ((found ++ goesOn).foldl (Processes.step "n1") (.start 0 0)) 0 =
      startsOf (found.foldl (Processes.step "n1") (.start 0 0)) 0 := by
  have runs : ((found.foldl (Processes.step "n1") (.start 0 0)).host? 0).isSome = true := by decide +kernel
  have closed : ∀ runs : ((found.foldl (Processes.step "n1") (.start 0 0)).host? 0).isSome = true,
      (((found.foldl (Processes.step "n1") (.start 0 0)).host? 0).get runs).recordingAllowed = false := by
    decide +kernel
  exact (fenced_for_good "n1" 0 0 found goesOn 0 (Option.some_get runs).symm (closed runs)).2.1

end EdgeVms.Verified.Zombies
