import EdgeVms.Verified.Cluster.Zombies

/-! # Recovery

What the loop of a host takes to run, runs; so a whole pass puts everything back.
-/

namespace EdgeVms.Verified.Zombies

open Process Python EdgeVms.Cluster EdgeVms.Cluster.NodeHost
open Node (GoReconciler GoCamera)

variable {node : String} {state state' : Processes} {event : Event} {who : Nat} {host : Host} {clock random : ℚ}

/-! ## One round -/

/-- What the loop takes to run is what runs. -/
def InSync (host : Host) : Prop := ∀ id, id ∈ host.actuator.running ↔ host.reconciler.actual.has id = true

/-- What a round does for one camera, where the actuator works. -/
inductive Round (host : Host) (clock now : ℚ) (id : Int) (after : Host) : Prop
  /-- The camera runs at its revision, or waits to be tried again. -/
  | rests (same : after = host) (rests : host.reconciler.actual.has id = true ∨
      ∃ failure, host.reconciler.failures.get? id = some failure ∧ now < failure.retryAt)
  | starts (opened : Open host clock) (running : after.actuator.running = host.actuator.running.filter (· ≠ id) ++ [id])
      (actual : ∃ revision, after.reconciler.actual = host.reconciler.actual.set id revision)
      (failures : after.reconciler.failures = host.reconciler.failures.pop id)
  | refused (closed : ¬Open host clock) (running : after.actuator.running = host.actuator.running)
      (actual : after.reconciler.actual = host.reconciler.actual)

theorem gate_start {verb : String} (start : verb = "start" ∨ verb = "restart") :
    host.gate clock verb = true ↔ Open host clock := by
  have starts : (decide (verb = "start") || decide (verb = "restart")) = true := by simpa using start
  rw [Host.gate, starts, Open]
  simp

theorem actuate_start {verb : String} (start : verb = "start" ∨ verb = "restart") (opened : Open host clock)
    (id : Int) :
    host.actuate clock false verb id = (true, { host with
      actuator := ⟨host.actuator.running.filter (· ≠ id) ++ [id], host.actuator.calls ++ [(verb, id)]⟩ }) := by
  have other : verb ≠ "stop" := by
    obtain rfl | rfl := start <;> decide
  rw [Host.actuate, if_pos ((gate_start start).mpr opened)]
  simp [FakeActuator.actuate, other]

theorem actuate_refused {verb : String} (start : verb = "start" ∨ verb = "restart") (closed : ¬Open host clock)
    (id : Int) :
    host.actuate clock false verb id = (false, host) := by
  rw [Host.actuate, if_neg fun passes => closed ((gate_start start).mp passes)]

theorem round_does (host : Host) (clock now random : ℚ) (desired : Table GoCamera) (id : Int) :
    Round host clock now id (host.round clock false (GoReconciler.startRounds
      (fun verb id => (host.actuate clock false verb id).1) (fun _ => random) now desired [id] host.reconciler)) := by
  simp only [GoReconciler.startRounds]
  split
  next runs =>
    refine .rests rfl (.inl ?_)
    obtain ⟨revision, have_, -⟩ := (Option.any_eq_true _ _).mp runs
    rw [Table.has, have_]
    rfl
  next =>
    split
    next waits =>
      obtain ⟨failure, waits, late⟩ := (Option.any_eq_true _ _).mp waits
      exact .rests rfl (.inr ⟨failure, waits, of_decide_eq_true late⟩)
    next =>
      have start : (if (host.reconciler.actual.get? id).isSome = true then "restart" else "start") = "start" ∨
          (if (host.reconciler.actual.get? id).isSome = true then "restart" else "start") = "restart" := by
        split
        · exact .inr rfl
        · exact .inl rfl
      generalize (if (host.reconciler.actual.get? id).isSome = true then "restart" else "start") = verb at start ⊢
      by_cases opened : Open host clock
      · rw [if_pos (by rw [actuate_start start opened])]
        refine .starts opened ?_ ⟨_, rfl⟩ rfl
        simp only [Host.round, Vms.Reconciler.Pass.following, List.foldl_cons, List.foldl_nil,
          actuate_start start opened]
      · rw [if_neg (by rw [actuate_refused start opened]; exact Bool.false_ne_true)]
        refine .refused opened ?_ rfl
        simp only [Host.round, Vms.Reconciler.Pass.following, List.foldl_cons, List.foldl_nil,
          actuate_refused start opened]

/-! ## What the loop takes to run -/

theorem actuate_keeps (host : Host) (clock : ℚ) (fails : Bool) (verb : String) (id : Int) :
    (host.actuate clock fails verb id).2.pass = host.pass ∧
    (host.actuate clock fails verb id).2.passes = host.passes := by
  unfold Host.actuate
  split <;> exact ⟨rfl, rfl⟩

theorem round_keeps (host : Host) (clock : ℚ) (fails : Bool) (pass : Vms.Reconciler.Pass GoReconciler) :
    (host.round clock fails pass).pass = host.pass ∧ (host.round clock fails pass).passes = host.passes := by
  unfold Host.round
  dsimp only
  induction pass.calls generalizing host with
  | nil => exact ⟨rfl, rfl⟩
  | cons call rest ih =>
    obtain ⟨pass, passes⟩ := ih (host.actuate clock fails call.1 call.2).2
    obtain ⟨pass', passes'⟩ := actuate_keeps host clock fails call.1 call.2
    exact ⟨pass.trans pass', passes.trans passes'⟩

theorem actuate_stop (host : Host) (clock : ℚ) (fails : Bool) (id : Int) :
    host.actuate clock fails "stop" id = (true, { host with
      actuator := ⟨host.actuator.running.filter (· ≠ id), host.actuator.calls ++ [("stop", id)]⟩ }) := by
  have passes : host.gate clock "stop" = true := by
    simp [Host.gate]
  rw [Host.actuate, if_pos passes]
  rfl

theorem round_stops (host : Host) (clock : ℚ) (fails : Bool) (id : Int) :
    (host.round clock fails (GoReconciler.stopRounds [id] host.reconciler)).actuator.running =
        host.actuator.running.filter (· ≠ id) ∧
      (host.round clock fails (GoReconciler.stopRounds [id] host.reconciler)).reconciler =
        { host.reconciler with actual := host.reconciler.actual.pop id } := by
  refine ⟨?_, rfl⟩
  simp only [Host.round, GoReconciler.stopRounds, Vms.Reconciler.Pass.following, List.foldl_cons, List.foldl_nil,
    actuate_stop]

theorem InSync.round {now : ℚ} {id : Int} {after : Host} (inSync : InSync host)
    (round : Round host clock now id after) :
    InSync after := by
  intro other
  cases round with
  | rests same => rw [same]; exact inSync other
  | starts opened running actual failures =>
    obtain ⟨revision, actual⟩ := actual
    rw [running, actual, Table.has_set, List.mem_append, List.mem_filter, List.mem_singleton, inSync other]
    by_cases same : other = id
    · simp [same]
    · simp [same, Ne.symm same]
  | refused closed running actual =>
    rw [running, actual]
    exact inSync other

theorem InSync.stops (inSync : InSync host) (clock : ℚ) (fails : Bool) (id : Int) :
    InSync (host.round clock fails (GoReconciler.stopRounds [id] host.reconciler)) := by
  intro other
  obtain ⟨running, reconciler⟩ := round_stops host clock fails id
  rw [running, reconciler, Table.has_pop, List.mem_filter, inSync other]
  by_cases same : other = id
  · simp [same]
  · simp [same, Ne.symm same]

theorem InSync.work (inSync : InSync host) (clock random : ℚ) : InSync (host.work clock false random) := by
  unfold Host.work
  split
  · exact inSync
  next w _ =>
    split
    next id rest _ _ =>
      have kept := inSync.round (round_does host clock w.now random w.desired id)
      exact kept
    · exact inSync
    next id rest _ =>
      have kept := inSync.stops clock false id
      exact kept
    · exact inSync

theorem InSync.turn {before : Host} (inSync : InSync before)
    (turn : Turn node state who event (.running before) (.running host)) : InSync host := by
  cases turn with
  | asked | answered | begins => exact inSync
  | renewed => exact inSync
  | fenced failed free =>
    unfold Host.fence
    split
    · intro id
      simp [FakeActuator.stopAll, GoReconciler.clear, Table.has, Table.get?]
    · exact inSync

theorem inSync_new (settings : Settings) (epoch : Int) (clock : ℚ) : InSync (.new settings epoch clock) := by
  intro id
  simp [Host.new, GoReconciler.new, Table.has, Table.get?]

/-- The actuator of the process does what it is told. -/
def Obeys (who : Nat) (_ : Processes) : Event → Prop
  | .work other fails _ => other = who → fails = false
  | _ => True

instance (who : Nat) (state : Processes) : (event : Event) → Decidable (Obeys who state event)
  | .work other fails _ => inferInstanceAs (Decidable (other = who → fails = false))
  | .wait _ | .links _ | .put _ _ | .boot _ _ | .exit _ | .read _ | .write _ _ | .newLease _ | .lease _ | .renew _
  | .fence _ | .reconcile _ _ => .isTrue trivial

theorem InSync.does (inSync : ∀ host, phase state who = .running host → InSync host) (obeys : Obeys who state event)
    (does : Does node state event state') : ∀ host, phase state' who = .running host → InSync host := by
  intro host runs
  cases does.moves who with
  | stays same => exact inSync host (same ▸ runs)
  | turns turn =>
    rw [runs] at turn
    generalize here : phase state who = before at turn
    cases before with
    | running before => exact (inSync before here).turn turn
    | issued epoch since =>
      cases turn
      exact inSync_new _ _ _
    | off | reading | writing | exited => cases turn
  | begins alive before after => exact absurd runs (after host)
  | @works before fails random named here there =>
    cases runs.symm.trans there
    rw [named] at obeys
    obtain rfl := obeys rfl
    exact (inSync before here).work _ random

theorem InSync.run (inSync : ∀ host, phase state who = .running host → InSync host) {events : List Event}
    (obeys : Along (Processes.step node) (Obeys who) events state) :
    ∀ host, phase (events.foldl (Processes.step node) state) who = .running host → InSync host := by
  induction events generalizing state with
  | nil => exact inSync
  | cons event rest ih =>
    obtain ⟨here, later⟩ := along_cons.mp obeys
    exact ih (InSync.does inSync here (does_step node state event)) later

/-! ## A whole pass -/

variable {rows : List GoCamera}

theorem has_desired_go (rows : List GoCamera) (id : Int) :
    (GoReconciler.desired rows).has id = true ↔ ∃ row ∈ rows, row.enabled = true ∧ row.id = id := by
  have rounds : ∀ table : Table GoCamera,
      (rows.foldl (fun desired cam => if cam.enabled then desired.set cam.id cam else desired) table).has id = true ↔
        table.has id = true ∨ ∃ row ∈ rows, row.enabled = true ∧ row.id = id := by
    induction rows with
    | nil => simp
    | cons row rest ih =>
      intro table
      rw [List.foldl_cons, ih]
      by_cases enabled : row.enabled = true
      · simp only [enabled, if_true, Table.has_set, Bool.or_eq_true, decide_eq_true_eq, List.mem_cons, exists_eq_or_imp,
          true_and]
        tauto
      · simp [enabled]
  have nothing : Table.has ([] : Table GoCamera) id = false := rfl
  rw [GoReconciler.desired, rounds, nothing]
  simp

theorem mem_order (rows : List GoCamera) (id : Int) :
    id ∈ GoReconciler.order rows ↔ (GoReconciler.desired rows).has id = true := by
  rw [has_desired_go, GoReconciler.order, List.mem_insertionSort, List.mem_map]
  simp only [List.mem_filter, and_assoc]

theorem mem_stops (loop : GoReconciler) (desired : Table GoCamera) (id : Int) :
    id ∈ loop.stops desired ↔ loop.actual.has id = true ∧ desired.has id = false := by
  rw [GoReconciler.stops, List.mem_insertionSort, List.mem_filter, Table.has_iff_mem, Bool.not_eq_true']

/-- What a pass has put back so far, and what it has still to stop. -/
structure Going (rows : List GoCamera) (loop : GoReconciler) (w : Working) : Prop where
  desired : w.desired = GoReconciler.desired rows
  ready : ∀ id failure, loop.failures.get? id = some failure → failure.retryAt ≤ w.now
  starting : w.stops = none → ∀ id, w.desired.has id = true → id ∈ w.starts ∨ loop.actual.has id = true
  stopping : ∀ ids, w.stops = some ids →
    (∀ id, w.desired.has id = true → loop.actual.has id = true) ∧ (∀ id ∈ ids, w.desired.has id = false) ∧
      ∀ id, loop.actual.has id = true → w.desired.has id = true ∨ id ∈ ids

/-- The loop takes to run what is enabled. -/
def Restored (rows : List GoCamera) (loop : GoReconciler) : Prop :=
  ∀ id, loop.actual.has id = true ↔ (GoReconciler.desired rows).has id = true

/-- The pass that began after so many others is under way, or has ended. -/
def Underway (rows : List GoCamera) (passes : Nat) (host : Host) : Prop :=
  (host.passes = passes ∧ ∃ w, host.pass = some w ∧ Going rows host.reconciler w) ∨
    (passes < host.passes ∧
      (host.passes = passes + 1 → host.pass = none → host.recordingAllowed = true → Restored rows host.reconciler))

theorem Going.start {w : Working} (going : Going rows host.reconciler w) (starting : w.stops = none) {id : Int}
    {rest : List Int}
    (starts : w.starts = id :: rest) {after : Host} (opened : Open host clock)
    (round : Round host clock w.now id after) :
    Going rows after.reconciler { w with starts := rest } := by
  have before := going.starting starting
  rw [starts] at before
  constructor
  case desired => exact going.desired
  case ready =>
    intro other failure failed
    cases round with
    | rests same =>
      rw [same] at failed
      exact going.ready other failure failed
    | starts opened running actual failures =>
      rw [failures, Table.get?_pop] at failed
      split at failed
      · cases failed
      · exact going.ready other failure failed
    | refused closed => exact absurd opened closed
  case starting =>
    intro _ other wanted
    cases round with
    | rests same rests =>
      rw [same]
      obtain here | known := before other wanted
      · obtain rfl | later := List.mem_cons.mp here
        · obtain runs | ⟨failure, failed, late⟩ := rests
          · exact .inr runs
          · exact absurd late (not_lt.mpr (going.ready other failure failed))
        · exact .inl later
      · exact .inr known
    | starts opened running actual failures =>
      obtain ⟨revision, actual⟩ := actual
      rw [actual, Table.has_set]
      obtain here | known := before other wanted
      · obtain rfl | later := List.mem_cons.mp here
        · exact .inr (by simp)
        · exact .inl later
      · exact .inr (by simp [known])
    | refused closed => exact absurd opened closed
  case stopping =>
    intro ids stopping
    have stopping : w.stops = some ids := stopping
    rw [starting] at stopping
    cases stopping

theorem Going.turn {w : Working} (going : Going rows host.reconciler w) (starting : w.stops = none)
    (starts : w.starts = []) :
    Going rows host.reconciler { w with stops := some (host.reconciler.stops w.desired) } := by
  refine ⟨going.desired, going.ready, fun nothing => absurd nothing (Option.some_ne_none _), fun ids same => ?_⟩
  obtain rfl := Option.some.inj same
  refine ⟨fun id wanted => ?_, fun id stops => ((mem_stops _ _ id).mp stops).2, fun id runs => ?_⟩
  · obtain wrong | runs := going.starting starting id wanted
    · rw [starts] at wrong
      cases wrong
    · exact runs
  · cases wanted : w.desired.has id with
    | true => exact .inl rfl
    | false => exact .inr ((mem_stops _ _ id).mpr ⟨runs, wanted⟩)

theorem Going.stop {w : Working} (going : Going rows host.reconciler w) {id : Int} {rest : List Int}
    (stopping : w.stops = some (id :: rest)) {after : Host}
    (reconciler : after.reconciler = { host.reconciler with actual := host.reconciler.actual.pop id }) :
    Going rows after.reconciler { w with stops := some rest } := by
  obtain ⟨started, unwanted, running⟩ := going.stopping _ stopping
  obtain ⟨here, later⟩ := List.forall_mem_cons.mp unwanted
  refine ⟨going.desired, by rw [reconciler]; exact going.ready, fun nothing => absurd nothing (Option.some_ne_none _),
    fun ids same => ?_⟩
  obtain rfl := Option.some.inj same
  rw [reconciler]
  dsimp only
  refine ⟨fun other wanted => ?_, later, fun other runs => ?_⟩
  · have apart : id ≠ other := by
      rintro rfl
      rw [here] at wanted
      cases wanted
    rw [Table.has_pop]
    simp [apart, started other wanted]
  · rw [Table.has_pop] at runs
    simp only [Bool.and_eq_true, Bool.not_eq_true', decide_eq_false_iff_not] at runs
    obtain wanted | more := running other runs.2
    · exact .inl wanted
    · obtain rfl | later := List.mem_cons.mp more
      · exact absurd rfl runs.1
      · exact .inr later

theorem Going.ends {w : Working} (going : Going rows host.reconciler w) (stopping : w.stops = some []) :
    Restored rows host.reconciler := by
  obtain ⟨started, -, running⟩ := going.stopping _ stopping
  rw [going.desired] at started running
  intro id
  refine ⟨fun runs => ?_, started id⟩
  obtain wanted | wrong := running id runs
  · exact wanted
  · cases wrong

theorem Underway.work {passes : Nat} (underway : Underway rows passes host) (opened : Open host clock) (random : ℚ) :
    Underway rows passes (host.work clock false random) := by
  obtain ⟨count, w, pass, going⟩ | ⟨count, ended⟩ := underway
  · simp only [Host.work, pass]
    split
    next id rest stops starts =>
      have round := round_does host clock w.now random w.desired id
      have keeps := (round_keeps host clock false (GoReconciler.startRounds
        (fun verb id => (host.actuate clock false verb id).1) (fun _ => random) w.now w.desired [id] host.reconciler)).2
      have goes := going.start stops starts opened round
      exact .inl ⟨keeps.trans count, _, rfl, goes⟩
    next stops starts => exact .inl ⟨count, _, rfl, going.turn stops starts⟩
    next id rest stops =>
      have stopped := (round_stops host clock false id).2
      have keeps := (round_keeps host clock false (GoReconciler.stopRounds [id] host.reconciler)).2
      exact .inl ⟨keeps.trans count, _, rfl, going.stop stops stopped⟩
    next stops => exact .inr ⟨by dsimp only; omega, fun _ _ _ => going.ends stops⟩
  · cases pass : host.pass with
    | none =>
      have rests : host.work clock false random = host := by simp only [Host.work, pass]
      rw [rests]
      exact .inr ⟨count, ended⟩
    | some w =>
      simp only [Host.work, pass]
      split
      next id rest stops starts =>
        have keeps := (round_keeps host clock false (GoReconciler.startRounds (fun verb id =>
          (host.actuate clock false verb id).1) (fun _ => random) w.now w.desired [id] host.reconciler)).2
        exact .inr ⟨by rw [keeps]; exact count, fun _ nothing => absurd nothing (Option.some_ne_none _)⟩
      · exact .inr ⟨count, fun _ nothing => absurd nothing (Option.some_ne_none _)⟩
      next id rest stops =>
        have keeps := (round_keeps host clock false (GoReconciler.stopRounds [id] host.reconciler)).2
        exact .inr ⟨by rw [keeps]; exact count, fun _ nothing => absurd nothing (Option.some_ne_none _)⟩
      · exact .inr ⟨by dsimp only; omega, fun same => by dsimp only at same; omega⟩

theorem Underway.turn {passes : Nat} (underway : Underway rows passes host) {after : Phase}
    (turn : Turn node state who event (.running host) after) :
    after = .exited ∨ ∃ host', after = .running host' ∧ Underway rows passes host' := by
  have kept {host' : Host} (pass : host'.pass = host.pass) (count : host'.passes = host.passes)
      (allowed : host'.recordingAllowed = host.recordingAllowed) (reconciler : host'.reconciler = host.reconciler) :
      Underway rows passes host' := by
    obtain ⟨count', w, pass', going⟩ | ⟨count', ended⟩ := underway
    · refine .inl ⟨count.trans count', w, pass.trans pass', going.desired, ?_, ?_, ?_⟩
      · rw [reconciler]
        exact going.ready
      · rw [reconciler]
        exact going.starting
      · rw [reconciler]
        exact going.stopping
    · unfold Underway Restored
      rw [count, pass, allowed, reconciler]
      exact .inr ⟨count', ended⟩
  cases turn with
  | exit => exact .inl rfl
  | asked | answered | renewed => exact .inr ⟨_, rfl, kept rfl rfl rfl rfl⟩
  | fenced failed free =>
    obtain ⟨-, w, pass, -⟩ | ⟨count, -⟩ := underway
    · rw [free] at pass
      cases pass
    · refine .inr ⟨_, rfl, .inr ?_⟩
      unfold Host.fence
      split
      · exact ⟨count, fun _ _ allowed => Bool.noConfusion allowed⟩
      next closed => exact ⟨count, fun _ _ allowed => absurd allowed closed⟩
  | begins free =>
    obtain ⟨-, w, pass, -⟩ | ⟨count, -⟩ := underway
    · rw [free] at pass
      cases pass
    · exact .inr ⟨_, rfl, .inr ⟨count, fun _ nothing => absurd nothing (Option.some_ne_none _)⟩⟩

/-- The lease of the process holds at each round of a pass. -/
def Leased (who : Nat) (state : Processes) : Event → Prop
  | .work other _ _ => other = who → ∀ host ∈ state.host? who, Open host (state.clock who)
  | _ => True

instance (host : Host) (clock : ℚ) : Decidable (Open host clock) :=
  inferInstanceAs (Decidable (host.recordingAllowed = true ∧ host.lease.mayWrite clock = true))

instance (who : Nat) (state : Processes) : (event : Event) → Decidable (Leased who state event)
  | .work other _ _ => inferInstanceAs (Decidable (other = who → ∀ host ∈ state.host? who, Open host (state.clock who)))
  | .wait _ | .links _ | .put _ _ | .boot _ _ | .exit _ | .read _ | .write _ _ | .newLease _ | .lease _ | .renew _
  | .fence _ | .reconcile _ _ => .isTrue trivial

theorem Underway.run {passes : Nat} (underway : Lasts (Underway rows passes) state who) {events : List Event}
    (obeys : Along (Processes.step node) (Obeys who) events state)
    (leased : Along (Processes.step node) (Leased who) events state) :
    Lasts (Underway rows passes) (events.foldl (Processes.step node) state) who := by
  induction events generalizing state with
  | nil => exact underway
  | cons event rest ih =>
    obtain ⟨obeys, obeysLater⟩ := along_cons.mp obeys
    obtain ⟨leased, leasedLater⟩ := along_cons.mp leased
    refine ih ?_ obeysLater leasedLater
    refine (does_step node state event).lasts underway (fun _ turn held => held.turn turn) ?_
    intro host fails random here named held
    rw [named] at obeys leased
    obtain rfl := obeys rfl
    exact held.work (leased rfl host (host?_eq_some.mpr here)) random

/-- A pass that begins when all retry times are over and keeps the lease throughout ends with exactly the enabled
cameras running: in any interleaving with the other processes and with the lease loop, after whatever outages, as
long as the actuator of the process does what it is told. -/
theorem pass_restores (node : String) (now : ℚ) (index : Nat) (first later : List Event) (who : Nat)
    (rows : List GoCamera)
    (obeys : Along (Processes.step node) (Obeys who) (first ++ .reconcile who rows :: later) (.start now index))
    {host host' : Host} (runs : (first.foldl (Processes.step node) (.start now index)).host? who = some host)
    (free : host.pass = none)
    (ready : ∀ id failure, host.reconciler.failures.get? id = some failure →
      failure.retryAt ≤ (first.foldl (Processes.step node) (.start now index)).clock who)
    (leased : Along (Processes.step node) (Leased who) later
      ((first ++ [Event.reconcile who rows]).foldl (Processes.step node) (.start now index)))
    (runs' :
      ((first ++ .reconcile who rows :: later).foldl (Processes.step node) (.start now index)).host? who = some host')
    (ended : host'.passes = host.passes + 1 ∧ host'.pass = none ∧ host'.recordingAllowed = true) (id : Int) :
    id ∈ host'.actuator.running ↔ ∃ row ∈ rows, row.enabled = true ∧ row.id = id := by
  rw [host?_eq_some] at runs runs'
  have inSync : InSync host' :=
    InSync.run (fun host here => Phase.noConfusion here) obeys host' runs'
  rw [inSync, ← has_desired_go]
  rw [along_append, along_cons] at obeys
  rw [List.foldl_append, List.foldl_cons, List.foldl_nil] at leased
  rw [List.foldl_append, List.foldl_cons] at runs'
  generalize first.foldl (Processes.step node) (.start now index) = state at *
  have begun : Lasts (Underway rows host.passes) (state.step node (.reconcile who rows)) who := by
    have here : (state.instances who).phase = .running host := runs
    simp only [Processes.step, here, free]
    refine .inr ⟨host.begin_ rows (state.clock who), by rw [phase_setPhase, if_pos rfl],
      .inl ⟨rfl, _, rfl, rfl, ready, fun _ id wanted => ?_, fun ids wrong => ?_⟩⟩
    · exact .inl ((mem_order rows id).mpr wanted)
    · cases wrong
  obtain exited | ⟨host'', same, underway⟩ := Underway.run begun obeys.2.2 leased
  · rw [runs'] at exited
    cases exited
  · rw [runs'] at same
    cases same
    obtain ⟨count, -⟩ | ⟨-, restored⟩ := underway
    · omega
    · exact restored ended.1 ended.2.1 ended.2.2 id

/-- The store is away while the first pass goes on. -/
def booted :
    List Event := [.boot 0 ⟨30, 5, 60, 3⟩, .read 0, .write 0 .done, .newLease 0, .links fun _ => false, .wait 20]

def firstPass : List Event := [.work 0 false 0, .lease 0, .work 0 false 0, .work 0 false 0, .renew 0]

theorem pass_restores_booted :
    ((booted ++ Event.reconcile 0 [⟨7, true, 1⟩, ⟨8, false,
    1⟩] :: firstPass).foldl (Processes.step "n1") (.start 0 0)).host? 0
      |>.any fun host => 7 ∈ host.actuator.running := by
  have runs : ((booted.foldl (Processes.step "n1") (.start 0 0)).host? 0).isSome = true := by decide +kernel
  have runs' : (((booted ++ Event.reconcile 0 [⟨7, true, 1⟩, ⟨8, false, 1⟩] :: firstPass).foldl (Processes.step "n1")
      (.start 0 0)).host? 0).isSome = true := by decide +kernel
  have free : ∀ runs : ((booted.foldl (Processes.step "n1") (.start 0 0)).host? 0).isSome = true,
      (((booted.foldl (Processes.step "n1") (.start 0 0)).host? 0).get runs).pass.isNone = true ∧
        (((booted.foldl (Processes.step "n1") (.start 0 0)).host? 0).get runs).reconciler.failures.isEmpty = true := by
    decide +kernel
  have ended : ∀ runs : ((booted.foldl (Processes.step "n1") (.start 0 0)).host? 0).isSome = true,
      ∀ runs' : (((booted ++ Event.reconcile 0 [⟨7, true, 1⟩, ⟨8, false, 1⟩] :: firstPass).foldl (Processes.step "n1")
        (.start 0 0)).host? 0).isSome = true,
      (Option.get _ runs').passes = (Option.get _ runs).passes + 1 ∧ (Option.get _ runs').pass.isNone = true ∧
        (Option.get _ runs').recordingAllowed = true := by
    decide +kernel
  obtain ⟨passes, pass, allowed⟩ := ended runs runs'
  have restored := pass_restores "n1" 0 0 booted firstPass 0 [⟨7, true, 1⟩, ⟨8, false, 1⟩] (by decide +kernel)
    (Option.some_get runs).symm (Option.isNone_iff_eq_none.mp (free runs).1)
    (by rw [List.isEmpty_iff.mp (free runs).2]; exact fun _ _ wrong => absurd wrong.symm (Option.some_ne_none _))
    (by decide +kernel) (Option.some_get runs').symm ⟨passes, Option.isNone_iff_eq_none.mp pass, allowed⟩ 7
  rw [← Option.some_get runs', Option.any_some]
  exact decide_eq_true (restored.mpr (by decide))

end EdgeVms.Verified.Zombies
