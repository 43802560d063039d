import EdgeVms.Verified.Cluster.FreshEpochs

/-! # In time

A superseded process that hears nothing stops by its own clock.  The clock is read after the
store has answered; what goes by in between is the `d` of this module.
-/

namespace EdgeVms.Verified.Zombies

open Process Python EdgeVms.Cluster EdgeVms.Cluster.NodeHost
open Node (GoReconciler GoCamera)

variable {node : String} {state state' : Processes} {event : Event} {who : Nat} {host : Host}

variable {ttl margin d : ℚ}

/-- When the store wrote the epoch that the process has not got a lease for yet. -/
def issuedAt : Phase → Option ℚ
  | .issued _ since => some since
  | _ => none

/-- When the store answered the look at the lease that is under way. -/
def answeredAt : Phase → Option ℚ
  | .running host =>
    match host.tick with
    | .answered _ since => some since
    | _ => none
  | _ => none

/-- Between the answer of the store and the reading of the clock no more than `d` goes by; all hosts have one lease
time and one margin. -/
def Prompt (ttl margin d : ℚ) (state : Processes) : Event → Prop
  | .boot _ settings => settings.leaseTTL = ttl ∧ settings.leaseMargin = margin
  | .newLease who => ∀ since ∈ issuedAt (phase state who), state.now ≤ since + d
  | .renew who => ∀ since ∈ answeredAt (phase state who), state.now ≤ since + d
  | _ => True

instance (ttl margin d : ℚ) (state : Processes) : (event : Event) → Decidable (Prompt ttl margin d state event)
  | .boot _ settings => inferInstanceAs (Decidable (settings.leaseTTL = ttl ∧ settings.leaseMargin = margin))
  | .newLease who => inferInstanceAs (Decidable (∀ since ∈ issuedAt (phase state who), state.now ≤ since + d))
  | .renew who => inferInstanceAs (Decidable (∀ since ∈ answeredAt (phase state who), state.now ≤ since + d))
  | .wait _ | .links _ | .put _ _ | .exit _ | .read _ | .write _ _ | .lease _ | .fence _ | .reconcile _ _
  | .work _ _ _ => .isTrue trivial

/-- No newer epoch was written before then, but for `d`. -/
def NoneBefore (state : Processes) (epoch : Int) (then_ d : ℚ) : Prop :=
  ∀ issue ∈ state.issues, epoch < issue.epoch → then_ ≤ issue.time + d

/-- What a process knows of the time. -/
structure OnTime (ttl margin d : ℚ) (state : Processes) (who : Nat) : Prop where
  issued : ∀ epoch since, phase state who = .issued epoch since → since ≤ state.now ∧ NoneBefore state epoch since 0
  read : ∀ host live since, phase state who = .running host → host.tick = .answered live since →
    since ≤ state.now ∧ (live = some host.lease.epoch → NoneBefore state host.lease.epoch since 0)
  renewed : ∀ host, phase state who = .running host →
    (state.instances who).booted + host.lease.lastRenewal ≤ state.now ∧
      NoneBefore state host.lease.epoch ((state.instances who).booted + host.lease.lastRenewal) d
  limits : ∀ host, phase state who = .running host → host.lease.ttl = ttl ∧ host.lease.margin = margin
  settings : phase state who = .off ∨ phase state who = .exited ∨
    ((state.instances who).settings.leaseTTL = ttl ∧ (state.instances who).settings.leaseMargin = margin)

structure Timed (ttl margin d : ℚ) (state : Processes) : Prop where
  past : ∀ issue ∈ state.issues, issue.time ≤ state.now
  starts : ∀ start ∈ state.starts, start.time ≤ state.now ∧ margin < ttl ∧
    ∀ issue ∈ state.issues, start.epoch < issue.epoch → start.time < issue.time + (ttl - margin + d)
  processes : ∀ who, OnTime ttl margin d state who

theorem NoneBefore.later {epoch : Int} {then_ : ℚ} {state' : Processes} {issue : Issue}
    (none : NoneBefore state epoch then_ d) (issues : state'.issues = state.issues ++ [issue])
    (after : then_ ≤ issue.time + d) : NoneBefore state' epoch then_ d := by
  intro issue' member newer
  rw [issues] at member
  obtain old | new := List.mem_append.mp member
  · exact none issue' old newer
  · rw [List.mem_singleton.mp new]
    exact after

/-- Time goes by, and perhaps an epoch is written now. -/
theorem OnTime.moved {state' : Processes} (onTime : OnTime ttl margin d state who) (positive : 0 ≤ d)
    (later : state.now ≤ state'.now) (same : state'.instances who = state.instances who)
    (issues : state'.issues = state.issues ∨ ∃ issue, state'.issues = state.issues ++ [issue] ∧
    issue.time = state.now) :
    OnTime ttl margin d state' who := by
  have phases : phase state' who = phase state who := by rw [phase, same, phase]
  have none {epoch : Int} {then_ e : ℚ} (positive : 0 ≤ e) (before : then_ ≤ state.now)
      (old : NoneBefore state epoch then_ e) : NoneBefore state' epoch then_ e := by
    obtain issues | ⟨issue, issues, time⟩ := issues
    · unfold NoneBefore
      rw [issues]
      exact old
    · exact old.later issues (by rw [time]; linarith)
  constructor
  case issued =>
    intro epoch since here
    obtain ⟨before, old⟩ := onTime.issued epoch since (phases ▸ here)
    exact ⟨before.trans later, none le_rfl before old⟩
  case read =>
    intro host live since here waiting
    obtain ⟨before, old⟩ := onTime.read host live since (phases ▸ here) waiting
    exact ⟨before.trans later, fun own => none le_rfl before (old own)⟩
  case renewed =>
    intro host here
    rw [same]
    obtain ⟨before, old⟩ := onTime.renewed host (phases ▸ here)
    exact ⟨before.trans later, none positive before old⟩
  case limits => exact fun host here => onTime.limits host (phases ▸ here)
  case settings =>
    rw [same, phases]
    exact onTime.settings

theorem settings_setPhase (state : Processes) (who : Nat) (p : Phase) (other : Nat) :
    ((state.setPhase who p).instances other).settings = (state.instances other).settings := by
  show (Function.update state.instances who { state.instances who with phase := p } other).settings = _
  rw [Function.update_apply]
  split
  next same => rw [same]
  next => rfl

theorem OnTime.known (onTime : OnTime ttl margin d state who) {before : Phase} (here : phase state who = before)
    (on_ : before ≠ .off) (alive : before ≠ .exited) :
    (state.instances who).settings.leaseTTL = ttl ∧ (state.instances who).settings.leaseMargin = margin := by
  obtain off | exited | known := onTime.settings
  · exact absurd (here.symm.trans off) on_
  · exact absurd (here.symm.trans exited) alive
  · exact known

theorem OnTime.own (onTime : OnTime ttl margin d state who) (here : phase state who = .running host) :
    (state.instances who).settings.leaseTTL = ttl ∧ (state.instances who).settings.leaseMargin = margin :=
  onTime.known here Phase.noConfusion Phase.noConfusion

/-- The process gets to a phase in which it holds no epoch. -/
theorem OnTime.idle {after : Phase} (none : epochOf after = none)
    (settings : after = .exited ∨
      ((state.instances who).settings.leaseTTL = ttl ∧ (state.instances who).settings.leaseMargin = margin)) :
    OnTime ttl margin d (state.setPhase who after) who := by
  have now : phase (state.setPhase who after) who = after := by rw [phase_setPhase, if_pos rfl]
  have runs {host : Host} (here : phase (state.setPhase who after) who = .running host) : False := by
    rw [← now, here] at none
    cases none
  refine ⟨fun epoch since here => ?_, fun host live since here => (runs here).elim, fun host here => (runs here).elim,
    fun host here => (runs here).elim, ?_⟩
  · rw [← now, here] at none
    cases none
  · rw [settings_setPhase, now]
    exact .inr settings

/-- The epoch that was just written is the newest. -/
theorem OnTime.wrote {epoch : Int} (newest : ∀ issue ∈ state.issues, issue.epoch ≤ epoch)
    (settings : (state.instances who).settings.leaseTTL = ttl ∧ (state.instances who).settings.leaseMargin = margin) :
    OnTime ttl margin d (state.setPhase who (.issued epoch state.now)) who := by
  have now : phase (state.setPhase who (.issued epoch state.now)) who = .issued epoch state.now := by
    rw [phase_setPhase, if_pos rfl]
  have runs {host : Host} (here : phase (state.setPhase who (.issued epoch state.now)) who = .running host) : False :=
    Phase.noConfusion (now.symm.trans here)
  refine ⟨fun epoch' since here => ?_, fun host live since here => (runs here).elim, fun host here => (runs here).elim,
    fun host here => (runs here).elim, ?_⟩
  · rw [now] at here
    cases here
    exact ⟨le_rfl, fun issue member newer => absurd newer (not_lt.mpr (newest issue member))⟩
  · rw [settings_setPhase]
    exact .inr (.inr settings)

/-- The host is now this one: what has to be known of its look at the store, and of its last renewal. -/
theorem OnTime.runs
    (settings : (state.instances who).settings.leaseTTL = ttl ∧ (state.instances who).settings.leaseMargin = margin)
    (read : ∀ live since, after.tick = .answered live since →
      since ≤ state.now ∧ (live = some after.lease.epoch → NoneBefore state after.lease.epoch since 0))
    (renewed : (state.instances who).booted + after.lease.lastRenewal ≤ state.now ∧
      NoneBefore state after.lease.epoch ((state.instances who).booted + after.lease.lastRenewal) d)
    (limits : after.lease.ttl = ttl ∧ after.lease.margin = margin) :
    OnTime ttl margin d (state.setPhase who (.running after)) who := by
  have now {host : Host} (here : phase (state.setPhase who (.running after)) who = .running host) : host = after := by
    rw [phase_setPhase, if_pos rfl] at here
    exact (Phase.running.inj here).symm
  refine ⟨fun epoch since here => ?_, fun host live since here waiting => ?_, fun host here => ?_, fun host here => ?_,
    .inr (.inr ?_)⟩
  · rw [phase_setPhase, if_pos rfl] at here
    cases here
  · obtain rfl := now here
    exact read live since waiting
  · obtain rfl := now here
    rw [booted_setPhase]
    exact renewed
  · obtain rfl := now here
    exact limits
  · rw [settings_setPhase]
    exact settings

theorem OnTime.turn (numbered : Numbered node state) (onTime : OnTime ttl margin d state who)
    {event : Event} (prompt : Prompt ttl margin d state event) {before after : Phase} (here : phase state who = before)
    (turn : Turn node state who event before after) :
    OnTime ttl margin d (state.setPhase who after) who := by
  cases turn with
  | exit => exact .idle rfl (.inl rfl)
  | read => exact .idle rfl (.inr (onTime.known here Phase.noConfusion Phase.noConfusion))
  | conflict => exact .idle rfl (.inr (onTime.known here Phase.noConfusion Phase.noConfusion))
  | @newLease epoch since =>
    have settings := onTime.known here Phase.noConfusion Phase.noConfusion
    obtain ⟨before, none⟩ := onTime.issued epoch since here
    have soon := prompt since (by rw [here]; rfl)
    have clock : (state.instances who).booted + state.clock who = state.now := by rw [Processes.clock]; ring
    refine .runs settings (fun live since waiting => Tick.noConfusion waiting) ?_ settings
    show (state.instances who).booted + state.clock who ≤ _ ∧
        NoneBefore state epoch ((state.instances who).booted + state.clock who) d
    rw [clock]
    refine ⟨le_rfl, fun issue member newer => ?_⟩
    have late := none issue member newer
    linarith
  | @asked host idle fenced =>
    exact .runs (onTime.own here) (fun live since waiting => Tick.noConfusion waiting)
      (onTime.renewed host here) (onTime.limits host here)
  | @answered host idle holds =>
    refine .runs (onTime.own here) (fun live since waiting => ?_) (onTime.renewed host here)
      (onTime.limits host here)
    cases waiting
    refine ⟨le_rfl, fun own issue member newer => ?_⟩
    have newer : host.lease.epoch < issue.epoch := newer
    have most := (epoch_bounds numbered member).2
    split at own
    · have same : currentEpoch (state.row node) = host.lease.epoch := Option.some.inj own
      rw [numbered.row] at same
      omega
    · cases own
  | @renewed host live since waiting =>
    have soon := prompt since (by rw [here, answeredAt, waiting]; rfl)
    obtain ⟨before, own⟩ := onTime.read host live since here waiting
    have old := onTime.renewed host here
    have limits := onTime.limits host here
    have settings := onTime.own here
    have idle {live' since'} (waiting' : (host.renew live (state.clock who)).tick = .answered live' since') : False :=
      by
      unfold Host.renew at waiting'
      dsimp only at waiting'
      split at waiting' <;> cases waiting'
    cases live with
    | none => exact .runs settings (fun live' since' waiting' => (idle waiting').elim) old limits
    | some live =>
      by_cases same : live = host.lease.epoch
      · have clock : (state.instances who).booted + state.clock who = state.now := by rw [Processes.clock]; ring
        have lease : (host.renew (some live) (state.clock who)).lease =
            { host.lease with lastRenewal := state.clock who } := by
          simp only [Host.renew, Lease.renew, same, ne_eq, not_true_eq_false, if_false]
        refine .runs settings (fun live' since' waiting' => (idle waiting').elim) ?_ ?_
        · rw [lease]
          dsimp only
          rw [clock]
          refine ⟨le_rfl, fun issue member newer => ?_⟩
          have late := own (by rw [same]) issue member newer
          linarith
        · rw [lease]
          exact limits
      · have lease : (host.renew (some live) (state.clock who)).lease =
            { host.lease with fenced := true, conflicts := host.lease.conflicts + 1 } := by
          simp only [Host.renew, Lease.renew, same, ne_eq, not_false_eq_true, if_true]
        refine .runs settings (fun live' since' waiting' => (idle waiting').elim) ?_ ?_
        · rw [lease]
          exact old
        · rw [lease]
          exact limits
  | @fenced host why failed free =>
    refine .runs (onTime.own here) (fun live since waiting => Tick.noConfusion waiting) ?_ ?_
    · rw [fence_lease]
      exact onTime.renewed host here
    · rw [fence_lease]
      exact onTime.limits host here
  | @begins host rows free =>
    exact .runs (onTime.own here) (fun live since waiting => onTime.read host live since here waiting)
      (onTime.renewed host here) (onTime.limits host here)

theorem timed_start (ttl margin d now : ℚ) (index : Nat) : Timed ttl margin d (.start now index) where
  past := fun _ member => absurd member List.not_mem_nil
  starts := fun _ member => absurd member List.not_mem_nil
  processes _ := {
    issued := fun _ _ here => Phase.noConfusion here
    read := fun _ _ _ here => Phase.noConfusion here
    renewed := fun _ here => Phase.noConfusion here
    limits := fun _ here => Phase.noConfusion here
    settings := .inl rfl }

/-- Nothing is written and nothing started. -/
theorem Timed.moved {state' : Processes} (timed : Timed ttl margin d state) (later : state.now ≤ state'.now)
    (issues : state'.issues = state.issues) (starts : state'.starts = state.starts)
    (processes : ∀ who, OnTime ttl margin d state' who) : Timed ttl margin d state' where
  past issue member := (timed.past issue (issues ▸ member)).trans later
  starts start member := by
    rw [starts] at member
    rw [issues]
    obtain ⟨past, before⟩ := timed.starts start member
    exact ⟨past.trans later, before⟩
  processes := processes

/-- What is started now is started in time. -/
theorem Timed.work (timed : Timed ttl margin d state) {fails : Bool} {random : ℚ}
    (here : phase state who = .running host)
    {start : Start} (member : start ∈ state.started who host (host.work (state.clock who) fails random)) :
    start.time ≤ state.now ∧ margin < ttl ∧
      ∀ issue ∈ state.issues, start.epoch < issue.epoch → start.time < issue.time + (ttl - margin + d) := by
  obtain ⟨-, epoch, time, -, writes⟩ := mem_started (work_called host (state.clock who) fails random) member
  obtain ⟨limit, limit'⟩ := (timed.processes who).limits host here
  obtain ⟨past, none⟩ := (timed.processes who).renewed host here
  unfold Lease.mayWrite at writes
  rw [Bool.and_eq_true, decide_eq_true_eq, Processes.clock, limit, limit'] at writes
  refine ⟨time.le, by linarith [writes.2], fun issue issued newer => ?_⟩
  rw [epoch] at newer
  have renewal := none issue issued newer
  rw [time]
  linarith [writes.2]

theorem Timed.does (timed : Timed ttl margin d state) (positive : 0 ≤ d) (numbered : Numbered node state)
    (small : state.issues.length + 1 < 2 ^ 63) (prompt : Prompt ttl margin d state event)
    (does : Does node state event state') :
    Timed ttl margin d state' := by
  cases does with
  | quiet later instances row version index issues starts =>
    exact timed.moved later issues starts fun who =>
      (timed.processes who).moved positive later (by rw [instances]) (.inl issues)
  | @boot who settings named off =>
    refine timed.moved le_rfl rfl rfl fun other => ?_
    by_cases same : other = who
    · subst same
      have now : phase { state with
          instances :=
            Function.update state.instances other ⟨settings, state.now, .reading 10⟩ } other = .reading 10 := by
        rw [phase_boot, if_pos rfl]
      refine ⟨fun epoch since here => ?_, fun host live since here => ?_, fun host here => ?_, fun host here => ?_, ?_⟩
      · exact Phase.noConfusion (now.symm.trans here)
      · exact Phase.noConfusion (now.symm.trans here)
      · exact Phase.noConfusion (now.symm.trans here)
      · exact Phase.noConfusion (now.symm.trans here)
      · rw [named] at prompt
        refine .inr (.inr ?_)
        dsimp only
        rw [Function.update_self]
        exact prompt
    · exact (timed.processes other).moved positive le_rfl (Function.update_of_ne same _ _) (.inl rfl)
  | @turn who before after here turn =>
    refine timed.moved le_rfl rfl rfl fun other => ?_
    by_cases same : other = who
    · subst same
      exact (timed.processes other).turn numbered prompt here turn
    · exact (timed.processes other).moved positive le_rfl (Function.update_of_ne same _ _) (.inl rfl)
  | @issue who left index current outcome after here named stands after_eq =>
    have next := next_epoch numbered small here stands
    constructor
    case past =>
      intro issue member
      obtain old | new := List.mem_append.mp member
      · exact timed.past issue old
      · rw [List.mem_singleton.mp new]
        exact le_rfl
    case starts =>
      intro start member
      obtain ⟨past, wide, before⟩ := timed.starts start member
      refine ⟨past, wide, fun issue issued newer => ?_⟩
      obtain old | new := List.mem_append.mp issued
      · exact before issue old newer
      · rw [List.mem_singleton.mp new]
        have past : start.time ≤ state.now := past
        show start.time < state.now + (ttl - margin + d)
        linarith
    case processes =>
      intro other
      by_cases same : other = who
      · subst same
        have settings := (timed.processes other).known here Phase.noConfusion Phase.noConfusion
        obtain rfl | rfl := after_eq
        · exact .idle rfl (.inl rfl)
        · refine .wrote (fun issue member => ?_) settings
          obtain old | new := List.mem_append.mp member
          · have most := (epoch_bounds numbered old).2
            rw [next]
            omega
          · rw [List.mem_singleton.mp new]
      · exact (timed.processes other).moved positive le_rfl (Function.update_of_ne same _ _) (.inr ⟨_, rfl, rfl⟩)
  | @work who host fails random named here =>
    have called := work_called host (state.clock who) fails random
    constructor
    case past => exact timed.past
    case starts =>
      intro start member
      obtain old | new := List.mem_append.mp member
      · exact timed.starts start old
      · exact timed.work here new
    case processes =>
      intro other
      by_cases same : other = who
      · subst same
        have settings := (timed.processes other).own here
        have onTime : OnTime ttl margin d
            (state.setPhase other (.running (host.work (state.clock other) fails random))) other := by
          refine .runs settings (fun live since waiting => ?_) ?_ ?_
          · rw [called.tick] at waiting
            rw [called.lease]
            exact (timed.processes other).read host live since here waiting
          · rw [called.lease]
            exact (timed.processes other).renewed host here
          · rw [called.lease]
            exact (timed.processes other).limits host here
        exact onTime.moved positive le_rfl rfl (.inl rfl)
      · exact (timed.processes other).moved positive le_rfl (Function.update_of_ne same _ _) (.inl rfl)

theorem timed_run (positive : 0 ≤ d) (numbered : Numbered node state) (timed : Timed ttl margin d state)
    {events : List Event} (prompt : Along (Processes.step node) (Prompt ttl margin d) events state)
    (small : state.issues.length + events.length < 2 ^ 63) :
    Timed ttl margin d (events.foldl (Processes.step node) state) := by
  induction events generalizing state with
  | nil => exact timed
  | cons event rest ih =>
    rw [List.length_cons] at small
    obtain ⟨here, later⟩ := along_cons.mp prompt
    have does := does_step node state event
    obtain ⟨kept, length⟩ := numbered.does (by omega) does
    exact ih kept (timed.does positive numbered (by omega) here does) later (by omega)

end EdgeVms.Verified.Zombies
