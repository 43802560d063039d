import EdgeVms.Verified.Cluster.Zombies

/-! # Fresh epochs

The epochs of a Node are numbered in the order of their writes, in any interleaving of the
processes that ask for one, and a host is fenced for a newer one or for a lapse of its lease.
-/

namespace EdgeVms.Verified.Zombies

open Process Python EdgeVms.Cluster EdgeVms.Cluster.NodeHost
open Node (GoReconciler GoCamera)

variable {node : String} {state state' : Processes} {event : Event} {who : Nat} {host : Host}

/-- The epoch that a process records into. -/
def epochOf : Phase → Option Int
  | .issued epoch _ => some epoch
  | .running host => some host.lease.epoch
  | _ => none

/-- What a process knows of the epochs. -/
structure Fits (node : String) (state : Processes) (who : Nat) : Prop where
  /-- What it holds was issued to it. -/
  held : ∀ epoch, epochOf (phase state who) = some epoch →
    ∃ issue ∈ state.issues, issue.who = who ∧ issue.epoch = epoch
  /-- What it has read under a version that still stands is still there. -/
  fresh : ∀ left current index, phase state who = .writing left current index → index ≤ state.vars.index ∧
    (index = state.vars.version (epochPath node) → current = currentEpoch (state.row node))
  /-- It is issued one epoch and no more. -/
  once : (∀ issue ∈ state.issues, issue.who ≠ who) ∨ phase state who = .exited ∨
    (epochOf (phase state who)).isSome

/-- The epochs are 1, 2 and so on, in the order of their writes, and the row has the last. -/
structure Numbered (node : String) (state : Processes) : Prop where
  epochs : state.issues.map Issue.epoch = (List.range' 1 state.issues.length).map fun k : Nat => (k : Int)
  row : currentEpoch (state.row node) = state.issues.length
  single : (state.issues.map Issue.who).Nodup
  fits : ∀ who, Fits node state who

theorem int64_of_small {n : Nat} (small : n < 2 ^ 63) : int64 n = n := by
  exact Int.bmod_eq_of_le (by omega) (by omega)

theorem currentEpoch_written {n : Nat} (small : n < 2 ^ 63) :
    currentEpoch (some [("epoch", toString (n : Int))]) = n := by
  have text : Dict.getD [("epoch", toString (n : Int))] "epoch" "" = toString (n : Int) := rfl
  rw [currentEpoch, Option.getD_some, text, atoi, Restore.parseInt_toString]
  omega

theorem numbered_start (node : String) (now : ℚ) (index : Nat) : Numbered node (.start now index) where
  epochs := rfl
  row := by
    have empty : currentEpoch none = 0 := by decide
    exact empty
  single := List.nodup_nil
  fits who := by
    refine ⟨fun epoch held => ?_, fun left current index here => ?_, .inl fun issue member => ?_⟩
    · cases held
    · cases here
    · cases member

/-- Where nothing is written, a process keeps what it knows. -/
theorem Fits.moved {state' : Processes} (fits : Fits node state who) (issues : state'.issues = state.issues)
    (row : state'.row node = state.row node)
    (version : state'.vars.version (epochPath node) = state.vars.version (epochPath node))
    (index : state.vars.index ≤ state'.vars.index) (same : phase state' who = phase state who) :
    Fits node state' who where
  held := by
    rw [issues, same]
    exact fits.held
  fresh left current index' here := by
    rw [same] at here
    obtain ⟨old, stands⟩ := fits.fresh left current index' here
    rw [version, row]
    exact ⟨old.trans index, stands⟩
  once := by
    rw [issues, same]
    exact fits.once

theorem renew_epoch (host : Host) (live : Option Int) (clock : ℚ) :
    (host.renew live clock).lease.epoch = host.lease.epoch := by
  cases live with
  | none => rfl
  | some live =>
    simp only [Host.renew, Lease.renew]
    split <;> rfl

theorem fence_lease (host : Host) : host.fence.lease = host.lease := by
  unfold Host.fence
  split <;> rfl

/-- The turns of a process, by what it knows after them. -/
theorem Fits.turn (fits : Fits node state who) {event : Event} {before after : Phase} (here : phase state who = before)
    (turn : Turn node state who event before after) : Fits node (state.setPhase who after) who := by
  have now : phase (state.setPhase who after) who = after := by rw [phase_setPhase, if_pos rfl]
  have kept (same : epochOf after = epochOf before) (writes : ∀ left current index, after ≠ .writing left current index)
      (out : before ≠ .exited) : Fits node (state.setPhase who after) who := by
    refine ⟨?_, fun left current index written => absurd (now.symm.trans written) (writes left current index), ?_⟩
    · rw [now, same, ← here]
      exact fits.held
    · rw [now, same, ← here]
      obtain never | exited | some_ := fits.once
      · exact .inl never
      · exact absurd (here.symm.trans exited) out
      · exact .inr (.inr some_)
  have fresh (nothing : epochOf before = none) (out : before ≠ .exited) : ∀ issue ∈ state.issues, issue.who ≠ who := by
    obtain never | exited | some_ := fits.once
    · exact never
    · exact absurd (here.symm.trans exited) out
    · rw [here, nothing] at some_
      cases some_
  cases turn with
  | exit =>
    refine ⟨fun epoch held => ?_, fun left current index written => ?_, .inr (.inl now)⟩
    · rw [now] at held
      cases held
    · rw [now] at written
      cases written
  | read =>
    refine ⟨fun epoch held => ?_, fun left current index written => ?_, .inl (fresh rfl Phase.noConfusion)⟩
    · rw [now] at held
      cases held
    · rw [now] at written
      cases written
      exact ⟨state.vars.version_le _, fun _ => rfl⟩
  | conflict => exact kept rfl (fun _ _ _ => Phase.noConfusion) Phase.noConfusion
  | newLease => exact kept rfl (fun _ _ _ => Phase.noConfusion) Phase.noConfusion
  | asked | answered | begins => exact kept rfl (fun _ _ _ => Phase.noConfusion) Phase.noConfusion
  | @renewed host live since waiting =>
    refine kept ?_ (fun _ _ _ => Phase.noConfusion) Phase.noConfusion
    rw [epochOf, renew_epoch, epochOf]
  | @fenced host why failed free =>
    refine kept ?_ (fun _ _ _ => Phase.noConfusion) Phase.noConfusion
    rw [epochOf, fence_lease, epochOf]

/-- What the process has read, nobody has written over: it writes the next number. -/
theorem next_epoch (numbered : Numbered node state) (small : state.issues.length + 1 < 2 ^ 63) {left index : Nat}
    {current : Int} (here : phase state who = .writing left current index)
    (stands : index = state.vars.version (epochPath node)) :
    int64 (current + 1) = ((state.issues.length + 1 : Nat) : Int) := by
  have read : current = state.issues.length := by
    rw [((numbered.fits who).fresh left current index here).2 stands, numbered.row]
  rw [read, ← int64_of_small small]
  norm_cast

theorem numbered_issue (numbered : Numbered node state) (small : state.issues.length + 1 < 2 ^ 63)
    {left index : Nat} {current : Int} (here : phase state who = .writing left current index)
    (stands : index = state.vars.version (epochPath node)) {after : Phase}
    (after_eq : after = .exited ∨ after = .issued (int64 (current + 1)) state.now) :
    Numbered node (({ state with
      vars := state.vars.write (epochPath node) [("epoch", toString (int64 (current + 1)))]
      issues := state.issues ++ [⟨who, int64 (current + 1), state.now⟩] } : Processes).setPhase who after) := by
  have next := next_epoch numbered small here stands
  have never : ∀ issue ∈ state.issues, issue.who ≠ who := by
    obtain never | exited | some_ := (numbered.fits who).once
    · exact never
    · rw [here] at exited
      cases exited
    · rw [here] at some_
      cases some_
  rw [next] at after_eq ⊢
  constructor
  case epochs =>
    show (state.issues ++ [_]).map Issue.epoch = (List.range' 1 (state.issues ++ [_]).length).map _
    rw [List.map_append, numbered.epochs, List.length_append, List.length_singleton, List.range'_concat,
      List.map_append,
      List.map_singleton, List.map_singleton, Nat.one_mul, Nat.add_comm 1]
  case row =>
    show currentEpoch ((state.vars.write (epochPath node) _).read (epochPath node)) =
        ((state.issues ++ [_]).length : Int)
    rw [Versioned.read_write_self, currentEpoch_written small, List.length_append, List.length_singleton]
  case single =>
    show ((state.issues ++ [_]).map Issue.who).Nodup
    rw [List.map_append, List.map_singleton, List.nodup_append]
    refine ⟨numbered.single, List.nodup_singleton _, fun other old new fresh => ?_⟩
    obtain ⟨issue, member, rfl⟩ := List.mem_map.mp old
    rw [List.mem_singleton.mp fresh]
    exact never issue member
  case fits =>
    intro other
    by_cases same : other = who
    · subst same
      have now {state' : Processes} : phase (state'.setPhase other after) other = after :=
        by rw [phase_setPhase, if_pos rfl]
      refine ⟨fun epoch held => ?_, fun left' current' index' written => ?_, ?_⟩
      · rw [now] at held
        obtain rfl | rfl := after_eq
        · cases held
        · cases held
          exact ⟨_, List.mem_append_right _ (List.mem_singleton_self _), rfl, rfl⟩
      · rw [now] at written
        obtain rfl | rfl := after_eq <;> cases written
      · rw [now]
        obtain rfl | rfl := after_eq
        · exact .inr (.inl rfl)
        · exact .inr (.inr rfl)
    · have phases {state' : Processes} : phase (state'.setPhase who after) other = phase state' other := by
        rw [phase_setPhase, if_neg same]
      have old := numbered.fits other
      refine ⟨fun epoch held => ?_, fun left' current' index' written => ?_, ?_⟩
      · rw [phases] at held
        obtain ⟨issue, member, mine⟩ := old.held epoch held
        exact ⟨issue, List.mem_append_left _ member, mine⟩
      · rw [phases] at written
        obtain ⟨before, -⟩ := old.fresh left' current' index' written
        refine ⟨before.trans (Nat.le_succ _), fun same' => ?_⟩
        have version :
            (state.vars.write (epochPath node) [("epoch", toString ((state.issues.length + 1 : Nat) : Int))]).version
            (epochPath node) = state.vars.index + 1 := Versioned.version_write_self ..
        have late : index' = state.vars.index + 1 := same'.trans version
        omega
      · rw [phases]
        obtain never' | ends := old.once
        · refine .inl fun issue member => ?_
          obtain before | new := List.mem_append.mp member
          · exact never' issue before
          · rw [List.mem_singleton.mp new]
            exact Ne.symm same
        · exact .inr ends

theorem Numbered.does (numbered : Numbered node state) (small : state.issues.length + 1 < 2 ^ 63)
    (does : Does node state event state') : Numbered node state' ∧ state'.issues.length ≤ state.issues.length + 1 := by
  cases does with
  | quiet later instances row version index issues starts =>
    have fits (who : Nat) : Fits node state' who :=
      (numbered.fits who).moved issues row version index (by rw [phase, instances, phase])
    refine ⟨⟨?_, ?_, ?_, fits⟩, by rw [issues]; exact Nat.le_succ _⟩
    · rw [issues]
      exact numbered.epochs
    · rw [row, issues]
      exact numbered.row
    · rw [issues]
      exact numbered.single
  | @boot who settings named off =>
    refine ⟨⟨numbered.epochs, numbered.row, numbered.single, fun other => ?_⟩, Nat.le_succ _⟩
    by_cases same : other = who
    · subst same
      have now : phase { state with
          instances :=
            Function.update state.instances other ⟨settings, state.now, .reading 10⟩ } other = .reading 10 := by
        simp [phase]
      refine ⟨fun epoch held => ?_, fun left current index written => ?_, ?_⟩
      · rw [now] at held
        cases held
      · rw [now] at written
        cases written
      · obtain never | exited | some_ := (numbered.fits other).once
        · exact .inl never
        · rw [off] at exited
          cases exited
        · rw [off] at some_
          cases some_
    · refine (numbered.fits other).moved rfl rfl rfl le_rfl ?_
      simp [phase, Function.update_of_ne same]
  | @turn who before after here turn =>
    refine ⟨⟨numbered.epochs, numbered.row, numbered.single, fun other => ?_⟩, Nat.le_succ _⟩
    by_cases same : other = who
    · subst same
      exact (numbered.fits other).turn here turn
    · exact (numbered.fits other).moved rfl rfl rfl le_rfl (by rw [phase_setPhase, if_neg same])
  | @issue who left index current outcome after here named stands after_eq =>
    refine ⟨numbered_issue numbered small here stands after_eq, ?_⟩
    show (state.issues ++ [_]).length ≤ _
    rw [List.length_append, List.length_singleton]
  | @work who host fails random named here =>
    refine ⟨⟨numbered.epochs, numbered.row, numbered.single, fun other => ?_⟩, Nat.le_succ _⟩
    have called := work_called host (state.clock who) fails random
    have fits : Fits node (state.setPhase who (.running (host.work (state.clock who) fails random))) other := by
      by_cases same : other = who
      · subst same
        refine ⟨fun epoch held => ?_, fun left current index written => ?_, ?_⟩
        · rw [phase_setPhase, if_pos rfl, epochOf, called.lease] at held
          refine (numbered.fits other).held epoch ?_
          rw [here, epochOf]
          exact held
        · rw [phase_setPhase, if_pos rfl] at written
          cases written
        · refine .inr (.inr ?_)
          rw [phase_setPhase, if_pos rfl]
          rfl
      · exact (numbered.fits other).moved rfl rfl rfl le_rfl (by rw [phase_setPhase, if_neg same])
    exact fits.moved rfl rfl rfl le_rfl rfl

theorem numbered_run (numbered : Numbered node state) (events : List Event)
    (small : state.issues.length + events.length < 2 ^ 63) :
    Numbered node (events.foldl (Processes.step node) state) := by
  induction events generalizing state with
  | nil => exact numbered
  | cons event rest ih =>
    rw [List.length_cons] at small
    obtain ⟨kept, length⟩ := numbered.does (by omega) (does_step node state event)
    exact ih kept (by omega)

theorem epoch_bounds (numbered : Numbered node state) {issue : Issue} (member : issue ∈ state.issues) :
    1 ≤ issue.epoch ∧ issue.epoch ≤ state.issues.length := by
  have listed : issue.epoch ∈ state.issues.map Issue.epoch := List.mem_map_of_mem member
  rw [numbered.epochs, List.mem_map] at listed
  obtain ⟨k, inside, same⟩ := listed
  rw [List.mem_range'_1] at inside
  omega

theorem pairwise_epochs (numbered : Numbered node state) :
    state.issues.Pairwise fun first second => first.epoch < second.epoch := by
  have sorted : (state.issues.map Issue.epoch).Pairwise (· < ·) := by
    rw [numbered.epochs, List.pairwise_map]
    exact (List.pairwise_lt_range').imp fun less => Int.ofNat_lt.mpr less
  exact List.pairwise_map.mp sorted

/-- Two processes never record into one epoch, the epochs grow in the order in which they are written, and the store
has the last of them, in every run of fewer than 2 ^ 63 steps. -/
theorem epochs_apart (node : String) (now : ℚ) (index : Nat) (events : List Event) (few : events.length < 2 ^ 63) :
    let state := events.foldl (Processes.step node) (.start now index)
    (∀ who other epoch, epochOf (phase state who) = some epoch → epochOf (phase state other) = some epoch →
      who = other) ∧
      (state.issues.Pairwise fun first second => first.epoch < second.epoch) ∧
        ∀ issue ∈ state.issues, issue.epoch ≤ currentEpoch (state.row node) := by
  intro state
  have numbered : Numbered node state :=
    numbered_run (numbered_start node now index) events (by simpa [Processes.start] using few)
  refine ⟨fun who other epoch mine others => ?_, pairwise_epochs numbered, fun issue member => ?_⟩
  · obtain ⟨issue, member, rfl, rfl⟩ := (numbered.fits who).held epoch mine
    obtain ⟨issue', member', rfl, same⟩ := (numbered.fits other).held _ others
    have nodup : (state.issues.map Issue.epoch).Nodup :=
      List.pairwise_map.mpr ((pairwise_epochs numbered).imp ne_of_lt)
    rw [List.inj_on_of_nodup_map nodup member' member same]
  · rw [numbered.row]
    exact (epoch_bounds numbered member).2

theorem epochs_apart_takeover :
    (takeover.foldl (Processes.step "n1") (.start 0 0)).issues.Pairwise fun first second =>
      first.epoch < second.epoch :=
  (epochs_apart "n1" 0 0 takeover (by decide)).2.1

/-! ## A newer epoch -/

/-- The host is fenced, or about to be. -/
def Ending (host : Host) : Prop := host.recordingAllowed = false ∨ ∃ why, host.tick = .failed why

theorem lasting_ending (node : String) : Lasting node Ending where
  turn turn ending := by
    cases turn with
    | exit => exact .inl rfl
    | asked idle fenced => exact .inr ⟨_, rfl, .inr ⟨_, rfl⟩⟩
    | answered idle holds =>
      obtain closed | ⟨why, failed⟩ := ending
      · exact .inr ⟨_, rfl, .inl closed⟩
      · rw [idle] at failed
        cases failed
    | renewed waiting =>
      obtain closed | ⟨why, failed⟩ := ending
      · exact .inr ⟨_, rfl, .inl closed⟩
      · rw [waiting] at failed
        cases failed
    | fenced failed free =>
      refine .inr ⟨_, rfl, .inl ?_⟩
      unfold Host.fence
      split
      next => rfl
      next closed => exact Bool.not_eq_true _ ▸ closed
    | begins free => exact .inr ⟨_, rfl, ending⟩
  work called ending := by
    unfold Ending
    rw [called.allowed, called.tick]
    exact ending

/-- Or it has read another epoch. -/
def Doomed (host : Host) : Prop :=
  Ending host ∨ ∃ live since, host.tick = .answered (some live) since ∧ live ≠ host.lease.epoch

theorem lasting_doomed (node : String) : Lasting node Doomed where
  turn turn doomed := by
    obtain ending | ⟨live, since, waiting, other⟩ := doomed
    · obtain exited | ⟨host, same, ending⟩ := (lasting_ending node).turn turn ending
      · exact .inl exited
      · exact .inr ⟨host, same, .inl ending⟩
    · cases turn with
      | exit => exact .inl rfl
      | asked idle | answered idle =>
        rw [idle] at waiting
        cases waiting
      | renewed waiting' =>
        rw [waiting] at waiting'
        cases waiting'
        refine .inr ⟨_, rfl, .inl (.inr ?_)⟩
        simp only [Host.renew, Lease.renew, other, if_true, ne_eq, not_false_eq_true, Bool.false_eq_true, if_false]
        exact ⟨_, rfl⟩
      | fenced failed free =>
        rw [waiting] at failed
        cases failed
      | begins free => exact .inr ⟨_, rfl, .inr ⟨live, since, waiting, other⟩⟩
  work called doomed := by
    unfold Doomed Ending
    rw [called.allowed, called.tick, called.lease]
    exact doomed

/-- Once the lease of a superseded host is looked at, the look ends in the fence: where `leaseOnce` is idle again,
nothing runs. -/
theorem superseded_stops (node : String) (now : ℚ) (index : Nat) (first later : List Event) (who : Nat)
    (few : first.length < 2 ^ 63) {host host' : Host}
    (runs : (first.foldl (Processes.step node) (.start now index)).host? who = some host)
    (idle : host.tick = .idle) (answers : (first.foldl (Processes.step node) (.start now index)).answers who = true)
    (newer : ∃ issue ∈ (first.foldl (Processes.step node) (.start now index)).issues, host.lease.epoch < issue.epoch)
    (runs' : ((first ++ .lease who :: later).foldl (Processes.step node) (.start now index)).host? who = some host')
    (idle' : host'.tick = .idle) :
    host'.recordingAllowed = false ∧ host'.actuator.running = [] := by
  have quiet := (stable_quiet node).run (first ++ .lease who :: later) (hosts_start now index Quiet)
  rw [host?_eq_some] at runs runs'
  have closed : host'.recordingAllowed = false := by
    have numbered : Numbered node (first.foldl (Processes.step node) (.start now index)) :=
      numbered_run (numbered_start node now index) first (by simpa [Processes.start] using few)
    rw [List.foldl_append, List.foldl_cons] at runs'
    generalize first.foldl (Processes.step node) (.start now index) = state at *
    have asked : Lasts Doomed (state.step node (.lease who)) who := by
      have here : (state.instances who).phase = .running host := runs
      simp only [Processes.step, here, idle]
      refine .inr ⟨_, by rw [phase_setPhase, if_pos rfl], ?_⟩
      cases fenced : host.lease.fenced with
      | true => exact .inl (.inr ⟨_, rfl⟩)
      | false =>
        refine .inr ⟨_, _, by rw [answers]; rfl, ?_⟩
        obtain ⟨issue, member, less⟩ := newer
        have most := (epoch_bounds numbered member).2
        show currentEpoch (state.row node) ≠ host.lease.epoch
        rw [numbered.row]
        omega
    obtain exited | ⟨host'', same, doomed⟩ := (lasting_doomed node).run asked later
    · rw [runs'] at exited
      cases exited
    · rw [runs'] at same
      cases same
      obtain (closed | ⟨why, failed⟩) | ⟨live, since, waiting, -⟩ := doomed
      · exact closed
      · rw [idle'] at failed
        cases failed
      · rw [idle'] at waiting
        cases waiting
  exact ⟨closed, quiet who host' runs' closed⟩

theorem superseded_stops_takeover :
    ((found.foldl (Processes.step "n1") (.start 0 0)).host? 0).any (fun host => host.actuator.running = []) = true := by
  have runs : ((takeover.foldl (Processes.step "n1") (.start 0 0)).host? 0).isSome = true := by decide +kernel
  have runs' : ((found.foldl (Processes.step "n1") (.start 0 0)).host? 0).isSome = true := by decide +kernel
  have idle : ∀ runs : ((takeover.foldl (Processes.step "n1") (.start 0 0)).host? 0).isSome = true,
      (((takeover.foldl (Processes.step "n1") (.start 0 0)).host? 0).get runs).tick = .idle := by
    decide +kernel
  have idle' : ∀ runs : ((found.foldl (Processes.step "n1") (.start 0 0)).host? 0).isSome = true,
      (((found.foldl (Processes.step "n1") (.start 0 0)).host? 0).get runs).tick = .idle := by
    decide +kernel
  have newer : ∀ runs : ((takeover.foldl (Processes.step "n1") (.start 0 0)).host? 0).isSome = true,
      ∃ issue ∈ (takeover.foldl (Processes.step "n1") (.start 0 0)).issues,
        (((takeover.foldl (Processes.step "n1") (.start 0 0)).host? 0).get runs).lease.epoch < issue.epoch := by
    decide +kernel
  have stops :=
    superseded_stops "n1" 0 0 takeover [.renew 0, .fence 0] 0 (by decide) (Option.some_get runs).symm (idle runs)
    (by decide +kernel) (newer runs) (Option.some_get runs').symm (idle' runs')
  rw [← Option.some_get runs', Option.any_some]
  exact decide_eq_true stops.2

/-! ## Causes -/

/-- The lease has run out before the store was heard from again. -/
def Lapses (who : Nat) (state : Processes) (event : Event) : Prop :=
  event = .renew who ∧ ∃ host since, phase state who = .running host ∧ host.tick = .answered none since ∧
    host.lease.mayWrite (state.clock who) = false

/-- The host has lost its lease, or will find out. -/
def Lost (host : Host) : Prop := Doomed host ∨ host.lease.fenced = true

/-- The host that has lost its lease has lost it to a newer epoch. -/
def Outlived (state : Processes) (who : Nat) : Prop :=
  ∀ host, phase state who = .running host → Lost host → ∃ issue ∈ state.issues, host.lease.epoch < issue.epoch

theorem mem_last (numbered : Numbered node state) {epoch : Int} (issued : 1 ≤ epoch)
    (less : epoch < state.issues.length) :
    ∃ issue ∈ state.issues, epoch < issue.epoch := by
  have last : (state.issues.length : Int) ∈ state.issues.map Issue.epoch := by
    rw [numbered.epochs, List.mem_map]
    exact ⟨state.issues.length, List.mem_range'_1.mpr (by omega), rfl⟩
  obtain ⟨issue, member, same⟩ := List.mem_map.mp last
  exact ⟨issue, member, by omega⟩

theorem Outlived.turn (outlived : Outlived state who) (numbered : Numbered node state) (keeps : ¬Lapses who state event)
    {before : Phase} (here : phase state who = before) (turn : Turn node state who event before (.running host))
    (lost : Lost host) : ∃ issue ∈ state.issues, host.lease.epoch < issue.epoch := by
  cases turn with
  | newLease =>
    obtain ((closed | ⟨why, failed⟩) | ⟨live, since, waiting, -⟩) | fenced := lost
    · cases closed
    · cases failed
    · cases waiting
    · cases fenced
  | @asked host idle fenced => exact outlived host here (.inr fenced)
  | @answered host idle holds =>
    obtain ((closed | ⟨why, failed⟩) | ⟨live, since, waiting, other⟩) | fenced := lost
    · exact outlived host here (.inl (.inl (.inl closed)))
    · cases failed
    · have answer : (if state.answers who then some (currentEpoch (state.row node)) else none) = some live :=
        (Tick.answered.inj waiting).1
      split at answer
      · have same : currentEpoch (state.row node) = live := Option.some.inj answer
        rw [numbered.row] at same
        obtain ⟨issue, member, -, own⟩ := (numbered.fits who).held host.lease.epoch (by rw [here]; rfl)
        have bounds := epoch_bounds numbered member
        have apart : live ≠ host.lease.epoch := other
        have newer : ∃ issue ∈ state.issues, host.lease.epoch < issue.epoch := mem_last numbered (by omega) (by omega)
        exact newer
      · cases answer
    · rw [holds] at fenced
      cases fenced
  | @renewed host live since waiting =>
    rw [renew_epoch]
    cases live with
    | none =>
      have time : host.lease.mayWrite (state.clock who) = true := by
        cases time : host.lease.mayWrite (state.clock who) with
        | true => rfl
        | false => exact absurd ⟨rfl, host, since, here, waiting, time⟩ keeps
      have renewed : host.renew none (state.clock who) = { host with tick := .idle } := by
        simp only [Host.renew, Lease.renew, time, if_true]
      rw [renewed] at lost
      obtain ((closed | ⟨why, failed⟩) | ⟨live, since, waiting, -⟩) | fenced := lost
      · exact outlived host here (.inl (.inl (.inl closed)))
      · cases failed
      · cases waiting
      · exact outlived host here (.inr fenced)
    | some live =>
      by_cases same : live = host.lease.epoch
      · have renewed : host.renew (some live) (state.clock who) =
            { host with lease := { host.lease with lastRenewal := state.clock who }, tick := .idle } := by
          simp only [Host.renew, Lease.renew, same, ne_eq, not_true_eq_false, if_false, if_true]
        rw [renewed] at lost
        obtain ((closed | ⟨why, failed⟩) | ⟨live, since, waiting, -⟩) | fenced := lost
        · exact outlived host here (.inl (.inl (.inl closed)))
        · cases failed
        · cases waiting
        · exact outlived host here (.inr fenced)
      · exact outlived host here (.inl (.inr ⟨live, since, waiting, same⟩))
  | @fenced host why failed free =>
    rw [fence_lease]
    exact outlived host here (.inl (.inl (.inr ⟨why, failed⟩)))
  | @begins host rows free => exact outlived host here lost

theorem Does.issued (does : Does node state event state') {issue : Issue} (member : issue ∈ state.issues) :
    issue ∈ state'.issues := by
  cases does with
  | quiet later instances row version index issues starts => exact issues ▸ member
  | boot | turn | work => exact member
  | issue => exact List.mem_append_left _ member

theorem Outlived.does (outlived : Outlived state who) (numbered : Numbered node state) (keeps : ¬Lapses who state event)
    (does : Does node state event state') : Outlived state' who := by
  intro host runs lost
  have newer : ∃ issue ∈ state.issues, host.lease.epoch < issue.epoch := by
    cases does.moves who with
    | stays same => exact outlived host (same ▸ runs) lost
    | turns turn =>
      rw [runs] at turn
      exact outlived.turn numbered keeps rfl turn lost
    | begins alive before after => exact absurd runs (after host)
    | @works before fails random named here there =>
      cases runs.symm.trans there
      have called := work_called before (state.clock who) fails random
      have lost : Lost before := by
        unfold Lost Doomed Ending at lost ⊢
        rw [called.allowed, called.tick, called.lease] at lost
        exact lost
      rw [called.lease]
      exact outlived before here lost
  obtain ⟨issue, member, newer⟩ := newer
  exact ⟨issue, does.issued member, newer⟩

theorem Outlived.run (outlived : Outlived state who) (numbered : Numbered node state) {events : List Event}
    (keeps : Along (Processes.step node) (fun state event => ¬Lapses who state event) events state)
    (small : state.issues.length + events.length < 2 ^ 63) :
    Outlived (events.foldl (Processes.step node) state) who := by
  induction events generalizing state with
  | nil => exact outlived
  | cons event rest ih =>
    rw [List.length_cons] at small
    obtain ⟨here, later⟩ := along_cons.mp keeps
    have does := does_step node state event
    obtain ⟨kept, length⟩ := numbered.does (by omega) does
    exact ih (outlived.does numbered here does) kept later (by omega)

/-- A lapse is not forgiven. -/
theorem ending_of_lapse (lapses : Lapses who state event) : Lasts Ending (state.step node event) who := by
  obtain ⟨rfl, host, since, here, waiting, late⟩ := lapses
  have here : (state.instances who).phase = .running host := here
  simp only [Processes.step, here, waiting]
  refine .inr ⟨_, by rw [phase_setPhase, if_pos rfl], .inr ?_⟩
  simp only [Host.renew, Lease.renew, late, Bool.false_eq_true, if_false]
  exact ⟨_, rfl⟩

/-- Where no epoch newer than its own is written, a host is neither fenced nor about to be exactly if its lease never
lapsed: each time the store did not answer, the lease had not run out yet. -/
theorem records_iff_never_lapsed (node : String) (now : ℚ) (index : Nat) (events : List Event) (who : Nat)
    (few : events.length < 2 ^ 63) {host : Host}
    (runs : (events.foldl (Processes.step node) (.start now index)).host? who = some host)
    (newest : ∀ issue ∈ (events.foldl (Processes.step node) (.start now index)).issues,
    issue.epoch ≤ host.lease.epoch) :
    (host.recordingAllowed = true ∧ ∀ why, host.tick ≠ .failed why) ↔
      Along (Processes.step node) (fun state event => ¬Lapses who state event) events (.start now index) := by
  rw [host?_eq_some] at runs
  constructor
  · rintro ⟨allowed, holds⟩
    rw [along_iff_prefixes]
    rintro first event ⟨rest, rfl⟩ lapses
    rw [List.append_assoc, List.foldl_append, List.singleton_append, List.foldl_cons] at runs
    obtain exited | ⟨host', same, ending⟩ := (lasting_ending node).run (ending_of_lapse lapses) rest
    · rw [runs] at exited
      cases exited
    · rw [runs] at same
      cases same
      obtain closed | ⟨why, failed⟩ := ending
      · rw [allowed] at closed
        cases closed
      · exact holds why failed
  · intro keeps
    have nobody : Outlived (.start now index) who := fun host here => Phase.noConfusion here
    have outlived := nobody.run (numbered_start node now index) keeps (by simpa [Processes.start] using few)
    have holds (ending : Ending host) : False := by
      obtain ⟨issue, member, newer⟩ := outlived host runs (.inl (.inl ending))
      exact absurd (newest issue member) (not_le.mpr newer)
    refine ⟨?_, fun why failed => holds (.inr ⟨why, failed⟩)⟩
    cases allowed : host.recordingAllowed with
    | true => rfl
    | false => exact (holds (.inl allowed)).elim

/-- The store is away for 20 seconds. -/
def outage : List Event :=
  [.boot 0 ⟨30, 5, 60, 3⟩, .read 0, .write 0 .done, .newLease 0, .links fun _ => false, .wait 20, .lease 0, .renew 0,
    .links fun _ => true, .lease 0, .renew 0]

theorem records_iff_never_lapsed_outage :
    Along (Processes.step "n1") (fun state event => ¬Lapses 0 state event) outage (.start 0 0) := by
  have runs : ((outage.foldl (Processes.step "n1") (.start 0 0)).host? 0).isSome = true := by decide +kernel
  have newest : ∀ runs : ((outage.foldl (Processes.step "n1") (.start 0 0)).host? 0).isSome = true,
      ∀ issue ∈ (outage.foldl (Processes.step "n1") (.start 0 0)).issues,
        issue.epoch ≤ (((outage.foldl (Processes.step "n1") (.start 0 0)).host? 0).get runs).lease.epoch := by
    decide +kernel
  have records : ∀ runs : ((outage.foldl (Processes.step "n1") (.start 0 0)).host? 0).isSome = true,
      (((outage.foldl (Processes.step "n1") (.start 0 0)).host? 0).get runs).recordingAllowed = true ∧
        (((outage.foldl (Processes.step "n1") (.start 0 0)).host? 0).get runs).tick = .idle := by
    decide +kernel
  refine (records_iff_never_lapsed "n1" 0 0 outage 0 (by decide) (Option.some_get runs).symm (newest runs)).mp ?_
  refine ⟨(records runs).1, fun why => ?_⟩
  rw [(records runs).2]
  exact Tick.noConfusion

end EdgeVms.Verified.Zombies
