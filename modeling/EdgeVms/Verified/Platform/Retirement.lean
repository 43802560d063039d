import EdgeVms.Verified.Platform.SlotIdentity

/-! # A retired slot

`retire` marks a slot released and leaves its holder in the record.  A renewal
asks who the holder is, not whether the slot was released, and writes `released`
as false; so a slot that is retired while its holder still lives comes back.
-/

namespace EdgeVms.Verified.Retirement

open Process Python Platform

variable {ι M : Type}

/-- A call of the controller, or of a worker. -/
inductive SlotUse where
  | retire (worker : String)
  | work (call : SlotCall)

namespace SlotUse

def program (sub : Subsystem) : SlotUse → Program M Unit
  | .retire worker => do
    let _ ← Controller.retire sub worker
    return ()
  | .work call => do
    let _ ← call.program sub
    return ()

def Claims : SlotUse → Prop
  | .work call => call.op.IsClaim
  | .retire _ => False

def Renews : SlotUse → Prop
  | .work call => call.op = .renew
  | .retire _ => False

/-- The record that a call writes over `cur` in the slot `name`. -/
inductive Makes (name : String) (cur : Slot) : SlotUse → Slot → Prop
  | retire (standing : cur.released = false) :
      Makes name cur (.retire name) ⟨name, cur.holder, cur.until_, true, cur.gen⟩
  | work {call : SlotCall} {new : Slot} (makes : call.op.Makes call.me name cur new) : Makes name cur (.work call) new

end SlotUse

/-- A commit is the write of its call, over the record `cur` of the slot `name`. -/
structure Writes (sub : Subsystem) (uses : ι → SlotUse) (commit : Commit ι) (name : String) (cur new : Slot) :
    Prop where
  key : commit.key = sub.slotKey name
  replaced : Slot.fromItems name (rowValues commit.before) = .ok cur
  wrote : commit.new = new.toItems
  makes : (uses commit.client).Makes name cur new

/-- The commit is a renewal of a slot that was released. -/
def Revives (sub : Subsystem) (uses : ι → SlotUse) (commit : Commit ι) : Prop :=
  (uses commit.client).Renews ∧ ∃ name cur new, Writes sub uses commit name cur new ∧ cur.released = true

/-- The commit is a claim of the slot, with a generation above this one. -/
def Reclaims (sub : Subsystem) (uses : ι → SlotUse) (name : String) (gen : Int) (commit : Commit ι) : Prop :=
  (uses commit.client).Claims ∧ ∃ cur new, Writes sub uses commit name cur new ∧ gen < new.gen

section Log

variable {sub : Subsystem} {uses : ι → SlotUse} {map : Key → Option Items} {log : List (Commit ι)} {commit : Commit ι}
  {name : String} {cur new slot : Slot}

theorem Writes.rewrites (writes : Writes sub uses commit name cur new) : Rewrites sub commit name cur new := by
  refine ⟨writes.key, writes.replaced, writes.wrote, ?_⟩
  have makes := writes.makes
  cases use : uses commit.client with
  | retire worker =>
    rw [use] at makes
    cases makes
    rfl
  | work call =>
    rw [use] at makes
    cases makes with
    | work makes => exact makes.named

/-- A released record stays released, and keeps its generation, but for a renewal or a claim. -/
theorem Writes.released (writes : Writes sub uses commit name cur new) (kept : ¬ Revives sub uses commit)
    (released : cur.released = true) {gen : Int} (above : gen ≤ cur.gen) :
    Reclaims sub uses name gen commit ∨ (new.released = true ∧ gen ≤ new.gen) := by
  have makes := writes.makes
  cases use : uses commit.client with
  | retire worker =>
    rw [use] at makes
    cases makes
    exact .inr ⟨rfl, above⟩
  | work call =>
    rw [use] at makes
    obtain ⟨me, op⟩ := call
    cases makes with
    | work makes =>
      cases op with
      | claim prefer =>
        left
        refine ⟨?_, cur, new, writes, ?_⟩
        · rw [use]
          trivial
        · cases makes
          show gen < cur.gen + 1
          omega
      | renew =>
        refine absurd ⟨?_, name, cur, new, writes, released⟩ kept
        rw [use]
        rfl
      | release =>
        cases makes
        exact .inr ⟨rfl, above⟩

/-- A renewal writes a record that is not released. -/
theorem Revives.stands (revives : Revives sub uses commit) :
    ∃ name cur new, Writes sub uses commit name cur new ∧ cur.released = true ∧ new.released = false ∧
      ∀ name gen, ¬ Reclaims sub uses name gen commit := by
  obtain ⟨renews, name, cur, new, writes, released⟩ := revives
  have makes := writes.makes
  cases use : uses commit.client with
  | retire worker =>
    rw [use] at renews
    exact renews.elim
  | work call =>
    rw [use] at makes renews
    obtain ⟨me, op⟩ := call
    obtain rfl : op = .renew := renews
    cases makes with
    | work makes =>
      cases makes
      refine ⟨name, cur, _, writes, released, rfl, ?_⟩
      rintro other gen ⟨claims, -⟩
      rw [use] at claims
      exact claims

end Log

/-! ## The programs -/

/-- What a call may do in one step: nothing to the rows, or its write. -/
def UseStep (sub : Subsystem) (uses : ι → SlotUse) (i : ι) (state state' : Logged ι M) : Prop :=
  (state'.rows = state.rows ∧ state'.log = state.log) ∨
    ∃ commit name cur new, commit.client = i ∧ Writes sub uses commit name cur new ∧
      state'.rows = state.rows.write commit.key (stored commit.new) ∧ state'.log = state.log ++ [commit]

theorem UseStep.follows {sub : Subsystem} {uses : ι → SlotUse} {i : ι} {state state' : Logged ι M}
    (step : UseStep sub uses i state state') : Follows state state' := by
  obtain ⟨rows, log⟩ | ⟨commit, name, cur, new, -, -, rows, log⟩ := step
  · exact ⟨by rw [rows]; exact .refl _, by simp only [log, List.prefix_rfl]⟩
  · exact ⟨by rw [rows]; exact .write _ _ _, by rw [log]; exact List.prefix_append _ _⟩

theorem useStep_tick {sub : Subsystem} {uses : ι → SlotUse} {i : ι} (state : Logged ι M) :
    UseStep sub uses i state state.tick := .inl ⟨rfl, rfl⟩

/-- A step of a worker's call is a step of the use that makes it. -/
theorem useStep_of_slotStep {sub : Subsystem} {uses : ι → SlotUse} {i : ι} {call : SlotCall} (is : uses i = .work call)
    {state state' : Logged ι M} (step : SlotStep sub (fun _ => call) i state state') :
    UseStep sub uses i state state' := by
  obtain still | ⟨commit, name, cur, new, client, records, rows, log⟩ := step
  · exact .inl still
  · refine .inr ⟨commit, name, cur, new, client, ?_, rows, log⟩
    refine ⟨records.key, records.replaced, records.wrote, ?_⟩
    rw [client, is]
    exact .work records.makes

section Programs

variable [DecidableEq ι] {view : ι → View} {sub : Subsystem} {uses : ι → SlotUse} {i : ι}

theorem retire_writes {worker : String} (is : uses i = .retire worker) (state : Logged ι M) :
    Guarded view i Follows (UseStep sub uses i) (fun _ _ => True) (Controller.retire sub worker) state := by
  apply Guarded.cut (fun _ _ => True)
  · suffices rounds : ∀ left (state : Logged ι M), Guarded view i Follows (UseStep sub uses i) (fun _ _ => True)
        (Controller.writeRounds (sub.slotKey worker) (fun items => do
          let slot ← Program.value (Slot.fromItems worker items)
          if slot.released then return none
          return some (Slot.toItems { slot with name := worker, released := true })) 10 left) state from rounds 10 state
    intro left
    induction left with
    | zero => exact fun _ => trivial
    | succ left ih =>
      intro state
      apply Guarded.get useStep_tick
      intro read moved
      apply Guarded.cut fun new state' => state' = read.tick ∧ ∀ row, new = some row →
        ∃ slot, Slot.fromItems worker (rowValues (read.rows.read (sub.slotKey worker))) = .ok slot ∧
          slot.released = false ∧ row = Slot.toItems ⟨worker, slot.holder, slot.until_, true, slot.gen⟩
      · apply Guarded.value_bind
        intro slot found
        split
        · exact ⟨rfl, fun row none_ => by cases none_⟩
        next standing =>
          refine ⟨rfl, fun row same => ⟨slot, found, by simpa using standing, ?_⟩⟩
          cases same
          rfl
      · rintro new state' ⟨rfl, rewrites⟩
        cases new with
        | none => trivial
        | some row =>
          obtain ⟨slot, found, standing, rfl⟩ := rewrites row rfl
          apply Guarded.tryPut useStep_tick
          · intro now index moved' allowed
            have same : now.rows.read (sub.slotKey worker) = read.rows.read (sub.slotKey worker) :=
              moved'.rows.read_of_matches allowed
            refine ⟨.inr ⟨⟨i, sub.slotKey worker, now.rows.read (sub.slotKey worker), _⟩, worker, slot, _, rfl,
              ⟨rfl, ?_, rfl, ?_⟩, rfl, rfl⟩, trivial⟩
            · rw [same]
              exact found
            · rw [is]
              exact .retire standing
          · intro now error moved'
            -- somebody wrote in between: once more
            cases error with
            | conflict package message =>
              cases package with
              | vmsplatform => exact ih _
              | cluster => trivial
            | python error | forbidden package message | refused message => trivial
  · intro written state' _
    cases Slot.fromItems worker written <;> trivial

theorem program_writes (i : ι) (state : Logged ι M) :
    Guarded view i Follows (UseStep sub uses i) (fun _ _ => True) ((uses i).program sub) state := by
  cases is : uses i with
  | retire worker => exact Guarded.bind (retire_writes is state) fun _ _ _ => trivial
  | work call =>
    have records := @program_records ι M _ view sub (fun _ => call) i state
    exact Guarded.bind (Safe.guarantees (fun _ _ => useStep_of_slotStep is) records) fun _ _ _ => trivial

end Programs

/-! ## Runs -/

section Runs

variable [DecidableEq ι]

/-- The calls and the store after a schedule. -/
def useRun (sub : Subsystem) (view : ι → View) (uses : ι → SlotUse) (world : World ι M) (schedule : List ι) :
    Pool (interface M) Phase Exn Unit (Logged ι M) ι :=
  Pool.exec (logged view) schedule ⟨fun i => (uses i).program sub, ⟨world, []⟩⟩

/-- Once a slot reads as released, it does in every later state until a claim with a greater generation. -/
def Final (sub : Subsystem) (view : ι → View) (uses : ι → SlotUse) (world : World ι M) (schedule : List ι) : Prop :=
  ∀ first next, first ++ next <+: schedule → ∀ name slot,
    slotAt sub (useRun sub view uses world first).state.rows.read name = .ok slot → slot.released = true →
      (∃ between, (useRun sub view uses world (first ++ next)).state.log =
          (useRun sub view uses world first).state.log ++ between ∧
        ∃ commit ∈ between, Reclaims sub uses name slot.gen commit) ∨
      ∃ last, slotAt sub (useRun sub view uses world (first ++ next)).state.rows.read name = .ok last ∧
        last.released = true

variable {sub : Subsystem} {view : ι → View} {uses : ι → SlotUse} {world : World ι M} {schedule : List ι}

theorem useRun_append (first next : List ι) : useRun sub view uses world (first ++ next) =
    Pool.exec (logged view) next (useRun sub view uses world first) := List.foldl_append

theorem useRun_writes (schedule : List ι) :
    ∀ commit ∈ (useRun sub view uses world schedule).state.log,
      ∃ name cur new, Writes sub uses commit name cur new := by
  have along : Along (Pool.step (logged view)) (fun _ _ => True) schedule
      ⟨fun i => (uses i).program sub, (⟨world, []⟩ : Logged ι M)⟩ := .always (fun _ _ => trivial) _ _
  refine (Pool.safe_exec_post (fun _ _ => Follows) (fun i => UseStep sub uses i) (fun _ => Yields fun _ _ => True)
    (fun state => ∀ commit ∈ state.log, ∃ name cur new, Writes sub uses commit name cur new)
    ?still ?transitive ?keeps ?compatible ?stable along (fun i => program_writes i _) ?holds).1
  case still => exact fun _ _ state _ => .refl state
  case transitive => exact fun _ _ _ _ _ first second => first.trans second
  case keeps =>
    intro pool i _ step recorded commit member
    obtain ⟨-, log⟩ | ⟨written, name, cur, new, -, writes, -, log⟩ := step
    · rw [log] at member
      exact recorded commit member
    · rw [log] at member
      obtain old | rfl := (List.mem_append.mp member).imp_right List.mem_singleton.mp
      · exact recorded commit old
      · exact ⟨name, cur, new, writes⟩
  case compatible => exact fun _ _ _ _ _ _ _ step _ _ => step.follows
  case stable =>
    intro pool i j _ _ step result yields
    cases result <;> trivial
  case holds => exact fun _ member => by cases member

theorem log_step (pool : Pool (interface M) Phase Exn Unit (Logged ι M) ι) (i : ι) :
    (Pool.step (logged view) pool i).state.log = pool.state.log ∨
      ∃ commit, (Pool.step (logged view) pool i).state.log = pool.state.log ++ [commit] := by
  cases here : pool.procs i with
  | ret value | raise error =>
    left
    rw [Pool.step_finished (by rw [here]; trivial)]
  | call label request next =>
    rw [Pool.step_call here]
    dsimp only [logged, noteCommit]
    split
    · exact .inr ⟨_, rfl⟩
    · exact .inl rfl

/-- Each commit of the log is made by one step of the schedule. -/
theorem step_of_commit {before after : List (Commit ι)} {commit : Commit ι}
    (log : (useRun sub view uses world schedule).state.log = before ++ commit :: after) :
    ∃ first i, first ++ [i] <+: schedule ∧ (useRun sub view uses world first).state.log = before ∧
      (useRun sub view uses world (first ++ [i])).state.log = before ++ [commit] := by
  induction schedule using List.reverseRecOn generalizing after with
  | nil => simp [useRun] at log
  | append_singleton schedule i ih =>
    have later : ∀ after, (useRun sub view uses world schedule).state.log = before ++ commit :: after →
        ∃ first j, first ++ [j] <+: schedule ++ [i] ∧ (useRun sub view uses world first).state.log = before ∧
          (useRun sub view uses world (first ++ [j])).state.log = before ++ [commit] := by
      intro after log
      obtain ⟨first, j, isPrefix, rest⟩ := ih log
      exact ⟨first, j, isPrefix.trans (List.prefix_append _ _), rest⟩
    have stepped : useRun sub view uses world (schedule ++ [i]) =
        Pool.step (logged view) (useRun sub view uses world schedule) i := useRun_append schedule [i]
    obtain same | ⟨last, grown⟩ := @log_step ι M _ view (useRun sub view uses world schedule) i
    · rw [stepped, same] at log
      exact later after log
    · rw [stepped, grown] at log
      obtain rfl | ⟨after, other, rfl⟩ := List.eq_nil_or_concat after
      · obtain ⟨same, single⟩ := List.append_inj' log rfl
        refine ⟨schedule, i, List.prefix_rfl, same, ?_⟩
        rw [stepped, grown, log]
      · have log' : (useRun sub view uses world schedule).state.log ++ [last] =
            (before ++ commit :: after) ++ [other] := by
          simpa using log
        exact later after (List.append_inj' log' rfl).1

theorem explains_useRun (schedule : List ι) : Explains world.vars.read (useRun sub view uses world schedule).state :=
  explains_exec schedule ⟨trivial, rfl⟩

/-- A retirement is final exactly when no renewal writes over a released record. -/
theorem retire_final_iff : Final sub view uses world schedule ↔
    ∀ commit ∈ (useRun sub view uses world schedule).state.log, ¬ Revives sub uses commit := by
  constructor
  · intro final commit member revives
    obtain ⟨before, after, log⟩ := List.append_of_mem member
    obtain ⟨first, i, isPrefix, start, grown⟩ := step_of_commit log
    obtain ⟨name, cur, new, writes, released, stands, never⟩ := revives.stands
    have explains := @explains_useRun ι M _ sub view uses world first
    have explains' := @explains_useRun ι M _ sub view uses world (first ++ [i])
    have at_commit : commit.before = (useRun sub view uses world first).state.rows.read commit.key := by
      have chained := explains'.chained
      rw [grown, chained_append] at chained
      rw [explains.rows, start]
      exact chained.2.1
    obtain ⟨between, extended, other, inside, reclaims⟩ | ⟨last, reads, still⟩ :=
      final first [i] isPrefix name cur (writes.rewrites.slotAt_before at_commit) released
    · rw [grown, start] at extended
      rw [← List.append_cancel_left extended, List.mem_singleton] at inside
      exact never _ _ (inside ▸ reclaims)
    · rw [explains'.rows, grown, List.foldl_append, List.foldl_cons, List.foldl_nil,
        writes.rewrites.slotAt_apply] at reads
      cases reads
      rw [stands] at still
      cases still
  · intro kept first next isPrefix name slot reads released
    have explains := @explains_useRun ι M _ sub view uses world first
    have explains' := @explains_useRun ι M _ sub view uses world (first ++ next)
    obtain ⟨between, log⟩ : (useRun sub view uses world first).state.log <+:
        (useRun sub view uses world (first ++ next)).state.log := by
      rw [useRun_append]
      exact log_prefix_exec next _
    obtain ⟨rest, log'⟩ : (useRun sub view uses world (first ++ next)).state.log <+:
        (useRun sub view uses world schedule).state.log := by
      obtain ⟨rest, rfl⟩ := isPrefix
      rw [useRun_append (first ++ next)]
      exact log_prefix_exec rest _
    have inside : ∀ commit ∈ between, commit ∈ (useRun sub view uses world schedule).state.log := by
      intro commit member
      rw [← log', ← log]
      exact List.mem_append_left _ (List.mem_append_right _ member)
    have chained : Chained (useRun sub view uses world first).state.rows.read between := by
      have chained := explains'.chained
      rw [← log, chained_append, ← explains.rows] at chained
      exact chained.2
    have rows : (useRun sub view uses world (first ++ next)).state.rows.read =
        between.foldl Commit.apply (useRun sub view uses world first).state.rows.read := by
      rw [explains'.rows, ← log, List.foldl_append, ← explains.rows]
    -- a released record stays released from write to write, until a claim
    have step : ∀ commit cur new, (Writes sub uses commit name cur new ∧ ¬ Revives sub uses commit) →
        (cur.released = true ∧ slot.gen ≤ cur.gen) →
          Reclaims sub uses name slot.gen commit ∨ (new.released = true ∧ slot.gen ≤ new.gen) :=
      fun commit cur new writes holds => writes.1.released writes.2 holds.1 holds.2
    have recorded : ∀ commit ∈ between, ∃ name cur new, Writes sub uses commit name cur new ∧
        ¬ Revives sub uses commit := by
      intro commit member
      obtain ⟨name, cur, new, writes⟩ := useRun_writes schedule commit (inside commit member)
      exact ⟨name, cur, new, writes, kept commit (inside commit member)⟩
    obtain reclaimed | ⟨last, reads', stands, -⟩ := Rewrites.until_of_chained
      (fun commit name cur new writes => writes.1.rewrites) step chained recorded reads ⟨released, le_refl _⟩
    · exact .inl ⟨between, log.symm, reclaimed⟩
    · exact .inr ⟨last, by rw [rows, reads'], stands⟩

end Runs

/-! ## A renewal after the retirement -/

/-- A worker retires `w-1`, and the process that holds it renews. -/
def retiredHolder : Fin 2 → SlotUse
  | 0 => .retire "w-1"
  | 1 => .work ⟨{ Worker.new "p-1" with name := some "w-1", slot := some ⟨"w-1", "p-1", .finite 45, false, 1⟩ }, .renew⟩

/-- `p-1` holds the slot. -/
def heldWorld : World (Fin 2) Unit :=
  ⟨(Versioned.empty 1000).write (Subsystem.slotKey ⟨"vms"⟩ "w-1")
    (stored (Slot.toItems ⟨"w-1", "p-1", .finite 45, false, 1⟩)), fun _ => (), fun _ => quietOutside, 0⟩

def heldRun (schedule : List (Fin 2)) : Pool (interface Unit) Phase Exn Unit (Logged (Fin 2) Unit) (Fin 2) :=
  useRun ⟨"vms"⟩ (fun _ => {}) retiredHolder heldWorld schedule

def releasedIn (schedule : List (Fin 2)) : Option Bool :=
  (slotAt ⟨"vms"⟩ (heldRun schedule).state.rows.read "w-1").toOption.map Slot.released

/-- The slot reads as released, and after the renewal it does not. -/
theorem retired_slot_renewed : ¬ Final ⟨"vms"⟩ (fun _ => {}) retiredHolder heldWorld [0, 0, 1, 1, 1] := by
  intro final
  have before : releasedIn [0, 0] = some true := by decide +kernel
  have after : releasedIn [0, 0, 1, 1, 1] = some false := by decide +kernel
  obtain ⟨slot, reads, released⟩ := Option.map_eq_some_iff.mp before
  have reads : slotAt ⟨"vms"⟩ (heldRun [0, 0]).state.rows.read "w-1" = .ok slot := by
    cases at_ : slotAt ⟨"vms"⟩ (heldRun [0, 0]).state.rows.read "w-1" with
    | error error =>
      rw [at_] at reads
      cases reads
    | ok found =>
      rw [at_] at reads
      cases reads
      rfl
  obtain ⟨between, log, commit, member, claims, -⟩ | ⟨last, reads', released'⟩ :=
    final [0, 0] [1, 1, 1] List.prefix_rfl "w-1" slot reads released
  · -- neither of the two calls is a claim
    have nobody : ∀ client, ¬ (retiredHolder client).Claims := Fin.forall_fin_two.mpr ⟨id, id⟩
    exact nobody _ claims
  · change slotAt ⟨"vms"⟩ (heldRun [0, 0, 1, 1, 1]).state.rows.read "w-1" = .ok last at reads'
    rw [releasedIn, reads'] at after
    change some last.released = some false at after
    rw [released'] at after
    cases after

end EdgeVms.Verified.Retirement
