import EdgeVms.Verified.Vms.OwnWrites

/-! # A fenced instance

Once another instance holds its slot, a process can write neither the slot nor,
when it has fenced, an epoch: all that is left of it is its heartbeat, under the
name that it shares.  `Alike` compares a run with the same run without the steps
of the fenced process.
-/

namespace EdgeVms.Verified.FencedInstance

open Process Python Platform Vms OwnWrites

variable {ι : Type} [DecidableEq ι] {site : Instances.Site ι} {state : Instances ι} {a i : ι} {worker : String}
  {now : Outside}

/-! ## Every process owns what it writes -/

/-- The rest of a call of process `i`, wherever it stands. -/
def Going (site : Instances.Site ι) (i : ι) (p : Program VmsWorker Report) (state : Instances ι) : Prop :=
  ∃ now, Safe (handler site.store (site.view i) i) (fun _ => Others i) (Step i)
    (fun result world => Honestly result (world.memory i)) p (state.world now)

structure Sound (site : Instances.Site ι) (state : Instances ι) : Prop where
  instance_ : ∀ i, (state.memory i).instance_ = site.instance_ i
  going : ∀ i p, state.flight i = some p → Going site i p state

omit [DecidableEq ι] in
theorem others_trans (i : ι) (world world' world'' : World ι VmsWorker) (first : Others i world world')
    (second : Others i world' world'') : Others i world world'' :=
  ⟨first.rows.trans second.rows, second.memory.trans first.memory⟩

theorem Writes.later {me : VmsWorker} {rows rows' : Rows} (writes : OwnWrites.Writes me rows rows') :
    rows.Later rows' := by
  cases writes with
  | nothing => exact .refl _
  | slot worker row own may => exact .write _ _ _
  | epoch unit row recording => exact .write _ _ _

theorem Going.moved {p : Program VmsWorker Report} {state' : Instances ι} (going : Going site i p state)
    (rows : state.vars.Later state'.vars) (memory : state'.memory i = state.memory i) (now : Outside) :
    Safe (handler site.store (site.view i) i) (fun _ => Others i) (Step i)
      (fun result world => Honestly result (world.memory i)) p (state'.world now) := by
  obtain ⟨now', safe⟩ := going
  refine safe.moved_post (fun _ => others_trans i) (fun result ends => ?_) fun _ _ => ⟨rows, memory⟩
  rw [show (state'.world now).memory i = state.memory i from memory]
  exact ends

theorem Going.kept {p : Program VmsWorker Report} {state' : Instances ι} (going : Going site i p state)
    (rows : state.vars.Later state'.vars) (memory : state'.memory i = state.memory i) : Going site i p state' :=
  ⟨quietOutside, going.moved rows memory _⟩

theorem Going.of_owns {p : Program VmsWorker Report}
    (owns : Owns site.store (site.view i) i Honestly p (state.memory i) state.vars) : Going site i p state :=
  ⟨quietOutside, (owns _ rfl (.refl _)).mono fun _ _ ends => ends.1⟩

/-- What serving a request does to the processes. -/
theorem handler_memory {store : Variables} {view : View} {j : ι} (other : j ≠ i) (request : Request VmsWorker)
    (world : World ι VmsWorker) : (handler store view i request world).2.memory j = world.memory j := by
  cases request with
  | remember change => exact Function.update_of_ne other _ _
  | _ => rfl

/-- What serving a process can do. -/
inductive Serves (site : Instances.Site ι) (state : Instances ι) (i : ι) (now : Outside) : Instances ι → Prop
  | idle (flight : state.flight i = none) : Serves site state i now state
  | ends {p} (flight : state.flight i = some p) (finished : p.Finished) :
    Serves site state i now { state with flight := Function.update state.flight i none }
  | beats {name beat} (flight : state.flight i = some (.ret (some (name, beat)))) :
    Serves site state i now
      { state with
        flight := Function.update state.flight i none
        beats := Function.update state.beats name (some (beat, i)) }
  | call {label request next} (flight : state.flight i = some (.call label request next)) :
    Serves site state i now
      { state with
        vars := (handler site.store (site.view i) i request (state.world now)).2.vars
        memory := (handler site.store (site.view i) i request (state.world now)).2.memory
        flight := Function.update state.flight i
          (some (next (handler site.store (site.view i) i request (state.world now)).1)) }

theorem serves (site : Instances.Site ι) (state : Instances ι) (i : ι) (now : Outside) :
    Serves site state i now (state.serve site i now) := by
  cases flight : state.flight i with
  | none =>
    rw [Instances.serve, flight]
    exact .idle flight
  | some p =>
    cases p with
    | raise error =>
      rw [Instances.serve, flight]
      exact .ends flight trivial
    | ret report =>
      rw [Instances.serve, flight]
      cases report with
      | none => exact .ends flight trivial
      | some beat => exact .beats flight
    | call label request next =>
      rw [Instances.serve, flight]
      exact .call flight

section Served

variable {label : Phase} {request : Request VmsWorker} {next : request.Answer → Program VmsWorker Report}

theorem Sound.served (sound : Sound site state) (flight : state.flight i = some (.call label request next))
    (now : Outside) :
    Step i (state.world now) (handler site.store (site.view i) i request (state.world now)).2 ∧
      Sound site
        { state with
          vars := (handler site.store (site.view i) i request (state.world now)).2.vars
          memory := (handler site.store (site.view i) i request (state.world now)).2.memory
          flight := Function.update state.flight i
            (some (next (handler site.store (site.view i) i request (state.world now)).1)) } := by
  have own := (sound.going i _ flight).moved (.refl _) rfl now
  obtain ⟨step, rest⟩ := own (state.world now) ⟨.refl _, rfl⟩
  refine ⟨step, ?_⟩
  constructor
  case instance_ =>
    intro j
    by_cases same : j = i
    · subst same
      exact step.kept.instance_.trans (sound.instance_ j)
    · dsimp only
      rw [handler_memory same]
      exact sound.instance_ j
  case going =>
    intro j p there
    by_cases same : j = i
    · subst same
      dsimp only at there
      rw [Function.update_self] at there
      cases there
      refine ⟨now, rest.moved_post (fun _ => others_trans j) (fun _ ends => ends) fun _ _ => ⟨.refl _, rfl⟩⟩
    · dsimp only at there
      rw [Function.update_of_ne same] at there
      exact (sound.going j p there).kept (Writes.later step.writes) (handler_memory same _ _)

end Served

theorem sound_start (vars : Rows) : Sound site (.start site vars) where
  instance_ _ := rfl
  going := nofun

/-- A call begins where its process does nothing. -/
theorem Sound.begins (sound : Sound site state) {p : Program VmsWorker Report}
    (owns : Owns site.store (site.view i) i Honestly p (state.memory i) state.vars) :
    Sound site { state with flight := Function.update state.flight i (some p) } where
  instance_ := sound.instance_
  going j q there := by
    by_cases same : j = i
    · subst same
      dsimp only at there
      rw [Function.update_self] at there
      cases there
      exact .of_owns owns
    · dsimp only at there
      rw [Function.update_of_ne same] at there
      exact (sound.going j q there).kept (.refl _) rfl

/-- A call has ended. -/
theorem Sound.ends (sound : Sound site state) (i : ι) (beats : String → Option (Heartbeat × ι)) :
    Sound site { state with flight := Function.update state.flight i none, beats := beats } where
  instance_ := sound.instance_
  going j q there := by
    by_cases same : j = i
    · subst same
      dsimp only at there
      rw [Function.update_self] at there
      cases there
    · dsimp only at there
      rw [Function.update_of_ne same] at there
      exact (sound.going j q there).kept (.refl _) rfl

omit [DecidableEq ι] in
theorem write_later (honest : Honest site.store) (key : Key) (items : Dict Value) (cas : Option Nat) :
    state.vars.Later (site.store.put {} state.vars key items cas).2 := by
  obtain ⟨error, answered⟩ | ⟨index, -, answered⟩ := honest.put_cases {} state.vars key items cas
  · rw [answered]
    exact .refl _
  · rw [answered]
    exact .write _ _ _

theorem sound_step (honest : Honest site.store) (sound : Sound site state) (event : Instances.Event ι) :
    Sound site (state.step site event) := by
  cases event with
  | construct i prefer =>
    rw [Instances.step]
    split
    next free => exact sound.begins (construct_owns honest _ prefer (sound.instance_ i).symm free.2)
    next => exact sound
  | call i call =>
    rw [Instances.step]
    split
    next => exact sound.begins (call_owns honest _ call)
    next => exact sound
  | serve i now =>
    have served := serves site state i now
    rw [Instances.step]
    generalize state.serve site i now = state' at served
    cases served with
    | idle => exact sound
    | ends => exact sound.ends i state.beats
    | beats => exact sound.ends i _
    | call flight => exact (sound.served flight now).2
  | write key items cas =>
    rw [Instances.step]
    split
    next => exact sound
    next =>
      exact ⟨sound.instance_, fun j p there => (sound.going j p there).kept (write_later honest key items cas) rfl⟩

/-! ## The slot is another's -/

/-- What lasts of a process: who it is, and that it is fenced. -/
structure Settled (site : Instances.Site ι) (a : ι) (worker : String) (state : Instances ι) : Prop where
  sound : Sound site state
  named : (state.memory a).name = some worker
  taken : slotHolder state.vars worker ≠ some (site.instance_ a)

omit [DecidableEq ι] in
theorem slotHolder_write {rows : Rows} {key : Key} (row : Items) (other : vms.slotKey worker ≠ key) :
    slotHolder (rows.write key row) worker = slotHolder rows worker := by
  rw [slotHolder, Versioned.read_write_other _ _ other, slotHolder]

/-- No write of another process gives the slot back, and none of its own takes it. -/
theorem taken_writes (unique : ∀ j, j ≠ a → site.instance_ j ≠ site.instance_ a) (settled : Settled site a worker state)
    {rows' : Rows} (writes : OwnWrites.Writes (state.memory i) state.vars rows') :
    slotHolder rows' worker ≠ some (site.instance_ a) := by
  cases writes with
  | nothing => exact settled.taken
  | epoch unit row recording =>
    rw [slotHolder_write row (by simp [Subsystem.slotKey, Subsystem.epochKey])]
    exact settled.taken
  | slot taken row own may =>
    by_cases same : vms.slotKey worker = vms.slotKey taken
    · rw [← slotKey_inj same, slotHolder, Versioned.read_write_self, own, settled.sound.instance_]
      rw [ne_eq, Option.some.injEq]
      by_cases himself : i = a
      · subst himself
        obtain nobody | ⟨_, held⟩ := may
        · rw [settled.named] at nobody
          cases nobody
        · rw [settled.sound.instance_, ← slotKey_inj same] at held
          exact absurd held settled.taken
      · exact unique i himself
    · rw [slotHolder_write row same]
      exact settled.taken

theorem settled_step (honest : Honest site.store) (unique : ∀ j, j ≠ a → site.instance_ j ≠ site.instance_ a)
    (settled : Settled site a worker state) (event : Instances.Event ι) :
    Settled site a worker (state.step site event) := by
  have sound := sound_step honest settled.sound event
  cases event with
  | construct i prefer =>
    refine ⟨sound, ?_, ?_⟩ <;> rw [Instances.step] <;> split
    · exact settled.named
    · exact settled.named
    · exact settled.taken
    · exact settled.taken
  | call i call =>
    refine ⟨sound, ?_, ?_⟩ <;> rw [Instances.step] <;> split
    · exact settled.named
    · exact settled.named
    · exact settled.taken
    · exact settled.taken
  | write key items cas =>
    refine ⟨sound, ?_, ?_⟩ <;> rw [Instances.step] <;> split
    · exact settled.named
    · exact settled.named
    · exact settled.taken
    next noSlot =>
      obtain ⟨error, answered⟩ | ⟨index, -, answered⟩ := honest.put_cases {} state.vars key items cas
      · rw [answered]
        exact settled.taken
      · rw [answered]
        dsimp only
        rw [slotHolder_write]
        · exact settled.taken
        · rintro rfl
          exact noSlot ⟨[worker], rfl⟩
  | serve i now =>
    have served := serves site state i now
    rw [Instances.step] at *
    generalize state.serve site i now = state' at served sound
    cases served with
    | idle => exact settled
    | ends => exact ⟨sound, settled.named, settled.taken⟩
    | beats => exact ⟨sound, settled.named, settled.taken⟩
    | call flight =>
      have step := (settled.sound.served flight now).1
      refine ⟨sound, ?_, taken_writes unique settled step.writes⟩
      by_cases himself : a = i
      · subst himself
        have kept := (step.kept.settled (by rw [Instances.world, settled.named]; nofun)).1
        exact kept.trans settled.named
      · dsimp only
        rw [handler_memory himself]
        exact settled.named

/-- And it is fenced. -/
structure Silenced (site : Instances.Site ι) (a : ι) (worker : String) (state : Instances ι) : Prop
    extends Settled site a worker state where
  fenced : (state.memory a).recordingAllowed = false

theorem silenced_step (honest : Honest site.store) (unique : ∀ j, j ≠ a → site.instance_ j ≠ site.instance_ a)
    (silenced : Silenced site a worker state) (event : Instances.Event ι) :
    Silenced site a worker (state.step site event) := by
  refine ⟨settled_step honest unique silenced.toSettled event, ?_⟩
  cases event with
  | construct i prefer =>
    rw [Instances.step]
    split
    · exact silenced.fenced
    · exact silenced.fenced
  | call i call =>
    rw [Instances.step]
    split
    · exact silenced.fenced
    · exact silenced.fenced
  | write key items cas =>
    rw [Instances.step]
    split
    · exact silenced.fenced
    · exact silenced.fenced
  | serve i now =>
    have served := serves site state i now
    rw [Instances.step]
    generalize state.serve site i now = state' at served
    cases served with
    | idle => exact silenced.fenced
    | ends => exact silenced.fenced
    | beats => exact silenced.fenced
    | call flight =>
      have step := (silenced.sound.served flight now).1
      by_cases himself : a = i
      · subst himself
        have named : (state.memory a).name ≠ none := by
          rw [silenced.named]
          nofun
        exact (step.kept.settled named).2 silenced.fenced
      · dsimp only
        rw [handler_memory himself]
        exact silenced.fenced

/-- The fenced process writes no row. -/
theorem Silenced.writes (silenced : Silenced site a worker state) {rows : Rows}
    (writes : OwnWrites.Writes (state.memory a) state.vars rows) : rows = state.vars := by
  cases writes with
  | nothing => rfl
  | epoch unit row recording => exact absurd (recording.symm.trans silenced.fenced) nofun
  | slot name row own may =>
    obtain nobody | ⟨himself, held⟩ := may
    · exact absurd (nobody.symm.trans silenced.named) nofun
    · rw [himself, Worker.named, silenced.named, silenced.sound.instance_] at held
      exact absurd held silenced.taken

/-! ## Without the steps of the fenced process -/

/-- A heartbeat of the worker that says that it is fenced. -/
structure FencedBeat (worker : String) (beat : Heartbeat) : Prop where
  worker : beat.worker = worker
  fenced : beat.extra.get? "fenced" = some (.bool true)

/-- The two differ in the fenced process, and perhaps in the heartbeat object of its worker, where it is a
heartbeat of the fenced process. -/
structure Alike (a : ι) (worker : String) (with_ without : Instances ι) : Prop where
  vars : with_.vars = without.vars
  memory : ∀ j, j ≠ a → with_.memory j = without.memory j
  flight : ∀ j, j ≠ a → with_.flight j = without.flight j
  beats : ∀ name, with_.beats name = without.beats name ∨
    name = worker ∧ ∃ beat, with_.beats name = some (beat, a) ∧ FencedBeat worker beat

variable {with_ without : Instances ι}

omit [DecidableEq ι] in
theorem Alike.refl (state : Instances ι) : Alike a worker state state :=
  ⟨rfl, fun _ _ => rfl, fun _ _ => rfl, fun _ => .inl rfl⟩

/-- Two worlds that look the same to a process. -/
theorem handler_alike {store : Variables} {view : View} (request : Request VmsWorker) {world world' : World ι VmsWorker}
    (vars : world.vars = world'.vars) (memory : world.memory i = world'.memory i) (outside : world.now = world'.now) :
    (handler store view i request world).1 = (handler store view i request world').1 ∧
      (handler store view i request world).2.vars = (handler store view i request world').2.vars ∧
      (handler store view i request world).2.memory i = (handler store view i request world').2.memory i := by
  cases request with
  | remember change => exact ⟨rfl, vars, by simp only [handler, Function.update_self, memory]⟩
  | recollect => exact ⟨memory, vars, memory⟩
  | get key => exact ⟨by simp only [handler, vars], vars, memory⟩
  | put key items cas => exact ⟨by simp only [handler, vars], by simp only [handler, vars], memory⟩
  | list above => exact ⟨by simp only [handler, vars], vars, memory⟩
  | _ => exact ⟨by simp only [handler, outside], vars, memory⟩

/-- Somebody else goes on, in both. -/
theorem Alike.goes (alike : Alike a worker with_ without) (i : ι) (p : Option (Program VmsWorker Report)) :
    Alike a worker { with_ with flight := Function.update with_.flight i p }
      { without with flight := Function.update without.flight i p } where
  vars := alike.vars
  memory := alike.memory
  flight j differs := by
    dsimp only
    by_cases same : j = i
    · rw [same, Function.update_self, Function.update_self]
    · rw [Function.update_of_ne same, Function.update_of_ne same]
      exact alike.flight j differs
  beats := alike.beats

omit [DecidableEq ι] in
theorem Alike.beat (alike : Alike a worker with_ without) (name : String) (beat : Heartbeat) (i : ι) :
    Alike a worker { with_ with beats := Function.update with_.beats name (some (beat, i)) }
      { without with beats := Function.update without.beats name (some (beat, i)) } where
  vars := alike.vars
  memory := alike.memory
  flight := alike.flight
  beats name' := by
    dsimp only
    by_cases same : name' = name
    · left
      rw [same, Function.update_self, Function.update_self]
    · rw [Function.update_of_ne same, Function.update_of_ne same]
      exact alike.beats name'

theorem Alike.answers (alike : Alike a worker with_ without) (differs : i ≠ a) (request : Request VmsWorker)
    (now : Outside) :
    (handler site.store (site.view i) i request (with_.world now)).1 =
        (handler site.store (site.view i) i request (without.world now)).1 ∧
      (handler site.store (site.view i) i request (with_.world now)).2.vars =
        (handler site.store (site.view i) i request (without.world now)).2.vars ∧
      (handler site.store (site.view i) i request (with_.world now)).2.memory i =
        (handler site.store (site.view i) i request (without.world now)).2.memory i :=
  handler_alike request alike.vars (alike.memory i differs) rfl

/-- A step of anybody else. -/
theorem Alike.other (alike : Alike a worker with_ without) {event : Instances.Event ι}
    (other : event.process? ≠ some a) :
    Alike a worker (with_.step site event) (without.step site event) := by
  cases event with
  | write key items cas =>
    rw [Instances.step, Instances.step, alike.vars]
    split
    · exact alike
    · exact { alike with vars := rfl }
  | construct i prefer =>
    have differs : i ≠ a := fun same => other (by rw [same]; rfl)
    rw [Instances.step, Instances.step, alike.flight i differs, alike.memory i differs]
    split
    · exact alike.goes i _
    · exact alike
  | call i call =>
    have differs : i ≠ a := fun same => other (by rw [same]; rfl)
    rw [Instances.step, Instances.step, alike.flight i differs, alike.memory i differs]
    split
    · exact alike.goes i _
    · exact alike
  | serve i now =>
    have differs : i ≠ a := fun same => other (by rw [same]; rfl)
    rw [Instances.step, Instances.step, Instances.serve, Instances.serve, ← alike.flight i differs]
    split
    next => exact alike
    next => exact alike.goes i none
    next => exact alike.goes i none
    next name beat _ => exact (alike.goes i none).beat name beat i
    next label request next _ =>
      obtain ⟨answer, vars, memory⟩ := @alike.answers _ _ site _ _ _ _ _ differs request now
      have goes := alike.goes i (some (next (handler site.store (site.view i) i request (with_.world now)).1))
      constructor
      case vars => exact vars
      case memory =>
        intro j different
        dsimp only
        by_cases same : j = i
        · rw [same]
          exact memory
        · rw [handler_memory same, handler_memory same]
          exact alike.memory j different
      case flight =>
        dsimp only
        rw [← answer]
        exact goes.flight
      case beats => exact alike.beats

/-- A step of the fenced process. -/
theorem Alike.own (alike : Alike a worker with_ without) (silenced : Silenced site a worker with_)
    {event : Instances.Event ι} (own : event.process? = some a) : Alike a worker (with_.step site event) without := by
  have elsewhere : ∀ p, Alike a worker { with_ with flight := Function.update with_.flight a p } without := fun p =>
    { alike with flight := fun j differs => (Function.update_of_ne differs _ _).trans (alike.flight j differs) }
  cases event with
  | write key items cas => cases own
  | construct i prefer =>
    obtain rfl : i = a := Option.some.inj own
    rw [Instances.step]
    split
    · exact elsewhere _
    · exact alike
  | call i call =>
    obtain rfl : i = a := Option.some.inj own
    rw [Instances.step]
    split
    · exact elsewhere _
    · exact alike
  | serve i now =>
    obtain rfl : i = a := Option.some.inj own
    have served := serves site with_ i now
    rw [Instances.step]
    generalize with_.serve site i now = state' at served
    cases served with
    | idle => exact alike
    | ends => exact elsewhere none
    | @beats name beat flight =>
      obtain ⟨now', reports⟩ := silenced.sound.going i _ flight
      have beats : Beats (with_.memory i) name beat := reports name beat rfl
      have named : name = worker := by
        rw [beats.named, Worker.named, silenced.named]
        rfl
      have fenced : FencedBeat worker beat := by
        refine ⟨beats.worker.trans named, ?_⟩
        rw [beats.fenced, silenced.fenced]
        rfl
      refine { elsewhere none with beats := fun name' => ?_ }
      dsimp only
      by_cases same : name' = name
      · right
        rw [same, Function.update_self]
        exact ⟨named, beat, rfl, fenced⟩
      · rw [Function.update_of_ne same]
        exact alike.beats name'
    | @call label request next flight =>
      have step := (silenced.sound.served flight now).1
      have still := silenced.writes step.writes
      constructor
      case vars => exact still.trans alike.vars
      case memory =>
        intro j differs
        exact (handler_memory differs _ _).trans (alike.memory j differs)
      case flight => exact (elsewhere _).flight
      case beats => exact alike.beats

/-! ## What the controllers read -/

/-- The record of a slot, as `slots` reads it. -/
def slotRecord (name : String) : Program Unit Slot := do
  let (items, _) ← Program.get (vms.slotKey name)
  Program.value (Slot.fromItems name (rowValues items))

/-- What the controllers read in a run, and in the same run without the steps of a process. -/
structure Invisible (site : Instances.Site ι) (a : ι) (worker : String) (with_ without : Instances ι) : Prop where
  assignment : ∀ now name,
    with_.read site now (Controller.assignment vms name) = without.read site now (Controller.assignment vms name)
  slot : ∀ now name, with_.read site now (slotRecord name) = without.read site now (slotRecord name)
  /-- The heartbeats are the same, but for one of the fenced process that says so. -/
  heartbeats : ∀ name, with_.beats name = without.beats name ∨
    name = worker ∧ ∃ beat, with_.beats name = some (beat, a) ∧ FencedBeat worker beat
  /-- Where it is not that heartbeat, everything that is read from heartbeats is the same. -/
  seen : with_.beats worker = without.beats worker → ∀ now,
    (∀ maxAge, with_.read site now (Controller.workersSeen vms maxAge) =
      without.read site now (Controller.workersSeen vms maxAge)) ∧
    (∀ capacity name, with_.read site now (VmsController.capacityOf capacity name) =
      without.read site now (VmsController.capacityOf capacity name)) ∧
    ∀ round1 lostAfter, with_.read site now (VmsController.readModel round1 lostAfter) =
      without.read site now (VmsController.readModel round1 lostAfter)

omit [DecidableEq ι] in
/-- One row, and a value of what it holds. -/
theorem read_row {α : Type} (vars : with_.vars = without.vars) (now : Outside) (key : Key)
    (f : Option Items × Nat → Except Error α) :
    with_.read site now (Program.get key >>= fun found => Program.value (f found)) =
      without.read site now (Program.get key >>= fun found => Program.value (f found)) := by
  show (((Proc.ofExcept (site.store.get with_.vars key)).bind _).run _ _).1 =
    (((Proc.ofExcept (site.store.get without.vars key)).bind _).run _ _).1
  rw [vars]
  cases site.store.get without.vars key with
  | error error => rfl
  | ok found =>
    show ((Program.value (f found)).run _ _).1 = ((Program.value (f found)).run _ _).1
    cases f found with
    | error error => rfl
    | ok value => rfl

omit [DecidableEq ι] in
theorem Alike.invisible (alike : Alike a worker with_ without) : Invisible site a worker with_ without where
  assignment now name := read_row alike.vars now (vms.assignment name) _
  slot now name := read_row alike.vars now (vms.slotKey name) _
  heartbeats := alike.beats
  seen same now := by
    have beats : with_.beats = without.beats := by
      funext name
      obtain equal | ⟨rfl, -⟩ := alike.beats name
      · exact equal
      · exact same
    have controllers : with_.controllers now = without.controllers now := by
      rw [Instances.controllers, Instances.controllers, alike.vars, beats]
    have reads : ∀ {α : Type} (p : Program Unit α), with_.read site now p = without.read site now p := by
      intro α p
      rw [Instances.read, Instances.read, controllers]
    exact ⟨fun _ => reads _, fun _ _ => reads _, fun _ _ => reads _⟩

/-! ## Runs -/

theorem alike_run (honest : Honest site.store) (unique : ∀ j, j ≠ a → site.instance_ j ≠ site.instance_ a)
    (later : List (Instances.Event ι)) (silenced : Silenced site a worker with_)
    (alike : Alike a worker with_ without) :
    Alike a worker (later.foldl (Instances.step site) with_)
      ((later.filter fun event => event.process? ≠ some a).foldl (Instances.step site) without) := by
  induction later generalizing with_ without with
  | nil => exact alike
  | cons event rest ih =>
    have silenced' := silenced_step honest unique silenced event
    by_cases own : event.process? = some a
    · rw [List.filter_cons_of_neg (by simpa using own)]
      exact ih silenced' (alike.own silenced own)
    · rw [List.filter_cons_of_pos (by simpa using own)]
      exact ih silenced' (alike.other own)

/-- In every run in which process `a` is the worker, another process claims the slot and `a` then fences, the
rest of the run leaves to be read what it leaves without the steps of `a`, but for the heartbeats of `a`. -/
theorem fenced_instance_invisible (honest : Honest site.store)
    (unique : ∀ j, j ≠ a → site.instance_ j ≠ site.instance_ a) (vars : Rows)
    (before between later : List (Instances.Event ι)) :
    let claimed := before.foldl (Instances.step site) (.start site vars)
    let fenced := between.foldl (Instances.step site) claimed
    (claimed.memory a).name = some worker →
      (∃ b, b ≠ a ∧ slotHolder claimed.vars worker = some (site.instance_ b)) →
      (fenced.memory a).recordingAllowed = false →
      Invisible site a worker (later.foldl (Instances.step site) fenced)
        ((later.filter fun event => event.process? ≠ some a).foldl (Instances.step site) fenced) := by
  rintro claimed fenced named ⟨b, other, holder⟩ stopped
  have sound : Sound site claimed := by
    have kept := Along.keeps (fun state event _ (sound : Sound site state) => sound_step honest sound event)
      (Along.always (fun _ _ => trivial) before _) (sound_start vars)
    exact kept
  have settled : Settled site a worker claimed := by
    refine ⟨sound, named, ?_⟩
    rw [holder, ne_eq, Option.some.injEq]
    exact unique b other
  have settled' : Settled site a worker fenced := by
    have kept := Along.keeps
      (fun state event _ (settled : Settled site a worker state) => settled_step honest unique settled event)
      (Along.always (fun _ _ => trivial) between _) settled
    exact kept
  exact (alike_run honest unique later ⟨settled', stopped⟩ (.refl fenced)).invisible

/-! ## Two servers -/

def twoServers : Instances.Site (Fin 2) where
  store := FileVariables
  view _ := {}
  instance_ i := if i = 0 then "a" else "b"
  host i := ⟨if i = 0 then "srv-a" else "srv-b", 50, "/data/archive"⟩

/-- An event, and requests until it is through. -/
def through (event : Instances.Event (Fin 2)) (i : Fin 2) (requests : Nat) : List (Instances.Event (Fin 2)) :=
  event :: List.replicate requests (.serve i quietOutside)

def bothClaim : List (Instances.Event (Fin 2)) :=
  through (.construct 0 (some "w-1")) 0 8 ++ through (.construct 1 (some "w-1")) 1 8

def bothBeat : List (Instances.Event (Fin 2)) := through (.call 1 .heartbeat) 1 3 ++ through (.call 0 .heartbeat) 0 3

/-- The run in which "srv-b" takes "w-1", and "srv-a" finds out. -/
theorem fenced_instance_invisible_two :
    let fenced := (through (.call 0 .lease) 0 6).foldl (Instances.step twoServers)
      (bothClaim.foldl (Instances.step twoServers) (.start twoServers (.empty 1000)))
    Invisible twoServers 0 "w-1" (bothBeat.foldl (Instances.step twoServers) fenced)
      ((bothBeat.filter fun event => event.process? ≠ some 0).foldl (Instances.step twoServers) fenced) := by
  have honest : Honest twoServers.store := FileVariables.honest
  refine fenced_instance_invisible honest ?_ (.empty 1000) bothClaim _ bothBeat (by decide +kernel)
    ⟨1, by decide, by decide +kernel⟩ (by decide +kernel)
  decide +kernel

/-- The controllers see one worker where there are two heartbeats: the last one. -/
def listed : Outside := { quietOutside with heartbeats := fun _ => ["w-1"] }

/-- Then "srv-a" puts its heartbeat over the one of "srv-b". -/
theorem fenced_instance_seen :
    let fenced := (through (.call 0 .lease) 0 6).foldl (Instances.step twoServers)
      (bothClaim.foldl (Instances.step twoServers) (.start twoServers (.empty 1000)))
    slotHolder fenced.vars "w-1" = some "b" ∧ (fenced.memory 0).recordingAllowed = false ∧
      (bothBeat.foldl (Instances.step twoServers) fenced).read twoServers listed (Controller.workersSeen vms 45) ≠
        ((bothBeat.filter fun event => event.process? ≠ some 0).foldl (Instances.step twoServers) fenced).read twoServers
          listed (Controller.workersSeen vms 45) := by
  refine ⟨by decide +kernel, by decide +kernel, fun same => ?_⟩
  have servers := congrArg (fun seen => seen.toOption.bind fun seen =>
    (seen.get? "w-1").bind fun beat => (beat.extra.get? "server").map Value.text) same
  revert servers
  decide +kernel

end EdgeVms.Verified.FencedInstance
