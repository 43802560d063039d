import EdgeVms.Verified.Platform.SlotIdentity
import EdgeVms.Vms.Instances

/-! # What a process may write

Whatever the others do, a process that is somebody writes slots that it holds,
and epochs while it may record; a process that is nobody yet takes a slot for
itself.  `Owns` is the judgement of rely and guarantee that says so, request by
request, with the memory of the process followed along.
-/

namespace EdgeVms.Verified.OwnWrites

open Process Python Platform Vms

/-! ## The judgement -/

/-- The holder that a slot row names. -/
def holderOf (items : Option Items) : Option String :=
  match Slot.fromItems "" (rowValues items) with
  | .ok slot => some slot.holder
  | .error _ => none

def slotHolder (rows : Rows) (worker : String) : Option String := holderOf (rows.read (vms.slotKey worker))

inductive Writes (me : VmsWorker) (rows : Rows) : Rows → Prop
  | nothing : Writes me rows rows
  | slot (worker row) (own : holderOf (some row) = some me.instance_)
    (may : me.name = none ∨ worker = me.named ∧ slotHolder rows worker = some me.instance_) :
    Writes me rows (rows.write (vms.slotKey worker) row)
  | epoch (unit row) (recording : me.recordingAllowed = true) : Writes me rows (rows.write (vms.epochKey unit) row)

/-- A process stays the process it is; once it is somebody it keeps its name, and stays fenced. -/
structure Kept (me me' : VmsWorker) : Prop where
  instance_ : me'.instance_ = me.instance_
  settled : me.name ≠ none → me'.name = me.name ∧ (me.recordingAllowed = false → me'.recordingAllowed = false)

theorem Kept.refl (me : VmsWorker) : Kept me me := ⟨rfl, fun _ => ⟨rfl, id⟩⟩

theorem Kept.of_same {me me' : VmsWorker} (instance_ : me'.instance_ = me.instance_) (name : me'.name = me.name)
    (allowed : me'.recordingAllowed = me.recordingAllowed) : Kept me me' :=
  ⟨instance_, fun _ => ⟨name, fun fenced => allowed.trans fenced⟩⟩

theorem Kept.ite {me me' : VmsWorker} {c : Prop} [Decidable c] (kept : Kept me me') :
    Kept me (if c then me' else me) := by
  split
  · exact kept
  · exact .refl me

section Judgement

variable {ι α β : Type} [DecidableEq ι]

structure Others (i : ι) (world world' : World ι VmsWorker) : Prop where
  rows : world.vars.Later world'.vars
  memory : world'.memory i = world.memory i

structure Step (i : ι) (world world' : World ι VmsWorker) : Prop where
  kept : Kept (world.memory i) (world'.memory i)
  writes : Writes (world.memory i) world.vars world'.vars

/-- From a memory `m` on, and rows that come after `base`. -/
def Owns (store : Variables) (view : View) (i : ι) (post : Except Exn α → VmsWorker → Prop)
    (p : Program VmsWorker α) (m : VmsWorker) (base : Rows) : Prop :=
  ∀ world : World ι VmsWorker, world.memory i = m → base.Later world.vars →
    Safe (handler store view i) (fun _ => Others i) (Step i)
      (fun result world => post result (world.memory i) ∧ base.Later world.vars) p world

namespace Owns

variable {store : Variables} {view : View} {i : ι} {post : Except Exn α → VmsWorker → Prop} {m : VmsWorker}
  {base : Rows}

theorem ret {value : α} (ends : post (.ok value) m) : Owns store view i post (Proc.ret value) m base := by
  intro world memory later
  exact ⟨by rw [memory]; exact ends, later⟩

theorem raise {error : Exn} (ends : post (.error error) m) : Owns store view i post (Proc.raise error) m base := by
  intro world memory later
  exact ⟨by rw [memory]; exact ends, later⟩

theorem mono {weak : Except Exn α → VmsWorker → Prop} {p : Program VmsWorker α}
    (implies : ∀ result m, post result m → weak result m) (owns : Owns store view i post p m base) :
    Owns store view i weak p m base := fun world memory later =>
  (owns world memory later).mono fun _ _ ends => ⟨implies _ _ ends.1, ends.2⟩

theorem sequel {last : Except Exn β → VmsWorker → Prop} {p : Program VmsWorker α} {f : α → Program VmsWorker β}
    (first : Owns store view i post p m base) (raises : ∀ error m', post (.error error) m' → last (.error error) m')
    (rest : ∀ value m', post (.ok value) m' → Owns store view i last (f value) m' base) :
    Owns store view i last (p >>= f) m base := by
  intro world memory later
  refine Safe.bind ((first world memory later).mono fun result world' ends => ?_)
  cases result with
  | error error => exact ⟨raises _ _ ends.1, ends.2⟩
  | ok value => exact rest value _ ends.1 world' rfl ends.2

theorem within {p : Program VmsWorker α} (phase : Phase) (owns : Owns store view i post p m base) :
    Owns store view i post (p.within phase) m base := fun world memory later =>
  Safe.within (owns world memory later)

theorem value_bind {result : Except Error β} {f : β → Program VmsWorker α}
    (raises : ∀ error, post (.error error) m)
    (rest : ∀ value, result = .ok value → Owns store view i post (f value) m base) :
    Owns store view i post (Program.value result >>= f) m base := by
  cases result with
  | error error => exact raise (raises _)
  | ok value => exact rest value rfl

theorem recollect {f : VmsWorker → Program VmsWorker α} (next : Owns store view i post (f m) m base) :
    Owns store view i post (Program.recollect >>= f) m base := by
  intro world memory later world' moved
  have memory' : world'.memory i = m := moved.memory.trans memory
  refine ⟨⟨.refl _, .nothing⟩, ?_⟩
  have answered : (handler store view i .recollect world').1 = m := memory'
  rw [answered]
  exact next world'.tick memory' (later.trans moved.rows)

theorem remember {change : VmsWorker → VmsWorker} {f : Unit → Program VmsWorker α} (kept : Kept m (change m))
    (next : Owns store view i post (f ()) (change m) base) :
    Owns store view i post (Program.remember change >>= f) m base := by
  intro world memory later world' moved
  have memory' : world'.memory i = m := moved.memory.trans memory
  have changed : (handler store view i (.remember change) world').2.memory i = change m := by
    simp only [handler, Function.update_self, memory']
  refine ⟨⟨?_, .nothing⟩, next _ changed (later.trans moved.rows)⟩
  rw [changed, memory']
  exact kept

theorem remember_last {post : Except Exn Unit → VmsWorker → Prop} {change : VmsWorker → VmsWorker}
    (kept : Kept m (change m)) (ends : post (.ok ()) (change m)) :
    Owns store view i post (Program.remember change) m base := by
  have all : Owns store view i post (Program.remember change >>= Proc.ret) m base := remember kept (ret ends)
  rwa [Proc.bind_eq, Proc.bind_ret] at all

theorem get (honest : Honest store) {key : Key} {f : Option Items × Nat → Program VmsWorker α}
    (raises : ∀ error, post (.error error) m)
    (next : ∀ rows, Owns store view i post (f (rows.read key, rows.version key)) m rows) :
    Owns store view i post (Program.get key >>= f) m base := by
  intro world memory later world' moved
  have memory' : world'.memory i = m := moved.memory.trans memory
  have later' := later.trans moved.rows
  refine ⟨⟨.refl _, .nothing⟩, ?_⟩
  simp only [handler]
  cases answered : store.get world'.vars key with
  | error error => exact ⟨by rw [World.tick, memory']; exact raises error, later'⟩
  | ok answer =>
    obtain ⟨items, index⟩ := answer
    obtain ⟨rfl, rfl⟩ := honest.get_ok answered
    refine (next world'.vars world'.tick memory' (.refl _)).mono fun result world'' ends => ?_
    exact ⟨ends.1, later'.trans ends.2⟩

/-- A write that is tried; what is made of an exception is up to `handle`. -/
theorem tryPut (honest : Honest store) {key : Key} {items : Dict Value} {cas : Option Nat} {result : Nat → α}
    {handle : Exn → Program VmsWorker α}
    (writes : ∀ rows, base.Later rows → rows.Matches key cas → Writes m rows (rows.write key (stored items)))
    (wins : ∀ index, post (.ok (result index)) m) (loses : ∀ error, Owns store view i post (handle error) m base) :
    Owns store view i post
      (tryCatchThe Exn (do
        let index ← Program.put key items cas
        return result index) handle) m base := by
  intro world memory later world' moved
  have memory' : world'.memory i = m := moved.memory.trans memory
  have later' := later.trans moved.rows
  simp only [handler]
  obtain ⟨error, answered⟩ | ⟨index, allowed, answered⟩ := honest.put_cases view world'.vars key items cas
  · rw [answered]
    exact ⟨⟨.refl _, .nothing⟩, loses error world'.tick memory' later'⟩
  · rw [answered]
    refine ⟨⟨.refl _, ?_⟩, by rw [World.tick, memory']; exact wins index, later'.trans (.write ..)⟩
    rw [memory']
    exact writes _ later' allowed

/-- A program that only looks. -/
theorem reads {p : Program VmsWorker α} (reads : ReadsOnly p) :
    Owns store view i (fun _ m' => m' = m) p m base := by
  induction p with
  | ret value => exact ret rfl
  | raise error => exact raise rfl
  | call label request next ih =>
    intro world memory later world' moved
    have memory' : world'.memory i = m := moved.memory.trans memory
    have later' := later.trans moved.rows
    cases request with
    | put key items cas => exact reads.elim
    | remember change => exact reads.elim
    | _ => exact ⟨⟨.refl _, .nothing⟩, ih _ (reads _) _ memory' later'⟩

/-- A program that only looks, and what comes after it. -/
theorem reads_bind {p : Program VmsWorker β} {f : β → Program VmsWorker α} (looks : ReadsOnly p)
    (raises : ∀ error, post (.error error) m) (rest : ∀ value, Owns store view i post (f value) m base) :
    Owns store view i post (p >>= f) m base := by
  refine sequel (reads looks) (fun error m' same => ?_) fun value m' same => ?_
  · rw [same]
    exact raises error
  · rw [same]
    exact rest value

end Owns

/-! ## Programs that only look -/

section Looks

variable {M : Type}

theorem readsOnly_tryCatch {p : Program M α} {handle : Exn → Program M α} (first : ReadsOnly p)
    (rest : ∀ error, ReadsOnly (handle error)) : ReadsOnly (tryCatchThe Exn p handle) := by
  induction p with
  | ret value => trivial
  | raise error => exact rest error
  | call label request next ih =>
    cases request with
    | put key items cas => exact first.elim
    | remember change => exact first.elim
    | _ => exact fun answer => ih answer (first answer)

theorem readsOnly_leaseMayWrite (lease : Lease) : ReadsOnly (lease.mayWrite : Program M _) := by
  unfold Lease.mayWrite
  split
  · exact .ret _
  · exact ReadsOnly.bind (fun _ => trivial) fun _ => .ret _

theorem readsOnly_renew (lease : Lease) : ReadsOnly (lease.renew : Program M _) := by
  unfold Lease.renew
  split
  · exact .ret _
  · apply ReadsOnly.bind
    · exact readsOnly_tryCatch (ReadsOnly.bind (.bind (.get _) fun _ => .value _) fun _ => .ret _) fun _ => .ret _
    · intro live
      cases live with
      | none => exact ReadsOnly.bind (readsOnly_leaseMayWrite lease) fun _ => .ret _
      | some live =>
        dsimp only
        split
        · exact .ret _
        · exact ReadsOnly.bind (fun _ => trivial) fun _ => .ret _

theorem readsOnly_renewRounds (leases : Dict Lease) : ReadsOnly (Worker.renewRounds leases : Program M _) := by
  induction leases with
  | nil => exact .ret _
  | cons entry rest ih => exact ReadsOnly.bind (readsOnly_renew _) fun _ => .bind ih fun _ => .ret _

theorem readsOnly_mayWrite (me : Worker) (unit : String) : ReadsOnly (me.mayWrite unit : Program M _) := by
  unfold Worker.mayWrite
  split
  · exact .ret _
  · exact readsOnly_leaseMayWrite _

theorem readsOnly_assignment (me : Worker) : ReadsOnly (Worker.assignment vms me : Program M _) :=
  .bind (.get _) fun _ => .value _

theorem readsOnly_refreshRounds (units : List String) (rows : List Camera) :
    ReadsOnly (VmsWorker.refreshRounds units rows) := by
  induction units generalizing rows with
  | nil => exact .ret _
  | cons unit rest ih =>
    apply ReadsOnly.bind (.get _)
    rintro ⟨items, index⟩
    dsimp only
    split
    · exact ih _
    · exact .bind (.value _) fun _ => .bind (.value _) fun _ => .bind (.value _) fun _ => .bind (.value _) fun _ => ih _

theorem readsOnly_knownRounds (names : List String) (known : Dict Slot) :
    ReadsOnly (Worker.knownRounds vms names known : Program M _) := by
  induction names generalizing known with
  | nil => exact .ret _
  | cons name rest ih => exact .bind (.get _) fun _ => .bind (.value _) fun _ => ih _

theorem readsOnly_append (log : EventLog) (t : ℚ) (fields : Dict Field) :
    ReadsOnly (VmsWorker.append log t fields) := by
  unfold VmsWorker.append
  split
  · trivial
  · refine ReadsOnly.bind (.value _) fun path => .bind (.bind (fun _ => trivial) .ofExcept) fun _ => ?_
    split
    · trivial
    · exact .ret _

theorem readsOnly_now : ReadsOnly VmsWorker.now :=
  ReadsOnly.bind (fun _ => trivial) fun _ => .bind (fun _ => trivial) fun _ => .ret _

end Looks

/-! ## The calls of a worker -/

section Calls

variable {store : Variables} {view : View} {i : ι} {m : VmsWorker} {base : Rows}

theorem not_returned {P : Prop} {error : Exn} {value : β} (returned : (.error error : Except Exn β) = .ok value) :
    P := by
  cases returned

/-- The call leaves the memory to its caller, and returns a worker of the same instance and name. -/
def SameBase (m : VmsWorker) (result : Except Exn (β × Worker)) (m' : VmsWorker) : Prop :=
  m' = m ∧ ∀ value, result = .ok value → value.2.instance_ = m.instance_ ∧ value.2.name = m.name

theorem SameBase.raises (error : Exn) :
    SameBase m (.error error : Except Exn (β × Worker)) m :=
  ⟨rfl, fun _ => not_returned⟩

theorem kept_withBase {worker : Worker} (instance_ : worker.instance_ = m.instance_) (name : worker.name = m.name) :
    Kept m (m.withBase worker) := .of_same instance_ name rfl

theorem holderOf_of_fromItems {items : Option Items} {name : String} {slot : Slot}
    (parsed : Slot.fromItems name (rowValues items) = .ok slot) : holderOf items = some slot.holder := by
  rw [holderOf]
  unfold Slot.fromItems at *
  split at parsed
  next empty =>
    cases parsed
    rw [if_pos empty]
  next filled =>
    rw [if_neg filled]
    obtain ⟨until_, read, parsed⟩ := bind_eq_ok.mp parsed
    obtain ⟨gen, read', parsed⟩ := bind_eq_ok.mp parsed
    cases parsed
    rw [read, read']
    rfl

theorem holderOf_stored (slot : Slot) : holderOf (some (stored slot.toItems)) = some slot.holder := by
  rw [holderOf, fromItems_toItems]

/-- A check-and-set of its slot over a record that its holder has read. -/
theorem writes_own {rows rows' : Rows} {new : Slot} (own : new.holder = m.instance_)
    (held : slotHolder rows m.named = some m.instance_) (later : rows.Later rows')
    (matches_ : rows'.Matches (vms.slotKey m.named) (some (rows.version (vms.slotKey m.named)))) :
    Writes m rows' (rows'.write (vms.slotKey m.named) (stored new.toItems)) := by
  refine .slot m.named _ (by rw [holderOf_stored, own]) (.inr ⟨rfl, ?_⟩)
  rw [slotHolder, later.read_of_matches matches_]
  exact held

theorem nextEpoch_owns (honest : Honest store) (unit : String) (recording : m.recordingAllowed = true) :
    Owns store view i (fun _ m' => m' = m) (nextEpoch (vms.epochKey unit)) m base := by
  have rounds : ∀ left base, Owns store view i (fun _ m' => m' = m)
      (nextEpochRounds (vms.epochKey unit) 200 left) m base := by
    intro left
    induction left with
    | zero => exact fun _ => .raise rfl
    | succ left ih =>
      intro base
      refine .get honest (fun _ => rfl) fun rows => .value_bind (fun _ => rfl) fun current _ => ?_
      refine .tryPut honest (fun rows' _ _ => .epoch unit _ recording) (fun _ => rfl) fun error => ?_
      cases error with
      | conflict package message =>
        cases package with
        | vmsplatform => exact ih rows
        | cluster => exact .raise rfl
      | python error => exact .raise rfl
      | forbidden package message => exact .raise rfl
      | refused message => exact .raise rfl
  exact rounds 200 base

theorem takeEpoch_owns (honest : Honest store) (unit : String) (recording : m.recordingAllowed = true) :
    Owns store view i (SameBase m) (Worker.takeEpoch vms m.toWorker unit) m base := by
  refine .sequel (nextEpoch_owns honest unit recording) (fun _ _ same => ⟨same, fun _ => not_returned⟩)
    fun ⟨epoch, _⟩ m' same => ?_
  rw [same]
  refine .sequel (.within _ (.reads fun _ => trivial)) (fun _ _ same => ⟨same, fun _ => not_returned⟩)
    fun now m' same => ?_
  rw [same]
  refine .ret ⟨rfl, fun value returned => ?_⟩
  cases returned
  exact ⟨rfl, rfl⟩

theorem renewSlot_owns (honest : Honest store) :
    Owns store view i (SameBase m) (Worker.renewSlot vms m.toWorker) m base := by
  have as_is : ∀ still : Bool, SameBase m (.ok (still, m.toWorker)) m := by
    intro still
    refine ⟨rfl, fun value returned => ?_⟩
    cases returned
    exact ⟨rfl, rfl⟩
  unfold Worker.renewSlot
  split
  · exact .ret (as_is _)
  · refine .get honest (fun _ => .raises _) fun rows => .value_bind (fun _ => .raises _) fun cur parsed => ?_
    split
    · exact .ret (as_is _)
    next held =>
      rw [ne_eq, not_not] at held
      apply Owns.within
      refine .reads_bind (fun _ => trivial) (fun _ => .raises _) fun now => ?_
      refine .tryPut honest ?_ (fun _ => ⟨rfl, ?_⟩) fun error => ?_
      · intro rows' later matches_
        refine writes_own rfl ?_ later matches_
        rw [slotHolder, holderOf_of_fromItems parsed, held]
      · intro value returned
        cases returned
        exact ⟨rfl, rfl⟩
      · cases error with
        | conflict package message =>
          cases package with
          | vmsplatform => exact .ret (as_is _)
          | cluster => exact .raise (.raises _)
        | python error => exact .raise (.raises _)
        | forbidden package message => exact .raise (.raises _)
        | refused message => exact .raise (.raises _)

theorem letGo_owns (honest : Honest store) {rows : Rows} {cur : Slot}
    (held : slotHolder rows m.named = some m.instance_) :
    Owns store view i (fun _ m' => m' = m)
      (Worker.letGo vms m.toWorker cur (rows.version (vms.slotKey m.named))) m rows := by
  unfold Worker.letGo
  refine .reads_bind (fun _ => trivial) (fun _ => rfl) fun now => ?_
  refine .tryPut honest ?_ (fun _ => rfl) fun error => ?_
  · exact fun rows' later matches_ => writes_own rfl held later matches_
  · cases error with
    | conflict package message =>
      cases package with
      | vmsplatform => exact .ret rfl
      | cluster => exact .raise rfl
    | python error => exact .raise rfl
    | forbidden package message => exact .raise rfl
    | refused message => exact .raise rfl

/-- The call leaves the memory to its caller, and the worker is of the same instance and name. -/
def SameWorker (m : VmsWorker) (result : Except Exn Worker) (m' : VmsWorker) : Prop :=
  m' = m ∧ ∀ worker, result = .ok worker → worker.instance_ = m.instance_ ∧ worker.name = m.name

theorem SameWorker.raises (error : Exn) : SameWorker m (.error error) m := ⟨rfl, fun _ => not_returned⟩

theorem workerReleaseSlot_owns (honest : Honest store) :
    Owns store view i (SameWorker m) (Worker.releaseSlot vms m.toWorker) m base := by
  have ends : SameWorker m (.ok { m.toWorker with slot := none }) m := by
    refine ⟨rfl, fun worker returned => ?_⟩
    cases returned
    exact ⟨rfl, rfl⟩
  unfold Worker.releaseSlot
  split
  · refine .ret ⟨rfl, fun worker returned => ?_⟩
    cases returned
    exact ⟨rfl, rfl⟩
  · refine .get honest (fun _ => .raises _) fun rows => .value_bind (fun _ => .raises _) fun cur parsed => ?_
    split
    next held =>
      have own : slotHolder rows m.named = some m.instance_ := by
        rw [slotHolder, holderOf_of_fromItems parsed, held]
      refine .sequel (letGo_owns honest own) (fun error m' same => ?_) fun _ m' same => ?_
      · rw [same]
        exact .raises _
      · rw [same]
        exact .ret ends
    next => exact .ret ends

theorem releaseSlot_owns (honest : Honest store) :
    Owns store view i (fun _ _ => True) VmsWorker.releaseSlot m base := by
  apply Owns.recollect
  refine .sequel (workerReleaseSlot_owns honest) (fun _ _ _ => trivial) ?_
  rintro worker m' ⟨same, returned⟩
  rw [same]
  obtain ⟨instance_, name⟩ := returned worker rfl
  exact .remember_last (kept_withBase instance_ name) trivial

/-- A process that is nobody takes a slot for itself. -/
theorem take_owns (honest : Honest store) {me : Worker} (own : me.instance_ = m.instance_) (nobody : m.name = none)
    (cand : String) (cur : Slot) (now : ℚ) (index : Nat) :
    Owns store view i (fun result m' => m' = m ∧ ∀ taken, result = .ok (some taken) → taken.instance_ = m.instance_)
      (Worker.take vms me cand cur now index) m base := by
  unfold Worker.take
  refine .tryPut honest ?_ (fun _ => ⟨rfl, ?_⟩) fun error => ?_
  · intro rows' _ _
    exact .slot cand _ (by rw [holderOf_stored, own]) (.inl nobody)
  · intro taken returned
    cases returned
    exact own
  · cases error with
    | conflict package message =>
      cases package with
      | vmsplatform => exact .ret ⟨rfl, fun _ returned => by cases returned⟩
      | cluster => exact .raise ⟨rfl, fun _ => not_returned⟩
    | python error => exact .raise ⟨rfl, fun _ => not_returned⟩
    | forbidden package message => exact .raise ⟨rfl, fun _ => not_returned⟩
    | refused message => exact .raise ⟨rfl, fun _ => not_returned⟩

theorem claimAmong_owns (honest : Honest store) {me : Worker} (own : me.instance_ = m.instance_)
    (nobody : m.name = none)
    (prefer : Option String) (now : ℚ) (cands : List String) (base : Rows) :
    Owns store view i (fun result m' => m' = m ∧ ∀ taken, result = .ok (some taken) → taken.instance_ = m.instance_)
      (Worker.claimAmong vms me prefer now cands) m base := by
  induction cands generalizing base with
  | nil => exact .ret ⟨rfl, fun _ returned => by cases returned⟩
  | cons cand rest ih =>
    refine .get honest (fun _ => ⟨rfl, fun _ => not_returned⟩) fun rows =>
      .value_bind (fun _ => ⟨rfl, fun _ => not_returned⟩) fun cur _ => ?_
    split
    · exact ih rows
    · refine .sequel (take_owns honest own nobody cand cur now _) (fun _ _ ends => ⟨ends.1, fun _ => not_returned⟩) ?_
      rintro taken m' ⟨same, instance_⟩
      rw [same]
      cases taken with
      | none => exact ih rows
      | some worker =>
        refine .ret ⟨rfl, fun taken returned => ?_⟩
        cases returned
        exact instance_ worker rfl

theorem claimSlot_owns (honest : Honest store) {me : Worker} (own : me.instance_ = m.instance_) (nobody : m.name = none)
    (prefer : Option String) :
    Owns store view i (fun result m' => m' = m ∧ ∀ taken, result = .ok taken → taken.instance_ = m.instance_)
      (Worker.claimSlot vms me prefer) m base := by
  refine .reads_bind (fun _ => trivial) (fun _ => ⟨rfl, fun _ => not_returned⟩) fun now => ?_
  have rounds : ∀ left base, Owns store view i
      (fun result m' => m' = m ∧ ∀ taken, result = .ok taken → taken.instance_ = m.instance_)
      (Worker.claimRounds vms me prefer now 50 left) m base := by
    intro left
    induction left with
    | zero => exact fun _ => .raise ⟨rfl, fun _ => not_returned⟩
    | succ left ih =>
      intro base
      refine .reads_bind (fun _ => trivial) (fun _ => ⟨rfl, fun _ => not_returned⟩) fun keys => ?_
      refine .reads_bind (readsOnly_knownRounds _ _) (fun _ => ⟨rfl, fun _ => not_returned⟩) fun known => ?_
      refine .value_bind (fun _ => ⟨rfl, fun _ => not_returned⟩) fun order _ => ?_
      refine .sequel (claimAmong_owns honest own nobody prefer now order base)
        (fun _ _ ends => ⟨ends.1, fun _ => not_returned⟩) ?_
      rintro taken m' ⟨same, instance_⟩
      rw [same]
      cases taken with
      | none => exact ih base
      | some worker =>
        refine .ret ⟨rfl, fun taken returned => ?_⟩
        cases returned
        exact instance_ worker rfl
  exact rounds 50 base

/-! ## Its passes -/

/-- Nothing is asked of the result. -/
abbrev Goes (store : Variables) (view : View) (i : ι) (p : Program VmsWorker α) (m : VmsWorker) (base : Rows) : Prop :=
  Owns store view i (fun _ _ => True) p m base

theorem actuator_owns (verb : String) (cid : Int) (row : Dict Value) :
    Goes store view i (VmsWorker.actuator verb cid row) m base := by
  unfold VmsWorker.actuator
  apply Owns.remember
  · exact .ite (.of_same rfl rfl rfl)
  · split
    · exact .ret trivial
    · refine .reads_bind (.bind (fun _ => trivial) .ofExcept) (fun _ => trivial) fun up => ?_
      apply Owns.remember
      · exact .ite (.of_same rfl rfl rfl)
      · exact .ret trivial

theorem refresh_owns (m : VmsWorker) (base : Rows) : Goes store view i VmsWorker.refresh m base := by
  apply Owns.recollect
  refine .reads_bind (readsOnly_assignment _) (fun _ => trivial) fun a => ?_
  apply Owns.remember (.of_same rfl rfl rfl)
  refine .reads_bind (readsOnly_refreshRounds _ _) (fun _ => trivial) fun rows => ?_
  exact .remember_last (.of_same rfl rfl rfl) trivial

theorem actuate_owns (honest : Honest store) (verb : String) (cid : Int) (row : Dict Value) (m : VmsWorker)
    (base : Rows) : Goes store view i (VmsWorker.actuate verb cid row) m base := by
  unfold VmsWorker.actuate
  split
  · refine .sequel (actuator_owns "stop" cid row) (fun _ _ _ => trivial) fun ok m' _ => ?_
    exact .remember (.of_same rfl rfl rfl) (.ret trivial)
  · apply Owns.recollect
    split
    · exact .ret trivial
    next records =>
      have recording : m.recordingAllowed = true := by simpa using records
      have epoch : Goes store view i (VmsWorker.epochFor verb (toString cid) m) m base := by
        unfold VmsWorker.epochFor
        split
        · exact .ret trivial
        · refine .sequel (takeEpoch_owns honest _ recording) (fun _ _ _ => trivial) ?_
          rintro ⟨epoch, worker⟩ m' ⟨same, returned⟩
          rw [same]
          obtain ⟨instance_, name⟩ := returned _ rfl
          exact .remember (kept_withBase instance_ name) (.ret trivial)
      refine .sequel epoch (fun _ _ _ => trivial) fun epoch m' _ => ?_
      apply Owns.recollect
      refine .reads_bind (readsOnly_mayWrite _ _) (fun _ => trivial) fun may => ?_
      split
      · exact .ret trivial
      · exact actuator_owns _ _ _

theorem startRounds_owns (honest : Honest store) (now : ℚ) (desired : List (Int × Camera)) (m : VmsWorker)
    (base : Rows) : Goes store view i (VmsWorker.startRounds now desired) m base := by
  induction desired generalizing m with
  | nil => exact .ret trivial
  | cons entry rest ih =>
    obtain ⟨cid, cam⟩ := entry
    apply Owns.recollect
    split
    · exact ih _
    · refine .sequel (actuate_owns honest _ _ _ _ _) (fun _ _ _ => trivial) fun up m' _ => ?_
      split
      · apply Owns.remember (.of_same rfl rfl rfl)
        exact .sequel (ih _) (fun _ _ _ => trivial) fun _ _ _ => .ret trivial
      · refine .reads_bind (fun _ => trivial) (fun _ => trivial) fun random => ?_
        apply Owns.remember (.of_same rfl rfl rfl)
        exact .sequel (ih _) (fun _ _ _ => trivial) fun _ _ _ => .ret trivial

theorem stopRounds_owns (honest : Honest store) (desired : Table Camera) (cids : List Int) (m : VmsWorker)
    (base : Rows) : Goes store view i (VmsWorker.stopRounds desired cids) m base := by
  induction cids generalizing m with
  | nil => exact .ret trivial
  | cons cid rest ih =>
    unfold VmsWorker.stopRounds
    split
    · exact ih _
    · refine .sequel (actuate_owns honest _ _ _ _ _) (fun _ _ _ => trivial) fun _ m' _ => ?_
      apply Owns.remember (.of_same rfl rfl rfl)
      exact .sequel (ih _) (fun _ _ _ => trivial) fun _ _ _ => .ret trivial

theorem reconcile_owns (honest : Honest store) (now : ℚ) : Goes store view i (VmsWorker.reconcile now) m base := by
  apply Owns.recollect
  refine .sequel (startRounds_owns honest _ _ _ _) (fun _ _ _ => trivial) fun started m' _ => ?_
  apply Owns.recollect
  exact .sequel (stopRounds_owns honest _ _ _ _) (fun _ _ _ => trivial) fun _ _ _ => .ret trivial

theorem reconcileOnce_owns (honest : Honest store) : Goes store view i VmsWorker.reconcileOnce m base := by
  refine .sequel (refresh_owns m base) (fun _ _ _ => trivial) fun _ m' _ => ?_
  refine .reads_bind readsOnly_now (fun _ => trivial) fun now => ?_
  refine .sequel (reconcile_owns honest now) (fun _ _ _ => trivial) fun actions m'' _ => ?_
  exact .remember (.of_same rfl rfl rfl) (.ret trivial)

theorem fence_owns (why : String) : Goes store view i (VmsWorker.fence why) m base := by
  apply Owns.recollect
  split
  · exact .ret trivial
  · exact .remember_last ⟨rfl, fun _ => ⟨rfl, fun _ => rfl⟩⟩ trivial

theorem lostRounds_owns (assigned lost : List String) (m : VmsWorker) :
    Goes store view i (VmsWorker.lostRounds assigned lost) m base := by
  induction lost generalizing m with
  | nil => exact .ret trivial
  | cons unit rest ih =>
    unfold VmsWorker.lostRounds
    split
    · refine .value_bind (fun _ => trivial) fun cid _ => ?_
      refine .sequel (actuator_owns "stop" cid _) (fun _ _ _ => trivial) fun _ m' _ => ?_
      exact .remember (.of_same rfl rfl rfl) (ih _)
    · apply Owns.recollect
      exact fence_owns _

theorem leasePass_owns (honest : Honest store) : Goes store view i VmsWorker.leasePass m base := by
  apply Owns.recollect
  refine .sequel (renewSlot_owns honest) (fun _ _ _ => trivial) ?_
  rintro ⟨mine, worker⟩ m' ⟨same, returned⟩
  rw [same]
  obtain ⟨instance_, name⟩ := returned _ rfl
  refine .remember (kept_withBase instance_ name) ?_
  split
  · exact .sequel (fence_owns _) (fun _ _ _ => trivial) fun _ _ _ => .ret trivial
  · unfold Worker.renewLeases
    rw [bind_assoc]
    refine .reads_bind (readsOnly_renewRounds _) (fun _ => trivial) ?_
    rintro ⟨lost, leases⟩
    apply Owns.remember (.of_same rfl rfl rfl)
    split
    · exact .ret trivial
    · refine .reads_bind (readsOnly_assignment _) (fun _ => trivial) fun a => ?_
      exact .sequel (lostRounds_owns _ _ _) (fun _ _ _ => trivial) fun _ _ _ => .ret trivial

theorem observe_owns (cid : Int) (kind : String) (fields : Dict Field) :
    Goes store view i (VmsWorker.observe cid kind fields) m base := by
  unfold VmsWorker.observe
  split
  · exact .raise trivial
  · apply Owns.recollect
    split
    · refine .reads_bind (fun _ => trivial) (fun _ => trivial) fun t => ?_
      apply Owns.remember (.of_same rfl rfl rfl)
      exact .mono (fun _ _ _ => trivial) (.reads (.map (readsOnly_append _ _ _)))
    · exact .ret trivial

theorem pumpOnce_owns : Goes store view i VmsWorker.pumpOnce m base := by
  have posted : ∀ events m, Goes store view i (VmsWorker.postedRounds events) m base := by
    intro events
    induction events with
    | nil => exact fun _ => .ret trivial
    | cons event rest ih =>
      exact fun m => .sequel (observe_owns _ _ _) (fun _ _ _ => trivial) fun _ m' _ => ih m'
  have died : ∀ cids m, Goes store view i (VmsWorker.deadRounds cids) m base := by
    intro cids
    induction cids with
    | nil => exact fun _ => .ret trivial
    | cons cid rest ih =>
      intro m
      refine .reads_bind readsOnly_now (fun _ => trivial) fun now => ?_
      refine .reads_bind (fun _ => trivial) (fun _ => trivial) fun random => ?_
      apply Owns.remember (.of_same rfl rfl rfl)
      exact .sequel (observe_owns _ _ _) (fun _ _ _ => trivial) fun _ m' _ => ih m'
  have pumped : Goes store view i VmsWorker.pump m base := by
    refine .reads_bind (fun _ => trivial) (fun _ => trivial) ?_
    rintro ⟨dead, events⟩
    exact .remember (.of_same rfl rfl rfl) (.ret trivial)
  refine .sequel pumped (fun _ _ _ => trivial) ?_
  rintro ⟨dead, events⟩ m' _
  exact .sequel (posted events m') (fun _ _ _ => trivial) fun _ m'' _ => died dead m''

/-- A heartbeat under a name, of a worker with this memory. -/
structure Beats (m : VmsWorker) (name : String) (beat : Heartbeat) : Prop where
  named : name = m.named
  worker : beat.worker = name
  fenced : beat.extra.get? "fenced" = some (.bool !m.recordingAllowed)

/-- A heartbeat is put under the name of its worker, and says whether the worker is fenced. -/
def Honestly (result : Except Exn Report) (m : VmsWorker) : Prop :=
  ∀ name beat, result = .ok (some (name, beat)) → Beats m name beat

theorem heartbeatOnce_owns (server : String) (capacity : Int) :
    Owns store view i (fun result m' => ∀ name beat, result = .ok (name, beat) → Beats m' name beat)
      (VmsWorker.heartbeatOnce server capacity) m base := by
  apply Owns.recollect
  refine .value_bind (fun _ => nofun) fun status _ => ?_
  refine .reads_bind (fun _ => trivial) (fun _ => nofun) fun ts => .ret ?_
  intro name beat returned
  cases returned
  exact ⟨rfl, rfl, rfl⟩

theorem call_owns (honest : Honest store) (host : Host) (call : InstanceCall) :
    Owns store view i Honestly (call.program host) m base := by
  cases call with
  | reconcile => exact .sequel (reconcileOnce_owns honest) (fun _ _ _ => nofun) fun _ _ _ => .ret nofun
  | pump => exact .sequel pumpOnce_owns (fun _ _ _ => nofun) fun _ _ _ => .ret nofun
  | lease => exact .sequel (leasePass_owns honest) (fun _ _ _ => nofun) fun _ _ _ => .ret nofun
  | heartbeat =>
    refine .sequel (heartbeatOnce_owns host.server host.capacity) (fun _ _ _ => nofun) ?_
    rintro ⟨name, beat⟩ m' ends
    refine .ret fun name' beat' returned => ?_
    cases returned
    exact ends name beat rfl
  | stopAll =>
    have stopped : Goes store view i VmsWorker.stopAll m base := .remember_last (.of_same rfl rfl rfl) trivial
    exact .sequel stopped (fun _ _ _ => nofun) fun _ _ _ => .ret nofun
  | release => exact .sequel (releaseSlot_owns honest) (fun _ _ _ => nofun) fun _ _ _ => .ret nofun

theorem construct_owns (honest : Honest store) (host : Host) (prefer : Option String) {instance_ : String}
    (own : instance_ = m.instance_) (nobody : m.name = none) :
    Owns store view i Honestly (construct instance_ host prefer) m base := by
  refine .sequel (claimSlot_owns honest (own : (Worker.new instance_).instance_ = _) nobody prefer)
    (fun _ _ _ => nofun) ?_
  rintro me m' ⟨same, returned⟩
  rw [same]
  refine .reads_bind (fun _ => trivial) (fun _ => nofun) fun startedAt => ?_
  refine .remember ⟨returned me rfl, fun somebody => absurd nobody somebody⟩ (.ret nofun)

end Calls

end Judgement

end EdgeVms.Verified.OwnWrites
