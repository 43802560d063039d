import EdgeVms.Verified.Platform.Rules
import EdgeVms.Vms.Worker

/-! # What a pass of the worker leaves behind

A pass runs alone: its surroundings answer as they like, and nobody else touches
its memory.  `Leaves` is the postcondition of such a run, whether it returns or
raises.
-/

namespace EdgeVms.Verified

open Process Python Platform Vms

variable {M α β : Type}

section Run

variable {answers : Surroundings M} {memory : M} {n : Nat}

theorem run_recall (f : M → Program M α) :
    (Program.recollect >>= f).run (within answers) (memory, n) = (f memory).run (within answers) (memory, n + 1) := rfl

theorem run_remember (change : M → M) (f : Unit → Program M α) :
    (Program.remember change >>= f).run (within answers) (memory, n) =
      (f ()).run (within answers) (change memory, n + 1) := rfl

theorem run_wall (f : ℚ → Program M α) :
    (Program.wall >>= f).run (within answers) (memory, n) =
      (f (answers n .wall)).run (within answers) (memory, n + 1) := rfl

theorem run_clock (f : ℚ → Program M α) :
    (Program.clock >>= f).run (within answers) (memory, n) =
      (f (answers n .clock)).run (within answers) (memory, n + 1) := rfl

theorem run_random (f : ℚ → Program M α) :
    (Program.random >>= f).run (within answers) (memory, n) =
      (f (answers n .random)).run (within answers) (memory, n + 1) := rfl

theorem run_bus (f : List Int × List Posted → Program M α) :
    (Program.bus >>= f).run (within answers) (memory, n) =
      (f (answers n .bus)).run (within answers) (memory, n + 1) := rfl

theorem run_append_file (path : String) (f : Unit → Program M α) :
    (Program.append path >>= f).run (within answers) (memory, n) =
      ((Proc.ofExcept (answers n (.append path)) : Program M Unit) >>= f).run (within answers) (memory, n + 1) := rfl

end Run

/-- In these surroundings the program ends, returning or raising, in a memory as `post` says. -/
def Leaves (answers : Surroundings M) (post : Except Exn α → M → Prop) (p : Program M α) (memory : M) : Prop :=
  ∀ n, post (p.run (within answers) (memory, n)).1 (p.run (within answers) (memory, n)).2.1

/-- No request changes the memory. -/
def KeepsMemory : Program M α → Prop
  | .call _ (.remember _) _ => False
  | .call _ _ next => ∀ answer, KeepsMemory (next answer)
  | _ => True

namespace Leaves

variable {answers : Surroundings M} {post : Except Exn α → M → Prop} {memory : M}

theorem ret {value : α} (holds : post (.ok value) memory) : Leaves answers post (Proc.ret value) memory :=
  fun _ => holds

theorem raise {error : Exn} (holds : post (.error error) memory) :
    Leaves answers post (Proc.raise error : Program M α) memory := fun _ => holds

theorem mono {weak : Except Exn α → M → Prop} {p : Program M α}
    (implies : ∀ result memory, post result memory → weak result memory)
    (leaves : Leaves answers post p memory) : Leaves answers weak p memory :=
  fun n => implies _ _ (leaves n)

theorem bind {last : Except Exn β → M → Prop} {p : Program M α} {f : α → Program M β}
    (first : Leaves answers (fun result memory => match result with
      | .ok value => Leaves answers last (f value) memory
      | .error error => last (.error error) memory) p memory) :
    Leaves answers last (p >>= f) memory := by
  intro n
  have ends := first n
  rw [Proc.bind_eq, Proc.run_bind]
  generalize p.run (within answers) (memory, n) = run at ends ⊢
  obtain ⟨result, memory', n'⟩ := run
  cases result with
  | ok value => exact ends n'
  | error error => exact ends

/-- What is known of the first part is what the rest starts from. -/
theorem sequel {first : Except Exn α → M → Prop} {last : Except Exn β → M → Prop} {p : Program M α}
    {f : α → Program M β} (spec : Leaves answers first p memory)
    (raises : ∀ error after, first (.error error) after → last (.error error) after)
    (later : ∀ value after, first (.ok value) after → Leaves answers last (f value) after) :
    Leaves answers last (p >>= f) memory := by
  apply bind
  refine mono ?_ spec
  intro result after ends
  cases result with
  | error error => exact raises error after ends
  | ok value => exact later value after ends

theorem recollect {f : M → Program M α} (next : Leaves answers post (f memory) memory) :
    Leaves answers post (Program.recollect >>= f) memory := fun n => next (n + 1)

theorem remember {change : M → M} {f : Unit → Program M α} (next : Leaves answers post (f ()) (change memory)) :
    Leaves answers post (Program.remember change >>= f) memory := fun n => next (n + 1)

theorem clock {f : ℚ → Program M α} (next : ∀ now, Leaves answers post (f now) memory) :
    Leaves answers post (Program.clock >>= f) memory := fun n => next _ (n + 1)

theorem random {f : ℚ → Program M α} (next : ∀ random, Leaves answers post (f random) memory) :
    Leaves answers post (Program.random >>= f) memory := fun n => next _ (n + 1)

/-- The actuator's answer is one that these surroundings give. -/
theorem actuator {verb : String} {row : Dict Value} {f : Bool → Program M α}
    (raises : ∀ n error, answers n (.actuator verb row) = .error error → post (.error error) memory)
    (next : ∀ n up, answers n (.actuator verb row) = .ok up → Leaves answers post (f up) memory) :
    Leaves answers post (Program.actuator verb row >>= f) memory := by
  intro n
  have unfolded : (Program.actuator verb row >>= f).run (within answers) (memory, n) =
      ((Proc.ofExcept (answers n (.actuator verb row)) : Program M Bool).bind f).run (within answers) (memory, n + 1) :=
    rfl
  rw [unfolded]
  cases answered : answers n (.actuator verb row) with
  | error error => exact raises n error answered
  | ok up => exact next n up answered (n + 1)

/-- The store's answer is one that these surroundings give. -/
theorem get {key : Key} {f : Option Items × Nat → Program M α}
    (raises : ∀ n error, answers n (.get key) = .error error → post (.error error) memory)
    (next : ∀ n found, answers n (.get key) = .ok found → Leaves answers post (f found) memory) :
    Leaves answers post (Program.get key >>= f) memory := by
  intro n
  have unfolded : (Program.get key >>= f).run (within answers) (memory, n) =
      ((Proc.ofExcept (answers n (.get key)) : Program M _).bind f).run (within answers) (memory, n + 1) := rfl
  rw [unfolded]
  cases answered : answers n (.get key) with
  | error error => exact raises n error answered
  | ok found => exact next n found answered (n + 1)

theorem value {result : Except Error β} {f : β → Program M α}
    (raises : ∀ error, result = .error error → post (.error (.python error)) memory)
    (next : ∀ value, result = .ok value → Leaves answers post (f value) memory) :
    Leaves answers post (Program.value result >>= f) memory := by
  cases result with
  | error error => exact fun _ => raises error rfl
  | ok value => exact next value rfl

/-- A program that does not touch the memory. -/
theorem keeps {p : Program M α} (kept : KeepsMemory p) :
    Leaves answers (fun _ after => after = memory) p memory := by
  intro n
  induction p generalizing n with
  | ret value | raise error => rfl
  | call label request next ih =>
    cases request with
    | remember change => exact kept.elim
    | _ => exact ih _ (kept _) (n + 1)

theorem keeps_bind {last : Except Exn β → M → Prop} {p : Program M α} {f : α → Program M β} (kept : KeepsMemory p)
    (raises : ∀ error, last (.error error) memory) (later : ∀ value, Leaves answers last (f value) memory) :
    Leaves answers last (p >>= f) memory := by
  refine sequel (keeps kept) ?_ ?_
  · intro error after same
    rw [same]
    exact raises error
  · intro value after same
    rw [same]
    exact later value

end Leaves

namespace KeepsMemory

theorem ret (value : α) : KeepsMemory (Proc.ret value : Program M α) := trivial

theorem value (result : Except Error α) : KeepsMemory (Program.value result : Program M α) := by
  cases result <;> trivial

theorem ofExcept (result : Except Exn α) : KeepsMemory (Proc.ofExcept result : Program M α) := by
  cases result <;> trivial

theorem bind {p : Program M α} {f : α → Program M β} (first : KeepsMemory p)
    (later : ∀ value, KeepsMemory (f value)) : KeepsMemory (p >>= f) := by
  induction p with
  | ret value => exact later value
  | raise error => trivial
  | call label request next ih =>
    cases request with
    | remember change => exact first.elim
    | _ => exact fun answer => ih answer (first answer)

theorem tryCatch {p : Program M α} {handle : Exn → Program M α} (first : KeepsMemory p)
    (later : ∀ error, KeepsMemory (handle error)) : KeepsMemory (tryCatchThe Exn p handle) := by
  induction p with
  | ret value => trivial
  | raise error => exact later error
  | call label request next ih =>
    cases request with
    | remember change => exact first.elim
    | _ => exact fun answer => ih answer (first answer)

theorem within {p : Program M α} (phase : Phase) (kept : KeepsMemory p) : KeepsMemory (p.within phase) := by
  induction p with
  | ret value | raise error => trivial
  | call label request next ih =>
    cases request with
    | remember change => exact kept.elim
    | _ => exact fun answer => ih answer (kept answer)

theorem get (key : Key) : KeepsMemory (Program.get key : Program M _) := bind (fun _ => trivial) ofExcept

theorem put (key : Key) (items : Dict Value) (cas : Option Nat) :
    KeepsMemory (Program.put key items cas : Program M _) := bind (fun _ => trivial) ofExcept

theorem wall : KeepsMemory (Program.wall : Program M _) := fun _ => trivial

theorem clock : KeepsMemory (Program.clock : Program M _) := fun _ => trivial

theorem nextEpoch (key : Key) : KeepsMemory (nextEpoch key : Program M _) := by
  have rounds : ∀ retries left, KeepsMemory (nextEpochRounds key retries left : Program M _) := by
    intro retries left
    induction left with
    | zero => trivial
    | succ left ih =>
      apply bind (get key)
      intro found
      apply bind (value _)
      intro number
      apply tryCatch (bind (put _ _ _) fun _ => ret _)
      intro error
      cases error with
      | conflict package message =>
        cases package with
        | vmsplatform => exact ih
        | cluster => trivial
      | python error | forbidden package message | refused message => trivial
  exact rounds 200 200

theorem takeEpoch (sub : Subsystem) (me : Worker) (unit : String) :
    KeepsMemory (Worker.takeEpoch sub me unit : Program M _) :=
  bind (nextEpoch _) fun _ => bind (within _ clock) fun _ => ret _

theorem leaseMayWrite (lease : Lease) : KeepsMemory (lease.mayWrite : Program M _) := by
  unfold Lease.mayWrite
  split
  · exact ret _
  · exact bind clock fun _ => ret _

theorem leaseRenew (lease : Lease) : KeepsMemory (lease.renew : Program M _) := by
  unfold Lease.renew
  split
  · exact ret _
  · apply bind (tryCatch (bind (bind (get _) fun _ => value _) fun _ => ret _) fun _ => ret _)
    intro live
    cases live with
    | none => exact bind (leaseMayWrite lease) fun _ => ret _
    | some live =>
      dsimp only
      split
      · exact ret _
      · exact bind clock fun _ => ret _

theorem mayWrite (me : Worker) (unit : String) : KeepsMemory (me.mayWrite unit : Program M _) := by
  unfold Worker.mayWrite
  split
  · exact ret _
  · exact leaseMayWrite _

theorem renewLeases (me : Worker) : KeepsMemory (me.renewLeases : Program M _) := by
  have rounds : ∀ leases, KeepsMemory (Worker.renewRounds leases : Program M _) := by
    intro leases
    induction leases with
    | nil => exact ret _
    | cons entry rest ih => exact bind (leaseRenew _) fun _ => bind ih fun _ => ret _
  exact bind (rounds _) fun _ => ret _

theorem assignment (sub : Subsystem) (me : Worker) : KeepsMemory (Worker.assignment sub me : Program M _) :=
  bind (get _) fun _ => value _

theorem renewSlot (sub : Subsystem) (me : Worker) : KeepsMemory (Worker.renewSlot sub me : Program M _) := by
  unfold Worker.renewSlot
  split
  · exact ret _
  · apply bind (get _)
    intro found
    apply bind (value _)
    intro cur
    split
    · exact ret _
    · apply within
      apply bind wall
      intro now
      apply tryCatch (bind (put _ _ _) fun _ => ret _)
      intro error
      cases error with
      | conflict package message => cases package <;> trivial
      | python error | forbidden package message | refused message => trivial

theorem refreshRounds (units : List String) (rows : List Camera) :
    KeepsMemory (VmsWorker.refreshRounds units rows) := by
  induction units generalizing rows with
  | nil => exact ret _
  | cons unit rest ih =>
    apply bind (get _)
    rintro ⟨items, index⟩
    dsimp only
    split
    · exact ih _
    · exact bind (value _) fun _ => bind (value _) fun _ => bind (value _) fun _ => bind (value _) fun _ => ih _

end KeepsMemory

/-! ## What a program can return -/

/-- Whatever is answered, what the program returns is as `post` says. -/
def ComesTo (post : α → Prop) : Program M α → Prop
  | .ret value => post value
  | .raise _ => True
  | .call _ _ next => ∀ answer, ComesTo post (next answer)

namespace ComesTo

variable {post : α → Prop}

theorem always (p : Program M α) : ComesTo (fun _ => True) p := by
  induction p with
  | ret value | raise error => trivial
  | call label request next ih => exact ih

theorem bind {last : β → Prop} {p : Program M α} {f : α → Program M β} (first : ComesTo post p)
    (later : ∀ value, post value → ComesTo last (f value)) : ComesTo last (p >>= f) := by
  induction p with
  | ret value => exact later value first
  | raise error => trivial
  | call label request next ih => exact fun answer => ih answer (first answer)

theorem bind_any {last : β → Prop} {p : Program M α} {f : α → Program M β} (later : ∀ value, ComesTo last (f value)) :
    ComesTo last (p >>= f) := bind (always p) fun value _ => later value

theorem tryCatch {p : Program M α} {handle : Exn → Program M α} (first : ComesTo post p)
    (later : ∀ error, ComesTo post (handle error)) : ComesTo post (tryCatchThe Exn p handle) := by
  induction p with
  | ret value => exact first
  | raise error => exact later error
  | call label request next ih => exact fun answer => ih answer (first answer)

theorem within {p : Program M α} (phase : Phase) (comes : ComesTo post p) : ComesTo post (p.within phase) := by
  induction p with
  | ret value => exact comes
  | raise error => trivial
  | call label request next ih => exact fun answer => ih answer (comes answer)

/-- A program that does not touch the memory, with what it returns. -/
theorem leaves {answers : Surroundings M} {memory : M} {p : Program M α} (comes : ComesTo post p)
    (kept : KeepsMemory p) :
    Leaves answers (fun result after => after = memory ∧ ∀ value, result = .ok value → post value) p memory := by
  intro n
  induction p generalizing n with
  | ret value => exact ⟨rfl, fun _ returned => Except.ok.inj returned ▸ comes⟩
  | raise error =>
    refine ⟨rfl, fun value returned => ?_⟩
    cases returned
  | call label request next ih =>
    cases request with
    | remember change => exact kept.elim
    | _ => exact ih _ (comes _) (kept _) (n + 1)

theorem takeEpoch (sub : Subsystem) (me : Worker) (unit : String) :
    ComesTo (fun taken => ∃ epoch lease,
        taken = (epoch, { me with epochs := me.epochs.set unit epoch, leases := me.leases.set unit lease }))
      (Worker.takeEpoch sub me unit : Program M _) := by
  apply bind_any
  intro taken
  apply bind_any
  intro now
  exact ⟨_, _, rfl⟩

theorem renewSlot (sub : Subsystem) (me : Worker) :
    ComesTo (fun renewed => ∃ mine slot, renewed = (mine, { me with slot := slot }))
      (Worker.renewSlot sub me : Program M _) := by
  unfold Worker.renewSlot
  split
  · exact ⟨_, me.slot, rfl⟩
  · apply bind_any
    intro found
    apply bind_any
    intro cur
    split
    · exact ⟨_, me.slot, rfl⟩
    · apply within
      apply bind_any
      intro now
      apply tryCatch
      · apply bind_any
        intro index
        exact ⟨_, _, rfl⟩
      intro error
      cases error with
      | conflict package message =>
        cases package with
        | vmsplatform => exact ⟨_, me.slot, rfl⟩
        | cluster => trivial
      | python error | forbidden package message | refused message => trivial

/-- Renewing drops no lease. -/
theorem renewLeases (me : Worker) :
    ComesTo (fun renewed => ∃ lost leases, leases.map Prod.fst = me.leases.map Prod.fst ∧
        renewed = (lost, { me with leases := leases }))
      (me.renewLeases : Program M _) := by
  have rounds : ∀ leases, ComesTo (fun renewed => renewed.2.map Prod.fst = leases.map Prod.fst)
      (Worker.renewRounds leases : Program M _) := by
    intro leases
    induction leases with
    | nil => exact rfl
    | cons entry rest ih => exact bind_any fun _ => bind ih fun renewed same => congrArg (entry.1 :: ·) same
  exact bind (rounds _) fun renewed same => ⟨renewed.1, renewed.2, same, rfl⟩

end ComesTo

/-! ## Pass after pass -/

/-- What the loop of a worker does. -/
inductive Pass where
  | reconcile
  | lease
  | pump
  | fence (why : String)

def Pass.program : Pass → Program VmsWorker Unit
  | reconcile => do let _ ← VmsWorker.reconcileOnce
  | lease => do let _ ← VmsWorker.leasePass
  | pump => VmsWorker.pumpOnce
  | fence why => VmsWorker.fence why

/-- The memory after a pass, returning or raising, in the surroundings that it met. -/
def pass (me : VmsWorker) (event : Surroundings VmsWorker × Pass) : VmsWorker :=
  (event.2.program.run (within event.1) (me, 0)).2.1

end EdgeVms.Verified
