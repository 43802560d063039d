import EdgeVms.Verified.Platform.Rules

/-! # A program alone with its store

`Ends` is the execution that nobody disturbs and no exception cuts short.  Its
inversion lemmas say where each request leaves the world; alone, no
check-and-set is lost.
-/

namespace EdgeVms.Verified

open Process Python Platform

variable {ι M α β : Type} [DecidableEq ι]

/-- `p` returns `value` and leaves `world'`. -/
def Ends (view : View) (i : ι) (p : Program M α) (world : World ι M) (value : α) (world' : World ι M) : Prop :=
  p.run (handler FileVariables view i) world = (.ok value, world')

/-- Time passed, and nothing else. -/
def Waited (world world' : World ι M) : Prop :=
  world'.vars = world.vars ∧ world'.outside = world.outside ∧ world.served ≤ world'.served

omit [DecidableEq ι] in
theorem Waited.refl (world : World ι M) : Waited world world := ⟨rfl, rfl, Nat.le_refl _⟩

omit [DecidableEq ι] in
theorem Waited.tick (world : World ι M) : Waited world world.tick := ⟨rfl, rfl, Nat.le_succ _⟩

omit [DecidableEq ι] in
theorem Waited.trans {world world' world'' : World ι M} (first : Waited world world')
    (second : Waited world' world'') : Waited world world'' :=
  ⟨second.1.trans first.1, second.2.1.trans first.2.1, Nat.le_trans first.2.2 second.2.2⟩

namespace Ends

variable {view : View} {i : ι} {world world' : World ι M}

theorem ret_inv {value result : α} (ends : Ends view i (Proc.ret value) world result world') :
    result = value ∧ world' = world := by
  cases ends
  exact ⟨rfl, rfl⟩

theorem value_inv {result : Except Error α} {value : α}
    (ends : Ends view i (Program.value result) world value world') : result = .ok value ∧ world' = world := by
  cases result with
  | error error => cases ends
  | ok value => cases ends; exact ⟨rfl, rfl⟩

theorem bind_inv {p : Program M α} {f : α → Program M β} {result : β}
    (ends : Ends view i (p >>= f) world result world') :
    ∃ value middle, Ends view i p world value middle ∧ Ends view i (f value) middle result world' := by
  unfold Ends at ends
  rw [Proc.bind_eq, Proc.run_bind] at ends
  cases first : p.run (handler FileVariables view i) world with
  | mk outcome middle =>
    rw [first] at ends
    cases outcome with
    | error error => cases ends
    | ok value => exact ⟨value, middle, first, ends⟩

theorem bind {p : Program M α} {f : α → Program M β} {value : α} {result : β} {middle : World ι M}
    (first : Ends view i p world value middle) (later : Ends view i (f value) middle result world') :
    Ends view i (p >>= f) world result world' := by
  unfold Ends
  rw [Proc.bind_eq, Proc.run_bind, first]
  exact later

/-- Looking leaves the rows alone. -/
theorem waited {p : Program M α} {result : α} (reads : ReadsOnly p)
    (ends : Ends view i p world result world') : Waited world world' := by
  induction p generalizing world with
  | ret value =>
    cases ends
    exact Waited.refl _
  | raise error => cases ends
  | call label request next ih =>
    unfold Ends at ends
    rw [Proc.run_call] at ends
    cases request with
    | put key items cas => exact reads.elim
    | remember change => exact reads.elim
    | _ => exact (Waited.tick _).trans (ih _ (reads _) ends)

theorem get_inv {key : Key} {result : Option Items × Nat}
    (ends : Ends view i (Program.get key) world result world') :
    result = (world.vars.read key, world.vars.version key) ∧ world' = world.tick := by
  change Proc.run _ (Proc.ofExcept (FileVariables.get world.vars key)) world.tick = _ at ends
  unfold FileVariables.get at ends
  split at ends
  · cases ends
  · cases ends
    exact ⟨rfl, rfl⟩

theorem list_inv {above : Key} {result : List Key}
    (ends : Ends view i (Program.list above) world result world') :
    result = listing world.vars above ∧ world' = world.tick := by
  cases ends
  exact ⟨rfl, rfl⟩

/-- Alone, the version that was read still stands. -/
theorem attempt_inv {path : Key} {new result : Dict Value} {index : Nat} {lost : Program M (Dict Value)}
    (current : index = world.vars.version path)
    (ends : Ends view i (Controller.attempt path new index lost) world result world') :
    result = new ∧ world' = { world.tick with vars := world.vars.write path (stored new) } := by
  subst current
  change Proc.run _ (Proc.tryCatch (Proc.bind (Proc.ofExcept
    (FileVariables.put view world.vars path new (some (world.vars.version path))).1) _) _)
    { world.tick with vars := (FileVariables.put view world.vars path new
      (some (world.vars.version path))).2 } = _ at ends
  obtain ⟨number, answered⟩ | ⟨error, answered, other⟩ :=
    FileVariables.put_current view world.vars path new
  · rw [answered] at ends
    cases ends
    exact ⟨rfl, rfl⟩
  · rw [answered] at ends
    cases error with
    | conflict package message => exact absurd rfl (other package message)
    | python error => cases ends
    | forbidden package message => cases ends
    | refused message => cases ends

theorem write_inv {path : Key} {mutate : Dict Value → Program M (Option (Dict Value))} {result : Dict Value}
    (reads : ∀ items, ReadsOnly (mutate items))
    (ends : Ends view i (Controller.write path mutate) world result world') :
    ∃ new middle, Waited world middle ∧
      Ends view i (mutate (rowValues (world.vars.read path))) world.tick new middle ∧
      match new with
      | none => result = rowValues (world.vars.read path) ∧ world' = middle
      | some new => result = new ∧ world' = { middle.tick with vars := world.vars.write path (stored new) } := by
  obtain ⟨answer, _, got, ends⟩ := bind_inv ends
  obtain ⟨rfl, rfl⟩ := get_inv got
  obtain ⟨new, middle, mutated, ends⟩ := bind_inv ends
  have waits := mutated.waited (reads _)
  refine ⟨new, middle, (Waited.tick world).trans waits, mutated, ?_⟩
  cases new with
  | none =>
    obtain ⟨rfl, rfl⟩ := ret_inv ends
    exact ⟨rfl, rfl⟩
  | some new =>
    have current : world.vars.version path = middle.vars.version path := by rw [waits.1]; rfl
    obtain ⟨rfl, rfl⟩ := attempt_inv current ends
    refine ⟨rfl, ?_⟩
    rw [waits.1]
    rfl

end Ends

/-! ## Runs that may raise -/

/-- `p` returns or raises `result` and leaves `world'`. -/
def Outcome (view : View) (i : ι) (p : Program M α) (world : World ι M) (result : Except Exn α)
    (world' : World ι M) : Prop :=
  p.run (handler FileVariables view i) world = (result, world')

namespace Outcome

variable {view : View} {i : ι} {world world' : World ι M}

theorem ret_inv {value : α} {result : Except Exn α} (outcome : Outcome view i (Proc.ret value) world result world') :
    result = .ok value ∧ world' = world := by
  cases outcome
  exact ⟨rfl, rfl⟩

theorem raise_inv {error : Exn} {result : Except Exn α}
    (outcome : Outcome view i (Proc.raise error) world result world') : result = .error error ∧ world' = world := by
  cases outcome
  exact ⟨rfl, rfl⟩

theorem bind_inv {p : Program M α} {f : α → Program M β} {result : Except Exn β}
    (outcome : Outcome view i (p >>= f) world result world') :
    (∃ error, result = .error error ∧ Outcome view i p world (.error error) world') ∨
      ∃ value middle, Ends view i p world value middle ∧ Outcome view i (f value) middle result world' := by
  unfold Outcome at outcome
  rw [Proc.bind_eq, Proc.run_bind] at outcome
  cases first : p.run (handler FileVariables view i) world with
  | mk answer middle =>
    rw [first] at outcome
    cases answer with
    | error error =>
      cases outcome
      exact .inl ⟨error, rfl, first⟩
    | ok value => exact .inr ⟨value, middle, first, outcome⟩

theorem ofExcept_inv {answer : Except Exn α} {f : α → Program M β} {result : Except Exn β}
    (outcome : Outcome view i (Proc.ofExcept answer >>= f) world result world') :
    (∃ error, answer = .error error ∧ result = .error error ∧ world' = world) ∨
      ∃ value, answer = .ok value ∧ Outcome view i (f value) world result world' := by
  cases answer with
  | error error =>
    cases outcome
    exact .inl ⟨error, rfl, rfl, rfl⟩
  | ok value => exact .inr ⟨value, rfl, outcome⟩

theorem value_inv {answer : Except Error α} {f : α → Program M β} {result : Except Exn β}
    (outcome : Outcome view i (Program.value answer >>= f) world result world') :
    (∃ error, answer = .error error ∧ result = .error (.python error) ∧ world' = world) ∨
      ∃ value, answer = .ok value ∧ Outcome view i (f value) world result world' := by
  cases answer with
  | error error =>
    cases outcome
    exact .inl ⟨error, rfl, rfl, rfl⟩
  | ok value => exact .inr ⟨value, rfl, outcome⟩

theorem put_inv {key : Key} {items : Dict Value} {cas : Option Nat} {f : Nat → Program M β}
    {result : Except Exn β} (outcome : Outcome view i (Program.put key items cas >>= f) world result world') :
    ((∃ error, result = .error error) ∧ world'.vars = world.vars) ∨
      ∃ index middle, middle.vars = world.vars.write key (stored items) ∧
        Outcome view i (f index) middle result world' := by
  have stepped : Outcome view i (Proc.ofExcept (Variables.put FileVariables view world.vars key items cas).1 >>= f)
      { world.tick with vars := (Variables.put FileVariables view world.vars key items cas).2 } result world' := outcome
  obtain ⟨error, answered⟩ | ⟨index, -, answered⟩ :=
    FileVariables.honest.put_cases view world.vars key items cas
  · rw [answered] at stepped
    obtain ⟨-, rfl⟩ := raise_inv stepped
    cases stepped
    exact .inl ⟨⟨error, rfl⟩, rfl⟩
  · rw [answered] at stepped
    exact .inr ⟨index, _, rfl, stepped⟩

/-- A program that only looks leaves the rows alone also when it raises. -/
theorem waited {p : Program M α} {result : Except Exn α} (reads : ReadsOnly p)
    (outcome : Outcome view i p world result world') : world'.vars = world.vars := by
  induction p generalizing world with
  | ret value | raise error =>
    cases outcome
    rfl
  | call label request next ih =>
    unfold Outcome at outcome
    rw [Proc.run_call] at outcome
    cases request with
    | put key items cas => exact reads.elim
    | remember change => exact reads.elim
    | _ => exact (ih _ (reads _) outcome).trans rfl

/-- A read-modify-write that raises has written nothing. -/
theorem write_error {path : Key} {mutate : Dict Value → Program M (Option (Dict Value))} {error : Exn}
    (reads : ∀ items, ReadsOnly (mutate items))
    (outcome : Outcome view i (Controller.write path mutate) world (.error error) world') :
    world'.vars = world.vars := by
  obtain ⟨_, -, got⟩ | ⟨⟨items, index⟩, _, got, outcome⟩ := bind_inv outcome
  · exact got.waited (ReadsOnly.get path)
  obtain ⟨same, rfl⟩ := Ends.get_inv got
  cases same
  obtain ⟨_, -, mutated⟩ | ⟨new, middle, mutated, outcome⟩ := bind_inv outcome
  · have same : world'.vars = world.tick.vars := mutated.waited (reads _)
    exact same
  have waits := mutated.waited (reads _)
  cases new with
  | none => cases outcome
  | some new =>
    have current : world.vars.version path = middle.vars.version path := by rw [waits.1]; rfl
    dsimp only at outcome
    rw [current] at outcome
    change Proc.run _ (Proc.tryCatch (Proc.bind (Proc.ofExcept
      (FileVariables.put view middle.vars path new (some (middle.vars.version path))).1) _) _)
      { middle.tick with vars := (FileVariables.put view middle.vars path new
        (some (middle.vars.version path))).2 } = _ at outcome
    obtain ⟨number, answered⟩ | ⟨error', answered, other⟩ :=
      FileVariables.put_current view middle.vars path new
    · rw [answered] at outcome
      cases outcome
    · rw [answered] at outcome
      cases error' with
      | conflict package message => exact absurd rfl (other package message)
      | python error => cases outcome; exact waits.1
      | forbidden package message => cases outcome; exact waits.1
      | refused message => cases outcome; exact waits.1

end Outcome

namespace Ends

variable {view : View} {i : ι} {world world' middle : World ι M}

/-- A run has one end. -/
theorem outcome {p : Program M α} {value : α} {result : Except Exn α} (ends : Ends view i p world value middle)
    (outcome : Outcome view i p world result world') : result = .ok value ∧ world' = middle := by
  unfold Ends at ends
  unfold Outcome at outcome
  rw [ends] at outcome
  cases outcome
  exact ⟨rfl, rfl⟩

/-- After a part whose end is known comes the rest. -/
theorem rest {p : Program M α} {f : α → Program M β} {value : α} {result : Except Exn β}
    (ends : Ends view i p world value middle) (run : Outcome view i (p >>= f) world result world') :
    Outcome view i (f value) middle result world' := by
  obtain ⟨error, -, raised⟩ | ⟨value', middle', ends', later⟩ := Outcome.bind_inv run
  · cases (ends.outcome raised).1
  · obtain ⟨same, rfl⟩ := ends.outcome ends'
    cases same
    exact later

theorem get {key : Key} (clear : FileVariables.refuses key = false) :
    Ends view i (Program.get key) world (world.vars.read key, world.vars.version key) world.tick := by
  change Proc.run _ (Proc.ofExcept (FileVariables.get world.vars key)) world.tick = _
  rw [FileVariables.get, if_neg (by simp [clear])]
  rfl

theorem value {result : Except Error α} {value : α} (returns : result = .ok value) :
    Ends view i (Program.value result) world value world := by
  rw [returns]
  rfl

theorem list {above : Key} :
    Ends view i (Program.list above) world (listing world.vars above) world.tick := rfl

/-- A read-modify-write whose `mutate` looks and returns, where the client may write. -/
theorem write {path : Key} {mutate : Dict Value → Program M (Option (Dict Value))} {new : Option (Dict Value)}
    (reads : ReadsOnly (mutate (rowValues (world.vars.read path))))
    (mutated : Ends view i (mutate (rowValues (world.vars.read path))) world.tick new middle)
    (clear : FileVariables.refuses path = false) (allowed : view.forbids path.path = none) :
    ∃ world', Ends view i (Controller.write path mutate) world (new.getD (rowValues (world.vars.read path))) world' ∧
      world'.vars = new.elim world.vars fun new => world.vars.write path (stored new) := by
  have looked : (Program.get path : Program M _).run (handler FileVariables view i) world =
      (.ok (world.vars.read path, world.vars.version path), world.tick) := get clear
  have start : (Controller.write path mutate).run (handler FileVariables view i) world =
      (match new with
        | none => Proc.ret (rowValues (world.vars.read path))
        | some new => Controller.attempt path new (world.vars.version path)
            (Controller.writeRounds path mutate 10 9)).run (handler FileVariables view i) middle := by
    change ((Program.get path).bind _).run _ world = _
    rw [Proc.run_bind, looked]
    dsimp only
    rw [Proc.bind_eq, Proc.run_bind, mutated]
    cases new <;> rfl
  have waits : middle.vars = world.vars := (mutated.waited reads).1
  cases new with
  | none => exact ⟨middle, start, waits⟩
  | some new =>
    -- alone, the version that was read still stands
    have goes : FileVariables.put view middle.vars path new (some (world.vars.version path)) =
        (.ok (world.vars.index + 1), world.vars.write path (stored new)) := by
      simp [FileVariables.put, FileVariables.get, allowed, clear, waits]
    refine ⟨{ middle.tick with vars := world.vars.write path (stored new) }, start.trans ?_, rfl⟩
    change Proc.run _ (Proc.tryCatch (Proc.bind (Proc.ofExcept
      (FileVariables.put view middle.vars path new (some (world.vars.version path))).1) _) _)
      { middle.tick with vars := (FileVariables.put view middle.vars path new
        (some (world.vars.version path))).2 } = _
    rw [goes]
    rfl

/-- A read-modify-write whose `mutate` only returns, where the client may write. -/
theorem write_ret {path : Key} {mutate : Dict Value → Program M (Option (Dict Value))}
    {new : Option (Dict Value)} (mutated : mutate (rowValues (world.vars.read path)) = Proc.ret new)
    (clear : FileVariables.refuses path = false) (allowed : view.forbids path.path = none) :
    ∃ world', Ends view i (Controller.write path mutate) world (new.getD (rowValues (world.vars.read path))) world' ∧
      world'.vars = match new with
        | none => world.vars
        | some new => world.vars.write path (stored new) := by
  have returns : Ends view i (mutate (rowValues (world.vars.read path))) world.tick new world.tick := by
    rw [mutated]
    rfl
  have reads : ReadsOnly (mutate (rowValues (world.vars.read path))) := by
    rw [mutated]
    trivial
  cases new with
  | none => exact write reads returns clear allowed
  | some new => exact write reads returns clear allowed

end Ends

/-! ## Runs that return -/

/-- `p` returns, and `post` holds of what it returns and of the world it leaves. -/
def Completes (view : View) (i : ι) (p : Program M α) (world : World ι M) (post : α → World ι M → Prop) : Prop :=
  ∃ value world', Ends view i p world value world' ∧ post value world'

namespace Completes

variable {view : View} {i : ι} {world : World ι M} {post weak : α → World ι M → Prop}

theorem ret {value : α} (holds : post value world) : Completes view i (Proc.ret value) world post :=
  ⟨value, world, rfl, holds⟩

theorem value {result : Except Error α} {value : α} (returns : result = .ok value) (holds : post value world) :
    Completes view i (Program.value result) world post := ⟨value, world, Ends.value returns, holds⟩

/-- After a part whose end is known comes the rest. -/
theorem after {p : Program M α} {f : α → Program M β} {value : α} {middle : World ι M} {last : β → World ι M → Prop}
    (ends : Ends view i p world value middle) (later : Completes view i (f value) middle last) :
    Completes view i (p >>= f) world last := by
  obtain ⟨result, world', ends', holds⟩ := later
  exact ⟨result, world', ends.bind ends', holds⟩

theorem bind {p : Program M α} {f : α → Program M β} {last : β → World ι M → Prop}
    (first : Completes view i p world post)
    (later : ∀ value middle, Ends view i p world value middle → post value middle →
      Completes view i (f value) middle last) :
    Completes view i (p >>= f) world last := by
  obtain ⟨value, middle, ends, holds⟩ := first
  exact after ends (later value middle ends holds)

theorem mono {p : Program M α}
    (implies : ∀ value world', Ends view i p world value world' → post value world' → weak value world')
    (completes : Completes view i p world post) : Completes view i p world weak := by
  obtain ⟨value, world', ends, holds⟩ := completes
  exact ⟨value, world', ends, implies value world' ends holds⟩

theorem settling {phase : Phase} {p : Program M α} (completes : Completes view i p world post) :
    Completes view i (p.settling phase) world post := by
  obtain ⟨value, world', ends, holds⟩ := completes
  refine ⟨value, world', ?_, holds⟩
  unfold Ends
  rwa [Proc.run_settling]

end Completes

/-! ## Every write -/

/-- Every row that `p` writes, alone, is one that is allowed in the world as it then is. -/
def WritesOnly (view : View) (i : ι) (allowed : World ι M → Key → Dict Value → Prop) : Program M α → World ι M → Prop
  | .call _ (.put key items cas) next, world =>
    allowed world key items ∧
      WritesOnly view i allowed (next (handler FileVariables view i (.put key items cas) world).1)
        (handler FileVariables view i (.put key items cas) world).2
  | .call _ request next, world =>
    WritesOnly view i allowed (next (handler FileVariables view i request world).1)
      (handler FileVariables view i request world).2
  | _, _ => True

namespace WritesOnly

variable {view : View} {i : ι} {world world' : World ι M} {allowed : World ι M → Key → Dict Value → Prop}

theorem ret (value : α) : WritesOnly view i allowed (Proc.ret value) world := trivial

theorem bind_iff {p : Program M α} {f : α → Program M β} :
    WritesOnly view i allowed (p >>= f) world ↔ WritesOnly view i allowed p world ∧
      ∀ value middle, Ends view i p world value middle → WritesOnly view i allowed (f value) middle := by
  induction p generalizing world with
  | ret value =>
    refine ⟨fun writes => ⟨trivial, fun value' middle ends => ?_⟩, fun both => both.2 value world rfl⟩
    obtain ⟨rfl, rfl⟩ := Ends.ret_inv ends
    exact writes
  | raise error =>
    refine ⟨fun _ => ⟨trivial, fun value middle ends => ?_⟩, fun _ => trivial⟩
    cases ends
  | call label request next ih =>
    cases request with
    | put key items cas =>
      refine (and_congr_right fun _ => ih _).trans ?_
      rw [← and_assoc]
      rfl
    | _ => exact ih _

theorem bind {p : Program M α} {f : α → Program M β} (first : WritesOnly view i allowed p world)
    (later : ∀ value middle, Ends view i p world value middle → WritesOnly view i allowed (f value) middle) :
    WritesOnly view i allowed (p >>= f) world := bind_iff.mpr ⟨first, later⟩

/-- Looking writes nothing. -/
theorem reads {p : Program M α} (reads : ReadsOnly p) : WritesOnly view i allowed p world := by
  induction p generalizing world with
  | ret value => trivial
  | raise error => trivial
  | call label request next ih =>
    cases request with
    | put key items cas => exact reads.elim
    | remember change => exact reads.elim
    | _ => exact ih _ (reads _)

theorem reads_bind {p : Program M α} {f : α → Program M β} (reads_ : ReadsOnly p)
    (later : ∀ value middle, Ends view i p world value middle → WritesOnly view i allowed (f value) middle) :
    WritesOnly view i allowed (p >>= f) world := bind (reads reads_) later

theorem within_iff {phase : Phase} {p : Program M α} :
    WritesOnly view i allowed (p.within phase) world ↔ WritesOnly view i allowed p world := by
  induction p generalizing world with
  | ret value | raise error => exact Iff.rfl
  | call label request next ih =>
    cases request with
    | put key items cas => exact and_congr_right fun _ => ih _
    | _ => exact ih _

theorem settling_iff {phase : Phase} {p : Program M α} :
    WritesOnly view i allowed (p.settling phase) world ↔ WritesOnly view i allowed p world := by
  cases p with
  | ret value | raise error => exact Iff.rfl
  | call label request next =>
    cases request with
    | put key items cas => exact and_congr_right fun _ => within_iff
    | _ => exact within_iff

theorem attempt_iff {path : Key} {new : Dict Value} {index : Nat} {lost : Program M (Dict Value)}
    (current : index = world.vars.version path) :
    WritesOnly view i allowed (Controller.attempt path new index lost) world ↔ allowed world path new := by
  subst current
  refine and_iff_left ?_
  simp only [handler]
  obtain ⟨number, answered⟩ | ⟨error, answered, other⟩ := FileVariables.put_current view world.vars path new
  · have answer : (FileVariables.put view world.vars path new (some (world.vars.version path))).1 = .ok number := by
      rw [answered]
    show WritesOnly view i allowed (Proc.tryCatch (Proc.bind (Proc.ofExcept
      (FileVariables.put view world.vars path new (some (world.vars.version path))).1) _) _) _
    rw [answer]
    trivial
  · have answer : (FileVariables.put view world.vars path new (some (world.vars.version path))).1 = .error error := by
      rw [answered]
    show WritesOnly view i allowed (Proc.tryCatch (Proc.bind (Proc.ofExcept
      (FileVariables.put view world.vars path new (some (world.vars.version path))).1) _) _) _
    rw [answer]
    cases error with
    | conflict package message => exact absurd rfl (other package message)
    | python error => trivial
    | forbidden package message => trivial
    | refused message => trivial

/-- A read-modify-write writes what `mutate` makes of the row. -/
theorem write {path : Key} {mutate : Dict Value → Program M (Option (Dict Value))}
    (reads_ : ∀ items, ReadsOnly (mutate items))
    (may : ∀ new middle, Ends view i (mutate (rowValues (world.vars.read path))) world.tick (some new) middle →
      allowed middle path new) : WritesOnly view i allowed (Controller.write path mutate) world := by
  apply reads_bind (ReadsOnly.get path)
  intro answer middle got
  obtain ⟨rfl, rfl⟩ := Ends.get_inv got
  apply reads_bind (reads_ _)
  intro new middle mutated
  cases new with
  | none => trivial
  | some new =>
    have waits := mutated.waited (reads_ _)
    exact (attempt_iff (by rw [waits.1]; rfl)).mpr (may new middle mutated)

theorem written {path : Key} {mutate : Dict Value → Program M (Option (Dict Value))} {result : Dict Value}
    (reads_ : ∀ items, ReadsOnly (mutate items))
    (writes : WritesOnly view i allowed (Controller.write path mutate) world)
    (ends : Ends view i (Controller.write path mutate) world result world') {new : Dict Value} {middle : World ι M}
    (mutated : Ends view i (mutate (rowValues (world.vars.read path))) world.tick (some new) middle) :
    allowed middle path new := by
  obtain ⟨answer, _, got, -⟩ := Ends.bind_inv ends
  obtain ⟨rfl, rfl⟩ := Ends.get_inv got
  have later := (bind_iff.mp ((bind_iff.mp writes).2 _ _ got)).2 _ _ mutated
  have waits := mutated.waited (reads_ _)
  exact (attempt_iff (by rw [waits.1]; rfl)).mp later

theorem put {key : Key} {items : Dict Value} {cas : Option Nat} (may : allowed world key items) :
    WritesOnly view i allowed (Program.put key items cas) world := by
  refine ⟨may, ?_⟩
  cases (handler FileVariables view i (.put key items cas) world).1 with
  | error error => trivial
  | ok index => trivial

theorem mono {allowed' : World ι M → Key → Dict Value → Prop} {p : Program M α}
    (implies : ∀ world key items, allowed world key items → allowed' world key items)
    (writes : WritesOnly view i allowed p world) : WritesOnly view i allowed' p world := by
  induction p generalizing world with
  | ret value | raise error => trivial
  | call label request next ih =>
    cases request with
    | put key items cas => exact ⟨implies _ _ _ writes.1, ih _ writes.2⟩
    | _ => exact ih _ writes

/-- A row is as it was, or as an allowed write left it. -/
theorem row_cases (key : Key) {p : Program M α} {result : α} (writes : WritesOnly view i allowed p world)
    (ends : Ends view i p world result world') :
    world'.vars.read key = world.vars.read key ∨
      ∃ middle items, allowed middle key items ∧ world'.vars.read key = some (stored items) := by
  induction p generalizing world with
  | ret value =>
    cases ends
    exact .inl rfl
  | raise error => cases ends
  | call label request next ih =>
    unfold Ends at ends
    rw [Proc.run_call] at ends
    cases request with
    | put written items cas =>
      have later := ih _ writes.2 ends
      have put_row : (handler FileVariables view i (.put written items cas) world).2.vars.read key =
          world.vars.read key ∨ key = written ∧
            (handler FileVariables view i (.put written items cas) world).2.vars.read key = some (stored items) := by
        change (FileVariables.put view world.vars written items cas).2.read key = _ ∨
          _ ∧ (FileVariables.put view world.vars written items cas).2.read key = _
        obtain ⟨error, answered⟩ | ⟨index, -, answered⟩ :=
          FileVariables.honest.put_cases view world.vars written items cas
        · have same : (FileVariables.put view world.vars written items cas).2 = world.vars := congrArg Prod.snd answered
          exact .inl (by rw [same])
        · have same : (FileVariables.put view world.vars written items cas).2 =
              world.vars.write written (stored items) :=
            congrArg Prod.snd answered
          rw [same]
          by_cases here : key = written
          · exact .inr ⟨here, by rw [here, Versioned.read_write_self]⟩
          · exact .inl (Versioned.read_write_other _ _ here)
      obtain kept | wrote := later
      · obtain same | ⟨rfl, row⟩ := put_row
        · exact .inl (kept.trans same)
        · exact .inr ⟨_, _, writes.1, kept.trans row⟩
      · exact .inr wrote
    | _ =>
      refine (ih _ ?_ ends).imp_left fun same => same.trans rfl
      exact writes

/-- A row that is never written stays as it is. -/
theorem keeps_row {key : Key} (never : ∀ world items, ¬ allowed world key items) {p : Program M α} {result : α}
    (writes : WritesOnly view i allowed p world) (ends : Ends view i p world result world') :
    world'.vars.read key = world.vars.read key :=
  (writes.row_cases key ends).resolve_right fun ⟨_, _, may, _⟩ => never _ _ may

end WritesOnly

attribute [irreducible] WritesOnly

/-! ## Looking outside

With everything outside standing still, a program that looks at nothing else has one answer. -/

/-- Every request is for the clock or a heartbeat. -/
def Outward : Program M α → Prop
  | .call _ .wall next => ∀ answer, Outward (next answer)
  | .call _ (.heartbeats _) next => ∀ answer, Outward (next answer)
  | .call _ (.heartbeat _ _) next => ∀ answer, Outward (next answer)
  | .call _ _ _ => False
  | _ => True

/-- The answer. -/
def answer (outside : Outside) : Program M α → Except Exn α
  | .ret value => .ok value
  | .raise error => .error error
  | .call _ .wall next => answer outside (next outside.wall)
  | .call _ (.heartbeats subsystem) next => answer outside (next (outside.heartbeats subsystem))
  | .call _ (.heartbeat subsystem name) next => answer outside (next (outside.heartbeat subsystem name))
  | .call _ _ _ => .error (.python .valueError)

namespace Outward

theorem value (result : Except Error α) : Outward (Program.value result : Program M α) := by
  cases result <;> trivial

theorem ofExcept (result : Except Exn α) : Outward (Proc.ofExcept result : Program M α) := by
  cases result <;> trivial

theorem bind {p : Program M α} {f : α → Program M β} (first : Outward p) (later : ∀ value, Outward (f value)) :
    Outward (p >>= f) := by
  induction p with
  | ret value => exact later value
  | raise error => trivial
  | call label request next ih =>
    cases request with
    | wall | heartbeats | heartbeat => exact fun answer => ih answer (first answer)
    | _ => exact first.elim

theorem answers {view : View} {i : ι} {p : Program M α} {outside : Outside} {world world' : World ι M} {result : α}
    (outward : Outward p) (still : world.outside = fun _ => outside) (ends : Ends view i p world result world') :
    answer outside p = .ok result := by
  induction p generalizing world with
  | ret value =>
    cases ends
    rfl
  | raise error => cases ends
  | call label request next ih =>
    have now : world.now = outside := by rw [World.now, still]
    have later : world.tick.outside = fun _ => outside := still
    unfold Ends at ends
    rw [Proc.run_call] at ends
    cases request with
    | wall =>
      change Proc.run _ (next world.now.wall) world.tick = _ at ends
      rw [now] at ends
      exact ih _ (outward _) later ends
    | heartbeats subsystem =>
      change Proc.run _ (next (world.now.heartbeats subsystem)) world.tick = _ at ends
      rw [now] at ends
      exact ih _ (outward _) later ends
    | heartbeat subsystem name =>
      change Proc.run _ (next (world.now.heartbeat subsystem name)) world.tick = _ at ends
      rw [now] at ends
      exact ih _ (outward _) later ends
    | _ => exact outward.elim

/-- An answer is given, whatever the rows are. -/
theorem ends {view : View} {i : ι} {p : Program M α} {outside : Outside} {world : World ι M} {result : α}
    (outward : Outward p) (still : world.outside = fun _ => outside) (answered : answer outside p = .ok result) :
    ∃ world', Ends view i p world result world' := by
  induction p generalizing world with
  | ret value =>
    cases answered
    exact ⟨world, rfl⟩
  | raise error => cases answered
  | call label request next ih =>
    have now : world.now = outside := by rw [World.now, still]
    have later : world.tick.outside = fun _ => outside := still
    unfold Ends
    simp only [Proc.run_call]
    cases request with
    | wall =>
      change ∃ world', Proc.run _ (next world.now.wall) world.tick = (_, world')
      rw [now]
      exact ih _ (outward _) later answered
    | heartbeats subsystem =>
      change ∃ world', Proc.run _ (next (world.now.heartbeats subsystem)) world.tick = (_, world')
      rw [now]
      exact ih _ (outward _) later answered
    | heartbeat subsystem name =>
      change ∃ world', Proc.run _ (next (world.now.heartbeat subsystem name)) world.tick = (_, world')
      rw [now]
      exact ih _ (outward _) later answered
    | _ => exact outward.elim

end Outward

end EdgeVms.Verified
