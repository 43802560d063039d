import EdgeVms.Process.Basic
import EdgeVms.Process.Run

/-! # Programs side by side

A pool is a family of programs over one shared state.  A step answers one
request of one program; a schedule is the order in which the programs are
served, so quantifying over schedules is quantifying over interleavings.

`Safe` is the judgement of rely and guarantee: whatever the surroundings do
between two requests of a program, as long as they keep to the rely of the
phase the program is in, every request keeps to the guarantee.  `Pool.safe_exec`
puts the programs together.
-/

namespace EdgeVms.Process

variable {I : Interface} {L E α β S ι : Type}

structure Pool (I : Interface) (L E α S ι : Type) where
  procs : ι → Proc I L E α
  state : S

namespace Pool

variable [DecidableEq ι]

/-- Program `i` gets the answer to its next request; a finished program does nothing. -/
def step (handler : ι → Handler I S) (pool : Pool I L E α S ι) (i : ι) : Pool I L E α S ι :=
  match pool.procs i with
  | .call _ request next =>
    let (answer, state) := handler i request pool.state
    ⟨Function.update pool.procs i (next answer), state⟩
  | _ => pool

def exec (handler : ι → Handler I S) (schedule : List ι) (pool : Pool I L E α S ι) :
    Pool I L E α S ι :=
  schedule.foldl (step handler) pool

/-- Every program of the pool has returned or raised. -/
structure Finished (pool : Pool I L E α S ι) : Prop where
  all : ∀ i, (pool.procs i).Finished

@[simp] theorem exec_nil (handler : ι → Handler I S) (pool : Pool I L E α S ι) :
    exec handler [] pool = pool := rfl

@[simp] theorem exec_cons (handler : ι → Handler I S) (i : ι) (rest : List ι)
    (pool : Pool I L E α S ι) :
    exec handler (i :: rest) pool = exec handler rest (step handler pool i) := rfl

theorem step_call {handler : ι → Handler I S} {pool : Pool I L E α S ι} {i : ι} {label : L}
    {request : I.Request} {next : I.Answer request → Proc I L E α}
    (here : pool.procs i = .call label request next) :
    step handler pool i =
      ⟨Function.update pool.procs i (next (handler i request pool.state).1),
        (handler i request pool.state).2⟩ := by
  simp only [step, here]

theorem step_finished {handler : ι → Handler I S} {pool : Pool I L E α S ι} {i : ι}
    (here : (pool.procs i).Finished) : step handler pool i = pool := by
  cases at_i : pool.procs i with
  | ret value | raise error => simp only [step, at_i]
  | call label request next => rw [at_i] at here; exact here.elim

/-- A step is one answered request of the program it serves. -/
theorem step_eq_advance (handler : ι → Handler I S) (pool : Pool I L E α S ι) (i : ι) :
    step handler pool i =
      ⟨Function.update pool.procs i (Proc.advance (handler i) (pool.procs i, pool.state)).1,
        (Proc.advance (handler i) (pool.procs i, pool.state)).2⟩ := by
  cases here : pool.procs i with
  | call label request next => exact step_call here
  | ret value | raise error =>
    rw [step_finished (by rw [here]; trivial)]
    simp only [Proc.advance, ← here, Function.update_eq_self]

theorem step_procs_other {handler : ι → Handler I S} {pool : Pool I L E α S ι} {i j : ι}
    (other : j ≠ i) : (step handler pool i).procs j = pool.procs j := by
  unfold step
  split
  · exact Function.update_of_ne other _ _
  · rfl

end Pool

/-! ## Rely and guarantee -/

/-- `Safe handler rely guarantee post p state`: from `state` on, every request of `p` keeps to
`guarantee` and its result satisfies `post`, if between the requests the state moves only as the
rely of the phase of `p` allows. -/
def Safe (handler : Handler I S) (rely : L → S → S → Prop) (guarantee : S → S → Prop)
    (post : Except E α → S → Prop) : Proc I L E α → S → Prop
  | .ret value, state => post (.ok value) state
  | .raise error, state => post (.error error) state
  | .call label request next, state => ∀ state', rely label state state' →
      guarantee state' (handler request state').2 ∧
        Safe handler rely guarantee post (next (handler request state').1) (handler request state').2

namespace Safe

variable {handler : Handler I S} {rely : L → S → S → Prop} {guarantee : S → S → Prop}
  {post : Except E α → S → Prop}

theorem ret {value : α} {state : S} (holds : post (.ok value) state) :
    Safe handler rely guarantee post (Proc.ret value : Proc I L E α) state := holds

theorem raise {error : E} {state : S} (holds : post (.error error) state) :
    Safe handler rely guarantee post (Proc.raise error : Proc I L E α) state := holds

theorem mono {post' : Except E α → S → Prop} (implies : ∀ result state, post result state → post' result state)
    {p : Proc I L E α} {state : S} (safe : Safe handler rely guarantee post p state) :
    Safe handler rely guarantee post' p state := by
  induction p generalizing state with
  | ret value => exact implies _ _ safe
  | raise error => exact implies _ _ safe
  | call label request next ih =>
    intro state' moved
    obtain ⟨kept, rest⟩ := safe state' moved
    exact ⟨kept, ih _ rest⟩

theorem bind {β : Type} {post' : Except E β → S → Prop} {f : α → Proc I L E β} {p : Proc I L E α}
    {state : S}
    (safe : Safe handler rely guarantee
      (fun result state => match result with
        | .ok value => Safe handler rely guarantee post' (f value) state
        | .error error => post' (.error error) state) p state) :
    Safe handler rely guarantee post' (p.bind f) state := by
  induction p generalizing state with
  | ret value => exact safe
  | raise error => exact safe
  | call label request next ih =>
    intro state' moved
    obtain ⟨kept, rest⟩ := safe state' moved
    exact ⟨kept, ih _ rest⟩

theorem tryCatch {handle : E → Proc I L E α} {p : Proc I L E α} {state : S}
    (safe : Safe handler rely guarantee
      (fun result state => match result with
        | .ok value => post (.ok value) state
        | .error error => Safe handler rely guarantee post (handle error) state) p state) :
    Safe handler rely guarantee post (p.tryCatch handle) state := by
  induction p generalizing state with
  | ret value => exact safe
  | raise error => exact safe
  | call label request next ih =>
    intro state' moved
    obtain ⟨kept, rest⟩ := safe state' moved
    exact ⟨kept, ih _ rest⟩

/-- The surroundings may move while the program waits, if they keep what it returned. -/
theorem moved_post (transitive : ∀ label s s' s'', rely label s s' → rely label s' s'' → rely label s s'')
    {p : Proc I L E α} {state state' : S} (safe : Safe handler rely guarantee post p state)
    (stable : ∀ result, post result state → post result state')
    (allowed : ∀ label, p.label? = some label → rely label state state') :
    Safe handler rely guarantee post p state' := by
  cases p with
  | ret value => exact stable _ safe
  | raise error => exact stable _ safe
  | call label request next =>
    intro state'' later
    exact safe state'' (transitive _ _ _ _ (allowed label rfl) later)

/-- The surroundings may move while the program waits. -/
theorem moved (transitive : ∀ label s s' s'', rely label s s' → rely label s' s'' → rely label s s'')
    {p : Proc I L E α} {state state' : S}
    (safe : Safe handler rely guarantee (fun _ _ => True) p state)
    (allowed : ∀ label, p.label? = some label → rely label state state') :
    Safe handler rely guarantee (fun _ _ => True) p state' :=
  moved_post transitive safe (fun _ _ => trivial) allowed

/-- Where everybody moves within one relation, what was reached stays reached. -/
theorem since {relation : S → S → Prop} (transitive : ∀ s s' s'', relation s s' → relation s' s'' → relation s s'')
    {p : Proc I L E α} {base state : S} (reached : relation base state)
    (safe : Safe handler (fun _ => relation) relation post p state) :
    Safe handler (fun _ => relation) relation (fun result s => post result s ∧ relation base s) p state := by
  induction p generalizing state with
  | ret value => exact ⟨safe, reached⟩
  | raise error => exact ⟨safe, reached⟩
  | call label request next ih =>
    intro state' moved
    obtain ⟨kept, rest⟩ := safe state' moved
    exact ⟨kept, ih _ (transitive _ _ _ (transitive _ _ _ reached moved) kept) rest⟩

/-- Safe whatever the surroundings do is safe when they do less. -/
theorem relies {less : L → S → S → Prop} (implies : ∀ label s s', less label s s' → rely label s s')
    {p : Proc I L E α} {state : S} (safe : Safe handler rely guarantee post p state) :
    Safe handler less guarantee post p state := by
  induction p generalizing state with
  | ret value => exact safe
  | raise error => exact safe
  | call label request next ih =>
    intro state' moved
    obtain ⟨kept, rest⟩ := safe state' (implies label state state' moved)
    exact ⟨kept, ih _ rest⟩

/-- A program that keeps to a guarantee keeps to a weaker one. -/
theorem guarantees {weak : S → S → Prop} (implies : ∀ s s', guarantee s s' → weak s s')
    {p : Proc I L E α} {state : S} (safe : Safe handler rely guarantee post p state) :
    Safe handler rely weak post p state := by
  induction p generalizing state with
  | ret value => exact safe
  | raise error => exact safe
  | call label request next ih =>
    intro state' moved
    obtain ⟨kept, rest⟩ := safe state' moved
    exact ⟨implies _ _ kept, ih _ rest⟩

/-- A program within one phase needs the rely of that phase only. -/
theorem within {phase : L} {p : Proc I L E α} {state : S}
    (safe : Safe handler (fun _ => rely phase) guarantee post p state) :
    Safe handler rely guarantee post (p.within phase) state := by
  induction p generalizing state with
  | ret value => exact safe
  | raise error => exact safe
  | call label request next ih =>
    intro state' moved
    obtain ⟨kept, rest⟩ := safe state' moved
    exact ⟨kept, ih _ rest⟩

/-- Left alone, the program keeps to its guarantee at every step it takes. -/
theorem after_keeps (invariant : S → Prop) (still : ∀ label s, invariant s → rely label s s)
    (keeps : ∀ s s', guarantee s s' → invariant s → invariant s') (n : Nat)
    {p : Proc I L E α} {state : S} (safe : Safe handler rely guarantee post p state)
    (holds : invariant state) : invariant (Proc.after handler n (p, state)).2 := by
  induction n generalizing p state with
  | zero => exact holds
  | succ n ih =>
    cases p with
    | ret value | raise error => exact ih safe holds
    | call label request next =>
      obtain ⟨kept, rest⟩ := safe state (still label state holds)
      exact ih rest (keeps _ _ kept holds)

/-- Left alone, the program ends in its postcondition. -/
theorem run (invariant : S → Prop) (still : ∀ label s, invariant s → rely label s s)
    (keeps : ∀ s s', guarantee s s' → invariant s → invariant s')
    {p : Proc I L E α} {state : S} (safe : Safe handler rely guarantee post p state)
    (holds : invariant state) : post (p.run handler state).1 (p.run handler state).2 := by
  induction p generalizing state with
  | ret value => exact safe
  | raise error => exact safe
  | call label request next ih =>
    obtain ⟨kept, rest⟩ := safe state (still label state holds)
    exact ih _ rest (keeps _ _ kept holds)

end Safe

namespace Pool

variable [DecidableEq ι]

/-- If a step of one program never breaks the rely of another or what it returned, programs that are
safe on their own are safe together, and an invariant kept by all the guarantees holds after every
schedule. -/
theorem safe_exec_post {handler : ι → Handler I S} (rely : ι → L → S → S → Prop)
    (guarantee : ι → S → S → Prop) (post : ι → Except E α → S → Prop) (invariant : S → Prop)
    {condition : Pool I L E α S ι → ι → Prop}
    (still : ∀ i label s, invariant s → rely i label s s)
    (transitive : ∀ i label s s' s'', rely i label s s' → rely i label s' s'' → rely i label s s'')
    (keeps : ∀ (pool : Pool I L E α S ι) i, condition pool i →
      guarantee i pool.state (step handler pool i).state → invariant pool.state →
      invariant (step handler pool i).state)
    (compatible : ∀ (pool : Pool I L E α S ι) i j, j ≠ i → invariant pool.state → condition pool i →
      invariant (step handler pool i).state → guarantee i pool.state (step handler pool i).state →
      ∀ label, (pool.procs j).label? = some label →
        rely j label pool.state (step handler pool i).state)
    (stable : ∀ (pool : Pool I L E α S ι) i j, j ≠ i → condition pool i →
      guarantee i pool.state (step handler pool i).state →
      ∀ result, post j result pool.state → post j result (step handler pool i).state)
    {schedule : List ι} {pool : Pool I L E α S ι}
    (along : Along (step handler) condition schedule pool)
    (safe : ∀ i, Safe (handler i) (rely i) (guarantee i) (post i) (pool.procs i) pool.state)
    (holds : invariant pool.state) :
    invariant (exec handler schedule pool).state ∧
      ∀ i, Safe (handler i) (rely i) (guarantee i) (post i)
        ((exec handler schedule pool).procs i) (exec handler schedule pool).state := by
  induction schedule generalizing pool with
  | nil => exact ⟨holds, safe⟩
  | cons i rest ih =>
    obtain ⟨allowed, along⟩ := along_cons.mp along
    rw [exec_cons]
    cases here : pool.procs i with
    | ret value | raise error =>
      rw [step_finished (by rw [here]; trivial)] at along ⊢
      exact ih along safe holds
    | call label request next =>
      have stepped : step handler pool i = _ := step_call here
      have own := safe i
      rw [here] at own
      obtain ⟨kept, continues⟩ := own pool.state (still i label pool.state holds)
      have kept' : guarantee i pool.state (step handler pool i).state := by rw [stepped]; exact kept
      have holds' := keeps pool i allowed kept' holds
      refine ih along (fun j => ?_) holds'
      by_cases same : j = i
      · subst same
        rw [stepped]
        simpa only [Function.update_self] using continues
      · rw [step_procs_other same]
        exact (safe j).moved_post (transitive j) (stable pool i j same allowed kept')
          (compatible pool i j same holds allowed holds' kept')

/-- `safe_exec_post` for programs whose results are of no interest. -/
theorem safe_exec {handler : ι → Handler I S} (rely : ι → L → S → S → Prop)
    (guarantee : ι → S → S → Prop) (invariant : S → Prop)
    {condition : Pool I L E α S ι → ι → Prop}
    (still : ∀ i label s, invariant s → rely i label s s)
    (transitive : ∀ i label s s' s'', rely i label s s' → rely i label s' s'' → rely i label s s'')
    (keeps : ∀ (pool : Pool I L E α S ι) i, condition pool i →
      guarantee i pool.state (step handler pool i).state → invariant pool.state →
      invariant (step handler pool i).state)
    (compatible : ∀ (pool : Pool I L E α S ι) i j, j ≠ i → invariant pool.state → condition pool i →
      invariant (step handler pool i).state →
      ∀ label, (pool.procs j).label? = some label →
        rely j label pool.state (step handler pool i).state)
    {schedule : List ι} {pool : Pool I L E α S ι}
    (along : Along (step handler) condition schedule pool)
    (safe : ∀ i, Safe (handler i) (rely i) (guarantee i) (fun _ _ => True) (pool.procs i) pool.state)
    (holds : invariant pool.state) :
    invariant (exec handler schedule pool).state ∧
      ∀ i, Safe (handler i) (rely i) (guarantee i) (fun _ _ => True)
        ((exec handler schedule pool).procs i) (exec handler schedule pool).state :=
  safe_exec_post rely guarantee (fun _ _ _ => True) invariant still transitive keeps
    (fun pool i j other before allowed after _ => compatible pool i j other before allowed after)
    (fun _ _ _ _ _ _ _ _ => trivial) along safe holds

end Pool

end EdgeVms.Process
