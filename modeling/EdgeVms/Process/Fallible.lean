/-! # Operations that may stop half-way

An operation on a state returns or fails, and in both cases the state stays as
it then is.  `Leaves` says what holds at each of the two exits.
-/

namespace EdgeVms.Process

/-- An operation on `S` that returns an `α` or fails with an `E`. -/
abbrev Operation (E S α : Type) := ExceptT E (StateM S) α

variable {E E' S α β : Type}

namespace Operation

/-- How the operation ends, and where it leaves the state. -/
def result (op : Operation E S α) (state : S) : Except E α × S := op.run.run state

/-- The state in which the operation leaves off. -/
def after (op : Operation E S α) (state : S) : S := (op.result state).2

def of (f : S → Except E α × S) : Operation E S α := ExceptT.mk fun state => f state

/-- A failure that says more. -/
def withError (f : E → E') (op : Operation E S α) : Operation E' S α :=
  .of fun state =>
    match op.result state with
    | (.ok value, state) => (.ok value, state)
    | (.error error, state) => (.error (f error), state)

theorem result_bind (op : Operation E S α) (next : α → Operation E S β) (state : S) :
    (op >>= next).result state =
      match op.result state with
      | (.ok value, state) => (next value).result state
      | (.error error, state) => (.error error, state) := by
  have unfolded : (op >>= next).result state =
      (ExceptT.bindCont next (op.result state).1 : StateM S _) (op.result state).2 := rfl
  rw [unfolded]
  obtain ⟨result, state'⟩ := op.result state
  cases result <;> rfl

end Operation

/-- From this state, a return satisfies `returned` and a failure `failed`. -/
def Leaves (op : Operation E S α) (returned : α → S → Prop) (failed : S → Prop) (state : S) : Prop :=
  match op.result state with
  | (.ok value, state) => returned value state
  | (.error _, state) => failed state

namespace Leaves

variable {returned returned' : α → S → Prop} {failed failed' : S → Prop} {state : S}

theorem of (f : S → Except E α × S) : Leaves (.of f) returned failed state ↔
    match f state with
    | (.ok value, state) => returned value state
    | (.error _, state) => failed state := Iff.rfl

theorem get {returned : S → S → Prop} :
    Leaves (MonadState.get : Operation E S S) returned failed state ↔ returned state state := Iff.rfl

theorem modify {returned : PUnit → S → Prop} (f : S → S) :
    Leaves (modify f : Operation E S PUnit) returned failed state ↔ returned ⟨⟩ (f state) := Iff.rfl

@[simp] theorem pure (value : α) :
    Leaves (Pure.pure value : Operation E S α) returned failed = returned value := rfl

/-- What comes second starts where the first left off. -/
@[simp] theorem bind (op : Operation E S α) (next : α → Operation E S β) {returned : β → S → Prop} :
    Leaves (op >>= next) returned failed =
      Leaves op (fun value => Leaves (next value) returned failed) failed := by
  funext state
  unfold Leaves
  rw [Operation.result_bind]
  obtain ⟨result, state'⟩ := op.result state
  cases result <;> rfl

@[simp] theorem withError (f : E → E') (op : Operation E S α) :
    Leaves (op.withError f) returned failed = Leaves op returned failed := by
  funext state
  show (match (match op.result state with
    | (.ok value, state) => (Except.ok value, state)
    | (.error error, state) => (.error (f error), state)) with
    | (.ok value, state) => returned value state
    | (.error _, state) => failed state) = _
  unfold Leaves
  obtain ⟨result, state'⟩ := op.result state
  cases result <;> rfl

theorem mono {op : Operation E S α} (leaves : Leaves op returned failed state)
    (more : ∀ value state, returned value state → returned' value state)
    (moreFailed : ∀ state, failed state → failed' state) : Leaves op returned' failed' state := by
  unfold Leaves at *
  generalize op.result state = outcome at *
  obtain ⟨result | result, state'⟩ := outcome
  · exact moreFailed _ leaves
  · exact more _ _ leaves

/-- What holds at both exits holds after the operation. -/
theorem after {op : Operation E S α} {kept : S → Prop} (leaves : Leaves op (fun _ => kept) kept state) :
    kept (op.after state) := by
  unfold Leaves at leaves
  unfold Operation.after
  generalize op.result state = outcome at *
  obtain ⟨result | result, state'⟩ := outcome <;> exact leaves

end Leaves

end EdgeVms.Process
