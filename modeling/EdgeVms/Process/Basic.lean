import Mathlib.Logic.Function.Basic

/-! # Programs as trees of requests

A program is the tree of the requests it makes of its surroundings: a store, a
clock, its own memory.  Each request carries a label, which the program uses to
say in which phase it is; a label changes nothing about the execution.  A
`Handler` gives the requests their meaning on a state, so that one program can
be run over two implementations of the same interface, alone or interleaved
with others.
-/

namespace EdgeVms.Process

/-- What a program may ask for, and the type of each answer. -/
structure Interface where
  Request : Type
  Answer : Request → Type

/-- A program over the interface `I`, with labels `L`, exceptions `E` and result `α`. -/
inductive Proc (I : Interface) (L E α : Type) : Type where
  | ret (value : α)
  | raise (error : E)
  | call (label : L) (request : I.Request) (next : I.Answer request → Proc I L E α)

/-- The meaning of the requests on states `S`. -/
def Handler (I : Interface) (S : Type) : Type :=
  (request : I.Request) → S → I.Answer request × S

namespace Proc

variable {I : Interface} {L E α β γ S : Type}

def bind : Proc I L E α → (α → Proc I L E β) → Proc I L E β
  | .ret value, f => f value
  | .raise error, _ => .raise error
  | .call label request next, f => .call label request fun answer => (next answer).bind f

/-- `try p except e: handle e`. -/
def tryCatch : Proc I L E α → (E → Proc I L E α) → Proc I L E α
  | .ret value, _ => .ret value
  | .raise error, handle => handle error
  | .call label request next, handle =>
    .call label request fun answer => (next answer).tryCatch handle

instance : Monad (Proc I L E) where
  pure := .ret
  bind := .bind

instance : MonadExceptOf E (Proc I L E) where
  throw := .raise
  tryCatch := .tryCatch

/-- The program of a single request. -/
def perform (label : L) (request : I.Request) : Proc I L E (I.Answer request) :=
  .call label request .ret

/-- An already computed result, raised when it is an exception. -/
def ofExcept : Except E α → Proc I L E α
  | .ok value => .ret value
  | .error error => .raise error

/-- `p` with every request labelled `label`. -/
def within (label : L) : Proc I L E α → Proc I L E α
  | .ret value => .ret value
  | .raise error => .raise error
  | .call _ request next => .call label request fun answer => within label (next answer)

/-- `p` with every request after the first one labelled `label`. -/
def settling (label : L) : Proc I L E α → Proc I L E α
  | .call first request next => .call first request fun answer => within label (next answer)
  | finished => finished

/-- The phase of a program: the label of the request it makes next. -/
def label? : Proc I L E α → Option L
  | .call label _ _ => some label
  | _ => none

/-- The request a program makes next. -/
def request? : Proc I L E α → Option I.Request
  | .call _ request _ => some request
  | _ => none

/-- What the program has returned. -/
def value? : Proc I L E α → Option α
  | .ret value => some value
  | _ => none

/-- The program has returned or raised. -/
def Finished : Proc I L E α → Prop
  | .call _ _ _ => False
  | _ => True

instance : DecidablePred (Finished (I := I) (L := L) (E := E) (α := α))
  | .ret _ | .raise _ => .isTrue trivial
  | .call _ _ _ => .isFalse id

theorem of_value? {p : Proc I L E α} {test : α → Bool} (passes : p.value?.any test = true) :
    ∃ value, p = .ret value ∧ test value = true := by
  cases p with
  | ret value => exact ⟨value, rfl, passes⟩
  | raise error => cases passes
  | call label request next => cases passes

theorem ret_of_value? {p : Proc I L E α} {value : α} (returned : p.value? = some value) : p = .ret value := by
  cases p with
  | ret value' =>
    cases returned
    rfl
  | raise error => cases returned
  | call label request next => cases returned

@[simp] theorem pure_eq (value : α) : (pure value : Proc I L E α) = .ret value := rfl

@[simp] theorem throw_eq (error : E) : (throw error : Proc I L E α) = .raise error := rfl

@[simp] theorem bind_eq (p : Proc I L E α) (f : α → Proc I L E β) : (p >>= f) = p.bind f := rfl

@[simp] theorem tryCatch_eq (p : Proc I L E α) (handle : E → Proc I L E α) :
    tryCatchThe E p handle = p.tryCatch handle := rfl

@[simp] theorem ret_bind (value : α) (f : α → Proc I L E β) :
    (ret value : Proc I L E α).bind f = f value := rfl

@[simp] theorem raise_bind (error : E) (f : α → Proc I L E β) :
    (raise error : Proc I L E α).bind f = raise error := rfl

@[simp] theorem call_bind (label : L) (request : I.Request)
    (next : I.Answer request → Proc I L E α) (f : α → Proc I L E β) :
    (call label request next).bind f = call label request fun answer => (next answer).bind f := rfl

@[simp] theorem bind_ret (p : Proc I L E α) : p.bind ret = p := by
  induction p with
  | ret value | raise error => rfl
  | call label request next ih => exact congrArg (call label request) (funext ih)

theorem bind_assoc (p : Proc I L E α) (f : α → Proc I L E β) (g : β → Proc I L E γ) :
    (p.bind f).bind g = p.bind fun value => (f value).bind g := by
  induction p with
  | ret value | raise error => rfl
  | call label request next ih => exact congrArg (call label request) (funext ih)

instance : LawfulMonad (Proc I L E) :=
  LawfulMonad.mk' _ bind_ret (fun _ _ => rfl) bind_assoc

@[simp] theorem within_ret (label : L) (value : α) :
    within label (ret value : Proc I L E α) = ret value := rfl

@[simp] theorem within_raise (label : L) (error : E) :
    within label (raise error : Proc I L E α) = raise error := rfl

@[simp] theorem within_call (label first : L) (request : I.Request)
    (next : I.Answer request → Proc I L E α) :
    within label (call first request next) =
      call label request fun answer => within label (next answer) := rfl

@[simp] theorem within_bind (label : L) (p : Proc I L E α) (f : α → Proc I L E β) :
    within label (p.bind f) = (within label p).bind fun value => within label (f value) := by
  induction p with
  | ret value | raise error => rfl
  | call first request next ih => exact congrArg (call label request) (funext ih)

@[simp] theorem within_within (label first : L) (p : Proc I L E α) :
    within label (within first p) = within label p := by
  induction p with
  | ret value | raise error => rfl
  | call _ request next ih => exact congrArg (call label request) (funext ih)

/-! ## Running alone -/

/-- The undisturbed execution of a program. -/
def run (handler : Handler I S) : Proc I L E α → S → Except E α × S
  | .ret value, state => (.ok value, state)
  | .raise error, state => (.error error, state)
  | .call _ request next, state =>
    let (answer, state') := handler request state
    run handler (next answer) state'

@[simp] theorem run_ret (handler : Handler I S) (value : α) (state : S) :
    run handler (ret value : Proc I L E α) state = (.ok value, state) := rfl

@[simp] theorem run_raise (handler : Handler I S) (error : E) (state : S) :
    run handler (raise error : Proc I L E α) state = (.error error, state) := rfl

@[simp] theorem run_call (handler : Handler I S) (label : L) (request : I.Request)
    (next : I.Answer request → Proc I L E α) (state : S) :
    run handler (call label request next) state =
      run handler (next (handler request state).1) (handler request state).2 := rfl

theorem run_bind (handler : Handler I S) (p : Proc I L E α) (f : α → Proc I L E β) (state : S) :
    run handler (p.bind f) state =
      match run handler p state with
      | (.ok value, state') => run handler (f value) state'
      | (.error error, state') => (.error error, state') := by
  induction p generalizing state with
  | ret value | raise error => rfl
  | call label request next ih => exact ih _ _

theorem run_within (handler : Handler I S) (label : L) (p : Proc I L E α) (state : S) :
    run handler (within label p) state = run handler p state := by
  induction p generalizing state with
  | ret value | raise error => rfl
  | call first request next ih => exact ih _ _

theorem run_settling (handler : Handler I S) (label : L) (p : Proc I L E α) (state : S) :
    run handler (settling label p) state = run handler p state := by
  cases p with
  | ret value | raise error => rfl
  | call first request next => exact run_within handler label _ _

/-- One request of a program, answered. -/
def advance (handler : Handler I S) : Proc I L E α × S → Proc I L E α × S
  | (.call _ request next, state) => (next (handler request state).1, (handler request state).2)
  | finished => finished

theorem advance_finished (handler : Handler I S) {p : Proc I L E α} (finished : p.Finished) (state : S) :
    advance handler (p, state) = (p, state) := by
  cases p with
  | ret value | raise error => rfl
  | call label request next => exact finished.elim

/-- The program and the state after the first `n` requests: where it stands when it crashes there. -/
def after (handler : Handler I S) : Nat → Proc I L E α × S → Proc I L E α × S
  | 0, here => here
  | n + 1, here => after handler n (advance handler here)

end Proc

end EdgeVms.Process
