import EdgeVms.Process.Basic

/-! # What holds throughout

A program that is cut off anywhere leaves the state that it had after one of its
requests.  `Throughout` is the judgement that a property holds at each of these
moments, until the program enters a phase that is not looked at.
-/

namespace EdgeVms.Process

variable {I : Interface} {L E α β S : Type}

/-- From `state` on, `kept` holds before and after each request of `p` up to the first one whose label
is not `within`; what is returned satisfies `post`. -/
def Throughout (handler : Handler I S) (within : L → Prop) (kept : S → Prop) (post : α → S → Prop) :
    Proc I L E α → S → Prop
  | .ret value, state => kept state ∧ post value state
  | .raise _, state => kept state
  | .call label request next, state =>
    kept state ∧ (within label →
      Throughout handler within kept post (next (handler request state).1) (handler request state).2)

namespace Throughout

variable {handler : Handler I S} {within : L → Prop} {kept : S → Prop} {post : α → S → Prop}

theorem here {p : Proc I L E α} {state : S} (holds : Throughout handler within kept post p state) : kept state := by
  cases p with
  | raise error => exact holds
  | ret value | call label request next => exact holds.1

theorem ask {label : L} {request : I.Request} {f : I.Answer request → Proc I L E α} {state : S} (here : kept state)
    (next : within label →
      Throughout handler within kept post (f (handler request state).1) (handler request state).2) :
    Throughout handler within kept post (Proc.perform label request >>= f) state := ⟨here, next⟩

theorem bind {between : β → S → Prop} {p : Proc I L E β} {f : β → Proc I L E α} {state : S}
    (first : Throughout handler within kept between p state)
    (later : ∀ value state', kept state' → between value state' →
      Throughout handler within kept post (f value) state') :
    Throughout handler within kept post (p >>= f) state := by
  induction p generalizing state with
  | ret value => exact later value state first.1 first.2
  | raise error => exact first
  | call label request next ih => exact ⟨first.1, fun inside => ih _ (first.2 inside)⟩

theorem mono {kept' : S → Prop} {post' : α → S → Prop} {p : Proc I L E α} {state : S}
    (implies : ∀ state, kept state → kept' state)
    (returns : ∀ value state, kept state → post value state → post' value state)
    (holds : Throughout handler within kept post p state) : Throughout handler within kept' post' p state := by
  induction p generalizing state with
  | ret value => exact ⟨implies _ holds.1, returns _ _ holds.1 holds.2⟩
  | raise error => exact implies _ holds
  | call label request next ih => exact ⟨implies _ holds.1, fun inside => ih _ (holds.2 inside)⟩

/-- Wherever the program is cut off, if it has kept within the phases that are looked at. -/
theorem after {p : Proc I L E α} {state : S} (holds : Throughout handler within kept post p state) (n : Nat)
    (inside : ∀ m < n, ∀ label, (Proc.after handler m (p, state)).1.label? = some label → within label) :
    kept (Proc.after handler n (p, state)).2 := by
  induction n generalizing p state with
  | zero => exact holds.here
  | succ n ih =>
    have later (m : Nat) (earlier : m < n) := inside (m + 1) (Nat.succ_lt_succ earlier)
    cases p with
    | ret value | raise error => exact ih holds later
    | call label request next => exact ih (holds.2 (inside 0 (Nat.succ_pos n) label rfl)) later

end Throughout

end EdgeVms.Process
