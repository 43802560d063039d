import EdgeVms.Python.Value

/-! # A family of exceptions

A function raises exceptions of a family of its own, which its callers catch, and the
built-in ones of what it calls.  `Within` is what holds if nothing but the family is
raised and the result is as wished: the weakest precondition, and its rules.
-/

namespace EdgeVms.Python

/-- An exception of the family, or a built-in one. -/
inductive Raised (ε : Type) where
  | own (e : ε)
  | other (e : Error)

namespace Raised

variable {ε α β : Type}

/-- A built-in exception is let through. -/
def lift (result : Except Error α) : Except (Raised ε) α := result.mapError .other

theorem lift_eq_ok {result : Except Error α} {a : α} :
    (lift result : Except (Raised ε) α) = .ok a ↔ result = .ok a := mapError_eq_ok

/-- Nothing outside of the family is raised, and a result satisfies `post`. -/
structure Within (result : Except (Raised ε) α) (post : α → Prop) : Prop where
  caught : ∀ e, result ≠ .error (.other e)
  post : ∀ a, result = .ok a → post a

variable {post : α → Prop} {post' : β → Prop}

@[simp] theorem within_ok {a : α} : Within (.ok a : Except (Raised ε) α) post ↔ post a := by
  constructor
  · intro within
    exact within.post a rfl
  · intro holds
    refine ⟨fun e same => (by cases same), ?_⟩
    intro b same
    cases same
    exact holds

@[simp] theorem within_own {e : ε} : Within (.error (.own e) : Except (Raised ε) α) post := by
  constructor
  · intro e' same
    cases same
  · intro a same
    cases same

@[simp] theorem not_within_other {e : Error} : ¬Within (.error (.other e) : Except (Raised ε) α) post :=
  fun within => within.caught e rfl

theorem within_bind {result : Except (Raised ε) α} {f : α → Except (Raised ε) β} :
    Within (result >>= f) post' ↔ Within result fun a => Within (f a) post' := by
  cases result with
  | ok a =>
    have runs : (Except.ok a >>= f) = f a := rfl
    rw [runs, within_ok]
  | error e =>
    cases e with
    | own e => exact iff_of_true within_own within_own
    | other e => exact iff_of_false not_within_other not_within_other

theorem within_lift {result : Except Error α} :
    Within (lift result : Except (Raised ε) α) post ↔ ∃ a, result = .ok a ∧ post a := by
  cases result with
  | ok a =>
    have passed : (lift (.ok a) : Except (Raised ε) α) = .ok a := rfl
    simp [passed]
  | error e =>
    have through : (lift (.error e) : Except (Raised ε) α) = .error (.other e) := rfl
    simp [through]

/-- Where the family is raised nothing more is asked. -/
theorem within_guard {raises : Bool} {e : ε} {result : Except (Raised ε) α} :
    Within (if raises then .error (.own e) else result) post ↔ (raises = false → Within result post) := by
  cases raises with
  | false => simp
  | true => simp

theorem within_require {holds : Bool} {e : ε} {result : Except (Raised ε) α} :
    Within (if holds then result else .error (.own e)) post ↔ (holds = true → Within result post) := by
  cases holds with
  | false => simp
  | true => simp

/-- Either there is such a result, or the family is raised. -/
theorem within_iff {result : Except (Raised ε) α} :
    Within result post ↔ (∃ a, result = .ok a ∧ post a) ∨ ∃ e, result = .error (.own e) := by
  cases result with
  | ok a => simp
  | error e =>
    cases e with
    | own e => simp
    | other e => simp

end Raised

end EdgeVms.Python
