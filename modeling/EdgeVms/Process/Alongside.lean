import EdgeVms.Process.Basic

/-! # Two runs, side by side

One program from two states.  `Alongside` is the judgement that the second run returns
whatever the first one does, if the first one returns at all, with the two states related.
-/

namespace EdgeVms.Process

variable {I : Interface} {L E α β S T : Type}

def Alongside (left : Handler I S) (right : Handler I T) (related : S → T → Prop) (p : Proc I L E α) (s : S) (t : T) :
    Prop :=
  ∀ value s', p.run left s = (.ok value, s') → ∃ t', p.run right t = (.ok value, t') ∧ related s' t'

namespace Alongside

variable {left : Handler I S} {right : Handler I T} {related : S → T → Prop} {s : S} {t : T}

theorem ret {value : α} (holds : related s t) : Alongside left right related (Proc.ret value : Proc I L E α) s t := by
  intro value' s' ran
  cases ran
  exact ⟨t, rfl, holds⟩

theorem raise {error : E} : Alongside left right related (Proc.raise error : Proc I L E α) s t := by
  intro value s' ran
  cases ran

theorem bind {p : Proc I L E α} {f : α → Proc I L E β} (first : Alongside left right related p s t)
    (later : ∀ value s' t', related s' t' → Alongside left right related (f value) s' t') :
    Alongside left right related (p.bind f) s t := by
  intro value s' ran
  rw [Proc.run_bind] at ran
  split at ran
  next value₁ s₁ ran₁ =>
    obtain ⟨t₁, followed, holds⟩ := first value₁ s₁ ran₁
    obtain ⟨t', followed', holds'⟩ := later value₁ s₁ t₁ holds value s' ran
    refine ⟨t', ?_, holds'⟩
    rw [Proc.run_bind, followed]
    exact followed'
  next => cases ran

/-- A request that both are answered alike. -/
theorem call {label : L} {request : I.Request} {next : I.Answer request → Proc I L E α}
    (same : (right request t).1 = (left request s).1)
    (later : Alongside left right related (next (left request s).1) (left request s).2 (right request t).2) :
    Alongside left right related (Proc.call label request next) s t := by
  intro value s' ran
  rw [Proc.run_call] at ran ⊢
  rw [same]
  exact later value s' ran

end Alongside

end EdgeVms.Process
