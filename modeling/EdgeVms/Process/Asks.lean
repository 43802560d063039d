import EdgeVms.Process.Basic

/-! # What a program asks for

`p.Asks allowed` says that each request of `p` is an allowed one, whatever the answers are.
-/

namespace EdgeVms.Process

variable {I : Interface} {L E α β : Type} {allowed : I.Request → Prop}

def Proc.Asks (allowed : I.Request → Prop) : Proc I L E α → Prop
  | .ret _ | .raise _ => True
  | .call _ request next => allowed request ∧ ∀ answer, Asks allowed (next answer)

namespace Proc.Asks

theorem ret (value : α) : (Proc.ret value : Proc I L E α).Asks allowed := trivial

theorem raise (error : E) : (Proc.raise error : Proc I L E α).Asks allowed := trivial

theorem ofExcept (result : Except E α) : (Proc.ofExcept result : Proc I L E α).Asks allowed := by
  cases result with
  | ok value => exact ret value
  | error error => exact raise error

theorem perform (label : L) {request : I.Request} (asked : allowed request) :
    (Proc.perform label request : Proc I L E _).Asks allowed := ⟨asked, ret⟩

theorem bind {p : Proc I L E α} {f : α → Proc I L E β} (first : p.Asks allowed)
    (later : ∀ value, (f value).Asks allowed) : (p >>= f).Asks allowed := by
  induction p with
  | ret value => exact later value
  | raise error => exact raise error
  | call label request next ih => exact ⟨first.1, fun answer => ih answer (first.2 answer)⟩

end Proc.Asks

end EdgeVms.Process
