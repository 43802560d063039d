import EdgeVms.Process.Pool

/-! # Exceptions that escape

A program lets certain exceptions of its surroundings through if it handles none of them and
raises none of its own.  Such a program ends with one exactly if a request of it was answered
with one, whatever else runs.
-/

namespace EdgeVms.Process

variable {I : Interface} {L E α β S ι : Type}

namespace Proc

/-- `carries` is the exception that an answer brings, `mine` are those in question. -/
def LetsThrough (carries : (request : I.Request) → I.Answer request → Option E) (mine : E → Prop) : Proc I L E α → Prop
  | .ret _ => True
  | .raise error => ¬mine error
  | .call _ request next => ∀ answer,
      (∀ error, carries request answer = some error → mine error → next answer = .raise error) ∧
        ((∀ error, carries request answer = some error → ¬mine error) → LetsThrough carries mine (next answer))

variable {carries : (request : I.Request) → I.Answer request → Option E} {mine : E → Prop}

namespace LetsThrough

theorem ret (value : α) : (Proc.ret value : Proc I L E α).LetsThrough carries mine := trivial

theorem raise {error : E} (other : ¬mine error) : (Proc.raise error : Proc I L E α).LetsThrough carries mine := other

theorem bind {p : Proc I L E α} {f : α → Proc I L E β} (lets : p.LetsThrough carries mine)
    (later : ∀ value, (f value).LetsThrough carries mine) : (p.bind f).LetsThrough carries mine := by
  induction p with
  | ret value => exact later value
  | raise error => exact lets
  | call label request next ih =>
    intro answer
    obtain ⟨through, goesOn⟩ := lets answer
    refine ⟨fun error carried own => ?_, fun others => ih answer (goesOn others)⟩
    show (next answer).bind f = .raise error
    rw [through error carried own, raise_bind]

theorem tryCatch {p : Proc I L E α} {handle : E → Proc I L E α} (lets : p.LetsThrough carries mine)
    (through : ∀ error, mine error → handle error = .raise error)
    (handles : ∀ error, ¬mine error → (handle error).LetsThrough carries mine) :
    (p.tryCatch handle).LetsThrough carries mine := by
  induction p with
  | ret value => trivial
  | raise error => exact handles error lets
  | call label request next ih =>
    intro answer
    obtain ⟨escapes, goesOn⟩ := lets answer
    refine ⟨fun error carried own => ?_, fun others => ih answer (goesOn others)⟩
    show (next answer).tryCatch handle = .raise error
    rw [escapes error carried own]
    exact through error own

theorem within {phase : L} {p : Proc I L E α} (lets : p.LetsThrough carries mine) :
    (p.within phase).LetsThrough carries mine := by
  induction p with
  | ret value => trivial
  | raise error => exact lets
  | call label request next ih =>
    intro answer
    obtain ⟨escapes, goesOn⟩ := lets answer
    refine ⟨fun error carried own => ?_, fun others => ih answer (goesOn others)⟩
    show (next answer).within phase = .raise error
    rw [escapes error carried own, within_raise]

/-- A request that brings no exceptions. -/
theorem perform (label : L) {request : I.Request} (harmless : ∀ answer, carries request answer = none) :
    (Proc.perform label request : Proc I L E (I.Answer request)).LetsThrough carries mine := by
  intro answer
  refine ⟨fun error carried => ?_, fun _ => trivial⟩
  rw [harmless answer] at carried
  cases carried

/-- A request whose answer is a result or an exception. -/
theorem request (label : L) {request : I.Request} {result : I.Answer request → Except E α}
    (brings : ∀ answer error, carries request answer = some error ↔ result answer = .error error) :
    ((Proc.perform label request : Proc I L E (I.Answer request)).bind fun answer => Proc.ofExcept (result answer)).LetsThrough
      carries mine := by
  intro answer
  refine ⟨fun error carried _ => ?_, fun others => ?_⟩
  · show Proc.ofExcept (result answer) = .raise error
    rw [(brings answer error).mp carried]
    rfl
  · show (Proc.ofExcept (result answer)).LetsThrough carries mine
    cases outcome : result answer with
    | ok value => trivial
    | error error => exact others error ((brings answer error).mpr outcome)

end LetsThrough

end Proc

namespace Pool

variable {carries : (request : I.Request) → I.Answer request → Option E} {mine : E → Prop}

/-- The next request of the program is answered with the exception. -/
def Struck (carries : (request : I.Request) → I.Answer request → Option E) (handler : ι → Handler I S)
    (pool : Pool I L E α S ι) (i : ι) (error : E) : Prop :=
  ∃ label request next, pool.procs i = .call label request next ∧
    carries request (handler i request pool.state).1 = some error

theorem not_struck {handler : ι → Handler I S} {pool : Pool I L E α S ι} {i : ι} (finished : (pool.procs i).Finished)
    (error : E) : ¬Struck carries handler pool i error := by
  rintro ⟨label, request, next, here, -⟩
  rw [here] at finished
  exact finished

variable [DecidableEq ι]

theorem exec_finished {handler : ι → Handler I S} {i : ι} (schedule : List ι) {pool : Pool I L E α S ι}
    (finished : (pool.procs i).Finished) : (exec handler schedule pool).procs i = pool.procs i := by
  induction schedule generalizing pool with
  | nil => rfl
  | cons j rest ih =>
    have same : (step handler pool j).procs i = pool.procs i := by
      by_cases here : i = j
      · subst here
        rw [step_finished finished]
      · exact step_procs_other here
    rw [exec_cons, ih (by rw [same]; exact finished), same]

/-- A program that lets the exception through ends with it exactly if it was struck by it. -/
theorem raises_iff {handler : ι → Handler I S} {i : ι} {error : E} (own : mine error) (schedule : List ι)
    {pool : Pool I L E α S ι} (lets : (pool.procs i).LetsThrough carries mine) :
    (exec handler schedule pool).procs i = .raise error ↔
      ∃ first, first ++ [i] <+: schedule ∧ Struck carries handler (exec handler first pool) i error := by
  have never {rest : List ι} {pool : Pool I L E α S ι} (finished : (pool.procs i).Finished) :
      ¬∃ first, first ++ [i] <+: rest ∧ Struck carries handler (exec handler first pool) i error := by
    rintro ⟨first, -, struck⟩
    exact not_struck (by rw [exec_finished first finished]; exact finished) error struck
  induction schedule generalizing pool with
  | nil =>
    refine ⟨fun raised => ?_, fun ⟨first, isPrefix, _⟩ => ?_⟩
    · have raised : pool.procs i = .raise error := raised
      rw [raised] at lets
      exact absurd own lets
    · have nothing := List.prefix_nil.mp isPrefix
      simp at nothing
  | cons j rest ih =>
    have split : (∃ first, first ++ [i] <+: j :: rest ∧ Struck carries handler (exec handler first pool) i error) ↔
        (i = j ∧ Struck carries handler pool i error) ∨
          ∃ first, first ++ [i] <+: rest ∧ Struck carries handler (exec handler first (step handler pool j)) i error := by
      constructor
      · rintro ⟨first, isPrefix, struck⟩
        cases first with
        | nil => exact .inl ⟨(List.cons_prefix_cons.mp isPrefix).1, struck⟩
        | cons head first =>
          obtain ⟨rfl, inRest⟩ := List.cons_prefix_cons.mp isPrefix
          exact .inr ⟨first, inRest, struck⟩
      · rintro (⟨rfl, struck⟩ | ⟨first, isPrefix, struck⟩)
        · exact ⟨[], List.cons_prefix_cons.mpr ⟨rfl, List.nil_prefix⟩, struck⟩
        · exact ⟨j :: first, List.cons_prefix_cons.mpr ⟨rfl, isPrefix⟩, struck⟩
    rw [split, exec_cons]
    by_cases here : i = j
    · subst here
      cases asked : pool.procs i with
      | ret value | raise raised =>
        have finished : (pool.procs i).Finished := by rw [asked]; trivial
        rw [step_finished finished]
        refine (ih lets).trans ⟨.inr, fun both => both.elim (fun struck => absurd struck.2 (not_struck finished error)) id⟩
      | call label request next =>
        have stepped : step handler pool i = _ := step_call asked
        rw [asked] at lets
        obtain ⟨through, goesOn⟩ := lets (handler i request pool.state).1
        have struck : Struck carries handler pool i error ↔
            carries request (handler i request pool.state).1 = some error := by
          refine ⟨?_, fun carried => ⟨label, request, next, asked, carried⟩⟩
          rintro ⟨label', request', next', same, carried⟩
          rw [asked] at same
          cases same
          exact carried
        have after : (step handler pool i).procs i = next (handler i request pool.state).1 := by
          rw [stepped]
          exact Function.update_self ..
        by_cases escapes : ∃ error', carries request (handler i request pool.state).1 = some error' ∧ mine error'
        · obtain ⟨error', carried, own'⟩ := escapes
          have raised : (step handler pool i).procs i = .raise error' := after.trans (through error' carried own')
          have finished : ((step handler pool i).procs i).Finished := by rw [raised]; trivial
          rw [exec_finished rest finished, raised, struck, carried]
          constructor
          · intro same
            cases same
            exact .inl ⟨rfl, rfl⟩
          · rintro (⟨-, same⟩ | later)
            · cases same
              rfl
            · exact absurd later (never finished)
        · have others : ∀ error', carries request (handler i request pool.state).1 = some error' → ¬mine error' :=
            fun error' carried own' => escapes ⟨error', carried, own'⟩
          rw [struck]
          refine (ih (by rw [after]; exact goesOn others)).trans ⟨.inr, fun both => both.elim (fun now => absurd own (others error now.2)) id⟩
    · refine (ih (by rw [step_procs_other here]; exact lets)).trans ⟨.inr, fun both => both.elim (fun now => absurd now.1 here) id⟩

/-- Handlers that agree about every request of a run make one run of it. -/
theorem exec_congr {handler handler' : ι → Handler I S} {schedule : List ι} {pool : Pool I L E α S ι}
    (agree : Along (step handler) (fun pool i => ∀ request, (pool.procs i).request? = some request →
      handler' i request pool.state = handler i request pool.state) schedule pool) :
    exec handler' schedule pool = exec handler schedule pool := by
  induction schedule generalizing pool with
  | nil => rfl
  | cons i rest ih =>
    obtain ⟨here, later⟩ := along_cons.mp agree
    have same : step handler' pool i = step handler pool i := by
      cases asked : pool.procs i with
      | ret value | raise error =>
        have finished : (pool.procs i).Finished := by rw [asked]; trivial
        rw [step_finished finished, step_finished finished]
      | call label request next =>
        rw [step_call asked, step_call asked, here request (by rw [asked]; rfl)]
    rw [exec_cons, exec_cons, same]
    exact ih later

end Pool

end EdgeVms.Process
