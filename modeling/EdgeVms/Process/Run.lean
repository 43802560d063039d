/-! # Runs of a machine

A machine is a function from a state and an event to the next state; a run is a
fold over its events.  `Along` is the condition under which each step of a run is
taken, and `Along.keeps` the induction that all invariants of runs share.
-/

namespace EdgeVms.Process

variable {S E : Type}

/-- Every step of the run is taken in a state where `condition` allows it. -/
inductive Along (step : S → E → S) (condition : S → E → Prop) : List E → S → Prop
  | nil {state} : Along step condition [] state
  | cons {event rest state} (allowed : condition state event)
      (along : Along step condition rest (step state event)) : Along step condition (event :: rest) state

variable {step : S → E → S} {condition : S → E → Prop}

theorem along_cons {event : E} {rest : List E} {state : S} :
    Along step condition (event :: rest) state ↔
      condition state event ∧ Along step condition rest (step state event) := by
  constructor
  · intro along
    cases along with
    | cons allowed along => exact ⟨allowed, along⟩
  · rintro ⟨allowed, along⟩
    exact .cons allowed along

theorem along_append {first rest : List E} {state : S} :
    Along step condition (first ++ rest) state ↔
      Along step condition first state ∧ Along step condition rest (first.foldl step state) := by
  induction first generalizing state with
  | nil => exact ⟨fun along => ⟨.nil, along⟩, fun both => both.2⟩
  | cons event first ih =>
    rw [List.cons_append, along_cons, along_cons, ih, List.foldl_cons, and_assoc]

theorem along_congr {condition' : S → E → Prop} (same : ∀ state event, condition state event ↔ condition' state event)
    (events : List E) (state : S) : Along step condition events state ↔ Along step condition' events state := by
  induction events generalizing state with
  | nil => exact ⟨fun _ => .nil, fun _ => .nil⟩
  | cons event rest ih => rw [along_cons, along_cons, same, ih]

instance instDecidableAlong (step : S → E → S) (condition : S → E → Prop)
    [∀ state event, Decidable (condition state event)] :
    (events : List E) → (state : S) → Decidable (Along step condition events state)
  | [], _ => .isTrue .nil
  | event :: rest, state =>
    have : Decidable (Along step condition rest (step state event)) :=
      instDecidableAlong step condition rest (step state event)
    decidable_of_iff _ along_cons.symm

/-- A condition on every step is a condition on every way the run begins. -/
theorem along_iff_prefixes {events : List E} {state : S} :
    Along step condition events state ↔
      ∀ first event, first ++ [event] <+: events → condition (first.foldl step state) event := by
  induction events generalizing state with
  | nil =>
    refine ⟨fun _ first event isPrefix => ?_, fun _ => .nil⟩
    have nothing := List.prefix_nil.mp isPrefix
    simp at nothing
  | cons event rest ih =>
    rw [along_cons, ih]
    constructor
    · rintro ⟨allowed, later⟩ first event' isPrefix
      cases first with
      | nil =>
        obtain rfl := (List.cons_prefix_cons.mp isPrefix).1
        exact allowed
      | cons head first =>
        obtain ⟨rfl, inRest⟩ := List.cons_prefix_cons.mp isPrefix
        exact later first event' inRest
    · intro all
      refine ⟨all [] event (by simp), fun first event' isPrefix => ?_⟩
      exact all (event :: first) event' (List.cons_prefix_cons.mpr ⟨rfl, isPrefix⟩)

theorem Along.always (always : ∀ state event, condition state event) (events : List E) (state : S) :
    Along step condition events state := by
  induction events generalizing state with
  | nil => exact .nil
  | cons event rest ih => exact .cons (always state event) (ih _)

theorem Along.imp {condition' : S → E → Prop} (implies : ∀ state event, condition state event → condition' state event)
    {events : List E} {state : S} (along : Along step condition events state) : Along step condition' events state := by
  induction along with
  | nil => exact .nil
  | cons allowed _ ih => exact .cons (implies _ _ allowed) ih

theorem along_of_forall {allowed : E → Prop} {events : List E} (all : ∀ event ∈ events, allowed event) (state : S) :
    Along step (fun _ event => allowed event) events state := by
  induction events generalizing state with
  | nil => exact .nil
  | cons event rest ih =>
    obtain ⟨here, later⟩ := List.forall_mem_cons.mp all
    exact .cons here (ih later _)

theorem along_both {allowed : E → Prop} {events : List E} {state : S} (all : ∀ event ∈ events, allowed event)
    (along : Along step condition events state) :
    Along step (fun state event => allowed event ∧ condition state event) events state := by
  induction along with
  | nil => exact .nil
  | cons holds _ ih =>
    obtain ⟨here, later⟩ := List.forall_mem_cons.mp all
    exact .cons ⟨here, holds⟩ (ih later)

/-- What every allowed step keeps holds after the run. -/
theorem Along.keeps {invariant : S → Prop}
    (keeps : ∀ state event, condition state event → invariant state → invariant (step state event))
    {events : List E} {state : S} (along : Along step condition events state) (holds : invariant state) :
    invariant (events.foldl step state) := by
  induction along with
  | nil => exact holds
  | cons allowed _ ih => exact ih (keeps _ _ allowed holds)

/-- What the allowed steps show while they keep an invariant is shown along the whole run. -/
theorem Along.shows {invariant : S → Prop} {shown : S → E → Prop}
    (steps : ∀ state event, condition state event → invariant state →
      invariant (step state event) ∧ shown state event)
    {events : List E} {state : S} (along : Along step condition events state) (holds : invariant state) :
    Along step shown events state ∧ invariant (events.foldl step state) := by
  induction along with
  | nil => exact ⟨.nil, holds⟩
  | cons allowed _ ih =>
    obtain ⟨kept, here⟩ := steps _ _ allowed holds
    obtain ⟨later, final⟩ := ih kept
    exact ⟨.cons here later, final⟩

/-- If a step leaves a property in place exactly when it meets the condition, then the property holds
after the run exactly when every step did. -/
theorem Along.iff_along {allowed : S → E → Prop} {invariant property : S → Prop}
    (keeps : ∀ state event, allowed state event → invariant state → invariant (step state event))
    (steps : ∀ state event, allowed state event → invariant state →
      (property (step state event) ↔ property state ∧ condition state event))
    {events : List E} {state : S} (along : Along step allowed events state) (start : invariant state) :
    property (events.foldl step state) ↔ property state ∧ Along step condition events state := by
  induction along with
  | nil => exact ⟨fun holds => ⟨holds, .nil⟩, fun both => both.1⟩
  | cons here _ ih =>
    rw [List.foldl_cons, ih (keeps _ _ here start), steps _ _ here start, along_cons, and_assoc]

/-- The same, of a machine that keeps its invariant in every step. -/
theorem after_iff_along {invariant property : S → Prop}
    (keeps : ∀ state event, invariant state → invariant (step state event))
    (steps : ∀ state event, invariant state → (property (step state event) ↔ property state ∧ condition state event))
    (events : List E) {state : S} (start : invariant state) :
    property (events.foldl step state) ↔ property state ∧ Along step condition events state :=
  Along.iff_along (fun state event _ => keeps state event) (fun state event _ => steps state event)
    (.always (fun _ _ => trivial) events state) start

/-- If the steps that keep a property are the allowed ones, then the property holds at every moment of
a run exactly when it holds at first and every step was allowed. -/
theorem always_iff_along {invariant property : S → Prop}
    (keeps : ∀ state event, invariant state → invariant (step state event))
    (steps : ∀ state event, invariant state → property state → (property (step state event) ↔ condition state event))
    (events : List E) {state : S} (start : invariant state) :
    (∀ first, first <+: events → property (first.foldl step state)) ↔
      property state ∧ Along step condition events state := by
  induction events generalizing state with
  | nil =>
    refine ⟨fun all => ⟨all [] List.nil_prefix, .nil⟩, fun both first isPrefix => ?_⟩
    rw [List.prefix_nil.mp isPrefix]
    exact both.1
  | cons event rest ih =>
    rw [along_cons]
    constructor
    · intro all
      have here : property state := all [] List.nil_prefix
      have next : property (step state event) := all [event] (List.cons_prefix_cons.mpr ⟨rfl, List.nil_prefix⟩)
      have later := (ih (keeps _ _ start)).mp fun first isPrefix =>
        all (event :: first) (List.cons_prefix_cons.mpr ⟨rfl, isPrefix⟩)
      exact ⟨here, (steps _ _ start here).mp next, later.2⟩
    · rintro ⟨here, allowed, along⟩ first isPrefix
      cases first with
      | nil => exact here
      | cons head first =>
        obtain ⟨rfl, inRest⟩ := List.cons_prefix_cons.mp isPrefix
        exact (ih (keeps _ _ start)).mpr ⟨(steps _ _ start here).mpr allowed, along⟩ first inRest

/-- If an invariant shows the property, lasts while the condition is met, and the property falls with
the first step that does not meet it, then the property holds at every moment of a run exactly when
every step meets the condition. -/
theorem always_iff_while {invariant property : S → Prop} (shows : ∀ state, invariant state → property state)
    (keeps : ∀ state event, condition state event → invariant state → invariant (step state event))
    (breaks : ∀ state event, ¬ condition state event → invariant state → ¬ property (step state event))
    (events : List E) {state : S} (start : invariant state) :
    (∀ first, first <+: events → property (first.foldl step state)) ↔ Along step condition events state := by
  induction events generalizing state with
  | nil =>
    refine ⟨fun _ => .nil, fun _ first isPrefix => ?_⟩
    rw [List.prefix_nil.mp isPrefix]
    exact shows _ start
  | cons event rest ih =>
    rw [along_cons]
    constructor
    · intro all
      have next : property (step state event) := all [event] (List.cons_prefix_cons.mpr ⟨rfl, List.nil_prefix⟩)
      have allowed : condition state event :=
        Classical.byContradiction fun refused => breaks _ _ refused start next
      refine ⟨allowed, (ih (keeps _ _ allowed start)).mp fun first isPrefix => ?_⟩
      exact all (event :: first) (List.cons_prefix_cons.mpr ⟨rfl, isPrefix⟩)
    · rintro ⟨allowed, along⟩ first isPrefix
      cases first with
      | nil => exact shows _ start
      | cons head first =>
        obtain ⟨rfl, inRest⟩ := List.cons_prefix_cons.mp isPrefix
        exact (ih (keeps _ _ allowed start)).mpr along first inRest

/-- Two conditions that agree wherever an invariant holds, which the first of them keeps, are met along
the same runs. -/
theorem along_iff_of_invariant {condition' : S → E → Prop} {invariant : S → Prop}
    (keeps : ∀ state event, condition state event → invariant state → invariant (step state event))
    (same : ∀ state event, invariant state → (condition state event ↔ condition' state event))
    (events : List E) {state : S} (start : invariant state) :
    Along step condition events state ↔ Along step condition' events state := by
  induction events generalizing state with
  | nil => exact ⟨fun _ => .nil, fun _ => .nil⟩
  | cons event rest ih =>
    rw [along_cons, along_cons, same state event start]
    refine and_congr_right fun allowed => ?_
    exact ih (keeps state event ((same state event start).mpr allowed) start)

end EdgeVms.Process
