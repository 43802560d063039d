import Mathlib.Data.List.Induction

/-! # What has happened in a run

A run is a list of events from a start.  `Past` says that something happened at one of them;
`Since` says of something that began at one of them that it has held ever since.
-/

namespace EdgeVms.Process

variable {S E : Type} {step : S → E → S} {start : S} {events : List E} {event : E}

def Past (step : S → E → S) (start : S) (happened : S → E → Prop) (events : List E) : Prop :=
  ∃ first event rest, events = first ++ event :: rest ∧ happened (first.foldl step start) event

def Since (step : S → E → S) (start : S) (began : S → E → Prop) (holds : S → Prop) (events : List E) : Prop :=
  ∃ first event rest, events = first ++ event :: rest ∧ began (first.foldl step start) event ∧
    ∀ middle, middle <+: rest → holds ((first ++ event :: middle).foldl step start)

/-- Where an event of a longer run stands. -/
theorem concat_split {first rest : List E} {event last : E} (split : events ++ [last] = first ++ event :: rest) :
    (events = first ∧ last = event ∧ rest = []) ∨
      ∃ rest', rest = rest' ++ [last] ∧ events = first ++ event :: rest' := by
  induction rest using List.reverseRecOn with
  | nil =>
    obtain ⟨same, last⟩ := List.append_inj' split rfl
    exact .inl ⟨same, by simpa using last, rfl⟩
  | append_singleton rest' other _ =>
    rw [← List.cons_append, ← List.append_assoc] at split
    obtain ⟨same, last⟩ := List.append_inj' split rfl
    exact .inr ⟨rest', by simpa using last.symm, same⟩

theorem past_nil {happened : S → E → Prop} : ¬ Past step start happened [] := by
  rintro ⟨first, event, rest, split, -⟩
  simp at split

theorem past_concat {happened : S → E → Prop} :
    Past step start happened (events ++ [event]) ↔
      Past step start happened events ∨ happened (events.foldl step start) event := by
  constructor
  · rintro ⟨first, event', rest, split, happens⟩
    obtain ⟨rfl, rfl, -⟩ | ⟨rest', -, rfl⟩ := concat_split split
    · exact .inr happens
    · exact .inl ⟨first, event', rest', rfl, happens⟩
  · rintro (⟨first, event', rest, rfl, happens⟩ | happens)
    · exact ⟨first, event', rest ++ [event], by simp, happens⟩
    · exact ⟨events, event, [], rfl, happens⟩

/-- What began before goes on, or it begins with the last event; in both cases it still holds. -/
theorem since_concat {began : S → E → Prop} {holds : S → Prop}
    (earlier : Since step start began holds events ∨ began (events.foldl step start) event)
    (still : holds ((events ++ [event]).foldl step start)) : Since step start began holds (events ++ [event]) := by
  obtain ⟨first, event', rest, rfl, begins, held⟩ | begins := earlier
  · refine ⟨first, event', rest ++ [event], by simp, begins, fun middle isPrefix => ?_⟩
    obtain rfl | before := List.prefix_concat_iff.mp isPrefix
    · simpa using still
    · exact held middle before
  · refine ⟨events, event, [], rfl, begins, fun middle isPrefix => ?_⟩
    rw [List.prefix_nil.mp isPrefix]
    exact still

end EdgeVms.Process
