import EdgeVms.Vms.Archive

/-! # The timeline of a camera

What a player is shown of a window: the media segments in it with the events that
happened meanwhile, and the event buckets of the time in which nothing was recorded.
-/

namespace EdgeVms.Vms.Archive

open Process Platform

/-- An entry of the timeline. -/
structure Span where
  start : ℚ
  end_ : ℚ
  media : Option String
  epoch : Int
  events : Nat
  fenced : Bool

def fenced (current : Option Int) (epoch : Int) : Bool := current.any (epoch < ·)

/-- The bucket has events of a recorded span. -/
def hits (b : Bucket) (o : Span) : Bool :=
  o.media.any (· ≠ "") && o.epoch = b.epoch && o.start < b.end_ && b.start < o.end_

section Window

variable (t0 t1 : ℚ) (current : Option Int)

def mediaRounds : List Segment → List Span → List Span
  | [], out => out
  | s :: rest, out =>
    if s.end_ > t0 ∧ s.start < t1 then
      mediaRounds rest (out ++ [⟨s.start, s.end_, some s.path, s.epoch, 0, fenced current s.epoch⟩])
    else mediaRounds rest out

def bucketRounds : List Bucket → List Span → List Span
  | [], out => out
  | b :: rest, out =>
    if b.end_ > t0 ∧ b.start < t1 then
      match out.findIdx? (hits b) with
      | some hit => bucketRounds rest (out.modify hit fun o => { o with events := o.events + b.events })
      | none => bucketRounds rest (out ++ [⟨b.start, b.end_, none, b.epoch, b.events, fenced current b.epoch⟩])
    else bucketRounds rest out

def sortSpans (spans : List Span) : List Span :=
  spans.insertionSort fun left right =>
    left.start < right.start ∨ (left.start = right.start ∧ left.epoch ≤ right.epoch)

/-- The spans that overlap the window, each marked if its epoch is older than the current one. -/
def timeline (unit : String) : Program (List Span) := do
  let out := mediaRounds t0 t1 current (← read unit) []
  let out := bucketRounds t0 t1 current (← buckets unit) out
  return sortSpans out

end Window

end EdgeVms.Vms.Archive
