import Mathlib.Algebra.Order.Ring.Rat
import Mathlib.Data.List.Sort

/-! # Fragments and runs

The archive answers with fragments, page by page.  The browser is told the runs: what
follows within a second is one piece of footage.
-/

namespace EdgeVms.Kvs

/-! ## The pages of the service -/

/-- A fragment as the service describes it; its timestamp is that of `to_epoch`. -/
structure Listed where
  producerTimestamp : ℚ
  lengthInMilliseconds : Int

structure Page where
  fragments : List Listed
  nextToken : Option String

/-- The fragments of the answers, in their order, up to the one that has no token; `none` where all of them have
one. -/
def listAllFragments : List Page → Option (List Listed)
  | [] => none
  | resp :: later =>
    if resp.nextToken.any (· ≠ "") then (resp.fragments ++ ·) <$> listAllFragments later else some resp.fragments

/-! ## Runs -/

structure Fragment where
  producerTimestamp : ℚ
  duration : ℚ
  deriving DecidableEq

def Fragment.start (frag : Fragment) : ℚ := frag.producerTimestamp

def Fragment.end_ (frag : Fragment) : ℚ := frag.start + frag.duration

structure Run where
  start : ℚ
  end_ : ℚ
  deriving DecidableEq

def gapSeconds : ℚ := 1

def mergeRounds : List Run → List Fragment → List Run
  | runs, [] => runs
  | runs, frag :: rest =>
    match runs.getLast? with
    | some last =>
      if frag.start - last.end_ ≤ gapSeconds then
        mergeRounds (runs.dropLast ++ [{ last with end_ := frag.end_ }]) rest
      else mergeRounds (runs ++ [⟨frag.start, frag.end_⟩]) rest
    | none => mergeRounds (runs ++ [⟨frag.start, frag.end_⟩]) rest

def mergeFragmentsIntoRuns (fragments : List Fragment) : List Run := mergeRounds [] fragments

example : mergeFragmentsIntoRuns [⟨1000, 10⟩, ⟨10104 / 10, 10⟩, ⟨1025, 10⟩, ⟨1036, 5⟩] =
    [⟨1000, 10204 / 10⟩, ⟨1025, 1041⟩] := by decide +kernel

/-! ## `GET /api/fragments` -/

structure FragmentsResponse where
  runs : List Run
  window : ℚ × ℚ

/-- Four runs that end now, for development. -/
def fixturesRuns (windowEnd : ℚ) : List Run :=
  [(-58 * 60, -44 * 60), (-42 * 60, -57 / 2 * 60), (-21 * 60, -9 * 60), (-6 * 60, -20)].map fun (a, b) =>
    ⟨windowEnd + a, windowEnd + b⟩

def fragmentsOf (raw : List Listed) : List Fragment :=
  (raw.map fun f => ⟨f.producerTimestamp, f.lengthInMilliseconds / 1000⟩).insertionSort fun left right =>
    left.producerTimestamp ≤ right.producerTimestamp

def getFragments (fixtures : Bool) (pages : List Page) (start end_ : ℚ) : Option FragmentsResponse :=
  if fixtures then some ⟨fixturesRuns end_, start, end_⟩
  else (fun raw => ⟨mergeFragmentsIntoRuns (fragmentsOf raw), start, end_⟩) <$> listAllFragments pages

end EdgeVms.Kvs
