import EdgeVms.Python.Value
import Mathlib.Data.List.Sort
import Mathlib.Data.String.Basic

/-! # The spool of the appliance

Segments wait in a directory until the far side has them.  The spool has a bound, and
makes room by dropping its oldest segments; the uploader removes a segment when it is
acknowledged.
-/

namespace EdgeVms.Edge

open Python

abbrev Bytes := List UInt8

/-- What `open(os.path.join(root, name), "wb")` opens: a file of the root itself, a file somewhere else,
or nothing. -/
inductive Landing where
  | file (name : String)
  | elsewhere
  | refused
  deriving DecidableEq

/-- `strange` is where names with a slash lead. -/
def landing (strange : String → Landing) (name : String) : Landing :=
  if '/' ∈ name.toList then strange name
  else if name = "" ∨ name = "." ∨ name = ".." ∨ Char.ofNat 0 ∈ name.toList ∨ 255 < name.utf8ByteSize then .refused
  else .file name

inductive Policy where
  | dropOldest
  | stopRecording
  deriving DecidableEq

/-- The file could not be opened. -/
structure Unopened where
  name : String
  deriving DecidableEq

/-- There are no directories in the root: nothing makes one. -/
structure Spool where
  maxBytes : Nat
  policy : Policy
  files : Dict Bytes
  dropped : Nat

namespace Spool

def new (maxBytes : Nat) (policy : Policy) : Spool := ⟨maxBytes, policy, [], 0⟩

/-- `*.mp4` finds no hidden files. -/
def listed (name : String) : Bool := name.toList.head? ≠ some '.' && ".mp4".toList.isSuffixOf name.toList

/-- Oldest first. -/
def pending (spool : Spool) : List (String × Bytes) :=
  (spool.files.filter fun file => listed file.1).insertionSort fun first second => first.1 ≤ second.1

def size (segments : List (String × Bytes)) : Nat := (segments.map fun seg => seg.2.length).sum

def used (spool : Spool) : Nat := size spool.pending

/-- `os.remove` -/
def remove (name : String) (spool : Spool) : Spool := { spool with files := spool.files.pop name }

/-- `while self.pending() and …`: each round removes a file, so there are no more rounds than segments. -/
def makeRoom (size : Nat) : Nat → Spool → Spool
  | 0, spool => spool
  | rounds + 1, spool =>
    match spool.pending with
    | [] => spool
    | (name, _) :: _ =>
      if spool.maxBytes < spool.used + size then
        makeRoom size rounds { spool.remove name with dropped := spool.dropped + 1 }
      else spool

def write (strange : String → Landing) (name : String) (data : Bytes) (spool : Spool) : Except Unopened Bool × Spool :=
  match landing strange name with
  | .refused => (.error ⟨name⟩, spool)
  | .elsewhere => (.ok true, spool)
  | .file file => (.ok true, { spool with files := spool.files.set file data })

def accept (strange : String → Landing) (name : String) (data : Bytes) (spool : Spool) : Except Unopened Bool × Spool :=
  if spool.maxBytes < spool.used + data.length then
    match spool.policy with
    | .stopRecording => (.ok false, spool)
    | .dropOldest => (makeRoom data.length spool.pending.length spool).write strange name data
  else spool.write strange name data

variable {W : Type}

def drainRounds (upload : String → W → Bool × W) (budgetPerTick : Int) :
    List (String × Bytes) → Nat → W → Spool → Nat × W × Spool
  | [], sent, world, spool => (sent, world, spool)
  | (path, _) :: rest, sent, world, spool =>
    if budgetPerTick ≤ sent then (sent, world, spool)
    else
      let answer := upload path world
      if answer.1 then drainRounds upload budgetPerTick rest (sent + 1) answer.2 (spool.remove path)
      else (sent, answer.2, spool)

/-- How many were sent; an upload also changes the world. -/
def drain (upload : String → W → Bool × W) (budgetPerTick : Int) (world : W) (spool : Spool) : Nat × W × Spool :=
  drainRounds upload budgetPerTick spool.pending 0 world spool

/-- Three of a hundred bytes fit into three hundred. -/
example :
    let seg : Bytes := List.replicate 100 0
    let after := ["11-00.mp4", "11-01.mp4", "11-02.mp4", "11-03.mp4", "11-04.mp4"].foldl
      (fun spool name => (accept (fun _ => .refused) name seg spool).2) (new 300 .dropOldest)
    after.pending.map Prod.fst = ["11-02.mp4", "11-03.mp4", "11-04.mp4"] ∧ after.dropped = 2 := by
  decide +kernel

end Spool

end EdgeVms.Edge
