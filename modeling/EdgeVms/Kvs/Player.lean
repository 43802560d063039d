import EdgeVms.Kvs.Fragments

/-! # From a click to a session

The page makes a range of a moment and a run; the server checks the range before it asks
the service for a session.  Both have the length of a chunk from their own constants.
-/

namespace EdgeVms.Kvs

/-! ## The page -/

def runAt (ts : ℚ) (runs : List Run) : Option Run := runs.find? fun r => ts ≥ r.start ∧ ts ≤ r.end_

structure Chunk where
  start : ℚ
  end_ : ℚ
  deriving DecidableEq

def chunkFor (ts : ℚ) (run : Run) (chunkSeconds : Int) : Option Chunk :=
  let end_ := min (ts + chunkSeconds) run.end_
  let start := if end_ - ts < 1 then max run.start (end_ - 1) else ts
  if end_ - start ≤ 0 then none else some ⟨start, end_⟩

example : chunkFor 1000 ⟨1000, 10004 / 10⟩ 300 = some ⟨1000, 10004 / 10⟩ := by decide +kernel

/-! ## The server -/

/-- The `Code` of a `ClientError`. -/
structure ClientError where
  code : String

inductive HlsError where
  | http (status : Nat) (detail : String)
  | raised (error : ClientError)

/-- `get_hls`; `session` is what the service answers for the two times, a streaming URL. -/
def getHls (session : ℚ → ℚ → Except ClientError String) (chunkSeconds : Int) (start end_ : ℚ) :
    Except HlsError String :=
  let duration := end_ - start
  if ¬(0 < duration ∧ duration ≤ chunkSeconds) then
    .error (.http 400 ("range must be greater than 0 and at most " ++ toString chunkSeconds ++ " seconds"))
  else
    match session start end_ with
    | .ok url => .ok url
    | .error e =>
      if e.code = "ResourceNotFoundException" then .error (.http 404 "No recording in this range")
      else .error (.raised e)

/-- What `playFrom` learns of its request, where it makes one. -/
def playFrom (session : ℚ → ℚ → Except ClientError String) (pageChunk serverChunk : Int) (inFlight : Bool) (ts : ℚ)
    (run : Run) : Option (Except HlsError String) :=
  match chunkFor ts run pageChunk with
  | none => none
  | some chunk => if inFlight then none else some (getHls session serverChunk chunk.start chunk.end_)

end EdgeVms.Kvs
