import EdgeVms.Node.AppHost
import EdgeVms.Python.Path

/-! # The pipeline of one camera

Two threads use it.  The streaming thread opens the fragments one after another and
asks for the name of each; the main thread drains the bus, where the closing of a
fragment is told some time after it, for the files are finalised asynchronously.
-/

namespace EdgeVms.Node

open Python

/-- A message of the bus. -/
inductive Message where
  /-- The new state, and whether it is the pipeline's own. -/
  | stateChanged (ours : Bool) (playing : Bool)
  /-- The name of its structure, and the location in it. -/
  | element (name : String) (location : Option String)
  | error (redacted : String)
  | eos

/-- What is handed to `on_segment_closed`. -/
structure ClosedSegment where
  camera : Int
  start : ℚ
  end_ : ℚ
  path : String
  bytes : Nat
  deriving DecidableEq

structure CameraPipeline where
  id : Int
  archiveDir : String
  epoch : Int
  state : PipelineState
  /-- Whether there is a GStreamer pipeline. -/
  pipeline : Bool
  lastError : Option String
  segmentsWritten : Nat
  openSince : Option ℚ
  openPath : Option String

namespace CameraPipeline

/-- A pipeline that has been started. -/
def started (id : Int) (archiveDir : String) (epoch : Int) : CameraPipeline :=
  ⟨id, archiveDir, epoch, .starting, true, none, 0, none, none⟩

def segmentDir (p : CameraPipeline) : String := Path.join p.archiveDir [toString p.id, "e" ++ toString p.epoch]

/-- The name of a file that is opened at `since`. -/
def location (p : CameraPipeline) (since : DateTime) : String := Path.join p.segmentDir [since.stamp ++ ".mp4"]

/-- `_format_location`, in the streaming thread. -/
def formatLocation (now : ℚ) (p : CameraPipeline) : Except Error String × CameraPipeline :=
  match DateTime.fromTimestamp now with
  | .error error => (.error error, p)
  | .ok since => (.ok (p.location since), { p with openSince := some now, openPath := some (p.location since) })

def teardown (p : CameraPipeline) : CameraPipeline := { p with pipeline := false }

/-- `_closed`; `getsize` is what the file system answers, if it does. -/
def closed (path : Option String) (end_ : ℚ) (getsize : String → Option Nat) (p : CameraPipeline) :
    Option ClosedSegment × CameraPipeline :=
  match (path.filter (· ≠ "")).or (p.openPath.filter (· ≠ "")), p.openSince with
  | some path, some since =>
    match getsize path with
    | none => (none, p)
    | some size =>
      (some ⟨p.id, since, end_, path, size⟩, { p with segmentsWritten := p.segmentsWritten + 1 })
  | _, _ => (none, p)

/-- `_handle`: whether the pipeline lives on, and the segment that is handed over. -/
def handle (message : Message) (now : ℚ) (getsize : String → Option Nat) (p : CameraPipeline) :
    (Bool × Option ClosedSegment) × CameraPipeline :=
  match message with
  | .stateChanged ours playing =>
    ((true, none), if ours && playing && p.state = .starting then { p with state := .running } else p)
  | .element name location =>
    if name = "splitmuxsink-fragment-closed" then
      let (row, p) := p.closed location now getsize
      ((true, row), p)
    else ((true, none), p)
  | .error redacted => ((false, none), { p.teardown with lastError := some redacted, state := .failed })
  | .eos => ((false, none), { p.teardown with lastError := some "EOS from camera", state := .failed })

/-- A step of one of the threads. -/
inductive Event where
  | formatLocation (now : ℚ)
  | handle (message : Message) (now : ℚ) (getsize : String → Option Nat)

end CameraPipeline

end EdgeVms.Node
