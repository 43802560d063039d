import EdgeVms.Edge.Spool

/-! # The upload of a segment

A closed segment is published again with the time at which it was captured.  The exit
status says whether the archive has it: the archive is asked for its fragments around
the span of the segment.
-/

namespace EdgeVms.Edge

open Python

/-- What the file system and `ffprobe` say about a closed segment. -/
structure Stat where
  mtime : ℚ
  duration : Option ℚ

structure UploadConfig where
  region : String
  retention : Int
  segmentSeconds : ℚ
  stream : String

structure Fragment where
  producerTimestamp : ℚ
  deriving DecidableEq

/-- The far side, and the clock. -/
structure Far where
  archive : List Fragment
  time : ℚ
  deriving DecidableEq

/-- Without an answer, or with one that is not positive, the segment is as long as configured. -/
def segmentDuration (stat : Stat) (fallback : ℚ) : ℚ :=
  match stat.duration with
  | some d => if 0 < d then d else fallback
  | none => fallback

/-- `now or time.time()` -/
def limit (now : Option ℚ) (time : ℚ) : ℚ :=
  match now with
  | some now => if now = 0 then time else now
  | none => time

/-- The close of the file ends the span; no part of it is in the future. -/
def segmentSpan (stat : Stat) (fallbackSeconds : ℚ) (now : Option ℚ) (time : ℚ) : ℚ × ℚ :=
  let end_ := stat.mtime
  let start := end_ - segmentDuration stat fallbackSeconds
  (min start (limit now time), min end_ (limit now time))

/-- With a little slack for the muxer. -/
def acknowledged (fragments : List Fragment) (start end_ : ℚ) : Bool :=
  let slack := 2
  fragments.any fun f => start - slack ≤ f.producerTimestamp ∧ f.producerTimestamp ≤ end_ + slack

/-- `int(x)` -/
def truncated (x : ℚ) : Int := if x < 0 then ⌈x⌉ else ⌊x⌋

def buildUploadArgv (path : String) (cfg : UploadConfig) (fileStartEpoch : ℚ) : List String :=
  ["gst-launch-1.0", "-q", "filesrc", "location=" ++ path, "!", "qtdemux", "name=d", "d.video_0", "!", "h264parse",
    "!", "video/x-h264,stream-format=avc,alignment=au", "!", "kvssink", "stream-name=" ++ cfg.stream,
    "aws-region=" ++ cfg.region, "streaming-type=offline", "file-start-time=" ++ toString (truncated fileStartEpoch),
    "storage-size=128", "retention-period=" ++ toString cfg.retention]

/-- `ListFragments`, page after page. -/
def listFragments (archive : List Fragment) (start end_ : ℚ) : List Fragment :=
  archive.filter fun f => start ≤ f.producerTimestamp ∧ f.producerTimestamp ≤ end_

/-- The exit status. -/
def upload (run : List String → Far → Int × Far) (cfg : UploadConfig) (now : Option ℚ) (path : String) (stat : Stat)
    (far : Far) : Int × Far :=
  let span := segmentSpan stat cfg.segmentSeconds now far.time
  let r := run (buildUploadArgv path cfg span.1) far
  if r.1 ≠ 0 then (1, r.2)
  else
    let frags := listFragments r.2.archive (span.1 - 5) (span.2 + 5)
    if acknowledged frags span.1 span.2 then (0, r.2) else (1, r.2)

/-- The command that the uploader of the spool runs for each segment: the exit status is the acknowledgement. -/
def uploadCmd (run : List String → Far → Int × Far) (cfg : UploadConfig) (stat : String → Stat) (path : String)
    (far : Far) : Bool × Far :=
  let r := upload run cfg none path (stat path) far
  (r.1 = 0, r.2)

end EdgeVms.Edge
