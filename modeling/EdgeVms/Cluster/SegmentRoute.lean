import EdgeVms.Python.Path
import EdgeVms.Python.Value
import Mathlib.Data.List.Infix

/-! # The segment route

`/segment/<path>` of a resource: the bytes of a file, or the part of them that the
`Range` header names.
-/

namespace EdgeVms.Cluster

open Python

/-- The greatest offset of a file, and the greatest count of a read. -/
def maxOffset : Int := 2 ^ 63 - 1

/-- A file, as large as a file can be. -/
structure SegmentFile where
  bytes : List UInt8
  offsets : (bytes.length : Int) ≤ maxOffset

namespace SegmentFile

def size (file : SegmentFile) : Int := file.bytes.length

/-- `f.seek(start); f.read(n)` -/
def read (file : SegmentFile) (start n : Int) : Except Error (List UInt8) :=
  if start > maxOffset then .error .overflowError
  else if n > maxOffset then .error .overflowError
  else if n < -1 then .error .valueError
  -- a count of -1 is the rest of the file
  else if n = -1 then .ok (file.bytes.drop start.toNat)
  else .ok ((file.bytes.drop start.toNat).take n.toNat)

end SegmentFile

structure Response where
  status : Nat
  body : List UInt8
  headers : List (String × String)
  deriving DecidableEq

namespace SegmentRoute

/-- `int(text)` -/
def int (text : String) : Except Error Int :=
  match pyInt text with
  | some n => .ok n
  | none => .error .valueError

/-- `rng.startswith("bytes=")` -/
def isBytes (rng : String) : Bool := "bytes=".toList.isPrefixOf rng.toList

/-- `rng[6:].split("-")` -/
def parts (rng : String) : List String := split '-' (String.ofList (rng.toList.drop 6))

/-- `start, end`, as the header names them. -/
def bounds (file : SegmentFile) (rng : String) : Except Error (Int × Int) :=
  if isBytes rng then
    match parts rng with
    | [a, b] => do
      let start ← if a = "" then pure 0 else int a
      let end_ ← if b = "" then pure (file.size - 1) else int b
      return (start, end_)
    | _ => .error .valueError
  else .ok (0, file.size - 1)

def contentRange (start end_ size : Int) : String :=
  "bytes " ++ toString start ++ "-" ++ toString end_ ++ "/" ++ toString size

def serve (file : SegmentFile) (rng : String) : Except Error Response := do
  let (start, end_) ← bounds file rng
  let data ← file.read start (end_ - start + 1)
  if rng = "" then return ⟨200, data, []⟩
  return ⟨206, data, [("Content-Range", contentRange start end_ file.size)]⟩

/-- `extra("/segment/" + rel, headers)`, where `headers.get("Range")` is `range` or nothing. -/
def segment (root : String) (files : String → Option SegmentFile) (rel : String) (range : Option String) :
    Except Error Response :=
  if "..".toList <:+: rel.toList then .ok ⟨404, [], []⟩
  else
    match files (Path.joinTwo root rel) with
    | none => .ok ⟨404, [], []⟩
    | some file => serve file (range.getD "")

end SegmentRoute

end EdgeVms.Cluster
