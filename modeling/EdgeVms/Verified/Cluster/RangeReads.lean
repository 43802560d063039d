import EdgeVms.Cluster.SegmentRoute

/-! # What a range read answers

`Ask` is what a header asks by its grammar, whatever the route makes of it.  The
route honours a first byte with or without a last one inside the file, and nothing
else: a suffix is read from the front, the bounds of the answer are those of the
header and not of the body, and a header that asks nothing is answered or raises.
-/

namespace EdgeVms.Verified.RangeReads

open Python EdgeVms.Cluster
open EdgeVms.Cluster.SegmentRoute (isBytes parts bounds serve contentRange)

/-! ## What a header asks -/

inductive Ask where
  | between (first last : Nat)
  | onward (first : Nat)
  | final (n : Nat)
  deriving DecidableEq

/-- Decimal digits, at least one. -/
def number (part : String) : Option Nat :=
  if part ≠ "" ∧ part.toList.all Char.isDigit then some (Nat.ofDigitChars 10 part.toList 0) else none

def Ask.ofParts (a b : String) : Option Ask :=
  match number a, number b with
  | some first, some last => some (.between first last)
  | some first, none => if b = "" then some (.onward first) else none
  | none, some n => if a = "" then some (.final n) else none
  | none, none => none

/-- `bytes=`, and one range of the three forms. -/
def Ask.of (rng : String) : Option Ask :=
  if isBytes rng then
    match parts rng with
    | [a, b] => Ask.ofParts a b
    | _ => none
  else none

/-- The first and the last byte that are asked for, clipped to the file; a range that has no byte of
the file is not to be had. -/
def Ask.range (size : Nat) : Ask → Option (Nat × Nat)
  | .between first last => if first ≤ last ∧ first < size then some (first, min last (size - 1)) else none
  | .onward first => if first < size then some (first, size - 1) else none
  | .final n => if 0 < n ∧ 0 < size then some (size - min n size, size - 1) else none

/-- The bytes from `start` to `end_`, both included. -/
def slice (bytes : List UInt8) (start end_ : Nat) : List UInt8 := (bytes.drop start).take (end_ + 1 - start)

/-- An answer to a request for the file. -/
inductive Exact (file : SegmentFile) (range : Option String) : Response → Prop
  | refused {response : Response} (status : 400 ≤ response.status) : Exact file range response
  /-- No range is asked for: the whole file. -/
  | whole (plain : range.getD "" = "") : Exact file range ⟨200, file.bytes, []⟩
  | part {rng : String} {ask : Ask} {start end_ : Nat} (header : range = some rng) (asks : Ask.of rng = some ask)
      (clipped : ask.range file.bytes.length = some (start, end_)) :
      Exact file range ⟨206, slice file.bytes start end_,
        [("Content-Range", contentRange start end_ file.bytes.length)]⟩

/-- The file that the path leads to. -/
def found (root : String) (files : String → Option SegmentFile) (rel : String) : Option SegmentFile :=
  if "..".toList <:+: rel.toList then none else files (Path.joinTwo root rel)

/-- The route answers, and the answer is exact. -/
def Answers (root : String) (files : String → Option SegmentFile) (rel : String) (range : Option String) : Prop :=
  ∃ response, SegmentRoute.segment root files rel range = .ok response ∧
    ∀ file, found root files rel = some file → Exact file range response

/-- The header names a first byte of the file, and no last byte or one of the file. -/
def Inside (size : Nat) : Ask → Prop
  | .between first last => first ≤ last ∧ last < size
  | .onward first => first < size
  | .final _ => False

/-- Nothing is asked for, or what the route honours. -/
def Honoured (size : Nat) (range : Option String) : Prop :=
  range.getD "" = "" ∨ ∃ ask, Ask.of (range.getD "") = some ask ∧ Inside size ask

/-! ## The parser of the route, on what the grammar has -/

theorem int_number {part : String} {n : Nat} (reads : number part = some n) :
    part ≠ "" ∧ SegmentRoute.int part = .ok n := by
  rw [number] at reads
  split at reads
  next digits =>
    obtain ⟨nonempty, digits⟩ := digits
    have chars : ∀ c ∈ part.toList, c.isDigit := List.all_eq_true.mp digits
    have some_ : part.toList ≠ [] := fun none_ => nonempty (String.toList_eq_nil_iff.mp none_)
    have value := pyInt_digits chars
    rw [String.ofList_toList, unsigned, numeral_digits some_ chars] at value
    cases reads
    refine ⟨nonempty, ?_⟩
    rw [SegmentRoute.int, value]
    rfl
  next => cases reads

/-- What the route takes for the bounds. -/
def Ask.bounds (size : Int) : Ask → Int × Int
  | .between first last => (first, last)
  | .onward first => (first, size - 1)
  -- the count of a suffix is taken for its last byte
  | .final n => (0, n)

theorem parts_of_asks {rng : String} {ask : Ask} (asks : Ask.of rng = some ask) :
    isBytes rng = true ∧ ∃ a b, parts rng = [a, b] ∧ Ask.ofParts a b = some ask := by
  rw [Ask.of] at asks
  split at asks
  next bytes =>
    split at asks
    next a b two => exact ⟨bytes, a, b, two, asks⟩
    next => cases asks
  next => cases asks

theorem bounds_of_asks {rng : String} {ask : Ask} (asks : Ask.of rng = some ask) (file : SegmentFile) :
    bounds file rng = .ok (ask.bounds file.size) := by
  obtain ⟨bytes, a, b, two, asks⟩ := parts_of_asks asks
  rw [bounds, if_pos bytes, two]
  dsimp only
  rw [Ask.ofParts] at asks
  split at asks
  next first last readsA readsB =>
    obtain ⟨someA, intA⟩ := int_number readsA
    obtain ⟨someB, intB⟩ := int_number readsB
    cases asks
    simp [someA, someB, intA, intB, Ask.bounds]
    rfl
  next first readsA _ =>
    obtain ⟨someA, intA⟩ := int_number readsA
    split at asks
    next none_ =>
      cases asks
      simp [someA, intA, none_, Ask.bounds]
    next => cases asks
  next n _ readsB =>
    obtain ⟨someB, intB⟩ := int_number readsB
    split at asks
    next none_ =>
      cases asks
      simp [someB, intB, none_, Ask.bounds]
    next => cases asks
  next => cases asks

theorem contentRange_inj {start end_ end' size : Int}
    (same : contentRange start end_ size = contentRange start end' size) : end_ = end' := by
  rw [contentRange, contentRange, String.append_left_inj, String.append_left_inj, String.append_right_inj] at same
  exact toString_inj same

theorem length_slice (bytes : List UInt8) (start end_ : Nat) :
    (slice bytes start end_).length = min (end_ + 1 - start) (bytes.length - start) := by
  simp [slice]

/-- A read of bytes that the file has. -/
theorem read_inside {file : SegmentFile} {start end_ : Nat} (ordered : start ≤ end_ + 1)
    (inside : end_ < file.bytes.length) :
    file.read start (end_ - start + 1) = .ok (slice file.bytes start end_) := by
  have offsets := file.offsets
  rw [SegmentFile.read, if_neg (by omega), if_neg (by omega), if_neg (by omega), if_neg (by omega)]
  have count : ((end_ : Int) - start + 1).toNat = end_ + 1 - start := by omega
  rw [count]
  rfl

theorem length_read_front {file : SegmentFile} {n : Nat} {data : List UInt8}
    (got : file.read 0 (n - 0 + 1) = .ok data) : data.length = min (n + 1) file.bytes.length := by
  rw [SegmentFile.read, if_neg (by decide)] at got
  split at got
  next => cases got
  next =>
    rw [if_neg (by omega), if_neg (by omega)] at got
    cases got
    simp

/-! ## What the route answers -/

theorem serve_plain (file : SegmentFile) : serve file "" = .ok ⟨200, file.bytes, []⟩ := by
  have offsets := file.offsets
  have all : file.read 0 (file.size - 1 - 0 + 1) = .ok file.bytes := by
    rw [SegmentFile.read, SegmentFile.size, if_neg (by decide), if_neg (by omega), if_neg (by omega), if_neg (by omega)]
    simp
  have whole : bounds file "" = .ok (0, file.size - 1) := rfl
  exact bind_eq_ok.mpr ⟨_, whole, bind_eq_ok.mpr ⟨_, all, rfl⟩⟩

/-- An answer to a header is the part between the bounds that the route has taken. -/
theorem serve_ok {file : SegmentFile} {rng : String} {response : Response} (some_ : rng ≠ "")
    (answered : serve file rng = .ok response) :
    ∃ start end_ data, bounds file rng = .ok (start, end_) ∧ file.read start (end_ - start + 1) = .ok data ∧
      response = ⟨206, data, [("Content-Range", contentRange start end_ file.size)]⟩ := by
  obtain ⟨⟨start, end_⟩, taken, rest⟩ := bind_eq_ok.mp answered
  obtain ⟨data, got, made⟩ := bind_eq_ok.mp rest
  rw [if_neg some_] at made
  cases made
  exact ⟨start, end_, data, taken, got, rfl⟩

theorem serve_inside {file : SegmentFile} {rng : String} {ask : Ask} (asks : Ask.of rng = some ask)
    (inside : Inside file.bytes.length ask) :
    ∃ start end_, ask.range file.bytes.length = some (start, end_) ∧ serve file rng =
      .ok ⟨206, slice file.bytes start end_, [("Content-Range", contentRange start end_ file.bytes.length)]⟩ := by
  have some_ : rng ≠ "" := by
    rintro rfl
    cases asks
  have taken := bounds_of_asks asks file
  have serves : ∀ start end_ : Nat, start ≤ end_ + 1 → end_ < file.bytes.length →
      ask.bounds file.size = ((start : Int), (end_ : Int)) → serve file rng =
        .ok ⟨206, slice file.bytes start end_, [("Content-Range", contentRange start end_ file.bytes.length)]⟩ := by
    intro start end_ ordered last bounds_
    rw [bounds_] at taken
    refine bind_eq_ok.mpr ⟨_, taken, bind_eq_ok.mpr ⟨_, read_inside ordered last, ?_⟩⟩
    rw [if_neg some_]
    rfl
  cases ask with
  | between first last =>
    obtain ⟨ordered, inside⟩ := inside
    refine ⟨first, last, ?_, serves first last (by omega) inside rfl⟩
    rw [Ask.range, if_pos ⟨ordered, by omega⟩, Nat.min_eq_left (by omega)]
  | onward first =>
    have inside : first < file.bytes.length := inside
    refine ⟨first, file.bytes.length - 1, by rw [Ask.range, if_pos inside], ?_⟩
    refine serves first (file.bytes.length - 1) (by omega) (by omega) ?_
    have last : file.size - 1 = ((file.bytes.length - 1 : Nat) : Int) := by
      rw [SegmentFile.size]
      omega
    exact congrArg (Prod.mk (first : Int)) last
  | final n => exact inside.elim

/-- An exact answer is to a range that lies inside the file. -/
theorem inside_of_exact {file : SegmentFile} {rng : String} {response : Response} (some_ : rng ≠ "")
    (answered : serve file rng = .ok response) (exact_ : Exact file (some rng) response) :
    ∃ ask, Ask.of rng = some ask ∧ Inside file.bytes.length ask := by
  obtain ⟨start, end_, data, taken, got, rfl⟩ := serve_ok some_ answered
  generalize body : (⟨206, data, [("Content-Range", contentRange start end_ file.size)]⟩ : Response) =
    response at exact_
  cases exact_ with
  | refused status =>
    subst body
    simp at status
  | whole plain => exact absurd plain some_
  | @part rng' ask s e header asks clipped =>
    cases header
    injection body with _ same texts
    have texts := (Prod.mk.inj (List.cons.inj texts).1).2
    obtain ⟨rfl, rfl⟩ := Prod.mk.inj (Except.ok.inj (taken.symm.trans (bounds_of_asks asks file)))
    refine ⟨ask, asks, ?_⟩
    cases ask with
    | between first last =>
      rw [Ask.range] at clipped
      split at clipped
      next bound =>
        cases clipped
        have last_ : (last : Int) = (min last (file.bytes.length - 1) : Nat) := contentRange_inj texts
        exact ⟨bound.1, by omega⟩
      next => cases clipped
    | onward first =>
      rw [Ask.range] at clipped
      split at clipped
      next bound => exact bound
      next => cases clipped
    | final n =>
      -- as many bytes as asked for, but one too many unless the file is shorter: then the bounds tell
      rw [Ask.range] at clipped
      split at clipped
      next bound =>
        cases clipped
        have sizes := congrArg List.length same
        rw [length_read_front got, length_slice] at sizes
        have long : file.bytes.length - min n file.bytes.length = 0 := by omega
        rw [long] at texts
        have last : (n : Int) = (file.bytes.length - 1 : Nat) := contentRange_inj texts
        omega
      next => cases clipped

def tenBytes : SegmentFile := ⟨[0, 1, 2, 3, 4, 5, 6, 7, 8, 9], by decide⟩

end EdgeVms.Verified.RangeReads
