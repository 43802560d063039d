import EdgeVms.Kvs.Player
import Mathlib.Tactic.Linarith

/-! # Every click plays

The range that the page makes of a click lies in the run and passes the check of the
server, as long as the two have the same length of a chunk.
-/

namespace EdgeVms.Verified.Clicks

open Kvs

variable {run : Run} {ts : ℚ} {chunk : Int}

/-! ## The range -/

/-- The moment is in the run. -/
structure Inside (run : Run) (ts : ℚ) : Prop where
  starts : run.start ≤ ts
  ends : ts ≤ run.end_

theorem inside_of_runAt {runs : List Run} (found : runAt ts runs = some run) : run ∈ runs ∧ Inside run ts := by
  have here := List.find?_some found
  rw [decide_eq_true_iff] at here
  exact ⟨List.mem_of_find?_eq_some found, here.1, here.2⟩

/-- A second of the run, where as much of it is left. -/
theorem chunkFor_later (left : 1 ≤ run.end_ - ts) (long : 1 ≤ chunk) :
    chunkFor ts run chunk = some ⟨ts, min (ts + chunk) run.end_⟩ := by
  have long' : (1 : ℚ) ≤ chunk := by exact_mod_cast long
  have wide : 1 ≤ min (ts + chunk) run.end_ - ts := by
    rw [le_sub_iff_add_le, le_min_iff]
    constructor <;> linarith
  have kept : ¬min (ts + chunk) run.end_ - ts < 1 := not_lt.mpr wide
  have nonempty : ¬min (ts + chunk) run.end_ - ts ≤ 0 := by linarith
  simp only [chunkFor, if_neg kept, if_neg nonempty]

/-- Near the end of the run, its last second, or all of a run that is shorter. -/
theorem chunkFor_end (left : run.end_ - ts < 1) (long : 1 ≤ chunk) :
    chunkFor ts run chunk =
      if run.start < run.end_ then some ⟨max run.start (run.end_ - 1), run.end_⟩ else none := by
  have long' : (1 : ℚ) ≤ chunk := by exact_mod_cast long
  have clamped : min (ts + chunk) run.end_ = run.end_ := min_eq_right (by linarith)
  simp only [chunkFor, clamped, if_pos left]
  by_cases some_ : run.start < run.end_
  · have nonempty : ¬run.end_ - max run.start (run.end_ - 1) ≤ 0 := by
      rw [not_le, sub_pos, max_lt_iff]
      exact ⟨some_, by linarith⟩
    rw [if_neg nonempty, if_pos some_]
  · have empty : run.end_ - max run.start (run.end_ - 1) ≤ 0 :=
      sub_nonpos.mpr ((not_lt.mp some_).trans (le_max_left _ _))
    rw [if_pos empty, if_neg some_]

theorem chunkFor_none_iff (inside : Inside run ts) (long : 1 ≤ chunk) :
    chunkFor ts run chunk = none ↔ run.start = run.end_ := by
  have ordered : run.start ≤ run.end_ := inside.starts.trans inside.ends
  by_cases left : run.end_ - ts < 1
  · rw [chunkFor_end left long]
    by_cases some_ : run.start < run.end_
    · simp [some_, some_.ne]
    · simp [le_antisymm ordered (not_lt.mp some_)]
  · have wide := not_lt.mp left
    have differs : run.start ≠ run.end_ := fun same => by
      have starts := inside.starts
      rw [same] at starts
      linarith
    simp [chunkFor_later wide long, differs]

/-- A range of the run that is not empty and no longer than a chunk. -/
structure Fits (run : Run) (chunk : Int) (c : Chunk) : Prop where
  starts : run.start ≤ c.start
  ends : c.end_ ≤ run.end_
  nonempty : 0 < c.end_ - c.start
  short : c.end_ - c.start ≤ chunk

theorem chunkFor_fits (inside : Inside run ts) (long : 1 ≤ chunk) {c : Chunk}
    (made : chunkFor ts run chunk = some c) : Fits run chunk c := by
  have long' : (1 : ℚ) ≤ chunk := by exact_mod_cast long
  by_cases left : run.end_ - ts < 1
  · rw [chunkFor_end left long] at made
    split at made
    next some_ =>
      cases made
      have early : run.end_ - 1 ≤ max run.start (run.end_ - 1) := le_max_right _ _
      have late : max run.start (run.end_ - 1) < run.end_ := max_lt some_ (by linarith)
      exact ⟨le_max_left _ _, le_refl _, sub_pos.mpr late, by dsimp only; linarith⟩
    next => cases made
  · have wide := not_lt.mp left
    rw [chunkFor_later wide long] at made
    cases made
    have after : ts < min (ts + chunk) run.end_ := lt_min (by linarith) (by linarith)
    have before : min (ts + chunk) run.end_ ≤ ts + chunk := min_le_left _ _
    exact ⟨inside.starts, min_le_right _ _, sub_pos.mpr after, by dsimp only; linarith⟩

/-! ## The request -/

theorem Fits.asks {c : Chunk} (fits : Fits run chunk c) {session : ℚ → ℚ → Except ClientError String} {url : String}
    (answers : session c.start c.end_ = .ok url) : getHls session chunk c.start c.end_ = .ok url := by
  have passes : ¬¬(0 < c.end_ - c.start ∧ c.end_ - c.start ≤ chunk) := not_not.mpr ⟨fits.nonempty, fits.short⟩
  rw [getHls, if_neg passes, answers]

/-- In exact arithmetic, and with one length of a chunk for both sides. -/
theorem click_plays (starts : run.start ≤ ts) (ends : ts ≤ run.end_) (long : 1 ≤ chunk) :
    (chunkFor ts run chunk = none ↔ run.start = run.end_) ∧
      ∀ c, chunkFor ts run chunk = some c →
        run.start ≤ c.start ∧ c.end_ ≤ run.end_ ∧ 0 < c.end_ - c.start ∧ c.end_ - c.start ≤ chunk ∧
          ∀ session url, session c.start c.end_ = .ok url → getHls session chunk c.start c.end_ = .ok url := by
  have inside : Inside run ts := ⟨starts, ends⟩
  refine ⟨chunkFor_none_iff inside long, fun c made => ?_⟩
  have fits := chunkFor_fits inside long made
  exact ⟨fits.starts, fits.ends, fits.nonempty, fits.short, fun _ _ answers => fits.asks answers⟩

theorem click_plays_short :
    (chunkFor (10002 / 10) ⟨1000, 10004 / 10⟩ 300 = none ↔ (1000 : ℚ) = 10004 / 10) ∧
      ∀ c, chunkFor (10002 / 10) ⟨1000, 10004 / 10⟩ 300 = some c →
        1000 ≤ c.start ∧ c.end_ ≤ 10004 / 10 ∧ 0 < c.end_ - c.start ∧ c.end_ - c.start ≤ (300 : Int) ∧
          ∀ session url, session c.start c.end_ = .ok url → getHls session 300 c.start c.end_ = .ok url :=
  @click_plays ⟨1000, 10004 / 10⟩ (10002 / 10) 300 (by decide +kernel) (by decide +kernel) (by decide)

/-! ## The page and the server -/

/-- Wherever the page finds a run of some length, the service is asked, and what it answers is played. -/
theorem found_run_plays {runs : List Run} (long : 1 ≤ chunk) (found : runAt ts runs = some run)
    (some_ : run.start ≠ run.end_) {session : ℚ → ℚ → Except ClientError String}
    (answers : ∀ start end_, ∃ url, session start end_ = .ok url) :
    ∃ url, playFrom session chunk chunk false ts run = some (.ok url) := by
  have inside := (inside_of_runAt found).2
  cases made : chunkFor ts run chunk with
  | none => exact absurd ((chunkFor_none_iff inside long).mp made) some_
  | some c =>
    obtain ⟨url, answered⟩ := answers c.start c.end_
    refine ⟨url, ?_⟩
    rw [playFrom, made]
    exact congrArg some ((chunkFor_fits inside long made).asks answered)

/-- A page with the longer chunk is refused wherever the run has that much left. -/
theorem longer_chunk_refused {pageChunk serverChunk : Int} (long : 1 ≤ pageChunk) (longer : serverChunk < pageChunk)
    (left : ts + pageChunk ≤ run.end_) (session : ℚ → ℚ → Except ClientError String) :
    playFrom session pageChunk serverChunk false ts run = some (.error (.http 400
      ("range must be greater than 0 and at most " ++ toString serverChunk ++ " seconds"))) := by
  have long' : (1 : ℚ) ≤ pageChunk := by exact_mod_cast long
  have longer' : (serverChunk : ℚ) < pageChunk := by exact_mod_cast longer
  have more : 1 ≤ run.end_ - ts := by linarith
  have made := chunkFor_later more long
  rw [min_eq_left left] at made
  have refused : ¬(0 < ts + pageChunk - ts ∧ ts + pageChunk - ts ≤ serverChunk) := fun passes => by
    linarith [passes.2]
  simp only [playFrom, made, getHls, if_pos refused]
  rfl

end EdgeVms.Verified.Clicks
