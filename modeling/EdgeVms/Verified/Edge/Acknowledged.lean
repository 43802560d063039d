import EdgeVms.Edge.Upload
import EdgeVms.Verified.Edge.SpoolAccounts

/-! # What an acknowledgement is worth

The spans of segments that were recorded back to back touch, and the slack around them
reaches into the neighbours.  So a fragment of a neighbour can acknowledge a segment of
which the archive has nothing.
-/

namespace EdgeVms.Verified.Acknowledged

open Python Edge

/-- The time in which the segment was captured; the next segment begins where it ends. -/
def Belongs (cfg : UploadConfig) (stat : Stat) (fragment : Fragment) : Prop :=
  stat.mtime - segmentDuration stat cfg.segmentSeconds ≤ fragment.producerTimestamp ∧
    fragment.producerTimestamp < stat.mtime

instance (cfg : UploadConfig) (stat : Stat) (fragment : Fragment) : Decidable (Belongs cfg stat fragment) :=
  inferInstanceAs (Decidable (_ ∧ _))

/-- Each segment begins where the one before it ends. -/
def BackToBack (cfg : UploadConfig) (stats : List Stat) : Prop :=
  stats.IsChain fun first second => first.mtime = second.mtime - segmentDuration second cfg.segmentSeconds

/-- Something of the segment is in the archive. -/
def Archived (cfg : UploadConfig) (stat : Stat) (far : Far) : Prop := ∃ f ∈ far.archive, Belongs cfg stat f

instance (cfg : UploadConfig) (stat : Stat) (far : Far) : Decidable (Archived cfg stat far) :=
  inferInstanceAs (Decidable (∃ f ∈ far.archive, Belongs cfg stat f))

section Upload

variable (run : List String → Far → Int × Far) (cfg : UploadConfig)

/-- What the pipeline answers, and what it leaves behind. -/
def published (now : Option ℚ) (path : String) (stat : Stat) (far : Far) : Int × Far :=
  run (buildUploadArgv path cfg (segmentSpan stat cfg.segmentSeconds now far.time).1) far

/-- The pipeline fails; or the archive has a fragment of the segment; or it has none within two seconds of the
span, as far as that is not in the future. -/
def Clear (now : Option ℚ) (path : String) (stat : Stat) (far : Far) : Prop :=
  (published run cfg now path stat far).1 ≠ 0 ∨ Archived cfg stat (published run cfg now path stat far).2 ∨
    ∀ f ∈ (published run cfg now path stat far).2.archive,
      f.producerTimestamp < (segmentSpan stat cfg.segmentSeconds now far.time).1 - 2 ∨
        (segmentSpan stat cfg.segmentSeconds now far.time).2 + 2 < f.producerTimestamp

theorem upload_eq_zero {now : Option ℚ} {path : String} {stat : Stat} {far : Far} :
    (upload run cfg now path stat far).1 = 0 ↔ (published run cfg now path stat far).1 = 0 ∧
      ∃ f ∈ (published run cfg now path stat far).2.archive,
        (segmentSpan stat cfg.segmentSeconds now far.time).1 - 2 ≤ f.producerTimestamp ∧
          f.producerTimestamp ≤ (segmentSpan stat cfg.segmentSeconds now far.time).2 + 2 := by
  unfold upload published
  dsimp only
  generalize segmentSpan stat cfg.segmentSeconds now far.time = span
  generalize run (buildUploadArgv path cfg span.1) far = r
  by_cases failed : r.1 ≠ 0
  · rw [if_pos failed]
    simp [failed]
  · have listed : acknowledged (listFragments r.2.archive (span.1 - 5) (span.2 + 5)) span.1 span.2 = true ↔
        ∃ f ∈ r.2.archive, span.1 - 2 ≤ f.producerTimestamp ∧ f.producerTimestamp ≤ span.2 + 2 := by
      unfold acknowledged listFragments
      simp only [List.any_eq_true, List.mem_filter, decide_eq_true_eq]
      constructor
      · rintro ⟨f, ⟨inside, -⟩, near⟩
        exact ⟨f, inside, near⟩
      · rintro ⟨f, inside, near⟩
        -- the listing reaches further than the slack
        exact ⟨f, ⟨inside, by linarith [near.1], by linarith [near.2]⟩, near⟩
    rw [if_neg failed, ← listed]
    by_cases acks : acknowledged (listFragments r.2.archive (span.1 - 5) (span.2 + 5)) span.1 span.2 = true
    · rw [if_pos acks]
      simp [acks, Classical.not_not.mp failed]
    · rw [if_neg acks]
      simp [acks]

theorem upload_snd (now : Option ℚ) (path : String) (stat : Stat) (far : Far) :
    (upload run cfg now path stat far).2 = (published run cfg now path stat far).2 := by
  unfold upload published
  dsimp only
  split
  · rfl
  · split <;> rfl

/-- An acknowledged segment is in the archive exactly when nothing else could have acknowledged it. -/
theorem archived_iff_clear (now : Option ℚ) (path : String) (stat : Stat) (far : Far) :
    ((upload run cfg now path stat far).1 = 0 → Archived cfg stat (upload run cfg now path stat far).2) ↔
      Clear run cfg now path stat far := by
  rw [upload_eq_zero, upload_snd]
  unfold Clear
  constructor
  · intro holds
    by_cases failed : (published run cfg now path stat far).1 = 0
    · by_cases archived : Archived cfg stat (published run cfg now path stat far).2
      · exact .inr (.inl archived)
      · refine .inr (.inr fun f inside => ?_)
        by_contra near
        rw [not_or, not_lt, not_lt] at near
        exact archived (holds ⟨failed, f, inside, near⟩)
    · exact .inl failed
  · rintro (failed | archived | none) ⟨ran, f, inside, near⟩
    · exact absurd ran failed
    · exact archived
    · obtain early | late := none f inside
      · exact absurd near.1 (not_le.mpr early)
      · exact absurd near.2 (not_le.mpr late)

end Upload

/-! ## A drain -/

section Drain

variable {W : Type} (upload : String → W → Bool × W)

/-- The uploads of a drain, each with the world that it finds. -/
def calls : Nat → List (String × Bytes) → W → List (String × W)
  | 0, _, _ => []
  | _ + 1, [], _ => []
  | budget + 1, seg :: rest, world =>
    let answer := upload seg.1 world
    (seg.1, world) :: if answer.1 then calls budget rest answer.2 else []

theorem acknowledges_eq_calls (budget : Nat) (segments : List (String × Bytes)) (world : W) :
    (SpoolAccounts.acknowledges upload budget segments world).map Prod.fst =
      ((calls upload budget segments world).filter fun call => (upload call.1 call.2).1).map Prod.fst := by
  induction segments generalizing budget world with
  | nil => cases budget <;> rfl
  | cons seg rest ih =>
    cases budget with
    | zero => rfl
    | succ budget =>
      unfold SpoolAccounts.acknowledges calls
      by_cases acks : (upload seg.1 world).1 = true
      · simp only [acks, if_true, List.map_cons, List.filter_cons, ih]
      · simp [acks]

end Drain

section Spool

variable (run : List String → Far → Int × Far) (cfg : UploadConfig) (stat : String → Stat)

/-- The uploads of a drain of the spool. -/
def uploads (spool : Spool) (budgetPerTick : Int) (far : Far) : List (String × Far) :=
  calls (uploadCmd run cfg stat) budgetPerTick.toNat spool.pending far

end Spool

/-! ## A neighbour's fragment -/

def camera : UploadConfig := ⟨"eu-central-1", 24, 600, "cam-01"⟩

/-- The pipeline says that it is done, and nothing arrives. -/
def lost : List String → Far → Int × Far := fun _ far => (0, far)

/-- Two segments of ten minutes. -/
def recorded (path : String) : Stat := if path = "1757350800-00000.mp4" then ⟨1000600, none⟩ else ⟨1001200, none⟩

def twoSegments : Spool := ⟨1000, .dropOldest, [("1757350800-00000.mp4", [0]), ("1757350800-00001.mp4", [0])], 0⟩

end EdgeVms.Verified.Acknowledged
