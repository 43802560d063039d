import EdgeVms.Verified.Platform.EventRows

/-! # Where an event comes from

The answer to a query says of each event where it was recorded, when, by whom and whether
its writer was fenced; then the event's own fields are merged over it.  `Unclaimed` is the
condition on these fields under which the index has the last word.
-/

namespace EdgeVms.Verified.EventIdentity

open Process Python Platform EventIndex EventRows

/-- What an answer says of an event by the names of the index. -/
def identity : List String := ["subsystem", "unit", "epoch", "t", "kind", "server", "bucket", "fenced"]

/-- The names that are left to an event: its time, its kind and its camera are columns. -/
def claimable : List String := ["subsystem", "unit", "epoch", "server", "bucket", "fenced"]

/-- A field of the event has one of the names only with the value that the index has for it. -/
def Unclaimed (query : Query) (row : EventRow) : Prop :=
  ∀ name ∈ claimable, ∀ value, row.fields.get? name = some value → (query.provenance row).get? name = some value

/-- The answer says of the event what the index says. -/
def Authoritative (query : Query) (row : EventRow) (answer : Dict Value) : Prop :=
  ∀ name ∈ identity, answer.get? name = (query.provenance row).get? name

/-! ## Stored rows -/

/-- Every row is that of a line that was read, in its bucket. -/
def Recorded (box : Box) : Prop :=
  ∀ row ∈ box.tables.events, ∃ reading ∈ box.readings, ∃ line ∈ reading.lines.val, ∃ subsystem unit epoch,
    rowOf reading.server subsystem unit epoch reading.path line = .ok row

theorem recorded_kept : Kept Recorded where
  moved recorded tables readings := by
    intro row stored
    rw [tables] at stored
    obtain ⟨reading, answered, made⟩ := recorded row stored
    exact ⟨reading, readings answered, made⟩
  insert recorded answered made done := by
    obtain ⟨-, rfl⟩ := insert_ok done
    intro row stored
    obtain old | new := List.mem_append.mp stored
    · exact recorded row old
    · obtain ⟨line, inside, worked⟩ := of_mem_mapM_ok made new
      exact ⟨_, answered, line, inside, _, _, _, worked⟩
  clear := nofun

/-- The columns of a row are those of its bucket and of the line's time, kind and camera; the rest are its fields. -/
theorem rowOf_inv {server subsystem unit path : String} {epoch : Int} {line : Line} {row : EventRow}
    (made : rowOf server subsystem unit epoch path line = .ok row) :
    row.subsystem = subsystem ∧ row.unit = unit ∧ row.epoch = epoch ∧ row.server = server ∧ row.path = path ∧
      camOf unit line = .ok row.cam ∧ (line.item "t" >>= Value.toFloat) = .ok row.t ∧ line.item "kind" = .ok row.kind ∧
      row.fields = line.filter fun entry => entry.1 ∉ ["t", "kind", "cam"] := by
  simp only [rowOf, bind_eq_ok] at made
  obtain ⟨cam, camera, value, found, t, time, kind, kinds, ends⟩ := made
  cases ends
  exact ⟨rfl, rfl, rfl, rfl, rfl, camera, bind_eq_ok.mpr ⟨value, found, time⟩, kinds, rfl⟩

theorem fields_get? {server subsystem unit path : String} {epoch : Int} {line : Line} {row : EventRow}
    (made : rowOf server subsystem unit epoch path line = .ok row) (name : String) :
    row.fields.get? name = if name ∈ ["t", "kind", "cam"] then none else line.get? name := by
  obtain ⟨-, -, -, -, -, -, -, -, fields⟩ := rowOf_inv made
  rw [fields, Dict.get?_filter fun key => key ∉ ["t", "kind", "cam"]]
  by_cases column : name ∈ ["t", "kind", "cam"]
  · rw [if_pos column, if_neg fun keeps => absurd column (of_decide_eq_true keeps)]
  · rw [if_neg column, if_pos (decide_eq_true column)]

/-! ## Answers -/

theorem mem_identity {name : String} : name ∈ identity ↔ name ∈ claimable ∨ name = "t" ∨ name = "kind" := by
  simp only [identity, claimable, List.mem_cons, List.not_mem_nil, or_false]
  tauto

/-- What an answer says by a name: the field of the event, if it has one so named. -/
theorem answer_get? (query : Query) (row : EventRow) (name : String) :
    (query.answer row).get? name = (row.fields.get? name).or ((query.provenance row).get? name) :=
  Dict.get?_update _ _ _

theorem column_unclaimed {row : EventRow} {server subsystem unit path : String} {epoch : Int} {line : Line}
    (made : rowOf server subsystem unit epoch path line = .ok row) {name : String}
    (column : name = "t" ∨ name = "kind") :
    row.fields.get? name = none := by
  rw [fields_get? made]
  obtain rfl | rfl := column <;> rfl

theorem authoritative_iff {row : EventRow} {server subsystem unit path : String} {epoch : Int} {line : Line}
    (made : rowOf server subsystem unit epoch path line = .ok row) (query : Query) :
    Authoritative query row (query.answer row) ↔ Unclaimed query row := by
  constructor
  · intro agrees name listed value claimed
    have said := agrees name (mem_identity.mpr (.inl listed))
    rw [answer_get?, claimed] at said
    exact said.symm
  · intro unclaimed name listed
    rw [answer_get?]
    obtain own | column := mem_identity.mp listed
    · cases claimed : row.fields.get? name with
      | none => rfl
      | some value => exact (unclaimed name own value claimed).symm
    · rw [column_unclaimed made column]
      rfl

/-- Rows of two lines of one bucket that have the same time, kind and camera have the same columns. -/
theorem provenance_congr {row row' : EventRow} {server subsystem unit path : String} {epoch : Int} {line line' : Line}
    (made : rowOf server subsystem unit epoch path line = .ok row)
    (made' : rowOf server subsystem unit epoch path line' = .ok row')
    (same : ∀ name ∈ ["t", "kind", "cam"], line.get? name = line'.get? name) (query : Query) :
    query.provenance row = query.provenance row' := by
  obtain ⟨subsystem_eq, unit_eq, epoch_eq, server_eq, path_eq, cam, t, kind, -⟩ := rowOf_inv made
  obtain ⟨subsystem_eq', unit_eq', epoch_eq', server_eq', path_eq', cam', t', kind', -⟩ := rowOf_inv made'
  have item : ∀ name ∈ ["t", "kind", "cam"], line.item name = line'.item name := by
    intro name listed
    rw [Dict.item, Dict.item, same name listed]
  have cam_eq : row.cam = row'.cam := by
    have cams : camOf unit line = camOf unit line' := by
      simp only [camOf, Dict.getD, same "cam" (by simp)]
    exact Except.ok.inj (cam.symm.trans (cams.trans cam'))
  have t_eq : row.t = row'.t := by
    rw [item "t" (by simp)] at t
    exact Except.ok.inj (t.symm.trans t')
  have kind_eq : row.kind = row'.kind := by
    rw [item "kind" (by simp)] at kind
    exact Except.ok.inj (kind.symm.trans kind')
  rw [Query.provenance, Query.provenance, subsystem_eq, subsystem_eq', unit_eq, unit_eq', epoch_eq, epoch_eq',
    server_eq, server_eq', path_eq, path_eq', cam_eq, t_eq, kind_eq]

/-! ## Runs -/

/-- A pass as far as its `n`-th request, or the events of removed buckets forgotten. -/
inductive Step where
  | pass (pass : Pass) (n : Nat)
  | forget (server : String) (paths : List String)

def step (lostAfter : ℚ) (box : Box) : Step → Box
  | .pass pass n => (Proc.after EventIndex.handler n (pass.program lostAfter, box)).2
  | .forget server paths => { box with tables := box.tables.forget server paths }

theorem recorded_step (lostAfter : ℚ) {box : Box} (recorded : Recorded box) (event : Step) :
    Recorded (step lostAfter box event) := by
  cases event with
  | pass pass n =>
    have tends : Tends Recorded (pass.program lostAfter) box := by
      cases pass with
      | tail resources => exact tends_tail recorded_kept _ _ _ box
      | rebuild resources => exact tends_rebuild recorded_kept _ _ box
    exact Safe.after_keeps Recorded (fun _ _ _ => rfl) (fun _ _ kept holds => kept holds) n tends recorded
  | forget server paths => exact fun row stored => recorded row (List.mem_of_mem_filter stored)

theorem recorded_run (lostAfter : ℚ) (site : Nat → Site) (events : List Step) :
    Recorded (events.foldl (step lostAfter) (.new site)) := by
  have along : Along (step lostAfter) (fun _ _ => True) events (.new site) := .always (fun _ _ => trivial) _ _
  have first : Recorded (.new site) := fun row stored => absurd stored List.not_mem_nil
  have kept := along.keeps (fun box event _ (recorded : Recorded box) => recorded_step lostAfter recorded event) first
  exact kept

theorem mem_rows {query : Query} {tables : Tables} {row : EventRow} (found : row ∈ query.rows tables) :
    row ∈ tables.events := by
  have inside : row ∈ (tables.events.filter query.selects).insertionSort fun left right => ¬ right.t.lt left.t := by
    unfold Query.rows at found
    dsimp only at found
    split at found
    · exact List.mem_of_mem_take found
    · exact found
  exact List.mem_of_mem_filter ((List.mem_insertionSort _).mp inside)

def boast : Line := [("t", .float (.finite 100)), ("kind", .str "motion"), ("fenced", .bool false)]

def plain : Line := [("t", .float (.finite 100)), ("kind", .str "motion"), ("score", .int 9)]

/-- One bucket of camera 7, with one line. -/
def oneBucket (line : Line) : Site where
  wall := 1000
  database _ _ := .ok ()
  buckets _ subsystem unit := .ok [⟨subsystem, unit, 1, 0, 600, "vms/7/e1/19700101T000000Z.events.jsonl", 1⟩]
  mirrored _ _ := .error .unreachable
  lines _ _ _ := .ok ⟨[line], by simp⟩

def indexed : List Step := [.pass (.tail [("a", ⟨"a", 1000, "http://a", [("vms", ["7"])], []⟩)]) 20]

/-- Epoch 2 of the camera has begun. -/
def whole : Query where
  t0 := 0
  t1 := 600
  currentEpochs _ _ := some 2

def isFenced (answer : Dict Value) : Option Bool :=
  match answer.get? "fenced" with
  | some (.bool fenced) => some fenced
  | _ => none

end EdgeVms.Verified.EventIdentity
