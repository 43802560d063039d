import EdgeVms.Cluster.Placer
import EdgeVms.Process.Run
import EdgeVms.Verified.Cluster.Restorable
import Mathlib.Data.List.Induction
import Mathlib.Tactic.Linarith

/-! # Is the placement stored?

The placer keeps each placement twice, in memory and in a row.  `SoundBut` says
that the two agree and that every camera is well placed, but for the cameras that
a Node under retirement has left to place.
-/

namespace EdgeVms.Verified

open Process Python Cluster

namespace StoredPlacement

open Placer
open Restore (parseInt_toString)

variable {double : ℚ → ℚ} {cameras : Table PCamera}

/-! ## Paths and rows -/

theorem toList_path (c : Int) : (path c).toList = "placement/".toList ++ (toString c).toList := by
  rw [path, String.toList_append]

theorem afterSlash_path (c : Int) : afterSlash (path c) = toString c := by
  have pieces : "placement/".toList = ['p', 'l', 'a', 'c', 'e', 'm', 'e', 'n', 't', '/'] := by decide
  rw [afterSlash, toList_path, pieces]
  simp

theorem camera_of_path (c : Int) : parseInt (afterSlash (path c)) = c := by
  rw [afterSlash_path, parseInt_toString]

theorem path_inj {c c' : Int} (same : path c = path c') : c = c' := by
  rw [← camera_of_path c, same, camera_of_path]

theorem path_ne (c : Int) : path c ≠ "placement" := by
  intro same
  have lengths := congrArg (fun text : String => text.toList.length) same
  rw [toList_path, List.length_append] at lengths
  have prefix_ : "placement/".toList.length = 10 := by decide
  have whole : "placement".toList.length = 9 := by decide
  omega

/-- What the rows say of a camera. -/
def rowOf (p : Placer) (c : Int) : Option Placement := placementOf (p.vars.table.read (path c))

/-- Under `placement/` there are rows of cameras only. -/
def Canonical (table : Versioned String fun _ => Items) : Prop :=
  ∀ key, "placement/".toList <+: key.toList → table.read key ≠ none → ∃ c, key = path c

@[simp] theorem placementOf_rowItems {pl : Placement} (named : pl.node ≠ "") :
    placementOf (some (rowItems pl)) = some pl := by
  have node : (rowItems pl).getD "node" "" = pl.node := rfl
  have reason : (rowItems pl).getD "reason" "" = pl.reason := rfl
  have rev : (rowItems pl).getD "rev" "" = toString pl.rev := rfl
  simp only [placementOf, node, reason, rev, if_neg named, parseInt_toString]

@[simp] theorem placementOf_removedItems (rev : Int) : placementOf (some (removedItems rev)) = none := rfl

/-! ## Calls -/

/-- The first `k` calls are done. -/
def Goes (k : Nat) (calls : List Outcome) : Prop := ∀ i < k, calls.getD i .done = .done

instance (k : Nat) (calls : List Outcome) : Decidable (Goes k calls) := by unfold Goes; infer_instance

theorem getD_drop (calls : List Outcome) (k i : Nat) :
    (calls.drop k).getD i .done = calls.getD (k + i) .done := by
  simp [List.getD_eq_getElem?_getD, List.getElem?_drop]

theorem goes_drop {calls : List Outcome} {k n : Nat} :
    Goes (k + n) calls ↔ Goes k calls ∧ Goes n (calls.drop k) := by
  constructor
  · intro goes
    refine ⟨fun i less => goes i (by omega), fun i less => ?_⟩
    rw [getD_drop]
    exact goes (k + i) (by omega)
  · rintro ⟨first, later⟩ i less
    by_cases early : i < k
    · exact first i early
    · have goes := later (i - k) (by omega)
      rwa [getD_drop, show k + (i - k) = i by omega] at goes

theorem goes_one {calls : List Outcome} : Goes 1 calls ↔ calls.headD .done = .done := by
  constructor
  · intro goes
    have first := goes 0 (by omega)
    cases calls <;> exact first
  · intro first i less
    obtain rfl : i = 0 := by omega
    cases calls <;> exact first

theorem goes_two {calls : List Outcome} :
    Goes 2 calls ↔ calls.headD .done = .done ∧ calls.tail.headD .done = .done := by
  rw [show 2 = 1 + 1 from rfl, goes_drop, goes_one, goes_one, List.drop_one]

/-- What a call leaves alone: all but the rows, and all rows but the one of the revision. -/
structure Quiet (p p' : Placer) : Prop where
  nodes : p'.nodes = p.nodes
  placed : p'.placed = p.placed
  rows : ∀ key ≠ "placement", p'.vars.table.read key = p.vars.table.read key

/-- The row of a camera is written, and the memory is changed. -/
structure Written (c : Int) (items : Items) (change : Table Placement → Table Placement) (p p' : Placer) : Prop where
  nodes : p'.nodes = p.nodes
  placed : p'.placed = change p.placed
  row : p'.vars.table.read (path c) = some items
  others : ∀ key ≠ path c, key ≠ "placement" → p'.vars.table.read key = p.vars.table.read key

/-- One call fewer ahead. -/
def past (p : Placer) : Placer := { p with vars := p.vars.next }

theorem get_leaves {key : String} {returned : Option Items × Nat → Placer → Prop} {failed : Placer → Prop} {p : Placer}
    (goes : p.vars.call = .done → returned (p.vars.table.read key, p.vars.table.version key) (past p))
    (fails : p.vars.call ≠ .done → failed (past p)) : Leaves (calling (Vars.get key)) returned failed p := by
  unfold calling
  rw [Leaves.of, Vars.get]
  cases outcome : p.vars.call with
  | done => exact goes outcome
  | failed => exact fails (by rw [outcome]; decide)
  | lost => exact fails (by rw [outcome]; decide)

theorem put_leaves {key : String} {items : Items} {cas : Option Nat} {returned : Nat → Placer → Prop}
    {failed : Placer → Prop} {p : Placer} (stands : p.vars.table.Matches key cas)
    (goes : ∀ index, p.vars.call = .done →
      returned index { p with vars := { p.vars.next with table := p.vars.table.write key items } })
    (refused : p.vars.call = .failed → failed (past p))
    (lost : p.vars.call = .lost →
      failed { p with vars := { p.vars.next with table := p.vars.table.write key items } }) :
    Leaves (calling (Vars.put key items cas)) returned failed p := by
  unfold calling
  rw [Leaves.of, Vars.put]
  cases outcome : p.vars.call with
  | done =>
    simp only [reduceCtorEq, if_false, if_pos stands, if_true]
    exact goes _ outcome
  | failed => exact refused outcome
  | lost =>
    simp only [reduceCtorEq, if_false, if_pos stands]
    exact lost outcome

theorem rev_leaves (p : Placer) :
    Leaves rev (fun _ p' => Quiet p p' ∧ Goes 2 p.vars.calls ∧ p'.vars.calls = p.vars.calls.drop 2)
      (fun p' => Quiet p p' ∧ ¬ Goes 2 p.vars.calls) p := by
  have calls : p.vars.calls.tail.tail = p.vars.calls.drop 2 := by rw [← List.drop_one, ← List.drop_one, List.drop_drop]
  have quiet (items : Items) : Quiet p { past p with
      vars := { (past p).vars.next with table := p.vars.table.write "placement" items } } :=
    ⟨rfl, rfl, fun key other => Versioned.read_write_other _ _ other⟩
  rw [goes_two]
  unfold rev
  rw [Leaves.bind]
  apply get_leaves
  · intro first
    dsimp only
    rw [Leaves.bind]
    apply put_leaves
    · intro expected names
      cases names
    · intro index second
      exact ⟨quiet _, ⟨first, second⟩, calls⟩
    · intro second
      refine ⟨⟨rfl, rfl, fun _ _ => rfl⟩, fun goes => ?_⟩
      have done : (past p).vars.call = .done := goes.2
      rw [second] at done
      cases done
    · intro second
      refine ⟨quiet _, fun goes => ?_⟩
      have done : (past p).vars.call = .done := goes.2
      rw [second] at done
      cases done
  · intro first
    exact ⟨⟨rfl, rfl, fun _ _ => rfl⟩, fun goes => first goes.1⟩

/-- The write of a row, with what it changes in memory. -/
def writeRow (c : Int) (items : Items) (change : Table Placement → Table Placement) : Op Unit := do
  let (_, idx) ← calling (Vars.get (path c))
  let _ ← calling (Vars.put (path c) items (some idx))
  modify fun p => { p with placed := change p.placed }

theorem store_eq (c : Int) (pl : Placement) : store c pl = writeRow c (rowItems pl) (·.set c pl) := rfl

theorem writeRow_leaves (c : Int) (items : Items) (change : Table Placement → Table Placement) (p : Placer) :
    Leaves (writeRow c items change)
      (fun _ p' => Written c items change p p' ∧ Goes 2 p.vars.calls ∧ p'.vars.calls = p.vars.calls.drop 2)
      (fun p' => (Quiet p p' ∨ Goes 1 p.vars.calls ∧ p.vars.calls.getD 1 .done = .lost) ∧ ¬ Goes 2 p.vars.calls) p := by
  have calls : p.vars.calls.tail.tail = p.vars.calls.drop 2 := by rw [← List.drop_one, ← List.drop_one, List.drop_drop]
  have next : (past p).vars.call = p.vars.calls.getD 1 .done := by
    show p.vars.calls.tail.headD .done = _
    match p.vars.calls with
    | [] => rfl
    | [_] => rfl
    | _ :: _ :: _ => rfl
  rw [goes_two, goes_one]
  unfold writeRow
  rw [Leaves.bind]
  apply get_leaves
  · intro first
    dsimp only
    rw [Leaves.bind]
    apply put_leaves
    · exact Versioned.matches_version _ _
    · intro index second
      rw [Leaves.modify]
      refine ⟨⟨rfl, rfl, Versioned.read_write_self .., fun key other _ => ?_⟩, ⟨first, second⟩, calls⟩
      exact Versioned.read_write_other _ _ other
    · intro second
      refine ⟨.inl ⟨rfl, rfl, fun _ _ => rfl⟩, fun goes => ?_⟩
      have done : (past p).vars.call = .done := goes.2
      rw [second] at done
      cases done
    · intro second
      refine ⟨.inr ⟨first, next ▸ second⟩, fun goes => ?_⟩
      have done : (past p).vars.call = .done := goes.2
      rw [second] at done
      cases done
  · intro first
    exact ⟨.inl ⟨rfl, rfl, fun _ _ => rfl⟩, fun goes => first goes.1⟩

/-- A new revision, and then the row: all four calls are done, or nothing that matters has changed, or the
acknowledgement of the row is lost. -/
theorem revised_leaves {c : Int} {items : Int → Items} {change : Int → Table Placement → Table Placement}
    {returned : Int → Placer → Prop} {failed : Placer → Prop} {p : Placer}
    (told : Goes 3 p.vars.calls → p.vars.calls.getD 3 .done ≠ .lost)
    (returns : ∀ rev p', Written c (items rev) (change rev) p p' → Goes 4 p.vars.calls →
      p'.vars.calls = p.vars.calls.drop 4 → returned rev p')
    (fails : ∀ p', Quiet p p' → ¬ Goes 4 p.vars.calls → failed p') :
    Leaves rev (fun rev => Leaves (writeRow c (items rev) (change rev)) (fun _ => returned rev) failed) failed p := by
  refine (rev_leaves p).mono (fun rev p₁ ⟨quiet, goes, calls⟩ => ?_) fun p₁ ⟨quiet, stops⟩ =>
    fails p₁ quiet fun goes => stops (goes_drop.mp (show Goes (2 + 2) _ from goes)).1
  refine (writeRow_leaves c (items rev) (change rev) p₁).mono (fun _ p₂ ⟨written, goes', calls'⟩ => ?_)
    fun p₂ ⟨either, stops⟩ => ?_
  · have all : Goes 4 p.vars.calls := goes_drop.mpr (show Goes 2 _ ∧ Goes 2 _ from ⟨goes, calls ▸ goes'⟩)
    refine returns rev p₂ ⟨written.nodes.trans quiet.nodes, ?_, written.row, fun key other apart => ?_⟩ all ?_
    · rw [written.placed, quiet.placed]
    · rw [written.others key other apart, quiet.rows key apart]
    · rw [calls', calls, List.drop_drop]
  · rw [calls] at either stops
    have some_ : ¬ Goes 4 p.vars.calls := fun all => stops (goes_drop.mp (show Goes (2 + 2) _ from all)).2
    obtain quiet' | ⟨third, fourth⟩ := either
    · refine fails p₂ ⟨quiet'.nodes.trans quiet.nodes, quiet'.placed.trans quiet.placed, fun key other => ?_⟩ some_
      rw [quiet'.rows key other, quiet.rows key other]
    · rw [getD_drop] at fourth
      exact absurd fourth (told (goes_drop.mpr (show Goes 2 _ ∧ Goes 1 _ from ⟨goes, third⟩)))

/-! ## Loads -/

/-- The cameras on a Node. -/
def on (placed : Table Placement) (node : String) : List Int :=
  (placed.filter fun entry => entry.2.node = node).map Prod.fst

/-- The load of a list of cameras. -/
def total (cameras : Table PCamera) (ids : List Int) : ℚ := (ids.map fun c => (cameraAt cameras c).load).sum

/-- No load is negative, and a double sums the loads of different cameras without rounding. -/
structure Exact (double : ℚ → ℚ) (cameras : Table PCamera) : Prop where
  loads : ∀ entry ∈ cameras, 0 ≤ entry.2.load
  sums : ∀ ids : List Int, ids.Nodup → double (total cameras ids) = total cameras ids

/-- A Node under its own name, with a capacity from which a double subtracts loads without rounding. -/
structure Fits (double : ℚ → ℚ) (cameras : Table PCamera) (entry : String × PNode) : Prop where
  named : entry.2.id = entry.1
  nonempty : entry.1 ≠ ""
  free : ∀ ids : List Int, ids.Nodup →
    double (entry.2.capacity - total cameras ids) = entry.2.capacity - total cameras ids
  nonneg : 0 ≤ double (entry.2.capacity + 1 / 10 ^ 9)
  slack : entry.2.capacity ≤ double (entry.2.capacity + 1 / 10 ^ 9)

theorem Exact.load_nonneg (exact_ : Exact double cameras) (c : Int) : 0 ≤ (cameraAt cameras c).load := by
  unfold cameraAt
  cases known : cameras.get? c with
  | none => exact le_refl (0 : ℚ)
  | some cam => exact exact_.loads _ (Table.mem_of_get? known)

theorem total_cons (c : Int) (ids : List Int) :
    total cameras (c :: ids) = (cameraAt cameras c).load + total cameras ids := by
  rw [total, List.map_cons, List.sum_cons, total]

theorem total_perm {ids ids' : List Int} (perm : ids.Perm ids') : total cameras ids = total cameras ids' :=
  (perm.map _).sum_eq

theorem total_filter_le (exact_ : Exact double cameras) (keep : Int → Bool) (ids : List Int) :
    total cameras (ids.filter keep) ≤ total cameras ids := by
  induction ids with
  | nil => exact le_refl _
  | cons c rest ih =>
    have load := exact_.load_nonneg c
    rw [List.filter_cons]
    split
    · rw [total_cons, total_cons]
      linarith
    · rw [total_cons]
      linarith

theorem nodup_on {placed : Table Placement} (distinct : placed.keys.Nodup) (node : String) : (on placed node).Nodup :=
  distinct.sublist (List.filter_sublist.map Prod.fst)

/-- A double sums up the load of a Node exactly. -/
theorem loadOf_eq (exact_ : Exact double cameras) {placed : Table Placement} (distinct : placed.keys.Nodup)
    (node : String) : loadOf double placed node cameras = total cameras (on placed node) := by
  induction placed using List.reverseRecOn with
  | nil => rfl
  | append_singleton placed entry ih =>
    obtain ⟨c, pl⟩ := entry
    have before : (Table.keys placed).Nodup := distinct.sublist ((List.sublist_append_left _ _).map Prod.fst)
    rw [loadOf, List.foldl_append, ← loadOf, ih before, List.foldl_cons, List.foldl_nil]
    have filtered : on (placed ++ [(c, pl)]) node = on placed node ++ if pl.node = node then [c] else [] := by
      unfold on
      rw [List.filter_append, List.map_append]
      by_cases here : pl.node = node <;> simp [here]
    rw [filtered]
    have whole := exact_.sums _ (filtered ▸ nodup_on distinct node)
    by_cases here : pl.node = node
    · rw [if_pos here] at whole ⊢
      have sum : total cameras (on placed node ++ [c]) =
          total cameras (on placed node) + (cameraAt cameras c).load := by
        rw [total_perm List.perm_append_comm, List.singleton_append, total_cons, add_comm]
      cases known : cameras.get? c with
      | none =>
        have nothing : (cameraAt cameras c).load = 0 := by rw [cameraAt, known]; rfl
        rw [sum, nothing, add_zero]
      | some cam =>
        have load : (cameraAt cameras c).load = cam.load := by rw [cameraAt, known]; rfl
        dsimp only
        rw [if_pos here, ← load, ← sum, whole]
    · rw [if_neg here, List.append_nil]
      cases cameras.get? c with
      | none => rfl
      | some cam =>
        dsimp only
        rw [if_neg here]

theorem on_pop (placed : Table Placement) (c : Int) (node : String) :
    on (placed.pop c) node = (on placed node).filter fun c' => c' ≠ c := by
  unfold on Table.pop
  rw [List.filter_map, List.filter_filter, List.filter_filter]
  congr 1
  apply List.filter_congr
  intro entry _
  exact Bool.and_comm _ _

theorem loadOf_pop_le (exact_ : Exact double cameras) {placed : Table Placement} (distinct : placed.keys.Nodup)
    (c : Int) (node : String) : loadOf double (placed.pop c) node cameras ≤ loadOf double placed node cameras := by
  rw [loadOf_eq exact_ distinct, loadOf_eq exact_ (Table.nodup_pop distinct c), on_pop]
  exact total_filter_le exact_ _ _

/-- A camera that goes somewhere adds its load there, and nowhere else. -/
theorem loadOf_set (exact_ : Exact double cameras) {placed : Table Placement} (distinct : placed.keys.Nodup)
    (c : Int) (pl : Placement) (node : String) :
    loadOf double (placed.set c pl) node cameras =
      (if pl.node = node then (cameraAt cameras c).load else 0) + loadOf double (placed.pop c) node cameras := by
  rw [loadOf_eq exact_ (Table.nodup_set distinct c pl), loadOf_eq exact_ (Table.nodup_pop distinct c)]
  have perm : (on (placed.set c pl) node).Perm (on ((c, pl) :: placed.pop c) node) :=
    ((Table.set_perm distinct c pl).filter _).map _
  rw [total_perm perm]
  unfold on
  rw [List.filter_cons]
  by_cases here : pl.node = node
  · rw [if_pos (decide_eq_true here), if_pos here, List.map_cons, total_cons]
  · rw [if_neg (by simpa using here), if_neg here, zero_add]

/-! ## Well placed -/

/-- All is well but for the cameras that are left to place. -/
structure SoundBut (double : ℚ → ℚ) (cameras : Table PCamera) (left : List Int) (p : Placer) : Prop where
  distinct : p.placed.keys.Nodup
  names : (p.nodes.map Prod.fst).Nodup
  fit : ∀ entry ∈ p.nodes, Fits double cameras entry
  room : ∀ entry ∈ p.nodes, loadOf double p.placed entry.1 cameras ≤ double (entry.2.capacity + 1 / 10 ^ 9)
  canonical : Canonical p.vars.table
  homes : ∀ c ∉ left, ∀ pl, p.placed.get? c = some pl →
    ∃ n, p.nodes.get? pl.node = some n ∧ (cameraAt cameras c).labels.subsetOf n.labels = true
  stored : ∀ c ∉ left, rowOf p c = p.placed.get? c

/-- All is well. -/
abbrev Sound (double : ℚ → ℚ) (cameras : Table PCamera) (p : Placer) : Prop := SoundBut double cameras [] p

theorem SoundBut.weaken {left : List Int} {p : Placer} (sound : SoundBut double cameras left p) (c : Int) :
    SoundBut double cameras (c :: left) p where
  distinct := sound.distinct
  names := sound.names
  fit := sound.fit
  room := sound.room
  canonical := sound.canonical
  homes c' other := sound.homes c' fun member => other (.tail _ member)
  stored c' other := sound.stored c' fun member => other (.tail _ member)

theorem SoundBut.facing {left : List Int} {p : Placer} (sound : SoundBut double cameras left p) (calls : List Outcome) :
    SoundBut double cameras left (p.facing calls) where
  __ := sound

theorem Quiet.canonical {p p' : Placer} (quiet : Quiet p p') (canonical : Canonical p.vars.table) :
    Canonical p'.vars.table := by
  intro key under there
  have apart : key ≠ "placement" := by
    rintro rfl
    exact absurd under (by decide)
  rw [quiet.rows key apart] at there
  exact canonical key under there

theorem SoundBut.quiet {left : List Int} {p p' : Placer} (sound : SoundBut double cameras left p) (quiet : Quiet p p') :
    SoundBut double cameras left p' where
  distinct := by rw [quiet.placed]; exact sound.distinct
  names := by rw [quiet.nodes]; exact sound.names
  fit := by rw [quiet.nodes]; exact sound.fit
  room := by rw [quiet.nodes, quiet.placed]; exact sound.room
  canonical := quiet.canonical sound.canonical
  homes := by rw [quiet.nodes, quiet.placed]; exact sound.homes
  stored c other := by
    rw [rowOf, quiet.rows _ (path_ne c), quiet.placed]
    exact sound.stored c other

namespace Written

variable {c : Int} {items : Items} {change : Table Placement → Table Placement} {p p' : Placer}

theorem canonical (written : Written c items change p p') (canonical : Canonical p.vars.table) :
    Canonical p'.vars.table := by
  intro key under there
  have apart : key ≠ "placement" := by
    rintro rfl
    exact absurd under (by decide)
  by_cases here : key = path c
  · exact ⟨c, here⟩
  · rw [written.others key here apart] at there
    exact canonical key under there

theorem rowOf_self (written : Written c items change p p') : rowOf p' c = placementOf (some items) := by
  rw [rowOf, written.row]

theorem rowOf_other (written : Written c items change p p') {c' : Int} (other : c' ≠ c) : rowOf p' c' = rowOf p c' := by
  rw [rowOf, written.others _ (fun same => other (path_inj same)) (path_ne c'), rowOf]

end Written

/-- A camera that was left to place has gone to a Node with room for it. -/
theorem SoundBut.settles {left : List Int} {c : Int} {pl : Placement} {p p' : Placer} {n : PNode}
    (exact_ : Exact double cameras) (sound : SoundBut double cameras (c :: left) p)
    (written : Written c (rowItems pl) (·.set c pl) p p') (known : p.nodes.get? pl.node = some n)
    (labelled : (cameraAt cameras c).labels.subsetOf n.labels = true)
    (room : (cameraAt cameras c).load + loadOf double (p.placed.pop c) pl.node cameras ≤
      double (n.capacity + 1 / 10 ^ 9)) :
    SoundBut double cameras left p' where
  distinct := by
    rw [written.placed]
    exact Table.nodup_set sound.distinct c pl
  names := by rw [written.nodes]; exact sound.names
  fit := by rw [written.nodes]; exact sound.fit
  room := by
    rw [written.nodes, written.placed]
    intro entry member
    rw [loadOf_set exact_ sound.distinct]
    split
    next here =>
      have same : n = entry.2 := by
        have found : p.nodes.get? entry.1 = some entry.2 := Dict.get?_of_mem sound.names member
        rw [← here, known] at found
        exact Option.some.inj found
      rw [← here, ← same]
      exact room
    next =>
      rw [zero_add]
      exact (loadOf_pop_le exact_ sound.distinct c entry.1).trans (sound.room entry member)
  canonical := written.canonical sound.canonical
  homes := by
    intro c' other pl' there
    rw [written.placed, Table.get?_set] at there
    rw [written.nodes]
    split at there
    next same =>
      subst same
      cases there
      exact ⟨n, known, labelled⟩
    next apart =>
      have outside : c' ∉ c :: left := by
        rw [List.mem_cons, not_or]
        exact ⟨fun same => apart same.symm, other⟩
      exact sound.homes c' outside pl' there
  stored := by
    intro c' other
    rw [written.placed, Table.get?_set]
    split
    next same =>
      subst same
      rw [written.rowOf_self]
      exact placementOf_rowItems (sound.fit _ (Dict.mem_of_get? known)).nonempty
    next apart =>
      rw [written.rowOf_other fun same => apart same.symm]
      apply sound.stored
      rw [List.mem_cons, not_or]
      exact ⟨fun same => apart same.symm, other⟩

/-- A camera is gone, in memory and in its row. -/
theorem SoundBut.forgets {left : List Int} {c : Int} {rev : Int} {p p' : Placer} (exact_ : Exact double cameras)
    (sound : SoundBut double cameras left p) (written : Written c (removedItems rev) (·.pop c) p p') :
    SoundBut double cameras left p' where
  distinct := by
    rw [written.placed]
    exact Table.nodup_pop sound.distinct c
  names := by rw [written.nodes]; exact sound.names
  fit := by rw [written.nodes]; exact sound.fit
  room := by
    rw [written.nodes, written.placed]
    intro entry member
    exact (loadOf_pop_le exact_ sound.distinct c entry.1).trans (sound.room entry member)
  canonical := written.canonical sound.canonical
  homes := by
    intro c' other pl there
    rw [written.placed, Table.get?_pop] at there
    rw [written.nodes]
    split at there
    next => cases there
    next => exact sound.homes c' other pl there
  stored := by
    intro c' other
    rw [written.placed, Table.get?_pop]
    split
    next same =>
      subst same
      exact written.rowOf_self
    next apart =>
      rw [written.rowOf_other fun same => apart same.symm]
      exact sound.stored c' other

/-- A camera that is left to place is gone from memory. -/
theorem SoundBut.popped {left : List Int} {c : Int} {p : Placer} (exact_ : Exact double cameras)
    (sound : SoundBut double cameras (c :: left) p) :
    SoundBut double cameras (c :: left) { p with placed := p.placed.pop c } where
  distinct := Table.nodup_pop sound.distinct c
  names := sound.names
  fit := sound.fit
  room entry member := (loadOf_pop_le exact_ sound.distinct c entry.1).trans (sound.room entry member)
  canonical := sound.canonical
  homes c' other pl there := by
    have apart : c ≠ c' := fun same => other (same ▸ .head _)
    rw [Table.get?_pop, if_neg apart] at there
    exact sound.homes c' other pl there
  stored c' other := by
    have apart : c ≠ c' := fun same => other (same ▸ .head _)
    rw [Table.get?_pop, if_neg apart]
    exact sound.stored c' other

/-! ## The choice -/

theorem nodeAt_of_mem {nodes : Dict PNode} {id : String} (member : id ∈ nodeIds nodes) :
    nodes.get? id = some (nodeAt nodes id) := by
  have there : id ∈ nodes.map Prod.fst := (List.perm_insertionSort _ _).subset member
  obtain ⟨n, known⟩ := Option.isSome_iff_exists.mp (Dict.mem_keys.mp there)
  rw [nodeAt, Dict.getD, known]
  rfl

/-- The Node that is best for a camera carries its labels and has room for it. -/
theorem best_some {nodes : Dict PNode} {placed : Table Placement} {cam : PCamera} {n : PNode} {free : ℚ}
    (chosen : best double nodes placed cam cameras = some (n, free)) :
    (∃ id, nodes.get? id = some n) ∧ cam.labels.subsetOf n.labels = true ∧
      free = double (n.capacity - loadOf double placed n.id cameras) ∧ cam.load ≤ free ∧ 0 < free := by
  let fits (found : Option (PNode × ℚ)) : Prop := ∀ n free, found = some (n, free) →
    n ∈ eligible nodes cam ∧ free = double (n.capacity - loadOf double placed n.id cameras) ∧ cam.load ≤ free ∧ 0 < free
  have all : fits (best double nodes placed cam cameras) := by
    unfold best
    refine List.foldlRecOn (motive := fits) _ _ (fun _ _ nothing => by cases nothing) ?_
    intro found holds n member n' free' chosen
    dsimp only at chosen
    split at chosen
    next better =>
      cases chosen
      refine ⟨member, rfl, better.1, lt_of_le_of_lt ?_ better.2⟩
      cases found with
      | none => exact le_refl (0 : ℚ)
      | some before => exact (holds before.1 before.2 rfl).2.2.2.le
    next => exact holds n' free' chosen
  obtain ⟨member, measured, room, positive⟩ := all n free chosen
  obtain ⟨listed, labelled⟩ := List.mem_filter.mp member
  obtain ⟨id, inside, rfl⟩ := List.mem_map.mp listed
  exact ⟨⟨id, nodeAt_of_mem inside⟩, labelled, measured, room, positive⟩

/-- A camera is placed as the map has it, if the map has it. -/
def AsMapped (cameras : Table PCamera) (cam : PCamera) : Prop := ∀ known ∈ cameras.get? cam.id, known = cam

instance (cam : PCamera) : Decidable (AsMapped cameras cam) := by unfold AsMapped; infer_instance

theorem asMapped_own {c : Int} (own : (cameraAt cameras c).id = c) : AsMapped cameras (cameraAt cameras c) := by
  intro known there
  rw [own, Option.mem_def] at there
  rw [cameraAt, there]
  rfl

theorem AsMapped.labels {cam : PCamera} (mapped : AsMapped cameras cam) {labels : Labels}
    (labelled : cam.labels.subsetOf labels = true) : (cameraAt cameras cam.id).labels.subsetOf labels = true := by
  unfold cameraAt
  cases known : cameras.get? cam.id with
  | none => rfl
  | some other =>
    obtain rfl := mapped other known
    exact labelled

theorem AsMapped.load {cam : PCamera} (mapped : AsMapped cameras cam) {room : ℚ} (fits : cam.load ≤ room)
    (positive : 0 < room) : (cameraAt cameras cam.id).load ≤ room := by
  unfold cameraAt
  cases known : cameras.get? cam.id with
  | none => exact positive.le
  | some other =>
    obtain rfl := mapped other known
    exact fits

/-- What there is to say of a camera that is placed anew. -/
theorem place_leaves (exact_ : Exact double cameras) {cam : PCamera} (mapped : AsMapped cameras cam) {left : List Int}
    {p : Placer} (absent : p.placed.get? cam.id = none) (sound : SoundBut double cameras (cam.id :: left) p)
    (told : Goes 3 p.vars.calls → p.vars.calls.getD 3 .done ≠ .lost) :
    Leaves (place double cam cameras)
      (fun _ p' => p' = p ∧ best double p.nodes p.placed cam cameras = none ∨
        ∃ n free reason rev, best double p.nodes p.placed cam cameras = some (n, free) ∧
          SoundBut double cameras left p' ∧ p'.nodes = p.nodes ∧ p'.placed = p.placed.set cam.id ⟨n.id, reason, rev⟩ ∧
          p'.vars.calls = p.vars.calls.drop 4)
      (fun p' => Quiet p p' ∧ ¬ Goes 4 p.vars.calls) p := by
  unfold place
  rw [Leaves.bind, Leaves.get]
  rw [absent]
  dsimp only
  cases chosen : best double p.nodes p.placed cam cameras with
  | none => exact .inl ⟨rfl, rfl⟩
  | some home =>
    obtain ⟨n, free⟩ := home
    dsimp only
    rw [Leaves.bind]
    simp only [Leaves.bind, Leaves.pure, store_eq]
    apply revised_leaves told
    · intro rev p' written _ calls
      obtain ⟨⟨id, known⟩, labelled, measured, room, positive⟩ := best_some chosen
      have fits := sound.fit _ (Dict.mem_of_get? known)
      have named : n.id = id := fits.named
      refine .inr ⟨n, free, _, rev, rfl, ?_, written.nodes, written.placed, calls⟩
      apply sound.settles exact_ written (n := n)
      · rw [named]
        exact known
      · exact mapped.labels labelled
      · have load := mapped.load room positive
        rw [measured, loadOf_eq exact_ sound.distinct, fits.free _ (nodup_on sound.distinct _),
          ← loadOf_eq exact_ sound.distinct] at load
        have less := loadOf_pop_le exact_ sound.distinct cam.id n.id
        have slack := fits.slack
        dsimp only at load slack ⊢
        linarith
    · intro p' quiet stops
      exact ⟨quiet, stops⟩

/-! ## The calls keep what they find -/

/-- No acknowledgement of a camera's row is lost, in so many rounds of four calls. -/
def Told (rounds : Nat) (calls : List Outcome) : Prop :=
  ∀ k < rounds, Goes (4 * k + 3) calls → calls.getD (4 * k + 3) .done ≠ .lost

instance (rounds : Nat) (calls : List Outcome) : Decidable (Told rounds calls) := by unfold Told; infer_instance

theorem Told.first {rounds : Nat} {calls : List Outcome} (told : Told (rounds + 1) calls) :
    Goes 3 calls → calls.getD 3 .done ≠ .lost := told 0 (by omega)

theorem Told.later {rounds : Nat} {calls : List Outcome} (told : Told (rounds + 1) calls) (goes : Goes 4 calls) :
    Told rounds (calls.drop 4) := by
  intro k less goes'
  have all : Goes (4 * (k + 1) + 3) calls := by
    rw [show 4 * (k + 1) + 3 = 4 + (4 * k + 3) by omega, goes_drop]
    exact ⟨goes, goes'⟩
  have acknowledged := told (k + 1) (by omega) all
  rwa [getD_drop, show 4 + (4 * k + 3) = 4 * (k + 1) + 3 by omega]

theorem place_sound (exact_ : Exact double cameras) {cam : PCamera} (mapped : AsMapped cameras cam) {p : Placer}
    (sound : Sound double cameras p) (told : Told 1 p.vars.calls) :
    Leaves (place double cam cameras) (fun _ => Sound double cameras) (Sound double cameras) p := by
  cases there : p.placed.get? cam.id with
  | some pl =>
    unfold place
    rw [Leaves.bind, Leaves.get, there]
    exact sound
  | none =>
    refine (place_leaves exact_ mapped there (sound.weaken cam.id) told.first).mono (fun _ p' ends => ?_)
      fun p' ⟨quiet, _⟩ => sound.quiet quiet
    obtain ⟨rfl, _⟩ | ⟨n, free, reason, rev, _, sound', _⟩ := ends
    · exact sound
    · exact sound'

theorem remove_sound (exact_ : Exact double cameras) (c : Int) {p : Placer} (sound : Sound double cameras p)
    (told : Told 1 p.vars.calls) :
    Leaves (remove c) (fun _ => Sound double cameras) (Sound double cameras) p := by
  unfold remove
  rw [Leaves.bind, Leaves.get]
  split
  next there =>
    have unfolded : (do
        let rev ← rev
        let (_, idx) ← calling (Vars.get (path c))
        let _ ← calling (Vars.put (path c) (removedItems rev) (some idx))
        modify fun p => { p with placed := p.placed.pop c } : Op PUnit) =
        rev >>= fun rev => writeRow c (removedItems rev) (·.pop c) := rfl
    rw [unfolded, Leaves.bind]
    apply revised_leaves told.first
    · intro rev p' written _ _
      exact sound.forgets exact_ written
    · intro p' quiet _
      exact sound.quiet quiet
  next => exact sound

theorem addNode_sound (exact_ : Exact double cameras) {n : PNode} {p : Placer} (sound : Sound double cameras p)
    (fresh : p.nodes.get? n.id = none) (fits : Fits double cameras (n.id, n)) :
    Sound double cameras { p with nodes := p.nodes.set n.id n } where
  distinct := sound.distinct
  names := Dict.nodup_keys_set sound.names n.id n
  fit entry member := by
    obtain rfl | old := Dict.mem_set member
    · exact fits
    · exact sound.fit entry old
  room entry member := by
    obtain rfl | old := Dict.mem_set member
    · have nobody : on p.placed n.id = [] := by
        rw [on, List.map_eq_nil_iff, List.filter_eq_nil_iff]
        rintro ⟨c, pl⟩ member here
        obtain ⟨n', known, _⟩ := sound.homes c List.not_mem_nil pl (Table.get?_of_mem sound.distinct member)
        have same : pl.node = n.id := of_decide_eq_true here
        rw [same, fresh] at known
        cases known
      rw [loadOf_eq exact_ sound.distinct, nobody]
      exact fits.nonneg
    · exact sound.room entry old
  canonical := sound.canonical
  homes c other pl there := by
    obtain ⟨n', known, labelled⟩ := sound.homes c other pl there
    have apart : pl.node ≠ n.id := by
      intro same
      rw [same, fresh] at known
      cases known
    exact ⟨n', by rw [Dict.get?_set_other _ _ apart, known], labelled⟩
  stored := sound.stored

/-! ## A Node is retired -/

/-- Each of the cameras finds a Node to go to, when they go one after the other. -/
def Housed (double : ℚ → ℚ) (cameras : Table PCamera) (nodes : Dict PNode) : Table Placement → List Int → Prop
  | _, [] => True
  | placed, c :: rest =>
    match best double nodes (placed.pop c) (cameraAt cameras c) cameras with
    | none => False
    | some (n, _) =>
      (cameraAt cameras c).id = c ∧ Housed double cameras nodes ((placed.pop c).set c ⟨n.id, "", 0⟩) rest

instance decidableHoused (nodes : Dict PNode) : (placed : Table Placement) → (left : List Int) →
    Decidable (Housed double cameras nodes placed left)
  | _, [] => .isTrue trivial
  | placed, c :: rest => by
    unfold Housed
    split
    · exact .isFalse id
    · exact @instDecidableAnd _ _ _ (decidableHoused nodes _ rest)

/-- Which Node each camera is on. -/
def seats (placed : Table Placement) : Table String := placed.map fun entry => (entry.1, entry.2.node)

theorem seats_pop (placed : Table Placement) (c : Int) : seats (placed.pop c) = (seats placed).pop c := by
  unfold seats Table.pop
  rw [List.filter_map]
  rfl

theorem seats_set (placed : Table Placement) (c : Int) (pl : Placement) :
    seats (placed.set c pl) = (seats placed).set c pl.node := by
  induction placed with
  | nil => rfl
  | cons entry rest ih =>
    obtain ⟨first, pl'⟩ := entry
    have unfolded : seats ((first, pl') :: rest) = (first, pl'.node) :: seats rest := rfl
    rw [unfolded, Table.set, Table.set]
    split
    next => rfl
    next => rw [← ih]; rfl

theorem loadOf_seats {placed placed' : Table Placement} (same : seats placed = seats placed') (node : String) :
    loadOf double placed node cameras = loadOf double placed' node cameras := by
  have onSeats (placed : Table Placement) : loadOf double placed node cameras =
      (seats placed).foldl (fun sum seat => (cameras.get? seat.1).elim sum fun cam =>
        if seat.2 = node then double (sum + cam.load) else sum) 0 := by
    rw [seats, List.foldl_map, loadOf]
    congr 1
    funext sum entry
    cases cameras.get? entry.1 <;> rfl
  rw [onSeats, onSeats, same]

theorem best_seats {placed placed' : Table Placement} (same : seats placed = seats placed') (nodes : Dict PNode)
    (cam : PCamera) : best double nodes placed cam cameras = best double nodes placed' cam cameras := by
  unfold best
  simp only [loadOf_seats same]

/-- The cameras of a retired Node settle one after the other. -/
theorem rehome_leaves (exact_ : Exact double cameras) (left : List Int) :
    ∀ {p : Placer} {placed : Table Placement}, SoundBut double cameras left p → seats placed = seats p.placed →
      Housed double cameras p.nodes placed left → Goes (4 * left.length) p.vars.calls →
      Leaves (rehome double cameras left) (fun _ => Sound double cameras) (fun _ => False) p := by
  induction left with
  | nil => exact fun sound _ _ _ => sound
  | cons c rest ih =>
    intro p placed sound same housed goes
    let popped : Placer := { p with placed := p.placed.pop c }
    have goes' : Goes 4 p.vars.calls ∧ Goes (4 * rest.length) (p.vars.calls.drop 4) :=
      goes_drop.mp (by rwa [List.length_cons, show 4 * (rest.length + 1) = 4 + 4 * rest.length by omega] at goes)
    have here : seats (placed.pop c) = seats popped.placed := by
      rw [seats_pop, same]
      exact (seats_pop p.placed c).symm
    unfold Housed at housed
    split at housed
    next => exact housed.elim
    next n free chosen =>
      obtain ⟨own, later⟩ := housed
      have absent : popped.placed.get? (cameraAt cameras c).id = none := by
        rw [own, Table.get?_pop, if_pos rfl]
      have told : Goes 3 popped.vars.calls → popped.vars.calls.getD 3 .done ≠ .lost := by
        intro _
        rw [goes'.1 3 (by omega)]
        decide
      unfold rehome
      rw [Leaves.bind, Leaves.modify, Leaves.bind]
      refine (place_leaves exact_ (asMapped_own own) absent (by rw [own]; exact sound.popped exact_) told).mono
        (fun _ p' ends => ?_) fun p' ⟨_, stops⟩ => stops goes'.1
      obtain ⟨_, nowhere⟩ | ⟨n', free', reason, rev, chosen', sound', nodes, placed', calls⟩ := ends
      · rw [best_seats here.symm, chosen] at nowhere
        cases nowhere
      · rw [best_seats here.symm, chosen] at chosen'
        cases chosen'
        have seated : seats ((placed.pop c).set c ⟨n.id, "", 0⟩) = seats p'.placed := by
          rw [placed', own, seats_set, seats_set, here]
        have housed' : Housed double cameras p'.nodes ((placed.pop c).set c ⟨n.id, "", 0⟩) rest := by
          rw [nodes]
          exact later
        rw [Leaves.bind]
        exact (ih sound' seated housed' (calls ▸ goes'.2)).mono (fun _ _ sound => sound) fun _ never => never

theorem retireNode_sound (exact_ : Exact double cameras) {node : String} {p : Placer}
    (sound : Sound double cameras p)
    (housed : Housed double cameras (p.nodes.pop node) p.placed (orphans p.placed node))
    (goes : Goes (4 * (orphans p.placed node).length) p.vars.calls) :
    Leaves (retireNode double node cameras) (fun _ => Sound double cameras) (Sound double cameras) p := by
  have remaining : SoundBut double cameras (orphans p.placed node) { p with nodes := p.nodes.pop node } :=
    { distinct := sound.distinct
      names := Dict.nodup_keys_pop sound.names node
      fit := fun entry member => sound.fit entry (List.mem_filter.mp member).1
      room := fun entry member => sound.room entry (List.mem_filter.mp member).1
      canonical := sound.canonical
      homes := by
        intro c other pl there
        have elsewhere : pl.node ≠ node := by
          intro here
          apply other
          rw [orphans, (List.perm_insertionSort _ _).mem_iff]
          exact List.mem_map.mpr ⟨(c, pl), List.mem_filter.mpr ⟨Table.mem_of_get? there, decide_eq_true here⟩, rfl⟩
        obtain ⟨n, known, labelled⟩ := sound.homes c List.not_mem_nil pl there
        exact ⟨n, by rw [Dict.get?_pop_other _ elsewhere, known], labelled⟩
      stored := fun c _ => sound.stored c List.not_mem_nil }
  unfold retireNode
  rw [Leaves.bind, Leaves.modify, Leaves.bind, Leaves.get]
  exact (rehome_leaves exact_ _ remaining rfl housed goes).mono (fun _ _ sound => sound) fun _ never => never.elim

/-! ## A rebalance -/

theorem extremes_mem (level : String → Floating) (first : String) (ids : List String) :
    (extremes level first ids).2 ∈ first :: ids := by
  unfold extremes
  refine List.foldlRecOn (motive := fun both : String × String => both.2 ∈ first :: ids) _ _ (.head _) ?_
  intro both inside id member
  dsimp only
  split
  · exact .tail _ member
  · exact inside

/-- A candidate is a camera of the fullest Node that may go to the emptiest. -/
theorem candidate_fits {p : Placer} {hi lo : String} (found : ¬ candidate p cameras hi lo < 0) :
    ∃ pl, (candidate p cameras hi lo, pl) ∈ p.placed ∧ pl.node = hi ∧
      (cameraAt cameras (candidate p cameras hi lo)).labels.subsetOf (nodeAt p.nodes lo).labels = true := by
  let fits (c : Int) : Prop := c < 0 ∨ ∃ pl, (c, pl) ∈ p.placed ∧ pl.node = hi ∧
    (cameraAt cameras c).labels.subsetOf (nodeAt p.nodes lo).labels = true
  have all : fits (candidate p cameras hi lo) := by
    unfold candidate
    refine List.foldlRecOn (motive := fits) _ _ (.inl (by decide)) ?_
    rintro c holds ⟨c', pl⟩ member
    dsimp only
    cases known : cameras.get? c' with
    | none => exact holds
    | some cam =>
      dsimp only
      split
      next => exact holds
      next suits =>
        split
        next =>
          simp only [Bool.or_eq_true, decide_eq_true_eq, Bool.not_eq_true', not_or, not_not, Bool.not_eq_false] at suits
          refine .inr ⟨pl, member, suits.1, ?_⟩
          rw [cameraAt, known]
          exact suits.2
        next => exact holds
  exact all.resolve_left found

/-- The emptiest Node has room for a candidate, also when it is the fullest one. -/
theorem rebalanced_room (exact_ : Exact double cameras) {p : Placer} (sound : Sound double cameras p) {c : Int}
    {lo : String} {pl : Placement} {n : PNode} (member : (c, pl) ∈ p.placed) (known : p.nodes.get? lo = some n)
    (room : double (loadOf double p.placed lo cameras + (cameraAt cameras c).load) ≤ n.capacity) :
    (cameraAt cameras c).load + loadOf double (p.placed.pop c) lo cameras ≤ double (n.capacity + 1 / 10 ^ 9) := by
  have there := Table.get?_of_mem sound.distinct member
  by_cases same : pl.node = lo
  · have whole := loadOf_set exact_ sound.distinct c pl lo
    rw [Table.set_of_get? there, if_pos same] at whole
    rw [← whole]
    exact sound.room _ (Dict.mem_of_get? known)
  · have others : (c :: on p.placed lo).Nodup := by
      refine List.nodup_cons.mpr ⟨fun inside => ?_, nodup_on sound.distinct lo⟩
      obtain ⟨⟨c', pl'⟩, listed, rfl⟩ := List.mem_map.mp inside
      obtain ⟨member', here⟩ := List.mem_filter.mp listed
      have there' := Table.get?_of_mem sound.distinct member'
      rw [there] at there'
      cases there'
      exact same (of_decide_eq_true here)
    have sum := exact_.sums _ others
    rw [loadOf_eq exact_ sound.distinct, add_comm, ← total_cons, sum, total_cons, ← loadOf_eq exact_ sound.distinct]
      at room
    have less := loadOf_pop_le exact_ sound.distinct c lo
    have slack := (sound.fit _ (Dict.mem_of_get? known)).slack
    dsimp only at slack
    linarith

theorem rebalanceRounds_sound (exact_ : Exact double cameras) {deadBand : ℚ} (left : Nat) :
    ∀ {p : Placer} {moves : List Move}, Sound double cameras p → Told left p.vars.calls →
      Leaves (rebalanceRounds double cameras deadBand left moves) (fun _ => Sound double cameras)
        (Sound double cameras) p := by
  induction left with
  | zero => exact fun sound _ => sound
  | succ left ih =>
    intro p moves sound told
    unfold rebalanceRounds
    rw [Leaves.bind, Leaves.get]
    split
    next => exact sound
    next first ids listed =>
      dsimp only
      generalize measured : extremes (level double p cameras) first (first :: ids) = ends
      obtain ⟨hi, lo⟩ := ends
      split
      next => exact sound
      split
      next => exact sound
      next found =>
        split
        next => exact sound
        next room =>
          obtain ⟨pl, member, _, labelled⟩ := candidate_fits found
          have known : p.nodes.get? lo = some (nodeAt p.nodes lo) := by
            have inside : lo ∈ first :: first :: ids := by
              have last := extremes_mem (level double p cameras) first (first :: ids)
              rwa [measured] at last
            apply nodeAt_of_mem
            rw [listed]
            simpa using inside
          simp only [Leaves.bind, Leaves.withError, store_eq]
          apply revised_leaves told.first
          · intro rev p' written goes calls
            apply ih
            · apply (sound.weaken (candidate p cameras hi lo)).settles exact_ written known labelled
              exact rebalanced_room exact_ sound member known (not_lt.mp room)
            · rw [calls]
              exact told.later goes
          · intro p' quiet _
            exact sound.quiet quiet

/-! ## The placement that is loaded -/

theorem loadRows_leaves (paths : List String) :
    ∀ {p : Placer}, (∀ key ∈ paths, ∃ c, key = path c) → p.placed.keys.Nodup →
      Leaves (loadRows paths)
        (fun _ p' => p'.nodes = p.nodes ∧ p'.vars.table = p.vars.table ∧ p'.placed.keys.Nodup ∧
          ∀ c, p'.placed.get? c = if path c ∈ paths then (rowOf p c).or (p.placed.get? c) else p.placed.get? c)
        (fun _ => p.vars.calls ≠ []) p := by
  induction paths with
  | nil => exact fun _ distinct => ⟨rfl, rfl, distinct, fun c => (if_neg List.not_mem_nil).symm⟩
  | cons key rest ih =>
    intro p under distinct
    obtain ⟨⟨c, rfl⟩, underRest⟩ := List.forall_mem_cons.mp under
    -- whatever the row says, the rest goes on from a placer that has it
    have goesOn (q : Placer) (nodes : q.nodes = p.nodes) (vars : q.vars = p.vars.next) (distinct : q.placed.keys.Nodup)
        (placed : ∀ c', q.placed.get? c' = if c = c' then (rowOf p c).or (p.placed.get? c) else p.placed.get? c') :
        Leaves (loadRows rest)
          (fun _ p' => p'.nodes = p.nodes ∧ p'.vars.table = p.vars.table ∧ p'.placed.keys.Nodup ∧
            ∀ c', p'.placed.get? c' =
              if path c' ∈ path c :: rest then (rowOf p c').or (p.placed.get? c') else p.placed.get? c')
          (fun _ => p.vars.calls ≠ []) q := by
      refine (ih underRest distinct).mono (fun _ p' ⟨nodes', table', distinct', placed'⟩ => ?_) fun _ more nothing => ?_
      · refine ⟨nodes'.trans nodes, table'.trans (vars ▸ rfl), distinct', fun c' => ?_⟩
        have row : rowOf q c' = rowOf p c' := by rw [rowOf, vars, rowOf]; rfl
        rw [placed', placed, row]
        by_cases same : c = c'
        · subst same
          rw [if_pos rfl, if_pos List.mem_cons_self]
          split
          · cases rowOf p c <;> rfl
          · rfl
        · have other : path c' ∈ path c :: rest ↔ path c' ∈ rest := by
            rw [List.mem_cons]
            exact or_iff_right fun here => same (path_inj here.symm)
          simp only [other, if_neg same]
      · apply more
        rw [vars]
        show p.vars.calls.tail = []
        rw [nothing]
        rfl
    unfold loadRows
    rw [Leaves.bind]
    apply get_leaves
    · intro _
      dsimp only
      cases row : rowOf p c with
      | none =>
        rw [show placementOf (p.vars.table.read (path c)) = none from row]
        refine goesOn (past p) rfl rfl distinct fun c' => ?_
        rw [row]
        split
        next same => rw [← same]; rfl
        next => rfl
      | some pl =>
        rw [show placementOf (p.vars.table.read (path c)) = some pl from row]
        dsimp only
        rw [Leaves.bind, Leaves.modify, camera_of_path]
        refine goesOn _ rfl rfl (Table.nodup_set distinct c pl) fun c' => ?_
        rw [row]
        exact Table.get?_set _ _ _ _
    · intro stops nothing
      exact stops (by rw [Vars.call, nothing]; rfl)

/-- A new placer has what the rows say. -/
structure Loaded (nodes : Dict PNode) (vars : Vars) (p : Placer) : Prop where
  nodes : p.nodes = nodes
  table : p.vars.table = vars.table
  distinct : p.placed.keys.Nodup
  placed : ∀ c, p.placed.get? c = rowOf p c

theorem loading_leaves (nodes : Dict PNode) {vars : Vars} (canonical : Canonical vars.table) :
    Leaves loading (fun _ => Loaded nodes vars) (fun _ => vars.calls ≠ []) ⟨nodes, vars, []⟩ := by
  have listed (c : Int) : path c ∈ vars.listed "placement/" ↔ vars.table.read (path c) ≠ none := by
    rw [Vars.listed, (List.perm_insertionSort _ _).mem_iff, List.mem_filter, Versioned.mem_keys]
    refine and_iff_left (decide_eq_true ?_)
    rw [toList_path]
    exact List.prefix_append _ _
  have under : ∀ key ∈ vars.listed "placement/", ∃ c, key = path c := by
    intro key member
    rw [Vars.listed, (List.perm_insertionSort _ _).mem_iff, List.mem_filter, Versioned.mem_keys] at member
    exact canonical key (of_decide_eq_true member.2) member.1
  unfold loading calling
  rw [Leaves.bind, Leaves.of]
  unfold Vars.list
  cases outcome : vars.call with
  | done =>
    refine (loadRows_leaves _ (p := ⟨nodes, vars.next, []⟩) under List.nodup_nil).mono
      (fun _ p' ⟨nodes', table, distinct, placed⟩ => ?_) fun _ more nothing => ?_
    · refine ⟨nodes', table, distinct, fun c => ?_⟩
      have row : rowOf p' c = rowOf ⟨nodes, vars.next, []⟩ c := by rw [rowOf, table, rowOf]
      rw [placed, row]
      split
      next => exact Option.or_none
      next absent =>
        rw [listed, not_not] at absent
        rw [rowOf, show (vars.next).table.read (path c) = none from absent]
        rfl
    · apply more
      show vars.calls.tail = []
      rw [nothing]
      rfl
  | failed =>
    intro nothing
    rw [Vars.call, nothing] at outcome
    cases outcome
  | lost =>
    intro nothing
    rw [Vars.call, nothing] at outcome
    cases outcome

theorem loaded_of_newPlacer {nodes : Dict PNode} {vars : Vars} {p : Placer} (canonical : Canonical vars.table)
    (made : newPlacer nodes vars = .ok p) : Loaded nodes vars p := by
  have leaves := loading_leaves nodes canonical
  unfold Leaves at leaves
  unfold newPlacer at made
  generalize loading.result ⟨nodes, vars, []⟩ = outcome at *
  obtain ⟨error | _, p'⟩ := outcome
  · cases made
  · cases made
    exact leaves

theorem newPlacer_returns (nodes : Dict PNode) {vars : Vars} (canonical : Canonical vars.table)
    (calm : vars.calls = []) : ∃ p, newPlacer nodes vars = .ok p := by
  have leaves := loading_leaves nodes canonical
  unfold Leaves at leaves
  unfold newPlacer
  generalize loading.result ⟨nodes, vars, []⟩ = outcome at *
  obtain ⟨error | _, p'⟩ := outcome
  · exact absurd calm leaves
  · exact ⟨p', rfl⟩

/-- A new placer over the same rows has the same placements. -/
def Reloads (p : Placer) : Prop :=
  ∃ loaded, newPlacer p.nodes { p.vars with calls := [] } = .ok loaded ∧
    ∀ c, loaded.placed.get? c = p.placed.get? c

theorem SoundBut.reloads {p : Placer} (sound : Sound double cameras p) : Reloads p := by
  obtain ⟨loaded, made⟩ := newPlacer_returns p.nodes
    (show Canonical { p.vars with calls := [] }.table from sound.canonical) rfl
  have same := loaded_of_newPlacer (show Canonical { p.vars with calls := [] }.table from sound.canonical) made
  refine ⟨loaded, made, fun c => ?_⟩
  rw [same.placed, rowOf, same.table]
  exact sound.stored c List.not_mem_nil

/-! ## The oracle -/

theorem forM_ok {α : Type} {check : α → Except String Unit} {xs : List α} :
    xs.forM check = .ok () ↔ ∀ x ∈ xs, check x = .ok () := by
  induction xs with
  | nil => exact ⟨fun _ _ member => (nomatch member), fun _ => rfl⟩
  | cons x rest ih =>
    have unfolded : (x :: rest).forM check = (check x).bind fun _ => rest.forM check := rfl
    rw [unfolded, List.forall_mem_cons, ← ih]
    cases check x with
    | error error => exact ⟨fun ends => (nomatch ends), fun both => (nomatch both.1)⟩
    | ok _ => exact ⟨fun rest => ⟨rfl, rest⟩, fun both => both.2⟩

theorem checkInvariants_ok {p : Placer} : checkInvariants double p cameras = .ok () ↔
    (∀ entry ∈ p.placed, checkPlaced p cameras entry = .ok ()) ∧
      ∀ entry ∈ p.nodes, checkNode double p cameras entry.2 = .ok () := by
  have unfolded : checkInvariants double p cameras =
      (p.placed.forM (checkPlaced p cameras)).bind fun _ => p.nodes.forM fun entry =>
        checkNode double p cameras entry.2 :=
    rfl
  rw [unfolded, ← forM_ok, ← forM_ok]
  cases p.placed.forM (checkPlaced p cameras) with
  | error error => exact ⟨fun ends => (nomatch ends), fun both => (nomatch both.1)⟩
  | ok _ => exact ⟨fun rest => ⟨rfl, rest⟩, fun both => both.2⟩

theorem checkPlaced_ok {p : Placer} {c : Int} {pl : Placement} : checkPlaced p cameras (c, pl) = .ok () ↔
    ∃ n, p.nodes.get? pl.node = some n ∧ (cameraAt cameras c).labels.subsetOf n.labels = true := by
  unfold checkPlaced
  cases p.nodes.get? pl.node with
  | none => exact ⟨fun ends => (nomatch ends), fun ⟨_, nothing, _⟩ => (nomatch nothing)⟩
  | some n =>
    dsimp only
    split
    next labelled => exact ⟨fun _ => ⟨n, rfl, labelled⟩, fun _ => rfl⟩
    next bare =>
      refine ⟨fun ends => (nomatch ends), fun ⟨n', same, labelled⟩ => ?_⟩
      cases same
      exact absurd labelled bare

theorem checkNode_ok {p : Placer} {n : PNode} : checkNode double p cameras n = .ok () ↔
    loadOf double p.placed n.id cameras ≤ double (n.capacity + 1 / 10 ^ 9) := by
  unfold checkNode
  split
  next past => exact ⟨fun ends => (nomatch ends), fun room => absurd room (not_le.mpr past)⟩
  next room => exact ⟨fun _ => not_lt.mp room, fun _ => rfl⟩

theorem SoundBut.checked {p : Placer} (sound : Sound double cameras p) : checkInvariants double p cameras = .ok () := by
  rw [checkInvariants_ok]
  constructor
  · rintro ⟨c, pl⟩ member
    rw [checkPlaced_ok]
    exact sound.homes c List.not_mem_nil pl (Table.get?_of_mem sound.distinct member)
  · intro entry member
    rw [checkNode_ok, (sound.fit entry member).named]
    exact sound.room entry member

theorem sound_of_checked {nodes : Dict PNode} {vars : Vars} {p : Placer} (names : (nodes.map Prod.fst).Nodup)
    (fit : ∀ entry ∈ nodes, Fits double cameras entry) (canonical : Canonical vars.table)
    (start : newPlacer nodes vars = .ok p) (checked : checkInvariants double p cameras = .ok ()) :
    Sound double cameras p := by
  have loaded := loaded_of_newPlacer canonical start
  obtain rfl := loaded.nodes
  rw [checkInvariants_ok] at checked
  exact {
    distinct := loaded.distinct
    names := names
    fit := fit
    room := fun entry member => (fit entry member).named ▸ checkNode_ok.mp (checked.2 entry member)
    canonical := loaded.table ▸ canonical
    homes := fun c _ pl there => checkPlaced_ok.mp (checked.1 _ (Table.mem_of_get? there))
    stored := fun c _ => (loaded.placed c).symm }

/-! ## Runs -/

/-- The calls that keep memory and rows together. -/
def Allowed (double : ℚ → ℚ) (cameras : Table PCamera) (p : Placer) : Event → Prop
  | .place cam calls => AsMapped cameras cam ∧ Told 1 calls
  | .remove _ calls => Told 1 calls
  | .addNode n => p.nodes.get? n.id = none ∧ Fits double cameras (n.id, n)
  | .retireNode node calls =>
    Housed double cameras (p.nodes.pop node) p.placed (orphans p.placed node) ∧
      Goes (4 * (orphans p.placed node).length) calls
  | .rebalance budget _ calls => Told budget calls

theorem step_sound (exact_ : Exact double cameras) (p : Placer) (event : Event)
    (allowed : Allowed double cameras p event) (sound : Sound double cameras p) :
    Sound double cameras (step double cameras p event) := by
  cases event with
  | place cam calls => exact (place_sound exact_ allowed.1 (sound.facing calls) allowed.2).after
  | remove c calls => exact (remove_sound exact_ c (sound.facing calls) allowed).after
  | addNode n => exact addNode_sound exact_ sound allowed.1 allowed.2
  | retireNode node calls =>
    exact (retireNode_sound exact_ (sound.facing calls) allowed.1 allowed.2).after
  | rebalance budget deadBand calls =>
    exact (rebalanceRounds_sound exact_ budget (sound.facing calls) allowed).after

/-- In a run of allowed calls every camera is well placed, and a new placer over the same rows has the same
placements, after each call. -/
theorem placement_stored {double : ℚ → ℚ} {cameras : Table PCamera} (exact_ : Exact double cameras)
    {nodes : Dict PNode} {vars : Vars} {p : Placer} (names : (nodes.map Prod.fst).Nodup)
    (fit : ∀ entry ∈ nodes, Fits double cameras entry) (canonical : Canonical vars.table)
    (start : newPlacer nodes vars = .ok p) (checked : checkInvariants double p cameras = .ok ()) {events : List Event}
    (along : Along (step double cameras) (Allowed double cameras) events p) :
    ∀ first, first <+: events →
      checkInvariants double (first.foldl (step double cameras) p) cameras = .ok () ∧
        Reloads (first.foldl (step double cameras) p) := by
  rintro first ⟨rest, rfl⟩
  have taken := (along_append.mp along).1
  have sound : Sound double cameras (first.foldl (step double cameras) p) :=
    taken.keeps (step_sound exact_) (sound_of_checked names fit canonical start checked)
  exact ⟨sound.checked, sound.reloads⟩

theorem exact_id (loads : ∀ entry ∈ cameras, 0 ≤ entry.2.load) : Exact id cameras := ⟨loads, fun _ _ => rfl⟩

theorem fits_id {entry : String × PNode} (named : entry.2.id = entry.1) (nonempty : entry.1 ≠ "")
    (nonneg : 0 ≤ entry.2.capacity) : Fits id cameras entry where
  named := named
  nonempty := nonempty
  free _ _ := rfl
  nonneg := by
    show (0 : ℚ) ≤ entry.2.capacity + 1 / 10 ^ 9
    positivity
  slack := by
    show entry.2.capacity ≤ entry.2.capacity + 1 / 10 ^ 9
    linarith [show (0 : ℚ) ≤ 1 / 10 ^ 9 by positivity]

/-- Two cameras, of which one needs a label. -/
def twoCameras : Table PCamera := [(7, ⟨7, 1, []⟩), (8, ⟨8, 2, [("vlan:a", true)]⟩)]

def oneNode : Dict PNode := [("node-1", ⟨"node-1", 10, [("vlan:a", true)]⟩)]

/-- Both are placed; a Node comes, and takes one of them over; the first Node is retired when there is a third for
the other, whose removal the store refuses once. -/
def movingDay : List Event :=
  [.place ⟨7, 1, []⟩ [], .place ⟨8, 2, [("vlan:a", true)]⟩ [.done, .failed], .place ⟨8, 2, [("vlan:a", true)]⟩ [],
    .addNode ⟨"node-2", 4, []⟩, .rebalance 3 (1 / 10) [], .addNode ⟨"node-3", 5, [("vlan:a", true)]⟩,
    .retireNode "node-1" [], .remove 8 [.done, .done, .done, .failed], .remove 8 []]

/-- A new placer over no rows. -/
def firstPlacer : Placer := ⟨oneNode, ⟨Versioned.empty 1000, []⟩, []⟩

theorem placement_stored_moving :
    checkInvariants id (movingDay.foldl (step id twoCameras) firstPlacer) twoCameras = .ok () ∧
      Reloads (movingDay.foldl (step id twoCameras) firstPlacer) := by
  have canonical : Canonical (Versioned.empty 1000 : Versioned String fun _ => Items) :=
    fun _ _ there => absurd rfl there
  have fit : ∀ entry ∈ oneNode, Fits id twoCameras entry := by
    intro entry member
    obtain rfl := List.mem_singleton.mp member
    exact fits_id rfl (by decide) (by decide)
  have along : Along (step id twoCameras) (Allowed id twoCameras) movingDay firstPlacer :=
    .cons ⟨by decide, by decide +kernel⟩ <| .cons ⟨by decide, by decide +kernel⟩ <|
      .cons ⟨by decide, by decide +kernel⟩ <|
      .cons ⟨by decide +kernel, fits_id rfl (by decide) (by decide)⟩ <|
      .cons (by unfold Allowed; decide +kernel) <|
      .cons ⟨by decide +kernel, fits_id rfl (by decide) (by decide)⟩ <|
      .cons ⟨by decide +kernel, by decide +kernel⟩ <|
      .cons (by unfold Allowed; decide +kernel) <| .cons (by unfold Allowed; decide +kernel) .nil
  exact placement_stored (exact_id (by decide)) (by decide) fit canonical
    (show newPlacer oneNode ⟨Versioned.empty 1000, []⟩ = .ok firstPlacer from rfl)
    (by decide +kernel) along movingDay List.prefix_rfl

/-- The only Node is retired, and its camera finds no home: it is nowhere in memory, and a new placer has it on the
retired Node. -/
theorem homeless_camera_stays_stored :
    newPlacer oneNode ⟨Versioned.empty 1000, []⟩ = .ok firstPlacer ∧
      checkInvariants id firstPlacer twoCameras = .ok () ∧
      ¬ Reloads ([.place ⟨7, 1, []⟩ [], .retireNode "node-1" []].foldl (step id twoCameras) firstPlacer) := by
  refine ⟨rfl, by decide +kernel, fun ⟨loaded, made, same⟩ => ?_⟩
  let last := [.place ⟨7, 1, []⟩ [], .retireNode "node-1" []].foldl (step id twoCameras) firstPlacer
  have memory : (last.placed.get? 7).isSome = false := by decide +kernel
  have stored : ((newPlacer last.nodes { last.vars with calls := [] }).toOption.bind fun p => p.placed.get? 7).isSome =
      true := by decide +kernel
  rw [made] at stored
  rw [← same 7] at memory
  exact absurd stored (by rw [Except.toOption, Option.bind_some, memory]; decide)

end StoredPlacement

end EdgeVms.Verified
