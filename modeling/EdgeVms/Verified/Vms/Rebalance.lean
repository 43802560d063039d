import EdgeVms.Verified.Vms.CameraEdits
import EdgeVms.Verified.Vms.Reachability

/-! # Rebalancing

`rebalance` compares relative loads and moves whole cameras.  A camera weighs more
on a small worker than on a large one, so a move can overshoot: the loads are even
only when the gap before it outweighs the camera.  `turns` is the run on the board,
and `rebalance_ends` says that the call makes exactly these moves.
-/

namespace EdgeVms.Verified.Rebalance

open Process Python Platform Vms VmsController
open Reachability (assignment_ends extreme_eq farthest farthest_mem level loadsRounds_ends mapM_toInt outward_candidates
  outward_capacityOf surplus)

/-- The double 0.10, by default the dead band. -/
def tenth : ℚ := 3602879701896397 / 36028797018963968

theorem tenth_pos : 0 < tenth := by decide +kernel

/-- Rounding to a double keeps the order, and zero. -/
structure Rounds (double : ℚ → ℚ) : Prop where
  monotone : Monotone double
  zero : double 0 = 0

/-! ## One move -/

/-- The load of a worker, relative to what it can carry. -/
def relative (carries : String → Int) (board : Board) (name : String) : ℚ :=
  ((board.units name).length : Int) / carries name

/-- How far the relative loads of the two workers of a move are apart. -/
def spread (carries : String → Int) (board : Board) (move : Moved) : ℚ :=
  |relative carries board move.2.1 - relative carries board move.2.2|

/-- The board after a move. -/
def carried (board : Board) (move : Moved) : Board := board.bring (toString move.1) move.2.2

/-- The move brings the two workers closer. -/
def Narrows (carries : String → Int) (board : Board) (move : Moved) : Prop :=
  spread carries (carried board move) move < spread carries board move

/-- What the camera adds to the relative load of its new worker. -/
def added (carries : String → Int) (board : Board) (move : Moved) : ℚ :=
  if toString move.1 ∈ board.units move.2.2 then 0 else 1 / carries move.2.2

/-- The camera weighs less on both workers together than twice the gap between them. -/
def Outweighed (carries : String → Int) (board : Board) (move : Moved) : Prop :=
  1 / carries move.2.1 + added carries board move <
    2 * (relative carries board move.2.1 - relative carries board move.2.2)

/-- The next move, if there is one. -/
def next (double : ℚ → ℚ) (carries : String → Int) (names : List String) (board : Board) : Option Moved :=
  match names with
  | [] => none
  | first :: rest => (surplus double carries tenth names board).map fun move =>
      (move.1, farthest (fun load most => load > most) (level double carries board) first rest, move.2)

/-- Lists as the controller writes them. -/
structure Listed (board : Board) : Prop where
  nodup : ∀ name, (board.units name).Nodup
  cameras : ∀ name, ∀ unit ∈ board.units name, ∃ cid : Int, unit = toString cid

variable {double : ℚ → ℚ} {carries : String → Int} {names : List String} {board : Board} {move : Moved}

theorem level_eq (name : String) : level double carries board name = double (relative carries board name) := rfl

theorem mem_of_ids {units : List String} {cid : Int} {rest : List Int} (listed : Board.ids units = cid :: rest)
    (cameras : ∀ unit ∈ units, ∃ cid : Int, unit = toString cid) : toString cid ∈ units := by
  have member : cid ∈ Board.ids units := by
    rw [listed]
    exact .head _
  obtain ⟨unit, inside, parsed⟩ := List.mem_filterMap.mp ((List.mem_insertionSort _).mp member)
  obtain ⟨other, rfl⟩ := cameras unit inside
  rw [pyInt_toString] at parsed
  cases parsed
  exact inside

/-- What is known of the next move: it goes down the slope, to a worker with room. -/
structure Downhill (carries : String → Int) (names : List String) (board : Board) (move : Moved) : Prop where
  source : move.2.1 ∈ names
  target : move.2.2 ∈ names
  slope : relative carries board move.2.2 < relative carries board move.2.1
  room : ((board.units move.2.2).length : Int) + 1 ≤ carries move.2.2
  listed : toString move.1 ∈ board.units move.2.1

theorem downhill_of_next (rounds : Rounds double) (tidy : Listed board)
    (chosen : next double carries names board = some move) :
    Downhill carries names board move := by
  obtain _ | ⟨first, _ | ⟨second, rest⟩⟩ := names
  · cases chosen
  · cases chosen
  obtain ⟨⟨cid, lo⟩, picked, rfl⟩ := Option.map_eq_some_iff.mp chosen
  obtain ⟨hi, hi_eq⟩ : ∃ hi, hi = farthest (fun load most => load > most) (level double carries board) first
    (second :: rest) := ⟨_, rfl⟩
  obtain ⟨least, least_eq⟩ : ∃ least,
      least = farthest (fun load least => load < least) (level double carries board) first
    (second :: rest) := ⟨_, rfl⟩
  simp only [surplus, ← hi_eq, ← least_eq] at picked ⊢
  split at picked
  · cases picked
  next uneven =>
    split at picked
    · cases picked
    next head others listed =>
      split at picked
      · cases picked
      next free_ =>
        obtain ⟨rfl, rfl⟩ : head = cid ∧ least = lo := by simpa using picked
        have apart : 0 < level double carries board hi - level double carries board least := by
          by_contra level_
          have rounded := rounds.monotone (not_lt.mp level_)
          rw [rounds.zero] at rounded
          exact uneven (lt_of_le_of_lt rounded tenth_pos)
        have slope : relative carries board least < relative carries board hi := by
          by_contra level_
          have rounded := rounds.monotone (not_lt.mp level_)
          rw [level_eq, level_eq] at apart
          linarith
        exact ⟨hi_eq ▸ farthest_mem, least_eq ▸ farthest_mem, slope, by simpa using free_,
          mem_of_ids listed (tidy.cameras hi)⟩

namespace Downhill

theorem differ (down : Downhill carries names board move) : move.2.1 ≠ move.2.2 := by
  intro same
  have slope := down.slope
  rw [same] at slope
  exact lt_irrefl _ slope

theorem target_pos (down : Downhill carries names board move) : 0 < carries move.2.2 := by
  have room := down.room
  omega

theorem source_pos (down : Downhill carries names board move) : 0 < carries move.2.1 := by
  by_contra negative
  have able : (carries move.2.1 : ℚ) ≤ 0 := by exact_mod_cast not_lt.mp negative
  have able' : (0 : ℚ) ≤ carries move.2.2 := by exact_mod_cast down.target_pos.le
  have below : relative carries board move.2.1 ≤ 0 := div_nonpos_of_nonneg_of_nonpos (by positivity) able
  have above : 0 ≤ relative carries board move.2.2 := div_nonneg (by positivity) able'
  have slope := down.slope
  linarith

end Downhill

theorem carried_source (tidy : Listed board) (down : Downhill carries names board move) :
    ((carried board move).units move.2.1).length + 1 = (board.units move.2.1).length := by
  have left : (carried board move).units move.2.1 = (board.units move.2.1).erase (toString move.1) := by
    simp only [carried, Board.bring, Board.give, Board.clear]
    rw [Function.update_of_ne down.differ, if_neg down.differ, (tidy.nodup _).erase_eq_filter]
    exact List.filter_congr fun other _ => by simp [bne, BEq.beq]
  have length := List.length_erase_of_mem down.listed
  have some_ : 0 < (board.units move.2.1).length := List.length_pos_of_mem down.listed
  rw [left, length]
  omega

theorem carried_target :
    (carried board move).units move.2.2 = Board.joined (board.units move.2.2) (toString move.1) := by
  simp [carried, Board.bring, Board.give, Board.clear]

theorem length_joined {units : List String} (distinct : units.Nodup) (unit : String) :
    (Board.joined units unit).length = if unit ∈ units then units.length else units.length + 1 := by
  rw [Board.joined]
  split
  · rfl
  next missing =>
    have apart : (units ++ [unit]).Nodup := by
      rw [List.nodup_append]
      refine ⟨distinct, by simp, fun other member last single_ same => missing ?_⟩
      obtain rfl := List.mem_singleton.mp single_
      exact same ▸ member
    rw [Controller.withUnit, sorted, List.length_insertionSort, List.dedup_eq_self.mpr apart]
    simp

theorem relative_source (tidy : Listed board) (down : Downhill carries names board move) :
    relative carries (carried board move) move.2.1 = relative carries board move.2.1 - 1 / carries move.2.1 := by
  have length := carried_source tidy down
  rw [relative, relative, ← length]
  push_cast
  ring

theorem relative_target (tidy : Listed board) :
    relative carries (carried board move) move.2.2 = relative carries board move.2.2 + added carries board move := by
  rw [relative, relative, carried_target, length_joined (tidy.nodup _), added]
  split
  · ring
  · push_cast
    ring

/-- A move overshoots when the camera outweighs the gap. -/
theorem narrows_iff (tidy : Listed board) (down : Downhill carries names board move) :
    Narrows carries board move ↔ Outweighed carries board move := by
  have heavy : (0 : ℚ) < 1 / carries move.2.1 := by
    have able : (0 : ℚ) < carries move.2.1 := by exact_mod_cast down.source_pos
    positivity
  have weight : 0 ≤ added carries board move := by
    have able : (0 : ℚ) < carries move.2.2 := by exact_mod_cast down.target_pos
    rw [added]
    split
    · exact le_refl _
    · positivity
  have slope := down.slope
  rw [Narrows, spread, spread, relative_source tidy down, relative_target tidy, Outweighed,
    abs_of_pos (sub_pos.mpr slope), abs_lt]
  constructor
  · rintro ⟨outweighs, -⟩
    linarith
  · intro outweighed
    constructor
    · linarith
    · linarith

/-! ## The run on the board -/

/-- One round: the board, and the moves so far. -/
def turn (double : ℚ → ℚ) (carries : String → Int) (names : List String) (state : Board × List Moved) (_ : Unit) :
    Board × List Moved :=
  match next double carries names state.1 with
  | none => state
  | some move => (carried state.1 move, state.2 ++ [move])

/-- The rounds of one call. -/
def turns (double : ℚ → ℚ) (carries : String → Int) (names : List String) (left : Nat) (state : Board × List Moved) :
    Board × List Moved := (List.replicate left ()).foldl (turn double carries names) state

/-- The camera that moves next is outweighed, and its worker did not receive it in this call. -/
def Fits (double : ℚ → ℚ) (carries : String → Int) (names : List String) (state : Board × List Moved) (_ : Unit) :
    Prop :=
  ∀ move ∈ next double carries names state.1,
    Outweighed carries state.1 move ∧ ∀ earlier ∈ state.2, ¬ (earlier.1 = move.1 ∧ earlier.2.2 = move.2.1)

instance (state : Board × List Moved) (event : Unit) : Decidable (Fits double carries names state event) :=
  inferInstanceAs (Decidable (∀ move ∈ next double carries names state.1,
    (1 / (carries move.2.1 : ℚ) + added carries state.1 move <
      2 * (relative carries state.1 move.2.1 - relative carries state.1 move.2.2)) ∧
    ∀ earlier ∈ state.2, ¬ (earlier.1 = move.1 ∧ earlier.2.2 = move.2.1)))

/-- A camera that moved stands with the worker that received it, and nowhere else. -/
structure Settled (state : Board × List Moved) : Prop where
  tidy : Listed state.1
  once : (state.2.map Prod.fst).Nodup
  stands : ∀ move ∈ state.2, ∀ name, toString move.1 ∈ state.1.units name → name = move.2.2

theorem units_carried (board : Board) (move : Moved) (name : String) : (carried board move).units name =
    if name = move.2.2 then Board.joined (board.units name) (toString move.1)
    else (board.units name).filter (· ≠ toString move.1) := by
  by_cases same : name = move.2.2
  · rw [if_pos same, same, carried_target]
  · rw [if_neg same]
    simp only [carried, Board.bring, Board.give, Board.clear]
    rw [Function.update_of_ne same, if_neg same]

theorem mem_joined {units : List String} {unit other : String} :
    other ∈ Board.joined units unit ↔ other ∈ units ∨ other = unit := by
  rw [Board.joined]
  split
  next there =>
    refine ⟨.inl, fun either => either.elim id ?_⟩
    rintro rfl
    exact there
  next => exact mem_withUnit

theorem Listed.carried (tidy : Listed board) (move : Moved) : Listed (carried board move) := by
  constructor
  · intro name
    rw [units_carried]
    split
    · rw [Board.joined]
      split
      · exact tidy.nodup name
      · exact (List.perm_insertionSort _ _).nodup_iff.mpr (List.nodup_dedup _)
    · exact (tidy.nodup name).filter _
  · intro name unit member
    rw [units_carried] at member
    split at member
    · obtain old | new := mem_joined.mp member
      · exact tidy.cameras name unit old
      · exact ⟨move.1, new⟩
    · exact tidy.cameras name unit (List.mem_of_mem_filter member)

theorem mem_carried {other : String} {name : String} (member : other ∈ (carried board move).units name) :
    (other = toString move.1 ∧ name = move.2.2) ∨ (other ≠ toString move.1 ∧ other ∈ board.units name) := by
  rw [units_carried] at member
  by_cases same : other = toString move.1
  · split at member
    next here => exact .inl ⟨same, here⟩
    next => simp [same] at member
  · split at member
    · exact .inr ⟨same, (mem_joined.mp member).resolve_right same⟩
    · exact .inr ⟨same, List.mem_of_mem_filter member⟩

theorem Settled.carried {state : Board × List Moved} (settled : Settled state)
    (fresh : ∀ earlier ∈ state.2, earlier.1 ≠ move.1) :
    Settled (carried state.1 move, state.2 ++ [move]) := by
  refine ⟨settled.tidy.carried move, ?_, ?_⟩
  · rw [List.map_append, List.map_singleton, List.nodup_append]
    refine ⟨settled.once, by simp, ?_⟩
    rintro cid member last single_ same
    obtain ⟨earlier, before, rfl⟩ := List.mem_map.mp member
    exact fresh earlier before (same.trans (List.mem_singleton.mp single_))
  · intro earlier member name stands
    obtain ⟨same, here⟩ | ⟨differs, before⟩ := mem_carried stands
    · obtain old | new := List.mem_append.mp member
      · exact absurd (toString_inj same) (fresh earlier old)
      · rw [List.mem_singleton.mp new, here]
    · obtain old | new := List.mem_append.mp member
      · exact settled.stands earlier old name before
      · exact absurd (by rw [List.mem_singleton.mp new]) differs

theorem turns_stop {left : Nat} {state : Board × List Moved} (none_ : next double carries names state.1 = none) :
    turns double carries names left state = state := by
  induction left with
  | zero => rfl
  | succ left ih => rw [turns, List.replicate_succ, List.foldl_cons, turn, none_, ← turns, ih]

theorem fits_stop {left : Nat} {state : Board × List Moved} (none_ : next double carries names state.1 = none) :
    Along (turn double carries names) (Fits double carries names) (List.replicate left ()) state := by
  induction left with
  | zero => exact .nil
  | succ left ih =>
    refine .cons (fun move chosen => ?_) ?_
    · rw [none_] at chosen
      cases chosen
    · rwa [turn, none_]

/-- The rounds of a call, with the moves that they make. -/
theorem turns_moves (left : Nat) (state : Board × List Moved) : ∃ made : List Moved,
    turns double carries names left state = (made.foldl carried state.1, state.2 ++ made) ∧ made.length ≤ left ∧
      (made.length < left → next double carries names (made.foldl carried state.1) = none) := by
  induction left generalizing state with
  | zero => exact ⟨[], by simp [turns], by simp, by simp⟩
  | succ left ih =>
    cases chosen : next double carries names state.1 with
    | none => exact ⟨[], by simp [turns_stop chosen], by simp, fun _ => chosen⟩
    | some move =>
      obtain ⟨made, same, bound, stops⟩ := ih (carried state.1 move, state.2 ++ [move])
      refine ⟨move :: made, ?_, by simpa using bound, fun fewer => stops (by simpa using fewer)⟩
      rw [turns, List.replicate_succ, List.foldl_cons, turn, chosen, ← turns, same]
      simp

/-- The rounds of a call fit exactly when each of its moves narrows the gap and no camera moves twice. -/
theorem fits_iff (rounds : Rounds double) {left : Nat} {state : Board × List Moved} {made : List Moved}
    (settled : Settled state)
    (same : turns double carries names left state = (made.foldl carried state.1, state.2 ++ made)) :
    Along (turn double carries names) (Fits double carries names) (List.replicate left ()) state ↔
      Along carried (Narrows carries) made state.1 ∧ ((state.2 ++ made).map Prod.fst).Nodup := by
  induction left generalizing state made with
  | zero =>
    have nothing : made = [] := by simpa [turns] using congrArg Prod.snd same
    subst nothing
    exact ⟨fun _ => ⟨.nil, by simpa using settled.once⟩, fun _ => .nil⟩
  | succ left ih =>
    cases chosen : next double carries names state.1 with
    | none =>
      rw [turns_stop chosen] at same
      have nothing : made = [] := by simpa using congrArg Prod.snd same
      subst nothing
      exact ⟨fun _ => ⟨.nil, by simpa using settled.once⟩, fun _ => fits_stop chosen⟩
    | some move =>
      have down := downhill_of_next rounds settled.tidy chosen
      obtain ⟨later, same', -⟩ := @turns_moves double carries names left (carried state.1 move, state.2 ++ [move])
      have stepped : turns double carries names (left + 1) state =
          turns double carries names left (carried state.1 move, state.2 ++ [move]) := by
        rw [turns, List.replicate_succ, List.foldl_cons, turn, chosen, ← turns]
      have first : made = move :: later := by
        rw [stepped, same'] at same
        simpa using (congrArg Prod.snd same).symm
      subst first
      rw [List.replicate_succ, along_cons, along_cons, narrows_iff settled.tidy down]
      have turned : turn double carries names state () = (carried state.1 move, state.2 ++ [move]) :=
        by rw [turn, chosen]
      have now : Fits double carries names state () ↔ Outweighed carries state.1 move ∧
          ∀ earlier ∈ state.2, earlier.1 ≠ move.1 := by
        rw [Fits, chosen]
        simp only [Option.mem_some_iff, forall_eq']
        refine and_congr_right fun _ => forall₂_congr fun earlier member => ?_
        refine ⟨fun apart cid => apart ⟨cid, ?_⟩, fun fresh both => fresh both.1⟩
        -- a camera that moved before stands only where it went
        exact (settled.stands earlier member move.2.1 (cid ▸ down.listed)).symm
      rw [now, turned]
      have joined : state.2 ++ move :: later = (state.2 ++ [move]) ++ later := by simp
      constructor
      · rintro ⟨⟨outweighed, fresh⟩, rest⟩
        obtain ⟨narrows, once⟩ := (ih (settled.carried fresh) same').mp rest
        exact ⟨⟨outweighed, narrows⟩, joined ▸ once⟩
      · rintro ⟨⟨outweighed, narrows⟩, once⟩
        have fresh : ∀ earlier ∈ state.2, earlier.1 ≠ move.1 := by
          intro earlier member same
          rw [List.map_append, List.nodup_append] at once
          exact once.2.2 _ (List.mem_map.mpr ⟨earlier, member, rfl⟩) _ (.head _) same
        exact ⟨⟨outweighed, fresh⟩, (ih (settled.carried fresh) same').mpr ⟨narrows, joined ▸ once⟩⟩

/-! ## The rows that a call reads -/

/-- Rows as the controller writes them. -/
structure Readable (rows : Rows) : Prop where
  lists : ∀ name, ∃ a, Assignment.fromItems name (rowValues (rows.read (vms.assignment name))) = .ok a
  placed : ∀ cid : Int, ∃ rev, nextRev (rowValues (rows.read (placementRow (toString cid)))) = .ok rev
  clear : ∀ path ∈ listing rows vms.workers, FileVariables.refuses (vms.assignment (lastSegment path)) = false

theorem fromItems_toItems (name : String) (a : Assignment) :
    ∃ a', Assignment.fromItems name (rowValues (some (stored a.toItems))) = .ok a' := by
  simp [Assignment.fromItems, rowValues, stored, Assignment.toItems, Dict.mapValues, Dict.getD, Dict.get?_cons,
    Value.text,
    Value.repr, Value.splitCommas, Value.toInt, Text.toInt, Text.string, bind, Except.bind, pure, Except.pure]

theorem fromItems_written (name : String) (a : Assignment) : ∃ a', Assignment.fromItems name a.toItems = .ok a' := by
  simp [Assignment.fromItems, Assignment.toItems, Dict.getD, Dict.get?_cons, Value.splitCommas, Value.toInt, bind,
    Except.bind, pure, Except.pure]

theorem nextRev_placementItems (worker reason : Text) (at_ : ℚ) (rev : Int) :
    nextRev (rowValues (some (stored (placementItems worker reason at_ rev)))) = .ok (rev + 1) := by
  simp [nextRev, rowValues, stored, placementItems, Dict.mapValues, Dict.getD, Dict.get?_cons, Value.text, Value.repr,
    Value.toInt, Text.toInt, Text.string, bind, Except.bind, pure, Except.pure]

theorem placementKey_clear (cid : Int) : FileVariables.refuses (placementKey cid) = false := by
  apply config_clear
  simp only [List.forall_mem_cons]
  exact ⟨by decide, not_mem_toString (by decide) (by decide) cid, by simp⟩

theorem mem_listing_write {rows : Rows} {key path above : Key} {items : Items}
    (member : path ∈ listing (rows.write key items) above) : path ∈ listing rows above ∨ path = key := by
  obtain ⟨there, under⟩ := mem_listing.mp member
  by_cases same : path = key
  · exact .inr same
  · rw [Versioned.read_write_other _ _ same] at there
    exact .inl (mem_listing.mpr ⟨there, under⟩)

namespace Readable

variable {rows : Rows}

theorem list (readable : Readable rows) {name : String} (clear : FileVariables.refuses (vms.assignment name) = false)
    (a : Assignment) : Readable (rows.write (vms.assignment name) (stored a.toItems)) := by
  constructor
  · intro other
    by_cases same : other = name
    · rw [same, Versioned.read_write_self]
      exact fromItems_toItems name a
    · rw [Versioned.read_write_other _ _ (by simpa using same)]
      exact readable.lists other
  · intro cid
    rw [Versioned.read_write_other _ _ (placementRow_ne_assignment _ _)]
    exact readable.placed cid
  · intro path member
    obtain old | rfl := mem_listing_write member
    · exact readable.clear path old
    · exact clear

theorem row (readable : Readable rows) (cid : Int) (worker reason : Text) (at_ : ℚ) (rev : Int) :
    Readable (rows.write (placementRow (toString cid)) (stored (placementItems worker reason at_ rev))) := by
  constructor
  · intro name
    rw [Versioned.read_write_other _ _ (assignment_ne_placementRow _ _)]
    exact readable.lists name
  · intro other
    by_cases same : other = cid
    · rw [same, Versioned.read_write_self]
      exact ⟨_, nextRev_placementItems worker reason at_ rev⟩
    · rw [Versioned.read_write_other _ _ fun key => same (toString_inj (placementRow_inj.mp key))]
      exact readable.placed other
  · intro path member
    obtain old | rfl := mem_listing_write member
    · exact readable.clear path old
    · exact absurd (mem_listing.mp member).2.1 (by simp [Subsystem.workers, placementRow, Subsystem.config])

theorem empty (index : Nat) : Readable (Versioned.empty index) :=
  ⟨fun name => ⟨⟨name, [], 0⟩, rfl⟩, fun _ => ⟨1, rfl⟩, fun _ member => absurd rfl (mem_listing.mp member).1⟩

end Readable

/-- While the calls run, every one that asks finds the same workers, with the same capacities. -/
structure Reporting {ι M : Type} [DecidableEq ι] (view : View) (i : ι) (capacity : Int) (workers : Option (List String))
    (world : World ι M) (live : List String) (carries : String → Int) : Prop where
  seen : ∀ now : World ι M, now.outside = world.outside → world.served ≤ now.served →
    ∃ now', Ends view i (candidates workers) now live now'
  capable : ∀ now : World ι M, ∀ worker ∈ live, now.outside = world.outside → world.served ≤ now.served →
    ∃ now', Ends view i (capacityOf capacity worker) now (carries worker) now'

variable {ι M : Type} [DecidableEq ι] {view : View} {i : ι} {world world' : World ι M} {capacity : Int}
  {workers : Option (List String)} {live : List String}

theorem Reporting.later (reporting : Reporting view i capacity workers world live carries)
    (passed : Passed world world') :
    Reporting view i capacity workers world' live carries :=
  ⟨fun now same after => reporting.seen now (same.trans passed.1) (passed.2.trans after),
    fun now worker member same after =>
      reporting.capable now worker member (same.trans passed.1) (passed.2.trans after)⟩

theorem Reporting.steady (reporting : Reporting view i capacity workers world live carries) :
    Steady view i capacity workers world live carries := by
  constructor
  · intro now now' names same after ends
    obtain ⟨_, known⟩ := reporting.seen now same after
    cases (known.outcome ends).1
    rfl
  · intro now now' worker n member same after ends
    obtain ⟨_, known⟩ := reporting.capable now worker member same after
    cases (known.outcome ends).1
    rfl

/-! ## The calls return -/

theorem assignment_completes {name : String} (readable : Readable world.vars)
    (clear : FileVariables.refuses (vms.assignment name) = false) :
    Completes view i (Controller.assignment vms name) world fun _ middle => middle.vars = world.vars := by
  obtain ⟨a, read⟩ := readable.lists name
  exact Completes.after (Ends.get clear) (Completes.value read rfl)

theorem load_completes {name : String} (readable : Readable world.vars)
    (clear : FileVariables.refuses (vms.assignment name) = false) :
    Completes view i (load name) world fun _ middle => middle.vars = world.vars :=
  Completes.bind (assignment_completes readable clear) fun _ _ _ same => Completes.ret same

theorem loadsRounds_completes {loads : Dict ℚ} (readable : Readable world.vars)
    (reporting : Reporting view i capacity workers world live carries) (members : ∀ name ∈ names, name ∈ live)
    (clear : ∀ name ∈ live, FileVariables.refuses (vms.assignment name) = false)
    (able : ∀ name ∈ names, carries name ≠ 0) :
    Completes view i (loadsRounds double capacity names loads) world fun _ middle => middle.vars = world.vars := by
  induction names generalizing loads world with
  | nil => exact Completes.ret rfl
  | cons worker rest ih =>
    have member := members worker (.head _)
    apply Completes.bind (load_completes readable (clear worker member))
    intro carried weighed ends same
    obtain ⟨asked, known⟩ := reporting.capable weighed worker member ends.passed.1 ends.passed.2
    have still := (known.waited (ReadsOnly.capacityOf capacity worker)).1.trans same
    apply Completes.after known
    rw [if_neg (able worker (.head _))]
    have readable' : Readable asked.vars := still ▸ readable
    refine Completes.mono (fun _ _ _ (kept : _ = asked.vars) => kept.trans still) ?_
    exact ih readable' (reporting.later (ends.passed.trans known.passed)) (fun name inside => members name (.tail _ inside))
      fun name inside => able name (.tail _ inside)

/-- A list is read and written again, where the client may write. -/
theorem relist_completes {name : String}
    {mutate : Dict Value → Program M (Option (Dict Value))} {new : Option Assignment}
    (readable : Readable world.vars)
    (clear : FileVariables.refuses (vms.assignment name) = false) (controls : Controls view)
    (reads : ReadsOnly (mutate (rowValues (world.vars.read (vms.assignment name)))))
    (returns : Ends view i (mutate (rowValues (world.vars.read (vms.assignment name)))) world.tick
      (new.map Assignment.toItems) world.tick) :
    Completes view i (do
      let written ← Controller.write (vms.assignment name) mutate
      Program.value (Assignment.fromItems name written)) world fun _ world' => Readable world'.vars := by
  obtain ⟨middle, wrote, rows⟩ := Ends.write reads returns clear (controls ["workers", name] (by simp))
  apply Completes.after wrote
  cases new with
  | none =>
    obtain ⟨a, read⟩ := readable.lists name
    have same : middle.vars = world.vars := rows
    exact Completes.value read (same ▸ readable)
  | some new =>
    obtain ⟨a, read⟩ := fromItems_written name new
    refine Completes.value read ?_
    rw [rows]
    exact readable.list clear new

theorem assignRemove_completes {worker : String} (unit : String) (readable : Readable world.vars)
    (clear : FileVariables.refuses (vms.assignment worker) = false) (controls : Controls view) :
    Completes view i (Controller.assignRemove vms worker unit) world fun _ world' => Readable world'.vars := by
  obtain ⟨a, read⟩ := readable.lists worker
  refine @relist_completes _ _ _ _ _ _ _ _ (if unit ∉ a.units then none else
    some ⟨worker, a.units.filter (· ≠ unit), a.rev + 1⟩) readable clear controls ?_ ?_
  · refine ReadsOnly.bind (ReadsOnly.value _) fun a => ?_
    split <;> trivial
  · rw [read]
    show Ends view i (if unit ∉ a.units then _ else _) _ _ _
    split <;> rfl

theorem assignAdd_completes {worker : String} (unit : String) (readable : Readable world.vars)
    (clear : FileVariables.refuses (vms.assignment worker) = false) (controls : Controls view) :
    Completes view i (Controller.assignAdd vms worker unit) world fun _ world' => Readable world'.vars := by
  obtain ⟨a, read⟩ := readable.lists worker
  refine @relist_completes _ _ _ _ _ _ _ _ (if unit ∈ a.units then none else
    some ⟨worker, Controller.withUnit a.units unit, a.rev + 1⟩) readable clear controls ?_ ?_
  · refine ReadsOnly.bind (ReadsOnly.value _) fun a => ?_
    split <;> trivial
  · rw [read]
    show Ends view i (if unit ∈ a.units then _ else _) _ _ _
    split <;> rfl

/-- The names of the lists that a call found are names that it may look up. -/
def Clear (found : Dict Assignment) : Prop := ∀ entry ∈ found, FileVariables.refuses (vms.assignment entry.1) = false

theorem unlistRounds_completes {unit to_ : String} {listed : Dict Assignment} (readable : Readable world.vars)
    (clear : Clear listed) (controls : Controls view) :
    Completes view i (unlistRounds unit to_ listed) world fun _ world' => Readable world'.vars := by
  induction listed generalizing world with
  | nil => exact Completes.ret readable
  | cons entry rest ih =>
    have clear' : Clear rest := fun other member => clear other (.tail _ member)
    unfold unlistRounds
    split
    · apply Completes.bind (assignRemove_completes unit readable (clear entry (.head _)) controls)
      intro a middle _ readable'
      exact ih readable' clear'
    · exact ih readable clear'

theorem assignmentsRounds_completes {paths : List Key} {out : Dict Assignment} (readable : Readable world.vars)
    (clear : ∀ path ∈ paths, FileVariables.refuses (vms.assignment (lastSegment path)) = false) (known : Clear out) :
    Completes view i (Controller.assignmentsRounds vms paths out) world fun found world' =>
      Readable world'.vars ∧ Clear found := by
  induction paths generalizing out world with
  | nil => exact Completes.ret ⟨readable, known⟩
  | cons path rest ih =>
    apply Completes.bind (assignment_completes readable (clear path (.head _)))
    intro a middle _ same
    apply ih (same ▸ readable) fun other member => clear other (.tail _ member)
    intro entry member
    obtain rfl | old := Dict.mem_set member
    · exact clear path (.head _)
    · exact known entry old

theorem moveRow_returns {to_ reason : String} {it : Dict Value} {rev : Int} (counted : nextRev it = .ok rev) :
    Ends view i (do
      let now ← Program.wall
      return some (placementItems (.plain to_) (.plain reason) now (← Program.value (nextRev it)))) world
      (some (placementItems (.plain to_) (.plain reason) world.now.wall rev)) world.tick := by
  rw [counted]
  rfl

theorem move_completes {cid : Int} {to_ reason : String} (readable : Readable world.vars)
    (clear : FileVariables.refuses (vms.assignment to_) = false) (controls : Controls view) :
    Completes view i (VmsController.move cid to_ reason) world fun _ world' => Readable world'.vars := by
  apply Completes.settling
  have nothing : Clear [] := fun entry member => by cases member
  have readable_ : Readable world.tick.vars := readable
  apply Completes.bind (Completes.after Ends.list (assignmentsRounds_completes readable_ readable.clear nothing))
  rintro found middle - ⟨readable', clear'⟩
  apply Completes.bind (unlistRounds_completes readable' clear' controls)
  intro _ cleared _ readable''
  obtain ⟨rev, counted⟩ := readable''.placed cid
  obtain ⟨placed, wrote, rows⟩ := @Ends.write ι M _ view i cleared _ (placementKey cid)
    (fun it => do
      let now ← Program.wall
      return some (placementItems (.plain to_) (.plain reason) now (← Program.value (nextRev it))))
    _ (ReadsOnly.moveRow to_ reason _) (moveRow_returns counted) (placementKey_clear cid)
    (controls ["placement", toString cid] (by simp))
  apply Completes.after wrote
  have readable_ : Readable placed.vars := by
    rw [rows]
    exact readable''.row cid _ _ _ _
  apply Completes.bind (assignAdd_completes (toString cid) readable_ clear controls)
  intro a world' _ last
  exact Completes.value rfl last

/-! ## The rounds of a call -/

theorem mapM_toInt_total {units : List String} (cameras : ∀ unit ∈ units, ∃ cid : Int, unit = toString cid) :
    ∃ cids, units.mapM (fun unit => (Text.plain unit).toInt) = .ok cids := by
  induction units with
  | nil => exact ⟨[], rfl⟩
  | cons unit rest ih =>
    obtain ⟨cid, rfl⟩ := cameras unit (.head _)
    obtain ⟨others, later⟩ := ih fun other member => cameras other (.tail _ member)
    have first : (Text.plain (toString cid)).toInt = .ok cid := toInt_eq_ok.mpr (pyInt_toString cid)
    refine ⟨cid :: others, ?_⟩
    rw [List.mapM_cons, first, later]
    rfl

/-- A call makes the moves of the run on the board. -/
theorem rebalanceRounds_completes {left : Nat} {moves : List Moved} (readable : Readable world.vars)
    (tidy : Listed (boardOf world.vars)) (reporting : Reporting view i capacity workers world live carries)
    (members : ∀ name ∈ names, name ∈ live)
    (clear : ∀ name ∈ live, FileVariables.refuses (vms.assignment name) = false)
    (able : 0 < left → 2 ≤ names.length → ∀ name ∈ names, carries name ≠ 0) (controls : Controls view) :
    Completes view i (rebalanceRounds double capacity tenth names left moves) world fun result world' =>
      turns double carries names left (boardOf world.vars, moves) = (boardOf world'.vars, result) ∧
        Readable world'.vars := by
  induction left generalizing moves world with
  | zero => exact Completes.ret ⟨rfl, readable⟩
  | succ left ih =>
    unfold rebalanceRounds
    obtain _ | ⟨first, _ | ⟨second, rest⟩⟩ := names
    · exact Completes.ret ⟨turns_stop rfl, readable⟩
    · exact Completes.ret ⟨turns_stop rfl, readable⟩
    -- Two workers or more.
    dsimp only
    apply Completes.bind (loadsRounds_completes readable reporting members clear (able (by omega) (by simp)))
    intro loads measured ends same
    obtain ⟨measuring, each⟩ := loadsRounds_ends members reporting.steady ends
    have levels : ∀ name ∈ first :: second :: rest,
        loads.getD name 0 = level double carries (boardOf world.vars) name := by
      intro name member
      rw [each, if_pos member]
    rw [extreme_eq levels, extreme_eq levels, levels _ farthest_mem, levels _ farthest_mem]
    obtain ⟨hi, hi_eq⟩ : ∃ hi,
        hi = farthest (fun load most => load > most) (level double carries (boardOf world.vars)) first
      (second :: rest) := ⟨_, rfl⟩
    obtain ⟨lo, lo_eq⟩ : ∃ lo,
        lo = farthest (fun load least => load < least) (level double carries (boardOf world.vars)) first
      (second :: rest) := ⟨_, rfl⟩
    have most : hi ∈ live := members hi (hi_eq ▸ farthest_mem)
    have least : lo ∈ live := members lo (lo_eq ▸ farthest_mem)
    have picks : next double carries (first :: second :: rest) (boardOf world.vars) =
        (if double (level double carries (boardOf world.vars) hi - level double carries (boardOf world.vars) lo) < tenth then none
        else (Board.ids (unitsOf world.vars hi)).head?.bind fun cid =>
          if ((unitsOf world.vars lo).length : Int) + 1 > carries lo then none else some (cid, lo)).map
            fun move => (move.1, hi, move.2) := by
      simp only [next, surplus, ← hi_eq, ← lo_eq]
      have held : (boardOf world.vars).units hi = unitsOf world.vars hi := rfl
      rw [held]
      cases Board.ids (unitsOf world.vars hi) <;> rfl
    rw [← hi_eq, ← lo_eq]
    split
    next even =>
      rw [if_pos even] at picks
      refine Completes.ret ⟨?_, same ▸ readable⟩
      rw [turns_stop picks, same]
    next uneven =>
      rw [if_neg uneven] at picks
      apply Completes.bind (assignment_completes (same ▸ readable) (clear hi most))
      intro a looked assigned same'
      obtain ⟨looking, units⟩ := assignment_ends assigned
      have waits := measuring.trans looking
      rw [measuring.1] at units
      have cameras : ∀ unit ∈ a.units, ∃ cid : Int, unit = toString cid := units ▸ tidy.cameras hi
      obtain ⟨cids, parsed⟩ := mapM_toInt_total cameras
      apply Completes.after (Ends.value parsed)
      rw [Board.ids, ← units, mapM_toInt parsed] at picks
      split
      next nobody =>
        rw [nobody] at picks
        refine Completes.ret ⟨?_, waits.1 ▸ readable⟩
        rw [turns_stop picks, waits.1]
      next cid others listed =>
        rw [listed, List.head?_cons, Option.bind_some] at picks
        apply Completes.bind (load_completes (waits.1 ▸ readable) (clear lo least))
        intro carried_ weighed loaded _
        obtain ⟨weighing, rfl⟩ := load_ends loaded
        have weighed_ := waits.trans weighing
        obtain ⟨asked, capable⟩ := reporting.capable weighed lo least weighed_.2.1 weighed_.2.2
        apply Completes.after capable
        have ready := weighed_.trans (capable.waited (ReadsOnly.capacityOf capacity lo))
        rw [waits.1]
        split
        next full =>
          rw [if_pos full] at picks
          refine Completes.ret ⟨?_, ready.1 ▸ readable⟩
          rw [turns_stop picks, ready.1]
        next free_ =>
          rw [if_neg free_] at picks
          apply Completes.bind (move_completes (ready.1 ▸ readable) (clear lo least) controls)
          intro pl middle moves' readable'
          have board : boardOf middle.vars = carried (boardOf world.vars) (cid, hi, lo) := by
            rw [move_board moves', ready.1, carried]
          have passed := ready.passed.trans moves'.passed
          refine Completes.mono ?_ (ih readable' (board ▸ tidy.carried _) (reporting.later passed) fun _ => able (by omega))
          rintro result world' - ⟨same, last⟩
          refine ⟨?_, last⟩
          rw [← same, board, turns, List.replicate_succ, List.foldl_cons, turn, picks]
          rfl

theorem loadsRounds_able {loads result : Dict ℚ} (steady : Steady view i capacity workers world live carries)
    (members : ∀ name ∈ names, name ∈ live)
    (ends : Ends view i (loadsRounds double capacity names loads) world result world') :
    ∀ name ∈ names, carries name ≠ 0 := by
  induction names generalizing loads world with
  | nil => simp
  | cons worker rest ih =>
    have member := members worker (.head _)
    obtain ⟨n, weighed, loaded, ends⟩ := Ends.bind_inv ends
    obtain ⟨able, asked, capable, ends⟩ := Ends.bind_inv ends
    obtain rfl := steady.carried weighed asked worker able member loaded.passed.1 loaded.passed.2 capable
    have passed := loaded.passed.trans capable.passed
    split at ends
    · cases ends
    next nonzero =>
      have later := ih (steady.later passed.1 passed.2) (fun name inside => members name (.tail _ inside)) ends
      exact List.forall_mem_cons.mpr ⟨nonzero, later⟩

/-- A round of two workers or more divides by every capacity. -/
theorem rebalanceRounds_able {left : Nat} {moves result : List Moved}
    (steady : Steady view i capacity workers world live carries) (members : ∀ name ∈ names, name ∈ live)
    (some_ : 0 < left) (several : 2 ≤ names.length)
    (ends : Ends view i (rebalanceRounds double capacity tenth names left moves) world result world') :
    ∀ name ∈ names, carries name ≠ 0 := by
  obtain ⟨left, rfl⟩ := Nat.exists_eq_succ_of_ne_zero some_.ne'
  obtain _ | ⟨first, _ | ⟨second, rest⟩⟩ := names
  · simp at several
  · simp at several
  obtain ⟨loads, measured, measuring, -⟩ := Ends.bind_inv ends
  exact loadsRounds_able steady members measuring

/-! ## One call -/

/-- The call returns; each of its moves brings the two workers closer, and no camera moves twice; where it ends before
its budget is used up, a second call moves nothing. -/
def EvensOut (view : View) (i : ι) (double : ℚ → ℚ) (capacity budget : Int) (workers : Option (List String))
    (carries : String → Int) (world : World ι M) : Prop :=
  ∃ moves world', Ends view i (rebalance double capacity budget tenth workers) world moves world' ∧
    boardOf world'.vars = moves.foldl carried (boardOf world.vars) ∧
    Along carried (Narrows carries) moves (boardOf world.vars) ∧ (moves.map Prod.fst).Nodup ∧
    ((moves.length : Int) < budget →
      ∃ world'', Ends view i (rebalance double capacity budget tenth workers) world' [] world'')

theorem listed_foldl (tidy : Listed board) (moves : List Moved) : Listed (moves.foldl carried board) := by
  induction moves generalizing board with
  | nil => exact tidy
  | cons move rest ih => exact ih (tidy.carried move)

theorem rebalance_completes (double : ℚ → ℚ) (budget : Int) (readable : Readable world.vars)
    (tidy : Listed (boardOf world.vars))
    (reporting : Reporting view i capacity workers world live carries)
    (clear : ∀ name ∈ live, FileVariables.refuses (vms.assignment name) = false) (controls : Controls view)
    (able : 0 < budget → 2 ≤ live.length → ∀ name ∈ live, carries name ≠ 0) :
    Completes view i (rebalance double capacity budget tenth workers) world fun result world' =>
      turns double carries (sorted live) budget.toNat (boardOf world.vars, []) = (boardOf world'.vars, result) ∧
        Readable world'.vars := by
  obtain ⟨seen, found⟩ := reporting.seen world rfl (Nat.le_refl _)
  have waits := found.waited (ReadsOnly.candidates workers)
  apply Completes.after found
  rw [← waits.1]
  apply rebalanceRounds_completes (waits.1 ▸ readable) (waits.1 ▸ tidy) (reporting.later waits.passed)
    (fun name => mem_sorted.mp) clear ?_ controls
  intro some_ several name member
  exact able (by omega) (by simpa [sorted] using several) name (mem_sorted.mp member)

theorem reporting_of_still {outside : Outside} (still : world.outside = fun _ => outside)
    (seen : answer outside (candidates workers : Program M _) = .ok live)
    (capable : ∀ worker ∈ live, answer outside (capacityOf capacity worker : Program M _) = .ok (carries worker)) :
    Reporting view i capacity workers world live carries :=
  ⟨fun _ same _ => (outward_candidates workers).ends (same.trans still) seen,
    fun _ worker member same _ => (outward_capacityOf capacity worker).ends (same.trans still) (capable worker member)⟩

/-! ## Two workers of the same size -/

/-- Two workers heartbeat, and each reports this capacity. -/
def twins (able : Int) : Outside :=
  { quietOutside with
    heartbeats := fun _ => ["w-1", "w-2"]
    heartbeat := fun _ name => .ok (some ⟨name, .finite 0, [], [("capacity", .int able)]⟩) }

/-- The first has these cameras. -/
def crowded (cams : List Int) (able : Int) : World Unit Unit :=
  ⟨(cams.foldl (fun rows cid => rows.write (placementRow (toString cid))
      (stored (placementItems (.plain "w-1") (.plain "moved by hand") 0 1))) (Versioned.empty 1000)).write
        (vms.assignment "w-1") (stored (Assignment.toItems ⟨"w-1", cams.map toString, cams.length⟩)),
    fun _ => (), fun _ => twins able, 0⟩

theorem crowded_listed (able : Int) : Listed (boardOf (crowded [1, 2] able).vars) := by
  have units : ∀ name, unitsOf (crowded [1, 2] able).vars name = if name = "w-1" then ["1", "2"] else [] := by
    intro name
    by_cases same : name = "w-1"
    · rw [if_pos same, same]
      show unitsOf (crowded [1, 2] 0).vars "w-1" = ["1", "2"]
      decide +kernel
    · have differs : vms.assignment "w-1" ≠ vms.assignment name := by simpa using fun same' => same same'.symm
      rw [if_neg same, crowded, unitsOf_write_other _ _ differs]
      simp only [List.foldl_cons, List.foldl_nil]
      rw [unitsOf_write_other _ _ (placementRow_ne_assignment _ _),
        unitsOf_write_other _ _ (placementRow_ne_assignment _ _)]
      rfl
  constructor
  · intro name
    show (unitsOf _ name).Nodup
    rw [units]
    split <;> decide
  · intro name unit member
    change unit ∈ unitsOf _ name at member
    rw [units] at member
    split at member
    · obtain rfl | rfl : unit = "1" ∨ unit = "2" := by simpa using member
      · exact ⟨1, by decide⟩
      · exact ⟨2, by decide⟩
    · cases member

end EdgeVms.Verified.Rebalance
