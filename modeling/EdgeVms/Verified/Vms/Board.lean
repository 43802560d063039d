import EdgeVms.Process.Greedy
import EdgeVms.Process.Run
import EdgeVms.Verified.Vms.SingleController
import Mathlib.Data.Int.ConditionallyCompleteOrder

/-! # The board

Who has what, without the rows that say so.  On a board `place`, `ensure_placed`
and `redistribute` are greedy: each camera goes to the first of the workers with
the most room.  `place_board` and its successors say that the calls make exactly
these moves.
-/

namespace EdgeVms.Verified

open Process Python Platform Vms VmsController

/-- The list of each worker, and the worker of each unit. -/
structure Board where
  units : String → List String
  worker : String → Option String

def boardOf (rows : Rows) : Board := ⟨unitsOf rows, workerOf rows⟩

namespace Board

def room (carries : String → Int) (board : Board) (name : String) : Int := carries name - (board.units name).length

/-- The list with the unit in it. -/
def joined (units : List String) (unit : String) : List String :=
  if unit ∈ units then units else Controller.withUnit units unit

def give (board : Board) (unit name : String) : Board where
  units := Function.update board.units name (joined (board.units name) unit)
  worker := Function.update board.worker unit (named name)

/-- The unit off every list but one. -/
def clear (board : Board) (unit kept : String) : Board :=
  { board with units := fun name => if name = kept then board.units name else (board.units name).filter (· ≠ unit) }

def bring (board : Board) (unit name : String) : Board := (board.clear unit name).give unit name

/-- The worker that gets the next camera. -/
def next (carries : String → Int) (names : List String) (board : Board) : Option String :=
  choice (board.room carries) (sorted names)

/-- `place`. -/
def placed (carries : String → Int) (live : List String) (board : Board) (cid : Int) : Board :=
  if (board.worker (toString cid)).isSome then board
  else match board.next carries live with
    | none => board
    | some name => board.give (toString cid) name

/-- A camera of a released slot moves to one of these workers. -/
def shifted (carries : String → Int) (names : List String) (board : Board) (cid : Int) : Board :=
  match board.next carries names with
  | none => board
  | some name => board.bring (toString cid) name

/-- The cameras of a list, in order. -/
def ids (units : List String) : List Int := (units.filterMap pyInt).insertionSort (· ≤ ·)

/-- The live workers but one. -/
def others (live : List String) (gone : String) : List String := live.filter (· ≠ gone)

/-- `redistribute`, for one released slot. -/
def emptied (carries : String → Int) (live : List String) (board : Board) (gone : String) : Board :=
  (ids (board.units gone)).foldl (shifted carries (others live gone)) board

/-- The worker that gets the next camera is one that suits it. -/
def Suits (fine : Int → String → Prop) (carries : String → Int) (names : List String) (board : Board) (cid : Int) :
    Prop :=
  ∀ best ∈ board.next carries names, fine cid best

/-- The camera is placed, or the worker that gets it suits it. -/
def Suited (fine : Int → String → Prop) (carries : String → Int) (live : List String) (board : Board) (cid : Int) :
    Prop :=
  board.worker (toString cid) = none → Suits fine carries live board cid

/-- Every camera of the slot goes to a worker that suits it. -/
def Empties (fine : Int → String → Prop) (carries : String → Int) (live : List String) (board : Board)
    (gone : String) : Prop :=
  Along (shifted carries (others live gone)) (Suits fine carries (others live gone)) (ids (board.units gone)) board

variable {carries : String → Int} {names : List String} {board : Board}

/-- Where nobody has room, nothing moves. -/
theorem shifted_full (full : board.next carries names = none) (cids : List Int) :
    cids.foldl (shifted carries names) board = board := by
  induction cids with
  | nil => rfl
  | cons cid rest ih => rw [List.foldl_cons, shifted, full, ih]

theorem shifted_some {best : String} (chosen : board.next carries names = some best) (cid : Int) :
    board.shifted carries names cid = board.bring (toString cid) best := by
  rw [shifted, chosen]

/-- Where nobody has room, no worker is unsuited. -/
theorem along_full {fine : Int → String → Prop} (full : board.next carries names = none)
    (cids : List Int) : Along (shifted carries names) (Suits fine carries names) cids board := by
  induction cids with
  | nil => exact .nil
  | cons cid rest ih =>
    refine .cons (fun best chosen => ?_) ?_
    · rw [full] at chosen
      cases chosen
    · rwa [shifted, full]

end Board

/-! ## The rows follow the board -/

theorem Gave.board {rows rows' : Rows} {unit best : String} (gave : Gave rows rows' unit best) :
    boardOf rows' = (boardOf rows).give unit best := by
  obtain ⟨items, row, list⟩ := gave
  have kept : ∀ name, unitsOf (rows.write (placementRow unit) items) name = unitsOf rows name :=
    fun name => unitsOf_write_other _ _ (placementRow_ne_assignment _ _)
  have workers : workerOf (rows.write (placementRow unit) items) =
      Function.update (workerOf rows) unit (named best) := by
    funext other
    by_cases same : other = unit
    · rw [same, Function.update_self, workerOf_write_self, row]
    · rw [Function.update_of_ne same, workerOf_write_other _ _ (by simpa using fun same' => same same'.symm)]
  simp only [boardOf, Board.give, Board.mk.injEq]
  obtain ⟨there, rfl⟩ | ⟨missing, texts, rfl, units⟩ := list
  · refine ⟨funext fun name => ?_, workers⟩
    rw [kept] at there ⊢
    by_cases same : name = best
    · rw [same, Function.update_self, Board.joined, if_pos there]
    · rw [Function.update_of_ne same]
  · rw [kept] at missing units
    refine ⟨funext fun name => ?_, ?_⟩
    · by_cases same : name = best
      · rw [same, Function.update_self, unitsOf_write_self, units, Board.joined, if_neg missing]
      · rw [Function.update_of_ne same, unitsOf_write_other _ _ (by simpa using fun same' => same same'.symm), kept]
    · rw [← workers]
      funext other
      exact workerOf_write_other _ _ (assignment_ne_placementRow _ _)

theorem Unlisted.board {rows rows' : Rows} {unit kept : String} (off : Unlisted rows rows' unit (· ≠ kept)) :
    boardOf rows' = (boardOf rows).clear unit kept := by
  simp only [boardOf, Board.clear, Board.mk.injEq]
  refine ⟨funext fun name => ?_, funext off.workers⟩
  split
  next same => exact off.kept name fun differs => differs same
  next differs => exact off.taken name differs

variable {ι M : Type} [DecidableEq ι] {view : View} {i : ι} {world world' : World ι M} {capacity : Int}
  {workers : Option (List String)} {live : List String} {carries : String → Int}

theorem move_board {cid : Int} {to_ reason : String} {result : Placement}
    (ends : Ends view i (move cid to_ reason) world result world') :
    boardOf world'.vars = (boardOf world.vars).bring (toString cid) to_ := by
  obtain ⟨cleared, off, gave⟩ := move_gives ends
  rw [gave.board, off.board, Board.bring]

/-! ## The choices -/

theorem bestRounds_choice {names seen : List String} {result : Option String × Int}
    (members : ∀ name ∈ names, name ∈ live) (steady : Steady view i capacity workers world live carries)
    (ends : Ends view i (bestRounds capacity names (choice (room carries world.vars) seen)
      (((choice (room carries world.vars) seen).map (room carries world.vars)).getD 0)) world result world') :
    result.1 = choice (room carries world.vars) (seen ++ names) := by
  induction names generalizing seen world with
  | nil =>
    obtain ⟨rfl, -⟩ := Ends.ret_inv ends
    rw [List.append_nil]
  | cons worker rest ih =>
    obtain ⟨f, middle, freed, ends⟩ := Ends.bind_inv ends
    obtain ⟨waits, rfl⟩ := free_ends (members worker List.mem_cons_self) steady freed
    have rooms : room carries middle.vars = room carries world.vars := by
      funext name
      rw [room, room, waits.1]
    have members' : ∀ name ∈ rest, name ∈ live := fun name member => members name (List.mem_cons_of_mem _ member)
    have steady' := steady.later waits.2.1 waits.2.2
    have further := choice_concat (room carries world.vars) seen worker
    have ih' := @ih middle (seen ++ [worker]) members' steady'
    rw [rooms, further, List.append_assoc, List.singleton_append] at ih'
    split at ends
    next more =>
      rw [if_pos more] at ih'
      exact ih' ends
    next fewer =>
      rw [if_neg fewer] at ih'
      exact ih' ends

/-- The most free worker, with its room. -/
theorem mostFreeRounds_choice {names seen : List String} {result : Option String}
    (members : ∀ name ∈ names, name ∈ live) (steady : Steady view i capacity workers world live carries)
    (ends : Ends view i (mostFreeRounds capacity names ((seen.argmax (room carries world.vars)).map fun name =>
      (name, room carries world.vars name))) world result world') :
    result = (seen ++ names).argmax (room carries world.vars) := by
  induction names generalizing seen world with
  | nil =>
    obtain ⟨rfl, -⟩ := Ends.ret_inv ends
    rw [List.append_nil, Option.map_map]
    exact Option.map_id'
  | cons worker rest ih =>
    obtain ⟨f, middle, freed, ends⟩ := Ends.bind_inv ends
    obtain ⟨waits, rfl⟩ := free_ends (members worker List.mem_cons_self) steady freed
    have rooms : room carries middle.vars = room carries world.vars := by
      funext name
      rw [room, room, waits.1]
    have members' : ∀ name ∈ rest, name ∈ live := fun name member => members name (List.mem_cons_of_mem _ member)
    have steady' := steady.later waits.2.1 waits.2.2
    have further := List.argmax_concat (room carries world.vars) worker seen
    have ih' := @ih middle (seen ++ [worker]) members' steady'
    rw [rooms, further, List.append_assoc, List.singleton_append] at ih'
    cases most : seen.argmax (room carries world.vars) with
    | none =>
      rw [most] at ends ih'
      exact ih' ends
    | some best =>
      rw [most] at ends ih'
      dsimp only [Option.map_some] at ends ih'
      split at ends
      next more =>
        rw [if_pos more] at ih'
        exact ih' ends
      next fewer =>
        rw [if_neg fewer] at ih'
        exact ih' ends

/-! ## The calls that choose -/

theorem mem_sorted {names : List String} {name : String} :
    name ∈ sorted names ↔ name ∈ names := List.mem_insertionSort _

theorem place_board {cid : Int} {result : Option Placement} (steady : Steady view i capacity workers world live carries)
    (ends : Ends view i (place capacity cid workers) world result world') :
    Passed world world' ∧ boardOf world'.vars = (boardOf world.vars).placed carries live cid := by
  obtain ⟨outside, served,
      ⟨⟨worker, row⟩, same⟩ | ⟨vacant, placed, names, seen, best, compared, waits, found, chosen, -,
    placing⟩⟩ := place_cases ends
  · refine ⟨⟨outside, served⟩, ?_⟩
    rw [same, Board.placed, if_pos]
    exact Option.isSome_iff_exists.mpr ⟨worker, row⟩
  · refine ⟨⟨outside, served⟩, ?_⟩
    have seeing := waits.trans (found.waited (ReadsOnly.candidates workers))
    obtain rfl := steady.seen placed seen names waits.2.1 waits.2.2 found
    have rooms : room carries seen.vars = (boardOf world.vars).room carries := by
      rw [seeing.1]
      rfl
    have choice_ := @bestRounds_choice ι M _ view i seen compared capacity workers names carries (sorted names) [] best
      (fun name => mem_sorted.mp) (steady.later seeing.2.1 seeing.2.2) chosen
    have free_row : (boardOf world.vars).worker (toString cid) = none := vacant
    rw [List.nil_append, rooms] at choice_
    rw [Board.placed, free_row, if_neg (by simp), Board.next, ← choice_]
    obtain ⟨_ | name, most⟩ := best
    · exact congrArg boardOf placing
    · exact placing.board

theorem ensureRounds_board {cams : List (Int × Dict Value)} {out result : List Placement}
    (steady : Steady view i capacity workers world live carries)
    (ends : Ends view i (ensureRounds capacity workers cams out) world result world') :
    boardOf world'.vars = (cams.map Prod.fst).foldl (Board.placed carries live) (boardOf world.vars) := by
  induction cams generalizing out world with
  | nil =>
    obtain ⟨-, rfl⟩ := Ends.ret_inv ends
    rfl
  | cons cam rest ih =>
    obtain ⟨pl, middle, placed, ends⟩ := Ends.bind_inv ends
    obtain ⟨passed, first⟩ := place_board steady placed
    have later := steady.later passed.1 passed.2
    rw [List.map_cons, List.foldl_cons, ← first]
    cases pl with
    | some pl => exact ih later ends
    | none => exact ih later ends

theorem toInt_eq_ok {unit : String} {cid : Int} : (Text.plain unit).toInt = .ok cid ↔ pyInt unit = some cid := by
  rw [Text.toInt, Text.string]
  cases pyInt unit with
  | none => simp
  | some n => simp

/-- The most free worker is the choice unless it is full. -/
theorem destination {best : String} {names : List String} {carried able : Int} {compared weighed asked : World ι M}
    (members : ∀ name ∈ names, name ∈ live) (steady : Steady view i capacity workers world live carries)
    (chosen : Ends view i (mostFreeRounds capacity names none) world (some best) compared)
    (loaded : Ends view i (load best) compared carried weighed)
    (capable : Ends view i (capacityOf capacity best) weighed able asked) :
    Waited world asked ∧
      choice ((boardOf world.vars).room carries) names = if carried ≥ able then none else some best := by
  have comparing := chosen.waited (ReadsOnly.mostFreeRounds capacity names none)
  have most :=
    @mostFreeRounds_choice ι M _ view i world compared capacity workers live carries names [] _ members steady
    chosen
  rw [List.nil_append] at most
  have member : best ∈ live := members best (List.argmax_mem most.symm)
  obtain ⟨weighing, rfl⟩ := load_ends loaded
  have waits := (comparing.trans weighing).trans (capable.waited (ReadsOnly.capacityOf capacity best))
  obtain rfl := steady.carried weighed asked best able member (comparing.trans weighing).2.1
    (comparing.trans weighing).2.2 capable
  refine ⟨waits, ?_⟩
  have board : choice ((boardOf world.vars).room carries) names =
      (some best).filter fun name => 0 < room carries world.vars name := by
    rw [most]
    rfl
  have left : room carries world.vars best = carries best - (unitsOf compared.vars best).length := by
    rw [room, comparing.1]
  rw [board, Option.filter_some]
  by_cases full : ((unitsOf compared.vars best).length : Int) ≥ carries best
  · rw [if_pos full, if_neg]
    rw [decide_eq_true_eq]
    omega
  · rw [if_neg full, if_pos]
    rw [decide_eq_true_eq]
    omega

theorem mostFree_none {names : List String} {compared : World ι M} (members : ∀ name ∈ names, name ∈ live)
    (steady : Steady view i capacity workers world live carries)
    (chosen : Ends view i (mostFreeRounds capacity names none) world none compared) :
    choice ((boardOf world.vars).room carries) names = none := by
  have most :=
    @mostFreeRounds_choice ι M _ view i world compared capacity workers live carries names [] _ members steady
    chosen
  rw [List.nil_append] at most
  have nobody := List.argmax_eq_none.mp most.symm
  rw [nobody]
  rfl

/-- What one camera of a released slot comes to: the slot's turn is over, or the camera moves. -/
theorem redistributeUnits_cases {gone unit : String} {names rest : List String} {moves result : List Moved}
    (members : ∀ name ∈ names, name ∈ live) (steady : Steady view i capacity workers world live carries)
    (ends : Ends view i (redistributeUnits capacity gone names (unit :: rest) moves) world result world') :
    ∃ cid, pyInt unit = some cid ∧
      match choice ((boardOf world.vars).room carries) names with
      | none => Waited world world'
      | some best => ∃ reason ready pl moved, Waited world ready ∧ Ends view i (move cid best reason) ready pl moved ∧
          Ends view i (redistributeUnits capacity gone names rest (moves ++ [(cid, gone, best)])) moved
            result world' := by
  obtain ⟨cid, world, parsed, afterParse⟩ := Ends.bind_inv ends
  obtain ⟨read, rfl⟩ := Ends.value_inv parsed
  refine ⟨cid, toInt_eq_ok.mp read, ?_⟩
  obtain ⟨best, compared, chosen, ends⟩ := Ends.bind_inv afterParse
  cases best with
  | none =>
    obtain ⟨-, rfl⟩ := Ends.ret_inv ends
    rw [mostFree_none members steady chosen]
    exact chosen.waited (ReadsOnly.mostFreeRounds capacity names none)
  | some best =>
    obtain ⟨carried, weighed, loaded, ends⟩ := Ends.bind_inv ends
    obtain ⟨able, asked, capable, ends⟩ := Ends.bind_inv ends
    obtain ⟨waits, board⟩ := destination members steady chosen loaded capable
    rw [board]
    split at ends
    next full =>
      obtain ⟨-, rfl⟩ := Ends.ret_inv ends
      rw [if_pos full]
      exact waits
    next free_ =>
      obtain ⟨f, ready, measured, ends⟩ := Ends.bind_inv ends
      have waits' := waits.trans (measured.waited (ReadsOnly.free capacity best))
      obtain ⟨pl, moved, moves', ends⟩ := Ends.bind_inv ends
      rw [if_neg free_]
      exact ⟨_, ready, pl, moved, waits', moves', ends⟩

theorem redistributeUnits_board {gone : String} {names units : List String} {moves result : List Moved}
    (members : ∀ name ∈ names, name ∈ live) (steady : Steady view i capacity workers world live carries)
    (ends : Ends view i (redistributeUnits capacity gone (sorted names) units moves) world result world') :
    boardOf world'.vars = (units.filterMap pyInt).foldl (Board.shifted carries names) (boardOf world.vars) := by
  induction units generalizing moves world with
  | nil =>
    obtain ⟨-, rfl⟩ := Ends.ret_inv ends
    rfl
  | cons unit rest ih =>
    obtain ⟨cid, read, stepped⟩ :=
      redistributeUnits_cases (fun name member => members name (mem_sorted.mp member)) steady ends
    rw [List.filterMap_cons_some read, List.foldl_cons, Board.shifted, Board.next]
    cases chosen : choice ((boardOf world.vars).room carries) (sorted names) with
    | none =>
      rw [chosen] at stepped
      rw [stepped.1]
      exact (Board.shifted_full chosen _).symm
    | some best =>
      rw [chosen] at stepped
      obtain ⟨reason, ready, pl, moved, waits, moves', ends'⟩ := stepped
      have passed := waits.passed.trans moves'.passed
      rw [ih (steady.later passed.1 passed.2) ends', move_board moves', waits.1]

theorem ids_sortedBy {units inOrder : List String}
    (made : sortedBy (fun unit => (Text.plain unit).toInt) units = .ok inOrder) :
    inOrder.filterMap pyInt = Board.ids units := by
  simp only [sortedBy, bind_eq_ok] at made
  obtain ⟨keyed, parsed, ends⟩ := made
  cases ends
  have parse : units.filterMap pyInt = keyed.map Prod.fst ∧ ∀ entry ∈ keyed, pyInt entry.2 = some entry.1 := by
    induction units generalizing keyed with
    | nil =>
      cases parsed
      exact ⟨rfl, by simp⟩
    | cons unit rest ih =>
      simp only [List.mapM_cons, bind_eq_ok] at parsed
      obtain ⟨entry, ⟨cid, read, made⟩, others, later, ends⟩ := parsed
      cases made
      cases ends
      obtain ⟨same, each⟩ := ih others later
      have found := toInt_eq_ok.mp read
      refine ⟨by rw [List.filterMap_cons_some found, same, List.map_cons], List.forall_mem_cons.mpr ⟨found, each⟩⟩
  have pairs : ∀ entries : List (Int × String), (∀ entry ∈ entries, pyInt entry.2 = some entry.1) →
      (entries.map Prod.snd).filterMap pyInt = entries.map Prod.fst := by
    intro entries each
    induction entries with
    | nil => rfl
    | cons entry rest ih =>
      rw [List.map_cons, List.filterMap_cons_some (each entry (.head _)),
        ih fun other member => each other (.tail _ member),
        List.map_cons]
  rw [pairs _ fun entry member => parse.2 entry ((List.mem_insertionSort _).mp member), Board.ids, parse.1]
  exact List.map_insertionSort _ _ _ _ fun _ _ _ _ => Iff.rfl

theorem redistributeRounds_board {gones : List String} {moves result : List Moved}
    (steady : Steady view i capacity workers world live carries)
    (ends : Ends view i (redistributeRounds capacity workers gones moves) world result world') :
    boardOf world'.vars = gones.foldl (Board.emptied carries live) (boardOf world.vars) := by
  induction gones generalizing moves world with
  | nil =>
    obtain ⟨-, rfl⟩ := Ends.ret_inv ends
    rfl
  | cons gone rest ih =>
    obtain ⟨names, seen, found, ends⟩ := Ends.bind_inv ends
    have seeing := found.waited (ReadsOnly.candidates workers)
    obtain rfl := steady.seen world seen names rfl (Nat.le_refl _) found
    obtain ⟨a, looked, assigned, ends⟩ := Ends.bind_inv ends
    have looking := assigned.waited (ReadsOnly.assignment vms gone)
    obtain ⟨answer, _, got, assigned⟩ := Ends.bind_inv assigned
    obtain ⟨rfl, -⟩ := Ends.get_inv got
    have units := (units_fromItems (Ends.value_inv assigned).1).1
    obtain ⟨inOrder, _, made, afterSort⟩ := Ends.bind_inv ends
    obtain ⟨ordered, rfl⟩ := Ends.value_inv made
    obtain ⟨moves', middle, redistributed, ends⟩ := Ends.bind_inv afterSort
    have waits := seeing.trans looking
    have first := redistributeUnits_board (fun name member => List.mem_of_mem_filter member)
      (steady.later waits.2.1 waits.2.2) redistributed
    rw [ids_sortedBy ordered, units, seeing.1, waits.1] at first
    have passed := waits.passed.trans redistributed.passed
    rw [ih (steady.later passed.1 passed.2) ends, first, List.foldl_cons]
    rfl

/-! ## What the calls write -/

/-- A placement row or a list, that brings a camera only where that is fine. -/
structure Assigns (fine : Int → String → Prop) (world : World ι M) (key : Key) (items : Dict Value) : Prop where
  own : ¬ Aside key
  row : ∀ (cid : Int) name, key = placementRow (toString cid) → workerIn (stored items) = some name → fine cid name
  list : ∀ (cid : Int) name, key = vms.assignment name → toString cid ∈ unitsIn (stored items) →
    toString cid ∈ unitsOf world.vars name ∨ fine cid name

variable {fine : Int → String → Prop}

omit [DecidableEq ι] in
theorem assigns_row {cid : Int} {best : String} {reason : Text} {at_ : ℚ} {rev : Int} (suits : fine cid best) :
    Assigns fine world (placementKey cid) (placementItems (.plain best) reason at_ rev) where
  own aside := aside.2 (toString cid) rfl
  row cid' name same worker := by
    obtain rfl := toString_inj (placementRow_inj.mp same)
    rw [workerIn_placementItems] at worker
    obtain ⟨rfl, -⟩ := named_eq_some.mp worker
    exact suits
  list _ name same _ := absurd same (placementRow_ne_assignment name (toString cid))

omit [DecidableEq ι] in
theorem assigns_list {worker : String} {a : Assignment} (atomic : ∀ unit ∈ a.units, Atomic ',' unit)
    (brings : ∀ cid : Int, toString cid ∈ a.units → toString cid ∈ unitsOf world.vars worker ∨ fine cid worker) :
    Assigns fine world (vms.assignment worker) a.toItems where
  own aside := aside.1 worker rfl
  row cid name same _ := absurd same (assignment_ne_placementRow worker (toString cid))
  list cid name same stands := by
    obtain rfl := assignment_inj.mp same
    rw [unitsIn_toItems atomic] at stands
    exact brings cid stands

theorem assignAdd_assigns {cid : Int} {worker : String} (suits : fine cid worker) :
    WritesOnly view i (Assigns fine) (Controller.assignAdd vms worker (toString cid)) world := by
  apply WritesOnly.bind
  · apply WritesOnly.write
    · intro items
      apply ReadsOnly.bind (ReadsOnly.value _)
      intro a
      split <;> trivial
    · intro new middle mutated
      obtain ⟨a, _, made, mutated⟩ := Ends.bind_inv mutated
      obtain ⟨read, rfl⟩ := Ends.value_inv made
      obtain ⟨units, atomic⟩ := units_fromItems read
      split at mutated
      · cases (Ends.ret_inv mutated).1
      · obtain ⟨same, rfl⟩ := Ends.ret_inv mutated
        cases same
        apply assigns_list
        · intro unit member
          obtain old | rfl := mem_withUnit.mp member
          · exact atomic unit old
          · exact atomic_toString cid
        · intro cid' member
          obtain old | same := mem_withUnit.mp member
          · exact .inl (units ▸ old)
          · exact .inr (toString_inj same ▸ suits)
  · intro written middle _
    exact WritesOnly.reads (ReadsOnly.value _)

theorem assignRemove_assigns (worker unit : String) :
    WritesOnly view i (Assigns fine) (Controller.assignRemove vms worker unit) world := by
  apply WritesOnly.bind
  · apply WritesOnly.write
    · intro items
      apply ReadsOnly.bind (ReadsOnly.value _)
      intro a
      split <;> trivial
    · intro new middle mutated
      obtain ⟨a, _, made, mutated⟩ := Ends.bind_inv mutated
      obtain ⟨read, rfl⟩ := Ends.value_inv made
      obtain ⟨units, atomic⟩ := units_fromItems read
      split at mutated
      · cases (Ends.ret_inv mutated).1
      · obtain ⟨same, rfl⟩ := Ends.ret_inv mutated
        cases same
        apply assigns_list
        · exact fun unit member => atomic unit (List.mem_filter.mp member).1
        · exact fun cid member => .inl (units ▸ (List.mem_filter.mp member).1)
  · intro written middle _
    exact WritesOnly.reads (ReadsOnly.value _)

theorem unlistRounds_assigns (unit to_ : String) (listed : Dict Assignment) :
    WritesOnly view i (Assigns fine) (unlistRounds unit to_ listed) world := by
  induction listed generalizing world with
  | nil => exact WritesOnly.ret ()
  | cons entry rest ih =>
    obtain ⟨worker, a⟩ := entry
    rw [unlistRounds]
    split
    · apply WritesOnly.bind (assignRemove_assigns worker unit)
      intro _ _ _
      exact ih
    · exact ih

theorem ReadsOnly.assignments : ReadsOnly (Controller.assignments vms : Program M _) := by
  refine bind (fun _ => trivial) fun paths => ?_
  have rounds : ∀ out, ReadsOnly (Controller.assignmentsRounds vms paths out : Program M _) := by
    induction paths with
    | nil => exact fun _ => trivial
    | cons path rest ih =>
      intro out
      apply bind (assignment vms _)
      intro a
      exact ih _
  exact rounds []

theorem ReadsOnly.moveRow (to_ reason : String) (it : Dict Value) : ReadsOnly (M := M) (do
    let now ← Program.wall
    return some (placementItems (.plain to_) (.plain reason) now (← Program.value (nextRev it)))) := by
  refine bind (fun _ => trivial) fun now => ?_
  exact bind (value _) fun _ => trivial

theorem moveRow_ends {to_ reason : String} {it new : Dict Value} (ends : Ends view i (do
    let now ← Program.wall
    return some (placementItems (.plain to_) (.plain reason) now (← Program.value (nextRev it))))
      world (some new) world') :
    ∃ now rev, new = placementItems (.plain to_) (.plain reason) now rev := by
  obtain ⟨now, _, clock, ends⟩ := Ends.bind_inv ends
  obtain ⟨rev, _, made, ends⟩ := Ends.bind_inv ends
  cases (Ends.ret_inv ends).1
  exact ⟨now, rev, rfl⟩

theorem move_assigns {cid : Int} {to_ reason : String} (suits : fine cid to_) :
    WritesOnly view i (Assigns fine) (move cid to_ reason) world := by
  unfold move
  rw [WritesOnly.settling_iff]
  apply WritesOnly.reads_bind ReadsOnly.assignments
  intro found _ _
  apply WritesOnly.bind (unlistRounds_assigns _ _ _)
  intro _ _ _
  apply WritesOnly.bind
  · apply WritesOnly.write (ReadsOnly.moveRow to_ reason)
    intro new middle mutated
    obtain ⟨now, rev, rfl⟩ := moveRow_ends mutated
    exact assigns_row suits
  intro written _ _
  apply WritesOnly.bind (assignAdd_assigns suits)
  intro _ _ _
  exact WritesOnly.reads (ReadsOnly.value _)

/-- A move that writes only what is fine is a fine one. -/
theorem move_assigned {cid : Int} {to_ reason : String} {result : Placement} (nonempty : to_ ≠ "")
    (writes : WritesOnly view i (Assigns fine) (move cid to_ reason) world)
    (ends : Ends view i (move cid to_ reason) world result world') : fine cid to_ := by
  unfold move at writes
  unfold Ends move at ends
  rw [WritesOnly.settling_iff] at writes
  rw [Proc.run_settling] at ends
  obtain ⟨found, read, assigned, ends⟩ := Ends.bind_inv ends
  obtain ⟨_, cleared, unlisted, ends⟩ := Ends.bind_inv ends
  obtain ⟨written, rowed, wrote, -⟩ := Ends.bind_inv ends
  have writes' := (WritesOnly.bind_iff.mp ((WritesOnly.bind_iff.mp writes).2 _ _ assigned)).2 _ _ unlisted
  have row := (WritesOnly.bind_iff.mp writes').1
  obtain ⟨new, middle, mutated, rest⟩ := write_ends (ReadsOnly.moveRow to_ reason) wrote
  obtain ⟨now, _, clock, made⟩ := Ends.bind_inv mutated
  obtain ⟨rev, _, counted, made⟩ := Ends.bind_inv made
  obtain ⟨rfl, rfl⟩ := Ends.ret_inv made
  have assigns := WritesOnly.written (ReadsOnly.moveRow to_ reason) row wrote mutated
  apply assigns.row cid to_ rfl
  rw [workerIn_placementItems]
  exact named_eq_some.mpr ⟨rfl, nonempty⟩


/-! ## What the choices write -/

theorem ReadsOnly.placeRow (best reason : Text) (now : ℚ) (it : Dict Value) : ReadsOnly (M := M) (do
    if hasWorker it then return none
    return some (placementItems best reason now (← Program.value (nextRev it)))) := by
  split
  · trivial
  · exact bind (value _) fun _ => trivial

/-- What `place` goes through until it has compared the workers. -/
theorem place_chooses {names : List String} {placed seen compared : World ι M} {best : Option String × Int}
    (steady : Steady view i capacity workers world live carries) (waits : Waited world placed)
    (found : Ends view i (candidates workers) placed names seen)
    (chosen : Ends view i (bestRounds capacity (sorted names) none 0) seen best compared) :
    Waited world compared ∧ best.1 = (boardOf world.vars).next carries live := by
  have seeing := waits.trans (found.waited (ReadsOnly.candidates workers))
  obtain rfl := steady.seen placed seen names waits.2.1 waits.2.2 found
  have rooms : room carries seen.vars = (boardOf world.vars).room carries := by
    rw [seeing.1]
    rfl
  have choice_ := @bestRounds_choice ι M _ view i seen compared capacity workers names carries (sorted names) [] best
    (fun name => mem_sorted.mp) (steady.later seeing.2.1 seeing.2.2) chosen
  rw [List.nil_append, rooms] at choice_
  exact ⟨seeing.trans (chosen.waited (ReadsOnly.bestRounds capacity (sorted names) none 0)), choice_⟩

theorem placement_none {cid : Int} {result : Option Placement}
    (ends : Ends view i (placement cid) world result world') :
    result = none ↔ workerOf world.vars (toString cid) = none := by
  have row := (placement_ends ends).2
  rw [← Option.not_isSome_iff_eq_none, ← Option.not_isSome_iff_eq_none, row]

/-- Where nobody has the camera, `place` writes the row that it chose. -/
theorem placeRow_written {cid : Int} {best reason : Text} {now : ℚ} {written : Dict Value}
    (vacant : workerOf world.vars (toString cid) = none)
    (ends : Ends view i (Controller.write (placementKey cid) fun it => do
      if hasWorker it then return none
      return some (placementItems best reason now (← Program.value (nextRev it)))) world written world') :
    ∃ rev, written = placementItems best reason now rev ∧ Ends view i (do
      if hasWorker (rowValues (world.vars.read (placementKey cid))) then return none
      return some
        (placementItems best reason now (← Program.value (nextRev (rowValues (world.vars.read (placementKey cid)))))))
        world.tick (some (placementItems best reason now rev)) world.tick := by
  obtain ⟨new, middle, mutated, rest⟩ := write_ends (ReadsOnly.placeRow best reason now) ends
  have free_row : ¬ hasWorker (rowValues (world.vars.read (placementKey cid))) = true := by
    rw [hasWorker_iff]
    change ¬ (workerOf world.vars (toString cid)).isSome = true
    rw [vacant]
    simp
  have made := mutated
  rw [if_neg free_row] at made
  obtain ⟨rev, _, counted, made⟩ := Ends.bind_inv made
  obtain ⟨-, rfl⟩ := Ends.value_inv counted
  obtain ⟨rfl, rfl⟩ := Ends.ret_inv made
  exact ⟨rev, rest.1, mutated⟩

theorem placeRow_assigns {α : Type} {cid : Int} {best : String} {reason : Text} {now : ℚ} {f : Dict Value → Program M α}
    (vacant : workerOf world.vars (toString cid) = none) (suits : fine cid best)
    (later : ∀ rev middle, WritesOnly view i (Assigns fine) (f (placementItems (.plain best) reason now rev)) middle) :
    WritesOnly view i (Assigns fine) (Controller.write (placementKey cid) (fun it => do
      if hasWorker it then return none
      return some (placementItems (.plain best) reason now (← Program.value (nextRev it)))) >>= f) world := by
  apply WritesOnly.bind
  · apply WritesOnly.write (ReadsOnly.placeRow _ _ now)
    intro new middle mutated
    split at mutated
    · cases (Ends.ret_inv mutated).1
    · obtain ⟨rev, _, counted, made⟩ := Ends.bind_inv mutated
      cases (Ends.ret_inv made).1
      exact assigns_row suits
  · intro written rowed wrote
    obtain ⟨rev, rfl, -⟩ := placeRow_written vacant wrote
    exact later rev rowed

theorem place_assigns {cid : Int} (steady : Steady view i capacity workers world live carries)
    (suited : Board.Suited fine carries live (boardOf world.vars) cid) :
    WritesOnly view i (Assigns fine) (place capacity cid workers) world := by
  unfold place
  apply WritesOnly.reads_bind (ReadsOnly.placement cid)
  intro have_ placed looked
  cases have_ with
  | some have_ => exact WritesOnly.ret _
  | none =>
    have looking := looked.waited (ReadsOnly.placement cid)
    have vacant := (placement_none looked).mp rfl
    apply WritesOnly.reads_bind (ReadsOnly.candidates workers)
    intro names seen found
    apply WritesOnly.reads_bind (ReadsOnly.bestRounds capacity (sorted names) none 0)
    intro best compared chosen
    obtain ⟨waits, next⟩ := place_chooses steady looking found chosen
    obtain ⟨_ | best, most⟩ := best
    · exact WritesOnly.ret _
    have suits : fine cid best := suited vacant best next.symm
    apply WritesOnly.reads_bind (p := Program.wall) (fun _ => trivial)
    intro now clocked clock
    have vacant' : workerOf clocked.vars (toString cid) = none := by
      cases clock
      rw [World.tick_vars, waits.1, vacant]
    apply placeRow_assigns vacant' suits
    intro rev rowed
    apply WritesOnly.reads_bind (ReadsOnly.value _)
    intro pl _ made
    obtain ⟨read, rfl⟩ := Ends.value_inv made
    refine WritesOnly.bind ?_ fun _ _ _ => WritesOnly.ret _
    rw [WritesOnly.within_iff, placement_new read]
    exact assignAdd_assigns suits

/-- A placement that writes only what is fine is a fine one. -/
theorem place_assigned {cid : Int} {result : Option Placement} (named' : ∀ cid, fine cid "")
    (steady : Steady view i capacity workers world live carries)
    (writes : WritesOnly view i (Assigns fine) (place capacity cid workers) world)
    (ends : Ends view i (place capacity cid workers) world result world') :
    Board.Suited fine carries live (boardOf world.vars) cid := by
  intro vacant best next
  unfold place at writes ends
  obtain ⟨have_, placed, looked, ends⟩ := Ends.bind_inv ends
  have writes := (WritesOnly.bind_iff.mp writes).2 _ _ looked
  obtain rfl := (placement_none looked).mpr vacant
  obtain ⟨names, seen, found, ends⟩ := Ends.bind_inv ends
  have writes := (WritesOnly.bind_iff.mp writes).2 _ _ found
  obtain ⟨choice_, compared, chosen, ends⟩ := Ends.bind_inv ends
  have writes := (WritesOnly.bind_iff.mp writes).2 _ _ chosen
  obtain ⟨waits, next'⟩ := place_chooses steady (looked.waited (ReadsOnly.placement cid)) found chosen
  obtain ⟨chose, most⟩ := choice_
  obtain rfl : chose = some best := next'.trans next
  obtain ⟨now, clocked, clock, ends⟩ := Ends.bind_inv ends
  have writes := (WritesOnly.bind_iff.mp writes).2 _ _ clock
  have vacant' : workerOf clocked.vars (toString cid) = none := by
    cases clock
    rw [World.tick_vars, waits.1]
    exact vacant
  obtain ⟨written, rowed, wrote, -⟩ := Ends.bind_inv ends
  obtain ⟨rev, -, mutated⟩ := placeRow_written vacant' wrote
  have assigns := WritesOnly.written (ReadsOnly.placeRow _ _ now) (WritesOnly.bind_iff.mp writes).1 wrote mutated
  by_cases nobody : best = ""
  · rw [nobody]
    exact named' cid
  · apply assigns.row cid best rfl
    rw [workerIn_placementItems]
    exact named_eq_some.mpr ⟨rfl, nobody⟩


theorem ensureRounds_assigns {cams : List (Int × Dict Value)} {out : List Placement}
    (steady : Steady view i capacity workers world live carries)
    (suited : Along (Board.placed carries live) (Board.Suited fine carries live) (cams.map Prod.fst) (boardOf world.vars)) :
    WritesOnly view i (Assigns fine) (ensureRounds capacity workers cams out) world := by
  induction cams generalizing out world with
  | nil => exact WritesOnly.ret _
  | cons cam rest ih =>
    obtain ⟨now, later⟩ := along_cons.mp suited
    apply WritesOnly.bind (place_assigns steady now)
    intro pl middle placed
    obtain ⟨passed, board⟩ := place_board steady placed
    rw [← board] at later
    cases pl with
    | some pl => exact ih (steady.later passed.1 passed.2) later
    | none => exact ih (steady.later passed.1 passed.2) later

theorem ensureRounds_assigned
    {cams : List (Int × Dict Value)} {out result : List Placement} (nobody : ∀ cid, fine cid "")
    (steady : Steady view i capacity workers world live carries)
    (writes : WritesOnly view i (Assigns fine) (ensureRounds capacity workers cams out) world)
    (ends : Ends view i (ensureRounds capacity workers cams out) world result world') :
    Along (Board.placed carries live) (Board.Suited fine carries live) (cams.map Prod.fst) (boardOf world.vars) := by
  induction cams generalizing out world with
  | nil => exact .nil
  | cons cam rest ih =>
    obtain ⟨pl, middle, placed, ends⟩ := Ends.bind_inv ends
    obtain ⟨first, later⟩ := WritesOnly.bind_iff.mp writes
    have writes' := later _ _ placed
    obtain ⟨passed, board⟩ := place_board steady placed
    refine .cons (place_assigned nobody steady first placed) ?_
    rw [← board]
    cases pl with
    | some pl => exact ih (steady.later passed.1 passed.2) writes' ends
    | none => exact ih (steady.later passed.1 passed.2) writes' ends

theorem assignment_ids {gone : String} {a : Assignment} {inOrder : List String}
    (assigned : Ends view i (Controller.assignment vms gone) world a world')
    (ordered : sortedBy (fun unit => (Text.plain unit).toInt) a.units = .ok inOrder) :
    inOrder.filterMap pyInt = Board.ids ((boardOf world.vars).units gone) := by
  obtain ⟨answer, _, got, assigned⟩ := Ends.bind_inv assigned
  obtain ⟨rfl, -⟩ := Ends.get_inv got
  rw [ids_sortedBy ordered, (units_fromItems (Ends.value_inv assigned).1).1]
  rfl

theorem redistributeUnits_assigns {gone : String} {names units : List String} {moves : List Moved}
    (members : ∀ name ∈ names, name ∈ live) (steady : Steady view i capacity workers world live carries)
    (suits : Along (Board.shifted carries names) (Board.Suits fine carries names) (units.filterMap pyInt) (boardOf world.vars)) :
    WritesOnly view i (Assigns fine) (redistributeUnits capacity gone (sorted names) units moves) world := by
  have members' : ∀ name ∈ sorted names, name ∈ live := fun name member => members name (mem_sorted.mp member)
  induction units generalizing moves world with
  | nil => exact WritesOnly.ret _
  | cons unit rest ih =>
    unfold redistributeUnits
    apply WritesOnly.reads_bind (ReadsOnly.value _)
    intro cid _ parsed
    obtain ⟨read, rfl⟩ := Ends.value_inv parsed
    rw [List.filterMap_cons_some (toInt_eq_ok.mp read)] at suits
    obtain ⟨now, later⟩ := along_cons.mp suits
    apply WritesOnly.reads_bind (ReadsOnly.mostFreeRounds capacity _ none)
    intro best compared chosen
    cases best with
    | none => exact WritesOnly.ret _
    | some best =>
      apply WritesOnly.reads_bind (ReadsOnly.load best)
      intro carried weighed loaded
      apply WritesOnly.reads_bind (ReadsOnly.capacityOf capacity best)
      intro able asked capable
      obtain ⟨waits, board⟩ := destination members' steady chosen loaded capable
      split
      · exact WritesOnly.ret _
      next free_ =>
        rw [if_neg free_] at board
        apply WritesOnly.reads_bind (ReadsOnly.free capacity best)
        intro left ready measured
        have waits' := waits.trans (measured.waited (ReadsOnly.free capacity best))
        apply WritesOnly.bind (move_assigns (now best board))
        intro pl moved moves'
        have passed := waits'.passed.trans moves'.passed
        apply ih (steady.later passed.1 passed.2)
        rwa [move_board moves', waits'.1, ← Board.shifted_some board]

theorem redistributeUnits_assigned {gone : String} {names units : List String} {moves result : List Moved}
    (nobody : ∀ cid, fine cid "") (members : ∀ name ∈ names, name ∈ live)
    (steady : Steady view i capacity workers world live carries)
    (writes : WritesOnly view i (Assigns fine) (redistributeUnits capacity gone (sorted names) units moves) world)
    (ends : Ends view i (redistributeUnits capacity gone (sorted names) units moves) world result world') :
    Along (Board.shifted carries names) (Board.Suits fine carries names) (units.filterMap pyInt)
      (boardOf world.vars) := by
  have members' : ∀ name ∈ sorted names, name ∈ live := fun name member => members name (mem_sorted.mp member)
  induction units generalizing moves world with
  | nil => exact .nil
  | cons unit rest ih =>
    unfold redistributeUnits at writes ends
    obtain ⟨cid, _, parsed, afterParse⟩ := Ends.bind_inv ends
    have choosing := (WritesOnly.bind_iff.mp writes).2 _ _ parsed
    obtain ⟨read, rfl⟩ := Ends.value_inv parsed
    rw [List.filterMap_cons_some (toInt_eq_ok.mp read)]
    obtain ⟨best, compared, chosen, ends⟩ := Ends.bind_inv afterParse
    have writes := (WritesOnly.bind_iff.mp choosing).2 _ _ chosen
    cases best with
    | none => exact Board.along_full (mostFree_none members' steady chosen) _
    | some best =>
      obtain ⟨carried, weighed, loaded, ends⟩ := Ends.bind_inv ends
      have writes := (WritesOnly.bind_iff.mp writes).2 _ _ loaded
      obtain ⟨able, asked, capable, ends⟩ := Ends.bind_inv ends
      have writes := (WritesOnly.bind_iff.mp writes).2 _ _ capable
      obtain ⟨waits, board⟩ := destination members' steady chosen loaded capable
      split at ends
      next full =>
        rw [if_pos full] at board
        exact Board.along_full board _
      next free_ =>
        rw [if_neg free_] at board
        rw [if_neg free_] at writes
        obtain ⟨left, ready, measured, ends⟩ := Ends.bind_inv ends
        have writes := (WritesOnly.bind_iff.mp writes).2 _ _ measured
        obtain ⟨pl, moved, moves', ends⟩ := Ends.bind_inv ends
        obtain ⟨first, later⟩ := WritesOnly.bind_iff.mp writes
        have waits' := waits.trans (measured.waited (ReadsOnly.free capacity best))
        have passed := waits'.passed.trans moves'.passed
        have suits : fine cid best := by
          by_cases empty : best = ""
          · rw [empty]
            exact nobody cid
          · exact move_assigned empty first moves'
        refine .cons ?_ ?_
        · intro best' chosen'
          obtain rfl : best = best' := Option.some.inj (board.symm.trans chosen')
          exact suits
        · have rest_ := ih (steady.later passed.1 passed.2) (later _ _ moves') ends
          rwa [move_board moves', waits'.1, ← Board.shifted_some board] at rest_

/-- Slots that are emptied in turn, as each finds the board. -/
theorem redistributeRounds_assigns {gones : List String} {moves : List Moved}
    (steady : Steady view i capacity workers world live carries)
    (suits : Along (Board.emptied carries live) (Board.Empties fine carries live) gones (boardOf world.vars)) :
    WritesOnly view i (Assigns fine) (redistributeRounds capacity workers gones moves) world := by
  induction gones generalizing moves world with
  | nil => exact WritesOnly.ret _
  | cons gone rest ih =>
    obtain ⟨now, later⟩ := along_cons.mp suits
    apply WritesOnly.reads_bind (ReadsOnly.candidates workers)
    intro names seen found
    have seeing := found.waited (ReadsOnly.candidates workers)
    obtain rfl := steady.seen world seen names rfl (Nat.le_refl _) found
    apply WritesOnly.reads_bind (ReadsOnly.assignment vms gone)
    intro a looked assigned
    have waits := seeing.trans (assigned.waited (ReadsOnly.assignment vms gone))
    apply WritesOnly.reads_bind (ReadsOnly.value _)
    intro inOrder _ made
    obtain ⟨ordered, rfl⟩ := Ends.value_inv made
    have ids_ := assignment_ids assigned ordered
    rw [seeing.1] at ids_
    have steady' := steady.later waits.2.1 waits.2.2
    apply WritesOnly.bind
    · apply redistributeUnits_assigns (fun name member => List.mem_of_mem_filter member) steady'
      rw [ids_, waits.1]
      exact now
    intro moves' middle redistributed
    have passed := waits.passed.trans redistributed.passed
    apply ih (steady.later passed.1 passed.2)
    rw [redistributeUnits_board (fun name member => List.mem_of_mem_filter member) steady' redistributed, ids_, waits.1]
    exact later

theorem redistributeRounds_assigned {gones : List String} {moves result : List Moved} (nobody : ∀ cid, fine cid "")
    (steady : Steady view i capacity workers world live carries)
    (writes : WritesOnly view i (Assigns fine) (redistributeRounds capacity workers gones moves) world)
    (ends : Ends view i (redistributeRounds capacity workers gones moves) world result world') :
    Along (Board.emptied carries live) (Board.Empties fine carries live) gones (boardOf world.vars) := by
  induction gones generalizing moves world with
  | nil => exact .nil
  | cons gone rest ih =>
    unfold redistributeRounds at writes ends
    obtain ⟨names, seen, found, ends⟩ := Ends.bind_inv ends
    have writes := (WritesOnly.bind_iff.mp writes).2 _ _ found
    have seeing := found.waited (ReadsOnly.candidates workers)
    obtain rfl := steady.seen world seen names rfl (Nat.le_refl _) found
    obtain ⟨a, looked, assigned, ends⟩ := Ends.bind_inv ends
    have writes := (WritesOnly.bind_iff.mp writes).2 _ _ assigned
    have waits := seeing.trans (assigned.waited (ReadsOnly.assignment vms gone))
    obtain ⟨inOrder, _, made, afterSort⟩ := Ends.bind_inv ends
    have emptying := (WritesOnly.bind_iff.mp writes).2 _ _ made
    obtain ⟨ordered, rfl⟩ := Ends.value_inv made
    have ids_ := assignment_ids assigned ordered
    rw [seeing.1] at ids_
    have steady' := steady.later waits.2.1 waits.2.2
    obtain ⟨moves', middle, redistributed, ends⟩ := Ends.bind_inv afterSort
    obtain ⟨first, later⟩ := WritesOnly.bind_iff.mp emptying
    have passed := waits.passed.trans redistributed.passed
    have members : ∀ name ∈ names.filter (· ≠ gone), name ∈ names := fun name member => List.mem_of_mem_filter member
    have now := redistributeUnits_assigned nobody members steady' first redistributed
    have rest_ := ih (steady.later passed.1 passed.2) (later _ _ redistributed) ends
    have board := redistributeUnits_board members steady' redistributed
    rw [ids_, waits.1] at now board
    rw [board] at rest_
    exact .cons now rest_

end EdgeVms.Verified
