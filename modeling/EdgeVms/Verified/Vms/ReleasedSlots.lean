import EdgeVms.Verified.Vms.Board
import Mathlib.Algebra.BigOperators.Group.Finset.Basic
import Mathlib.Algebra.BigOperators.Group.Finset.Piecewise
import Mathlib.Algebra.Order.BigOperators.Group.Finset
import Mathlib.Data.String.Basic

/-! # Released slots

A slot is released in its row, and its worker still heartbeats for a while.  The
calls that choose a worker look at the heartbeats only, so a released worker gets
a camera where it has the most room; where it never has, one `redistribute` drains
the released slots.
-/

namespace EdgeVms.Verified

open Process Python Platform Vms VmsController

/-! ## Draining the board -/

namespace Board

/-- How many cameras these workers could still take. -/
def spare (carries : String → Int) (names : List String) (board : Board) : Nat :=
  ∑ name ∈ names.toFinset, (board.room carries name).toNat

/-- A worker that stays has the camera, and is not over its capacity with it. -/
def Housed (carries : String → Int) (kept : List String) (board : Board) (cid : Int) : Prop :=
  ∃ name ∈ kept, toString cid ∈ board.units name ∧ 0 ≤ board.room carries name

/-- Cameras on the way from the `gone` workers to the `kept` ones; the `pending` ones have not arrived. -/
structure Draining (carries : String → Int) (kept : List String) (gone : String → Prop) (stranded pending : Finset Int)
    (board : Board) : Prop where
  enough : pending.card ≤ board.spare carries kept
  waits : ∀ name, gone name → ∀ cid : Int, toString cid ∈ board.units name → cid ∈ pending
  arrives : ∀ cid ∈ stranded, cid ∈ pending ∨ board.Housed carries kept cid

/-- The lists of the `gone` workers have not grown. -/
def Shrunk (gone : String → Prop) (board board' : Board) : Prop :=
  ∀ name, gone name → board'.units name ⊆ board.units name

variable {carries : String → Int} {kept names : List String} {gone : String → Prop} {stranded pending : Finset Int}
  {board board' board'' : Board} {unit best : String} {cid : Int}

theorem Shrunk.refl (gone : String → Prop) (board : Board) : Shrunk gone board board := fun _ _ => List.Subset.refl _

theorem Shrunk.trans (first : Shrunk gone board board') (second : Shrunk gone board' board'') :
    Shrunk gone board board'' :=
  fun name left => List.Subset.trans (second name left) (first name left)

theorem bring_best : (board.bring unit best).units best = joined (board.units best) unit := by
  simp [bring, give, clear]

theorem bring_other {name : String} (differs : name ≠ best) :
    (board.bring unit best).units name = (board.units name).filter (· ≠ unit) := by
  simp [bring, give, clear, differs]

theorem mem_joined {units : List String} {other : String} :
    other ∈ joined units unit ↔ other ∈ units ∨ other = unit := by
  unfold joined
  split
  next there =>
    constructor
    · exact .inl
    · rintro (old | rfl)
      · exact old
      · exact there
  next => exact mem_withUnit

theorem length_joined (units : List String) (unit : String) : (joined units unit).length ≤ units.length + 1 := by
  unfold joined
  split
  · omega
  · calc (Controller.withUnit units unit).length
        = (units ++ [unit]).dedup.length := List.length_insertionSort _ _
      _ ≤ (units ++ [unit]).length := (List.dedup_sublist _).length_le
      _ = units.length + 1 := by simp

theorem room_bring_best : board.room carries best - 1 ≤ (board.bring unit best).room carries best := by
  have longer := length_joined (board.units best) unit
  rw [room, room, bring_best]
  omega

theorem room_bring_other {name : String} (differs : name ≠ best) :
    board.room carries name ≤ (board.bring unit best).room carries name := by
  have shorter := List.length_filter_le (fun other => decide (other ≠ unit)) (board.units name)
  rw [room, room, bring_other differs]
  omega

/-- The worker that had the unit has room for one more. -/
theorem room_bring_had {name : String} (differs : name ≠ best) (had : unit ∈ board.units name) :
    board.room carries name + 1 ≤ (board.bring unit best).room carries name := by
  have shorter : ((board.units name).filter fun other => decide (other ≠ unit)).length < (board.units name).length := by
    apply List.length_filter_lt_length_iff_exists.mpr
    exact ⟨unit, had, by simp⟩
  rw [room, room, bring_other differs]
  omega

theorem spare_bring (member : best ∈ kept) :
    board.spare carries kept ≤ (board.bring unit best).spare carries kept + 1 := by
  have each : ∀ name ∈ kept.toFinset, (board.room carries name).toNat ≤
      ((board.bring unit best).room carries name).toNat + if name = best then 1 else 0 := by
    intro name _
    split
    next same =>
      have less := @room_bring_best carries board unit best
      rw [same]
      omega
    next differs =>
      have more := @room_bring_other carries board unit best name differs
      omega
  calc board.spare carries kept
      ≤ ∑ name ∈ kept.toFinset, (((board.bring unit best).room carries name).toNat + if name = best then 1 else 0) :=
        Finset.sum_le_sum each
    _ = (board.bring unit best).spare carries kept + 1 := by
        rw [Finset.sum_add_distrib, Finset.sum_ite_eq', if_pos (List.mem_toFinset.mpr member)]
        rfl

/-- A camera that had arrived takes no more room. -/
theorem spare_bring_housed (member : best ∈ kept) (housed : board.Housed carries kept cid) :
    board.spare carries kept ≤ (board.bring (toString cid) best).spare carries kept := by
  obtain ⟨host, hosts, stands, able⟩ := housed
  have each : ∀ name ∈ kept.toFinset, ((board.room carries name).toNat + if name = host then 1 else 0) ≤
      ((board.bring (toString cid) best).room carries name).toNat + if name = best then 1 else 0 := by
    intro name _
    by_cases same : name = best
    · subst same
      by_cases here : name = host
      · subst here
        have still : (board.bring (toString cid) name).room carries name = board.room carries name := by
          rw [room, room, bring_best, joined, if_pos stands]
        rw [still]
      · have less := @room_bring_best carries board (toString cid) name
        rw [if_neg here, if_pos rfl]
        omega
    · by_cases here : name = host
      · subst here
        have more := @room_bring_had carries board (toString cid) best name same stands
        rw [if_pos rfl, if_neg same]
        omega
      · have more := @room_bring_other carries board (toString cid) best name same
        rw [if_neg here, if_neg same]
        omega
  have sums := Finset.sum_le_sum each
  rw [Finset.sum_add_distrib, Finset.sum_add_distrib, Finset.sum_ite_eq', Finset.sum_ite_eq',
    if_pos (List.mem_toFinset.mpr member), if_pos (List.mem_toFinset.mpr hosts)] at sums
  exact Nat.le_of_add_le_add_right sums

theorem spare_eq_zero' (full : ∀ name ∈ kept, board.room carries name ≤ 0) : board.spare carries kept = 0 := by
  apply Finset.sum_eq_zero
  intro name member
  have least := full name (List.mem_toFinset.mp member)
  omega

namespace Draining

/-- A camera comes to a worker that stays. -/
theorem bring (draining : Draining carries kept gone stranded pending board) (apart : ∀ name ∈ kept, ¬ gone name)
    (member : best ∈ kept) (positive : 0 < board.room carries best) (known : cid ∈ stranded) :
    Draining carries kept gone stranded (pending.erase cid) (board.bring (toString cid) best) where
  enough := by
    by_cases awaited : cid ∈ pending
    · have less := @spare_bring carries kept board (toString cid) best member
      have enough := draining.enough
      rw [Finset.card_erase_of_mem awaited]
      omega
    · obtain awaited' | housed := draining.arrives cid known
      · exact absurd awaited' awaited
      · rw [Finset.erase_eq_of_notMem awaited]
        exact draining.enough.trans (spare_bring_housed member housed)
  waits := by
    intro name left other stands
    have differs : name ≠ best := by
      rintro rfl
      exact apart name member left
    rw [bring_other differs, List.mem_filter, decide_eq_true_eq] at stands
    apply Finset.mem_erase.mpr
    refine ⟨?_, draining.waits name left other stands.1⟩
    rintro rfl
    exact stands.2 rfl
  arrives := by
    intro other known'
    by_cases same : other = cid
    · subst same
      have less := @room_bring_best carries board (toString other) best
      exact .inr ⟨best, member, by rw [bring_best, mem_joined]; exact .inr rfl, by omega⟩
    · obtain awaited | ⟨host, hosts, stands, able⟩ := draining.arrives other known'
      · exact .inl (Finset.mem_erase.mpr ⟨same, awaited⟩)
      · by_cases here : host = best
        · subst here
          have less := @room_bring_best carries board (toString cid) host
          exact .inr ⟨host, hosts, by rw [bring_best, mem_joined]; exact .inl stands, by omega⟩
        · have more := @room_bring_other carries board (toString cid) best host here
          refine .inr ⟨host, hosts, ?_, by omega⟩
          rw [bring_other here, List.mem_filter, decide_eq_true_eq]
          exact ⟨stands, fun same' => same (toString_inj same')⟩

end Draining

theorem shrunk_bring (stays : ¬ gone best) : Shrunk gone board (board.bring unit best) := by
  intro name left
  have differs : name ≠ best := by
    rintro rfl
    exact stays left
  rw [bring_other differs]
  exact List.filter_subset_self _

/-- Cameras are moved one by one: each arrives, or nobody who stays has room and nothing is pending. -/
theorem Draining.shift (draining : Draining carries kept gone stranded pending board)
    (apart : ∀ name ∈ kept, ¬ gone name) (here : ∀ name ∈ kept, name ∈ names)
    (stays : ∀ name ∈ names, ¬ gone name → name ∈ kept) {cids : List Int} (known : ∀ cid ∈ cids, cid ∈ stranded)
    (suits : Along (shifted carries names) (Suits (fun _ name => ¬ gone name) carries names) cids board) :
    ∃ pending' ⊆ pending, Draining carries kept gone stranded pending' (cids.foldl (shifted carries names) board) ∧
      (∀ cid ∈ cids, cid ∉ pending') ∧ Shrunk gone board (cids.foldl (shifted carries names) board) := by
  induction cids generalizing pending board with
  | nil => exact ⟨pending, Finset.Subset.refl _, draining, by simp, .refl _ _⟩
  | cons cid rest ih =>
    obtain ⟨now, later⟩ := along_cons.mp suits
    rw [List.foldl_cons]
    cases chosen : board.next carries names with
    | none =>
      have full : ∀ name ∈ kept, board.room carries name ≤ 0 := fun name member =>
        choice_eq_none.mp chosen name (mem_sorted.mpr (here name member))
      have nothing := draining.enough
      rw [spare_eq_zero' full, Nat.le_zero, Finset.card_eq_zero] at nothing
      subst nothing
      have stuck : board.shifted carries names cid = board := by rw [shifted, chosen]
      rw [stuck, shifted_full chosen]
      exact ⟨∅, Finset.Subset.refl _, draining, by simp, .refl _ _⟩
    | some best =>
      have staying : ¬ gone best := now best chosen
      have member := stays best (mem_sorted.mp (choice_mem chosen)) staying
      rw [shifted_some chosen] at later ⊢
      obtain ⟨pending', fewer, drained, arrived, shrunk⟩ :=
        ih (draining.bring apart member (choice_pos chosen) (known cid (.head _))) (fun other member => known other (.tail _ member))
          later
      refine ⟨pending', fewer.trans (Finset.erase_subset _ _), drained, ?_, (shrunk_bring staying).trans shrunk⟩
      exact List.forall_mem_cons.mpr ⟨fun inside => (Finset.mem_erase.mp (fewer inside)).1 rfl, arrived⟩

/-- The list names no camera. -/
def Clear (board : Board) (name : String) : Prop := ∀ cid : Int, toString cid ∉ board.units name

theorem mem_ids {units : List String} : cid ∈ ids units ↔ ∃ unit ∈ units, pyInt unit = some cid := by
  rw [ids, List.mem_insertionSort, List.mem_filterMap]

/-- One released slot after the other. -/
theorem Draining.empty {live : List String} (draining : Draining carries kept gone stranded pending board)
    (staying : ∀ name, name ∈ kept ↔ name ∈ live ∧ ¬ gone name) {gones : List String}
    (released : ∀ name ∈ gones, gone name)
    (known : ∀ name, gone name → ∀ unit ∈ board.units name, ∀ cid ∈ pyInt unit, cid ∈ stranded)
    (suits : Along (emptied carries live) (Empties (fun _ name => ¬ gone name) carries live) gones board) :
    Shrunk gone board (gones.foldl (emptied carries live) board) ∧
      ∀ name ∈ gones, (gones.foldl (emptied carries live) board).Clear name := by
  induction gones generalizing pending board with
  | nil => exact ⟨.refl _ _, by simp⟩
  | cons name rest ih =>
    obtain ⟨now, later⟩ := along_cons.mp suits
    have left : gone name := released name (.head _)
    have apart : ∀ other ∈ kept, ¬ gone other := fun other member => ((staying other).mp member).2
    have here : ∀ other ∈ kept, other ∈ others live name := by
      intro other member
      apply List.mem_filter.mpr
      refine ⟨((staying other).mp member).1, decide_eq_true ?_⟩
      rintro rfl
      exact apart other member left
    have stays : ∀ other ∈ others live name, ¬ gone other → other ∈ kept := fun other member staying' =>
      (staying other).mpr ⟨(List.mem_filter.mp member).1, staying'⟩
    have known' : ∀ cid ∈ ids (board.units name), cid ∈ stranded := by
      intro cid member
      obtain ⟨unit, stands, read⟩ := mem_ids.mp member
      exact known name left unit stands cid read
    obtain ⟨pending', -, drained, arrived, shrunk⟩ := draining.shift apart here stays known' now
    have clear : (board.emptied carries live name).Clear name := by
      intro cid stands
      apply arrived cid _ (drained.waits name left cid stands)
      exact mem_ids.mpr ⟨toString cid, shrunk name left stands, pyInt_toString cid⟩
    obtain ⟨shrunk', cleared⟩ := ih drained (fun other member => released other (.tail _ member))
      (fun other left' unit stands => known other left' unit (shrunk other left' stands)) later
    rw [List.foldl_cons]
    refine ⟨shrunk.trans shrunk', List.forall_mem_cons.mpr ⟨?_, cleared⟩⟩
    exact fun cid stands => clear cid (shrunk' name left stands)

end Board

/-! ## The released slots -/

/-- The worker's slot record says that it is released. -/
def Released (rows : Rows) (name : String) : Prop :=
  name ≠ "" ∧ ∃ items, rows.read (vms.slotKey name) = some items ∧
    ∃ slot, Slot.fromItems name (rowValues (some items)) = .ok slot ∧ slot.released = true

/-- The rows under `slots` are slots, each with its name. -/
def SlotRows (rows : Rows) : Prop := ∀ key ∈ listing rows vms.slots, ∃ name, name ≠ "" ∧ key = vms.slotKey name

variable {ι M : Type} [DecidableEq ι] {view : View} {i : ι} {world world' : World ι M} {capacity : Int}
  {workers : Option (List String)} {live : List String} {carries : String → Int}

/-- The dictionary of slots is what the rows say. -/
def SlotsOf (rows : Rows) (found : Dict Slot) : Prop :=
  ∀ name slot, (name, slot) ∈ found → name ≠ "" ∧ rows.read (vms.slotKey name) ≠ none ∧
    Slot.fromItems name (rowValues (rows.read (vms.slotKey name))) = .ok slot

theorem slotsRounds_ends {paths : List Key} {out found : Dict Slot}
    (named' : ∀ path ∈ paths, ∃ name, name ≠ "" ∧ path = vms.slotKey name ∧ world.vars.read path ≠ none)
    (so_far : SlotsOf world.vars out) (ends : Ends view i (Controller.slotsRounds paths out) world found world') :
    Waited world world' ∧ SlotsOf world.vars found ∧
      ∀ name, vms.slotKey name ∈ paths ∨ (out.get? name).isSome → (found.get? name).isSome := by
  refine ⟨ends.waited (ReadsOnly.slotsRounds paths out), ?_⟩
  induction paths generalizing out world with
  | nil =>
    obtain ⟨rfl, -⟩ := Ends.ret_inv ends
    exact ⟨so_far, fun name either => either.resolve_left (by simp)⟩
  | cons path rest ih =>
    obtain ⟨answer, _, got, afterGet⟩ := Ends.bind_inv ends
    obtain ⟨rfl, rfl⟩ := Ends.get_inv got
    obtain ⟨slot, _, made, afterSlot⟩ := Ends.bind_inv afterGet
    obtain ⟨read, rfl⟩ := Ends.value_inv made
    obtain ⟨name, nonempty, rfl, there⟩ := named' path (.head _)
    have last : lastSegment (vms.slotKey name) = name := rfl
    rw [last] at read afterSlot
    have further : SlotsOf world.vars (out.set name slot) := by
      intro other slot' member
      obtain same | old := Dict.mem_set member
      · cases same
        exact ⟨nonempty, there, read⟩
      · exact so_far other slot' old
    have later : ∀ path ∈ rest, ∃ name, name ≠ "" ∧ path = vms.slotKey name ∧ world.tick.vars.read path ≠ none :=
      fun path member => named' path (.tail _ member)
    obtain ⟨agrees, all⟩ := ih later further afterSlot
    refine ⟨agrees, fun other either => all other ?_⟩
    by_cases same : other = name
    · exact .inr (by rw [same, Dict.get?_set_self]; rfl)
    · obtain member | known := either
      · obtain here | later := List.mem_cons.mp member
        · exact absurd (by simpa [Subsystem.slotKey] using here) same
        · exact .inl later
      · exact .inr (by rwa [Dict.get?_set_other _ _ same])

theorem releasedRounds_ends {slots : List (String × Slot)} {out result : List String}
    (ends : Ends view i (Controller.releasedRounds vms slots out) world result world') (name : String) :
    name ∈ result ↔
      name ∈ out ∨ ∃ slot, (name, slot) ∈ slots ∧ slot.released = true ∧ unitsOf world.vars name ≠ [] := by
  induction slots generalizing out world with
  | nil =>
    obtain ⟨rfl, -⟩ := Ends.ret_inv ends
    simp
  | cons entry rest ih =>
    obtain ⟨other, slot⟩ := entry
    have first_or :
        (∃ slot', (name, slot') ∈ (other, slot) :: rest ∧ slot'.released = true ∧ unitsOf world.vars name ≠ []) ↔
        (name = other ∧ slot.released = true ∧ unitsOf world.vars other ≠ []) ∨
          ∃ slot', (name, slot') ∈ rest ∧ slot'.released = true ∧ unitsOf world.vars name ≠ [] := by
      simp only [List.mem_cons, Prod.mk.injEq, or_and_right, exists_or, and_assoc, exists_and_left, exists_eq_left]
      refine or_congr_left (and_congr_right fun same => ?_)
      rw [same]
    rw [first_or, ← or_assoc]
    unfold Controller.releasedRounds at ends
    split at ends
    next released =>
      obtain ⟨a, middle, assigned, ends⟩ := Ends.bind_inv ends
      have waits := assigned.waited (ReadsOnly.assignment vms other)
      obtain ⟨answer, _, got, assigned⟩ := Ends.bind_inv assigned
      obtain ⟨rfl, -⟩ := Ends.get_inv got
      have units : a.units = unitsOf world.vars other := (units_fromItems (Ends.value_inv assigned).1).1
      have rest_ := ih ends
      rw [waits.1] at rest_
      rw [rest_, ← units]
      refine or_congr_left ?_
      by_cases nothing : a.units = []
      · simp [nothing]
      · simp [nothing, released]
    next kept =>
      rw [ih ends]
      simp [kept]

theorem mem_sortedBy {α : Type} {key : α → Except Error Int} {items made : List α}
    (sorted_ : sortedBy key items = .ok made)
    {item : α} : item ∈ made ↔ item ∈ items := by
  simp only [sortedBy, bind_eq_ok] at sorted_
  obtain ⟨keyed, read, ends⟩ := sorted_
  cases ends
  have firsts : keyed.map Prod.snd = items := by
    induction items generalizing keyed with
    | nil =>
      cases read
      rfl
    | cons item rest ih =>
      simp only [List.mapM_cons, bind_eq_ok] at read
      obtain ⟨entry, ⟨cid, -, made⟩, others, later, ends⟩ := read
      cases made
      cases ends
      rw [List.map_cons, ih others later]
  rw [← firsts, List.mem_map, List.mem_map]
  simp only [List.mem_insertionSort]

/-- `released_slots` finds the released slots that have a list. -/
theorem releasedSlots_ends {gones : List String} (flat : SlotRows world.vars)
    (ends : Ends view i (Controller.releasedSlots vms) world gones world') (name : String) :
    name ∈ gones ↔ Released world.vars name ∧ unitsOf world.vars name ≠ [] := by
  obtain ⟨found, read, slots, ends⟩ := Ends.bind_inv ends
  obtain ⟨names, middle, released, ends⟩ := Ends.bind_inv ends
  obtain ⟨paths, _, listed, slots⟩ := Ends.bind_inv slots
  obtain ⟨rfl, rfl⟩ := Ends.list_inv listed
  have named' : ∀ path ∈ listing world.vars vms.slots, ∃ name, name ≠ "" ∧ path = vms.slotKey name ∧
      world.tick.vars.read path ≠ none := by
    intro path member
    obtain ⟨name, nonempty, same⟩ := flat path member
    exact ⟨name, nonempty, same, (mem_listing.mp member).1⟩
  obtain ⟨waits, agrees, all⟩ := slotsRounds_ends named' (fun _ _ member => by cases member) slots
  rw [mem_sortedBy (Ends.value_inv ends).1, releasedRounds_ends released, waits.1]
  constructor
  · rintro (nothing | ⟨slot, member, so, has⟩)
    · cases nothing
    · obtain ⟨nonempty, there, made⟩ := agrees name slot member
      obtain ⟨items, row⟩ := Option.ne_none_iff_exists'.mp there
      rw [row] at made
      exact ⟨⟨nonempty, items, row, slot, made, so⟩, has⟩
  · rintro ⟨⟨nonempty, items, row, slot, made, so⟩, has⟩
    have inside : vms.slotKey name ∈ listing world.vars vms.slots := by
      refine mem_listing.mpr ⟨by rw [row]; simp, ⟨[name], rfl⟩, ?_⟩
      simp [Subsystem.slotKey, Subsystem.slots]
    obtain ⟨slot', known⟩ := Option.isSome_iff_exists.mp (all name (.inl inside))
    have member := Dict.mem_of_get? known
    obtain ⟨-, -, made'⟩ := agrees name slot' member
    have made'' : Slot.fromItems name (rowValues (world.vars.read (vms.slotKey name))) = .ok slot' := made'
    rw [row, made] at made''
    cases made''
    exact .inr ⟨slot, member, so, has⟩

/-! ## The calls -/

/-- The calls that choose a worker. -/
inductive Chooses where
  | place (cid : Int)
  | ensurePlaced
  | redistribute

namespace Chooses

def program (capacity : Int) (workers : Option (List String)) : Chooses → Program M Unit
  | .place cid => do
    let _ ← VmsController.place capacity cid workers
    return ()
  | .ensurePlaced => do
    let _ ← VmsController.ensurePlaced capacity workers
    return ()
  | .redistribute => do
    let _ ← VmsController.redistribute capacity workers
    return ()

/-- At every choice, each released worker with room is outdone by one that is not released. -/
def Spares (view : View) (i : ι) (world : World ι M) (live : List String) (carries : String → Int) : Chooses → Prop
  | .place cid => (boardOf world.vars).worker (toString cid) = none →
      Led (Released world.vars) ((boardOf world.vars).room carries) live
  | .ensurePlaced => ∀ cams middle, Ends view i cameras world cams middle →
      Along (Board.placed carries live)
        (fun board cid => board.worker (toString cid) = none → Led (Released world.vars) (board.room carries) live)
        (cams.map Prod.fst) (boardOf world.vars)
  | .redistribute => ∀ gones middle, Ends view i (Controller.releasedSlots vms) world gones middle →
      Along (Board.emptied carries live)
        (fun board gone => Along (Board.shifted carries (Board.others live gone))
          (fun board _ => Led (Released world.vars) (board.room carries) (Board.others live gone))
          (Board.ids (board.units gone)) board)
        gones (boardOf world.vars)

end Chooses

/-- No row that the call writes brings a camera to a worker whose slot is released. -/
def BringsNone (view : View) (i : ι) (capacity : Int)
    (workers : Option (List String)) (world : World ι M) (call : Chooses) :
    Prop :=
  WritesOnly view i (Assigns fun _ name => ¬ Released world.vars name) (call.program capacity workers) world

open Classical in
/-- With room for all cameras of released slots on the workers that stay, no released slot has a camera any more. -/
def Drained (world world' : World ι M) (live : List String) (carries : String → Int) : Prop :=
  ∀ stranded : Finset Int,
    (∀ name, Released world.vars name → ∀ unit ∈ unitsOf world.vars name, ∀ cid ∈ pyInt unit, cid ∈ stranded) →
    stranded.card ≤ spare carries (live.filter fun name => ¬ Released world.vars name) world.vars →
    ∀ name, Released world.vars name → ∀ cid : Int, toString cid ∉ unitsOf world'.vars name

theorem led_iff_suits {gone : String → Prop} {fine : Int → String → Prop} {cid : Int}
    (same : ∀ name, fine cid name ↔ ¬ gone name)
    (names : List String) (board : Board) :
    Led gone (board.room carries) names ↔ Board.Suits fine carries names board cid := by
  have ordered : (sorted names).Pairwise (· ≤ ·) := List.pairwise_insertionSort _ _
  have either : Led gone (board.room carries) names ↔ Led gone (board.room carries) (sorted names) := by
    simp only [Led, mem_sorted]
  rw [either, led_iff ordered, Board.Suits, Board.next]
  exact forall_congr' fun best => imp_congr_right fun _ => (same best).symm

theorem spares_place {cid : Int} : (Chooses.place cid).Spares view i world live carries ↔
    Board.Suited (fun _ name => ¬ Released world.vars name) carries live (boardOf world.vars) cid :=
  imp_congr_right fun _ => led_iff_suits (fun _ => Iff.rfl) _ _

theorem spares_ensurePlaced : Chooses.ensurePlaced.Spares view i world live carries ↔
    ∀ cams middle, Ends view i cameras world cams middle →
      Along (Board.placed carries live) (Board.Suited (fun _ name => ¬ Released world.vars name) carries live)
        (cams.map Prod.fst) (boardOf world.vars) :=
  forall_congr' fun _ => forall_congr' fun _ => imp_congr_right fun _ =>
    along_congr (fun _ _ => imp_congr_right fun _ => led_iff_suits (fun _ => Iff.rfl) _ _) _ _

theorem spares_redistribute : Chooses.redistribute.Spares view i world live carries ↔
    ∀ gones middle, Ends view i (Controller.releasedSlots vms) world gones middle →
      Along (Board.emptied carries live) (Board.Empties (fun _ name => ¬ Released world.vars name) carries live) gones
        (boardOf world.vars) :=
  forall_congr' fun _ => forall_congr' fun _ => imp_congr_right fun _ =>
    along_congr (fun _ _ => along_congr (fun _ _ => led_iff_suits (fun _ => Iff.rfl) _ _) _ _) _ _

theorem brings_of_spares {call : Chooses} (steady : Steady view i capacity workers world live carries)
    (spares : call.Spares view i world live carries) : BringsNone view i capacity workers world call := by
  cases call with
  | place cid => exact WritesOnly.bind (place_assigns steady (spares_place.mp spares)) fun _ _ _ => WritesOnly.ret _
  | ensurePlaced =>
    refine WritesOnly.bind ?_ fun _ _ _ => WritesOnly.ret _
    apply WritesOnly.reads_bind ReadsOnly.cameras
    intro cams middle found
    have waits := found.waited ReadsOnly.cameras
    apply ensureRounds_assigns (steady.later waits.2.1 waits.2.2)
    rw [waits.1]
    exact spares_ensurePlaced.mp spares cams middle found
  | redistribute =>
    refine WritesOnly.bind ?_ fun _ _ _ => WritesOnly.ret _
    apply WritesOnly.reads_bind (ReadsOnly.releasedSlots vms)
    intro gones middle found
    have waits := found.waited (ReadsOnly.releasedSlots vms)
    apply redistributeRounds_assigns (steady.later waits.2.1 waits.2.2)
    rw [waits.1]
    exact spares_redistribute.mp spares gones middle found

/-- A run has one end. -/
theorem Ends.unique {α : Type} {p : Program M α} {value value' : α} {middle middle' : World ι M}
    (ends : Ends view i p world value middle) (ends' : Ends view i p world value' middle') :
    value' = value ∧ middle' = middle := by
  obtain ⟨same, rfl⟩ := ends.outcome ends'
  cases same
  exact ⟨rfl, rfl⟩

theorem spares_of_brings {call : Chooses} (steady : Steady view i capacity workers world live carries)
    (brings : BringsNone view i capacity workers world call)
    (ends : Ends view i (call.program capacity workers) world () world') : call.Spares view i world live carries := by
  have nobody : ∀ _ : Int, ¬ Released world.vars "" := fun _ released => released.1 rfl
  cases call with
  | place cid =>
    obtain ⟨result, middle, placed, -⟩ := Ends.bind_inv ends
    exact spares_place.mpr (place_assigned nobody steady (WritesOnly.bind_iff.mp brings).1 placed)
  | ensurePlaced =>
    obtain ⟨result, middle, ensured, -⟩ := Ends.bind_inv ends
    obtain ⟨cams, seen, found, rounds⟩ := Ends.bind_inv ensured
    have brings' := (WritesOnly.bind_iff.mp (WritesOnly.bind_iff.mp brings).1).2 _ _ found
    have waits := found.waited ReadsOnly.cameras
    apply spares_ensurePlaced.mpr
    intro cams' middle' found'
    obtain ⟨rfl, -⟩ := found.unique found'
    have along := ensureRounds_assigned nobody (steady.later waits.2.1 waits.2.2) brings' rounds
    rwa [waits.1] at along
  | redistribute =>
    obtain ⟨result, middle, redistributed, -⟩ := Ends.bind_inv ends
    obtain ⟨gones, seen, found, rounds⟩ := Ends.bind_inv redistributed
    have brings' := (WritesOnly.bind_iff.mp (WritesOnly.bind_iff.mp brings).1).2 _ _ found
    have waits := found.waited (ReadsOnly.releasedSlots vms)
    apply spares_redistribute.mpr
    intro gones' middle' found'
    obtain ⟨rfl, -⟩ := found.unique found'
    have along := redistributeRounds_assigned nobody (steady.later waits.2.1 waits.2.2) brings' rounds
    rwa [waits.1] at along

theorem drained_of_spares (flat : SlotRows world.vars) (steady : Steady view i capacity workers world live carries)
    (spares : Chooses.redistribute.Spares view i world live carries)
    (ends : Ends view i (Chooses.redistribute.program capacity workers) world () world') :
    Drained world world' live carries := by
  classical
  intro stranded known enough name released cid stands
  obtain ⟨result, middle, redistributed, ends⟩ := Ends.bind_inv ends
  obtain ⟨-, rfl⟩ := Ends.ret_inv ends
  obtain ⟨gones, seen, found, rounds⟩ := Ends.bind_inv redistributed
  have waits := found.waited (ReadsOnly.releasedSlots vms)
  have board := redistributeRounds_board (steady.later waits.2.1 waits.2.2) rounds
  rw [waits.1] at board
  have start :
      Board.Draining carries (live.filter fun name => ¬ Released world.vars name) (Released world.vars) stranded
      stranded (boardOf world.vars) :=
    ⟨enough, fun name left cid stands => known name left _ stands cid (pyInt_toString cid),
      fun cid member => .inl member⟩
  obtain ⟨shrunk, clear⟩ :=
    start.empty (by simp) (fun name member => ((releasedSlots_ends flat found name).mp member).1) known
    (spares_redistribute.mp spares gones seen found)
  rw [← board] at shrunk clear
  have listed : name ∈ gones := by
    refine (releasedSlots_ends flat found name).mpr ⟨released, fun empty => ?_⟩
    have before := shrunk name released stands
    change _ ∈ unitsOf world.vars name at before
    rw [empty] at before
    cases before
  exact clear name listed cid stands

/-- A call brings no camera to a released slot, and `redistribute` drains them all, exactly when at every choice each
released worker with room is outdone. -/
theorem released_slot_gets_no_camera (flat : SlotRows world.vars)
    (steady : Steady view i capacity workers world live carries)
    (call : Chooses) :
    (call.Spares view i world live carries → BringsNone view i capacity workers world call) ∧
      ∀ world', Ends view i (call.program capacity workers) world () world' →
        (BringsNone view i capacity workers world call ∧ (call = .redistribute → Drained world world' live carries) ↔
          call.Spares view i world live carries) := by
  refine ⟨brings_of_spares steady,
    fun world' ends => ⟨fun both => spares_of_brings steady both.1 ends, fun spares => ?_⟩⟩
  refine ⟨brings_of_spares steady spares, ?_⟩
  rintro rfl
  exact drained_of_spares flat steady spares ends

/-! ## A worker that has just let go -/

def lastBeat : Heartbeat := ⟨"w-1", .finite 0, [], []⟩

/-- `w-1` still heartbeats. -/
def beating : Outside :=
  { quietOutside with heartbeats := fun _ => ["w-1"], heartbeat := fun _ _ => .ok (some lastBeat) }

/-- The slot of `w-1` is released, that of `w-2` is held; a camera stands in the list of `w-1`. -/
def scaledIn : Rows :=
  (((Versioned.empty 1000).write (vms.slotKey "w-1") (stored (Slot.toItems ⟨"w-1", "p-1", .finite 0, true, 1⟩))).write
    (vms.slotKey "w-2") (stored (Slot.toItems ⟨"w-2", "p-2", .finite 45, false, 1⟩))).write
    (vms.assignment "w-1") (stored (Assignment.toItems ⟨"w-1", ["1"], 1⟩))

def scalingIn (outside : Outside) : World Unit Unit := ⟨scaledIn, fun _ => (), fun _ => outside, 0⟩

theorem workersSeen_beating {maxAge : ℚ} {seen : Dict Heartbeat} (recent : 0 ≤ maxAge)
    (beats : world.outside = fun _ => beating)
    (ends : Ends view i (Controller.workersSeen vms maxAge) world seen world') :
    seen = [("w-1", lastBeat)] := by
  obtain ⟨now, _, clock, ends⟩ := Ends.bind_inv ends
  obtain ⟨names, _, listed, ends⟩ := Ends.bind_inv ends
  cases clock
  cases listed
  have heard : ∀ world : World ι M, world.outside = (fun _ => beating) → world.now = beating := by
    intro world beats
    rw [World.now, beats]
  rw [heard world beats, heard world.tick beats] at ends
  obtain ⟨beat, _, asked, ends⟩ := Ends.bind_inv ends
  change Proc.run _ (Proc.ofExcept (world.tick.tick.now.heartbeat vms.name "w-1")) _ = _ at asked
  rw [heard world.tick.tick beats] at asked
  cases asked
  have fresh : Controller.fresh beating.wall maxAge lastBeat = true := by
    simpa [Controller.fresh, lastBeat, beating, quietOutside] using recent
  exact (Ends.ret_inv ends).1.trans (if_pos fresh)

theorem steady_beating (capacity : Int) :
    Steady view i capacity none (⟨scaledIn, fun _ => (), fun _ => beating, 0⟩ : World ι Unit)
    ["w-1"] fun _ => capacity := by
  constructor
  · intro now now' names outside _ ends
    obtain ⟨seen, _, looked, ends⟩ := Ends.bind_inv ends
    rw [workersSeen_beating (by norm_num) outside looked] at ends
    exact (Ends.ret_inv ends).1
  · intro now now' worker n member outside _ ends
    obtain rfl := List.mem_singleton.mp member
    obtain ⟨seen, _, looked, ends⟩ := Ends.bind_inv ends
    rw [workersSeen_beating (by norm_num) outside looked] at ends
    exact (Ends.ret_inv ends).1

theorem scaledIn_slots : SlotRows scaledIn := by
  have keys : listing scaledIn vms.slots = [vms.slotKey "w-1", vms.slotKey "w-2"] := by decide +kernel
  intro key member
  rw [keys] at member
  simp only [List.mem_cons, List.not_mem_nil, or_false] at member
  obtain rfl | rfl := member
  · exact ⟨"w-1", by simp, rfl⟩
  · exact ⟨"w-2", by simp, rfl⟩

theorem scaledIn_released : Released scaledIn "w-1" := ⟨by simp, _, rfl, _, rfl, rfl⟩

theorem scaledIn_held : ¬ Released scaledIn "w-2" := by
  rintro ⟨-, items, row, slot, made, released⟩
  have there : scaledIn.read (vms.slotKey "w-2") =
      some (stored (Slot.toItems ⟨"w-2", "p-2", .finite 45, false, 1⟩)) := rfl
  have reads : Slot.fromItems "w-2" (rowValues (some (stored (Slot.toItems ⟨"w-2", "p-2", .finite 45, false, 1⟩)))) =
      .ok ⟨"w-2", "p-2", .finite 45, false, 1⟩ := rfl
  rw [there] at row
  cases row
  rw [reads] at made
  cases made
  cases released

def redistributed : World Unit Unit :=
  ((Chooses.redistribute.program 50 (some ["w-1", "w-2"])).run (handler FileVariables {} ()) (scalingIn quietOutside)).2

theorem scaledIn_drained : BringsNone {} () 50 (some ["w-1", "w-2"]) (scalingIn quietOutside) .redistribute ∧
    Drained (scalingIn quietOutside) redistributed ["w-1", "w-2"] fun _ => 50 := by
  obtain ⟨_, ends⟩ :=
    ends_of_isOk {} () (Chooses.redistribute.program 50 (some ["w-1", "w-2"])) (scalingIn quietOutside)
    (by decide +kernel)
  have steady : Steady {} () 50 (some ["w-1", "w-2"]) (scalingIn quietOutside) ["w-1", "w-2"] fun _ => 50 :=
    steady_quiet rfl
  have spares : Chooses.redistribute.Spares {} () (scalingIn quietOutside) ["w-1", "w-2"] fun _ => 50 := by
    intro gones middle found
    have made : ((Controller.releasedSlots vms).run (handler FileVariables {} ()) (scalingIn quietOutside)).1.toOption =
        some ["w-1"] := by decide +kernel
    unfold Ends at found
    rw [found] at made
    cases made
    refine .cons (Along.always (fun board _ => ?_) _ _) .nil
    intro name member released
    obtain rfl := List.mem_singleton.mp (show name ∈ ["w-2"] from member)
    exact absurd released scaledIn_held
  have both := ((released_slot_gets_no_camera scaledIn_slots steady .redistribute).2 redistributed ends).mpr spares
  exact ⟨both.1, both.2 rfl⟩

theorem released_slot_gets_a_camera : ¬ ∀ (call : Chooses) (world' : World Unit Unit),
    Ends {} () (call.program 50 none) (scalingIn beating) () world' →
      BringsNone {} () 50 none (scalingIn beating) call := by
  intro claim
  obtain ⟨_, ends⟩ := ends_of_isOk {} () ((Chooses.place 2).program 50 none) (scalingIn beating) (by decide +kernel)
  have spares := spares_of_brings (steady_beating 50) (claim (.place 2) _ ends) ends
  have vacant : (boardOf scaledIn).worker (toString (2 : Int)) = none := by decide +kernel
  obtain ⟨kept, member, stays, -⟩ := spares vacant "w-1" (.head _) scaledIn_released (by decide +kernel)
  obtain rfl := List.mem_singleton.mp member
  exact stays scaledIn_released

end EdgeVms.Verified
