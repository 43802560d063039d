import EdgeVms.Edge.Spool
import EdgeVms.Process.Run
import EdgeVms.Process.Stable
import Mathlib.Data.List.Nodup
import Mathlib.Data.List.TakeWhile

/-! # The accounts of the spool

`Recorded` remembers beside the spool the segments that were accepted, acknowledged and
dropped.  A segment that does not fit even into an empty spool is written all the same,
and one of a name that does not wait, or waits already, is lost without being counted.
-/

namespace EdgeVms.Verified.SpoolAccounts

open Process Python Edge Spool

variable {W : Type}

structure Recorded (W : Type) where
  spool : Spool
  world : W
  accepted : List (String × Bytes)
  acknowledged : List (String × Bytes)
  dropped : List (String × Bytes)

inductive Event (W : Type) where
  | accept (name : String) (data : Bytes)
  | drain (upload : String → W → Bool × W) (budgetPerTick : Int)

/-- The segments that `upload` acknowledges, one after the other. -/
def acknowledges (upload : String → W → Bool × W) : Nat → List (String × Bytes) → W → List (String × Bytes)
  | 0, _, _ => []
  | _ + 1, [], _ => []
  | budget + 1, seg :: rest, world =>
    let answer := upload seg.1 world
    if answer.1 then seg :: acknowledges upload budget rest answer.2 else []

/-- The segment for which `accept` returned `True`. -/
def kept (strange : String → Landing) (name : String) (data : Bytes) : Except Unopened Bool → List (String × Bytes)
  | .ok true =>
    match landing strange name with
    | .file file => [(file, data)]
    | _ => [(name, data)]
  | _ => []

def step (strange : String → Landing) (recorded : Recorded W) : Event W → Recorded W
  | .accept name data =>
    let answer := recorded.spool.accept strange name data
    { recorded with
      spool := answer.2
      accepted := recorded.accepted ++ kept strange name data answer.1
      dropped := recorded.dropped ++ recorded.spool.pending.take (answer.2.dropped - recorded.spool.dropped) }
  | .drain upload budgetPerTick =>
    let answer := recorded.spool.drain upload budgetPerTick recorded.world
    { recorded with
      spool := answer.2.2
      world := answer.2.1
      acknowledged :=
        recorded.acknowledged ++ acknowledges upload budgetPerTick.toNat recorded.spool.pending recorded.world }

/-- An empty spool that drops its oldest. -/
def start (maxBytes : Nat) (world : W) : Recorded W := ⟨.new maxBytes .dropOldest, world, [], [], []⟩

/-- The spool is within its bound, and each accepted segment is pending, acknowledged or counted as dropped. -/
structure Accounted (recorded : Recorded W) : Prop where
  bounded : recorded.spool.used ≤ recorded.spool.maxBytes
  conserved : recorded.accepted.Perm (recorded.spool.pending ++ recorded.acknowledged ++ recorded.dropped)
  counted : recorded.dropped.length = recorded.spool.dropped

/-- The segments from this name on. -/
def fromOn (file : String) (segments : List (String × Bytes)) : List (String × Bytes) :=
  segments.dropWhile fun seg => seg.1 ≠ file

/-- The segment fits into the spool, its name is one that waits, and the segment that waits under it, if
there is one, makes room. -/
def Fits (strange : String → Landing) (recorded : Recorded W) : Event W → Prop
  | .accept name data =>
    landing strange name = .refused ∨ ∃ file, landing strange name = .file file ∧ listed file = true ∧
      data.length ≤ recorded.spool.maxBytes ∧
      (fromOn file recorded.spool.pending = [] ∨
        recorded.spool.maxBytes < size (fromOn file recorded.spool.pending) + data.length)
  | .drain _ _ => True

/-! ## What is pending -/

section Pending

variable (spool : Spool) (name : String)

instance : Std.Total fun first second : String × Bytes => first.1 ≤ second.1 :=
  ⟨fun first second => le_total first.1 second.1⟩

instance : IsTrans (String × Bytes) fun first second => first.1 ≤ second.1 :=
  ⟨fun _ _ _ => le_trans⟩

theorem pending_perm : spool.pending.Perm (spool.files.filter fun file => listed file.1) :=
  List.perm_insertionSort _ _

theorem pending_remove : (spool.remove name).pending = spool.pending.filter fun seg => seg.1 ≠ name := by
  unfold pending remove
  rw [Stable.filter_insertionSort]
  simp only [Dict.pop, List.filter_filter, Bool.and_comm]

theorem nodup_pending {spool : Spool} (distinct : (spool.files.map Prod.fst).Nodup) :
    (spool.pending.map Prod.fst).Nodup := by
  rw [((pending_perm spool).map Prod.fst).nodup_iff]
  exact distinct.sublist (List.filter_sublist.map Prod.fst)

theorem length_pending : spool.pending.length = ((spool.files.map Prod.fst).filter listed).length := by
  rw [(pending_perm spool).length_eq, List.filter_map, List.length_map]
  rfl

/-- Removing the oldest leaves the others. -/
theorem pending_remove_first {spool : Spool} (distinct : (spool.files.map Prod.fst).Nodup) {first : String × Bytes}
    {rest : List (String × Bytes)} (pending : spool.pending = first :: rest) : (spool.remove first.1).pending = rest := by
  have names := nodup_pending distinct
  rw [pending, List.map_cons, List.nodup_cons] at names
  rw [pending_remove, pending, List.filter_cons, if_neg (by simp)]
  refine List.filter_eq_self.mpr fun seg inside => decide_eq_true fun same => names.1 ?_
  rw [← same]
  exact List.mem_map_of_mem inside

end Pending

theorem size_append (first second : List (String × Bytes)) : size (first ++ second) = size first + size second := by
  simp [size]

theorem size_perm {first second : List (String × Bytes)} (perm : first.Perm second) : size first = size second :=
  (perm.map _).sum_eq

/-! ## Making room -/

/-- The first `k` segments are gone, and were needed: without them the new one fits, or nothing is left. -/
structure Roomy (k data : Nat) (spool spool' : Spool) : Prop where
  maxBytes : spool'.maxBytes = spool.maxBytes
  policy : spool'.policy = spool.policy
  distinct : (spool'.files.map Prod.fst).Nodup
  few : k ≤ spool.pending.length
  pending : spool'.pending = spool.pending.drop k
  dropped : spool'.dropped = spool.dropped + k
  fits : spool'.pending = [] ∨ spool'.used + data ≤ spool.maxBytes
  needed : ∀ j < k, spool.maxBytes < size (spool.pending.drop j) + data

theorem roomy_makeRoom {spool : Spool} (distinct : (spool.files.map Prod.fst).Nodup) (data : Nat) :
    ∃ k, Roomy k data spool (makeRoom data spool.pending.length spool) := by
  generalize same : spool.pending.length = rounds
  induction rounds generalizing spool with
  | zero =>
    have empty := List.length_eq_zero_iff.mp same
    exact ⟨0, rfl, rfl, distinct, Nat.zero_le _, rfl, rfl, .inl empty, fun _ none => absurd none (Nat.not_lt_zero _)⟩
  | succ rounds ih =>
    unfold makeRoom
    cases pending : spool.pending with
    | nil =>
      rw [pending] at same
      cases same
    | cons first rest =>
      dsimp only
      by_cases full : spool.maxBytes < spool.used + data
      · rw [if_pos full]
        have left := pending_remove_first distinct pending
        have later : { spool.remove first.1 with dropped := spool.dropped + 1 }.pending = rest := left
        rw [pending, List.length_cons, Nat.add_right_cancel_iff] at same
        obtain ⟨k, roomy⟩ := @ih { spool.remove first.1 with dropped := spool.dropped + 1 }
          (Dict.nodup_keys_pop distinct first.1) (by rw [later, same])
        refine ⟨k + 1, roomy.maxBytes, roomy.policy, roomy.distinct, ?_, ?_, ?_, roomy.fits, fun j earlier => ?_⟩
        · have few := roomy.few
          rw [later] at few
          rw [pending, List.length_cons]
          omega
        · rw [roomy.pending, later, pending, List.drop_succ_cons]
        · rw [roomy.dropped]
          show spool.dropped + 1 + k = spool.dropped + (k + 1)
          omega
        · cases j with
          | zero =>
            rw [List.drop_zero]
            exact full
          | succ j =>
            have needed := roomy.needed j (by omega)
            rw [later] at needed
            rw [pending, List.drop_succ_cons]
            exact needed
      · rw [if_neg full]
        refine ⟨0, rfl, rfl, distinct, Nat.zero_le _, rfl, rfl, .inr (not_lt.mp full), fun _ none => ?_⟩
        exact absurd none (Nat.not_lt_zero _)

/-- To accept a segment is to write it once there is room, as far as there can be. -/
theorem accept_eq {spool : Spool} (distinct : (spool.files.map Prod.fst).Nodup) (policy : spool.policy = .dropOldest)
    (strange : String → Landing) (name : String) (data : Bytes) :
    ∃ k room, Roomy k data.length spool room ∧ spool.accept strange name data = room.write strange name data := by
  unfold accept
  by_cases full : spool.maxBytes < spool.used + data.length
  · rw [if_pos full, policy]
    obtain ⟨k, roomy⟩ := roomy_makeRoom distinct data.length
    exact ⟨k, _, roomy, rfl⟩
  · rw [if_neg full]
    refine ⟨0, spool, ⟨rfl, rfl, distinct, Nat.zero_le _, rfl, rfl, .inr (not_lt.mp full), fun _ none => ?_⟩, rfl⟩
    exact absurd none (Nat.not_lt_zero _)

/-- The segment that waits under a name is gone exactly when it had to make room. -/
theorem absent_iff {spool room : Spool} (distinct : (spool.files.map Prod.fst).Nodup) {k data : Nat}
    (roomy : Roomy k data spool room) (file : String) :
    file ∉ room.pending.map Prod.fst ↔
      fromOn file spool.pending = [] ∨ spool.maxBytes < size (fromOn file spool.pending) + data := by
  have names := nodup_pending distinct
  have few := roomy.few
  have fits := roomy.fits
  have needed := roomy.needed
  unfold used at fits
  rw [roomy.pending] at fits ⊢
  by_cases there : file ∈ spool.pending.map Prod.fst
  · obtain ⟨seg, inside, rfl⟩ := List.mem_map.mp there
    obtain ⟨before, after, split⟩ := List.append_of_mem inside
    rw [split] at names few fits needed ⊢
    rw [List.map_append, List.map_cons, List.nodup_append, List.nodup_cons] at names
    obtain ⟨-, ⟨absent, -⟩, apart⟩ := names
    have suffix : fromOn seg.1 (before ++ seg :: after) = seg :: after := by
      unfold fromOn
      rw [List.dropWhile_append_of_pos, List.dropWhile_cons_of_neg (by simp)]
      intro other inside'
      exact decide_eq_true (apart other.1 (List.mem_map_of_mem inside') seg.1 (.head _))
    rw [suffix]
    by_cases early : k ≤ before.length
    · -- it is not among the first ones, and what is left fits
      rw [List.drop_append_of_le_length early] at fits ⊢
      have fit := fits.resolve_left (by simp)
      rw [size_append] at fit
      refine iff_of_false (fun gone => gone ?_) ?_
      · exact List.mem_map_of_mem (List.mem_append_right _ List.mem_cons_self)
      · rintro (none | more)
        · cases none
        · omega
    · refine iff_of_true (fun left => ?_) (.inr ?_)
      · obtain ⟨j, rfl⟩ : ∃ j, k = before.length + (j + 1) := ⟨k - before.length - 1, by omega⟩
        rw [List.drop_length_add_append, List.drop_succ_cons] at left
        obtain ⟨other, inside', same⟩ := List.mem_map.mp left
        refine absent ?_
        rw [← same]
        exact List.mem_map_of_mem (List.mem_of_mem_drop inside')
      · have more := needed before.length (by omega)
        rwa [List.drop_left] at more
  · refine iff_of_true (fun left => there ?_) (.inl ?_)
    · obtain ⟨other, inside, same⟩ := List.mem_map.mp left
      exact List.mem_map.mpr ⟨other, List.mem_of_mem_drop inside, same⟩
    · refine List.dropWhile_eq_nil_iff.mpr fun seg inside => decide_eq_true fun same => there ?_
      exact List.mem_map.mpr ⟨seg, inside, same⟩

/-! ## Writing -/

section Writing

variable {spool : Spool} {file : String}

theorem mem_pending (names : listed file = true) :
    file ∈ spool.pending.map Prod.fst ↔ file ∈ spool.files.map Prod.fst := by
  rw [((pending_perm spool).map Prod.fst).mem_iff, List.mem_map, List.mem_map]
  constructor
  · rintro ⟨entry, inside, rfl⟩
    exact ⟨entry, (List.mem_filter.mp inside).1, rfl⟩
  · rintro ⟨entry, inside, rfl⟩
    exact ⟨entry, List.mem_filter.mpr ⟨inside, names⟩, rfl⟩

/-- A new name that waits. -/
theorem pending_set (names : listed file = true) (absent : file ∉ spool.pending.map Prod.fst) (data : Bytes) :
    { spool with files := spool.files.set file data }.pending.Perm ((file, data) :: spool.pending) := by
  rw [mem_pending names] at absent
  refine (pending_perm _).trans ?_
  rw [Dict.set_of_absent data absent, List.filter_append, List.filter_cons, if_pos names, List.filter_nil]
  exact (List.perm_append_singleton _ _).trans ((pending_perm spool).symm.cons _)

/-- A name that does not wait, or waits already. -/
theorem length_pending_set (lost : listed file = false ∨ file ∈ spool.pending.map Prod.fst) (data : Bytes) :
    { spool with files := spool.files.set file data }.pending.length = spool.pending.length := by
  rw [length_pending, length_pending]
  show (((spool.files.set file data).map Prod.fst).filter listed).length = _
  rw [Dict.keys_set]
  split
  next => rfl
  next absent =>
    obtain unlisted | there := lost
    · rw [List.filter_append, List.filter_cons, if_neg (by rw [unlisted]; exact Bool.false_ne_true), List.filter_nil,
        List.append_nil]
    · obtain ⟨entry, inside, same⟩ := List.mem_map.mp there
      refine absurd (List.mem_map.mpr ⟨entry, ?_, same⟩) absent
      exact (List.mem_filter.mp ((pending_perm spool).mem_iff.mp inside)).1

end Writing

/-! ## Each event -/

structure Kept (recorded : Recorded W) : Prop where
  policy : recorded.spool.policy = .dropOldest
  distinct : (recorded.spool.files.map Prod.fst).Nodup
  accounted : Accounted recorded

/-- The accounts after room was made. -/
theorem Accounted.roomy {recorded : Recorded W} (accounted : Accounted recorded) {k data : Nat} {room : Spool}
    (roomy : Roomy k data recorded.spool room) :
    Accounted { recorded with
      spool := room
      dropped := recorded.dropped ++ recorded.spool.pending.take (room.dropped - recorded.spool.dropped) } := by
  have gone : room.dropped - recorded.spool.dropped = k := by
    rw [roomy.dropped]
    omega
  have split := List.take_append_drop k recorded.spool.pending
  refine ⟨?_, ?_, ?_⟩
  · have all := accounted.bounded
    unfold used at all ⊢
    rw [← split, size_append] at all
    show size room.pending ≤ room.maxBytes
    rw [roomy.pending, roomy.maxBytes]
    omega
  · rw [gone]
    show recorded.accepted.Perm (room.pending ++ recorded.acknowledged ++ (recorded.dropped ++ _))
    refine accounted.conserved.trans ?_
    rw [roomy.pending]
    nth_rewrite 1 [← split]
    rw [List.append_assoc, List.append_assoc, List.append_assoc]
    refine List.perm_append_comm.trans ?_
    rw [List.append_assoc, List.append_assoc]
  · rw [gone]
    show (recorded.dropped ++ recorded.spool.pending.take k).length = room.dropped
    rw [List.length_append, List.length_take, Nat.min_eq_left roomy.few, accounted.counted, roomy.dropped]

theorem Accounted.length {recorded : Recorded W} (accounted : Accounted recorded) :
    recorded.accepted.length =
      recorded.spool.pending.length + recorded.acknowledged.length + recorded.dropped.length := by
  rw [accounted.conserved.length_eq, List.length_append, List.length_append]

variable {strange : String → Landing}

theorem Kept.accept {recorded : Recorded W} (before : Kept recorded) (name : String) (data : Bytes) :
    (Fits strange recorded (.accept name data) → Kept (step strange recorded (.accept name data))) ∧
      (¬ Fits strange recorded (.accept name data) → ¬ Accounted (step strange recorded (.accept name data))) := by
  obtain ⟨k, room, roomy, accept⟩ := accept_eq before.distinct before.policy strange name data
  have made := before.accounted.roomy roomy
  have policy : room.policy = .dropOldest := roomy.policy.trans before.policy
  simp only [step, accept, Fits]
  unfold write
  cases lands : landing strange name with
  | refused =>
    refine ⟨fun _ => ⟨policy, roomy.distinct, ?_⟩, fun unfit => absurd (.inl rfl) unfit⟩
    simpa only [kept, List.append_nil] using made
  | elsewhere =>
    refine ⟨?_, fun _ accounted => ?_⟩
    · rintro (none | ⟨file, none, -⟩)
      · cases none
      · cases none
    · have length := accounted.length
      have length' := made.length
      simp only [kept, lands, List.length_append, List.length_singleton] at length length'
      omega
  | file file =>
    have absent := absent_iff before.distinct roomy file
    by_cases stays : listed file = true ∧ file ∉ room.pending.map Prod.fst
    · have pending := pending_set stays.1 stays.2 data
      have conserved := made.conserved
      have used : { room with files := room.files.set file data }.used = data.length + room.used := by
        rw [Spool.used, size_perm pending]
        rfl
      refine ⟨?_, fun unfit accounted => unfit ?_⟩
      · rintro (none | ⟨file', same, -, small, -⟩)
        · cases none
        · cases same
          refine ⟨policy, Dict.nodup_keys_set roomy.distinct _ _, ?_, ?_, made.counted⟩
          · show { room with files := room.files.set file data }.used ≤ room.maxBytes
            rw [used, roomy.maxBytes]
            -- where nothing is left, the segment itself is small enough
            obtain empty | fits := roomy.fits
            · rw [Spool.used, empty]
              exact small
            · omega
          · simp only [SpoolAccounts.kept, lands] at conserved ⊢
            refine (conserved.append_right _).trans (List.perm_append_comm.trans ?_)
            have whole := (pending.append_right recorded.acknowledged).append_right
              (recorded.dropped ++ recorded.spool.pending.take (room.dropped - recorded.spool.dropped))
            exact whole.symm
      · -- within the bound the segment is small enough
        have bounded : { room with files := room.files.set file data }.used ≤ room.maxBytes := accounted.bounded
        rw [used, roomy.maxBytes] at bounded
        exact .inr ⟨file, rfl, stays.1, by omega, absent.mp stays.2⟩
    · have lost : listed file = false ∨ file ∈ room.pending.map Prod.fst := by
        by_cases names : listed file = true
        · exact .inr (Classical.not_not.mp fun gone => stays ⟨names, gone⟩)
        · exact .inl (Bool.eq_false_iff.mpr names)
      refine ⟨?_, fun _ accounted => ?_⟩
      · rintro (none | ⟨file', same, names, -, making⟩)
        · cases none
        · cases same
          exact absurd ⟨names, absent.mpr making⟩ stays
      · have length := accounted.length
        have length' := made.length
        have same := length_pending_set lost data
        simp only [SpoolAccounts.kept, lands, List.length_append, List.length_singleton] at length length' same
        omega

/-- What is sent is what is acknowledged, and it is gone. -/
theorem drainRounds_spec (upload : String → W → Bool × W) (budgetPerTick : Int) (segments : List (String × Bytes))
    {spool : Spool} (distinct : (spool.files.map Prod.fst).Nodup) (pending : spool.pending = segments) (sent : Nat)
    (world : W) :
    let answer := drainRounds upload budgetPerTick segments sent world spool
    answer.2.2.policy = spool.policy ∧ answer.2.2.maxBytes = spool.maxBytes ∧ answer.2.2.dropped = spool.dropped ∧
      (answer.2.2.files.map Prod.fst).Nodup ∧
      segments = acknowledges upload (budgetPerTick - sent).toNat segments world ++ answer.2.2.pending := by
  induction segments generalizing spool sent world with
  | nil =>
    have nothing : acknowledges upload (budgetPerTick - sent).toNat [] world = [] := by
      cases (budgetPerTick - sent).toNat <;> rfl
    refine ⟨rfl, rfl, rfl, distinct, ?_⟩
    rw [nothing, List.nil_append]
    exact pending.symm
  | cons seg rest ih =>
    obtain ⟨path, data⟩ := seg
    unfold drainRounds
    by_cases spent : budgetPerTick ≤ sent
    · have none : (budgetPerTick - sent).toNat = 0 := by omega
      rw [if_pos spent, none]
      exact ⟨rfl, rfl, rfl, distinct, pending.symm⟩
    · have more : (budgetPerTick - sent).toNat = (budgetPerTick - (sent + 1 : Nat)).toNat + 1 := by omega
      rw [if_neg spent, more, acknowledges]
      by_cases answered : (upload path world).1 = true
      · obtain ⟨policy, maxBytes, dropped, distinct', rest'⟩ := ih (Dict.nodup_keys_pop distinct path)
          (pending_remove_first distinct pending) (sent + 1) (upload path world).2
        simp only [answered, if_true]
        refine ⟨policy, maxBytes, dropped, distinct', ?_⟩
        rw [List.cons_append, ← rest']
      · simp only [answered, Bool.false_eq_true, if_false]
        exact ⟨trivial, trivial, trivial, distinct, pending.symm⟩

theorem Kept.drain {recorded : Recorded W} (before : Kept recorded) (upload : String → W → Bool × W)
    (budgetPerTick : Int) : Kept (step strange recorded (.drain upload budgetPerTick)) := by
  obtain ⟨policy, maxBytes, dropped, distinct, split⟩ :=
    drainRounds_spec upload budgetPerTick recorded.spool.pending before.distinct rfl 0 recorded.world
  have budget : budgetPerTick - (0 : Nat) = budgetPerTick := by omega
  rw [budget] at split
  simp only [step, Spool.drain]
  refine ⟨policy.trans before.policy, distinct, ?_, ?_, before.accounted.counted.trans dropped.symm⟩
  · have bounded := before.accounted.bounded
    unfold used at bounded ⊢
    rw [split, size_append] at bounded
    dsimp only
    rw [maxBytes]
    omega
  · refine before.accounted.conserved.trans (.append_right _ ?_)
    nth_rewrite 1 [split]
    rw [List.append_assoc]
    refine List.perm_append_comm.trans ?_
    rw [List.append_assoc]

/-! ## Runs -/

theorem kept_start (maxBytes : Nat) (world : W) : Kept (start maxBytes world) :=
  ⟨rfl, List.nodup_nil, Nat.zero_le _, .nil, rfl⟩

end EdgeVms.Verified.SpoolAccounts
