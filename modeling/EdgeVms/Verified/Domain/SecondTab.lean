import EdgeVms.Domain.Preferences

/-! # Preferences saved from several tabs

A call checks the revision when it reads and writes when it writes.  A tab whose
base was replaced before its read is told; one whose base is replaced between its
read and its write overwrites what the other tab saved, and both of them return.
-/

namespace EdgeVms.Verified.SecondTab

open Python Process Domain
open Domain.PrefsProgram (prefsKey prefsObject prefsOf putPrefs stale)

variable {ι : Type} [DecidableEq ι]

/-- What an earlier call has left, if there was one: a revision and the preferences. -/
abbrev Saved := Option (Int × Value)

def Saved.object (saved : Saved) : Option Value := saved.map fun entry => prefsObject entry.1 entry.2

def Saved.revision (saved : Saved) : Int := (saved.map Prod.fst).getD 0

/-- Every tab is about to save, and the user's object is the one that was saved first. -/
def begin_ (uid : String) (tabs : ι → Tab) (first : Saved) (objects : Objects) : Tabs ι :=
  .begin_ uid tabs (Function.update objects (prefsKey uid) first.object)

def Returned (state : Tabs ι) (i : ι) : Prop := ∃ revision, state.pool.procs i = .ret revision

/-- What the last of the calls has saved. -/
def latest (tabs : ι → Tab) (first : Saved) (returned : List ι) : Saved :=
  returned.getLast?.elim first fun i => some ((tabs i).base + 1, (tabs i).prefs)

/-- A second tab is told. -/
structure Told (uid : String) (tabs : ι → Tab) (first : Saved) (state : Tabs ι) : Prop where
  once : ∀ i j, Returned state i → Returned state j → (tabs i).base = (tabs j).base → i = j
  refused : ∀ i, (state.pool.procs i).Finished → ¬Returned state i →
    ∃ message, state.pool.procs i = .raise (.conflict message)
  kept : state.pool.state (prefsKey uid) = (latest tabs first state.returned).object

/-- The revision that a read would find. -/
def revisionNow (uid : String) (objects : Objects) : Except Error Int :=
  (objects (prefsKey uid)).elim (.ok 0) fun d => (prefsOf d).map Prod.snd

/-- If the call is about to write, then the stored revision is still its base. -/
def StillBase (uid : String) (tabs : ι → Tab) (state : Tabs ι) (i : ι) : Prop :=
  (∃ key data, (state.pool.procs i).request? = some (.put key data)) →
    revisionNow uid state.pool.state = .ok (tabs i).base

/-! ## One call -/

/-- The call has found its base, and is about to write. -/
def saving (uid : String) (tab : Tab) : PrefsProgram Int :=
  .call () (.put (prefsKey uid) (prefsObject (tab.base + 1) tab.prefs)) fun _ => .ret (tab.base + 1)

inductive Stage (uid : String) (tab : Tab) : PrefsProgram Int → Prop
  | asking : Stage uid tab (putPrefs uid tab.prefs tab.base)
  | saving : Stage uid tab (saving uid tab)
  | returned : Stage uid tab (.ret (tab.base + 1))
  | refused (message : String) : Stage uid tab (.raise (.conflict message))

@[simp] theorem prefsOf_prefsObject (revision : Int) (prefs : Value) :
    prefsOf (prefsObject revision prefs) = .ok (prefs, revision) := rfl

theorem revisionNow_object {uid : String} {objects : Objects} {saved : Saved}
    (stored : objects (prefsKey uid) = saved.object) : revisionNow uid objects = .ok saved.revision := by
  rw [revisionNow, stored]
  cases saved with
  | none => rfl
  | some entry => rfl

/-- What a call does with what it has read. -/
def onRead (uid : String) (tab : Tab) (current : Int) : PrefsProgram Int := do
  if tab.base ≠ current then throw (.conflict (stale current tab.base))
  let _ ← PrefsProgram.ask (.put (prefsKey uid) (prefsObject (current + 1) tab.prefs))
  return current + 1

theorem onRead_base (uid : String) (tab : Tab) : onRead uid tab tab.base = saving uid tab := by
  rw [onRead, if_neg (by simp)]
  rfl

theorem onRead_other (uid : String) {tab : Tab} {current : Int} (other : tab.base ≠ current) :
    onRead uid tab current = .raise (.conflict (stale current tab.base)) := by
  rw [onRead, if_pos other]
  rfl

/-- The first request of a call, and how it goes on. -/
theorem putPrefs_read (uid : String) (tab : Tab) :
    ∃ next, putPrefs uid tab.prefs tab.base = .call () (.get (prefsKey uid)) next ∧
      ∀ saved : Saved, next saved.object = onRead uid tab saved.revision := by
  refine ⟨_, rfl, fun saved => ?_⟩
  cases saved with
  | none => rfl
  | some entry => rfl

/-! ## One step -/

variable {uid : String} {tabs : ι → Tab} {first : Saved} {state : Tabs ι} {i : ι}

/-- The state after a step that leaves call `i` at `p` and writes nothing. -/
def Tabs.now (state : Tabs ι) (i : ι) (p : PrefsProgram Int) : Tabs ι :=
  ⟨⟨Function.update state.pool.procs i p, state.pool.state⟩, state.returned⟩

/-- The state after the write of call `i`. -/
def Tabs.wrote (uid : String) (tab : Tab) (state : Tabs ι) (i : ι) : Tabs ι :=
  ⟨⟨Function.update state.pool.procs i (.ret (tab.base + 1)),
    Function.update state.pool.state (prefsKey uid) (some (prefsObject (tab.base + 1) tab.prefs))⟩,
    state.returned ++ [i]⟩

/-- What holds at every moment of a run. -/
structure Sound (uid : String) (tabs : ι → Tab) (first : Saved) (state : Tabs ι) : Prop where
  stage : ∀ i, Stage uid (tabs i) (state.pool.procs i)
  listed : ∀ i, i ∈ state.returned ↔ Returned state i
  stored : state.pool.state (prefsKey uid) = (latest tabs first state.returned).object

/-- What a step of call `i` can do. -/
inductive Stepped (uid : String) (tabs : ι → Tab) (first : Saved) (state : Tabs ι) (i : ι) : Tabs ι → Prop
  | checked (here : state.pool.procs i = putPrefs uid (tabs i).prefs (tabs i).base)
      (same : (tabs i).base = (latest tabs first state.returned).revision) :
      Stepped uid tabs first state i (Tabs.now state i (saving uid (tabs i)))
  | told (here : state.pool.procs i = putPrefs uid (tabs i).prefs (tabs i).base) (message : String) :
      Stepped uid tabs first state i (Tabs.now state i (.raise (.conflict message)))
  | wrote (here : state.pool.procs i = saving uid (tabs i)) :
      Stepped uid tabs first state i (Tabs.wrote uid (tabs i) state i)
  | finished (here : (state.pool.procs i).Finished) : Stepped uid tabs first state i state

theorem step_finished (here : (state.pool.procs i).Finished) : state.step i = state := by
  have still : Pool.step (fun _ => Objects.handler) state.pool i = state.pool := Pool.step_finished here
  rw [Tabs.step, still]
  cases known : (state.pool.procs i).value? with
  | none => simp
  | some value => simp

theorem step_asking (here : state.pool.procs i = putPrefs uid (tabs i).prefs (tabs i).base)
    (stored : state.pool.state (prefsKey uid) = (latest tabs first state.returned).object) :
    state.step i = Tabs.now state i (onRead uid (tabs i) (latest tabs first state.returned).revision) := by
  obtain ⟨next, call, read⟩ := putPrefs_read uid (tabs i)
  have stepped := @Pool.step_call _ _ _ _ _ _ _ (fun _ => Objects.handler) _ _ _ _ _ (here.trans call)
  have found : (Objects.handler (.get (prefsKey uid)) state.pool.state).1 =
      (latest tabs first state.returned).object := stored
  rw [found, read] at stepped
  have unfinished : (onRead uid (tabs i) (latest tabs first state.returned).revision).value? = none := by
    by_cases same : (tabs i).base = (latest tabs first state.returned).revision
    · rw [← same, onRead_base]
      rfl
    · rw [onRead_other uid same]
      rfl
  rw [Tabs.step, stepped, Tabs.now]
  simp [unfinished]
  rfl

theorem step_saving (here : state.pool.procs i = saving uid (tabs i)) :
    state.step i = Tabs.wrote uid (tabs i) state i := by
  have stepped := @Pool.step_call _ _ _ _ _ _ _ (fun _ => Objects.handler) _ _ _ _ _ here
  rw [Tabs.step, stepped, Tabs.wrote, here]
  simp [saving, Objects.handler, Proc.value?]

theorem Sound.stepped (sound : Sound uid tabs first state) (i : ι) :
    Stepped uid tabs first state i (state.step i) := by
  generalize here : state.pool.procs i = p
  have stage := here ▸ sound.stage i
  cases stage with
  | asking =>
    rw [step_asking here sound.stored]
    by_cases same : (tabs i).base = (latest tabs first state.returned).revision
    · rw [← same, onRead_base]
      exact .checked here same
    · rw [onRead_other uid same]
      exact .told here _
  | saving =>
    rw [step_saving here]
    exact .wrote here
  | returned =>
    rw [step_finished (by rw [here]; trivial)]
    exact .finished (by rw [here]; trivial)
  | refused message =>
    rw [step_finished (by rw [here]; trivial)]
    exact .finished (by rw [here]; trivial)

/-! ## What every run keeps -/

omit [DecidableEq ι] in
@[simp] theorem latest_snoc (tabs : ι → Tab) (first : Saved) (returned : List ι) (i : ι) :
    latest tabs first (returned ++ [i]) = some ((tabs i).base + 1, (tabs i).prefs) := by
  simp [latest]

omit [DecidableEq ι] in
theorem not_returned_saving (here : state.pool.procs i = saving uid (tabs i)) : ¬Returned state i := by
  rintro ⟨revision, returned⟩
  rw [here] at returned
  cases returned

omit [DecidableEq ι] in
theorem not_returned_asking (here : state.pool.procs i = putPrefs uid (tabs i).prefs (tabs i).base) :
    ¬Returned state i := by
  rintro ⟨revision, returned⟩
  rw [here] at returned
  cases returned

theorem Sound.step (sound : Sound uid tabs first state) (i : ι) : Sound uid tabs first (state.step i) := by
  generalize after : state.step i = next
  have stepped := after ▸ sound.stepped i
  have moved : ∀ p, Stage uid (tabs i) p → (∀ value, p ≠ .ret value) → ¬Returned state i →
      Sound uid tabs first (Tabs.now state i p) := by
    intro p stage unfinished before
    refine ⟨fun j => ?_, fun j => ?_, sound.stored⟩
    · by_cases same : j = i
      · subst same
        simpa [Tabs.now] using stage
      · simpa [Tabs.now, same] using sound.stage j
    · by_cases same : j = i
      · subst same
        constructor
        · intro member
          exact absurd ((sound.listed j).mp member) before
        · rintro ⟨value, returned⟩
          simp only [Tabs.now, Function.update_self] at returned
          exact absurd returned (unfinished value)
      · simpa [Tabs.now, Returned, same] using sound.listed j
  cases stepped with
  | checked here same => exact moved _ .saving (by simp [saving]) (not_returned_asking here)
  | told here message => exact moved _ (.refused message) (by simp) (not_returned_asking here)
  | finished here => exact sound
  | wrote here =>
    refine ⟨fun j => ?_, fun j => ?_, ?_⟩
    · by_cases same : j = i
      · subst same
        simpa [Tabs.wrote] using Stage.returned
      · simpa [Tabs.wrote, same] using sound.stage j
    · by_cases same : j = i
      · subst same
        simp [Tabs.wrote, Returned]
      · simpa [Tabs.wrote, Returned, same] using sound.listed j
    · simp [Tabs.wrote, Saved.object]

omit [DecidableEq ι] in
theorem sound_begin (uid : String) (tabs : ι → Tab) (first : Saved) (objects : Objects) :
    Sound uid tabs first (begin_ uid tabs first objects) := by
  refine ⟨fun i => .asking, fun i => ?_, ?_⟩
  · have asking : ¬Returned (begin_ uid tabs first objects) i := @not_returned_asking _ uid tabs _ _ rfl
    simpa [begin_, Tabs.begin_] using asking
  · simp [begin_, Tabs.begin_, latest]

/-! ## One call for each base -/

/-- No two of the calls have one base. -/
def Once (tabs : ι → Tab) (returned : List ι) : Prop :=
  ∀ i ∈ returned, ∀ j ∈ returned, (tabs i).base = (tabs j).base → i = j

/-- While no base has been used twice, the revision is ahead of all the bases that were used, and a
call that is about to write has the base of the moment, or one that was used in between. -/
structure Tracked (uid : String) (tabs : ι → Tab) (first : Saved) (state : Tabs ι) : Prop where
  sound : Sound uid tabs first state
  ahead : Once tabs state.returned → ∀ j ∈ state.returned,
    (tabs j).base < (latest tabs first state.returned).revision
  waiting : Once tabs state.returned → ∀ j, state.pool.procs j = saving uid (tabs j) →
    (tabs j).base = (latest tabs first state.returned).revision ∨ ∃ k ∈ state.returned, (tabs k).base = (tabs j).base

omit [DecidableEq ι] in
theorem once_snoc {returned : List ι} (new : i ∉ returned) :
    Once tabs (returned ++ [i]) ↔ Once tabs returned ∧ ∀ j ∈ returned, (tabs j).base ≠ (tabs i).base := by
  constructor
  · intro once
    refine ⟨fun j inside k inside' => once j (by simp [inside]) k (by simp [inside']), fun j inside same => ?_⟩
    have equal : j = i := once j (by simp [inside]) i (by simp) same
    exact new (equal ▸ inside)
  · rintro ⟨once, others⟩ j inside k inside' same
    simp only [List.mem_append, List.mem_singleton] at inside inside'
    obtain inside | rfl := inside
    · obtain inside' | rfl := inside'
      · exact once j inside k inside' same
      · exact absurd same (others j inside)
    · obtain inside' | rfl := inside'
      · exact absurd same.symm (others k inside')
      · rfl

omit [DecidableEq ι] in
theorem Sound.new (sound : Sound uid tabs first state) (here : state.pool.procs i = saving uid (tabs i)) :
    i ∉ state.returned := fun inside => not_returned_saving here ((sound.listed i).mp inside)

omit [DecidableEq ι] in
/-- The writes that leave every base used once are those that find their base. -/
theorem Tracked.once_wrote (tracked : Tracked uid tabs first state) (here : state.pool.procs i = saving uid (tabs i)) :
    Once tabs (state.returned ++ [i]) ↔
      Once tabs state.returned ∧ (tabs i).base = (latest tabs first state.returned).revision := by
  rw [once_snoc (tracked.sound.new here)]
  refine and_congr_right fun once => ⟨fun others => ?_, fun same j inside => ?_⟩
  · obtain same | ⟨k, inside, used⟩ := tracked.waiting once i here
    · exact same
    · exact absurd used (others k inside)
  · have behind := tracked.ahead once j inside
    omega

omit [DecidableEq ι] in
theorem stillBase_saving (sound : Sound uid tabs first state) (here : state.pool.procs i = saving uid (tabs i)) :
    StillBase uid tabs state i ↔ (tabs i).base = (latest tabs first state.returned).revision := by
  have asks : ∃ key data, (state.pool.procs i).request? = some (.put key data) := ⟨_, _, by rw [here]; rfl⟩
  rw [StillBase, revisionNow_object sound.stored]
  constructor
  · intro still
    exact (Except.ok.inj (still asks)).symm
  · intro same _
    rw [same]

theorem Tracked.once_step (tracked : Tracked uid tabs first state) (i : ι) :
    Once tabs (state.step i).returned ↔ Once tabs state.returned ∧ StillBase uid tabs state i := by
  generalize after : state.step i = next
  have stepped := after ▸ tracked.sound.stepped i
  have quiet (still : StillBase uid tabs state i) :
      Once tabs state.returned ↔ Once tabs state.returned ∧ StillBase uid tabs state i :=
    ⟨fun once => ⟨once, still⟩, fun both => both.1⟩
  cases stepped with
  | checked here same =>
    refine quiet ?_
    rintro ⟨key, data, asks⟩
    rw [here] at asks
    cases asks
  | told here message =>
    refine quiet ?_
    rintro ⟨key, data, asks⟩
    rw [here] at asks
    cases asks
  | finished here =>
    refine quiet ?_
    rintro ⟨key, data, asks⟩
    generalize state.pool.procs i = p at here asks
    cases p with
    | call label request next => exact here.elim
    | ret value => cases asks
    | raise error => cases asks
  | wrote here =>
    rw [stillBase_saving tracked.sound here]
    exact tracked.once_wrote here

theorem Tracked.step (tracked : Tracked uid tabs first state) (i : ι) : Tracked uid tabs first (state.step i) := by
  have sound := tracked.sound.step i
  generalize after : state.step i = next at sound ⊢
  have stepped := after ▸ tracked.sound.stepped i
  -- a step that writes nothing can only add a call that has just found its base
  have quiet : ∀ p, (p = saving uid (tabs i) → (tabs i).base = (latest tabs first state.returned).revision) →
      Sound uid tabs first (Tabs.now state i p) → Tracked uid tabs first (Tabs.now state i p) := by
    intro p found sound
    refine ⟨sound, tracked.ahead, fun once j here => ?_⟩
    by_cases same : j = i
    · subst same
      exact .inl (found (by simpa [Tabs.now] using here))
    · exact tracked.waiting once j (by simpa [Tabs.now, same] using here)
  cases stepped with
  | checked here same => exact quiet _ (fun _ => same) sound
  | told here message => exact quiet _ (by simp [saving]) sound
  | finished here => exact tracked
  | wrote here =>
    refine ⟨sound, fun once j inside => ?_, fun once j saves => ?_⟩
    · obtain ⟨before, same⟩ := (tracked.once_wrote here).mp once
      simp only [Tabs.wrote, latest_snoc, Saved.revision, Option.map_some, Option.getD_some] at inside ⊢
      obtain earlier | rfl := List.mem_append.mp inside |>.imp_right List.mem_singleton.mp
      · have behind := tracked.ahead before j earlier
        omega
      · omega
    · -- whoever waits with the base of the moment waits with a used one from now on
      obtain ⟨before, same⟩ := (tracked.once_wrote here).mp once
      have other : j ≠ i := by
        rintro rfl
        simp [Tabs.wrote, saving] at saves
      have waits := tracked.waiting before j (by simpa [Tabs.wrote, other] using saves)
      refine .inr ?_
      obtain current | ⟨k, inside, used⟩ := waits
      · exact ⟨i, by simp [Tabs.wrote], by omega⟩
      · exact ⟨k, by simp [Tabs.wrote, inside], used⟩

omit [DecidableEq ι] in
theorem told_iff_once (sound : Sound uid tabs first state) : Told uid tabs first state ↔ Once tabs state.returned := by
  constructor
  · intro told i inside j inside' same
    exact told.once i j ((sound.listed i).mp inside) ((sound.listed j).mp inside') same
  · intro once
    refine ⟨fun i j returned returned' => ?_, fun i finished open_ => ?_, sound.stored⟩
    · exact once i ((sound.listed i).mpr returned) j ((sound.listed j).mpr returned')
    · generalize here : state.pool.procs i = p at finished
      have stage := here ▸ sound.stage i
      cases stage with
      | asking => exact finished.elim
      | saving => exact finished.elim
      | returned => exact absurd ⟨_, here⟩ open_
      | refused message => exact ⟨message, rfl⟩

/-- After a run every second tab has been told exactly when each write found its base still stored. -/
theorem second_tab_iff (uid : String) (tabs : ι → Tab) (first : Saved) (objects : Objects) (schedule : List ι) :
    Told uid tabs first (schedule.foldl Tabs.step (begin_ uid tabs first objects)) ↔
      Along Tabs.step (StillBase uid tabs) schedule (begin_ uid tabs first objects) := by
  have start : Tracked uid tabs first (begin_ uid tabs first objects) := by
    refine ⟨sound_begin uid tabs first objects, fun _ j inside => ?_, fun _ j here => ?_⟩
    · simp [begin_, Tabs.begin_] at inside
    · cases here
  have keeps : ∀ state i, Tracked uid tabs first state → Tracked uid tabs first (Tabs.step state i) :=
    fun state i tracked => tracked.step i
  have along : Along Tabs.step (fun _ _ => True) schedule (begin_ uid tabs first objects) :=
    .always (fun _ _ => trivial) schedule _
  have tracked := along.keeps (fun state i _ => keeps state i) start
  have steps : ∀ state i, Tracked uid tabs first state → (Once tabs (Tabs.step state i).returned ↔
      Once tabs state.returned ∧ StillBase uid tabs state i) := fun state i tracked => tracked.once_step i
  have counted : Once tabs (schedule.foldl Tabs.step (begin_ uid tabs first objects)).returned ↔ _ :=
    @after_iff_along _ _ Tabs.step (StillBase uid tabs) _ (fun state => Once tabs state.returned) keeps steps schedule _ start
  rw [told_iff_once tracked.sound, counted]
  refine and_iff_right ?_
  intro i inside
  simp [begin_, Tabs.begin_] at inside

/-! ## Two tabs -/

/-- Two tabs of one user, who has saved nothing yet. -/
def twoTabs : Bool → Tab
  | false => ⟨.dict [("wall", .int 1)], 0⟩
  | true => ⟨.dict [("wall", .int 2)], 0⟩

/-- Both read, then both write: the second overwrites the first, and both return. -/
theorem second_tab_not_told :
    ¬Told "alice" twoTabs none
      ([false, true, false, true].foldl Tabs.step (begin_ "alice" twoTabs none fun _ => none)) := by
  intro told
  have both := told.once false true ⟨1, rfl⟩ ⟨1, rfl⟩ rfl
  cases both

end EdgeVms.Verified.SecondTab
