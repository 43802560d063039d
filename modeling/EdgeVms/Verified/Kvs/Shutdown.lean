import EdgeVms.Kvs.Looper
import Mathlib.Data.List.TakeWhile
import Mathlib.Tactic.Linarith

/-! # A signal at any moment

The supervisor at the edge, with a signal between any two of its steps: it leaves no child
behind, waits for none that it has not asked to stop, and backs off by the failures in a row.
-/

namespace EdgeVms.Verified.Shutdown

open EdgeVms.Kvs EdgeVms.Kvs.Looper

/-! ## What a step can do -/

inductive Goes (state : Looper) : Event → Looper → Prop
  | stays {event} : Goes state event state
  | signal : Goes state .signal state.requestShutdown
  | exits {child returncode} : Goes state (.childExits child returncode)
      { state with children := state.children.modify child (Child.exit returncode) }
  | leaves {launches} (here : state.place = .loop) (asked : state.shuttingDown = true) :
      Goes state (.next launches) { state with place := .stopping }
  | begins {launches} (here : state.place = .loop) (calm : state.shuttingDown = false) :
      Goes state (.next launches) { state with place := .launching, loopNum := state.loopNum + 1 }
  | launches (here : state.place = .launching) : Goes state (.next true)
      { state with children := state.children ++ [.running false], place := .launched state.children.length }
  | fails (here : state.place = .launching) : Goes state (.next false) { state with place := .stopping }
  | assigns {launches child} (here : state.place = .launched child) :
      Goes state (.next launches) { state with currentProc := some child, place := .assigned }
  | hears {launches child} (here : state.place = .assigned) (asked : state.shuttingDown = true)
      (current : state.currentProc = some child) :
      Goes state (.next launches) (({ state with place := .waiting } : Looper).terminate child)
  | waits {launches} (here : state.place = .assigned)
      (calm : state.shuttingDown = false ∨ state.currentProc = none) :
      Goes state (.next launches) { state with place := .waiting }
  | reaps {launches child returncode} (here : state.place = .waiting) (current : state.currentProc = some child)
      (exited : state.children[child]? = some (.exited returncode)) :
      Goes state (.next launches) { state with place := .waited returncode }
  | forgets {launches returncode} (here : state.place = .waited returncode) :
      Goes state (.next launches) { state with currentProc := none, place := .returned returncode }
  | stops {launches returncode} (here : state.place = .returned returncode) (asked : state.shuttingDown = true) :
      Goes state (.next launches) { state with place := .stopping }
  | restarts {launches} (here : state.place = .returned 0) (calm : state.shuttingDown = false) :
      Goes state (.next launches) { state with backoff := backoffStart, place := .loop }
  | backsOff {launches returncode} (here : state.place = .returned returncode) (calm : state.shuttingDown = false)
      (failed : returncode ≠ 0) : Goes state (.next launches) { state with place := .sleeping state.backoff }
  | wakes {seconds} (here : state.place = .sleeping seconds) : Goes state .wake { state with place := .slept }
  | doubles {launches} (here : state.place = .slept) :
      Goes state (.next launches) { state with backoff := min (state.backoff * 2) backoffCap, place := .loop }
  | ends {launches} (here : state.place = .stopping) : Goes state (.next launches) { state with place := .ended }

theorem goes_next (state : Looper) (launches : Bool) : Goes state (.next launches) (state.next launches) := by
  unfold Looper.next
  split
  next here =>
    split
    next asked => exact .leaves here asked
    next calm => exact .begins here (Bool.not_eq_true _ ▸ calm)
  next here =>
    cases launches with
    | true => exact .launches here
    | false => exact .fails here
  next child here => exact .assigns here
  next here =>
    dsimp only
    split
    next child asked current => exact .hears here asked current
    next asked current other =>
      refine .waits here ?_
      cases asked : state.shuttingDown with
      | false => exact .inl rfl
      | true =>
        cases current : state.currentProc with
        | none => exact .inr rfl
        | some child => exact absurd current (other child asked)
  next here =>
    split
    next returncode exited =>
      obtain ⟨child, current, exited⟩ := Option.bind_eq_some_iff.mp exited
      exact .reaps here current exited
    next => exact .stays
  next returncode here => exact .forgets here
  next returncode here =>
    split
    next asked => exact .stops here asked
    next calm =>
      have calm : state.shuttingDown = false := Bool.not_eq_true _ ▸ calm
      split
      next clean => exact .restarts (clean ▸ here) calm
      next failed => exact .backsOff here calm failed
  next => exact .stays
  next here => exact .doubles here
  next here => exact .ends here
  next => exact .stays

theorem goes_step (state : Looper) (event : Event) : Goes state event (state.step event) := by
  cases event with
  | signal =>
    simp only [Looper.step]
    split
    · exact .stays
    · exact .signal
  | childExits child returncode => exact .exits
  | next launches => exact goes_next state launches
  | wake =>
    simp only [Looper.step]
    split
    next seconds here => exact .wakes here
    next => exact .stays

/-! ## The children -/

def AllEnded (children : List Child) : Prop := ∀ child ∈ children, ∃ returncode, child = .exited returncode

def Fixes (f : Child → Child) : Prop := ∀ returncode, f (.exited returncode) = .exited returncode

theorem fixes_terminate : Fixes Child.terminate := fun _ => rfl

theorem fixes_exit (returncode : Int) : Fixes (Child.exit returncode) := fun _ => rfl

theorem AllEnded.modify {children : List Child} (ended : AllEnded children) {f : Child → Child} (fixes : Fixes f) (i : Nat) :
    children.modify i f = children := by
  induction children generalizing i with
  | nil => simp
  | cons child rest ih =>
    obtain ⟨⟨returncode, rfl⟩, later⟩ := List.forall_mem_cons.mp ended
    cases i with
    | zero => rw [List.modify_zero_cons, fixes]
    | succ i => rw [List.modify_succ_cons, ih later]

theorem modify_newest {old : List Child} (ended : AllEnded old) {f : Child → Child} (fixes : Fixes f) (newest : Child)
    (i : Nat) : (old ++ [newest]).modify i f = old ++ [if i = old.length then f newest else newest] := by
  induction old generalizing i with
  | nil =>
    cases i with
    | zero => rfl
    | succ i => simp
  | cons child rest ih =>
    obtain ⟨⟨returncode, rfl⟩, later⟩ := List.forall_mem_cons.mp ended
    cases i with
    | zero => simp [fixes returncode]
    | succ i => simp [ih later]

def failed : Child → Bool
  | .running _ => false
  | .exited returncode => returncode ≠ 0

/-- How many children failed in a row, at the end. -/
def failures (children : List Child) : Nat := (children.reverse.takeWhile failed).length

theorem failures_clean (old : List Child) : failures (old ++ [.exited 0]) = 0 := by
  simp [failures, failed]

theorem failures_failed (old : List Child) {returncode : Int} (bad : returncode ≠ 0) :
    failures (old ++ [.exited returncode]) = failures old + 1 := by
  simp [failures, failed, bad]

/-- The wait after `n + 1` failures in a row. -/
def delay (n : Nat) : ℚ := min (2 ^ n) 30

theorem delay_zero : delay 0 = backoffStart := by
  norm_num [delay, backoffStart]

theorem delay_succ (n : Nat) : delay (n + 1) = min (delay n * 2) backoffCap := by
  unfold delay backoffCap
  rw [pow_succ]
  obtain small | large := le_total ((2 : ℚ) ^ n) 30
  · rw [min_eq_left small]
  · rw [min_eq_right large, min_eq_right (by linarith), min_eq_right (by norm_num)]

/-! ## The supervisor -/

/-- One child is under way, and all before it have ended. -/
structure Held (state : Looper) (old : List Child) (newest : Child) : Prop where
  children : state.children = old ++ [newest]
  older : AllEnded old
  backoff : state.backoff = delay (failures old)

/-- What holds at each place. -/
def Fits (state : Looper) : Prop :=
  match state.place with
  | .loop | .launching =>
    state.currentProc = none ∧ AllEnded state.children ∧ state.backoff = delay (failures state.children)
  | .launched child => state.currentProc = none ∧ ∃ old newest, Held state old newest ∧ child = old.length
  | .assigned => ∃ old newest, Held state old newest ∧ state.currentProc = some old.length
  | .waiting => ∃ old newest, Held state old newest ∧ state.currentProc = some old.length ∧
      (state.shuttingDown = true → newest ≠ .running false)
  | .waited returncode => ∃ old, Held state old (.exited returncode) ∧ state.currentProc = some old.length
  | .returned returncode => state.currentProc = none ∧ ∃ old, Held state old (.exited returncode)
  | .sleeping seconds => state.currentProc = none ∧ AllEnded state.children ∧
      ∃ n, failures state.children = n + 1 ∧ seconds = delay n ∧ state.backoff = delay n
  | .slept => state.currentProc = none ∧ AllEnded state.children ∧
      ∃ n, failures state.children = n + 1 ∧ state.backoff = delay n
  | .stopping | .ended => state.currentProc = none ∧ AllEnded state.children

variable {state state' : Looper} {event : Event} {old : List Child} {newest : Child} {returncode : Int}

theorem Held.ended (held : Held state old (.exited returncode)) : AllEnded state.children := by
  rw [held.children]
  intro child member
  obtain before | last := List.mem_append.mp member
  · exact held.older child before
  · exact ⟨returncode, List.mem_singleton.mp last⟩

theorem Held.modify (held : Held state old newest) {f : Child → Child} (fixes : Fixes f) (i : Nat)
    (children : state'.children = state.children.modify i f) (backoff : state'.backoff = state.backoff) :
    Held state' old (if i = old.length then f newest else newest) where
  children := by rw [children, held.children, modify_newest held.older fixes]
  older := held.older
  backoff := backoff.trans held.backoff

/-- Children are told to end, or end; the supervisor stays where it is. -/
theorem Fits.moved (fits : Fits state) {f : Child → Child} (fixes : Fixes f) (i : Nat) (place : state'.place = state.place)
    (current : state'.currentProc = state.currentProc) (backoff : state'.backoff = state.backoff)
    (children : state'.children = state.children.modify i f)
    (heard : ∀ child, state.currentProc = some child → state'.shuttingDown = true → ∀ newest,
      (state.shuttingDown = true → newest ≠ .running false) → (if i = child then f newest else newest) ≠ .running false) :
    Fits state' := by
  have same (ended : AllEnded state.children) : state'.children = state.children := by
    rw [children, ended.modify fixes]
  unfold Fits at fits ⊢
  rw [place]
  cases here : state.place with
  | loop | launching =>
    rw [here] at fits
    obtain ⟨none, ended, counted⟩ := fits
    refine ⟨current.trans none, ?_, ?_⟩
    · rw [same ended]
      exact ended
    · rw [same ended, backoff]
      exact counted
  | launched child =>
    rw [here] at fits
    obtain ⟨none, old, newest, held, length⟩ := fits
    exact ⟨current.trans none, old, _, held.modify fixes i children backoff, length⟩
  | assigned =>
    rw [here] at fits
    obtain ⟨old, newest, held, own⟩ := fits
    exact ⟨old, _, held.modify fixes i children backoff, current.trans own⟩
  | waiting =>
    rw [here] at fits
    obtain ⟨old, newest, held, own, asked⟩ := fits
    exact ⟨old, _, held.modify fixes i children backoff, current.trans own, fun down => heard _ own down newest asked⟩
  | waited returncode =>
    rw [here] at fits
    obtain ⟨old, held, own⟩ := fits
    have kept := held.modify fixes i children backoff
    rw [fixes returncode, ite_self] at kept
    exact ⟨old, kept, current.trans own⟩
  | returned returncode =>
    rw [here] at fits
    obtain ⟨none, old, held⟩ := fits
    have kept := held.modify fixes i children backoff
    rw [fixes returncode, ite_self] at kept
    exact ⟨current.trans none, old, kept⟩
  | sleeping seconds =>
    rw [here] at fits
    obtain ⟨none, ended, n, counted, waits, waited⟩ := fits
    refine ⟨current.trans none, ?_, n, ?_, waits, backoff.trans waited⟩ <;> rw [same ended]
    · exact ended
    · exact counted
  | slept =>
    rw [here] at fits
    obtain ⟨none, ended, n, counted, waited⟩ := fits
    refine ⟨current.trans none, ?_, n, ?_, backoff.trans waited⟩ <;> rw [same ended]
    · exact ended
    · exact counted
  | stopping | ended =>
    rw [here] at fits
    obtain ⟨none, ended⟩ := fits
    refine ⟨current.trans none, ?_⟩
    rw [same ended]
    exact ended

theorem terminate_asked (newest : Child) : newest.terminate ≠ .running false := by
  cases newest with
  | running terminated => exact fun same => by cases same
  | exited returncode => exact fun same => by cases same

theorem Fits.does (fits : Fits state) (goes : Goes state event state') : Fits state' := by
  cases goes with
  | stays => exact fits
  | signal =>
    unfold Looper.requestShutdown
    dsimp only
    split
    next child current =>
      refine fits.moved fixes_terminate child rfl rfl rfl rfl fun other own _ newest _ => ?_
      cases current.symm.trans own
      rw [if_pos rfl]
      exact terminate_asked newest
    next none =>
      refine fits.moved (fun _ => rfl : Fixes id) 0 rfl rfl rfl (by simp) fun other own => ?_
      rw [none] at own
      cases own
  | @exits child returncode =>
    refine fits.moved (fixes_exit returncode) child rfl rfl rfl rfl fun other own down newest asked => ?_
    split
    · cases newest with
      | running terminated => exact fun same => by cases same
      | exited returncode => exact fun same => by cases same
    · exact asked down
  | leaves here =>
    unfold Fits at fits ⊢
    rw [here] at fits
    exact ⟨fits.1, fits.2.1⟩
  | begins here =>
    unfold Fits at fits ⊢
    rw [here] at fits
    exact fits
  | launches here =>
    unfold Fits at fits ⊢
    rw [here] at fits
    obtain ⟨none, ended, counted⟩ := fits
    exact ⟨none, state.children, .running false, ⟨rfl, ended, counted⟩, rfl⟩
  | fails here =>
    unfold Fits at fits ⊢
    rw [here] at fits
    exact ⟨fits.1, fits.2.1⟩
  | assigns here =>
    unfold Fits at fits ⊢
    rw [here] at fits
    obtain ⟨none, old, newest, held, rfl⟩ := fits
    exact ⟨old, newest, ⟨held.children, held.older, held.backoff⟩, rfl⟩
  | @hears launches child here asked current =>
    unfold Fits at fits ⊢
    rw [here] at fits
    obtain ⟨old, newest, held, own⟩ := fits
    cases current.symm.trans own
    have kept : Held (({ state with place := .waiting } : Looper).terminate old.length) old _ :=
      held.modify fixes_terminate old.length rfl rfl
    rw [if_pos rfl] at kept
    exact ⟨old, _, kept, current, fun _ => terminate_asked newest⟩
  | waits here calm =>
    unfold Fits at fits ⊢
    rw [here] at fits
    obtain ⟨old, newest, held, own⟩ := fits
    refine ⟨old, newest, ⟨held.children, held.older, held.backoff⟩, own, fun asked => ?_⟩
    obtain calm | none := calm
    · have asked : state.shuttingDown = true := asked
      rw [asked] at calm
      cases calm
    · rw [none] at own
      cases own
  | @reaps launches child returncode here current exited =>
    unfold Fits at fits ⊢
    rw [here] at fits
    obtain ⟨old, newest, held, own, asked⟩ := fits
    cases current.symm.trans own
    rw [held.children, List.getElem?_concat_length] at exited
    cases exited
    exact ⟨old, ⟨held.children, held.older, held.backoff⟩, own⟩
  | forgets here =>
    unfold Fits at fits ⊢
    rw [here] at fits
    obtain ⟨old, held, own⟩ := fits
    exact ⟨rfl, old, held.children, held.older, held.backoff⟩
  | stops here asked =>
    unfold Fits at fits ⊢
    rw [here] at fits
    obtain ⟨none, old, held⟩ := fits
    exact ⟨none, held.ended⟩
  | restarts here calm =>
    unfold Fits at fits ⊢
    rw [here] at fits
    obtain ⟨none, old, held⟩ := fits
    refine ⟨none, held.ended, ?_⟩
    rw [held.children, failures_clean, delay_zero]
  | backsOff here calm bad =>
    unfold Fits at fits ⊢
    rw [here] at fits
    obtain ⟨none, old, held⟩ := fits
    refine ⟨none, held.ended, failures old, ?_, held.backoff, held.backoff⟩
    rw [held.children, failures_failed old bad]
  | wakes here =>
    unfold Fits at fits ⊢
    rw [here] at fits
    obtain ⟨none, ended, n, counted, -, waited⟩ := fits
    exact ⟨none, ended, n, counted, waited⟩
  | doubles here =>
    unfold Fits at fits ⊢
    rw [here] at fits
    obtain ⟨none, ended, n, counted, waited⟩ := fits
    refine ⟨none, ended, ?_⟩
    rw [counted, delay_succ, ← waited]
  | ends here =>
    unfold Fits at fits ⊢
    rw [here] at fits
    exact fits

theorem fits_start : Fits Looper.start := ⟨rfl, fun _ member => absurd member List.not_mem_nil, delay_zero.symm⟩

theorem fits_run (events : List Event) : Fits (events.foldl Looper.step .start) := by
  have kept : ∀ state, Fits state → Fits (events.foldl Looper.step state) := by
    induction events with
    | nil => exact fun _ fits => fits
    | cons event rest ih => exact fun state fits => ih _ (fits.does (goes_step state event))
  exact kept _ fits_start

theorem Fits.older (fits : Fits state) : ∀ child ∈ state.children.dropLast, ∃ returncode, child = .exited returncode := by
  have all (ended : AllEnded state.children) :
      ∀ child ∈ state.children.dropLast, ∃ returncode, child = .exited returncode :=
    fun child member => ended child ((List.dropLast_sublist _).subset member)
  have but {old : List Child} {newest : Child} (held : Held state old newest) :
      ∀ child ∈ state.children.dropLast, ∃ returncode, child = .exited returncode := by
    rw [held.children, List.dropLast_concat]
    exact held.older
  unfold Fits at fits
  cases here : state.place with
  | loop | launching | sleeping | slept =>
    rw [here] at fits
    exact all fits.2.1
  | launched child =>
    rw [here] at fits
    obtain ⟨-, old, newest, held, -⟩ := fits
    exact but held
  | assigned | waiting =>
    rw [here] at fits
    obtain ⟨old, newest, held, -⟩ := fits
    exact but held
  | waited =>
    rw [here] at fits
    obtain ⟨old, held, -⟩ := fits
    exact but held
  | returned =>
    rw [here] at fits
    obtain ⟨-, old, held⟩ := fits
    exact but held
  | stopping | ended =>
    rw [here] at fits
    exact all fits.2

/-- In every run, with signals and ends of children at any moments: all children but the newest have ended; once a
signal has come, the supervisor waits for no running child that it has not told to end; and when it has ended itself,
it leaves no child behind. -/
theorem no_child_left (events : List Event) :
    let state := events.foldl Looper.step .start
    (∀ child ∈ state.children.dropLast, ∃ returncode, child = .exited returncode) ∧
      (state.shuttingDown = true → state.place = .waiting → .running false ∉ state.children) ∧
        (state.place = .ended → ∀ child ∈ state.children, ∃ returncode, child = .exited returncode) := by
  intro state
  have fits : Fits state := fits_run events
  refine ⟨fits.older, fun asked here member => ?_, fun here => ?_⟩
  · unfold Fits at fits
    rw [here] at fits
    obtain ⟨old, newest, held, -, told⟩ := fits
    rw [held.children] at member
    obtain before | last := List.mem_append.mp member
    · obtain ⟨returncode, same⟩ := held.older _ before
      cases same
    · exact told asked (List.mem_singleton.mp last).symm
  · unfold Fits at fits
    rw [here] at fits
    exact fits.2

/-- Before each new start after a failure the supervisor sleeps 1, 2, 4, 8, 16 and then 30 seconds, by the number of
children that failed in a row up to the one that ended last. -/
theorem backs_off (events : List Event) {seconds : ℚ}
    (sleeps : (events.foldl Looper.step .start).place = .sleeping seconds) :
    1 ≤ failures (events.foldl Looper.step .start).children ∧
      seconds = min (2 ^ (failures (events.foldl Looper.step .start).children - 1)) 30 := by
  have fits := fits_run events
  unfold Fits at fits
  rw [sleeps] at fits
  obtain ⟨-, -, n, counted, rfl, -⟩ := fits
  rw [counted]
  exact ⟨Nat.le_add_left 1 n, rfl⟩

/-- Two children fail, one after the other. -/
def failing : List Event :=
  [.next true, .next true, .next true, .next true, .childExits 0 1, .next true, .next true, .next true, .wake, .next true,
    .next true, .next true, .next true, .next true, .childExits 1 (-9), .next true, .next true, .next true]

theorem backs_off_failing :
    1 ≤ failures (failing.foldl Looper.step .start).children ∧
      (2 : ℚ) = min (2 ^ (failures (failing.foldl Looper.step .start).children - 1)) 30 :=
  backs_off failing (by decide +kernel)

/-! ## The end -/

/-- How many steps are left to the end, once a signal has come. -/
def rank : Place → Nat
  | .launching => 9
  | .launched _ => 8
  | .assigned => 7
  | .waiting => 6
  | .waited _ => 5
  | .returned _ => 4
  | .sleeping _ => 4
  | .slept => 3
  | .loop => 2
  | .stopping => 1
  | .ended => 0

/-- How often the supervisor goes from one place to another. -/
def moves : List Event → Looper → Nat
  | [], _ => 0
  | event :: rest, state => (if (state.step event).place = state.place then 0 else 1) + moves rest (state.step event)

/-- The children that there will be. -/
def room (state : Looper) : Nat := state.children.length + if state.place = .launching then 1 else 0

theorem asked_does (asked : state.shuttingDown = true) (goes : Goes state event state') : state'.shuttingDown = true := by
  cases goes with
  | signal =>
    unfold Looper.requestShutdown
    dsimp only
    split <;> rfl
  | _ => exact asked

theorem asked_still (asked : state.shuttingDown = true) (later : List Event) :
    (later.foldl Looper.step state).shuttingDown = true := by
  induction later generalizing state with
  | nil => exact asked
  | cons event rest ih => exact ih (asked_does asked (goes_step state event))

/-- With a signal pending every step leads nearer to the end, and at most one child more is started. -/
theorem rank_does (asked : state.shuttingDown = true) (goes : Goes state event state') :
    (state'.place = state.place ∨ rank state'.place < rank state.place) ∧ room state' ≤ room state := by
  have absurd (calm : state.shuttingDown = false) : False := by
    rw [asked] at calm
    cases calm
  cases goes with
  | stays => exact ⟨.inl rfl, le_rfl⟩
  | signal =>
    unfold Looper.requestShutdown
    dsimp only
    split
    · refine ⟨.inl rfl, ?_⟩
      simp only [room, Looper.terminate, List.length_modify]
      exact le_rfl
    · exact ⟨.inl rfl, le_rfl⟩
  | exits => exact ⟨.inl rfl, by simp [room]⟩
  | begins here calm => exact (absurd calm).elim
  | restarts here calm => exact (absurd calm).elim
  | backsOff here calm => exact (absurd calm).elim
  | launches here | fails here | leaves here | assigns here | reaps here | forgets here | stops here | wakes here
  | doubles here | ends here | waits here =>
    exact ⟨.inr (by simp [rank, here]), by simp [room, here]⟩
  | hears here => exact ⟨.inr (by simp [rank, here, Looper.terminate]), by simp [room, here, Looper.terminate]⟩

theorem asked_run (asked : state.shuttingDown = true) (later : List Event) :
    moves later state + rank (later.foldl Looper.step state).place ≤ rank state.place ∧
      room (later.foldl Looper.step state) ≤ room state := by
  induction later generalizing state with
  | nil => exact ⟨by simp [moves], le_rfl⟩
  | cons event rest ih =>
    have goes := goes_step state event
    obtain ⟨nearer, fewer⟩ := rank_does asked goes
    obtain ⟨moved, kept⟩ := ih (asked_does asked goes)
    refine ⟨?_, kept.trans fewer⟩
    rw [List.foldl_cons, moves]
    obtain same | less := nearer
    · rw [if_pos same]
      rw [same] at moved
      omega
    · rw [if_neg fun same => (same ▸ less).ne rfl]
      omega

/-- With a signal pending the supervisor is held up by a sleep, or by a child that it has told to end. -/
theorem held_up (fits : Fits state) (asked : state.shuttingDown = true) :
    state.place = .ended ∨ (∃ seconds, state.place = .sleeping seconds) ∨
      (state.place = .waiting ∧ ∃ child, state.currentProc = some child ∧ state.children[child]? = some (.running true)) ∨
        ∀ launches, (state.next launches).place ≠ state.place := by
  cases here : state.place with
  | ended => exact .inl rfl
  | sleeping seconds => exact .inr (.inl ⟨seconds, rfl⟩)
  | waiting =>
    unfold Fits at fits
    rw [here] at fits
    obtain ⟨old, newest, held, own, told⟩ := fits
    have current : state.children[old.length]? = some newest := by
      rw [held.children, List.getElem?_concat_length]
    cases newest with
    | running terminated =>
      cases terminated with
      | true => exact .inr (.inr (.inl ⟨rfl, old.length, own, current⟩))
      | false => exact absurd rfl (told asked)
    | exited returncode =>
      refine .inr (.inr (.inr fun launches => ?_))
      simp [Looper.next, here, own, current]
  | launching =>
    refine .inr (.inr (.inr fun launches => ?_))
    cases launches <;> simp [Looper.next, here]
  | assigned =>
    refine .inr (.inr (.inr fun launches => ?_))
    unfold Looper.next
    simp only [here]
    split <;> simp [Looper.terminate]
  | loop | launched | waited | returned | slept | stopping =>
    exact .inr (.inr (.inr fun launches => by simp [Looper.next, here, asked]))

/-- The signal comes between `Popen` and the assignment. -/
def between : List Event := [.next true, .next true, .signal]

end EdgeVms.Verified.Shutdown
