import EdgeVms.Verified.Vms.Calls
import Mathlib.Data.Fintype.Basic

/-! # Overlapping calls of the controllers

Two controllers over one store are harmless as long as no call disturbs a camera
that another call is settling; two moves of one camera at a time are not.
-/

namespace EdgeVms.Verified

open Process Python Platform Vms VmsController

variable {ι M : Type} [DecidableEq ι] {store : Variables} {view : View} {i : ι}

/-- The request does not bring the camera towards another worker than `dest`. -/
def Respects (camera : String) (dest : Option String) (rows : Rows) : Request M → Prop
  | .put key items _ =>
    (key = placementRow camera →
      workerIn (stored items) = workerOf rows camera ∨ workerIn (stored items) = dest) ∧
    (key = vms.assignment (lastSegment key) → camera ∈ unitsIn (stored items) →
      camera ∈ unitsOf rows (lastSegment key) ∨ some (lastSegment key) = dest)
  | _ => True

instance (camera : String) (dest : Option String) (rows : Rows) :
    (request : Request M) → Decidable (Respects camera dest rows request)
  | .put _ _ _ => inferInstanceAs (Decidable (_ ∧ _))
  | .get _ | .list _ | .wall | .clock | .random | .heartbeats _ | .heartbeat _ _ | .actuator _ _
  | .bus | .append _ | .recollect | .remember _ => .isTrue trivial

/-- What a call in this phase needs of the requests of the others. -/
def Admits (rows : Rows) (request : Request M) : Phase → Prop
  | .settled camera dest => Respects camera dest rows request
  | _ => True

instance (rows : Rows) (request : Request M) : (phase : Phase) → Decidable (Admits rows request phase)
  | .settled camera dest => inferInstanceAs (Decidable (Respects camera dest rows request))
  | .idle | .renewing | .starting _ _ => .isTrue trivial

/-- The request does not write the list of the worker without a name. -/
def Names : Request M → Prop
  | .put key _ _ => key ≠ vms.assignment ""
  | _ => True

instance : (request : Request M) → Decidable (Names request)
  | .put _ _ _ => inferInstanceAs (Decidable (_ ≠ _))
  | .get _ | .list _ | .wall | .clock | .random | .heartbeats _ | .heartbeat _ _ | .actuator _ _
  | .bus | .append _ | .recollect | .remember _ => .isTrue trivial

/-- The next step of `i` leaves alone every camera that another call is settling. -/
def Undisturbed (pool : Pool (interface M) Phase Exn Unit (World ι M) ι) (i : ι) : Prop :=
  ∀ request ∈ (pool.procs i).request?, Names request ∧
    ∀ j, j ≠ i → ∀ phase ∈ (pool.procs j).label?, Admits pool.state.vars request phase

instance [Fintype ι] (pool : Pool (interface M) Phase Exn Unit (World ι M) ι) (i : ι) :
    Decidable (Undisturbed pool i) := by
  unfold Undisturbed
  infer_instance

theorem toward_of_respects (honest : Honest store) {camera : String} {dest : Option String}
    {request : Request M} {world : World ι M} (respects : Respects camera dest world.vars request) :
    Toward camera dest world.vars (handler store view i request world).2.vars := by
  obtain kept | ⟨key, items, cas, rfl, -, written⟩ := honest.step_cases view i request world
  · rw [kept]
    exact Toward.refl camera dest world.vars
  · rw [written]
    constructor
    · by_cases row : key = placementRow camera
      · subst row
        rw [workerOf_write_self]
        exact respects.1 rfl
      · exact .inl (workerOf_write_other _ _ row)
    · intro other stands
      by_cases list : key = vms.assignment other
      · subst list
        rw [unitsOf_write_self] at stands
        exact respects.2 rfl stands
      · rw [unitsOf_write_other _ _ list] at stands
        exact .inl stands

/-- No camera stands in the list of the worker without a name. -/
def Unnamed (rows : Rows) : Prop := ∀ cid : Int, toString cid ∉ unitsOf rows ""

theorem unnamed_of_names (honest : Honest store) {request : Request M} {world : World ι M}
    (unnamed : Unnamed world.vars) (names : Names request) :
    Unnamed (handler store view i request world).2.vars := by
  obtain kept | ⟨key, items, cas, rfl, -, written⟩ := honest.step_cases view i request world
  · rw [kept]
    exact unnamed
  · intro cid stands
    rw [written, unitsOf_write_other _ _ names] at stands
    exact unnamed cid stands

theorem later_step (honest : Honest store) (request : Request M) (world : World ι M) :
    Versioned.Later world.vars (handler store view i request world).2.vars := by
  obtain kept | ⟨key, items, cas, -, -, written⟩ := honest.step_cases view i request world
  · rw [kept]
    exact Versioned.Later.refl _
  · rw [written]
    exact Versioned.Later.write _ _ _

/-- The calls of one controller each, side by side. -/
def overlap (capacity : ι → Int) (calls : ι → List Call) (world : World ι M) :
    Pool (interface M) Phase Exn Unit (World ι M) ι :=
  ⟨fun i => Call.all (capacity i) (calls i), world⟩

theorem overlap_step (honest : Honest store) {views : ι → View}
    {pool : Pool (interface M) Phase Exn Unit (World ι M) ι} {i : ι} (undisturbed : Undisturbed pool i)
    (unnamed : Unnamed pool.state.vars) :
    Unnamed (Pool.step (fun i => handler store (views i) i) pool i).state.vars ∧
      Versioned.Later pool.state.vars (Pool.step (fun i => handler store (views i) i) pool i).state.vars ∧
      ∀ j ≠ i, ∀ camera dest, (pool.procs j).label? = some (.settled camera dest) →
        Toward camera dest pool.state.vars (Pool.step (fun i => handler store (views i) i) pool i).state.vars := by
  cases here : pool.procs i with
  | ret value | raise error =>
    rw [Pool.step_finished (by rw [here]; trivial)]
    exact ⟨unnamed, Versioned.Later.refl _, fun _ _ camera dest _ => Toward.refl camera dest _⟩
  | call label request next =>
    rw [Pool.step_call here]
    obtain ⟨names, others⟩ := undisturbed request (by rw [here]; rfl)
    exact ⟨unnamed_of_names honest unnamed names, later_step honest request _,
      fun j other camera dest settled => toward_of_respects honest (others j other _ settled)⟩

/-- Whatever the calls and their interleaving: a store in which no camera stands in a list other than
its own stays one, as long as no call disturbs what another is settling. -/
theorem overlap_consistent (honest : Honest store) {views : ι → View} {capacity : ι → Int}
    {calls : ι → List Call} {world : World ι M} {schedule : List ι}
    (undisturbed : Along (Pool.step fun i => handler store (views i) i) Undisturbed schedule
      (overlap capacity calls world))
    (initially : Consistent world.vars ∧ Unnamed world.vars) :
    Consistent (Pool.exec (fun i => handler store (views i) i) schedule
        (overlap capacity calls world)).state.vars ∧
      Unnamed (Pool.exec (fun i => handler store (views i) i) schedule
        (overlap capacity calls world)).state.vars := by
  refine (Pool.safe_exec (fun _ phase => OnRows (overlapRely phase)) (fun _ => OnRows Promise)
    (fun world => Consistent world.vars ∧ Unnamed world.vars)
    ?still ?transitive ?keeps ?compatible undisturbed ?safe initially).1
  case still => exact fun i phase world holds => overlapRely_refl phase holds.1
  case transitive =>
    intro i phase world world' world'' first second
    cases phase with
    | settled camera dest => exact Settles.trans first second
    | idle | renewing | starting _ _ => exact Moves.trans first second
  case keeps =>
    intro pool i undisturbed promise holds
    exact ⟨promise holds.1, (overlap_step honest undisturbed holds.2).1⟩
  case compatible =>
    intro pool i j other before undisturbed after phase waits
    obtain ⟨-, later, toward⟩ := overlap_step honest undisturbed before.2
    have moves : Moves pool.state.vars (Pool.step _ pool i).state.vars := ⟨after.1, later⟩
    cases phase with
    | settled camera dest => exact ⟨moves, toward j other camera dest waits⟩
    | idle | renewing | starting _ _ => exact moves
  case safe =>
    intro i
    exact Safe.mono (fun _ _ _ => trivial) (calls_careful honest (capacity i) (calls i) world)

/-- Each camera stands in at most one list, that of the worker its placement row names. -/
def ListedOnce (rows : Rows) : Prop :=
  ∀ (cid : Int) worker, toString cid ∈ unitsOf rows worker →
    workerOf rows (toString cid) = some worker ∧ ∀ other, toString cid ∈ unitsOf rows other → other = worker

theorem listedOnce_iff {rows : Rows} : ListedOnce rows ↔ Consistent rows ∧ Unnamed rows := by
  constructor
  · intro once
    exact ⟨fun cid worker _ stands => (once cid worker stands).1,
      fun cid stands => workerOf_ne_empty _ _ (once cid "" stands).1⟩
  · rintro ⟨consistent, unnamed⟩ cid worker stands
    have nonempty : ∀ other, toString cid ∈ unitsOf rows other → other ≠ "" := by
      rintro other also rfl
      exact unnamed cid also
    have names := consistent cid worker (nonempty worker stands) stands
    refine ⟨names, fun other also => ?_⟩
    have same := consistent cid other (nonempty other also) also
    rw [names] at same
    exact (Option.some.inj same).symm

theorem not_listedOnce {rows : Rows} {cid : Int} {worker other : String} (differ : other ≠ worker)
    (first : toString cid ∈ unitsOf rows worker) (second : toString cid ∈ unitsOf rows other) :
    ¬ ListedOnce rows := fun once => differ ((once cid worker first).2 other second)

theorem freshWorld_listedOnce (ι : Type) : ListedOnce (freshWorld ι).vars := by
  intro cid worker stands
  cases stands

/-- Both controllers place a camera on `w-1`, turn by turn; then one of them moves its own away. -/
def twoPlaces : Bool → List Call
  | true => [.place 1 (some ["w-1"])]
  | false => [.place 2 (some ["w-1"]), .move 2 "w-2" "b"]

def turnByTurn : List Bool := (List.replicate 20 [true, false]).flatten

def overlapRun (calls : Bool → List Call) (schedule : List Bool) :
    Pool (interface Unit) Phase Exn Unit (World Bool Unit) Bool :=
  Pool.exec (fun i => handler FileVariables {} i) schedule (overlap (fun _ => 50) calls (freshWorld Bool))

/-- Both controllers move camera 1, one to `w-1` and the other to `w-2`. -/
def twoMoves : Bool → List Call
  | true => [.move 1 "w-1" "a"]
  | false => [.move 1 "w-2" "b"]

/-- The second move starts when the first has written its placement row, and ends before it goes on. -/
def moveInMove : List Bool := List.replicate 4 true ++ List.replicate 6 false ++ List.replicate 2 true

end EdgeVms.Verified
